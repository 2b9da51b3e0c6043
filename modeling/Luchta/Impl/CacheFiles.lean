import Luchta.Impl.Hashing
import Luchta.Impl.ResolveOutputs

/-!
# Staging advisory files

An archive of advisory files is unpacked into a directory of its own. What is there must match the
patterns of the task, and hash to the state that the archive is named after, before it is used.

* `pathMatchesPatterns`: the patterns, asked about one path.
* `stageCacheFileBlob`: an archive is staged, or it is corrupt.
-/

namespace Luchta.Impl

open Luchta.Framework

/-! ## Archives -/

structure StagedFile where
  size : UInt64
  hash : Digest
  deriving DecidableEq

/-- The files of a staging directory, by their path in it. -/
abbrev StagedRestore := BTreeMap Path StagedFile

inductive BlobReadResult
  | Restored (staged : StagedRestore)
  | Missing
  | Corrupt

def StagedRestore.relativeFilePaths (staged : StagedRestore) : List Path := staged.entries.map Prod.fst

def StagedRestore.fileEntries (staged : StagedRestore) : List FileEntry :=
  staged.entries.map fun file => ⟨normalizePath file.1.toStr, file.2.size, 0, file.2.hash, false⟩

def StagedRestore.cacheFilesHash (blake3 : Bytes → Digest) (staged : StagedRestore) : Digest :=
  combinedCacheFilesHash blake3 staged.fileEntries

/-- A file that is there, under its lexically normalised path. -/
def stageFile (disk : Disk) (packageDir : Path) (staged : StagedRestore) (relativePath : Path) :
    StagedRestore :=
  match disk.metadata (packageDir.join relativePath), disk.blake3File (packageDir.join relativePath) with
  | .ok (some metadata), .ok hash =>
    BTreeMap.insert staged relativePath.lexicalNormalize ⟨metadata.len, hash⟩
  | _, _ => staged

/-- What an archive of these files restores. -/
def archive (disk : Disk) (packageDir : Path) (relativePaths : List Path) : StagedRestore :=
  relativePaths.foldl (stageFile disk packageDir) .empty

/-! ## Validation -/

section Stage

variable (globs : GlobLibrary)

/-- A glob that does not compile matches nothing. -/
def patternMatchesPath (pattern : String) (path : Path) : Bool :=
  if classifyPattern pattern = .Literal then path = .ofStr (unescapeLiteral pattern)
  else (globs.buildPathGlob pattern).toOption.any fun glob => glob path.toStr

def pathMatchesPatterns (patterns : List String) (path : Path) : Bool :=
  let included := (patterns.filter (!isNegated ·)).any fun pattern =>
    patternMatchesPath globs pattern path
  included && !(exclusionBodies patterns).any fun body => patternMatchesPath globs body path

def stagedCacheFileBlobIsValid (blake3 : Bytes → Digest) (staged : StagedRestore)
    (stateHash : Digest) (patterns : List String) : Bool :=
  staged.relativeFilePaths ≠ [] &&
    staged.relativeFilePaths.all (pathMatchesPatterns globs patterns) &&
    staged.cacheFilesHash blake3 = stateHash

inductive CacheFileReadResult
  | Staged (staged : StagedRestore)
  | Missing
  | Corrupt

def stageCacheFileBlob (blake3 : Bytes → Digest) (blob : BlobReadResult) (stateHash : Digest)
    (patterns : List String) : CacheFileReadResult :=
  match blob with
  | .Missing => .Missing
  | .Corrupt => .Corrupt
  | .Restored staged =>
    if stagedCacheFileBlobIsValid globs blake3 staged stateHash patterns then .Staged staged
    else .Corrupt

end Stage

end Luchta.Impl
