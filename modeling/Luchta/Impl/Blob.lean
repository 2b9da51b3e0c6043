import Luchta.Framework.FileTree
import Luchta.Framework.LexicalPath
import Luchta.Impl.LocalCache
import Luchta.Impl.SharedStore

/-!
# Blobs

Archives of output files (`shared/blob.rs`). The bytes of an archive are left to the archive library: an archive
is the list of its entries as they are read one after the other, where an entry that cannot be read is `none`.
Paths below a package are the names that lead there.

* `writeFileBlob`: the files that are archived, under a size cap.
* `validateEntryPath`: the path of an entry, if it stays below the package.
* `extractBlobWithMetaToStaging`: an archive is unpacked into a directory of its own.
* `moveNonMetaFiles`: what was unpacked is moved into the package, file by file.

Left out: symbolic links, paths that are not Unicode, prefixes of Windows paths, and errors of the file system
other than that something else stands at a path.
-/

namespace Luchta.Impl.Blob

open Luchta.Framework

def META_DIR_NAME : String := ".luchta-meta"

structure File where
  content : Bytes
  mode : UInt32
  deriving DecidableEq

inductive EntryType
  | file
  | dir
  | other
  deriving DecidableEq

structure TarEntry where
  path : String
  entryType : EntryType
  mode : UInt32
  content : Bytes
  deriving DecidableEq

inductive IoFailure
  | InvalidData (message : String)
  /-- The file system refuses an operation. -/
  | Os
  deriving DecidableEq

inductive RestoreError
  | Corrupt
  | Io (error : IoFailure)
  deriving DecidableEq

/-- `u64::saturating_add`. -/
def saturatingAdd (a b : Nat) : Nat := min (a + b) (2 ^ 64 - 1)

/-! ## Writing -/

/-- `fs::metadata`, where `none` is not found. -/
def metadata (package : Dir File) (path : List String) : Except IoFailure (Option (Node File)) :=
  match package.entry path with
  | some node => .ok (some node)
  | none =>
    if path.inits.any fun above => (package.entry above).any (· ≠ .dir) then .error .Os else .ok none

def pathNames (path : List FileName) : List String := path.map FileName.name

/-- The files with what is in them; the inner error is the size that is too large. -/
def collectBlobSourceFiles (package : Dir File) (sizeCapBytes : Nat) :
    Nat → List (List FileName) → Except IoFailure (Except Nat (List (List FileName × File)))
  | _, [] => .ok (.ok [])
  | totalBytes, path :: paths =>
    match metadata package (pathNames path) with
    | .error error => .error error
    | .ok none | .ok (some .dir) => collectBlobSourceFiles package sizeCapBytes totalBytes paths
    | .ok (some (.file file)) =>
      let totalBytes := saturatingAdd totalBytes file.content.length
      if totalBytes > sizeCapBytes then .ok (.error totalBytes)
      else (collectBlobSourceFiles package sizeCapBytes totalBytes paths).map (·.map ((path, file) :: ·))

def tarEntryMode (file : File) : UInt32 := file.mode &&& 0o777

def tarEntry (source : List FileName × File) : TarEntry :=
  ⟨(Path.ofNames source.1).toStr, .file, tarEntryMode source.2, source.2.content⟩

section Write

variable {β : Type*} (write : List TarEntry → β)

/-- With it, the blob that is there afterwards. -/
def writeFileBlob (existing : Option β) (package : Dir File) (relativePaths : List (List FileName))
    (sizeCapBytes : Nat) : Except IoFailure (BlobWriteResult × Option β) :=
  if existing.isSome then .ok (.AlreadyExists, existing)
  else
    match collectBlobSourceFiles package sizeCapBytes 0 relativePaths with
    | .error error => .error error
    | .ok (.error bytes) => .ok (.SkippedTooLarge (.ofNat bytes), none)
    | .ok (.ok []) => .ok (.NoOutputs, none)
    | .ok (.ok files) => .ok (.Written, some (write (files.map tarEntry)))

end Write

/-! ## Unpacking -/

def escapesPackage (entryPath : String) : IoFailure :=
  .InvalidData s!"shared blob entry escapes package directory: {entryPath}"

def validateEntryPath (packageDir : Path) (entryPath : String) : Except RestoreError Path :=
  let relativePath := (Path.ofStr entryPath).lexicalNormalize
  if relativePath.isAbsolute || relativePath.components.any fun c => c = .parentDir || c = .rootDir then
    .error (.Io (escapesPackage entryPath))
  else
    let normalizedPackageDir := packageDir.lexicalNormalize
    let destination := (normalizedPackageDir.join relativePath).lexicalNormalize
    if !destination.startsWith normalizedPackageDir then .error (.Io (escapesPackage entryPath))
    else .ok relativePath

/-- The files of older archives that do not go into the package. The content of a report is its bytes. -/
structure ExtractedMetaFiles where
  stdout : Option Bytes
  stderr : Option Bytes
  record : Option Bytes
  reports : List (String × Bytes)
  deriving DecidableEq

namespace ExtractedMetaFiles

def default : ExtractedMetaFiles := ⟨none, none, none, []⟩

variable (metaFiles : ExtractedMetaFiles)

def captureReport (entry : TarEntry) : Except RestoreError ExtractedMetaFiles :=
  match (Path.ofStr entry.path).fileName with
  | none => .error .Corrupt
  | some fileName =>
    if !LocalCache.isValidReportFilename fileName then .error .Corrupt
    else .ok { metaFiles with reports := metaFiles.reports ++ [(fileName, entry.content)] }

/-- With it, whether the entry is one of these files. -/
def capture (entry : TarEntry) : Except RestoreError (Bool × ExtractedMetaFiles) :=
  if !startsWithStr entry.path (META_DIR_NAME ++ "/") then .ok (false, metaFiles)
  else if startsWithStr entry.path (META_DIR_NAME ++ "/reports/") then
    (metaFiles.captureReport entry).map (true, ·)
  else
    match (Path.ofStr entry.path).fileName with
    | none => .error .Corrupt
    | some fileName =>
      .ok (true,
        if fileName = stdoutFileName then { metaFiles with stdout := some entry.content }
        else if fileName = stderrFileName then { metaFiles with stderr := some entry.content }
        else if fileName = metaFileName then { metaFiles with record := some entry.content }
        else metaFiles)

end ExtractedMetaFiles

def addExtractedOutputBytes (totalBytes entryBytes : Nat) (sizeCapBytes : Option Nat) :
    Except RestoreError Nat :=
  let totalBytes := saturatingAdd totalBytes entryBytes
  if sizeCapBytes.any (totalBytes > ·) then .error .Corrupt else .ok totalBytes

structure Extraction where
  staging : Dir File
  metaFiles : ExtractedMetaFiles
  outputBytes : Nat
  deriving DecidableEq

/-- What the file system refuses is an error. -/
def refused {α : Type*} : Option α → Except RestoreError α
  | some a => .ok a
  | none => .error (.Io .Os)

section Extract

variable (packageDir : Path) (sizeCapBytes : Option Nat)

/-- An entry that is not one of the meta files. -/
def unpackEntry (s : Extraction) (entry : TarEntry) : Except RestoreError Extraction := do
  let relativePath ← validateEntryPath packageDir entry.path
  let target := relativePath.names
  match entry.entryType with
  | .dir => return { s with staging := ← refused (s.staging.createDirAll target) }
  | .other => .error .Corrupt
  | .file =>
    let outputBytes ← addExtractedOutputBytes s.outputBytes entry.content.length sizeCapBytes
    let staging ← refused (s.staging.createDirAll target.dropLast)
    let staging ← refused (staging.put target ⟨entry.content, entry.mode⟩)
    return { s with staging := staging, outputBytes := outputBytes }

def extractEntry (s : Extraction) : Option TarEntry → Except RestoreError Extraction
  | none => .error .Corrupt
  | some entry => do
    let captured ← s.metaFiles.capture entry
    if captured.1 then return { s with metaFiles := captured.2 } else unpackEntry packageDir sizeCapBytes s entry

def extractBlobWithMetaToStaging (entries : List (Option TarEntry)) : Except RestoreError Extraction :=
  entries.foldlM (extractEntry packageDir sizeCapBytes) ⟨.nil, .default, 0⟩

inductive ReadResult
  | Restored (staged : Extraction)
  | Missing
  | Corrupt
  deriving DecidableEq

def restoreFileBlobStaged {β : Type*} (read : β → List (Option TarEntry)) (blob : Option β) :
    Except IoFailure ReadResult :=
  match blob with
  | none => .ok .Missing
  | some blob =>
    match extractBlobWithMetaToStaging packageDir sizeCapBytes (read blob) with
    | .ok staged => .ok (.Restored staged)
    | .error .Corrupt => .ok .Corrupt
    | .error (.Io error) => .error error

end Extract

/-! ## Moving -/

/-- What there is after files were moved, or as many of them as could be. -/
structure MoveResult where
  package : Dir File
  writtenPaths : List (List String)
  /-- What is left where they were. -/
  left : Dir File
  failed : Bool
  deriving DecidableEq

/-- A directory can be removed only if nothing is left in it. -/
def moveNonMetaFiles : Dir File → List String → Dir File → MoveResult
  | .nil, _, package => ⟨package, [], .nil, false⟩
  | .file name file rest, toDir, package =>
    if name = META_DIR_NAME then
      let moved := moveNonMetaFiles rest toDir package
      { moved with left := .file name file moved.left }
    else
      match package.createDirAll toDir with
      | none => ⟨package, [], .file name file rest, true⟩
      | some package =>
        match package.put (toDir ++ [name]) file with
        | none => ⟨package, [], .file name file rest, true⟩
        | some package =>
          let moved := moveNonMetaFiles rest toDir package
          { moved with writtenPaths := (toDir ++ [name]) :: moved.writtenPaths }
  | .dir name children rest, toDir, package =>
    if name = META_DIR_NAME then
      let moved := moveNonMetaFiles rest toDir package
      { moved with left := .dir name children moved.left }
    else
      match package.createDirAll (toDir ++ [name]) with
      | none => ⟨package, [], .dir name children rest, true⟩
      | some package =>
        let child := moveNonMetaFiles children (toDir ++ [name]) package
        if child.failed || child.left ≠ .nil then
          ⟨child.package, child.writtenPaths, .dir name child.left rest, true⟩
        else
          let moved := moveNonMetaFiles rest toDir child.package
          { moved with writtenPaths := child.writtenPaths ++ moved.writtenPaths }

/-- `StagedRestore::commit`. -/
def commit (staged : Extraction) (package : Dir File) : MoveResult := moveNonMetaFiles staged.staging [] package

end Luchta.Impl.Blob
