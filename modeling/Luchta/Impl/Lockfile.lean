import Luchta.Framework.BTreeMap
import Luchta.Framework.BTreeSet
import Luchta.Framework.EdgeSearch
import Luchta.Framework.Text
import Mathlib.Data.Prod.Lex
import Mathlib.Data.String.Basic

/-!
# Lockfiles

The two lockfile formats as maps from descriptors to entries, and the operations that dependency
closures use. The texts are parsed by libraries: what they make of a text is a parameter.
-/

namespace Luchta.Impl

open Luchta.Framework

inductive LockfileError
  | Parse (message : String)
  | InvalidPackageReference (key : String)
  deriving DecidableEq

def LockfileError.message : LockfileError → String
  | Parse message => "failed to parse lockfile: " ++ message
  | InvalidPackageReference key => "invalid package reference: " ++ key

/-- Resolved package entry in a lockfile. -/
structure Package where
  /-- Opaque lockfile key used to look up dependency metadata later. -/
  key : String
  version : String
  /-- Version plus resolution and integrity metadata. -/
  lockIdentity : String
  deriving DecidableEq

/-! ## Yarn v1 -/

/-- An entry as the parser library returns it. -/
structure Yarn1RawEntry where
  name : String
  version : String
  resolved : String
  integrity : String
  dependencies : List (String × String)
  descriptors : List (String × String)

structure Yarn1Entry where
  name : String
  version : String
  lockIdentity : String
  dependencies : BTreeMap String String

structure Yarn1Lockfile where
  entriesByKey : BTreeMap String Yarn1Entry

namespace Yarn1Lockfile

/-- Empty fields are left out. -/
def lockIdentity (entry : Yarn1RawEntry) : String :=
  entry.version ++ (if entry.resolved = "" then "" else " resolved=" ++ entry.resolved) ++
    (if entry.integrity = "" then "" else " integrity=" ++ entry.integrity)

/-- One binding for each descriptor of an entry. -/
def ofEntries (entries : List Yarn1RawEntry) : Yarn1Lockfile where
  entriesByKey := .ofList (entries.flatMap fun entry => entry.descriptors.map fun d =>
    (d.1 ++ "@" ++ d.2,
      ⟨entry.name, entry.version, lockIdentity entry, .ofList entry.dependencies⟩))

def parse (parseStr : String → Except String (List Yarn1RawEntry)) (content : String) :
    Except LockfileError Yarn1Lockfile :=
  ((parseStr content).mapError .Parse).map ofEntries

def resolvePackage (l : Yarn1Lockfile) (name version : String) : Option Package :=
  let key := name ++ "@" ++ version
  (l.entriesByKey.get? key).map fun entry => ⟨key, entry.version, entry.lockIdentity⟩

end Yarn1Lockfile

/-! ## Yarn Berry -/

structure YarnBerryRawEntry where
  version : String
  resolution : Option String
  checksum : Option String
  dependencies : BTreeMap String String

structure YarnBerryEntry where
  version : String
  lockIdentity : String
  dependencies : BTreeMap String String

structure YarnBerryLockfile where
  entriesByDescriptor : BTreeMap String YarnBerryEntry

/-- The document as the parser library returns it: the metadata block, if there is one, and the keys
(none for one that is not a string) with their values, each read as what it should be. -/
structure BerryDocument where
  metadata : Option (Except String Unit)
  entries : List (Option String × Except String YarnBerryRawEntry)

/-- `split(", ")`. -/
def splitDescriptors : List Char → List (List Char)
  | [] => [[]]
  | ',' :: ' ' :: rest => [] :: splitDescriptors rest
  | c :: rest =>
    match splitDescriptors rest with
    | [] => [[c]]
    | d :: ds => (c :: d) :: ds

namespace YarnBerryLockfile

def lockIdentity (entry : YarnBerryRawEntry) : String :=
  entry.version ++ (entry.resolution.elim "" fun r => " resolution=" ++ r) ++
    (entry.checksum.elim "" fun c => " checksum=" ++ c)

/-- One binding for each descriptor of a key. -/
def insertEntry (m : BTreeMap String YarnBerryEntry) (key : String) (entry : YarnBerryRawEntry) :
    BTreeMap String YarnBerryEntry :=
  (splitDescriptors key.toList).foldl
    (fun m d => m.insert (String.ofList d) ⟨entry.version, lockIdentity entry, entry.dependencies⟩) m

def insertEntries (m : BTreeMap String YarnBerryEntry) :
    List (Option String × Except String YarnBerryRawEntry) →
      Except LockfileError (BTreeMap String YarnBerryEntry)
  | [] => .ok m
  | (none, _) :: _ => .error (.Parse "unexpected non-string key in Yarn Berry lockfile")
  | (some key, value) :: rest =>
    if key = "__metadata" then insertEntries m rest
    else
      match value with
      | .error message => .error (.Parse message)
      | .ok entry => insertEntries (insertEntry m key entry) rest

def parse (fromStr : String → Except String BerryDocument) (content : String) :
    Except LockfileError YarnBerryLockfile := do
  let document ← (fromStr content).mapError .Parse
  match document.metadata with
  | none => .error (.Parse "missing __metadata block")
  | some metadata =>
    metadata.mapError .Parse
    return ⟨← insertEntries .empty document.entries⟩

def candidateKeys (name version : String) : List String :=
  if ':' ∈ version.toList then [name ++ "@" ++ version]
  else [name ++ "@npm:" ++ version, name ++ "@" ++ version]

def resolvePackage (l : YarnBerryLockfile) (name version : String) : Option Package :=
  (candidateKeys name version).findSome? fun key =>
    (l.entriesByDescriptor.get? key).map fun entry => ⟨key, entry.version, entry.lockIdentity⟩

end YarnBerryLockfile

/-! ## Common operations -/

inductive Lockfile
  | yarn1 (l : Yarn1Lockfile)
  | yarnBerry (l : YarnBerryLockfile)

namespace Lockfile

/-- Resolving never fails; the path of the workspace package is not used. -/
def resolvePackage (l : Lockfile) (_workspacePath name version : String) :
    Except LockfileError (Option Package) :=
  match l with
  | yarn1 l => .ok (l.resolvePackage name version)
  | yarnBerry l => .ok (l.resolvePackage name version)

/-- The dependency map bound to a key. -/
def dependencies (l : Lockfile) (key : String) : Option (BTreeMap String String) :=
  match l with
  | yarn1 l => (l.entriesByKey.get? key).map Yarn1Entry.dependencies
  | yarnBerry l => (l.entriesByDescriptor.get? key).map YarnBerryEntry.dependencies

def allDependencies (l : Lockfile) (key : String) : Except LockfileError (BTreeMap String String) :=
  match l.dependencies key with
  | some deps => .ok deps
  | none => .error (.InvalidPackageReference key)

def keys : Lockfile → List String
  | yarn1 l => l.entriesByKey.keys
  | yarnBerry l => l.entriesByDescriptor.keys

/-- The dependency edges out of a key. -/
def edges (l : Lockfile) (key : String) : List (String × String) :=
  (l.dependencies key).elim [] BTreeMap.entries

/-- The full transitive closure, each external dependency with its identity. The search follows an
edge at most once for each time it is queued, so that the edges of all entries are fuel enough. -/
def transitiveDependencies (l : Lockfile) (key : String) :
    Except LockfileError (BTreeSet (String ×ₗ String)) :=
  match l.allDependencies key with
  | .error e => .error e
  | .ok deps =>
    EdgeSearch.follow (fun d => l.resolvePackage "" d.1 d.2) Package.key
      (fun key => (l.allDependencies key).map BTreeMap.entries)
      (fun pairs d package => pairs.insert (toLex (d.1, package.lockIdentity)))
      (deps.entries.length + (l.keys.map fun key => (l.edges key).length).sum)
      deps.entries [] .empty

end Lockfile

/-- What the common operations ask of a lockfile format. -/
structure LockfileBackend where
  resolvePackage : (workspacePath name version : String) → Except LockfileError (Option Package)
  allDependencies : (key : String) → Except LockfileError (BTreeMap String String)

def Lockfile.backend (l : Lockfile) : LockfileBackend := ⟨l.resolvePackage, l.allDependencies⟩

/-- The full transitive closure over any format; no result where the search does not end with this
fuel. -/
def LockfileBackend.transitiveDependencies (b : LockfileBackend) (fuel : Nat) (key : String) :
    Option (Except LockfileError (BTreeSet (String ×ₗ String))) :=
  match b.allDependencies key with
  | .error e => some (.error e)
  | .ok deps =>
    EdgeSearch.run (fun d => b.resolvePackage "" d.1 d.2) Package.key
      (fun key => (b.allDependencies key).map BTreeMap.entries)
      (fun pairs d package => pairs.insert (toLex (d.1, package.lockIdentity)))
      fuel deps.entries [] .empty

/-- Berry lockfiles are told by their mandatory `__metadata` block. -/
def parseLockfile (parseStr : String → Except String (List Yarn1RawEntry))
    (fromStr : String → Except String BerryDocument) (content : String) :
    Except LockfileError Lockfile :=
  if containsStr content "__metadata:" then
    (YarnBerryLockfile.parse fromStr content).map .yarnBerry
  else (Yarn1Lockfile.parse parseStr content).map .yarn1

end Luchta.Impl
