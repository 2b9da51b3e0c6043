import Luchta.Framework.Path
import Luchta.Framework.Sorted
import Mathlib.Data.Finset.Insert
import Mathlib.Data.List.Dedup

/-!
# The file watcher

The parts of the watcher that do not wait: which paths it ignores, the batch it makes of an event
list or of an error list, and which directories it registers.
-/

namespace Luchta.Impl

open Luchta.Framework

/-- What a lock guards; `none` if the lock is poisoned. -/
abbrev Lock (α : Type) := Option α

/-! ## Events -/

inductive CreateKind
  | Any
  | File
  | Folder
  | Other
  deriving DecidableEq

inductive ModifyKind
  | Any
  | Data
  | Metadata
  | Name
  | Other
  deriving DecidableEq

inductive RemoveKind
  | Any
  | File
  | Folder
  | Other
  deriving DecidableEq

inductive EventKind
  | Any
  | Access
  | Create (kind : CreateKind)
  | Modify (kind : ModifyKind)
  | Remove (kind : RemoveKind)
  | Other
  deriving DecidableEq

structure DebouncedEvent where
  kind : EventKind
  paths : List Path
  needRescan : Bool

inductive ErrorKind
  | Generic (message : String)
  | Io (message : String)
  | PathNotFound
  | WatchNotFound
  | InvalidConfig
  | MaxFilesWatch
  deriving DecidableEq

/-- An error of the backend, with its text. -/
structure NotifyError where
  kind : ErrorKind
  text : String

structure WatchBatch where
  changedPaths : Finset Path
  structural : Bool
  rescan : Bool
  warnings : List String
  failure : Option String

def WatchBatch.default : WatchBatch := ⟨∅, false, false, [], none⟩

def WatchBatch.isEmpty (batch : WatchBatch) : Bool :=
  decide (batch.changedPaths = ∅) && !batch.structural && !batch.rescan && batch.warnings.isEmpty &&
    batch.failure.isNone

/-! ## Ignored paths -/

/-- What the file system says while paths are looked at. -/
structure FsView where
  isDir : Path → Bool
  canonicalize : Path → Option Path

inductive Match
  | None
  | Ignore
  | Whitelist
  deriving DecidableEq

/-- The matcher of an ignore file. -/
structure Gitignore where
  matchedPathOrAnyParents : Path → Bool → Match

structure IgnoreFilter where
  workspaceRoot : Path
  gitignores : List (Path × Gitignore)

def IGNORED_DIR_NAMES : List String := ["target", "node_modules", ".git", ".luchta"]

def isIgnoredByName (workspaceRoot path : Path) : Bool :=
  ((path.stripPrefix workspaceRoot).getD path).components.any fun c => c.name ∈ IGNORED_DIR_NAMES

def isAlwaysIgnored (workspaceRoot path : Path) : Bool :=
  isIgnoredByName workspaceRoot path ||
    ((path.stripPrefix workspaceRoot).getD path).components.any fun c =>
      "blob-restore-".toList.isPrefixOf c.name.toList

namespace IgnoreFilter

variable (filter : IgnoreFilter) (fs : FsView)

/-- The last matcher that says something decides. -/
def matchesIgnoreRules (path : Path) (isDir : Bool) : Bool :=
  filter.gitignores.foldl (fun ignored g =>
    if path.startsWith g.1 then
      match g.2.matchedPathOrAnyParents path isDir with
      | .None => ignored
      | .Ignore => true
      | .Whitelist => false
    else ignored) false

def shouldIgnore (path : Path) : Bool :=
  isAlwaysIgnored filter.workspaceRoot path || filter.matchesIgnoreRules path (fs.isDir path)

def shouldProcessIgnoreFile (path : Path) : Bool :=
  match path.parent with
  | none => false
  | some parent => parent.startsWith filter.workspaceRoot &&
      !isAlwaysIgnored filter.workspaceRoot parent && !filter.matchesIgnoreRules parent true

def shouldWatchDir (path : Path) : Bool :=
  path.startsWith filter.workspaceRoot && fs.isDir path && !filter.shouldIgnore fs path

def shouldSkipDirectory (directory : Path) : Bool :=
  if directory = filter.workspaceRoot then false
  else isAlwaysIgnored filter.workspaceRoot directory || filter.matchesIgnoreRules directory true

end IgnoreFilter

/-! ## Batches -/

def isAccessEvent : EventKind → Bool
  | .Access => true
  | _ => false

def isIgnoreFile (path : Path) : Bool := path.fileName = some ".gitignore"

def isStructuralEventKind : EventKind → Bool
  | .Create .Any | .Create .Folder | .Remove .Any | .Remove .Folder | .Modify .Name => true
  | _ => false

def isStructuralPath (kind : EventKind) (path : Path) : Bool :=
  isStructuralEventKind kind ||
    path.fileName.any fun name => "luchta-config.".toList.isPrefixOf name.toList

def normalizeAbsolutePath (fs : FsView) (path : Path) : Option Path :=
  if path.isAbsolute then some path else fs.canonicalize path

/-- Events of ignore files are kept even where a rule ignores the file itself. -/
def recordChangedPath (filter : IgnoreFilter) (fs : FsView) (kind : EventKind) (batch : WatchBatch)
    (path : Path) : WatchBatch :=
  if isIgnoreFile path && filter.shouldProcessIgnoreFile path then
    { batch with changedPaths := insert path batch.changedPaths, structural := true, rescan := true }
  else if filter.shouldIgnore fs path then batch
  else { batch with
    changedPaths := insert path batch.changedPaths
    structural := batch.structural || isStructuralPath kind path }

def collectWatchEvent (filter : IgnoreFilter) (fs : FsView) (batch : WatchBatch)
    (event : DebouncedEvent) : WatchBatch :=
  let batch := { batch with rescan := batch.rescan || event.needRescan }
  if isAccessEvent event.kind then batch
  else (event.paths.filterMap (normalizeAbsolutePath fs)).foldl
    (recordChangedPath filter fs event.kind) batch

def collectWatchBatch (filter : IgnoreFilter) (fs : FsView) (events : List DebouncedEvent) :
    WatchBatch :=
  events.foldl (collectWatchEvent filter fs) .default

def isTerminalBackendError (error : NotifyError) : Bool :=
  match error.kind with
  | .Generic _ | .MaxFilesWatch | .InvalidConfig => true
  | .Io _ | .PathNotFound | .WatchNotFound => false

def formatErrorDetails (errors : List NotifyError) : String :=
  "; ".intercalate (errors.map NotifyError.text)

def formatBackendErrors (errors : List NotifyError) : String :=
  "filesystem watcher backend failed: " ++ formatErrorDetails errors

def backendErrorBatch (errors : List NotifyError) : WatchBatch :=
  if errors.any isTerminalBackendError then
    { WatchBatch.default with failure := some (formatBackendErrors errors) }
  else
    { WatchBatch.default with
      structural := true
      rescan := true
      warnings := ["filesystem watcher backend reported a recoverable error; rescanning: " ++
        formatErrorDetails errors] }

/-! ## Created directories -/

def createdDirectories (filter : IgnoreFilter) (fs : FsView) (events : List DebouncedEvent) :
    List Path :=
  ((((events.filter fun event => event.kind = .Create .Any ∨ event.kind = .Create .Folder).flatMap
    DebouncedEvent.paths).filterMap (normalizeAbsolutePath fs)).filter
      (filter.shouldWatchDir fs)).dedup

def pendingWatchDirs (watchedDirs : Finset Path) (createdDirs : List Path) : List Path :=
  createdDirs.filter fun path => path ∉ watchedDirs

def WATCH_STATE_POISONED : String := "watch state lock poisoned"

def displayPath (path : Path) : String :=
  (if path.isAbsolute then "/" else "") ++
    "/".intercalate ((path.components.filter (· ≠ .rootDir)).map Component.name)

/-- The outcome of `watch` for each path; the text of the error where it fails. -/
abbrev WatchOutcome := Path → Option String

/-- One round of `register_created_directories`. -/
def registerDirectory (watch : WatchOutcome) (s : Finset Path × List String) (path : Path) :
    Finset Path × List String :=
  match watch path with
  | none => (insert path s.1, s.2)
  | some source => (s.1, s.2 ++
      ["failed to watch newly created directory '" ++ displayPath path ++ "': " ++ source])

def registerCreatedDirectories (watch : WatchOutcome) (debouncer : Lock Unit)
    (watchedDirs : Lock (Finset Path)) (createdDirs : List Path) :
    Lock (Finset Path) × List String :=
  match debouncer, watchedDirs with
  | some (), some watched =>
    let r := (sortBy id (pendingWatchDirs watched createdDirs)).foldl (registerDirectory watch)
      (watched, [])
    (some r.1, r.2)
  | _, _ => (watchedDirs, [WATCH_STATE_POISONED])

/-- The batch, and the directories that are watched afterwards. -/
def bridgeEventBatch (fs : FsView) (watch : WatchOutcome) (debouncer : Lock Unit)
    (ignoreFilter : Lock IgnoreFilter) (watchedDirs : Lock (Finset Path))
    (events : List DebouncedEvent) : WatchBatch × Lock (Finset Path) :=
  match ignoreFilter with
  | none =>
    ({ WatchBatch.default with structural := true, rescan := true, warnings := [WATCH_STATE_POISONED] },
      watchedDirs)
  | some filter =>
    let batch := collectWatchBatch filter fs events
    let (watchedDirs, warnings) := registerCreatedDirectories watch debouncer watchedDirs
      (createdDirectories filter fs events)
    ({ batch with warnings := batch.warnings ++ warnings }, watchedDirs)

end Luchta.Impl
