import Luchta.Impl.Bridge
import Mathlib.Data.Finset.Filter
import Mathlib.Data.Finset.SDiff
import Mathlib.Data.Finset.Sort

/-!
# Watched directories

On most platforms every directory has a watch of its own. Directories are registered when the watcher
starts, when the bridge sees that they were created, and when the driver reconciles what is watched
with a scan of the tree. This is a system in which files and directories are created while the
backend, the bridge and the driver take their steps.
-/

namespace Luchta.Impl

open Luchta.Framework

/-! ## The tree -/

/-- The directories and files below the workspace root. -/
structure Tree where
  dirs : Finset Path
  files : Finset Path

namespace Tree

variable (t : Tree)

def view : FsView where
  isDir path := path ∈ t.dirs
  canonicalize path := if path ∈ t.dirs ∪ t.files then some path else none

def childDirectories (directory : Path) : Finset Path :=
  t.dirs.filter fun path => path.parent = some directory

/-- A path where something new can be created. -/
def vacant (path : Path) : Bool :=
  path.isAbsolute && decide (path ∉ t.dirs ∪ t.files) && path.parent.any fun d => d ∈ t.dirs

end Tree

/-! ## Scanning -/

/-- What the ignore files say; `none` for one that cannot be read. -/
structure IgnoreFiles where
  /-- The matcher of the workspace root, with or without an ignore file there. -/
  root : Bool → Option Gitignore
  nested : Path → Option Gitignore

def ignoreFilePath (directory : Path) : Path := directory.join ⟨[.normal ".gitignore"]⟩

/-- A scan that goes from directory to directory. -/
structure Scan where
  filter : IgnoreFilter
  watchDirs : Finset Path
  /-- The directories still to visit, the last one pushed first. -/
  pendingDirs : List Path
  /-- The directory whose children are read next. -/
  reading : Option Path

namespace Scan

variable (ignoreFiles : IgnoreFiles) (t : Tree)

def start (root : Path) : Option Scan :=
  (ignoreFiles.root (ignoreFilePath root ∈ t.files)).map fun matcher =>
    ⟨⟨root, [(root, matcher)]⟩, ∅, [root], none⟩

/-- `none` if an ignore file cannot be read. -/
def addNestedGitignore (filter : IgnoreFilter) (directory : Path) : Option IgnoreFilter :=
  if directory = filter.workspaceRoot then some filter
  else if ignoreFilePath directory ∉ t.files then some filter
  else (ignoreFiles.nested directory).map fun matcher =>
    { filter with gitignores := filter.gitignores ++ [(directory, matcher)] }

/-- Visit the next directory; the inner `none` is an error. -/
def visit (s : Scan) : Option (Option Scan) :=
  match s.reading, s.pendingDirs with
  | none, directory :: pendingDirs =>
    if s.filter.shouldSkipDirectory directory then some (some { s with pendingDirs := pendingDirs })
    else some ((addNestedGitignore ignoreFiles t s.filter directory).map fun filter =>
      ⟨filter, insert directory s.watchDirs, pendingDirs, some directory⟩)
  | _, _ => none

/-- The children of a directory are returned in any order. -/
def readChildren (s : Scan) (children : List Path) : Option Scan :=
  match s.reading with
  | some directory =>
    if children.toFinset = t.childDirectories directory then
      some { s with pendingDirs := children.reverse ++ s.pendingDirs, reading := none }
    else none
  | none => none

def finish (s : Scan) : Option (IgnoreFilter × Finset Path) :=
  if s.reading = none ∧ s.pendingDirs = [] then
    some ({ s.filter with
      gitignores := sortBy (fun g => g.1.components.length) s.filter.gitignores }, s.watchDirs)
  else none

end Scan

/-! ## Reconciling -/

/-- The outcome of `unwatch` for each path; the error where it fails. -/
abbrev UnwatchOutcome := Path → Option NotifyError

def watchDirectory (watch : WatchOutcome) (s : Finset Path × List String) (path : Path) :
    Finset Path × List String :=
  match watch path with
  | none => (insert path s.1, s.2)
  | some source => (s.1, s.2 ++ ["failed to watch '" ++ displayPath path ++ "': " ++ source])

def unwatchDirectory (unwatch : UnwatchOutcome) (s : Finset Path × List String) (path : Path) :
    Finset Path × List String :=
  match unwatch path with
  | none => (s.1.erase path, s.2)
  | some source =>
    if source.kind = .WatchNotFound then (s.1.erase path, s.2)
    else (s.1, s.2 ++ ["failed to unwatch obsolete directory '" ++ displayPath path ++
      "'; continuing with the extra watch: " ++ source.text])

/-- The directories that are watched afterwards, and the warnings or the details of the error. -/
def reconcileWatchedDirs (watch : WatchOutcome) (unwatch : UnwatchOutcome)
    (watchedDirs desiredDirs : Finset Path) : Finset Path × Except String (List String) :=
  let (watched, failures) := ((desiredDirs \ watchedDirs).sort (· ≤ ·)).foldl (watchDirectory watch)
    (watchedDirs, [])
  if failures ≠ [] then
    (watched, .error ("one or more watch operations failed: " ++ "; ".intercalate failures))
  else
    let (watched, warnings) := ((watchedDirs \ desiredDirs).sort (· ≤ ·)).foldl
      (unwatchDirectory unwatch) (watched, [])
    (watched, .ok warnings)

inductive ReconcilePhase
  | idle
  | scan (scan : Scan)
  | ready (nextFilter : IgnoreFilter) (desiredDirs : Finset Path)

/-! ## The system -/

/-- A file created after the watcher started, with how many batches had been sent until then, and
whether the ignore filter ignored it. -/
structure CreatedFile where
  path : Path
  sentBefore : Nat
  ignored : Bool

structure WatchState where
  bridge : BridgeState
  tree : Tree
  /-- The directories that the backend has a watch for. -/
  registered : Finset Path
  /-- Events that the debouncer has not yet passed on. -/
  debouncing : List DebouncedEvent
  /-- A batch asked the driver to look at the structure. -/
  structural : Bool
  reconcile : ReconcilePhase
  created : List CreatedFile

inductive WatchLabel
  | mkdir (path : Path)
  | create (path : Path)
  /-- The debouncer passes on the first events. -/
  | flush (n : Nat)
  | process (job : Except String WatchOutcome)
  /-- Any other step of the bridge or of a callback. -/
  | bridge (label : BridgeLabel)
  /-- The driver takes a batch. -/
  | receive
  | scan
  | visit
  | children (children : List Path)
  | scanned
  | reconcile (watch : WatchOutcome) (unwatch : UnwatchOutcome)

namespace WatchState

variable (ignoreFiles : IgnoreFiles) (root : Path)

/-- The backend reports what happens in a directory that it has a watch for. -/
def report (s : WatchState) (kind : CreateKind) (path : Path) : List DebouncedEvent :=
  if path.parent.any fun d => d ∈ s.registered then s.debouncing ++ [⟨.Create kind, [path], false⟩]
  else s.debouncing

def ignores (s : WatchState) (path : Path) : Bool :=
  s.bridge.ignoreFilter.any fun filter => filter.shouldIgnore s.tree.view path

/-- The directories that were registered, and those that no longer are. -/
def updateRegistered (s : WatchState) (before after : Finset Path) : Finset Path :=
  (s.registered ∪ (after \ before)) \ (before \ after)

def step (s : WatchState) : WatchLabel → Option WatchState
  | .mkdir path =>
    if s.tree.vacant path then
      some { s with
        tree := { s.tree with dirs := insert path s.tree.dirs }
        debouncing := s.report .Folder path }
    else none
  | .create path =>
    if s.tree.vacant path then
      some { s with
        tree := { s.tree with files := insert path s.tree.files }
        debouncing := s.report .File path
        created := s.created ++ [⟨path, s.bridge.sent.length, s.ignores path⟩] }
    else none
  | .flush n =>
    (s.bridge.step (.call (.Events (s.debouncing.take n)))).map fun bridge =>
      { s with bridge := bridge, debouncing := s.debouncing.drop n }
  | .process job =>
    (s.bridge.step (.process (job.map fun watch => (s.tree.view, watch)))).map fun bridge =>
      { s with
        bridge := bridge
        registered := s.updateRegistered (s.bridge.watchedDirs.getD ∅) (bridge.watchedDirs.getD ∅) }
  | .bridge label =>
    match label with
    | .call (.Events _) | .process _ | .receive | .share _ _ _ => none
    | label => (s.bridge.step label).map fun bridge => { s with bridge := bridge }
  | .receive =>
    match s.bridge.batches.recv with
    | none => none
    | some (batch, _) => (s.bridge.step .receive).map fun bridge =>
        { s with bridge := bridge, structural := s.structural || batch.structural || batch.rescan }
  | .scan =>
    match s.reconcile with
    | .idle =>
      if s.structural then
        match Scan.start ignoreFiles s.tree root with
        | some scan => some { s with reconcile := .scan scan, structural := false }
        | none => some s
      else none
    | _ => none
  | .visit =>
    match s.reconcile with
    | .scan scan => (scan.visit ignoreFiles s.tree).map fun r =>
        match r with
        | some scan => { s with reconcile := .scan scan }
        | none => { s with reconcile := .idle, structural := true }
    | _ => none
  | .children children =>
    match s.reconcile with
    | .scan scan => (scan.readChildren s.tree children).map fun scan =>
        { s with reconcile := .scan scan }
    | _ => none
  | .scanned =>
    match s.reconcile with
    | .scan scan => scan.finish.map fun r => { s with reconcile := .ready r.1 r.2 }
    | _ => none
  | .reconcile watch unwatch =>
    match s.reconcile with
    | .ready nextFilter desiredDirs =>
      match s.bridge.debouncer, s.bridge.watchedDirs with
      | some (), some watched =>
        let (watched', result) := reconcileWatchedDirs watch unwatch watched desiredDirs
        (s.bridge.step (.share (s.bridge.ignoreFilter.map fun _ => nextFilter) (some watched')
          (some ()))).map fun bridge =>
            { s with
              bridge := bridge
              registered := s.updateRegistered watched watched'
              reconcile := .idle
              structural := s.structural || !result.isOk }
      | debouncer, watched =>
        -- a poisoned lock ends the driver, but the filter is replaced first
        (s.bridge.step (.share (s.bridge.ignoreFilter.map fun _ => nextFilter) watched
          debouncer)).map fun bridge => { s with bridge := bridge, reconcile := .idle }
    | _ => none

end WatchState

/-- Where the watcher starts: the bridge has not yet seen anything, and what is registered is watched. -/
def watchSystem (ignoreFiles : IgnoreFiles) (root : Path) : System WatchState WatchLabel where
  init s := (∃ filter, s.bridge = bridgeStart filter s.registered) ∧ s.debouncing = [] ∧
    s.structural = false ∧ s.reconcile = .idle ∧ s.created = []
  step := WatchState.step ignoreFiles root

end Luchta.Impl
