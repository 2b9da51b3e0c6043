import Luchta.Impl.Hashing

/-!
# Skip decisions

Whether a task has to run: `decide` compares a prior record with the current state and reports the
first difference, `decideSharedRestore` asks whether a record from the shared cache may be restored.
-/

namespace Luchta.Impl.Decide

open Luchta.Framework

inductive Decision
  | Skip
  | SharedHit
  | Run
  deriving DecidableEq

structure DecisionResult where
  action : Decision
  reason : RunReason
  deriving DecidableEq

def DECIDE_FILES_DIFF_LIMIT : Nat := 50

/-- How the caller resolves patterns; the prior entries may spare it some hashing. -/
structure FileStateResolver where
  resolveInputs : List String → List FileEntry → Option (List FileEntry)
  resolveOutputs : List String → List FileEntry → Option (List FileEntry)

structure CurrentState where
  taskSpecHash : Digest
  envHash : Digest
  pkgDepHash : Digest
  depOutputs : BTreeMap String Digest
  cacheNonce : Option String
  declaredInputPatterns : List String
  declaredOutputPatterns : List String
  resolver : FileStateResolver

/-! ## Comparing entry lists -/

def fileIdentityChanged (prior current : FileEntry) : Bool :=
  prior.path ≠ current.path || prior.absent ≠ current.absent

def fileEntryChanged (prior current : FileEntry) : Bool :=
  if fileIdentityChanged prior current then true
  else if prior.absent then false
  else prior.hash ≠ current.hash

def pathChanged : Option FileEntry → Option FileEntry → Bool
  | some prior, some current => fileEntryChanged prior current
  | some _, none | none, some _ => true
  | none, none => false

def byPath (entries : List FileEntry) : BTreeMap String FileEntry :=
  .ofList (entries.map fun entry => (entry.path, entry))

/-- `saturating_add(1)` in 32 bits. -/
def saturatingSucc (n : UInt32) : UInt32 := if n = 4294967295 then n else n + 1

structure DiffState where
  changed : List FileDelta
  changeCount : UInt32
  seenPaths : List String

/-- One path of the two maps: each path counts once. -/
def diffPath (prior current : BTreeMap String FileEntry) (limit : Nat) (d : DiffState)
    (path : String) : DiffState :=
  if path ∈ d.seenPaths then d
  else
    let d := { d with seenPaths := path :: d.seenPaths }
    let p := prior.get? path
    let c := current.get? path
    if pathChanged p c then
      { d with
        changeCount := saturatingSucc d.changeCount
        changed := if d.changed.length < limit then
            d.changed ++ [{
              path := path
              priorHash := p.elim Digest.zero FileEntry.hash
              currentHash := c.elim Digest.zero FileEntry.hash
              priorAbsent := p.elim true FileEntry.absent
              currentAbsent := c.elim true FileEntry.absent }]
          else d.changed }
    else d

def filesDiff (priorEntries currentEntries : List FileEntry) (limit : Nat) :
    List FileDelta × Bool × UInt32 :=
  let prior := byPath priorEntries
  let current := byPath currentEntries
  let d := (prior.keys ++ current.keys).foldl (diffPath prior current limit) ⟨[], 0, []⟩
  (d.changed, limit < d.changeCount.toNat, d.changeCount)

def filesChanged (priorEntries currentEntries : List FileEntry) : Bool :=
  0 < (filesDiff priorEntries currentEntries 0).2.2

inductive FileEntryKind
  | Inputs
  | Outputs
  deriving DecidableEq

def FileEntryKind.reason : FileEntryKind → List FileDelta → Bool → UInt32 → RunReason
  | .Inputs => .InputChanged
  | .Outputs => .OutputChanged

def changeReason (resolver : FileStateResolver) (patterns : List String)
    (priorEntries : List FileEntry) (kind : FileEntryKind) : Option RunReason :=
  let resolved := match kind with
    | .Inputs => resolver.resolveInputs patterns priorEntries
    | .Outputs => resolver.resolveOutputs patterns priorEntries
  match resolved with
  | none => some (kind.reason [] false 0)
  | some resolvedEntries =>
    if filesChanged priorEntries resolvedEntries then
      let (changed, truncated, changeCount) :=
        filesDiff priorEntries resolvedEntries DECIDE_FILES_DIFF_LIMIT
      some (kind.reason changed truncated changeCount)
    else none

/-! ## The decisions -/

def effectiveInputPatterns (prior : TaskRunRecord) (current : CurrentState) : List String :=
  if prior.detectedInputPatterns then prior.inputPatterns else current.declaredInputPatterns

def effectiveOutputPatterns (prior : TaskRunRecord) (current : CurrentState) : List String :=
  if prior.detectedOutputPatterns then prior.outputPatterns else current.declaredOutputPatterns

/-- The recorded tasks whose output hash differs now, then the tasks that are new. -/
def changedDepTasks (prior : TaskRunRecord) (current : CurrentState) : List String :=
  ((prior.depOutputs.entries.filter fun e => current.depOutputs.get? e.1 ≠ some e.2).map Prod.fst) ++
    current.depOutputs.keys.filter fun task => !prior.depOutputs.containsKey task

def checkPatternsUnchanged (prior : TaskRunRecord) (current : CurrentState) : DecisionResult :=
  match changeReason current.resolver (effectiveOutputPatterns prior current) prior.outputs
      .Outputs with
  | some reason => ⟨.Run, reason⟩
  | none =>
    match changeReason current.resolver (effectiveInputPatterns prior current) prior.inputs
        .Inputs with
    | some reason => ⟨.Run, reason⟩
    | none => ⟨.Skip, .CacheHit⟩

/-- The first mismatch wins, in this order. -/
def decide (prior : Option TaskRunRecord) (current : CurrentState) : DecisionResult :=
  match prior with
  | none => ⟨.Run, .NoPriorRecord⟩
  | some prior =>
    if !prior.succeeded then ⟨.Run, .PriorFailed⟩
    else if prior.cacheNonce ≠ current.cacheNonce then ⟨.Run, .NonceChanged⟩
    else if prior.taskSpecHash ≠ current.taskSpecHash then ⟨.Run, .TaskSpecMismatch⟩
    else if changedDepTasks prior current ≠ [] then
      ⟨.Run, .DepOutputMismatch (changedDepTasks prior current)⟩
    else if prior.pkgDepHash ≠ current.pkgDepHash then ⟨.Run, .PkgDepMismatch⟩
    else if prior.envHash ≠ current.envHash then ⟨.Run, .EnvMismatch⟩
    else checkPatternsUnchanged prior current

def dependencyOutputsUnchanged (prior : TaskRunRecord) (current : CurrentState) : Bool :=
  prior.depOutputs = current.depOutputs

def cacheablePrior (prior : TaskRunRecord) (current : CurrentState) : Bool :=
  prior.succeeded && prior.cacheNonce = current.cacheNonce &&
    prior.taskSpecHash = current.taskSpecHash && prior.envHash = current.envHash &&
    prior.pkgDepHash = current.pkgDepHash && dependencyOutputsUnchanged prior current

/-- Outputs are not compared; the recorded inputs must hash to what the key was looked up with. -/
def decideSharedRestore (blake3 : Bytes → Digest) (record : TaskRunRecord) (current : CurrentState)
    (inputsHash : Digest) : Bool :=
  cacheablePrior record current && combinedInputsHash blake3 record.inputs = inputsHash

end Luchta.Impl.Decide
