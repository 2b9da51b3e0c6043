import Luchta.Impl.WatchLoop
import Mathlib.Tactic.Tauto

/-!
# What becomes of a change in the watch loop

A mark is what a batch leaves behind: a path, or one of the flags. It is open while the drain task is about to
note it, while it is pending, and while the driver has it.

* `Mark.Settles`: a step after which a mark needs nothing more: its path affects nothing or a cycle for it
  begins, the workspace has been recovered, or a cycle for everything begins.
* `open_step`: a mark that is open stays so, but for such a step.
-/

namespace Luchta.Proof.WatchLoop

open Luchta.Framework Luchta.Impl

/-! ## Marks -/

/-- What a batch leaves behind. -/
inductive Mark
  | path (path : Path)
  | structural
  | rescan
  | failure

namespace Mark

variable (m : Mark)

def Among (paths : Finset Path) : Prop := ∃ x ∈ paths, m = path x

def Pending (p : PendingState) : Prop :=
  m.Among p.paths ∨ m = structural ∧ p.structural = true ∨ m = rescan ∧ p.rescan = true ∨
    m = failure ∧ p.watcherFailure.isSome = true

/-- The cycle is for this path, or for everything. -/
def Planned : CyclePlan → Prop
  | .initial => m = rescan
  | .iteration changes => m.Among changes.changed ∨ m = rescan ∧ changes.rescan = true

def Awaited : WatchOperation → Prop
  | .lock plan => m.Planned plan
  | .sleep isStructural isRescan | .recover isStructural isRescan =>
    m = structural ∧ isStructural = true ∨ m = rescan ∧ isRescan = true

/-- The driver has taken the mark. -/
def Taken : DriverPlace → Prop
  | .check operation | .awaiting operation => m.Awaited operation
  | .set plan | .caughtUp plan _ | .clear plan => m.Planned plan
  | .requeue changes => m.Planned (.iteration changes)
  | .markStructural isRescan => m = structural ∨ m = rescan ∧ isRescan = true
  | .markRescan => m = rescan
  | .takeStructural isRescan | .drain _ isRescan => m = rescan ∧ isRescan = true
  | .judge changed _ => m.Among changed
  | _ => False

/-- The drain task is about to note the mark. -/
def Arriving : DrainPlace → Prop
  | .markFailed _ _ => m = failure
  | .markStructural batch =>
    m.Among batch.changedPaths ∨ m = structural ∧ batch.structural = true ∨ m = rescan ∧ batch.rescan = true
  | .markRescan batch => m.Among batch.changedPaths ∨ m = rescan ∧ batch.rescan = true
  | .add batch => m.Among batch.changedPaths
  | _ => False

def Open (s : WatchLoop) : Prop := m.Arriving s.drain ∨ m.Pending s.pending ∨ m.Taken s.driver

/-- The step does for the mark what is to be done: a cycle begins for it, its path affects no package, or the
workspace has been recovered. What is noted again meanwhile needs more. -/
def Settles (s : WatchLoop) (l : LoopLabel) : Prop :=
  ¬ m.Arriving s.drain ∧ ¬ m.Pending s.pending ∧ m.Taken s.driver ∧
    match l, s.driver with
    | .drive _, .caughtUp _ _ => s.pending.hasChanges = false
    | .judge affected _, .judge _ _ => affected = ∅
    | .complete (.recovered answers) _, .awaiting (.recover _ _) =>
      m = structural ∧ (recoverStructuralWatchState answers s.packagePaths).2 = .Complete
    | _, _ => False

end Mark

/-- The loop has been asked to end, or has ended. -/
def Ended (s : WatchLoop) : Prop :=
  s.driver = .stopping ∨ s.driver = .stopped ∨ ∃ message, s.driver = .failed message

variable {s t : WatchLoop} {m : Mark} {p : PendingState}

theorem ended_failed {message : String} (hd : t.driver = .failed message) : Ended t :=
  .inr (.inr ⟨message, hd⟩)

theorem not_among_empty : ¬ m.Among ∅ := by simp [Mark.Among]

@[simp] theorem pending_add (batch : Finset Path) :
    m.Pending (p.add batch).2 ↔ m.Pending p ∨ m.Among batch := by
  unfold PendingState.add
  split
  · simp_all [Mark.Among]
  · simp only [Mark.Pending, Mark.Among, Finset.mem_union]
    grind

@[simp] theorem pending_markStructural : m.Pending p.markStructural.2 ↔ m.Pending p ∨ m = .structural := by
  simp only [Mark.Pending, PendingState.markStructural]
  tauto

@[simp] theorem pending_markRescan : m.Pending p.markRescan.2 ↔ m.Pending p ∨ m = .rescan := by
  simp only [Mark.Pending, PendingState.markRescan]
  tauto

@[simp] theorem pending_markWatcherFailed (message : String) :
    m.Pending (p.markWatcherFailed message) ↔ m.Pending p ∨ m = .failure := by
  simp only [Mark.Pending, PendingState.markWatcherFailed, Option.isSome_some]
  tauto

@[simp] theorem pending_takeStructural :
    m.Pending p.takeStructural.2 ↔ m.Pending p ∧ m ≠ .structural := by
  cases m <;> simp [Mark.Pending, PendingState.takeStructural, Mark.Among]

@[simp] theorem pending_takeRescan : m.Pending p.takeRescan.2 ↔ m.Pending p ∧ m ≠ .rescan := by
  cases m <;> simp [Mark.Pending, PendingState.takeRescan, Mark.Among]

@[simp] theorem pending_drainNonEmpty :
    m.Pending p.drainNonEmpty.2 ↔ m.Pending p ∧ ¬ m.Among p.paths := by
  cases m <;> simp [Mark.Pending, PendingState.drainNonEmpty, Mark.Among]

@[simp] theorem pending_structural : Mark.structural.Pending p ↔ p.structural = true := by
  simp [Mark.Pending, Mark.Among]

@[simp] theorem pending_rescan : Mark.rescan.Pending p ↔ p.rescan = true := by
  simp [Mark.Pending, Mark.Among]

@[simp] theorem pending_failure : Mark.failure.Pending p ↔ p.watcherFailure.isSome = true := by
  simp [Mark.Pending, Mark.Among]

@[simp] theorem pending_path {x : Path} : (Mark.path x).Pending p ↔ x ∈ p.paths := by
  simp [Mark.Pending, Mark.Among]

theorem hasChanges_iff : p.hasChanges = true ↔ ∃ m : Mark, m.Pending p := by
  constructor
  · intro h
    by_contra hno
    push Not at hno
    have hpaths : p.paths = ∅ :=
      Finset.eq_empty_of_forall_notMem fun x hx => hno (.path x) (pending_path.2 hx)
    have hstructural := mt pending_structural.2 (hno .structural)
    have hrescan := mt pending_rescan.2 (hno .rescan)
    have hfailure := mt pending_failure.2 (hno .failure)
    simp_all [PendingState.hasChanges, PendingState.isEmpty]
  · rintro ⟨m, hm⟩
    cases m with
    | path x =>
      have hne := Finset.ne_empty_of_mem (pending_path.1 hm)
      simp [PendingState.hasChanges, PendingState.isEmpty, hne]
    | structural | rescan | failure => simp_all [PendingState.hasChanges, PendingState.isEmpty]

theorem checkWatcherFailure_cases {go : WatchLoop → Option WatchLoop}
    (h : s.checkWatcherFailure go = some t) :
    (∃ message pending, t = { s with pending := pending, driver := .failed message }) ∨
      s.pending.watcherFailure = none ∧ go s = some t := by
  unfold WatchLoop.checkWatcherFailure PendingState.takeWatcherFailure at h
  cases hf : s.pending.watcherFailure with
  | some message =>
    simp only [hf] at h
    exact .inl ⟨_, _, (Option.some.inj h).symm⟩
  | none =>
    have hp : { s.pending with watcherFailure := none } = s.pending := by rw [← hf]
    simp only [hf, hp] at h
    exact .inr ⟨rfl, h⟩

/-! ## Steps -/

@[simp] theorem cancelIfActive_pending : s.cancelIfActive.pending = s.pending := by
  unfold WatchLoop.cancelIfActive
  split <;> rfl

@[simp] theorem cancelIfActive_driver : s.cancelIfActive.driver = s.driver := by
  unfold WatchLoop.cancelIfActive
  split <;> rfl

theorem open_drain (h : s.drainStep = some t) (hm : m.Open s) : m.Open t := by
  unfold WatchLoop.drainStep at h
  split at h
  case h_1 | h_2 => cases h
  all_goals
    rename_i hd
    obtain rfl := Option.some.inj h
    simp only [Mark.Open, hd, Mark.Arriving, pending_markWatcherFailed, cancelIfActive_pending,
      cancelIfActive_driver, pending_add] at hm ⊢
  case h_3 | h_7 => tauto
  case h_4 | h_5 =>
    split
    all_goals
      simp_all only [pending_markStructural, pending_markRescan]
      tauto
  case h_6 | h_8 => split <;> tauto

theorem Mark.Open.of_driver (hm : m.Open s) (hd : t.drain = s.drain)
    (ho : m.Pending s.pending ∨ m.Taken s.driver → m.Pending t.pending ∨ m.Taken t.driver) : m.Open t :=
  hm.imp (fun ha => hd ▸ ha) ho

theorem open_drive {now : Nat} (h : s.driveStep now = some t) (hm : m.Open s)
    (hs : ¬ m.Settles s (.drive now)) : Ended t ∨ m.Open t := by
  unfold WatchLoop.driveStep at h
  split at h
  case h_1 | h_12 =>
    rename_i hd
    rcases checkWatcherFailure_cases h with ⟨message, pending, rfl⟩ | ⟨-, h⟩
    · exact .inl (ended_failed rfl)
    · obtain rfl := Option.some.inj h
      refine .inr (hm.of_driver rfl ?_)
      simp only [hd, Mark.Taken]
      tauto
  case h_10 =>
    obtain rfl := Option.some.inj h
    exact .inl (ended_failed rfl)
  case h_3 =>
    rename_i plan token hd
    split at h
    · obtain rfl := Option.some.inj h
      exact .inr (hm.of_driver rfl (by simp only [hd, Mark.Taken]; tauto))
    · rename_i hc
      obtain rfl := Option.some.inj h
      refine .inr ?_
      simp only [Mark.Settles, hd, Bool.eq_false_of_not_eq_true hc] at hs
      simp only [Mark.Open, hd, Mark.Taken] at hm hs ⊢
      tauto
  all_goals try cases h
  all_goals
    rename_i hd
    refine .inr (hm.of_driver rfl ?_)
    simp only [hd, Mark.Taken, pending_add, pending_markStructural, pending_markRescan,
      pending_takeRescan, pending_takeStructural, pending_drainNonEmpty]
  case h_2 | h_4 | h_5 | h_8 | h_9 => tauto
  case h_6 =>
    simp only [Mark.Planned]
    split_ifs
    all_goals
      simp_all only [Bool.not_eq_true]
      tauto
  case h_7 => split_ifs <;> simp_all only [Bool.not_eq_true] <;> tauto
  case h_11 => split_ifs <;> tauto
  case h_13 =>
    have := pending_rescan (p := s.pending)
    by_cases hr : m = .rescan
    · subst hr
      simp [PendingState.takeRescan]
    · tauto
  case h_14 =>
    have := pending_structural (p := s.pending)
    split_ifs <;> simp_all [Mark.Awaited, PendingState.takeStructural] <;> cases m <;> simp_all
  case h_15 =>
    rename_i structural rescan
    have hnone : ¬ m.Among ∅ := not_among_empty
    by_cases hp : s.pending.paths = ∅ <;> cases structural <;> cases rescan <;>
      simp [PendingState.drainNonEmpty, hp, Mark.Awaited, Mark.Planned] <;> tauto

theorem open_complete {operation : WatchOperation} {output : WatchOutput} {now : Nat}
    (hd : s.driver = .awaiting operation) (h : s.complete operation output now = some t) (hm : m.Open s)
    (hs : ¬ m.Settles s (.complete output now)) : Ended t ∨ m.Open t := by
  unfold WatchLoop.complete at h
  split at h
  case h_1 | h_4 =>
    obtain rfl := Option.some.inj h
    refine .inr (hm.of_driver rfl ?_)
    simp only [hd, Mark.Taken, Mark.Awaited]
    tauto
  case h_2 | h_3 =>
    obtain rfl := Option.some.inj h
    exact .inl (.inr (by simp))
  case h_5 =>
    dsimp only at h
    split at h
    case h_1 hc =>
      obtain rfl := Option.some.inj h
      refine .inr ?_
      simp only [Mark.Settles, hd, hc, Mark.Taken, Mark.Awaited] at hs
      simp only [Mark.Open, hd, Mark.Taken, Mark.Awaited] at hm ⊢
      tauto
    case h_2 =>
      obtain rfl := Option.some.inj h
      refine .inr (hm.of_driver rfl ?_)
      simp only [hd, Mark.Taken, Mark.Awaited, Bool.or_eq_true]
      tauto
    case h_3 =>
      obtain rfl := Option.some.inj h
      exact .inl (.inr (by simp))
  case h_6 => cases h

/-- A mark that is open stays so, but for a step that settles it. -/
theorem open_step {l : LoopLabel} (h : s.step l = some t) (hm : m.Open s) (hs : ¬ m.Settles s l) :
    Ended t ∨ m.Open t := by
  cases l with
  | receive batch =>
    simp only [WatchLoop.step] at h
    split at h
    · rename_i hd
      obtain rfl := Option.some.inj h
      simp only [Mark.Open, hd, Mark.Arriving] at hm ⊢
      tauto
    · cases h
  | close =>
    simp only [WatchLoop.step] at h
    split at h
    · rename_i hd
      obtain rfl := Option.some.inj h
      simp only [Mark.Open, hd, Mark.Arriving] at hm ⊢
      tauto
    · cases h
  | drain => exact .inr (open_drain h hm)
  | drive now => exact open_drive h hm hs
  | wake =>
    simp only [WatchLoop.step] at h
    split at h
    · split at h
      · rename_i hd
        obtain rfl := Option.some.inj h
        exact .inr (hm.of_driver rfl (by simp only [hd, Mark.Taken]; tauto))
      · rename_i hd
        obtain rfl := Option.some.inj h
        exact .inr (hm.of_driver rfl (by simp only [hd, Mark.Taken]; tauto))
      · cases h
    · cases h
  | complete output now =>
    simp only [WatchLoop.step] at h
    split at h
    · rename_i hd
      rcases checkWatcherFailure_cases h with ⟨message, pending, rfl⟩ | ⟨-, h⟩
      · exact .inl (ended_failed rfl)
      · exact open_complete hd h hm hs
    · cases h
  | judge affected expanded =>
    simp only [WatchLoop.step] at h
    split at h
    · rename_i hd
      obtain rfl := Option.some.inj h
      by_cases ha : affected = ∅
      · simp only [Mark.Settles, hd, ha] at hs
        simp only [Mark.Open, hd, Mark.Taken, ha, if_true] at hm hs ⊢
        tauto
      · refine .inr (hm.of_driver rfl ?_)
        simp only [hd, Mark.Taken, ha, if_false, Mark.Awaited, Mark.Planned]
        tauto
    · cases h
  | finish result =>
    simp only [WatchLoop.step] at h
    split at h
    · rename_i hd
      obtain rfl := Option.some.inj h
      exact .inr (hm.of_driver rfl (by simp only [hd, Mark.Taken]; tauto))
    · obtain rfl := Option.some.inj h
      cases result <;> exact .inl (.inr (by simp))
    · cases h
  | shutdown =>
    simp only [WatchLoop.step] at h
    split at h
    · obtain rfl := Option.some.inj h
      exact .inl (.inr (.inl rfl))
    · obtain rfl := Option.some.inj h
      exact .inl (.inr (.inl rfl))
    · obtain rfl := Option.some.inj h
      exact .inl (.inl rfl)
    · cases h
end Luchta.Proof.WatchLoop
