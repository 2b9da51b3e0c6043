import Luchta.Impl.WatchRoots
import Luchta.Proof.Watch.Bridge

/-!
# Files in watched directories

* `reachable_bridge`: the bridge of the whole system is a bridge, whatever happens to the tree.
* `watchStep_cases`: what a step does, as far as the bridge and the created files are concerned.
* `CreatedInv`: the event of a file that was created in a watched directory is on its way.
* `created_reported`: so such a file is reported; `created_unreported` is a run in which a file in a
  directory that is not yet watched never is.
-/

namespace Luchta.Proof.Watch

open Luchta.Framework Luchta.Impl

/-! ## What the bridge keeps of its history -/

/-- What a call keeps while it goes on. -/
def tag (call : ForwardCall) : RawWatchMessage × Nat := (call.message, call.sentBefore)

structure Later (s s' : BridgeState) : Prop where
  calls : s.calls.map tag <+: s'.calls.map tag
  sent : s.sent <+: s'.sent

variable {b b' : BridgeState}

theorem Later.of_eq (hcalls : b'.calls = b.calls) (hsent : b'.sent = b.sent) : Later b b' :=
  ⟨by rw [hcalls], by rw [hsent]⟩

theorem map_tag_set {calls : List ForwardCall} {i : Nat} {call : ForwardCall} (call' : ForwardCall)
    (hcall : calls[i]? = some call) (h : tag call' = tag call) :
    (calls.set i call').map tag = calls.map tag := by
  rw [List.map_set, h]
  refine List.ext_getElem? fun j => ?_
  rw [List.getElem?_set]
  split
  · rename_i hij
    subst hij
    rw [List.getElem?_map, hcall]
    simp [(List.getElem?_eq_some_iff.1 hcall).1]
  · rfl

theorem map_tag_modify {f : ForwardCall → ForwardCall} (h : ∀ call, tag (f call) = tag call)
    (calls : List ForwardCall) (i : Nat) : (calls.modify i f).map tag = calls.map tag := by
  refine List.ext_getElem? fun j => ?_
  rw [List.getElem?_map, List.getElem?_map, List.getElem?_modify]
  cases calls[j]? with
  | none => rfl
  | some call =>
    show some (tag (if i = j then f call else call)) = some (tag call)
    split
    · rw [h]
    · rfl

theorem later_forward {i : Nat} (h : b.forward i = some b') : Later b b' := by
  unfold BridgeState.forward at h
  cases hcall : b.calls[i]? with
  | none =>
    rw [hcall] at h
    contradiction
  | some call =>
    have hset : ∀ phase, b.calls.map tag <+:
        (b.calls.set i { call with phase := phase }).map tag := fun phase => by
      rw [map_tag_set _ hcall]
      rfl
    simp only [hcall, Option.bind_eq_bind, Option.bind_some, Option.pure_def] at h
    split at h
    · split at h
      · obtain rfl := Option.some.inj h
        exact ⟨hset _, List.prefix_rfl⟩
      · obtain rfl := Option.some.inj h
        exact ⟨hset _, List.prefix_rfl⟩
    · split at h
      · obtain rfl := Option.some.inj h
        exact ⟨hset _, List.prefix_rfl⟩
      · split at h
        · obtain rfl := Option.some.inj h
          exact ⟨hset _, List.prefix_rfl⟩
        · obtain rfl := Option.some.inj h
          exact ⟨hset _, List.prefix_rfl⟩
    · obtain rfl := Option.some.inj h
      exact ⟨hset _, List.prefix_rfl⟩
    · contradiction

theorem later_processInput (b : BridgeState) (input : BridgeInput)
    (job : Except String (FsView × WatchOutcome)) : Later b (b.processInput input job) := by
  unfold BridgeState.processInput
  split
  · exact .of_eq rfl rfl
  · exact .of_eq rfl rfl
  · split
    · exact .of_eq rfl rfl
    · refine ⟨?_, List.prefix_rfl⟩
      dsimp only
      rw [map_tag_modify]
      exact fun _ => rfl

theorem later_sendBatch {batch : WatchBatch} (h : b.sendBatch batch = some b') : Later b b' := by
  unfold BridgeState.sendBatch at h
  split at h
  · obtain rfl := Option.some.inj h
    exact .of_eq rfl rfl
  · split at h
    · dsimp only at h
      split at h
      · obtain rfl := Option.some.inj h
        exact ⟨List.prefix_rfl, List.prefix_append _ _⟩
      · obtain rfl := Option.some.inj h
        exact ⟨List.prefix_rfl, List.prefix_append _ _⟩
    · contradiction

theorem later_step {label : BridgeLabel} (h : b.step label = some b') : Later b b' := by
  cases label with
  | call message =>
    simp only [BridgeState.step] at h
    split at h
    · contradiction
    · obtain rfl := Option.some.inj h
      exact ⟨by simp, List.prefix_rfl⟩
  | forward i => exact later_forward h
  | process job =>
    simp only [BridgeState.step] at h
    split at h
    · obtain rfl := Option.some.inj h
      exact later_processInput _ _ _
    · contradiction
  | send =>
    simp only [BridgeState.step] at h
    split at h
    · exact later_sendBatch h
    · contradiction
  | receive =>
    obtain ⟨r, -, rfl⟩ := Option.map_eq_some_iff.1 h
    exact .of_eq rfl rfl
  | recv =>
    simp only [BridgeState.step] at h
    split at h
    · obtain rfl := Option.some.inj h
      exact .of_eq rfl rfl
    · contradiction
  | wake =>
    simp only [BridgeState.step] at h
    split at h
    · split at h
      · obtain rfl := Option.some.inj h
        exact .of_eq rfl rfl
      · contradiction
    · contradiction
  | closed =>
    simp only [BridgeState.step] at h
    split at h
    · split at h
      · obtain rfl := Option.some.inj h
        exact .of_eq rfl rfl
      · contradiction
    · contradiction
  | cancelled =>
    simp only [BridgeState.step] at h
    split at h
    all_goals
      first
      | contradiction
      | split at h
        · obtain rfl := Option.some.inj h
          exact .of_eq rfl rfl
        · contradiction
  | takeFailure =>
    simp only [BridgeState.step] at h
    split at h
    · obtain rfl := Option.some.inj h
      exact .of_eq rfl rfl
    · contradiction
  | swapOverflow =>
    simp only [BridgeState.step] at h
    split at h
    · obtain rfl := Option.some.inj h
      exact .of_eq rfl rfl
    · contradiction
  | _ =>
    obtain rfl := Option.some.inj h
    exact .of_eq rfl rfl

/-! ## The bridge in the tree -/

variable {ignoreFiles : IgnoreFiles} {root : Path} {s s' : WatchState} {label : WatchLabel}

/-- What a step of the whole system does to the bridge, the debouncer and the files created. -/
theorem watchStep_cases (h : s.step ignoreFiles root label = some s') :
    (∃ path, label = .mkdir path ∧ s'.bridge = s.bridge ∧ s'.debouncing = s.report .Folder path ∧
      s'.created = s.created) ∨
    (∃ path, label = .create path ∧ path.isAbsolute = true ∧ s'.bridge = s.bridge ∧
      s'.debouncing = s.report .File path ∧
      s'.created = s.created ++ [⟨path, s.bridge.sent.length, s.ignores path⟩]) ∨
    (∃ n, s.bridge.step (.call (.Events (s.debouncing.take n))) = some s'.bridge ∧
      s'.debouncing = s.debouncing.drop n ∧ s'.created = s.created) ∨
    ((s'.bridge = s.bridge ∨ ∃ l, s.bridge.step l = some s'.bridge) ∧
      s'.debouncing = s.debouncing ∧ s'.created = s.created) := by
  cases label with
  | mkdir path =>
    simp only [WatchState.step] at h
    split at h
    · obtain rfl := Option.some.inj h
      exact .inl ⟨path, rfl, rfl, rfl, rfl⟩
    · contradiction
  | create path =>
    simp only [WatchState.step] at h
    split at h
    · rename_i hvacant
      obtain rfl := Option.some.inj h
      simp only [Tree.vacant, Bool.and_eq_true] at hvacant
      exact .inr (.inl ⟨path, rfl, hvacant.1.1, rfl, rfl, rfl⟩)
    · contradiction
  | flush n =>
    obtain ⟨bridge, hbridge, rfl⟩ := Option.map_eq_some_iff.1 h
    exact .inr (.inr (.inl ⟨n, hbridge, rfl, rfl⟩))
  | process job =>
    obtain ⟨bridge, hbridge, rfl⟩ := Option.map_eq_some_iff.1 h
    exact .inr (.inr (.inr ⟨.inr ⟨_, hbridge⟩, rfl, rfl⟩))
  | bridge l =>
    simp only [WatchState.step] at h
    split at h
    all_goals
      first
      | contradiction
      | obtain ⟨bridge, hbridge, rfl⟩ := Option.map_eq_some_iff.1 h
        exact .inr (.inr (.inr ⟨.inr ⟨_, hbridge⟩, rfl, rfl⟩))
  | receive =>
    simp only [WatchState.step] at h
    split at h
    · contradiction
    · obtain ⟨bridge, hbridge, rfl⟩ := Option.map_eq_some_iff.1 h
      exact .inr (.inr (.inr ⟨.inr ⟨_, hbridge⟩, rfl, rfl⟩))
  | scan =>
    simp only [WatchState.step] at h
    split at h
    · split at h
      · split at h
        · obtain rfl := Option.some.inj h
          exact .inr (.inr (.inr ⟨.inl rfl, rfl, rfl⟩))
        · obtain rfl := Option.some.inj h
          exact .inr (.inr (.inr ⟨.inl rfl, rfl, rfl⟩))
      · contradiction
    · contradiction
  | visit =>
    simp only [WatchState.step] at h
    split at h
    · obtain ⟨r, -, rfl⟩ := Option.map_eq_some_iff.1 h
      refine .inr (.inr (.inr ?_))
      split <;> exact ⟨.inl rfl, rfl, rfl⟩
    · contradiction
  | children children =>
    simp only [WatchState.step] at h
    split at h
    · obtain ⟨r, -, rfl⟩ := Option.map_eq_some_iff.1 h
      exact .inr (.inr (.inr ⟨.inl rfl, rfl, rfl⟩))
    · contradiction
  | scanned =>
    simp only [WatchState.step] at h
    split at h
    · obtain ⟨r, -, rfl⟩ := Option.map_eq_some_iff.1 h
      exact .inr (.inr (.inr ⟨.inl rfl, rfl, rfl⟩))
    · contradiction
  | reconcile watch unwatch =>
    simp only [WatchState.step] at h
    split at h
    · split at h
      · obtain ⟨bridge, hbridge, rfl⟩ := Option.map_eq_some_iff.1 h
        exact .inr (.inr (.inr ⟨.inr ⟨_, hbridge⟩, rfl, rfl⟩))
      · obtain ⟨bridge, hbridge, rfl⟩ := Option.map_eq_some_iff.1 h
        exact .inr (.inr (.inr ⟨.inr ⟨_, hbridge⟩, rfl, rfl⟩))
    · contradiction

/-- A step of the whole system is a step of the bridge, or leaves the bridge alone. -/
theorem bridge_step (h : s.step ignoreFiles root label = some s') :
    s'.bridge = s.bridge ∨ ∃ l, s.bridge.step l = some s'.bridge := by
  rcases watchStep_cases h with ⟨_, -, hb, -⟩ | ⟨_, -, -, hb, -⟩ | ⟨n, hb, -⟩ | ⟨hb, -⟩
  · exact .inl hb
  · exact .inl hb
  · exact .inr ⟨_, hb⟩
  · exact hb

theorem reachable_bridge {C : WatchState → WatchLabel → Prop}
    (h : Reach (watchSystem ignoreFiles root) C s) : Reachable bridgeSystem s.bridge := by
  refine h.invariant (I := fun s => Reachable bridgeSystem s.bridge) ?_ ?_
  · intro s ⟨⟨filter, hbridge⟩, _⟩
    exact .init ⟨filter, _, hbridge⟩
  · intro s l t _ hreach _ hs
    rcases bridge_step hs with heq | ⟨l, hl⟩
    · rwa [heq]
    · exact .step hreach trivial hl

theorem later_bridge (h : s.step ignoreFiles root label = some s') : Later s.bridge s'.bridge := by
  rcases bridge_step h with heq | ⟨l, hl⟩
  · exact .of_eq (by rw [heq]) (by rw [heq])
  · exact later_step hl

/-! ## Created files -/

def createEvent (path : Path) : DebouncedEvent := ⟨.Create .File, [path], false⟩

/-- A message that was handed over after the file was created has its event. -/
def Handed (b : BridgeState) (file : CreatedFile) : Prop :=
  ∃ t ∈ b.calls.map tag, file.sentBefore ≤ t.2 ∧
    ∃ events, t.1 = .Events events ∧ createEvent file.path ∈ events

/-- The event is with the debouncer, or was handed over. -/
def CreatedInv (s : WatchState) (file : CreatedFile) : Prop :=
  file.path.isAbsolute = true ∧ file.sentBefore ≤ s.bridge.sent.length ∧
    (file.ignored = false → createEvent file.path ∈ s.debouncing ∨ Handed s.bridge file)

/-- The files that are not ignored are created in directories that are watched. -/
def InWatched (s : WatchState) : WatchLabel → Prop
  | .create path => s.ignores path = true ∨ ∃ d ∈ s.registered, path.parent = some d
  | _ => True

theorem Handed.later (h : Later b b') {file : CreatedFile} (hfile : Handed b file) :
    Handed b' file := by
  obtain ⟨t, ht, hrest⟩ := hfile
  exact ⟨t, h.calls.subset ht, hrest⟩

theorem debouncing_report (s : WatchState) (kind : CreateKind) (path : Path) :
    s.debouncing <+: s.report kind path := by
  unfold WatchState.report
  split
  · exact List.prefix_append _ _
  · exact List.prefix_rfl

/-- What the debouncer passes on is handed over. -/
theorem handed_flush {n : Nat} (h : b.step (.call (.Events (s.debouncing.take n))) = some b')
    {file : CreatedFile} (hbefore : file.sentBefore ≤ b.sent.length)
    (hevent : createEvent file.path ∈ s.debouncing.take n) : Handed b' file := by
  simp only [BridgeState.step] at h
  split at h
  · contradiction
  · obtain rfl := Option.some.inj h
    exact ⟨_, List.mem_map_of_mem (List.mem_append_right _ List.mem_cons_self), hbefore, _, rfl,
      hevent⟩

/-- Every step keeps what is known of the files that were already there. -/
theorem CreatedInv.step (h : s.step ignoreFiles root label = some s') {file : CreatedFile}
    (hfile : CreatedInv s file) : CreatedInv s' file := by
  obtain ⟨habs, hbefore, hevent⟩ := hfile
  have hlater := later_bridge h
  refine ⟨habs, hbefore.trans hlater.sent.length_le, fun hignored => ?_⟩
  rcases hevent hignored with hmem | hhanded
  · rcases watchStep_cases h with ⟨_, -, -, hd, -⟩ | ⟨_, -, -, -, hd, -⟩ | ⟨n, hb, hd, -⟩ |
      ⟨-, hd, -⟩
    · exact .inl (hd ▸ (debouncing_report s _ _).subset hmem)
    · exact .inl (hd ▸ (debouncing_report s _ _).subset hmem)
    · rw [← List.take_append_drop n s.debouncing, List.mem_append] at hmem
      rcases hmem with hmem | hmem
      · exact .inr (handed_flush hb hbefore hmem)
      · exact .inl (hd ▸ hmem)
    · exact .inl (hd ▸ hmem)
  · exact .inr (hhanded.later hlater)

theorem created_step (h : s.step ignoreFiles root label = some s') (hc : InWatched s label)
    (hinv : ∀ file ∈ s.created, CreatedInv s file) : ∀ file ∈ s'.created, CreatedInv s' file := by
  intro file hfile
  have hold : file ∈ s.created → CreatedInv s' file := fun hmem => (hinv file hmem).step h
  rcases watchStep_cases h with ⟨_, -, -, -, hcr⟩ | ⟨path, rfl, habs, hb, hd, hcr⟩ | ⟨_, -, -, hcr⟩ |
    ⟨-, -, hcr⟩
  · exact hold (hcr ▸ hfile)
  · rw [hcr] at hfile
    rcases List.mem_append.1 hfile with hfile | hfile
    · exact hold hfile
    · -- the new file: the backend reports it
      obtain rfl := List.mem_singleton.1 hfile
      refine ⟨habs, by rw [hb], fun hignored => .inl ?_⟩
      rcases hc with hc | ⟨d, hd', hparent⟩
      · have hignored : s.ignores path = false := hignored
        rw [hignored] at hc
        contradiction
      · rw [hd, WatchState.report, if_pos (by rw [hparent]; exact decide_eq_true hd')]
        exact List.mem_append_right _ List.mem_cons_self
  · exact hold (hcr ▸ hfile)
  · exact hold (hcr ▸ hfile)

/-! ## Runs -/

/-- The debouncer has passed everything on, every callback has returned, and the bridge waits. -/
def Quiet (s : WatchState) : Prop :=
  s.debouncing = [] ∧ (∀ call ∈ s.bridge.calls, call.phase = .returned) ∧ Blocked s.bridge

/-- The ignore filter did not ignore the file when it was created, nor whenever the bridge looked. -/
def NotIgnored (s : WatchState) (file : CreatedFile) : Prop :=
  file.ignored = false ∧ ∀ call ∈ s.bridge.calls, ∀ view, call.view = some view →
    view.filter.shouldIgnore view.fs file.path = false

/-- In every run in which the files that are not ignored are created in watched directories: once
everything was processed, each of them was reported, or a rescan was asked for after it was created. -/
theorem created_reported (h : Reach (watchSystem ignoreFiles root) InWatched s) (hquiet : Quiet s) :
    ∀ file ∈ s.created, NotIgnored s file →
      (∃ batch ∈ s.bridge.sent, file.path ∈ batch.changedPaths) ∨
      ∃ batch ∈ s.bridge.sent.drop file.sentBefore, batch.rescan = true := by
  intro file hfile ⟨hignored, hkept⟩
  have hinv : ∀ file ∈ s.created, CreatedInv s file := by
    refine h.invariant (I := fun s => ∀ file ∈ s.created, CreatedInv s file) ?_ ?_
    · intro s ⟨_, _, _, _, hcreated⟩
      rw [hcreated]
      nofun
    · intro s l t _ hinv hc hs
      exact created_step hs hc hinv
  obtain ⟨hdebouncing, hreturned, hblocked⟩ := hquiet
  obtain ⟨habs, -, hevent⟩ := hinv file hfile
  rcases hevent hignored with hmem | ⟨t, ht, hbefore, events, hmessage, hevents⟩
  · rw [hdebouncing] at hmem
    contradiction
  · obtain ⟨call, hcall, rfl⟩ := List.mem_map.1 ht
    have hreports := (bridge_reports (reachable_bridge h)).1 hblocked call hcall (hreturned call hcall)
    unfold Reports at hreports
    have hmessage : call.message = .Events events := hmessage
    rw [hmessage] at hreports
    rcases hreports with ⟨batch, hbatch, hrescan⟩ | ⟨view, hview, hsel⟩
    · exact .inr ⟨batch, List.drop_subset_drop_left _ hbefore hbatch, hrescan⟩
    · obtain ⟨batch, hbatch, hpath⟩ := hsel file.path ⟨_, hevents, rfl, file.path,
        List.mem_cons_self, if_pos habs, .inr (hkept call hcall view hview)⟩
      exact .inl ⟨batch, List.mem_of_mem_drop hbatch, hpath⟩

/-! ## A file in a new directory -/

section Sample

def sampleRoot : Path := ⟨[.rootDir, .normal "work"]⟩

def newDir : Path := ⟨[.rootDir, .normal "work", .normal "src"]⟩

def newFile : Path := ⟨[.rootDir, .normal "work", .normal "src", .normal "main.ts"]⟩

/-- Ignore files that say nothing. -/
def plainFiles : IgnoreFiles := ⟨fun _ => some ⟨fun _ _ => .None⟩, fun _ => some ⟨fun _ _ => .None⟩⟩

def emptyRoot : WatchState where
  bridge := bridgeStart ⟨sampleRoot, [(sampleRoot, ⟨fun _ _ => .None⟩)]⟩ {sampleRoot}
  tree := ⟨{sampleRoot}, ∅⟩
  registered := {sampleRoot}
  debouncing := []
  structural := false
  reconcile := .idle
  created := []

/-- The next event is handed over, and the bridge takes it. -/
def handOver (call : Nat) : List WatchLabel :=
  [.flush 1, .bridge (.forward call), .bridge .recv]

/-- The bridge makes a batch of the event and sends it, and the driver takes it. -/
def deliver : List WatchLabel :=
  [.process (.ok fun _ => none), .bridge .takeFailure, .bridge .swapOverflow, .bridge .send, .receive]

/-- The driver scans the tree and reconciles what is watched. -/
def reconcileAll : List WatchLabel :=
  [.scan, .visit, .children [newDir], .visit, .children [], .scanned,
    .reconcile (fun _ => none) fun _ => none]

/-- Everything was processed, and no ignore filter has ignored the file. -/
def settled (s : WatchState) : Bool :=
  s.debouncing.isEmpty && s.bridge.calls.all (fun call => call.phase = .returned) &&
    (match s.bridge.phase with | .next => true | _ => false) && s.bridge.raw.queue.isEmpty &&
    !s.bridge.rawOverflowWake && s.bridge.batches.queue.isEmpty && !s.structural &&
    s.created.any (fun file => decide (file.path = newFile) && !file.ignored) &&
    s.bridge.calls.all fun call => call.view.all fun view => !view.filter.shouldIgnore view.fs newFile

theorem quiet_of_settled (h : settled s = true) :
    Quiet s ∧ ∃ file ∈ s.created, file.path = newFile ∧ NotIgnored s file := by
  simp only [settled, Bool.and_eq_true, List.isEmpty_iff, List.all_eq_true, List.any_eq_true,
    decide_eq_true_eq, Bool.not_eq_true'] at h
  obtain ⟨⟨⟨⟨⟨⟨⟨⟨hdebouncing, hreturned⟩, hphase⟩, hqueue⟩, hwake⟩, -⟩, -⟩, hcreated⟩, hkept⟩ := h
  refine ⟨⟨hdebouncing, hreturned, ?_, hqueue, hwake⟩, ?_⟩
  · split at hphase
    · assumption
    · contradiction
  · obtain ⟨file, hfile, hpath, hignored⟩ := hcreated
    refine ⟨file, hfile, hpath, hignored, fun call hcall view hview => ?_⟩
    have := hkept call hcall
    rw [hview] at this
    rw [hpath]
    simpa using this

instance (l : WatchLabel) : Decidable (InWatched s l) :=
  match l with
  | .create _ => inferInstanceAs (Decidable (_ ∨ ∃ _ ∈ _, _))
  | .mkdir _ | .flush _ | .process _ | .bridge _ | .receive | .scan | .visit | .children _ | .scanned
  | .reconcile _ _ => .isTrue trivial

/-- The file is created once the bridge has registered the directory. -/
theorem created_reported_sample : ∃ s,
    (watchSystem plainFiles sampleRoot).run InWatched emptyRoot ([.mkdir newDir] ++ handOver 0 ++
      deliver ++ reconcileAll ++ [.create newFile] ++ handOver 1 ++ deliver) = some s ∧
    ((∃ batch ∈ s.bridge.sent, newFile ∈ batch.changedPaths) ∨
      ∃ batch ∈ s.bridge.sent, batch.rescan = true) := by
  have hrun : ((watchSystem plainFiles sampleRoot).run InWatched emptyRoot ([.mkdir newDir] ++
      handOver 0 ++ deliver ++ reconcileAll ++ [.create newFile] ++ handOver 1 ++ deliver)).any
      settled = true := by decide +kernel
  obtain ⟨s, hs, hsettled⟩ := (Option.any_eq_true _ _).1 hrun
  obtain ⟨hquiet, file, hfile, hpath, hnot⟩ := quiet_of_settled hsettled
  have hreach : Reach (watchSystem plainFiles sampleRoot) InWatched s :=
    .run (.init ⟨⟨_, rfl⟩, rfl, rfl, rfl, rfl⟩) hs
  refine ⟨s, hs, (created_reported hreach hquiet file hfile hnot).imp (fun h => hpath ▸ h) ?_⟩
  rintro ⟨batch, hbatch, hrescan⟩
  exact ⟨batch, List.mem_of_mem_drop hbatch, hrescan⟩

/-- The file is created before the bridge has seen that the directory was. The driver reconciles, but
nothing ever looks into the directory. -/
theorem created_unreported : ∃ s, Reachable (watchSystem plainFiles sampleRoot) s ∧ Quiet s ∧
    ∃ file ∈ s.created, NotIgnored s file ∧
      (∀ batch ∈ s.bridge.sent, file.path ∉ batch.changedPaths) ∧
      ∀ batch ∈ s.bridge.sent, batch.rescan = false := by
  have hrun : ((watchSystem plainFiles sampleRoot).run (fun _ _ => True) emptyRoot
      ([.mkdir newDir] ++ handOver 0 ++ [.create newFile] ++ deliver ++ reconcileAll)).any (fun s =>
        settled s && s.bridge.sent.all fun batch =>
          decide (newFile ∉ batch.changedPaths) && !batch.rescan) = true := by decide +kernel
  obtain ⟨s, hs, hsettled⟩ := (Option.any_eq_true _ _).1 hrun
  rw [Bool.and_eq_true, List.all_eq_true] at hsettled
  obtain ⟨hquiet, file, hfile, hpath, hnot⟩ := quiet_of_settled hsettled.1
  refine ⟨s, .run (.init ⟨⟨_, rfl⟩, rfl, rfl, rfl, rfl⟩) hs, hquiet, file, hfile, hnot,
    fun batch hbatch => ?_, fun batch hbatch => ?_⟩
  · have hbatch := hsettled.2 batch hbatch
    rw [Bool.and_eq_true, decide_eq_true_iff] at hbatch
    exact hpath ▸ hbatch.1
  · have hbatch := hsettled.2 batch hbatch
    rw [Bool.and_eq_true] at hbatch
    simpa using hbatch.2

end Sample

end Luchta.Proof.Watch
