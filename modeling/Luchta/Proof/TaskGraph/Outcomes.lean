import Luchta.Framework.Ties
import Luchta.Proof.TaskGraph.Build
import Luchta.Spec.Resolution

/-!
# Outcomes

* `lookup_collected`: the collected outcomes are the replies, in whatever order they arrived.
* `applyOutcomes_outcomesIn`: handling replies in an order ends with the first that stops it, or
  modifies every task and lists the pruned ones in that order.
* `lookup_foldl_applyReply`: what is left has its resolved definition.
-/

namespace Luchta.Proof.TaskGraph

open Luchta.Framework Luchta.Impl Luchta.Spec
open ResolvedPipeline (Outcomes sortedOutcomes injectDependencies collectOutcome)

variable {args : BuildArgs} {rp : ResolvedPipeline} {orders : BuildOrders}

/-! ## Collecting -/

theorem mem_requests (orders : BuildOrders) (hdefs : ∀ id, rp.tasksById.lookup id =
      taskDefinition args.packageGraph args.pipeline id) {id : TaskId} {outcome : ResolveOutcome} :
    (∃ request ∈ rp.requests orders args.packages args.mode, request.taskId = id ∧
      args.resolver request.worker request.request = outcome) ↔ replyTo args id = some outcome := by
  have hkey : ∀ {id' : TaskId} {definition : TaskDefinition},
      rp.tasksById.lookup id' = some definition →
        id' ∈ sortBy TaskId.toString (orders.tasksById.permute rp.tasksById.keys) := fun h => by
    rw [mem_sortBy, RandomState.mem_permute]
    exact AList.mem_keys.1 (AList.lookup_isSome.1 (Option.isSome_iff_exists.2 ⟨_, h⟩))
  rw [replyTo, ← hdefs]
  constructor
  · rintro ⟨request, hmem, rfl, rfl⟩
    obtain ⟨id, -, hrequest⟩ := List.mem_filterMap.1 hmem
    obtain ⟨definition, hdef, hworker⟩ := Option.bind_eq_some_iff.1 hrequest
    obtain ⟨worker, hw, rfl⟩ := Option.map_eq_some_iff.1 hworker
    dsimp only
    rw [hdef, Option.bind_some, hw]
    rfl
  · intro h
    obtain ⟨definition, hdef, hworker⟩ := Option.bind_eq_some_iff.1 h
    obtain ⟨worker, hw, rfl⟩ := Option.map_eq_some_iff.1 hworker
    refine ⟨⟨id, worker, resolveTask args.packages args.mode id definition⟩,
      List.mem_filterMap.2 ⟨id, hkey hdef, ?_⟩, rfl, rfl⟩
    rw [hdef, Option.bind_some, hw]
    rfl

theorem nodup_sortedIds (rs : RandomState) {κ ν : Type} [DecidableEq κ] (m : HashMap κ ν)
    (f : κ → String) : (sortBy f (rs.permute m.keys)).Nodup :=
  ((sortBy_perm f _).trans (rs.perm _)).nodup_iff.2 m.keys_nodup

theorem nodup_requests (packages : HashMap PackageName PackageResolveInfo) (mode : ResolveMode) :
    ((rp.requests orders packages mode).map TaskRequest.taskId).Nodup := by
  have hself : ∀ {id id' : TaskId}, (((rp.tasksById.lookup id).bind fun definition =>
      definition.worker.map fun worker => (⟨id, worker, resolveTask packages mode id definition⟩ :
        TaskRequest)).map TaskRequest.taskId) = some id' → id = id' := by
    intro id id' h
    obtain ⟨request, hrequest, rfl⟩ := Option.map_eq_some_iff.1 h
    obtain ⟨definition, -, hworker⟩ := Option.bind_eq_some_iff.1 hrequest
    obtain ⟨worker, -, rfl⟩ := Option.map_eq_some_iff.1 hworker
    rfl
  rw [ResolvedPipeline.requests, List.map_filterMap]
  exact (nodup_sortedIds _ _ _).filterMap fun id id' key h h' => (hself h).trans (hself h').symm

/-- What is collected once no request is in flight are the replies. -/
theorem lookup_collected (hdefs : ∀ id, rp.tasksById.lookup id =
      taskDefinition args.packageGraph args.pipeline id) {parallelism : Option Nat}
    {s : Collecting TaskRequest Outcomes}
    (hs : Reachable (ResolvedPipeline.resolving args.resolver parallelism
      (rp.requests orders args.packages args.mode)) s) (hfin : s.Finished) (id : TaskId) :
    s.collected.lookup id = replyTo args id := by
  obtain ⟨answered, hperm, hcollected⟩ := Collecting.perm_of_finished
    (lt_of_lt_of_le Nat.zero_lt_one (Nat.le_max_right _ _)) hs hfin
  let entry := fun request : TaskRequest =>
    (request.taskId, args.resolver request.worker request.request)
  have hlist : s.collected = HashMap.ofList (answered.map entry) := by
    rw [hcollected, HashMap.ofList, List.foldl_map]
    rfl
  have hnd : ((answered.map entry).map Prod.fst).Nodup := by
    rw [List.map_map]
    exact (hperm.map _).nodup_iff.2 (nodup_requests _ _)
  ext outcome
  rw [hlist, HashMap.lookup_ofList hnd, ← mem_requests orders hdefs, List.mem_map]
  constructor
  · rintro ⟨request, hmem, heq⟩
    obtain ⟨rfl, rfl⟩ := Prod.mk.inj heq
    exact ⟨request, hperm.mem_iff.1 hmem, rfl, rfl⟩
  · rintro ⟨request, hmem, rfl, rfl⟩
    exact ⟨request, hperm.mem_iff.2 hmem, rfl⟩

/-! ## Applying outcomes in an order -/

/-- What one outcome does where it does not stop the resolution. -/
def applyReply (reply : TaskId → Option ResolveOutcome) (rp : ResolvedPipeline) (id : TaskId) :
    ResolvedPipeline :=
  match (reply id).bind modificationOf with
  | none => rp
  | some modification => { rp with
      inputsFromWorkerById :=
        if modification.inputs.isSome then rp.inputsFromWorkerById.insert id true
        else rp.inputsFromWorkerById
      tasksById := rp.tasksById.modify id modification.applyTo }

variable {reply : TaskId → Option ResolveOutcome} {mode : ResolveMode}

/-- Only the tasks that were asked about have outcomes. -/
theorem foldlM_outcomesIn {ε β : Type} (f : β → TaskId × ResolveOutcome → Except ε β)
    (order : List TaskId) (b : β) :
    (outcomesIn reply order).foldlM f b =
      order.foldlM (fun b id => (reply id).elim (.ok b) fun outcome => f b (id, outcome)) b := by
  induction order generalizing b with
  | nil => rfl
  | cons id order ih =>
    rw [outcomesIn, List.filterMap_cons, List.foldlM_cons]
    cases reply id with
    | none => exact ih b
    | some outcome =>
      show (List.foldlM f b ((id, outcome) :: outcomesIn reply order)) = f b (id, outcome) >>= _
      rw [List.foldlM_cons]
      exact congrArg _ (funext ih)

theorem applyOutcome_eq (s : ResolvedPipeline × List PrunedTask) (id : TaskId) :
    ((reply id).elim (.ok s) fun outcome => ResolvedPipeline.applyOutcome mode s (id, outcome)) =
      ((reply id).bind (stopOf mode id)).elim
        (.ok (applyReply reply s.1 id, s.2 ++ ((reply id).bind (prunedOf id)).toList)) .error := by
  unfold applyReply
  cases reply id with
  | none => simp
  | some outcome =>
    match outcome with
    | .error message => rfl
    | .ok .Accept => simp [ResolvedPipeline.applyOutcome, stopOf, prunedOf, modificationOf]
    | .ok (.Modify modification) =>
      simp [ResolvedPipeline.applyOutcome, stopOf, prunedOf, modificationOf]
    | .ok (.Prune reason) => simp [ResolvedPipeline.applyOutcome, stopOf, prunedOf, modificationOf]
    | .ok (.Reject message) =>
      by_cases hmode : mode = .Check
      · simp [ResolvedPipeline.applyOutcome, stopOf, hmode]
      · simp [ResolvedPipeline.applyOutcome, stopOf, prunedOf, modificationOf, hmode]

theorem foldl_applyReply (reply : TaskId → Option ResolveOutcome) (order : List TaskId)
    (s : ResolvedPipeline × List PrunedTask) :
    order.foldl (fun s id =>
        (applyReply reply s.1 id, s.2 ++ ((reply id).bind (prunedOf id)).toList)) s =
      (order.foldl (applyReply reply) s.1,
        s.2 ++ order.filterMap fun id => (reply id).bind (prunedOf id)) := by
  induction order generalizing s with
  | nil => simp
  | cons id order ih =>
    rw [List.foldl_cons, ih, List.foldl_cons, List.filterMap_cons]
    cases (reply id).bind (prunedOf id) <;> simp

theorem applyOutcomes_outcomesIn (order : List TaskId) :
    rp.applyOutcomes mode (outcomesIn reply order) =
      ((order.find? fun id => ((reply id).bind (stopOf mode id)).isSome).bind
        fun id => (reply id).bind (stopOf mode id)).elim
        (.ok (order.foldl (applyReply reply) rp,
          order.filterMap fun id => (reply id).bind (prunedOf id))) .error := by
  rw [ResolvedPipeline.applyOutcomes, foldlM_outcomesIn, foldlM_of_stop applyOutcome_eq,
    foldl_applyReply, List.nil_append]

/-! ## Modified definitions -/

theorem lookup_applyReply (id id' : TaskId) :
    (applyReply reply rp id).tasksById.lookup id' =
      if id' = id then (rp.tasksById.lookup id').map fun definition =>
        ((reply id').bind modificationOf).elim definition (·.applyTo definition)
      else rp.tasksById.lookup id' := by
  unfold applyReply
  by_cases hid : id' = id
  · subst hid
    rw [if_pos rfl]
    cases (reply id').bind modificationOf with
    | none => exact Option.map_id'.symm
    | some modification =>
      show (rp.tasksById.modify id' modification.applyTo).lookup id' = _
      rw [HashMap.lookup_modify, if_pos rfl]
      rfl
  · rw [if_neg hid]
    cases (reply id).bind modificationOf with
    | none => rfl
    | some modification =>
      show (rp.tasksById.modify id modification.applyTo).lookup id' = _
      rw [HashMap.lookup_modify, if_neg hid]

theorem keys_applyReply (id : TaskId) :
    (applyReply reply rp id).tasksById.keys = rp.tasksById.keys := by
  unfold applyReply
  cases (reply id).bind modificationOf with
  | none => rfl
  | some modification => exact HashMap.keys_modify _ _ _

/-- Every task is modified once. -/
theorem lookup_foldl_applyReply {order : List TaskId} (horder : order.Nodup) (id : TaskId) :
    (order.foldl (applyReply reply) rp).tasksById.lookup id =
      if id ∈ order then (rp.tasksById.lookup id).map fun definition =>
        ((reply id).bind modificationOf).elim definition (·.applyTo definition)
      else rp.tasksById.lookup id := by
  induction order generalizing rp with
  | nil => rfl
  | cons id' order ih =>
    obtain ⟨hnot, horder⟩ := List.nodup_cons.1 horder
    rw [List.foldl_cons, ih horder, lookup_applyReply]
    by_cases hid : id = id'
    · subst hid
      simp [hnot]
    · simp [hid]

theorem keys_foldl_applyReply (order : List TaskId) :
    (order.foldl (applyReply reply) rp).tasksById.keys = rp.tasksById.keys := by
  induction order generalizing rp with
  | nil => rfl
  | cons id order ih => rw [List.foldl_cons, ih, keys_applyReply]

/-- The worker has replaced the inputs of the task. -/
def ReplacesInputs (reply : TaskId → Option ResolveOutcome) (id : TaskId) : Prop :=
  ((reply id).bind modificationOf).any (fun modification => modification.inputs.isSome) = true

instance (id : TaskId) : Decidable (ReplacesInputs reply id) := inferInstanceAs (Decidable (_ = _))

theorem lookup_inputs_applyReply (id id' : TaskId) :
    (applyReply reply rp id).inputsFromWorkerById.lookup id' =
      if id' = id ∧ ReplacesInputs reply id' then some true
      else rp.inputsFromWorkerById.lookup id' := by
  unfold applyReply
  split
  · rename_i h
    rw [if_neg]
    rintro ⟨rfl, hrep⟩
    rw [ReplacesInputs, h] at hrep
    cases hrep
  · rename_i modification h
    have hrep : ReplacesInputs reply id ↔ modification.inputs.isSome := by
      rw [ReplacesInputs, h]
      rfl
    show (if modification.inputs.isSome then rp.inputsFromWorkerById.insert id true
      else rp.inputsFromWorkerById).lookup id' = _
    by_cases hid : id' = id
    · subst hid
      by_cases hinputs : modification.inputs.isSome
      · rw [if_pos hinputs, if_pos ⟨rfl, hrep.2 hinputs⟩, AList.lookup_insert]
      · rw [if_neg hinputs, if_neg fun h => hinputs (hrep.1 h.2)]
    · have hnot : ¬ (id' = id ∧ ReplacesInputs reply id') := fun h => hid h.1
      rw [if_neg hnot]
      split
      · exact AList.lookup_insert_ne hid
      · rfl

theorem lookup_inputs_foldl (order : List TaskId) (id : TaskId) :
    (order.foldl (applyReply reply) rp).inputsFromWorkerById.lookup id =
      if id ∈ order ∧ ReplacesInputs reply id then some true
      else rp.inputsFromWorkerById.lookup id := by
  induction order generalizing rp with
  | nil => simp
  | cons id' order ih =>
    rw [List.foldl_cons, ih, lookup_inputs_applyReply]
    by_cases hrep : ReplacesInputs reply id
    · by_cases hid : id = id'
      · simp [hid, hid ▸ hrep]
      · simp [hid]
    · simp [hrep]

/-! ## Prunes -/

theorem tasksById_applyPrunes (rp : ResolvedPipeline) (pruned : List PrunedTask) :
    (rp.applyPrunes pruned).tasksById = rp.tasksById.eraseAll (pruned.map PrunedTask.taskId) := by
  rw [ResolvedPipeline.applyPrunes, HashMap.eraseAll, List.foldl_map]
  induction pruned generalizing rp with
  | nil => rfl
  | cons entry pruned ih => exact ih (rp.applyPrune entry)

theorem inputsFromWorkerById_applyPrunes (rp : ResolvedPipeline) (pruned : List PrunedTask) :
    (rp.applyPrunes pruned).inputsFromWorkerById = rp.inputsFromWorkerById := by
  rw [ResolvedPipeline.applyPrunes]
  induction pruned generalizing rp with
  | nil => rfl
  | cons entry pruned ih => exact ih (rp.applyPrune entry)

end Luchta.Proof.TaskGraph
