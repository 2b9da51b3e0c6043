import Luchta.Proof.TaskGraph.Resolved

/-!
# Resolving independently of timing

The outcomes are applied in the order of the texts of their ids, which two ids may share.

* `finishResolved_same`: two orders that agree on the first error and on the pruned list build the
  same.
* `resolved_iff_noTies`: the result is that of handling the replies in one fixed order exactly when
  no two tasks with one text compete.
-/

namespace Luchta.Proof.TaskGraph

open Luchta.Framework Luchta.Impl Luchta.Spec
open Relation (TransGen)
open ResolvedPipeline (Outcomes sortedOutcomes injectDependencies)
open TaskGraph (BuildsResolved finishResolved fromResolvedPipeline)

variable {args : BuildArgs} {rp : ResolvedPipeline} {orders : BuildOrders}
  {order order' : List TaskId} {tsPackage : Toposort PackageNode} {tsTask : Toposort TaskNode}

/-! ## Handling the replies in an order -/

/-- The first task in an order whose reply ends the resolution. -/
def firstStop (args : BuildArgs) (order : List TaskId) : Option TaskId :=
  order.find? fun id => (stop args id).isSome

theorem finishResolved_outcomesIn (order : List TaskId) :
    finishResolved tsTask orders args rp (outcomesIn (replyTo args) order) =
      ((firstStop args order).bind (stop args)).elim
        ((fromResolvedPipeline tsTask orders args.packageGraph (handled args rp order)).map
          fun g => (g, order.filterMap (prunedTask args)))
        fun e => .error (.resolve e) := by
  have happly : rp.applyOutcomes args.mode (outcomesIn (replyTo args) order) =
      ((firstStop args order).bind (stop args)).elim
        (.ok (order.foldl (applyReply (replyTo args)) rp, order.filterMap (prunedTask args))) .error :=
    applyOutcomes_outcomesIn order
  unfold finishResolved
  rw [happly]
  cases (firstStop args order).bind (stop args) with
  | some e => rfl
  | none =>
    show (fromResolvedPipeline tsTask orders args.packageGraph (handled args rp order) >>=
      fun g => pure (g, order.filterMap (prunedTask args))) = _
    cases fromResolvedPipeline tsTask orders args.packageGraph (handled args rp order) <;> rfl

theorem firstStop_none (h : HandlesAll args order) (hfirst : (firstStop args order).bind (stop args) = none) :
    ∀ id, stop args id = none := by
  have hnone : firstStop args order = none := by
    cases hf : firstStop args order with
    | none => rfl
    | some id =>
      rw [hf, Option.bind_some] at hfirst
      have := List.find?_some hf
      rw [hfirst] at this
      contradiction
  intro id
  by_contra hne
  obtain ⟨e, he⟩ := Option.ne_none_iff_exists'.1 hne
  obtain ⟨outcome, hreply, -⟩ := Option.bind_eq_some_iff.1 he
  have hmem : id ∈ order := (h.mem_iff id).2 (Option.isSome_iff_exists.2 ⟨outcome, hreply⟩)
  have := List.find?_eq_none.1 hnone id hmem
  simp [he] at this

/-- What a graph says of the inputs that come from workers. -/
theorem inputs_of_fromResolvedPipeline {pg : PackageGraph} {g : TaskGraph}
    (h : fromResolvedPipeline tsTask orders pg rp = .ok g) :
    g.inputsFromWorkerById = rp.inputsFromWorkerById := by
  have heq : fromResolvedPipeline tsTask orders pg rp =
      (fromResolvedPipeline tsTask orders pg rp).map (withInputs rp.inputsFromWorkerById) :=
    fromResolvedPipeline_congr rfl
  rw [h] at heq
  exact congrArg TaskGraph.inputsFromWorkerById (Except.ok.inj heq)

/-- Two orders that agree on the first error and on the pruned list build the same. -/
theorem finishResolved_same (hdefs : ∀ id, rp.tasksById.lookup id =
      taskDefinition args.packageGraph args.pipeline id) (h : HandlesAll args order)
    (h' : HandlesAll args order') (hfirst : firstStop args order = firstStop args order')
    (hpruned : (∀ id, stop args id = none) →
      (∀ id, ¬ TransGen (DependsAmong args.packageGraph (resolvedDefinition args)) id id) →
      order.filterMap (prunedTask args) = order'.filterMap (prunedTask args)) :
    SameResult (finishResolved tsTask orders args rp (outcomesIn (replyTo args) order))
      (finishResolved tsTask orders args rp (outcomesIn (replyTo args) order')) := by
  rw [finishResolved_outcomesIn, finishResolved_outcomesIn, ← hfirst]
  cases hstop : (firstStop args order).bind (stop args) with
  | some e => exact rfl
  | none =>
    have htasks := tasksById_handled hdefs h h'
    have hcongr : fromResolvedPipeline tsTask orders args.packageGraph (handled args rp order') =
        (fromResolvedPipeline tsTask orders args.packageGraph (handled args rp order)).map
          (withInputs (handled args rp order').inputsFromWorkerById) :=
      fromResolvedPipeline_congr htasks
    show SameResult (Except.map _ _) (Except.map _ _)
    rw [hcongr]
    rcases fromResolvedPipeline_cases tsTask orders args.packageGraph
      (lookup_handled hdefs h) with ⟨-, e, he⟩ | ⟨hacyclic, g, hg, -⟩
    · rw [he]
      exact rfl
    · rw [hg]
      refine ⟨rfl, rfl, rfl, fun id => ?_, hpruned (firstStop_none h hstop) hacyclic⟩
      rw [inputs_of_fromResolvedPipeline hg, lookup_inputs_handled h h']
      rfl

theorem sameResult_of_common {a b c : Except EngineError (TaskGraph × List PrunedTask)}
    (ha : SameResult a c) (hb : SameResult b c) : SameResult a b := by
  match a, b, c with
  | .error e, .error e', .error e'' => exact Eq.trans ha (Eq.symm hb)
  | .ok (g, pruned), .ok (g', pruned'), .ok (g'', pruned'') =>
    obtain ⟨h₁, h₂, h₃, h₄, h₅⟩ := ha
    obtain ⟨h₁', h₂', h₃', h₄', h₅'⟩ := hb
    exact ⟨h₁.trans h₁'.symm, h₂.trans h₂'.symm, h₃.trans h₃'.symm,
      fun id => (h₄ id).trans (h₄' id).symm, h₅.trans h₅'.symm⟩

/-! ## Orders of arrival -/

theorem sortedOutcomes_eq (rs : RandomState) {outcomes : Outcomes}
    (h : ∀ id, outcomes.lookup id = replyTo args id) :
    sortedOutcomes rs outcomes =
      outcomesIn (replyTo args) (sortBy TaskId.toString (rs.permute outcomes.keys)) := by
  rw [sortedOutcomes, outcomesIn]
  simp only [h]

theorem handlesAll_sorted (rs : RandomState) {outcomes : Outcomes}
    (h : ∀ id, outcomes.lookup id = replyTo args id) :
    HandlesAll args (sortBy TaskId.toString (rs.permute outcomes.keys)) where
  nodup := nodup_sortedIds rs outcomes _
  mem_iff id := by
    rw [mem_sortBy, RandomState.mem_permute, ← h, AList.lookup_isSome]
    exact Iff.rfl

/-- Every result comes from handling all replies, sorted by the texts of their ids. -/
theorem exists_order (hdefs : ∀ id, rp.tasksById.lookup id =
      taskDefinition args.packageGraph args.pipeline id)
    (hrp : ResolvedPipeline.build tsPackage orders args.packageGraph args.pipeline = .ok rp)
    {result : Except EngineError (TaskGraph × List PrunedTask)}
    (h : BuildsResolved tsPackage tsTask orders args result) :
    ∃ ids : List TaskId, HandlesAll args (sortBy TaskId.toString ids) ∧ result =
      finishResolved tsTask orders args rp (outcomesIn (replyTo args) (sortBy TaskId.toString ids)) := by
  rw [BuildsResolved, hrp] at h
  obtain ⟨parallelism, rs, s, hs, hfin, rfl⟩ := h
  have hlookup := lookup_collected hdefs hs hfin
  exact ⟨_, handlesAll_sorted rs hlookup, by rw [sortedOutcomes_eq rs hlookup]⟩

/-- Iteration from the last entry to the first. -/
def reverseOrder : RandomState := ⟨List.reverse, List.reverse_perm⟩

/-- Some ids come in one order or in the other. -/
theorem exists_both_orders (tsTask : Toposort TaskNode) (hdefs : ∀ id, rp.tasksById.lookup id =
      taskDefinition args.packageGraph args.pipeline id)
    (hrp : ResolvedPipeline.build tsPackage orders args.packageGraph args.pipeline = .ok rp) :
    ∃ ids : List TaskId, HandlesAll args (sortBy TaskId.toString ids) ∧
      HandlesAll args (sortBy TaskId.toString ids.reverse) ∧
      BuildsResolved tsPackage tsTask orders args (finishResolved tsTask orders args rp
        (outcomesIn (replyTo args) (sortBy TaskId.toString ids))) ∧
      BuildsResolved tsPackage tsTask orders args (finishResolved tsTask orders args rp
        (outcomesIn (replyTo args) (sortBy TaskId.toString ids.reverse))) := by
  obtain ⟨s, hs, hfin⟩ := Collecting.exists_finished (Reach.init (S := ResolvedPipeline.resolving
    args.resolver none (rp.requests orders args.packages args.mode)) (C := fun _ _ => True) rfl)
  have hlookup := lookup_collected hdefs hs hfin
  have hresult : ∀ rs : RandomState, BuildsResolved tsPackage tsTask orders args
      (finishResolved tsTask orders args rp (outcomesIn (replyTo args)
        (sortBy TaskId.toString (rs.permute s.collected.keys)))) := by
    intro rs
    rw [BuildsResolved, hrp]
    exact ⟨none, rs, s, hs, hfin, by rw [sortedOutcomes_eq rs hlookup]⟩
  exact ⟨s.collected.keys, handlesAll_sorted .id hlookup, handlesAll_sorted reverseOrder hlookup,
    hresult .id, hresult reverseOrder⟩

/-! ## Resolved graphs -/

/-- What building a resolved graph should do, whenever the replies arrive. -/
structure ResolvedCorrect (tsPackage : Toposort PackageNode) (tsTask : Toposort TaskNode)
    (orders : BuildOrders) (args : BuildArgs) : Prop where
  /-- The result is that of handling the replies in one fixed order. -/
  sequential : ∃ order : List TaskId, (args.packageGraph.graph.Acyclic → HandlesAll args order) ∧
    ∀ result, BuildsResolved tsPackage tsTask orders args result →
      SameResult result (buildSequential args tsPackage tsTask orders order)
  returns : ∃ result, BuildsResolved tsPackage tsTask orders args result
  /-- The graph has the tasks that were not pruned, with the edges of their resolved definitions. -/
  survivors : ∀ g pruned, BuildsResolved tsPackage tsTask orders args (.ok (g, pruned)) →
    GraphOf args.packageGraph (resolvedDefinition args) g ∧ pruned.Nodup ∧
      ∀ entry, entry ∈ pruned ↔ ∃ id, prunedTask args id = some entry
  /-- What a worker depends on is there in spite of modifications, once where it was injected. -/
  injected : ∀ g pruned, BuildsResolved tsPackage tsTask orders args (.ok (g, pruned)) →
    ∀ id definition name worker, g.taskDefinition id = some definition →
      definition.worker = some name → args.workerDefinitions.lookup name = some worker →
      ∃ modified, modifiedDefinition args id = some modified ∧
        ∀ d ∈ worker.dependsOn, definition.dependsOn.count d =
          if d ∈ modified.dependsOn then modified.dependsOn.count d else 1

theorem survivors_of_order (hdefs : ∀ id, rp.tasksById.lookup id =
      taskDefinition args.packageGraph args.pipeline id) (h : HandlesAll args order) {g : TaskGraph}
    {pruned : List PrunedTask}
    (hresult : finishResolved tsTask orders args rp (outcomesIn (replyTo args) order) =
      .ok (g, pruned)) :
    GraphOf args.packageGraph (resolvedDefinition args) g ∧
      pruned = order.filterMap (prunedTask args) := by
  rw [finishResolved_outcomesIn] at hresult
  cases hstop : (firstStop args order).bind (stop args) with
  | some e =>
    rw [hstop] at hresult
    cases hresult
  | none =>
    rw [hstop] at hresult
    obtain ⟨g', hg', heq⟩ := map_eq_ok.1 hresult
    obtain ⟨rfl, rfl⟩ := Prod.mk.inj heq
    refine ⟨?_, rfl⟩
    rcases fromResolvedPipeline_cases tsTask orders args.packageGraph
      (lookup_handled hdefs h) with ⟨-, e, he⟩ | ⟨-, g'', hg'', hgraph⟩
    · rw [hg'] at he
      cases he
    · obtain rfl := Except.ok.inj (hg'.symm.trans hg'')
      exact hgraph

theorem mem_pruned (h : HandlesAll args order) {entry : PrunedTask} :
    entry ∈ order.filterMap (prunedTask args) ↔ ∃ id, prunedTask args id = some entry := by
  rw [List.mem_filterMap]
  constructor
  · rintro ⟨id, -, hid⟩
    exact ⟨id, hid⟩
  · rintro ⟨id, hid⟩
    obtain ⟨outcome, hreply, -⟩ := Option.bind_eq_some_iff.1 hid
    exact ⟨id, (h.mem_iff id).2 (Option.isSome_iff_exists.2 ⟨outcome, hreply⟩), hid⟩

/-- A task of the graph keeps the worker it was defined with. -/
theorem injected_of_graph {g : TaskGraph}
    (hgraph : GraphOf args.packageGraph (resolvedDefinition args) g) {id : TaskId}
    {definition : TaskDefinition} (hdef : g.taskDefinition id = some definition) {name : String}
    {worker : WorkerDefinition} (hname : definition.worker = some name)
    (hworker : args.workerDefinitions.lookup name = some worker) :
    ∃ modified, modifiedDefinition args id = some modified ∧
      ∀ d ∈ worker.dependsOn, definition.dependsOn.count d =
        if d ∈ modified.dependsOn then modified.dependsOn.count d else 1 := by
  rw [hgraph.definition, resolvedDefinition] at hdef
  obtain ⟨-, hmap⟩ := Option.ite_none_left_eq_some.1 hdef
  obtain ⟨modified, hmodified, rfl⟩ := Option.map_eq_some_iff.1 hmap
  have hkeep : (injectDependencies args.workerDefinitions modified).worker = modified.worker := by
    unfold injectDependencies
    split <;> rfl
  exact ⟨modified, hmodified, fun d hd => count_injected (hkeep ▸ hname) hworker hd⟩

/-- What does not depend on the order of the replies. -/
theorem resolvedCorrect_iff_sequential (tsPackage : Toposort PackageNode)
    (tsTask : Toposort TaskNode) (orders : BuildOrders) (args : BuildArgs) :
    ResolvedCorrect tsPackage tsTask orders args ↔
      ∃ order : List TaskId, (args.packageGraph.graph.Acyclic → HandlesAll args order) ∧
        ∀ result, BuildsResolved tsPackage tsTask orders args result →
          SameResult result (buildSequential args tsPackage tsTask orders order) := by
  refine ⟨fun h => h.sequential, fun hseq => ?_⟩
  rcases resolvedPipeline_build tsPackage orders args.packageGraph args.pipeline with
    ⟨-, e, he⟩ | ⟨-, rp, hrp, hdefs⟩
  · have hresult : ∀ result, BuildsResolved tsPackage tsTask orders args result ↔
        result = .error e := fun result => by
      rw [BuildsResolved, he]
    refine ⟨hseq, ⟨_, (hresult _).2 rfl⟩, fun g pruned h => ?_, fun g pruned h => ?_⟩
    · cases (hresult _).1 h
    · cases (hresult _).1 h
  · have hsurvivors : ∀ g pruned, BuildsResolved tsPackage tsTask orders args (.ok (g, pruned)) →
        GraphOf args.packageGraph (resolvedDefinition args) g ∧ pruned.Nodup ∧
          ∀ entry, entry ∈ pruned ↔ ∃ id, prunedTask args id = some entry := by
      intro g pruned h
      obtain ⟨ids, hall, hresult⟩ := exists_order hdefs hrp h
      obtain ⟨hgraph, rfl⟩ := survivors_of_order hdefs hall hresult.symm
      refine ⟨hgraph, hall.nodup.filterMap fun id id' entry hid hid' => ?_, fun entry => mem_pruned hall⟩
      exact (taskId_of_prunedTask hid).symm.trans (taskId_of_prunedTask hid')
    obtain ⟨ids, -, -, hbuilds, -⟩ := exists_both_orders tsTask hdefs hrp
    refine ⟨hseq, ⟨_, hbuilds⟩, hsurvivors, ?_⟩
    intro g pruned h id definition name worker hdef hname hworker
    exact injected_of_graph (hsurvivors g pruned h).1 hdef hname hworker

/-! ## Ties -/

theorem mem_of_stop (h : HandlesAll args order) {id : TaskId} (hid : (stop args id).isSome) :
    id ∈ order := by
  obtain ⟨e, he⟩ := Option.isSome_iff_exists.1 hid
  obtain ⟨outcome, hreply, -⟩ := Option.bind_eq_some_iff.1 he
  exact (h.mem_iff id).2 (Option.isSome_iff_exists.2 ⟨outcome, hreply⟩)

/-- Without ties, all orders give the same. -/
theorem same_of_noTies (hdefs : ∀ id, rp.tasksById.lookup id =
      taskDefinition args.packageGraph args.pipeline id) (hties : NoTies args) {ids ids' : List TaskId}
    (h : HandlesAll args (sortBy TaskId.toString ids))
    (h' : HandlesAll args (sortBy TaskId.toString ids')) :
    SameResult (finishResolved tsTask orders args rp
        (outcomesIn (replyTo args) (sortBy TaskId.toString ids)))
      (finishResolved tsTask orders args rp
        (outcomesIn (replyTo args) (sortBy TaskId.toString ids'))) := by
  have hnd : ids.Nodup := (sortBy_perm _ _).nodup_iff.1 h.nodup
  have hperm : ids.Perm ids' := by
    refine (List.perm_ext_iff_of_nodup hnd ((sortBy_perm _ _).nodup_iff.1 h'.nodup)).2 fun id => ?_
    rw [← mem_sortBy (f := TaskId.toString), h.mem_iff, ← h'.mem_iff, mem_sortBy]
  refine finishResolved_same hdefs h h' ?_ fun hnone hacyclic => ?_
  · refine find?_sortBy_eq hperm fun a ha b hb hpa hpb hmina hminb => ?_
    refine hties.1 a b ⟨hpa, fun c hc => hmina c ?_ hc⟩ ⟨hpb, fun c hc => hminb c ?_ hc⟩
    · exact mem_sortBy.1 (mem_of_stop h hc)
    · exact mem_sortBy.1 (mem_of_stop h hc)
  · exact filterMap_sortBy_eq hperm hnd fun a _ b _ ha hb => hties.2 hnone hacyclic a b ha hb

/-- Where an order and its reverse give the same, there are no ties. -/
theorem noTies_of_same (hdefs : ∀ id, rp.tasksById.lookup id =
      taskDefinition args.packageGraph args.pipeline id) {ids : List TaskId}
    (h : HandlesAll args (sortBy TaskId.toString ids))
    (h' : HandlesAll args (sortBy TaskId.toString ids.reverse))
    (hsame : SameResult (finishResolved tsTask orders args rp
        (outcomesIn (replyTo args) (sortBy TaskId.toString ids)))
      (finishResolved tsTask orders args rp
        (outcomesIn (replyTo args) (sortBy TaskId.toString ids.reverse)))) : NoTies args := by
  have hnd : ids.Nodup := (sortBy_perm _ _).nodup_iff.1 h.nodup
  rw [finishResolved_outcomesIn, finishResolved_outcomesIn] at hsame
  constructor
  · intro id id' hid hid'
    have hmem : ∀ {c}, (stop args c).isSome → c ∈ ids := fun hc => mem_sortBy.1 (mem_of_stop h hc)
    refine find?_sortBy_unique hnd ?_ (hmem hid.1) (hmem hid'.1) hid.1 hid'.1
      (fun c _ hc => hid.2 c hc) fun c _ hc => hid'.2 c hc
    -- the first errors are the same, and tell their tasks
    have hsome : ∀ {o : List TaskId}, HandlesAll args o → ∃ c e, firstStop args o = some c ∧
        stop args c = some e := by
      intro o ho
      obtain ⟨c, hc⟩ : ∃ c, firstStop args o = some c := Option.isSome_iff_exists.1
        (List.find?_isSome.2 ⟨id, mem_of_stop ho hid.1, hid.1⟩)
      have hp : (stop args c).isSome := List.find?_some (p := fun id => (stop args id).isSome) hc
      obtain ⟨e, he⟩ := Option.isSome_iff_exists.1 hp
      exact ⟨c, e, hc, he⟩
    obtain ⟨c, e, hc, he⟩ := hsome h
    obtain ⟨c', e', hc', he'⟩ := hsome h'
    rw [hc, hc', Option.bind_some, Option.bind_some, he, he'] at hsame
    obtain rfl : e = e' := EngineError.resolve.inj hsame
    exact (hc.trans (congrArg some (stop_injective he he'))).trans hc'.symm
  · intro hnone hacyclic id id' hid hid' htext
    have hfirst : ∀ o : List TaskId, (firstStop args o).bind (stop args) = none := by
      intro o
      cases firstStop args o with
      | none => rfl
      | some c => exact hnone c
    rw [hfirst, hfirst] at hsame
    have hok : ∀ {o : List TaskId}, HandlesAll args o → ∃ g,
        fromResolvedPipeline tsTask orders args.packageGraph (handled args rp o) = .ok g := by
      intro o ho
      rcases fromResolvedPipeline_cases tsTask orders args.packageGraph
        (lookup_handled hdefs ho) with ⟨⟨c, hcycle⟩, -⟩ | ⟨-, g, hg, -⟩
      · exact absurd hcycle (hacyclic c)
      · exact ⟨g, hg⟩
    obtain ⟨g, hg⟩ := hok h
    obtain ⟨g', hg'⟩ := hok h'
    rw [hg, hg'] at hsame
    have hmem : ∀ {c}, (prunedTask args c).isSome → c ∈ ids := fun {c} hc => by
      obtain ⟨entry, hentry⟩ := Option.isSome_iff_exists.1 hc
      obtain ⟨outcome, hreply, -⟩ := Option.bind_eq_some_iff.1 hentry
      exact mem_sortBy.1 ((h.mem_iff c).2 (Option.isSome_iff_exists.2 ⟨outcome, hreply⟩))
    exact filterMap_sortBy_unique hnd (fun a b entry ha hb =>
      (taskId_of_prunedTask ha).symm.trans (taskId_of_prunedTask hb)) hsame.2.2.2.2 (hmem hid)
      (hmem hid') hid hid' htext

/-- Building a resolved graph does what it should exactly when no two tasks with one text compete;
in a workspace whose packages form a cycle, nothing is resolved. -/
theorem resolved_iff_noTies (tsPackage : Toposort PackageNode) (tsTask : Toposort TaskNode)
    (orders : BuildOrders) (args : BuildArgs) :
    ResolvedCorrect tsPackage tsTask orders args ↔
      (args.packageGraph.graph.Acyclic → NoTies args) := by
  rw [resolvedCorrect_iff_sequential]
  rcases resolvedPipeline_build tsPackage orders args.packageGraph args.pipeline with
    ⟨hcycle, e, he⟩ | ⟨hacyclic, rp, hrp, hdefs⟩
  · refine iff_of_true ⟨[], fun h => absurd h hcycle, fun result hresult => ?_⟩ fun h => absurd h hcycle
    rw [BuildsResolved, he] at hresult
    rw [hresult, buildSequential, he]
    exact rfl
  · have hsequential : ∀ order, buildSequential args tsPackage tsTask orders order =
        finishResolved tsTask orders args rp (outcomesIn (replyTo args) order) := fun order => by
      rw [buildSequential, hrp]
      rfl
    obtain ⟨ids, hall, hall', hbuilds, hbuilds'⟩ := exists_both_orders tsTask hdefs hrp
    constructor
    · rintro ⟨order, -, hsame⟩ -
      exact noTies_of_same hdefs hall hall'
        (sameResult_of_common (hsame _ hbuilds) (hsame _ hbuilds'))
    · intro hties
      refine ⟨sortBy TaskId.toString ids, fun _ => hall, fun result hresult => ?_⟩
      obtain ⟨ids', hall'', rfl⟩ := exists_order hdefs hrp hresult
      rw [hsequential]
      exact same_of_noTies hdefs (hties hacyclic) hall'' hall

/-! ## Two tasks with one text -/

/-- The result after replies have arrived in the given order, once none is in flight. -/
def resultAfter (tsPackage : Toposort PackageNode) (tsTask : Toposort TaskNode)
    (orders : BuildOrders) (args : BuildArgs) (parallelism : Option Nat) (rs : RandomState)
    (arrivals : List Nat) : Option (Except EngineError (TaskGraph × List PrunedTask)) :=
  match ResolvedPipeline.build tsPackage orders args.packageGraph args.pipeline with
  | .error e => some (.error e)
  | .ok rp =>
    let requests := rp.requests orders args.packages args.mode
    ((ResolvedPipeline.resolving args.resolver parallelism requests).run (fun _ _ => True)
      (.start (ResolvedPipeline.maxInFlight parallelism) requests ∅) arrivals).bind fun s =>
        if s.Finished then some (finishResolved tsTask orders args rp (sortedOutcomes rs s.collected))
        else none

theorem buildsResolved_of_resultAfter {parallelism : Option Nat} {rs : RandomState}
    {arrivals : List Nat} {result : Except EngineError (TaskGraph × List PrunedTask)}
    (h : resultAfter tsPackage tsTask orders args parallelism rs arrivals = some result) :
    BuildsResolved tsPackage tsTask orders args result := by
  unfold resultAfter at h
  unfold BuildsResolved
  cases hrp : ResolvedPipeline.build tsPackage orders args.packageGraph args.pipeline with
  | error e =>
    rw [hrp] at h
    exact (Option.some.inj h).symm
  | ok rp =>
    rw [hrp] at h
    obtain ⟨s, hrun, hs⟩ := Option.bind_eq_some_iff.1 h
    obtain ⟨hfin, hresult⟩ := Option.ite_none_right_eq_some.1 hs
    exact ⟨parallelism, rs, s, Reach.run (.init rfl) hrun, hfin, (Option.some.inj hresult).symm⟩

/-- The workspace of `a` and `a#b`, in which `a#b#c` names a task of each. -/
def hashPackages : PackageGraph :=
  .ofNodes [⟨⟨"a"⟩, "packages/a"⟩, ⟨⟨"a#b"⟩, "packages/ab"⟩] [] none (by decide) (by decide)

/-- Both tasks are pruned by their worker. -/
def hashArgs : BuildArgs where
  packageGraph := hashPackages
  pipeline := HashMap.ofList [
    (⟨"a#b#c"⟩, { TaskDefinition.new [] 1 with worker := some "node" }),
    (⟨"c"⟩, { TaskDefinition.new [] 1 with worker := some "node" })]
  packages := ∅
  workerDefinitions := HashMap.ofList [("node", ⟨[]⟩)]
  resolver _ request := .ok (.Prune (some request.name))
  mode := .Run

/-- With the same iteration order of the outcomes, the pruned list follows the replies. -/
theorem pruned_follows_replies : ¬ ResolvedCorrect .kahn .kahn idOrders hashArgs := by
  have hruns : ((resultAfter .kahn .kahn idOrders hashArgs (some 4) .id [1, 0, 0]).bind
        Except.toOption).map Prod.snd = some [
          ⟨⟨⟨"a"⟩, ⟨"b#c"⟩⟩, .Pruned (some "b#c")⟩, ⟨⟨⟨"a#b"⟩, ⟨"c"⟩⟩, .Pruned (some "c")⟩,
          ⟨⟨⟨"a"⟩, ⟨"c"⟩⟩, .Pruned (some "c")⟩] ∧
      ((resultAfter .kahn .kahn idOrders hashArgs (some 4) .id [0, 0, 0]).bind
        Except.toOption).map Prod.snd = some [
          ⟨⟨⟨"a#b"⟩, ⟨"c"⟩⟩, .Pruned (some "c")⟩, ⟨⟨⟨"a"⟩, ⟨"b#c"⟩⟩, .Pruned (some "b#c")⟩,
          ⟨⟨⟨"a"⟩, ⟨"c"⟩⟩, .Pruned (some "c")⟩] := by
    decide +kernel
  intro h
  obtain ⟨order, -, hsame⟩ := h.sequential
  obtain ⟨⟨⟨g, pruned⟩, hg, hpruned⟩, ⟨g', pruned'⟩, hg', hpruned'⟩ :=
    And.intro (Option.map_eq_some_iff.1 hruns.1) (Option.map_eq_some_iff.1 hruns.2)
  have hbuilds : ∀ {arrivals : List Nat} {g : TaskGraph} {pruned : List PrunedTask},
      (resultAfter .kahn .kahn idOrders hashArgs (some 4) .id arrivals).bind Except.toOption =
        some (g, pruned) → BuildsResolved .kahn .kahn idOrders hashArgs (.ok (g, pruned)) := by
    intro arrivals g pruned hresult
    obtain ⟨result, hrun, hok⟩ := Option.bind_eq_some_iff.1 hresult
    cases result with
    | error e => cases hok
    | ok r =>
      obtain rfl : r = (g, pruned) := Option.some.inj hok
      exact buildsResolved_of_resultAfter hrun
  have heq := (sameResult_of_common (hsame _ (hbuilds hg)) (hsame _ (hbuilds hg'))).2.2.2.2
  simp only at hpruned hpruned'
  rw [hpruned, hpruned'] at heq
  revert heq
  decide

end Luchta.Proof.TaskGraph
