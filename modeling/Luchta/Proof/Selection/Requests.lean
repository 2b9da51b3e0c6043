import Luchta.Proof.Selection.Scope

/-!
# Requests for tasks

* `selected_least`: what is selected is what is asked for, with what it depends on.
* `collect_succeeds_iff`: when a selection succeeds; what a request itself leaves out never excuses it.
* `hint_followed`: a selection that follows a hint has a task for the request.
-/

namespace Luchta.Proof.Selection

open Luchta.Framework Luchta.Impl Luchta.Impl.Selection
open Luchta.Proof.TaskGraph (HasTask HasEdge hasTask_iff Closed isLeast_expandWithDependencies)

variable {globs : PlainGlobs} {rs : RandomState} {request : CollectSubgraphRequest} {id : TaskId} {requested : String}
  {taskGlobs packageGlobs : Glob}

/-! ## Tasks -/

/-- The globs of a request. -/
structure Compiled (globs : PlainGlobs) (request : CollectSubgraphRequest) (taskGlobs packageGlobs : Glob) : Prop where
  laws : GlobLaws globs
  packages : buildGlobset globs request.selection.packages = .ok packageGlobs
  tasks : buildGlobset globs request.selection.requestedTasks = .ok taskGlobs

abbrev criteria (request : CollectSubgraphRequest) (taskGlobs packageGlobs : Glob) : SelectionCriteria :=
  criteriaOf request.selection request.sinceAffected taskGlobs packageGlobs

abbrev requestedIds (request : CollectSubgraphRequest) (taskGlobs packageGlobs : Glob) : List TaskId :=
  collectMatchingTaskIds request.taskGraph.graph.nodes (criteria request taskGlobs packageGlobs)

theorem Compiled.inScope_iff (hc : Compiled globs request taskGlobs packageGlobs) (since : Option SinceAffected)
    (id : TaskId) : packageMatches id (criteriaOf request.selection since taskGlobs packageGlobs) = true ↔
      InScope globs request.selection since id :=
  packageMatches_iff (buildGlobset_iff hc.laws hc.packages)

theorem Compiled.mem_requestedIds (hc : Compiled globs request taskGlobs packageGlobs) :
    id ∈ requestedIds request taskGlobs packageGlobs ↔ Asked globs request id := by
  rw [requestedIds, collectMatchingTaskIds, List.mem_map]
  constructor
  · rintro ⟨node, hnode, rfl⟩
    obtain ⟨hnode, hscope⟩ := List.mem_filter.1 hnode
    obtain ⟨hnode, hname⟩ := List.mem_filter.1 hnode
    exact ⟨hasTask_iff.2 ⟨node, hnode, rfl⟩, (buildGlobset_iff hc.laws hc.tasks _).1 hname,
      (hc.inScope_iff _ _).1 hscope⟩
  · rintro ⟨htask, hname, hscope⟩
    obtain ⟨node, hnode, rfl⟩ := hasTask_iff.1 htask
    exact ⟨node, List.mem_filter.2 ⟨List.mem_filter.2 ⟨hnode, (buildGlobset_iff hc.laws hc.tasks _).2 hname⟩,
      (hc.inScope_iff _ _).2 hscope⟩, rfl⟩

/-- A request that some task in scope has the name of. -/
theorem Compiled.asked (hc : Compiled globs request taskGlobs packageGlobs)
    (hmem : requested ∈ request.selection.requestedTasks) (hliteral : isLiteralPattern requested = true)
    (htask : HasTask request.taskGraph id) (hname : id.task.name = requested)
    (hscope : InScope globs request.selection request.sinceAffected id) : Asked globs request id :=
  ⟨htask, hname ▸ matches_literal hc.laws hc.tasks hmem hliteral, hscope⟩

/-- What a selection leaves out has another name than a request without wildcards. -/
theorem Compiled.not_selectionPrunes (hc : Compiled globs request taskGlobs packageGlobs)
    (hmem : requested ∈ request.selection.requestedTasks) (hliteral : isLiteralPattern requested = true)
    {entry : PrunedTask} (h : entry ∈ selectionPrunes (requestedIds request taskGlobs packageGlobs) request.selection
      (criteria request taskGlobs packageGlobs) request.taskGraph.graph.nodes) :
    entry.taskId.task.name ≠ requested := by
  rintro rfl
  obtain ⟨node, hnode, rfl⟩ := List.mem_map.1 h
  obtain ⟨hnode, -⟩ := List.mem_filter.1 hnode
  obtain ⟨hnode, hscope⟩ := List.mem_filter.1 hnode
  obtain ⟨hnode, hnot⟩ := List.mem_filter.1 hnode
  exact of_decide_eq_true hnot (hc.mem_requestedIds.2
    (hc.asked hmem hliteral (hasTask_iff.2 ⟨node, hnode, rfl⟩) rfl ((hc.inScope_iff _ _).1 hscope)))

theorem Compiled.matched_packages (hc : Compiled globs request taskGlobs packageGlobs) :
    (!request.selection.packages.isEmpty && (collectMatchedPackageNames request.taskGraph.graph.nodes
      request.selection.packages packageGlobs).isEmpty) = false ↔
      (request.selection.packages ≠ [] → ∃ id, HasTask request.taskGraph id ∧ id.isRoot = false ∧
        Matches globs request.selection.packages id.package.name) := by
  have hmem : ∀ name, name ∈ collectMatchedPackageNames request.taskGraph.graph.nodes request.selection.packages
      packageGlobs ↔ request.selection.packages ≠ [] ∧ ∃ id, HasTask request.taskGraph id ∧ id.isRoot = false ∧
        id.package = name ∧ Matches globs request.selection.packages name.name := by
    intro name
    unfold collectMatchedPackageNames
    split
    · rename_i hnil
      simp [hnil]
    · rename_i hne
      simp only [List.mem_filter, List.mem_map, buildGlobset_iff hc.laws hc.packages, Bool.not_eq_true', hasTask_iff]
      constructor
      · rintro ⟨⟨id, ⟨⟨node, hnode, rfl⟩, hroot⟩, rfl⟩, hmatch⟩
        exact ⟨hne, node.id, ⟨node, hnode, rfl⟩, hroot, rfl, hmatch⟩
      · rintro ⟨-, id, ⟨node, hnode, rfl⟩, hroot, rfl, hmatch⟩
        exact ⟨⟨node.id, ⟨⟨node, hnode, rfl⟩, hroot⟩, rfl⟩, hmatch⟩
  rw [← Bool.not_eq_true, Bool.and_eq_true, not_and, Bool.not_eq_true', List.isEmpty_eq_false_iff]
  refine imp_congr_right fun hne => ?_
  rw [List.isEmpty_iff, List.eq_nil_iff_forall_not_mem, not_forall]
  constructor
  · rintro ⟨name, hname⟩
    obtain ⟨-, id, htask, hroot, rfl, hmatch⟩ := (hmem name).1 (not_not.1 hname)
    exact ⟨id, htask, hroot, hmatch⟩
  · rintro ⟨id, htask, hroot, hmatch⟩
    exact ⟨id.package, not_not.2 ((hmem _).2 ⟨hne, id, htask, hroot, rfl, hmatch⟩)⟩

/-! ## One request -/

/-- There is a task in scope with this name, but for the changes since a revision, or one that was pruned. -/
def Explained (globs : PlainGlobs) (request : CollectSubgraphRequest) (requested : String) : Prop :=
  (∃ id, HasTask request.taskGraph id ∧ id.task.name = requested ∧ InScope globs request.selection none id) ∨
    ∃ entry ∈ request.pruned, entry.taskId.task.name = requested ∧
      InScope globs request.selection request.sinceAffected entry.taskId

theorem InScope.withoutSince {selection : TaskSelection} {since : Option SinceAffected}
    (h : InScope globs selection since id) : InScope globs selection none id := ⟨h.1, fun _ hmem => by cases hmem⟩

/-- The errors about a request, each with its reason. -/
structure Rejected (request : CollectSubgraphRequest) (requested : String) (e : SelectionError) : Prop where
  reason : e = .TaskNotFound requested ∨
    (e = .TopLevelTask requested ∧ request.selection.topLevel = false ∧
      ∃ id, HasTask request.taskGraph id ∧ id.isRoot = true ∧ id.task.name = requested) ∨
    (e = .PackageTask requested ∧ request.selection.topLevel = true ∧ request.selection.packages = [] ∧
      ∃ id, HasTask request.taskGraph id ∧ id.isRoot = false ∧ id.task.name = requested)

theorem wrongScopeHint_spec {e : SelectionError} (h : wrongScopeHint requested
    (criteria request taskGlobs packageGlobs) request.taskGraph.graph.nodes = some e) : Rejected request requested e := by
  have hany : ∀ f : TaskId → Bool, request.taskGraph.graph.nodes.any (fun node => f node.id) = true →
      ∃ id, HasTask request.taskGraph id ∧ f id = true := by
    intro f hf
    obtain ⟨node, hnode, hf⟩ := List.any_eq_true.1 hf
    exact ⟨node.id, hasTask_iff.2 ⟨node, hnode, rfl⟩, hf⟩
  unfold wrongScopeHint at h
  dsimp only at h
  split at h
  · rename_i htop
    obtain rfl := Option.some.inj h
    rw [requestsTopLevelTaskWithoutFlag, Bool.and_eq_true, Bool.and_eq_true] at htop
    obtain ⟨id, htask, hid⟩ := hany (fun id => id.isRoot && id.task.name = requested) htop.1.2
    rw [Bool.and_eq_true, decide_eq_true_eq] at hid
    exact ⟨.inr (.inl ⟨rfl, by simpa [criteriaOf] using htop.1.1, id, htask, hid⟩)⟩
  · split at h
    · rename_i hpackage
      obtain rfl := Option.some.inj h
      rw [requestsPackageTaskWithTopLevelFlag, Bool.and_eq_true, Bool.and_eq_true] at hpackage
      obtain ⟨id, htask, hid⟩ := hany (fun id => !id.isRoot && id.task.name = requested) hpackage.2
      rw [Bool.and_eq_true, decide_eq_true_eq, Bool.not_eq_true'] at hid
      exact ⟨.inr (.inr ⟨rfl, hpackage.1.1, by simpa [criteriaOf] using hpackage.1.2, id, htask, hid⟩)⟩
    · cases h

/-- A request that nothing matches is either explained or rejected. -/
theorem Compiled.report_spec (hc : Compiled globs request taskGlobs packageGlobs)
    (hmem : requested ∈ request.selection.requestedTasks) (hliteral : isLiteralPattern requested = true)
    (hnone : ∀ id, Asked globs request id → id.task.name ≠ requested) {result : Except SelectionError String}
    (h : reportUnmatchedRequest requested (criteria request taskGlobs packageGlobs) request.taskGraph.graph.nodes
      (request.pruned ++ selectionPrunes (requestedIds request taskGlobs packageGlobs) request.selection
        (criteria request taskGlobs packageGlobs) request.taskGraph.graph.nodes) = result) :
    ((∃ note, result = .ok note) ↔ Explained globs request requested) ∧
      ∀ e, result = .error e → Rejected request requested e := by
  unfold reportUnmatchedRequest at h
  split at h
  · rename_i hpruned
    subst h
    refine ⟨iff_of_true ⟨_, rfl⟩ (.inr ?_), fun e he => by cases he⟩
    obtain ⟨entry, hentry, hboth⟩ := List.any_eq_true.1 hpruned
    rw [Bool.and_eq_true, decide_eq_true_eq] at hboth
    refine ⟨entry, (List.mem_append.1 hentry).resolve_right fun hsel => ?_, hboth.1, (hc.inScope_iff _ _).1 hboth.2⟩
    exact hc.not_selectionPrunes hmem hliteral hsel hboth.1
  · rename_i hpruned
    have hnot : ¬∃ entry ∈ request.pruned, entry.taskId.task.name = requested ∧
        InScope globs request.selection request.sinceAffected entry.taskId := by
      rintro ⟨entry, hentry, hname, hscope⟩
      refine hpruned (List.any_eq_true.2 ⟨entry, List.mem_append_left _ hentry, ?_⟩)
      rw [Bool.and_eq_true, decide_eq_true_eq]
      exact ⟨hname, (hc.inScope_iff _ _).2 hscope⟩
    split at h
    · rename_i note hsince
      subst h
      refine ⟨iff_of_true ⟨_, rfl⟩ (.inl ?_), fun e he => by cases he⟩
      unfold filteredBySinceNote at hsince
      split at hsince
      · cases hsince
      · dsimp only at hsince
        split at hsince
        · rename_i hany
          obtain ⟨node, hnode, hboth⟩ := List.any_eq_true.1 hany
          rw [Bool.and_eq_true, Bool.and_eq_true, decide_eq_true_eq] at hboth
          exact ⟨node.id, hasTask_iff.2 ⟨node, hnode, rfl⟩, hboth.1.1, (hc.inScope_iff none _).1 hboth.1.2⟩
        · cases hsince
    · rename_i hsince
      have hunexplained : ¬Explained globs request requested := by
        rintro (⟨id, htask, hname, hscope⟩ | hentry)
        · have hout : ¬InScope globs request.selection request.sinceAffected id := fun hin =>
            hnone id (hc.asked hmem hliteral htask hname hin) hname
          obtain ⟨node, hnode, rfl⟩ := hasTask_iff.1 htask
          unfold filteredBySinceNote at hsince
          split at hsince
          · rename_i hisNone
            rw [show request.sinceAffected = none from Option.isNone_iff_eq_none.1 hisNone] at hout
            exact hout hscope
          · dsimp only at hsince
            split at hsince
            · cases hsince
            · rename_i hany
              refine hany (List.any_eq_true.2 ⟨node, hnode, ?_⟩)
              rw [Bool.and_eq_true, Bool.and_eq_true, decide_eq_true_eq, Bool.not_eq_true', ← Bool.not_eq_true]
              exact ⟨⟨hname, (hc.inScope_iff none _).2 hscope⟩, fun hin => hout ((hc.inScope_iff _ _).1 hin)⟩
        · exact hnot hentry
      split at h
      · rename_i hint hhint
        subst h
        refine ⟨iff_of_false (fun ⟨note, hnote⟩ => by cases hnote) hunexplained, fun e he => ?_⟩
        cases he
        exact wrongScopeHint_spec hhint
      · subst h
        refine ⟨iff_of_false (fun ⟨note, hnote⟩ => by cases hnote) hunexplained, fun e he => ?_⟩
        cases he
        exact ⟨.inl rfl⟩

/-! ## All requests -/

/-- A request without wildcards that no selected task has the name of. -/
def Unmatched (globs : PlainGlobs) (request : CollectSubgraphRequest) (requested : String) : Prop :=
  requested ∈ request.selection.requestedTasks ∧ isLiteralPattern requested = true ∧
    ∀ id, Asked globs request id → id.task.name ≠ requested

abbrev report (request : CollectSubgraphRequest) (taskGlobs packageGlobs : Glob) (requested : String) :
    Except SelectionError String :=
  reportUnmatchedRequest requested (criteria request taskGlobs packageGlobs) request.taskGraph.graph.nodes
    (request.pruned ++ selectionPrunes (requestedIds request taskGlobs packageGlobs) request.selection
      (criteria request taskGlobs packageGlobs) request.taskGraph.graph.nodes)

abbrev validated (request : CollectSubgraphRequest) (taskGlobs packageGlobs : Glob) :
    Except SelectionError (List String) :=
  validateLiteralTaskRequests (requestedIds request taskGlobs packageGlobs) request.selection
    (request.pruned ++ selectionPrunes (requestedIds request taskGlobs packageGlobs) request.selection
      (criteria request taskGlobs packageGlobs) request.taskGraph.graph.nodes)
    (criteria request taskGlobs packageGlobs) request.taskGraph.graph.nodes

theorem Compiled.mem_unmatched (hc : Compiled globs request taskGlobs packageGlobs) :
    requested ∈ (request.selection.requestedTasks.filter isLiteralPattern).filter (fun requested =>
      !(requestedIds request taskGlobs packageGlobs).any (·.task.name = requested)) ↔
        Unmatched globs request requested := by
  rw [List.mem_filter, List.mem_filter, Unmatched, and_assoc, Bool.not_eq_true', ← Bool.not_eq_true,
    List.any_eq_true, not_exists]
  refine and_congr_right fun _ => and_congr_right fun _ => forall_congr' fun id => ?_
  rw [hc.mem_requestedIds, not_and, decide_eq_true_eq]

theorem Compiled.validated_ok (hc : Compiled globs request taskGlobs packageGlobs) :
    (∃ notes, validated request taskGlobs packageGlobs = .ok notes) ↔
      ∀ requested, Unmatched globs request requested → Explained globs request requested := by
  constructor
  · rintro ⟨notes, hnotes⟩ requested hun
    obtain ⟨note, hnote⟩ := exists_of_mapM hnotes (hc.mem_unmatched.2 hun)
    exact (hc.report_spec hun.1 hun.2.1 hun.2.2 rfl).1.1 ⟨note, hnote⟩
  · intro h
    refine exists_mapM fun requested hmem => ?_
    have hun := hc.mem_unmatched.1 hmem
    exact (hc.report_spec hun.1 hun.2.1 hun.2.2 rfl).1.2 (h requested hun)

theorem Compiled.validated_error (hc : Compiled globs request taskGlobs packageGlobs) {e : SelectionError}
    (h : validated request taskGlobs packageGlobs = .error e) : ∃ requested, Unmatched globs request requested ∧
      ¬Explained globs request requested ∧ Rejected request requested e := by
  obtain ⟨requested, hmem, he⟩ := exists_of_mapM_error h
  have hun := hc.mem_unmatched.1 hmem
  have hreport := hc.report_spec hun.1 hun.2.1 hun.2.2 he
  refine ⟨requested, hun, fun hex => ?_, hreport.2 e rfl⟩
  obtain ⟨note, hnote⟩ := hreport.1.2 hex
  cases hnote

theorem Compiled.collect_eq (hc : Compiled globs request taskGlobs packageGlobs) :
    collectRequestedSubgraph globs rs request =
      if (!request.selection.packages.isEmpty && (collectMatchedPackageNames request.taskGraph.graph.nodes
        request.selection.packages packageGlobs).isEmpty) then .error (.NoPackagesMatched request.selection.packages)
      else
        match validated request taskGlobs packageGlobs with
        | .error e => .error e
        | .ok notes =>
          if (requestedIds request taskGlobs packageGlobs).isEmpty &&
              !allLiteralTaskRequests request.selection.requestedTasks then
            .error (.NoTasksMatched request.selection.packages request.selection.requestedTasks)
          else .ok (if request.expandDependencies then
            expandWithDependencies rs request.taskGraph (requestedIds request taskGlobs packageGlobs)
            else requestedIds request taskGlobs packageGlobs, notes) := by
  rw [collectRequestedSubgraph, hc.packages, hc.tasks]
  show (if _ then _ else _) = _
  split
  · rfl
  · show (validated request taskGlobs packageGlobs >>= _) = _
    cases validated request taskGlobs packageGlobs with
    | error e => rfl
    | ok notes =>
      by_cases hempty : ((requestedIds request taskGlobs packageGlobs).isEmpty &&
          !allLiteralTaskRequests request.selection.requestedTasks) = true
      · exact (if_pos hempty).trans (if_pos hempty).symm
      · refine (if_neg hempty).trans (Eq.trans ?_ (if_neg hempty).symm)
        cases request.expandDependencies <;> rfl

theorem buildGlobset_error {patterns : List String} {e : SelectionError} (h : buildGlobset globs patterns = .error e) :
    (∃ pattern error, e = .InvalidGlob pattern error) ∨ ∃ error, e = .BuildGlobSet error := by
  unfold Selection.buildGlobset at h
  cases hbuilt : patterns.mapM fun pattern => (globs.new pattern).mapError (SelectionError.InvalidGlob pattern) with
  | error e' =>
    rw [hbuilt] at h
    cases h
    obtain ⟨pattern, -, hnew⟩ := exists_of_mapM_error hbuilt
    obtain ⟨error, -, rfl⟩ := mapError_eq_error.1 hnew
    exact .inl ⟨pattern, error, rfl⟩
  | ok built =>
    rw [hbuilt] at h
    obtain ⟨error, -, rfl⟩ := mapError_eq_error.1 h
    exact .inr ⟨error, rfl⟩

/-- Only the tasks that are asked for are selected, with all that they depend on if that is wanted. -/
theorem selected_least (hlaws : GlobLaws globs) {ids : List TaskId} {notes : List String}
    (h : collectRequestedSubgraph globs rs request = .ok (ids, notes)) :
    IsLeast {S : Set TaskId | (∀ id, Asked globs request id → id ∈ S) ∧
      (request.expandDependencies = true → Closed request.taskGraph S)} {id | id ∈ ids} := by
  obtain ⟨packageGlobs, hpackages, hrest⟩ := bind_eq_ok.1 h
  obtain ⟨taskGlobs, htasks, -⟩ := bind_eq_ok.1 hrest
  have hc : Compiled globs request taskGlobs packageGlobs := ⟨hlaws, hpackages, htasks⟩
  have hasked : ∀ S : Set TaskId, (∀ id ∈ requestedIds request taskGlobs packageGlobs, id ∈ S) ↔
      ∀ id, Asked globs request id → id ∈ S := fun S => forall_congr' fun id => by rw [hc.mem_requestedIds]
  rw [hc.collect_eq] at h
  split at h
  · cases h
  · split at h
    · cases h
    · split at h
      · cases h
      · obtain ⟨rfl, -⟩ := Prod.mk.inj (Except.ok.inj h)
        simp only [← hasked]
        cases hexpand : request.expandDependencies with
        | true => simpa using isLeast_expandWithDependencies rs request.taskGraph _
        | false => exact ⟨⟨fun id hid => hid, fun hf => by cases hf⟩, fun S hS id hid => hS.1 id hid⟩

/-- Globs without wildcards; no others can be built. -/
def literalGlobs : PlainGlobs where
  new pattern := if isLiteralPattern pattern then .ok (· = pattern) else .error "not supported"
  build gs := .ok fun text => gs.any (· text)

theorem literalGlobs_laws : GlobLaws literalGlobs where
  set_any gs set h text := by
    obtain rfl := Except.ok.inj h
    rfl
  literal pattern glob hliteral h text := by
    rw [literalGlobs] at h
    dsimp only at h
    rw [if_pos hliteral] at h
    obtain rfl := Except.ok.inj h
    exact decide_eq_true_iff

def releaseTask : TaskId := rootTaskId ⟨"release"⟩
def appBuild : TaskId := ⟨⟨"app"⟩, ⟨"build"⟩⟩

/-- A release of the repository needs a build of its package. -/
def releaseGraph : Impl.TaskGraph :=
  .ofNodes [⟨releaseTask, 1⟩, ⟨appBuild, 1⟩] [(0, 1)] ∅ (by decide) (by decide)

def releaseRequest (topLevel : Bool) : CollectSubgraphRequest where
  taskGraph := releaseGraph
  selection := ⟨["release"], [], topLevel⟩
  pruned := []
  sinceAffected := none
  expandDependencies := true

theorem selected_least_release :
    IsLeast {S : Set TaskId | (∀ id, Asked literalGlobs (releaseRequest true) id → id ∈ S) ∧
      ((releaseRequest true).expandDependencies = true → Closed releaseGraph S)}
      {id | id ∈ [releaseTask, appBuild]} := by
  have h : collectRequestedSubgraph literalGlobs .id (releaseRequest true) = .ok ([releaseTask, appBuild], []) := by
    decide +kernel
  exact selected_least literalGlobs_laws h

/-- A selection succeeds if its globs can be built, its packages match some package that has tasks, and something
is selected or there is no wildcard in what is asked for; for each request without wildcards there must be a task
in scope, even if nothing that it depends on has changed, or one that was pruned when tasks were resolved. -/
theorem collect_succeeds_iff (hlaws : GlobLaws globs) : (∃ result, collectRequestedSubgraph globs rs request = .ok result) ↔
    (∃ set, buildGlobset globs request.selection.packages = .ok set) ∧
    (∃ set, buildGlobset globs request.selection.requestedTasks = .ok set) ∧
    (request.selection.packages ≠ [] → ∃ id, HasTask request.taskGraph id ∧ id.isRoot = false ∧
      Matches globs request.selection.packages id.package.name) ∧
    (∀ requested ∈ request.selection.requestedTasks, isLiteralPattern requested = true →
      Explained globs request requested) ∧
    ((∃ id, Asked globs request id) ∨ (request.selection.requestedTasks ≠ [] ∧
      ∀ requested ∈ request.selection.requestedTasks, isLiteralPattern requested = true)) := by
  have hliterals : allLiteralTaskRequests request.selection.requestedTasks = true ↔
      request.selection.requestedTasks ≠ [] ∧
        ∀ requested ∈ request.selection.requestedTasks, isLiteralPattern requested = true := by
    rw [allLiteralTaskRequests, Bool.and_eq_true, Bool.not_eq_true', List.isEmpty_eq_false_iff, List.all_eq_true]
  constructor
  · rintro ⟨⟨ids, notes⟩, h⟩
    obtain ⟨packageGlobs, hpackages, hrest⟩ := bind_eq_ok.1 h
    obtain ⟨taskGlobs, htasks, -⟩ := bind_eq_ok.1 hrest
    have hc : Compiled globs request taskGlobs packageGlobs := ⟨hlaws, hpackages, htasks⟩
    rw [hc.collect_eq] at h
    split at h
    · cases h
    · rename_i hmatched
      split at h
      · cases h
      · rename_i notes' hnotes
        split at h
        · cases h
        · rename_i hempty
          refine ⟨⟨_, hpackages⟩, ⟨_, htasks⟩, hc.matched_packages.1 (Bool.eq_false_of_not_eq_true hmatched),
            fun requested hmem hliteral => ?_, ?_⟩
          · by_cases hun : Unmatched globs request requested
            · exact hc.validated_ok.1 ⟨_, hnotes⟩ requested hun
            · obtain ⟨id, hasked⟩ : ∃ id, Asked globs request id ∧ id.task.name = requested := by
                by_contra hnone
                exact hun ⟨hmem, hliteral, fun id ha hname => hnone ⟨id, ha, hname⟩⟩
              exact .inl ⟨id, hasked.1.task, hasked.2, hasked.1.scope.withoutSince⟩
          · rw [Bool.and_eq_true, not_and_or, Bool.not_eq_true, List.isEmpty_eq_false_iff, Bool.not_eq_true',
              Bool.not_eq_false, hliterals] at hempty
            refine hempty.imp_left fun hne => ?_
            obtain ⟨id, hid⟩ := List.exists_mem_of_ne_nil _ hne
            exact ⟨id, hc.mem_requestedIds.1 hid⟩
  · rintro ⟨⟨packageGlobs, hpackages⟩, ⟨taskGlobs, htasks⟩, hmatched, hexplained, hsome⟩
    have hc : Compiled globs request taskGlobs packageGlobs := ⟨hlaws, hpackages, htasks⟩
    obtain ⟨notes, hnotes⟩ := hc.validated_ok.2 fun requested hun => hexplained requested hun.1 hun.2.1
    rw [hc.collect_eq, if_neg (by rw [hc.matched_packages.2 hmatched]; exact Bool.false_ne_true), hnotes]
    refine ⟨_, if_neg ?_⟩
    rw [Bool.and_eq_true, not_and_or, Bool.not_eq_true, List.isEmpty_eq_false_iff, Bool.not_eq_true',
      Bool.not_eq_false, hliterals]
    refine hsome.imp_left fun ⟨id, hid⟩ => List.ne_nil_of_mem (hc.mem_requestedIds.2 hid)

theorem collect_succeeds_iff_release :
    collectRequestedSubgraph literalGlobs .id (releaseRequest true) = .ok ([releaseTask, appBuild], []) ∧
      Explained literalGlobs (releaseRequest true) "release" := by
  have h : collectRequestedSubgraph literalGlobs .id (releaseRequest true) = .ok ([releaseTask, appBuild], []) := by
    decide +kernel
  exact ⟨h, ((collect_succeeds_iff literalGlobs_laws).1 ⟨_, h⟩).2.2.2.1 "release" (by decide) (by decide)⟩

/-! ## Hints -/

/-- The errors that name one request. -/
def About (requested : String) (e : SelectionError) : Prop :=
  e = .TopLevelTask requested ∨ e = .PackageTask requested ∨ e = .TaskNotFound requested

theorem not_about_globset {patterns : List String} {e : SelectionError}
    (h : Selection.buildGlobset globs patterns = .error e) : ¬About requested e := by
  rcases buildGlobset_error h with ⟨pattern, error, rfl⟩ | ⟨error, rfl⟩ <;> simp [About]

/-- An error that names a request rejects it. -/
theorem rejected_of_about (hlaws : GlobLaws globs) {e : SelectionError}
    (h : collectRequestedSubgraph globs rs request = .error e) (he : About requested e) :
    requested ∈ request.selection.requestedTasks ∧ isLiteralPattern requested = true ∧
      ¬Explained globs request requested ∧ Rejected request requested e := by
  cases hpackages : Selection.buildGlobset globs request.selection.packages with
  | error e' =>
    rw [collectRequestedSubgraph, hpackages] at h
    cases h
    exact absurd he (not_about_globset hpackages)
  | ok packageGlobs =>
    cases htasks : Selection.buildGlobset globs request.selection.requestedTasks with
    | error e' =>
      rw [collectRequestedSubgraph, hpackages, htasks] at h
      cases h
      exact absurd he (not_about_globset htasks)
    | ok taskGlobs =>
      have hc : Compiled globs request taskGlobs packageGlobs := ⟨hlaws, hpackages, htasks⟩
      rw [hc.collect_eq] at h
      split at h
      · cases h
        simp [About] at he
      · split at h
        · rename_i e' hvalidated
          cases h
          obtain ⟨requested', hun, hnot, hrejected⟩ := hc.validated_error hvalidated
          obtain rfl : requested' = requested := by
            rcases hrejected.reason with rfl | ⟨rfl, -⟩ | ⟨rfl, -⟩ <;> simpa [About] using he
          exact ⟨hun.1, hun.2.1, hnot, hrejected⟩
        · split at h
          · cases h
            simp [About] at he
          · cases h

/-- The same request, with what a hint says about one of its tasks. -/
def Follows (globs : PlainGlobs) (id : TaskId) (selection followed : TaskSelection) : Prop :=
  followed.requestedTasks = selection.requestedTasks ∧
    ((followed.packages = selection.packages ∧ followed.topLevel = !selection.topLevel) ∨
      (followed.packages ≠ [] ∧ Matches globs followed.packages id.package.name ∧ followed.topLevel = true ∧
        selection.topLevel = true))

/-- Whoever is told to add or to drop the flag for root tasks, or to give packages, and does so, with any revision,
gets a task with the requested name, unless it is not affected; at any rate the request is no longer refused. -/
theorem hint_followed (hlaws : GlobLaws globs) {e : SelectionError}
    (h : collectRequestedSubgraph globs rs request = .error e)
    (he : e = .TopLevelTask requested ∨ e = .PackageTask requested) :
    ∃ id, HasTask request.taskGraph id ∧ id.task.name = requested ∧ ∀ followed : CollectSubgraphRequest,
      followed.taskGraph = request.taskGraph → Follows globs id request.selection followed.selection →
        (∀ e', collectRequestedSubgraph globs rs followed = .error e' → ¬About requested e') ∧
        ∀ ids notes, collectRequestedSubgraph globs rs followed = .ok (ids, notes) →
          PassesSince followed.sinceAffected id → id ∈ ids := by
  obtain ⟨hmem, hliteral, -, hrejected⟩ := rejected_of_about hlaws h (he.imp_right .inl)
  obtain ⟨id, htask, hname, hscope⟩ : ∃ id, HasTask request.taskGraph id ∧ id.task.name = requested ∧
      ∀ followed, Follows globs id request.selection followed → InScope globs followed none id := by
    rcases hrejected.reason with rfl | ⟨rfl, htop, id, htask, hroot, hname⟩ | ⟨rfl, htop, hnil, id, htask, hroot, hname⟩
    · rcases he with he | he <;> cases he
    · refine ⟨id, htask, hname, fun followed hf => ⟨?_, fun _ hmem => by cases hmem⟩⟩
      rcases hf.2 with ⟨-, hflag⟩ | ⟨-, -, hflag, -⟩ <;> simp [hroot, hflag, htop]
    · refine ⟨id, htask, hname, fun followed hf => ⟨?_, fun _ hmem => by cases hmem⟩⟩
      rcases hf.2 with ⟨hsame, hflag⟩ | ⟨hne, hmatch, -⟩
      · simp [hroot, hsame, hnil, hflag, htop]
      · simp [hroot, hne, hmatch]
  refine ⟨id, htask, hname, fun followed hgraph hf => ⟨fun e' he' habout => ?_, fun ids notes hok hsince => ?_⟩⟩
  · exact (rejected_of_about hlaws he' habout).2.2.1 (.inl ⟨id, hgraph ▸ htask, hname, hscope _ hf⟩)
  · obtain ⟨packageGlobs, -, hrest⟩ := bind_eq_ok.1 hok
    obtain ⟨taskGlobs, htasks, -⟩ := bind_eq_ok.1 hrest
    refine (selected_least hlaws hok).1.1 id ⟨hgraph ▸ htask, ?_, (hscope _ hf).1, hsince⟩
    exact hname ▸ matches_literal hlaws htasks (hf.1 ▸ hmem) hliteral

theorem hint_followed_release :
    collectRequestedSubgraph literalGlobs .id (releaseRequest false) = .error (.TopLevelTask "release") ∧
    ∃ id, HasTask releaseGraph id ∧ id.task.name = "release" ∧ ∀ ids notes,
      collectRequestedSubgraph literalGlobs .id (releaseRequest true) = .ok (ids, notes) → id ∈ ids := by
  have h : collectRequestedSubgraph literalGlobs .id (releaseRequest false) = .error (.TopLevelTask "release") := by
    decide +kernel
  obtain ⟨id, htask, hname, hfollowed⟩ := hint_followed literalGlobs_laws h (.inl rfl)
  have hfollows : Follows literalGlobs id (releaseRequest false).selection (releaseRequest true).selection :=
    ⟨rfl, .inl ⟨rfl, rfl⟩⟩
  exact ⟨h, id, htask, hname, fun ids notes hok =>
    (hfollowed (releaseRequest true) rfl hfollows).2 ids notes hok fun _ hmem => by cases hmem⟩

end Luchta.Proof.Selection
