import Luchta.Impl.Selection
import Luchta.Proof.TaskGraph.Waves

/-!
# The scope of a request

* `GlobLaws`: what is relied on of the glob library.
* `InScope`: the tasks that a request is about, whatever their names.
* `collect_eq_ok`: what selecting tasks comes to.
-/

namespace Luchta.Proof.Selection

open Luchta.Framework Luchta.Impl Luchta.Impl.Selection

variable {globs : PlainGlobs} {rs : RandomState} {request : CollectSubgraphRequest} {selection : TaskSelection}
  {since : Option SinceAffected} {patterns : List String} {id : TaskId}

/-! ## Globs -/

/-- A set matches what one of its globs matches, and a glob without wildcards matches its own text. -/
structure GlobLaws (globs : PlainGlobs) : Prop where
  set_any : ∀ gs set, globs.build gs = .ok set → ∀ text, set text = gs.any (· text)
  literal : ∀ pattern glob, isLiteralPattern pattern = true → globs.new pattern = .ok glob →
    ∀ text, glob text = true ↔ text = pattern

def Matches (globs : PlainGlobs) (patterns : List String) (text : String) : Prop :=
  ∃ pattern ∈ patterns, ∃ glob, globs.new pattern = .ok glob ∧ glob text = true

theorem buildGlobset_iff (hlaws : GlobLaws globs) {set : Glob} (h : buildGlobset globs patterns = .ok set)
    (text : String) : set text = true ↔ Matches globs patterns text := by
  obtain ⟨built, hbuilt, h⟩ := bind_eq_ok.1 h
  rw [hlaws.set_any built set (mapError_eq_ok.1 h), List.any_eq_true]
  constructor
  · rintro ⟨glob, hglob, hmatch⟩
    obtain ⟨pattern, hpattern, hnew⟩ := (mem_mapM hbuilt).1 hglob
    exact ⟨pattern, hpattern, glob, mapError_eq_ok.1 hnew, hmatch⟩
  · rintro ⟨pattern, hpattern, glob, hnew, hmatch⟩
    exact ⟨glob, (mem_mapM hbuilt).2 ⟨pattern, hpattern, mapError_eq_ok.2 hnew⟩, hmatch⟩

/-- What was built matches the requests without wildcards. -/
theorem matches_literal (hlaws : GlobLaws globs) {set : Glob} (h : buildGlobset globs patterns = .ok set)
    {requested : String} (hmem : requested ∈ patterns) (hliteral : isLiteralPattern requested = true) :
    Matches globs patterns requested := by
  obtain ⟨built, hbuilt, -⟩ := bind_eq_ok.1 h
  obtain ⟨glob, hglob⟩ := exists_of_mapM hbuilt hmem
  exact ⟨requested, hmem, glob, mapError_eq_ok.1 hglob, (hlaws.literal _ _ hliteral (mapError_eq_ok.1 hglob) _).2 rfl⟩

/-! ## Scopes -/

/-- The changes since a revision leave the task in. -/
def PassesSince (since : Option SinceAffected) (id : TaskId) : Prop :=
  ∀ affected ∈ since, if id.isRoot then affected.rootTaskPasses id.task = true else id.package ∈ affected.packages

/-- Root tasks need the flag; the others a package that is asked for, or neither packages nor the flag. -/
def InScope (globs : PlainGlobs) (selection : TaskSelection) (since : Option SinceAffected) (id : TaskId) : Prop :=
  (if id.isRoot then selection.topLevel = true
    else if selection.packages = [] then selection.topLevel = false
    else Matches globs selection.packages id.package.name) ∧ PassesSince since id

/-- The criteria of a selection, with its globs. -/
def criteriaOf (selection : TaskSelection) (since : Option SinceAffected) (taskGlobs packageGlobs : Glob) :
    SelectionCriteria :=
  ⟨taskGlobs, packageGlobs, selection.packages.isEmpty, selection.topLevel, since⟩

theorem packageMatches_iff {taskGlobs packageGlobs : Glob}
    (hpackages : ∀ text, packageGlobs text = true ↔ Matches globs selection.packages text) :
    packageMatches id (criteriaOf selection since taskGlobs packageGlobs) = true ↔
      InScope globs selection since id := by
  unfold packageMatches InScope PassesSince criteriaOf
  cases hroot : id.isRoot <;> cases htop : selection.topLevel <;> cases hempty : selection.packages <;>
    cases since <;> simp [hempty ▸ hpackages id.package.name]

/-! ## The selection -/

/-- A task that is asked for. -/
structure Asked (globs : PlainGlobs) (request : CollectSubgraphRequest) (id : TaskId) : Prop where
  task : TaskGraph.HasTask request.taskGraph id
  name : Matches globs request.selection.requestedTasks id.task.name
  scope : InScope globs request.selection request.sinceAffected id

end Luchta.Proof.Selection
