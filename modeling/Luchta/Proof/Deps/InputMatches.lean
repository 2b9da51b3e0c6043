import Luchta.Impl.SinceInputs
import Luchta.Proof.Resolve.Seeds

/-!
# What matches a declared input

The outcome of a `--since` run over the declared inputs, as a relation that mentions neither the order
of the tasks nor the compiled requests they share.

* `compiled_same`: requests compiled under two seeds match the same paths.
* `foldlM_visit`: what is known after some of the tasks.
* `declaredInputMatches_ok`: the outcome of all of them.
* `declaredInputMatches_order`: it is the same in any order.
-/

namespace Luchta.Proof.Deps

open Luchta.Framework Luchta.Impl Luchta.Proof.Resolve

/-! ## Compiled requests -/

section Compile

variable {ts : Toposort PackageNode} {globs : GlobLibrary} {graph : PackageGraph} {root : Path}
  {rs : RandomState} {task : TaskId} {inputs : List String}

/-- The matcher for the inputs of a package, under one seed. -/
def reading (ts : Toposort PackageNode) (globs : GlobLibrary) (graph : PackageGraph) (root : Path)
    (package : PackageName) (inputs : List String) : Option PathRequestMatcher :=
  (expandInputPatterns ts .id inputs package graph root).toOption.bind fun requests =>
    (PathRequestMatcher.compile globs requests).toOption

theorem reading_eq_some {package : PackageName} {m : PathRequestMatcher} :
    reading ts globs graph root package inputs = some m ↔ ∃ requests,
      expandInputPatterns ts .id inputs package graph root = .ok requests ∧
        PathRequestMatcher.compile globs requests = .ok m := by
  unfold reading
  rw [Option.bind_eq_some_iff]
  simp only [toOption_eq_some]

theorem compileInputMatcher_eq_ok {m : PathRequestMatcher} :
    compileInputMatcher ts globs graph root rs task inputs = .ok m ↔ ∃ requests,
      expandInputPatterns ts rs inputs task.package graph root = .ok requests ∧
        PathRequestMatcher.compile globs requests = .ok m := by
  unfold compileInputMatcher
  rw [bind_eq_ok]
  simp only [mapError_eq_ok]

/-- Requests compiled under another seed match the same paths. -/
theorem compiled_same {m : PathRequestMatcher}
    (h : compileInputMatcher ts globs graph root rs task inputs = .ok m) :
    ∃ m', reading ts globs graph root task.package inputs = some m' ∧ SameMatcher m m' := by
  obtain ⟨requests, hrequests, hm⟩ := compileInputMatcher_eq_ok.1 h
  obtain ⟨requests', hrequests', hsame⟩ := expandInputPatterns_seed hrequests
  obtain ⟨m', hm', hsame⟩ := compile_same hsame hm
  exact ⟨m', reading_eq_some.2 ⟨requests', hrequests', hm'⟩, hsame⟩

theorem reading_of_error {e : SinceError}
    (h : compileInputMatcher ts globs graph root rs task inputs = .error e) :
    reading ts globs graph root task.package inputs = none := by
  refine Option.eq_none_iff_forall_ne_some.2 fun m hm => ?_
  obtain ⟨requests, hrequests, hm⟩ := reading_eq_some.1 hm
  obtain ⟨requests', hrequests', hsame⟩ := expandInputPatterns_seed hrequests
  obtain ⟨m', hm', -⟩ := compile_same hsame hm
  rw [compileInputMatcher_eq_ok.2 ⟨requests', hrequests', hm'⟩] at h
  contradiction

end Compile

/-! ## Tasks -/

section Tasks

/-- A further task. -/
def Add (tasks : TaskId → TaskDefinition → Prop) (task : TaskId) (definition : TaskDefinition)
    (id : TaskId) (d : TaskDefinition) : Prop :=
  tasks id d ∨ id = task ∧ d = definition

theorem exists_add {tasks : TaskId → TaskDefinition → Prop} {task : TaskId}
    {definition : TaskDefinition} {P : TaskId → TaskDefinition → Prop} :
    (∃ id d, Add tasks task definition id d ∧ P id d) ↔
      (∃ id d, tasks id d ∧ P id d) ∨ P task definition := by
  constructor
  · rintro ⟨id, d, h | ⟨rfl, rfl⟩, hp⟩
    · exact .inl ⟨id, d, h, hp⟩
    · exact .inr hp
  · rintro (⟨id, d, h, hp⟩ | hp)
    · exact ⟨id, d, .inl h, hp⟩
    · exact ⟨task, definition, .inr ⟨rfl, rfl⟩, hp⟩

variable (read : PackageName → List String → Option PathRequestMatcher)
  (alreadyAffected : Finset PackageName) (paths : List Path)

/-- One of the paths matches an input of the task. -/
def Hit (id : TaskId) (d : TaskDefinition) : Prop :=
  ∃ m, read id.package d.inputs = some m ∧ ∃ p ∈ paths, m.matchesPath p = true

def Included (id : TaskId) (d : TaskDefinition) : Prop :=
  ∃ m, read id.package d.inputs = some m ∧ m.hasIncludes = true

/-- What the tasks match, each on its own. -/
structure Outcome (tasks : TaskId → TaskDefinition → Prop) (found : DeclaredInputMatches) :
    Prop where
  packages : ∀ package, package ∈ found.inputMatchedPackages ↔ ∃ id d, tasks id d ∧
    package ∉ alreadyAffected ∧ id.isRoot = false ∧ id.package = package ∧ Hit read paths id d
  rootTasks : ∀ name, name ∈ found.affectedRootTasks ↔ ∃ id d, tasks id d ∧
    id.isRoot = true ∧ id.task = name ∧ Hit read paths id d
  rootsWithInputs : ∀ name, name ∈ found.rootTasksWithInputs ↔ ∃ id d, tasks id d ∧
    id.isRoot = true ∧ id.task = name ∧ Included read id d

/-- The inputs of root tasks must be readable, and those of package tasks whose package is not found
to be affected otherwise. -/
structure Tolerated (tasks : TaskId → TaskDefinition → Prop) (found : DeclaredInputMatches) :
    Prop where
  roots : ∀ id d, tasks id d → id.isRoot = true → read id.package d.inputs ≠ none
  packages : ∀ id d, tasks id d → id.isRoot = false → paths ≠ [] → id.package ∉ alreadyAffected →
    id.package ∉ found.inputMatchedPackages → read id.package d.inputs ≠ none

variable {read alreadyAffected paths} {tasks : TaskId → TaskDefinition → Prop}
  {found : DeclaredInputMatches}

/-- The tasks determine what is found. -/
theorem Outcome.unique {found' : DeclaredInputMatches}
    (h : Outcome read alreadyAffected paths tasks found)
    (h' : Outcome read alreadyAffected paths tasks found') : found = found' := by
  obtain ⟨packages, rootTasks, rootsWithInputs⟩ := found
  obtain ⟨packages', rootTasks', rootsWithInputs'⟩ := found'
  obtain rfl : packages = packages' :=
    Finset.ext fun p => (h.packages p).trans (h'.packages p).symm
  obtain rfl : rootTasks = rootTasks' :=
    Finset.ext fun t => (h.rootTasks t).trans (h'.rootTasks t).symm
  obtain rfl : rootsWithInputs = rootsWithInputs' :=
    Finset.ext fun t => (h.rootsWithInputs t).trans (h'.rootsWithInputs t).symm
  rfl

theorem hit_congr {paths' : List Path} (hpaths : ∀ p, p ∈ paths ↔ p ∈ paths') :
    Hit read paths = Hit read paths' := by
  funext id d
  unfold Hit
  simp only [hpaths]

theorem outcome_congr {paths' : List Path} (hpaths : ∀ p, p ∈ paths ↔ p ∈ paths') :
    Outcome read alreadyAffected paths tasks found ↔
      Outcome read alreadyAffected paths' tasks found := by
  have hhit : Hit read paths = Hit read paths' := hit_congr hpaths
  exact ⟨fun h => ⟨hhit ▸ h.packages, hhit ▸ h.rootTasks, h.rootsWithInputs⟩,
    fun h => ⟨hhit ▸ h.packages, hhit ▸ h.rootTasks, h.rootsWithInputs⟩⟩

theorem tolerated_congr {paths' : List Path} (hpaths : ∀ p, p ∈ paths ↔ p ∈ paths') :
    Tolerated read alreadyAffected paths tasks found ↔
      Tolerated read alreadyAffected paths' tasks found := by
  have hnil : paths ≠ [] ↔ paths' ≠ [] := by
    rw [ne_eq, ne_eq, List.eq_nil_iff_forall_not_mem, List.eq_nil_iff_forall_not_mem]
    simp only [hpaths]
  exact ⟨fun h => ⟨h.roots, by simpa only [hnil] using h.packages⟩,
    fun h => ⟨h.roots, by simpa only [hnil] using h.packages⟩⟩

/-! ## One task -/

section Record

variable {task : TaskId} {definition : TaskDefinition} {m : PathRequestMatcher}

theorem record_same {m' : PathRequestMatcher} (h : SameMatcher m m') :
    found.record paths task m = found.record paths task m' := by
  have hpaths : m.matchesPath = m'.matchesPath := funext h.paths
  rw [DeclaredInputMatches.record, DeclaredInputMatches.recordRoot,
    DeclaredInputMatches.recordPackage, h.includes, hpaths]
  rfl

theorem recordRoot_packages : (found.recordRoot paths task m).inputMatchedPackages =
    found.inputMatchedPackages := by
  unfold DeclaredInputMatches.recordRoot
  dsimp only
  split_ifs <;> rfl

theorem recordPackage_roots : (found.recordPackage paths task m).affectedRootTasks =
      found.affectedRootTasks ∧
    (found.recordPackage paths task m).rootTasksWithInputs = found.rootTasksWithInputs := by
  unfold DeclaredInputMatches.recordPackage
  split_ifs <;> exact ⟨rfl, rfl⟩

theorem mem_record_packages {package : PackageName} :
    package ∈ (found.record paths task m).inputMatchedPackages ↔
      package ∈ found.inputMatchedPackages ∨
        task.isRoot = false ∧ task.package = package ∧ paths.any m.matchesPath = true := by
  unfold DeclaredInputMatches.record
  cases task.isRoot with
  | true =>
    rw [if_pos rfl, recordRoot_packages]
    simp
  | false =>
    rw [if_neg Bool.false_ne_true, DeclaredInputMatches.recordPackage]
    by_cases hany : paths.any m.matchesPath = true
    · rw [if_pos hany, Finset.mem_insert, or_comm, eq_comm]
      simp only [hany, and_true, true_and]
    · rw [if_neg hany]
      simp only [hany, and_false, or_false, Bool.false_eq_true]

theorem mem_record_rootTasks {name : TaskName} :
    name ∈ (found.record paths task m).affectedRootTasks ↔ name ∈ found.affectedRootTasks ∨
      task.isRoot = true ∧ task.task = name ∧ paths.any m.matchesPath = true := by
  unfold DeclaredInputMatches.record
  cases task.isRoot with
  | false =>
    rw [if_neg Bool.false_ne_true, recordPackage_roots.1]
    simp
  | true =>
    rw [if_pos rfl, DeclaredInputMatches.recordRoot]
    by_cases hany : paths.any m.matchesPath = true
    · obtain ⟨p, -, hp⟩ := List.any_eq_true.1 hany
      rw [hasIncludes_of_matchesPath hp, Bool.not_true, if_neg Bool.false_ne_true, if_pos hany,
        Finset.mem_insert, or_comm, eq_comm]
      simp only [hany, and_true, true_and]
    · dsimp only
      rw [if_neg hany]
      split_ifs <;> simp only [hany, and_false, or_false, Bool.false_eq_true]

theorem mem_record_rootsWithInputs {name : TaskName} :
    name ∈ (found.record paths task m).rootTasksWithInputs ↔ name ∈ found.rootTasksWithInputs ∨
      task.isRoot = true ∧ task.task = name ∧ m.hasIncludes = true := by
  unfold DeclaredInputMatches.record
  cases task.isRoot with
  | false =>
    rw [if_neg Bool.false_ne_true, recordPackage_roots.2]
    simp
  | true =>
    rw [if_pos rfl, DeclaredInputMatches.recordRoot]
    cases m.hasIncludes with
    | false => simp
    | true =>
      have hroots : ∀ tasks : Finset TaskName, (if paths.any m.matchesPath then
          { found with
            rootTasksWithInputs := insert task.task found.rootTasksWithInputs
            affectedRootTasks := tasks }
        else { found with rootTasksWithInputs := insert task.task found.rootTasksWithInputs }
        ).rootTasksWithInputs = insert task.task found.rootTasksWithInputs := by
        intro tasks
        split_ifs <;> rfl
      rw [Bool.not_true, if_neg Bool.false_ne_true, hroots, Finset.mem_insert, or_comm, eq_comm]
      simp only [and_true, true_and]

theorem hit_iff (hread : read task.package definition.inputs = some m) :
    Hit read paths task definition ↔ paths.any m.matchesPath = true := by
  rw [List.any_eq_true]
  constructor
  · rintro ⟨m', hm', hp⟩
    rwa [Option.some.inj (hread.symm.trans hm')]
  · intro hp
    exact ⟨m, hread, hp⟩

theorem included_iff (hread : read task.package definition.inputs = some m) :
    Included read task definition ↔ m.hasIncludes = true := by
  constructor
  · rintro ⟨m', hm', hincl⟩
    rwa [Option.some.inj (hread.symm.trans hm')]
  · intro hincl
    exact ⟨m, hread, hincl⟩

/-- What a further task adds. -/
theorem Outcome.add (h : Outcome read alreadyAffected paths tasks found) {found' : DeclaredInputMatches}
    (hpackages : ∀ package, package ∈ found'.inputMatchedPackages ↔
      package ∈ found.inputMatchedPackages ∨ package ∉ alreadyAffected ∧ task.isRoot = false ∧
        task.package = package ∧ Hit read paths task definition)
    (hroots : ∀ name, name ∈ found'.affectedRootTasks ↔ name ∈ found.affectedRootTasks ∨
      task.isRoot = true ∧ task.task = name ∧ Hit read paths task definition)
    (hincluded : ∀ name, name ∈ found'.rootTasksWithInputs ↔ name ∈ found.rootTasksWithInputs ∨
      task.isRoot = true ∧ task.task = name ∧ Included read task definition) :
    Outcome read alreadyAffected paths (Add tasks task definition) found' where
  packages package := by rw [hpackages, h.packages, exists_add]
  rootTasks name := by rw [hroots, h.rootTasks, exists_add]
  rootsWithInputs name := by rw [hincluded, h.rootsWithInputs, exists_add]

theorem skips_iff {s : InputScan} : s.skips alreadyAffected paths task = true ↔
    task.isRoot = false ∧ (paths = [] ∨ task.package ∈ alreadyAffected ∨
      task.package ∈ s.found.inputMatchedPackages) := by
  unfold InputScan.skips
  rw [Bool.and_eq_true, Bool.or_eq_true, Bool.or_eq_true, Bool.not_eq_true', List.isEmpty_iff,
    decide_eq_true_eq, decide_eq_true_eq, or_assoc]

/-- A task that is passed over adds nothing. -/
theorem Outcome.skip {s : InputScan} (h : Outcome read alreadyAffected paths tasks s.found)
    (hskip : s.skips alreadyAffected paths task = true) :
    Outcome read alreadyAffected paths (Add tasks task definition) s.found := by
  obtain ⟨hroot, hskip⟩ := skips_iff.1 hskip
  refine h.add (fun package => ?_) (fun name => ?_) fun name => ?_
  · refine (or_iff_left_of_imp ?_).symm
    rintro ⟨hnot, -, rfl, m, hm, p, hp, -⟩
    rcases hskip with rfl | hin | hin
    · contradiction
    · contradiction
    · exact hin
  · simp [hroot]
  · simp [hroot]

/-- Nor does one that cannot be read. -/
theorem Outcome.unread (h : Outcome read alreadyAffected paths tasks found)
    (hread : read task.package definition.inputs = none) :
    Outcome read alreadyAffected paths (Add tasks task definition) found := by
  refine h.add (fun package => ?_) (fun name => ?_) fun name => ?_
  · simp [Hit, hread]
  · simp [Hit, hread]
  · simp [Included, hread]

theorem Outcome.record {s : InputScan} (h : Outcome read alreadyAffected paths tasks s.found)
    (hskip : s.skips alreadyAffected paths task = false)
    (hread : read task.package definition.inputs = some m) :
    Outcome read alreadyAffected paths (Add tasks task definition) (s.found.record paths task m) := by
  refine h.add (fun package => ?_) (fun name => ?_) fun name => ?_
  · rw [mem_record_packages, hit_iff hread]
    refine or_congr_right ⟨fun ⟨hroot, hpackage, hany⟩ => ⟨?_, hroot, hpackage, hany⟩, And.right⟩
    intro hin
    rw [skips_iff.2 ⟨hroot, .inr (.inl (hpackage ▸ hin))⟩] at hskip
    contradiction
  · rw [mem_record_rootTasks, hit_iff hread]
  · rw [mem_record_rootsWithInputs, included_iff hread]

end Record

/-- The matchers compiled so far read as their keys do. -/
def Sound (read : PackageName → List String → Option PathRequestMatcher)
    (matchers : HashMap (PackageName × List String) PathRequestMatcher) : Prop :=
  ∀ package inputs m, matchers.lookup (package, inputs) = some m →
    ∃ m', read package inputs = some m' ∧ SameMatcher m m'

variable (read alreadyAffected paths) in
/-- What is known after these tasks. -/
structure Known (tasks : TaskId → TaskDefinition → Prop) (s : InputScan) : Prop where
  outcome : Outcome read alreadyAffected paths tasks s.found
  matchers : Sound read s.matchers
  roots : ∀ id d, tasks id d → id.isRoot = true → read id.package d.inputs ≠ none
  errors : ∀ e ∈ s.inputErrors, ∃ d, tasks e.1 d ∧ e.1.isRoot = false ∧ paths ≠ [] ∧
    read e.1.package d.inputs = none
  packages : ∀ id d, tasks id d → id.isRoot = false → paths ≠ [] → id.package ∉ alreadyAffected →
    id.package ∉ s.found.inputMatchedPackages → read id.package d.inputs = none →
    ∃ e, (id, e) ∈ s.inputErrors

theorem known_start : Known read alreadyAffected paths (fun _ _ => False) .start where
  outcome := by refine ⟨?_, ?_, ?_⟩ <;> simp [InputScan.start]
  matchers package inputs m h := by
    rw [InputScan.start, AList.lookup_empty] at h
    contradiction
  roots _ _ h := h.elim
  errors _ h := absurd h List.not_mem_nil
  packages _ _ h := h.elim

section Visit

variable {ts : Toposort PackageNode} {globs : GlobLibrary} {graph : PackageGraph} {root : Path}
  {rs : RandomState} {s s' : InputScan} {task : TaskId} {definition : TaskDefinition}

/-- What the visit of a task with inputs comes to: it is passed over, or read, or its failure is put
off. -/
theorem visit_cases (hinputs : definition.inputs ≠ [])
    (hsound : Sound (reading ts globs graph root) s.matchers)
    (h : s.visit ts globs graph root alreadyAffected paths rs task definition = .ok s') :
    (s.skips alreadyAffected paths task = true ∧ s' = s) ∨
    (s.skips alreadyAffected paths task = false ∧ ∃ m,
      reading ts globs graph root task.package definition.inputs = some m ∧
      s'.found = s.found.record paths task m ∧ s'.inputErrors = s.inputErrors ∧
      Sound (reading ts globs graph root) s'.matchers) ∨
    (s.skips alreadyAffected paths task = false ∧ task.isRoot = false ∧
      reading ts globs graph root task.package definition.inputs = none ∧
      ∃ e, s' = { s with inputErrors := s.inputErrors ++ [(task, e)] }) := by
  rw [InputScan.visit, if_neg hinputs] at h
  split at h
  · exact .inl ⟨‹_›, (Except.ok.inj h).symm⟩
  · rename_i hskip
    rw [Bool.not_eq_true] at hskip
    split at h
    · rename_i m hm
      obtain ⟨m', hread, hsame⟩ := hsound _ _ m hm
      obtain rfl := Except.ok.inj h
      exact .inr (.inl ⟨hskip, m', hread, record_same hsame, rfl, hsound⟩)
    · split at h
      · rename_i m hm
        obtain ⟨m', hread, hsame⟩ := compiled_same hm
        obtain rfl := Except.ok.inj h
        refine .inr (.inl ⟨hskip, m', hread, record_same hsame, rfl, fun package inputs m₁ hm₁ => ?_⟩)
        rw [HashMap.lookup_insert_if] at hm₁
        split at hm₁
        · obtain ⟨rfl, rfl⟩ := Prod.mk.inj ‹_›
          obtain rfl := Option.some.inj hm₁
          exact ⟨m', hread, hsame⟩
        · exact hsound _ _ _ hm₁
      · rename_i e he
        split at h
        · contradiction
        · rename_i hroot
          rw [Bool.not_eq_true] at hroot
          exact .inr (.inr ⟨hskip, hroot, reading_of_error he, e, (Except.ok.inj h).symm⟩)

/-- Only a root task that cannot be read stops the visits. -/
theorem visit_error {e : SinceError}
    (h : s.visit ts globs graph root alreadyAffected paths rs task definition = .error e) :
    definition.inputs ≠ [] ∧ task.isRoot = true ∧
      reading ts globs graph root task.package definition.inputs = none := by
  unfold InputScan.visit at h
  split at h
  · contradiction
  · rename_i hinputs
    split at h
    · contradiction
    · split at h
      · contradiction
      · split at h
        · contradiction
        · rename_i he
          split at h
          · exact ⟨hinputs, ‹_›, reading_of_error he⟩
          · contradiction

theorem visit_no_inputs (hinputs : definition.inputs = []) :
    s.visit ts globs graph root alreadyAffected paths rs task definition = .ok s := by
  rw [InputScan.visit, if_pos hinputs]

theorem Known.visit
    (hs : Known (reading ts globs graph root) alreadyAffected paths tasks s)
    (hinputs : definition.inputs ≠ [])
    (h : s.visit ts globs graph root alreadyAffected paths rs task definition = .ok s') :
    Known (reading ts globs graph root) alreadyAffected paths (Add tasks task definition) s' := by
  have herrors : ∀ e ∈ s.inputErrors, ∃ d, Add tasks task definition e.1 d ∧ e.1.isRoot = false ∧
      paths ≠ [] ∧ reading ts globs graph root e.1.package d.inputs = none := fun e he =>
    (hs.errors e he).imp fun d hd => ⟨.inl hd.1, hd.2⟩
  rcases visit_cases hinputs hs.matchers h with ⟨hskip, rfl⟩ | ⟨hskip, m, hread, hfound, herr, hsound⟩ |
    ⟨hskip, hroot, hread, e, rfl⟩
  · obtain ⟨hroot, hwhy⟩ := skips_iff.1 hskip
    refine ⟨hs.outcome.skip hskip, hs.matchers, ?_, herrors, ?_⟩
    · rintro id d (h | ⟨rfl, rfl⟩) hisroot
      · exact hs.roots id d h hisroot
      · rw [hroot] at hisroot
        contradiction
    · rintro id d (h | ⟨rfl, rfl⟩) hnot hpaths halready hfound hread
      · exact hs.packages id d h hnot hpaths halready hfound hread
      · rcases hwhy with hnil | hin | hin
        · exact absurd hnil hpaths
        · exact absurd hin halready
        · exact absurd hin hfound
  · refine ⟨hfound ▸ hs.outcome.record hskip hread, hsound, ?_, herr ▸ herrors, ?_⟩
    · rintro id d (h | ⟨rfl, rfl⟩) hisroot
      · exact hs.roots id d h hisroot
      · rw [hread]
        exact Option.some_ne_none _
    · rintro id d (h | ⟨rfl, rfl⟩) hnot hpaths halready hunmatched hnone
      · rw [herr]
        refine hs.packages id d h hnot hpaths halready (fun hin => hunmatched ?_) hnone
        rw [hfound, mem_record_packages]
        exact .inl hin
      · rw [hread] at hnone
        contradiction
  · refine ⟨hs.outcome.unread hread, hs.matchers, ?_, ?_, ?_⟩
    · rintro id d (h | ⟨rfl, rfl⟩) hisroot
      · exact hs.roots id d h hisroot
      · rw [hroot] at hisroot
        contradiction
    · intro e' he'
      refine (List.mem_append.1 he').elim (herrors e') fun he' => ?_
      obtain rfl := List.mem_singleton.1 he'
      refine ⟨definition, .inr ⟨rfl, rfl⟩, hroot, fun hnil => ?_, hread⟩
      rw [skips_iff.2 ⟨hroot, .inl hnil⟩] at hskip
      contradiction
    · rintro id d (h | ⟨rfl, rfl⟩) hnot hpaths halready hunmatched hnone
      · obtain ⟨e', he'⟩ := hs.packages id d h hnot hpaths halready hunmatched hnone
        exact ⟨e', List.mem_append_left _ he'⟩
      · exact ⟨e, List.mem_append_right _ (List.mem_singleton_self _)⟩

/-! ## All tasks -/

/-- The tasks of a run that declare inputs. -/
def Declared (visits : List (RandomState × TaskId × TaskDefinition)) (id : TaskId)
    (d : TaskDefinition) : Prop :=
  d.inputs ≠ [] ∧ ∃ rs, (rs, id, d) ∈ visits

/-- What is known after all of them, unless a root task stopped the visits. -/
theorem foldlM_visit (visits : List (RandomState × TaskId × TaskDefinition))
    (hs : Known (reading ts globs graph root) alreadyAffected paths tasks s) :
    (∃ s', visits.foldlM (fun s v =>
        s.visit ts globs graph root alreadyAffected paths v.1 v.2.1 v.2.2) s = .ok s' ∧
      Known (reading ts globs graph root) alreadyAffected paths
        (fun id d => tasks id d ∨ Declared visits id d) s') ∨
    (∃ e, visits.foldlM (fun s v =>
        s.visit ts globs graph root alreadyAffected paths v.1 v.2.1 v.2.2) s = .error e) ∧
      ∃ id d, Declared visits id d ∧ id.isRoot = true ∧
        reading ts globs graph root id.package d.inputs = none := by
  induction visits generalizing tasks s with
  | nil =>
    refine .inl ⟨s, rfl, ?_⟩
    have htasks : (fun id d => tasks id d ∨ Declared [] id d) = tasks := by
      funext id d
      simp [Declared]
    rwa [htasks]
  | cons v visits ih =>
    obtain ⟨rs, task, definition⟩ := v
    rw [List.foldlM_cons]
    cases hvisit : s.visit ts globs graph root alreadyAffected paths rs task definition with
    | error e =>
      obtain ⟨hinputs, hroot, hread⟩ := visit_error hvisit
      exact .inr ⟨⟨e, rfl⟩, task, definition, ⟨hinputs, rs, List.mem_cons_self⟩, hroot, hread⟩
    | ok s' =>
      obtain ⟨tasks', hs', hdeclared⟩ : ∃ tasks',
          Known (reading ts globs graph root) alreadyAffected paths tasks' s' ∧
          (fun id d => tasks' id d ∨ Declared visits id d) =
            fun id d => tasks id d ∨ Declared ((rs, task, definition) :: visits) id d := by
        by_cases hinputs : definition.inputs = []
        · obtain rfl := Except.ok.inj ((visit_no_inputs hinputs).symm.trans hvisit)
          refine ⟨tasks, hs, ?_⟩
          funext id d
          simp only [Declared, List.mem_cons, Prod.mk.injEq, exists_or, eq_iff_iff]
          refine or_congr_right (and_congr_right fun hd => ?_)
          refine (or_iff_right ?_).symm
          rintro ⟨rs', -, -, rfl⟩
          contradiction
        · refine ⟨_, hs.visit hinputs hvisit, ?_⟩
          funext id d
          simp only [Add, Declared, List.mem_cons, Prod.mk.injEq, exists_or, exists_eq_left, eq_iff_iff,
            or_assoc, and_or_left]
          refine or_congr_right (or_congr_left ⟨fun hnew => ⟨?_, hnew⟩, And.right⟩)
          rw [hnew.2]
          exact hinputs
      rw [← hdeclared]
      rcases ih hs' with hok | ⟨herr, id, d, ⟨hd, rs', hmem⟩, hbad⟩
      · exact .inl hok
      · exact .inr ⟨herr, id, d, ⟨hd, rs', List.mem_cons_of_mem _ hmem⟩, hbad⟩

theorem finish_eq_ok : s.finish alreadyAffected = .ok found ↔ s.found = found ∧
    ∀ e ∈ s.inputErrors, e.1.package ∉ alreadyAffected → e.1.package ∈ found.inputMatchedPackages := by
  have hnone : s.firstError alreadyAffected = none ↔ ∀ e ∈ s.inputErrors,
      e.1.package ∉ alreadyAffected → e.1.package ∈ s.found.inputMatchedPackages := by
    unfold InputScan.firstError
    rw [List.argmin_eq_none, List.filter_eq_nil_iff]
    simp only [decide_eq_true_eq, not_and, not_not]
  unfold InputScan.finish
  split
  · rename_i e herr
    refine iff_of_false (fun h => by contradiction) ?_
    rintro ⟨rfl, hall⟩
    rw [hnone.2 hall] at herr
    contradiction
  · rename_i hfirst
    rw [Except.ok.injEq]
    refine (and_iff_left_of_imp ?_).symm
    rintro rfl
    exact hnone.1 hfirst

theorem Known.finish (hs : Known read alreadyAffected paths tasks s) :
    s.finish alreadyAffected = .ok found ↔ Outcome read alreadyAffected paths tasks found ∧
      Tolerated read alreadyAffected paths tasks found := by
  rw [finish_eq_ok]
  constructor
  · rintro ⟨rfl, hall⟩
    refine ⟨hs.outcome, hs.roots, fun id d hd hroot hpaths halready hunmatched hnone => ?_⟩
    obtain ⟨e, he⟩ := hs.packages id d hd hroot hpaths halready hunmatched hnone
    exact hunmatched (hall _ he halready)
  · rintro ⟨houtcome, htolerated⟩
    refine ⟨hs.outcome.unique houtcome, fun e he halready => ?_⟩
    obtain ⟨d, hd, hroot, hpaths, hnone⟩ := hs.errors e he
    by_contra hunmatched
    exact htolerated.packages e.1 d hd hroot hpaths halready hunmatched hnone

/-- The outcome of all tasks. -/
theorem declaredInputMatches_ok {changedPaths : List Path} {repoRoot : Path}
    {visits : List (RandomState × TaskId × TaskDefinition)} :
    declaredInputMatchesForTasks ts globs graph root alreadyAffected changedPaths repoRoot visits =
        .ok found ↔
      Outcome (reading ts globs graph root) alreadyAffected (changedPaths.map repoRoot.join)
          (Declared visits) found ∧
        Tolerated (reading ts globs graph root) alreadyAffected (changedPaths.map repoRoot.join)
          (Declared visits) found := by
  unfold declaredInputMatchesForTasks
  dsimp only
  rw [bind_eq_ok]
  have hstart : Known (reading ts globs graph root) alreadyAffected (changedPaths.map repoRoot.join)
      (fun _ _ => False) .start := known_start
  have hrun := foldlM_visit visits hstart
  simp only [false_or] at hrun
  rcases hrun with ⟨s', hs', hknown⟩ | ⟨⟨e, he⟩, id, d, hd, hroot, hnone⟩
  · rw [← hknown.finish]
    constructor
    · rintro ⟨s, hs, hfinish⟩
      rwa [← Except.ok.inj (hs.symm.trans hs')]
    · intro hfinish
      exact ⟨s', hs', hfinish⟩
  · constructor
    · rintro ⟨s, hs, -⟩
      rw [he] at hs
      contradiction
    · rintro ⟨-, htolerated⟩
      exact absurd hnone (htolerated.roots id d hd hroot)

/-- The outcome depends on which tasks and paths there are, not on their order, nor on the seeds of
the sets that are iterated on the way. -/
theorem declaredInputMatches_order {changedPaths changedPaths' : List Path} {repoRoot : Path}
    {visits visits' : List (RandomState × TaskId × TaskDefinition)}
    (hvisits : ∀ id d, (∃ rs, (rs, id, d) ∈ visits) ↔ ∃ rs, (rs, id, d) ∈ visits')
    (hpaths : ∀ p, p ∈ changedPaths ↔ p ∈ changedPaths') :
    (declaredInputMatchesForTasks ts globs graph root alreadyAffected changedPaths repoRoot
        visits).toOption =
      (declaredInputMatchesForTasks ts globs graph root alreadyAffected changedPaths' repoRoot
        visits').toOption := by
  have hdeclared : Declared visits = Declared visits' := by
    funext id d
    rw [Declared, hvisits, Declared]
  have habsolute : ∀ p, p ∈ changedPaths.map repoRoot.join ↔ p ∈ changedPaths'.map repoRoot.join := by
    intro p
    simp only [List.mem_map, hpaths]
  refine Option.ext fun found => ?_
  rw [toOption_eq_some, toOption_eq_some, declaredInputMatches_ok, declaredInputMatches_ok,
    hdeclared, outcome_congr habsolute, tolerated_congr habsolute]

end Visit

end Tasks

/-! ## A workspace -/

def taskWith (inputs : List String) : TaskDefinition :=
  { TaskDefinition.new [] 1 with inputs := inputs }

/-- Of the tasks of `app` one leaves its directory and one matches; the root task has an input that
did not change. -/
def sinceVisits : List (RandomState × TaskId × TaskDefinition) :=
  [(.id, ⟨⟨"app"⟩, ⟨"check"⟩⟩, taskWith ["../x.txt"]), (.id, ⟨⟨"app"⟩, ⟨"build"⟩⟩, taskWith ["*.txt"]),
    (.id, rootTaskId ⟨"gen"⟩, taskWith ["gen.txt"])]

theorem declaredInputMatches_sample :
    (declaredInputMatchesForTasks .kahn starGlobs vendorGraph (.ofStr "/repo") ∅
        [.ofStr "app/x.txt"] (.ofStr "/repo") sinceVisits).toOption =
      (declaredInputMatchesForTasks .kahn starGlobs vendorGraph (.ofStr "/repo") ∅
        [.ofStr "app/x.txt"] (.ofStr "/repo") sinceVisits.reverse).toOption ∧
    (declaredInputMatchesForTasks .kahn starGlobs vendorGraph (.ofStr "/repo") ∅
      [.ofStr "app/x.txt"] (.ofStr "/repo") sinceVisits).toOption =
        some ⟨{⟨"app"⟩}, ∅, {⟨"gen"⟩}⟩ :=
  ⟨declaredInputMatches_order (by simp) fun _ => Iff.rfl, by decide +kernel⟩

end Luchta.Proof.Deps
