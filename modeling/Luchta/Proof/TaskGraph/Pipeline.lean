import Luchta.Spec.Pipeline
import Mathlib.Data.List.TakeWhile

/-!
# Resolved pipelines

* `parsePipelineKey_iff`: parsing inverts writing, on valid keys.
* `tableLookup_ofEntries`: the tables hold the definition of each key, in whatever order they were filled.
* `lookup_tasksById`: a resolved pipeline gives every task the definition it should have.
-/

namespace Luchta.Proof.TaskGraph

open Luchta.Framework Luchta.Impl Luchta.Spec

/-! ## Pipeline keys -/

theorem string_ext {a b : String} (h : a.toList = b.toList) : a = b := String.toList_inj.1 h

theorem stripPrefix_eq_some {s t : String} {c : Char} :
    stripPrefix c s = some t ↔ s.toList = c :: t.toList := by
  unfold stripPrefix
  split
  · rename_i h
    simp [h]
  · rename_i d rest h
    rw [h, Option.ite_none_right_eq_some, Option.some.injEq, List.cons_eq_cons]
    refine and_congr_right fun _ => ⟨?_, fun h => ?_⟩
    · rintro rfl
      rw [String.toList_ofList]
    · rw [h, String.ofList_toList]

theorem stripPrefix_eq_none {s : String} {c : Char} (h : c ∉ s.toList) : stripPrefix c s = none := by
  refine Option.eq_none_iff_forall_ne_some.2 fun t ht => h ?_
  rw [stripPrefix_eq_some.1 ht]
  exact List.mem_cons_self

theorem splitOnce_eq_some {s a b : String} {c : Char} :
    splitOnce c s = some (a, b) ↔ s.toList = a.toList ++ c :: b.toList ∧ c ∉ a.toList := by
  unfold splitOnce
  constructor
  · intro h
    split at h
    · contradiction
    · rename_i d rest hd
      obtain ⟨rfl, rfl⟩ := Prod.mk.inj (Option.some.inj h)
      -- what is dropped starts with the separator
      have hne : s.toList.dropWhile (· ≠ c) ≠ [] := by
        rw [hd]
        exact List.cons_ne_nil _ _
      have hhead : d = c := by
        have hnot := List.head_dropWhile_not (· ≠ c) hne
        rw [decide_eq_false_iff_not, not_not] at hnot
        simpa only [hd, List.head_cons] using hnot
      rw [hhead] at hd
      rw [String.toList_ofList, String.toList_ofList, ← hd, List.takeWhile_append_dropWhile]
      refine ⟨rfl, fun hmem => ?_⟩
      have := List.mem_takeWhile_imp hmem
      simp at this
  · rintro ⟨hs, ha⟩
    have hall : ∀ d ∈ a.toList, decide (d ≠ c) = true := fun d hd => by
      rw [decide_eq_true_iff]
      rintro rfl
      exact ha hd
    rw [hs, List.dropWhile_append_of_pos hall, List.takeWhile_append_of_pos hall]
    simp

theorem splitOnce_eq_none {s : String} {c : Char} : splitOnce c s = none ↔ c ∉ s.toList := by
  constructor
  · intro h hmem
    obtain ⟨l, r, hs, hl⟩ := List.eq_append_cons_of_mem hmem
    have hsome : splitOnce c s = some (String.ofList l, String.ofList r) := by
      rw [splitOnce_eq_some, String.toList_ofList, String.toList_ofList]
      exact ⟨hs, hl⟩
    rw [h] at hsome
    contradiction
  · intro h
    refine Option.eq_none_iff_forall_ne_some.2 fun ⟨a, b⟩ hab => h ?_
    rw [(splitOnce_eq_some.1 hab).1]
    exact List.mem_append_right _ List.mem_cons_self

variable {pg : PackageGraph} {names : List PackageName}

/-- A valid key is parsed back from how it is written. -/
theorem parsePipelineKey_rawKey (hnames : ∀ p, p ∈ names ↔ HasPackage pg p) {key : PipelineKey}
    (hkey : ValidKey pg key) : parsePipelineKey names (rawKey key) = some key := by
  unfold parsePipelineKey
  cases key with
  | Global task =>
    have hno : '#' ∉ (rawKey (.Global task)).name.toList := hkey
    rw [stripPrefix_eq_none hno, splitOnce_eq_none.2 hno]
    rfl
  | Package package task =>
    obtain ⟨hsep, hpackage, htask, hhas⟩ := hkey
    have hraw : (rawKey (.Package package task)).name.toList =
        package.name.toList ++ '#' :: task.name.toList := by
      simp [rawKey]
    have hstrip : stripPrefix '#' (rawKey (.Package package task)).name = none := by
      refine Option.eq_none_iff_forall_ne_some.2 fun t ht => ?_
      rw [stripPrefix_eq_some, hraw] at ht
      cases hp : package.name.toList with
      | nil => exact hpackage (string_ext hp)
      | cons d l =>
        rw [hp, List.cons_append, List.cons_eq_cons] at ht
        exact hsep (hp ▸ ht.1 ▸ List.mem_cons_self)
    rw [hstrip, splitOnce_eq_some.2 ⟨hraw, hsep⟩]
    dsimp only
    rw [if_neg]
    push Not
    exact ⟨hpackage, htask, (hnames _).2 hhas⟩
  | Root task =>
    have hraw : (rawKey (.Root task)).name.toList = '#' :: task.name.toList := by
      simp [rawKey]
    rw [stripPrefix_eq_some.2 hraw]
    exact if_neg hkey

theorem rawKey_of_parsePipelineKey (hnames : ∀ p, p ∈ names ↔ HasPackage pg p) {raw : TaskName}
    {key : PipelineKey} (h : parsePipelineKey names raw = some key) :
    rawKey key = raw ∧ ValidKey pg key := by
  obtain ⟨raw⟩ := raw
  unfold parsePipelineKey at h
  cases hp : stripPrefix '#' raw with
  | some task =>
    rw [hp] at h
    obtain ⟨hne, heq⟩ := Option.ite_none_left_eq_some.1 h
    obtain rfl := Option.some.inj heq
    refine ⟨congrArg TaskName.mk (string_ext ?_), hne⟩
    rw [stripPrefix_eq_some.1 hp]
    simp
  | none =>
    rw [hp] at h
    cases hs : splitOnce '#' raw with
    | none =>
      rw [hs] at h
      obtain rfl := Option.some.inj h
      exact ⟨rfl, splitOnce_eq_none.1 hs⟩
    | some e =>
      obtain ⟨package, task⟩ := e
      rw [hs] at h
      obtain ⟨hne, heq⟩ := Option.ite_none_left_eq_some.1 h
      obtain rfl := Option.some.inj heq
      obtain ⟨hraw, hsep⟩ := splitOnce_eq_some.1 hs
      push Not at hne
      refine ⟨congrArg TaskName.mk (string_ext ?_), hsep, hne.1, hne.2.1, (hnames _).1 hne.2.2⟩
      rw [hraw]
      simp

theorem parsePipelineKey_iff (hnames : ∀ p, p ∈ names ↔ HasPackage pg p) {raw : TaskName}
    {key : PipelineKey} :
    parsePipelineKey names raw = some key ↔ rawKey key = raw ∧ ValidKey pg key :=
  ⟨rawKey_of_parsePipelineKey hnames, fun ⟨hraw, hkey⟩ => hraw ▸ parsePipelineKey_rawKey hnames hkey⟩

/-! ## Tables -/

def tableLookup (t : PipelineTables) : PipelineKey → Option TaskDefinition
  | .Global task => t.globalTasks.lookup task
  | .Package package task => t.packageTasks.lookup (package, task)
  | .Root task => t.rootTasks.lookup task

theorem tableLookup_insert (t : PipelineTables) (e : PipelineKey × TaskDefinition)
    (key : PipelineKey) :
    tableLookup (t.insert e) key = if key = e.1 then some e.2 else tableLookup t key := by
  obtain ⟨k, v⟩ := e
  cases k <;> cases key <;>
    simp [tableLookup, PipelineTables.insert, HashMap.lookup_insert_if]

/-- Together, the three tables are one map from keys to definitions. -/
theorem tableLookup_foldl (es : List (PipelineKey × TaskDefinition)) {t : PipelineTables}
    {m : HashMap PipelineKey TaskDefinition} (h : ∀ key, tableLookup t key = m.lookup key)
    (key : PipelineKey) :
    tableLookup (es.foldl PipelineTables.insert t) key =
      (es.foldl (fun m e => m.insert e.1 e.2) m).lookup key := by
  induction es generalizing t m with
  | nil => exact h key
  | cons e es ih =>
    apply ih
    intro key
    rw [tableLookup_insert, HashMap.lookup_insert_if, h]

theorem tableLookup_ofEntries {es : List (PipelineKey × TaskDefinition)}
    (hes : (es.map Prod.fst).Nodup) {key : PipelineKey} {v : TaskDefinition} :
    tableLookup (.ofEntries es) key = some v ↔ (key, v) ∈ es := by
  rw [PipelineTables.ofEntries, tableLookup_foldl es (m := ∅), ← HashMap.ofList,
    HashMap.lookup_ofList hes]
  intro key
  cases key <;> rfl

variable {orders : BuildOrders} {pipeline : HashMap TaskName TaskDefinition}

theorem nodup_parsed (hnames : ∀ p, p ∈ names ↔ HasPackage pg p) :
    ((parsePipelineEntries orders pipeline names).map Prod.fst).Nodup := by
  have hmap : (parsePipelineEntries orders pipeline names).map Prod.fst =
      ((orders.pipeline.permute pipeline.entries).map Sigma.fst).filterMap
        (parsePipelineKey names) := by
    rw [parsePipelineEntries, List.map_filterMap, List.filterMap_map]
    congr 1
    funext e
    rw [Option.map_map]
    exact Option.map_id'
  rw [hmap]
  refine (HashMap.nodup_keys_permute _ _).filterMap fun raw raw' key h h' => ?_
  rw [← (rawKey_of_parsePipelineKey hnames h).1, (rawKey_of_parsePipelineKey hnames h').1]

/-- The tables hold the definition of each key, in whatever order they were filled. -/
theorem tableLookup_parsed (hnames : ∀ p, p ∈ names ↔ HasPackage pg p) (key : PipelineKey) :
    tableLookup (.ofEntries (parsePipelineEntries orders pipeline names)) key =
      definitionAt pg pipeline key := by
  ext v
  rw [tableLookup_ofEntries (nodup_parsed hnames), parsePipelineEntries, List.mem_filterMap,
    definitionAt, Option.ite_none_right_eq_some]
  constructor
  · rintro ⟨⟨raw, w⟩, hmem, heq⟩
    obtain ⟨key, hparse, heq⟩ := Option.map_eq_some_iff.1 heq
    obtain ⟨rfl, rfl⟩ := Prod.mk.inj heq
    obtain ⟨rfl, hkey⟩ := (parsePipelineKey_iff hnames).1 hparse
    exact ⟨hkey, (HashMap.mem_permute_entries _).1 hmem⟩
  · rintro ⟨hkey, hlookup⟩
    refine ⟨⟨rawKey key, v⟩, (HashMap.mem_permute_entries _).2 hlookup, ?_⟩
    rw [parsePipelineKey_rawKey hnames hkey]
    rfl

/-! ## Tasks -/

/-- One package's tasks override what was there, and leave other packages alone. -/
theorem lookup_insertPackage (t : PipelineTables) (rootPackage : Option PackageName)
    (m : HashMap TaskId TaskDefinition) (name : PackageName) (id : TaskId) :
    (t.insertPackage orders rootPackage m name).lookup id =
      (if id.package = name then
        (t.packageTasks.lookup (name, id.task)).or
          (if rootPackage = some name then none else t.globalTasks.lookup id.task)
      else none).or (m.lookup id) := by
  have hglobal : (m.insertAll ((orders.globalTasks.permute t.globalTasks.entries).map
        fun e => (⟨name, e.1⟩, e.2))).lookup id =
      (if id.package = name then t.globalTasks.lookup id.task else none).or (m.lookup id) := by
    refine HashMap.lookup_insertAll_map m (HashMap.nodup_keys_permute _ _)
      (fun a _ b _ hab => congrArg TaskId.task hab) fun v => ?_
    simp only [HashMap.mem_permute_entries, Option.ite_none_right_eq_some]
    constructor
    · rintro ⟨task, hlookup, rfl⟩
      exact ⟨rfl, hlookup⟩
    · rintro ⟨rfl, hlookup⟩
      exact ⟨id.task, hlookup, rfl⟩
  have hpackage : ∀ m : HashMap TaskId TaskDefinition,
      (m.insertAll (((orders.packageTasks.permute t.packageTasks.entries).filter
        fun e => e.1.1 = name).map fun e => (⟨name, e.1.2⟩, e.2))).lookup id =
      (if id.package = name then t.packageTasks.lookup (name, id.task) else none).or
        (m.lookup id) := by
    intro m
    refine HashMap.lookup_insertAll_map (f := fun k : PackageName × TaskName => ⟨name, k.2⟩) m
      ((HashMap.nodup_keys_permute orders.packageTasks t.packageTasks).sublist
        (List.filter_sublist.map _)) (fun a ha b hb hab => ?_) fun v => ?_
    · rw [List.mem_filter, decide_eq_true_iff] at ha hb
      exact Prod.ext (ha.2.trans hb.2.symm) (congrArg TaskId.task hab)
    · simp only [List.mem_filter, HashMap.mem_permute_entries, decide_eq_true_iff,
        Option.ite_none_right_eq_some]
      constructor
      · rintro ⟨⟨package, task⟩, ⟨hlookup, rfl⟩, rfl⟩
        exact ⟨rfl, hlookup⟩
      · rintro ⟨rfl, hlookup⟩
        exact ⟨(id.package, id.task), ⟨hlookup, rfl⟩, rfl⟩
  unfold PipelineTables.insertPackage
  rw [hpackage]
  by_cases hname : id.package = name
  · by_cases hroot : rootPackage = some name
    · simp [hname, hroot]
    · simp [hname, hroot, hglobal, Option.or_assoc]
  · by_cases hroot : rootPackage = some name
    · simp [hname, hroot]
    · simp [hname, hroot, hglobal]

theorem lookup_foldl_insertPackage (t : PipelineTables) (rootPackage : Option PackageName)
    (names : List PackageName) (m : HashMap TaskId TaskDefinition) (id : TaskId) :
    (names.foldl (t.insertPackage orders rootPackage) m).lookup id =
      (if id.package ∈ names then
        (t.packageTasks.lookup (id.package, id.task)).or
          (if rootPackage = some id.package then none else t.globalTasks.lookup id.task)
      else none).or (m.lookup id) := by
  induction names generalizing m with
  | nil => simp
  | cons name names ih =>
    rw [List.foldl_cons, ih, lookup_insertPackage, ← Option.or_assoc]
    congr 1
    by_cases hname : id.package = name
    · -- a package listed twice gets the same definitions twice
      subst hname
      by_cases hmem : id.package ∈ names
      · simp [hmem, Option.or_self]
      · simp [hmem]
    · simp [hname]

theorem PackageGraph.topologicalOrder_ok {ts : Toposort PackageNode} {order : List Nat}
    (h : ts.run pg.graph = .ok order) :
    pg.topologicalOrder ts = .ok (order.reverse.pmap (fun i hi => pg.graph.nodes[i])
      fun _ hi => (ts.topological h).mem.1 (List.mem_reverse.1 hi)) := by
  unfold PackageGraph.topologicalOrder
  split
  · rename_i h'
    cases h.symm.trans h'
  · rename_i h'
    obtain rfl := Except.ok.inj (h.symm.trans h')
    rfl

theorem PackageGraph.topologicalOrder_error {ts : Toposort PackageNode} {i : Nat}
    (h : ts.run pg.graph = .error i) : ∃ e, pg.topologicalOrder ts = .error e := by
  unfold PackageGraph.topologicalOrder
  split
  · exact ⟨_, rfl⟩
  · rename_i h'
    cases h.symm.trans h'

theorem PackageGraph.topologicalOrder_cases (pg : PackageGraph) (ts : Toposort PackageNode) :
    (¬ pg.graph.Acyclic ∧ ∃ e, pg.topologicalOrder ts = .error e) ∨
      pg.graph.Acyclic ∧ ∃ packages, pg.topologicalOrder ts = .ok packages ∧
        ∀ p, p ∈ packages.map PackageNode.name ↔ HasPackage pg p := by
  cases hrun : ts.run pg.graph with
  | error i =>
    refine .inl ⟨fun hg => ?_, topologicalOrder_error hrun⟩
    obtain ⟨order, horder⟩ := ts.ok_of_acyclic hg
    rw [hrun] at horder
    contradiction
  | ok order =>
    refine .inr ⟨ts.ok_iff.1 ⟨order, hrun⟩, _, topologicalOrder_ok hrun, fun p => ?_⟩
    have hmem : ∀ {i}, i ∈ order ↔ i < pg.graph.nodes.length := (ts.topological hrun).mem
    rw [HasPackage, Option.isSome_iff_exists, List.map_pmap, List.mem_pmap]
    constructor
    · rintro ⟨i, hi, rfl⟩
      have hlt := hmem.1 (List.mem_reverse.1 hi)
      exact ⟨i, pg.indices_iff.2 ⟨_, List.getElem?_eq_getElem hlt, rfl⟩⟩
    · rintro ⟨i, hi⟩
      obtain ⟨node, hnode, rfl⟩ := pg.indices_iff.1 hi
      obtain ⟨hlt, rfl⟩ := List.getElem?_eq_some_iff.1 hnode
      exact ⟨i, List.mem_reverse.2 (hmem.2 hlt), rfl⟩

/-- A resolved pipeline gives every task the definition it should have. -/
theorem lookup_tasksById (hnames : ∀ p, p ∈ names ↔ HasPackage pg p) (id : TaskId) :
    let tables := PipelineTables.ofEntries (parsePipelineEntries orders pipeline names)
    ((names.foldl (tables.insertPackage orders pg.rootPackage) ∅).insertAll
      ((orders.rootTasks.permute tables.rootTasks.entries).map
        fun e => (rootTaskId e.1, e.2))).lookup id = taskDefinition pg pipeline id := by
  intro tables
  have htable : ∀ key, tableLookup tables key = definitionAt pg pipeline key :=
    tableLookup_parsed hnames
  have hroot : ∀ v, (∃ task, ⟨task, v⟩ ∈ orders.rootTasks.permute tables.rootTasks.entries ∧
      rootTaskId task = id) ↔
        (if id.isRoot then tables.rootTasks.lookup id.task else none) = some v := fun v => by
    simp only [HashMap.mem_permute_entries, Option.ite_none_right_eq_some]
    constructor
    · rintro ⟨task, hlookup, rfl⟩
      exact ⟨rfl, hlookup⟩
    · rintro ⟨hid, hlookup⟩
      refine ⟨id.task, hlookup, ?_⟩
      have hname : id.package.name = ROOT_PACKAGE_NAME := of_decide_eq_true hid
      show TaskId.mk ⟨ROOT_PACKAGE_NAME⟩ id.task = id
      rw [← hname]
  rw [HashMap.lookup_insertAll_map _ (HashMap.nodup_keys_permute _ _)
    (fun a _ b _ hab => congrArg TaskId.task hab) hroot, lookup_foldl_insertPackage]
  rw [show tables.rootTasks.lookup id.task = _ from htable (.Root id.task),
    show tables.packageTasks.lookup (id.package, id.task) = _ from
      htable (.Package id.package id.task),
    show tables.globalTasks.lookup id.task = _ from htable (.Global id.task)]
  unfold taskDefinition
  by_cases hmem : id.package ∈ names
  · have hhas := (hnames _).1 hmem
    by_cases hpr : pg.rootPackage = some id.package
    · simp [hmem, hpr]
    · simp [hmem, hpr, hhas, Option.or_assoc]
  · have hhas : ¬ HasPackage pg id.package := fun h => hmem ((hnames _).2 h)
    have hown : definitionAt pg pipeline (.Package id.package id.task) = none :=
      if_neg fun h => hhas h.2.2.2
    simp [hmem, hhas, hown]

/-- The pipeline resolves exactly when the packages have no cycle. -/
theorem resolvedPipeline_build (ts : Toposort PackageNode) (orders : BuildOrders)
    (pg : PackageGraph) (pipeline : HashMap TaskName TaskDefinition) :
    (¬ pg.graph.Acyclic ∧ ∃ e, ResolvedPipeline.build ts orders pg pipeline = .error e) ∨
      pg.graph.Acyclic ∧ ∃ rp, ResolvedPipeline.build ts orders pg pipeline = .ok rp ∧
        ∀ id, rp.tasksById.lookup id = taskDefinition pg pipeline id := by
  unfold ResolvedPipeline.build
  rcases PackageGraph.topologicalOrder_cases pg ts with ⟨hg, e, he⟩ | ⟨hg, packages, hp, hnames⟩
  · rw [he]
    exact .inl ⟨hg, _, rfl⟩
  · rw [hp]
    exact .inr ⟨hg, _, rfl, lookup_tasksById hnames⟩

end Luchta.Proof.TaskGraph
