import Luchta.Framework.PathText
import Mathlib.Data.List.Induction

/-!
# Lexical paths

The normal form of a path: `.` dropped and `..` taken back against the name before it, without
looking at any file system.

* `lexicalNormalize_normalForm`: a normalised path is a root or none, then `..`s, then names.
* `foldl_normalizeStep`: what a relative path does to a normalised one depends only on how far it
  climbs (`Descent.ups`) and which names it descends along after that (`Descent.names`).
* `Path.startsWith_normalize_join`: when a joined path stays below its base.
-/

namespace Luchta.Framework

/-! ## Normal form -/

/-- One more component on what was normalised before it. -/
def normalizeStep (out : List Component) : Component → List Component
  | .rootDir => [.rootDir]
  | .curDir => out
  | .parentDir =>
    match out.getLast? with
    | some (.normal _) => out.dropLast
    | _ => out ++ [.parentDir]
  | .normal name => out ++ [.normal name]

def Path.lexicalNormalize (p : Path) : Path := ⟨p.components.foldl normalizeStep []⟩

/-- A root or none, then `..`s, then names. -/
def NormalForm (l : List Component) : Prop :=
  ∃ (root : List Component) (climb : Nat) (names : List String), (root = [] ∨ root = [.rootDir]) ∧
    l = root ++ List.replicate climb .parentDir ++ names.map .normal

/-- Nothing that a `..` could take back. -/
def Bottom (l : List Component) : Prop := ∀ name, l.getLast? ≠ some (.normal name)

theorem bottom_climb {root : List Component} (h : root = [] ∨ root = [.rootDir]) (climb : Nat) :
    Bottom (root ++ List.replicate climb .parentDir) := by
  intro name
  cases climb with
  | zero => rcases h with rfl | rfl <;> simp
  | succ climb => simp [List.replicate_succ', ← List.append_assoc]

theorem normalizeStep_parent_bottom {l : List Component} (h : Bottom l) :
    normalizeStep l .parentDir = l ++ [.parentDir] := by
  show (match l.getLast? with
    | some (.normal _) => l.dropLast
    | _ => l ++ [.parentDir]) = l ++ [Component.parentDir]
  split
  · rename_i heq
    exact absurd heq (h _)
  · rfl

theorem normalizeStep_parent_name (l : List Component) (name : String) :
    normalizeStep (l ++ [.normal name]) .parentDir = l := by
  simp [normalizeStep]

theorem NormalForm.step {l : List Component} (h : NormalForm l) (c : Component) :
    NormalForm (normalizeStep l c) := by
  obtain ⟨root, climb, names, hroot, rfl⟩ := h
  cases c with
  | rootDir => exact ⟨[.rootDir], 0, [], .inr rfl, rfl⟩
  | curDir => exact ⟨root, climb, names, hroot, rfl⟩
  | parentDir =>
    cases names using List.reverseRecOn with
    | nil =>
      refine ⟨root, climb + 1, [], hroot, ?_⟩
      rw [List.map_nil, List.append_nil, normalizeStep_parent_bottom (bottom_climb hroot climb),
        List.replicate_succ']
      simp
    | append_singleton names name =>
      refine ⟨root, climb, names, hroot, ?_⟩
      rw [List.map_append, ← List.append_assoc]
      exact normalizeStep_parent_name _ _
  | normal name => exact ⟨root, climb, names ++ [name], hroot, by simp [normalizeStep]⟩

theorem NormalForm.append {l : List Component} (h : NormalForm l) (names : List String) :
    NormalForm (l ++ names.map .normal) := by
  obtain ⟨root, climb, names', hroot, rfl⟩ := h
  exact ⟨root, climb, names' ++ names, hroot, by rw [List.map_append, List.append_assoc]⟩

theorem lexicalNormalize_normalForm (p : Path) : NormalForm p.lexicalNormalize.components := by
  have hfold : ∀ (l out : List Component), NormalForm out → NormalForm (l.foldl normalizeStep out) := by
    intro l
    induction l with
    | nil => exact fun _ h => h
    | cons c l ih => exact fun out h => ih _ (h.step c)
  exact hfold _ _ ⟨[], 0, [], .inl rfl, rfl⟩

theorem NormalForm.initial {l l' : List Component} (h : NormalForm l) (hpre : l' <+: l) :
    NormalForm l' := by
  obtain ⟨root, climb, names, hroot, rfl⟩ := h
  rw [List.prefix_iff_eq_take.1 hpre]
  rcases hroot with rfl | rfl
  · refine ⟨[], min l'.length climb, names.take (l'.length - climb), .inl rfl, ?_⟩
    simp [List.take_append, List.take_replicate, List.map_take]
  · cases l'.length with
    | zero => exact ⟨[], 0, [], .inl rfl, rfl⟩
    | succ n =>
      refine ⟨[.rootDir], min n climb, names.take (n - climb), .inr rfl, ?_⟩
      simp [List.take_append, List.take_replicate, List.map_take]

/-- Nothing comes into a path when it is normalised, and dots go. -/
theorem mem_lexicalNormalize {p : Path} {c : Component} (h : c ∈ p.lexicalNormalize.components) :
    c ∈ p.components ∧ c ≠ .curDir := by
  have hstep : ∀ (out : List Component) (d : Component), c ∈ normalizeStep out d →
      c ∈ out ∨ c = d ∧ d ≠ .curDir := by
    intro out d hc
    cases d with
    | rootDir => exact .inr ⟨List.mem_singleton.1 hc, nofun⟩
    | curDir => exact .inl hc
    | parentDir =>
      dsimp only [normalizeStep] at hc
      split at hc
      · exact .inl (List.dropLast_subset _ hc)
      · rcases List.mem_append.1 hc with hc | hc
        · exact .inl hc
        · exact .inr ⟨List.mem_singleton.1 hc, nofun⟩
    | normal name =>
      rcases List.mem_append.1 hc with hc | hc
      · exact .inl hc
      · exact .inr ⟨List.mem_singleton.1 hc, nofun⟩
  have hfold : ∀ (l out : List Component), c ∈ l.foldl normalizeStep out →
      c ∈ out ∨ c ∈ l ∧ c ≠ .curDir := by
    intro l
    induction l with
    | nil => exact fun out hc => .inl hc
    | cons d l ih =>
      intro out hc
      rcases ih _ hc with hc | ⟨hc, hne⟩
      · rcases hstep out d hc with hc | ⟨rfl, hne⟩
        · exact .inl hc
        · exact .inr ⟨List.mem_cons_self, hne⟩
      · exact .inr ⟨List.mem_cons_of_mem _ hc, hne⟩
  exact (hfold p.components [] h).resolve_left List.not_mem_nil

/-- A normalised path is its text. -/
theorem ofStr_toStr_normalize (t : String) :
    Path.ofStr (Path.ofStr t).lexicalNormalize.toStr = (Path.ofStr t).lexicalNormalize := by
  have hmem : ∀ c ∈ (Path.ofStr t).lexicalNormalize.components, c = .rootDir ∨ c.Proper := by
    intro c hc
    obtain ⟨hin, hne⟩ := mem_lexicalNormalize hc
    rcases proper_ofStr t c hin with rfl | rfl | hproper
    · exact .inl rfl
    · contradiction
    · exact .inr hproper
  obtain ⟨root, climb, names, hroot, heq⟩ := lexicalNormalize_normalForm (Path.ofStr t)
  have hrest : ∀ c ∈ List.replicate climb Component.parentDir ++ names.map .normal, c.Proper := by
    intro c hc
    refine (hmem c ?_).resolve_left ?_
    · rw [heq, List.append_assoc]
      exact List.mem_append_right _ hc
    · rintro rfl
      simp at hc
  have hpath : (Path.ofStr t).lexicalNormalize =
      ⟨root ++ (List.replicate climb .parentDir ++ names.map .normal)⟩ := by
    ext1
    rw [heq, List.append_assoc]
  rw [hpath]
  rcases hroot with rfl | rfl
  · exact ofStr_toStr hrest
  · exact ofStr_toStr_rootDir hrest

/-! ## Relative paths -/

/-- How far a relative path climbs, and along which names it descends from there. -/
structure Descent where
  ups : Nat
  names : List String
  deriving DecidableEq

def Descent.step (d : Descent) : Component → Descent
  | .normal name => { d with names := d.names ++ [name] }
  | .parentDir =>
    if d.names = [] then { d with ups := d.ups + 1 } else { d with names := d.names.dropLast }
  | .rootDir | .curDir => d

def descent (l : List Component) : Descent := l.foldl Descent.step ⟨0, []⟩

theorem descent_append_singleton (l : List Component) (c : Component) :
    descent (l ++ [c]) = (descent l).step c := by
  simp [descent]

/-- The normal form after a relative path. -/
def descend (pre : List Component) (names : List String) (d : Descent) : List Component :=
  pre ++ List.replicate (d.ups - names.length) .parentDir ++
    (names.take (names.length - d.ups) ++ d.names).map .normal

theorem foldl_normalizeStep {pre : List Component} (hpre : Bottom pre) (names : List String)
    {l : List Component} (hl : .rootDir ∉ l) :
    l.foldl normalizeStep (pre ++ names.map .normal) = descend pre names (descent l) := by
  induction l using List.reverseRecOn with
  | nil => simp [descend, descent]
  | append_singleton l c ih =>
    rw [List.mem_append, not_or, List.mem_singleton] at hl
    rw [List.foldl_append, ih hl.1, descent_append_singleton, List.foldl_cons, List.foldl_nil]
    obtain ⟨ups, down⟩ := descent l
    cases c with
    | rootDir => exact absurd rfl hl.2
    | curDir => rfl
    | normal name => simp [normalizeStep, descend, Descent.step]
    | parentDir =>
      cases down using List.reverseRecOn with
      | append_singleton down name =>
        -- the last name descended along is taken back
        simp only [descend, Descent.step, List.map_append, List.map_cons, List.map_nil,
          List.append_eq_nil_iff, List.cons_ne_nil, and_false, if_false, List.dropLast_concat,
          ← List.append_assoc]
        exact normalizeStep_parent_name _ _
      | nil =>
        by_cases hlt : ups < names.length
        · -- one of the names below the base is taken back
          have htake : names.take (names.length - ups) =
              names.take (names.length - (ups + 1)) ++ [names[names.length - (ups + 1)]] := by
            rw [← List.take_succ_eq_append_getElem (by omega)]
            congr 1
            omega
          have hzero : ups - names.length = 0 := by omega
          have hzero' : ups + 1 - names.length = 0 := by omega
          simp only [descend, Descent.step, if_true, List.append_nil, hzero, hzero', htake,
            List.replicate_zero, List.map_append, List.map_cons, List.map_nil]
          rw [← List.append_assoc]
          exact normalizeStep_parent_name _ _
        · have hzero : names.length - ups = 0 := by omega
          have hzero' : names.length - (ups + 1) = 0 := by omega
          have hsucc : ups + 1 - names.length = ups - names.length + 1 := by omega
          have hbottom : Bottom (pre ++ List.replicate (ups - names.length) .parentDir) := by
            intro name
            cases ups - names.length with
            | zero => simpa using hpre name
            | succ n => simp [List.replicate_succ', ← List.append_assoc]
          simp only [descend, Descent.step, if_true, List.append_nil, hzero, hzero', hsucc,
            List.take_zero, List.map_nil, List.replicate_succ', ← List.append_assoc]
          exact normalizeStep_parent_bottom hbottom

theorem descent_normal (climb : Nat) (names : List String) :
    descent (List.replicate climb .parentDir ++ names.map .normal) = ⟨climb, names⟩ := by
  induction names using List.reverseRecOn with
  | nil =>
    rw [List.map_nil, List.append_nil]
    induction climb with
    | zero => rfl
    | succ climb ih => rw [List.replicate_succ', descent_append_singleton, ih]; rfl
  | append_singleton names name ih =>
    rw [List.map_append, ← List.append_assoc]
    exact (descent_append_singleton _ _).trans (by rw [ih]; rfl)

/-- Normalising again changes nothing. -/
theorem NormalForm.foldl {l : List Component} (h : NormalForm l) : l.foldl normalizeStep [] = l := by
  obtain ⟨root, climb, names, hroot, rfl⟩ := h
  have hnot : .rootDir ∉ List.replicate climb Component.parentDir ++ names.map Component.normal := by
    simp
  have hrest : (List.replicate climb Component.parentDir ++ names.map Component.normal).foldl
      normalizeStep root = root ++ List.replicate climb .parentDir ++ names.map .normal := by
    have hbottom : Bottom root := by
      simpa using bottom_climb hroot 0
    have := foldl_normalizeStep hbottom [] hnot
    simpa [descend, descent_normal] using this
  rcases hroot with rfl | rfl
  · simpa using hrest
  · simpa [normalizeStep] using hrest

/-! ## Below a base -/

def Component.normalName : Component → Option String
  | .normal name => some name
  | _ => none

/-- The names that a path descends along. -/
def Path.names (p : Path) : List String := p.components.filterMap Component.normalName

/-- A descent that ends below a normalised base: it climbs no further than the base has names, if
any, and descends again along those it climbed over. -/
def Path.Holds (base : Path) (d : Descent) : Prop :=
  (d.ups ≤ base.names.length ∨ base.names = []) ∧
    base.names.drop (base.names.length - d.ups) <+: d.names

instance (base : Path) (d : Descent) : Decidable (base.Holds d) := inferInstanceAs (Decidable (_ ∧ _))

theorem Path.holds_of_ups_zero {base : Path} {d : Descent} (h : d.ups = 0) : base.Holds d := by
  rw [Path.Holds, h, Nat.sub_zero, List.drop_length]
  exact ⟨.inl (Nat.zero_le _), List.nil_prefix⟩

theorem names_normalForm {root : List Component} (hroot : root = [] ∨ root = [.rootDir]) (climb : Nat)
    (names : List String) : (root ++ List.replicate climb Component.parentDir ++
      names.map Component.normal).filterMap Component.normalName = names := by
  have hnormal : ∀ names : List String,
      (names.map Component.normal).filterMap Component.normalName = names := by
    intro names
    induction names with
    | nil => rfl
    | cons name names ih =>
      show name :: (names.map Component.normal).filterMap Component.normalName = name :: names
      rw [ih]
  have hclimb : (List.replicate climb Component.parentDir).filterMap Component.normalName = [] := by
    rw [List.filterMap_eq_nil_iff]
    intro c hc
    rw [List.eq_of_mem_replicate hc]
    rfl
  rw [List.filterMap_append, List.filterMap_append, hclimb, hnormal, List.append_nil]
  rcases hroot with rfl | rfl <;> rfl

theorem map_normal_prefix {names names' : List String} :
    names.map Component.normal <+: names'.map Component.normal ↔ names <+: names' := by
  have hinj : Function.Injective Component.normal := fun a b h => by
    injection h
  exact List.prefix_map_iff_of_injective hinj

/-- A joined path is followed from its base on. -/
theorem Path.lexicalNormalize_join {base p : Path} (hbase : NormalForm base.components)
    (habs : p.isAbsolute = false) : (base.join p).lexicalNormalize.components =
      p.components.foldl normalizeStep base.components := by
  have hfold : base.components.foldl normalizeStep [] = base.components := hbase.foldl
  rw [Path.join, if_neg (by simp [habs]), Path.lexicalNormalize]
  split
  · rename_i hnil
    rw [hnil]
  · rw [List.foldl_append, hfold]
    -- a leading dot does not matter, whether `join` drops it or not
    split
    · rename_i hcur
      cases hcs : p.components with
      | nil => rfl
      | cons c cs =>
        obtain rfl : c = .curDir := by simpa [hcs] using hcur
        rfl
    · rfl

/-- A joined path stays below its base exactly if the base holds the descent. -/
theorem Path.startsWith_normalize_join {base p : Path} (hbase : NormalForm base.components)
    (hp : .rootDir ∉ p.components) :
    (base.join p).lexicalNormalize.startsWith base = true ↔ base.Holds (descent p.components) := by
  obtain ⟨root, climb, names, hroot, hcomponents⟩ := hbase
  have hnames : base.names = names := by
    rw [Path.names, hcomponents, names_normalForm hroot]
  have habs : p.isAbsolute = false := by
    rw [Path.isAbsolute, decide_eq_false_iff_not]
    exact fun h => hp (List.mem_of_mem_head? h)
  have hjoin := Path.lexicalNormalize_join ⟨root, climb, names, hroot, hcomponents⟩ habs
  rw [Path.startsWith, List.isPrefixOf_iff_prefix, hjoin, hcomponents,
    foldl_normalizeStep (bottom_climb hroot climb) names hp, Path.Holds, hnames, descend,
    List.append_assoc (root ++ _) (List.replicate _ _) (List.map _ _), List.prefix_append_right_inj]
  obtain ⟨ups, down⟩ := descent p.components
  dsimp only
  by_cases hle : ups ≤ names.length
  · have hzero : ups - names.length = 0 := by omega
    rw [hzero, List.replicate_zero, List.nil_append, map_normal_prefix]
    conv_lhs => lhs; rw [← List.take_append_drop (names.length - ups) names]
    rw [List.prefix_append_right_inj]
    exact (and_iff_right (.inl hle)).symm
  · obtain ⟨k, hk⟩ : ∃ k, ups - names.length = k + 1 := ⟨ups - names.length - 1, by omega⟩
    rw [hk, List.replicate_succ, List.cons_append]
    cases names with
    | nil => simp
    | cons name names =>
      simp only [List.map_cons, List.cons_prefix_cons, reduceCtorEq, false_and, hle, or_false]

end Luchta.Framework
