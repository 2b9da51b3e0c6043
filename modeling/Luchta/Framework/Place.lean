import Luchta.Framework.LexicalPath

/-!
# Places

Where a path leads in a file system without links: down along its names, one name back with each `..`,
and nowhere with a `..` at the root. The normal form of an absolute path is its place, but for the
`..`s that were met at the root, which it keeps.

* `lexicalNormalize_absolute`, `lexicalNormalize_join_walk`: the normal form, by the walk along a path.
* `Walk.components_prefix`: when one normal form continues another.
-/

namespace Luchta.Framework

/-- One more component from a place, which is given by the names from the root down. -/
def placeStep (place : List String) : Component → List String
  | .rootDir => []
  | .curDir => place
  | .parentDir => place.dropLast
  | .normal name => place ++ [name]

/-- The place that a path leads to from another one. -/
def Path.placeFrom (p : Path) (place : List String) : List String :=
  p.components.foldl placeStep place

/-- The place of an absolute path. -/
def Path.place (p : Path) : List String := p.placeFrom []

/-! ## Walks -/

/-- A place, and how often the way there went above the root. -/
structure Walk where
  above : Nat
  place : List String
  deriving DecidableEq

namespace Walk

def start : Walk := ⟨0, []⟩

def step (w : Walk) : Component → Walk
  | .rootDir => start
  | .curDir => w
  | .parentDir =>
    if w.place = [] then { w with above := w.above + 1 } else { w with place := w.place.dropLast }
  | .normal name => { w with place := w.place ++ [name] }

theorem step_place (w : Walk) (c : Component) : (w.step c).place = placeStep w.place c := by
  cases c with
  | rootDir => rfl
  | curDir => rfl
  | normal name => rfl
  | parentDir =>
    rw [step, placeStep]
    split
    · rename_i hnil
      rw [hnil]
      rfl
    · rfl

/-- What the normal form keeps of a walk. -/
def components (w : Walk) : List Component :=
  .rootDir :: (List.replicate w.above .parentDir ++ w.place.map .normal)

theorem normalForm (w : Walk) : NormalForm w.components :=
  ⟨[.rootDir], w.above, w.place, .inr rfl, rfl⟩

theorem normalizeStep_components (w : Walk) (c : Component) :
    normalizeStep w.components c = (w.step c).components := by
  obtain ⟨above, place⟩ := w
  cases c with
  | rootDir => rfl
  | curDir => rfl
  | normal name => simp [normalizeStep, step, components]
  | parentDir =>
    cases place using List.reverseRecOn with
    | nil =>
      have hbottom : Bottom (.rootDir :: List.replicate above .parentDir) :=
        bottom_climb (.inr rfl) above
      have hstep := normalizeStep_parent_bottom hbottom
      simpa [step, components, List.replicate_succ'] using hstep
    | append_singleton place name =>
      have hstep := normalizeStep_parent_name
        (.rootDir :: (List.replicate above .parentDir ++ place.map .normal)) name
      simpa [step, components] using hstep

/-- One walk goes above the root as often as another, or from the root itself further. -/
def Level (base w : Walk) : Prop :=
  w.above = base.above ∨ base.place = [] ∧ base.above ≤ w.above

instance decidableLevel (base w : Walk) : Decidable (base.Level w) :=
  inferInstanceAs (Decidable (_ ∨ _))

theorem components_prefix {base w : Walk} :
    base.components <+: w.components ↔ base.Level w ∧ base.place <+: w.place := by
  obtain ⟨n, names⟩ := base
  obtain ⟨m, names'⟩ := w
  unfold components Level
  rw [List.prefix_cons_inj]
  dsimp only
  induction n generalizing m with
  | zero =>
    rw [List.replicate_zero, List.nil_append]
    cases m with
    | zero => simp [ map_normal_prefix]
    | succ m =>
      -- a name is no `..`
      cases names with
      | nil => simp
      | cons name names => simp [List.replicate_succ]
  | succ n ih =>
    cases m with
    | zero =>
      cases names' with
      | nil => simp [List.replicate_succ]
      | cons name names' => simp [List.replicate_succ]
    | succ m =>
      rw [List.replicate_succ, List.replicate_succ, List.cons_append, List.cons_append,
        List.prefix_cons_inj, ih]
      simp

end Walk

/-- The walk along a path from the end of another. -/
def Path.walkFrom (p : Path) (w : Walk) : Walk := p.components.foldl Walk.step w

def Path.walk (p : Path) : Walk := p.walkFrom .start

theorem Path.walkFrom_place (p : Path) (w : Walk) :
    (p.walkFrom w).place = p.placeFrom w.place := by
  unfold Path.walkFrom Path.placeFrom
  induction p.components generalizing w with
  | nil => rfl
  | cons c l ih => rw [List.foldl_cons, List.foldl_cons, ih, Walk.step_place]

theorem Path.walk_place (p : Path) : p.walk.place = p.place := p.walkFrom_place .start

/-! ## Normal forms -/

theorem foldl_normalizeStep_walk (w : Walk) (l : List Component) :
    l.foldl normalizeStep w.components = (l.foldl Walk.step w).components := by
  induction l generalizing w with
  | nil => rfl
  | cons c l ih => rw [List.foldl_cons, List.foldl_cons, w.normalizeStep_components, ih]

theorem exists_rootDir_cons {p : Path} (h : p.isAbsolute = true) :
    ∃ l, p.components = .rootDir :: l := by
  unfold Path.isAbsolute at h
  exact List.head?_eq_some_iff.1 (of_decide_eq_true h)

/-- An absolute path is walked from the root, wherever one stands. -/
theorem Path.walkFrom_absolute {p : Path} (h : p.isAbsolute = true) (w : Walk) :
    p.walkFrom w = p.walk := by
  obtain ⟨l, hl⟩ := exists_rootDir_cons h
  rw [Path.walk, Path.walkFrom, Path.walkFrom, hl]
  rfl

theorem lexicalNormalize_absolute {p : Path} (h : p.isAbsolute = true) :
    p.lexicalNormalize.components = p.walk.components := by
  obtain ⟨l, hl⟩ := exists_rootDir_cons h
  rw [Path.lexicalNormalize, Path.walk, Path.walkFrom, hl]
  exact foldl_normalizeStep_walk .start l

/-- A path joined to the normal form of a walk goes on from its end, or starts anew. -/
theorem lexicalNormalize_join_walk {base p : Path} {w : Walk} (hbase : base.components = w.components) :
    (base.join p).lexicalNormalize.components = (p.walkFrom w).components := by
  cases habs : p.isAbsolute with
  | true =>
    rw [Path.join, if_pos habs, lexicalNormalize_absolute habs, Path.walkFrom_absolute habs]
  | false =>
    rw [Path.lexicalNormalize_join (hbase ▸ w.normalForm) habs, hbase, foldl_normalizeStep_walk]
    rfl

end Luchta.Framework
