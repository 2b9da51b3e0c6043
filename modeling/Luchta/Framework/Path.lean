import Mathlib.Data.List.Lex
import Mathlib.Data.Prod.Lex
import Mathlib.Data.String.Basic

/-!
# Paths

A path is the list of its components, in the order in which they stand; a root component comes first
or not at all. Two paths are equal, and ordered, by their components.

* `Path.stripPrefix_eq_some_iff`: what is left of a path below a base.
-/

namespace Luchta.Framework

inductive Component
  | rootDir
  | curDir
  | parentDir
  | normal (name : String)

namespace Component

/-- Names come after everything else, in alphabetical order. -/
def sortKey : Component → Nat ×ₗ String
  | rootDir => toLex (0, "")
  | curDir => toLex (1, "")
  | parentDir => toLex (2, "")
  | normal name => toLex (3, name)

theorem sortKey_injective : Function.Injective sortKey := by
  intro c d h
  have h := toLex.injective h
  cases c <;> cases d <;> simp_all

instance : LinearOrder Component := LinearOrder.lift' sortKey sortKey_injective

/-- `as_os_str`. -/
def name : Component → String
  | rootDir => "/"
  | curDir => "."
  | parentDir => ".."
  | normal name => name

end Component

structure Path where
  components : List Component

namespace Path

@[ext] theorem ext {p q : Path} (h : p.components = q.components) : p = q := by
  cases p; cases q; congr

theorem components_injective : Function.Injective components := fun _ _ => ext

instance : LinearOrder Path := LinearOrder.lift' components components_injective

instance : LawfulBEq Path := inferInstance

def isAbsolute (p : Path) : Bool := p.components.head? = some .rootDir

def fileName (p : Path) : Option String :=
  match p.components.getLast? with
  | some (.normal name) => some name
  | _ => none

/-- Roots and the empty path have no parent. -/
def parent (p : Path) : Option Path :=
  match p.components.getLast? with
  | none | some .rootDir => none
  | some _ => some ⟨p.components.dropLast⟩

def startsWith (p base : Path) : Bool := base.components.isPrefixOf p.components

def stripPrefix (p base : Path) : Option Path :=
  if p.startsWith base then some ⟨p.components.drop base.components.length⟩ else none

/-- An absolute path replaces the base; a leading `.` counts only at the start of a path. -/
def join (base p : Path) : Path :=
  if p.isAbsolute then p
  else if base.components = [] then p
  else ⟨base.components ++
    if p.components.head? = some .curDir then p.components.tail else p.components⟩

/-- A path of plain names, as `join` appends it. -/
def IsRelative (p : Path) : Prop := ∃ names, p.components = List.map Component.normal names

theorem stripPrefix_append (base : Path) (l : List Component) :
    stripPrefix ⟨base.components ++ l⟩ base = some ⟨l⟩ := by
  have h : base.components.isPrefixOf (base.components ++ l) = true :=
    List.isPrefixOf_iff_prefix.2 (List.prefix_append _ _)
  rw [stripPrefix, startsWith, if_pos h, List.drop_left]

theorem stripPrefix_eq_some_iff {p base q : Path} :
    p.stripPrefix base = some q ↔ p.components = base.components ++ q.components := by
  constructor
  · intro h
    unfold stripPrefix at h
    split at h
    · rename_i hpre
      obtain ⟨l, hl⟩ := List.isPrefixOf_iff_prefix.1 hpre
      obtain rfl := Option.some.inj h
      rw [← hl, List.drop_left]
    · contradiction
  · intro h
    obtain ⟨components⟩ := p
    obtain rfl : components = _ := h
    exact stripPrefix_append base q.components

theorem IsRelative.join_components {p : Path} (hp : p.IsRelative) (base : Path) :
    (base.join p).components = base.components ++ p.components := by
  obtain ⟨names, hnames⟩ := hp
  have habs : p.isAbsolute = false := by
    cases names <;> simp [isAbsolute, hnames]
  have hcur : p.components.head? ≠ some .curDir := by
    cases names <;> simp [hnames]
  rw [join, if_neg (by simp [habs]), if_neg hcur]
  split
  · rename_i hbase
    rw [hbase, List.nil_append]
  · rfl

end Path

end Luchta.Framework
