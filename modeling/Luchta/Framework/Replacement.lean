import Mathlib.Logic.Relation
import Mathlib.Order.WellFoundedSet

/-!
# Replacements

A list of pairs says what was replaced by what. As long as nothing is replaced, through however many
replacements, by itself, everything that was ever replaced leads to something that was not.

* `Acyclic.append`: new replacements by `b` keep it so if `b` does not lead to what it replaces.
* `Acyclic.exists_last`: where everything leads in the end.
-/

namespace Luchta.Framework

variable {α : Type*}

/-- `b` is `a`, or has replaced it through others. -/
def Leads (replaced : List (α × α)) : α → α → Prop :=
  Relation.ReflTransGen fun a b => (a, b) ∈ replaced

def Acyclic (replaced : List (α × α)) : Prop :=
  ∀ a, ¬ Relation.TransGen (fun a b => (a, b) ∈ replaced) a a

variable {replaced : List (α × α)} {a b : α}

theorem acyclic_nil : Acyclic ([] : List (α × α)) := by
  intro a h
  obtain ⟨b, hb, -⟩ := Relation.TransGen.head'_iff.1 h
  exact List.not_mem_nil hb

/-- A path is old, or goes through what `b` replaces. -/
theorem transGen_append {olds : List α} {c : α} (h : Relation.TransGen
    (fun a c => (a, c) ∈ replaced ++ olds.map fun old => (old, b)) a c) :
    Relation.TransGen (fun a c => (a, c) ∈ replaced) a c ∨
      ∃ old ∈ olds, Leads replaced a old ∧ Leads replaced b c := by
  have hnew {c d : α} (hmem : (c, d) ∈ olds.map fun old => (old, b)) : c ∈ olds ∧ d = b := by
    obtain ⟨old, hold, heq⟩ := List.mem_map.1 hmem
    cases heq
    exact ⟨hold, rfl⟩
  induction h with
  | single hedge =>
    rcases List.mem_append.1 hedge with hold | hmem
    · exact .inl (.single hold)
    · obtain ⟨hfrom, rfl⟩ := hnew hmem
      exact .inr ⟨_, hfrom, .refl, .refl⟩
  | @tail c d _ hedge ih =>
    rcases List.mem_append.1 hedge with hold | hmem
    · rcases ih with hpath | ⟨old, hmem, hto, hfrom⟩
      · exact .inl (hpath.tail hold)
      · exact .inr ⟨old, hmem, hto, hfrom.tail hold⟩
    · obtain ⟨hfrom, rfl⟩ := hnew hmem
      rcases ih with hpath | ⟨old, hold, hto, -⟩
      · exact .inr ⟨c, hfrom, hpath.to_reflTransGen, .refl⟩
      · exact .inr ⟨old, hold, hto, .refl⟩

theorem Acyclic.append {olds : List α} (h : Acyclic replaced)
    (hb : ∀ old ∈ olds, ¬ Leads replaced b old) :
    Acyclic (replaced ++ olds.map fun old => (old, b)) := by
  intro a hcycle
  rcases transGen_append hcycle with hpath | ⟨old, hold, hto, hfrom⟩
  · exact h a hpath
  · exact hb old hold (hfrom.trans hto)

theorem Acyclic.exists_last (h : Acyclic replaced) (a : α) :
    ∃ b, Leads replaced a b ∧ ∀ c, (b, c) ∉ replaced := by
  have hfinite : {b | Leads replaced a b}.Finite := by
    refine (List.finite_toSet (a :: replaced.map Prod.snd)).subset fun b hb => ?_
    rcases Relation.ReflTransGen.cases_tail hb with rfl | ⟨c, -, hedge⟩
    · exact List.mem_cons_self
    · exact List.mem_cons_of_mem _ (List.mem_map.2 ⟨_, hedge, rfl⟩)
  -- what comes later is less
  let later : α → α → Prop := fun b c => Relation.TransGen (fun a b => (a, b) ∈ replaced) c b
  have : IsStrictOrder α later :=
    { irrefl := h
      trans := fun _ _ _ hbc hcd => hcd.trans hbc }
  obtain ⟨⟨b, hb⟩, -, hlast⟩ :=
    (hfinite.wellFoundedOn (r := later)).has_min Set.univ ⟨⟨a, .refl⟩, trivial⟩
  exact ⟨b, hb, fun c hc => hlast ⟨c, hb.tail hc⟩ trivial (.single hc)⟩

end Luchta.Framework
