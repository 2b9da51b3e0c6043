import Luchta.Framework.Fallible
import Luchta.Framework.Place
import Luchta.Impl.SharedStore

/-!
# What scope outputs have

Outputs are classified by their normal forms, which agree with their places unless they, or the
directories they are compared to, go above the root of the file system: there the normal form keeps
each `..`, where following it leads nowhere.

* `classifyOutputs_eq_ok`: what the code accepts, in terms of walks.
* `classified_iff`: exactly when it classifies by places.
-/

namespace Luchta.Proof.Store

open Luchta.Framework Luchta.Impl

/-- The place of an output; a relative one starts from the package directory. -/
def outputPlace (packageDir output : Path) : List String := output.placeFrom packageDir.place

def outputWalk (packageDir output : Path) : Walk := output.walkFrom packageDir.walk

variable {repoRoot packageDir : Path} {outputs : List Path} {scope : OutputScope}

/-! ## Walks -/

theorem outputWalk_place (packageDir output : Path) :
    (outputWalk packageDir output).place = outputPlace packageDir output := by
  rw [outputWalk, Path.walkFrom_place, Path.walk_place, outputPlace]

/-- An output continues the walk to a directory. -/
def Continues (dir packageDir output : Path) : Prop :=
  dir.walk.Level (outputWalk packageDir output) ∧ dir.place <+: outputPlace packageDir output

instance decidableContinues (dir packageDir output : Path) : Decidable (Continues dir packageDir output) :=
  inferInstanceAs (Decidable (_ ∧ _))

/-- The comparison of normal forms. -/
theorem startsWith_iff (hpackage : packageDir.isAbsolute = true) {dir : Path}
    (hdir : dir.isAbsolute = true) (output : Path) :
    (packageDir.lexicalNormalize.join output).lexicalNormalize.startsWith dir.lexicalNormalize =
      true ↔ Continues dir packageDir output := by
  rw [Path.startsWith, List.isPrefixOf_iff_prefix,
    lexicalNormalize_join_walk (lexicalNormalize_absolute hpackage), lexicalNormalize_absolute hdir,
    Walk.components_prefix, Path.walk_place, ← outputWalk, outputWalk_place, Continues]

/-! ## All outputs -/

/-- One output either stops the loop or lowers the scope. -/
theorem classifyOutput_eq (hroot : repoRoot.isAbsolute = true)
    (hpackage : packageDir.isAbsolute = true) (scope : OutputScope) (output : Path) :
    classifyOutput repoRoot.lexicalNormalize packageDir.lexicalNormalize scope output =
      if Continues repoRoot packageDir output then
        .ok (if Continues packageDir packageDir output then scope else .CrossPackage)
      else .error (.PathEscape repoRoot.lexicalNormalize packageDir.lexicalNormalize output
        (packageDir.lexicalNormalize.join output).lexicalNormalize) := by
  have hrepo := startsWith_iff hpackage hroot output
  have hown := startsWith_iff hpackage hpackage output
  unfold classifyOutput
  dsimp only
  simp only [Bool.not_eq_true', ← Bool.not_eq_true, hrepo, hown, ite_not]
  split_ifs <;> rfl

theorem foldlM_classifyOutput (hroot : repoRoot.isAbsolute = true)
    (hpackage : packageDir.isAbsolute = true) (start : OutputScope) :
    outputs.foldlM (classifyOutput repoRoot.lexicalNormalize packageDir.lexicalNormalize) start =
        .ok scope ↔
      (∀ output ∈ outputs, Continues repoRoot packageDir output) ∧
        (if ∀ output ∈ outputs, Continues packageDir packageDir output then start else .CrossPackage) =
          scope := by
  induction outputs generalizing start with
  | nil => simp [pure, Except.pure]
  | cons output outputs ih =>
    rw [List.foldlM_cons, classifyOutput_eq hroot hpackage, List.forall_mem_cons]
    by_cases hcontinues : Continues repoRoot packageDir output
    · rw [if_pos hcontinues, and_iff_right hcontinues]
      show outputs.foldlM _ _ = _ ↔ _
      rw [ih]
      simp only [List.forall_mem_cons]
      by_cases hin : Continues packageDir packageDir output
      · simp only [hin, if_true, true_and]
      · simp only [hin, if_false, false_and, ite_self]
    · rw [if_neg hcontinues]
      refine iff_of_false ?_ fun h => hcontinues h.1.1
      intro h
      contradiction

/-- What the code accepts: outputs below the repository root, told apart by whether they all are below
the package directory. -/
theorem classifyOutputs_eq_ok (hroot : repoRoot.isAbsolute = true)
    (hpackage : packageDir.isAbsolute = true) :
    classifyOutputs repoRoot packageDir outputs = .ok scope ↔
      (∀ output ∈ outputs, Continues repoRoot packageDir output) ∧
        (if ∀ output ∈ outputs, Continues packageDir packageDir output then OutputScope.InPackage
          else .CrossPackage) = scope :=
  foldlM_classifyOutput hroot hpackage .InPackage

theorem classifyOutputs_fails_iff (hroot : repoRoot.isAbsolute = true)
    (hpackage : packageDir.isAbsolute = true) :
    (∃ e, classifyOutputs repoRoot packageDir outputs = .error e) ↔
      ∃ output ∈ outputs, ¬ Continues repoRoot packageDir output := by
  cases h : classifyOutputs repoRoot packageDir outputs with
  | ok scope =>
    obtain ⟨hall, -⟩ := (classifyOutputs_eq_ok hroot hpackage).1 h
    refine iff_of_false (by simp) ?_
    rintro ⟨output, hmem, hnot⟩
    exact hnot (hall output hmem)
  | error e =>
    refine iff_of_true ⟨e, rfl⟩ ?_
    by_contra hall
    push Not at hall
    rw [(classifyOutputs_eq_ok hroot hpackage).2 ⟨hall, rfl⟩] at h
    contradiction

/-- Whether it fails, and with which scope it ends, depends on which outputs there are only. -/
theorem classifyOutputs_perm (hroot : repoRoot.isAbsolute = true)
    (hpackage : packageDir.isAbsolute = true) {outputs' : List Path} (hperm : outputs'.Perm outputs) :
    (classifyOutputs repoRoot packageDir outputs').toOption =
      (classifyOutputs repoRoot packageDir outputs).toOption := by
  refine Option.ext fun scope => ?_
  rw [toOption_eq_some, toOption_eq_some, classifyOutputs_eq_ok hroot hpackage,
    classifyOutputs_eq_ok hroot hpackage]
  simp only [hperm.mem_iff]

/-! ## Places -/

/-- Outputs are classified by their places, in any order. -/
structure Classified (repoRoot packageDir : Path) (outputs : List Path) : Prop where
  escape : (∃ e, classifyOutputs repoRoot packageDir outputs = .error e) ↔
    ∃ output ∈ outputs, ¬ repoRoot.place <+: outputPlace packageDir output
  scope : (∀ output ∈ outputs, repoRoot.place <+: outputPlace packageDir output) →
    classifyOutputs repoRoot packageDir outputs = .ok
      (if ∀ output ∈ outputs, packageDir.place <+: outputPlace packageDir output then .InPackage
        else .CrossPackage)
  order : ∀ outputs', outputs'.Perm outputs →
    (classifyOutputs repoRoot packageDir outputs').toOption =
      (classifyOutputs repoRoot packageDir outputs).toOption

/-- All outputs, as the code follows them, go above the root of the file system as often as the walk
to this directory, or further from the root itself. -/
def AllLevel (dir packageDir : Path) (outputs : List Path) : Prop :=
  ∀ output ∈ outputs, dir.walk.Level (outputWalk packageDir output)

instance decidableAllLevel (dir packageDir : Path) (outputs : List Path) :
    Decidable (AllLevel dir packageDir outputs) := List.decidableBAll ..

theorem forall_continues_iff {dir : Path} (hlevel : AllLevel dir packageDir outputs) :
    (∀ output ∈ outputs, Continues dir packageDir output) ↔
      ∀ output ∈ outputs, dir.place <+: outputPlace packageDir output :=
  forall₂_congr fun output hmem => and_iff_right (hlevel output hmem)

theorem allLevel_of_continues {dir : Path} (h : ∀ output ∈ outputs, Continues dir packageDir output) :
    AllLevel dir packageDir outputs := fun output hmem => (h output hmem).1

/-- Outputs are classified by their places exactly if one of them does lie outside the repository, or
all of them are level with its root, and one of them lies outside the package or all of them are level
with its directory. -/
theorem classified_iff (hroot : repoRoot.isAbsolute = true) (hpackage : packageDir.isAbsolute = true) :
    Classified repoRoot packageDir outputs ↔
      (∃ output ∈ outputs, ¬ repoRoot.place <+: outputPlace packageDir output) ∨
        AllLevel repoRoot packageDir outputs ∧
          ((∃ output ∈ outputs, ¬ packageDir.place <+: outputPlace packageDir output) ∨
            AllLevel packageDir packageDir outputs) := by
  constructor
  · intro h
    refine or_iff_not_imp_left.2 fun hinside => ?_
    push Not at hinside
    obtain ⟨hall, hscope⟩ := (classifyOutputs_eq_ok hroot hpackage).1 (h.scope hinside)
    refine ⟨allLevel_of_continues hall, or_iff_not_imp_left.2 fun hin => ?_⟩
    push Not at hin
    rw [if_pos hin] at hscope
    by_contra hnot
    rw [if_neg fun hcontinues => hnot (allLevel_of_continues hcontinues)] at hscope
    contradiction
  · intro h
    refine ⟨?_, fun hinside => ?_, fun outputs' hperm => classifyOutputs_perm hroot hpackage hperm⟩
    · rw [classifyOutputs_fails_iff hroot hpackage]
      constructor
      · rintro ⟨output, hmem, hnot⟩
        refine h.elim (fun hout => hout) fun hlevel => ⟨output, hmem, fun hpre => ?_⟩
        exact hnot ⟨hlevel.1 output hmem, hpre⟩
      · rintro ⟨output, hmem, hnot⟩
        exact ⟨output, hmem, fun hcontinues => hnot hcontinues.2⟩
    · obtain ⟨hlevel, hown⟩ := h.resolve_left (by push Not; exact hinside)
      refine (classifyOutputs_eq_ok hroot hpackage).2 ⟨(forall_continues_iff hlevel).2 hinside, ?_⟩
      rcases hown with ⟨output, hmem, hnot⟩ | hown
      · rw [if_neg fun hcontinues => hnot (hcontinues output hmem).2, if_neg fun hin => hnot (hin output hmem)]
      · simp only [forall_continues_iff hown]

theorem classified_pkg :
    Classified (.ofStr "/repo/.") (.ofStr "/repo/pkg") [.ofStr "dist/./x", .ofStr "../lib/y"] :=
  (classified_iff (by decide) (by decide)).2 (.inr ⟨by decide, .inl (by decide)⟩)

/-- The output is in the package: a `..` at the root leads nowhere. -/
theorem climbing_output_escapes :
    ¬ Classified (.ofStr "/repo") (.ofStr "/repo/pkg") [.ofStr "/../repo/pkg/x"] := by
  intro h
  have hok := h.scope (by decide)
  have hcontinues := ((classifyOutputs_eq_ok (by decide) (by decide)).1 hok).1
  exact absurd hcontinues (by decide)

end Luchta.Proof.Store
