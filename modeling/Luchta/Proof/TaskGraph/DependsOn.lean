import Luchta.Impl.DependsOn
import Luchta.Proof.TaskGraph.Pipeline

/-!
# Dependency references

* `fromStr_eq_ok`: which text each parsed reference has, and which references are parsed at all.
* `printed_identifies`: printing gives the text back, but for a root task spelled with its internal
  package, which is printed in the syntax of root tasks; what prints alike denotes the same tasks.
-/

namespace Luchta.Proof.TaskGraph

open Luchta.Framework Luchta.Impl Luchta.Spec

/-! ## Grammar -/

/-- The text of a reference, with the package name as it is. -/
def text : DependsOn → List Char
  | .DirectUpstream task => '^' :: task.name.toList
  | .TransitiveUpstream task => '^' :: '^' :: task.name.toList
  | .SamePackage task => task.name.toList
  | .Specific id => id.package.name.toList ++ '#' :: id.task.name.toList
  | .Root task => '#' :: task.name.toList

/-- The references that some text is parsed to. -/
def Parsed : DependsOn → Prop
  | .DirectUpstream task => task.name ≠ "" ∧ task.name.toList.head? ≠ some '^'
  | .TransitiveUpstream task | .Root task => task.name ≠ ""
  | .SamePackage task => task.name ≠ "" ∧ task.name.toList.head? ≠ some '^' ∧ '#' ∉ task.name.toList
  | .Specific id => id.package.name ≠ "" ∧ id.task.name ≠ "" ∧
    id.package.name.toList.head? ≠ some '^' ∧ '#' ∉ id.package.name.toList

theorem stripPrefixStr_eq_some {s pre t : String} :
    stripPrefixStr s pre = some t ↔ s.toList = pre.toList ++ t.toList := by
  unfold stripPrefixStr startsWithStr
  rw [Option.ite_none_right_eq_some, List.isPrefixOf_iff_prefix, Option.some.injEq]
  constructor
  · rintro ⟨⟨l, hl⟩, rfl⟩
    rw [← hl, List.drop_left, String.toList_ofList]
  · intro h
    rw [h, List.drop_left, String.ofList_toList]
    exact ⟨List.prefix_append _ _, rfl⟩

variable {s : String} {d : DependsOn}

theorem stripPrefixStr_eq_none {s pre : String} (h : ¬ pre.toList <+: s.toList) :
    stripPrefixStr s pre = none := by
  refine Option.eq_none_iff_forall_ne_some.2 fun t ht => h ?_
  rw [stripPrefixStr_eq_some.1 ht]
  exact List.prefix_append _ _

variable {s : String} {d : DependsOn}

theorem fromStr_transitive {task : String} (h : s.toList = '^' :: '^' :: task.toList) :
    DependsOn.fromStr s =
      if task = "" then .error ⟨"transitive upstream dependency must include task name"⟩
      else .ok (.TransitiveUpstream ⟨task⟩) := by
  rw [DependsOn.fromStr, parseUpstream, stripPrefixStr_eq_some.2 h]
  rfl

theorem fromStr_direct {task : String} (h : s.toList = '^' :: task.toList)
    (hnot : task.toList.head? ≠ some '^') :
    DependsOn.fromStr s =
      if task = "" then .error ⟨"direct upstream dependency must include task name"⟩
      else .ok (.DirectUpstream ⟨task⟩) := by
  have hnone : stripPrefixStr s "^^" = none := by
    refine stripPrefixStr_eq_none fun ⟨l, hl⟩ => hnot ?_
    rw [h] at hl
    rw [← List.tail_eq_of_cons_eq hl]
    rfl
  rw [DependsOn.fromStr, parseUpstream, hnone, parseUpstream, stripPrefixStr_eq_some.2 h]
  rfl

/-- Without a leading `^` a text is parsed as one of the other forms. -/
theorem fromStr_of_plain (h : s.toList.head? ≠ some '^') :
    DependsOn.fromStr s = match stripPrefix '#' s with
      | some task =>
        if task = "" then .error ⟨"root dependency must include task name"⟩ else .ok (.Root ⟨task⟩)
      | none =>
        match splitOnce '#' s with
        | some (package, task) =>
          if package = "" ∨ task = "" then .error ⟨"specific dependency must be `package#task`"⟩
          else .ok (.Specific ⟨⟨package⟩, ⟨task⟩⟩)
        | none =>
          if s = "" then .error ⟨"same-package dependency must include task name"⟩
          else .ok (.SamePackage ⟨s⟩) := by
  have hnone : ∀ l : List Char, ¬ '^' :: l <+: s.toList := by
    rintro l ⟨r, hr⟩
    rw [← hr] at h
    exact h rfl
  have htransitive : stripPrefixStr s "^^" = none := stripPrefixStr_eq_none (hnone _)
  have hdirect : stripPrefixStr s "^" = none := stripPrefixStr_eq_none (hnone _)
  rw [DependsOn.fromStr, parseUpstream, htransitive, parseUpstream, hdirect]
  rfl

theorem parsed_of_fromStr (h : DependsOn.fromStr s = .ok d) : Parsed d ∧ s.toList = text d := by
  by_cases hup : s.toList.head? = some '^'
  · obtain ⟨rest, hs⟩ : ∃ rest : String, s.toList = '^' :: rest.toList := by
      obtain ⟨l, hl⟩ := List.head?_eq_some_iff.1 hup
      exact ⟨String.ofList l, by rw [hl, String.toList_ofList]⟩
    by_cases htwice : rest.toList.head? = some '^'
    · obtain ⟨task, htask⟩ : ∃ task : String, rest.toList = '^' :: task.toList := by
        obtain ⟨l, hl⟩ := List.head?_eq_some_iff.1 htwice
        exact ⟨String.ofList l, by rw [hl, String.toList_ofList]⟩
      rw [htask] at hs
      rw [fromStr_transitive hs] at h
      split at h
      · contradiction
      · rename_i hne
        obtain rfl := Except.ok.inj h
        exact ⟨hne, hs⟩
    · rw [fromStr_direct hs htwice] at h
      split at h
      · contradiction
      · rename_i hne
        obtain rfl := Except.ok.inj h
        exact ⟨⟨hne, htwice⟩, hs⟩
  · rw [fromStr_of_plain hup] at h
    split at h
    · rename_i task htask
      rw [stripPrefix_eq_some] at htask
      split at h
      · contradiction
      · rename_i hne
        obtain rfl := Except.ok.inj h
        exact ⟨hne, htask⟩
    · split at h
      · rename_i package task hsplit
        obtain ⟨hs, hsep⟩ := splitOnce_eq_some.1 hsplit
        split at h
        · contradiction
        · rename_i hne
          rw [not_or] at hne
          obtain rfl := Except.ok.inj h
          refine ⟨⟨hne.1, hne.2, fun hhead => hup ?_, hsep⟩, hs⟩
          rw [hs, List.head?_append, hhead]
          rfl
      · rename_i hsplit
        split at h
        · contradiction
        · rename_i hne
          obtain rfl := Except.ok.inj h
          exact ⟨⟨hne, hup, splitOnce_eq_none.1 hsplit⟩, rfl⟩

theorem head?_ne_of_ne_empty {a : String} {l : List Char} {c : Char} (hne : a ≠ "")
    (h : a.toList.head? ≠ some c) : (a.toList ++ l).head? ≠ some c := by
  cases ha : a.toList with
  | nil => exact absurd (string_ext ha) hne
  | cons b r =>
    rw [ha] at h
    exact h

theorem fromStr_of_parsed (hd : Parsed d) (hs : s.toList = text d) : DependsOn.fromStr s = .ok d := by
  cases d with
  | TransitiveUpstream task => rw [fromStr_transitive hs, if_neg hd]
  | DirectUpstream task => rw [fromStr_direct hs hd.2, if_neg hd.1]
  | Root task =>
    have hplain : s.toList.head? ≠ some '^' := by simp [hs, text]
    rw [fromStr_of_plain hplain, stripPrefix_eq_some.2 hs]
    dsimp only
    rw [if_neg hd]
  | SamePackage task =>
    obtain ⟨hne, hhead, hsep⟩ := hd
    obtain rfl : s = task.name := string_ext hs
    rw [fromStr_of_plain hhead, stripPrefix_eq_none hsep, splitOnce_eq_none.2 hsep]
    dsimp only
    rw [if_neg hne]
  | Specific id =>
    obtain ⟨hpackage, htask, hhead, hsep⟩ := hd
    have hplain : s.toList.head? ≠ some '^' := by
      rw [hs]
      exact head?_ne_of_ne_empty hpackage hhead
    have hroot : stripPrefix '#' s = none := by
      refine Option.eq_none_iff_forall_ne_some.2 fun t ht => ?_
      have hhead : (id.package.name.toList ++ '#' :: id.task.name.toList).head? ≠ some '#' :=
        head?_ne_of_ne_empty hpackage fun h => hsep (List.mem_of_mem_head? h)
      refine hhead ?_
      have hs : s.toList = id.package.name.toList ++ '#' :: id.task.name.toList := hs
      rw [← hs, stripPrefix_eq_some.1 ht]
      rfl
    rw [fromStr_of_plain hplain, hroot, splitOnce_eq_some.2 ⟨hs, hsep⟩]
    dsimp only
    rw [if_neg (not_or.2 ⟨hpackage, htask⟩)]

/-- A reference is parsed from its text and from no other. -/
theorem fromStr_eq_ok : DependsOn.fromStr s = .ok d ↔ Parsed d ∧ s.toList = text d :=
  ⟨parsed_of_fromStr, fun h => fromStr_of_parsed h.1 h.2⟩

/-! ## Printing -/

/-- A root task, spelled with the internal id of its package. -/
def spelledRoot (task : String) : String := ROOT_PACKAGE_NAME ++ "#" ++ task

theorem toList_spelledRoot (task : String) :
    (spelledRoot task).toList = ROOT_PACKAGE_NAME.toList ++ '#' :: task.toList := by
  simp [spelledRoot]

/-- References other than spelled root tasks are printed as their text. -/
theorem toList_asConfigString (h : ∀ task, d ≠ .Specific (rootTaskId task)) :
    d.asConfigString.toList = text d := by
  cases d with
  | Specific id =>
    have hroot : id.isRoot = false := by
      rw [TaskId.isRoot, PackageName.isRoot, decide_eq_false_iff_not]
      intro hname
      exact h id.task (congrArg DependsOn.Specific (congrArg (TaskId.mk · id.task)
        (congrArg PackageName.mk hname)))
    show (TaskId.toString id).toList = _
    rw [TaskId.toString, hroot]
    simp [text]
  | _ => simp [DependsOn.asConfigString, text]

theorem asConfigString_spelledRoot (task : TaskName) :
    (DependsOn.Specific (rootTaskId task)).asConfigString = "#" ++ task.name := rfl

theorem parsed_spelledRoot {task : String} (h : task ≠ "") :
    Parsed (.Specific (rootTaskId ⟨task⟩)) :=
  ⟨(by decide : ROOT_PACKAGE_NAME ≠ ""), h, (by decide : ROOT_PACKAGE_NAME.toList.head? ≠ some '^'),
    (by decide : '#' ∉ ROOT_PACKAGE_NAME.toList)⟩

/-- What is accepted is printed as it was spelled, or spells a root task. -/
theorem printed_cases (h : DependsOn.fromStr s = .ok d) :
    (d.asConfigString = s ∧ ∀ task, s ≠ spelledRoot task) ∨
      ∃ task : String, task ≠ "" ∧ s = spelledRoot task ∧ d = .Specific (rootTaskId ⟨task⟩) := by
  obtain ⟨hd, hs⟩ := fromStr_eq_ok.1 h
  by_cases hroot : ∃ task, d = .Specific (rootTaskId task)
  · obtain ⟨task, rfl⟩ := hroot
    exact .inr ⟨task.name, hd.2.1, string_ext (by rw [hs, toList_spelledRoot]; rfl), rfl⟩
  · rw [not_exists] at hroot
    refine .inl ⟨string_ext ((toList_asConfigString hroot).trans hs.symm), fun task heq => ?_⟩
    have hne : task ≠ "" := by
      rintro rfl
      have hrefused : DependsOn.fromStr (spelledRoot "") =
          .error ⟨"specific dependency must be `package#task`"⟩ := by decide
      rw [heq, hrefused] at h
      contradiction
    have hspelled : DependsOn.fromStr s = .ok (.Specific (rootTaskId ⟨task⟩)) := by
      refine fromStr_eq_ok.2 ⟨parsed_spelledRoot hne, ?_⟩
      rw [heq, toList_spelledRoot]
      rfl
    exact hroot ⟨task⟩ (Except.ok.inj (h.symm.trans hspelled))

theorem fromStr_root {task : String} (h : task ≠ "") :
    DependsOn.fromStr ("#" ++ task) = .ok (.Root ⟨task⟩) :=
  fromStr_eq_ok.2 ⟨h, by simp [text]⟩

/-- A reference is printed as it was spelled and parsed back, unless it spells a root task with the
internal package, which is printed in the syntax of root tasks. Two that print alike are spelled
alike or are these two spellings of one root task, and denote the same tasks in any case. -/
theorem printed_identifies (h : DependsOn.fromStr s = .ok d) :
    ((∀ task, s ≠ spelledRoot task) →
      d.asConfigString = s ∧ DependsOn.fromStr d.asConfigString = .ok d) ∧
    (∀ task, s = spelledRoot task → d.asConfigString = "#" ++ task ∧
      DependsOn.fromStr d.asConfigString = .ok (.Root ⟨task⟩)) ∧
    ∀ s' d', DependsOn.fromStr s' = .ok d' → d'.asConfigString = d.asConfigString →
      (s' = s ∨ ∃ task, s = spelledRoot task ∧ s' = "#" ++ task ∨
        s = "#" ++ task ∧ s' = spelledRoot task) ∧
      ∀ pg source target, Denotes pg source d' target ↔ Denotes pg source d target := by
  rcases printed_cases h with ⟨hprinted, hplain⟩ | ⟨task, hne, rfl, rfl⟩
  · refine ⟨fun _ => ⟨hprinted, hprinted.symm ▸ h⟩, fun task heq => absurd heq (hplain task), ?_⟩
    intro s' d' h' heq
    rcases printed_cases h' with ⟨hprinted', -⟩ | ⟨task, hne, rfl, rfl⟩
    · obtain rfl : s' = s := by rw [← hprinted', heq, hprinted]
      obtain rfl := Except.ok.inj (h'.symm.trans h)
      exact ⟨.inl rfl, fun _ _ _ => Iff.rfl⟩
    · rw [asConfigString_spelledRoot, hprinted] at heq
      rw [← heq, fromStr_root hne] at h
      obtain rfl := Except.ok.inj h
      exact ⟨.inr ⟨task, .inr ⟨heq.symm, rfl⟩⟩, fun _ _ _ => Iff.rfl⟩
  · refine ⟨fun hplain => absurd rfl (hplain task), fun task' heq => ?_, ?_⟩
    · have htask : task' = task := by
        have hlists := congrArg String.toList heq
        rw [toList_spelledRoot, toList_spelledRoot, List.append_cancel_left_eq] at hlists
        exact string_ext (List.tail_eq_of_cons_eq hlists).symm
      rw [htask]
      exact ⟨rfl, fromStr_root hne⟩
    · intro s' d' h' heq
      rcases printed_cases h' with ⟨hprinted', -⟩ | ⟨task', hne', rfl, rfl⟩
      · rw [hprinted', asConfigString_spelledRoot] at heq
        subst heq
        obtain rfl := Except.ok.inj (h'.symm.trans (fromStr_root hne))
        exact ⟨.inr ⟨task, .inl ⟨rfl, rfl⟩⟩, fun _ _ _ => Iff.rfl⟩
      · obtain rfl : task' = task := by
          simpa [asConfigString_spelledRoot] using heq
        exact ⟨.inl rfl, fun _ _ _ => Iff.rfl⟩

theorem printed_identifies_codegen :
    DependsOn.asConfigString (.Specific ⟨⟨"@repo/api"⟩, ⟨"codegen"⟩⟩) = "@repo/api#codegen" :=
  ((printed_identifies (s := "@repo/api#codegen") (by decide)).1 fun task heq => by
    have hhead := congrArg (fun s : String => s.toList.head?) heq
    rw [toList_spelledRoot] at hhead
    change some '@' = some '/' at hhead
    contradiction).1

/-- The internal package is accepted in a text, and is not printed. -/
theorem spelled_root_reprinted :
    DependsOn.fromStr "//root#build" = .ok (.Specific ⟨⟨"//root"⟩, ⟨"build"⟩⟩) ∧
      DependsOn.asConfigString (.Specific ⟨⟨"//root"⟩, ⟨"build"⟩⟩) ≠ "//root#build" ∧
      DependsOn.fromStr (DependsOn.asConfigString (.Specific ⟨⟨"//root"⟩, ⟨"build"⟩⟩)) ≠
        .ok (.Specific ⟨⟨"//root"⟩, ⟨"build"⟩⟩) ∧
      DependsOn.fromStr "#build" = .ok (.Root ⟨"build"⟩) ∧
      DependsOn.asConfigString (.Root ⟨"build"⟩) =
        DependsOn.asConfigString (.Specific ⟨⟨"//root"⟩, ⟨"build"⟩⟩) := by
  decide

end Luchta.Proof.TaskGraph
