import Luchta.Impl.LocalCache

/-!
# Names in the directory of a task

* `tmpPath_inj`: threads write to temporary files of their own.
* `files_plain`: no file is put in place under the name of a temporary file, if no report is named so.
* `files_meta`: the record of a run is its last file, and comes after all reports.
-/

namespace Luchta.Proof.LocalCache

open Luchta.Framework Luchta.Impl

/-- The name is not that of a temporary file. -/
def Plain (name : String) : Prop := endsWithStr name tmpSuffix = false

instance (name : String) : Decidable (Plain name) := inferInstanceAs (Decidable (_ = _))

/-! ## Temporary names -/

theorem toList_tmpPath (name : String) (pid nonce : Nat) : (tmpPath name pid nonce).toList =
    name.toList ++ '.' :: (Nat.toDigits 10 pid ++ '.' :: (Nat.toDigits 10 nonce ++ tmpSuffix.toList)) := by
  simp [tmpPath, tmpSuffix, toString, Nat.repr]

theorem not_plain_tmpPath (name : String) (pid nonce : Nat) : ¬ Plain (tmpPath name pid nonce) := by
  rw [Plain, Bool.not_eq_false, endsWithStr, List.isSuffixOf_iff_suffix, toList_tmpPath]
  exact ⟨name.toList ++ '.' :: (Nat.toDigits 10 pid ++ '.' :: Nat.toDigits 10 nonce), by simp⟩

theorem dot_notMem_toDigits (n : Nat) : '.' ∉ (Nat.toDigits 10 n).reverse := by
  intro h
  have hdigit := Nat.isDigit_of_mem_toDigits (by decide) (by decide) (List.mem_reverse.1 h)
  revert hdigit
  decide

theorem toDigits_inj {m n : Nat} (h : Nat.toDigits 10 m = Nat.toDigits 10 n) : m = n := by
  have hvalue := congrArg (fun l => Nat.ofDigitChars 10 l 0) h
  simpa using hvalue

theorem tmpPath_inj {a b : String} {p q k m : Nat} (h : tmpPath a p k = tmpPath b q m) : p = q ∧ k = m := by
  have hlist := congrArg String.toList h
  rw [toList_tmpPath, toList_tmpPath] at hlist
  -- from the end, where the numbers are the first that come
  have hreverse := congrArg List.reverse hlist
  simp only [List.reverse_append, List.reverse_cons, List.append_assoc, List.append_cancel_left_eq] at hreverse
  obtain ⟨hnonce, hrest⟩ := append_separator_inj (dot_notMem_toDigits k) (dot_notMem_toDigits m) hreverse
  obtain ⟨hpid, -⟩ := append_separator_inj (dot_notMem_toDigits p) (dot_notMem_toDigits q) hrest
  exact ⟨toDigits_inj (List.reverse_injective hpid), toDigits_inj (List.reverse_injective hnonce)⟩

/-! ## What a call puts in place -/

section Files

variable {ρ : Type*} {encode : ρ → Bytes} {artifacts : RunArtifacts ρ} {reports : List ReportInput}
  {f : String × Bytes}

theorem mem_reportFiles (h : f ∈ (reportFiles reports).1) :
    LocalCache.isValidReportFilename f.1 = true ∧ ∃ report ∈ reports, f = (report.filename, utf8 report.content) := by
  induction reports with
  | nil => cases h
  | cons report reports ih =>
    rw [reportFiles] at h
    split at h
    · cases h
    · rename_i hvalid
      rcases List.mem_cons.1 h with rfl | h
      · exact ⟨by simpa using hvalid, report, List.mem_cons_self, rfl⟩
      · obtain ⟨hf, r, hr, heq⟩ := ih h
        exact ⟨hf, r, List.mem_cons_of_mem _ hr, heq⟩

theorem files_plain (hreports : ∀ report ∈ artifacts.reports, Plain report.filename)
    (hf : f ∈ (artifacts.files encode).1) : Plain f.1 := by
  have hreport : ∀ f ∈ (reportFiles artifacts.reports).1, Plain f.1 := fun f hf => by
    obtain ⟨-, report, hmem, rfl⟩ := mem_reportFiles hf
    exact hreports report hmem
  rw [RunArtifacts.files] at hf
  split at hf
  · rename_i files err heq
    exact hreport f (heq ▸ hf)
  · rename_i files heq
    rcases List.mem_append.1 hf with hf | hf
    · exact hreport f (heq ▸ hf)
    · simp only [List.mem_cons, List.not_mem_nil, or_false] at hf
      rcases hf with rfl | rfl | rfl
      · exact (by decide : Plain stdoutFileName)
      · exact (by decide : Plain stderrFileName)
      · exact (by decide : Plain metaFileName)

/-- A call that puts a record in place has put all its other files in place, and returns no error. -/
theorem files_meta {k : Nat} {content : Bytes}
    (h : (artifacts.files encode).1[k]? = some (metaFileName, content)) :
    (artifacts.files encode).2 = none ∧ k + 1 = (artifacts.files encode).1.length ∧
      content = encode artifacts.record := by
  have hreport : ∀ f ∈ (reportFiles artifacts.reports).1, f.1 ≠ metaFileName := fun f hf heq => by
    have hvalid := (mem_reportFiles hf).1
    rw [heq] at hvalid
    revert hvalid
    decide
  rw [RunArtifacts.files] at h ⊢
  split at h
  · rename_i files err heq
    exact absurd rfl (hreport _ (heq ▸ List.mem_of_getElem? h))
  · rename_i files heq
    have hk : files.length ≤ k := by
      by_contra hlt
      rw [List.getElem?_append_left (by omega)] at h
      rw [heq] at hreport
      exact absurd rfl (hreport _ (List.mem_of_getElem? h))
    rw [List.getElem?_append_right hk] at h
    obtain ⟨j, hj⟩ : ∃ j, k = files.length + j := ⟨k - files.length, by omega⟩
    subst hj
    rw [Nat.add_sub_cancel_left] at h
    rcases j with _ | _ | _ | j
    · exact absurd (congrArg Prod.fst (Option.some.inj h)) (by decide : stdoutFileName ≠ metaFileName)
    · exact absurd (congrArg Prod.fst (Option.some.inj h)) (by decide : stderrFileName ≠ metaFileName)
    · exact ⟨rfl, by simp, (congrArg Prod.snd (Option.some.inj h)).symm⟩
    · simp at h

theorem meta_mem_files (h : (artifacts.files encode).2 = none) :
    (metaFileName, encode artifacts.record) ∈ (artifacts.files encode).1 := by
  rw [RunArtifacts.files] at h ⊢
  split at h
  · cases h
  · simp

end Files

end Luchta.Proof.LocalCache
