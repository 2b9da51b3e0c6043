import Luchta.Framework.Globs
import Luchta.Proof.CacheFiles.Accepted

/-!
# The directory that a pattern is listed in

The names that are cut out of the text of a pattern, and the names that a glob reads there.

* `staticPrefix_eq`: which names are cut.
* `total_cut_le`: they have no more characters than the literal text.
* `cut_prefix_iff`: what a pattern matches begins with the names cut out of it just if the literal names
  of the pattern do.
-/

namespace Luchta.Proof.CacheFiles

open Luchta.Framework Luchta.Impl

/-! ## Cut names -/

/-- The pieces between slashes and backslashes. -/
def pieces (pattern : String) : List (List Char) :=
  splitWhen (fun c => c = '/' || c = '\\') pattern.toList

/-- The pieces before the first one with a glob character. -/
def scanned (ps : List (List Char)) : List (List Char) :=
  ps.takeWhile fun piece => !piece.any isGlobMetachar

def isBlank (piece : List Char) : Bool := piece = [] || piece = ['.']

def cut (ps : List (List Char)) : List (List Char) := (scanned ps).filter fun piece => !isBlank piece

/-- No directory is known that the pattern cannot leave. -/
def Unbounded (pattern : String) : Prop :=
  ['.', '.'] ∈ scanned (pieces pattern) ∨
    cut (pieces pattern) = [] ∧ (pieces pattern).any (·.any isGlobMetachar) = true

instance (pattern : String) : Decidable (Unbounded pattern) := inferInstanceAs (Decidable (_ ∨ _))

theorem cut_cons_blank {piece : List Char} (ps : List (List Char)) (h : isBlank piece = true) :
    cut (piece :: ps) = cut ps ∧ (['.', '.'] ∈ scanned (piece :: ps) ↔ ['.', '.'] ∈ scanned ps) := by
  have hplain : piece.any isGlobMetachar = false := by
    rcases Bool.or_eq_true_iff.1 h with h | h <;> rw [of_decide_eq_true h] <;> decide
  have hdots : ['.', '.'] ≠ piece := by
    rintro rfl
    cases h
  rw [cut, cut, scanned, scanned, List.takeWhile_cons, hplain]
  exact ⟨List.filter_cons_of_neg (by rw [h]; decide), List.mem_cons.trans (or_iff_right hdots)⟩

theorem cut_cons_name {piece : List Char} {ps : List (List Char)} (hblank : isBlank piece = false)
    (hplain : piece.any isGlobMetachar = false) : cut (piece :: ps) = piece :: cut ps := by
  rw [cut, cut, scanned, scanned, List.takeWhile_cons, hplain]
  exact List.filter_cons_of_pos (by rw [hblank]; decide)

theorem scanned_cons_plain {piece : List Char} {ps : List (List Char)}
    (hplain : piece.any isGlobMetachar = false) : scanned (piece :: ps) = piece :: scanned ps := by
  rw [scanned, scanned, List.takeWhile_cons, hplain]
  rfl

theorem scanned_cons_meta {piece : List Char} {ps : List (List Char)}
    (hmeta : piece.any isGlobMetachar = true) : scanned (piece :: ps) = [] := by
  rw [scanned, List.takeWhile_cons, hmeta]
  rfl

theorem staticPrefixFrom_eq (ps : List (List Char)) (names : List String) :
    staticPrefixFrom names ps =
      if ['.', '.'] ∈ scanned ps ∨ (names = [] ∧ cut ps = []) ∧ ps.any (·.any isGlobMetachar) = true then none
      else some (names ++ (cut ps).map String.ofList) := by
  induction ps generalizing names with
  | nil => simp [staticPrefixFrom, scanned, cut]
  | cons piece ps ih =>
    rw [staticPrefixFrom]
    by_cases hblank : isBlank piece = true
    · have hempty : piece = [] ∨ piece = ['.'] := by simpa [isBlank] using hblank
      have hplain : piece.any isGlobMetachar = false := by
        rcases hempty with rfl | rfl <;> decide
      obtain ⟨hcut, hdots⟩ := cut_cons_blank ps hblank
      rw [if_pos hempty, ih, hcut, List.any_cons, hplain, Bool.false_or]
      simp only [hdots]
    · rw [Bool.not_eq_true] at hblank
      have hempty : ¬ (piece = [] ∨ piece = ['.']) := by simpa [isBlank] using hblank
      rw [if_neg hempty]
      by_cases hdots : piece = ['.', '.']
      · have hin : ['.', '.'] ∈ scanned (piece :: ps) := by
          rw [hdots, scanned_cons_plain (by decide)]
          exact List.mem_cons_self
        rw [if_pos hdots, if_pos (.inl hin)]
      · rw [if_neg hdots]
        by_cases hmeta : piece.any isGlobMetachar = true
        · have hcut : cut (piece :: ps) = [] := by rw [cut, scanned_cons_meta hmeta, List.filter_nil]
          rw [if_pos hmeta, hcut, scanned_cons_meta hmeta, List.any_cons, hmeta]
          by_cases hnames : names = [] <;> simp [hnames]
        · rw [if_neg hmeta]
          rw [Bool.not_eq_true] at hmeta
          have hin : ['.', '.'] ∈ scanned (piece :: ps) ↔ ['.', '.'] ∈ scanned ps := by
            rw [scanned_cons_plain hmeta, List.mem_cons, or_iff_right (Ne.symm hdots)]
          rw [ih, cut_cons_name hblank hmeta, List.any_cons, hmeta]
          simp [hin]

theorem staticPrefix_eq (pattern : String) : staticPrefix pattern =
    if Unbounded pattern then none
    else some ⟨(cut (pieces pattern)).map fun name => .normal (String.ofList name)⟩ := by
  have hiff : ['.', '.'] ∈ scanned (pieces pattern) ∨ (([] : List String) = [] ∧ cut (pieces pattern) = []) ∧
      (pieces pattern).any (·.any isGlobMetachar) = true ↔ Unbounded pattern := by
    rw [Unbounded, eq_self_iff_true, true_and]
  show (staticPrefixFrom [] (pieces pattern)).map _ = _
  rw [staticPrefixFrom_eq]
  by_cases hunbounded : Unbounded pattern
  · rw [if_pos (hiff.2 hunbounded), if_pos hunbounded]
    rfl
  · rw [if_neg (mt hiff.1 hunbounded), if_neg hunbounded, List.nil_append, Option.map_some, List.map_map]
    rfl

/-! ## Characters -/

def total (l : List (List Char)) : Nat := (l.map List.length).sum

theorem total_cons (piece : List Char) (ps : List (List Char)) :
    total (piece :: ps) = piece.length + total ps := by
  simp [total]

theorem total_append (l l' : List (List Char)) : total (l ++ l') = total l + total l' := by
  simp [total]

theorem total_filter_le (f : List Char → Bool) (l : List (List Char)) : total (l.filter f) ≤ total l := by
  induction l with
  | nil => exact Nat.le_refl _
  | cons piece l ih =>
    rw [List.filter_cons, total_cons]
    split
    · rw [total_cons]
      omega
    · omega

/-- The pieces of a component. -/
def escapePieces (component : List Char) : List (List Char) := splitWhen (fun c => c = '\\') component

theorem splitWhen_ne_nil (sep : Char → Bool) (chars : List Char) : splitWhen sep chars ≠ [] := by
  cases chars with
  | nil => exact List.cons_ne_nil _ _
  | cons c cs =>
    rw [splitWhen]
    split
    · exact List.cons_ne_nil _ _
    · split <;> exact List.cons_ne_nil _ _

theorem escapePieces_escape (cs : List Char) : escapePieces ('\\' :: cs) = [] :: escapePieces cs := by
  rw [escapePieces, splitWhen, if_pos (by decide)]
  rfl

/-- A character belongs to the first piece of what comes after it. -/
theorem escapePieces_plain {c : Char} (hc : c ≠ '\\') (cs : List Char) : ∃ p ps,
    escapePieces cs = p :: ps ∧ escapePieces (c :: cs) = (c :: p) :: ps := by
  obtain ⟨p, ps, hps⟩ := List.exists_cons_of_ne_nil (splitWhen_ne_nil (fun c => c = '\\') cs)
  refine ⟨p, ps, hps, ?_⟩
  rw [escapePieces, splitWhen, if_neg (by simpa using hc), hps]

theorem pieces_eq (pattern : String) : pieces pattern = (splitSlash pattern.toList).flatMap escapePieces := by
  rw [pieces]
  induction pattern.toList with
  | nil => rfl
  | cons c cs ih =>
    obtain ⟨part, parts, hparts⟩ := List.exists_cons_of_ne_nil (splitSlash_ne_nil cs)
    rw [splitWhen, splitSlash, ih, hparts]
    by_cases hslash : c = '/'
    · rw [hslash, if_pos (by decide), if_pos rfl]
      rfl
    · rw [if_neg hslash]
      by_cases hescape : c = '\\'
      · rw [hescape, if_pos (by decide)]
        show _ = escapePieces ('\\' :: part) ++ _
        rw [escapePieces_escape]
        rfl
      · obtain ⟨p, ps, hps, hcons⟩ := escapePieces_plain hescape part
        rw [if_neg (by simp [hslash, hescape])]
        show _ = escapePieces (c :: part) ++ _
        rw [hcons, List.flatMap_cons, hps]
        rfl

theorem wildcard_isGlobMetachar {c : Char} (h : c ∈ wildcards) : isGlobMetachar c = true := by
  simp only [wildcards, List.mem_cons, List.not_mem_nil, or_false] at h
  rcases h with rfl | rfl | rfl | rfl <;> decide

/-- What one more character before the component adds to the scanned pieces. -/
theorem total_scanned_cons (c : Char) (cs : List Char) :
    total (scanned (escapePieces (c :: cs))) ≤ 1 + total (scanned (escapePieces cs)) ∧
      (isGlobMetachar c = true → total (scanned (escapePieces (c :: cs))) = 0) := by
  by_cases hescape : c = '\\'
  · rw [hescape, escapePieces_escape, scanned_cons_plain (by decide), total_cons]
    refine ⟨?_, fun h => absurd h (by decide)⟩
    simp only [List.length_nil]
    omega
  · obtain ⟨p, ps, hps, hcons⟩ := escapePieces_plain hescape cs
    rw [hps, hcons]
    by_cases hmeta : (c :: p).any isGlobMetachar = true
    · rw [scanned_cons_meta hmeta]
      exact ⟨Nat.zero_le _, fun _ => rfl⟩
    · rw [Bool.not_eq_true] at hmeta
      have hp := hmeta
      rw [List.any_cons, Bool.or_eq_false_iff] at hp
      rw [scanned_cons_plain hmeta, scanned_cons_plain hp.2, total_cons, total_cons, List.length_cons, hp.1]
      refine ⟨?_, nofun⟩
      omega

theorem total_scanned_le (component : List Char) :
    total (scanned (escapePieces component)) ≤ (literalHead component).length := by
  induction component using literalHead.induct with
  | case1 => decide
  | case2 => decide
  | case3 c cs ih =>
    have hcons := (total_scanned_cons c cs).1
    rw [escapePieces_escape, scanned_cons_plain (by decide), total_cons, literalHead, List.length_cons]
    simp only [List.length_nil]
    omega
  | case4 c cs h1 h2 hmeta =>
    rw [(total_scanned_cons c cs).2 (wildcard_isGlobMetachar hmeta)]
    exact Nat.zero_le _
  | case5 c cs h1 h2 hmeta ih =>
    have hcons := (total_scanned_cons c cs).1
    rw [literalHead.eq_4 _ _ h1 h2, if_neg hmeta, List.length_cons]
    omega

/-- Before a wildcard in a later piece there is some literal text. -/
theorem literalHead_ne_nil {component p : List Char} {ps : List (List Char)}
    (h : literalSegment component = none) (hps : escapePieces component = p :: ps)
    (hplain : p.any isGlobMetachar = false) : literalHead component ≠ [] := by
  induction component using literalHead.induct with
  | case1 => cases h
  | case2 => cases h
  | case3 c cs ih => exact List.cons_ne_nil _ _
  | case4 c cs h1 h2 hmeta =>
    have hescape : c ≠ '\\' := by
      rintro rfl
      revert hmeta
      decide
    obtain ⟨q, qs, -, hcons⟩ := escapePieces_plain hescape cs
    obtain ⟨rfl, -⟩ := List.cons.inj (hps.symm.trans hcons)
    rw [List.any_cons, wildcard_isGlobMetachar hmeta] at hplain
    cases hplain
  | case5 c cs h1 h2 hmeta ih =>
    rw [literalHead.eq_4 _ _ h1 h2, if_neg hmeta]
    exact List.cons_ne_nil _ _

theorem total_scanned_step {cs : List Char} (h : literalSegment cs = none)
    (hlt : total (scanned (escapePieces cs)) = 0 ∨
      total (scanned (escapePieces cs)) < (literalHead cs).length) (c : Char) :
    total (scanned (escapePieces (c :: cs))) = 0 ∨
      total (scanned (escapePieces (c :: cs))) < (literalHead cs).length + 1 := by
  by_cases hescape : c = '\\'
  · rw [hescape, escapePieces_escape, scanned_cons_plain (by decide), total_cons, List.length_nil]
    omega
  · obtain ⟨p, ps, hps, hcons⟩ := escapePieces_plain hescape cs
    by_cases hmeta : (c :: p).any isGlobMetachar = true
    · rw [hcons, scanned_cons_meta hmeta]
      exact .inl rfl
    · rw [Bool.not_eq_true, List.any_cons, Bool.or_eq_false_iff] at hmeta
      have hhead := List.length_pos_iff.2 (literalHead_ne_nil h hps hmeta.2)
      have hle := (total_scanned_cons c cs).1
      omega

/-- Before a wildcard, the pieces are shorter than the literal text, unless there are none. -/
theorem total_scanned_lt {component : List Char} (h : literalSegment component = none) :
    total (scanned (escapePieces component)) = 0 ∨
      total (scanned (escapePieces component)) < (literalHead component).length := by
  induction component using literalSegment.induct with
  | case1 => cases h
  | case2 => cases h
  | case3 c cs ih =>
    rw [literalSegment, Option.map_eq_none_iff] at h
    rw [escapePieces_escape, scanned_cons_plain (by decide), total_cons, literalHead, List.length_cons,
      List.length_nil, Nat.zero_add]
    exact total_scanned_step h (ih h) c
  | case4 c cs h1 h2 hmeta =>
    exact .inl ((total_scanned_cons c cs).2 (wildcard_isGlobMetachar hmeta))
  | case5 c cs h1 h2 hmeta ih =>
    rw [literalSegment.eq_4 _ _ h1 h2, if_neg hmeta, Option.map_eq_none_iff] at h
    rw [literalHead.eq_4 _ _ h1 h2, if_neg hmeta, List.length_cons]
    exact total_scanned_step h (ih h) c

theorem exists_mem_escapePieces {c : Char} (hc : c ≠ '\\') {component : List Char} (h : c ∈ component) :
    ∃ piece ∈ escapePieces component, c ∈ piece := by
  induction component with
  | nil => cases h
  | cons d cs ih =>
    by_cases hescape : d = '\\'
    · rw [hescape] at h ⊢
      obtain ⟨piece, hpiece, hin⟩ := ih ((List.mem_cons.1 h).resolve_left hc)
      exact ⟨piece, by rw [escapePieces_escape]; exact List.mem_cons_of_mem _ hpiece, hin⟩
    · obtain ⟨p, ps, hps, hcons⟩ := escapePieces_plain hescape cs
      rw [hcons]
      rcases List.mem_cons.1 h with rfl | h
      · exact ⟨_, List.mem_cons_self, List.mem_cons_self⟩
      · obtain ⟨piece, hpiece, hin⟩ := ih h
        rw [hps] at hpiece
        rcases List.mem_cons.1 hpiece with rfl | hpiece
        · exact ⟨_, List.mem_cons_self, List.mem_cons_of_mem _ hin⟩
        · exact ⟨piece, List.mem_cons_of_mem _ hpiece, hin⟩

/-- The scan stops in a component with a wildcard. -/
theorem escapePieces_any {component : List Char} (h : literalSegment component = none) :
    (escapePieces component).any (·.any isGlobMetachar) = true := by
  by_contra hnone
  have hplain : ∀ c ∈ component, c ∉ wildcards := by
    intro c hc hmeta
    have hescape : c ≠ '\\' := by
      rintro rfl
      revert hmeta
      decide
    obtain ⟨piece, hpiece, hin⟩ := exists_mem_escapePieces hescape hc
    exact hnone (List.any_eq_true.2 ⟨piece, hpiece, List.any_eq_true.2 ⟨c, hin, wildcard_isGlobMetachar hmeta⟩⟩)
  obtain ⟨text, htext, -⟩ := literalSegment_of_plain hplain
  rw [h] at htext
  cases htext

/-! ## Prefixes of what matches -/

theorem scanned_append_meta {ps : List (List Char)} (h : ps.any (·.any isGlobMetachar) = true)
    (qs : List (List Char)) : scanned (ps ++ qs) = scanned ps := by
  induction ps with
  | nil => cases h
  | cons p ps ih =>
    rw [List.cons_append]
    by_cases hmeta : p.any isGlobMetachar = true
    · rw [scanned_cons_meta hmeta, scanned_cons_meta hmeta]
    · rw [Bool.not_eq_true] at hmeta
      rw [List.any_cons, hmeta, Bool.false_or] at h
      rw [scanned_cons_plain hmeta, scanned_cons_plain hmeta, ih h]

theorem total_cut_append_le (ps qs : List (List Char)) :
    total (cut (ps ++ qs)) ≤ total (scanned ps) + total (cut qs) := by
  induction ps with
  | nil => exact Nat.le_add_left _ _
  | cons p ps ih =>
    rw [List.cons_append]
    by_cases hmeta : p.any isGlobMetachar = true
    · rw [cut, scanned_cons_meta hmeta]
      exact Nat.zero_le _
    · rw [Bool.not_eq_true] at hmeta
      rw [scanned_cons_plain hmeta, total_cons]
      by_cases hblank : isBlank p = true
      · rw [(cut_cons_blank _ hblank).1]
        omega
      · rw [Bool.not_eq_true] at hblank
        rw [cut_cons_name hblank hmeta, total_cons]
        omega

/-- The cut names have no more characters than the literal names, or fewer than these with the name after
them. -/
theorem total_cut_le {segments names rest : List (List Char)} (h : StartsLiterally segments names)
    (hrest : names = literalSegments segments ++ rest) :
    total (cut (segments.flatMap escapePieces)) ≤ total (literalSegments segments) ∨
      ∃ name rest', rest = name :: rest' ∧
        total (cut (segments.flatMap escapePieces)) < total (literalSegments segments) + name.length := by
  induction segments generalizing names with
  | nil => exact .inl (Nat.le_refl _)
  | cons segment segments ih =>
    rw [StartsLiterally] at h
    rw [literalSegments] at hrest ⊢
    rw [List.flatMap_cons]
    cases hliteral : literalSegment segment with
    | some text =>
      rw [hliteral] at h hrest
      obtain ⟨names', rfl, hstarts⟩ := h
      have hle := total_cut_append_le (escapePieces segment) (segments.flatMap escapePieces)
      have hsegment := total_scanned_le segment
      rw [literalHead_of_literal hliteral] at hsegment
      show _ ≤ total (text :: literalSegments segments) ∨ ∃ name rest', rest = name :: rest' ∧
        _ < total (text :: literalSegments segments) + _
      rw [total_cons]
      rcases ih hstarts (List.cons.inj hrest).2 with h | ⟨name, rest', hname, h⟩
      · left
        omega
      · exact .inr ⟨name, rest', hname, by omega⟩
    | none =>
      rw [hliteral] at h hrest
      have hcut : total (cut (escapePieces segment ++ segments.flatMap escapePieces)) ≤
          total (scanned (escapePieces segment)) := by
        rw [cut, scanned_append_meta (escapePieces_any hliteral)]
        exact total_filter_le _ _
      rcases total_scanned_lt hliteral with hzero | hlt
      · left
        omega
      · rcases h with hnil | ⟨name, rest', rfl, hhead⟩
        · rw [hnil] at hlt
          cases hlt
        · refine .inr ⟨name, rest', hrest.symm, ?_⟩
          have hlength := hhead.length_le
          show _ < 0 + name.length
          omega

/-- What a pattern matches begins with the cut names just if its literal names do. -/
theorem cut_prefix_iff {segments names : List (List Char)} (h : StartsLiterally segments names)
    (hnames : ∀ name ∈ names, name ≠ []) : cut (segments.flatMap escapePieces) <+: names ↔
      cut (segments.flatMap escapePieces) <+: literalSegments segments := by
  have hliteral := h.literalSegments
  refine ⟨fun hcut => ?_, fun hcut => hcut.trans hliteral⟩
  rcases List.prefix_or_prefix_of_prefix hcut hliteral with hle | ⟨more, hmore⟩
  · exact hle
  · rw [← hmore] at hcut ⊢
    cases more with
    | nil => rw [List.append_nil]
    | cons name more =>
      obtain ⟨rest, hrest⟩ := hcut
      rw [List.append_assoc, List.cons_append] at hrest
      have hpos := List.length_pos_iff.2 (hnames name (by rw [← hrest]; simp))
      have htotal : total (cut (segments.flatMap escapePieces)) =
          total (literalSegments segments) + (name.length + total more) := by
        rw [← hmore, total_append, total_cons]
      rcases total_cut_le h hrest.symm with hle | ⟨name', rest', heq, hlt⟩
      · omega
      · obtain ⟨rfl, -⟩ := List.cons.inj heq
        omega

end Luchta.Proof.CacheFiles
