import Luchta.Framework.PathText

/-!
# Path globs

Globs whose wildcards stay between slashes, as far as they are needed without classes and alternatives:
`*` and `?` match within a name, a whole segment `**` any number of names, and a backslash takes the
character after it literally, even a slash.

* `literalSegments`: the names that a pattern begins with.
* `literalSegment_of_plain`: a segment without wildcards has a text, shorter than itself if it has escapes.
* `matchSegments_literal`: what matches the pattern begins with them.
-/

namespace Luchta.Framework

def wildcards : List Char := ['*', '?', '[', '\x7b']

/-- The text of a segment without wildcards, its escapes resolved. -/
def literalSegment : List Char → Option (List Char)
  | [] => some []
  -- what is escaped is the slash after the segment
  | ['\\'] => some []
  | '\\' :: c :: cs => (literalSegment cs).map (c :: ·)
  | c :: cs => if c ∈ wildcards then none else (literalSegment cs).map (c :: ·)

/-- The text of a segment up to its first wildcard. -/
def literalHead : List Char → List Char
  | [] => []
  | ['\\'] => []
  | '\\' :: c :: cs => c :: literalHead cs
  | c :: cs => if c ∈ wildcards then [] else c :: literalHead cs

/-- The texts of the segments before the first one with a wildcard. -/
def literalSegments : List (List Char) → List (List Char)
  | [] => []
  | segment :: segments =>
    match literalSegment segment with
    | some text => text :: literalSegments segments
    | none => []

/-- The names begin with the literal segments, and then a name with the text of the next segment up to
its first wildcard, if there is any. -/
def StartsLiterally : List (List Char) → List (List Char) → Prop
  | [], _ => True
  | segment :: segments, names =>
    match literalSegment segment with
    | some text => ∃ rest, names = text :: rest ∧ StartsLiterally segments rest
    | none => literalHead segment = [] ∨ ∃ name rest, names = name :: rest ∧ literalHead segment <+: name

def matchSegment : List Char → List Char → Bool
  | [], text => text.isEmpty
  | ['\\'], text => text.isEmpty
  | '\\' :: c :: segment, text => text.head? = some c && matchSegment segment text.tail
  | '*' :: segment, text => text.tails.any (matchSegment segment)
  | '?' :: segment, text => !text.isEmpty && matchSegment segment text.tail
  | c :: segment, text => text.head? = some c && matchSegment segment text.tail

/-- A last `**` matches at least one name, the others any number of them. -/
def matchSegments : List (List Char) → List (List Char) → Bool
  | [], names => names.isEmpty
  | segment :: segments, names =>
    if segment = ['*', '*'] then
      if segments = [] then !names.isEmpty else names.tails.any (matchSegments segments)
    else
      match names with
      | [] => false
      | name :: names => matchSegment segment name && matchSegments segments names

/-- The match of a pattern with the text of a path. -/
def globText (pattern text : String) : Bool :=
  matchSegments (splitSlash pattern.toList) (splitSlash text.toList)

/-- A segment without wildcards has a text, and escapes make it shorter than the segment. -/
theorem literalSegment_of_plain {segment : List Char} (h : ∀ c ∈ segment, c ∉ wildcards) :
    ∃ text, literalSegment segment = some text ∧ text.length ≤ segment.length ∧
      ('\\' ∉ segment → text = segment) ∧ ('\\' ∈ segment → text.length < segment.length) := by
  induction segment using literalSegment.induct with
  | case1 => exact ⟨[], rfl, Nat.le_refl _, fun _ => rfl, nofun⟩
  | case2 => exact ⟨[], rfl, Nat.zero_le _, fun hnot => absurd List.mem_cons_self hnot, fun _ => Nat.zero_lt_one⟩
  | case3 c cs ih =>
    obtain ⟨text, htext, hle, -, -⟩ :=
      ih fun d hd => h d (List.mem_cons_of_mem _ (List.mem_cons_of_mem _ hd))
    refine ⟨c :: text, ?_, ?_, fun hnot => absurd List.mem_cons_self hnot, fun _ => ?_⟩
    · rw [literalSegment, htext, Option.map_some]
    · simp only [List.length_cons]
      omega
    · simp only [List.length_cons]
      omega
  | case4 c cs h1 h2 hmeta => exact absurd hmeta (h c List.mem_cons_self)
  | case5 c cs h1 h2 hmeta ih =>
    obtain ⟨text, htext, hle, hplain, hescaped⟩ := ih fun d hd => h d (List.mem_cons_of_mem _ hd)
    have hne : c ≠ '\\' := by
      rintro rfl
      cases cs with
      | nil => exact h1 rfl rfl
      | cons d cs => exact h2 d cs rfl rfl
    refine ⟨c :: text, ?_, Nat.succ_le_succ hle, fun hnot => ?_, fun hmem => ?_⟩
    · rw [literalSegment.eq_4 _ _ h1 h2, if_neg hmeta, htext, Option.map_some]
    · rw [hplain fun hin => hnot (List.mem_cons_of_mem _ hin)]
    · exact Nat.succ_lt_succ (hescaped ((List.mem_cons.1 hmem).resolve_left hne.symm))

theorem head_tail_eq {text rest : List Char} {c : Char} (hhead : text.head? = some c)
    (htail : text.tail = rest) : text = c :: rest := by
  rw [← htail, List.cons_head?_tail hhead]

theorem matchSegment_literal {segment literal text : List Char} (h : literalSegment segment = some literal)
    (hmatch : matchSegment segment text = true) : text = literal := by
  induction segment, text using matchSegment.induct generalizing literal with
  | case1 text =>
    obtain rfl := Option.some.inj h
    exact List.isEmpty_iff.1 hmatch
  | case2 text =>
    obtain rfl := Option.some.inj h
    exact List.isEmpty_iff.1 hmatch
  | case3 text c segment ih =>
    obtain ⟨rest, hrest, rfl⟩ := Option.map_eq_some_iff.1 h
    rw [matchSegment, Bool.and_eq_true] at hmatch
    exact head_tail_eq (of_decide_eq_true hmatch.1) (ih hrest hmatch.2)
  | case4 text segment => cases h
  | case5 text segment ih => cases h
  | case6 text c segment h1 h2 h3 h4 ih =>
    rw [literalSegment.eq_4 _ _ h1 h2] at h
    split at h
    · cases h
    · obtain ⟨rest, hrest, rfl⟩ := Option.map_eq_some_iff.1 h
      rw [matchSegment.eq_6 _ _ _ h1 h2 h3 h4, Bool.and_eq_true] at hmatch
      exact head_tail_eq (of_decide_eq_true hmatch.1) (ih hrest hmatch.2)

theorem literalHead_of_literal {segment text : List Char} (h : literalSegment segment = some text) :
    literalHead segment = text := by
  induction segment using literalSegment.induct generalizing text with
  | case1 => exact Option.some.inj h
  | case2 => exact Option.some.inj h
  | case3 c cs ih =>
    obtain ⟨rest, hrest, rfl⟩ := Option.map_eq_some_iff.1 h
    rw [literalHead, ih hrest]
  | case4 c cs h1 h2 hmeta =>
    rw [literalSegment.eq_4 _ _ h1 h2, if_pos hmeta] at h
    cases h
  | case5 c cs h1 h2 hmeta ih =>
    rw [literalSegment.eq_4 _ _ h1 h2, if_neg hmeta] at h
    obtain ⟨rest, hrest, rfl⟩ := Option.map_eq_some_iff.1 h
    rw [literalHead.eq_4 _ _ h1 h2, if_neg hmeta, ih hrest]

theorem matchSegment_head {segment text : List Char} (hmatch : matchSegment segment text = true) :
    literalHead segment <+: text := by
  induction segment, text using matchSegment.induct with
  | case1 text => exact List.nil_prefix
  | case2 text => exact List.nil_prefix
  | case3 text c segment ih =>
    rw [matchSegment, Bool.and_eq_true] at hmatch
    rw [literalHead, head_tail_eq (of_decide_eq_true hmatch.1) rfl]
    exact List.cons_prefix_cons.2 ⟨rfl, ih hmatch.2⟩
  | case4 text segment => exact List.nil_prefix
  | case5 text segment ih => exact List.nil_prefix
  | case6 text c segment h1 h2 h3 h4 ih =>
    rw [literalHead.eq_4 _ _ h1 h2]
    split
    · exact List.nil_prefix
    · rw [matchSegment.eq_6 _ _ _ h1 h2 h3 h4, Bool.and_eq_true] at hmatch
      rw [head_tail_eq (of_decide_eq_true hmatch.1) rfl]
      exact List.cons_prefix_cons.2 ⟨rfl, ih hmatch.2⟩

theorem matchSegments_startsLiterally {segments names : List (List Char)}
    (hmatch : matchSegments segments names = true) : StartsLiterally segments names := by
  induction segments generalizing names with
  | nil => trivial
  | cons segment segments ih =>
    rw [StartsLiterally]
    by_cases hstars : segment = ['*', '*']
    · rw [hstars]
      exact .inl rfl
    · unfold matchSegments at hmatch
      rw [if_neg hstars] at hmatch
      match names with
      | [] => cases hmatch
      | name :: names =>
        obtain ⟨hname, hnames⟩ := Bool.and_eq_true_iff.1 hmatch
        cases hliteral : literalSegment segment with
        | none => exact .inr ⟨name, names, rfl, matchSegment_head hname⟩
        | some literal =>
          rw [matchSegment_literal hliteral hname]
          exact ⟨names, rfl, ih hnames⟩

theorem StartsLiterally.literalSegments {segments names : List (List Char)}
    (h : StartsLiterally segments names) : literalSegments segments <+: names := by
  induction segments generalizing names with
  | nil => exact List.nil_prefix
  | cons segment segments ih =>
    rw [StartsLiterally] at h
    rw [Framework.literalSegments]
    cases hliteral : literalSegment segment with
    | none => exact List.nil_prefix
    | some text =>
      rw [hliteral] at h
      obtain ⟨rest, rfl, hrest⟩ := h
      exact List.cons_prefix_cons.2 ⟨rfl, ih hrest⟩

/-- What matches begins with the literal names. -/
theorem matchSegments_literal {segments names : List (List Char)}
    (hmatch : matchSegments segments names = true) : literalSegments segments <+: names :=
  (matchSegments_startsLiterally hmatch).literalSegments

end Luchta.Framework
