import Luchta.Framework.Path

/-!
# Path text

Paths read from text and written as text. A path of parent and name components survives being
written and read again.

* `ofStr_shape`: a root or a dot can only come first.
* `ofStr_toStr`, `toStr_injOn`: relative paths and their texts.
* `pushText_toStr`: the text of a path below another one.
-/

namespace Luchta.Framework

/-! ## Reading -/

/-- The parts between the slashes. -/
def splitSlash : List Char → List (List Char)
  | [] => [[]]
  | c :: cs =>
    if c = '/' then [] :: splitSlash cs
    else
      match splitSlash cs with
      | [] => [[c]]
      | part :: parts => (c :: part) :: parts

/-- Empty parts and dots name nothing. -/
def Component.ofPart (part : List Char) : Option Component :=
  if part = [] ∨ part = ['.'] then none
  else if part = ['.', '.'] then some .parentDir
  else some (.normal (String.ofList part))

/-- `Path::new(s).components()`: a dot counts only where a relative path begins with it. -/
def Path.ofStr (s : String) : Path where
  components :=
    match s.toList with
    | '/' :: rest => .rootDir :: (splitSlash rest).filterMap Component.ofPart
    | chars =>
      match splitSlash chars with
      | ['.'] :: parts => .curDir :: parts.filterMap Component.ofPart
      | parts => parts.filterMap Component.ofPart

theorem rootDir_not_mem_parts (parts : List (List Char)) :
    .rootDir ∉ parts.filterMap Component.ofPart := by
  rw [List.mem_filterMap]
  rintro ⟨part, -, h⟩
  unfold Component.ofPart at h
  split at h
  · contradiction
  · split at h <;> cases h

/-- A root or a dot can only come first. -/
theorem ofStr_shape (s : String) : ∃ parts : List (List Char), (Path.ofStr s).components =
      .rootDir :: parts.filterMap Component.ofPart ∨
    (Path.ofStr s).components = .curDir :: parts.filterMap Component.ofPart ∨
    (Path.ofStr s).components = parts.filterMap Component.ofPart := by
  unfold Path.ofStr
  split
  · exact ⟨_, .inl rfl⟩
  · split
    · exact ⟨_, .inr (.inl rfl)⟩
    · exact ⟨_, .inr (.inr rfl)⟩

theorem rootDir_not_mem_ofStr {s : String} (h : (Path.ofStr s).isAbsolute = false) :
    .rootDir ∉ (Path.ofStr s).components := by
  obtain ⟨parts, hroot | hcur | hparts⟩ := ofStr_shape s
  · simp [Path.isAbsolute, hroot] at h
  · rw [hcur, List.mem_cons, not_or]
    exact ⟨by simp, rootDir_not_mem_parts parts⟩
  · rw [hparts]
    exact rootDir_not_mem_parts parts

theorem ofStr_of_absolute {s : String} (h : (Path.ofStr s).isAbsolute = true) :
    ∃ rest, (Path.ofStr s).components = .rootDir :: rest ∧ .rootDir ∉ rest := by
  obtain ⟨parts, hroot | hcur | hparts⟩ := ofStr_shape s
  · exact ⟨_, hroot, rootDir_not_mem_parts parts⟩
  · simp [Path.isAbsolute, hcur] at h
  · have hhead : (Path.ofStr s).components.head? = some .rootDir := by
      simpa [Path.isAbsolute] using h
    rw [hparts] at hhead
    exact absurd (List.mem_of_mem_head? hhead) (rootDir_not_mem_parts parts)

/-! ## Writing -/

/-- What a file may be called. -/
structure FileName where
  name : String
  valid : name ≠ "" ∧ name ≠ "." ∧ name ≠ ".." ∧ '/' ∉ name.toList
  deriving DecidableEq

def FileName.component (n : FileName) : Component := .normal n.name

/-- What may stand below the start of a path. -/
inductive Component.Proper : Component → Prop
  | parentDir : Proper .parentDir
  | normal (n : FileName) : Proper n.component

/-- The path below some place to a file that is there. -/
def Path.ofNames (names : List FileName) : Path := ⟨names.map FileName.component⟩

def joinSlash : List (List Char) → List Char
  | [] => []
  | [part] => part
  | part :: parts => part ++ '/' :: joinSlash parts

def Component.parts (l : List Component) : List (List Char) := l.map fun c => c.name.toList

/-- The text of a path, with one slash between its components. -/
def Path.toStr (p : Path) : String :=
  match p.components with
  | .rootDir :: rest => String.ofList ('/' :: joinSlash (Component.parts rest))
  | l => String.ofList (joinSlash (Component.parts l))

/-- `PathBuf::push`, on the texts. -/
def pushText (base path : String) : String :=
  if path.toList.head? = some '/' then path
  else if base = "" ∨ base.toList.getLast? = some '/' then base ++ path
  else base ++ "/" ++ path

attribute [local simp] splitSlash joinSlash

theorem splitSlash_ne_nil (chars : List Char) : splitSlash chars ≠ [] := by
  cases chars with
  | nil => exact List.cons_ne_nil _ _
  | cons c cs =>
    rw [splitSlash]
    split
    · exact List.cons_ne_nil _ _
    · split <;> exact List.cons_ne_nil _ _

/-- What was split can be joined again. -/
theorem joinSlash_splitSlash (chars : List Char) : joinSlash (splitSlash chars) = chars := by
  induction chars with
  | nil => rfl
  | cons c cs ih =>
    obtain ⟨part, parts, hparts⟩ := List.exists_cons_of_ne_nil (splitSlash_ne_nil cs)
    rw [splitSlash]
    rw [hparts] at ih ⊢
    split
    · rename_i hc
      rw [hc, ← ih]
      rfl
    · rw [← ih]
      cases parts <;> rfl

theorem splitSlash_append {part : List Char} (hpart : '/' ∉ part) (rest : List Char) :
    splitSlash (part ++ '/' :: rest) = part :: splitSlash rest := by
  induction part with
  | nil => simp
  | cons c part ih =>
    rw [List.mem_cons, not_or] at hpart
    rw [List.cons_append, splitSlash, if_neg (Ne.symm hpart.1), ih hpart.2]

theorem splitSlash_of_not_mem {part : List Char} (hpart : '/' ∉ part) : splitSlash part = [part] := by
  induction part with
  | nil => rfl
  | cons c part ih =>
    rw [List.mem_cons, not_or] at hpart
    rw [splitSlash, if_neg (Ne.symm hpart.1), ih hpart.2]

/-- What was joined can be split again. -/
theorem splitSlash_joinSlash {parts : List (List Char)} (hne : parts ≠ [])
    (h : ∀ part ∈ parts, '/' ∉ part) : splitSlash (joinSlash parts) = parts := by
  induction parts with
  | nil => contradiction
  | cons part parts ih =>
    have hpart := h part List.mem_cons_self
    cases parts with
    | nil => exact splitSlash_of_not_mem hpart
    | cons part' parts =>
      rw [joinSlash, splitSlash_append hpart,
        ih (List.cons_ne_nil _ _) fun p hp => h p (List.mem_cons_of_mem _ hp)]
      exact List.cons_ne_nil _ _

theorem splitSlash_joinSlash_append {parts : List (List Char)} (hne : parts ≠ [])
    (h : ∀ part ∈ parts, '/' ∉ part) (rest : List Char) :
    splitSlash (joinSlash parts ++ '/' :: rest) = parts ++ splitSlash rest := by
  induction parts with
  | nil => contradiction
  | cons part parts ih =>
    have hpart := h part List.mem_cons_self
    cases parts with
    | nil => exact splitSlash_append hpart rest
    | cons part' parts =>
      rw [joinSlash, List.append_assoc, List.cons_append, splitSlash_append hpart,
        ih (List.cons_ne_nil _ _) fun p hp => h p (List.mem_cons_of_mem _ hp)]
      · rfl
      · exact List.cons_ne_nil _ _

/-! ## Proper components -/

theorem splitSlash_not_slash (chars : List Char) : ∀ part ∈ splitSlash chars, '/' ∉ part := by
  induction chars with
  | nil => simp
  | cons c cs ih =>
    rw [splitSlash]
    split
    · exact List.forall_mem_cons.2 ⟨List.not_mem_nil, ih⟩
    · rename_i hc
      split
      · simpa using Ne.symm hc
      · rename_i part parts heq
        rw [heq] at ih
        obtain ⟨hpart, hparts⟩ := List.forall_mem_cons.1 ih
        refine List.forall_mem_cons.2 ⟨?_, hparts⟩
        rw [List.mem_cons, not_or]
        exact ⟨Ne.symm hc, hpart⟩

theorem proper_of_ofPart {part : List Char} (hpart : '/' ∉ part) {c : Component}
    (h : Component.ofPart part = some c) : c.Proper := by
  unfold Component.ofPart at h
  split at h
  · contradiction
  · rename_i hne
    rw [not_or] at hne
    split at h
    · obtain rfl := Option.some.inj h
      exact .parentDir
    · rename_i hdots
      obtain rfl := Option.some.inj h
      have hne' : ∀ s : String, part ≠ s.toList → String.ofList part ≠ s := by
        rintro s hs rfl
        exact hs (String.toList_ofList).symm
      exact .normal ⟨String.ofList part, hne' "" hne.1, hne' "." hne.2, hne' ".." hdots,
        by rwa [String.toList_ofList]⟩

/-- No character is lost when text is split, the slashes apart. -/
theorem exists_mem_splitSlash {ch : Char} (hch : ch ≠ '/') {chars : List Char} :
    (∃ part ∈ splitSlash chars, ch ∈ part) ↔ ch ∈ chars := by
  induction chars with
  | nil => simp
  | cons c cs ih =>
    rw [splitSlash, List.mem_cons]
    split
    · rename_i hc
      have hne : ch ≠ c := hc ▸ hch
      rw [List.exists_mem_cons_iff, ih]
      simp [hne]
    · rw [← ih]
      cases splitSlash cs with
      | nil => simp
      | cons part parts =>
        rw [List.exists_mem_cons_iff, List.exists_mem_cons_iff, List.mem_cons, or_assoc]

theorem exists_mem_ofPart {ch : Char} (hch : ch ≠ '.') {parts : List (List Char)} :
    (∃ c ∈ parts.filterMap Component.ofPart, ch ∈ c.name.toList) ↔ ∃ part ∈ parts, ch ∈ part := by
  have hpart : ∀ part : List Char,
      (∃ c, Component.ofPart part = some c ∧ ch ∈ c.name.toList) ↔ ch ∈ part := by
    intro part
    unfold Component.ofPart
    split
    · rename_i hnone
      rcases hnone with rfl | rfl <;> simp [hch]
    · split
      · rename_i hdots
        subst hdots
        simp [Component.name, hch]
      · simp [Component.name]
  simp only [List.mem_filterMap]
  constructor
  · rintro ⟨c, ⟨part, hmem, hc⟩, hch⟩
    exact ⟨part, hmem, (hpart part).1 ⟨c, hc, hch⟩⟩
  · rintro ⟨part, hmem, hch⟩
    obtain ⟨c, hc, hch⟩ := (hpart part).2 hch
    exact ⟨c, ⟨part, hmem, hc⟩, hch⟩

/-- Reading a path keeps every character that is part of a name. -/
theorem exists_mem_name_ofStr {ch : Char} (hslash : ch ≠ '/') (hdot : ch ≠ '.') {s : String} :
    (∃ c ∈ (Path.ofStr s).components, ch ∈ c.name.toList) ↔ ch ∈ s.toList := by
  unfold Path.ofStr
  split
  · rename_i rest heq
    rw [List.exists_mem_cons_iff, exists_mem_ofPart hdot, exists_mem_splitSlash hslash, heq]
    simp [Component.name, hslash]
  · rw [← exists_mem_splitSlash hslash]
    split
    · rename_i parts heq
      rw [heq, List.exists_mem_cons_iff, List.exists_mem_cons_iff, exists_mem_ofPart hdot]
      simp [Component.name, hdot]
    · exact exists_mem_ofPart hdot

/-- Below its start, a path read from text is proper. -/
theorem proper_ofStr (s : String) :
    ∀ c ∈ (Path.ofStr s).components, c = .rootDir ∨ c = .curDir ∨ c.Proper := by
  have hparts : ∀ (chars : List Char) (c : Component),
      c ∈ (splitSlash chars).filterMap Component.ofPart → c.Proper := by
    intro chars c hc
    obtain ⟨part, hpart, hc⟩ := List.mem_filterMap.1 hc
    exact proper_of_ofPart (splitSlash_not_slash chars part hpart) hc
  unfold Path.ofStr
  split
  · exact List.forall_mem_cons.2 ⟨.inl rfl, fun c hc => .inr (.inr (hparts _ c hc))⟩
  · split
    · rename_i parts heq
      refine List.forall_mem_cons.2 ⟨.inr (.inl rfl), fun c hc => .inr (.inr (hparts s.toList c ?_))⟩
      rw [heq, List.filterMap_cons_none (by rfl)]
      exact hc
    · exact fun c hc => .inr (.inr (hparts _ c hc))

namespace Component.Proper

variable {c : Component}

theorem ofPart (h : c.Proper) : Component.ofPart c.name.toList = some c := by
  cases h with
  | parentDir => rfl
  | normal n =>
    obtain ⟨name, hnil, hdot, hdots, -⟩ := n
    have hne : ∀ s : String, name ≠ s → name.toList ≠ s.toList := fun s h heq =>
      h (String.toList_injective heq)
    have h1 : ¬ (name.toList = [] ∨ name.toList = ['.']) := by
      rintro (h | h)
      · exact hne "" hnil h
      · exact hne "." hdot h
    have h2 : name.toList ≠ ['.', '.'] := hne ".." hdots
    show (if name.toList = [] ∨ name.toList = ['.'] then none
      else if name.toList = ['.', '.'] then some .parentDir
      else some (.normal (String.ofList name.toList))) = some (Component.normal name)
    rw [if_neg h1, if_neg h2, String.ofList_toList]

theorem not_slash (h : c.Proper) : '/' ∉ c.name.toList := by
  cases h with
  | parentDir => decide
  | normal n => exact n.valid.2.2.2

theorem name_ne_nil (h : c.Proper) : c.name.toList ≠ [] := by
  intro hnil
  have := h.ofPart
  rw [hnil] at this
  cases this

theorem name_ne_dot (h : c.Proper) : c.name.toList ≠ ['.'] := by
  intro hdot
  have := h.ofPart
  rw [hdot] at this
  cases this

end Component.Proper

theorem parts_not_slash {l : List Component} (hl : ∀ c ∈ l, c.Proper) :
    ∀ part ∈ Component.parts l, '/' ∉ part := by
  intro part hpart
  obtain ⟨c, hc, rfl⟩ := List.mem_map.1 hpart
  exact (hl c hc).not_slash

theorem splitSlash_parts {l : List Component} (hl : ∀ c ∈ l, c.Proper) (hne : l ≠ []) :
    splitSlash (joinSlash (Component.parts l)) = Component.parts l :=
  splitSlash_joinSlash (by simpa [Component.parts] using hne) (parts_not_slash hl)

theorem filterMap_ofPart_parts {l : List Component} (hl : ∀ c ∈ l, c.Proper) :
    (Component.parts l).filterMap Component.ofPart = l := by
  induction l with
  | nil => rfl
  | cons c l ih =>
    obtain ⟨hc, hl⟩ := List.forall_mem_cons.1 hl
    show (c.name.toList :: Component.parts l).filterMap Component.ofPart = _
    rw [List.filterMap_cons_some hc.ofPart, ih hl]

theorem filterMap_splitSlash {l : List Component} (hl : ∀ c ∈ l, c.Proper) :
    (splitSlash (joinSlash (Component.parts l))).filterMap Component.ofPart = l := by
  cases l with
  | nil => rfl
  | cons c l => rw [splitSlash_parts hl (List.cons_ne_nil _ _), filterMap_ofPart_parts hl]

/-- The text of a relative path. -/
theorem toStr_of_proper {l : List Component} (hl : ∀ c ∈ l, c.Proper) :
    (Path.mk l).toStr = String.ofList (joinSlash (Component.parts l)) := by
  unfold Path.toStr
  split
  · rename_i rest heq
    obtain rfl : l = .rootDir :: rest := heq
    cases hl _ List.mem_cons_self
  · rfl

theorem joinSlash_head {l : List Component} (hl : ∀ c ∈ l, c.Proper) :
    (joinSlash (Component.parts l)).head? ≠ some '/' := by
  cases l with
  | nil => exact nofun
  | cons c l =>
    have hc := hl c List.mem_cons_self
    cases hname : c.name.toList with
    | nil => exact absurd hname hc.name_ne_nil
    | cons ch chs =>
      have hne : ch ≠ '/' := by
        rintro rfl
        exact hc.not_slash (hname ▸ List.mem_cons_self)
      have hhead : (joinSlash (Component.parts (c :: l))).head? = some ch := by
        cases l with
        | nil =>
          show c.name.toList.head? = some ch
          rw [hname, List.head?_cons]
        | cons d l =>
          show (c.name.toList ++ _).head? = some ch
          rw [hname, List.cons_append, List.head?_cons]
      rw [hhead]
      exact fun h => hne (Option.some.inj h)

theorem joinSlash_ne_nil {l : List Component} (hl : ∀ c ∈ l, c.Proper) (hne : l ≠ []) :
    joinSlash (Component.parts l) ≠ [] := by
  intro hnil
  have hsplit := splitSlash_parts hl hne
  rw [hnil] at hsplit
  cases l with
  | nil => contradiction
  | cons c l => exact (hl c List.mem_cons_self).name_ne_nil (List.cons.inj hsplit).1.symm

theorem joinSlash_getLast {l : List Component} (hl : ∀ c ∈ l, c.Proper) :
    (joinSlash (Component.parts l)).getLast? ≠ some '/' := by
  induction l with
  | nil => exact nofun
  | cons c l ih =>
    obtain ⟨hc, hl⟩ := List.forall_mem_cons.1 hl
    cases l with
    | nil =>
      intro h
      exact hc.not_slash (List.mem_of_mem_getLast? h)
    | cons d l =>
      have hne := joinSlash_ne_nil hl (List.cons_ne_nil d l)
      show (c.name.toList ++ '/' :: joinSlash (Component.parts (d :: l))).getLast? ≠ some '/'
      rw [List.getLast?_append_of_ne_nil _ (List.cons_ne_nil _ _),
        List.getLast?_cons_of_ne_nil hne]
      exact ih hl

/-- A text that begins neither with a slash nor with a dot of its own. -/
theorem ofStr_ofList {chars : List Char} (hslash : chars.head? ≠ some '/')
    (hdot : (splitSlash chars).head? ≠ some ['.']) :
    Path.ofStr (String.ofList chars) = ⟨(splitSlash chars).filterMap Component.ofPart⟩ := by
  ext1
  rw [Path.ofStr, String.toList_ofList]
  split
  · simp at hslash
  · show (match splitSlash chars with
      | ['.'] :: parts => Component.curDir :: parts.filterMap Component.ofPart
      | parts => parts.filterMap Component.ofPart) = _
    split
    · rename_i heq
      rw [heq] at hdot
      simp at hdot
    · rfl

theorem splitSlash_head {l : List Component} (hl : ∀ c ∈ l, c.Proper) (rest : List (List Char)) :
    (Component.parts l ++ rest).head? = some ['.'] → l = [] := by
  intro h
  cases l with
  | nil => rfl
  | cons c l => exact absurd (Option.some.inj h) (hl c List.mem_cons_self).name_ne_dot

/-- The text of a relative path reads as that path. -/
theorem ofStr_toStr {l : List Component} (hl : ∀ c ∈ l, c.Proper) :
    Path.ofStr (Path.mk l).toStr = ⟨l⟩ := by
  rw [toStr_of_proper hl]
  cases l with
  | nil => rfl
  | cons c l =>
    rw [ofStr_ofList (joinSlash_head hl), filterMap_splitSlash hl]
    rw [splitSlash_parts hl (List.cons_ne_nil _ _), ← List.append_nil (Component.parts _)]
    exact fun h => List.cons_ne_nil _ _ (splitSlash_head hl [] h)

/-- The text of an absolute path reads as that path. -/
theorem ofStr_toStr_rootDir {l : List Component} (hl : ∀ c ∈ l, c.Proper) :
    Path.ofStr (Path.mk (.rootDir :: l)).toStr = ⟨.rootDir :: l⟩ := by
  ext1
  rw [Path.ofStr, Path.toStr, String.toList_ofList]
  exact congrArg (Component.rootDir :: ·) (filterMap_splitSlash hl)

/-- Relative paths with the same text are equal. -/
theorem toStr_injOn {l m : List Component} (hl : ∀ c ∈ l, c.Proper) (hm : ∀ c ∈ m, c.Proper)
    (h : (Path.mk l).toStr = (Path.mk m).toStr) : l = m := by
  have := ofStr_toStr hl
  rw [h, ofStr_toStr hm] at this
  exact congrArg Path.components this.symm

/-- Absolute paths with the same text are equal. -/
theorem toStr_rootDir_injOn {l m : List Component} (hl : ∀ c ∈ l, c.Proper)
    (hm : ∀ c ∈ m, c.Proper)
    (h : (Path.mk (.rootDir :: l)).toStr = (Path.mk (.rootDir :: m)).toStr) : l = m := by
  have hlist : '/' :: joinSlash (Component.parts l) = '/' :: joinSlash (Component.parts m) :=
    String.ofList_injective h
  apply toStr_injOn hl hm
  rw [toStr_of_proper hl, toStr_of_proper hm, (List.cons.inj hlist).2]

theorem toStr_toList {l : List Component} (hl : ∀ c ∈ l, c.Proper) :
    (Path.mk l).toStr.toList = joinSlash (Component.parts l) := by
  rw [toStr_of_proper hl, String.toList_ofList]

theorem toStr_eq_empty {l : List Component} (hl : ∀ c ∈ l, c.Proper)
    (h : (Path.mk l).toStr = "") : l = [] :=
  toStr_injOn hl (by simp) h

theorem pushText_toStr {l m : List Component} (hl : ∀ c ∈ l, c.Proper) (hm : ∀ c ∈ m, c.Proper)
    (hne : l ≠ []) : (pushText (Path.mk l).toStr (Path.mk m).toStr).toList =
      joinSlash (Component.parts l) ++ '/' :: joinSlash (Component.parts m) := by
  have hempty : (Path.mk l).toStr ≠ "" := fun h => hne (toStr_eq_empty hl h)
  have hhead : (Path.mk m).toStr.toList.head? ≠ some '/' := by
    rw [toStr_toList hm]
    exact joinSlash_head hm
  have hlast : ¬ ((Path.mk l).toStr = "" ∨ (Path.mk l).toStr.toList.getLast? = some '/') := by
    rw [not_or, toStr_toList hl]
    exact ⟨hempty, joinSlash_getLast hl⟩
  rw [pushText, if_neg hhead, if_neg hlast, String.toList_append, String.toList_append,
    toStr_toList hl, toStr_toList hm, List.append_assoc]
  rfl

theorem pushText_nil {l : List Component} (hl : ∀ c ∈ l, c.Proper) :
    pushText (Path.mk []).toStr (Path.mk l).toStr = (Path.mk l).toStr := by
  have hhead : (Path.mk l).toStr.toList.head? ≠ some '/' := by
    rw [toStr_toList hl]
    exact joinSlash_head hl
  rw [pushText, if_neg hhead, if_pos (.inl rfl)]
  exact String.empty_append

theorem pushText_head {l m : List Component} (hl : ∀ c ∈ l, c.Proper) (hm : ∀ c ∈ m, c.Proper) :
    (pushText (Path.mk l).toStr (Path.mk m).toStr).toList.head? ≠ some '/' := by
  cases l with
  | nil =>
    rw [pushText_nil hm, toStr_toList hm]
    exact joinSlash_head hm
  | cons c l =>
    have hne := List.cons_ne_nil c l
    rw [pushText_toStr hl hm hne, List.head?_append_of_ne_nil _ (joinSlash_ne_nil hl hne)]
    exact joinSlash_head hl

/-- What is pushed comes after the components of the base. -/
theorem ofStr_pushText {l m : List Component} (hl : ∀ c ∈ l, c.Proper) (hm : ∀ c ∈ m, c.Proper) :
    Path.ofStr (pushText (Path.mk l).toStr (Path.mk m).toStr) = ⟨l ++ m⟩ := by
  cases l with
  | nil => rw [pushText_nil hm, ofStr_toStr hm, List.nil_append]
  | cons c l =>
    have hne := List.cons_ne_nil c l
    have hparts : Component.parts (c :: l) ≠ [] := List.cons_ne_nil _ _
    have hsplit := splitSlash_joinSlash_append hparts (parts_not_slash hl)
      (joinSlash (Component.parts m))
    have hhead := pushText_head hl hm
    rw [pushText_toStr hl hm hne] at hhead
    rw [← String.ofList_toList (s := pushText _ _), pushText_toStr hl hm hne, ofStr_ofList hhead,
      hsplit, List.filterMap_append, filterMap_ofPart_parts hl, filterMap_splitSlash hm]
    · rw [hsplit]
      exact fun h => hne (splitSlash_head hl _ h)

theorem proper_ofNames (names : List FileName) : ∀ c ∈ (Path.ofNames names).components, c.Proper := by
  intro c hc
  obtain ⟨n, -, rfl⟩ := List.mem_map.1 hc
  exact .normal n

theorem ofStr_toStr_ofNames (names : List FileName) :
    Path.ofStr (Path.ofNames names).toStr = .ofNames names := ofStr_toStr (proper_ofNames names)

end Luchta.Framework
