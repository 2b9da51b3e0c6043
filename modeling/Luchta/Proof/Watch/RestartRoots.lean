import Luchta.Proof.Watch.Negations
import Mathlib.Data.List.TakeWhile

/-!
# What is watched for a restart

* `findExistingAncestor_eq`: where the search for a directory starts.
* `existingDir_eq`: it ends at the longest path on the way there that is a directory.
* `watched_iff`: whichever list a pattern is in, a path it denotes is watched just if the pattern is rooted
  below its first wildcard and no directory is taken for the text of an escape.
-/

namespace Luchta.Proof.Watch

open Luchta.Framework Luchta.Impl Luchta.Impl.WorkerWatcher

variable {globs : GlobLibrary} {fs : FsView} {pattern : String} {cs l : List Component}

/-! ## The text before the first wildcard -/

/-- The components before the first one with a wildcard. -/
def literalComponents (pattern : String) : List (List Char) :=
  (splitSlash pattern.toList).takeWhile fun component => !hasGlobMeta component

def literalNames (pattern : String) : List Component := (literalComponents pattern).filterMap Component.ofPart

/-- Nothing but the slash of an absolute pattern stands before its first wildcard. -/
def Blank (pattern : String) : Prop :=
  literalComponents pattern = [] ∨ literalComponents pattern = [[]] ∨ pattern = "/"

instance : Decidable (Blank pattern) := inferInstanceAs (Decidable (_ ∨ _ ∨ _))

def isRooted (pattern : String) : Bool := pattern.toList.head? = some '/'

/-- Where the names of a pattern are looked up. -/
def baseOf (cs : List Component) (pattern : String) : List Component :=
  if isRooted pattern then [.rootDir] else .rootDir :: cs

theorem trim_joinSlash (parts : List (List Char)) :
    trimTrailingSeparator (String.ofList (joinSlash parts ++ ['/'])) = String.ofList (joinSlash parts) := by
  rw [trimTrailingSeparator, String.toList_ofList, List.getLast?_concat, if_pos rfl, List.dropLast_concat]

theorem flatMap_slash {parts : List (List Char)} (hne : parts ≠ []) :
    (parts.flatMap fun part => part ++ ['/']) = joinSlash parts ++ ['/'] := by
  induction parts with
  | nil => contradiction
  | cons part parts ih =>
    cases parts with
    | nil => simp [joinSlash]
    | cons part' parts =>
      rw [List.flatMap_cons, ih (List.cons_ne_nil _ _)]
      show part ++ ['/'] ++ (joinSlash (part' :: parts) ++ ['/']) =
        (part ++ '/' :: joinSlash (part' :: parts)) ++ ['/']
      simp

theorem joinSlash_concat {parts : List (List Char)} (hne : parts ≠ []) (part : List Char) :
    joinSlash (parts ++ [part]) = joinSlash parts ++ '/' :: part := by
  induction parts with
  | nil => contradiction
  | cons first parts ih =>
    cases parts with
    | nil => rfl
    | cons second parts =>
      have hcons := ih (List.cons_ne_nil _ _)
      show first ++ '/' :: joinSlash (second :: parts ++ [part]) =
        (first ++ '/' :: joinSlash (second :: parts)) ++ '/' :: part
      rw [hcons, List.append_assoc]
      rfl

/-- A slash at the end goes, and with it the empty component after it. -/
theorem extractLiteralPrefix_eq (pattern : String) : ∃ parts,
    WorkerWatcher.extractLiteralPrefix pattern = String.ofList (joinSlash parts) ∧
      (parts = literalComponents pattern ∧ pattern ≠ "/" ∨
        parts ≠ [] ∧ literalComponents pattern = parts ++ [[]] ∧ parts ++ [[]] = splitSlash pattern.toList) := by
  have hjoin := joinSlash_splitSlash pattern.toList
  rw [WorkerWatcher.extractLiteralPrefix]
  split
  · rename_i hmeta
    have hne : pattern ≠ "/" := by
      rintro rfl
      revert hmeta
      decide
    refine ⟨literalComponents pattern, ?_, .inl ⟨rfl, hne⟩⟩
    show trimTrailingSeparator (String.ofList ((literalComponents pattern).flatMap _)) = _
    by_cases hnil : literalComponents pattern = []
    · rw [hnil]
      decide
    · rw [flatMap_slash hnil, trim_joinSlash]
  · rename_i hmeta
    have hliteral : literalComponents pattern = splitSlash pattern.toList := by
      rw [literalComponents, List.takeWhile_eq_self_iff]
      intro component hcomponent
      rw [Bool.not_eq_true']
      by_contra hhas
      exact hmeta (List.any_eq_true.2 ⟨component, hcomponent, by simpa using hhas⟩)
    rw [hliteral]
    rcases List.eq_nil_or_concat' (splitSlash pattern.toList) with hnil | ⟨parts, last, hsplit⟩
    · exact absurd hnil (splitSlash_ne_nil _)
    · have hlast : '/' ∉ last := splitSlash_not_slash pattern.toList last (by simp [hsplit])
      rw [hsplit] at hjoin ⊢
      by_cases hcut : parts ≠ [] ∧ last = []
      · obtain ⟨hne, rfl⟩ := hcut
        refine ⟨parts, ?_, .inr ⟨hne, rfl, rfl⟩⟩
        rw [joinSlash_concat hne] at hjoin
        rw [← String.ofList_toList (s := pattern), ← hjoin, trim_joinSlash]
      · have hend : pattern.toList.getLast? ≠ some '/' := by
          rw [← hjoin]
          by_cases hne : parts = []
          · rw [hne]
            exact fun h => hlast (List.mem_of_getLast? h)
          · have hnil : last ≠ [] := fun h => hcut ⟨hne, h⟩
            rw [joinSlash_concat hne, List.getLast?_append_of_ne_nil _ (List.cons_ne_nil _ _),
              List.getLast?_cons_of_ne_nil hnil]
            exact fun h => hlast (List.mem_of_getLast? h)
        refine ⟨parts ++ [last], ?_, .inl ⟨rfl, ?_⟩⟩
        · rw [trimTrailingSeparator, if_neg hend, hjoin, String.ofList_toList]
        · rintro rfl
          exact hend rfl

theorem isRooted_iff : isRooted pattern = true ↔
    ∃ part parts, splitSlash pattern.toList = [] :: part :: parts := by
  rw [isRooted, decide_eq_true_eq]
  cases hchars : pattern.toList with
  | nil => simp [splitSlash]
  | cons c chars =>
    obtain ⟨part, parts, hparts⟩ := List.exists_cons_of_ne_nil (splitSlash_ne_nil chars)
    rw [List.head?_cons, Option.some_inj, splitSlash, hparts]
    split
    · rename_i hc
      simp [hc]
    · rename_i hc
      simp [hc]

/-! ## Where the search starts -/

theorem ofStr_rooted {parts : List (List Char)} (hne : parts ≠ []) (h : ∀ part ∈ parts, '/' ∉ part) :
    Path.ofStr (String.ofList (joinSlash ([] :: parts))) =
      ⟨.rootDir :: parts.filterMap Component.ofPart⟩ := by
  obtain ⟨part, parts, rfl⟩ := List.exists_cons_of_ne_nil hne
  ext1
  rw [Path.ofStr, String.toList_ofList]
  show .rootDir :: (splitSlash (joinSlash (part :: parts))).filterMap Component.ofPart = _
  rw [splitSlash_joinSlash hne h]

/-- What does not begin with a slash is looked up below the directory that it is joined to. -/
theorem join_ofStr {dir : List Component} (hdir : dir ≠ []) {part : List Char} {parts : List (List Char)}
    (hpart : part ≠ []) (h : ∀ p ∈ part :: parts, '/' ∉ p) :
    (Path.ofStr (String.ofList (joinSlash (part :: parts)))).isAbsolute = false ∧
      Path.join ⟨dir⟩ (.ofStr (String.ofList (joinSlash (part :: parts)))) =
        ⟨dir ++ (part :: parts).filterMap Component.ofPart⟩ := by
  have hsplit : splitSlash (joinSlash (part :: parts)) = part :: parts :=
    splitSlash_joinSlash (List.cons_ne_nil _ _) h
  have hslash : (joinSlash (part :: parts)).head? ≠ some '/' := by
    obtain ⟨c, cs, rfl⟩ := List.exists_cons_of_ne_nil hpart
    have hc : c ≠ '/' := by
      rintro rfl
      exact h _ List.mem_cons_self List.mem_cons_self
    cases parts <;> simpa [joinSlash] using hc
  have hroot : .rootDir ∉ (part :: parts).filterMap Component.ofPart := rootDir_not_mem_parts _
  by_cases hdot : part = ['.']
  · obtain rfl := hdot
    have hpath : Path.ofStr (String.ofList (joinSlash (['.'] :: parts))) =
        ⟨.curDir :: parts.filterMap Component.ofPart⟩ := by
      ext1
      rw [Path.ofStr, String.toList_ofList]
      split
      · rename_i rest heq
        rw [heq] at hslash
        exact absurd rfl hslash
      · rw [hsplit]
        rfl
    have habs : (Framework.Path.mk (.curDir :: parts.filterMap Component.ofPart)).isAbsolute = false := rfl
    rw [hpath]
    refine ⟨habs, ?_⟩
    rw [Path.join, if_neg (by rw [habs]; decide), if_neg hdir]
    rfl
  · have hpath := ofStr_ofList hslash (by rw [hsplit]; simpa using hdot)
    rw [hsplit] at hpath
    have habs : (Framework.Path.mk ((part :: parts).filterMap Component.ofPart)).isAbsolute = false := by
      rw [Path.isAbsolute, decide_eq_false_iff_not]
      exact fun h => hroot (List.mem_of_mem_head? h)
    have hcur : ((part :: parts).filterMap Component.ofPart).head? ≠ some .curDir := by
      intro hhead
      obtain ⟨p, -, hp⟩ := List.mem_filterMap.1 (List.mem_of_mem_head? hhead)
      unfold Component.ofPart at hp
      split at hp
      · cases hp
      · split at hp <;> cases hp
    rw [hpath]
    refine ⟨habs, ?_⟩
    rw [Path.join, if_neg (by rw [habs]; decide), if_neg hdir, if_neg hcur]

theorem findExistingAncestor_of_ne {text : String} {dir : Path}
    (htext : WorkerWatcher.extractLiteralPrefix pattern = text) (hne : text ≠ "") :
    findExistingAncestor fs (some dir) pattern = existingDir fs
      (if (Path.ofStr text).isAbsolute = true then Path.ofStr text
        else dir.join (.ofStr text)).components.reverse := by
  rw [findExistingAncestor, htext]
  show (if text = "" then none else _) = _
  rw [if_neg hne]
  by_cases habs : (Path.ofStr text).isAbsolute = true
  · rw [if_pos habs, if_pos habs]
    rfl
  · rw [if_neg habs, if_neg habs]
    rfl

theorem findExistingAncestor_eq (pattern : String) :
    findExistingAncestor fs (some ⟨.rootDir :: cs⟩) pattern =
      if Blank pattern then none else existingDir fs (baseOf cs pattern ++ literalNames pattern).reverse := by
  obtain ⟨parts, hfront, hparts⟩ := extractLiteralPrefix_eq pattern
  have hinitial : parts <+: splitSlash pattern.toList := by
    rcases hparts with ⟨rfl, -⟩ | ⟨-, -, hsplit⟩
    · exact List.takeWhile_prefix _
    · rw [← hsplit]
      exact List.prefix_append _ _
  have hslash : ∀ part ∈ parts, '/' ∉ part := fun part hpart =>
    splitSlash_not_slash _ part (hinitial.subset hpart)
  have hnames : literalNames pattern = parts.filterMap Component.ofPart := by
    rcases hparts with ⟨rfl, -⟩ | ⟨-, hliteral, -⟩
    · rfl
    · rw [literalNames, hliteral, List.filterMap_append]
      exact List.append_nil _
  have hblank : Blank pattern ↔ parts = [] ∨ parts = [[]] := by
    rcases hparts with ⟨rfl, hne⟩ | ⟨hne, hliteral, hsplit⟩
    · rw [Blank, or_iff_left hne]
    · have htwo : parts ++ [[]] ≠ [[]] := fun h => hne (List.append_left_inj _ |>.1 (h : _ = [] ++ [[]]))
      have hpattern : pattern = "/" ↔ parts = [[]] := by
        constructor
        · rintro rfl
          exact List.append_left_inj _ |>.1 (hsplit.trans (by decide : _ = [[]] ++ [[]]))
        · rintro rfl
          apply String.toList_injective
          rw [← joinSlash_splitSlash pattern.toList, ← hsplit]
          rfl
      rw [Blank, hliteral, hpattern, or_iff_right (List.concat_ne_nil _ _), or_iff_right htwo, or_iff_right hne]
  rw [hnames]
  by_cases hnone : parts = [] ∨ parts = [[]]
  · rw [if_pos (hblank.2 hnone), findExistingAncestor, hfront]
    rcases hnone with rfl | rfl <;> rfl
  · rw [if_neg (mt hblank.1 hnone)]
    rw [not_or] at hnone
    obtain ⟨part, rest, rfl⟩ := List.exists_cons_of_ne_nil hnone.1
    obtain ⟨last, hlast⟩ := hinitial
    by_cases hpart : part = []
    · obtain rfl := hpart
      have hrest : rest ≠ [] := fun h => hnone.2 (h ▸ rfl)
      obtain ⟨next, rest, rfl⟩ := List.exists_cons_of_ne_nil hrest
      have hroot : isRooted pattern = true := isRooted_iff.2 ⟨next, rest ++ last, hlast.symm⟩
      have htext : String.ofList (joinSlash ([] :: next :: rest)) ≠ "" := fun h =>
        List.cons_ne_nil _ _ (String.ofList_injective h : '/' :: joinSlash (next :: rest) = [])
      rw [findExistingAncestor_of_ne hfront htext,
        ofStr_rooted hrest fun p hp => hslash p (List.mem_cons_of_mem _ hp), baseOf, if_pos hroot]
      rfl
    · have hroot : ¬ isRooted pattern = true := by
        rw [isRooted_iff]
        rintro ⟨next, others, hsplit⟩
        exact hpart (List.cons.inj (hlast.trans hsplit)).1
      obtain ⟨habs, hjoin⟩ := join_ofStr (List.cons_ne_nil .rootDir cs) hpart hslash
      have htext : String.ofList (joinSlash (part :: rest)) ≠ "" := by
        intro h
        have hnil := splitSlash_joinSlash (List.cons_ne_nil part rest) hslash
        rw [(String.ofList_injective h : joinSlash (part :: rest) = [])] at hnil
        exact hpart (List.cons.inj hnil).1.symm
      rw [findExistingAncestor_of_ne hfront htext, if_neg (by rw [habs]; decide), hjoin, baseOf,
        if_neg hroot]

/-! ## The directory that is found -/

theorem existingDir_eq (hroot : fs.isDir ⟨[.rootDir]⟩ = true) (hl : .rootDir ∉ l) :
    ∃ d, existingDir fs (Component.rootDir :: l).reverse = some ⟨d⟩ ∧ d <+: .rootDir :: l ∧
      fs.isDir ⟨d⟩ = true ∧ ∀ d', d' <+: .rootDir :: l → fs.isDir ⟨d'⟩ = true → d' <+: d := by
  induction l using List.reverseRecOn with
  | nil =>
    refine ⟨[.rootDir], ?_, List.prefix_rfl, hroot, fun d' h _ => h⟩
    show (if fs.isDir ⟨[.rootDir]⟩ = true then _ else _) = _
    rw [if_pos hroot]
    rfl
  | append_singleton l c ih =>
    rw [List.mem_append, not_or, List.mem_singleton] at hl
    have hreverse : (Component.rootDir :: (l ++ [c])).reverse = c :: (Component.rootDir :: l).reverse := by
      rw [← List.cons_append, List.reverse_append]
      rfl
    rw [hreverse, existingDir, ← hreverse, List.reverse_reverse]
    by_cases hdir : fs.isDir ⟨.rootDir :: (l ++ [c])⟩ = true
    · rw [if_pos hdir]
      exact ⟨_, rfl, List.prefix_rfl, hdir, fun d' h _ => h⟩
    · rw [if_neg hdir, if_neg (Ne.symm hl.2)]
      obtain ⟨d, hfound, hpre, hd, hlongest⟩ := ih hl.1
      refine ⟨d, hfound, hpre.trans (List.prefix_append (.rootDir :: l) [c]), hd, fun d' h hd' => ?_⟩
      have h : d' <+: (.rootDir :: l) ++ [c] := h
      rcases List.prefix_concat_iff.1 h with rfl | h
      · exact absurd hd' hdir
      · exact hlongest d' h hd'

/-! ## Names and escapes -/

theorem not_mem_wildcards {component : List Char} (h : hasGlobMeta component = false) :
    ∀ c ∈ component, c ∉ wildcards := by
  intro c hc hmeta
  rw [hasGlobMeta, List.any_eq_false] at h
  exact h c hc (decide_eq_true hmeta)

/-- A component with an escape is taken for a name. -/
theorem ofPart_escaped {part : List Char} (h : '\\' ∈ part) :
    Component.ofPart part = some (.normal (String.ofList part)) := by
  have hnil : ¬ (part = [] ∨ part = ['.']) := by
    rintro (rfl | rfl) <;> revert h <;> decide
  have hdots : part ≠ ['.', '.'] := by
    rintro rfl
    revert h
    decide
  rw [Component.ofPart, if_neg hnil, if_neg hdots]

/-- Names without escapes are those of the literal text. -/
theorem agree_of_plain {segments : List (List Char)} {l' : List Component}
    (hpre : l' <+: (segments.takeWhile fun c => !hasGlobMeta c).filterMap Component.ofPart)
    (hplain : ∀ c ∈ l', '\\' ∉ c.name.toList) :
    l' <+: (literalSegments segments).filterMap Component.ofPart := by
  induction segments generalizing l' with
  | nil => exact hpre
  | cons segment segments ih =>
    rw [List.takeWhile_cons] at hpre
    by_cases hmeta : hasGlobMeta segment = true
    · rw [hmeta] at hpre
      obtain rfl := List.prefix_nil.1 hpre
      exact List.nil_prefix
    · rw [Bool.not_eq_true] at hmeta
      rw [hmeta] at hpre
      have hpre : l' <+: (segment :: segments.takeWhile fun c => !hasGlobMeta c).filterMap
        Component.ofPart := hpre
      obtain ⟨text, htext, -, heq, -⟩ := literalSegment_of_plain (not_mem_wildcards hmeta)
      by_cases hescape : '\\' ∈ segment
      · rw [List.filterMap_cons_some (ofPart_escaped hescape)] at hpre
        cases l' with
        | nil => exact List.nil_prefix
        | cons c l' =>
          obtain ⟨rfl, -⟩ := List.cons_prefix_cons.1 hpre
          have hname : '\\' ∉ (String.ofList segment).toList := hplain _ List.mem_cons_self
          rw [String.toList_ofList] at hname
          exact absurd hescape hname
      · rw [literalSegments, htext, heq hescape]
        show l' <+: (segment :: literalSegments segments).filterMap Component.ofPart
        cases hpart : Component.ofPart segment with
        | none =>
          rw [List.filterMap_cons_none hpart] at hpre ⊢
          exact ih hpre hplain
        | some c =>
          rw [List.filterMap_cons_some hpart] at hpre ⊢
          cases l' with
          | nil => exact List.nil_prefix
          | cons d l' =>
            obtain ⟨rfl, hrest⟩ := List.cons_prefix_cons.1 hpre
            exact List.cons_prefix_cons.2 ⟨rfl, ih hrest (List.forall_mem_cons.1 hplain).2⟩

/-- What begins with the literal text does not begin with a name that has an escape. -/
theorem differ_of_escaped {segments : List (List Char)} {l' l : List Component}
    (hpre : l' <+: (segments.takeWhile fun c => !hasGlobMeta c).filterMap Component.ofPart)
    (hescaped : ∃ c ∈ l', '\\' ∈ c.name.toList) (hl : ∀ c ∈ l, c.Proper)
    (hliteral : literalSegments segments <+: Component.parts l) : ¬ l' <+: l := by
  induction segments generalizing l' l with
  | nil =>
    obtain rfl := List.prefix_nil.1 hpre
    obtain ⟨c, hc, -⟩ := hescaped
    cases hc
  | cons segment segments ih =>
    obtain ⟨c', hc', hname⟩ := hescaped
    rw [List.takeWhile_cons] at hpre
    by_cases hmeta : hasGlobMeta segment = true
    · rw [hmeta] at hpre
      obtain rfl := List.prefix_nil.1 hpre
      cases hc'
    · rw [Bool.not_eq_true] at hmeta
      rw [hmeta] at hpre
      have hpre : l' <+: (segment :: segments.takeWhile fun c => !hasGlobMeta c).filterMap
        Component.ofPart := hpre
      obtain ⟨text, htext, -, heq, hshorter⟩ := literalSegment_of_plain (not_mem_wildcards hmeta)
      rw [literalSegments, htext] at hliteral
      have hliteral : text :: literalSegments segments <+: Component.parts l := hliteral
      cases l with
      | nil => exact absurd (List.prefix_nil.1 hliteral) (List.cons_ne_nil _ _)
      | cons c l =>
        obtain ⟨hc, hl'⟩ := List.forall_mem_cons.1 hl
        obtain ⟨rfl, hrest⟩ := List.cons_prefix_cons.1 hliteral
        intro hbelow
        by_cases hescape : '\\' ∈ segment
        · rw [List.filterMap_cons_some (ofPart_escaped hescape)] at hpre
          cases l' with
          | nil => cases hc'
          | cons d l' =>
            obtain ⟨rfl, -⟩ := List.cons_prefix_cons.1 hpre
            obtain ⟨rfl, -⟩ := List.cons_prefix_cons.1 hbelow
            have hlt := hshorter hescape
            have hlt : (String.ofList segment).toList.length < segment.length := hlt
            rw [String.toList_ofList] at hlt
            omega
        · rw [← heq hescape, List.filterMap_cons_some hc.ofPart] at hpre
          cases l' with
          | nil => cases hc'
          | cons d l' =>
            obtain ⟨rfl, hrest'⟩ := List.cons_prefix_cons.1 hpre
            obtain ⟨-, hbelow'⟩ := List.cons_prefix_cons.1 hbelow
            rcases List.mem_cons.1 hc' with rfl | hin
            · exact hescape (heq hescape ▸ hname)
            · exact ih hrest' ⟨c', hin, hname⟩ hl' hrest hbelow'

/-! ## Denoted paths -/

/-- What matches begins with the literal text of the pattern. -/
def LiteralLaw (globs : GlobLibrary) : Prop :=
  ∀ pattern glob, globs.buildPathGlob pattern = .ok glob → ∀ text : String, glob text = true →
    literalSegments (splitSlash pattern.toList) <+: splitSlash text.toList

theorem literalLaw_simpleGlobs : LiteralLaw simpleGlobs := fun _ _ h text hmatch => by
  obtain rfl := Except.ok.inj h
  exact matchSegments_literal hmatch

/-- An absolute pattern matches the path itself, a relative one what it is below the working directory. -/
def Denotes (globs : GlobLibrary) (cwd : Path) (pattern : String) (path : Path) : Prop :=
  if isRooted pattern then BodyMatches globs pattern path
  else ∃ relative, path.stripPrefix cwd = some relative ∧ BodyMatches globs pattern relative

/-- A path at one of the roots or below it. -/
def Covered (fs : FsView) (cwd : Path) (patterns : List String) (path : Path) : Prop :=
  ∃ root ∈ watchRoots fs (some cwd) patterns, path.startsWith (cwd.join root) = true

/-- Without a name before its first wildcard, an absolute pattern has only the working directory watched.
Otherwise no directory may have the text of an escape as its name. -/
def Watched (fs : FsView) (cs : List Component) (pattern : String) (path : Path) : Prop :=
  if isRooted pattern ∧ Blank pattern then path.startsWith ⟨.rootDir :: cs⟩ = true
  else ∀ l', l' <+: literalNames pattern → fs.isDir ⟨baseOf cs pattern ++ l'⟩ = true →
    ∀ c ∈ l', '\\' ∉ c.name.toList

theorem splitNegation_of_positive (h : isNegated pattern = false) : (splitNegation pattern).2 = pattern := by
  unfold isNegated at h
  unfold splitNegation at h ⊢
  cases hstrip : stripPrefix '!' pattern with
  | none => rfl
  | some body =>
    rw [hstrip] at h
    cases h

theorem denotes_below (hlaw : LiteralLaw globs) (hpositive : isNegated pattern = false)
    (hl : ∀ c ∈ l, c.Proper) (h : Denotes globs ⟨.rootDir :: cs⟩ pattern ⟨.rootDir :: l⟩) :
    ∃ segments below, .rootDir :: l = baseOf cs pattern ++ below ∧ (∀ c ∈ below, c.Proper) ∧
      literalNames pattern = (segments.takeWhile fun c => !hasGlobMeta c).filterMap Component.ofPart ∧
      literalSegments segments <+: splitSlash (joinSlash (Component.parts below)) := by
  unfold Denotes at h
  unfold BodyMatches at h
  rw [splitNegation_of_positive hpositive] at h
  by_cases hrooted : isRooted pattern = true
  · rw [if_pos hrooted] at h
    obtain ⟨glob, hglob, hmatch⟩ := h
    obtain ⟨part, parts, hsplit⟩ := isRooted_iff.1 hrooted
    refine ⟨part :: parts, l, by rw [baseOf, if_pos hrooted]; rfl, hl, ?_, ?_⟩
    · rw [literalNames, literalComponents, hsplit]
      rfl
    · have hliteral := hlaw pattern glob hglob _ hmatch
      rw [hsplit, Path.toStr, String.toList_ofList, splitSlash, if_pos rfl] at hliteral
      exact (List.cons_prefix_cons.1 hliteral).2
  · rw [if_neg hrooted] at h
    obtain ⟨⟨below⟩, hstrip, glob, hglob, hmatch⟩ := h
    have hcomponents : .rootDir :: l = .rootDir :: cs ++ below := Path.stripPrefix_eq_some_iff.1 hstrip
    have hbelow : ∀ c ∈ below, c.Proper := by
      obtain rfl := (List.cons.inj hcomponents).2
      exact fun c hc => hl c (List.mem_append_right _ hc)
    refine ⟨splitSlash pattern.toList, below, by rw [baseOf, if_neg hrooted]; exact hcomponents, hbelow,
      rfl, ?_⟩
    have hliteral := hlaw pattern glob hglob _ hmatch
    rwa [toStr_toList hbelow] at hliteral

/-! ## Roots -/

/-- What is watched for one pattern. -/
def rootOf (fs : FsView) (cwd : Path) (pattern : String) : Path :=
  (findExistingAncestor fs (some cwd) pattern).getD ⟨[.curDir]⟩

theorem mem_watchRoots {cwd root : Path} {patterns : List String} :
    root ∈ watchRoots fs (some cwd) patterns ↔
      ∃ pattern ∈ patterns, isNegated pattern = false ∧ rootOf fs cwd pattern = root := by
  have hfold : ∀ (ps : List String) (roots : List Path),
      root ∈ ps.foldl (fun roots pattern => if rootOf fs cwd pattern ∈ roots then roots
        else roots ++ [rootOf fs cwd pattern]) roots ↔
      root ∈ roots ∨ ∃ pattern ∈ ps, rootOf fs cwd pattern = root := by
    intro ps
    induction ps with
    | nil => simp
    | cons p ps ih =>
      intro roots
      rw [List.foldl_cons, ih, List.exists_mem_cons_iff, ← or_assoc]
      refine or_congr_left ?_
      split
      · rename_i hmem
        exact ⟨.inl, fun h => h.elim id fun h => h ▸ hmem⟩
      · rw [List.mem_append, List.mem_singleton, eq_comm]
  have hroots := hfold (patterns.filter fun pattern => !isNegated pattern) []
  rw [or_iff_right List.not_mem_nil] at hroots
  refine hroots.trans (exists_congr fun pattern => ?_)
  rw [List.mem_filter, Bool.not_eq_true', and_assoc]

theorem startsWith_rootOf (hlaw : LiteralLaw globs) (hroot : fs.isDir ⟨[.rootDir]⟩ = true)
    (hcs : ∀ c ∈ cs, c.Proper) (hpositive : isNegated pattern = false) (hl : ∀ c ∈ l, c.Proper)
    (hdenotes : Denotes globs ⟨.rootDir :: cs⟩ pattern ⟨.rootDir :: l⟩) :
    (Framework.Path.mk (.rootDir :: l)).startsWith
        (Path.join ⟨.rootDir :: cs⟩ (rootOf fs ⟨.rootDir :: cs⟩ pattern)) = true ↔
      Watched fs cs pattern ⟨.rootDir :: l⟩ := by
  obtain ⟨segments, below, hpath, hbelow, hnames, hliteral⟩ := denotes_below hlaw hpositive hl hdenotes
  by_cases hblank : Blank pattern
  · -- the fallback is the working directory
    have hjoin : Path.join ⟨.rootDir :: cs⟩ (rootOf fs ⟨.rootDir :: cs⟩ pattern) = ⟨.rootDir :: cs⟩ := by
      rw [rootOf, findExistingAncestor_eq, if_pos hblank]
      show (Framework.Path.mk (.rootDir :: (cs ++ []))) = _
      rw [List.append_nil]
    rw [hjoin, Watched]
    by_cases hrooted : isRooted pattern = true
    · rw [if_pos ⟨hrooted, hblank⟩]
    · rw [if_neg fun h => hrooted h.1]
      have hnone : literalNames pattern = [] := by
        rw [literalNames]
        rcases hblank with h | h | rfl
        · rw [h]
          rfl
        · rw [h]
          rfl
        · exact absurd rfl hrooted
      have hstarts : (Framework.Path.mk (.rootDir :: l)).startsWith ⟨.rootDir :: cs⟩ = true := by
        rw [baseOf, if_neg hrooted] at hpath
        rw [hpath]
        exact List.isPrefixOf_iff_prefix.2 (List.prefix_append _ _)
      refine iff_of_true hstarts fun l' hl' _ c hc => ?_
      rw [hnone, List.prefix_nil] at hl'
      rw [hl'] at hc
      cases hc
  · have hbase : ∃ rest, baseOf cs pattern = .rootDir :: rest ∧ .rootDir ∉ rest := by
      rw [baseOf]
      split
      · exact ⟨[], rfl, List.not_mem_nil⟩
      · exact ⟨cs, rfl, fun h => nomatch hcs _ h⟩
    obtain ⟨rest, hrest, hnot⟩ := hbase
    have hnames' : .rootDir ∉ rest ++ literalNames pattern := by
      rw [List.mem_append, not_or]
      exact ⟨hnot, rootDir_not_mem_parts _⟩
    obtain ⟨d, hfound, hpre, hd, hlongest⟩ := existingDir_eq hroot hnames'
    rw [← List.cons_append, ← hrest] at hfound hpre hlongest
    -- the directory is absolute, so the working directory does not come before it
    have hjoin : Path.join ⟨.rootDir :: cs⟩ (rootOf fs ⟨.rootDir :: cs⟩ pattern) = ⟨d⟩ := by
      obtain ⟨d', rfl⟩ := hlongest [.rootDir] ⟨rest ++ literalNames pattern, by rw [hrest]; rfl⟩ hroot
      rw [rootOf, findExistingAncestor_eq, if_neg hblank, hfound]
      rfl
    rw [hjoin, Watched, if_neg fun h => hblank h.2, hpath]
    show List.isPrefixOf d (baseOf cs pattern ++ below) = true ↔ _
    rw [List.isPrefixOf_iff_prefix]
    rcases List.prefix_or_prefix_of_prefix hpre (List.prefix_append _ _) with hshort | ⟨found, rfl⟩
    · refine iff_of_true (hshort.trans (List.prefix_append _ _)) fun l' hl' hdir c hc => ?_
      have hnil : baseOf cs pattern ++ l' <+: baseOf cs pattern ++ [] := by
        rw [List.append_nil]
        exact (hlongest _ ((List.prefix_append_right_inj _).2 hl') hdir).trans hshort
      rw [List.prefix_append_right_inj, List.prefix_nil] at hnil
      rw [hnil] at hc
      cases hc
    · rw [List.prefix_append_right_inj] at hpre ⊢
      have hsegments := hpre
      rw [hnames] at hsegments
      constructor
      · intro hcovers l' hl' hdir c hc hescape
        have hin : l' <+: found := by
          have hlonger := hlongest _ ((List.prefix_append_right_inj _).2 hl') hdir
          rwa [List.prefix_append_right_inj] at hlonger
        have hmem : c ∈ found := hin.subset hc
        have hne : below ≠ [] := List.ne_nil_of_mem (hcovers.subset hmem)
        rw [splitSlash_parts hbelow hne] at hliteral
        exact differ_of_escaped hsegments ⟨c, hmem, hescape⟩ hbelow hliteral hcovers
      · intro hplain
        have hin := agree_of_plain hsegments (hplain found hpre hd)
        have hnames := hliteral.filterMap Component.ofPart
        rw [filterMap_splitSlash hbelow] at hnames
        exact hin.trans hnames

/-- Whichever accepted list a pattern is in, a path it denotes is at or below one of the roots just if the
pattern is watched there. -/
theorem watched_iff (hlaw : LiteralLaw globs) (hroot : fs.isDir ⟨[.rootDir]⟩ = true)
    (hcs : ∀ c ∈ cs, c.Proper) {m : PathMatcher} (haccepted : PathMatcher.new globs [pattern] = .ok m)
    (hpositive : isNegated pattern = false) (hl : ∀ c ∈ l, c.Proper)
    (hdenotes : Denotes globs ⟨.rootDir :: cs⟩ pattern ⟨.rootDir :: l⟩) :
    (∀ patterns m, PathMatcher.new globs patterns = .ok m → pattern ∈ patterns →
      Covered fs ⟨.rootDir :: cs⟩ patterns ⟨.rootDir :: l⟩) ↔ Watched fs cs pattern ⟨.rootDir :: l⟩ := by
  rw [← startsWith_rootOf hlaw hroot hcs hpositive hl hdenotes]
  constructor
  · intro h
    obtain ⟨root, hmem, hstarts⟩ := h [pattern] m haccepted (List.mem_singleton.2 rfl)
    obtain ⟨pattern', hpattern, -, rfl⟩ := mem_watchRoots.1 hmem
    rwa [List.mem_singleton.1 hpattern] at hstarts
  · intro hstarts patterns _ _ hmem
    exact ⟨_, mem_watchRoots.2 ⟨pattern, hmem, hpositive, rfl⟩, hstarts⟩

/-! ## A pattern for any package -/

def packagesFs : FsView where
  isDir path := path ∈ [.ofStr "/", .ofStr "/ws", .ofStr "/ws/src", .ofStr "/a"]
  canonicalize path := some path

/-- An absolute pattern with a wildcard in its first name has the working directory watched, and denotes
paths elsewhere. -/
theorem elsewhere_not_watched : ∃ m, PathMatcher.new simpleGlobs ["/*/x.ts"] = .ok m ∧
    Denotes simpleGlobs (.ofStr "/ws") "/*/x.ts" (.ofStr "/a/x.ts") ∧
    ¬ Covered packagesFs (.ofStr "/ws") ["/*/x.ts"] (.ofStr "/a/x.ts") := by
  refine ⟨_, rfl, ⟨globText "/*/x.ts", rfl, by decide +kernel⟩, ?_⟩
  rintro ⟨root, hroot, hstarts⟩
  have hroots : watchRoots packagesFs (some (.ofStr "/ws")) ["/*/x.ts"] = [⟨[.curDir]⟩] := by
    decide +kernel
  rw [hroots, List.mem_singleton] at hroot
  rw [hroot] at hstarts
  revert hstarts
  decide +kernel

theorem watched_iff_source :
    (∀ patterns m, PathMatcher.new simpleGlobs patterns = .ok m → "src/*.ts" ∈ patterns →
      Covered packagesFs (.ofStr "/ws") patterns (.ofStr "/ws/src/a.ts")) ↔
    Watched packagesFs [.normal "ws"] "src/*.ts" (.ofStr "/ws/src/a.ts") := by
  have hws : Component.Proper (.normal "ws") := .normal ⟨"ws", by decide⟩
  have hsrc : Component.Proper (.normal "src") := .normal ⟨"src", by decide⟩
  have hfile : Component.Proper (.normal "a.ts") := .normal ⟨"a.ts", by decide⟩
  have hcs : ∀ c ∈ [Component.normal "ws"], c.Proper := by simpa using hws
  have hl : ∀ c ∈ [Component.normal "ws", .normal "src", .normal "a.ts"], c.Proper := by
    simpa using ⟨hws, hsrc, hfile⟩
  exact watched_iff literalLaw_simpleGlobs (by decide) hcs rfl (by decide) hl
    ⟨.ofStr "src/a.ts", by decide +kernel, globText "src/*.ts", rfl, by decide +kernel⟩

end Luchta.Proof.Watch
