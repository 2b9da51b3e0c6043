import Luchta.Framework.Fallible
import Luchta.Impl.CacheFiles

/-!
# What the publisher selects

The paths that output patterns select, each in the spelling that came first.

* `extend_get?`: a path keeps its first spelling.
* `Selected`, `mem_resolvedPaths`: a path is selected by its first spelling, which no negation matches.
* `pathMatchesPatterns_iff`: what is asked of a path without its spelling.
-/

namespace Luchta.Proof.CacheFiles

open Luchta.Framework Luchta.Impl

/-! ## Spellings -/

variable {s : Spellings} {texts : List String}

/-- A path keeps its first spelling. -/
theorem extend_get? (s : Spellings) (texts : List String) (k : Path) :
    (s.extend texts).get? k = (s.get? k).or (texts.find? fun t => Path.ofStr t = k) := by
  induction texts generalizing s with
  | nil => simp [Spellings.extend]
  | cons text texts ih =>
    show (Spellings.extend (s.insert text) texts).get? k = _
    rw [ih, List.find?_cons, Spellings.insert]
    split
    · rename_i hhas
      by_cases hk : Path.ofStr text = k
      · subst hk
        obtain ⟨t, ht⟩ := Option.isSome_iff_exists.1 hhas
        simp [ht]
      · simp [hk]
    · rename_i hhas
      rw [BTreeMap.get?_insert]
      by_cases hk : Path.ofStr text = k
      · subst hk
        have hnone : s.get? (Path.ofStr text) = none := by
          simpa [BTreeMap.containsKey] using hhas
        simp [hnone]
      · simp [hk, Ne.symm hk]

/-- The texts, filed under the paths they spell. -/
def spellings (texts : List String) : Spellings := Spellings.extend .empty texts

theorem spellings_get? (texts : List String) (k : Path) :
    (spellings texts).get? k = texts.find? fun t => Path.ofStr t = k := by
  rw [spellings, extend_get?, BTreeMap.get?_empty, Option.none_or]

theorem key_eq {k : Path} {t : String} (h : (spellings texts).get? k = some t) : k = .ofStr t := by
  rw [spellings_get?] at h
  have hk := List.find?_some h
  exact (of_decide_eq_true hk).symm

/-- A text is kept when no text before it spells the same path. -/
theorem mem_texts {t : String} : t ∈ (spellings texts).texts ↔
    (texts.find? fun t' => Path.ofStr t' = Path.ofStr t) = some t := by
  rw [Spellings.texts, List.mem_map]
  constructor
  · rintro ⟨⟨k, t⟩, hmem, rfl⟩
    have hget := BTreeMap.mem_entries_iff.1 hmem
    rw [← spellings_get?, ← key_eq hget, hget]
  · intro h
    rw [← spellings_get?] at h
    exact ⟨(_, t), BTreeMap.mem_entries_iff.2 h, rfl⟩

theorem nodup_texts (texts : List String) : ((spellings texts).texts.map Path.ofStr).Nodup := by
  have hkeys : (spellings texts).texts.map Path.ofStr = (spellings texts).entries.map Prod.fst := by
    rw [Spellings.texts, List.map_map]
    exact List.map_congr_left fun e he => (key_eq (BTreeMap.mem_entries_iff.1 he)).symm
  rw [hkeys]
  exact (spellings texts).sorted.imp ne_of_lt

/-! ## Globs -/

/-- A set matches what one of its globs matches. -/
def SetAny (globs : GlobLibrary) : Prop :=
  ∀ gs set, globs.buildSet gs = .ok set → ∀ text, set text = gs.any (· text)

/-- What both sides rely on: a set matches what one of its globs matches, and a glob without
wildcards matches no more than its own text. -/
structure GlobLaws (globs : GlobLibrary) : Prop where
  set_any : ∀ gs set, globs.buildSet gs = .ok set → ∀ text, set text = gs.any (· text)
  literal : ∀ pattern glob, classifyPattern pattern = .Literal →
    globs.buildPathGlob pattern = .ok glob → ∀ text, glob text = true → text = unescapeLiteral pattern

variable {globs : GlobLibrary} {patterns : List String} {candidates : List Path}

/-- A pattern that is no glob matches nothing. -/
def globMatches (globs : GlobLibrary) (pattern text : String) : Bool :=
  (globs.buildPathGlob pattern).toOption.any (· text)

theorem globMatches_iff {pattern text : String} : globMatches globs pattern text = true ↔
    ∃ glob, globs.buildPathGlob pattern = .ok glob ∧ glob text = true := by
  rw [globMatches]
  cases globs.buildPathGlob pattern with
  | error e => simp [Except.toOption]
  | ok glob => simp [Except.toOption]

theorem GlobLaws.literal_text (hlaws : GlobLaws globs) {pattern text : String}
    (hpattern : classifyPattern pattern = .Literal) (h : globMatches globs pattern text = true) :
    text = unescapeLiteral pattern := by
  obtain ⟨glob, hglob, htext⟩ := globMatches_iff.1 h
  exact hlaws.literal pattern glob hpattern hglob text htext

theorem buildGlobset_iff (hset : SetAny globs) {set : Glob}
    (h : buildGlobset globs patterns = .ok set) (text : String) :
    set text = patterns.any (globMatches globs · text) := by
  obtain ⟨built, hbuilt, h⟩ := bind_eq_ok.1 h
  rw [hset built set (mapError_eq_ok.1 h), Bool.eq_iff_iff, List.any_eq_true, List.any_eq_true]
  constructor
  · rintro ⟨glob, hglob, hmatch⟩
    obtain ⟨q, hq, hcompiled⟩ := (mem_mapM hbuilt).1 hglob
    exact ⟨q, hq, globMatches_iff.2 ⟨glob, mapError_eq_ok.1 hcompiled, hmatch⟩⟩
  · rintro ⟨q, hq, hmatch⟩
    obtain ⟨glob, hcompiled, hmatch⟩ := globMatches_iff.1 hmatch
    exact ⟨glob, (mem_mapM hbuilt).2 ⟨q, hq, mapError_eq_ok.2 hcompiled⟩, hmatch⟩

/-! ## Selected paths -/

/-- The spellings that come into question: literals, and then the listed paths that a glob matches. -/
def named (globs : GlobLibrary) (patterns : List String) (candidates : List Path) : List String :=
  literalPaths patterns ++
    (candidates.map Path.toStr).filter fun text => (globPatterns patterns).any (globMatches globs · text)

/-- The first spelling of its path, which no negation matches. -/
structure Selected (globs : GlobLibrary) (patterns : List String) (candidates : List Path)
    (text : String) : Prop where
  first : ((named globs patterns candidates).find? fun t => Path.ofStr t = Path.ofStr text) = some text
  not_excluded : ∀ body ∈ exclusionBodies patterns, globMatches globs body text = false

theorem excludes_eq (hset : SetAny globs) {bodies : List String} {exclusions : Exclusions}
    (h : Exclusions.compile globs bodies = .ok exclusions) (text : String) :
    exclusions.excludes text = bodies.any (globMatches globs · text) := by
  unfold Exclusions.compile at h
  split at h
  · rename_i hnil
    obtain rfl := Except.ok.inj h
    rw [hnil]
    rfl
  · obtain ⟨set, hbuilt, rfl⟩ := map_eq_ok.1 h
    exact buildGlobset_iff hset hbuilt text

theorem globbed_eq (hset : SetAny globs) {matched : List String}
    (h : globbed globs (globPatterns patterns) candidates = .ok matched) :
    matched = (candidates.map Path.toStr).filter fun text =>
      (globPatterns patterns).any (globMatches globs · text) := by
  unfold globbed at h
  split at h
  · rename_i hnil
    obtain rfl := Except.ok.inj h
    simp [hnil]
  · obtain ⟨set, hbuilt, h⟩ := bind_eq_ok.1 h
    obtain rfl := Except.ok.inj h
    exact List.filter_congr fun text _ => buildGlobset_iff hset hbuilt text

variable {paths : List String}

theorem resolvedPaths_eq (hset : SetAny globs)
    (h : resolvedPaths globs patterns candidates = .ok paths) :
    paths = (spellings (named globs patterns candidates)).texts.filter fun text =>
      !(exclusionBodies patterns).any (globMatches globs · text) := by
  obtain ⟨exclusions, hexclusions, h⟩ := bind_eq_ok.1 h
  obtain ⟨matched, hmatched, h⟩ := bind_eq_ok.1 h
  obtain rfl := Except.ok.inj h
  have hspellings : spellings (named globs patterns candidates) =
      (Spellings.extend .empty (literalPaths patterns)).extend matched := by
    rw [globbed_eq hset hmatched]
    exact List.foldl_append
  rw [hspellings]
  exact List.filter_congr fun text _ => congrArg _ (excludes_eq hset hexclusions text)

theorem mem_resolvedPaths (hlaws : GlobLaws globs)
    (h : resolvedPaths globs patterns candidates = .ok paths) {text : String} :
    text ∈ paths ↔ Selected globs patterns candidates text := by
  rw [resolvedPaths_eq hlaws.set_any h, List.mem_filter, mem_texts]
  constructor
  · rintro ⟨hfirst, hexcluded⟩
    exact ⟨hfirst, by simpa using hexcluded⟩
  · rintro ⟨hfirst, hexcluded⟩
    exact ⟨hfirst, by simpa using hexcluded⟩

theorem nodup_resolvedPaths (hlaws : GlobLaws globs)
    (h : resolvedPaths globs patterns candidates = .ok paths) : (paths.map Path.ofStr).Nodup := by
  rw [resolvedPaths_eq hlaws.set_any h]
  exact (nodup_texts _).sublist (List.filter_sublist.map _)

theorem mem_literalPaths {t : String} : t ∈ literalPaths patterns ↔
    ∃ q ∈ patterns, classifyPattern q = .Literal ∧ isNegated q = false ∧ unescapeLiteral q = t := by
  simp [literalPaths, and_assoc]

theorem mem_globPatterns {q : String} : q ∈ globPatterns patterns ↔
    q ∈ patterns ∧ classifyPattern q = .Wildcard ∧ isNegated q = false := by
  simp [globPatterns]

/-! ## Asking about a path -/

theorem patternMatchesPath_literal {q : String} (h : classifyPattern q = .Literal) (path : Path) :
    patternMatchesPath globs q path = true ↔ path = .ofStr (unescapeLiteral q) := by
  rw [patternMatchesPath, if_pos h, decide_eq_true_eq]

theorem patternMatchesPath_wildcard {q : String} (h : classifyPattern q ≠ .Literal) (path : Path) :
    patternMatchesPath globs q path = globMatches globs q path.toStr := by
  rw [patternMatchesPath, if_neg h, globMatches]

theorem pathMatchesPatterns_iff (path : Path) : pathMatchesPatterns globs patterns path = true ↔
    (∃ q ∈ patterns, isNegated q = false ∧ patternMatchesPath globs q path = true) ∧
      ∀ body ∈ exclusionBodies patterns, patternMatchesPath globs body path = false := by
  simp [pathMatchesPatterns]

/-- A path is included when a literal spells it, or a glob matches its text. -/
theorem included_iff (path : Path) :
    (∃ q ∈ patterns, isNegated q = false ∧ patternMatchesPath globs q path = true) ↔
      (∃ t ∈ literalPaths patterns, path = .ofStr t) ∨
        ∃ q ∈ globPatterns patterns, globMatches globs q path.toStr = true := by
  constructor
  · rintro ⟨q, hq, hnegated, hmatch⟩
    by_cases hliteral : classifyPattern q = .Literal
    · exact .inl ⟨_, mem_literalPaths.2 ⟨q, hq, hliteral, hnegated, rfl⟩,
        (patternMatchesPath_literal hliteral path).1 hmatch⟩
    · have hwildcard : classifyPattern q = .Wildcard := by
        cases h : classifyPattern q with
        | Literal => contradiction
        | Wildcard => rfl
      exact .inr ⟨q, mem_globPatterns.2 ⟨hq, hwildcard, hnegated⟩,
        (patternMatchesPath_wildcard hliteral path) ▸ hmatch⟩
  · rintro (⟨t, ht, rfl⟩ | ⟨q, hq, hmatch⟩)
    · obtain ⟨q, hq, hliteral, hnegated, rfl⟩ := mem_literalPaths.1 ht
      exact ⟨q, hq, hnegated, (patternMatchesPath_literal hliteral _).2 rfl⟩
    · obtain ⟨hq, hwildcard, hnegated⟩ := mem_globPatterns.1 hq
      refine ⟨q, hq, hnegated, ?_⟩
      rw [patternMatchesPath_wildcard (by rw [hwildcard]; decide)]
      exact hmatch

/-- A path is excluded when a negated literal spells it, or a negated glob matches its text. -/
theorem not_excluded_iff (path : Path) :
    (∀ body ∈ exclusionBodies patterns, patternMatchesPath globs body path = false) ↔
      ∀ body ∈ exclusionBodies patterns,
        (classifyPattern body = .Literal → Path.ofStr (unescapeLiteral body) ≠ path) ∧
        (classifyPattern body ≠ .Literal → globMatches globs body path.toStr = false) := by
  refine forall₂_congr fun body _ => ?_
  by_cases hliteral : classifyPattern body = .Literal
  · rw [← Bool.not_eq_true, patternMatchesPath_literal hliteral]
    exact ⟨fun h => ⟨fun _ heq => h heq.symm, fun hne => absurd hliteral hne⟩,
      fun h heq => h.1 hliteral heq.symm⟩
  · rw [patternMatchesPath_wildcard hliteral]
    simp [hliteral]

end Luchta.Proof.CacheFiles
