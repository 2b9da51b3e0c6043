import Luchta.Framework.Fallible
import Luchta.Framework.Globs
import Luchta.Impl.RestartWatch

/-!
# Which paths restart a worker

* `pathMatches_iff`: a path matches in one of its spellings, by a positive pattern and no negated one.
* `restarts_iff`: negations win over all spellings just if none of them slips past the negations while
  another is caught.
* `generated_restarts`: a pattern for any directory sees the absolute path, and a relative negation does not.
-/

namespace Luchta.Proof.Watch

open Luchta.Framework Luchta.Impl Luchta.Impl.WorkerWatcher

variable {globs : GlobLibrary} {patterns : List String} {m : PathMatcher} {fs : FsView}
  {cwd canonicalCwd : Option Path} {path : Path}

/-- A set of globs matches what one of them matches. -/
def SetLaw (globs : GlobLibrary) : Prop :=
  ∀ gs set, globs.buildSet gs = .ok set → ∀ text, set text = gs.any (· text)

/-- The glob of a pattern, without its negation, matches the path. -/
def BodyMatches (globs : GlobLibrary) (pattern : String) (path : Path) : Prop :=
  ∃ glob, globs.buildPathGlob (splitNegation pattern).2 = .ok glob ∧ glob path.toStr = true

def MatchesPositive (globs : GlobLibrary) (patterns : List String) (path : Path) : Prop :=
  ∃ pattern ∈ patterns, isNegated pattern = false ∧ BodyMatches globs pattern path

def MatchesNegated (globs : GlobLibrary) (patterns : List String) (path : Path) : Prop :=
  ∃ pattern ∈ patterns, isNegated pattern = true ∧ BodyMatches globs pattern path

theorem isMatch_iff (hlaw : SetLaw globs) (hnew : PathMatcher.new globs patterns = .ok m) (path : Path) :
    m.isMatch path = true ↔ MatchesPositive globs patterns path ∧ ¬ MatchesNegated globs patterns path := by
  obtain ⟨built, hbuilt, hrest⟩ := bind_eq_ok.1 hnew
  obtain ⟨includes, hincludes, hrest⟩ := bind_eq_ok.1 hrest
  obtain ⟨excludes, hexcludes, hrest⟩ := bind_eq_ok.1 hrest
  obtain rfl := Except.ok.inj hrest
  have hmem : ∀ {negated glob}, (negated, glob) ∈ built ↔ ∃ pattern ∈ patterns,
      isNegated pattern = negated ∧ globs.buildPathGlob (splitNegation pattern).2 = .ok glob := by
    intro negated glob
    rw [mem_mapM hbuilt]
    refine exists_congr fun pattern => and_congr_right fun _ => ?_
    rw [bind_eq_ok]
    constructor
    · rintro ⟨glob', hglob, heq⟩
      obtain ⟨hnegated, rfl⟩ := Prod.mk.inj (Except.ok.inj heq)
      exact ⟨hnegated, hglob⟩
    · rintro ⟨hnegated, hglob⟩
      exact ⟨glob, hglob, congrArg Except.ok (Prod.ext hnegated rfl)⟩
  have hany : ∀ b : Bool, ((built.filter fun e => e.1 = b).map Prod.snd).any (· path.toStr) = true ↔
      ∃ pattern ∈ patterns, isNegated pattern = b ∧ BodyMatches globs pattern path := by
    intro b
    rw [List.any_eq_true]
    constructor
    · rintro ⟨glob, hglob, hmatch⟩
      obtain ⟨⟨negated, glob'⟩, he, rfl⟩ := List.mem_map.1 hglob
      obtain ⟨he, hb⟩ := List.mem_filter.1 he
      obtain ⟨pattern, hpattern, hnegated, hcompiled⟩ := hmem.1 he
      exact ⟨pattern, hpattern, hnegated.trans (of_decide_eq_true hb), glob', hcompiled, hmatch⟩
    · rintro ⟨pattern, hpattern, hnegated, glob, hcompiled, hmatch⟩
      have he : (b, glob) ∈ built := hmem.2 ⟨pattern, hpattern, hnegated, hcompiled⟩
      exact ⟨glob, List.mem_map.2 ⟨_, List.mem_filter.2 ⟨he, decide_eq_true rfl⟩, rfl⟩, hmatch⟩
  have hpositive : includes path.toStr = true ↔ MatchesPositive globs patterns path := by
    rw [hlaw _ _ hincludes, MatchesPositive, ← hany false]
    simp only [Bool.decide_eq_false]
  have hnegated : excludes path.toStr = true ↔ MatchesNegated globs patterns path := by
    rw [hlaw _ _ hexcludes, MatchesNegated, ← hany true]
    simp only [Bool.decide_eq_true]
  rw [PathMatcher.isMatch, Bool.and_eq_true, Bool.not_eq_true', hpositive, ← Bool.not_eq_true, hnegated]

/-! ## Spellings -/

/-- The path of the event, what it is below the working directory, and the same of the canonical paths. -/
def spellings (fs : FsView) (cwd canonicalCwd : Option Path) (path : Path) : List Path :=
  path :: ((cwd.bind path.stripPrefix).toList ++
    ((fs.canonicalize path).bind fun canonical => canonicalCwd.bind canonical.stripPrefix).toList)

theorem pathMatches_iff : pathMatches m fs cwd canonicalCwd path = true ↔
    ∃ f ∈ spellings fs cwd canonicalCwd path, m.isMatch f = true := by
  have hany : ∀ o : Option Path, o.any m.isMatch = true ↔ ∃ f ∈ o.toList, m.isMatch f = true := by
    intro o
    cases o <;> simp
  have hcanonical : matchesCanonicalRelative m fs canonicalCwd path = true ↔
      ∃ f ∈ ((fs.canonicalize path).bind fun canonical => canonicalCwd.bind canonical.stripPrefix).toList,
        m.isMatch f = true := by
    rw [matchesCanonicalRelative]
    cases fs.canonicalize path with
    | none => simp
    | some canonical => exact hany _
  rw [pathMatches, Bool.or_eq_true, Bool.or_eq_true, matchesRelativeTo, hany, hcanonical, spellings]
  simp only [List.exists_mem_cons_iff, List.mem_append, or_and_right, exists_or, or_assoc]

/-- Some spelling matches a positive pattern, and none a negated one. -/
def NegationsWin (globs : GlobLibrary) (patterns : List String) (forms : List Path) : Prop :=
  (∃ f ∈ forms, MatchesPositive globs patterns f) ∧ ∀ f ∈ forms, ¬ MatchesNegated globs patterns f

/-- A changed path restarts the worker just as it should, unless one of its spellings matches a positive
pattern without being negated while another spelling is negated. -/
theorem restarts_iff (hlaw : SetLaw globs) (hnew : PathMatcher.new globs patterns = .ok m)
    {event : DebouncedEvent} (hkind : isAccessEvent event.kind = false) (hpaths : event.paths = [path]) :
    (eventMatches m fs cwd canonicalCwd event = true ↔
      NegationsWin globs patterns (spellings fs cwd canonicalCwd path)) ↔
    ((∃ f ∈ spellings fs cwd canonicalCwd path, MatchesNegated globs patterns f) →
      ∀ f ∈ spellings fs cwd canonicalCwd path, MatchesPositive globs patterns f →
        MatchesNegated globs patterns f) := by
  have hevent : eventMatches m fs cwd canonicalCwd event = true ↔
      ∃ f ∈ spellings fs cwd canonicalCwd path,
        MatchesPositive globs patterns f ∧ ¬ MatchesNegated globs patterns f := by
    rw [eventMatches, hkind, hpaths, List.any_cons, List.any_nil, Bool.or_false, Bool.not_false,
      Bool.true_and, pathMatches_iff]
    simp only [isMatch_iff hlaw hnew]
  rw [hevent, NegationsWin]
  constructor
  · rintro h ⟨f', hf', hnegated⟩ f hf hpositive
    by_contra hclear
    exact (h.1 ⟨f, hf, hpositive, hclear⟩).2 f' hf' hnegated
  · intro h
    constructor
    · rintro ⟨f, hf, hpositive, hclear⟩
      exact ⟨⟨f, hf, hpositive⟩, fun f' hf' hnegated => hclear (h ⟨f', hf', hnegated⟩ f hf hpositive)⟩
    · rintro ⟨⟨f, hf, hpositive⟩, hclear⟩
      exact ⟨f, hf, hpositive, hclear f hf⟩

/-! ## Generated sources -/

/-- The library, for patterns without classes and alternatives. -/
def simpleGlobs : GlobLibrary where
  buildPathGlob pattern := .ok (globText pattern)
  buildSet globs := .ok fun text => globs.any (· text)

theorem setLaw_simpleGlobs : SetLaw simpleGlobs := fun _ _ h text => by
  rw [← Except.ok.inj h]

def sourcePatterns : List String := ["**/*.ts", "!src/gen/**"]

def workspaceFs : FsView where
  isDir path := path ∈ [.ofStr "/ws", .ofStr "/ws/src", .ofStr "/ws/src/gen"]
  canonicalize path := some path

def modified (path : String) : DebouncedEvent := ⟨.Modify .Data, [.ofStr path], false⟩

/-- A change below the excluded directory restarts the worker, although the negation matches the path
relative to the working directory. -/
theorem generated_restarts : ∃ m, PathMatcher.new simpleGlobs sourcePatterns = .ok m ∧
    eventMatches m workspaceFs (some (.ofStr "/ws")) (some (.ofStr "/ws"))
      (modified "/ws/src/gen/a.ts") = true ∧
    ¬ NegationsWin simpleGlobs sourcePatterns
      (spellings workspaceFs (some (.ofStr "/ws")) (some (.ofStr "/ws")) (.ofStr "/ws/src/gen/a.ts")) := by
  refine ⟨_, rfl, by decide +kernel, fun h => ?_⟩
  have hrelative : Path.ofStr "src/gen/a.ts" ∈ spellings workspaceFs (some (.ofStr "/ws"))
      (some (.ofStr "/ws")) (.ofStr "/ws/src/gen/a.ts") := by decide +kernel
  exact h.2 _ hrelative ⟨"!src/gen/**", by decide, by decide +kernel, _, rfl, by decide +kernel⟩

theorem restarts_iff_source : ∃ m, PathMatcher.new simpleGlobs sourcePatterns = .ok m ∧
    (eventMatches m workspaceFs (some (.ofStr "/ws")) (some (.ofStr "/ws")) (modified "/ws/src/a.ts") = true ↔
      NegationsWin simpleGlobs sourcePatterns (spellings workspaceFs (some (.ofStr "/ws"))
        (some (.ofStr "/ws")) (.ofStr "/ws/src/a.ts"))) := by
  refine ⟨_, rfl, (restarts_iff setLaw_simpleGlobs rfl rfl rfl).2 ?_⟩
  rintro ⟨f, hf, pattern, hpattern, hnegated, glob, hglob, hmatch⟩
  exfalso
  have hnone : ∀ f ∈ spellings workspaceFs (some (.ofStr "/ws")) (some (.ofStr "/ws"))
      (.ofStr "/ws/src/a.ts"), globText "src/gen/**" f.toStr = false := by decide +kernel
  obtain rfl : pattern = "!src/gen/**" := by
    have hcases : ∀ p ∈ sourcePatterns, isNegated p = true → p = "!src/gen/**" := by decide +kernel
    exact hcases pattern hpattern hnegated
  have hbody : (splitNegation "!src/gen/**").2 = "src/gen/**" := by decide +kernel
  rw [hbody] at hglob
  rw [← Except.ok.inj hglob, hnone f hf] at hmatch
  cases hmatch

end Luchta.Proof.Watch
