import Luchta.Framework.Fallible
import Luchta.Impl.ResolveInputs

/-!
# Resolution through caches

What a resolution computes, said without its caches: worktree roots and listings come from the
listing cache of the run where it has them, and from the disk otherwise.

* `computes_cachedWorktreeRoot`, `computes_cachedInputCandidates`: one lookup.
* `resolveInputs_eq`: a whole resolution.
-/

namespace Luchta.Proof.Resolve

open Luchta.Framework Luchta.Impl

section Known

variable (disk : Disk) (listing : Option ListingCache)

/-- The worktree root as a run knows it. -/
def knownRoot (baseDir : Path) : Except CacheError Path :=
  match listing.bind (·.worktreeRoots.lookup baseDir) with
  | some root => .ok root
  | none => disk.discover baseDir

def knownPrefix (baseDir : Path) : Except CacheError Path := do
  let workDir ← knownRoot disk listing baseDir
  stripBaseDir baseDir workDir

def listedNow (baseDir : Path) : Except CacheError (List Path) := do
  let basePrefix ← knownPrefix disk listing baseDir
  let worktreeRoot ← knownRoot disk listing baseDir
  disk.list worktreeRoot basePrefix baseDir

/-- The listing as a run knows it. -/
def knownCandidates (baseDir : Path) : Except CacheError (List Path) :=
  match listing.bind (·.inputCandidates.lookup baseDir) with
  | some candidates => .ok candidates
  | none => listedNow disk listing baseDir

end Known

/-- Caches that know nothing else than the listing cache at the start and the disk. -/
structure Coherent (disk : Disk) (listing : Option ListingCache) (s : ResolveCaches) : Prop where
  candidates : ∀ baseDir l, s.candidates.lookup baseDir = some l →
    knownCandidates disk listing baseDir = .ok l
  prefixes : ∀ baseDir p, s.baseDirPrefixes.lookup baseDir = some p →
    knownPrefix disk listing baseDir = .ok p
  roots : ∀ baseDir root, s.worktreeRoots.lookup baseDir = some root →
    knownRoot disk listing baseDir = .ok root
  sameRoots : knownRoot disk s.listing = knownRoot disk listing
  sameCandidates : knownCandidates disk s.listing = knownCandidates disk listing

variable {disk : Disk} {listing : Option ListingCache}

theorem Coherent.start (disk : Disk) (listing : Option ListingCache) :
    Coherent disk listing ⟨∅, ∅, ∅, listing⟩ where
  candidates _ _ h := by simp at h
  prefixes _ _ h := by simp at h
  roots _ _ h := by simp at h
  sameRoots := rfl
  sameCandidates := rfl

/-! ## Insertions that tell the truth -/

theorem lookup_insert_ok {κ ν ε : Type} [DecidableEq κ] {m : HashMap κ ν} {f : κ → Except ε ν}
    (hm : ∀ k v, m.lookup k = some v → f k = .ok v) {k : κ} {v : ν} (hv : f k = .ok v) :
    ∀ k' v', (m.insert k v).lookup k' = some v' → f k' = .ok v' := by
  intro k' v' h
  rw [HashMap.lookup_insert_if] at h
  split at h
  · rename_i heq
    rw [heq, hv, Option.some.inj h]
  · exact hm k' v' h

theorem knownRoot_insertRoot {baseDir root : Path} (h : knownRoot disk listing baseDir = .ok root) :
    knownRoot disk (listing.map fun cache =>
      { cache with worktreeRoots := cache.worktreeRoots.insert baseDir root }) =
        knownRoot disk listing := by
  cases listing with
  | none => rfl
  | some cache =>
    funext b
    by_cases hb : b = baseDir
    · subst hb
      rw [h]
      simp [knownRoot]
    · simp [knownRoot, AList.lookup_insert_ne hb]

theorem knownPrefix_congr {listing' : Option ListingCache}
    (h : knownRoot disk listing' = knownRoot disk listing) :
    knownPrefix disk listing' = knownPrefix disk listing := by
  funext b
  rw [knownPrefix, knownPrefix, h]

theorem listedNow_congr {listing' : Option ListingCache}
    (h : knownRoot disk listing' = knownRoot disk listing) :
    listedNow disk listing' = listedNow disk listing := by
  funext b
  rw [listedNow, listedNow, knownPrefix_congr h, h]

theorem knownCandidates_insertRoot {baseDir root : Path}
    (h : knownRoot disk listing baseDir = .ok root) :
    knownCandidates disk (listing.map fun cache =>
      { cache with worktreeRoots := cache.worktreeRoots.insert baseDir root }) =
        knownCandidates disk listing := by
  funext b
  have hnow := listedNow_congr (knownRoot_insertRoot h)
  cases listing with
  | none => rfl
  | some cache => rw [knownCandidates, hnow]; rfl

theorem knownCandidates_insertCandidates {baseDir : Path} {l : List Path}
    (h : knownCandidates disk listing baseDir = .ok l) :
    knownCandidates disk (listing.map fun cache =>
      { cache with inputCandidates := cache.inputCandidates.insert baseDir l }) =
        knownCandidates disk listing := by
  cases listing with
  | none => rfl
  | some cache =>
    have hnow : listedNow disk (some { cache with
        inputCandidates := cache.inputCandidates.insert baseDir l }) = listedNow disk (some cache) :=
      listedNow_congr rfl
    funext b
    by_cases hb : b = baseDir
    · subst hb
      rw [h]
      simp [knownCandidates]
    · simp [knownCandidates, AList.lookup_insert_ne hb, hnow]

/-! ## Lookups -/

theorem computes_cachedWorktreeRoot (baseDir : Path) :
    Computes (Coherent disk listing) (cachedWorktreeRoot disk baseDir)
      (knownRoot disk listing baseDir) := by
  have hshared : Computes (Coherent disk listing) (memo
      (fun s => s.listing.bind (·.worktreeRoots.lookup baseDir))
      (fun root s => { s with listing := s.listing.map fun cache =>
        { cache with worktreeRoots := cache.worktreeRoots.insert baseDir root } })
      (liftM (disk.discover baseDir))) (knownRoot disk listing baseDir) := by
    apply computes_memo
    · intro s hs root h
      rw [← hs.sameRoots, knownRoot, h]
    · intro s hs h
      have hdisk : disk.discover baseDir = knownRoot disk listing baseDir := by
        rw [← hs.sameRoots, knownRoot, h]
      rw [hdisk]
      exact Computes.lift _ s hs
    · intro s hs root hroot
      have hroot' : knownRoot disk s.listing baseDir = .ok root := by
        rw [hs.sameRoots, hroot]
      exact { hs with
        sameRoots := (knownRoot_insertRoot hroot').trans hs.sameRoots
        sameCandidates := (knownCandidates_insertRoot hroot').trans hs.sameCandidates }
  apply computes_memo
  · exact fun s hs root h => hs.roots baseDir root h
  · exact fun s hs _ => hshared s hs
  · exact fun s hs root hroot => { hs with roots := lookup_insert_ok hs.roots hroot }

theorem computes_worktreeRelativeBaseDir (baseDir : Path) :
    Computes (Coherent disk listing) (worktreeRelativeBaseDir disk baseDir)
      (knownPrefix disk listing baseDir) :=
  (computes_cachedWorktreeRoot baseDir).bind fun _ _ => .lift _

theorem computes_qualifiedBaseDirPrefix (baseDir : Path) :
    Computes (Coherent disk listing) (qualifiedBaseDirPrefix disk baseDir)
      (knownPrefix disk listing baseDir) := by
  apply computes_memo
  · exact fun s hs p h => hs.prefixes baseDir p h
  · exact fun s hs _ => computes_worktreeRelativeBaseDir baseDir s hs
  · exact fun s hs p hp => { hs with prefixes := lookup_insert_ok hs.prefixes hp }

theorem computes_listInputCandidates (baseDir : Path) :
    Computes (Coherent disk listing) (listInputCandidates disk baseDir)
      (listedNow disk listing baseDir) := by
  -- the map that is put aside and back tells the truth all along
  have hfresh : Computes (Coherent disk listing)
      (modify fun s => { s with worktreeRoots := ∅ } : ResolveM PUnit) (.ok ⟨⟩) :=
    computes_modify fun s hs => { hs with roots := fun _ _ h => by simp at h }
  have hbody : ∀ outer : HashMap Path Path,
      (∀ b root, outer.lookup b = some root → knownRoot disk listing b = .ok root) →
      Computes (Coherent disk listing) (do
        modify fun s => { s with worktreeRoots := ∅ }
        let basePrefix ← worktreeRelativeBaseDir disk baseDir
        let worktreeRoot ← cachedWorktreeRoot disk baseDir
        let candidates ← liftM (disk.list worktreeRoot basePrefix baseDir)
        modify fun s => { s with worktreeRoots := outer }
        return candidates) (listedNow disk listing baseDir) := by
    intro outer houter
    have hback : Computes (Coherent disk listing)
        (modify fun s => { s with worktreeRoots := outer } : ResolveM PUnit) (.ok ⟨⟩) :=
      computes_modify fun s hs => { hs with roots := houter }
    refine hfresh.seq ?_
    refine (computes_worktreeRelativeBaseDir baseDir).bind fun basePrefix _ => ?_
    refine (computes_cachedWorktreeRoot baseDir).bind fun worktreeRoot _ => ?_
    exact (Computes.lift _).andThen fun candidates _ => hback.seq (.pure _)
  exact fun s hs => hbody s.worktreeRoots hs.roots s hs

theorem computes_cachedInputCandidates (baseDir : Path) :
    Computes (Coherent disk listing) (cachedInputCandidates disk baseDir)
      (knownCandidates disk listing baseDir) := by
  have hshared : Computes (Coherent disk listing) (memo
      (fun s => s.listing.bind (·.inputCandidates.lookup baseDir))
      (fun candidates s => { s with listing := s.listing.map fun cache =>
        { cache with inputCandidates := cache.inputCandidates.insert baseDir candidates } })
      (listInputCandidates disk baseDir)) (knownCandidates disk listing baseDir) := by
    apply computes_memo
    · intro s hs l h
      rw [← hs.sameCandidates, knownCandidates, h]
    · intro s hs h
      have hnow : listedNow disk listing baseDir = knownCandidates disk listing baseDir := by
        rw [← hs.sameCandidates, knownCandidates, h, listedNow_congr hs.sameRoots]
      rw [← hnow]
      exact computes_listInputCandidates baseDir s hs
    · intro s hs l hl
      have hl' : knownCandidates disk s.listing baseDir = .ok l := by
        rw [hs.sameCandidates, hl]
      have hroots : knownRoot disk (s.listing.map fun cache =>
          { cache with inputCandidates := cache.inputCandidates.insert baseDir l }) =
            knownRoot disk s.listing := by
        cases s.listing <;> rfl
      exact { hs with
        sameRoots := hroots.trans hs.sameRoots
        sameCandidates := (knownCandidates_insertCandidates hl').trans hs.sameCandidates }
  apply computes_memo
  · exact fun s hs l h => hs.candidates baseDir l h
  · exact fun s hs _ => hshared s hs
  · exact fun s hs l hl => { hs with candidates := lookup_insert_ok hs.candidates hl }

/-! ## Whole resolutions -/

section Known

variable (disk : Disk) (listing : Option ListingCache) (globs : GlobLibrary)
  (prior : HashMap String FileEntry) (exclusions : Exclusions)

def knownSingleRequest (request : ResolveRequest) (base : ResolvedBase) :
    Except CacheError (List FileEntry) :=
  match request.semantics with
  | .Literal => resolveLiteralRequest disk prior exclusions request base
  | .Wildcard => do
    let candidates ← knownCandidates disk listing request.baseDir
    resolveWildcardWithCandidates disk globs prior exclusions base request.pattern candidates

def knownRequestEntries (request : ResolveRequest) : Except CacheError (Path × List FileEntry) := do
  let basePrefix ← knownPrefix disk listing request.baseDir
  let worktreeRoot := popComponents basePrefix.components.length request.baseDir
  let entries ← knownSingleRequest disk listing globs prior exclusions request
    ⟨request.baseDir, basePrefix⟩
  return (worktreeRoot, entries)

def knownInputs (requests : List ResolveRequest) (priorEntries : List FileEntry) :
    Except CacheError (List FileEntry) := do
  if requests = [] then return []
  let prior := priorEntriesByPath priorEntries
  let exclusions ← Exclusions.compile globs (negations requests)
  let resolved ← (includes requests).mapM (knownRequestEntries disk listing globs prior exclusions)
  return dedupeAndSortEntries disk (resolved.flatMap Prod.snd) (uniqueRoots (resolved.map Prod.fst))

end Known

variable {globs : GlobLibrary}

theorem computes_resolveSingleRequest (prior : HashMap String FileEntry) (exclusions : Exclusions)
    (request : ResolveRequest) (base : ResolvedBase) :
    Computes (Coherent disk listing) (resolveSingleRequest disk globs prior exclusions request base)
      (knownSingleRequest disk listing globs prior exclusions request base) := by
  unfold resolveSingleRequest knownSingleRequest
  cases request.semantics with
  | Literal => exact .lift _
  | Wildcard => exact (computes_cachedInputCandidates _).bind fun _ _ => .lift _

theorem computes_resolveRequestEntries (prior : HashMap String FileEntry) (exclusions : Exclusions)
    (request : ResolveRequest) :
    Computes (Coherent disk listing) (resolveRequestEntries disk globs prior exclusions request)
      (knownRequestEntries disk listing globs prior exclusions request) := by
  refine (computes_qualifiedBaseDirPrefix _).bind fun basePrefix _ => ?_
  exact (computes_resolveSingleRequest _ _ _ _).bind fun _ _ => .pure _

theorem computes_resolveInputs (requests : List ResolveRequest) (priorEntries : List FileEntry) :
    Computes (Coherent disk listing) (resolveInputsM disk globs requests priorEntries)
      (knownInputs disk listing globs requests priorEntries) := by
  unfold resolveInputsM knownInputs
  by_cases h : requests = []
  · rw [if_pos h, if_pos h]
    exact .pure []
  · rw [if_neg h, if_neg h]
    refine (Computes.lift _).bind fun exclusions _ => ?_
    refine (Computes.mapM _ fun request _ => ?_).bind fun resolved _ => .pure _
    exact computes_resolveRequestEntries _ _ _

/-- A resolution computes what the listing cache and the disk say, and leaves a listing cache that
says the same. -/
theorem resolveInputs_eq (disk : Disk) (globs : GlobLibrary) (requests : List ResolveRequest)
    (priorEntries : List FileEntry) (listing : Option ListingCache) :
    (resolveInputsWithSemanticsAndOptions disk globs requests priorEntries listing).1 =
        knownInputs disk listing globs requests priorEntries ∧
      knownRoot disk (resolveInputsWithSemanticsAndOptions disk globs requests priorEntries listing).2 =
        knownRoot disk listing ∧
      knownCandidates disk
          (resolveInputsWithSemanticsAndOptions disk globs requests priorEntries listing).2 =
        knownCandidates disk listing := by
  obtain ⟨hvalue, hcaches⟩ := computes_resolveInputs requests priorEntries _
    (Coherent.start disk listing)
  exact ⟨hvalue, hcaches.sameRoots, hcaches.sameCandidates⟩

end Luchta.Proof.Resolve
