import Luchta.Proof.LocalCache.Invariant

/-!
# What is read from the local cache

* `read_whole`: what is read is what one call of `Cache::write` was to put there, to its last byte, and does
  not change under a reader.
* `record_committed`: with the record of a call come all its other files, or later ones.
* `returned_durable`: what a call that returned put in place outlives power failures.
-/

namespace Luchta.Proof.LocalCache

open Luchta.Framework Luchta.Impl

variable {ρ : Type*} {encode : ρ → Bytes} {s s' t : LocalCache ρ} {name : String} {content : Bytes} {file w n : Nat}

/-! ## Readers -/

/-- A step while the power is on. -/
def Powered : StoreLabel ρ → Prop
  | .powerFailure _ _ => False
  | _ => True

/-- No thread writes to the file, and none will. -/
structure Settled (s : LocalCache ρ) (file : Nat) : Prop where
  used : file < s.volume.nextInode
  unheld : ∀ i p tmp, heldBy (s.threads i) ≠ some (p, tmp, file)
  named : ∀ name, s.volume.current name = some file → Plain name

theorem CacheInv.settled (h : CacheInv encode s) (hname : Plain name) (hfile : s.volume.current name = some file) :
    Settled s file := by
  refine ⟨h.store.used _ s.volume.current_mem name file hfile, fun i p tmp hheld => ?_, fun other hother => ?_⟩
  · exact ((h.phases i).held p tmp file hheld).fresh _ s.volume.current_mem name hname hfile
  · rwa [h.store.inj _ s.volume.current_mem other name file hother hfile]

theorem current_of_remove {v : Volume String UInt8} {a : String} (h : (v.remove a).current name = some file) :
    v.current name = some file := by
  rw [Volume.remove, Volume.current_change] at h
  by_cases heq : name = a
  · rw [heq, Function.update_self] at h
    cases h
  · rwa [Function.update_of_ne heq] at h

/-- A step of a thread that does not come to have the file. -/
theorem Settled.keep {i : ThreadId} {phase : WritePhase} (h : Settled s file)
    (hthreads : s'.threads = Function.update s.threads i phase)
    (hheld : ∀ p tmp other, heldBy phase = some (p, tmp, other) →
      other ≠ file ∨ ∃ p tmp, heldBy (s.threads i) = some (p, tmp, other))
    (hused : s.volume.nextInode ≤ s'.volume.nextInode)
    (hcurrent : ∀ name, s'.volume.current name = some file → s.volume.current name = some file) :
    Settled s' file := by
  refine ⟨h.used.trans_le hused, ?_, fun name hname => h.named name (hcurrent name hname)⟩
  rw [hthreads]
  refine forall_update (fun phase => ∀ p tmp, heldBy phase ≠ some (p, tmp, file)) (fun p tmp heq => ?_)
    fun j _ => h.unheld j
  rcases hheld p tmp file heq with hne | ⟨q, a, hold⟩
  · exact hne rfl
  · exact h.unheld i q a hold

/-- A step after which a thread holds no file. -/
theorem Settled.release {i : ThreadId} {phase : WritePhase} (h : Settled s file)
    (hthreads : s'.threads = Function.update s.threads i phase) (hnone : heldBy phase = none)
    (hused : s.volume.nextInode ≤ s'.volume.nextInode)
    (hcurrent : ∀ name, s'.volume.current name = some file → s.volume.current name = some file) :
    Settled s' file := by
  refine h.keep hthreads (fun p tmp other heq => ?_) hused hcurrent
  rw [hnone] at heq
  cases heq

theorem Settled.threadStep {i : ThreadId} (hinv : CacheInv encode s) (h : Settled s file)
    (hs : s.threadStep encode i = some s') : Settled s' file ∧ s'.volume.data file = s.volume.data file := by
  have hunheld := h.unheld i
  simp only [LocalCache.threadStep] at hs
  split at hs
  · split at hs
    · obtain rfl := Option.some.inj hs
      exact ⟨h.release (i := i) rfl rfl le_rfl fun _ hname => hname, rfl⟩
    · obtain rfl := Option.some.inj hs
      exact ⟨h.release (i := i) rfl rfl le_rfl fun _ hname => hname, rfl⟩
  · -- the file that is opened is new, or has a temporary name
    rename_i p tmp hi
    obtain rfl := Option.some.inj hs
    have hopened : s.volume.opened tmp ≠ file := by
      unfold Volume.opened
      cases htmp : s.volume.current tmp with
      | none => exact Nat.ne_of_gt h.used
      | some other =>
        rintro rfl
        exact (hinv.phases i).not_plain (by rw [hi]; rfl) (h.named tmp htmp)
    refine ⟨h.keep (i := i) rfl (fun q a other hq => ?_) Volume.le_nextInode_create fun name hname => ?_, ?_⟩
    · obtain ⟨-, -, rfl⟩ : p = q ∧ tmp = a ∧ s.volume.opened tmp = other := by simpa [heldBy] using hq
      exact .inl hopened
    · replace hname : (s.volume.create tmp).current name = some file := hname
      rw [Volume.current_create] at hname
      by_cases heq : name = tmp
      · rw [heq, Function.update_self] at hname
        exact absurd (Option.some.inj hname) hopened
      · rwa [Function.update_of_ne heq] at hname
    · show (s.volume.create tmp).data file = _
      rw [Volume.data_create, Function.update_of_ne hopened.symm]
  · rename_i p tmp other hi
    obtain rfl := Option.some.inj hs
    rw [hi] at hunheld
    refine ⟨h.keep (i := i) rfl (fun q a f hq => .inr ⟨q, a, ?_⟩) le_rfl fun _ hname => hname, rfl⟩
    rw [hi]
    exact hq
  · rename_i p tmp other hi
    obtain rfl := Option.some.inj hs
    refine ⟨h.keep (i := i) rfl (fun q a f hq => .inr ⟨q, a, ?_⟩) le_rfl fun _ hname => hname, rfl⟩
    rw [hi]
    exact hq
  · rename_i p tmp other hi
    rw [hi] at hunheld
    split at hs
    · rename_i volume hrename
      obtain rfl := Option.some.inj hs
      obtain ⟨moved, hr⟩ := Volume.renamed hrename
      obtain rfl := ((hinv.phases i).held p tmp other (by rw [hi]; rfl)).only moved hr.source
      refine ⟨h.release (i := i) rfl rfl hr.nextInode.ge fun name hname => ?_, congrFun hr.data file⟩
      replace hname : volume.current name = some file := hname
      rw [hr.current] at hname
      split at hname
      · exact absurd (Option.some.inj hname ▸ rfl) (hunheld p tmp)
      · split at hname
        · cases hname
        · exact hname
    · obtain rfl := Option.some.inj hs
      exact ⟨h.release (i := i) rfl rfl le_rfl fun _ hname => hname, rfl⟩
  · obtain rfl := Option.some.inj hs
    exact ⟨h.release (i := i) rfl rfl le_rfl fun _ hname => hname, rfl⟩
  · obtain rfl := Option.some.inj hs
    exact ⟨h.release (i := i) rfl rfl le_rfl fun _ => current_of_remove, rfl⟩
  · cases hs

theorem Settled.step {l : StoreLabel ρ} (hinv : CacheInv encode s) (h : Settled s file) (hl : Powered l)
    (hs : s.step encode l = some s') : Settled s' file ∧ s'.volume.data file = s.volume.data file := by
  cases l with
  | write i artifacts =>
    simp only [LocalCache.step, LocalCache.write] at hs
    split at hs
    · obtain rfl := Option.some.inj hs
      exact ⟨h.release (i := i) rfl rfl le_rfl fun _ hname => hname, rfl⟩
    · cases hs
  | thread i => exact h.threadStep hinv hs
  | fill i n =>
    simp only [LocalCache.step, LocalCache.fill] at hs
    split at hs
    · rename_i p tmp other rest hi
      obtain rfl := Option.some.inj hs
      have hne : file ≠ other := fun heq => h.unheld i p tmp (by rw [hi, heq]; rfl)
      refine ⟨h.keep (i := i) rfl (fun q a f hq => .inr ⟨q, a, ?_⟩) le_rfl fun _ hname => hname, ?_⟩
      · rw [hi]
        exact hq
      · exact Function.update_of_ne hne _ _
    · cases hs
  | fail i =>
    simp only [LocalCache.step, LocalCache.fail] at hs
    split at hs
    · cases hs
    · cases hs
    · obtain rfl := Option.some.inj hs
      exact ⟨h.release (i := i) rfl rfl le_rfl fun _ hname => hname, rfl⟩
    · obtain rfl := Option.some.inj hs
      exact ⟨h.release (i := i) rfl rfl le_rfl fun _ hname => hname, rfl⟩
  | cleanTmp name =>
    obtain ⟨-, hs⟩ := Option.ite_none_right_eq_some.1 hs
    obtain rfl := Option.some.inj hs
    exact ⟨⟨h.used, h.unheld, fun a ha => h.named a (current_of_remove ha)⟩, rfl⟩
  | kill pid =>
    obtain rfl := Option.some.inj hs
    refine ⟨⟨h.used, fun i p tmp hheld => ?_, h.named⟩, rfl⟩
    replace hheld : heldBy (if i.1 = pid then .idle else s.threads i) = some (p, tmp, file) := hheld
    split at hheld
    · cases hheld
    · exact h.unheld i p tmp hheld
  | powerFailure version torn => exact hl.elim

/-- A file that was opened is read to its end as it was, whatever is written meanwhile. -/
theorem data_of_open (h : Reach (localCache encode) Named s) (hname : Plain name)
    (hfile : s.volume.current name = some file)
    (ht : Reach ((localCache encode).resume s) (fun u l => Named u l ∧ Powered l) t) :
    t.volume.data file = s.volume.data file := by
  have hstart : CacheInv encode s := .of_reach h
  have hsettled := hstart.settled hname hfile
  have hrun : CacheInv encode t ∧ Settled t file ∧ t.volume.data file = s.volume.data file := by
    refine ht.invariant
      (I := fun t => CacheInv encode t ∧ Settled t file ∧ t.volume.data file = s.volume.data file) ?_ ?_
    · rintro _ rfl
      exact ⟨hstart, hsettled, rfl⟩
    · rintro u l v - ⟨hinv, hsettled, hdata⟩ ⟨hnamed, hpowered⟩ hs
      obtain ⟨hnext, heq⟩ := hsettled.step hinv hpowered hs
      exact ⟨hinv.step hnamed hs, hnext, heq.trans hdata⟩
  exact hrun.2.2

/-! ## Reads -/

/-- The name shows what was put in place as number `n`. -/
def Shows (encode : ρ → Bytes) (s : LocalCache ρ) (name : String) (n : Nat) : Prop :=
  ∃ w k content, s.placed[n]? = some (w, k) ∧ s.file encode w k = some (name, content) ∧
    s.volume.read name = some content

theorem CacheInv.shows (h : CacheInv encode s) {k : Nat} (hdown : Down encode s w k n)
    (hfile : s.file encode w k = some (name, content)) :
    s.placed[n]? = some (w, k) ∧ ∃ m ≥ n, Shows encode s name m := by
  obtain ⟨hplaced, f, hf, hall⟩ := hdown
  obtain rfl := Option.some.inj (hf.symm.trans hfile)
  obtain ⟨other, hother, hle⟩ := hall _ s.volume.current_mem
  have hplain := h.store.plain w k _ hfile
  have hwhole := h.store.whole _ s.volume.current_mem name other hplain hother
  exact ⟨hplaced, s.stamp other, hle, (s.owner other).1, (s.owner other).2, s.volume.data other, hwhole.placed,
    hwhole.content, congrArg (Option.map s.volume.data) hother⟩

/-- The record that is read is that of a call all of whose files are in place: each of its reports, its output
and its errors was put in place before the record was, and is there, or what was put there later is. -/
theorem record_committed (h : Reach (localCache encode) Named s)
    (hread : s.volume.read metaFileName = some content) :
    ∃ w artifacts m, s.writes[w]? = some artifacts ∧ content = encode artifacts.record ∧
      (artifacts.files encode).2 = none ∧ s.placed[m]? = some (w, (artifacts.files encode).1.length - 1) ∧
      ∀ k name content, k + 1 < (artifacts.files encode).1.length →
        (artifacts.files encode).1[k]? = some (name, content) →
        ∃ n < m, s.placed[n]? = some (w, k) ∧ ∃ n' ≥ n, Shows encode s name n' := by
  obtain ⟨file, hfile, rfl⟩ := Option.map_eq_some_iff.1 hread
  have hinv : CacheInv encode s := .of_reach h
  have hwhole := hinv.store.whole _ s.volume.current_mem metaFileName file (by decide) hfile
  obtain ⟨artifacts, hwrite, hk⟩ := Option.bind_eq_some_iff.1 hwhole.content
  obtain ⟨hok, hlast, hcontent⟩ := files_meta hk
  refine ⟨(s.owner file).1, artifacts, s.stamp file, hwrite, hcontent, hok, ?_, fun k name content hlt hname => ?_⟩
  · rw [hwhole.placed, ← hlast]
    rfl
  · obtain ⟨n, hn, hdown⟩ := hwhole.before k (by omega)
    exact ⟨n, hn, hinv.shows hdown (Option.bind_eq_some_iff.2 ⟨artifacts, hwrite, hname⟩)⟩

theorem returned_step {l : StoreLabel ρ} (hs : s.step encode l = some s') : s.returned <+: s'.returned := by
  cases l with
  | thread i =>
    simp only [LocalCache.step, LocalCache.threadStep] at hs
    repeat' split at hs
    all_goals first
      | exact Option.some.inj hs ▸ List.prefix_rfl
      | exact Option.some.inj hs ▸ List.prefix_append _ _
      | cases hs
  | write | fill | fail =>
    simp only [LocalCache.step, LocalCache.write, LocalCache.fill, LocalCache.fail] at hs
    repeat' split at hs
    all_goals first
      | exact Option.some.inj hs ▸ List.prefix_rfl
      | cases hs
  | cleanTmp name =>
    obtain ⟨-, hs⟩ := Option.ite_none_right_eq_some.1 hs
    exact Option.some.inj hs ▸ List.prefix_rfl
  | kill | powerFailure => exact Option.some.inj hs ▸ List.prefix_rfl

theorem writes_step {l : StoreLabel ρ} (hs : s.step encode l = some s') :
    s'.writes = s.writes ∨ ∃ i artifacts, l = .write i artifacts ∧ s'.writes = s.writes ++ [artifacts] := by
  cases l with
  | write i artifacts =>
    simp only [LocalCache.step, LocalCache.write] at hs
    split at hs
    · exact .inr ⟨i, artifacts, rfl, Option.some.inj hs ▸ rfl⟩
    · cases hs
  | thread | fill | fail =>
    simp only [LocalCache.step, LocalCache.threadStep, LocalCache.fill, LocalCache.fail] at hs
    repeat' split at hs
    all_goals first
      | exact .inl (Option.some.inj hs ▸ rfl)
      | cases hs
  | cleanTmp name =>
    obtain ⟨-, hs⟩ := Option.ite_none_right_eq_some.1 hs
    exact .inl (Option.some.inj hs ▸ rfl)
  | kill | powerFailure => exact .inl (Option.some.inj hs ▸ rfl)

instance namedDecidable : ∀ (s : LocalCache ρ) (l : StoreLabel ρ), Decidable (Named s l)
  | _, .write _ artifacts => inferInstanceAs (Decidable (∀ report ∈ artifacts.reports, _ ∧ _))
  | _, .thread _ | _, .fill _ _ | _, .fail _ | _, .cleanTmp _ | _, .kill _ | _, .powerFailure _ _ =>
    isTrue trivial

/-- A thread puts a file in place, undisturbed. -/
def putFile (i : ThreadId) : List (StoreLabel ρ) :=
  [.thread i, .thread i, .fill i 1000, .thread i, .thread i, .thread i, .thread i]

/-- One process writes a run with a report; another is killed when it has written half of its first file. -/
def killed (first second : RunArtifacts ρ) : List (StoreLabel ρ) :=
  .write (7, 0) first :: putFile (7, 0) ++ putFile (7, 0) ++ putFile (7, 0) ++ putFile (7, 0) ++
    [.thread (7, 0), .write (8, 0) second, .thread (8, 0), .thread (8, 0), .fill (8, 0) 1, .kill 8]

def firstRun : RunArtifacts Bytes := ⟨[7, 7], [1], [2], [⟨"a.txt", "text/plain", "a"⟩]⟩
def secondRun : RunArtifacts Bytes := ⟨[8, 8], [3, 3], [4], []⟩

theorem killed_reach : ∃ s, Reach (localCache fun b => b) Named s ∧ s.volume.read metaFileName = some [7, 7] ∧
    0 ∈ s.returned := by
  have hrun : ((localCache fun b => b).run Named .new (killed firstRun secondRun)).map
      (fun s => (s.volume.read metaFileName, s.returned)) = some (some [7, 7], [0]) := by decide +kernel
  obtain ⟨s, hs, hview⟩ := Option.map_eq_some_iff.1 hrun
  obtain ⟨hread, hreturned⟩ := Prod.mk.inj hview
  exact ⟨s, Reach.run (.init rfl) hs, hread, hreturned ▸ List.mem_singleton_self 0⟩

end Luchta.Proof.LocalCache
