import Luchta.Framework.Mutex
import Luchta.Proof.LocalCache.Names

/-!
# What is in the directory of a task

* `Whole`: a file under its own name is synced, is what a call was to put there, and the files that come
  before it in the call have been put in place, for good.
* `PhaseInv`: what a thread knows where it is in `Cache::write`.
* `Frame`: a step changes one file, which is not in place yet, and one temporary name.
* `CacheInv.step`: every step keeps all this, with a power failure, the death of a process and the removal of
  temporary files among them.
-/

namespace Luchta.Proof.LocalCache

open Luchta.Framework Luchta.Impl

variable {ρ : Type*} {encode : ρ → Bytes} {s s' : LocalCache ρ} {d : String → Option Nat} {name tmp : String}
  {file t pid : Nat} {w k n : Nat} {phase : WritePhase} {i j : ThreadId}

/-- No report is named like a temporary file, or leads out of the directory. -/
def Named : LocalCache ρ → StoreLabel ρ → Prop
  | _, .write _ artifacts => ∀ report ∈ artifacts.reports, Plain report.filename ∧ report.filename ≠ "."
  | _, _ => True

/-! ## Files in place -/

/-- The file is the one that was put in place as number `n`, and whatever a power failure leaves, it or one
that was put in place later has its name. -/
def Down (encode : ρ → Bytes) (s : LocalCache ρ) (w k n : Nat) : Prop :=
  s.placed[n]? = some (w, k) ∧ ∃ f, s.file encode w k = some f ∧
    ∀ d ∈ s.volume.versions, ∃ file, d f.1 = some file ∧ n ≤ s.stamp file

structure Whole (encode : ρ → Bytes) (s : LocalCache ρ) (name : String) (file : Nat) : Prop where
  synced : s.volume.synced file = true
  content : s.file encode (s.owner file).1 (s.owner file).2 = some (name, s.volume.data file)
  placed : s.placed[s.stamp file]? = some (s.owner file)
  before : ∀ k < (s.owner file).2, ∃ n < s.stamp file, Down encode s (s.owner file).1 k n

/-- The file is under no name of its own, and will not be after a power failure. -/
def Fresh (s : LocalCache ρ) (file : Nat) : Prop :=
  ∀ d ∈ s.volume.versions, ∀ name, Plain name → d name ≠ some file

structure StoreInv (encode : ρ → Bytes) (s : LocalCache ρ) : Prop where
  plain : ∀ w k f, s.file encode w k = some f → Plain f.1
  used : ∀ d ∈ s.volume.versions, ∀ name file, d name = some file → file < s.volume.nextInode
  whole : ∀ d ∈ s.volume.versions, ∀ name file, Plain name → d name = some file → Whole encode s name file
  inj : ∀ d ∈ s.volume.versions, ∀ a b file, d a = some file → d b = some file → a = b
  tmp : ∀ name file, ¬ Plain name → s.volume.current name = some file → Fresh s file
  returned : ∀ w ∈ s.returned, ∃ artifacts, s.writes[w]? = some artifacts ∧ (artifacts.files encode).2 = none ∧
    ∀ k < (artifacts.files encode).1.length, ∃ n, Down encode s w k n

/-! ## Threads -/

/-- The temporary name that the thread has taken. -/
def tmpOf : WritePhase → Option String
  | .create _ tmp | .fill _ tmp _ _ | .sync _ tmp _ | .rename _ tmp _ => some tmp
  | _ => none

/-- The file that the thread has under its temporary name. -/
def heldBy : WritePhase → Option (Placing × String × Nat)
  | .fill p tmp file _ | .sync p tmp file | .rename p tmp file => some (p, tmp, file)
  | _ => none

def placingOf : WritePhase → Option Placing
  | .create p _ | .fill p _ _ _ | .sync p _ _ | .rename p _ _ | .syncDir p => some p
  | _ => none

/-- The call, and the file in it. -/
def jobOf : WritePhase → Option (Nat × Nat)
  | .next w k => some (w, k)
  | phase => (placingOf phase).map fun p => (p.write, p.index)

structure Held (s : LocalCache ρ) (p : Placing) (tmp : String) (file : Nat) : Prop where
  used : file < s.volume.nextInode
  owner : s.owner file = (p.write, p.index)
  here : ∀ name, s.volume.current name = some file → name = tmp
  only : ∀ other, s.volume.current tmp = some other → other = file
  fresh : Fresh s file

/-- How far the thread's file is. -/
def Filled (s : LocalCache ρ) : WritePhase → Prop
  | .fill p _ file rest => s.volume.data file ++ rest = p.content
  | .sync p _ file => s.volume.data file = p.content
  | .rename p _ file => s.volume.data file = p.content ∧ s.volume.synced file = true
  | _ => True

structure PhaseInv (encode : ρ → Bytes) (s : LocalCache ρ) (pid : Nat) (phase : WritePhase) : Prop where
  held : ∀ p tmp file, heldBy phase = some (p, tmp, file) → Held s p tmp file
  filled : Filled s phase
  name : ∀ tmp, tmpOf phase = some tmp → ∃ name, ∃ nonce < s.nonce pid, tmp = tmpPath name pid nonce
  placing : ∀ p, placingOf phase = some p → s.file encode p.write p.index = some (p.name, p.content)
  job : ∀ w k, jobOf phase = some (w, k) → (∃ artifacts, s.writes[w]? = some artifacts) ∧
    ∀ k' < k, ∃ n, Down encode s w k' n
  syncing : ∀ p, phase = .syncDir p → ∃ n, s.placed[n]? = some (p.write, p.index) ∧
    ∃ file, s.volume.current p.name = some file ∧ n ≤ s.stamp file
  discard : ∀ tmp, phase = .discard tmp → ¬ Plain tmp

theorem PhaseInv.idle : PhaseInv encode s pid .idle :=
  ⟨nofun, trivial, nofun, nofun, nofun, nofun, nofun⟩

structure CacheInv (encode : ρ → Bytes) (s : LocalCache ρ) : Prop where
  store : StoreInv encode s
  phases : ∀ i, PhaseInv encode s i.1 (s.threads i)
  ownTmp : ∀ i j tmp, tmpOf (s.threads i) = some tmp → tmpOf (s.threads j) = some tmp → i = j
  ownFile : ∀ i j p q a b file, heldBy (s.threads i) = some (p, a, file) →
    heldBy (s.threads j) = some (q, b, file) → i = j

/-! ## Frames -/

/-- Nothing but the file `t` and the temporary name `tmp` changes, apart from what is put in place. -/
structure Frame (s s' : LocalCache ρ) (t : Nat) (tmp : String) : Prop where
  used : s.volume.nextInode ≤ s'.volume.nextInode
  data : ∀ file ≠ t, s'.volume.data file = s.volume.data file
  synced : ∀ file ≠ t, s'.volume.synced file = s.volume.synced file
  owner : ∀ file ≠ t, s'.owner file = s.owner file
  stamp : ∀ file ≠ t, s'.stamp file = s.stamp file
  placed : s.placed <+: s'.placed
  writes : s.writes <+: s'.writes
  versions : ∀ d ∈ s'.volume.versions, d ∈ s.volume.versions ∨ d = s'.volume.current
  current : ∀ name file, s'.volume.current name = some file → file = t ∨ s.volume.current name = some file
  kept : ∀ name file, Plain name → s.volume.current name = some file →
    ∃ file', s'.volume.current name = some file' ∧ s.stamp file ≤ s'.stamp file'
  others : ∀ name, ¬ Plain name → name ≠ tmp →
    s'.volume.current name = s.volume.current name ∨ s'.volume.current name = none

theorem getElem?_mono {α : Type*} {l l' : List α} {a : α} (h : l <+: l') (ha : l[n]? = some a) :
    l'[n]? = some a := by
  obtain ⟨r, rfl⟩ := h
  rw [List.getElem?_append_left (List.getElem?_eq_some_iff.1 ha).1]
  exact ha

namespace Frame

theorem file_eq (hf : Frame s s' t tmp) {f : String × Bytes} (h : s.file encode w k = some f) :
    s'.file encode w k = some f := by
  obtain ⟨artifacts, hw, hk⟩ := Option.bind_eq_some_iff.1 h
  exact Option.bind_eq_some_iff.2 ⟨artifacts, getElem?_mono hf.writes hw, hk⟩

theorem down (hf : Frame s s' t tmp) (hinv : StoreInv encode s) (ht : Fresh s t) (h : Down encode s w k n) :
    Down encode s' w k n := by
  obtain ⟨hplaced, f, hfile, hdown⟩ := h
  have hplain := hinv.plain w k f hfile
  refine ⟨getElem?_mono hf.placed hplaced, f, hf.file_eq hfile, fun d hd => ?_⟩
  rcases hf.versions d hd with hd | rfl
  · obtain ⟨file, hname, hle⟩ := hdown d hd
    have hne : file ≠ t := fun heq => ht d hd f.1 hplain (heq ▸ hname)
    exact ⟨file, hname, by rwa [hf.stamp file hne]⟩
  · obtain ⟨file, hname, hle⟩ := hdown _ s.volume.current_mem
    obtain ⟨file', hname', hle'⟩ := hf.kept f.1 file hplain hname
    exact ⟨file', hname', hle.trans hle'⟩

theorem whole (hf : Frame s s' t tmp) (hinv : StoreInv encode s) (ht : Fresh s t) (hne : file ≠ t)
    (h : Whole encode s name file) : Whole encode s' name file := by
  refine ⟨(hf.synced file hne).trans h.synced, ?_, ?_, fun k hk => ?_⟩
  · rw [hf.owner file hne, hf.data file hne]
    exact hf.file_eq h.content
  · rw [hf.owner file hne, hf.stamp file hne]
    exact getElem?_mono hf.placed h.placed
  · rw [hf.owner file hne] at hk ⊢
    rw [hf.stamp file hne]
    obtain ⟨n, hn, hdown⟩ := h.before k hk
    exact ⟨n, hn, hf.down hinv ht hdown⟩

theorem fresh (hf : Frame s s' t tmp) (hne : file ≠ t) (h : Fresh s file) : Fresh s' file := by
  intro d hd name hname heq
  rcases hf.versions d hd with hd | rfl
  · exact h d hd name hname heq
  · exact (hf.current name file heq).elim hne (h _ s.volume.current_mem name hname)

/-- What the other threads know stays true. -/
theorem phaseInv (hf : Frame s s' t tmp) (hinv : StoreInv encode s) (ht : Fresh s t)
    (hnonce : s.nonce pid ≤ s'.nonce pid) (h : PhaseInv encode s pid phase)
    (hfile : ∀ p a file, heldBy phase = some (p, a, file) → file ≠ t)
    (htmp : ∀ a, tmpOf phase = some a → a ≠ tmp) : PhaseInv encode s' pid phase := by
  refine ⟨fun p a file hheld => ?_, ?_, fun a ha => ?_, fun p hp => hf.file_eq (h.placing p hp),
    fun w k hjob => ?_, fun p hp => ?_, h.discard⟩
  · have hne := hfile p a file hheld
    have hold := h.held p a file hheld
    refine ⟨hold.used.trans_le hf.used, (hf.owner file hne).trans hold.owner, fun name hname => ?_,
      fun other hother => ?_, hf.fresh hne hold.fresh⟩
    · exact hold.here name ((hf.current name file hname).resolve_left hne)
    · have ha : tmpOf phase = some a := by
        cases phase <;> simp [heldBy, tmpOf] at hheld ⊢ <;> exact hheld.2.1
      obtain ⟨_, _, _, rfl⟩ := h.name a ha
      rcases hf.others _ (not_plain_tmpPath _ _ _) (htmp _ ha) with heq | hnone
      · exact hold.only other (heq ▸ hother)
      · rw [hnone] at hother
        cases hother
  · have hfilled := h.filled
    cases phase with
    | fill p a file rest =>
      show s'.volume.data file ++ rest = p.content
      rw [hf.data file (hfile p a file rfl)]
      exact hfilled
    | sync p a file => exact (hf.data file (hfile p a file rfl)).trans hfilled
    | rename p a file =>
      have hne := hfile p a file rfl
      exact ⟨(hf.data file hne).trans hfilled.1, (hf.synced file hne).trans hfilled.2⟩
    | _ => trivial
  · obtain ⟨name, nonce, hlt, rfl⟩ := h.name a ha
    exact ⟨name, nonce, hlt.trans_le hnonce, rfl⟩
  · obtain ⟨⟨artifacts, hw⟩, hbefore⟩ := h.job w k hjob
    refine ⟨⟨artifacts, getElem?_mono hf.writes hw⟩, fun k' hk' => ?_⟩
    obtain ⟨n, hdown⟩ := hbefore k' hk'
    exact ⟨n, hf.down hinv ht hdown⟩
  · obtain ⟨n, hplaced, file, hname, hle⟩ := h.syncing p hp
    subst hp
    have hplain := hinv.plain _ _ _ (h.placing p rfl)
    obtain ⟨file', hname', hle'⟩ := hf.kept p.name file hplain hname
    exact ⟨n, getElem?_mono hf.placed hplaced, file', hname', hle.trans hle'⟩

/-- What a thread knows once it has gone on with its file. -/
theorem ownPhase {phase' : WritePhase} (hf : Frame s s' t tmp) (hinv : StoreInv encode s) (ht : Fresh s t)
    (hnonce : s.nonce pid ≤ s'.nonce pid) (h : PhaseInv encode s pid phase)
    (htmp : ∀ a, tmpOf phase' = some a → tmpOf phase = some a) (hplacing : placingOf phase' = placingOf phase)
    (hjob : jobOf phase' = jobOf phase)
    (hheld : ∀ p a file, heldBy phase' = some (p, a, file) → Held s' p a file) (hfilled : Filled s' phase')
    (hsyncing : ∀ p, phase' = .syncDir p → ∃ n, s'.placed[n]? = some (p.write, p.index) ∧
      ∃ file, s'.volume.current p.name = some file ∧ n ≤ s'.stamp file)
    (hdiscard : ∀ a, phase' ≠ .discard a) : PhaseInv encode s' pid phase' := by
  refine ⟨hheld, hfilled, fun a ha => ?_, fun p hp => hf.file_eq (h.placing p (hplacing ▸ hp)), fun w k hwk => ?_,
    hsyncing, fun a ha => absurd ha (hdiscard a)⟩
  · obtain ⟨name, nonce, hlt, rfl⟩ := h.name a (htmp a ha)
    exact ⟨name, nonce, hlt.trans_le hnonce, rfl⟩
  · obtain ⟨⟨artifacts, hw⟩, hbefore⟩ := h.job w k (hjob ▸ hwk)
    refine ⟨⟨artifacts, getElem?_mono hf.writes hw⟩, fun k' hk' => ?_⟩
    obtain ⟨n, hdown⟩ := hbefore k' hk'
    exact ⟨n, hf.down hinv ht hdown⟩

/-- What the directory is like stays true, where it is so of the file that changes. -/
theorem store (hf : Frame s s' t tmp) (hinv : StoreInv encode s) (ht : Fresh s t)
    (hplain : ∀ w k f, s'.file encode w k = some f → Plain f.1)
    (hreturned : ∀ w ∈ s'.returned, w ∈ s.returned ∨ ∃ artifacts, s'.writes[w]? = some artifacts ∧
      (artifacts.files encode).2 = none ∧ ∀ k < (artifacts.files encode).1.length, ∃ n, Down encode s' w k n)
    (hused : ∀ name, s'.volume.current name = some t → t < s'.volume.nextInode)
    (hinj : ∀ a b, s'.volume.current a = some t → s'.volume.current b = some t → a = b)
    (hnew : ∀ name, Plain name → s'.volume.current name = some t → Whole encode s' name t) :
    StoreInv encode s' := by
  have hcurrent : ∀ a b file, s'.volume.current a = some file → s'.volume.current b = some file → a = b := by
    intro a b file ha hb
    rcases hf.current a file ha with rfl | haold
    · exact hinj a b ha hb
    · rcases hf.current b file hb with rfl | hbold
      · exact hinj a b ha hb
      · exact hinv.inj _ s.volume.current_mem a b file haold hbold
  refine ⟨hplain, fun d hd name file hname => ?_, fun d hd name file hn hname => ?_,
    fun d hd a b file ha hb => ?_, fun b file hb hbfile d hd a ha hafile => ?_, fun w hw => ?_⟩
  · rcases hf.versions d hd with hd | rfl
    · exact (hinv.used d hd name file hname).trans_le hf.used
    · rcases hf.current name file hname with rfl | hold
      · exact hused name hname
      · exact (hinv.used _ s.volume.current_mem name file hold).trans_le hf.used
  · rcases hf.versions d hd with hd | rfl
    · have hne : file ≠ t := fun heq => ht d hd name hn (heq ▸ hname)
      exact hf.whole hinv ht hne (hinv.whole d hd name file hn hname)
    · by_cases hne : file = t
      · subst hne
        exact hnew name hn hname
      · have hold := (hf.current name file hname).resolve_left hne
        exact hf.whole hinv ht hne (hinv.whole _ s.volume.current_mem name file hn hold)
  · rcases hf.versions d hd with hd | rfl
    · exact hinv.inj d hd a b file ha hb
    · exact hcurrent a b file ha hb
  · rcases hf.versions d hd with hd | rfl
    · rcases hf.current b file hbfile with rfl | hold
      · exact ht d hd a ha hafile
      · exact hinv.tmp b file hb hold d hd a ha hafile
    · exact hb (hcurrent a b file hafile hbfile ▸ ha)
  · refine (hreturned w hw).elim (fun hw => ?_) id
    obtain ⟨artifacts, hwrite, hok, hall⟩ := hinv.returned w hw
    refine ⟨artifacts, getElem?_mono hf.writes hwrite, hok, fun k hk => ?_⟩
    obtain ⟨n, hdown⟩ := hall k hk
    exact ⟨n, hf.down hinv ht hdown⟩

end Frame

/-! ## Steps -/

/-- A step of the thread `i`. -/
theorem CacheInv.advance (h : CacheInv encode s) (hf : Frame s s' t tmp) (ht : Fresh s t)
    (hthreads : s'.threads = Function.update s.threads i phase) (hnonce : ∀ pid, s.nonce pid ≤ s'.nonce pid)
    (hstore : StoreInv encode s') (hphase : PhaseInv encode s' i.1 phase)
    (hfile : ∀ j ≠ i, ∀ p a file, heldBy (s.threads j) = some (p, a, file) → file ≠ t)
    (htmp : ∀ j ≠ i, ∀ a, tmpOf (s.threads j) = some a → a ≠ tmp)
    (hownTmp : ∀ a, tmpOf phase = some a → ∀ j ≠ i, tmpOf (s.threads j) ≠ some a)
    (hownFile : ∀ p a file, heldBy phase = some (p, a, file) →
      ∀ j ≠ i, ∀ q b, heldBy (s.threads j) ≠ some (q, b, file)) : CacheInv encode s' := by
  have hcases : ∀ j, j = i ∧ s'.threads j = phase ∨ j ≠ i ∧ s'.threads j = s.threads j := fun j => by
    rw [hthreads]
    by_cases hj : j = i
    · exact .inl ⟨hj, hj ▸ Function.update_self j phase s.threads⟩
    · exact .inr ⟨hj, Function.update_of_ne hj phase s.threads⟩
  refine ⟨hstore, fun j => ?_, fun j l a hj hl => ?_, fun j l p q a b file hj hl => ?_⟩
  · rcases hcases j with ⟨rfl, heq⟩ | ⟨hne, heq⟩
    · exact heq ▸ hphase
    · exact heq ▸ hf.phaseInv h.store ht (hnonce j.1) (h.phases j) (hfile j hne) (htmp j hne)
  · rcases hcases j with ⟨rfl, hjeq⟩ | ⟨hjne, hjeq⟩ <;> rcases hcases l with ⟨rfl, hleq⟩ | ⟨hlne, hleq⟩ <;>
      rw [hjeq] at hj <;> rw [hleq] at hl
    · exact absurd hl (hownTmp a hj l hlne)
    · exact absurd hj (hownTmp a hl j hjne)
    · exact h.ownTmp j l a hj hl
  · rcases hcases j with ⟨rfl, hjeq⟩ | ⟨hjne, hjeq⟩ <;> rcases hcases l with ⟨rfl, hleq⟩ | ⟨hlne, hleq⟩ <;>
      rw [hjeq] at hj <;> rw [hleq] at hl
    · exact absurd hl (hownFile p a file hj l hlne q b)
    · exact absurd hj (hownFile q b file hl j hjne p a)
    · exact h.ownFile j l p q a b file hj hl

theorem tmpOf_of_heldBy {p : Placing} (h : heldBy phase = some (p, tmp, file)) : tmpOf phase = some tmp := by
  cases phase <;> simp [heldBy, tmpOf] at h ⊢ <;> exact h.2.1

theorem StoreInv.fresh_nextInode (h : StoreInv encode s) : Fresh s s.volume.nextInode :=
  fun d hd name _ heq => absurd (h.used d hd name _ heq) (Nat.lt_irrefl _)

theorem PhaseInv.not_plain (h : PhaseInv encode s pid phase) (htmp : tmpOf phase = some tmp) : ¬ Plain tmp := by
  obtain ⟨name, nonce, -, rfl⟩ := h.name tmp htmp
  exact not_plain_tmpPath name pid nonce

/-- A step that changes no file, and takes at most temporary names away. -/
theorem CacheInv.quiet (h : CacheInv encode s) (hf : ∀ t tmp, Frame s s' t tmp)
    (hgone : ∀ name file, s'.volume.current name = some file → s.volume.current name = some file)
    (hthreads : s'.threads = Function.update s.threads i phase) (hnonce : ∀ pid, s.nonce pid ≤ s'.nonce pid)
    (hplain : ∀ w k f, s'.file encode w k = some f → Plain f.1)
    (hreturned : ∀ w ∈ s'.returned, w ∈ s.returned ∨ ∃ artifacts, s'.writes[w]? = some artifacts ∧
      (artifacts.files encode).2 = none ∧ ∀ k < (artifacts.files encode).1.length, ∃ n, Down encode s' w k n)
    (hphase : PhaseInv encode s' i.1 (s.threads i) → PhaseInv encode s' i.1 phase)
    (hownTmp : ∀ a, tmpOf phase = some a → ∀ j ≠ i, tmpOf (s.threads j) ≠ some a)
    (hheld : ∀ p a file, heldBy phase = some (p, a, file) → heldBy (s.threads i) = some (p, a, file)) :
    CacheInv encode s' := by
  have hfresh := h.store.fresh_nextInode
  have hunused : ∀ name, s'.volume.current name ≠ some s.volume.nextInode := fun name hname =>
    absurd (h.store.used _ s.volume.current_mem name _ (hgone name _ hname)) (Nat.lt_irrefl _)
  have hfile : ∀ j p a file, heldBy (s.threads j) = some (p, a, file) → file ≠ s.volume.nextInode :=
    fun j p a file hj heq => Nat.lt_irrefl _ (heq ▸ ((h.phases j).held p a file hj).used)
  have htmp : ∀ j a, tmpOf (s.threads j) = some a → a ≠ "" := fun j a hj heq =>
    (h.phases j).not_plain hj (heq ▸ (by decide : Plain ""))
  have hframe := hf s.volume.nextInode ""
  refine h.advance hframe hfresh hthreads hnonce ?_ (hphase ?_) (fun j _ => hfile j) (fun j _ => htmp j) hownTmp
    fun p a file hp j hj q b hq => hj (h.ownFile j i q p b a file hq (hheld p a file hp))
  · exact hframe.store h.store hfresh hplain hreturned (fun name hname => absurd hname (hunused name))
      (fun a _ ha => absurd ha (hunused a)) fun name _ hname => absurd hname (hunused name)
  · exact hframe.phaseInv h.store hfresh (hnonce i.1) (h.phases i) (hfile i) (htmp i)

/-- A step that at most takes temporary names away. -/
theorem Frame.gone (hnext : s'.volume.nextInode = s.volume.nextInode) (hdata : s'.volume.data = s.volume.data)
    (hsynced : s'.volume.synced = s.volume.synced) (howner : s'.owner = s.owner) (hstamp : s'.stamp = s.stamp)
    (hplaced : s'.placed = s.placed) (hwrites : s.writes <+: s'.writes)
    (hversions : ∀ d ∈ s'.volume.versions, d ∈ s.volume.versions ∨ d = s'.volume.current)
    (hcurrent : ∀ name, s'.volume.current name = s.volume.current name ∨
      ¬ Plain name ∧ s'.volume.current name = none) (t : Nat) (tmp : String) : Frame s s' t tmp := by
  refine ⟨hnext.ge, fun file _ => congrFun hdata file, fun file _ => congrFun hsynced file,
    fun file _ => congrFun howner file, fun file _ => congrFun hstamp file, hplaced ▸ List.prefix_rfl, hwrites,
    hversions, fun name file hname => ?_, fun name file hplain hname => ?_, fun name _ _ => ?_⟩
  · rcases hcurrent name with heq | ⟨-, hnone⟩
    · exact .inr (heq ▸ hname)
    · rw [hnone] at hname
      cases hname
  · have heq := (hcurrent name).resolve_right fun hgone => hgone.1 hplain
    exact ⟨file, heq.trans hname, (congrFun hstamp file).ge⟩
  · exact (hcurrent name).imp_right And.right

theorem CacheInv.write {artifacts : RunArtifacts ρ} (h : CacheInv encode s)
    (hreports : ∀ report ∈ artifacts.reports, Plain report.filename) :
    CacheInv encode { s.setThread i (.next s.writes.length 0) with writes := s.writes ++ [artifacts] } := by
  refine h.quiet (.gone rfl rfl rfl rfl rfl rfl (List.prefix_append _ _) (fun _ hd => .inl hd) fun _ => .inl rfl)
    (fun _ _ hname => hname) rfl (fun _ => le_rfl) (fun w k f hf => ?_) (fun w hw => .inl hw)
    (fun _ => ⟨nofun, trivial, nofun, nofun, fun w k hjob => ?_, nofun, nofun⟩) nofun nofun
  · obtain ⟨a, hw, hk⟩ := Option.bind_eq_some_iff.1 hf
    by_cases hlt : w < s.writes.length
    · have hold : s.writes[w]? = some a := (List.getElem?_append_left hlt).symm.trans hw
      exact h.store.plain w k f (Option.bind_eq_some_iff.2 ⟨a, hold, hk⟩)
    · have hmem := List.mem_of_getElem? ((List.getElem?_append_right (by omega)).symm.trans hw)
      obtain rfl := List.mem_singleton.1 hmem
      exact files_plain hreports (List.mem_of_getElem? hk)
  · obtain ⟨rfl, rfl⟩ := Prod.mk.inj (Option.some.inj hjob)
    exact ⟨⟨artifacts, by simp⟩, fun _ hk => absurd hk (Nat.not_lt_zero _)⟩

theorem CacheInv.takeName {content : Bytes} (h : CacheInv encode s) (hi : s.threads i = .next w k)
    (hfile : s.file encode w k = some (name, content)) :
    CacheInv encode { s.setThread i (.create ⟨w, k, name, content⟩ (tmpPath name i.1 (s.nonce i.1))) with
      nonce := Function.update s.nonce i.1 (s.nonce i.1 + 1) } := by
  refine h.quiet (.gone rfl rfl rfl rfl rfl rfl List.prefix_rfl (fun _ hd => .inl hd) fun _ => .inl rfl)
    (fun _ _ hname => hname) rfl (fun pid => ?_) h.store.plain (fun w hw => .inl hw) (fun hphase => ?_)
    (fun a ha j hj hja => ?_) nofun
  · show s.nonce pid ≤ Function.update s.nonce i.1 (s.nonce i.1 + 1) pid
    by_cases hpid : pid = i.1
    · subst hpid
      rw [Function.update_self]
      exact Nat.le_succ _
    · rw [Function.update_of_ne hpid]
  · refine ⟨nofun, trivial, fun a ha => ⟨name, s.nonce i.1, ?_, (Option.some.inj ha).symm⟩, fun p hp => ?_,
      fun w' k' hjob => ?_, nofun, nofun⟩
    · show s.nonce i.1 < Function.update s.nonce i.1 (s.nonce i.1 + 1) i.1
      rw [Function.update_self]
      exact Nat.lt_succ_self _
    · obtain rfl := Option.some.inj hp
      exact hfile
    · exact hphase.job w' k' (by rw [hi]; exact hjob)
  · -- the counter is past the names of all threads of the process
    obtain rfl := Option.some.inj ha
    obtain ⟨name', nonce, hlt, heq⟩ := (h.phases j).name _ hja
    obtain ⟨hpid, hnonce⟩ := tmpPath_inj heq
    rw [hpid] at hnonce
    omega

theorem CacheInv.finish (h : CacheInv encode s) (hi : s.threads i = .next w k)
    (hfile : s.file encode w k = none) : CacheInv encode { s.setThread i .idle with
      returned := s.returned ++
        if s.writes[w]?.any fun artifacts => (artifacts.files encode).2.isNone then [w] else [] } := by
  refine h.quiet (.gone rfl rfl rfl rfl rfl rfl List.prefix_rfl (fun _ hd => .inl hd) fun _ => .inl rfl)
    (fun _ _ hname => hname) rfl (fun _ => le_rfl) h.store.plain (fun w' hw => ?_) (fun _ => .idle) nofun nofun
  refine (List.mem_append.1 hw).imp_right fun hw => ?_
  split at hw
  · rename_i hok
    obtain rfl := List.mem_singleton.1 hw
    obtain ⟨⟨artifacts, hwrite⟩, hbefore⟩ := (h.phases i).job w' k (by rw [hi]; rfl)
    rw [hwrite] at hok
    rw [LocalCache.file, hwrite] at hfile
    exact ⟨artifacts, hwrite, Option.isNone_iff_eq_none.1 hok, fun k' hk' =>
      hbefore k' (hk'.trans_le (List.getElem?_eq_none_iff.1 hfile))⟩
  · cases hw

/-- A thread gives up, or goes on with the file that it has. -/
theorem CacheInv.leave (h : CacheInv encode s)
    (hphase : ∀ s', PhaseInv encode s' i.1 (s.threads i) → PhaseInv encode s' i.1 phase)
    (htmp : ∀ a, tmpOf phase = some a → tmpOf (s.threads i) = some a)
    (hheld : ∀ p a file, heldBy phase = some (p, a, file) → heldBy (s.threads i) = some (p, a, file)) :
    CacheInv encode (s.setThread i phase) := by
  exact h.quiet (.gone rfl rfl rfl rfl rfl rfl List.prefix_rfl (fun _ hd => .inl hd) fun _ => .inl rfl)
    (fun _ _ hname => hname) rfl (fun _ => le_rfl) h.store.plain (fun w hw => .inl hw) (hphase _)
    (fun a ha j hj hja => hj (h.ownTmp j i a hja (htmp a ha))) hheld

/-- The temporary name goes. -/
theorem CacheInv.remove (h : CacheInv encode s) (hname : ¬ Plain name)
    (hphase : ∀ s', PhaseInv encode s' i.1 (s.threads i) → PhaseInv encode s' i.1 phase)
    (htmp : ∀ a, tmpOf phase = some a → tmpOf (s.threads i) = some a)
    (hheld : ∀ p a file, heldBy phase = some (p, a, file) → heldBy (s.threads i) = some (p, a, file)) :
    CacheInv encode { s.setThread i phase with volume := s.volume.remove name } := by
  have hcurrent : (s.volume.remove name).current = Function.update s.volume.current name none :=
    Volume.current_change
  refine h.quiet (.gone rfl rfl rfl rfl rfl rfl List.prefix_rfl (fun d hd => ?_) fun a => ?_)
    (fun a file ha => ?_) rfl (fun _ => le_rfl) h.store.plain (fun w hw => .inl hw) (hphase _)
    (fun a ha j hj hja => hj (h.ownTmp j i a hja (htmp a ha))) hheld
  · exact (Volume.mem_versions_change.1 hd).imp_right fun heq => heq.trans hcurrent.symm
  · show (s.volume.remove name).current a = _ ∨ _ ∧ (s.volume.remove name).current a = none
    rw [hcurrent]
    by_cases ha : a = name
    · subst ha
      exact .inr ⟨hname, Function.update_self a none s.volume.current⟩
    · exact .inl (Function.update_of_ne ha none s.volume.current)
  · replace ha : (s.volume.remove name).current a = some file := ha
    rw [hcurrent] at ha
    by_cases heq : a = name
    · rw [heq, Function.update_self] at ha
      cases ha
    · rwa [Function.update_of_ne heq] at ha

theorem CacheInv.syncDir {p : Placing} (h : CacheInv encode s) (hi : s.threads i = .syncDir p) :
    CacheInv encode { s.setThread i (.next p.write (p.index + 1)) with volume := s.volume.syncDir } := by
  refine h.quiet (.gone rfl rfl rfl rfl rfl rfl List.prefix_rfl (fun d hd => ?_) fun _ => .inl rfl)
    (fun _ _ hname => hname) rfl (fun _ => le_rfl) h.store.plain (fun w hw => .inl hw) (fun hphase => ?_)
    nofun nofun
  · exact .inr (Volume.mem_versions_syncDir.1 hd)
  · rw [hi] at hphase
    refine ⟨nofun, trivial, nofun, nofun, fun w k hjob => ?_, nofun, nofun⟩
    obtain ⟨rfl, rfl⟩ := Prod.mk.inj (Option.some.inj hjob)
    obtain ⟨hwrite, hbefore⟩ := hphase.job p.write p.index rfl
    refine ⟨hwrite, fun k' hk' => ?_⟩
    rcases Nat.lt_succ_iff_lt_or_eq.1 hk' with hlt | rfl
    · exact hbefore k' hlt
    · -- the directory on the disk is the one that the file was put into
      obtain ⟨n, hplaced, file, hname, hle⟩ := hphase.syncing p rfl
      refine ⟨n, hplaced, _, hphase.placing p rfl, fun d hd => ?_⟩
      rw [Volume.mem_versions_syncDir.1 hd]
      exact ⟨file, hname, hle⟩

/-! ## Steps that change a file -/

/-- Nobody else has the file, or the name, that the thread has. -/
theorem CacheInv.own {p : Placing} (h : CacheInv encode s) (hi : heldBy (s.threads i) = some (p, tmp, file)) :
    (∀ j ≠ i, ∀ q b other, heldBy (s.threads j) = some (q, b, other) → other ≠ file) ∧
      ∀ j ≠ i, ∀ a, tmpOf (s.threads j) = some a → a ≠ tmp := by
  refine ⟨fun j hj q b other hq heq => hj (h.ownFile j i q p b tmp file (heq ▸ hq) hi), fun j hj a ha heq => ?_⟩
  exact hj (h.ownTmp j i tmp (heq ▸ ha) (tmpOf_of_heldBy hi))

/-- The thread writes to the file that it has, or syncs it. -/
theorem CacheInv.touch {p : Placing} {volume : Volume String UInt8} (h : CacheInv encode s)
    (hi : heldBy (s.threads i) = some (p, tmp, file)) (hnext : heldBy phase = some (p, tmp, file))
    (hplacing : placingOf phase = placingOf (s.threads i)) (hjob : jobOf phase = jobOf (s.threads i))
    (hcurrent : volume.current = s.volume.current) (hversions : volume.versions = s.volume.versions)
    (hused : volume.nextInode = s.volume.nextInode) (hdata : ∀ other ≠ file, volume.data other = s.volume.data other)
    (hsynced : ∀ other ≠ file, volume.synced other = s.volume.synced other)
    (hfilled : Filled { s.setThread i phase with volume := volume } phase) :
    CacheInv encode { s.setThread i phase with volume := volume } := by
  have hold := (h.phases i).held p tmp file hi
  have hf : Frame s { s.setThread i phase with volume := volume } file tmp := by
    refine ⟨hused.ge, hdata, hsynced, fun _ _ => rfl, fun _ _ => rfl, List.prefix_rfl, List.prefix_rfl,
      fun d hd => .inl (hversions ▸ hd), fun name other hname => .inr (hcurrent ▸ hname),
      fun name other _ hname => ⟨other, (congrFun hcurrent name).trans hname, le_rfl⟩,
      fun name _ _ => .inl (congrFun hcurrent name)⟩
  have hnone : ∀ name, Plain name → volume.current name ≠ some file := fun name hname =>
    hcurrent ▸ hold.fresh _ s.volume.current_mem name hname
  refine h.advance hf hold.fresh rfl (fun _ => le_rfl) ?_ ?_ (h.own hi).1 (h.own hi).2 (fun a ha j hj hja => ?_)
    fun q a other hother j hj r b hb => ?_
  · refine hf.store h.store hold.fresh h.store.plain (fun w hw => .inl hw) (fun _ _ => hold.used.trans_le hused.ge)
      (fun a b ha hb => ?_) fun name hname heq => absurd heq (hnone name hname)
    rw [hold.here a (hcurrent ▸ ha), hold.here b (hcurrent ▸ hb)]
  · refine hf.ownPhase h.store hold.fresh le_rfl (h.phases i) (fun a ha => ?_) hplacing hjob
      (fun q a other hheld => ?_) hfilled (fun q hq => ?_) fun a ha => ?_
    · rw [tmpOf_of_heldBy hi, ← tmpOf_of_heldBy hnext, ha]
    · obtain ⟨rfl, rfl, rfl⟩ : p = q ∧ tmp = a ∧ file = other := by simpa using hnext.symm.trans hheld
      refine ⟨hold.used.trans_le hused.ge, hold.owner, fun name hname => hold.here name (hcurrent ▸ hname),
        fun other hother => hold.only other (hcurrent ▸ hother), fun d hd => hold.fresh d (hversions ▸ hd)⟩
    · rw [hq] at hnext
      cases hnext
    · rw [ha] at hnext
      cases hnext
  · have heq := (tmpOf_of_heldBy hnext).symm.trans ha
    exact (h.own hi).2 j hj a hja (Option.some.inj heq).symm
  · obtain ⟨-, -, rfl⟩ : p = q ∧ tmp = a ∧ file = other := by simpa using hnext.symm.trans hother
    exact (h.own hi).1 j hj r b file hb rfl

theorem CacheInv.create {p : Placing} (h : CacheInv encode s) (hi : s.threads i = .create p tmp) :
    CacheInv encode { s.setThread i (.fill p tmp (s.volume.opened tmp) p.content) with
      volume := s.volume.create tmp
      owner := Function.update s.owner (s.volume.opened tmp) (p.write, p.index) } := by
  have htmp : ¬ Plain tmp := (h.phases i).not_plain (by rw [hi]; rfl)
  have hother : ∀ j ≠ i, ∀ a, tmpOf (s.threads j) = some a → a ≠ tmp := fun j hj a ha heq =>
    hj (h.ownTmp j i tmp (heq ▸ ha) (by rw [hi]; rfl))
  -- what is opened is a file under this name only, or a new one
  have hopened : s.volume.current tmp = some (s.volume.opened tmp) ∨
      s.volume.current tmp = none ∧ s.volume.opened tmp = s.volume.nextInode := by
    unfold Volume.opened
    cases s.volume.current tmp with
    | none => exact .inr ⟨rfl, rfl⟩
    | some file => exact .inl rfl
  generalize hopen : s.volume.opened tmp = file at *
  have hfresh : Fresh s file := by
    rcases hopened with hcurrent | ⟨-, rfl⟩
    · exact h.store.tmp tmp file htmp hcurrent
    · exact h.store.fresh_nextInode
  have hheld : ∀ j ≠ i, ∀ q a other, heldBy (s.threads j) = some (q, a, other) → other ≠ file := by
    rintro j hj q a other hq rfl
    have hold := (h.phases j).held q a other hq
    rcases hopened with hcurrent | ⟨-, rfl⟩
    · exact hother j hj a (tmpOf_of_heldBy hq) (hold.here tmp hcurrent).symm
    · exact Nat.lt_irrefl _ hold.used
  have hcurrent : (s.volume.create tmp).current = Function.update s.volume.current tmp (some file) := by
    rw [Volume.current_create, hopen]
  have hplainName : ∀ name, Plain name → (s.volume.create tmp).current name = s.volume.current name := by
    intro name hname
    have hne : name ≠ tmp := fun heq => htmp (heq ▸ hname)
    rw [hcurrent, Function.update_of_ne hne]
  have hnone : ∀ name, Plain name → (s.volume.create tmp).current name ≠ some file := fun name hname =>
    hplainName name hname ▸ hfresh _ s.volume.current_mem name hname
  have hhere : ∀ name, (s.volume.create tmp).current name = some file → name = tmp := by
    intro name hname
    by_contra hne
    rw [hcurrent, Function.update_of_ne hne] at hname
    rcases hopened with htmpFile | ⟨-, rfl⟩
    · exact hne (h.store.inj _ s.volume.current_mem name tmp file hname htmpFile)
    · exact Nat.lt_irrefl _ (h.store.used _ s.volume.current_mem name _ hname)
  have hlt : file < (s.volume.create tmp).nextInode :=
    hopen ▸ Volume.opened_lt fun file => h.store.used _ s.volume.current_mem tmp file
  have hf : Frame s { s.setThread i (.fill p tmp file p.content) with
      volume := s.volume.create tmp
      owner := Function.update s.owner file (p.write, p.index) } file tmp := by
    refine ⟨Volume.le_nextInode_create, fun other hne => ?_, fun other hne => ?_, fun other hne => ?_,
      fun _ _ => rfl, List.prefix_rfl, List.prefix_rfl, fun d hd => Volume.mem_versions_create.1 hd,
      fun name other hname => ?_, fun name other hname heq => ⟨other, (hplainName name hname).trans heq, le_rfl⟩,
      fun name _ hne => .inl ?_⟩
    · show (s.volume.create tmp).data other = _
      rw [Volume.data_create, hopen, Function.update_of_ne hne]
    · show (s.volume.create tmp).synced other = _
      rw [Volume.synced_create, hopen, Function.update_of_ne hne]
    · exact Function.update_of_ne hne _ s.owner
    · replace hname : (s.volume.create tmp).current name = some other := hname
      rw [hcurrent] at hname
      by_cases heq : name = tmp
      · rw [heq, Function.update_self] at hname
        exact .inl (Option.some.inj hname).symm
      · exact .inr (by rwa [Function.update_of_ne heq] at hname)
    · show (s.volume.create tmp).current name = _
      rw [hcurrent, Function.update_of_ne hne]
  refine h.advance hf hfresh rfl (fun _ => le_rfl) ?_ ?_ hheld hother (fun a ha j hj hja => ?_)
    fun q a other hq j hj r b hb => ?_
  · exact hf.store h.store hfresh h.store.plain (fun w hw => .inl hw) (fun _ _ => hlt)
      (fun a b ha hb => (hhere a ha).trans (hhere b hb).symm)
      fun name hname heq => absurd heq (hnone name hname)
  · refine hf.ownPhase h.store hfresh le_rfl (h.phases i) (by rw [hi]; exact fun a ha => ha) (by rw [hi]; rfl)
      (by rw [hi]; rfl) (fun q a other hq => ?_) ?_ nofun nofun
    · obtain ⟨rfl, rfl, rfl⟩ : p = q ∧ tmp = a ∧ file = other := by simpa [heldBy] using hq
      refine ⟨hlt, Function.update_self file _ s.owner, hhere, fun other hother => ?_, ?_⟩
      · replace hother : (s.volume.create tmp).current tmp = some other := hother
        rw [hcurrent, Function.update_self] at hother
        exact (Option.some.inj hother).symm
      · intro d hd name hname heq
        rcases Volume.mem_versions_create.1 hd with hd | rfl
        · exact hfresh d hd name hname heq
        · exact hnone name hname heq
    · show (s.volume.create tmp).data file ++ p.content = p.content
      rw [Volume.data_create, hopen, Function.update_self, List.nil_append]
  · exact hother j hj a hja (Option.some.inj ha).symm
  · obtain ⟨-, -, rfl⟩ : p = q ∧ tmp = a ∧ file = other := by simpa [heldBy] using hq
    exact hheld j hj r b file hb rfl

theorem CacheInv.place {p : Placing} {volume : Volume String UInt8} (h : CacheInv encode s)
    (hi : s.threads i = .rename p tmp file) (hrename : s.volume.rename tmp p.name = some volume) :
    CacheInv encode { s.setThread i (.syncDir p) with
      volume := volume
      placed := s.placed ++ [(p.write, p.index)]
      stamp := Function.update s.stamp file s.placed.length } := by
  have hphase := h.phases i
  rw [hi] at hphase
  have hheldBy : heldBy (s.threads i) = some (p, tmp, file) := by rw [hi]; rfl
  have hold := hphase.held p tmp file rfl
  obtain ⟨hdata, hsynced⟩ := hphase.filled
  have hplacing := hphase.placing p rfl
  have hname : Plain p.name := h.store.plain _ _ _ hplacing
  have hne : p.name ≠ tmp := fun heq => hphase.not_plain rfl (heq ▸ hname)
  obtain ⟨other, hr⟩ := Volume.renamed hrename
  obtain rfl := hold.only other hr.source
  have hself : volume.current p.name = some other := (hr.current p.name).trans (if_pos rfl)
  have honly : ∀ name, volume.current name = some other → name = p.name := fun name heq => by
    rw [hr.current] at heq
    split at heq
    · assumption
    · split at heq
      · cases heq
      · exact absurd (hold.here name heq) ‹_›
  have hplain : ∀ name, name ≠ p.name → name ≠ tmp → volume.current name = s.volume.current name :=
    fun name hp ht => by rw [hr.current, if_neg hp, if_neg ht]
  have hf : Frame s { s.setThread i (.syncDir p) with
      volume := volume
      placed := s.placed ++ [(p.write, p.index)]
      stamp := Function.update s.stamp other s.placed.length } other tmp := by
    refine ⟨hr.nextInode.ge, fun _ _ => congrFun hr.data _, fun _ _ => congrFun hr.synced _, fun _ _ => rfl,
      fun _ hne => Function.update_of_ne hne _ _, List.prefix_append _ _, List.prefix_rfl, hr.versions,
      fun name file hfile => ?_, fun name file hn hfile => ?_, fun name hn hne => .inl (hplain name ?_ hne)⟩
    · replace hfile : volume.current name = some file := hfile
      rw [hr.current] at hfile
      split at hfile
      · exact .inl (Option.some.inj hfile).symm
      · split at hfile
        · cases hfile
        · exact .inr hfile
    · by_cases hp : name = p.name
      · subst hp
        refine ⟨other, hself, ?_⟩
        have hlt := (List.getElem?_eq_some_iff.1 (h.store.whole _ s.volume.current_mem _ file hn hfile).placed).1
        show s.stamp file ≤ Function.update s.stamp other s.placed.length other
        rw [Function.update_self]
        exact hlt.le
      · have ht : name ≠ tmp := fun heq => hphase.not_plain rfl (heq ▸ hn)
        have hfresh : file ≠ other := fun heq => hold.fresh _ s.volume.current_mem name hn (heq ▸ hfile)
        refine ⟨file, (hplain name hp ht).trans hfile, ?_⟩
        show s.stamp file ≤ Function.update s.stamp other s.placed.length file
        rw [Function.update_of_ne hfresh]
    · exact fun heq => hn (heq ▸ hname)
  have hstamp : Function.update s.stamp other s.placed.length other = s.placed.length :=
    Function.update_self other _ s.stamp
  refine h.advance hf hold.fresh rfl (fun _ => le_rfl) ?_ ?_ (h.own hheldBy).1 (h.own hheldBy).2 nofun nofun
  · refine hf.store h.store hold.fresh h.store.plain (fun w hw => .inl hw)
      (fun _ _ => hold.used.trans_le hr.nextInode.ge) (fun a b ha hb => (honly a ha).trans (honly b hb).symm)
      fun name _ hother => ?_
    obtain rfl := honly name hother
    refine ⟨(congrFun hr.synced other).trans hsynced, ?_, ?_, fun k hk => ?_⟩
    · show s.file encode (s.owner other).1 (s.owner other).2 = some (p.name, volume.data other)
      rw [hold.owner, hr.data, hdata]
      exact hplacing
    · show (s.placed ++ [(p.write, p.index)])[Function.update s.stamp other s.placed.length other]? =
        some (s.owner other)
      rw [hstamp, List.getElem?_concat_length, hold.owner]
    · replace hk : k < (s.owner other).2 := hk
      rw [hold.owner] at hk
      obtain ⟨n, hdown⟩ := (hphase.job p.write p.index rfl).2 k hk
      refine ⟨n, ?_, ?_⟩
      · show n < Function.update s.stamp other s.placed.length other
        rw [hstamp]
        exact (List.getElem?_eq_some_iff.1 hdown.1).1
      · show Down encode _ (s.owner other).1 k n
        rw [hold.owner]
        exact hf.down h.store hold.fresh hdown
  · refine hf.ownPhase h.store hold.fresh le_rfl hphase nofun rfl rfl nofun trivial (fun q hq => ?_) nofun
    obtain rfl := WritePhase.syncDir.inj hq
    exact ⟨s.placed.length, List.getElem?_concat_length, other, hself, hstamp.ge⟩

/-! ## Processes and power -/

theorem CacheInv.kill (h : CacheInv encode s) (pid : Nat) : CacheInv encode (s.kill pid) := by
  have hf : ∀ t tmp, Frame s (s.kill pid) t tmp :=
    .gone rfl rfl rfl rfl rfl rfl List.prefix_rfl (fun _ hd => .inl hd) fun _ => .inl rfl
  have hfresh := h.store.fresh_nextInode
  have hunused : ∀ name, s.volume.current name ≠ some s.volume.nextInode := fun name hname =>
    absurd (h.store.used _ s.volume.current_mem name _ hname) (Nat.lt_irrefl _)
  have hthread : ∀ i, (s.kill pid).threads i = .idle ∨ i.1 ≠ pid ∧ (s.kill pid).threads i = s.threads i := fun i => by
    by_cases hi : i.1 = pid
    · exact .inl (if_pos hi)
    · exact .inr ⟨hi, if_neg hi⟩
  refine ⟨?_, fun i => ?_, fun i j a hi hj => ?_, fun i j p q a b file hi hj => ?_⟩
  · exact (hf s.volume.nextInode "").store h.store hfresh h.store.plain (fun w hw => .inl hw)
      (fun name hname => absurd hname (hunused name)) (fun a _ ha => absurd ha (hunused a))
      fun name _ hname => absurd hname (hunused name)
  · rcases hthread i with heq | ⟨hne, heq⟩ <;> rw [heq]
    · exact .idle
    · refine (hf s.volume.nextInode "").phaseInv h.store hfresh ?_ (h.phases i) (fun p a file hheld heq => ?_)
        fun a ha heq => ?_
      · show s.nonce i.1 ≤ Function.update s.nonce pid 0 i.1
        rw [Function.update_of_ne hne]
      · exact Nat.lt_irrefl _ (heq ▸ ((h.phases i).held p a file hheld).used)
      · exact (h.phases i).not_plain ha (heq ▸ (by decide : Plain ""))
  · rcases hthread i with heq | ⟨-, heqi⟩
    · rw [heq] at hi
      cases hi
    · rcases hthread j with heq | ⟨-, heqj⟩
      · rw [heq] at hj
        cases hj
      · exact h.ownTmp i j a (heqi ▸ hi) (heqj ▸ hj)
  · rcases hthread i with heq | ⟨-, heqi⟩
    · rw [heq] at hi
      cases hi
    · rcases hthread j with heq | ⟨-, heqj⟩
      · rw [heq] at hj
        cases hj
      · exact h.ownFile i j p q a b file (heqi ▸ hi) (heqj ▸ hj)

theorem CacheInv.powerFailure (h : CacheInv encode s) (version : Nat) (torn : Nat → Bytes) :
    CacheInv encode (s.powerFailure version torn) := by
  have hmem : ∀ d ∈ (s.powerFailure version torn).volume.versions, d ∈ s.volume.versions := fun d hd =>
    Volume.mem_versions_powerFailure.1 hd ▸ Volume.powerFailure_mem version torn
  have hdown : ∀ {w k n}, Down encode s w k n → Down encode (s.powerFailure version torn) w k n := by
    rintro w k n ⟨hplaced, f, hfile, hall⟩
    exact ⟨hplaced, f, hfile, fun d hd => hall d (hmem d hd)⟩
  refine ⟨⟨h.store.plain, fun d hd => h.store.used d (hmem d hd), fun d hd name file hn hname => ?_,
    fun d hd => h.store.inj d (hmem d hd), fun b file hb hfile d hd a ha hafile => ?_, fun w hw => ?_⟩,
    fun i => .idle, nofun, nofun⟩
  · -- what is in place was synced, and is whole
    have hwhole := h.store.whole d (hmem d hd) name file hn hname
    refine ⟨rfl, ?_, hwhole.placed, fun k hk => ?_⟩
    · show s.file encode _ _ = some (name, if s.volume.synced file then s.volume.data file else torn file)
      rw [if_pos hwhole.synced]
      exact hwhole.content
    · obtain ⟨n, hn, hbefore⟩ := hwhole.before k hk
      exact ⟨n, hn, hdown hbefore⟩
  · rw [Volume.mem_versions_powerFailure.1 hd] at hafile
    exact hb (h.store.inj _ (Volume.powerFailure_mem version torn) a b file hafile hfile ▸ ha)
  · obtain ⟨artifacts, hwrite, hok, hall⟩ := h.store.returned w hw
    refine ⟨artifacts, hwrite, hok, fun k hk => ?_⟩
    obtain ⟨n, hn⟩ := hall k hk
    exact ⟨n, hdown hn⟩

/-! ## Runs -/

theorem CacheInv.threadStep (h : CacheInv encode s) (hs : s.threadStep encode i = some s') :
    CacheInv encode s' := by
  simp only [LocalCache.threadStep] at hs
  split at hs
  · rename_i w k hi
    split at hs
    · obtain rfl := Option.some.inj hs
      exact h.takeName hi ‹_›
    · obtain rfl := Option.some.inj hs
      exact h.finish hi ‹_›
  · obtain rfl := Option.some.inj hs
    exact h.create ‹_›
  · rename_i p tmp file hi
    obtain rfl := Option.some.inj hs
    refine h.leave (fun s' hphase => ?_) (by rw [hi]; exact fun a ha => ha) (by rw [hi]; exact fun _ _ _ hh => hh)
    rw [hi] at hphase
    exact ⟨hphase.held, (List.append_nil _).symm.trans hphase.filled, hphase.name, hphase.placing, hphase.job,
      nofun, nofun⟩
  · rename_i p tmp file hi
    obtain rfl := Option.some.inj hs
    have hfilled := (h.phases i).filled
    rw [hi] at hfilled
    have hheld : heldBy (s.threads i) = some (p, tmp, file) := by rw [hi]; rfl
    refine h.touch hheld rfl (by rw [hi]; rfl) (by rw [hi]; rfl)
      rfl rfl rfl (fun _ _ => rfl) (fun other hne => Function.update_of_ne hne _ _) ⟨hfilled, ?_⟩
    exact Function.update_self file _ s.volume.synced
  · rename_i p tmp file hi
    split at hs
    · obtain rfl := Option.some.inj hs
      exact h.place hi ‹_›
    · obtain rfl := Option.some.inj hs
      exact h.leave (fun _ _ => .idle) nofun nofun
  · obtain rfl := Option.some.inj hs
    exact h.syncDir ‹_›
  · rename_i tmp hi
    obtain rfl := Option.some.inj hs
    exact h.remove ((h.phases i).discard tmp hi) (fun _ _ => .idle) nofun nofun
  · cases hs

theorem CacheInv.fill (h : CacheInv encode s) (hs : s.fill i n = some s') : CacheInv encode s' := by
  simp only [LocalCache.fill] at hs
  split at hs
  · rename_i p tmp file rest hi
    obtain rfl := Option.some.inj hs
    have hfilled := (h.phases i).filled
    rw [hi] at hfilled
    have hheld : heldBy (s.threads i) = some (p, tmp, file) := by rw [hi]; rfl
    refine h.touch hheld rfl (by rw [hi]; rfl) (by rw [hi]; rfl)
      rfl rfl rfl (fun other hne => Function.update_of_ne hne _ _) (fun other hne => Function.update_of_ne hne _ _) ?_
    show Function.update s.volume.data file (s.volume.data file ++ rest.take n) file ++ rest.drop n = p.content
    rw [Function.update_self, List.append_assoc, List.take_append_drop]
    exact hfilled
  · cases hs

theorem CacheInv.fail (h : CacheInv encode s) (hs : s.fail i = some s') : CacheInv encode s' := by
  simp only [LocalCache.fail] at hs
  split at hs
  · cases hs
  · cases hs
  · rename_i p tmp file rest hi
    obtain rfl := Option.some.inj hs
    refine h.leave (fun s' hphase => ⟨nofun, trivial, nofun, nofun, nofun, nofun, fun a ha => ?_⟩) nofun nofun
    obtain rfl := WritePhase.discard.inj ha
    rw [hi] at hphase
    exact hphase.not_plain rfl
  · obtain rfl := Option.some.inj hs
    exact h.leave (fun _ _ => .idle) nofun nofun

theorem CacheInv.step {l : StoreLabel ρ} (h : CacheInv encode s) (hl : Named s l) (hs : s.step encode l = some s') :
    CacheInv encode s' := by
  cases l with
  | write i artifacts =>
    simp only [LocalCache.step, LocalCache.write] at hs
    split at hs
    · obtain rfl := Option.some.inj hs
      exact h.write fun report hreport => (hl report hreport).1
    · cases hs
  | thread i => exact h.threadStep hs
  | fill i n => exact h.fill hs
  | fail i => exact h.fail hs
  | cleanTmp name =>
    obtain ⟨hname, hs⟩ := Option.ite_none_right_eq_some.1 hs
    obtain rfl := Option.some.inj hs
    have hplain : ¬ Plain name := fun hplain => Bool.false_ne_true (hplain.symm.trans hname)
    have hremove : CacheInv encode { s.setThread (0, 0) (s.threads (0, 0)) with volume := s.volume.remove name } :=
      h.remove hplain (fun _ hphase => hphase) (fun _ ha => ha) fun _ _ _ hheld => hheld
    rwa [LocalCache.setThread, Function.update_eq_self] at hremove
  | kill pid =>
    obtain rfl := Option.some.inj hs
    exact h.kill pid
  | powerFailure version torn =>
    obtain rfl := Option.some.inj hs
    exact h.powerFailure version torn

theorem CacheInv.of_reach (h : Reach (localCache encode) Named s) : CacheInv encode s := by
  refine h.invariant ?_ fun _ _ _ _ hinv hl hs => hinv.step hl hs
  rintro _ rfl
  have hnone : ∀ d ∈ (Volume.empty : Volume String UInt8).versions, ∀ name file, d name ≠ some file := by
    intro d hd name file
    obtain rfl := List.mem_singleton.1 hd
    exact nofun
  have hcurrent := hnone _ Volume.empty.current_mem
  refine ⟨⟨?_, fun d hd name file hname => absurd hname (hnone d hd name file),
    fun d hd name file _ hname => absurd hname (hnone d hd name file),
    fun d hd a b file ha => absurd ha (hnone d hd a file),
    fun name file _ hname => absurd hname (hcurrent name file), nofun⟩, fun _ => .idle, nofun, nofun⟩
  intro w k f hf
  simp [LocalCache.file, LocalCache.new] at hf

end Luchta.Proof.LocalCache
