import Luchta.Framework.Replacement
import Luchta.Impl.RemoteIndex
import Luchta.Proof.Remote.MergeKeys
import Luchta.Proof.Store.Keys

/-!
# The remote index loses no key

* `IndexInv.step`: what is not on the remote any more has been replaced, and nothing is deleted that
  has not.
* `index_keeps_keys`: unless a shard is uploaded that what it subsumes has replaced, every key that
  was ever uploaded stays on the remote.
* `index_loses_key`: two merges with nothing new replace each other's shards, and a key is lost.
-/

namespace Luchta.Proof.Remote

open Luchta.Framework Luchta.Impl Luchta.Proof.Store

variable {codec : SnapshotCodec} {shardKey : String} {content : String → Option Snapshot}
  {written : Set Snapshot}

/-! ## The invariant -/

/-- The first shard has been replaced by the second, which has its keys. -/
def Replaces (shardKey : String) (content : String → Option Snapshot) (e : String × String) : Prop :=
  e.1 = legacyShardId shardKey ∨
    ∃ r c, content e.1 = some r ∧ content e.2 = some c ∧ KeysLe r c

def IsReplaced (replaced : List (String × String)) (id : String) : Prop := ∃ w, (id, w) ∈ replaced

/-- An operation on the remote uploads a shard that can be decoded, or deletes one that has been
replaced. -/
def OpInv (codec : SnapshotCodec) (content : String → Option Snapshot)
    (replaced : List (String × String)) : RemoteOp → Prop
  | .upload upload => NamedFile codec content upload.shardId upload.shardBytes ∧
    (content upload.shardId).isSome = true
  | .delete id => IsReplaced replaced id

def PendingInv (codec : SnapshotCodec) (shardKey : String) (content : String → Option Snapshot)
    (written : Set Snapshot) (replaced : List (String × String)) : PushPhase → Prop
  | .upload merge => ∀ upload, merge.newSnapshotUpload = some upload →
    OutcomeKeys codec shardKey content written upload merge.subsumedShardIds
  | .delete todo => ∀ id ∈ todo, IsReplaced replaced id
  | .done => True

structure ClientInv (codec : SnapshotCodec) (shardKey : String)
    (content : String → Option Snapshot) (written : Set Snapshot)
    (replaced : List (String × String)) (c : RemoteClient) : Prop where
  files : NamedFiles codec content c.store.bucket.files
  merges : ∀ m ∈ c.store.merges, MergeKeys codec shardKey content written m.phase
  pushes : ∀ p ∈ c.pushes, PendingInv codec shardKey content written replaced p

structure IndexInv (codec : SnapshotCodec) (shardKey : String)
    (content : String → Option Snapshot) (written : Set Snapshot) (s : RemoteIndex) : Prop where
  remote : NamedFiles codec content s.remote
  clients : ∀ c ∈ s.clients, ClientInv codec shardKey content written s.replaced c
  inFlight : ∀ op ∈ s.inFlight, OpInv codec content s.replaced op
  replaced : ∀ e ∈ s.replaced, Replaces shardKey content e ∧ e.2 ∈ s.uploaded
  named : ∀ id ∈ s.uploaded, (∃ d, id = toHex d) ∧ (content id).isSome = true
  uploaded : ∀ id ∈ s.uploaded, (s.remote.lookup id).isSome = true ∨ IsReplaced s.replaced id
  acyclic : Acyclic s.replaced

/-- Where the clients start: the files have the names of their content, and nothing is going on. -/
structure Fresh (codec : SnapshotCodec) (content : String → Option Snapshot) (s : RemoteIndex) :
    Prop where
  remote : NamedFiles codec content s.remote
  clients : ∀ c ∈ s.clients,
    NamedFiles codec content c.store.bucket.files ∧ c.store.merges = [] ∧ c.pushes = []
  inFlight : s.inFlight = []
  uploaded : ∀ id ∈ s.uploaded,
    (s.remote.lookup id).isSome = true ∧ (content id).isSome = true
  replaced : s.replaced = []

/-- The names that this step gives are those of the content. -/
def Hashed (codec : SnapshotCodec) (content : String → Option Snapshot) (written : Set Snapshot)
    (s : RemoteIndex) : RemoteLabel → Prop
  | .client i (.merge l) => ∀ c, s.clients[i]? = some c → ∀ r ∈ merging c.store l,
    (mergeSnapshotUpdates r.2 r.1.entries r.1.cacheFileObservations).1 ∈ written
  | .foreign id bytes => NamedFile codec content id bytes
  | _ => True

/-- This step uploads, in place of other shards, a shard that one of them has replaced. -/
def Restores (s : RemoteIndex) : RemoteLabel → Prop
  | .client i (.push j .ok) => ∃ c merge upload, s.clients[i]? = some c ∧ c.disabled = false ∧
    c.pushes[j]? = some (.upload merge) ∧ merge.newSnapshotUpload = some upload ∧
    ∃ id ∈ merge.subsumedShardIds, Leads s.replaced upload.shardId id
  | _ => False

variable {s t : RemoteIndex} {l : RemoteLabel} {op : RemoteOp} {c : RemoteClient} {i : Nat}

theorem Fresh.inv (h : Fresh codec content s) : IndexInv codec shardKey content written s where
  remote := h.remote
  clients c hc := by
    obtain ⟨hfiles, hmerges, hpushes⟩ := h.clients c hc
    refine ⟨hfiles, ?_, ?_⟩
    · rw [hmerges]
      exact nofun
    · rw [hpushes]
      exact nofun
  inFlight := by
    rw [h.inFlight]
    exact nofun
  replaced := by
    rw [h.replaced]
    exact nofun
  named id hid := by
    obtain ⟨hlookup, hcontent⟩ := h.uploaded id hid
    obtain ⟨bytes, hbytes⟩ := Option.isSome_iff_exists.1 hlookup
    exact ⟨(h.remote id bytes hbytes).hash, hcontent⟩
  uploaded id hid := .inl (h.uploaded id hid).1
  acyclic := by
    rw [h.replaced]
    exact acyclic_nil

/-! ## Operations on the remote -/

theorem IndexInv.apply (h : IndexInv codec shardKey content written s)
    (hop : OpInv codec content s.replaced op) :
    IndexInv codec shardKey content written (s.apply op) := by
  cases op with
  | upload upload =>
    obtain ⟨hfile, hcontent⟩ := hop
    refine ⟨h.remote.insert hfile, h.clients, h.inFlight, ?_, ?_, ?_, h.acyclic⟩
    · exact fun e he => (h.replaced e he).imp_right (List.mem_cons_of_mem _)
    · intro id hid
      rcases List.mem_cons.1 hid with rfl | hid
      · exact ⟨hfile.hash, hcontent⟩
      · exact h.named id hid
    · intro id hid
      show (AList.lookup id (AList.insert upload.shardId upload.shardBytes s.remote)).isSome = true ∨ _
      rw [HashMap.lookup_insert_if]
      split
      · exact .inl rfl
      · rename_i hne
        exact h.uploaded id ((List.mem_cons.1 hid).resolve_left hne)
  | delete id =>
    refine ⟨h.remote.erase id, h.clients, h.inFlight, h.replaced, h.named, ?_, h.acyclic⟩
    intro id' hid'
    by_cases heq : id' = id
    · exact .inr (heq ▸ hop)
    · show (AList.lookup id' (AList.erase id _)).isSome = true ∨ _
      rw [AList.lookup_erase_ne heq]
      exact h.uploaded id' hid'

theorem IndexInv.perform (h : IndexInv codec shardKey content written s)
    (hop : OpInv codec content s.replaced op) (result : OpResult) :
    IndexInv codec shardKey content written (s.perform op result) := by
  cases result with
  | ok => exact h.apply hop
  | failed => exact h
  | late => exact { h with inFlight := List.forall_mem_cons.2 ⟨hop, h.inFlight⟩ }

/-- The files on the remote are as they were, or differ by one such operation. -/
def Touches (codec : SnapshotCodec) (content : String → Option Snapshot) (s t : RemoteIndex) : Prop :=
  t.remote = s.remote ∨ ∃ op, OpInv codec content s.replaced op ∧ t.remote = (s.apply op).remote

theorem perform_frame (hop : OpInv codec content s.replaced op) (result : OpResult) :
    (s.perform op result).clients = s.clients ∧ (s.perform op result).replaced = s.replaced ∧
      Touches codec content s (s.perform op result) := by
  cases result with
  | ok =>
    cases op with
    | _ => exact ⟨rfl, rfl, .inr ⟨_, hop, rfl⟩⟩
  | _ => exact ⟨rfl, rfl, .inl rfl⟩

/-- What cannot be decoded is neither overwritten nor deleted. -/
theorem IndexInv.touches (h : IndexInv codec shardKey content written s)
    (ht : Touches codec content s t) {id : String} {bytes : Bytes}
    (hlookup : s.remote.lookup id = some bytes) (hdecode : codec.decodeSnapshot bytes = none) :
    t.remote.lookup id = some bytes := by
  obtain ⟨⟨d, hd⟩, hcontent⟩ := h.remote id bytes hlookup
  rw [hdecode] at hcontent
  rcases ht with ht | ⟨op, hop, ht⟩
  · rw [ht]
    exact hlookup
  · rw [ht]
    cases op with
    | upload upload =>
      show AList.lookup id (AList.insert upload.shardId upload.shardBytes s.remote) = _
      rw [AList.lookup_insert_ne]
      · exact hlookup
      · rintro rfl
        rw [OpInv, hcontent] at hop
        exact nomatch hop.2
    | delete shardId =>
      show AList.lookup id (AList.erase shardId s.remote) = _
      rw [AList.lookup_erase_ne]
      · exact hlookup
      · rintro rfl
        obtain ⟨w, hw⟩ := hop
        rcases (h.replaced _ hw).1 with hlegacy | ⟨r, c, hr, -⟩
        · exact toHex_ne_legacy d shardKey (hd ▸ hlegacy)
        · rw [hcontent] at hr
          contradiction

/-! ## Replacing -/

theorem IsReplaced.append {replaced : List (String × String)} {id : String}
    (h : IsReplaced replaced id) (new : List (String × String)) :
    IsReplaced (replaced ++ new) id :=
  h.imp fun _ => List.mem_append_left new

theorem PendingInv.append {replaced : List (String × String)} {p : PushPhase}
    (h : PendingInv codec shardKey content written replaced p) (new : List (String × String)) :
    PendingInv codec shardKey content written (replaced ++ new) p := by
  cases p with
  | delete todo => exact fun id hid => (h id hid).append new
  | _ => exact h

theorem OpInv.append {replaced : List (String × String)} (h : OpInv codec content replaced op)
    (new : List (String × String)) : OpInv codec content (replaced ++ new) op := by
  cases op with
  | upload => exact h
  | delete => exact IsReplaced.append h new

/-- A shard that is there replaces others, of which none has replaced it. -/
theorem IndexInv.replace {olds : List String} {w : String}
    (h : IndexInv codec shardKey content written s)
    (holds : ∀ old ∈ olds, Replaces shardKey content (old, w)) (hw : w ∈ s.uploaded)
    (hnew : ∀ old ∈ olds, ¬ Leads s.replaced w old) :
    IndexInv codec shardKey content written
      { s with replaced := s.replaced ++ olds.map fun old => (old, w) } where
  remote := h.remote
  clients c hc := by
    obtain ⟨hfiles, hmerges, hpushes⟩ := h.clients c hc
    exact ⟨hfiles, hmerges, fun p hp => (hpushes p hp).append _⟩
  inFlight op hop := (h.inFlight op hop).append _
  replaced e he := by
    rcases List.mem_append.1 he with he | he
    · exact h.replaced e he
    · obtain ⟨old, hold, rfl⟩ := List.mem_map.1 he
      exact ⟨holds old hold, hw⟩
  named := h.named
  uploaded id hid := (h.uploaded id hid).imp_right fun hr => hr.append _
  acyclic := h.acyclic.append hnew

theorem IndexInv.setClient (h : IndexInv codec shardKey content written s)
    (hc : ClientInv codec shardKey content written s.replaced c) (i : Nat) :
    IndexInv codec shardKey content written (s.setClient i c) := by
  refine { h with clients := fun c' hc' => ?_ }
  rcases List.mem_or_eq_of_mem_set hc' with hc' | rfl
  · exact h.clients c' hc'
  · exact hc

/-! ## Pushing -/

theorem IndexInv.push (h : IndexInv codec shardKey content written s)
    (hnamed : Named codec content written) {p p' : PushPhase} {disabled : Bool} {result : OpResult}
    (hp : PendingInv codec shardKey content written s.replaced p)
    (hs : s.push disabled result p = some (t, p'))
    (hnew : result = .ok → disabled = false → ∀ merge upload, p = .upload merge →
      merge.newSnapshotUpload = some upload →
      ∀ id ∈ merge.subsumedShardIds, ¬ Leads s.replaced upload.shardId id) :
    IndexInv codec shardKey content written t ∧
      PendingInv codec shardKey content written t.replaced p' ∧ Touches codec content s t ∧
      t.clients = s.clients ∧ ∃ new, t.replaced = s.replaced ++ new := by
  have hsame : s.replaced = s.replaced ++ [] := (List.append_nil _).symm
  unfold RemoteIndex.push at hs
  split at hs
  · rename_i merge
    split at hs
    · cases hs
      exact ⟨h, trivial, .inl rfl, rfl, [], hsame⟩
    · rename_i hdisabled
      split at hs
      · cases hs
        exact ⟨h, trivial, .inl rfl, rfl, [], hsame⟩
      · rename_i upload hupload
        obtain ⟨w, hw, hid, hdecode, hholds⟩ := hp upload hupload
        have hop : OpInv codec content s.replaced (.upload upload) := by
          refine ⟨hid ▸ hnamed.file hw hdecode, ?_⟩
          rw [hid, hnamed.content w hw]
          rfl
        have hinv := h.perform hop result
        obtain ⟨hclients, hreplaced, htouches⟩ := perform_frame hop result
        dsimp only at hs
        split at hs
        · rename_i hresult
          cases hs
          refine ⟨hinv.replace ?_ ?_ ?_, ?_, htouches, hclients, _, congrArg (· ++ _) hreplaced⟩
          · intro old hold
            refine (hholds old hold).imp_right fun ⟨r, hr, hle⟩ => ⟨r, w, hr, ?_, hle⟩
            rw [hid, hnamed.content w hw]
          · rw [hresult]
            exact List.mem_cons_self
          · rw [hreplaced]
            exact hnew hresult (Bool.eq_false_iff.2 hdisabled) merge upload rfl hupload
          · intro id hid
            exact ⟨_, List.mem_append_right _ (List.mem_map_of_mem hid)⟩
        · cases hs
          exact ⟨hinv, trivial, htouches, hclients, [], hreplaced.trans hsame⟩
  · cases hs
    exact ⟨h, trivial, .inl rfl, rfl, [], hsame⟩
  · rename_i id todo
    split at hs
    · cases hs
      exact ⟨h, trivial, .inl rfl, rfl, [], hsame⟩
    · cases hs
      have hop : OpInv codec content s.replaced (.delete id) := hp id List.mem_cons_self
      obtain ⟨hclients, hreplaced, htouches⟩ := perform_frame hop result
      refine ⟨h.perform hop result, ?_, htouches, hclients, [], hreplaced.trans hsame⟩
      rw [hreplaced]
      exact fun id' hid' => hp id' (List.mem_cons_of_mem _ hid')
  · contradiction

/-! ## Every step -/

theorem IndexInv.clientStep (h : IndexInv codec shardKey content written s)
    (hnamed : Named codec content written) (hc : s.clients[i]? = some c) {l : ClientLabel}
    (hhashed : Hashed codec content written s (.client i l))
    (hrestores : ¬ Restores s (.client i l))
    (hs : s.clientStep codec shardKey i c l = some t) :
    IndexInv codec shardKey content written t ∧ Touches codec content s t := by
  obtain ⟨hfiles, hmerges, hpushes⟩ := h.clients c (List.mem_of_getElem? hc)
  cases l with
  | start entries observations =>
    cases hs
    refine ⟨h.setClient ?_ i, .inl rfl⟩
    refine ⟨hfiles, fun m hm => ?_, hpushes⟩
    rcases List.mem_append.1 hm with hm | hm
    · exact hmerges m hm
    · rw [List.mem_singleton.1 hm]
      trivial
  | merge l =>
    obtain ⟨store, hstore, rfl⟩ := Option.map_eq_some_iff.1 hs
    obtain ⟨m, p, hm, hstep, hset⟩ := state_step hstore
    obtain ⟨hp, hfiles'⟩ := MergeKeys.step hnamed hfiles hm (hmerges m (List.mem_of_getElem? hm))
      (hhashed c hc) hstep
    refine ⟨h.setClient ?_ i, .inl rfl⟩
    refine ⟨hfiles', fun m' hm' => ?_, hpushes⟩
    change m' ∈ store.merges at hm'
    rw [hset] at hm'
    rcases List.mem_or_eq_of_mem_set hm' with hm' | rfl
    · exact hmerges m' hm'
    · exact hp
  | enqueue j =>
    unfold RemoteIndex.clientStep at hs
    dsimp only at hs
    split at hs
    · rename_i outcome hdone
      obtain ⟨m, hm, hphase⟩ := Option.map_eq_some_iff.1 hdone
      have hkeys := hmerges m (List.mem_of_getElem? hm)
      rw [hphase] at hkeys
      cases hs
      refine ⟨h.setClient ?_ i, .inl rfl⟩
      refine ⟨hfiles, hmerges, fun p hp => ?_⟩
      rcases List.mem_append.1 hp with hp | hp
      · exact hpushes p hp
      · rw [List.mem_singleton.1 hp]
        exact hkeys
    · contradiction
  | pull shardId =>
    change (if c.disabled then none else _) = some t at hs
    split at hs
    · contradiction
    · obtain ⟨bytes, hbytes, rfl⟩ := Option.map_eq_some_iff.1 hs
      refine ⟨h.setClient ?_ i, .inl rfl⟩
      exact ⟨hfiles.insert (h.remote _ _ hbytes), hmerges, hpushes⟩
  | push j result =>
    obtain ⟨p, hp, hs⟩ := Option.bind_eq_some_iff.1 hs
    obtain ⟨⟨u, p'⟩, hpush, hs⟩ := Option.bind_eq_some_iff.1 hs
    cases hs
    have hinv := hpushes p (List.mem_of_getElem? hp)
    obtain ⟨hu, hp', htouches, -, new, hnew⟩ := h.push hnamed hinv hpush (by
      rintro rfl hdisabled merge upload rfl hupload id hid hleads
      exact hrestores ⟨c, merge, upload, hc, hdisabled, hp, hupload, id, hid, hleads⟩)
    refine ⟨hu.setClient ?_ i, htouches⟩
    refine ⟨hfiles, hmerges, fun q hq => ?_⟩
    rcases List.mem_or_eq_of_mem_set hq with hq | rfl
    · rw [hnew]
      exact (hpushes q hq).append new
    · exact hp'
  | setDisabled disabled =>
    cases hs
    refine ⟨h.setClient ?_ i, .inl rfl⟩
    exact ⟨hfiles, hmerges, hpushes⟩

theorem IndexInv.step (h : IndexInv codec shardKey content written s)
    (hnamed : Named codec content written) (hhashed : Hashed codec content written s l)
    (hrestores : ¬ Restores s l) (hs : s.step codec shardKey l = some t) :
    IndexInv codec shardKey content written t := by
  cases l with
  | client i l =>
    obtain ⟨c, hc, hs⟩ := Option.bind_eq_some_iff.1 hs
    exact (h.clientStep hnamed hc hhashed hrestores hs).1
  | land i =>
    obtain ⟨op, hop, rfl⟩ := Option.map_eq_some_iff.1 hs
    have hinv : IndexInv codec shardKey content written
        { s with inFlight := s.inFlight.eraseIdx i } :=
      { h with inFlight := fun op hop => h.inFlight op (List.mem_of_mem_eraseIdx hop) }
    exact hinv.apply (h.inFlight op (List.mem_of_getElem? hop))
  | foreign shardId bytes =>
    change (if _ then _ else none) = some t at hs
    split at hs
    · cases hs
      refine { h with remote := h.remote.insert hhashed, uploaded := fun id hid => ?_ }
      refine (h.uploaded id hid).imp_left fun hlookup => ?_
      exact (HashMap.lookup_isSome_insert _ _ _ _).2 (.inr hlookup)
    · contradiction

theorem IndexInv.undecodable_step (h : IndexInv codec shardKey content written s)
    (hnamed : Named codec content written) (hhashed : Hashed codec content written s l)
    (hrestores : ¬ Restores s l) (hs : s.step codec shardKey l = some t) {id : String}
    {bytes : Bytes} (hlookup : s.remote.lookup id = some bytes)
    (hdecode : codec.decodeSnapshot bytes = none) : t.remote.lookup id = some bytes := by
  cases l with
  | client i l =>
    obtain ⟨c, hc, hs⟩ := Option.bind_eq_some_iff.1 hs
    exact h.touches (h.clientStep hnamed hc hhashed hrestores hs).2 hlookup hdecode
  | land i =>
    obtain ⟨op, hop, rfl⟩ := Option.map_eq_some_iff.1 hs
    refine h.touches (.inr ⟨op, h.inFlight op (List.mem_of_getElem? hop), ?_⟩) hlookup hdecode
    cases op with
    | _ => rfl
  | foreign shardId bytes' =>
    change (if _ then _ else none) = some t at hs
    split at hs
    · rename_i hfree
      cases hs
      show AList.lookup id (AList.insert shardId bytes' s.remote) = _
      rw [AList.lookup_insert_ne]
      · exact hlookup
      · rintro rfl
        rw [hfree.2] at hlookup
        contradiction
    · contradiction

/-! ## Keys that stay -/

theorem IndexInv.uploaded_of_leads (h : IndexInv codec shardKey content written s) {id w : String}
    (hid : id ∈ s.uploaded) (hleads : Leads s.replaced id w) :
    w ∈ s.uploaded ∧ ∃ r c, content id = some r ∧ content w = some c ∧ KeysLe r c := by
  induction hleads with
  | refl =>
    obtain ⟨r, hr⟩ := Option.isSome_iff_exists.1 (h.named id hid).2
    exact ⟨hid, r, r, hr, hr, .refl r⟩
  | @tail v w _ hedge ih =>
    obtain ⟨hv, r, c, hr, hc, hle⟩ := ih
    obtain ⟨hreplaces, hw⟩ := h.replaced _ hedge
    refine ⟨hw, r, ?_⟩
    rcases hreplaces with hlegacy | ⟨c', d, hc', hd, hle'⟩
    · obtain ⟨d, hd⟩ := (h.named v hv).1
      exact (toHex_ne_legacy d shardKey (hd ▸ hlegacy)).elim
    · rw [hc] at hc'
      cases hc'
      exact ⟨d, hr, hd, hle.trans hle'⟩

/-- What was uploaded has its keys in a shard that nobody is going to delete. -/
theorem IndexInv.hasKey (h : IndexInv codec shardKey content written s) {id key : String}
    {r : Snapshot} (hid : id ∈ s.uploaded) (hr : content id = some r)
    (hkey : (r.entries.get? key).isSome = true) : s.hasKey codec key = true := by
  obtain ⟨w, hleads, hlast⟩ := h.acyclic.exists_last id
  obtain ⟨hw, r', c, hr', hc, hle⟩ := h.uploaded_of_leads hid hleads
  have hthere := (h.uploaded w hw).resolve_right fun ⟨v, hv⟩ => hlast v hv
  obtain ⟨bytes, hbytes⟩ := Option.isSome_iff_exists.1 hthere
  rw [hr] at hr'
  cases hr'
  refine hasKey_iff.2 (.inr ⟨w, bytes, c, hbytes, ?_, hle key hkey⟩)
  rw [← (h.remote w bytes hbytes).content, hc]

/-- The names are those of the content, and no shard is restored that has been replaced. -/
def IndexAdmitted (codec : SnapshotCodec) (content : String → Option Snapshot)
    (written : Set Snapshot) (s : RemoteIndex) (l : RemoteLabel) : Prop :=
  Hashed codec content written s l ∧ ¬ Restores s l

variable {init : RemoteIndex}

theorem IndexInv.of_reach (hnamed : Named codec content written) (hfresh : Fresh codec content init)
    (h : Reach (remoteIndex codec shardKey init) (IndexAdmitted codec content written) s) :
    IndexInv codec shardKey content written s :=
  h.invariant (fun _ hinit => hinit ▸ hfresh.inv)
    fun _ _ _ _ hinv hl hs => hinv.step hnamed hl.1 hl.2 hs

/-- In every run of any number of clients in which no client uploads, in place of shards that it is
going to delete, a shard that one of these has replaced: at every moment the keys of every shard that
the remote ever had are in shards on the remote that can be decoded, and no step deletes or changes
a file there that cannot be decoded. -/
theorem index_keeps_keys (hnamed : Named codec content written) (hfresh : Fresh codec content init)
    (h : Reach (remoteIndex codec shardKey init) (IndexAdmitted codec content written) s) :
    (∀ id ∈ s.uploaded, ∃ r, content id = some r ∧
      ∀ key, (r.entries.get? key).isSome = true → s.hasKey codec key = true) ∧
    ∀ l t, IndexAdmitted codec content written s l → s.step codec shardKey l = some t →
      ∀ id bytes, s.remote.lookup id = some bytes → codec.decodeSnapshot bytes = none →
        t.remote.lookup id = some bytes := by
  have hinv := IndexInv.of_reach hnamed hfresh h
  constructor
  · intro id hid
    obtain ⟨r, hr⟩ := Option.isSome_iff_exists.1 (hinv.named id hid).2
    exact ⟨r, hr, fun key => hinv.hasKey hid hr⟩
  · intro l t hl hs id bytes
    exact hinv.undecodable_step hnamed hl.1 hl.2 hs

/-! ## Two clients -/

section Samples

/-- Two runs, the second of them with eight observations, the first with these, and with a ninth. -/
def indexSamples : List Snapshot :=
  [sample 100 [], sample 200 [], sample 200 [8, 7, 6, 5, 4, 3, 2, 1],
    sample 100 [8, 7, 6, 5, 4, 3, 2, 1], sample 100 [9, 8, 7, 6, 5, 4, 3, 2]]

/-- Snapshots are stored as their places among the samples. -/
def indexCodec : SnapshotCodec :=
  { sampleCodec with
    encode := fun s => [.ofNat (indexSamples.findIdx (· = s))]
    decodeV4 := fun bytes => bytes.head?.bind fun b => indexSamples[b.toNat]? }

def indexContent (id : String) : Option Snapshot :=
  indexSamples.find? fun s => indexCodec.shardId s = id

def indexWritten : Set Snapshot := {s | s ∈ indexSamples}

def indexFiles (places : List Nat) : HashMap String Bytes :=
  .ofList (places.map fun i => (sampleShard i, [.ofNat i]))

def indexClient (places : List Nat) : RemoteClient :=
  ⟨⟨⟨none, indexFiles places⟩, []⟩, [], false⟩

/-- The first client has the first and the third shard of the remote, and the second the second. -/
def indexStart : RemoteIndex where
  remote := indexFiles [0, 1, 2]
  inFlight := []
  clients := [indexClient [0, 2], indexClient [1]]
  uploaded := [sampleShard 0, sampleShard 1, sampleShard 2]
  replaced := []

def mergeSteps (places : List Nat) : List MergeLabel :=
  [.create true, .list (places.map sampleShard), .read true, .read true, .merge, .check,
    .write true, .delete true, .delete true, .merge]

/-- A client merges its two shards, brings the observation, queues the outcome and uploads it. -/
def mergeRun (client : Nat) (places : List Nat) (observation : Nat) : List RemoteLabel :=
  (ClientLabel.start [] [observedAt observation] ::
    (mergeSteps places).map (fun l => ClientLabel.merge (0, l)) ++
    [ClientLabel.enqueue 0, ClientLabel.push 0 .ok]).map (RemoteLabel.client client)

/-- It deletes two shards on the remote. -/
def deleteRun (client : Nat) : List RemoteLabel :=
  List.replicate 2 (.client client (.push 0 .ok))

/-- The uploads of the run are new, and what merges write is among the samples. -/
def indexAdmits (s : RemoteIndex) : RemoteLabel → Bool
  | .client i (.merge l) => s.clients[i]?.all fun c => (merging c.store l).all fun r =>
    (mergeSnapshotUpdates r.2 r.1.entries r.1.cacheFileObservations).1 ∈ indexSamples
  | .foreign _ _ => false
  | _ => true

/-- Nothing has been replaced yet, and the shard does not replace itself. -/
def firstUpload (s : RemoteIndex) (l : RemoteLabel) : Bool :=
  indexAdmits s l && match l with
    | .client i (.push j .ok) => s.clients[i]?.all fun c => c.pushes[j]?.all fun
      | .upload merge => s.replaced.isEmpty && merge.newSnapshotUpload.all fun upload =>
          !merge.subsumedShardIds.contains upload.shardId
      | _ => true
    | _ => true

theorem hashed_of_admits {s : RemoteIndex} {l : RemoteLabel} (h : indexAdmits s l = true) :
    Hashed indexCodec indexContent indexWritten s l := by
  unfold Hashed
  split
  · intro c hc r hr
    unfold indexAdmits at h
    dsimp only at h
    rw [hc, Option.all_some, Option.mem_def.1 hr, Option.all_some, decide_eq_true_iff] at h
    exact h
  · contradiction
  · trivial

theorem admitted_of_firstUpload {s : RemoteIndex} {l : RemoteLabel} (h : firstUpload s l = true) :
    IndexAdmitted indexCodec indexContent indexWritten s l := by
  unfold firstUpload at h
  obtain ⟨hadmits, hfirst⟩ := Bool.and_eq_true_iff.1 h
  refine ⟨hashed_of_admits hadmits, fun hrestores => ?_⟩
  unfold Restores at hrestores
  split at hrestores
  · obtain ⟨c, merge, upload, hc, -, hp, hupload, id, hid, hleads⟩ := hrestores
    dsimp only at hfirst
    rw [hc, Option.all_some, hp, Option.all_some] at hfirst
    dsimp only at hfirst
    rw [hupload, Option.all_some] at hfirst
    obtain ⟨hempty, hnot⟩ := Bool.and_eq_true_iff.1 hfirst
    rcases Relation.ReflTransGen.cases_head hleads with rfl | ⟨w, hw, -⟩
    · simp [hid] at hnot
    · rw [List.isEmpty_iff.1 hempty] at hw
      exact List.not_mem_nil hw
  · exact hrestores

theorem namedFiles_indexFiles {places : List Nat} (h : places = [0, 1, 2] ∨ places = [0, 2] ∨
    places = [1]) : NamedFiles indexCodec indexContent (indexFiles places) := by
  have hfiles : ∀ places ∈ [[0, 1, 2], [0, 2], [1]], ∀ e ∈ (indexFiles places).entries,
      (∃ i < 3, e.1 = sampleShard i) ∧ indexContent e.1 = indexCodec.decodeSnapshot e.2 := by
    decide +kernel
  intro id bytes hlookup
  obtain ⟨⟨i, -, hi⟩, hcontent⟩ :=
    hfiles places (by simpa using h) ⟨id, bytes⟩ (AList.mem_lookup_iff.1 hlookup)
  exact ⟨⟨_, hi⟩, hcontent⟩

theorem named_index : Named indexCodec indexContent indexWritten := by
  have hcontent : ∀ c ∈ indexSamples, indexContent (indexCodec.shardId c) = some c := by
    decide +kernel
  have hstored : ∀ c ∈ indexSamples, indexCodec.decodeSnapshot (indexCodec.encode c) = some c := by
    decide +kernel
  refine ⟨hcontent, fun c hc bytes hbytes => ?_⟩
  rw [← Option.some.inj hbytes]
  exact hstored c hc

theorem fresh_index : Fresh indexCodec indexContent indexStart where
  remote := namedFiles_indexFiles (.inl rfl)
  clients := by
    refine List.forall_mem_cons.2 ⟨⟨namedFiles_indexFiles (.inr (.inl rfl)), rfl, rfl⟩, ?_⟩
    exact List.forall_mem_cons.2 ⟨⟨namedFiles_indexFiles (.inr (.inr rfl)), rfl, rfl⟩, nofun⟩
  inFlight := rfl
  uploaded := by decide +kernel
  replaced := rfl

/-- The first client uploads the union of two shards with a newer observation, and deletes both. -/
theorem index_keeps_keys_sample : ∃ s,
    Reach (remoteIndex indexCodec "20260807-00" indexStart)
      (IndexAdmitted indexCodec indexContent indexWritten) s ∧
    s.remote.keys = [sampleShard 4, sampleShard 1] ∧ sampleShard 0 ∈ s.uploaded ∧
    s.hasKey indexCodec sampleKey = true := by
  have hrun : ((remoteIndex indexCodec "20260807-00" indexStart).run
      (fun s l => firstUpload s l = true) indexStart (mergeRun 0 [0, 2] 9 ++ deleteRun 0)).map
        (fun s => (s.remote.keys, s.uploaded)) =
      some ([sampleShard 4, sampleShard 1],
        [sampleShard 4, sampleShard 0, sampleShard 1, sampleShard 2]) := by
    decide +kernel
  obtain ⟨s, hs, heq⟩ := Option.map_eq_some_iff.1 hrun
  have hkeys := congrArg Prod.fst heq
  have huploaded : s.uploaded = _ := congrArg Prod.snd heq
  have hmem : sampleShard 0 ∈ s.uploaded := by
    rw [huploaded]
    decide +kernel
  have hreach : Reach (remoteIndex indexCodec "20260807-00" indexStart)
      (IndexAdmitted indexCodec indexContent indexWritten) s :=
    (Reach.run (.init rfl) hs).mono fun s l h => admitted_of_firstUpload h
  refine ⟨s, hreach, hkeys, hmem, ?_⟩
  obtain ⟨r, hr, hall⟩ := (index_keeps_keys named_index fresh_index hreach).1 _ hmem
  have hcontent : indexContent (sampleShard 0) = some (sample 100 []) := by decide +kernel
  rw [hcontent] at hr
  cases hr
  exact hall sampleKey (by decide +kernel)

/-- Both clients bring an observation that is too old to be kept. The first one consolidates to what
the second one then replaces by the first one's own shard, which the first one deletes. -/
theorem index_loses_key : ∃ s,
    Reach (remoteIndex indexCodec "20260807-00" indexStart)
      (Hashed indexCodec indexContent indexWritten) s ∧
    Named indexCodec indexContent indexWritten ∧ Fresh indexCodec indexContent indexStart ∧
    sampleShard 0 ∈ indexStart.uploaded ∧
    indexContent (sampleShard 0) = some (sample 100 []) ∧
    ((sample 100 []).entries.get? sampleKey).isSome = true ∧
    s.hasKey indexCodec sampleKey = false := by
  have hrun : ((remoteIndex indexCodec "20260807-00" indexStart).run
      (fun s l => indexAdmits s l = true) indexStart
      (mergeRun 0 [0, 2] 0 ++ [.client 1 (.pull (sampleShard 3))] ++ mergeRun 1 [1, 3] 0 ++
        deleteRun 1 ++ deleteRun 0)).map (·.hasKey indexCodec sampleKey) = some false := by
    decide +kernel
  obtain ⟨s, hs, hkey⟩ := Option.map_eq_some_iff.1 hrun
  have hreach := (Reach.run (.init rfl) hs).mono fun s l h => hashed_of_admits h
  exact ⟨s, hreach, named_index, fresh_index, by decide +kernel, by decide +kernel,
    by decide +kernel, hkey⟩

end Samples

end Luchta.Proof.Remote
