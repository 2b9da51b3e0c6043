import Luchta.Framework.BTreeMap
import Luchta.Framework.Bincode
import Mathlib.Algebra.Order.Ring.Int

/-!
# Decoders

A decoder takes a value off the front of a stream, or fails. The decoders are those of bincode with
fixed-width integers, for the encoders of `Bincode`.

* `Decodes`: an encoded value is taken off any stream that starts with it, and what a decoder takes does not
  depend on what follows.
* `Decodes.prefix_eq_none`: no value is taken off a part of an encoding.
* `Decodes.run_bind`, `Extends.bind`: encodings one after the other.
* `decodes_str`, `decodes_option`, `decodes_seq`, `decodes_map`: the composite decoders.
-/

namespace Luchta.Framework

abbrev Decoder (α : Type) := StateT Bytes Option α

variable {α β : Type} {D : α → Prop} {E : β → Prop} {enc : α → Bytes} {dec : Decoder α}

/-- What the decoder takes does not depend on what follows. -/
def Extends (dec : Decoder α) : Prop :=
  ∀ {b r : Bytes} {a : α}, dec.run b = some (a, r) → ∀ x, dec.run (b ++ x) = some (a, r ++ x)

structure Decodes (D : α → Prop) (enc : α → Bytes) (dec : Decoder α) : Prop where
  round : ∀ {a}, D a → ∀ r, dec.run (enc a ++ r) = some (a, r)
  ext : Extends dec

theorem Decodes.run_enc (h : Decodes D enc dec) {a : α} (ha : D a) : dec.run (enc a) = some (a, []) := by
  have hround := h.round ha []
  rwa [List.append_nil] at hround

/-- No value is taken off a part of an encoding. -/
theorem Decodes.prefix_eq_none (h : Decodes D enc dec) {a : α} (ha : D a) {b : Bytes} (hb : b <+: enc a)
    (hne : b ≠ enc a) : dec.run b = none := by
  obtain ⟨x, hx⟩ := hb
  cases hrun : dec.run b with
  | none => rfl
  | some p =>
    have hext := h.ext hrun x
    rw [hx, h.run_enc ha] at hext
    -- what is missing would be left over
    have hrest : p.2 ++ x = [] := (congrArg Prod.snd (Option.some.inj hext)).symm
    rw [(List.append_eq_nil_iff.1 hrest).2, List.append_nil] at hx
    exact absurd hx hne

theorem Decodes.framed (h : Decodes D enc dec) : FramedOn D enc := by
  refine ⟨fun {a b r s} ha hb heq => ?_⟩
  have hround := h.round ha r
  rw [heq, h.round hb s] at hround
  exact (Prod.mk.inj (Option.some.inj hround)).imp Eq.symm Eq.symm

/-! ## Composition -/

theorem Extends.pure (a : α) : Extends (pure a) := by
  intro b r a' h x
  obtain ⟨rfl, rfl⟩ := Prod.mk.inj (Option.some.inj h)
  rfl

theorem Extends.fail : Extends (failure : Decoder α) := nofun

theorem Extends.bind {f : α → Decoder β} (h : Extends dec) (hf : ∀ a, Extends (f a)) : Extends (dec >>= f) := by
  intro b r c hrun x
  rw [StateT.run_bind] at hrun ⊢
  obtain ⟨p, hp, hrest⟩ := Option.bind_eq_some_iff.1 hrun
  rw [h hp x]
  exact hf p.1 hrest x

theorem Decodes.run_bind (h : Decodes D enc dec) {a : α} (ha : D a) (f : α → Decoder β) (r : Bytes) :
    (dec >>= f).run (enc a ++ r) = (f a).run r := by
  rw [StateT.run_bind, h.round ha]
  rfl

/-! ## Bytes and integers -/

def takeBytes (n : Nat) : Decoder Bytes := fun b => if n ≤ b.length then some (b.take n, b.drop n) else none

theorem run_takeBytes {n : Nat} {b : Bytes} (h : b.length = n) (r : Bytes) :
    (takeBytes n).run (b ++ r) = some (b, r) := by
  subst h
  show (if b.length ≤ (b ++ r).length then _ else none) = _
  rw [if_pos (by simp)]
  simp

theorem extends_takeBytes (n : Nat) : Extends (takeBytes n) := by
  intro b r a h x
  obtain ⟨hle, h⟩ := Option.ite_none_right_eq_some.1 h
  obtain ⟨rfl, rfl⟩ := Prod.mk.inj (Option.some.inj h)
  show (if n ≤ (b ++ x).length then some ((b ++ x).take n, (b ++ x).drop n) else none) = _
  rw [if_pos (by rw [List.length_append]; omega), List.take_append_of_le_length hle,
    List.drop_append_of_le_length hle]

/-- The number whose bytes these are, least significant first. -/
def ofLeBytes : Bytes → Nat
  | [] => 0
  | b :: bytes => b.toNat + 256 * ofLeBytes bytes

theorem ofLeBytes_leBytes {k n : Nat} (h : n < 256 ^ k) : ofLeBytes (leBytes k n) = n := by
  induction k generalizing n with
  | zero =>
    rw [Nat.pow_zero] at h
    exact (Nat.lt_one_iff.1 h).symm
  | succ k ih =>
    rw [Nat.pow_succ] at h
    have hdiv : n / 256 < 256 ^ k := Nat.div_lt_of_lt_mul (by omega)
    rw [leBytes, ofLeBytes, ih hdiv, UInt8.toNat_ofNat']
    omega

/-- A number in `k` bytes. -/
def decodeLe (k : Nat) : Decoder Nat := ofLeBytes <$> takeBytes k

theorem run_decodeLe {k n : Nat} (h : n < 256 ^ k) (r : Bytes) :
    (decodeLe k).run (leBytes k n ++ r) = some (n, r) := by
  rw [decodeLe, StateT.run_map, run_takeBytes (length_leBytes k n)]
  exact congrArg (fun m => some (m, r)) (ofLeBytes_leBytes h)

theorem Extends.map {f : α → β} (h : Extends dec) : Extends (f <$> dec) := by
  rw [map_eq_pure_bind]
  exact Extends.bind h fun a => Extends.pure (f a)

theorem Decodes.map {f : α → β} {g : β → α} (h : Decodes D enc dec) (hgf : ∀ b, D (g b) → f (g b) = b) :
    Decodes (fun b => D (g b)) (fun b => enc (g b)) (f <$> dec) := by
  refine ⟨fun {b} hb r => ?_, Extends.map h.ext⟩
  rw [StateT.run_map, h.round hb]
  exact congrArg (fun b => some (b, r)) (hgf b hb)

theorem extends_decodeLe (k : Nat) : Extends (decodeLe k) := Extends.map (extends_takeBytes k)

def decodeU64 : Decoder Nat := decodeLe 8

theorem decodes_u64 : Decodes (fun n => n < 2 ^ 64) encodeU64 decodeU64 :=
  ⟨fun h r => run_decodeLe h r, extends_decodeLe 8⟩

def decodeU32 : Decoder UInt32 := UInt32.ofNat <$> decodeLe 4

theorem decodes_u32 : Decodes (fun _ => True) encodeU32 decodeU32 := by
  refine ⟨fun {n} _ r => ?_, Extends.map (extends_decodeLe 4)⟩
  rw [decodeU32, StateT.run_map, encodeU32, run_decodeLe n.toNat_lt]
  exact congrArg (fun m => some (m, r)) UInt32.ofNat_toNat

/-- The flag of one byte. -/
def decodeBool : Decoder Bool := do
  match ← takeBytes 1 with
  | [0] => return false
  | [1] => return true
  | _ => failure

theorem decodes_bool : Decodes (fun _ => True) encodeBool decodeBool := by
  refine ⟨fun {b} _ r => ?_, Extends.bind (extends_takeBytes 1) fun bytes => ?_⟩
  · rw [decodeBool, StateT.run_bind, run_takeBytes (by rfl)]
    cases b <;> rfl
  · split
    · exact Extends.pure _
    · exact Extends.pure _
    · exact Extends.fail

/-! ## Strings, options, sequences and maps -/

def decodeBytes : Decoder Bytes := do takeBytes (← decodeU64)

def ofUtf8 (b : Bytes) : Decoder String := StateT.lift (String.fromUTF8? ⟨⟨b⟩⟩)

def decodeStr : Decoder String := do ofUtf8 (← decodeBytes)

theorem decodes_bytes : Decodes (fun b => b.length < 2 ^ 64) encodeBytes decodeBytes := by
  refine ⟨fun {b} hb r => ?_, Extends.bind decodes_u64.ext extends_takeBytes⟩
  rw [decodeBytes, encodeBytes, List.append_assoc, decodes_u64.run_bind hb]
  exact run_takeBytes rfl r

theorem fromUTF8?_utf8 (s : String) : String.fromUTF8? ⟨⟨utf8 s⟩⟩ = some s := by
  have hbytes : (⟨⟨utf8 s⟩⟩ : ByteArray) = s.toByteArray := rfl
  rw [hbytes, String.fromUTF8?, dif_pos s.isValidUTF8]
  rfl

theorem decodes_str : Decodes StrFits encodeStr decodeStr := by
  refine ⟨fun {s} hs r => ?_, Extends.bind decodes_bytes.ext fun b => ?_⟩
  · rw [decodeStr, encodeStr, decodes_bytes.run_bind hs, ofUtf8, StateT.run_lift, fromUTF8?_utf8]
    rfl
  · intro c r s hrun x
    rw [ofUtf8, StateT.run_lift] at hrun ⊢
    obtain ⟨s', hs, heq⟩ := Option.bind_eq_some_iff.1 hrun
    obtain ⟨rfl, rfl⟩ := Prod.mk.inj (Option.some.inj heq)
    rw [hs]
    rfl

def decodeOption (dec : Decoder α) : Decoder (Option α) := do
  match ← takeBytes 1 with
  | [0] => return none
  | [1] => return some (← dec)
  | _ => failure

theorem decodes_option (h : Decodes D enc dec) : Decodes (OptFits D) (encodeOption enc) (decodeOption dec) := by
  refine ⟨fun {o} ho r => ?_, Extends.bind (extends_takeBytes 1) fun bytes => ?_⟩
  · cases o with
    | none => rfl
    | some a =>
      have htag : (takeBytes 1).run (encodeOption enc (some a) ++ r) = some ([1], enc a ++ r) :=
        run_takeBytes (b := [1]) rfl (enc a ++ r)
      rw [decodeOption, StateT.run_bind, htag]
      show (some <$> dec).run (enc a ++ r) = _
      rw [StateT.run_map, h.round (ho a rfl)]
      rfl
  · split
    · exact Extends.pure _
    · exact Extends.map h.ext
    · exact Extends.fail

/-- So many values. -/
def decodeN (dec : Decoder α) : Nat → Decoder (List α)
  | 0 => return []
  | n + 1 => do
    let a ← dec
    let l ← decodeN dec n
    return a :: l

def decodeSeq (dec : Decoder α) : Decoder (List α) := do decodeN dec (← decodeU64)

theorem run_decodeN (h : Decodes D enc dec) {l : List α} (hl : ∀ a ∈ l, D a) (r : Bytes) :
    (decodeN dec l.length).run (l.flatMap enc ++ r) = some (l, r) := by
  induction l with
  | nil => rfl
  | cons a l ih =>
    rw [List.length_cons, decodeN, List.flatMap_cons, List.append_assoc, h.run_bind (hl a List.mem_cons_self),
      StateT.run_bind, ih fun b hb => hl b (List.mem_cons_of_mem _ hb)]
    rfl

theorem extends_decodeN (h : Extends dec) (n : Nat) : Extends (decodeN dec n) := by
  induction n with
  | zero => exact Extends.pure _
  | succ n ih => exact Extends.bind h fun _ => Extends.bind ih fun _ => Extends.pure _

theorem decodes_seq (h : Decodes D enc dec) : Decodes (SeqFits D) (encodeSeq enc) (decodeSeq dec) := by
  refine ⟨fun {l} hl r => ?_, Extends.bind decodes_u64.ext (extends_decodeN h.ext)⟩
  rw [decodeSeq, encodeSeq, List.append_assoc, decodes_u64.run_bind hl.1]
  exact run_decodeN h hl.2 r

def decodePair (f : Decoder α) (g : Decoder β) : Decoder (α × β) := do
  let a ← f
  let b ← g
  return (a, b)

theorem Decodes.pair {f : Decoder β} {g : β → Bytes} (h : Decodes D enc dec) (hf : Decodes E g f) :
    Decodes (fun p : α × β => D p.1 ∧ E p.2) (fun p => enc p.1 ++ g p.2) (decodePair dec f) := by
  refine ⟨fun {p} hp r => ?_, Extends.bind h.ext fun _ => Extends.bind hf.ext fun _ => Extends.pure _⟩
  rw [decodePair, List.append_assoc, h.run_bind hp.1, hf.run_bind hp.2]
  rfl

theorem BTreeMap.ofList_entries {κ ν : Type} [LinearOrder κ] (m : BTreeMap κ ν) : BTreeMap.ofList m.entries = m := by
  refine BTreeMap.ext_get? fun k => Option.ext fun v => ?_
  rw [BTreeMap.get?_ofList (m.sorted.imp ne_of_lt), BTreeMap.mem_entries_iff]

/-- Entries one after the other; of entries with one key the last counts. -/
def decodeMap [LinearOrder α] (dec : Decoder (α × β)) : Decoder (BTreeMap α β) := BTreeMap.ofList <$> decodeSeq dec

theorem decodes_map [LinearOrder α] {P : α × β → Prop} {enc : α × β → Bytes} {dec : Decoder (α × β)}
    (h : Decodes P enc dec) :
    Decodes (fun m : BTreeMap α β => SeqFits P m.entries) (fun m => encodeSeq enc m.entries) (decodeMap dec) :=
  (decodes_seq h).map fun m _ => m.ofList_entries

end Luchta.Framework
