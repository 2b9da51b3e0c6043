import Mathlib.Data.List.Basic
import Mathlib.Tactic.IntervalCases

/-!
# Self-delimiting encodings

An encoder frames its values (`FramedOn`) when the bytes say where an encoded value ends: two
streams that start with encoded values start with the same value. Framing composes, and a framed
encoder is injective. The encoders are those of bincode with fixed-width integers.

* `framed_fixed`: injective encoders of one length are framed.
* `FramedOn.append`: encoding two values one after the other.
* `framed_str`, `framed_option`, `framed_seq`: the composite encoders, where the lengths fit the
  eight bytes they are written in.
-/

namespace Luchta.Framework

abbrev Bytes := List UInt8

variable {α β : Type*}

/-- On `D`, an encoded value is recovered from any stream that starts with it. -/
structure FramedOn (D : α → Prop) (enc : α → Bytes) : Prop where
  split : ∀ {a b : α} {r s : Bytes}, D a → D b → enc a ++ r = enc b ++ s → a = b ∧ r = s

theorem FramedOn.inj {D : α → Prop} {enc : α → Bytes} (h : FramedOn D enc) {a b : α} (ha : D a)
    (hb : D b) (heq : enc a = enc b) : a = b :=
  (h.split ha hb (congrArg (· ++ []) heq)).1

theorem FramedOn.mono {D D' : α → Prop} {enc : α → Bytes} (h : FramedOn D enc)
    (hd : ∀ a, D' a → D a) : FramedOn D' enc :=
  ⟨fun ha hb heq => h.split (hd _ ha) (hd _ hb) heq⟩

theorem FramedOn.comap {D : β → Prop} {enc : β → Bytes} (h : FramedOn D enc) {f : α → β}
    (hf : Function.Injective f) : FramedOn (fun a => D (f a)) fun a => enc (f a) :=
  ⟨fun ha hb heq => (h.split ha hb heq).imp_left fun hab => hf hab⟩

theorem framed_fixed {D : α → Prop} {enc : α → Bytes} (k : Nat)
    (hlen : ∀ a, D a → (enc a).length = k) (hinj : ∀ {a b}, D a → D b → enc a = enc b → a = b) :
    FramedOn D enc := by
  refine ⟨fun {a b r s} ha hb heq => ?_⟩
  obtain ⟨hab, hrs⟩ := List.append_inj heq ((hlen a ha).trans (hlen b hb).symm)
  exact ⟨hinj ha hb hab, hrs⟩

theorem FramedOn.append {D : α → Prop} {E : β → Prop} {f : α → Bytes} {g : β → Bytes}
    (hf : FramedOn D f) (hg : FramedOn E g) :
    FramedOn (fun p : α × β => D p.1 ∧ E p.2) fun p => f p.1 ++ g p.2 := by
  refine ⟨fun {p q r s} hp hq heq => ?_⟩
  simp only [List.append_assoc] at heq
  obtain ⟨h1, heq'⟩ := hf.split hp.1 hq.1 heq
  obtain ⟨h2, hrs⟩ := hg.split hp.2 hq.2 heq'
  exact ⟨Prod.ext h1 h2, hrs⟩

/-! ## Integers and flags -/

/-- The `k` low bytes of `n`, least significant first. -/
def leBytes : Nat → Nat → Bytes
  | 0, _ => []
  | k + 1, n => UInt8.ofNat n :: leBytes k (n / 256)

@[simp] theorem length_leBytes (k n : Nat) : (leBytes k n).length = k := by
  induction k generalizing n with
  | zero => rfl
  | succ k ih => rw [leBytes, List.length_cons, ih]

theorem leBytes_inj {k m n : Nat} (hm : m < 256 ^ k) (hn : n < 256 ^ k)
    (h : leBytes k m = leBytes k n) : m = n := by
  induction k generalizing m n with
  | zero => simp only [Nat.pow_zero] at hm hn; omega
  | succ k ih =>
    obtain ⟨hhead, htail⟩ := List.cons.inj h
    rw [Nat.pow_succ] at hm hn
    have hdiv : m / 256 = n / 256 := ih (by omega) (by omega) htail
    have hmod : m % 256 = n % 256 := by
      have := congrArg UInt8.toNat hhead
      simpa using this
    omega

def encodeU64 (n : Nat) : Bytes := leBytes 8 n

def encodeU32 (n : UInt32) : Bytes := leBytes 4 n.toNat

def encodeBool (b : Bool) : Bytes := [if b then 1 else 0]

theorem framed_u64 : FramedOn (fun n => n < 2 ^ 64) encodeU64 :=
  framed_fixed 8 (fun _ _ => length_leBytes _ _) fun hm hn h => leBytes_inj hm hn h

theorem framed_u32 : FramedOn (fun _ => True) encodeU32 :=
  framed_fixed 4 (fun _ _ => length_leBytes _ _) fun {a b} _ _ h =>
    UInt32.toNat_inj.1 (leBytes_inj a.toNat_lt b.toNat_lt h)

theorem framed_bool : FramedOn (fun _ => True) encodeBool :=
  framed_fixed 1 (fun _ _ => rfl) fun {a b} _ _ h => by
    revert a b
    decide

/-! ## Strings, options and sequences -/

/-- The UTF-8 bytes of a string. -/
def utf8 (s : String) : Bytes := s.toByteArray.data.toList

theorem utf8_injective : Function.Injective utf8 := fun _ _ h =>
  String.toByteArray_inj.1 (ByteArray.ext (Array.toList_inj.1 h))

/-- A byte string after its length. -/
def encodeBytes (b : Bytes) : Bytes := encodeU64 b.length ++ b

theorem framed_bytes : FramedOn (fun b => b.length < 2 ^ 64) encodeBytes := by
  refine ⟨fun {a b r s} ha hb heq => ?_⟩
  simp only [encodeBytes, List.append_assoc] at heq
  obtain ⟨hlen, hrest⟩ := framed_u64.split ha hb heq
  exact List.append_inj hrest hlen

def encodeStr (s : String) : Bytes := encodeBytes (utf8 s)

/-- The length of a string is written in eight bytes. -/
def StrFits (s : String) : Prop := (utf8 s).length < 2 ^ 64

instance (s : String) : Decidable (StrFits s) := inferInstanceAs (Decidable (_ < _))

theorem framed_str : FramedOn StrFits encodeStr := framed_bytes.comap utf8_injective

def encodeOption (enc : α → Bytes) : Option α → Bytes
  | none => [0]
  | some a => 1 :: enc a

def OptFits (D : α → Prop) (o : Option α) : Prop := ∀ a, o = some a → D a

instance {D : α → Prop} [DecidablePred D] : DecidablePred (OptFits D)
  | none => isTrue fun _ h => nomatch h
  | some a => decidable_of_iff (D a) ⟨fun h _ heq => Option.some.inj heq ▸ h, fun h => h a rfl⟩

theorem framed_option {D : α → Prop} {enc : α → Bytes} (h : FramedOn D enc) :
    FramedOn (OptFits D) (encodeOption enc) := by
  refine ⟨fun {a b r s} ha hb heq => ?_⟩
  match a, b with
  | none, none => exact ⟨rfl, List.tail_eq_of_cons_eq heq⟩
  | none, some b => simp [encodeOption] at heq
  | some a, none => simp [encodeOption] at heq
  | some a, some b =>
    obtain ⟨rfl, hrs⟩ := h.split (ha a rfl) (hb b rfl) (List.tail_eq_of_cons_eq heq)
    exact ⟨rfl, hrs⟩

/-- The elements one after the other, after their number. -/
def encodeSeq (enc : α → Bytes) (l : List α) : Bytes := encodeU64 l.length ++ l.flatMap enc

def SeqFits (D : α → Prop) (l : List α) : Prop := l.length < 2 ^ 64 ∧ ∀ a ∈ l, D a

instance {D : α → Prop} [DecidablePred D] : DecidablePred (SeqFits D) := fun _ =>
  inferInstanceAs (Decidable (_ ∧ _))

theorem framed_flatMap {D : α → Prop} {enc : α → Bytes} (h : FramedOn D enc) {l m : List α}
    {r s : Bytes} (hlen : l.length = m.length) (hl : ∀ a ∈ l, D a) (hm : ∀ a ∈ m, D a)
    (heq : l.flatMap enc ++ r = m.flatMap enc ++ s) : l = m ∧ r = s := by
  induction l generalizing m with
  | nil =>
    obtain rfl : m = [] := List.length_eq_zero_iff.1 hlen.symm
    exact ⟨rfl, heq⟩
  | cons a l ih =>
    match m, hlen with
    | b :: m, hlen =>
      simp only [List.flatMap_cons, List.append_assoc] at heq
      obtain ⟨rfl, hrest⟩ := h.split (hl a List.mem_cons_self) (hm b List.mem_cons_self) heq
      obtain ⟨rfl, hrs⟩ := ih (Nat.succ.inj hlen) (fun c hc => hl c (List.mem_cons_of_mem _ hc))
        (fun c hc => hm c (List.mem_cons_of_mem _ hc)) hrest
      exact ⟨rfl, hrs⟩

/-- Without a count, the end of the stream ends the list, if no encoding is empty. -/
theorem flatMap_inj {D : α → Prop} {enc : α → Bytes} (h : FramedOn D enc) (hne : ∀ a, enc a ≠ [])
    {l m : List α} (hl : ∀ a ∈ l, D a) (hm : ∀ a ∈ m, D a) (heq : l.flatMap enc = m.flatMap enc) :
    l = m := by
  induction l generalizing m with
  | nil =>
    match m with
    | [] => rfl
    | b :: m => exact absurd (List.append_eq_nil_iff.1 heq.symm).1 (hne b)
  | cons a l ih =>
    match m with
    | [] => exact absurd (List.append_eq_nil_iff.1 heq).1 (hne a)
    | b :: m =>
      obtain ⟨rfl, hrest⟩ := h.split (hl a List.mem_cons_self) (hm b List.mem_cons_self) heq
      rw [ih (fun c hc => hl c (List.mem_cons_of_mem _ hc))
        (fun c hc => hm c (List.mem_cons_of_mem _ hc)) hrest]

/-- What comes before a separator that does not occur in it. -/
theorem append_separator_inj {γ : Type*} {sep : γ} {a b r s : List γ} (ha : sep ∉ a) (hb : sep ∉ b)
    (heq : a ++ sep :: r = b ++ sep :: s) : a = b ∧ r = s := by
  induction a generalizing b with
  | nil =>
    match b with
    | [] => exact ⟨rfl, List.tail_eq_of_cons_eq heq⟩
    | y :: b => exact absurd (List.cons.inj heq).1 (List.ne_of_not_mem_cons hb)
  | cons x a ih =>
    match b with
    | [] => exact absurd (List.cons.inj heq).1.symm (List.ne_of_not_mem_cons ha)
    | y :: b =>
      obtain ⟨rfl, htail⟩ := List.cons.inj heq
      obtain ⟨rfl, hrs⟩ := ih (List.not_mem_of_not_mem_cons ha) (List.not_mem_of_not_mem_cons hb) htail
      exact ⟨rfl, hrs⟩

theorem framed_seq {D : α → Prop} {enc : α → Bytes} (h : FramedOn D enc) :
    FramedOn (SeqFits D) (encodeSeq enc) := by
  refine ⟨fun {l m r s} hl hm heq => ?_⟩
  simp only [encodeSeq, List.append_assoc] at heq
  obtain ⟨hlen, hrest⟩ := framed_u64.split hl.1 hm.1 heq
  exact framed_flatMap h hlen hl.2 hm.2 hrest

end Luchta.Framework
