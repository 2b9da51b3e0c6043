import Luchta.Framework.Bincode
import Mathlib.Data.String.Basic

/-!
# Percent encoding

The UTF-8 bytes of a text, where those of a set, and all that are not ASCII, are written as `%` and two
hexadecimal digits.

* `framed_percentEncodeByte`: where `%` is encoded, each byte is recovered from what follows it.
* `percentEncode_injective`: then the text is.
* `not_mem_percentEncode`: other characters of the set do not occur in what is written.
-/

namespace Luchta.Framework

abbrev AsciiSet := UInt8 → Bool

namespace AsciiSet

/-- `CONTROLS`. -/
def controls : AsciiSet := fun b => b < 0x20 || b = 0x7f

def add (set : AsciiSet) (byte : UInt8) : AsciiSet := fun b => set b || b = byte

end AsciiSet

/-- An upper-case hexadecimal digit. -/
def percentDigit (n : Nat) : UInt8 := UInt8.ofNat (if n < 10 then 48 + n else 55 + n)

def percentEncodeByte (set : AsciiSet) (b : UInt8) : Bytes :=
  if 0x80 ≤ b || set b then [0x25, percentDigit (b.toNat / 16), percentDigit (b.toNat % 16)] else [b]

/-- The text of bytes that are ASCII. -/
def ofAscii (bytes : Bytes) : String := String.ofList (bytes.map fun b => Char.ofNat b.toNat)

/-- `utf8_percent_encode`. -/
def percentEncode (set : AsciiSet) (s : String) : String :=
  ofAscii ((utf8 s).flatMap (percentEncodeByte set))

variable {set : AsciiSet} {m n : Nat} {b : UInt8}

theorem percentDigit_toNat (hn : n < 16) : (percentDigit n).toNat = if n < 10 then 48 + n else 55 + n := by
  rw [percentDigit, UInt8.toNat_ofNat_of_lt']
  show (if n < 10 then 48 + n else 55 + n) < 256
  split
  · omega
  · omega

theorem percentDigit_inj (hm : m < 16) (hn : n < 16) (h : percentDigit m = percentDigit n) : m = n := by
  have hnat := congrArg UInt8.toNat h
  rw [percentDigit_toNat hm, percentDigit_toNat hn] at hnat
  split at hnat
  · split at hnat
    · omega
    · omega
  · split at hnat
    · omega
    · omega

theorem framed_percentEncodeByte (hset : set 0x25 = true) :
    FramedOn (fun _ => True) (percentEncodeByte set) := by
  refine ⟨fun {a b r s} _ _ heq => ?_⟩
  unfold percentEncodeByte at heq
  split at heq
  · split at heq
    · obtain ⟨hhigh, heq⟩ := List.cons_eq_cons.1 (List.tail_eq_of_cons_eq heq)
      obtain ⟨hlow, heq⟩ := List.cons_eq_cons.1 heq
      have ha := a.toNat_lt
      have hb := b.toNat_lt
      have hhigh := percentDigit_inj (by omega) (by omega) hhigh
      have hlow := percentDigit_inj (by omega) (by omega) hlow
      exact ⟨UInt8.toNat_inj.1 (by omega), heq⟩
    · rename_i hplain
      obtain ⟨rfl, -⟩ := List.cons_eq_cons.1 heq
      exact absurd (by rw [hset, Bool.or_true]) hplain
  · rename_i hplain
    split at heq
    · obtain ⟨rfl, -⟩ := List.cons_eq_cons.1 heq
      exact absurd (by rw [hset, Bool.or_true]) hplain
    · exact List.cons_eq_cons.1 heq

theorem percentEncodeByte_ne_nil (set : AsciiSet) (b : UInt8) : percentEncodeByte set b ≠ [] := by
  unfold percentEncodeByte
  split
  · exact List.cons_ne_nil _ _
  · exact List.cons_ne_nil _ _

theorem toNat_ofByte (b : UInt8) : (Char.ofNat b.toNat).toNat = b.toNat := by
  have hvalid : b.toNat.isValidChar := .inl (Nat.lt_trans b.toNat_lt (by decide))
  rw [Char.ofNat, dif_pos hvalid]
  rfl

theorem ofAscii_injective : Function.Injective ofAscii := by
  intro l m h
  refine List.map_injective_iff.2 (fun a b hab => ?_) (String.ofList_injective h)
  have hnat := congrArg Char.toNat hab
  rw [toNat_ofByte, toNat_ofByte] at hnat
  exact UInt8.toNat_inj.1 hnat

/-- The text is recovered, since `%` is encoded too. -/
theorem percentEncode_injective (hset : set 0x25 = true) : Function.Injective (percentEncode set) := by
  intro s t h
  refine utf8_injective (flatMap_inj (framed_percentEncodeByte hset) (percentEncodeByte_ne_nil set)
    (fun _ _ => trivial) (fun _ _ => trivial) (ofAscii_injective h))

theorem not_mem_percentEncodeByte (hset : set b = true) (hpercent : b ≠ 0x25)
    (hdigit : ∀ n < 16, percentDigit n ≠ b) (a : UInt8) : b ∉ percentEncodeByte set a := by
  intro hmem
  unfold percentEncodeByte at hmem
  split at hmem
  · have ha := a.toNat_lt
    simp only [List.mem_cons, List.not_mem_nil, or_false] at hmem
    rcases hmem with hmem | hmem | hmem
    · exact hpercent hmem
    · exact hdigit _ (by omega) hmem.symm
    · exact hdigit _ (by omega) hmem.symm
  · rename_i hplain
    obtain rfl := List.mem_singleton.1 hmem
    exact hplain (by rw [hset, Bool.or_true])

/-- What is encoded does not occur, unless it is what is written for it. -/
theorem not_mem_percentEncode (hset : set b = true) (hpercent : b ≠ 0x25)
    (hdigit : ∀ n < 16, percentDigit n ≠ b) (s : String) :
    Char.ofNat b.toNat ∉ (percentEncode set s).toList := by
  intro hmem
  rw [percentEncode, ofAscii, String.toList_ofList, List.mem_map] at hmem
  obtain ⟨a, ha, heq⟩ := hmem
  have hnat := congrArg Char.toNat heq
  rw [toNat_ofByte, toNat_ofByte] at hnat
  obtain rfl := UInt8.toNat_inj.1 hnat
  obtain ⟨c, -, hc⟩ := List.mem_flatMap.1 ha
  exact not_mem_percentEncodeByte hset hpercent hdigit c hc

end Luchta.Framework
