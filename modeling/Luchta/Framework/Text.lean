import Mathlib.Algebra.Group.Nat.Defs
import Mathlib.Data.List.Basic

/-!
# Text

String searches, as structural recursions over the characters, and numbers printed with a width.
-/

namespace Luchta.Framework

/-- `str::starts_with`. -/
def startsWithStr (s pre : String) : Bool := pre.toList.isPrefixOf s.toList

/-- `str::contains` of a string. -/
def containsStr (s part : String) : Bool := s.toList.tails.any part.toList.isPrefixOf

/-- `str::strip_prefix` of a string. -/
def stripPrefixStr (s pre : String) : Option String :=
  if startsWithStr s pre then some (String.ofList (s.toList.drop pre.toList.length)) else none

/-- The characters with the Unicode property `White_Space`. -/
def whiteSpace (c : Char) : Bool :=
  (0x09 ≤ c.toNat && c.toNat ≤ 0x0d) || c.toNat ∈ [0x20, 0x85, 0xa0, 0x1680, 0x2028, 0x2029, 0x202f, 0x205f, 0x3000]
    || (0x2000 ≤ c.toNat && c.toNat ≤ 0x200a)

/-- `str::trim`. -/
def trim (s : String) : String :=
  String.ofList (((s.toList.dropWhile whiteSpace).reverse.dropWhile whiteSpace).reverse)

/-! ## Numbers -/

/-- `{:0width}` of an unsigned number. -/
def zeroPadded (width n : Nat) : List Char :=
  List.replicate (width - (Nat.toDigits 10 n).length) '0' ++ Nat.toDigits 10 n

/-- `{:0width}` of a signed number: the sign comes before the zeros, and counts. -/
def zeroPaddedInt (width : Nat) (n : Int) : List Char :=
  if n < 0 then '-' :: zeroPadded (width - 1) n.natAbs else zeroPadded width n.toNat

theorem zeroPadded_inj {width m n : Nat} (h : zeroPadded width m = zeroPadded width n) : m = n := by
  have hvalue := congrArg (fun l => Nat.ofDigitChars 10 l 0) h
  simpa [zeroPadded, Nat.ofDigitChars_append] using hvalue

theorem length_zeroPadded {width n : Nat} (hwidth : 0 < width) (h : n < 10 ^ width) :
    (zeroPadded width n).length = width := by
  have hdigits := (Nat.length_toDigits_le_iff (n := n) (by decide : 1 < 10) hwidth).2 h
  rw [zeroPadded, List.length_append, List.length_replicate]
  omega

theorem isDigit_of_mem_zeroPadded {width n : Nat} {c : Char} (h : c ∈ zeroPadded width n) :
    c.isDigit = true := by
  rcases List.mem_append.1 h with h | h
  · rw [List.eq_of_mem_replicate h]
    decide
  · exact Nat.isDigit_of_mem_toDigits (by decide) (by decide) h

end Luchta.Framework
