import Mathlib.Data.Int.Order.Basic
import Mathlib.Data.Prod.Lex
import Mathlib.Order.Monotone.Basic
import Mathlib.Tactic.IntervalCases

/-!
# The proleptic Gregorian calendar

Dates, and which date follows which, from the rule of leap years and the lengths of the months.

* `Gregorian`: a numbering of the days that follows the calendar from an epoch on, both ways.
* `Gregorian.injective`: different days have different dates.
* `marchDate`: the date of a day in a year that starts in March, so that a leap day ends its year.
* `gregorian_of_march`: a numbering by such years follows the calendar.
-/

namespace Luchta.Framework

structure Date where
  year : Int
  month : Nat
  day : Nat
  deriving DecidableEq

def isLeap (year : Int) : Prop := year % 4 = 0 ∧ (year % 100 ≠ 0 ∨ year % 400 = 0)

instance (year : Int) : Decidable (isLeap year) := inferInstanceAs (Decidable (_ ∧ _))

def daysInMonth (year : Int) (month : Nat) : Nat :=
  if month = 2 then if isLeap year then 29 else 28
  else if month ∈ [4, 6, 9, 11] then 30
  else 31

theorem daysInMonth_le (year : Int) (month : Nat) : daysInMonth year month ≤ 31 := by
  unfold daysInMonth
  split
  · split <;> decide
  · split <;> decide

namespace Date

structure Valid (d : Date) : Prop where
  month_pos : 1 ≤ d.month
  month_le : d.month ≤ 12
  day_pos : 1 ≤ d.day
  day_le : d.day ≤ daysInMonth d.year d.month

/-- The day after. -/
def next (d : Date) : Date :=
  if d.day < daysInMonth d.year d.month then { d with day := d.day + 1 }
  else if d.month < 12 then ⟨d.year, d.month + 1, 1⟩
  else ⟨d.year + 1, 1, 1⟩

/-- Dates are ordered by their years, then by their months, then by their days. -/
def sortKey (d : Date) : Int ×ₗ Nat ×ₗ Nat := toLex (d.year, toLex (d.month, d.day))

theorem sortKey_lt_next (d : Date) : d.sortKey < d.next.sortKey := by
  unfold next
  split
  · exact Prod.Lex.toLex_lt_toLex.2 (.inr ⟨rfl, Prod.Lex.toLex_lt_toLex.2 (.inr ⟨rfl, Nat.lt_succ_self _⟩)⟩)
  · split
    · exact Prod.Lex.toLex_lt_toLex.2 (.inr ⟨rfl, Prod.Lex.toLex_lt_toLex.2 (.inl (Nat.lt_succ_self _))⟩)
    · exact Prod.Lex.toLex_lt_toLex.2 (.inl (Int.lt_succ _))

end Date

/-- The days are numbered from the epoch on, and have the dates that the calendar gives them. -/
structure Gregorian (epoch : Date) (date : Int → Date) : Prop where
  epoch : date 0 = epoch
  valid : ∀ n, (date n).Valid
  next : ∀ n, date (n + 1) = (date n).next

theorem Gregorian.injective {epoch : Date} {date : Int → Date} (h : Gregorian epoch date) :
    Function.Injective date := by
  have hmono : StrictMono fun n => (date n).sortKey := by
    refine strictMono_int_of_lt_succ fun n => ?_
    rw [h.next]
    exact Date.sortKey_lt_next _
  exact fun m n hmn => hmono.injective (congrArg Date.sortKey hmn)

/-! ## Years that start in March -/

/-- The days before the first of March of a year, counted from the one of year `0`. -/
def yearStart (y : Int) : Int := 365 * y + y / 4 - y / 100 + y / 400

/-- The length of the year from one March to the next. -/
def yearLength (y : Int) : Nat := if isLeap (y + 1) then 366 else 365

theorem yearLength_bounds (y : Int) : 365 ≤ yearLength y ∧ yearLength y ≤ 366 := by
  unfold yearLength
  split <;> decide

theorem yearStart_succ (y : Int) : yearStart (y + 1) = yearStart y + yearLength y := by
  unfold yearStart yearLength
  by_cases h : isLeap (y + 1)
  · rw [if_pos h]
    unfold isLeap at h
    omega
  · rw [if_neg h]
    unfold isLeap at h
    omega

/-- A day is in one year only. -/
theorem yearStart_unique {y y' : Int} {doy doy' : Nat} (h : doy < yearLength y)
    (h' : doy' < yearLength y') (heq : yearStart y + doy = yearStart y' + doy') :
    y = y' ∧ doy = doy' := by
  have hmono : ∀ a b : Int, a < b → yearStart (a + 1) ≤ yearStart b := by
    intro a b hab
    unfold yearStart
    omega
  have hy : y = y' := by
    rcases lt_trichotomy y y' with hlt | heq | hlt
    · have := hmono y y' hlt
      rw [yearStart_succ] at this
      omega
    · exact heq
    · have := hmono y' y hlt
      rw [yearStart_succ] at this
      omega
  subst hy
  exact ⟨rfl, by omega⟩

/-- The days before a month of such a year: the months repeat their lengths after five. -/
def monthStart (mp : Nat) : Nat := (153 * mp + 2) / 5

def monthOf (mp : Nat) : Nat := if mp < 10 then mp + 3 else mp - 9

/-- January and February are in the next civil year. -/
def civilYear (y : Int) (mp : Nat) : Int := if monthOf mp ≤ 2 then y + 1 else y

theorem daysInMonth_march (y : Int) {mp : Nat} (h : mp ≤ 11) :
    daysInMonth (civilYear y mp) (monthOf mp) =
      (if mp = 11 then yearLength y else monthStart (mp + 1)) - monthStart mp := by
  by_cases hmp : mp = 11
  · subst hmp
    show (if isLeap (y + 1) then 29 else 28) = yearLength y - 337
    unfold yearLength
    split <;> rfl
  · have hcases : mp < 11 := by omega
    rw [if_neg hmp]
    interval_cases mp <;> rfl

/-- The date of a day in a year that starts in March. -/
def marchDate (y : Int) (doy : Nat) : Date :=
  let mp := (5 * doy + 2) / 153
  ⟨civilYear y mp, monthOf mp, doy - monthStart mp + 1⟩

/-- The month of a day is the last one that starts no later. -/
theorem march_month {y : Int} {doy : Nat} (h : doy < yearLength y) :
    (5 * doy + 2) / 153 ≤ 11 ∧ monthStart ((5 * doy + 2) / 153) ≤ doy ∧
      doy < if (5 * doy + 2) / 153 = 11 then yearLength y else monthStart ((5 * doy + 2) / 153 + 1) := by
  have hlength := yearLength_bounds y
  unfold monthStart
  refine ⟨by omega, by omega, ?_⟩
  split <;> omega

theorem marchDate_valid {y : Int} {doy : Nat} (h : doy < yearLength y) : (marchDate y doy).Valid := by
  obtain ⟨hmp, hle, hlt⟩ := march_month h
  refine ⟨?_, ?_, Nat.succ_pos _, ?_⟩
  · show 1 ≤ monthOf _
    unfold monthOf
    split <;> omega
  · show monthOf _ ≤ 12
    unfold monthOf
    split <;> omega
  · show doy - monthStart _ + 1 ≤ daysInMonth (civilYear y _) (monthOf _)
    rw [daysInMonth_march y hmp]
    omega

/-- Within a year the next day has the next date. -/
theorem marchDate_next {y : Int} {doy : Nat} (h : doy + 1 < yearLength y) :
    (marchDate y doy).next = marchDate y (doy + 1) := by
  obtain ⟨hmp, hle, hlt⟩ := march_month (Nat.lt_of_succ_lt h)
  have hdays := daysInMonth_march y hmp
  by_cases hsame : (5 * (doy + 1) + 2) / 153 = (5 * doy + 2) / 153
  · -- the month goes on
    obtain ⟨-, -, hlt'⟩ := march_month h
    rw [hsame] at hlt'
    unfold Date.next marchDate
    dsimp only
    rw [hsame, hdays, if_pos (by omega), Nat.sub_add_comm hle]
  · have hnext : (5 * (doy + 1) + 2) / 153 = (5 * doy + 2) / 153 + 1 := by omega
    have hfirst : doy + 1 = monthStart ((5 * doy + 2) / 153 + 1) := by
      unfold monthStart
      omega
    have hne : (5 * doy + 2) / 153 ≠ 11 := by
      have := yearLength_bounds y
      omega
    unfold Date.next marchDate
    dsimp only
    rw [hdays, if_neg hne, if_neg (by omega), hnext, ← hfirst, Nat.sub_self]
    have hmp' : (5 * doy + 2) / 153 < 11 := by omega
    generalize (5 * doy + 2) / 153 = mp at hmp'
    interval_cases mp <;> rfl

/-- The last day of February is followed by the first day of the year after. -/
theorem marchDate_last {y : Int} {doy : Nat} (h : doy + 1 = yearLength y) :
    (marchDate y doy).next = marchDate (y + 1) 0 := by
  have hlast : doy < yearLength y := by omega
  obtain ⟨hmp, hle, hlt⟩ := march_month hlast
  have h11 : (5 * doy + 2) / 153 = 11 := by
    have := yearLength_bounds y
    omega
  have hdays := daysInMonth_march y (Nat.le_refl 11)
  rw [h11] at hle
  unfold Date.next marchDate
  dsimp only
  rw [h11, hdays, if_pos rfl, if_neg (by omega)]
  rfl

/-- A numbering of the days by years that start in March follows the calendar. -/
theorem gregorian_of_march {epoch : Date} {date : Int → Date} {first : Int} (h0 : date 0 = epoch)
    (h : ∀ n, ∃ (y : Int) (doy : Nat), yearStart y + doy = n + first ∧ doy < yearLength y ∧
      date n = marchDate y doy) : Gregorian epoch date := by
  refine ⟨h0, fun n => ?_, fun n => ?_⟩
  · obtain ⟨y, doy, -, hdoy, hdate⟩ := h n
    rw [hdate]
    exact marchDate_valid hdoy
  · obtain ⟨y, doy, hday, hdoy, hdate⟩ := h n
    obtain ⟨y', doy', hday', hdoy', hdate'⟩ := h (n + 1)
    rw [hdate, hdate']
    by_cases hlt : doy + 1 < yearLength y
    · obtain ⟨rfl, rfl⟩ := yearStart_unique hlt hdoy' (by push_cast; omega)
      exact (marchDate_next hlt).symm
    · have hlast : doy + 1 = yearLength y := by omega
      have hpos : 0 < yearLength (y + 1) := by
        have := yearLength_bounds (y + 1)
        omega
      have hstart := yearStart_succ y
      obtain ⟨rfl, rfl⟩ := yearStart_unique hpos hdoy' (by push_cast; omega)
      exact (marchDate_last hlast).symm

end Luchta.Framework
