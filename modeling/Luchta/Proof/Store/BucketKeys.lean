import Luchta.Framework.Bincode
import Luchta.Impl.Discovery
import Mathlib.Data.List.Nodup

/-!
# Bucket keys

* `gregorian_civilFromDays`: the conversion of days is the proleptic Gregorian calendar.
* `bucketKey_inj`: keys of different days differ.
* `windowDays_eq`: which times the listing goes back to, before and after the epoch is reached.
* `keysSound_iff`: the keys are listed, distinct for distinct days, and without duplicates, exactly
  where the listing does not go back to a second time in the first day.
-/

namespace Luchta.Proof.Store

open Luchta.Framework Luchta.Impl

/-! ## The calendar -/

/-- The era formula rounds down, also before the epoch. -/
theorem era_eq (z : Int) :
    (if z ≥ 0 then z else z - 146096).tdiv 146097 = z / 146097 := by
  split
  · rename_i h
    exact Int.tdiv_eq_ediv_of_nonneg h
  · have hneg : (z - 146096).tdiv 146097 = -((146096 - z).tdiv 146097) := by
      rw [← Int.neg_tdiv, neg_sub]
    rw [hneg, Int.tdiv_eq_ediv_of_nonneg (by omega)]
    omega

/-- The days of an era with the leap days taken out, so that each of its years has 365. -/
def evened (doe : Nat) : Nat := doe - doe / 1460 + doe / 36524 - doe / 146096

theorem evened_mono {d e : Nat} (h : d ≤ e) (he : e < 146097) : evened d ≤ evened e := by
  induction e, h using Nat.le_induction with
  | base => exact Nat.le_refl _
  | succ e _ ih =>
    refine (ih (by omega)).trans ?_
    unfold evened
    omega

/-- Each year begins and ends within its own 365 days. -/
theorem evened_bounds : ∀ y < 400, 365 * y ≤ evened (365 * y + y / 4 - y / 100) ∧
    evened (365 * (y + 1) + (y + 1) / 4 - (y + 1) / 100 + (y + 1) / 400 - 1) < 365 * (y + 1) := by
  decide +kernel

/-- The year of a day within its era of 400 years. -/
theorem yearOfEra_spec {doe : Nat} (h : doe < 146097) :
    evened doe / 365 < 400 ∧ yearStart (evened doe / 365 : Nat) ≤ doe ∧
      doe < yearStart (evened doe / 365 : Nat) + yearLength (evened doe / 365 : Nat) := by
  have hlt : evened doe / 365 < 400 := by
    unfold evened
    omega
  generalize hy : evened doe / 365 = y at hlt
  rw [← yearStart_succ]
  refine ⟨hlt, ?_, ?_⟩
  · by_contra hbefore
    obtain ⟨y, rfl⟩ : ∃ y', y = y' + 1 := ⟨y - 1, by unfold yearStart at hbefore; omega⟩
    have hend := (evened_bounds y (by omega)).2
    have hle : doe ≤ 365 * (y + 1) + (y + 1) / 4 - (y + 1) / 100 + (y + 1) / 400 - 1 := by
      unfold yearStart at hbefore
      omega
    have := evened_mono hle (by omega)
    omega
  · by_contra hafter
    rw [← Nat.cast_add_one] at hafter
    unfold yearStart at hafter
    have hnext : y + 1 < 400 := by omega
    have hstart := (evened_bounds (y + 1) hnext).1
    have := evened_mono (show 365 * (y + 1) + (y + 1) / 4 - (y + 1) / 100 ≤ doe by omega) h
    omega

/-- Eras repeat. -/
theorem yearStart_era (y era : Int) : yearStart (y + era * 400) = yearStart y + 146097 * era := by
  unfold yearStart
  omega

theorem yearLength_era (y era : Int) : yearLength (y + era * 400) = yearLength y := by
  have hleap : isLeap (y + era * 400 + 1) ↔ isLeap (y + 1) := by
    unfold isLeap
    omega
  unfold yearLength
  by_cases h : isLeap (y + 1)
  · rw [if_pos (hleap.2 h), if_pos h]
  · rw [if_neg fun h' => h (hleap.1 h'), if_neg h]

theorem civilFromDays_march (n : Int) : ∃ (y : Int) (doy : Nat),
    yearStart y + doy = n + 719468 ∧ doy < yearLength y ∧ civilFromDays n = marchDate y doy := by
  obtain ⟨doe, hdoe⟩ : ∃ doe : Nat, (doe : Int) = (n + 719468) % 146097 :=
    ⟨((n + 719468) % 146097).toNat, by omega⟩
  have hera : doe < 146097 := by omega
  obtain ⟨hyoe, hstart, hend⟩ := yearOfEra_spec hera
  have hdate : civilFromDays n = marchDate ((evened doe / 365 : Nat) + (n + 719468) / 146097 * 400)
      (doe - (365 * (evened doe / 365) + evened doe / 365 / 4 - evened doe / 365 / 100)) := by
    have hday : (n + 719468 - (n + 719468) / 146097 * 146097).toNat = doe := by
      omega
    unfold civilFromDays
    dsimp only
    rw [era_eq, hday]
    rfl
  refine ⟨_, _, ?_, ?_, hdate⟩
  · rw [yearStart_era]
    unfold yearStart at hstart ⊢
    omega
  · rw [yearLength_era]
    unfold yearStart at hstart hend
    omega

theorem gregorian_civilFromDays : Gregorian ⟨1970, 1, 1⟩ civilFromDays :=
  gregorian_of_march (by decide) civilFromDays_march

/-! ## Keys -/

theorem dash_not_mem_zeroPadded (width n : Nat) : '-' ∉ zeroPadded width n := by
  intro h
  exact absurd (isDigit_of_mem_zeroPadded h) (by decide)

/-- From the epoch on, years have no sign. -/
theorem civilYear_nonneg (day : Nat) : 0 ≤ (civilFromDays day).year := by
  obtain ⟨y, doy, hday, hdoy, hdate⟩ := civilFromDays_march day
  have hbounds := yearLength_bounds y
  have hy : 0 ≤ y := by
    unfold yearStart at hday
    omega
  rw [hdate]
  show 0 ≤ civilYear y _
  unfold civilYear
  split <;> omega

/-- The text before the dash tells a date whose year has no sign. -/
theorem dateText_inj {d d' : Date} (hvalid : d.Valid) (hvalid' : d'.Valid) (hyear : 0 ≤ d.year)
    (hyear' : 0 ≤ d'.year)
    (h : zeroPaddedInt 4 d.year ++ zeroPadded 2 d.month ++ zeroPadded 2 d.day =
      zeroPaddedInt 4 d'.year ++ zeroPadded 2 d'.month ++ zeroPadded 2 d'.day) : d = d' := by
  have hlength : ∀ {e : Date}, e.Valid → (zeroPadded 2 e.month).length = 2 ∧
      (zeroPadded 2 e.day).length = 2 := by
    intro e he
    have hmonth := he.month_le
    have hday := he.day_le.trans (daysInMonth_le _ _)
    exact ⟨length_zeroPadded (by decide) (by omega), length_zeroPadded (by decide) (by omega)⟩
  obtain ⟨hmonth, hday⟩ := hlength hvalid
  obtain ⟨hmonth', hday'⟩ := hlength hvalid'
  obtain ⟨h, hd⟩ := List.append_inj' h (by rw [hday, hday'])
  obtain ⟨hy, hm⟩ := List.append_inj' h (by rw [hmonth, hmonth'])
  rw [zeroPaddedInt, zeroPaddedInt, if_neg (by omega), if_neg (by omega)] at hy
  have hyears : d.year = d'.year := by
    have := zeroPadded_inj hy
    omega
  have hmonths := zeroPadded_inj hm
  have hdays := zeroPadded_inj hd
  cases d
  cases d'
  simp_all

/-- A key depends on the day only. -/
theorem bucketKey_congr {time time' : Nat} (h : time / MS_PER_DAY = time' / MS_PER_DAY) (shard : Nat) :
    bucketKey time shard = bucketKey time' shard := by
  rw [bucketKey, bucketKey, h]

/-- A key tells the day and the shard. -/
theorem bucketKey_inj {time time' shard shard' : Nat} (h : bucketKey time shard = bucketKey time' shard') :
    time / MS_PER_DAY = time' / MS_PER_DAY ∧ shard = shard' := by
  have hnot : ∀ day : Nat, '-' ∉ zeroPaddedInt 4 (civilFromDays day).year ++
      zeroPadded 2 (civilFromDays day).month ++ zeroPadded 2 (civilFromDays day).day := by
    intro day
    have hyear := civilYear_nonneg day
    rw [zeroPaddedInt, if_neg (by omega)]
    simp [dash_not_mem_zeroPadded]
  obtain ⟨hdate, hshard⟩ := append_separator_inj (hnot _) (hnot _) (String.ofList_inj.1 h)
  have hday := gregorian_civilFromDays.injective (dateText_inj (gregorian_civilFromDays.valid _)
    (gregorian_civilFromDays.valid _) (civilYear_nonneg _) (civilYear_nonneg _) hdate)
  exact ⟨Int.ofNat_inj.1 hday, zeroPadded_inj hshard⟩

/-! ## The window -/

theorem windowDays_saturated (now remaining : Nat) :
    windowDays now remaining (now / MS_PER_DAY + 1) (some (now % MS_PER_DAY)) =
      if 0 < remaining ∧ now % MS_PER_DAY ≠ 0 then [0] else [] := by
  have hzero : ∀ back, now / MS_PER_DAY < back → now - back * MS_PER_DAY = 0 := by
    intro back hback
    unfold MS_PER_DAY at hback ⊢
    omega
  have hstop : ∀ remaining, windowDays now remaining (now / MS_PER_DAY + 1 + 1) (some 0) = [] := by
    intro remaining
    cases remaining with
    | zero => rfl
    | succ remaining => simp [windowDays, hzero (now / MS_PER_DAY + 1 + 1) (by omega)]
  cases remaining with
  | zero => rfl
  | succ remaining =>
    rw [windowDays, hzero _ (Nat.lt_succ_self _), hstop]
    by_cases h : now % MS_PER_DAY = 0 <;> simp [h]

/-- The listing goes back a day at a time, and once more to the epoch where a day is cut short. -/
theorem windowDays_eq {now remaining back : Nat} {last : Option Nat} (hback : back ≤ now / MS_PER_DAY)
    (hlast : ∀ d, last = some d → now - back * MS_PER_DAY < d) :
    windowDays now remaining back last =
      (List.range' back (min remaining (now / MS_PER_DAY + 1 - back))).map
          (fun k => now - k * MS_PER_DAY) ++
        if now / MS_PER_DAY + 1 - back < remaining ∧ now % MS_PER_DAY ≠ 0 then [0] else [] := by
  induction remaining generalizing back last with
  | zero => simp [windowDays]
  | succ remaining ih =>
    have hfresh : last ≠ some (now - back * MS_PER_DAY) := fun h => Nat.lt_irrefl _ (hlast _ h)
    rw [windowDays, if_neg hfresh]
    rcases Nat.lt_or_eq_of_le hback with hlt | rfl
    · have hnext : ∀ d, some (now - back * MS_PER_DAY) = some d →
          now - (back + 1) * MS_PER_DAY < d := by
        intro d hd
        obtain rfl := Option.some.inj hd
        unfold MS_PER_DAY at hlt ⊢
        omega
      rw [ih hlt hnext]
      have hmin : min (remaining + 1) (now / MS_PER_DAY + 1 - back) =
          min remaining (now / MS_PER_DAY + 1 - (back + 1)) + 1 := by
        omega
      have hmore : now / MS_PER_DAY + 1 - back < remaining + 1 ↔
          now / MS_PER_DAY + 1 - (back + 1) < remaining := by
        omega
      rw [hmin, List.range'_succ, List.map_cons, List.cons_append]
      simp only [hmore]
    · have hrest : now - now / MS_PER_DAY * MS_PER_DAY = now % MS_PER_DAY := by
        unfold MS_PER_DAY
        omega
      rw [hrest, windowDays_saturated]
      have hmin : min (remaining + 1) (now / MS_PER_DAY + 1 - now / MS_PER_DAY) = 1 := by
        omega
      have hmore : now / MS_PER_DAY + 1 - now / MS_PER_DAY < remaining + 1 ↔ 0 < remaining := by
        omega
      rw [hmin]
      simp [hrest]

theorem day_before {now back : Nat} (h : back ≤ now / MS_PER_DAY) :
    (now - back * MS_PER_DAY) / MS_PER_DAY = now / MS_PER_DAY - back := by
  unfold MS_PER_DAY at h ⊢
  omega

/-- The listing of a window, with the day that it lists again. -/
theorem windowDays_window (now dayWindow : Nat) :
    windowDays now dayWindow 0 none =
      (List.range (min dayWindow (now / MS_PER_DAY + 1))).map (fun k => now - k * MS_PER_DAY) ++
        if now / MS_PER_DAY + 1 < dayWindow ∧ now % MS_PER_DAY ≠ 0 then [0] else [] := by
  rw [windowDays_eq (Nat.zero_le _) (by simp), List.range_eq_range', Nat.sub_zero]

/-! ## The listing -/

theorem mem_bucketKeysFor {now dayWindow : Nat} {key : String} :
    key ∈ bucketKeysFor now dayWindow ↔
      ∃ time ∈ windowDays now (min dayWindow MAX_SHARED_CACHE_DAY_WINDOW) 0 none,
        ∃ shard < SHARED_CACHE_SHARD_COUNT, bucketKey time shard = key := by
  simp [bucketKeysFor]

/-- No day of a window that ends in time is listed twice. -/
theorem pairwise_days (now dayWindow : Nat) :
    (windowDays now dayWindow 0 none).Pairwise (fun s t => s / MS_PER_DAY ≠ t / MS_PER_DAY) ↔
      ¬ (now / MS_PER_DAY + 1 < dayWindow ∧ now % MS_PER_DAY ≠ 0) := by
  have hdays : ((List.range (min dayWindow (now / MS_PER_DAY + 1))).map
      fun k => now - k * MS_PER_DAY).Pairwise fun s t => s / MS_PER_DAY ≠ t / MS_PER_DAY := by
    refine List.pairwise_map.2 (List.pairwise_lt_range.imp_of_mem fun {a b} ha hb hab => ?_)
    rw [List.mem_range] at ha hb
    rw [day_before (by omega), day_before (by omega)]
    omega
  rw [windowDays_window]
  by_cases h : now / MS_PER_DAY + 1 < dayWindow ∧ now % MS_PER_DAY ≠ 0
  · refine iff_of_false (fun hpair => ?_) fun hnot => hnot h
    rw [if_pos h] at hpair
    have hlast : now - now / MS_PER_DAY * MS_PER_DAY ∈
        (List.range (min dayWindow (now / MS_PER_DAY + 1))).map fun k => now - k * MS_PER_DAY :=
      List.mem_map.2 ⟨_, List.mem_range.2 (by omega), rfl⟩
    refine (List.pairwise_append.1 hpair).2.2 _ hlast 0 (.head _) ?_
    rw [day_before (Nat.le_refl _), Nat.sub_self, Nat.zero_div]
  · rw [if_neg h, List.append_nil]
    exact iff_of_true hdays h

theorem nodup_bucketKeysFor (now dayWindow : Nat) :
    (bucketKeysFor now dayWindow).Nodup ↔
      ¬ (now / MS_PER_DAY + 1 < min dayWindow MAX_SHARED_CACHE_DAY_WINDOW ∧
        now % MS_PER_DAY ≠ 0) := by
  rw [← pairwise_days, bucketKeysFor, List.nodup_flatMap]
  have hshards : ∀ time, ((List.range SHARED_CACHE_SHARD_COUNT).map (bucketKey time)).Nodup := by
    intro time
    exact List.Nodup.map (fun a b h => (bucketKey_inj h).2) List.nodup_range
  rw [and_iff_right fun time _ => hshards time]
  refine ⟨List.Pairwise.imp fun {s t} hdisjoint heq => ?_, List.Pairwise.imp fun {s t} hne => ?_⟩
  · have hzero : bucketKey s 0 = bucketKey t 0 := bucketKey_congr heq 0
    refine hdisjoint (List.mem_map_of_mem (List.mem_range.2 (by decide : 0 < 6))) ?_
    rw [hzero]
    exact List.mem_map_of_mem (List.mem_range.2 (by decide : 0 < 6))
  · intro key hs ht
    obtain ⟨shard, -, rfl⟩ := List.mem_map.1 hs
    obtain ⟨shard', -, heq⟩ := List.mem_map.1 ht
    exact hne (bucketKey_inj heq).1.symm

/-- A key that was written in the window is listed. -/
theorem writeBucketKey_listed {now dayWindow written : Nat} (nonce : Nat) (h : written ≤ now)
    (hwindow : now / MS_PER_DAY - written / MS_PER_DAY < min dayWindow MAX_SHARED_CACHE_DAY_WINDOW) :
    writeBucketKey written nonce ∈ bucketKeysFor now dayWindow := by
  have hle : written / MS_PER_DAY ≤ now / MS_PER_DAY := Nat.div_le_div_right h
  refine mem_bucketKeysFor.2 ⟨now - (now / MS_PER_DAY - written / MS_PER_DAY) * MS_PER_DAY, ?_,
    nonce % SHARED_CACHE_SHARD_COUNT, Nat.mod_lt _ (by decide), bucketKey_congr ?_ _⟩
  · rw [windowDays_window]
    refine List.mem_append_left _ (List.mem_map.2 ⟨_, List.mem_range.2 ?_, rfl⟩)
    exact Nat.lt_min.2 ⟨hwindow, Nat.lt_succ_of_le (Nat.sub_le _ _)⟩
  · rw [day_before (Nat.sub_le _ _), Nat.sub_sub_self hle]

/-- The keys of a listing at this time, with this window: their dates are those of the calendar, keys
of different days differ, the keys written in the window are listed, and no key is listed twice. -/
structure KeysSound (now dayWindow : Nat) : Prop where
  calendar : Gregorian ⟨1970, 1, 1⟩ civilFromDays
  distinct : ∀ time time' shard shard', time / MS_PER_DAY ≠ time' / MS_PER_DAY →
    bucketKey time shard ≠ bucketKey time' shard'
  listed : ∀ written nonce, written ≤ now →
    now / MS_PER_DAY - written / MS_PER_DAY < min dayWindow MAX_SHARED_CACHE_DAY_WINDOW →
      writeBucketKey written nonce ∈ bucketKeysFor now dayWindow
  nodup : (bucketKeysFor now dayWindow).Nodup

/-- The first day is listed twice where the window reaches past it and the time is within a day. -/
theorem keysSound_iff (now dayWindow : Nat) :
    KeysSound now dayWindow ↔
      ¬ (now / MS_PER_DAY + 1 < min dayWindow MAX_SHARED_CACHE_DAY_WINDOW ∧
        now % MS_PER_DAY ≠ 0) := by
  refine ⟨fun h => (nodup_bucketKeysFor now dayWindow).1 h.nodup, fun h => ?_⟩
  refine ⟨gregorian_civilFromDays, fun time time' shard shard' hne heq => ?_,
    fun written nonce => writeBucketKey_listed nonce, (nodup_bucketKeysFor now dayWindow).2 h⟩
  exact hne (bucketKey_inj heq).1

/-- Just after the second midnight, with a window of three days. -/
theorem first_day_listed_twice : ¬ KeysSound (MS_PER_DAY + 5) 3 := by
  intro h
  exact absurd h.nodup (by decide +kernel)

end Luchta.Proof.Store
