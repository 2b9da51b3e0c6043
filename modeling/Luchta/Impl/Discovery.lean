import Luchta.Framework.Calendar
import Luchta.Framework.Text

/-!
# Bucket keys of the shared cache

Keys are computed, not discovered: the day in UTC and a shard. A reader asks for the keys of every
day in its window, a writer puts its entries under a key of the current day.

Times are milliseconds since the epoch, as unsigned numbers of 64 bits: their days are far below
`2 ^ 63`, so that no cast and no sum of the conversion wraps.
-/

namespace Luchta.Impl

open Luchta.Framework

/-- Number of shards per day. -/
def SHARED_CACHE_SHARD_COUNT : Nat := 6

def MAX_SHARED_CACHE_DAY_WINDOW : Nat := 365

def MS_PER_DAY : Nat := 24 * 60 * 60 * 1000

/-- Civil date from days since the unix epoch, with division that truncates. -/
def civilFromDays (daysSinceEpoch : Int) : Date :=
  let z := daysSinceEpoch + 719468
  let era := (if z ≥ 0 then z else z - 146096).tdiv 146097
  let doe := (z - era * 146097).toNat
  let yoe := (doe - doe / 1460 + doe / 36524 - doe / 146096) / 365
  let y := (yoe : Int) + era * 400
  let doy := doe - (365 * yoe + yoe / 4 - yoe / 100)
  let mp := (5 * doy + 2) / 153
  let d := doy - (153 * mp + 2) / 5 + 1
  let m := if mp < 10 then mp + 3 else mp - 9
  ⟨if m ≤ 2 then y + 1 else y, m, d⟩

/-- `<YYYYMMDD>-<shard>` for the UTC day that contains the time. -/
def bucketKey (dayUnixMs shard : Nat) : String :=
  let date := civilFromDays (dayUnixMs / MS_PER_DAY : Nat)
  String.ofList (zeroPaddedInt 4 date.year ++ zeroPadded 2 date.month ++ zeroPadded 2 date.day ++
    '-' :: zeroPadded 2 shard)

/-- A time in each day of the window from `dayBack` on: it ends where a time repeats the one before. -/
def windowDays (nowUnixMs : Nat) : (remaining dayBack : Nat) → (lastDayMs : Option Nat) → List Nat
  | 0, _, _ => []
  | remaining + 1, dayBack, lastDayMs =>
    -- the subtraction saturates
    let dayMs := nowUnixMs - dayBack * MS_PER_DAY
    if lastDayMs = some dayMs then []
    else dayMs :: windowDays nowUnixMs remaining (dayBack + 1) (some dayMs)

/-- Every bucket key in the read window, newest day first. -/
def bucketKeysFor (nowUnixMs dayWindow : Nat) : List String :=
  (windowDays nowUnixMs (min dayWindow MAX_SHARED_CACHE_DAY_WINDOW) 0 none).flatMap fun dayMs =>
    (List.range SHARED_CACHE_SHARD_COUNT).map (bucketKey dayMs)

/-- The bucket that a process writes to: today, on a shard selected by the nonce. -/
def writeBucketKey (nowUnixMs nonce : Nat) : String :=
  bucketKey nowUnixMs (nonce % SHARED_CACHE_SHARD_COUNT)

end Luchta.Impl
