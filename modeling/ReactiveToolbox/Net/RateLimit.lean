import Mathlib.Data.BitVec
import ReactiveToolbox.Lib.SlidingWindow

/-!
# The rate window

A `RateWindow` keeps the counts of the last seconds in buckets that wrap around,
and the sum of them.  The time of a call is rounded down to its second, so that
the window begins with a second as a whole.
-/

namespace ReactiveToolbox.Net

open ReactiveToolbox.Lib

/-- A time of the monotonic clock, in nanoseconds since its epoch. -/
abbrev MonoTime := Int64

/-- `MonoClock::to_time_t`. -/
def toTimeT (time : MonoTime) : ℤ :=
  time.toInt.tdiv 1000000000

/-- `RateWindow`. -/
structure RateWindow where
  count_ : BitVec 64
  lastTime_ : ℤ
  buckets_ : List (BitVec 64)
  deriving DecidableEq

namespace RateWindow

/-- A window of so many seconds, with nothing counted. -/
def create (interval : Nat) : RateWindow where
  count_ := 0
  lastTime_ := 0
  buckets_ := List.replicate interval 0

/-- `count`. -/
def count (window : RateWindow) : BitVec 64 :=
  window.count_

/-- The bucket that `at` refers to; the time is converted to the unsigned type of the size. -/
def bucketIndex (window : RateWindow) (t : ℤ) : Nat :=
  (t % 2 ^ 64).toNat % window.buckets_.length

/-- What `at` refers to. -/
def bucketAt (window : RateWindow) (t : ℤ) : BitVec 64 :=
  window.buckets_.getD (window.bucketIndex t) 0

/-- An assignment to what `at` refers to. -/
def setBucket (window : RateWindow) (t : ℤ) (value : BitVec 64) : RateWindow :=
  { window with buckets_ := window.buckets_.set (window.bucketIndex t) value }

/-- The loop over the interleaving buckets, for as many rounds as there are seconds to pass. -/
def skip (t : ℤ) : Nat → RateWindow → RateWindow
  | 0, window => window
  | rounds + 1, window =>
      let window := { window with lastTime_ := window.lastTime_ + 1 }
      if t ≠ window.lastTime_ then
        let skipped := window.bucketAt window.lastTime_
        let window := { window with count_ := window.count_ - skipped }
        skip t rounds (window.setBucket window.lastTime_ 0)
      else window

/-- `add`, undefined where its assertion on the clock fails. -/
def add (window : RateWindow) (time : MonoTime) (count : BitVec 64) : Option RateWindow :=
  let t := toTimeT time
  if t = window.lastTime_ then
    some
      { window.setBucket t (window.bucketAt t + count) with count_ := window.count_ + count }
  else if t > window.lastTime_ then
    let window :=
      if t - window.lastTime_ < window.buckets_.length then
        let window := skip t (t - window.lastTime_).toNat window
        { window with count_ := window.count_ + count - window.bucketAt t }
      else
        { window with
          buckets_ := List.replicate window.buckets_.length 0
          count_ := count }
    some ({ window with lastTime_ := t }.setBucket t count)
  else none

/-- A sequence of calls to `add`. -/
def addAll (window : RateWindow) : List (MonoTime × BitVec 64) → Option RateWindow
  | [] => some window
  | (time, count) :: rest => (window.add time count).bind fun window => window.addAll rest

/-! ## Times and buckets -/

/-- The counts that have been added, with the seconds of their times. -/
def seconds (calls : List (MonoTime × BitVec 64)) : List (ℤ × BitVec 64) :=
  calls.map fun call => (toTimeT call.1, call.2)

theorem toTimeT_nonneg {time : MonoTime} (since : 0 ≤ time.toInt) : 0 ≤ toTimeT time := by
  rw [toTimeT, Int.tdiv_eq_ediv_of_nonneg since]
  omega

theorem toTimeT_lt {time : MonoTime} (since : 0 ≤ time.toInt) : toTimeT time < 2 ^ 64 := by
  have most := time.toInt_lt
  rw [toTimeT, Int.tdiv_eq_ediv_of_nonneg since]
  omega

theorem toTimeT_mono {first second : MonoTime} (since : 0 ≤ first.toInt)
    (ordered : first.toInt ≤ second.toInt) : toTimeT first ≤ toTimeT second := by
  rw [toTimeT, toTimeT, Int.tdiv_eq_ediv_of_nonneg since,
    Int.tdiv_eq_ediv_of_nonneg (Int.le_trans since ordered)]
  omega

theorem bucketIndex_eq_cellOf {window : RateWindow} {interval : Nat} {t : ℤ}
    (length : window.buckets_.length = interval) (since : 0 ≤ t) (most : t < 2 ^ 64) :
    window.bucketIndex t = cellOf interval t := by
  rw [bucketIndex, cellOf, length, Int.emod_eq_of_lt since most, Int.toNat_emod since (by omega),
    Int.toNat_natCast]

/-! ## The buckets as sums -/

/-- The buckets hold the sums of the last seconds before a time, and the count is their total. -/
def Holds (window : RateWindow) (interval : Nat) (present : ℤ)
    (entries : List (ℤ × BitVec 64)) : Prop :=
  SlidingSums interval window.buckets_ present window.count_ entries

variable {window : RateWindow} {interval : Nat} {entries : List (ℤ × BitVec 64)} {t : ℤ}

theorem holds_create (positive : 0 < interval) :
    (create interval).Holds interval 0 [] :=
  SlidingSums.start positive

theorem getElem?_bucketAt (positive : 0 < interval)
    (length : window.buckets_.length = interval) (since : 0 ≤ t) (most : t < 2 ^ 64) :
    window.buckets_[cellOf interval t]? = some (window.bucketAt t) := by
  have within : cellOf interval t < window.buckets_.length := by
    rw [length]
    exact cellOf_lt positive t
  rw [bucketAt, bucketIndex_eq_cellOf length since most, List.getD_eq_getElem?_getD,
    List.getElem?_eq_getElem within, Option.getD_some]

/-- The loop ends a second short of the time, with the buckets in between taken out. -/
theorem holds_skip (positive : 0 < interval) (since : 0 ≤ window.lastTime_) (most : t < 2 ^ 64)
    {rounds : Nat} (remaining : t - window.lastTime_ = rounds + 1)
    (holds : window.Holds interval window.lastTime_ entries) :
    (skip t (rounds + 1) window).Holds interval (t - 1) entries := by
  induction rounds generalizing window with
  | zero =>
      have reached : ¬ t ≠ window.lastTime_ + 1 := by omega
      have last : window.lastTime_ = t - 1 := by omega
      rw [skip]
      simp only [if_neg reached]
      rw [last] at holds
      exact holds
  | succ rounds continued =>
      have between : t ≠ window.lastTime_ + 1 := by omega
      rw [skip]
      simp only [if_pos between]
      apply continued
      · change 0 ≤ window.lastTime_ + 1
        omega
      · change t - (window.lastTime_ + 1) = (rounds : ℤ) + 1
        omega
      · have bucket := getElem?_bucketAt (t := window.lastTime_ + 1) positive holds.length
          (by omega) (by omega)
        have advanced := SlidingSums.advance positive holds bucket
        rw [← bucketIndex_eq_cellOf holds.length (by omega) (by omega)] at advanced
        exact advanced

/-- A call in the second of the last one. -/
theorem holds_add_same (positive : 0 < interval) (since : 0 ≤ t) (most : t < 2 ^ 64)
    (holds : window.Holds interval t entries) (count : BitVec 64) :
    { window.setBucket t (window.bucketAt t + count) with
      count_ := window.count_ + count }.Holds interval t (entries ++ [(t, count)]) := by
  have bucket := getElem?_bucketAt positive holds.length since most
  have added := SlidingSums.put positive holds bucket count
  rw [← bucketIndex_eq_cellOf holds.length since most] at added
  exact added

/-- A call within the window of the last second before it. -/
theorem holds_add_near (positive : 0 < interval) (since : 0 ≤ t) (most : t < 2 ^ 64)
    (holds : window.Holds interval (t - 1) entries) (count : BitVec 64) :
    { window.setBucket t count with
      count_ := window.count_ + count - window.bucketAt t }.Holds interval t
        (entries ++ [(t, count)]) := by
  have bucket := getElem?_bucketAt positive holds.length since most
  have entered := SlidingSums.advance positive holds ((Int.sub_add_cancel t 1).symm ▸ bucket)
  rw [Int.sub_add_cancel] at entered
  have within : cellOf interval t < window.buckets_.length := by
    rw [holds.length]
    exact cellOf_lt positive t
  have added := SlidingSums.put positive entered (List.getElem?_set_self within) count
  rw [List.set_set, zero_add, ← bucketIndex_eq_cellOf holds.length since most,
    sub_add_eq_add_sub] at added
  exact added

/-- A call when nothing of the window is left. -/
theorem holds_add_far (positive : 0 < interval) (since : 0 ≤ t) (most : t < 2 ^ 64)
    {present : ℤ} (holds : window.Holds interval present entries)
    (gone : present + interval ≤ t) (count : BitVec 64) :
    ({ window with
      buckets_ := List.replicate window.buckets_.length 0
      count_ := count
      lastTime_ := t }.setBucket t count).Holds interval t (entries ++ [(t, count)]) := by
  have cleared := SlidingSums.clear positive holds gone
  have added := SlidingSums.put positive cleared
    (List.getElem?_replicate_of_lt (cellOf_lt positive t)) count
  rw [zero_add] at added
  unfold Holds setBucket
  rw [bucketIndex_eq_cellOf _ since most, holds.length]
  · exact added
  · rw [List.length_replicate, holds.length]

/-- A call adds an entry at its second. -/
theorem holds_add (positive : 0 < interval) (known : 0 ≤ window.lastTime_)
    (holds : window.Holds interval window.lastTime_ entries) {time : MonoTime}
    (since : 0 ≤ time.toInt) (ordered : window.lastTime_ ≤ toTimeT time) (count : BitVec 64) :
    ∃ added, window.add time count = some added ∧ added.lastTime_ = toTimeT time ∧
      added.Holds interval (toTimeT time) (entries ++ [(toTimeT time, count)]) := by
  have least := toTimeT_nonneg since
  have most := toTimeT_lt since
  have length := holds.length
  unfold add
  by_cases same : toTimeT time = window.lastTime_
  · rw [same] at least most ⊢
    simp only [if_true]
    exact ⟨_, rfl, rfl, holds_add_same positive least most holds count⟩
  · have later : toTimeT time > window.lastTime_ := by omega
    simp only [if_neg same, if_pos later]
    refine ⟨_, rfl, rfl, ?_⟩
    by_cases near : toTimeT time - window.lastTime_ < interval
    · rw [if_pos (by rw [length]; exact near)]
      obtain ⟨rounds, remaining⟩ : ∃ rounds : Nat, toTimeT time - window.lastTime_ = rounds + 1 :=
        ⟨(toTimeT time - window.lastTime_ - 1).toNat, by omega⟩
      have skipped := holds_skip positive known most remaining holds
      have loop : (toTimeT time - window.lastTime_).toNat = rounds + 1 := by omega
      rw [loop]
      exact holds_add_near positive least most skipped count
    · rw [if_neg (by rw [length]; exact near)]
      exact holds_add_far positive least most holds (by omega) count

/-! ## Sequences of calls -/

theorem addAll_append (window : RateWindow) (first second : List (MonoTime × BitVec 64)) :
    window.addAll (first ++ second) =
      (window.addAll first).bind fun window => window.addAll second := by
  induction first generalizing window with
  | nil => rfl
  | cons call rest continued =>
      simp only [List.cons_append, addAll, Option.bind_assoc, continued]

/-- Calls whose times do not go back add an entry each, and the last time is not after them. -/
theorem holds_addAll (positive : 0 < interval) {calls : List (MonoTime × BitVec 64)}
    (known : 0 ≤ window.lastTime_) (holds : window.Holds interval window.lastTime_ entries)
    (since : ∀ call ∈ calls, 0 ≤ call.1.toInt)
    (ordered : calls.Pairwise fun first second => first.1 ≤ second.1)
    (later : ∀ call ∈ calls, window.lastTime_ ≤ toTimeT call.1) :
    ∃ added, window.addAll calls = some added ∧ 0 ≤ added.lastTime_ ∧
      (∀ upTo, window.lastTime_ ≤ upTo → (∀ call ∈ calls, toTimeT call.1 ≤ upTo) →
        added.lastTime_ ≤ upTo) ∧
      added.Holds interval added.lastTime_ (entries ++ seconds calls) := by
  induction calls generalizing window entries with
  | nil =>
      refine ⟨window, rfl, known, ?_, ?_⟩
      · intro upTo most _
        exact most
      · rw [seconds, List.map_nil, List.append_nil]
        exact holds
  | cons call rest continued =>
      rw [List.pairwise_cons] at ordered
      have now := since call List.mem_cons_self
      obtain ⟨added, taken, lastTime, holds_added⟩ :=
        holds_add positive known holds now (later call List.mem_cons_self) call.2
      rw [← lastTime] at holds_added
      obtain ⟨final, finished, since_final, most, holds_final⟩ := continued
        (by rw [lastTime]; exact toTimeT_nonneg now)
        holds_added
        (fun other member => since other (List.mem_cons_of_mem _ member))
        ordered.2
        (fun other member => by
          rw [lastTime]
          exact toTimeT_mono now (Int64.le_iff_toInt_le.mp (ordered.1 other member)))
      refine ⟨final, ?_, since_final, ?_, ?_⟩
      · rw [addAll, taken, Option.bind_some, finished]
      · intro upTo _ rest_most
        apply most
        · rw [lastTime]
          exact rest_most call List.mem_cons_self
        · intro other member
          exact rest_most other (List.mem_cons_of_mem _ member)
      · rw [List.append_assoc, lastTime] at holds_final
        exact holds_final

/--
After a sequence of calls whose times do not go back, `count` is the sum of the counts
that were added in the last seconds, the second of the last call included.
-/
theorem count_addAll (positive : 0 < interval) (calls : List (MonoTime × BitVec 64))
    (time : MonoTime) (count : BitVec 64)
    (since : ∀ call ∈ calls ++ [(time, count)], 0 ≤ call.1.toInt)
    (ordered : (calls ++ [(time, count)]).Pairwise fun first second => first.1 ≤ second.1) :
    ∃ window, (create interval).addAll (calls ++ [(time, count)]) = some window ∧
      window.count =
        windowSum (seconds (calls ++ [(time, count)])) (toTimeT time - interval)
          (toTimeT time) := by
  have last_since : 0 ≤ time.toInt := since (time, count) (by simp)
  rw [List.pairwise_append] at ordered
  obtain ⟨ordered_calls, -, before_last⟩ := ordered
  have since_calls : ∀ call ∈ calls, 0 ≤ call.1.toInt := fun call member =>
    since call (List.mem_append_left _ member)
  obtain ⟨before, taken, known, most, holds⟩ :=
    holds_addAll positive (Int.le_refl 0) (holds_create positive) since_calls ordered_calls
      fun call member => toTimeT_nonneg (since_calls call member)
  have not_after : before.lastTime_ ≤ toTimeT time := by
    apply most
    · exact toTimeT_nonneg last_since
    · intro call member
      have earlier := before_last call member (time, count) (List.mem_singleton.mpr rfl)
      exact toTimeT_mono (since_calls call member) (Int64.le_iff_toInt_le.mp earlier)
  obtain ⟨window, added, -, holds_window⟩ :=
    holds_add positive known holds last_since not_after count
  refine ⟨window, ?_, ?_⟩
  · rw [addAll_append, taken, Option.bind_some, addAll, added]
    rfl
  · have total := holds_window.total
    rw [List.nil_append] at total
    rw [seconds, List.map_append]
    exact total

/-- Seconds that are skipped, passed by the whole window, and come twice. -/
theorem count_addAll_five :
    ((create 5).addAll [(1000000000, 3), (1500000000, 4), (4000000000, 5), (6100000000, 6)]).map
        count = some 11 ∧
      ∃ window, (create 5).addAll
          ([(1000000000, 3), (1500000000, 4), (4000000000, 5)] ++ [(6100000000, 6)]) =
          some window ∧
        window.count =
          windowSum
            (seconds ([(1000000000, 3), (1500000000, 4), (4000000000, 5)] ++ [(6100000000, 6)]))
            (toTimeT 6100000000 - (5 : Nat)) (toTimeT 6100000000) :=
  ⟨by decide, count_addAll (by decide) _ _ _ (by simp) (by decide)⟩

/--
A count that was added within the last second is not in the window when a whole second
has begun in between.
-/
theorem count_addAll_within_second :
    ((create 1).addAll [(900000000, 1), (1100000000, 1)]).map count = some 1 ∧
      windowSum
        [((900000000 : MonoTime).toInt, (1 : BitVec 64)), ((1100000000 : MonoTime).toInt, 1)]
        ((1100000000 : MonoTime).toInt - 1000000000) (1100000000 : MonoTime).toInt = 2 := by
  decide

end RateWindow

end ReactiveToolbox.Net
