import Mathlib.Algebra.BigOperators.Group.List.Basic
import Mathlib.Algebra.Group.Basic
import Mathlib.Tactic.Abel

/-!
# Sums over a sliding window

Entries are added at moments that do not go back.  Their sums by moment are kept
for the last moments in cells that wrap around, with a running total of them.
The window moves on by one moment, with the cell it enters taken out of the
total and cleared, or by so many that nothing of it is left.
-/

namespace ReactiveToolbox.Lib

universe u

variable {Amount : Type u} [AddCommGroup Amount]

/-- The sum of the entries of one moment. -/
def momentSum (entries : List (ℤ × Amount)) (moment : ℤ) : Amount :=
  ((entries.filter fun entry => entry.1 = moment).map Prod.snd).sum

/-- The sum of the entries after one moment and up to another. -/
def windowSum (entries : List (ℤ × Amount)) (after upTo : ℤ) : Amount :=
  ((entries.filter fun entry => after < entry.1 ∧ entry.1 ≤ upTo).map Prod.snd).sum

/-- The cell of a moment. -/
def cellOf (period : Nat) (moment : ℤ) : Nat :=
  (moment % period).toNat

/--
Cells with the sums of the last moments up to the present one, their total, and the
entries that they are the sums of.
-/
structure SlidingSums (period : Nat) (cells : List Amount) (present : ℤ) (total : Amount)
    (entries : List (ℤ × Amount)) : Prop where
  length : cells.length = period
  past : ∀ entry ∈ entries, entry.1 ≤ present
  cell : ∀ moment, present - period < moment → moment ≤ present →
    cells[cellOf period moment]? = some (momentSum entries moment)
  total : total = windowSum entries (present - period) present

variable {period : Nat} {cells : List Amount} {present moment : ℤ} {total : Amount}
    {entries : List (ℤ × Amount)}

/-! ## Sums -/

theorem momentSum_append (entries more : List (ℤ × Amount)) (moment : ℤ) :
    momentSum (entries ++ more) moment = momentSum entries moment + momentSum more moment := by
  simp only [momentSum, List.filter_append, List.map_append, List.sum_append]

theorem windowSum_append (entries more : List (ℤ × Amount)) (after upTo : ℤ) :
    windowSum (entries ++ more) after upTo =
      windowSum entries after upTo + windowSum more after upTo := by
  simp only [windowSum, List.filter_append, List.map_append, List.sum_append]

theorem momentSum_of_past (past : ∀ entry ∈ entries, entry.1 ≤ present)
    (later : present < moment) : momentSum entries moment = 0 := by
  have none : entries.filter (fun entry => entry.1 = moment) = [] := by
    apply List.filter_eq_nil_iff.mpr
    intro entry member
    have before := past entry member
    simp only [decide_eq_true_eq]
    omega
  rw [momentSum, none]
  rfl

theorem windowSum_of_past {after upTo : ℤ} (past : ∀ entry ∈ entries, entry.1 ≤ present)
    (later : present ≤ after) : windowSum entries after upTo = 0 := by
  have none : entries.filter (fun entry => after < entry.1 ∧ entry.1 ≤ upTo) = [] := by
    apply List.filter_eq_nil_iff.mpr
    intro entry member
    have before := past entry member
    simp only [decide_eq_true_eq]
    omega
  rw [windowSum, none]
  rfl

/-- A window that moves on by a moment loses the first moment and gains nothing yet. -/
theorem windowSum_advance (past : ∀ entry ∈ entries, entry.1 ≤ present) (after : ℤ) :
    windowSum entries (after + 1) (present + 1) =
      windowSum entries after present - momentSum entries (after + 1) := by
  induction entries with
  | nil => simp [windowSum, momentSum]
  | cons entry rest continued =>
      have before := past entry List.mem_cons_self
      have rest_eq := continued fun other member => past other (List.mem_cons_of_mem _ member)
      simp only [windowSum, momentSum, List.filter_cons, decide_eq_true_eq] at rest_eq ⊢
      rcases Int.lt_trichotomy entry.1 (after + 1) with earlier | first | later
      · rw [if_neg (by omega), if_neg (by omega), if_neg (by omega)]
        exact rest_eq
      · by_cases within : entry.1 ≤ present
        · rw [if_neg (by omega), if_pos (by omega), if_pos first, List.map_cons, List.map_cons,
            List.sum_cons, List.sum_cons, rest_eq]
          abel
        · omega
      · rw [if_pos (by omega), if_pos (by omega), if_neg (by omega), List.map_cons, List.map_cons,
          List.sum_cons, List.sum_cons, rest_eq]
        abel

/-! ## Cells -/

theorem cellOf_lt (positive : 0 < period) (moment : ℤ) : cellOf period moment < period := by
  have least := Int.emod_nonneg moment (by omega : (period : ℤ) ≠ 0)
  have most := Int.emod_lt_of_pos moment (by omega : (0 : ℤ) < period)
  unfold cellOf
  omega

theorem cellOf_sub_period (moment : ℤ) :
    cellOf period (moment - period) = cellOf period moment := by
  rw [cellOf, cellOf, Int.sub_emod_right]

/-- Different moments of a window have different cells. -/
theorem cellOf_ne (positive : 0 < period) {left right : ℤ} (ordered : left < right)
    (near : right - left < period) : cellOf period left ≠ cellOf period right := by
  intro same
  have leftLeast := Int.emod_nonneg left (by omega : (period : ℤ) ≠ 0)
  have rightLeast := Int.emod_nonneg right (by omega : (period : ℤ) ≠ 0)
  have residues : left % period = right % period := by
    unfold cellOf at same
    omega
  have divides : (period : ℤ) ∣ right - left :=
    Int.dvd_of_emod_eq_zero (Int.emod_eq_emod_iff_emod_sub_eq_zero.mp residues.symm)
  have large := Int.le_of_dvd (by omega) divides
  omega

/-! ## Operations -/

namespace SlidingSums

theorem start (positive : 0 < period) :
    SlidingSums period (List.replicate period (0 : Amount)) present 0 [] := by
  constructor
  · exact List.length_replicate
  · intro entry member
    cases member
  · intro moment _ _
    rw [List.getElem?_replicate_of_lt (cellOf_lt positive moment)]
    rfl
  · rfl

/-- An entry of the present moment is added to its cell and to the total. -/
theorem put (positive : 0 < period) (sums : SlidingSums period cells present total entries)
    {held : Amount} (at_present : cells[cellOf period present]? = some held) (amount : Amount) :
    SlidingSums period (cells.set (cellOf period present) (held + amount)) present
      (total + amount) (entries ++ [(present, amount)]) := by
  constructor
  · rw [List.length_set]
    exact sums.length
  · intro entry member
    rcases List.mem_append.mp member with old | new
    · exact sums.past entry old
    · obtain rfl := List.mem_singleton.mp new
      exact Int.le_refl present
  · intro moment after upTo
    rw [momentSum_append]
    by_cases now : moment = present
    · have held_eq := sums.cell present (by omega) (by omega)
      rw [at_present, Option.some_inj] at held_eq
      subst now
      rw [List.getElem?_set_self (by rw [sums.length]; exact cellOf_lt positive moment), held_eq]
      simp [momentSum]
    · have apart := cellOf_ne positive (by omega : moment < present) (by omega)
      rw [List.getElem?_set_ne apart.symm, sums.cell moment after upTo]
      simp [momentSum, Ne.symm now]
  · have entered : present - (period : ℤ) < present := by omega
    rw [windowSum_append, ← sums.total]
    simp [windowSum, entered]

/-- The window moves on by a moment into the cell of the moment that leaves it. -/
theorem advance (positive : 0 < period) (sums : SlidingSums period cells present total entries)
    {skipped : Amount} (at_next : cells[cellOf period (present + 1)]? = some skipped) :
    SlidingSums period (cells.set (cellOf period (present + 1)) 0) (present + 1)
      (total - skipped) entries := by
  constructor
  · rw [List.length_set]
    exact sums.length
  · intro entry member
    have before := sums.past entry member
    omega
  · intro moment after upTo
    by_cases now : moment = present + 1
    · rw [now, momentSum_of_past sums.past (by omega), List.getElem?_set_self]
      rw [sums.length]
      exact cellOf_lt positive _
    · have apart := cellOf_ne positive (by omega : moment < present + 1) (by omega)
      rw [List.getElem?_set_ne apart.symm]
      exact sums.cell moment (by omega) (by omega)
  · have leaving := sums.cell (present + 1 - period) (by omega) (by omega)
    rw [cellOf_sub_period, at_next, Option.some_inj] at leaving
    have moved := windowSum_advance sums.past (present - period)
    have first : present - period + 1 = present + 1 - period := by omega
    rw [first] at moved
    rw [moved, ← sums.total, leaving]

/-- Nothing is left of a window that moves on by all its moments. -/
theorem clear (positive : 0 < period) (sums : SlidingSums period cells present total entries)
    {later : ℤ} (moved : present + period ≤ later) :
    SlidingSums period (List.replicate period 0) later 0 entries := by
  constructor
  · exact List.length_replicate
  · intro entry member
    have before := sums.past entry member
    omega
  · intro moment after _
    rw [List.getElem?_replicate_of_lt (cellOf_lt positive moment),
      momentSum_of_past sums.past (by omega)]
  · rw [windowSum_of_past sums.past (by omega)]

end SlidingSums

end ReactiveToolbox.Lib
