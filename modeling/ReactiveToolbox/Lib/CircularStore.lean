import Mathlib.Data.BitVec
import Mathlib.Data.List.Infix
import Mathlib.Logic.Function.Basic
import Mathlib.Tactic.NormNum

/-!
# A stream kept in cells that wrap around

Items of a stream are stored at positions that only grow; a position is mapped to
one of finitely many cells.  As long as no two positions in use share a cell, the
cells hold the part of the stream that has not been taken yet.
-/

namespace ReactiveToolbox.Lib

universe u

variable {Item : Type u}

/-- Store items one after another, from a position on. -/
def storeAll (place : Nat → Nat) (cells : Nat → Item) : Nat → List Item → Nat → Item
  | _, [] => cells
  | position, item :: rest =>
      storeAll place (Function.update cells (place position) item) (position + 1) rest

/-- The items from a position on. -/
def loadAll (place : Nat → Nat) (cells : Nat → Item) : Nat → Nat → List Item
  | _, 0 => []
  | position, count + 1 =>
      cells (place position) :: loadAll place cells (position + 1) count

variable {place place' : Nat → Nat} {cells cells' : Nat → Item} {items items' : List Item}
    {position count : Nat}

/-- A cell that is no place of the items is left alone. -/
theorem storeAll_of_ne {cell : Nat}
    (apart : ∀ index, index < items.length → place (position + index) ≠ cell) :
    storeAll place cells position items cell = cells cell := by
  induction items generalizing cells position with
  | nil => rfl
  | cons item rest ih =>
      rw [storeAll, ih fun index within => ?_]
      · exact Function.update_of_ne (apart 0 (by simp)).symm _ _
      · have moved := apart (index + 1) (by simpa using within)
        rwa [show position + (index + 1) = position + 1 + index by omega] at moved

@[simp]
theorem length_loadAll : (loadAll place cells position count).length = count := by
  induction count generalizing position with
  | zero => rfl
  | succ count ih => rw [loadAll, List.length_cons, ih]

theorem getElem?_loadAll {index : Nat} (within : index < count) :
    (loadAll place cells position count)[index]? = some (cells (place (position + index))) := by
  induction count generalizing position index with
  | zero => exact absurd within (Nat.not_lt_zero index)
  | succ count ih =>
      cases index with
      | zero => rfl
      | succ index =>
          rw [loadAll, List.getElem?_cons_succ, ih (Nat.lt_of_succ_lt_succ within),
            show position + 1 + index = position + (index + 1) by omega]

theorem take_loadAll (taken : Nat) :
    (loadAll place cells position count).take taken =
      loadAll place cells position (min taken count) := by
  induction count generalizing position taken with
  | zero => simp [loadAll]
  | succ count ih =>
      cases taken with
      | zero => simp [loadAll]
      | succ taken => rw [loadAll, List.take_succ_cons, ih, Nat.succ_min_succ, loadAll]

/-- Reading and storing only depend on a position up to the period. -/
theorem loadAll_mod (period : Nat) (cells : Nat → Item) (position count : Nat) :
    loadAll (· % period) cells (position % period) count =
      loadAll (· % period) cells position count := by
  induction count generalizing position with
  | zero => rfl
  | succ count ih =>
      rw [loadAll, loadAll, Nat.mod_mod, ← ih (position + 1), ← ih (position % period + 1),
        Nat.mod_add_mod]

theorem storeAll_mod (period : Nat) (cells : Nat → Item) (position : Nat) (items : List Item) :
    storeAll (· % period) cells (position % period) items =
      storeAll (· % period) cells position items := by
  induction items generalizing cells position with
  | nil => rfl
  | cons item rest ih =>
      rw [storeAll, storeAll, Nat.mod_mod, ← ih _ (position + 1),
        ← ih _ (position % period + 1), Nat.mod_add_mod]

/-! ## A stream held by the cells -/

/-- The cells hold the items from a position on. -/
def Stores (place : Nat → Nat) (cells : Nat → Item) (position : Nat) (items : List Item) : Prop :=
  loadAll place cells position items.length = items

namespace Stores

theorem nil : Stores place cells position [] := rfl

theorem cons_iff {item : Item} :
    Stores place cells position (item :: items) ↔
      cells (place position) = item ∧ Stores place cells (position + 1) items := by
  simp only [Stores, List.length_cons, loadAll, List.cons.injEq]

theorem append_iff :
    Stores place cells position (items ++ items') ↔
      Stores place cells position items ∧
        Stores place cells (position + items.length) items' := by
  induction items generalizing position with
  | nil => simp [nil]
  | cons item rest ih =>
      rw [List.cons_append, cons_iff, ih, cons_iff, List.length_cons,
        show position + 1 + rest.length = position + (rest.length + 1) by omega, and_assoc]

/-- Only the cells in use matter. -/
theorem congr (stores : Stores place cells position items)
    (same : ∀ index, index < items.length →
      cells' (place' (position + index)) = cells (place (position + index))) :
    Stores place' cells' position items := by
  induction items generalizing position with
  | nil => exact nil
  | cons item rest ih =>
      rcases cons_iff.mp stores with ⟨first, others⟩
      refine cons_iff.mpr ⟨(same 0 (by simp)).trans first, ih others fun index within => ?_⟩
      have moved := same (index + 1) (by simpa using within)
      rwa [show position + (index + 1) = position + 1 + index by omega] at moved

theorem drop (stores : Stores place cells position items) (within : count ≤ items.length) :
    Stores place cells (position + count) (items.drop count) := by
  have split := List.take_append_drop count items
  rw [← split, append_iff, List.length_take, Nat.min_eq_left within] at stores
  exact stores.2

/-- What has just been stored is held. -/
theorem storeAll
    (apart : ∀ first second, first < second → second < items.length →
      place (position + second) ≠ place (position + first)) :
    Stores place (storeAll place cells position items) position items := by
  induction items generalizing cells position with
  | nil => exact nil
  | cons item rest ih =>
      refine cons_iff.mpr ⟨?_, ih fun first second before within => ?_⟩
      · rw [Lib.storeAll, storeAll_of_ne fun index within => ?_, Function.update_self]
        have moved := apart 0 (index + 1) (by omega) (by simpa using within)
        rwa [show position + (index + 1) = position + 1 + index by omega] at moved
      · have moved := apart (first + 1) (second + 1) (by omega) (by simpa using within)
        rwa [show position + (second + 1) = position + 1 + second by omega,
          show position + (first + 1) = position + 1 + first by omega] at moved

/-- Items stored behind a stream extend it, where all of them have cells of their own. -/
theorem append
    (stores : Stores place cells position items)
    (apart : ∀ first second, first < second → second < items.length + items'.length →
      place (position + second) ≠ place (position + first)) :
    Stores place (Lib.storeAll place cells (position + items.length) items') position
      (items ++ items') := by
  refine append_iff.mpr ⟨stores.congr fun index within => ?_,
    storeAll fun first second before within => ?_⟩
  · refine storeAll_of_ne fun later inside => ?_
    have moved := apart index (items.length + later) (by omega) (by omega)
    rwa [← Nat.add_assoc] at moved
  · have moved := apart (items.length + first) (items.length + second) (by omega) (by omega)
    rwa [← Nat.add_assoc, ← Nat.add_assoc] at moved

end Stores

/-- Positions less than a period apart have cells of their own. -/
theorem mod_ne_mod {period first second : Nat} (before : first < second)
    (near : second < first + period) : second % period ≠ first % period := by
  intro same
  have divides : period ∣ second - first :=
    Nat.dvd_of_mod_eq_zero (Nat.sub_mod_eq_zero_of_mod_eq same)
  have positive : 0 < second - first := by omega
  exact absurd (Nat.le_of_dvd positive divides) (by omega)

/-- A stream within one turn of the cells is extended up to a full turn. -/
theorem Stores.append_mod {period : Nat}
    (stores : Stores (· % period) cells position items)
    (room : items.length + items'.length ≤ period) :
    Stores (· % period) (Lib.storeAll (· % period) cells (position + items.length) items')
      position (items ++ items') :=
  stores.append fun _ _ before within => mod_ne_mod (by omega) (by omega)

/-- A mask of low bits maps a position of 64 bits to its cell. -/
theorem toNat_and_mask {exponent : Nat} (narrow : exponent < 64) (position : Nat) :
    (BitVec.ofNat 64 position &&& (BitVec.ofNat 64 (2 ^ exponent) - 1)).toNat =
      position % 2 ^ exponent := by
  have power : 2 ^ exponent < 2 ^ 64 := Nat.pow_lt_pow_right (by omega) narrow
  have positive : 0 < 2 ^ exponent := Nat.two_pow_pos exponent
  have divides : 2 ^ exponent ∣ 2 ^ 64 := Nat.pow_dvd_pow 2 narrow.le
  have mask : (BitVec.ofNat 64 (2 ^ exponent) - 1).toNat = 2 ^ exponent - 1 := by
    generalize 2 ^ exponent = bound at power positive
    bv_omega
  rw [BitVec.toNat_and, mask, Nat.and_two_pow_sub_one_eq_mod, BitVec.toNat_ofNat,
    Nat.mod_mod_of_dvd _ divides]

end ReactiveToolbox.Lib
