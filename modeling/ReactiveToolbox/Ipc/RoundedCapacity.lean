import ReactiveToolbox.Ipc.MpmcSequential
import ReactiveToolbox.Util.RingBuffer

/-!
# Capacities that are rounded up

What is sized with `next_pow2` has the capacity that was asked for, where the rounding
stays within the `int` that it shifts.
-/

namespace ReactiveToolbox.Ipc

open ReactiveToolbox.Util

universe u

/-- The queues and ring buffers of this capacity come into being, and are large enough. -/
structure CapacitySuffices (Value : Type u) [Inhabited Value] (capacity : Nat) : Prop where
  ring : ∀ fresh : Nat → Value, ∃ ring,
    RingBuffer.create fresh (BitVec.ofNat 64 capacity) = some ring ∧
      capacity ≤ ring.capacity.toNat
  queue : ∀ layout, ∃ queue : MpmcQueue Value,
    MpmcQueue.ofCapacity layout capacity = some queue ∧ capacity ≤ queue.capacity.toNat
  file : ∀ layout, ∃ (file : QueueFile Value) (queue : MpmcQueue Value),
    newMpmcQueue layout capacity = some file ∧ MpmcQueue.ofFile layout file = some queue ∧
      capacity ≤ queue.capacity.toNat

/--
What an overload is for at an argument: the least power of two, without an
overflow, and large enough capacities where it sizes something.
-/
structure RoundsUp (Value : Type u) [Inhabited Value] (overload : Overload) (n : Nat) :
    Prop where
  least : GivesLeast overload.width n
  within : ShiftsWithin overload.width n
  capacity : overload = .unsignedLong → CapacitySuffices Value n

variable {Value : Type u} [Inhabited Value] {capacity : Nat}

theorem le_toNat_ofNat_clog (small : capacity ≤ 2 ^ 30) :
    capacity ≤ (BitVec.ofNat 64 (2 ^ Nat.clog 2 capacity)).toNat := by
  have rounded := MpmcQueue.rounded_le small
  rw [BitVec.toNat_ofNat, Nat.mod_eq_of_lt (by omega)]
  exact Nat.le_pow_clog (by omega) capacity

theorem capacitySuffices_of_small (small : capacity ≤ 2 ^ 30) :
    CapacitySuffices Value capacity where
  ring fresh := by
    have same : (BitVec.ofNat 64 capacity).toNat = capacity := by
      rw [BitVec.toNat_ofNat]
      omega
    obtain ⟨ring, created, holds⟩ :=
      RingBuffer.create_of_small fresh (same.trans_le small)
    rw [same] at holds
    refine ⟨ring, created, ?_⟩
    rw [holds.capacity]
    exact le_toNat_ofNat_clog small
  queue layout := ⟨_, MpmcQueue.ofCapacity_small layout small, le_toNat_ofNat_clog small⟩
  file layout := by
    obtain ⟨file, queue, created, opened, holds⟩ :
        ∃ (file : QueueFile Value) (queue : MpmcQueue Value), _ :=
      MpmcQueue.ofFile_holds layout small
    refine ⟨file, queue, created, opened, ?_⟩
    rw [holds.capacity]
    exact le_toNat_ofNat_clog small

/--
For every argument up to the greatest power of two of its type, the overloads round up
without an overflow if and only if the argument is at most `2 ^ 30`; the value alone is
right for every such `unsigned`, and for `unsigned long` up to `2 ^ 30` only.
-/
theorem roundsUp_iff (overload : Overload) (n : Nat) (fits : n ≤ 2 ^ (overload.width - 1)) :
    (RoundsUp Value overload n ↔ n ≤ 2 ^ 30) ∧
      (GivesLeast overload.width n ↔ overload = .unsigned ∨ n ≤ 2 ^ 30) := by
  have value := givesLeast_iff overload fits
  have width : n ≤ 2 ^ overload.width :=
    fits.trans (Nat.pow_le_pow_right Nat.two_pos (Nat.sub_le _ 1))
  refine ⟨⟨fun rounds => (shiftsWithin_iff width).mp rounds.within, fun small => ?_⟩, value⟩
  exact
    { least := value.mpr (.inr small)
      within := (shiftsWithin_iff width).mpr small
      capacity := fun _ => capacitySuffices_of_small small }

theorem roundsUp_iff_five : RoundsUp Nat .unsignedLong 5 :=
  (roundsUp_iff .unsignedLong 5 (by decide)).1.mpr (by decide)

/-- The least argument that does not do: the `int` becomes negative and is extended. -/
theorem not_roundsUp_large : ¬RoundsUp Nat .unsignedLong (2 ^ 30 + 1) := by
  intro rounds
  obtain ⟨value, computed, ⟨-, -⟩, least⟩ := rounds.least
  have wrong : nextPow2 64 (2 ^ 30 + 1) = some (2 ^ 64 - 2 ^ 31) := by decide
  obtain rfl := Option.some.inj (wrong.symm.trans computed)
  have below : 2 ^ 64 - 2 ^ 31 ≤ 2 ^ 31 := least ⟨by norm_num, 31, rfl⟩
  exact absurd below (by norm_num)

end ReactiveToolbox.Ipc
