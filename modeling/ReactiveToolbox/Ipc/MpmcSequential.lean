import ReactiveToolbox.Ipc.MpmcQueue
import ReactiveToolbox.Lib.CircularStore

/-!
# One thread on the queue is a bounded first-in first-out queue

A ring whose sequence numbers are in step with its positions answers every
sequence of pushes and pops as a bounded queue of its capacity does, however
often the positions wrap around the ring or around 64 bits.  A queue file is
initialised in step for every requested capacity.  The in-memory constructor
initialises only the requested number of elements, so its ring is in step
exactly when that number is already a power of two.
-/

namespace ReactiveToolbox.Ipc.MpmcQueue

open ReactiveToolbox.Util
open ReactiveToolbox.Lib

universe u

variable {Value : Type u}

/-! ## Word arithmetic -/

theorem slot_ofNat
    {queue : MpmcQueue Value} {exponent : Nat} (narrow : exponent < 63)
    (mask : queue.mask = BitVec.ofNat 64 (2 ^ exponent) - 1) (position : Nat) :
    queue.slot (BitVec.ofNat 64 position) = position % 2 ^ exponent := by
  rw [slot, mask, toNat_and_mask (by omega)]

theorem ofNat_add_one (position : Nat) :
    BitVec.ofNat 64 position + 1 = BitVec.ofNat 64 (position + 1) := by
  simp [BitVec.ofNat_add]

/-- A sequence number behind a position makes a negative difference. -/
theorem sub_slt_zero
    (position : Nat) {lag : Nat} (positive : 0 < lag) (small : lag < 2 ^ 63) :
    BitVec.ofNat 64 position - BitVec.ofNat 64 (position + lag) ≠ 0 ∧
      (BitVec.ofNat 64 position - BitVec.ofNat 64 (position + lag)).slt 0 = true := by
  have difference : BitVec.ofNat 64 position - BitVec.ofNat 64 (position + lag) =
      BitVec.ofNat 64 (2 ^ 64 - lag) := by
    bv_omega
  rw [difference]
  constructor
  · bv_omega
  · simp only [BitVec.slt, BitVec.toInt, BitVec.toNat_ofNat]
    simp
    omega

/-! ## Symbolic execution of a call -/

/-- The queue after a write has taken and committed the current ticket. -/
def written (queue : MpmcQueue Value) (value : Value) : MpmcQueue Value :=
  (queue.setWpos (queue.impl.wpos + 1)).setElem queue.impl.wpos
    { seq := queue.impl.wpos + 1, val := value }

/-- The queue after a read has taken and committed the current ticket. -/
def taken (queue : MpmcQueue Value) : MpmcQueue Value :=
  (queue.setRpos (queue.impl.rpos + 1)).setElem queue.impl.rpos
    { queue.elem queue.impl.rpos with seq := queue.impl.rpos + queue.capacity }

/-- A step that is no compare-exchange leaves the pending failures alone. -/
theorem runAlone_step
    {fuel failures : Nat} {queue next : MpmcQueue Value} {pc pc' : Pc Value}
    (plain : exchanging pc = false)
    (moved : stepPc queue false pc = (next, .inl pc')) :
    runAlone (fuel + 1) failures queue pc = runAlone fuel failures next pc' := by
  simp [runAlone, plain, moved]

theorem runAlone_return
    {fuel failures : Nat} {queue next : MpmcQueue Value} {pc : Pc Value}
    {outcome : QueueOutcome Value}
    (plain : exchanging pc = false)
    (returned : stepPc queue false pc = (next, .inr outcome)) :
    runAlone (fuel + 1) failures queue pc = some (next, outcome) := by
  simp [runAlone, plain, returned]

theorem runAlone_exchange
    {fuel : Nat} {queue next : MpmcQueue Value} {pc pc' : Pc Value}
    (moved : stepPc queue false pc = (next, .inl pc')) :
    runAlone (fuel + 1) 0 queue pc = runAlone fuel 0 next pc' := by
  simp [runAlone, moved]

theorem runAlone_spurious
    {fuel failures : Nat} {queue next : MpmcQueue Value} {pc pc' : Pc Value}
    (exchange : exchanging pc = true)
    (retried : stepPc queue true pc = (next, .inl pc')) :
    runAlone (fuel + 1) (failures + 1) queue pc = runAlone fuel failures next pc' := by
  simp [runAlone, exchange, retried]

theorem runAlone_write_ready
    (failures : Nat) {queue : MpmcQueue Value} (value : Value)
    (ready : (queue.elem queue.impl.wpos).seq = queue.impl.wpos) :
    runAlone (2 * failures + 4) failures queue
        (.writeLoadSeq value queue.impl.wpos) =
      some (queue.written value, .pushed true) := by
  have loaded : stepPc queue false (.writeLoadSeq value queue.impl.wpos) =
      (queue, .inl (.writeExchange value queue.impl.wpos)) := by
    simp [stepPc, ready]
  induction failures with
  | zero =>
      rw [runAlone_step rfl loaded,
        runAlone_exchange (by simp only [stepPc, and_self, if_true]; rfl),
        runAlone_step rfl rfl, runAlone_return rfl rfl]
      simp [written, setWpos, setElem, elem, slot]
  | succ failures ih =>
      rw [show 2 * (failures + 1) + 4 = 2 * failures + 4 + 1 + 1 by omega,
        runAlone_step rfl loaded,
        runAlone_spurious rfl (by simp only [stepPc, and_false, if_false, reduceCtorEq]; rfl)]
      exact ih

theorem runAlone_read_ready
    (failures : Nat) {queue : MpmcQueue Value}
    (ready : (queue.elem queue.impl.rpos).seq = queue.impl.rpos + 1) :
    runAlone (2 * failures + 4) failures queue
        (.readLoadSeq queue.impl.rpos) =
      some (queue.taken, .popped (some (queue.elem queue.impl.rpos).val)) := by
  have loaded : stepPc queue false (.readLoadSeq queue.impl.rpos) =
      (queue, .inl (.readExchange queue.impl.rpos)) := by
    simp [stepPc, ready]
  induction failures with
  | zero =>
      rw [runAlone_step rfl loaded,
        runAlone_exchange (by simp only [stepPc, and_self, if_true]; rfl),
        runAlone_step rfl rfl, runAlone_return rfl rfl]
      simp [taken, setRpos, setElem, elem, slot]
  | succ failures ih =>
      rw [show 2 * (failures + 1) + 4 = 2 * failures + 4 + 1 + 1 by omega,
        runAlone_step rfl loaded,
        runAlone_spurious rfl (by simp only [stepPc, and_false, if_false, reduceCtorEq]; rfl)]
      exact ih

/-- A push whose element is ready for the current ticket is accepted. -/
theorem call_push_ready
    (failures : Nat) {queue : MpmcQueue Value} (value : Value)
    (ready : (queue.elem queue.impl.wpos).seq = queue.impl.wpos) :
    queue.call ⟨.push value, failures⟩ = some (queue.written value, .pushed true) :=
  runAlone_write_ready failures value ready

/-- A push whose element lags behind the current ticket is refused. -/
theorem call_push_lagging
    (failures : Nat) {queue : MpmcQueue Value} (value : Value)
    (different : (queue.elem queue.impl.wpos).seq - queue.impl.wpos ≠ 0)
    (negative :
      ((queue.elem queue.impl.wpos).seq - queue.impl.wpos).slt 0 = true) :
    queue.call ⟨.push value, failures⟩ = some (queue, .pushed false) := by
  have refused : stepPc queue false (.writeLoadSeq value queue.impl.wpos) =
      (queue, .inr (.pushed false)) := by
    simp only [stepPc, different, negative, if_true, if_false]
  rw [call, begin, runAlone_step rfl rfl, runAlone_return rfl refused]

/-- A pop whose element is ready for the current ticket returns its value. -/
theorem call_pop_ready
    (failures : Nat) {queue : MpmcQueue Value}
    (ready : (queue.elem queue.impl.rpos).seq = queue.impl.rpos + 1) :
    queue.call ⟨.pop, failures⟩ =
      some (queue.taken, .popped (some (queue.elem queue.impl.rpos).val)) :=
  runAlone_read_ready failures ready

/-- A pop whose element lags behind the current ticket is refused. -/
theorem call_pop_lagging
    (failures : Nat) {queue : MpmcQueue Value}
    (different : (queue.elem queue.impl.rpos).seq - (queue.impl.rpos + 1) ≠ 0)
    (negative :
      ((queue.elem queue.impl.rpos).seq - (queue.impl.rpos + 1)).slt 0 = true) :
    queue.call ⟨.pop, failures⟩ = some (queue, .popped none) := by
  have refused : stepPc queue false (.readLoadSeq queue.impl.rpos) =
      (queue, .inr (.popped none)) := by
    simp only [stepPc, different, negative, if_true, if_false]
  rw [call, begin, runAlone_step rfl rfl, runAlone_return rfl refused]

/-! ## Rings in step with their positions -/

/--
The ring of `2 ^ exponent` elements holds `items` from ticket `first` on: each
held element is one past its ticket, each free one is at its next ticket.
-/
structure Holds
    (queue : MpmcQueue Value) (exponent first : Nat) (items : List Value) :
    Prop where
  capacity : queue.capacity = BitVec.ofNat 64 (2 ^ exponent)
  mask : queue.mask = BitVec.ofNat 64 (2 ^ exponent) - 1
  bounded : items.length ≤ 2 ^ exponent
  rpos : queue.impl.rpos = BitVec.ofNat 64 first
  wpos : queue.impl.wpos = BitVec.ofNat 64 (first + items.length)
  held : ∀ index (inside : index < items.length),
    queue.impl.elems ((first + index) % 2 ^ exponent) =
      { seq := BitVec.ofNat 64 (first + index + 1), val := items[index] }
  free : ∀ index, items.length ≤ index → index < 2 ^ exponent →
    (queue.impl.elems ((first + index) % 2 ^ exponent)).seq =
      BitVec.ofNat 64 (first + index)

/-- Two tickets less than a lap apart share an element only if they are equal. -/
theorem ticket_eq_of_mod_eq
    {capacity first left right : Nat}
    (leftInside : left < capacity) (rightInside : right < capacity)
    (same : (first + left) % capacity = (first + right) % capacity) :
    left = right := by
  have congruent : left ≡ right [MOD capacity] :=
    Nat.ModEq.add_left_cancel' first same
  exact Nat.ModEq.eq_of_lt_of_lt congruent leftInside rightInside

namespace Holds

variable {queue : MpmcQueue Value} {exponent first : Nat} {items : List Value}

theorem slot_wpos (holds : Holds queue exponent first items)
    (narrow : exponent < 63) :
    queue.slot queue.impl.wpos = (first + items.length) % 2 ^ exponent := by
  rw [holds.wpos, slot_ofNat narrow holds.mask]

theorem slot_rpos (holds : Holds queue exponent first items)
    (narrow : exponent < 63) :
    queue.slot queue.impl.rpos = first % 2 ^ exponent := by
  rw [holds.rpos, slot_ofNat narrow holds.mask]

/-- With room, the next element is ready and a write appends the item. -/
theorem push_of_room (holds : Holds queue exponent first items)
    (narrow : exponent < 63) (value : Value) (room : items.length < 2 ^ exponent) :
    (queue.elem queue.impl.wpos).seq = queue.impl.wpos ∧
      Holds (queue.written value) exponent first (items ++ [value]) := by
  have slotEq := holds.slot_wpos narrow
  refine ⟨?_, ?_⟩
  · rw [elem, slotEq, holds.free _ le_rfl room, holds.wpos]
  · have elems : (queue.written value).impl.elems =
        Function.update queue.impl.elems ((first + items.length) % 2 ^ exponent)
          { seq := BitVec.ofNat 64 (first + items.length + 1), val := value } := by
      show Function.update queue.impl.elems (queue.slot queue.impl.wpos) _ = _
      rw [slotEq, holds.wpos, ofNat_add_one]
    have apart : ∀ index, index < 2 ^ exponent → index ≠ items.length →
        (queue.written value).impl.elems ((first + index) % 2 ^ exponent) =
          queue.impl.elems ((first + index) % 2 ^ exponent) := by
      intro index inside different
      rw [elems, Function.update_of_ne]
      exact fun same => different (ticket_eq_of_mod_eq inside room same)
    constructor
    · exact holds.capacity
    · exact holds.mask
    · rw [List.length_append, List.length_singleton]
      omega
    · exact holds.rpos
    · show queue.impl.wpos + 1 = _
      rw [holds.wpos, ofNat_add_one, List.length_append, List.length_singleton,
        Nat.add_assoc]
    · intro index inside
      rw [List.length_append, List.length_singleton] at inside
      by_cases last : index = items.length
      · subst last
        rw [elems, Function.update_self]
        simp
      · have old : index < items.length := by omega
        rw [apart index (by omega) last, holds.held index old,
          List.getElem_append_left old]
    · intro index outside inside
      rw [List.length_append, List.length_singleton] at outside
      rw [apart index inside (by omega), holds.free index (by omega) inside]

/-- When full, the next element still carries the previous lap. -/
theorem push_of_full (holds : Holds queue exponent first items)
    (positive : 0 < exponent) (narrow : exponent < 63)
    (full : items.length = 2 ^ exponent) :
    (queue.elem queue.impl.wpos).seq - queue.impl.wpos ≠ 0 ∧
      ((queue.elem queue.impl.wpos).seq - queue.impl.wpos).slt 0 = true := by
  have power : 2 ^ exponent < 2 ^ 63 := Nat.pow_lt_pow_right (by omega) narrow
  have atLeastTwo : 2 ≤ 2 ^ exponent := Nat.le_self_pow (by omega) 2
  have oldest : (queue.impl.elems (first % 2 ^ exponent)).seq =
      BitVec.ofNat 64 (first + 1) := by
    simpa using congrArg Elem.seq (holds.held 0 (by omega))
  rw [elem, holds.slot_wpos narrow, full, Nat.add_mod_right, oldest, holds.wpos, full,
    show first + 2 ^ exponent = first + 1 + (2 ^ exponent - 1) by omega]
  exact sub_slt_zero (first + 1) (by omega) (by omega)

/-- With an item held, the oldest element is ready and a read removes it. -/
theorem pop_of_cons {value : Value}
    (holds : Holds queue exponent first (value :: items)) (narrow : exponent < 63) :
    (queue.elem queue.impl.rpos).seq = queue.impl.rpos + 1 ∧
      (queue.elem queue.impl.rpos).val = value ∧
      Holds queue.taken exponent (first + 1) items := by
  have slotEq := holds.slot_rpos narrow
  have bounded := holds.bounded
  rw [List.length_cons] at bounded
  have oldest := holds.held 0 (by simp)
  rw [Nat.add_zero] at oldest
  have read : queue.elem queue.impl.rpos =
      { seq := BitVec.ofNat 64 (first + 1), val := value } := by
    rw [elem, slotEq, oldest]
    rfl
  refine ⟨by rw [read, holds.rpos, ofNat_add_one], by rw [read], ?_⟩
  have elems : queue.taken.impl.elems =
      Function.update queue.impl.elems (first % 2 ^ exponent)
        { seq := BitVec.ofNat 64 (first + 2 ^ exponent), val := value } := by
    show Function.update queue.impl.elems (queue.slot queue.impl.rpos) _ = _
    rw [slotEq, read, holds.rpos, holds.capacity, BitVec.ofNat_add first (2 ^ exponent)]
  have shift : ∀ index, (first + 1 + index) % 2 ^ exponent =
      (first + (index + 1)) % 2 ^ exponent := by
    intro index
    rw [Nat.add_assoc, Nat.add_comm 1]
  have apart : ∀ index, index + 1 < 2 ^ exponent →
      queue.taken.impl.elems ((first + 1 + index) % 2 ^ exponent) =
        queue.impl.elems ((first + (index + 1)) % 2 ^ exponent) := by
    intro index inside
    rw [elems, shift, Function.update_of_ne]
    intro same
    have zero : index + 1 = 0 := ticket_eq_of_mod_eq inside (by omega) same
    omega
  constructor
  · exact holds.capacity
  · exact holds.mask
  · omega
  · show queue.impl.rpos + 1 = _
    rw [holds.rpos, ofNat_add_one]
  · show queue.impl.wpos = _
    rw [holds.wpos, List.length_cons]
    congr 1
    omega
  · intro index inside
    rw [apart index (by omega), holds.held (index + 1) (by simpa using inside)]
    simp [Nat.add_assoc, Nat.add_comm 1]
  · intro index outside inside
    by_cases last : index + 1 = 2 ^ exponent
    · rw [shift, last, Nat.add_mod_right, elems, Function.update_self,
        show first + 1 + index = first + 2 ^ exponent by omega]
    · rw [apart index (by omega), holds.free (index + 1) (by simpa using outside) (by omega)]
      congr 1
      omega

/-- When empty, the next element to read is still at its own ticket. -/
theorem pop_of_nil (holds : Holds queue exponent first ([] : List Value))
    (narrow : exponent < 63) :
    (queue.elem queue.impl.rpos).seq - (queue.impl.rpos + 1) ≠ 0 ∧
      ((queue.elem queue.impl.rpos).seq - (queue.impl.rpos + 1)).slt 0 = true := by
  have next := holds.free 0 le_rfl (Nat.two_pow_pos exponent)
  rw [Nat.add_zero] at next
  rw [elem, holds.slot_rpos narrow, next, holds.rpos, ofNat_add_one]
  exact sub_slt_zero first (by omega) (by omega)

/-- One call answers as the bounded queue does and keeps the ring in step. -/
theorem call (holds : Holds queue exponent first items)
    (positive : 0 < exponent) (narrow : exponent < 63)
    (spec : BoundedFifo Value (2 ^ exponent)) (same : spec.items = items)
    (made : Call Value) :
    ∃ next first', queue.call made = some (next, (spec.apply made.op).2) ∧
      Holds next exponent first' (spec.apply made.op).1.items := by
  subst same
  obtain ⟨op, failures⟩ := made
  cases op with
  | push value =>
      by_cases room : spec.items.length < 2 ^ exponent
      · obtain ⟨ready, holds'⟩ := holds.push_of_room narrow value room
        obtain ⟨appended, accepted⟩ := BoundedFifo.push_of_room value room
        refine ⟨queue.written value, first, ?_, ?_⟩
        · rw [call_push_ready failures value ready, BoundedFifo.apply, accepted]
        · rw [BoundedFifo.apply, appended]
          exact holds'
      · have full : spec.items.length = 2 ^ exponent :=
          le_antisymm spec.bounded (not_lt.mp room)
        obtain ⟨different, negative⟩ := holds.push_of_full positive narrow full
        refine ⟨queue, first, ?_, ?_⟩
        · rw [call_push_lagging failures value different negative, BoundedFifo.apply,
            BoundedFifo.push_of_full value full]
        · rw [BoundedFifo.apply, BoundedFifo.push_of_full value full]
          exact holds
  | pop =>
      cases items : spec.items with
      | nil =>
          rw [items] at holds
          obtain ⟨different, negative⟩ := holds.pop_of_nil narrow
          refine ⟨queue, first, ?_, ?_⟩
          · rw [call_pop_lagging failures different negative, BoundedFifo.apply,
              BoundedFifo.pop_of_nil items]
          · rw [BoundedFifo.apply, BoundedFifo.pop_of_nil items, items]
            exact holds
      | cons value rest =>
          rw [items] at holds
          obtain ⟨ready, read, holds'⟩ := holds.pop_of_cons narrow
          obtain ⟨remaining, popped⟩ := BoundedFifo.pop_of_cons items
          refine ⟨queue.taken, first + 1, ?_, ?_⟩
          · rw [call_pop_ready failures ready, read, BoundedFifo.apply, popped]
          · rw [BoundedFifo.apply, remaining]
            exact holds'

/-- A ring in step answers every sequence of calls as the bounded queue does. -/
theorem calls (holds : Holds queue exponent first items)
    (positive : 0 < exponent) (narrow : exponent < 63)
    (spec : BoundedFifo Value (2 ^ exponent)) (same : spec.items = items)
    (made : List (Call Value)) :
    queue.calls made = some (spec.outcomes (made.map Call.op)) := by
  induction made generalizing queue first items spec with
  | nil => rfl
  | cons call rest ih =>
      obtain ⟨next, first', returned, holds'⟩ :=
        holds.call positive narrow spec same call
      rw [MpmcQueue.calls, returned, Option.bind_some, ih holds' _ rfl]
      rfl

end Holds

/-! ## The two initialisations -/

/-- A ring whose every element is initialised is in step. -/
theorem holds_initial [Inhabited Value] (exponent : Nat) :
    Holds
      ({ capacity := BitVec.ofNat 64 (2 ^ exponent)
         mask := BitVec.ofNat 64 (2 ^ exponent) - 1
         impl := initialImpl (2 ^ exponent) } : MpmcQueue Value)
      exponent 0 [] where
  capacity := rfl
  mask := rfl
  bounded := Nat.zero_le _
  rpos := rfl
  wpos := rfl
  held := fun index inside => absurd inside (Nat.not_lt_zero index)
  free := by
    intro index _ inside
    simp [initialImpl, Nat.mod_eq_of_lt inside, inside]

theorem size_lt (layout : Layout) {rounded : Nat} (small : rounded ≤ 2 ^ 30) :
    layout.size rounded = sizeofImpl + rounded * layout.sizeofElem ∧
      layout.size rounded < 2 ^ 63 := by
  have product : rounded * layout.sizeofElem ≤ 2 ^ 30 * 2 ^ 32 :=
    Nat.mul_le_mul small layout.small.le
  have exact : layout.size rounded = sizeofImpl + rounded * layout.sizeofElem := by
    rw [Layout.size, Nat.mod_eq_of_lt]
    norm_num [sizeofImpl] at product ⊢
    omega
  refine ⟨exact, ?_⟩
  rw [exact]
  norm_num [sizeofImpl] at product ⊢
  omega

theorem rounded_le {capacity : Nat} (small : capacity ≤ 2 ^ 30) :
    2 ^ Nat.clog 2 capacity ≤ 2 ^ 30 :=
  Nat.pow_le_pow_right (by omega) (Nat.clog_le_of_le_pow small)

theorem ofCapacity_small [Inhabited Value] (layout : Layout) {capacity : Nat}
    (small : capacity ≤ 2 ^ 30) :
    ofCapacity layout capacity =
      some ({
        capacity := BitVec.ofNat 64 (2 ^ Nat.clog 2 capacity)
        mask := BitVec.ofNat 64 (2 ^ Nat.clog 2 capacity) - 1
        impl := initialImpl capacity } : MpmcQueue Value) := by
  rw [ofCapacity, nextPow2_eq_clog (by omega) small, Option.bind_some,
    if_pos (size_lt layout (rounded_le small)).2]

/-- Past `2 ^ 30` the constructor builds no queue. -/
theorem ofCapacity_large [Inhabited Value] (layout : Layout) {capacity : Nat}
    (large : 2 ^ 30 < capacity) (fits : capacity < 2 ^ 64) :
    (ofCapacity layout capacity : Option (MpmcQueue Value)) = none := by
  rw [ofCapacity]
  cases computed : nextPow2 64 capacity with
  | none => rfl
  | some rounded =>
      rw [nextPow2_large large fits computed, Option.bind_some, if_neg]
      have positive := layout.positive
      have small := layout.small
      have wrapped : sizeofImpl + (2 ^ 64 - 2 ^ 31) * layout.sizeofElem =
          2 ^ 64 * (layout.sizeofElem - 1) +
            (2 ^ 64 - 2 ^ 31 * layout.sizeofElem + sizeofImpl) := by
        simp only [sizeofImpl]
        omega
      rw [Layout.size, wrapped, Nat.mul_add_mod, Nat.mod_eq_of_lt]
      · simp only [sizeofImpl]
        omega
      · simp only [sizeofImpl]
        omega

/-- A queue file is initialised in step for every capacity the code can round. -/
theorem ofFile_holds [Inhabited Value] (layout : Layout) {capacity : Nat}
    (small : capacity ≤ 2 ^ 30) :
    ∃ file queue, newMpmcQueue layout capacity = some file ∧
      ofFile layout file = some queue ∧
      Holds queue (Nat.clog 2 capacity) 0 ([] : List Value) := by
  obtain ⟨size, inside⟩ := size_lt layout (rounded_le small)
  have recovered : layout.capacity (layout.size (2 ^ Nat.clog 2 capacity)) =
      2 ^ Nat.clog 2 capacity := by
    rw [size, Layout.capacity, Nat.add_sub_cancel_left,
      Nat.mul_div_cancel _ layout.positive]
  refine ⟨{
    fileSize := layout.size (2 ^ Nat.clog 2 capacity)
    impl := initialImpl (2 ^ Nat.clog 2 capacity) }, _, ?_, ?_,
    holds_initial (Nat.clog 2 capacity)⟩
  · rw [newMpmcQueue, nextPow2_eq_clog (by omega) small, Option.bind_some, if_pos inside]
  · simp only [ofFile, recovered, (isPow2_iff _).2 ⟨_, rfl⟩, if_true]

/-! ## The ring whose tail was never initialised -/

/-- After `count` pushes, the elements from there on are as the constructor left them. -/
structure Untouched
    (queue : MpmcQueue Value) (exponent capacity count : Nat) : Prop where
  mask : queue.mask = BitVec.ofNat 64 (2 ^ exponent) - 1
  wpos : queue.impl.wpos = BitVec.ofNat 64 count
  tail : ∀ index, count ≤ index → index < 2 ^ exponent →
    (queue.impl.elems index).seq =
      if index < capacity then BitVec.ofNat 64 index else 0

namespace Untouched

variable {queue : MpmcQueue Value} {exponent capacity count : Nat}

theorem elem_seq (untouched : Untouched queue exponent capacity count)
    (narrow : exponent < 63) (inside : count < 2 ^ exponent) :
    (queue.elem queue.impl.wpos).seq =
      if count < capacity then BitVec.ofNat 64 count else 0 := by
  rw [elem, untouched.wpos, slot_ofNat narrow untouched.mask,
    Nat.mod_eq_of_lt inside, untouched.tail count le_rfl inside]

theorem push (untouched : Untouched queue exponent capacity count)
    (narrow : exponent < 63) (inside : count < 2 ^ exponent) (value : Value) :
    Untouched (queue.written value) exponent capacity (count + 1) where
  mask := untouched.mask
  wpos := by
    show queue.impl.wpos + 1 = _
    rw [untouched.wpos, ofNat_add_one]
  tail := by
    intro index outside below
    show (Function.update queue.impl.elems (queue.slot queue.impl.wpos) _ index).seq = _
    rw [untouched.wpos, slot_ofNat narrow untouched.mask, Nat.mod_eq_of_lt inside,
      Function.update_of_ne (by omega), untouched.tail index (by omega) below]

/-- The push after the last initialised element is refused. -/
theorem calls_pushes (untouched : Untouched queue exponent capacity count)
    (narrow : exponent < 63) (value : Value) (remaining : Nat)
    (reaches : count + remaining = capacity) (positive : 0 < capacity)
    (short : capacity < 2 ^ exponent) :
    queue.calls (List.replicate (remaining + 1) ⟨.push value, 0⟩) =
      some (List.replicate remaining (.pushed true) ++ [.pushed false]) := by
  induction remaining generalizing queue count with
  | zero =>
      have power : 2 ^ exponent < 2 ^ 63 := Nat.pow_lt_pow_right (by omega) narrow
      have stale : (queue.elem queue.impl.wpos).seq = BitVec.ofNat 64 0 := by
        rw [untouched.elem_seq narrow (by omega), if_neg (by omega)]
        rfl
      have position : queue.impl.wpos = BitVec.ofNat 64 (0 + capacity) := by
        rw [untouched.wpos]
        congr 1
        omega
      have lag := sub_slt_zero 0 positive (by omega : capacity < 2 ^ 63)
      rw [← position, ← stale] at lag
      simp [MpmcQueue.calls, call_push_lagging 0 value lag.1 lag.2]
  | succ remaining ih =>
      have inside : count < 2 ^ exponent := by omega
      have ready : (queue.elem queue.impl.wpos).seq = queue.impl.wpos := by
        rw [untouched.elem_seq narrow inside, if_pos (by omega), untouched.wpos]
      rw [List.replicate_succ, MpmcQueue.calls, call_push_ready 0 value ready,
        Option.bind_some, ih (untouched.push narrow inside value) (by omega)]
      rfl

end Untouched

/-! ## The in-memory constructor -/

/--
The in-memory queue of a requested capacity answers every sequence of calls as
a bounded queue of the rounded capacity does, and as the queue file of the same
request does.
-/
def InMemoryIsFifo (Value : Type u) [Inhabited Value]
    (layout : Layout) (capacity : Nat) : Prop :=
  ∃ (queue shared : MpmcQueue Value) (file : QueueFile Value),
    ofCapacity layout capacity = some queue ∧
    newMpmcQueue layout capacity = some file ∧
    ofFile layout file = some shared ∧
    (∀ made, queue.calls made =
      some ((BoundedFifo.empty Value (2 ^ Nat.clog 2 capacity)).outcomes
        (made.map Call.op))) ∧
    ∀ made, queue.calls made = shared.calls made

/-- The in-memory queue is the bounded queue exactly for the powers of two. -/
theorem inMemory_fifo_iff_isPow2 [Inhabited Value] (layout : Layout) (capacity : Nat)
    (two_le : 2 ≤ capacity) (fits : capacity < 2 ^ 64) :
    InMemoryIsFifo Value layout capacity ↔
      isPow2 capacity = true ∧ capacity ≤ 2 ^ 30 := by
  constructor
  · rintro ⟨queue, -, -, built, -, -, fifo, -⟩
    have small : capacity ≤ 2 ^ 30 := by
      by_contra large
      rw [ofCapacity_large layout (by omega) fits] at built
      cases built
    refine ⟨(isPow2_iff capacity).2 ⟨Nat.clog 2 capacity, ?_⟩, small⟩
    by_contra different
    have short : capacity < 2 ^ Nat.clog 2 capacity :=
      lt_of_le_of_ne (Nat.le_pow_clog (by omega) capacity) different
    have narrow : Nat.clog 2 capacity < 63 := by
      have := Nat.clog_le_of_le_pow small
      omega
    rw [ofCapacity_small layout small, Option.some.injEq] at built
    have untouched : Untouched queue (Nat.clog 2 capacity) capacity 0 := by
      subst built
      exact ⟨rfl, rfl, fun _ _ _ => rfl⟩
    have answered := fifo (List.replicate (capacity + 1) ⟨.push default, 0⟩)
    have room : 0 + (capacity + 1) ≤ 2 ^ Nat.clog 2 capacity := by
      omega
    rw [untouched.calls_pushes narrow default capacity (by omega) (by omega) short,
      List.map_replicate, BoundedFifo.outcomes_pushes _ _ _ room,
      List.replicate_succ', Option.some.injEq] at answered
    simpa using List.append_cancel_left answered
  · rintro ⟨power, small⟩
    obtain ⟨exponent, rfl⟩ := (isPow2_iff capacity).1 power
    have clog : Nat.clog 2 (2 ^ exponent) = exponent := Nat.clog_pow 2 exponent (by omega)
    have positive : 0 < exponent := by
      by_contra zero
      have : exponent = 0 := by omega
      simp [this] at two_le
    have narrow : exponent < 63 := by
      have := (Nat.pow_le_pow_iff_right (by omega)).1 small
      omega
    obtain ⟨file, shared, created, opened, sharedHolds⟩ :
        ∃ (file : QueueFile Value) (shared : MpmcQueue Value), _ :=
      ofFile_holds layout small
    rw [clog] at sharedHolds
    have built : ofCapacity layout (2 ^ exponent) = some (_ : MpmcQueue Value) :=
      ofCapacity_small layout small
    rw [clog] at built
    have fifo := (holds_initial exponent).calls positive narrow (BoundedFifo.empty Value _) rfl
    refine ⟨_, shared, file, built, created, opened, ?_, ?_⟩
    · rw [clog]
      exact fifo
    · intro made
      rw [fifo, sharedHolds.calls positive narrow (BoundedFifo.empty Value _) rfl]

/-- Queues of 64-byte elements. -/
def oneLine : Layout := ⟨64, by decide, by decide⟩

/-- The condition on the capacity, met by a queue of four elements. -/
theorem inMemory_fifo_four : InMemoryIsFifo Nat oneLine 4 :=
  (inMemory_fifo_iff_isPow2 oneLine 4 (by decide) (by decide)).2 ⟨by decide, by decide⟩

/-- A queue of three requested elements refuses the fourth push of its four. -/
theorem inMemory_three_not_fifo : ¬ InMemoryIsFifo Nat oneLine 3 := by
  rintro ⟨queue, -, -, built, -, -, fifo, -⟩
  rw [ofCapacity_small oneLine (by decide), Option.some.injEq] at built
  subst built
  have answered := fifo (List.replicate 4 ⟨.push 7, 0⟩)
  revert answered
  decide

end ReactiveToolbox.Ipc.MpmcQueue
