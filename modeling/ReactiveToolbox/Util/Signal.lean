import Mathlib.Data.List.Nodup

/-!
# Signals

`BasicSignal::invoke` goes through the vector of its slots from the first to what was
the last one when it began, while the slots that it calls may connect and disconnect
slots.  A slot that is erased shifts those behind it, and a slot for which there is no
room moves them all to other storage.
-/

namespace ReactiveToolbox.Util

universe u

/--
The vector `slots_`: its elements, for how many it has room, and a number of its storage,
which is another one whenever the elements have been moved.
-/
structure BasicSignal (Slot : Type u) where
  slots : List Slot
  capacity : Nat
  storage : Nat
  nodup : slots.Nodup

/-- What a slot may do while it is being called. -/
inductive SlotOp (Slot : Type u) where
  | connect (slot : Slot)
  | disconnect (slot : Slot)
  deriving DecidableEq

namespace BasicSignal

variable {Slot : Type u} [DecidableEq Slot] (growth : Nat → Nat)

/-- `emplace_back` of a slot that is not there, where `growth` is the room of new storage. -/
def emplaceBack (self : BasicSignal Slot) (slot : Slot) (absent : slot ∉ self.slots) :
    BasicSignal Slot where
  slots := self.slots ++ [slot]
  capacity := if self.slots.length < self.capacity then self.capacity else growth self.capacity
  storage := if self.slots.length < self.capacity then self.storage else self.storage + 1
  nodup := List.nodup_append.mpr ⟨self.nodup, List.nodup_singleton slot,
    fun _ member _ same equal => absent (List.mem_singleton.mp same ▸ equal ▸ member)⟩

/-- `connect`, and whether the slot was not connected yet. -/
def connect (self : BasicSignal Slot) (slot : Slot) : BasicSignal Slot × Bool :=
  if absent : slot ∉ self.slots then (self.emplaceBack growth slot absent, true) else (self, false)

/-- `disconnect`, and whether the slot was connected. -/
def disconnect (self : BasicSignal Slot) (slot : Slot) : BasicSignal Slot × Bool :=
  if slot ∈ self.slots then
    ({ self with slots := self.slots.erase slot, nodup := self.nodup.erase slot }, true)
  else (self, false)

/-- What a slot does with the signal that calls it. -/
def perform (self : BasicSignal Slot) : SlotOp Slot → BasicSignal Slot
  | .connect slot => (self.connect growth slot).1
  | .disconnect slot => (self.disconnect slot).1

end BasicSignal

/--
An `invoke` between two rounds: the vector, how far the iterator is from where it began,
the slots that have been called, and those that have been told to be disconnected.
-/
structure Invocation (Slot : Type u) where
  signal : BasicSignal Slot
  it : Nat
  called : List Slot
  disconnected : List Slot

namespace Invocation

variable {Slot : Type u} [DecidableEq Slot] (growth : Nat → Nat)

/-- What the slots do, which may be another thing each time. -/
abbrev Callbacks (Slot : Type u) : Type u :=
  Invocation Slot → Slot → List (SlotOp Slot)

/-- The loop of `invoke` stands at the first slot. -/
def start (signal : BasicSignal Slot) : Invocation Slot where
  signal := signal
  it := 0
  called := []
  disconnected := []

/-- The slots that some operations disconnect. -/
def disconnects (ops : List (SlotOp Slot)) : List Slot :=
  ops.filterMap fun
    | .connect _ => none
    | .disconnect slot => some slot

/-- The call of a slot, and the step to the next. -/
def perform (self : Invocation Slot) (slot : Slot) (ops : List (SlotOp Slot)) :
    Invocation Slot where
  signal := ops.foldl (BasicSignal.perform growth) self.signal
  it := self.it + 1
  called := self.called ++ [slot]
  disconnected := self.disconnected ++ disconnects ops

/--
The slot that the iterator refers to, which was begun in the given storage.  There is
none where the elements are no longer there, or end in front of it.
-/
def slot (self : Invocation Slot) (storage : Nat) : Option Slot :=
  if self.signal.storage = storage then self.signal.slots[self.it]? else none

/-- A round of the loop, where what it accesses is an element of the vector. -/
def step (callbacks : Callbacks Slot) (storage : Nat) (self : Invocation Slot) :
    Option (Invocation Slot) :=
  (self.slot storage).map fun slot => self.perform growth slot (callbacks self slot)

/-- The first rounds of an `invoke`, which has as many as there are slots when it begins. -/
def rounds (callbacks : Callbacks Slot) (signal : BasicSignal Slot) :
    Nat → Option (Invocation Slot)
  | 0 => some (start signal)
  | round + 1 => (rounds callbacks signal round).bind (step growth callbacks signal.storage)

/-- Of the slots from the start those that have been neither called nor disconnected. -/
def due (signal : BasicSignal Slot) (self : Invocation Slot) : List Slot :=
  signal.slots.filter fun slot => slot ∉ self.called ∧ slot ∉ self.disconnected

/--
No slot from the start has been called twice, and none that is still connected has been
passed over: the iterator is in front of it.  What is called next is connected.
-/
structure Served (signal : BasicSignal Slot) (state : Invocation Slot) : Prop where
  connected : ∀ slot, state.slot signal.storage = some slot → slot ∈ state.signal.slots
  once : (state.called.filter (· ∈ signal.slots)).Nodup
  ahead : ∀ slot ∈ state.due signal,
    slot ∉ state.signal.slots.take state.it ∧ state.it < signal.slots.length

/-- Every round is defined, and leaves all slots served. -/
def Serves (callbacks : Callbacks Slot) (signal : BasicSignal Slot) : Prop :=
  ∀ round ≤ signal.slots.length, ∃ state,
    rounds growth callbacks signal round = some state ∧ Served signal state

/-! ## What the slots must not do -/

/-- A slot is connected that is not in the vector, which has no room for it. -/
def Moves : BasicSignal Slot → List (SlotOp Slot) → Prop
  | _, [] => False
  | signal, op :: ops =>
      (∃ slot, op = .connect slot ∧ slot ∉ signal.slots ∧
        signal.capacity ≤ signal.slots.length) ∨ Moves (signal.perform growth op) ops

/--
What is done in a round that is not the last one: the elements stay where they are; more
are left than have been passed; none of those that have been passed is disconnected while
others are due; and the next one is not one from the start that has been called.
-/
structure Undisturbed (signal : BasicSignal Slot) (before : Invocation Slot) (slot : Slot)
    (ops : List (SlotOp Slot)) : Prop where
  stays : ¬Moves growth before.signal ops
  remains : before.it + 1 < (before.perform growth slot ops).signal.slots.length
  passed : (before.perform growth slot ops).due signal ≠ [] →
    ∀ other ∈ before.signal.slots.take (before.it + 1), .disconnect other ∉ ops
  fresh : ∀ next, (before.perform growth slot ops).signal.slots[before.it + 1]? = some next →
    next ∈ signal.slots → next ∉ before.called ++ [slot]

/-- No slot disturbs a round other than the last. -/
def Fits (callbacks : Callbacks Slot) (signal : BasicSignal Slot) : Prop :=
  ∀ round state slot, rounds growth callbacks signal round = some state →
    state.slot signal.storage = some slot → round + 1 < signal.slots.length →
      Undisturbed growth signal state slot (callbacks state slot)

/-! ## What the operations do to the vector -/

variable {growth} {signal : BasicSignal Slot} {state after : Invocation Slot} {slot : Slot}
  {ops : List (SlotOp Slot)} {callbacks : Callbacks Slot} {round : Nat}

/-- The slots that are not disconnected. -/
def kept (ops : List (SlotOp Slot)) (slot : Slot) : Bool :=
  decide (slot ∉ disconnects ops)

omit [DecidableEq Slot] in
theorem mem_disconnects : slot ∈ disconnects ops ↔ .disconnect slot ∈ ops := by
  rw [disconnects, List.mem_filterMap]
  constructor
  · rintro ⟨op, member, same⟩
    cases op with
    | connect other => cases same
    | disconnect other =>
        obtain rfl := Option.some.inj same
        exact member
  · exact fun member => ⟨_, member, rfl⟩

theorem kept_disconnect (slot : Slot) (ops : List (SlotOp Slot)) :
    kept (.disconnect slot :: ops) = fun other => kept ops other && other != slot := by
  funext other
  rw [Bool.eq_iff_iff]
  simp [kept, disconnects, and_comm]

theorem slots_disconnect (signal : BasicSignal Slot) (slot : Slot) :
    (signal.disconnect slot).1.slots = signal.slots.filter (· != slot) := by
  rw [← signal.nodup.erase_eq_filter, BasicSignal.disconnect]
  split
  · rfl
  · rename_i absent
    exact (List.erase_of_not_mem absent).symm

theorem slots_connect (signal : BasicSignal Slot) (slot : Slot) :
    ∃ added, (signal.connect growth slot).1.slots = signal.slots ++ added := by
  unfold BasicSignal.connect
  split
  · exact ⟨[slot], rfl⟩
  · exact ⟨[], (List.append_nil _).symm⟩

/-- Operations take out what they disconnect, and add to the end. -/
theorem slots_foldl (ops : List (SlotOp Slot)) {signal : BasicSignal Slot}
    {front middle behind : List Slot} (slots : signal.slots = front ++ (middle ++ behind)) :
    ∃ added, (ops.foldl (BasicSignal.perform growth) signal).slots =
      front.filter (kept ops) ++ (middle.filter (kept ops) ++ added) := by
  induction ops generalizing signal front middle behind with
  | nil =>
      refine ⟨behind, ?_⟩
      rw [List.foldl_nil, slots, List.filter_eq_self.mpr, List.filter_eq_self.mpr] <;>
        exact fun _ _ => rfl
  | cons op ops continued =>
      cases op with
      | connect slot =>
          obtain ⟨more, connected⟩ : ∃ more, (signal.connect growth slot).1.slots = _ :=
            slots_connect signal slot
          rw [slots, List.append_assoc, List.append_assoc] at connected
          exact continued connected
      | disconnect slot =>
          have disconnected := slots_disconnect signal slot
          rw [slots, List.filter_append, List.filter_append] at disconnected
          obtain ⟨added, rest⟩ := continued disconnected
          rw [List.filter_filter, List.filter_filter, ← kept_disconnect] at rest
          exact ⟨added, rest⟩

/-- The elements have been moved just where one was connected that had no room. -/
theorem storage_foldl (ops : List (SlotOp Slot)) (signal : BasicSignal Slot) :
    signal.storage ≤ (ops.foldl (BasicSignal.perform growth) signal).storage ∧
      ((ops.foldl (BasicSignal.perform growth) signal).storage = signal.storage ↔
        ¬Moves growth signal ops) := by
  induction ops generalizing signal with
  | nil => exact ⟨Nat.le_refl _, iff_of_true rfl id⟩
  | cons op ops continued =>
      obtain ⟨later, same⟩ := continued (signal.perform growth op)
      rw [List.foldl_cons, Moves, not_or]
      by_cases moved : ∃ slot, op = .connect slot ∧ slot ∉ signal.slots ∧
          signal.capacity ≤ signal.slots.length
      · obtain ⟨slot, rfl, absent, full⟩ := moved
        have next : (signal.perform growth (.connect slot)).storage = signal.storage + 1 := by
          rw [BasicSignal.perform, BasicSignal.connect, dif_pos absent]
          exact if_neg (Nat.not_lt_of_le full)
        rw [next] at later
        refine ⟨Nat.le_of_succ_le later, iff_of_false (Nat.ne_of_gt later) fun stays => ?_⟩
        exact stays.1 ⟨slot, rfl, absent, full⟩
      · have next : (signal.perform growth op).storage = signal.storage := by
          cases op with
          | disconnect slot =>
              rw [BasicSignal.perform, BasicSignal.disconnect]
              split <;> rfl
          | connect slot =>
              rw [BasicSignal.perform, BasicSignal.connect]
              split
              · rename_i absent
                refine if_pos (Nat.lt_of_not_le fun full => ?_)
                exact moved ⟨slot, rfl, absent, full⟩
              · rfl
        rw [next] at later same
        rw [same]
        exact ⟨later, (and_iff_right moved).symm⟩

/-! ## What a round leaves -/

theorem due_perform (signal : BasicSignal Slot) (state : Invocation Slot) (slot : Slot)
    (ops : List (SlotOp Slot)) :
    (state.perform growth slot ops).due signal =
      ((state.due signal).filter (· != slot)).filter (kept ops) := by
  unfold due perform kept
  rw [List.filter_filter, List.filter_filter]
  refine List.filter_congr fun other _ => ?_
  rw [Bool.eq_iff_iff]
  simp only [List.mem_append, List.mem_singleton, not_or, decide_eq_true_eq, Bool.and_eq_true,
    bne_iff_ne]
  tauto

/--
Where the vector has been left alone so far: the slots that are due are in front of those
that were added, and begin at the iterator.
-/
structure Sound (signal : BasicSignal Slot) (state : Invocation Slot) : Prop where
  next : state.it < signal.slots.length → ∃ slot, state.slot signal.storage = some slot ∧
    (slot ∈ signal.slots → slot ∉ state.called)
  once : (state.called.filter (· ∈ signal.slots)).Nodup
  place : state.due signal ≠ [] → ∃ front behind,
    state.signal.slots = front ++ (state.due signal ++ behind) ∧ front.length = state.it
  few : (state.due signal).length + state.it ≤ signal.slots.length

omit [DecidableEq Slot] in
theorem slot_eq_some {storage : Nat} : state.slot storage = some slot ↔
    state.signal.storage = storage ∧ state.signal.slots[state.it]? = some slot := by
  unfold Invocation.slot
  split
  · rename_i same
    exact (and_iff_right same).symm
  · rename_i other
    exact iff_of_false (fun found => nomatch found) fun found => other found.1

theorem due_start (signal : BasicSignal Slot) : (start signal).due signal = signal.slots := by
  refine List.filter_eq_self.mpr fun slot _ => ?_
  exact decide_eq_true ⟨List.not_mem_nil, List.not_mem_nil⟩

theorem Sound.start (signal : BasicSignal Slot) : (start signal).Sound signal where
  next positive :=
    ⟨signal.slots[0], slot_eq_some.mpr ⟨rfl, List.getElem?_eq_getElem positive⟩,
      fun _ => List.not_mem_nil⟩
  once := List.nodup_nil
  place _ := ⟨[], [], by rw [due_start, List.append_nil]; rfl, rfl⟩
  few := by
    rw [due_start]
    exact Nat.le_refl _

theorem Sound.served (sound : state.Sound signal) : state.Served signal where
  connected _ found := List.mem_of_getElem? (slot_eq_some.mp found).2
  once := sound.once
  ahead slot member := by
    have some_due : state.due signal ≠ [] := List.ne_nil_of_mem member
    obtain ⟨front, behind, slots, length⟩ := sound.place some_due
    have nodup := state.signal.nodup
    rw [slots] at nodup
    have few := sound.few
    have positive := List.length_pos_iff.mpr some_due
    refine ⟨fun passed => ?_, by omega⟩
    rw [slots, ← length, List.take_left] at passed
    exact List.disjoint_of_nodup_append nodup passed (List.mem_append_left _ member)

/-- The slot that is called is the first of those that are due. -/
theorem Sound.head (sound : state.Sound signal) (found : state.slot signal.storage = some slot)
    (some_due : state.due signal ≠ []) : ∃ front rest behind,
      state.signal.slots = (front ++ [slot]) ++ (rest ++ behind) ∧ front.length = state.it ∧
        state.due signal = slot :: rest ∧ slot ∉ rest := by
  obtain ⟨front, behind, slots, length⟩ := sound.place some_due
  obtain ⟨first, rest, due⟩ := List.exists_cons_of_ne_nil some_due
  have nodup : (state.due signal).Nodup := signal.nodup.filter _
  rw [due] at slots nodup
  have here := (slot_eq_some.mp found).2
  rw [slots, ← length, List.getElem?_append_right (Nat.le_refl _), Nat.sub_self] at here
  obtain rfl : first = slot := Option.some.inj here
  refine ⟨front, rest, behind, ?_, length, due, (List.nodup_cons.mp nodup).1⟩
  rw [slots, List.append_assoc]
  rfl

/-- Then it is no longer due, and those behind it are as far as they are kept. -/
theorem due_of_head {rest : List Slot} (due : state.due signal = slot :: rest)
    (absent : slot ∉ rest) :
    (state.perform growth slot ops).due signal = rest.filter (kept ops) := by
  have others : (slot :: rest).filter (· != slot) = rest := by
    rw [List.filter_cons_of_neg (by simp)]
    refine List.filter_eq_self.mpr fun other member => bne_iff_ne.mpr fun same => ?_
    exact absent (same ▸ member)
  rw [due_perform, due, others]

theorem due_ne_nil (still : (state.perform growth slot ops).due signal ≠ []) :
    state.due signal ≠ [] := by
  intro none_due
  rw [due_perform, none_due] at still
  exact still rfl

omit [DecidableEq Slot] in
theorem take_front {front rest : List Slot} (slots : state.signal.slots = (front ++ [slot]) ++ rest)
    (length : front.length = state.it) :
    state.signal.slots.take (state.it + 1) = front ++ [slot] := by
  rw [slots, ← length]
  exact List.take_left' (by rw [List.length_append, List.length_singleton])

/--
While any slots are due, the call leaves what it keeps of those up to the iterator, in
front of what is due then.
-/
theorem Sound.slots_perform (sound : state.Sound signal)
    (found : state.slot signal.storage = some slot)
    (some_due : (state.perform growth slot ops).due signal ≠ []) : ∃ front added,
      front.length = state.it ∧ state.signal.slots.take (state.it + 1) = front ++ [slot] ∧
        (state.perform growth slot ops).signal.slots = (front ++ [slot]).filter (kept ops) ++
          (state.perform growth slot ops).due signal ++ added := by
  obtain ⟨front, rest, behind, slots, length, due, absent⟩ :=
    sound.head found (due_ne_nil some_due)
  obtain ⟨added, after⟩ : ∃ added, (ops.foldl (BasicSignal.perform growth) _).slots = _ :=
    slots_foldl ops slots
  refine ⟨front, added, length, take_front slots length, ?_⟩
  rw [due_of_head due absent, List.append_assoc]
  exact after

/-- In every round fewer slots are due, as long as any are. -/
theorem Sound.fewer (sound : state.Sound signal) (inside : state.it < signal.slots.length)
    (found : state.slot signal.storage = some slot) (growth : Nat → Nat)
    (ops : List (SlotOp Slot)) :
    ((state.perform growth slot ops).due signal).length + (state.it + 1) ≤
      signal.slots.length := by
  by_cases none_due : state.due signal = []
  · rw [due_perform, none_due, List.filter_nil, List.filter_nil, List.length_nil, Nat.zero_add]
    exact inside
  · obtain ⟨front, rest, behind, -, -, due, absent⟩ := sound.head found none_due
    have few := sound.few
    have filtered := List.length_filter_le (kept ops) rest
    rw [due, List.length_cons] at few
    rw [due_of_head due absent]
    omega

theorem Sound.step (sound : state.Sound signal) (inside : state.it < signal.slots.length)
    (found : state.slot signal.storage = some slot)
    (undisturbed : state.it + 1 < signal.slots.length → Undisturbed growth signal state slot ops) :
    (state.perform growth slot ops).Sound signal where
  next more := by
    obtain ⟨stays, remains, -, fresh⟩ := undisturbed more
    have storage := (slot_eq_some.mp found).1
    have same := (storage_foldl ops state.signal).2.mpr stays
    have here := List.getElem?_eq_getElem remains
    exact ⟨_, slot_eq_some.mpr ⟨same.trans storage, here⟩, fresh _ here⟩
  once := by
    obtain ⟨other, otherFound, fresh⟩ := sound.next inside
    obtain rfl := Option.some.inj (found.symm.trans otherFound)
    rw [perform, List.filter_append]
    by_cases member : slot ∈ signal.slots
    · rw [List.filter_singleton, decide_eq_true member, cond_true]
      refine List.nodup_append.mpr ⟨sound.once, List.nodup_singleton slot, ?_⟩
      intro other called new same equal
      refine fresh member ?_
      rw [← List.mem_singleton.mp same, ← equal]
      exact List.mem_of_mem_filter called
    · rw [List.filter_singleton, decide_eq_false member, cond_false, List.append_nil]
      exact sound.once
  place some_due := by
    obtain ⟨front, added, length, taken, slots⟩ := sound.slots_perform found some_due
    have few := sound.fewer inside found growth ops
    have positive := List.length_pos_iff.mpr some_due
    have passed := (undisturbed (by omega)).passed some_due
    rw [taken] at passed
    have stay : (front ++ [slot]).filter (kept ops) = front ++ [slot] :=
      List.filter_eq_self.mpr fun other member =>
        decide_eq_true fun gone => passed other member (mem_disconnects.mp gone)
    refine ⟨front ++ [slot], added, ?_, ?_⟩
    · rw [slots, stay, List.append_assoc]
    · rw [List.length_append, length]
      rfl
  few := sound.fewer inside found growth ops

/-- Where the next two rounds are defined and leave all slots served, this one is undisturbed. -/
theorem Sound.undisturbed (sound : state.Sound signal)
    (found : state.slot signal.storage = some slot) {next : Slot} {others : List (SlotOp Slot)}
    (following : (state.perform growth slot ops).slot signal.storage = some next)
    (served : (state.perform growth slot ops).Served signal)
    (later : ((state.perform growth slot ops).perform growth next others).Served signal) :
    Undisturbed growth signal state slot ops := by
  obtain ⟨storage, here⟩ := slot_eq_some.mp following
  refine ⟨?_, ?_, fun some_due other member gone => ?_, fun third found member called => ?_⟩
  · refine (storage_foldl ops state.signal).2.mp ?_
    exact storage.trans (slot_eq_some.mp found).1.symm
  · exact (List.getElem?_eq_some_iff.mp here).1
  · obtain ⟨front, added, length, taken, slots⟩ := sound.slots_perform found some_due
    rw [taken] at member
    obtain ⟨first, more, begins⟩ := List.exists_cons_of_ne_nil some_due
    have shorter : ((front ++ [slot]).filter (kept ops)).length < (front ++ [slot]).length := by
      refine List.length_filter_lt_length_iff_exists.mpr ⟨other, member, ?_⟩
      exact fun stays => of_decide_eq_true stays (mem_disconnects.mpr gone)
    rw [begins, List.append_cons, List.append_assoc] at slots
    refine (served.ahead first ?_).1 ?_
    · rw [begins]
      exact List.mem_cons_self
    · rw [slots, List.take_append, List.take_of_length_le]
      · exact List.mem_append_left _ (List.mem_append_right _ (List.mem_singleton_self first))
      · rw [List.length_append, List.length_singleton] at shorter ⊢
        rw [length] at shorter
        exact shorter
  · obtain rfl : third = next := Option.some.inj (found.symm.trans here)
    have once : ((state.called ++ [slot] ++ [third]).filter (· ∈ signal.slots)).Nodup := later.once
    rw [List.filter_append, List.filter_singleton, decide_eq_true member, cond_true] at once
    refine List.disjoint_of_nodup_append once ?_ (List.mem_singleton_self third)
    exact List.mem_filter.mpr ⟨called, decide_eq_true member⟩

/-! ## A whole invocation -/

theorem rounds_succ : rounds growth callbacks signal (round + 1) = some after ↔
    ∃ state, rounds growth callbacks signal round = some state ∧
      ∃ slot, state.slot signal.storage = some slot ∧
        state.perform growth slot (callbacks state slot) = after := by
  simp only [rounds, Option.bind_eq_some_iff, step, Option.map_eq_some_iff]

theorem it_rounds (reached : rounds growth callbacks signal round = some state) :
    state.it = round := by
  induction round generalizing state with
  | zero =>
      obtain rfl := Option.some.inj reached
      rfl
  | succ round continued =>
      obtain ⟨before, earlier, slot, -, rfl⟩ := rounds_succ.mp reached
      rw [perform, continued earlier]

/-- As long as no slot disturbs the rounds they are all defined. -/
theorem sound_of_fits (fits : Fits growth callbacks signal) (within : round ≤ signal.slots.length) :
    ∃ state, rounds growth callbacks signal round = some state ∧ state.Sound signal := by
  induction round with
  | zero => exact ⟨_, rfl, .start signal⟩
  | succ round continued =>
      obtain ⟨state, reached, sound⟩ := continued (Nat.le_of_succ_le within)
      have inside : state.it < signal.slots.length := it_rounds reached ▸ within
      obtain ⟨slot, found, -⟩ := sound.next inside
      refine ⟨_, rounds_succ.mpr ⟨state, reached, slot, found, rfl⟩, ?_⟩
      refine sound.step inside found fun more => fits round state slot reached found ?_
      exact it_rounds reached ▸ more

/-- What is served in every round has not been disturbed in the round before. -/
theorem undisturbed_of_serves (serves : Serves growth callbacks signal)
    (reached : rounds growth callbacks signal round = some state) (sound : state.Sound signal)
    (found : state.slot signal.storage = some slot) (more : round + 1 < signal.slots.length) :
    Undisturbed growth signal state slot (callbacks state slot) := by
  obtain ⟨after, next, served⟩ := serves (round + 1) (Nat.le_of_lt more)
  obtain ⟨last, following, later⟩ := serves (round + 2) more
  obtain ⟨other, otherReached, nextSlot, nextFound, rfl⟩ := rounds_succ.mp following
  obtain rfl := Option.some.inj (next.symm.trans otherReached)
  obtain ⟨before, beforeReached, beforeSlot, beforeFound, rfl⟩ := rounds_succ.mp next
  obtain rfl := Option.some.inj (reached.symm.trans beforeReached)
  obtain rfl := Option.some.inj (found.symm.trans beforeFound)
  exact sound.undisturbed found nextFound served later

theorem sound_of_serves (serves : Serves growth callbacks signal)
    (within : round ≤ signal.slots.length)
    (reached : rounds growth callbacks signal round = some state) : state.Sound signal := by
  induction round generalizing state with
  | zero =>
      obtain rfl := Option.some.inj reached
      exact .start signal
  | succ round continued =>
      obtain ⟨before, earlier, slot, found, rfl⟩ := rounds_succ.mp reached
      have sound := continued (Nat.le_of_succ_le within) earlier
      have inside : before.it < signal.slots.length := it_rounds earlier ▸ within
      refine sound.step inside found fun more => ?_
      exact undisturbed_of_serves serves earlier sound found (it_rounds earlier ▸ more)

/--
For every signal and whatever its slots do while they are called: an `invoke` accesses
elements of the vector only, and calls each slot from the start that is still connected
when it comes to it, and none of them twice, if and only if no slot disturbs a round
other than the last.
-/
theorem serves_iff (growth : Nat → Nat) (callbacks : Callbacks Slot) (signal : BasicSignal Slot) :
    Serves growth callbacks signal ↔ Fits growth callbacks signal := by
  constructor
  · intro serves round state slot reached found more
    have sound := sound_of_serves serves (Nat.le_of_lt (Nat.lt_of_succ_lt more)) reached
    exact undisturbed_of_serves serves reached sound found more
  · intro fits round within
    obtain ⟨state, reached, sound⟩ := sound_of_fits fits within
    exact ⟨state, reached, sound.served⟩

/-- Three slots, of which the first one disconnects itself. -/
def threeSlots : BasicSignal Nat where
  slots := [1, 2, 3]
  capacity := 4
  storage := 0
  nodup := by decide

def leavesAtOnce : Callbacks Nat := fun _ slot =>
  if slot = 1 then [.disconnect 1] else []

/-- The second one is passed over, and behind the third one the loop leaves the vector. -/
theorem not_serves_leavesAtOnce :
    (rounds (2 * ·) leavesAtOnce threeSlots 2).map Invocation.called = some [1, 3] ∧
      (rounds (2 * ·) leavesAtOnce threeSlots 3).isNone ∧
      ¬Serves (2 * ·) leavesAtOnce threeSlots := by
  have stuck : rounds (2 * ·) leavesAtOnce threeSlots 3 = none := rfl
  refine ⟨rfl, rfl, fun serves => ?_⟩
  obtain ⟨state, reached, -⟩ := serves 3 (Nat.le_refl 3)
  rw [stuck] at reached
  cases reached

end Invocation

end ReactiveToolbox.Util
