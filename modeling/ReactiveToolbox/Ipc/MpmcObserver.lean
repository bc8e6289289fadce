import Mathlib.Data.Fintype.Basic
import ReactiveToolbox.Ipc.MpmcConcurrent

/-!
# Observers of the queue

`MpmcQueue::size` loads the read position and then the write position, and answers with
their difference.  Any number of observers ask, while threads push and pop between the
loads.  A write position that is loaded late may be more than a lap ahead of the read
position that was loaded early.
-/

namespace ReactiveToolbox.Ipc.MpmcObserver

open ReactiveToolbox.Lib
open ReactiveToolbox.Ipc.MpmcQueue
open ReactiveToolbox.Ipc.MpmcConcurrent (State NoWrap pushes claims)

universe u v w

variable {Thread : Type u} {Observer : Type v} {Value : Type w}

/-! ## Questions -/

/-- What an observer asks. -/
inductive Query where
  | askSize
  | askAvailable
  deriving DecidableEq

/-- `MpmcQueue::size`, of the positions that it has loaded. -/
def size (rpos wpos : Word) : Word := wpos - rpos

/-- `MpmcQueue::available`. -/
def available (capacity rpos wpos : Word) : Word := capacity - size rpos wpos

/-- The answer, of the two positions that have been loaded. -/
def Query.answer (capacity rpos wpos : Word) : Query → Word
  | .askSize => size rpos wpos
  | .askAvailable => available capacity rpos wpos

/-- The queue with its threads, what each observer has loaded, and all answers. -/
structure Watched (Thread : Type u) (Observer : Type v) (Value : Type w) where
  shared : State Thread Value
  loaded : Observer → Option (Query × Word)
  answers : List (Query × Word)

/-- A step of a thread, or the first or the second load of an observer. -/
inductive Action (Thread : Type u) (Observer : Type v) (Value : Type w) where
  | queue (action : MpmcConcurrent.Action Thread Value)
  | loadRpos (observer : Observer) (query : Query)
  | loadWpos (observer : Observer)

/-- One step of the queue or of an observer. -/
def step [DecidableEq Thread] [DecidableEq Observer] (watched : Watched Thread Observer Value) :
    Action Thread Observer Value → Option (Watched Thread Observer Value)
  | .queue action =>
      (MpmcConcurrent.step watched.shared action).map fun shared => { watched with shared }
  | .loadRpos observer query =>
      match watched.loaded observer with
      | none =>
          some { watched with
            loaded := Function.update watched.loaded observer
              (some (query, watched.shared.queue.impl.rpos)) }
      | some _ => none
  | .loadWpos observer =>
      (watched.loaded observer).map fun call =>
        { watched with
          loaded := Function.update watched.loaded observer none
          answers := watched.answers ++ [(call.1, call.1.answer watched.shared.queue.capacity
            call.2 watched.shared.queue.impl.wpos)] }

/-- An empty queue, and nobody has asked. -/
def initial [Inhabited Value] (exponent : Nat) : Watched Thread Observer Value where
  shared := MpmcConcurrent.initial exponent
  loaded := fun _ => none
  answers := []

/-! ## The steps that mislead an observer -/

/-- A compare-exchange of a producer that succeeds. -/
def takesTicket (watched : Watched Thread Observer Value) :
    Action Thread Observer Value → Bool
  | .queue (.step thread false) =>
      match watched.shared.threads thread with
      | some (.writeExchange _ wpos) => decide (watched.shared.queue.impl.wpos = wpos)
      | _ => false
  | _ => false

/-- The write position is a whole lap ahead of a read position. -/
def Ahead (queue : MpmcQueue Value) (rpos : Word) : Prop :=
  queue.impl.wpos - rpos = queue.capacity

instance (queue : MpmcQueue Value) (rpos : Word) : Decidable (Ahead queue rpos) :=
  inferInstanceAs (Decidable (_ = _))

instance (exponent : Nat) (history : List (MpmcConcurrent.Event Thread Value)) :
    Decidable (NoWrap exponent history) :=
  decidable_of_iff
    ((pushes history).length < 2 ^ 63 ∧ (claims history).length + 2 ^ exponent < 2 ^ 63)
    ⟨fun both => ⟨both.1, both.2⟩, fun noWrap => ⟨noWrap.small, noWrap.lap⟩⟩

/--
No producer takes a ticket while the write position is a lap ahead of what an observer
has loaded and not yet answered by.  The counters have not wrapped, and a queue of one
element, which would take a second one as well, holds none.
-/
structure Unhurried (exponent : Nat) (watched : Watched Thread Observer Value)
    (action : Action Thread Observer Value) : Prop where
  noWrap : NoWrap exponent watched.shared.history
  observers : takesTicket watched action = true → ∀ observer call,
    watched.loaded observer = some call → ¬Ahead watched.shared.queue call.2
  single : takesTicket watched action = true → exponent = 0 →
    ¬Ahead watched.shared.queue watched.shared.queue.impl.rpos

instance [Fintype Observer] (exponent : Nat) (watched : Watched Thread Observer Value)
    (action : Action Thread Observer Value) : Decidable (Unhurried exponent watched action) :=
  decidable_of_iff
    (NoWrap exponent watched.shared.history ∧
      (takesTicket watched action = true → ∀ observer, ∀ call ∈ watched.loaded observer,
        ¬Ahead watched.shared.queue call.2) ∧
      (takesTicket watched action = true → exponent = 0 →
        ¬Ahead watched.shared.queue watched.shared.queue.impl.rpos))
    ⟨fun all => ⟨all.1, all.2.1, all.2.2⟩, fun unhurried =>
      ⟨unhurried.noWrap, unhurried.observers, unhurried.single⟩⟩

/-! ## Positions -/

/-- The write position is at most a lap ahead of a read position. -/
structure WithinLap (exponent written rpos : Nat) : Prop where
  behind : rpos ≤ written
  near : written ≤ rpos + 2 ^ exponent

/-- The positions are the numbers of tickets taken, at most a lap apart. -/
structure Positions (exponent : Nat) (state : State Thread Value) : Prop where
  rpos : state.queue.impl.rpos = BitVec.ofNat 64 (claims state.history).length
  wpos : state.queue.impl.wpos = BitVec.ofNat 64 (pushes state.history).length
  lap : WithinLap exponent (pushes state.history).length (claims state.history).length

variable {exponent written rpos : Nat}

theorem sub_ofNat (lap : WithinLap exponent written rpos) :
    BitVec.ofNat 64 written - BitVec.ofNat 64 rpos = BitVec.ofNat 64 (written - rpos) := by
  have behind := lap.behind
  rw [← Nat.sub_add_cancel behind, BitVec.ofNat_add, BitVec.add_sub_cancel,
    Nat.sub_add_cancel behind]

/-- Within a lap, both answers are. -/
theorem answer_le (lap : WithinLap exponent written rpos) (narrow : exponent < 63)
    (query : Query) :
    (query.answer (BitVec.ofNat 64 (2 ^ exponent)) (BitVec.ofNat 64 rpos)
      (BitVec.ofNat 64 written)).toNat ≤ 2 ^ exponent := by
  have power : 2 ^ exponent < 2 ^ 63 := Nat.pow_lt_pow_right (by omega) narrow
  have behind := lap.behind
  have near := lap.near
  cases query with
  | askSize =>
      rw [Query.answer, size, sub_ofNat lap, BitVec.toNat_ofNat]
      omega
  | askAvailable =>
      have rest : WithinLap exponent (2 ^ exponent) (written - rpos) := ⟨by omega, by omega⟩
      have room := sub_ofNat rest
      rw [Query.answer, available, size, sub_ofNat lap, room, BitVec.toNat_ofNat]
      omega

/-- Where the write position is not a whole lap ahead, it may move on. -/
theorem WithinLap.next (lap : WithinLap exponent written rpos) {queue : MpmcQueue Value}
    (capacity : queue.capacity = BitVec.ofNat 64 (2 ^ exponent))
    (wpos : queue.impl.wpos = BitVec.ofNat 64 written)
    (room : ¬Ahead queue (BitVec.ofNat 64 rpos)) : WithinLap exponent (written + 1) rpos := by
  have behind := lap.behind
  have near := lap.near
  refine ⟨by omega, ?_⟩
  by_contra ahead
  refine room ?_
  have lapped : written - rpos = 2 ^ exponent := by omega
  rw [Ahead, wpos, capacity, sub_ofNat lap, lapped]

/-! ## Steps of threads -/

section Steps

variable {state next : State Thread Value} {action : MpmcConcurrent.Action Thread Value}

theorem capacity_stepPc (queue : MpmcQueue Value) (spurious : Bool) (pc : Pc Value) :
    (stepPc queue spurious pc).1.capacity = queue.capacity := by
  cases pc <;> simp only [stepPc] <;> (repeat' split) <;> rfl

variable [DecidableEq Thread]

theorem capacity_step (taken : MpmcConcurrent.step state action = some next) :
    next.queue.capacity = state.queue.capacity := by
  cases action with
  | call thread op =>
      obtain ⟨-, rfl⟩ := MpmcConcurrent.call_of_step taken
      rfl
  | step thread spurious =>
      obtain ⟨pc, -, rfl⟩ := MpmcConcurrent.thread_of_step taken
      exact capacity_stepPc _ _ _

/-- A write ticket is taken by one kind of step. -/
theorem pushes_step {watched : Watched Thread Observer Value}
    (taken : MpmcConcurrent.step watched.shared action = some next) :
    (pushes next.history).length = (pushes watched.shared.history).length +
      if takesTicket watched (.queue action) = true then 1 else 0 := by
  cases action with
  | call thread op =>
      obtain ⟨-, rfl⟩ := MpmcConcurrent.call_of_step taken
      rfl
  | step thread spurious =>
      obtain ⟨pc, at_pc, rfl⟩ := MpmcConcurrent.thread_of_step taken
      simp only [MpmcConcurrent.pushes_append, List.length_append, Nat.add_left_cancel_iff]
      cases spurious with
      | true =>
          cases pc <;> simp [MpmcConcurrent.events, pushes, takesTicket]
      | false =>
          simp only [takesTicket, at_pc]
          cases pc with
          | writeExchange value wpos =>
              by_cases won : watched.shared.queue.impl.wpos = wpos
              · simp [MpmcConcurrent.events, pushes, won]
              · simp [MpmcConcurrent.events, pushes, won]
          | readExchange rpos =>
              simp only [MpmcConcurrent.events]
              split <;> rfl
          | _ => rfl

end Steps

/-- In a longer queue the positions are within a lap, whatever the threads do. -/
theorem positions_of_reachable [DecidableEq Thread] [Inhabited Value] (positive : 0 < exponent)
    {state : State Thread Value}
    (reached : Reachable MpmcConcurrent.step unguarded (MpmcConcurrent.initial exponent) state)
    (noWrap : NoWrap exponent state.history) : Positions exponent state := by
  obtain ⟨tickets, phases, inv⟩ := MpmcConcurrent.reachable_inv positive reached noWrap
  exact ⟨inv.rpos, inv.wpos, inv.claimed_le, inv.pushes_le⟩

/-! ## A queue of one element -/

/-- The numbers of tickets that a thread goes by are those of writes. -/
def ThreadBehind (written : Nat) : Option (Pc Value) → Prop
  | some (.readLoadSeq rpos) => ∃ ticket, rpos = BitVec.ofNat 64 ticket ∧ ticket ≤ written
  | some (.readExchange pos) | some (.readValue pos) | some (.readCommit pos _)
  | some (.writeValue _ pos) | some (.writeCommit _ pos) =>
      ∃ ticket, pos = BitVec.ofNat 64 ticket ∧ ticket < written
  | _ => True

theorem ThreadBehind.mono {control : Option (Pc Value)} {later : Nat} (more : written ≤ later)
    (behind : ThreadBehind written control) : ThreadBehind later control := by
  rcases control with - | pc
  · trivial
  · cases pc with
    | writeLoadPos value => trivial
    | writeLoadSeq value wpos => trivial
    | writeExchange value wpos => trivial
    | readLoadPos => trivial
    | readLoadSeq rpos =>
        obtain ⟨ticket, same, bound⟩ := behind
        exact ⟨ticket, same, bound.trans more⟩
    | _ =>
        obtain ⟨ticket, same, bound⟩ := behind
        exact ⟨ticket, same, bound.trans_le more⟩

/-- What holds in a queue of one element, if no second one is put there. -/
structure Single (state : State Thread Value) : Prop where
  capacity : state.queue.capacity = 1
  positions : Positions 0 state
  seqs : ∀ index, ∃ number,
    (state.queue.impl.elems index).seq = BitVec.ofNat 64 number ∧
      number ≤ (pushes state.history).length
  threads : ∀ thread, ThreadBehind (pushes state.history).length (state.threads thread)

namespace Single

variable {state next : State Thread Value} {thread : Thread}

theorem initial [Inhabited Value] :
    Single (MpmcConcurrent.initial 0 : State Thread Value) where
  capacity := rfl
  positions := ⟨rfl, rfl, ⟨Nat.le_refl _, Nat.zero_le _⟩⟩
  seqs := by
    intro index
    refine ⟨0, ?_, Nat.le_refl _⟩
    simp only [MpmcConcurrent.initial, initialImpl]
    split
    · rename_i first
      rw [Nat.lt_one_iff.mp first]
    · rfl
  threads := fun _ => trivial

theorem seq_setElem (queue : MpmcQueue Value) (pos : Word) (elem : Elem Value) (index : Nat) :
    ((queue.setElem pos elem).impl.elems index).seq =
      if index = queue.slot pos then elem.seq else (queue.impl.elems index).seq := by
  rw [setElem]
  simp only [Function.update_apply]
  split <;> rfl

/-- The number that a commit stores is that of the next ticket. -/
theorem commit (state : State Thread Value) {pos : Word} {elem : Elem Value} {ticket : Nat}
    (is_ticket : pos = BitVec.ofNat 64 ticket) (taken : ticket < (pushes state.history).length)
    (stored : elem.seq = pos + 1) (index : Nat) :
    ((state.queue.setElem pos elem).impl.elems index).seq =
        (state.queue.impl.elems index).seq ∨
      ∃ number, ((state.queue.setElem pos elem).impl.elems index).seq = BitVec.ofNat 64 number ∧
        number ≤ (pushes state.history).length := by
  rw [seq_setElem]
  split
  · refine .inr ⟨ticket + 1, ?_, taken⟩
    rw [stored, is_ticket, BitVec.ofNat_add]
    rfl
  · exact .inl rfl

/-- A thread that has compared the number of an element reads behind a write. -/
theorem loaded_read (single : Single state) (noWrap : NoWrap 0 state.history) {rpos : Word}
    (at_pc : state.threads thread = some (.readLoadSeq rpos))
    (same : (state.queue.elem rpos).seq - (rpos + 1) = 0) :
    ThreadBehind (pushes state.history).length (some (.readExchange rpos : Pc Value)) := by
  have known := single.threads thread
  rw [at_pc] at known
  obtain ⟨ticket, is_ticket, bound⟩ := known
  obtain ⟨number, is_number, written⟩ := single.seqs (state.queue.slot rpos)
  have small := noWrap.small
  have equal : BitVec.ofNat 64 number = BitVec.ofNat 64 (ticket + 1) := by
    rw [← is_number, BitVec.ofNat_add, ← is_ticket]
    exact sub_eq_zero.mp same
  have next : number = ticket + 1 := by
    have values := congrArg BitVec.toNat equal
    rw [BitVec.toNat_ofNat, BitVec.toNat_ofNat] at values
    omega
  exact ⟨ticket, is_ticket, by omega⟩

variable [DecidableEq Thread]

/-- A thread moves on, and its element may get a number that a write had. -/
theorem change (single : Single state) {control : Option (Pc Value)}
    (capacity : next.queue.capacity = state.queue.capacity)
    (positions : Positions 0 next)
    (grown : (pushes state.history).length ≤ (pushes next.history).length)
    (seqs : ∀ index, (next.queue.impl.elems index).seq = (state.queue.impl.elems index).seq ∨
      ∃ number, (next.queue.impl.elems index).seq = BitVec.ofNat 64 number ∧
        number ≤ (pushes next.history).length)
    (threads : next.threads = Function.update state.threads thread control)
    (behind : ThreadBehind (pushes next.history).length control) : Single next where
  capacity := capacity.trans single.capacity
  positions := positions
  seqs := by
    intro index
    rcases seqs index with same | new
    · obtain ⟨number, is_number, bound⟩ := single.seqs index
      exact ⟨number, same.trans is_number, bound.trans grown⟩
    · exact new
  threads := by
    intro other
    rw [threads]
    by_cases same : other = thread
    · rwa [same, Function.update_self]
    · rw [Function.update_of_ne same]
      exact (single.threads other).mono grown

/-- A thread moves on and changes no position and no number. -/
theorem stay (single : Single state) {queue : MpmcQueue Value} {control : Option (Pc Value)}
    {history : List (MpmcConcurrent.Event Thread Value)}
    (capacity : queue.capacity = state.queue.capacity)
    (rpos : queue.impl.rpos = state.queue.impl.rpos)
    (wpos : queue.impl.wpos = state.queue.impl.wpos)
    (samePushes : pushes history = pushes state.history)
    (sameClaims : claims history = claims state.history)
    (seqs : ∀ index, (queue.impl.elems index).seq = (state.queue.impl.elems index).seq ∨
      ∃ number, (queue.impl.elems index).seq = BitVec.ofNat 64 number ∧
        number ≤ (pushes state.history).length)
    (behind : ThreadBehind (pushes state.history).length control) :
    Single { queue, threads := Function.update state.threads thread control, history } := by
  have positions := single.positions
  refine single.change capacity ⟨?_, ?_, ?_⟩ ?_ ?_ rfl ?_
  · rw [sameClaims, rpos, positions.rpos]
  · rw [samePushes, wpos, positions.wpos]
  · rw [samePushes, sameClaims]
    exact positions.lap
  · exact Nat.le_of_eq (congrArg List.length samePushes.symm)
  · rwa [samePushes]
  · rwa [samePushes]

/-- A read ticket is taken after its write ticket. -/
theorem readExchange (single : Single state) (noWrap : NoWrap 0 state.history) {rpos : Word}
    (at_pc : state.threads thread = some (.readExchange rpos))
    (current : state.queue.impl.rpos = rpos) :
    Single {
      queue := state.queue.setRpos (rpos + 1)
      threads := Function.update state.threads thread (some (.readValue rpos))
      history := state.history ++ [.claimed thread] } := by
  have known := single.threads thread
  rw [at_pc] at known
  obtain ⟨ticket, is_ticket, written⟩ := known
  have lap := single.positions.lap
  have small := noWrap.small
  have behind := lap.behind
  have near := lap.near
  have same : ticket = (claims state.history).length := by
    refine MpmcConcurrent.ofNat_injective (by omega) (by omega) ?_
    rw [← is_ticket, ← current, single.positions.rpos]
  have samePushes : pushes (state.history ++ [.claimed thread]) = pushes state.history := by
    simp [pushes]
  have grown : (claims (state.history ++ [.claimed thread])).length = ticket + 1 := by
    simp [claims, same]
  refine single.change rfl ⟨?_, ?_, ?_, ?_⟩ ?_ (fun _ => .inl rfl) rfl ?_
  · rw [grown, BitVec.ofNat_add, ← is_ticket]
    rfl
  · rw [samePushes]
    exact single.positions.wpos
  · rw [samePushes, grown]
    exact written
  · rw [samePushes, grown]
    omega
  · exact Nat.le_of_eq (congrArg List.length samePushes.symm)
  · rw [samePushes]
    exact ⟨ticket, is_ticket, written⟩

/-- A write ticket is taken where it is not the second one. -/
theorem writeExchange (single : Single state) {value : Value} {wpos : Word}
    (current : state.queue.impl.wpos = wpos)
    (room : ¬Ahead state.queue state.queue.impl.rpos) :
    Single {
      queue := state.queue.setWpos (wpos + 1)
      threads := Function.update state.threads thread (some (.writeValue value wpos))
      history := state.history ++ [.wrote thread value] } := by
  have positions := single.positions
  have sameClaims : claims (state.history ++ [.wrote thread value]) = claims state.history := by
    simp [claims]
  have grown : (pushes (state.history ++ [.wrote thread value])).length =
      (pushes state.history).length + 1 := by
    simp [pushes]
  rw [positions.rpos] at room
  have lap := positions.lap.next single.capacity positions.wpos room
  refine single.change rfl ⟨?_, ?_, ?_⟩ ?_ (fun _ => .inl rfl) rfl ?_
  · rw [sameClaims]
    exact positions.rpos
  · rw [grown, BitVec.ofNat_add, ← positions.wpos, current]
    rfl
  · rwa [sameClaims, grown]
  · rw [grown]
    exact Nat.le_succ _
  · rw [grown]
    exact ⟨_, current.symm.trans positions.wpos, Nat.lt_succ_self _⟩

/-- A thread moves on and leaves the queue alone. -/
theorem move (single : Single state) {control : Option (Pc Value)}
    (behind : ThreadBehind (pushes state.history).length control) :
    Single {
      queue := state.queue
      threads := Function.update state.threads thread control
      history := state.history ++ [] } := by
  rw [List.append_nil]
  exact single.stay rfl rfl rfl rfl rfl (fun _ => .inl rfl) behind

theorem step_thread (single : Single state) (noWrap : NoWrap 0 state.history) {pc : Pc Value}
    (at_pc : state.threads thread = some pc) (spurious : Bool)
    (room : ∀ value wpos, pc = .writeExchange value wpos → spurious = false →
      state.queue.impl.wpos = wpos → ¬Ahead state.queue state.queue.impl.rpos) :
    Single {
      queue := (stepPc state.queue spurious pc).1
      threads := Function.update state.threads thread
        (MpmcConcurrent.after (stepPc state.queue spurious pc).2)
      history := state.history ++ MpmcConcurrent.events state.queue spurious thread pc } := by
  have known := single.threads thread
  rw [at_pc] at known
  have positions := single.positions
  cases pc with
  | writeLoadPos value => exact single.move trivial
  | readLoadPos => exact single.move ⟨_, positions.rpos, positions.lap.behind⟩
  | writeLoadSeq value wpos =>
      simp only [stepPc, MpmcConcurrent.events]
      split
      · exact single.move trivial
      · split
        · exact single.move trivial
        · exact single.move trivial
  | readLoadSeq rpos =>
      simp only [stepPc, MpmcConcurrent.events]
      split
      · rename_i same
        exact single.move (single.loaded_read noWrap at_pc same)
      · split
        · exact single.move trivial
        · exact single.move trivial
  | writeExchange value wpos =>
      by_cases won : state.queue.impl.wpos = wpos ∧ spurious = false
      · simp only [stepPc, won, and_self, if_true, MpmcConcurrent.after, MpmcConcurrent.events]
        exact single.writeExchange won.1 (room value wpos rfl won.2 won.1)
      · simp only [stepPc, won, if_false, MpmcConcurrent.after, MpmcConcurrent.events]
        exact single.move trivial
  | readExchange rpos =>
      by_cases won : state.queue.impl.rpos = rpos ∧ spurious = false
      · simp only [stepPc, won, and_self, if_true, MpmcConcurrent.after, MpmcConcurrent.events]
        exact single.readExchange noWrap at_pc won.1
      · simp only [stepPc, won, if_false, MpmcConcurrent.after, MpmcConcurrent.events]
        exact single.move ⟨_, positions.rpos, positions.lap.behind⟩
  | writeValue value wpos =>
      refine single.stay rfl rfl rfl (by simp [MpmcConcurrent.events, pushes])
        (by simp [MpmcConcurrent.events, claims]) (fun index => .inl ?_) known
      simp only [stepPc, seq_setElem]
      split
      · rename_i here
        rw [here]
        rfl
      · rfl
  | writeCommit value wpos =>
      obtain ⟨ticket, is_ticket, taken⟩ := known
      exact single.stay rfl rfl rfl (by simp [MpmcConcurrent.events, pushes])
        (by simp [MpmcConcurrent.events, claims]) (commit state is_ticket taken rfl) trivial
  | readValue rpos =>
      exact single.move known
  | readCommit rpos value =>
      obtain ⟨ticket, is_ticket, taken⟩ := known
      refine single.stay rfl rfl rfl (by simp [MpmcConcurrent.events, pushes])
        (by simp [MpmcConcurrent.events, claims]) (commit state is_ticket taken ?_) trivial
      rw [single.capacity]

/-- Every step keeps what holds, if it puts no second element there. -/
theorem step (single : Single state) (noWrap : NoWrap 0 state.history)
    {Observer : Type*} {watched : Watched Thread Observer Value} (shared : watched.shared = state)
    {action : MpmcConcurrent.Action Thread Value}
    (room : takesTicket watched (.queue action) = true →
      ¬Ahead state.queue state.queue.impl.rpos)
    (taken : MpmcConcurrent.step state action = some next) : Single next := by
  cases action with
  | call thread op =>
      obtain ⟨-, rfl⟩ := MpmcConcurrent.call_of_step taken
      refine single.stay rfl rfl rfl rfl rfl (fun _ => .inl rfl) ?_
      cases op <;> trivial
  | step thread spurious =>
      obtain ⟨pc, at_pc, rfl⟩ := MpmcConcurrent.thread_of_step taken
      refine single.step_thread noWrap at_pc spurious fun value wpos exchange won current => ?_
      refine room ?_
      subst exchange won
      simp only [takesTicket, shared, at_pc, current, decide_true]

end Single

/-! ## Every run -/

variable [DecidableEq Thread]

/-- What holds of the queue, by the number of its elements. -/
def Sound [Inhabited Value] (exponent : Nat) (state : State Thread Value) : Prop :=
  if exponent = 0 then Single state
  else Reachable MpmcConcurrent.step unguarded (MpmcConcurrent.initial exponent) state

theorem Sound.positions [Inhabited Value] {state : State Thread Value}
    (sound : Sound exponent state) (noWrap : NoWrap exponent state.history) :
    Positions exponent state := by
  unfold Sound at sound
  split at sound
  · rename_i zero
    subst zero
    exact sound.positions
  · rename_i more
    exact positions_of_reachable (Nat.pos_of_ne_zero more) sound noWrap

/-- Each observer is within a lap, and has been. -/
structure Answered [Inhabited Value] (exponent : Nat) (watched : Watched Thread Observer Value) :
    Prop where
  sound : Sound exponent watched.shared
  capacity : watched.shared.queue.capacity = BitVec.ofNat 64 (2 ^ exponent)
  loaded : ∀ observer call, watched.loaded observer = some call → ∃ rpos,
    call.2 = BitVec.ofNat 64 rpos ∧
      WithinLap exponent (pushes watched.shared.history).length rpos
  answers : ∀ answer ∈ watched.answers, answer.2.toNat ≤ 2 ^ exponent ∧ exponent < 63

namespace Answered

variable [Inhabited Value] {watched next : Watched Thread Observer Value}

theorem initial : Answered exponent (initial exponent : Watched Thread Observer Value) where
  sound := by
    unfold Sound
    split
    · rename_i zero
      subst zero
      exact Single.initial
    · exact .refl
  capacity := rfl
  loaded := nofun
  answers := nofun

/-- A step of a thread leaves each observer within a lap, where it is unhurried. -/
theorem queue (answered : Answered exponent watched)
    {action : MpmcConcurrent.Action Thread Value}
    (unhurried : Unhurried exponent watched (.queue action)) {shared : State Thread Value}
    (taken : MpmcConcurrent.step watched.shared action = some shared) :
    Answered exponent { watched with shared } where
  sound := by
    have sound := answered.sound
    unfold Sound at sound ⊢
    split at sound
    · rename_i zero
      subst zero
      rw [if_pos rfl]
      exact sound.step unhurried.noWrap rfl (fun ticket => unhurried.single ticket rfl) taken
    · rename_i more
      rw [if_neg more]
      exact sound.extend trivial taken
  capacity := (capacity_step taken).trans answered.capacity
  loaded := by
    intro observer call given
    obtain ⟨rpos, same, lap⟩ := answered.loaded observer call given
    have positions := answered.sound.positions unhurried.noWrap
    refine ⟨rpos, same, ?_⟩
    rw [pushes_step taken]
    split
    · rename_i ticket
      have room := unhurried.observers ticket observer call given
      rw [same] at room
      exact lap.next answered.capacity positions.wpos room
    · exact lap
  answers := answered.answers

variable [DecidableEq Observer]

/-- The read position that is loaded is within a lap at that time. -/
theorem loadRpos (answered : Answered exponent watched)
    (noWrap : NoWrap exponent watched.shared.history) (observer : Observer) (query : Query) :
    Answered exponent { watched with
      loaded := Function.update watched.loaded observer
        (some (query, watched.shared.queue.impl.rpos)) } where
  sound := answered.sound
  capacity := answered.capacity
  loaded := by
    intro other call given
    dsimp only at given
    by_cases same : other = observer
    · rw [same, Function.update_self] at given
      obtain rfl := Option.some.inj given
      have positions := answered.sound.positions noWrap
      exact ⟨_, positions.rpos, positions.lap⟩
    · rw [Function.update_of_ne same] at given
      exact answered.loaded other call given
  answers := answered.answers

/-- An observer that is within a lap answers so. -/
theorem loadWpos (answered : Answered exponent watched)
    (noWrap : NoWrap exponent watched.shared.history) {observer : Observer}
    {call : Query × Word} (given : watched.loaded observer = some call) :
    Answered exponent { watched with
      loaded := Function.update watched.loaded observer none
      answers := watched.answers ++ [(call.1, call.1.answer watched.shared.queue.capacity
        call.2 watched.shared.queue.impl.wpos)] } where
  sound := answered.sound
  capacity := answered.capacity
  loaded := by
    intro other call given
    dsimp only at given
    by_cases same : other = observer
    · rw [same, Function.update_self] at given
      cases given
    · rw [Function.update_of_ne same] at given
      exact answered.loaded other call given
  answers := by
    intro answer member
    rcases List.mem_append.mp member with old | new
    · exact answered.answers answer old
    · obtain rfl := List.mem_singleton.mp new
      obtain ⟨rpos, same, lap⟩ := answered.loaded observer call given
      have positions := answered.sound.positions noWrap
      refine ⟨?_, noWrap.narrow⟩
      rw [answered.capacity, same, positions.wpos]
      exact answer_le lap noWrap.narrow call.1

theorem step (answered : Answered exponent watched) {action : Action Thread Observer Value}
    (unhurried : Unhurried exponent watched action)
    (taken : MpmcObserver.step watched action = some next) : Answered exponent next := by
  cases action with
  | queue action =>
      obtain ⟨shared, moved, rfl⟩ := Option.map_eq_some_iff.mp taken
      exact answered.queue unhurried moved
  | loadRpos observer query =>
      simp only [MpmcObserver.step] at taken
      split at taken
      · obtain rfl := Option.some.inj taken
        exact answered.loadRpos unhurried.noWrap observer query
      · cases taken
  | loadWpos observer =>
      obtain ⟨call, given, rfl⟩ := Option.map_eq_some_iff.mp taken
      exact answered.loadWpos unhurried.noWrap given

end Answered

/--
In every interleaving whose steps are unhurried, every answer that an observer gets to
`size` or to `available` is at most the capacity.
-/
theorem reachable_answers_le_capacity [Inhabited Value] [DecidableEq Observer]
    {watched : Watched Thread Observer Value}
    (reached : Reachable step (Unhurried exponent) (initial exponent) watched) :
    ∀ answer ∈ watched.answers, answer.2.toNat ≤ watched.shared.queue.capacity.toNat := by
  have answered : Answered exponent watched :=
    reached.invariant .initial fun _ _ _ holds unhurried taken => holds.step unhurried taken
  intro answer member
  obtain ⟨bound, narrow⟩ := answered.answers answer member
  have power : 2 ^ exponent < 2 ^ 63 := Nat.pow_lt_pow_right (by omega) narrow
  rw [answered.capacity, BitVec.toNat_ofNat, Nat.mod_eq_of_lt (by omega)]
  exact bound

/-! ## A step that is hurried -/

/-- An observer that has not answered yet, more than a lap behind. -/
structure Overtaken (exponent : Nat) (observer : Observer)
    (watched : Watched Thread Observer Value) : Prop where
  capacity : watched.shared.queue.capacity = BitVec.ofNat 64 (2 ^ exponent)
  lost : ∃ call rpos, watched.loaded observer = some call ∧ call.2 = BitVec.ofNat 64 rpos ∧
    rpos + 2 ^ exponent < (pushes watched.shared.history).length

/-- So far behind, neither answer is within the capacity. -/
theorem capacity_lt_answer (small : written < 2 ^ 63) (ahead : rpos + 2 ^ exponent < written)
    (query : Query) :
    2 ^ exponent < (query.answer (BitVec.ofNat 64 (2 ^ exponent)) (BitVec.ofNat 64 rpos)
      (BitVec.ofNat 64 written)).toNat := by
  have power : 0 < 2 ^ exponent := Nat.two_pow_pos exponent
  have difference : (size (BitVec.ofNat 64 rpos) (BitVec.ofNat 64 written)).toNat =
      written - rpos := by
    rw [size, BitVec.toNat_sub, BitVec.toNat_ofNat, BitVec.toNat_ofNat]
    omega
  cases query with
  | askSize =>
      rw [Query.answer, difference]
      omega
  | askAvailable =>
      rw [Query.answer, available, BitVec.toNat_sub, difference, BitVec.toNat_ofNat]
      omega

section Hurried

variable [DecidableEq Observer] {watched next : Watched Thread Observer Value}
    {observer : Observer} {action : Action Thread Observer Value}

theorem shared_reachable [Inhabited Value]
    {guard : Watched Thread Observer Value → Action Thread Observer Value → Prop}
    (reached : Reachable step guard (initial exponent) watched) :
    Reachable MpmcConcurrent.step unguarded (MpmcConcurrent.initial exponent) watched.shared := by
  have preserved : ∀ before action after,
      Reachable MpmcConcurrent.step unguarded (MpmcConcurrent.initial exponent)
        (before : Watched Thread Observer Value).shared →
          guard before action → step before action = some after →
            Reachable MpmcConcurrent.step unguarded (MpmcConcurrent.initial exponent)
              after.shared := by
    intro before action after holds _ taken
    cases action with
    | queue action =>
        obtain ⟨shared, moved, rfl⟩ := Option.map_eq_some_iff.mp taken
        exact holds.extend trivial moved
    | loadRpos observer query =>
        simp only [step] at taken
        split at taken
        · obtain rfl := Option.some.inj taken
          exact holds
        · cases taken
    | loadWpos observer =>
        obtain ⟨call, given, rfl⟩ := Option.map_eq_some_iff.mp taken
        exact holds
  exact Reachable.invariant .refl preserved reached

/-- Nothing but its answer brings an observer back. -/
theorem Overtaken.step (overtaken : Overtaken exponent observer watched)
    (waits : action ≠ .loadWpos observer)
    (taken : MpmcObserver.step watched action = some next) :
    Overtaken exponent observer next := by
  obtain ⟨call, rpos, given, same, ahead⟩ := overtaken.lost
  cases action with
  | queue action =>
      obtain ⟨shared, moved, rfl⟩ := Option.map_eq_some_iff.mp taken
      refine ⟨(capacity_step moved).trans overtaken.capacity, call, rpos, given, same, ?_⟩
      exact Nat.lt_of_lt_of_le ahead (MpmcConcurrent.tickets_mono moved).1
  | loadRpos other query =>
      simp only [MpmcObserver.step] at taken
      split at taken
      · rename_i idle
        obtain rfl := Option.some.inj taken
        have apart : observer ≠ other := by
          rintro rfl
          rw [idle] at given
          cases given
        exact ⟨overtaken.capacity, call, rpos,
          (Function.update_of_ne apart _ _).trans given, same, ahead⟩
      · cases taken
  | loadWpos other =>
      obtain ⟨_, _, rfl⟩ := Option.map_eq_some_iff.mp taken
      have apart : observer ≠ other := by
        rintro rfl
        exact waits rfl
      exact ⟨overtaken.capacity, call, rpos,
        (Function.update_of_ne apart _ _).trans given, same, ahead⟩

/-- A ticket that is taken while an observer is a lap behind overtakes it. -/
theorem overtaken_of_hurried [Inhabited Value] (answered : Answered exponent watched)
    (noWrap : NoWrap exponent watched.shared.history)
    (ticket : takesTicket watched action = true) {call : Query × Word}
    (given : watched.loaded observer = some call) (lapped : Ahead watched.shared.queue call.2)
    (taken : step watched action = some next) : Overtaken exponent observer next := by
  obtain ⟨rpos, same, lap⟩ := answered.loaded observer call given
  have positions := answered.sound.positions noWrap
  cases action with
  | queue action =>
      obtain ⟨shared, moved, rfl⟩ := Option.map_eq_some_iff.mp taken
      refine ⟨(capacity_step moved).trans answered.capacity, call, rpos, given, same, ?_⟩
      have power : 2 ^ exponent < 2 ^ 63 := Nat.pow_lt_pow_right (by omega) noWrap.narrow
      have small := noWrap.small
      have behind := lap.behind
      rw [Ahead, same, positions.wpos, answered.capacity, sub_ofNat lap] at lapped
      have whole : (pushes watched.shared.history).length - rpos = 2 ^ exponent :=
        MpmcConcurrent.ofNat_injective (by omega) power lapped
      have grown := pushes_step moved
      rw [if_pos ticket] at grown
      dsimp only
      omega
  | loadRpos other query => cases ticket
  | loadWpos other => cases ticket

/--
Whatever happens until it is answered, an observer that has been overtaken is answered
with more than the capacity.
-/
theorem answer_of_overtaken [Inhabited Value] (positive : 0 < exponent)
    {later last : Watched Thread Observer Value}
    {guard : Watched Thread Observer Value → Action Thread Observer Value → Prop}
    (before : Reachable step guard (initial exponent) later)
    (overtaken : Overtaken exponent observer watched)
    (after : Reachable step (fun _ action => action ≠ .loadWpos observer) watched later)
    (noWrap : NoWrap exponent later.shared.history)
    (answers : step later (.loadWpos observer) = some last) :
    ∃ answer ∈ last.answers, 2 ^ exponent < answer.2.toNat := by
  have still : Overtaken exponent observer later :=
    Reachable.invariant overtaken (fun _ _ _ holds waits taken => holds.step waits taken) after
  obtain ⟨call, rpos, given, same, ahead⟩ := still.lost
  have positions := positions_of_reachable positive (shared_reachable before) noWrap
  rw [step, given, Option.map_some, Option.some.injEq] at answers
  refine ⟨_, by rw [← answers]; exact List.mem_append_right _ (List.mem_singleton_self _), ?_⟩
  dsimp only
  rw [still.capacity, same, positions.wpos]
  exact capacity_lt_answer noWrap.small ahead call.1

end Hurried

/-- A push and a pop of a thread on its own. -/
def push : List (Action Unit Bool Nat) :=
  .queue (.call () (.push 7)) :: List.replicate 5 (.queue (.step () false))

def pop : List (Action Unit Bool Nat) :=
  .queue (.call () .pop) :: List.replicate 5 (.queue (.step () false))

/-- In a queue of two elements, one is pushed before the observers ask and one after. -/
def pushedBetween : List (Action Unit Bool Nat) :=
  push ++ [.loadRpos true .askSize, .loadRpos false .askAvailable] ++ push ++
    [.loadWpos true, .loadWpos false]

theorem reachable_answers_pushedBetween :
    ∃ watched : Watched Unit Bool Nat,
      watched.answers = [(.askSize, 2), (.askAvailable, 0)] ∧
        ∀ answer ∈ watched.answers,
          answer.2.toNat ≤ watched.shared.queue.capacity.toNat := by
  have computed : (execute step (Unhurried 1) (initial 1) pushedBetween).map
      (fun watched => watched.answers) = some [(.askSize, 2), (.askAvailable, 0)] := by
    decide +kernel
  rcases Reachable.of_execute computed with ⟨watched, reached, answered⟩
  exact ⟨watched, answered, reachable_answers_le_capacity reached⟩

/-- Two elements go through the queue and two more into it while the observers ask. -/
def lappedBetween : List (Action Unit Bool Nat) :=
  [.loadRpos true .askSize, .loadRpos false .askAvailable] ++ push ++ push ++ pop ++ pop ++
    push ++ push ++ [.loadWpos true, .loadWpos false]

theorem answer_beyond_capacity_lappedBetween :
    ∃ watched : Watched Unit Bool Nat,
      Reachable step unguarded (initial 1) watched ∧ watched.shared.queue.capacity = 2 ∧
        (.askSize, 4) ∈ watched.answers ∧ (.askAvailable, 2 ^ 64 - 2) ∈ watched.answers ∧
          ¬∀ answer ∈ watched.answers,
            answer.2.toNat ≤ watched.shared.queue.capacity.toNat := by
  have computed : (execute step unguarded (initial 1) lappedBetween).map
      (fun watched => (watched.shared.queue.capacity, watched.answers)) =
        some (2, [(.askSize, 4), (.askAvailable, 2 ^ 64 - 2)]) := by
    decide +kernel
  rcases Reachable.of_execute computed with ⟨watched, reached, observed⟩
  obtain ⟨capacity, answers⟩ := Prod.mk.inj observed
  have held : (.askSize, 4) ∈ watched.answers := by
    rw [answers]
    exact List.mem_cons_self
  have room : (.askAvailable, 2 ^ 64 - 2) ∈ watched.answers := by
    rw [answers]
    exact List.mem_cons_of_mem _ (List.mem_singleton_self _)
  refine ⟨watched, reached, capacity, held, room, fun bounded => ?_⟩
  have four := bounded _ held
  rw [capacity] at four
  exact absurd four (by decide)

end ReactiveToolbox.Ipc.MpmcObserver
