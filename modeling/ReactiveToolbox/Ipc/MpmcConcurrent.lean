import ReactiveToolbox.Ipc.MpmcSequential
import ReactiveToolbox.Lib.Transition

/-!
# Any number of threads on the queue

Every thread runs the program of `push` or `pop`, one atomic step at a time, in
any order.  The history records which thread took each write and read ticket
and what each pop returned.  The invariant gives every element a current
ticket and a phase: free for it, being written by one thread, full, or being
read by one thread.
-/

namespace ReactiveToolbox.Ipc.MpmcConcurrent

open ReactiveToolbox.Lib
open ReactiveToolbox.Ipc.MpmcQueue

universe u v

variable {Thread : Type u} {Value : Type v}

/-! ## The interleaving machine -/

/-- What happened: a write ticket taken, a read ticket taken, a pop returned. -/
inductive Event (Thread : Type u) (Value : Type v) where
  | wrote (thread : Thread) (value : Value)
  | claimed (thread : Thread)
  | popped (thread : Thread) (ticket : Nat) (value : Value)

/-- The shared queue, each thread's program counter, and what happened. -/
structure State (Thread : Type u) (Value : Type v) where
  queue : MpmcQueue Value
  threads : Thread → Option (Pc Value)
  history : List (Event Thread Value)

/-- A thread starts a call, or takes one step of the call it is in. -/
inductive Action (Thread : Type u) (Value : Type v) where
  | call (thread : Thread) (op : QueueOp Value)
  | step (thread : Thread) (spurious : Bool)

/-- What a step adds to the history. -/
def events (queue : MpmcQueue Value) (spurious : Bool) (thread : Thread) :
    Pc Value → List (Event Thread Value)
  | .writeExchange value wpos =>
      if queue.impl.wpos = wpos ∧ spurious = false then [.wrote thread value] else []
  | .readExchange rpos =>
      if queue.impl.rpos = rpos ∧ spurious = false then [.claimed thread] else []
  | .readCommit rpos value => [.popped thread rpos.toNat value]
  | _ => []

/-- The program counter a control leaves: none once the call has returned. -/
def after : Control Value → Option (Pc Value)
  | .inl pc => some pc
  | .inr _ => none

/-- One step of the machine: a call of an idle thread, or a step of a busy one. -/
def step [DecidableEq Thread] (state : State Thread Value) :
    Action Thread Value → Option (State Thread Value)
  | .call thread op =>
      match state.threads thread with
      | none => some {
          state with threads := Function.update state.threads thread (some (begin op)) }
      | some _ => none
  | .step thread spurious =>
      match state.threads thread with
      | none => none
      | some pc => some {
          queue := (stepPc state.queue spurious pc).1
          threads := Function.update state.threads thread
            (after (stepPc state.queue spurious pc).2)
          history := state.history ++ events state.queue spurious thread pc }

/-- A fresh ring of `2 ^ exponent` elements and idle threads. -/
def initial [Inhabited Value] (exponent : Nat) : State Thread Value where
  queue := {
    capacity := BitVec.ofNat 64 (2 ^ exponent)
    mask := BitVec.ofNat 64 (2 ^ exponent) - 1
    impl := initialImpl (2 ^ exponent) }
  threads := fun _ => none
  history := []

/-! ## Reading the history -/

/-- The values of the write tickets, in the order they were taken. -/
def pushes (history : List (Event Thread Value)) : List Value :=
  history.filterMap fun
    | .wrote _ value => some value
    | _ => none

/-- The threads of the read tickets, in the order they were taken. -/
def claims (history : List (Event Thread Value)) : List Thread :=
  history.filterMap fun
    | .claimed thread => some thread
    | _ => none

/-- The read tickets whose pop has returned. -/
def returned (history : List (Event Thread Value)) : List Nat :=
  history.filterMap fun
    | .popped _ ticket _ => some ticket
    | _ => none

/-- The element a thread is in, between its exchange and its commit. -/
def inside (queue : MpmcQueue Value) : Option (Pc Value) → Option Nat
  | some (.writeValue _ wpos) | some (.writeCommit _ wpos) => some (queue.slot wpos)
  | some (.readValue rpos) | some (.readCommit rpos _) => some (queue.slot rpos)
  | _ => none

/-! ## Tickets and phases -/

/-- What is going on at an element. -/
inductive Phase (Thread : Type u) where
  | free
  | writing (thread : Thread)
  | full
  | reading (thread : Thread)

/-- What the sequence number, the threads and the history say of an element. -/
def PhaseOk
    (threads : Thread → Option (Pc Value)) (history : List (Event Thread Value))
    (elem : Elem Value) (ticket : Nat) :
    Phase Thread → Prop
  | .free =>
      elem.seq = BitVec.ofNat 64 ticket ∧ (pushes history).length ≤ ticket
  | .writing thread =>
      elem.seq = BitVec.ofNat 64 ticket ∧ (claims history).length ≤ ticket ∧
        ∃ value, (pushes history)[ticket]? = some value ∧
          (threads thread = some (.writeValue value (BitVec.ofNat 64 ticket)) ∨
            threads thread = some (.writeCommit value (BitVec.ofNat 64 ticket)) ∧
              elem.val = value)
  | .full =>
      elem.seq = BitVec.ofNat 64 (ticket + 1) ∧ (claims history).length ≤ ticket ∧
        (pushes history)[ticket]? = some elem.val
  | .reading thread =>
      elem.seq = BitVec.ofNat 64 (ticket + 1) ∧
        (pushes history)[ticket]? = some elem.val ∧
        (claims history)[ticket]? = some thread ∧ ticket ∉ returned history ∧
        (threads thread = some (.readValue (BitVec.ofNat 64 ticket)) ∨
          threads thread = some (.readCommit (BitVec.ofNat 64 ticket) elem.val))

/--
An element's ticket falls on it, the ticket of the previous lap has been taken
by a reader, and that of the next lap has not been taken.
-/
structure SlotOk
    (threads : Thread → Option (Pc Value)) (history : List (Event Thread Value))
    (capacity : Nat) (elem : Elem Value) (slot ticket : Nat) (phase : Phase Thread) :
    Prop where
  falls : ticket % capacity = slot
  previousLap : ticket < (claims history).length + capacity
  nextLap : (pushes history).length ≤ ticket + capacity
  phase : PhaseOk threads history elem ticket phase

/-- What a thread in the loop knows of the tickets and phases. -/
def ThreadOk
    (history : List (Event Thread Value)) (capacity : Nat)
    (tickets : Nat → Nat) (phases : Nat → Phase Thread) (thread : Thread) :
    Option (Pc Value) → Prop
  | some (.writeLoadSeq _ wpos) =>
      ∃ ticket, wpos = BitVec.ofNat 64 ticket ∧ ticket ≤ (pushes history).length
  | some (.writeExchange _ wpos) =>
      ∃ ticket, wpos = BitVec.ofNat 64 ticket ∧ ticket ≤ (pushes history).length ∧
        (ticket = (pushes history).length →
          tickets (ticket % capacity) = ticket ∧ phases (ticket % capacity) = .free)
  | some (.writeValue _ wpos) | some (.writeCommit _ wpos) =>
      ∃ ticket, wpos = BitVec.ofNat 64 ticket ∧ ticket < (pushes history).length ∧
        tickets (ticket % capacity) = ticket ∧
        phases (ticket % capacity) = .writing thread
  | some (.readLoadSeq rpos) =>
      ∃ ticket, rpos = BitVec.ofNat 64 ticket ∧ ticket ≤ (claims history).length
  | some (.readExchange rpos) =>
      ∃ ticket, rpos = BitVec.ofNat 64 ticket ∧ ticket ≤ (claims history).length ∧
        (ticket = (claims history).length →
          tickets (ticket % capacity) = ticket ∧ phases (ticket % capacity) = .full)
  | some (.readValue rpos) | some (.readCommit rpos _) =>
      ∃ ticket, rpos = BitVec.ofNat 64 ticket ∧ ticket < (claims history).length ∧
        tickets (ticket % capacity) = ticket ∧
        phases (ticket % capacity) = .reading thread
  | _ => True

/-- The invariant of the machine, at given tickets and phases. -/
structure InvAt
    (exponent : Nat) (state : State Thread Value)
    (tickets : Nat → Nat) (phases : Nat → Phase Thread) : Prop where
  capacity : state.queue.capacity = BitVec.ofNat 64 (2 ^ exponent)
  mask : state.queue.mask = BitVec.ofNat 64 (2 ^ exponent) - 1
  rpos : state.queue.impl.rpos = BitVec.ofNat 64 (claims state.history).length
  wpos : state.queue.impl.wpos = BitVec.ofNat 64 (pushes state.history).length
  claimed_le : (claims state.history).length ≤ (pushes state.history).length
  slots : ∀ slot < 2 ^ exponent,
    SlotOk state.threads state.history (2 ^ exponent)
      (state.queue.impl.elems slot) slot (tickets slot) (phases slot)
  threads : ∀ thread,
    ThreadOk state.history (2 ^ exponent) tickets phases thread (state.threads thread)
  popped : ∀ thread ticket value, .popped thread ticket value ∈ state.history →
    (claims state.history)[ticket]? = some thread ∧
      (pushes state.history)[ticket]? = some value
  distinct : (returned state.history).Nodup

/-! ## What a longer history and a moved thread leave alone -/

@[simp]
theorem pushes_append (first second : List (Event Thread Value)) :
    pushes (first ++ second) = pushes first ++ pushes second :=
  List.filterMap_append

@[simp]
theorem claims_append (first second : List (Event Thread Value)) :
    claims (first ++ second) = claims first ++ claims second :=
  List.filterMap_append

@[simp]
theorem returned_append (first second : List (Event Thread Value)) :
    returned (first ++ second) = returned first ++ returned second :=
  List.filterMap_append

theorem ofNat_injective
    {left right : Nat} (leftSmall : left < 2 ^ 63) (rightSmall : right < 2 ^ 63)
    (equal : BitVec.ofNat 64 left = BitVec.ofNat 64 right) : left = right := by
  have values := congrArg BitVec.toNat equal
  rw [BitVec.toNat_ofNat, BitVec.toNat_ofNat, Nat.mod_eq_of_lt (by omega),
    Nat.mod_eq_of_lt (by omega)] at values
  exact values

theorem getElem?_append_of_some
    {Item : Type v} {items more : List Item} {index : Nat} {item : Item}
    (found : items[index]? = some item) :
    (items ++ more)[index]? = some item := by
  rw [List.getElem?_append_left (List.getElem?_eq_some_iff.1 found).1, found]

section Frames

variable
    {threads threads' : Thread → Option (Pc Value)}
    {history : List (Event Thread Value)}
    {capacity ticket : Nat} {elem : Elem Value} {phase : Phase Thread}

/-- An element's phase depends only on the thread that is in it. -/
theorem PhaseOk.of_threads
    (ok : PhaseOk threads history elem ticket phase)
    (same : ∀ thread, phase = .writing thread ∨ phase = .reading thread →
      threads' thread = threads thread) :
    PhaseOk threads' history elem ticket phase := by
  cases phase with
  | free => exact ok
  | full => exact ok
  | writing thread =>
      simpa only [PhaseOk, same thread (Or.inl rfl)] using ok
  | reading thread =>
      simpa only [PhaseOk, same thread (Or.inr rfl)] using ok

/-- Taking another write ticket leaves the elements of other tickets alone. -/
theorem PhaseOk.wrote
    (ok : PhaseOk threads history elem ticket phase)
    (other : ticket ≠ (pushes history).length) (thread : Thread) (value : Value) :
    PhaseOk threads (history ++ [.wrote thread value]) elem ticket phase := by
  have grown : (pushes (history ++ [.wrote thread value] : List (Event Thread Value))).length =
      (pushes history).length + 1 := by
    simp [pushes]
  cases phase with
  | free =>
      rcases ok with ⟨seq, lower⟩
      exact ⟨seq, by rw [grown]; omega⟩
  | writing holder =>
      rcases ok with ⟨seq, lower, value', pushed, holding⟩
      exact ⟨seq, by simpa [claims] using lower, value',
        by rw [pushes_append]; exact getElem?_append_of_some pushed, holding⟩
  | full =>
      rcases ok with ⟨seq, lower, pushed⟩
      exact ⟨seq, by simpa [claims] using lower,
        by rw [pushes_append]; exact getElem?_append_of_some pushed⟩
  | reading holder =>
      rcases ok with ⟨seq, pushed, claimed, fresh, holding⟩
      exact ⟨seq, by rw [pushes_append]; exact getElem?_append_of_some pushed,
        by simpa [claims] using claimed, by simpa [returned] using fresh, holding⟩

/-- Taking another read ticket leaves the elements of other tickets alone. -/
theorem PhaseOk.claimed
    (ok : PhaseOk threads history elem ticket phase)
    (other : ticket ≠ (claims history).length) (thread : Thread) :
    PhaseOk threads (history ++ [.claimed thread]) elem ticket phase := by
  have grown : (claims (history ++ [.claimed thread] : List (Event Thread Value))).length =
      (claims history).length + 1 := by
    simp [claims]
  cases phase with
  | free =>
      rcases ok with ⟨seq, lower⟩
      exact ⟨seq, by simpa [pushes] using lower⟩
  | writing holder =>
      rcases ok with ⟨seq, lower, value, pushed, holding⟩
      exact ⟨seq, by rw [grown]; omega, value, by simpa [pushes] using pushed, holding⟩
  | full =>
      rcases ok with ⟨seq, lower, pushed⟩
      exact ⟨seq, by rw [grown]; omega, by simpa [pushes] using pushed⟩
  | reading holder =>
      rcases ok with ⟨seq, pushed, claimed, fresh, holding⟩
      exact ⟨seq, by simpa [pushes] using pushed,
        by rw [claims_append]; exact getElem?_append_of_some claimed,
        by simpa [returned] using fresh, holding⟩

/-- A returning pop leaves the elements of other tickets alone. -/
theorem PhaseOk.popped
    (ok : PhaseOk threads history elem ticket phase)
    {done : Nat} (other : ∀ thread, phase = .reading thread → ticket ≠ done)
    (thread : Thread) (value : Value) :
    PhaseOk threads (history ++ [.popped thread done value]) elem ticket phase := by
  cases phase with
  | free => simpa [PhaseOk, pushes, claims] using ok
  | writing holder => simpa [PhaseOk, pushes, claims] using ok
  | full => simpa [PhaseOk, pushes, claims] using ok
  | reading holder =>
      rcases ok with ⟨seq, pushed, claimed, fresh, holding⟩
      refine ⟨seq, by simpa [pushes] using pushed, by simpa [claims] using claimed, ?_, holding⟩
      simpa [returned] using ⟨by simpa [returned] using fresh, other holder rfl⟩

/-- What a thread knows survives wherever its own elements are left alone. -/
theorem ThreadOk.frame
    {history' : List (Event Thread Value)}
    {tickets tickets' : Nat → Nat} {phases phases' : Nat → Phase Thread}
    {thread : Thread} {control : Option (Pc Value)}
    (ok : ThreadOk history capacity tickets phases thread control)
    (pushed : (pushes history).length ≤ (pushes history').length)
    (claimed : (claims history).length ≤ (claims history').length)
    (keep : ∀ slot,
      phases slot = .writing thread ∨ phases slot = .reading thread ∨
        ((pushes history').length = (pushes history).length ∧ phases slot = .free) ∨
        ((claims history').length = (claims history).length ∧ phases slot = .full) →
      tickets' slot = tickets slot ∧ phases' slot = phases slot) :
    ThreadOk history' capacity tickets' phases' thread control := by
  have held : ∀ ticket (phase : Phase Thread),
      phase = .writing thread ∨ phase = .reading thread →
        tickets (ticket % capacity) = ticket → phases (ticket % capacity) = phase →
          tickets' (ticket % capacity) = ticket ∧ phases' (ticket % capacity) = phase := by
    intro ticket phase own ticketEq phaseEq
    have kept := keep (ticket % capacity)
      (by rw [phaseEq]; exact own.elim Or.inl (fun reading => Or.inr (Or.inl reading)))
    exact ⟨kept.1.trans ticketEq, kept.2.trans phaseEq⟩
  rcases control with _ | pc
  · trivial
  cases pc with
  | writeLoadPos value => trivial
  | readLoadPos => trivial
  | writeLoadSeq value wpos =>
      rcases ok with ⟨ticket, word, bound⟩
      exact ⟨ticket, word, bound.trans pushed⟩
  | readLoadSeq rpos =>
      rcases ok with ⟨ticket, word, bound⟩
      exact ⟨ticket, word, bound.trans claimed⟩
  | writeExchange value wpos =>
      rcases ok with ⟨ticket, word, bound, current⟩
      refine ⟨ticket, word, bound.trans pushed, fun newest => ?_⟩
      have unchanged : (pushes history').length = (pushes history).length := by omega
      rcases current (by omega) with ⟨ticketEq, phaseEq⟩
      have kept := keep (ticket % capacity)
        (Or.inr (Or.inr (Or.inl ⟨unchanged, phaseEq⟩)))
      exact ⟨kept.1.trans ticketEq, kept.2.trans phaseEq⟩
  | readExchange rpos =>
      rcases ok with ⟨ticket, word, bound, current⟩
      refine ⟨ticket, word, bound.trans claimed, fun newest => ?_⟩
      have unchanged : (claims history').length = (claims history).length := by omega
      rcases current (by omega) with ⟨ticketEq, phaseEq⟩
      have kept := keep (ticket % capacity)
        (Or.inr (Or.inr (Or.inr ⟨unchanged, phaseEq⟩)))
      exact ⟨kept.1.trans ticketEq, kept.2.trans phaseEq⟩
  | writeValue value wpos =>
      rcases ok with ⟨ticket, word, bound, ticketEq, phaseEq⟩
      exact ⟨ticket, word, bound.trans_le pushed, held ticket _ (Or.inl rfl) ticketEq phaseEq⟩
  | writeCommit value wpos =>
      rcases ok with ⟨ticket, word, bound, ticketEq, phaseEq⟩
      exact ⟨ticket, word, bound.trans_le pushed, held ticket _ (Or.inl rfl) ticketEq phaseEq⟩
  | readValue rpos =>
      rcases ok with ⟨ticket, word, bound, ticketEq, phaseEq⟩
      exact ⟨ticket, word, bound.trans_le claimed, held ticket _ (Or.inr rfl) ticketEq phaseEq⟩
  | readCommit rpos value =>
      rcases ok with ⟨ticket, word, bound, ticketEq, phaseEq⟩
      exact ⟨ticket, word, bound.trans_le claimed, held ticket _ (Or.inr rfl) ticketEq phaseEq⟩

end Frames

/-! ## Reading an element's sequence number -/

section Sequence

variable
    {threads : Thread → Option (Pc Value)} {history : List (Event Thread Value)}
    {capacity slot ticket : Nat} {elem : Elem Value} {phase : Phase Thread}

/-- Neighbouring tickets fall on different elements. -/
theorem succ_mod_ne {capacity ticket : Nat} (two_le : 2 ≤ capacity) :
    (ticket + 1) % capacity ≠ ticket % capacity := by
  intro same
  have equal : 1 = 0 := ticket_eq_of_mod_eq two_le (by omega) same
  omega

/-- An element whose sequence number is the newest write ticket is free for it. -/
theorem SlotOk.free_of_seq
    (ok : SlotOk threads history capacity elem
      ((pushes history).length % capacity) ticket phase)
    (two_le : 2 ≤ capacity)
    (pushesSmall : (pushes history).length < 2 ^ 63)
    (lapSmall : (claims history).length + capacity < 2 ^ 63)
    (seq : elem.seq = BitVec.ofNat 64 (pushes history).length) :
    ticket = (pushes history).length ∧ phase = .free := by
  have bound := ok.previousLap
  cases phase with
  | free =>
      exact ⟨ofNat_injective (by omega) (by omega) (ok.phase.1.symm.trans seq), rfl⟩
  | writing thread =>
      have equal : ticket = (pushes history).length :=
        ofNat_injective (by omega) (by omega) (ok.phase.1.symm.trans seq)
      rcases ok.phase with ⟨-, -, value, found, -⟩
      have := (List.getElem?_eq_some_iff.1 found).1
      omega
  | full =>
      have equal : ticket + 1 = (pushes history).length :=
        ofNat_injective (by omega) (by omega) (ok.phase.1.symm.trans seq)
      exact absurd (equal ▸ ok.falls).symm (succ_mod_ne two_le)
  | reading thread =>
      have equal : ticket + 1 = (pushes history).length :=
        ofNat_injective (by omega) (by omega) (ok.phase.1.symm.trans seq)
      exact absurd (equal ▸ ok.falls).symm (succ_mod_ne two_le)

/-- An element one past the newest read ticket is full for it. -/
theorem SlotOk.full_of_seq
    (ok : SlotOk threads history capacity elem
      ((claims history).length % capacity) ticket phase)
    (two_le : 2 ≤ capacity)
    (lapSmall : (claims history).length + capacity < 2 ^ 63)
    (seq : elem.seq = BitVec.ofNat 64 ((claims history).length + 1)) :
    ticket = (claims history).length ∧ phase = .full := by
  have bound := ok.previousLap
  cases phase with
  | free =>
      have equal : ticket = (claims history).length + 1 :=
        ofNat_injective (by omega) (by omega) (ok.phase.1.symm.trans seq)
      exact absurd (equal ▸ ok.falls) (succ_mod_ne two_le)
  | writing thread =>
      have equal : ticket = (claims history).length + 1 :=
        ofNat_injective (by omega) (by omega) (ok.phase.1.symm.trans seq)
      exact absurd (equal ▸ ok.falls) (succ_mod_ne two_le)
  | full =>
      have equal : ticket + 1 = (claims history).length + 1 :=
        ofNat_injective (by omega) (by omega) (ok.phase.1.symm.trans seq)
      exact ⟨by omega, rfl⟩
  | reading thread =>
      have equal : ticket + 1 = (claims history).length + 1 :=
        ofNat_injective (by omega) (by omega) (ok.phase.1.symm.trans seq)
      have := (List.getElem?_eq_some_iff.1 ok.phase.2.2.1).1
      omega

end Sequence

/-! ## Every step keeps the invariant -/

section Steps

variable
    {exponent : Nat} {state : State Thread Value}
    {tickets : Nat → Nat} {phases : Nat → Phase Thread}

/-- The write position and the next lap's sequence numbers stay below the sign bit. -/
structure NoWrap (exponent : Nat) (history : List (Event Thread Value)) : Prop where
  small : (pushes history).length < 2 ^ 63
  lap : (claims history).length + 2 ^ exponent < 2 ^ 63

theorem NoWrap.narrow {history : List (Event Thread Value)}
    (noWrap : NoWrap exponent history) : exponent < 63 := by
  have power : 2 ^ exponent < 2 ^ 63 := lt_of_le_of_lt (Nat.le_add_left _ _) noWrap.lap
  exact (Nat.pow_lt_pow_iff_right (by omega)).1 power

namespace InvAt

theorem slot_ticket
    (inv : InvAt exponent state tickets phases) (noWrap : NoWrap exponent state.history)
    (ticket : Nat) :
    state.queue.slot (BitVec.ofNat 64 ticket) = ticket % 2 ^ exponent :=
  slot_ofNat noWrap.narrow inv.mask ticket

/-- What holds of the element that a ticket is for. -/
theorem slotOk_ticket (inv : InvAt exponent state tickets phases) {ticket : Nat}
    {phase : Phase Thread} (ticketEq : tickets (ticket % 2 ^ exponent) = ticket)
    (phaseEq : phases (ticket % 2 ^ exponent) = phase) :
    SlotOk state.threads state.history (2 ^ exponent)
      (state.queue.impl.elems (ticket % 2 ^ exponent)) (ticket % 2 ^ exponent) ticket phase := by
  have slotOk := inv.slots _ (Nat.mod_lt ticket (Nat.two_pow_pos exponent))
  rw [phaseEq, ticketEq] at slotOk
  exact slotOk

/-- The thread that an element's phase names is in that element. -/
theorem holder
    (inv : InvAt exponent state tickets phases) (noWrap : NoWrap exponent state.history)
    {slot : Nat} (below : slot < 2 ^ exponent) {thread : Thread}
    (named : phases slot = .writing thread ∨ phases slot = .reading thread) :
    inside state.queue (state.threads thread) = some slot := by
  have ok := inv.slots slot below
  have falls := inv.slot_ticket noWrap (tickets slot)
  rw [ok.falls] at falls
  rcases named with phase | phase
  · have phaseOk := ok.phase
    rw [phase] at phaseOk
    rcases phaseOk with ⟨-, -, value, -, holding | ⟨holding, -⟩⟩
    · rw [holding, inside, falls]
    · rw [holding, inside, falls]
  · have phaseOk := ok.phase
    rw [phase] at phaseOk
    rcases phaseOk with ⟨-, -, -, -, holding | holding⟩
    · rw [holding, inside, falls]
    · rw [holding, inside, falls]

/-- A thread in an element is the one its phase names. -/
theorem named
    (inv : InvAt exponent state tickets phases) (noWrap : NoWrap exponent state.history)
    {slot : Nat} {thread : Thread}
    (within : inside state.queue (state.threads thread) = some slot) :
    phases slot = .writing thread ∨ phases slot = .reading thread := by
  have ok := inv.threads thread
  cases control : state.threads thread with
  | none => rw [control] at within; cases within
  | some pc =>
      rw [control] at ok within
      cases pc with
      | writeValue value wpos =>
          rcases ok with ⟨ticket, rfl, -, -, phase⟩
          simp only [inside, inv.slot_ticket noWrap, Option.some.injEq] at within
          exact Or.inl (within ▸ phase)
      | writeCommit value wpos =>
          rcases ok with ⟨ticket, rfl, -, -, phase⟩
          simp only [inside, inv.slot_ticket noWrap, Option.some.injEq] at within
          exact Or.inl (within ▸ phase)
      | readValue rpos =>
          rcases ok with ⟨ticket, rfl, -, -, phase⟩
          simp only [inside, inv.slot_ticket noWrap, Option.some.injEq] at within
          exact Or.inr (within ▸ phase)
      | readCommit rpos value =>
          rcases ok with ⟨ticket, rfl, -, -, phase⟩
          simp only [inside, inv.slot_ticket noWrap, Option.some.injEq] at within
          exact Or.inr (within ▸ phase)
      | _ => cases within

/-- No two threads are in the same element at once. -/
theorem exclusive
    (inv : InvAt exponent state tickets phases) (noWrap : NoWrap exponent state.history)
    {slot : Nat} {first second : Thread}
    (firstWithin : inside state.queue (state.threads first) = some slot)
    (secondWithin : inside state.queue (state.threads second) = some slot) :
    first = second := by
  rcases inv.named noWrap firstWithin with firstPhase | firstPhase <;>
    rcases inv.named noWrap secondWithin with secondPhase | secondPhase <;>
    simp_all

/-- The write position is at most one lap ahead of the read position. -/
theorem pushes_le (inv : InvAt exponent state tickets phases) :
    (pushes state.history).length ≤ (claims state.history).length + 2 ^ exponent := by
  have positive : 0 < 2 ^ exponent := Nat.two_pow_pos exponent
  have ok := inv.slots ((claims state.history).length % 2 ^ exponent)
    (Nat.mod_lt _ positive)
  have nextLap := ok.nextLap
  have previousLap := ok.previousLap
  have falls := ok.falls
  generalize tickets ((claims state.history).length % 2 ^ exponent) = ticket
    at nextLap previousLap falls
  -- The element of the next read ticket is at that ticket or a lap before it.
  have notPast : ticket ≤ (claims state.history).length := by
    by_contra past
    have distance : ticket = (claims state.history).length +
        (ticket - (claims state.history).length) := by
      omega
    rw [distance] at falls
    have zero : ticket - (claims state.history).length = 0 :=
      ticket_eq_of_mod_eq (by omega) positive falls
    omega
  omega

variable [DecidableEq Thread]

/-- A thread that is in no element moves on without touching the queue. -/
theorem move
    (inv : InvAt exponent state tickets phases) (noWrap : NoWrap exponent state.history)
    {thread : Thread} {control : Option (Pc Value)}
    (outside : inside state.queue (state.threads thread) = none)
    (ok : ThreadOk state.history (2 ^ exponent) tickets phases thread control) :
    InvAt exponent
      { state with threads := Function.update state.threads thread control }
      tickets phases where
  capacity := inv.capacity
  mask := inv.mask
  rpos := inv.rpos
  wpos := inv.wpos
  claimed_le := inv.claimed_le
  slots := by
    intro slot below
    have slotOk := inv.slots slot below
    refine { slotOk with phase := slotOk.phase.of_threads fun other named => ?_ }
    refine Function.update_of_ne ?_ _ _
    rintro rfl
    rw [inv.holder noWrap below named] at outside
    cases outside
  threads := by
    intro other
    by_cases same : other = thread
    · subst same
      simpa using ok
    · simpa [Function.update_of_ne same] using inv.threads other
  popped := inv.popped
  distinct := inv.distinct

/--
A thread changes one element, or takes it: every other element and every other
thread keep what the invariant says of them.
-/
theorem change
    (inv : InvAt exponent state tickets phases) (noWrap : NoWrap exponent state.history)
    {next : State Thread Value} {thread : Thread} {control : Option (Pc Value)}
    (slot ticket : Nat) (phase : Phase Thread)
    (home : ∀ other, inside state.queue (state.threads thread) = some other → other = slot)
    (capacity : next.queue.capacity = state.queue.capacity)
    (mask : next.queue.mask = state.queue.mask)
    (rpos : next.queue.impl.rpos = BitVec.ofNat 64 (claims next.history).length)
    (wpos : next.queue.impl.wpos = BitVec.ofNat 64 (pushes next.history).length)
    (claimed_le : (claims next.history).length ≤ (pushes next.history).length)
    (elems : ∀ other, other ≠ slot →
      next.queue.impl.elems other = state.queue.impl.elems other)
    (threads : next.threads = Function.update state.threads thread control)
    (others : ∀ other, other ≠ slot →
      SlotOk state.threads state.history (2 ^ exponent)
        (state.queue.impl.elems other) other (tickets other) (phases other) →
      SlotOk state.threads next.history (2 ^ exponent)
        (state.queue.impl.elems other) other (tickets other) (phases other))
    (self : SlotOk next.threads next.history (2 ^ exponent)
      (next.queue.impl.elems slot) slot ticket phase)
    (pushed : (pushes state.history).length ≤ (pushes next.history).length)
    (claimed : (claims state.history).length ≤ (claims next.history).length)
    (own : ∀ other, other ≠ thread → ¬ (phases slot = .writing other ∨
      phases slot = .reading other ∨
        ((pushes next.history).length = (pushes state.history).length ∧
          phases slot = .free) ∨
        ((claims next.history).length = (claims state.history).length ∧
          phases slot = .full)))
    (ok : ThreadOk next.history (2 ^ exponent) (Function.update tickets slot ticket)
      (Function.update phases slot phase) thread control)
    (popped : ∀ thread ticket value, .popped thread ticket value ∈ next.history →
      (claims next.history)[ticket]? = some thread ∧
        (pushes next.history)[ticket]? = some value)
    (distinct : (returned next.history).Nodup) :
    InvAt exponent next (Function.update tickets slot ticket)
      (Function.update phases slot phase) where
  capacity := capacity.trans inv.capacity
  mask := mask.trans inv.mask
  rpos := rpos
  wpos := wpos
  claimed_le := claimed_le
  slots := by
    intro other below
    by_cases same : other = slot
    · subst same
      simpa using self
    · have slotOk := others other same (inv.slots other below)
      rw [elems other same, Function.update_of_ne same, Function.update_of_ne same]
      refine { slotOk with phase := slotOk.phase.of_threads fun holder named => ?_ }
      rw [threads]
      refine Function.update_of_ne ?_ _ _
      rintro rfl
      exact same (home other (inv.holder noWrap below named))
  threads := by
    intro other
    rw [threads]
    by_cases same : other = thread
    · subst same
      simpa using ok
    · rw [Function.update_of_ne same]
      refine (inv.threads other).frame pushed claimed fun place keeps => ?_
      have apart : place ≠ slot := by
        rintro rfl
        exact own other same keeps
      rw [Function.update_of_ne apart, Function.update_of_ne apart]
      exact ⟨rfl, rfl⟩
  popped := popped
  distinct := distinct

/-- A successful exchange of the write position takes a free element. -/
theorem writeExchange
    (inv : InvAt exponent state tickets phases) (noWrap : NoWrap exponent state.history)
    {thread : Thread} {value : Value} {wpos : Word}
    (at_pc : state.threads thread = some (.writeExchange value wpos))
    (current : state.queue.impl.wpos = wpos) :
    ∃ tickets' phases', InvAt exponent
      { queue := state.queue.setWpos (wpos + 1)
        threads := Function.update state.threads thread (some (.writeValue value wpos))
        history := state.history ++ [.wrote thread value] } tickets' phases' := by
  have known := inv.threads thread
  rw [at_pc] at known
  rcases known with ⟨ticket, rfl, bound, newest⟩
  have equal : ticket = (pushes state.history).length :=
    ofNat_injective (bound.trans_lt noWrap.small) noWrap.small
      (current.symm.trans inv.wpos)
  rcases newest equal with ⟨ticketEq, free⟩
  have positive : 0 < 2 ^ exponent := Nat.two_pow_pos _
  have slotOk := inv.slotOk_ticket ticketEq free
  have grown : (pushes (state.history ++ [.wrote thread value])).length = ticket + 1 := by
    simp [pushes, equal]
  have sameClaims : claims (state.history ++ [.wrote thread value]) = claims state.history := by
    simp [claims]
  have sameReturned :
      returned (state.history ++ [.wrote thread value]) = returned state.history := by
    simp [returned]
  have claimed_le := inv.claimed_le
  refine ⟨_, _, inv.change noWrap (ticket % 2 ^ exponent) ticket (.writing thread)
    ?_ rfl rfl ?_ ?_ ?_ (fun _ _ => rfl) rfl ?_ ?_ ?_ ?_ ?_ ?_ ?_ ?_⟩
  · intro other within
    rw [at_pc] at within
    cases within
  · rw [sameClaims]
    exact inv.rpos
  · rw [grown]
    exact ofNat_add_one ticket
  · rw [sameClaims, grown]
    omega
  · intro other apart ok
    have different : tickets other ≠ ticket := by
      intro same
      exact apart (by rw [← ok.falls, same])
    have nextLap := ok.nextLap
    refine ⟨ok.falls, by rw [sameClaims]; exact ok.previousLap, ?_,
      ok.phase.wrote (equal ▸ different) thread value⟩
    rw [grown]
    by_contra exceeded
    apply apart
    have lap : ticket = tickets other + 2 ^ exponent := by omega
    rw [lap, Nat.add_mod_right, ok.falls]
  · refine ⟨rfl, by rw [sameClaims]; exact slotOk.previousLap, by rw [grown]; omega, ?_⟩
    refine ⟨slotOk.phase.1, by rw [sameClaims]; omega, value, ?_, Or.inl ?_⟩
    · simp [pushes, equal]
    · exact Function.update_self _ _ _
  · rw [grown]
    omega
  · rw [sameClaims]
  · intro other _ keeps
    rw [free, grown] at keeps
    simp [equal] at keeps
  · exact ⟨ticket, rfl, by rw [grown]; omega, by simp, by simp⟩
  · intro other done item member
    rw [List.mem_append] at member
    rcases member with old | new
    · rcases inv.popped other done item old with ⟨byThread, ofValue⟩
      rw [sameClaims, pushes_append]
      exact ⟨byThread, getElem?_append_of_some ofValue⟩
    · simp at new
  · rw [sameReturned]
    exact inv.distinct

/-- The writer of an element stores its value there. -/
theorem writeValue
    (inv : InvAt exponent state tickets phases) (noWrap : NoWrap exponent state.history)
    {thread : Thread} {value : Value} {wpos : Word}
    (at_pc : state.threads thread = some (.writeValue value wpos)) :
    ∃ tickets' phases', InvAt exponent
      { state with
        queue := state.queue.setElem wpos { state.queue.elem wpos with val := value }
        threads := Function.update state.threads thread (some (.writeCommit value wpos)) }
      tickets' phases' := by
  have known := inv.threads thread
  rw [at_pc] at known
  rcases known with ⟨ticket, rfl, bound, ticketEq, writing⟩
  have slotEq := inv.slot_ticket noWrap ticket
  have slotOk := inv.slotOk_ticket ticketEq writing
  rcases slotOk.phase with ⟨seq, lower, value', pushed, holding⟩
  have sameValue : value' = value := by
    rw [at_pc] at holding
    simpa [eq_comm] using holding
  subst sameValue
  refine ⟨_, _, inv.change noWrap (ticket % 2 ^ exponent) ticket (.writing thread)
    ?_ rfl rfl inv.rpos inv.wpos inv.claimed_le ?_ rfl (fun _ _ ok => ok) ?_ le_rfl le_rfl
    ?_ ?_ inv.popped inv.distinct⟩
  · intro other within
    rw [at_pc, inside, slotEq] at within
    exact (Option.some.inj within).symm
  · intro other apart
    exact Function.update_of_ne (by rw [slotEq]; exact apart) _ _
  · refine ⟨rfl, slotOk.previousLap, slotOk.nextLap, ?_⟩
    simp only [setElem, elem, slotEq, Function.update_self]
    exact ⟨seq, lower, value', pushed, Or.inr ⟨Function.update_self _ _ _, rfl⟩⟩
  · intro other apart keeps
    rw [writing] at keeps
    simp [Ne.symm apart] at keeps
  · exact ⟨ticket, rfl, bound, by simp, by simp⟩

/-- The commit store of a write leaves the element full. -/
theorem writeCommit
    (inv : InvAt exponent state tickets phases) (noWrap : NoWrap exponent state.history)
    {thread : Thread} {value : Value} {wpos : Word}
    (at_pc : state.threads thread = some (.writeCommit value wpos)) :
    ∃ tickets' phases', InvAt exponent
      { state with
        queue := state.queue.setElem wpos { state.queue.elem wpos with seq := wpos + 1 }
        threads := Function.update state.threads thread none }
      tickets' phases' := by
  have known := inv.threads thread
  rw [at_pc] at known
  rcases known with ⟨ticket, rfl, bound, ticketEq, writing⟩
  have slotEq := inv.slot_ticket noWrap ticket
  have slotOk := inv.slotOk_ticket ticketEq writing
  rcases slotOk.phase with ⟨seq, lower, value', pushed, holding⟩
  have written : value' = value ∧
      (state.queue.impl.elems (ticket % 2 ^ exponent)).val = value' := by
    rw [at_pc] at holding
    rcases holding with other | ⟨same, val⟩
    · cases other
    · simp only [Option.some.injEq, Pc.writeCommit.injEq] at same
      exact ⟨same.1.symm, val⟩
  refine ⟨_, _, inv.change noWrap (ticket % 2 ^ exponent) ticket .full
    ?_ rfl rfl inv.rpos inv.wpos inv.claimed_le ?_ rfl (fun _ _ ok => ok) ?_ le_rfl le_rfl
    ?_ trivial inv.popped inv.distinct⟩
  · intro other within
    rw [at_pc, inside, slotEq] at within
    exact (Option.some.inj within).symm
  · intro other apart
    exact Function.update_of_ne (by rw [slotEq]; exact apart) _ _
  · refine ⟨rfl, slotOk.previousLap, slotOk.nextLap, ?_⟩
    simp only [setElem, elem, slotEq, Function.update_self]
    exact ⟨ofNat_add_one ticket, lower, by rw [written.2]; exact pushed⟩
  · intro other apart keeps
    rw [writing] at keeps
    simp [Ne.symm apart] at keeps

/-- A successful exchange of the read position takes a full element. -/
theorem readExchange
    (inv : InvAt exponent state tickets phases) (noWrap : NoWrap exponent state.history)
    {thread : Thread} {rpos : Word}
    (at_pc : state.threads thread = some (.readExchange rpos))
    (current : state.queue.impl.rpos = rpos) :
    ∃ tickets' phases', InvAt exponent
      { queue := state.queue.setRpos (rpos + 1)
        threads := Function.update state.threads thread (some (.readValue rpos))
        history := state.history ++ [.claimed thread] } tickets' phases' := by
  have known := inv.threads thread
  rw [at_pc] at known
  rcases known with ⟨ticket, rfl, bound, newest⟩
  have claimed_le := inv.claimed_le
  have equal : ticket = (claims state.history).length :=
    ofNat_injective ((bound.trans claimed_le).trans_lt noWrap.small)
      (claimed_le.trans_lt noWrap.small) (current.symm.trans inv.rpos)
  rcases newest equal with ⟨ticketEq, full⟩
  have positive : 0 < 2 ^ exponent := Nat.two_pow_pos _
  have slotOk := inv.slotOk_ticket ticketEq full
  rcases slotOk.phase with ⟨seq, lower, pushed⟩
  have inPushes : ticket < (pushes state.history).length :=
    (List.getElem?_eq_some_iff.1 pushed).1
  have grown : (claims (state.history ++ [.claimed thread])).length = ticket + 1 := by
    simp [claims, equal]
  have samePushes : pushes (state.history ++ [.claimed thread]) = pushes state.history := by
    simp [pushes]
  have sameReturned :
      returned (state.history ++ [.claimed thread]) = returned state.history := by
    simp [returned]
  have fresh : ticket ∉ returned state.history := by
    intro member
    simp only [returned, List.mem_filterMap] at member
    rcases member with ⟨event, old, isPop⟩
    cases event with
    | wrote => cases isPop
    | claimed => cases isPop
    | popped other done item =>
        obtain rfl : done = ticket := by simpa using isPop
        have inClaims := (List.getElem?_eq_some_iff.1 (inv.popped other done item old).1).1
        omega
  refine ⟨_, _, inv.change noWrap (ticket % 2 ^ exponent) ticket (.reading thread)
    ?_ rfl rfl ?_ ?_ ?_ (fun _ _ => rfl) rfl ?_ ?_ ?_ ?_ ?_ ?_ ?_ ?_⟩
  · intro other within
    rw [at_pc] at within
    cases within
  · rw [grown]
    exact ofNat_add_one ticket
  · rw [samePushes]
    exact inv.wpos
  · rw [samePushes, grown]
    omega
  · intro other apart ok
    have different : tickets other ≠ (claims state.history).length := by
      intro same
      exact apart (by rw [← ok.falls, same, equal])
    exact ⟨ok.falls, by rw [grown, equal]; exact Nat.lt_of_lt_of_le ok.previousLap (by omega),
      by rw [samePushes]; exact ok.nextLap, ok.phase.claimed different thread⟩
  · refine ⟨rfl, by rw [grown]; omega, by rw [samePushes]; exact slotOk.nextLap, ?_⟩
    refine ⟨seq, by rw [samePushes]; exact pushed, ?_, by rw [sameReturned]; exact fresh,
      Or.inl (Function.update_self _ _ _)⟩
    simp [claims, equal]
  · rw [samePushes]
  · rw [grown]
    omega
  · intro other _ keeps
    rw [full, grown] at keeps
    simp [equal] at keeps
  · exact ⟨ticket, rfl, by rw [grown]; omega, by simp, by simp⟩
  · intro other done item member
    rw [List.mem_append] at member
    rcases member with old | new
    · rcases inv.popped other done item old with ⟨byThread, ofValue⟩
      rw [samePushes, claims_append]
      exact ⟨getElem?_append_of_some byThread, ofValue⟩
    · simp at new
  · rw [sameReturned]
    exact inv.distinct

/-- The reader of an element takes its value out. -/
theorem readValue
    (inv : InvAt exponent state tickets phases) (noWrap : NoWrap exponent state.history)
    {thread : Thread} {rpos : Word}
    (at_pc : state.threads thread = some (.readValue rpos)) :
    ∃ tickets' phases', InvAt exponent
      { state with
        threads := Function.update state.threads thread
          (some (.readCommit rpos (state.queue.elem rpos).val)) }
      tickets' phases' := by
  have known := inv.threads thread
  rw [at_pc] at known
  rcases known with ⟨ticket, rfl, bound, ticketEq, reading⟩
  have slotEq := inv.slot_ticket noWrap ticket
  have slotOk := inv.slotOk_ticket ticketEq reading
  rcases slotOk.phase with ⟨seq, pushed, claimed, fresh, -⟩
  refine ⟨_, _, inv.change noWrap (ticket % 2 ^ exponent) ticket (.reading thread)
    ?_ rfl rfl inv.rpos inv.wpos inv.claimed_le (fun _ _ => rfl) rfl (fun _ _ ok => ok) ?_
    le_rfl le_rfl ?_ ?_ inv.popped inv.distinct⟩
  · intro other within
    rw [at_pc, inside, slotEq] at within
    exact (Option.some.inj within).symm
  · refine ⟨rfl, slotOk.previousLap, slotOk.nextLap, seq, pushed, claimed, fresh, Or.inr ?_⟩
    simp only [Function.update_self, elem, slotEq]
  · intro other apart keeps
    rw [reading] at keeps
    simp [Ne.symm apart] at keeps
  · exact ⟨ticket, rfl, bound, by simp, by simp⟩

/-- The commit store of a read frees the element for the next lap. -/
theorem readCommit
    (inv : InvAt exponent state tickets phases) (noWrap : NoWrap exponent state.history)
    {thread : Thread} {value : Value} {rpos : Word}
    (at_pc : state.threads thread = some (.readCommit rpos value)) :
    ∃ tickets' phases', InvAt exponent
      { queue := state.queue.setElem rpos
          { state.queue.elem rpos with seq := rpos + state.queue.capacity }
        threads := Function.update state.threads thread none
        history := state.history ++ [.popped thread rpos.toNat value] }
      tickets' phases' := by
  have known := inv.threads thread
  rw [at_pc] at known
  rcases known with ⟨ticket, rfl, bound, ticketEq, reading⟩
  have slotEq := inv.slot_ticket noWrap ticket
  have slotOk := inv.slotOk_ticket ticketEq reading
  rcases slotOk.phase with ⟨seq, pushed, claimed, fresh, holding⟩
  have read : (state.queue.impl.elems (ticket % 2 ^ exponent)).val = value := by
    rw [at_pc] at holding
    rcases holding with other | same
    · cases other
    · simp only [Option.some.injEq, Pc.readCommit.injEq] at same
      exact same.2.symm
  have number : (BitVec.ofNat 64 ticket).toNat = ticket := by
    have small := noWrap.small
    have claimed_le := inv.claimed_le
    rw [BitVec.toNat_ofNat, Nat.mod_eq_of_lt (by omega)]
  rw [number]
  have samePushes :
      pushes (state.history ++ [.popped thread ticket value]) = pushes state.history := by
    simp [pushes]
  have sameClaims :
      claims (state.history ++ [.popped thread ticket value]) = claims state.history := by
    simp [claims]
  refine ⟨_, _, inv.change noWrap (ticket % 2 ^ exponent) (ticket + 2 ^ exponent) .free
    ?_ rfl rfl ?_ ?_ ?_ ?_ rfl ?_ ?_ ?_ ?_ ?_ trivial ?_ ?_⟩
  · intro other within
    rw [at_pc, inside, slotEq] at within
    exact (Option.some.inj within).symm
  · rw [sameClaims]
    exact inv.rpos
  · rw [samePushes]
    exact inv.wpos
  · rw [samePushes, sameClaims]
    exact inv.claimed_le
  · intro other apart
    exact Function.update_of_ne (by rw [slotEq]; exact apart) _ _
  · intro other apart ok
    refine ⟨ok.falls, by rw [sameClaims]; exact ok.previousLap,
      by rw [samePushes]; exact ok.nextLap, ok.phase.popped (fun _ _ same => ?_) thread value⟩
    exact apart (by rw [← ok.falls, same])
  · refine ⟨Nat.add_mod_right _ _, by rw [sameClaims]; omega,
      by rw [samePushes]; exact slotOk.nextLap.trans (by omega), ?_⟩
    simp only [setElem, elem, slotEq, Function.update_self]
    refine ⟨?_, by rw [samePushes]; exact slotOk.nextLap⟩
    rw [inv.capacity, BitVec.ofNat_add]
  · rw [samePushes]
  · rw [sameClaims]
  · intro other apart keeps
    rw [reading] at keeps
    simp [Ne.symm apart] at keeps
  · intro other done item member
    rw [samePushes, sameClaims]
    rw [List.mem_append] at member
    rcases member with old | new
    · exact inv.popped other done item old
    · simp only [List.mem_singleton, Event.popped.injEq] at new
      rcases new with ⟨rfl, rfl, rfl⟩
      exact ⟨claimed, read ▸ pushed⟩
  · rw [returned_append]
    refine List.Nodup.append inv.distinct (by simp [returned]) ?_
    simpa [returned] using fresh

/-- A step of a thread that stays outside every element, without events. -/
theorem stay
    (inv : InvAt exponent state tickets phases) (noWrap : NoWrap exponent state.history)
    {thread : Thread} {control : Option (Pc Value)}
    (outside : inside state.queue (state.threads thread) = none)
    (ok : ThreadOk state.history (2 ^ exponent) tickets phases thread control) :
    ∃ tickets' phases', InvAt exponent
      { queue := state.queue
        threads := Function.update state.threads thread control
        history := state.history ++ [] } tickets' phases' := by
  rw [List.append_nil]
  exact ⟨tickets, phases, inv.move noWrap outside ok⟩

omit [DecidableEq Thread] in
/-- A thread that has compared the newest write ticket's element knows it is free. -/
theorem loaded_write
    (inv : InvAt exponent state tickets phases) (noWrap : NoWrap exponent state.history)
    (positive : 0 < exponent) {wpos : Word}
    (known : ∃ ticket, wpos = BitVec.ofNat 64 ticket ∧
      ticket ≤ (pushes state.history).length)
    (same : (state.queue.elem wpos).seq - wpos = 0) :
    ∃ ticket, wpos = BitVec.ofNat 64 ticket ∧
      ticket ≤ (pushes state.history).length ∧
      (ticket = (pushes state.history).length →
        tickets (ticket % 2 ^ exponent) = ticket ∧
          phases (ticket % 2 ^ exponent) = .free) := by
  rcases known with ⟨ticket, rfl, bound⟩
  refine ⟨ticket, rfl, bound, ?_⟩
  rintro rfl
  have ok := inv.slots _ (Nat.mod_lt (pushes state.history).length (Nat.two_pow_pos exponent))
  refine ok.free_of_seq (Nat.le_self_pow (by omega) 2) noWrap.small noWrap.lap ?_
  have equal := sub_eq_zero.1 same
  rwa [elem, inv.slot_ticket noWrap] at equal

omit [DecidableEq Thread] in
/-- A thread that has compared the newest read ticket's element knows it is full. -/
theorem loaded_read
    (inv : InvAt exponent state tickets phases) (noWrap : NoWrap exponent state.history)
    (positive : 0 < exponent) {rpos : Word}
    (known : ∃ ticket, rpos = BitVec.ofNat 64 ticket ∧
      ticket ≤ (claims state.history).length)
    (same : (state.queue.elem rpos).seq - (rpos + 1) = 0) :
    ∃ ticket, rpos = BitVec.ofNat 64 ticket ∧
      ticket ≤ (claims state.history).length ∧
      (ticket = (claims state.history).length →
        tickets (ticket % 2 ^ exponent) = ticket ∧
          phases (ticket % 2 ^ exponent) = .full) := by
  rcases known with ⟨ticket, rfl, bound⟩
  refine ⟨ticket, rfl, bound, ?_⟩
  rintro rfl
  have ok := inv.slots _ (Nat.mod_lt (claims state.history).length (Nat.two_pow_pos exponent))
  refine ok.full_of_seq (Nat.le_self_pow (by omega) 2) noWrap.lap ?_
  have equal := sub_eq_zero.1 same
  rwa [elem, inv.slot_ticket noWrap, ofNat_add_one] at equal

/-- Every step of a busy thread keeps the invariant. -/
theorem step_thread
    (inv : InvAt exponent state tickets phases) (noWrap : NoWrap exponent state.history)
    (positive : 0 < exponent) {thread : Thread} {pc : Pc Value}
    (at_pc : state.threads thread = some pc) (spurious : Bool) :
    ∃ tickets' phases', InvAt exponent
      { queue := (stepPc state.queue spurious pc).1
        threads := Function.update state.threads thread
          (after (stepPc state.queue spurious pc).2)
        history := state.history ++ events state.queue spurious thread pc }
      tickets' phases' := by
  have known := inv.threads thread
  rw [at_pc] at known
  have outside : ∀ {pc'}, pc = pc' → inside state.queue (some pc') = none →
      inside state.queue (state.threads thread) = none := by
    rintro pc' rfl none
    rw [at_pc, none]
  cases pc with
  | writeLoadPos value =>
      exact inv.stay noWrap (outside rfl rfl) ⟨_, inv.wpos, le_rfl⟩
  | readLoadPos =>
      exact inv.stay noWrap (outside rfl rfl) ⟨_, inv.rpos, le_rfl⟩
  | writeLoadSeq value wpos =>
      by_cases same : (state.queue.elem wpos).seq - wpos = 0
      · simp only [stepPc, same, if_true, after, events]
        exact inv.stay noWrap (outside rfl rfl) (inv.loaded_write noWrap positive known same)
      · by_cases negative : ((state.queue.elem wpos).seq - wpos).slt 0 = true
        · simp only [stepPc, same, negative, if_true, if_false, after, events]
          exact inv.stay noWrap (outside rfl rfl) trivial
        · simp only [stepPc, same, negative, if_false, after, events]
          exact inv.stay noWrap (outside rfl rfl) trivial
  | readLoadSeq rpos =>
      by_cases same : (state.queue.elem rpos).seq - (rpos + 1) = 0
      · simp only [stepPc, same, if_true, after, events]
        exact inv.stay noWrap (outside rfl rfl) (inv.loaded_read noWrap positive known same)
      · by_cases negative : ((state.queue.elem rpos).seq - (rpos + 1)).slt 0 = true
        · simp only [stepPc, same, negative, if_true, if_false, after, events]
          exact inv.stay noWrap (outside rfl rfl) trivial
        · simp only [stepPc, same, negative, if_false, after, events]
          exact inv.stay noWrap (outside rfl rfl) trivial
  | writeExchange value wpos =>
      by_cases won : state.queue.impl.wpos = wpos ∧ spurious = false
      · simp only [stepPc, won, and_self, if_true, after, events]
        exact inv.writeExchange noWrap at_pc won.1
      · simp only [stepPc, won, if_false, after, events]
        exact inv.stay noWrap (outside rfl rfl) ⟨_, inv.wpos, le_rfl⟩
  | readExchange rpos =>
      by_cases won : state.queue.impl.rpos = rpos ∧ spurious = false
      · simp only [stepPc, won, and_self, if_true, after, events]
        exact inv.readExchange noWrap at_pc won.1
      · simp only [stepPc, won, if_false, after, events]
        exact inv.stay noWrap (outside rfl rfl) ⟨_, inv.rpos, le_rfl⟩
  | writeValue value wpos =>
      simp only [stepPc, after, events, List.append_nil]
      exact inv.writeValue noWrap at_pc
  | writeCommit value wpos =>
      simp only [stepPc, after, events, List.append_nil]
      exact inv.writeCommit noWrap at_pc
  | readValue rpos =>
      simp only [stepPc, after, events, List.append_nil]
      exact inv.readValue noWrap at_pc
  | readCommit rpos value =>
      exact inv.readCommit noWrap at_pc

end InvAt

/-! ## Every run -/

theorem initial_inv [Inhabited Value] (exponent : Nat) :
    InvAt exponent (initial exponent : State Thread Value) (fun slot => slot)
      (fun _ => .free) where
  capacity := rfl
  mask := rfl
  rpos := rfl
  wpos := rfl
  claimed_le := le_rfl
  slots := by
    intro slot below
    refine ⟨Nat.mod_eq_of_lt below, by simpa [initial, claims] using below, Nat.zero_le _, ?_,
      Nat.zero_le _⟩
    simp [initial, initialImpl, below]
  threads := fun _ => trivial
  popped := by
    intro thread ticket value member
    cases member
  distinct := List.nodup_nil

variable [DecidableEq Thread]

/-- A call is begun by an idle thread. -/
theorem call_of_step {thread : Thread} {op : QueueOp Value} {next : State Thread Value}
    (taken : step state (.call thread op) = some next) :
    state.threads thread = none ∧
      next = { state with threads := Function.update state.threads thread (some (begin op)) } := by
  simp only [step] at taken
  split at taken
  · rename_i idle
    exact ⟨idle, (Option.some.inj taken).symm⟩
  · cases taken

/-- A busy thread goes on from where it is. -/
theorem thread_of_step {thread : Thread} {spurious : Bool} {next : State Thread Value}
    (taken : step state (.step thread spurious) = some next) :
    ∃ pc, state.threads thread = some pc ∧ next =
      { queue := (stepPc state.queue spurious pc).1
        threads := Function.update state.threads thread
          (after (stepPc state.queue spurious pc).2)
        history := state.history ++ events state.queue spurious thread pc } := by
  simp only [step] at taken
  split at taken
  · cases taken
  · rename_i pc at_pc
    exact ⟨pc, at_pc, (Option.some.inj taken).symm⟩

/-- A step never takes a ticket back. -/
theorem tickets_mono {action : Action Thread Value} {next : State Thread Value}
    (taken : step state action = some next) :
    (pushes state.history).length ≤ (pushes next.history).length ∧
      (claims state.history).length ≤ (claims next.history).length := by
  cases action with
  | call thread op =>
      obtain ⟨-, rfl⟩ := call_of_step taken
      exact ⟨le_rfl, le_rfl⟩
  | step thread spurious =>
      obtain ⟨pc, -, rfl⟩ := thread_of_step taken
      simp

theorem step_inv (positive : 0 < exponent)
    {action : Action Thread Value} {next : State Thread Value}
    (inv : InvAt exponent state tickets phases)
    (noWrap : NoWrap exponent state.history)
    (taken : step state action = some next) :
    ∃ tickets' phases', InvAt exponent next tickets' phases' := by
  cases action with
  | call thread op =>
      obtain ⟨idle, rfl⟩ := call_of_step taken
      refine ⟨tickets, phases, inv.move noWrap (by rw [idle]; rfl) ?_⟩
      cases op <;> trivial
  | step thread spurious =>
      obtain ⟨pc, at_pc, rfl⟩ := thread_of_step taken
      exact inv.step_thread noWrap positive at_pc spurious

/-- The invariant of the machine while its counters have not wrapped. -/
def Inv (exponent : Nat) (state : State Thread Value) : Prop :=
  NoWrap exponent state.history → ∃ tickets phases, InvAt exponent state tickets phases

theorem reachable_inv [Inhabited Value] (positive : 0 < exponent)
    (reached : Reachable step unguarded (initial exponent) state) :
    Inv exponent state := by
  have initially : Inv exponent (initial exponent : State Thread Value) :=
    fun _ => ⟨_, _, initial_inv exponent⟩
  refine reached.invariant initially ?_
  intro before action next holds _ taken wrapped
  have grown := tickets_mono taken
  have earlier : NoWrap exponent before.history :=
    ⟨grown.1.trans_lt wrapped.small,
      (Nat.add_le_add_right grown.2 _).trans_lt wrapped.lap⟩
  rcases holds earlier with ⟨tickets, phases, inv⟩
  exact step_inv positive inv earlier taken

/--
In every interleaving, a pop returns the value of its own write ticket to the
thread that took the read ticket, no ticket's pop returns twice, no two threads
are in one element at once, and the positions stay within one lap.
-/
theorem interleaved_pops_are_tickets [Inhabited Value] (positive : 0 < exponent)
    (reached : Reachable step unguarded (initial exponent) state)
    (noWrap : NoWrap exponent state.history) :
    (∀ thread ticket value, .popped thread ticket value ∈ state.history →
      (claims state.history)[ticket]? = some thread ∧
        (pushes state.history)[ticket]? = some value) ∧
    (returned state.history).Nodup ∧
    (∀ first second slot,
      inside state.queue (state.threads first) = some slot →
        inside state.queue (state.threads second) = some slot → first = second) ∧
    state.queue.impl.rpos.toNat ≤ state.queue.impl.wpos.toNat ∧
    state.queue.impl.wpos.toNat ≤ state.queue.impl.rpos.toNat + 2 ^ exponent := by
  rcases reachable_inv positive reached noWrap with ⟨tickets, phases, inv⟩
  have small := noWrap.small
  have claimed_le := inv.claimed_le
  refine ⟨inv.popped, inv.distinct, fun _ _ _ => inv.exclusive noWrap, ?_⟩
  rw [inv.rpos, inv.wpos, BitVec.toNat_ofNat, BitVec.toNat_ofNat,
    Nat.mod_eq_of_lt (by omega), Nat.mod_eq_of_lt (by omega)]
  exact ⟨claimed_le, inv.pushes_le⟩

end Steps

/-- One thread pushes and another, started first, pops what it pushed. -/
def handOff : List (Action Bool Nat) :=
  [.call false .pop, .step false false, .call true (.push 7), .step true false,
    .step true false, .step true false, .step true false, .step true false,
    .step false false, .step false true, .step false false, .step false false,
    .step false false, .step false false]

def handedOff : State Bool Nat :=
  (execute step unguarded (initial 1) handOff).getD (initial 1)

theorem interleaved_pops_handed_off :
    handedOff.history = [.wrote true 7, .claimed false, .popped false 0 7] ∧
    (∀ thread ticket value, .popped thread ticket value ∈ handedOff.history →
      (claims handedOff.history)[ticket]? = some thread ∧
        (pushes handedOff.history)[ticket]? = some value) ∧
    (returned handedOff.history).Nodup ∧
    (∀ first second slot,
      inside handedOff.queue (handedOff.threads first) = some slot →
        inside handedOff.queue (handedOff.threads second) = some slot →
          first = second) ∧
    handedOff.queue.impl.rpos.toNat ≤ handedOff.queue.impl.wpos.toNat ∧
    handedOff.queue.impl.wpos.toNat ≤ handedOff.queue.impl.rpos.toNat + 2 ^ 1 :=
  ⟨rfl, interleaved_pops_are_tickets (by decide) ⟨handOff, Run.of_execute rfl⟩
    ⟨by decide, by decide⟩⟩

end ReactiveToolbox.Ipc.MpmcConcurrent
