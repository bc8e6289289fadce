import ReactiveToolbox.Io.DgramOrder

/-!
# Datagrams after a reset

`SocketWriteQueue::reset` clears the deque of entries and leaves the bytes of `wbuf_`.
The payloads of the entries that were cleared stay in front of what is queued next.
-/

namespace ReactiveToolbox.Io

open ReactiveToolbox.Lib

universe u v

variable {Endpoint : Type u} {Slot : Type v}

/-- `SocketWriteQueue::reset`. -/
def SocketWriteQueue.reset (self : SocketWriteQueue Endpoint Slot) :
    SocketWriteQueue Endpoint Slot :=
  { self with queue := [] }

namespace DgramSender

/-- A reset between calls, from which a new history begins. -/
def reset (self : DgramSender Endpoint Slot) : DgramSender Endpoint Slot where
  write := self.write.reset
  events := self.events
  phase := .idle
  queued := []
  attempts := []
  completions := []

/-- What the kernel, the slots and the poller see of a socket. -/
def observed (self : DgramSender Endpoint Slot) :
    List (SendAttempt Endpoint) × List (Slot × SendResult) × PollEvents :=
  (self.attempts, self.completions, self.events)

/--
After a reset, whatever is queued, completed and handled looks as it does with a new
queue, and each datagram is sent with its own payload.
-/
structure FreshAfterReset (sender : DgramSender Endpoint Slot) : Prop where
  same : ∀ actions, (execute step unguarded sender.reset actions).map observed =
    (execute step unguarded (initial sender.events) actions).map observed
  own : ∀ actions later, execute step unguarded sender.reset actions = some later →
    InOrder later.queued later.attempts

variable {sender first second : DgramSender Endpoint Slot} {events : PollEvents}

/-! ## Buffers with the same bytes -/

/-- The same socket with other storage. -/
def withBuffer (self : DgramSender Endpoint Slot) (wbuf : Buffer) : DgramSender Endpoint Slot :=
  { self with write := { self.write with wbuf } }

/-- Two sockets whose buffers keep the same bytes, maybe in different places. -/
structure Alike (first second : DgramSender Endpoint Slot) : Prop where
  orderly : ∃ sent pending front, first.Orderly sent pending front
  valid : second.write.wbuf.Valid
  bytes : second.write.wbuf.readable = first.write.wbuf.readable
  rest : second = first.withBuffer second.write.wbuf

theorem Alike.observed (alike : Alike first second) : second.observed = first.observed := by
  rw [alike.rest]
  rfl

/-- The size of the entry in front is within the bytes of the buffer. -/
theorem Orderly.front_within {sent pending : List (Datagram Endpoint Slot)} {front : List Byte}
    (orderly : sender.Orderly sent pending front) (sending : sender.phase = .sending)
    {op : SocketWrite Endpoint Slot} (first : sender.write.queue.head? = some op) :
    op.data.size ≤ sender.write.wbuf.readable.length := by
  have entries := orderly.entries
  have phase := orderly.phase
  simp only [waiting, sending] at entries
  simp only [InPhase, sending] at phase
  rw [orderly.bytes, phase.1]
  generalize sender.write.queue = queue at entries first
  cases entries with
  | nil => cases first
  | cons carries others =>
      obtain rfl := Option.some.inj first
      rw [carries.size, List.nil_append, List.map_cons, List.flatten_cons, List.length_append]
      exact Nat.le_add_right _ _

/-- So is the payload that a handler is called for. -/
theorem Orderly.handling_within {sent pending : List (Datagram Endpoint Slot)} {front : List Byte}
    (orderly : sender.Orderly sent pending front) {size : Nat}
    (handling : sender.phase = .handling size) :
    size ≤ sender.write.wbuf.readable.length := by
  have phase := orderly.phase
  simp only [InPhase, handling] at phase
  rw [orderly.bytes, phase.1, List.length_append]
  exact Nat.le_add_right _ _

/-- Each step with other storage: what is queued goes there as well. -/
theorem stepAsyncSendto_withBuffer (self : DgramSender Endpoint Slot) (wbuf : Buffer)
    (datagram : Datagram Endpoint Slot) :
    (self.withBuffer wbuf).stepAsyncSendto datagram =
      (self.stepAsyncSendto datagram).map fun after =>
        after.withBuffer (wbuf.append datagram.payload) := by
  unfold stepAsyncSendto SocketWriteQueue.asyncSendto
  dsimp only [withBuffer]
  split <;> rfl

theorem wbuf_stepAsyncSendto {self after : DgramSender Endpoint Slot}
    {datagram : Datagram Endpoint Slot} (taken : self.stepAsyncSendto datagram = some after) :
    after.write.wbuf = self.write.wbuf.append datagram.payload := by
  unfold stepAsyncSendto SocketWriteQueue.asyncSendto at taken
  dsimp only at taken
  split at taken
  · obtain rfl := Option.some.inj taken
    rfl
  · cases taken

/-- An entry is sent from the bytes in front. -/
theorem stepSendto_withBuffer {self : DgramSender Endpoint Slot} {wbuf : Buffer}
    (same : (self.withBuffer wbuf).write.front = self.write.front) (result : SendResult) :
    (self.withBuffer wbuf).stepSendto result =
      (self.stepSendto result).map fun after => after.withBuffer wbuf := by
  unfold stepSendto
  rw [same]
  rcases self.write.front with - | ⟨slot, data, endpoint, flags⟩
  · rfl
  · rcases endpoint with - | endpoint
    · rfl
    · rcases data with ⟨- | bytes, size⟩
      · rfl
      · dsimp only [Option.bind_some]
        split
        · rfl
        · cases slot <;> rfl

theorem wbuf_stepSendto {self after : DgramSender Endpoint Slot} {result : SendResult}
    (taken : self.stepSendto result = some after) : after.write.wbuf = self.write.wbuf := by
  unfold stepSendto at taken
  obtain ⟨op, -, taken⟩ := Option.bind_eq_some_iff.mp taken
  obtain ⟨endpoint, -, taken⟩ := Option.bind_eq_some_iff.mp taken
  obtain ⟨bytes, -, taken⟩ := Option.bind_eq_some_iff.mp taken
  dsimp only at taken
  split at taken
  · obtain rfl := Option.some.inj taken
    rfl
  · obtain ⟨slot, -, rfl⟩ := Option.map_eq_some_iff.mp taken
    rfl

/-- What is in front of the same bytes is the same. -/
theorem front_withBuffer {self : DgramSender Endpoint Slot} {wbuf : Buffer}
    (selfValid : self.write.wbuf.Valid) (valid : wbuf.Valid)
    (bytes : wbuf.readable = self.write.wbuf.readable)
    (within : ∀ op, self.write.queue.head? = some op →
      op.data.size ≤ self.write.wbuf.readable.length) :
    (self.withBuffer wbuf).write.front = self.write.front := by
  unfold SocketWriteQueue.front
  dsimp only [withBuffer]
  cases first : self.write.queue.head? with
  | none => rfl
  | some op =>
      have inSelf := within op first
      have inOther : op.data.size ≤ wbuf.size := by
        rwa [← Buffer.length_readable valid, bytes]
      rw [Buffer.length_readable selfValid] at inSelf
      rw [Option.map_some, Option.map_some, Buffer.take_drop_rpos inSelf,
        Buffer.take_drop_rpos inOther, bytes]

theorem alike_map {taken : Option (DgramSender Endpoint Slot)} {wbuf : Buffer}
    (valid : wbuf.Valid)
    (same : ∀ after, taken = some after →
      (∃ sent pending front, after.Orderly sent pending front) ∧
        wbuf.readable = after.write.wbuf.readable) :
    Option.Rel Alike taken (taken.map fun after => after.withBuffer wbuf) := by
  cases taken with
  | none => exact .none
  | some after =>
      obtain ⟨orderly, bytes⟩ := same after rfl
      exact .some ⟨orderly, valid, bytes, rfl⟩

/-- What a step does depends on the bytes of the buffer only. -/
theorem step_alike (alike : Alike first second) (action : SendAction Endpoint Slot) :
    Option.Rel Alike (first.step action) (second.step action) := by
  rcases alike with ⟨⟨sent, pending, front, orderly⟩, valid, bytes, rest⟩
  generalize second.write.wbuf = wbuf at valid bytes rest
  subst rest
  have phase : (first.withBuffer wbuf).phase = first.phase := rfl
  have kept : ∀ after, first.step action = some after →
      ∃ sent pending front, after.Orderly sent pending front :=
    fun after taken => step_orderly orderly taken
  cases action with
  | asyncSendto datagram =>
      by_cases sending : first.phase = .sending
      · simp only [step, phase, sending]
        exact .none
      · have appended := Buffer.append_valid valid datagram.payload
        have firstAppended := Buffer.append_valid orderly.valid datagram.payload
        have other : (first.withBuffer wbuf).step (.asyncSendto datagram) =
            (first.withBuffer wbuf).stepAsyncSendto datagram := step_asyncSendto sending
        rw [step_asyncSendto sending] at kept ⊢
        rw [other, stepAsyncSendto_withBuffer]
        refine alike_map appended.1 fun after taken => ⟨kept after taken, ?_⟩
        rw [appended.2, wbuf_stepAsyncSendto taken, firstAppended.2, bytes]
  | complete =>
      simp only [step, phase] at kept ⊢
      cases at_ : first.phase with
      | idle =>
          simp only [at_] at kept
          exact .some ⟨kept _ rfl, valid, bytes, rfl⟩
      | sending => exact .none
      | handling size => exact .none
  | sendto result =>
      simp only [step, phase] at kept ⊢
      cases at_ : first.phase with
      | idle => exact .none
      | sending =>
          simp only [at_] at kept
          have same := front_withBuffer orderly.valid valid bytes
            fun op first => orderly.front_within at_ first
          dsimp only
          rw [stepSendto_withBuffer same]
          refine alike_map valid fun after taken => ⟨kept after taken, ?_⟩
          rw [wbuf_stepSendto taken, bytes]
      | handling size => exact .none
  | handled =>
      simp only [step, phase] at kept ⊢
      cases at_ : first.phase with
      | idle => exact .none
      | sending => exact .none
      | handling size =>
          simp only [at_] at kept
          have within := orderly.handling_within at_
          have firstConsumed := Buffer.consume_valid orderly.valid
            (by rwa [← Buffer.length_readable orderly.valid] : size ≤ first.write.wbuf.size)
          have consumed := Buffer.consume_valid valid
            (by rwa [← Buffer.length_readable valid, bytes] : size ≤ wbuf.size)
          refine .some ⟨kept _ rfl, consumed.1, ?_, rfl⟩
          exact consumed.2.trans (by rw [bytes]; exact firstConsumed.2.symm)

/-! ## A reset -/

/-- With nothing queued, the socket is as new but for the storage of its buffer. -/
theorem alike_reset {sent pending : List (Datagram Endpoint Slot)} {front : List Byte}
    (orderly : sender.Orderly sent pending front) (idle : sender.phase = .idle)
    (none : sender.write.queue = []) : Alike (initial sender.events) sender.reset := by
  have entries := orderly.entries
  have phase := orderly.phase
  have bytes := orderly.bytes
  simp only [waiting, idle] at entries
  simp only [InPhase, idle] at phase
  rw [none] at entries
  obtain rfl := List.forall₂_nil_left_iff.mp entries
  rw [phase.1] at bytes
  have clear : ¬WriteInterest sender.events := fun set => phase.2.mp set none
  refine ⟨⟨_, _, _, initial_orderly clear⟩, orderly.valid, bytes, ?_⟩
  rw [reset, SocketWriteQueue.reset, orderly.next]
  rfl

/-- Runs from there look as with a new queue. -/
theorem freshAfterReset_of_empty {sent pending : List (Datagram Endpoint Slot)}
    {front : List Byte} (orderly : sender.Orderly sent pending front)
    (idle : sender.phase = .idle) (none : sender.write.queue = []) : sender.FreshAfterReset := by
  have clear : ¬WriteInterest sender.events := by
    have phase := orderly.phase
    simp only [InPhase, idle] at phase
    exact fun set => phase.2.mp set none
  have lockstep : ∀ actions, Option.Rel Alike
      (execute step unguarded (initial sender.events) actions)
      (execute step unguarded sender.reset actions) :=
    execute_lockstep (fun _ _ _ _ => Iff.rfl) (fun _ _ action alike => step_alike alike action)
      (alike_reset orderly idle none)
  refine ⟨fun actions => ?_, fun actions later taken => ?_⟩
  · have both := lockstep actions
    generalize execute step unguarded (initial sender.events) actions = fresh at both
    generalize execute step unguarded sender.reset actions = later at both
    cases both with
    | some alike => exact congrArg some alike.observed
    | none => rfl
  · have both := lockstep actions
    rw [taken] at both
    cases freshTaken : execute step unguarded (initial sender.events) actions with
    | none =>
        rw [freshTaken] at both
        cases both
    | some fresh =>
        rw [freshTaken] at both
        cases both with
        | some alike =>
            have sends := reachable_sendsInOrder clear ⟨actions, Run.of_execute freshTaken⟩
            rw [alike.rest]
            exact sends.attempts

/-- The first bytes that are sent after a reset are those that were there before. -/
theorem attempts_reset {sent pending : List (Datagram Endpoint Slot)} {front : List Byte}
    (orderly : sender.Orderly sent pending front) (datagram : Datagram Endpoint Slot)
    (result : SendResult) :
    (execute step unguarded sender.reset [.asyncSendto datagram, .complete, .sendto result]).map
      (fun later => (later.queued, later.attempts)) =
      some ([datagram], [{
        bytes := (sender.write.wbuf.readable ++ datagram.payload).take datagram.payload.length
        flags := 0
        endpoint := datagram.endpoint
        result }]) := by
  have next := orderly.next
  have appended := Buffer.append_valid orderly.valid datagram.payload
  have within : datagram.payload.length ≤ (sender.write.wbuf.append datagram.payload).size := by
    rw [← Buffer.length_readable appended.1, appended.2, List.length_append]
    exact Nat.le_add_left _ _
  have shown := Buffer.take_drop_rpos within
  rw [appended.2] at shown
  simp only [execute, unguarded, if_true, step, reset, SocketWriteQueue.reset, stepAsyncSendto,
    SocketWriteQueue.asyncSendto, next, SocketWrite.empty, SocketWrite.cleared,
    Option.isNone_none, Option.map_some, Option.bind_some, List.nil_append, loop,
    List.isEmpty_cons, stepSendto, SocketWriteQueue.front, List.head?_cons, SocketWrite.setBuf,
    shown]
  cases result.wouldBlock <;> rfl

/-- With anything queued, there is a datagram that is sent with other bytes than its own. -/
theorem not_freshAfterReset_of_pending {sent pending : List (Datagram Endpoint Slot)}
    {front : List Byte} (orderly : sender.Orderly sent pending front) (idle : sender.phase = .idle)
    (some : sender.write.queue ≠ []) : ¬sender.FreshAfterReset := by
  have entries := orderly.entries
  have phase := orderly.phase
  have bytes := orderly.bytes
  simp only [waiting, idle] at entries
  simp only [InPhase, idle] at phase
  cases pending with
  | nil => exact absurd (List.forall₂_nil_right_iff.mp entries) some
  | cons old others =>
      rw [phase.1, List.nil_append, List.map_cons, List.flatten_cons] at bytes
      rcases payload : old.payload with - | ⟨byte, more⟩
      · exact absurd payload old.nonempty
      · have different : byte + 1 ≠ byte := by
          intro same
          have numbers := congrArg UInt8.toNat same
          have one : (1 : UInt8).toNat = 1 := rfl
          have small := byte.toNat_lt
          rw [UInt8.toNat_add, one] at numbers
          omega
        rw [payload] at bytes
        intro fresh
        have sentBytes := attempts_reset orderly
          { payload := [byte + 1], nonempty := List.cons_ne_nil _ _, endpoint := old.endpoint
            slot := old.slot }
          { size := 1, ec := 0 }
        obtain ⟨later, taken, histories⟩ := Option.map_eq_some_iff.mp sentBytes
        obtain ⟨queued, attempts⟩ := Prod.mk.inj histories
        have own := fresh.own _ later taken
        rw [queued, attempts] at own
        obtain ⟨datagram, first, same, -⟩ := own [] _ (List.prefix_refl _)
        obtain rfl := Option.some.inj first
        rw [bytes] at same
        exact different (List.cons.inj same).1.symm

/--
In every run of a socket, at every reset between calls: the queue behaves as a new one
afterwards, for every later sequence of calls, exactly if nothing was queued.
-/
theorem reachable_freshAfterReset_iff (clear : ¬WriteInterest events)
    (reached : Reachable step unguarded (initial events) sender) (idle : sender.phase = .idle) :
    sender.FreshAfterReset ↔ sender.write.queue = [] := by
  obtain ⟨sent, pending, front, orderly⟩ := reachable_orderly clear reached
  constructor
  · intro fresh
    by_contra some
    exact not_freshAfterReset_of_pending orderly idle some fresh
  · exact freshAfterReset_of_empty orderly idle

/-- A datagram that is sent, so that nothing is queued. -/
def sentBefore : List (SendAction Nat Nat) :=
  [.asyncSendto { payload := [4, 5], nonempty := List.cons_ne_nil _ _, endpoint := 5, slot := 7 },
    .complete, .sendto { size := 2, ec := 0 }, .handled]

theorem reachable_freshAfterReset_iff_sentBefore :
    ∃ sender : DgramSender Nat Nat,
      (sender.phase, sender.write.queue.isEmpty, sender.write.wbuf.rpos) = (.idle, true, 2) ∧
        sender.FreshAfterReset := by
  have computed : (execute step unguarded (initial PollEvents.none) sentBefore).map
      (fun sender => (sender.phase, sender.write.queue.isEmpty, sender.write.wbuf.rpos)) =
        some (.idle, true, 2) := by
    decide +kernel
  rcases Reachable.of_execute computed with ⟨sender, reached, same⟩
  obtain ⟨idle, empty⟩ := Prod.mk.inj same
  have none : sender.write.queue = [] := List.isEmpty_iff.mp (Prod.mk.inj empty).1
  exact ⟨sender, same, (reachable_freshAfterReset_iff (by decide) reached idle).mpr none⟩

/-- A datagram is queued and the queue is reset. -/
def queuedBefore : List (SendAction Nat Nat) :=
  [.asyncSendto { payload := [4, 5], nonempty := List.cons_ne_nil _ _, endpoint := 5, slot := 7 }]

/-- The next datagram is one byte, 6. -/
def queuedAfter : List (SendAction Nat Nat) :=
  [.asyncSendto { payload := [6], nonempty := List.cons_ne_nil _ _, endpoint := 6, slot := 8 },
    .complete, .sendto { size := 1, ec := 0 }]

theorem not_freshAfterReset_queuedBefore :
    ∃ sender : DgramSender Nat Nat,
      Reachable step unguarded (initial PollEvents.none) sender ∧ sender.phase = .idle ∧
        (execute step unguarded sender.reset queuedAfter).map
          (fun later => later.attempts.map SendAttempt.bytes) = some [[4]] ∧
        (execute step unguarded (initial sender.events) queuedAfter).map
          (fun later => later.attempts.map SendAttempt.bytes) = some [[6]] ∧
        ¬sender.FreshAfterReset := by
  have computed : (execute step unguarded (initial PollEvents.none) queuedBefore).map
      (fun sender => (sender.phase,
        (execute step unguarded sender.reset queuedAfter).map
          (fun later => later.attempts.map SendAttempt.bytes),
        (execute step unguarded (initial sender.events) queuedAfter).map
          (fun later => later.attempts.map SendAttempt.bytes))) =
        some (.idle, some [[4]], some [[6]]) := by
    decide +kernel
  rcases Reachable.of_execute computed with ⟨sender, reached, same⟩
  obtain ⟨idle, sends⟩ := Prod.mk.inj same
  obtain ⟨after, new⟩ := Prod.mk.inj sends
  refine ⟨sender, reached, idle, after, new, fun fresh => ?_⟩
  have alike := congrArg (Option.map fun seen => seen.1.map SendAttempt.bytes)
    (fresh.same queuedAfter)
  simp only [Option.map_map] at alike
  exact absurd (after.symm.trans (alike.trans new)) (by decide)

end DgramSender

end ReactiveToolbox.Io
