import Mathlib.Data.List.Infix
import ReactiveToolbox.Io.DgramSocket
import ReactiveToolbox.Lib.Transition

/-!
# Datagrams are sent in order

The entries of the queue and the bytes of `wbuf_` advance together: behind the
payload of the entry whose handler is running, the buffer holds the payloads of the
entries that are still to be sent.  Every call of `sendto` is given the datagram that
is next in line.
-/

namespace ReactiveToolbox.Io

open ReactiveToolbox.Lib

universe u v

variable {Endpoint : Type u} {Slot : Type v}

/-! ## The Write interest -/

/-- The handle asks for `PollEvents::Write`. -/
def WriteInterest (events : PollEvents) : Prop := events &&& PollEvents.write ≠ 0

instance (events : PollEvents) : Decidable (WriteInterest events) :=
  inferInstanceAs (Decidable (_ ≠ _))

namespace SocketWriteQueue

theorem addWrite_interest (events : PollEvents) : WriteInterest (addWrite events) := by
  have present : PollEvents.write ≠ (0 : PollEvents) := by decide
  unfold addWrite WriteInterest
  split
  · have all : events.plus PollEvents.write &&& PollEvents.write = PollEvents.write := by
      rw [PollEvents.plus]
      ext index
      simp only [BitVec.getElem_and, BitVec.getElem_or, Bool.and_eq_right_iff_imp,
        Bool.or_eq_true]
      exact Or.inr
    rwa [all]
  · rename_i same
    rwa [not_not.mp same]

theorem delWrite_interest (events : PollEvents) : ¬ WriteInterest (delWrite events) := by
  unfold delWrite WriteInterest
  split
  · have none : events.minus PollEvents.write &&& PollEvents.write = 0 := by
      rw [PollEvents.minus]
      ext index
      simp
    simp [none]
  · assumption

end SocketWriteQueue

/-! ## The history of a sender -/

/-- The attempts that did not block. -/
def settled (attempts : List (SendAttempt Endpoint)) : List (SendAttempt Endpoint) :=
  attempts.filter fun attempt => !attempt.result.wouldBlock

/-- Every attempt is of the datagram after those that have been settled. -/
def InOrder (queued : List (Datagram Endpoint Slot)) (attempts : List (SendAttempt Endpoint)) :
    Prop :=
  ∀ early attempt, early ++ [attempt] <+: attempts →
    ∃ datagram, queued[(settled early).length]? = some datagram ∧
      attempt.bytes = datagram.payload ∧ attempt.endpoint = datagram.endpoint ∧
      attempt.flags = 0

namespace InOrder

variable {queued : List (Datagram Endpoint Slot)} {attempts : List (SendAttempt Endpoint)}

theorem queue (inOrder : InOrder queued attempts) (datagram : Datagram Endpoint Slot) :
    InOrder (queued ++ [datagram]) attempts := by
  intro early attempt within
  rcases inOrder early attempt within with ⟨found, next, same⟩
  refine ⟨found, ?_, same⟩
  obtain ⟨inside, -⟩ := List.getElem?_eq_some_iff.mp next
  rw [List.getElem?_append_left inside, next]

theorem attempt (inOrder : InOrder queued attempts) {last : SendAttempt Endpoint}
    {datagram : Datagram Endpoint Slot}
    (next : queued[(settled attempts).length]? = some datagram)
    (bytes : last.bytes = datagram.payload) (endpoint : last.endpoint = datagram.endpoint)
    (flags : last.flags = 0) : InOrder queued (attempts ++ [last]) := by
  intro early attempt within
  rcases List.prefix_concat_iff.mp within with whole | before
  · obtain ⟨rfl, rfl⟩ := List.append_inj' whole rfl |>.imp_right List.singleton_inj.mp
    exact ⟨datagram, next, bytes, endpoint, flags⟩
  · exact inOrder early attempt before

end InOrder

/-! ## The invariant -/

/-- An entry of the queue stands for a datagram. -/
structure SocketWrite.Carries (op : SocketWrite Endpoint Slot)
    (datagram : Datagram Endpoint Slot) : Prop where
  slot : op.slot = some datagram.slot
  endpoint : op.endpoint = some datagram.endpoint
  flags : op.flags = 0
  size : op.data.size = datagram.payload.length

namespace DgramSender

/-- The entries whose handler has not been called. -/
def waiting (sender : DgramSender Endpoint Slot) : List (SocketWrite Endpoint Slot) :=
  match sender.phase with
  | .idle | .sending => sender.write.queue
  | .handling _ => sender.write.queue.tail

/-- What the phase says about the queue and the front of the buffer. -/
def InPhase (sender : DgramSender Endpoint Slot) (front : List Byte) : Prop :=
  match sender.phase with
  | .idle => front = [] ∧ (WriteInterest sender.events ↔ sender.write.queue ≠ [])
  | .sending => front = [] ∧ sender.write.queue ≠ []
  | .handling size => size = front.length ∧
      ∃ op rest, sender.write.queue = op :: rest ∧ op.empty = true

/-- The datagrams that are settled, with their completions, and those that are pending. -/
structure Recorded (sender : DgramSender Endpoint Slot)
    (sent pending : List (Datagram Endpoint Slot)) : Prop where
  queued : sender.queued = sent ++ pending
  counted : (settled sender.attempts).length = sent.length
  completed : sender.completions =
    List.zipWith (fun datagram attempt => (datagram.slot, attempt.result)) sent
      (settled sender.attempts)
  inOrder : InOrder sender.queued sender.attempts

/-- Queue and buffer hold the pending datagrams, behind the payload that is being handled. -/
structure Orderly (sender : DgramSender Endpoint Slot)
    (sent pending : List (Datagram Endpoint Slot)) (front : List Byte) : Prop where
  valid : sender.write.wbuf.Valid
  next : sender.write.next = .cleared
  entries : List.Forall₂ SocketWrite.Carries sender.waiting pending
  bytes : sender.write.wbuf.readable = front ++ (pending.map Datagram.payload).flatten
  phase : sender.InPhase front
  recorded : sender.Recorded sent pending

theorem initial_orderly {events : PollEvents} (clear : ¬ WriteInterest events) :
    (initial events : DgramSender Endpoint Slot).Orderly [] [] [] where
  valid := Buffer.create_valid
  next := rfl
  entries := .nil
  bytes := rfl
  phase := ⟨rfl, iff_of_false clear (fun some => some rfl)⟩
  recorded := by
    refine ⟨rfl, rfl, rfl, fun early attempt within => ?_⟩
    exact absurd (List.prefix_nil.mp within) (by simp)

namespace Orderly

variable {sender sender' : DgramSender Endpoint Slot} {sent pending : List (Datagram Endpoint Slot)}
    {front : List Byte}

/-- A datagram that is queued comes last. -/
theorem asyncSendto (orderly : sender.Orderly sent pending front)
    (calm : sender.phase ≠ .sending) (datagram : Datagram Endpoint Slot) :
    ∃ sender', sender.stepAsyncSendto datagram = some sender' ∧
      WriteInterest sender'.events ∧ sender'.write.queue ≠ [] ∧
      sender'.Orderly sent (pending ++ [datagram]) front := by
  have next := orderly.next
  have phase := orderly.phase
  have entries := orderly.entries
  have appended := Buffer.append_valid orderly.valid datagram.payload
  have interest := SocketWriteQueue.addWrite_interest sender.events
  have empty : ({ sender.write.next with endpoint := some datagram.endpoint } :
      SocketWrite Endpoint Slot).empty = true := by
    rw [next]
    rfl
  simp only [stepAsyncSendto, SocketWriteQueue.asyncSendto, empty, if_true, Option.map_some]
  have carried : SocketWrite.Carries {
      slot := some datagram.slot
      data := { data := none, size := datagram.payload.length }
      endpoint := some datagram.endpoint
      flags := sender.write.next.flags } datagram :=
    ⟨rfl, rfl, by rw [next]; rfl, rfl⟩
  unfold waiting at entries
  unfold InPhase at phase
  have recorded := orderly.recorded
  refine ⟨_, rfl, interest, by simp, appended.1, rfl, ?_, ?_, ?_, ?_, recorded.counted,
    recorded.completed, ?_⟩
  · unfold waiting
    cases at_ : sender.phase with
    | idle =>
        simp only [at_] at entries ⊢
        exact List.rel_append entries (.cons carried .nil)
    | sending => exact absurd at_ calm
    | handling size =>
        simp only [at_] at entries phase ⊢
        rcases phase with ⟨-, op, rest, queue, -⟩
        rw [queue] at entries ⊢
        exact List.rel_append entries (.cons carried .nil)
  · simp only [appended.2, orderly.bytes, List.map_append, List.flatten_append,
      List.append_assoc, List.map_singleton, List.flatten_singleton]
  · unfold InPhase
    cases at_ : sender.phase with
    | idle =>
        simp only [at_] at phase ⊢
        exact ⟨phase.1, iff_of_true interest (by simp)⟩
    | sending => exact absurd at_ calm
    | handling size =>
        simp only [at_] at phase ⊢
        rcases phase with ⟨length, op, rest, queue, reset⟩
        exact ⟨length, op, _, by rw [queue, List.cons_append], reset⟩
  · simp only [recorded.queued, List.append_assoc]
  · exact recorded.inOrder.queue datagram

/-- The loop of `complete` is entered, or left with nothing queued. -/
theorem loop (valid : sender.write.wbuf.Valid) (next : sender.write.next = .cleared)
    (entries : List.Forall₂ SocketWrite.Carries sender.write.queue pending)
    (bytes : sender.write.wbuf.readable = (pending.map Datagram.payload).flatten)
    (clear : sender.write.queue = [] → ¬ WriteInterest sender.events)
    (recorded : sender.Recorded sent pending) :
    sender.loop.Orderly sent pending [] := by
  have same : sender.loop.waiting = sender.write.queue := by
    rw [DgramSender.loop]
    cases sender.write.queue.isEmpty <;> rfl
  refine ⟨valid, next, ?_, bytes, ?_, ⟨recorded.queued, recorded.counted, recorded.completed,
    recorded.inOrder⟩⟩
  · rwa [same]
  · cases queue : sender.write.queue with
    | nil =>
        have phase : sender.loop.phase = .idle := by
          simp [DgramSender.loop, queue]
        simp only [InPhase, phase]
        exact ⟨trivial, iff_of_false (clear queue) (fun some => some queue)⟩
    | cons op rest =>
        have phase : sender.loop.phase = .sending := by
          simp [DgramSender.loop, queue]
        simp only [InPhase, phase]
        exact ⟨trivial, fun none => by cases queue.symm.trans none⟩

/-- `sendto` is given the datagram that is next in line. -/
theorem sendto (orderly : sender.Orderly sent pending front) (sending : sender.phase = .sending)
    (result : SendResult) :
    ∃ sender', sender.stepSendto result = some sender' ∧
      ∃ sent' pending' front', sender'.Orderly sent' pending' front' := by
  have phase := orderly.phase
  have entries := orderly.entries
  have recorded := orderly.recorded
  have bytes := orderly.bytes
  simp only [InPhase, sending] at phase
  simp only [waiting, sending] at entries
  rcases phase with ⟨rfl, present⟩
  cases pending with
  | nil => exact absurd (List.forall₂_nil_right_iff.mp entries) present
  | cons datagram pending =>
      rcases List.forall₂_cons_right_iff.mp entries with ⟨op, rest, carries, others, queue⟩
      have bytes : sender.write.wbuf.readable =
          datagram.payload ++ (pending.map Datagram.payload).flatten := bytes
      have within : datagram.payload.length ≤ sender.write.wbuf.size := by
        rw [← Buffer.length_readable orderly.valid, bytes, List.length_append]
        exact Nat.le_add_right _ _
      have shown : (sender.write.wbuf.buf.drop sender.write.wbuf.rpos).take op.data.size =
          datagram.payload := by
        rw [carries.size, Buffer.take_drop_rpos within, bytes, List.take_left]
      have next : sender.queued[(settled sender.attempts).length]? = some datagram := by
        rw [recorded.queued, recorded.counted, List.getElem?_append_right (le_refl _),
          Nat.sub_self]
        rfl
      simp only [stepSendto, SocketWriteQueue.front, queue, List.head?_cons, Option.map_some,
        Option.bind_some, SocketWrite.setBuf, carries.endpoint, shown, carries.slot,
        carries.flags]
      by_cases blocked : result.wouldBlock
      · have same : ∀ last : SendAttempt Endpoint, last.result = result →
            settled (sender.attempts ++ [last]) = settled sender.attempts := by
          rintro last rfl
          simp [settled, blocked]
        rw [if_pos blocked]
        refine ⟨_, rfl, sent, datagram :: pending, [], orderly.valid, orderly.next, ?_, bytes,
          ?_, recorded.queued, ?_, ?_, ?_⟩
        · simp only [waiting, SocketWriteQueue.setFront, queue, List.tail_cons]
          exact .cons ⟨rfl, rfl, rfl, carries.size⟩ others
        · simp only [InPhase, SocketWriteQueue.setFront]
          exact ⟨trivial, iff_of_true (SocketWriteQueue.addWrite_interest _) (by simp)⟩
        · rw [same _ rfl, recorded.counted]
        · rw [same _ rfl, recorded.completed]
        · exact recorded.inOrder.attempt next rfl rfl rfl
      · have more : ∀ last : SendAttempt Endpoint, last.result = result →
            settled (sender.attempts ++ [last]) = settled sender.attempts ++ [last] := by
          rintro last rfl
          simp [settled, blocked]
        rw [if_neg blocked]
        refine ⟨_, rfl, sent ++ [datagram], pending, datagram.payload, orderly.valid,
          orderly.next, ?_, bytes, ?_, ?_, ?_, ?_, ?_⟩
        · simpa only [waiting, SocketWriteQueue.setFront, queue, List.tail_cons] using others
        · simp only [InPhase, SocketWriteQueue.setFront, queue, List.tail_cons]
          exact ⟨carries.size, _, _, rfl, rfl⟩
        · simp only [recorded.queued, List.append_assoc, List.singleton_append]
        · rw [more _ rfl, List.length_append, List.length_append, recorded.counted]
          rfl
        · rw [more _ rfl, List.zipWith_append recorded.counted.symm,
            recorded.completed]
          rfl
        · exact recorded.inOrder.attempt next rfl rfl rfl

/-- A handler has returned. -/
theorem handled {size : Nat} (orderly : sender.Orderly sent pending front)
    (handling : sender.phase = .handling size) :
    (sender.stepHandled size).Orderly sent pending [] := by
  have phase := orderly.phase
  have entries := orderly.entries
  have bytes := orderly.bytes
  simp only [InPhase, handling] at phase
  simp only [waiting, handling] at entries
  rcases phase with ⟨rfl, op, rest, queue, reset⟩
  have within : front.length ≤ sender.write.wbuf.size := by
    rw [← Buffer.length_readable orderly.valid, bytes, List.length_append]
    exact Nat.le_add_right _ _
  have consumed := Buffer.consume_valid orderly.valid within
  refine loop consumed.1 orderly.next entries ?_ (fun _ => ?_) ?_
  · exact consumed.2.trans (by rw [bytes, List.drop_left])
  · simp only [queue, List.head?_cons, Option.map_some, Option.getD_some, reset, if_true]
    exact SocketWriteQueue.delWrite_interest sender.events
  · have recorded := orderly.recorded
    exact ⟨recorded.queued, recorded.counted, recorded.completed, recorded.inOrder⟩

end Orderly

variable {sender sender' : DgramSender Endpoint Slot} {action : SendAction Endpoint Slot}
    {events : PollEvents}

theorem step_asyncSendto {datagram : Datagram Endpoint Slot} (calm : sender.phase ≠ .sending) :
    sender.step (.asyncSendto datagram) = sender.stepAsyncSendto datagram := by
  unfold step
  cases phase : sender.phase with
  | sending => exact absurd phase calm
  | idle => rfl
  | handling size => rfl

/-- Every step keeps the queue orderly. -/
theorem step_orderly {sent pending : List (Datagram Endpoint Slot)} {front : List Byte}
    (orderly : sender.Orderly sent pending front)
    (taken : sender.step action = some sender') :
    ∃ sent' pending' front', sender'.Orderly sent' pending' front' := by
  cases action with
  | asyncSendto datagram =>
      have calm : sender.phase ≠ .sending := by
        intro sending
        simp [step, sending] at taken
      rcases orderly.asyncSendto calm datagram with ⟨after, called, -, -, next⟩
      rw [step_asyncSendto calm] at taken
      obtain rfl := Option.some.inj (called.symm.trans taken)
      exact ⟨_, _, _, next⟩
  | complete =>
      cases idle : sender.phase with
      | idle =>
          simp only [step, idle, Option.some.injEq] at taken
          subst taken
          have phase := orderly.phase
          have entries := orderly.entries
          simp only [InPhase, idle] at phase
          simp only [waiting, idle] at entries
          rcases phase with ⟨rfl, interest⟩
          exact ⟨_, _, _, .loop orderly.valid orderly.next entries orderly.bytes
            (fun none set => interest.mp set none) orderly.recorded⟩
      | sending => simp [step, idle] at taken
      | handling size => simp [step, idle] at taken
  | sendto result =>
      cases sending : sender.phase with
      | sending =>
          simp only [step, sending] at taken
          rcases orderly.sendto sending result with ⟨after, called, next⟩
          obtain rfl := Option.some.inj (called.symm.trans taken)
          exact next
      | idle => simp [step, sending] at taken
      | handling size => simp [step, sending] at taken
  | handled =>
      cases handling : sender.phase with
      | handling size =>
          simp only [step, handling, Option.some.injEq] at taken
          subst taken
          exact ⟨_, _, _, orderly.handled handling⟩
      | idle => simp [step, handling] at taken
      | sending => simp [step, handling] at taken

/-- The phase in which an action can come. -/
def Enabled (sender : DgramSender Endpoint Slot) : SendAction Endpoint Slot → Prop
  | .asyncSendto _ => sender.phase ≠ .sending
  | .complete => sender.phase = .idle
  | .sendto _ => sender.phase = .sending
  | .handled => ∃ size, sender.phase = .handling size

/--
What a socket does with its datagrams, at any time: `sendto` gets them in the order
they were queued, each completion gets its own result, and nothing that can come next
is undefined.  Between calls the sizes add up, what is not settled is still queued,
and the interest in Write says whether anything is.
-/
structure SendsInOrder (sender : DgramSender Endpoint Slot) : Prop where
  attempts : InOrder sender.queued sender.attempts
  within : (settled sender.attempts).length ≤ sender.queued.length
  completions : sender.completions =
    List.zipWith (fun datagram attempt => (datagram.slot, attempt.result)) sender.queued
      (settled sender.attempts)
  sizes : sender.phase = .idle →
    sender.write.wbuf.size = (sender.write.queue.map fun op => op.data.size).sum
  kept : sender.phase = .idle →
    (settled sender.attempts).length + sender.write.queue.length = sender.queued.length
  interest : sender.phase = .idle → (WriteInterest sender.events ↔ sender.write.queue ≠ [])
  queues : ∀ datagram after, sender.step (.asyncSendto datagram) = some after →
    WriteInterest after.events ∧ after.write.queue ≠ []
  defined : ∀ action, sender.Enabled action → (sender.step action).isSome

theorem Carries.sizes {ops : List (SocketWrite Endpoint Slot)}
    {pending : List (Datagram Endpoint Slot)}
    (carried : List.Forall₂ SocketWrite.Carries ops pending) :
    (ops.map fun op => op.data.size).sum = (pending.map Datagram.payload).flatten.length := by
  induction carried with
  | nil => rfl
  | cons carries _ ih =>
      rw [List.map_cons, List.sum_cons, ih, carries.size, List.map_cons, List.flatten_cons,
        List.length_append]

theorem Orderly.sendsInOrder {sent pending : List (Datagram Endpoint Slot)} {front : List Byte}
    (orderly : sender.Orderly sent pending front) : sender.SendsInOrder := by
  have recorded := orderly.recorded
  refine ⟨recorded.inOrder, ?_, ?_, fun idle => ?_, fun idle => ?_, fun idle => ?_,
    fun datagram after taken => ?_, fun action enabled => ?_⟩
  · rw [recorded.counted, recorded.queued, List.length_append]
    exact Nat.le_add_right _ _
  · rw [recorded.queued, ← List.append_nil (settled sender.attempts),
      List.zipWith_append recorded.counted.symm, ← recorded.completed, List.zipWith_nil_right,
      List.append_nil]
  · have entries := orderly.entries
    have phase := orderly.phase
    simp only [waiting, idle] at entries
    simp only [InPhase, idle] at phase
    rw [Carries.sizes entries, ← Buffer.length_readable orderly.valid, orderly.bytes, phase.1]
    rfl
  · have entries := orderly.entries
    simp only [waiting, idle] at entries
    rw [recorded.counted, recorded.queued, List.length_append, entries.length_eq]
  · have phase := orderly.phase
    simp only [InPhase, idle] at phase
    exact phase.2
  · have calm : sender.phase ≠ .sending := by
      intro sending
      simp [step, sending] at taken
    rcases orderly.asyncSendto calm datagram with ⟨sender', called, interest, present, -⟩
    rw [step_asyncSendto calm] at taken
    obtain rfl := Option.some.inj (called.symm.trans taken)
    exact ⟨interest, present⟩
  · cases action with
    | asyncSendto datagram =>
        rcases orderly.asyncSendto enabled datagram with ⟨after, called, -⟩
        rw [step_asyncSendto enabled, called]
        rfl
    | complete =>
        have idle : sender.phase = .idle := enabled
        simp [step, idle]
    | sendto result =>
        have sending : sender.phase = .sending := enabled
        rcases orderly.sendto sending result with ⟨after, called, -⟩
        simp only [step, sending, called]
        rfl
    | handled =>
        rcases enabled with ⟨size, handling⟩
        simp [step, handling]

/-- In every run the queue stays orderly. -/
theorem reachable_orderly (clear : ¬ WriteInterest events)
    (reached : Reachable step unguarded (initial events) sender) :
    ∃ sent pending front, sender.Orderly sent pending front := by
  have preserved : ∀ before action after, (∃ sent pending front,
      (before : DgramSender Endpoint Slot).Orderly sent pending front) →
        unguarded before action → before.step action = some after →
          ∃ sent pending front, after.Orderly sent pending front := by
    rintro before action after ⟨sent, pending, front, orderly⟩ - taken
    exact step_orderly orderly taken
  exact Reachable.invariant ⟨[], [], [], initial_orderly clear⟩ preserved reached

/-- In every run the datagrams are sent in order. -/
theorem reachable_sendsInOrder (clear : ¬ WriteInterest events)
    (reached : Reachable step unguarded (initial events) sender) : sender.SendsInOrder := by
  obtain ⟨sent, pending, front, orderly⟩ := reachable_orderly clear reached
  exact orderly.sendsInOrder

/-- Two datagrams, the second queued by the handler of the first, which blocks once. -/
def queuedByHandler : List (SendAction Nat Nat) :=
  [.asyncSendto { payload := [1, 2], nonempty := by decide, endpoint := 5, slot := 7 },
    .complete, .sendto { size := -1, ec := ewouldblock },
    .complete, .sendto { size := 2, ec := 0 },
    .asyncSendto { payload := [3], nonempty := by decide, endpoint := 6, slot := 8 },
    .handled, .sendto { size := -1, ec := 90 }, .handled]

theorem reachable_sendsInOrder_queuedByHandler :
    ∃ sender : DgramSender Nat Nat,
      sender.completions = [(7, { size := 2, ec := 0 }), (8, { size := -1, ec := 90 })] ∧
        sender.SendsInOrder := by
  have computed : (execute step unguarded (initial PollEvents.none) queuedByHandler).map
      (fun sender => sender.completions) =
        some [(7, { size := 2, ec := 0 }), (8, { size := -1, ec := 90 })] := by
    decide +kernel
  rcases Reachable.of_execute computed with ⟨sender, reached, completed⟩
  exact ⟨sender, completed, reachable_sendsInOrder (by decide) reached⟩

end DgramSender

end ReactiveToolbox.Io
