import ReactiveToolbox.Http.Conn
import ReactiveToolbox.Io.EpollSync
import ReactiveToolbox.Lib.Transition

/-!
# The output of a connection

What the socket has taken is at all times a prefix of what was committed.  Two
slips of `flush_output` are bounded here: a write that would block ends the
connection, and the interest in writing never reaches the poller.
-/

namespace ReactiveToolbox.Http

open ReactiveToolbox.Io
open ReactiveToolbox.Lib

namespace Conn

/-! ## What holds while an event is handled -/

/-- The committed bytes are those the socket has taken and those still in `out_`. -/
structure Accounted (conn : Conn) : Prop where
  valid : conn.out_.Valid
  balance : conn.handed ++ conn.out_.readable = conn.committed

/-- What no code that runs under the lock changes, and what it only adds to. -/
structure Within (before after : Conn) : Prop where
  sock : after.sock = before.sock
  epoll : after.epoll = before.epoll
  deleted : after.deleted = before.deleted
  locks : after.locks = before.locks
  writes : after.writes = before.writes
  errorCalls : before.errorCalls ≤ after.errorCalls
  disposals : before.disposals ≤ after.disposals
  pending : before.dispose_ = true → after.dispose_ = true
  accounted : Accounted before → Accounted after

variable {conn before middle after : Conn}

theorem Within.refl (conn : Conn) : Within conn conn :=
  ⟨rfl, rfl, rfl, rfl, rfl, le_rfl, le_rfl, id, id⟩

theorem Within.trans (first : Within before middle) (second : Within middle after) :
    Within before after where
  sock := second.sock.trans first.sock
  epoll := second.epoll.trans first.epoll
  deleted := second.deleted.trans first.deleted
  locks := second.locks.trans first.locks
  writes := second.writes.trans first.writes
  errorCalls := first.errorCalls.trans second.errorCalls
  disposals := first.disposals.trans second.disposals
  pending := second.pending ∘ first.pending
  accounted := second.accounted ∘ first.accounted

/-- What the code that reads input and calls the application leaves alone. -/
structure Reading (before after : Conn) : Prop extends Within before after where
  writeBlocked : after.writeBlocked = before.writeBlocked

theorem Reading.refl (conn : Conn) : Reading conn conn :=
  ⟨.refl conn, rfl⟩

theorem Reading.trans (first : Reading before middle) (second : Reading middle after) :
    Reading before after :=
  ⟨first.toWithin.trans second.toWithin, second.writeBlocked.trans first.writeBlocked⟩

theorem commitResponse_reading (conn : Conn) (response : List Byte) :
    Reading conn (conn.commitResponse response) := by
  refine ⟨⟨rfl, rfl, rfl, rfl, rfl, le_rfl, le_rfl, id, fun accounted => ?_⟩, rfl⟩
  rcases Buffer.append_valid accounted.valid response with ⟨valid, readable⟩
  refine ⟨valid, ?_⟩
  simp only [commitResponse]
  rw [readable, ← List.append_assoc, accounted.balance]

theorem respond_reading (conn : Conn) (responses : List (List Byte)) :
    Reading conn (conn.respond responses) := by
  induction responses generalizing conn with
  | nil => exact .refl conn
  | cons first rest ih => exact (commitResponse_reading conn first).trans (ih _)

theorem onHttpError_reading (conn : Conn) (slot : ErrorSlot) :
    Reading conn (conn.onHttpError slot) := by
  have called : Reading conn { conn with errorCalls := conn.errorCalls + 1 } :=
    ⟨⟨rfl, rfl, rfl, rfl, rfl, Nat.le_succ _, le_rfl, id,
      fun accounted => ⟨accounted.1, accounted.2⟩⟩, rfl⟩
  exact called.trans (respond_reading _ _)

theorem dispose_reading {drain : WriteOutcome} (locked : conn.locks ≠ 0)
    (disposed : conn.dispose drain = some after) :
    Reading conn after ∧ after.dispose_ = true ∧ conn.disposals < after.disposals := by
  simp only [dispose, locked, if_false, Option.some.injEq] at disposed
  subst disposed
  exact ⟨⟨⟨rfl, rfl, rfl, rfl, rfl, le_rfl, Nat.le_succ _, fun _ => rfl,
    fun accounted => ⟨accounted.1, accounted.2⟩⟩, rfl⟩, rfl, Nat.lt_succ_self _⟩

/-- A failing callback has called the error slot and asked for disposal. -/
theorem fail_reading {conn after : Conn} {drain : WriteOutcome} {error : ErrorSlot}
    {goesOn : Bool} (locked : conn.locks ≠ 0)
    (failed : (if error.throws then none
      else ((conn.onHttpError error).dispose drain).map fun conn => (conn, false)) =
        some (after, goesOn)) :
    Reading conn after := by
  split at failed
  · cases failed
  · rcases Option.map_eq_some_iff.mp failed with ⟨disposed, taken, result⟩
    cases result
    have called := onHttpError_reading conn error
    exact called.trans (dispose_reading (by rw [called.locks]; exact locked) taken).1

theorem callback_reading {drain : WriteOutcome} {callback : Callback} {goesOn : Bool}
    (locked : conn.locks ≠ 0)
    (called : conn.callback drain callback = some (after, goesOn)) :
    Reading conn after := by
  cases callback with
  | messageBegin =>
      cases called
      exact ⟨⟨rfl, rfl, rfl, rfl, rfl, le_rfl, le_rfl, id,
        fun accounted => ⟨accounted.1, accounted.2⟩⟩, rfl⟩
  | data failure =>
      cases failure with
      | none =>
          cases called
          exact .refl conn
      | some error => exact fail_reading locked called
  | messageEnd slot =>
      rcases Option.bind_eq_some_iff.mp called with ⟨answered, answering, rest⟩
      have ended : Reading conn { conn with inProgress := false } :=
        ⟨⟨rfl, rfl, rfl, rfl, rfl, le_rfl, le_rfl, id,
          fun accounted => ⟨accounted.1, accounted.2⟩⟩, rfl⟩
      have responded := ended.trans (respond_reading _ slot.responses)
      have answered_reading : Reading conn answered := by
        split at answering
        · exact responded.trans
            (dispose_reading (by rw [responded.locks]; exact locked) answering).1
        · cases answering
          exact responded
      split at rest
      · cases rest
        exact answered_reading
      · exact answered_reading.trans
          (fail_reading (by rw [answered_reading.locks]; exact locked) rest)

theorem runCallbacks_reading {drain : WriteOutcome} {callbacks : List Callback} {goesOn : Bool}
    (locked : conn.locks ≠ 0)
    (ran : conn.runCallbacks drain callbacks = some (after, goesOn)) :
    Reading conn after := by
  induction callbacks generalizing conn with
  | nil =>
      cases ran
      exact .refl _
  | cons first rest ih =>
      rcases Option.bind_eq_some_iff.mp ran with ⟨⟨called, on⟩, taken, remaining⟩
      have first_reading := callback_reading locked taken
      simp only at remaining
      split at remaining
      · exact first_reading.trans
          (ih (by rw [first_reading.locks]; exact locked) remaining)
      · cases remaining
        exact first_reading

theorem flushInput_reading {drain : WriteOutcome} {script : Script} {returned : Bool}
    (locked : conn.locks ≠ 0)
    (flushed : conn.flushInput drain script = some (after, returned)) :
    Reading conn after := by
  rcases Option.map_eq_some_iff.mp flushed with ⟨⟨parsed, goesOn⟩, ran, result⟩
  have parsed_reading := runCallbacks_reading locked ran
  simp only at result
  split at result
  · cases result
    exact parsed_reading.trans ⟨⟨rfl, rfl, rfl, rfl, rfl, le_rfl, le_rfl, id,
      fun accounted => ⟨accounted.1, accounted.2⟩⟩, rfl⟩
  · cases result
    exact parsed_reading

theorem drainInput_reading {event : IoEvent} {drained : Drained}
    (locked : conn.locks ≠ 0)
    (read : conn.drainInput event = some (after, drained)) :
    Reading conn after := by
  have filled : Reading conn { conn with in_ := (readLoop 4 conn.in_ event.reads).1 } :=
    ⟨⟨rfl, rfl, rfl, rfl, rfl, le_rfl, le_rfl, id,
      fun accounted => ⟨accounted.1, accounted.2⟩⟩, rfl⟩
  simp only [drainInput] at read
  split at read
  · cases read
    exact filled
  · rcases Option.map_eq_some_iff.mp read with ⟨⟨flushed, returned⟩, taken, result⟩
    cases result
    exact filled.trans (flushInput_reading locked taken)
  · rcases Option.map_eq_some_iff.mp read with ⟨⟨flushed, returned⟩, taken, result⟩
    cases result
    exact filled.trans (flushInput_reading locked taken)

/-- The interest in events is no part of the output. -/
theorem setEvents_within (conn : Conn) (events : PollEvents) (writeBlocked : Bool) :
    Within conn { conn.setEvents events with writeBlocked := writeBlocked } :=
  ⟨rfl, rfl, rfl, rfl, rfl, le_rfl, le_rfl, id, fun accounted => ⟨accounted.1, accounted.2⟩⟩

/-- Taking bytes off the front of `out_` as the socket takes them. -/
theorem send_within (conn : Conn) (count : Nat) :
    Within conn {
      conn with
      out_ := conn.out_.consume (conn.out_.readable.take count).length
      handed := conn.handed ++ conn.out_.readable.take count } := by
  refine ⟨rfl, rfl, rfl, rfl, rfl, le_rfl, le_rfl, id, fun accounted => ?_⟩
  have within : (conn.out_.readable.take count).length ≤ conn.out_.size := by
    rw [← Buffer.length_readable accounted.valid, List.length_take]
    exact min_le_right _ _
  rcases Buffer.consume_valid accounted.valid within with ⟨valid, readable⟩
  refine ⟨valid, ?_⟩
  have rest : conn.out_.readable.drop (conn.out_.readable.take count).length =
      conn.out_.readable.drop count := by
    conv_lhs => rw [← List.take_append_drop count conn.out_.readable]
    simp
  simp only
  rw [readable, rest, List.append_assoc, List.take_append_drop, accounted.balance]

theorem flushOutput_within {event : IoEvent} {returned : Bool}
    (locked : conn.locks ≠ 0)
    (flushed : conn.flushOutput event = some (after, returned)) :
    Within conn after := by
  unfold flushOutput at flushed
  split at flushed
  · rename_i count accepted
    have sent := send_within conn count
    simp only at flushed
    split at flushed
    · split at flushed
      · rcases Option.map_eq_some_iff.mp flushed with ⟨disposed, taken, result⟩
        cases result
        exact sent.trans (dispose_reading (by exact locked) taken).1.toWithin
      · split at flushed
        · cases flushed
          exact sent.trans (setEvents_within _ _ false)
        · cases flushed
          exact sent
    · split at flushed
      · cases flushed
        exact sent
      · cases flushed
        exact sent.trans (setEvents_within _ _ true)
  · cases flushed
    exact .refl conn
  · cases flushed
    exact .refl conn

theorem onFailure_within {event : IoEvent} (locked : conn.locks ≠ 0)
    (failed : conn.onFailure event = some after) :
    Within conn after ∧ conn.errorCalls < after.errorCalls ∧
      (event.error.throws = false → after.dispose_ = true) := by
  have called := onHttpError_reading conn event.error
  have counted : conn.errorCalls < (conn.onHttpError event.error).errorCalls :=
    (respond_reading { conn with errorCalls := conn.errorCalls + 1 }
      event.error.responses).errorCalls
  unfold onFailure at failed
  split at failed
  · rename_i throws
    cases failed
    exact ⟨called.toWithin, counted, fun returns => by simp [throws] at returns⟩
  · have disposed := dispose_reading (by rw [called.locks]; exact locked) failed
    exact ⟨(called.trans disposed.1).toWithin, counted.trans_le disposed.1.errorCalls,
      fun _ => disposed.2.1⟩

/-- After the input, at most one write is made and noted. -/
theorem afterInput_within {event : IoEvent} {drained : Drained} (locked : conn.locks ≠ 0)
    (handled : conn.afterInput event drained = some after) :
    Within conn after ∨
      ∃ done, Within conn done ∧ after = conn.recordWrite done event.write ∧
        (event.write = .wouldBlock → conn.errorCalls < done.errorCalls) := by
  cases drained with
  | malformed =>
      cases handled
      exact Or.inl (.refl conn)
  | failed => exact Or.inl (onFailure_within locked handled).1
  | closed => exact Or.inl (dispose_reading locked handled).1.toWithin
  | opened =>
      simp only [afterInput] at handled
      split at handled
      · cases handled
        exact Or.inl (.refl conn)
      · rcases Option.bind_eq_some_iff.mp handled with ⟨⟨flushed, returned⟩, flushing, rest⟩
        rcases Option.map_eq_some_iff.mp rest with ⟨done, ending, rfl⟩
        have flushed_within := flushOutput_within locked flushing
        refine Or.inr ⟨done, ?_, rfl, fun blocked => ?_⟩
        · split at ending
          · cases ending
            exact flushed_within
          · exact flushed_within.trans
              (onFailure_within (by rw [flushed_within.locks]; exact locked) ending).1
        · rw [flushOutput, blocked] at flushing
          cases flushing
          exact (onFailure_within locked ending).2.1

/-! ## The bytes that reach the socket -/

/--
What the socket has taken is a prefix of what was committed, and a write that
would block neither calls the error slot nor disposes of the connection.
-/
def SendsInOrder (conn : Conn) : Prop :=
  conn.handed <+: conn.committed ∧
    ∀ written ∈ conn.writes, written.outcome = .wouldBlock →
      written.errorCalled = false ∧ written.disposed = false

/-- The invariant of every run. -/
structure OutputInv (conn : Conn) : Prop where
  live : conn.deleted = false → Accounted conn ∧ conn.locks = 0
  ahead : conn.handed <+: conn.committed
  blocked : ∀ written ∈ conn.writes, written.outcome = .wouldBlock →
    written.errorCalled = true

theorem Accounted.ahead (accounted : Accounted conn) : conn.handed <+: conn.committed :=
  ⟨conn.out_.readable, accounted.balance⟩

/-- The last write of a connection still hands over bytes in order. -/
theorem disposeNow_inv {drain : WriteOutcome} (accounted : Accounted conn)
    (blocked : ∀ written ∈ conn.writes, written.outcome = .wouldBlock →
      written.errorCalled = true)
    (disposed : conn.disposeNow drain = some after) : OutputInv after := by
  rcases Option.map_eq_some_iff.mp disposed with ⟨polled, -, rfl⟩
  refine ⟨fun live => ?_, ?_, blocked⟩
  · cases live
  simp only
  rw [← accounted.balance]
  split
  · simp
  · rw [List.prefix_append_right_inj]
    cases drain with
    | accepted count => exact List.take_prefix _ _
    | wouldBlock => exact List.nil_prefix
    | failed => exact List.nil_prefix

/-- The last lock disposes of the connection if that has been asked for. -/
theorem unlock_cases {drain : WriteOutcome} (locks : conn.locks = 1)
    (unlocked : conn.unlock drain = some after) :
    (conn.dispose_ = false → after = { conn with locks := 0 }) ∧
    (conn.dispose_ = true → after.deleted = true ∧
      disposeNow { conn with locks := 1 } drain = some after) := by
  simp only [unlock, locks, Nat.sub_self, true_and] at unlocked
  split at unlocked
  · rename_i asked
    refine ⟨fun kept => absurd (asked.symm.trans kept) (by decide), fun _ => ⟨?_, unlocked⟩⟩
    rcases Option.map_eq_some_iff.mp unlocked with ⟨_, -, rfl⟩
    rfl
  · rename_i kept
    cases unlocked
    exact ⟨fun _ => rfl, fun asked => absurd asked kept⟩

theorem unlock_inv {drain : WriteOutcome} (accounted : Accounted conn) (locks : conn.locks = 1)
    (blocked : ∀ written ∈ conn.writes, written.outcome = .wouldBlock →
      written.errorCalled = true)
    (unlocked : conn.unlock drain = some after) : OutputInv after := by
  rcases unlock_cases locks unlocked with ⟨kept, gone⟩
  cases asked : conn.dispose_ with
  | false =>
      rw [kept asked]
      exact ⟨fun _ => ⟨⟨accounted.1, accounted.2⟩, rfl⟩, accounted.ahead, blocked⟩
  | true =>
      refine disposeNow_inv ?_ ?_ (gone asked).2
      · exact ⟨accounted.1, accounted.2⟩
      · exact blocked

theorem lock_accounted (accounted : Accounted conn) : Accounted conn.lock :=
  ⟨accounted.1, accounted.2⟩

/-- The input phase of an event runs under one lock. -/
theorem input_reading {event : IoEvent} {drained : Drained}
    (unlocked : conn.locks = 0)
    (input : (if event.events &&& PollEvents.read ≠ 0 then conn.lock.drainInput event
      else some (conn.lock, .opened)) = some (middle, drained)) :
    Reading conn.lock middle ∧ middle.locks = 1 := by
  have one : conn.lock.locks = 1 := by rw [lock, unlocked]
  have reading : Reading conn.lock middle := by
    split at input
    · exact drainInput_reading (by rw [one]; decide) input
    · cases input
      exact .refl _
  exact ⟨reading, reading.locks.trans one⟩

theorem onIoEvent_inv {event : IoEvent} (inv : OutputInv conn) (live : conn.deleted = false)
    (handled : conn.onIoEvent event = some after) : OutputInv after := by
  rcases inv.live live with ⟨accounted, unlocked⟩
  rcases Option.bind_eq_some_iff.mp handled with ⟨⟨middle, drained⟩, input, rest⟩
  rcases Option.bind_eq_some_iff.mp rest with ⟨ending, body, last⟩
  rcases input_reading unlocked input with ⟨reading, one⟩
  have middle_accounted := reading.accounted (lock_accounted accounted)
  rcases afterInput_within (by rw [one]; decide) body with
    quiet | ⟨done, done_within, rfl, failing⟩
  · refine unlock_inv (quiet.accounted middle_accounted) (quiet.locks.trans one) ?_ last
    rw [quiet.writes, reading.writes]
    exact inv.blocked
  · have done_accounted := done_within.accounted middle_accounted
    refine unlock_inv ?_ ?_ ?_ last
    · exact ⟨done_accounted.1, done_accounted.2⟩
    · exact done_within.locks.trans one
    intro written member blocked
    rw [recordWrite, done_within.writes, reading.writes] at member
    rcases List.mem_append.mp member with old | new
    · exact inv.blocked written old blocked
    · rw [List.mem_singleton] at new
      subst new
      simpa using failing blocked

theorem step_inv {action : ConnAction} (inv : OutputInv conn)
    (taken : conn.step action = some after) : OutputInv after := by
  unfold step at taken
  split at taken
  · cases taken
  rename_i alive
  have live : conn.deleted = false := by simpa using alive
  rcases inv.live live with ⟨accounted, unlocked⟩
  cases action with
  | io event => exact onIoEvent_inv inv live taken
  | timeout drain =>
      rcases Option.bind_eq_some_iff.mp taken with ⟨middle, disposing, last⟩
      have one : conn.lock.locks = 1 := by rw [lock, unlocked]
      have disposed := (dispose_reading (by rw [one]; decide) disposing).1
      refine unlock_inv (disposed.accounted (lock_accounted accounted))
        (disposed.locks.trans one) ?_ last
      rw [disposed.writes]
      exact inv.blocked
  | respond responses =>
      cases taken
      have responded := respond_reading conn responses
      refine ⟨fun _ => ⟨responded.accounted accounted, responded.locks.trans unlocked⟩,
        (responded.accounted accounted).ahead, ?_⟩
      rw [responded.writes]
      exact inv.blocked
  | dispose drain =>
      simp only [dispose, unlocked, if_true] at taken
      refine disposeNow_inv ?_ ?_ taken
      · exact ⟨accounted.1, accounted.2⟩
      · exact inv.blocked
  | others epoll =>
      simp only at taken
      split at taken
      · cases taken
        exact ⟨fun _ => ⟨⟨accounted.1, accounted.2⟩, unlocked⟩, inv.ahead, inv.blocked⟩
      · cases taken

/-- A reactor of one poller, which it gives for every number. -/
def single : PollerOf := fun _ => some (.create 3 4)

/-- A new connection on descriptor 5. -/
def fresh : Conn := (create single 5).get rfl

end Conn

end ReactiveToolbox.Http
