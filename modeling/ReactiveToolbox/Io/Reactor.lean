import Mathlib.Order.Bounds.Basic
import Mathlib.Data.Fintype.Basic
import ReactiveToolbox.Io.TimerQueues

/-!
# How long the reactor waits

A reactor has a queue of timers for each priority and a list of hooks.  `poll`
works out once how long it may wait, and then serves one poller after another;
only the last of them blocks.
-/

namespace ReactiveToolbox.Io

open ReactiveToolbox.Lib

universe v

/-- The two queues of timers. -/
inductive Priority where
  | high
  | low
deriving DecidableEq

theorem Priority.mem_all (priority : Priority) : priority ∈ [Priority.high, Priority.low] := by
  cases priority <;> simp

instance : Fintype Priority := Fintype.ofList _ Priority.mem_all

/-- `200us`, by which a high-priority timer is preempted. -/
def grace : Int := 200000

/-- `MonoClock::max()`. -/
def clockMax : Int := 2 ^ 63 - 1

/-- `NoTimeout`. -/
def noTimeout : Int := -1

variable {Slot : Type v}

/-- The expiry of the front, which is only taken of a queue that is not empty. -/
def Store.frontExpiry (store : Store Priority Slot) (priority : Priority) (next : Int) : Int :=
  match store.front priority with
  | some impl => store.expiry impl
  | none => next

/-- `Reactor::next_expiry`. -/
def Store.nextExpiry (store : Store Priority Slot) (next : Int) : Int :=
  let next :=
    if store.empty .high then next
    else min next (store.frontExpiry .high next - grace)
  if store.empty .low then next
  else min next (store.frontExpiry .low next)

/-- A reactor as far as it decides how long a poll waits. -/
structure Reactor (Slot : Type v) where
  timers : Machine Priority Slot
  hooks : Nat

/-- What a handler or a user of the reactor does. -/
inductive ReactorAction (Slot : Type v) where
  | timer (action : TimerAction Priority Slot)
  | linkHook
  | unlinkHook
deriving DecidableEq

/-- How a poller is made to wait; `MonoTime{}` does not block. -/
inductive Wait where
  | until (deadline : Int)
  | forever
deriving DecidableEq

namespace Reactor

/-- No timer and no hook. -/
def initial (memory : Ptr → Impl Priority Slot) : Reactor Slot where
  timers := .initial memory
  hooks := 0

/-- One step of a user. -/
def step (reactor : Reactor Slot) : ReactorAction Slot → Option (Reactor Slot)
  | .timer action => (reactor.timers.step action).map fun timers => { reactor with timers }
  | .linkHook => some { reactor with hooks := reactor.hooks + 1 }
  | .unlinkHook => some { reactor with hooks := reactor.hooks - 1 }

/-- The action does not hand out a raw timer. -/
def Plain (_ : Reactor Slot) : ReactorAction Slot → Prop
  | .timer action => action.Plain
  | _ => True

instance (reactor : Reactor Slot) (action : ReactorAction Slot) :
    Decidable (reactor.Plain action) :=
  match action with
  | .timer action => inferInstanceAs (Decidable action.Plain)
  | .linkHook | .unlinkHook => instDecidableTrue

/-- The time that a poll would wait for without timers. -/
def limit (now timeout : Int) : Int :=
  if timeout = noTimeout then clockMax else now + timeout

/-- `wait_until` of `MultiReactor::poll`. -/
def waitUntil (reactor : Reactor Slot) (now timeout : Int) : Int :=
  if timeout ≠ 0 ∧ reactor.hooks = 0 then
    if reactor.timers.store.nextExpiry (limit now timeout) > now then
      reactor.timers.store.nextExpiry (limit now timeout)
    else 0
  else 0

/-- The wait of the poller that has `others` pollers after it. -/
def wait (waitUntil : Int) (others : Nat) : Wait :=
  if others > 0 then .until 0
  else if waitUntil < clockMax then .until waitUntil
  else .forever

/--
The waits of `MultiReactor::poll`, each with the reactor as it is then.  A phase
is what a poller's timers and events make their handlers do; the next poller is
served when all dispatches have returned.
-/
def waits (waitUntil : Int) : Reactor Slot → List (List (ReactorAction Slot)) →
    Option (List (Reactor Slot × Wait))
  | _, [] => some []
  | reactor, phase :: rest =>
      (execute step Plain reactor phase).bind fun next =>
        if next.timers.frames = [] then
          (waits waitUntil next rest).map fun later =>
            (reactor, wait waitUntil rest.length) :: later
        else none

/-- `MultiReactor::poll`, with a phase for each poller. -/
def poll (reactor : Reactor Slot) (now timeout : Int)
    (phases : List (List (ReactorAction Slot))) : Option (List (Reactor Slot × Wait)) :=
  waits (reactor.waitUntil now timeout) reactor phases

end Reactor

/-! ## The timers of a reactor at rest -/

namespace Store

variable {store : Store Priority Slot}

/-- The times at which something is to be done: what was asked for, and the pending timers. -/
def wakeTimes (store : Store Priority Slot) (next : Int) : Set Int :=
  { time | time = next ∨
    (∃ impl ∈ (store.queues .high).heap, store.pending impl ∧ time = store.expiry impl - grace) ∨
    ∃ impl ∈ (store.queues .low).heap, store.pending impl ∧ time = store.expiry impl }

/-- `empty`, `front` and `next_expiry` say what is pending. -/
structure TimersSound (store : Store Priority Slot) : Prop where
  empty_iff : ∀ priority, store.empty priority ↔
    ∀ impl ∈ (store.queues priority).heap, store.pending impl = false
  front : ∀ priority, store.empty priority = false → ∃ impl,
    store.front priority = some impl ∧ store.pending impl ∧
      ∀ other ∈ (store.queues priority).heap, store.pending other →
        store.expiry impl ≤ store.expiry other
  next : ∀ next, IsLeast (store.wakeTimes next) (store.nextExpiry next)

section Rest

variable {Queue : Type*} {rested : Store Queue Slot} {queue : Queue}

/-- At rest, a queue is empty when its heap is. -/
theorem Rested.empty_iff_heap (atRest : rested.Rested queue) (covered : 0 ≤ rested.slack queue) :
    rested.empty queue ↔ (rested.queues queue).heap = [] := by
  have few := atRest.few
  rw [slack] at covered
  rw [empty, decide_eq_true_eq, size, ← List.length_eq_zero_iff]
  omega

theorem Rested.empty_iff_pending (atRest : rested.Rested queue)
    (covered : 0 ≤ rested.slack queue) :
    rested.empty queue ↔ ∀ impl ∈ (rested.queues queue).heap, rested.pending impl = false := by
  rw [atRest.empty_iff_heap covered]
  constructor
  · intro none impl present
    rw [none] at present
    cases present
  · intro dead
    cases heap : (rested.queues queue).heap with
    | nil => rfl
    | cons first rest =>
        have waiting := atRest.front first (by rw [Store.front, heap]; rfl)
        rw [dead first (heap ▸ List.mem_cons_self)] at waiting
        cases waiting

theorem Rested.front_least (atRest : rested.Rested queue) (covered : 0 ≤ rested.slack queue)
    (ordered : BinaryHeap.IsHeap rested.expiry (rested.queues queue).heap)
    (some' : rested.empty queue = false) :
    ∃ impl, rested.front queue = some impl ∧ impl ∈ (rested.queues queue).heap ∧
      rested.pending impl ∧
      ∀ other ∈ (rested.queues queue).heap, rested.expiry impl ≤ rested.expiry other := by
  cases heap : (rested.queues queue).heap with
  | nil =>
      rw [(atRest.empty_iff_heap covered).mpr heap] at some'
      cases some'
  | cons first rest =>
      have isFront : rested.front queue = some first := by
        rw [Store.front, heap]
        rfl
      rw [heap] at ordered
      exact ⟨first, isFront, List.mem_cons_self, atRest.front first isFront,
        fun other present => ordered.front_le present⟩

end Rest

/-- What one queue makes of the time so far, with its timers preempted by `early`. -/
theorem frontExpiry_least {priority : Priority} (atRest : store.Rested priority)
    (covered : 0 ≤ store.slack priority)
    (ordered : BinaryHeap.IsHeap store.expiry (store.queues priority).heap)
    (next early : Int) :
    IsLeast { time | time = next ∨ ∃ impl ∈ (store.queues priority).heap,
        store.pending impl ∧ time = store.expiry impl - early }
      (if store.empty priority then next
        else min next (store.frontExpiry priority next - early)) := by
  cases isEmpty : store.empty priority with
  | true =>
      have dead := (atRest.empty_iff_pending covered).mp isEmpty
      refine ⟨Or.inl rfl, ?_⟩
      rintro time (rfl | ⟨impl, present, waiting, rfl⟩)
      · exact le_refl _
      · rw [dead impl present] at waiting
        cases waiting
  | false =>
      rcases atRest.front_least covered ordered isEmpty with
        ⟨first, isFront, present, waiting, least⟩
      have front : store.frontExpiry priority next = store.expiry first := by
        rw [frontExpiry, isFront]
      rw [if_neg Bool.false_ne_true, front]
      refine ⟨?_, ?_⟩
      · rcases min_choice next (store.expiry first - early) with same | same
        · exact Or.inl same
        · exact Or.inr ⟨first, present, waiting, same⟩
      · rintro time (rfl | ⟨impl, present', -, rfl⟩)
        · exact min_le_left _ _
        · have := least impl present'
          have := min_le_right next (store.expiry first - early)
          omega

/-- `next_expiry` takes the least time of both queues. -/
theorem nextExpiry_isLeast
    (atRest : ∀ priority, store.Rested priority)
    (covered : ∀ priority, 0 ≤ store.slack priority)
    (ordered : ∀ priority, BinaryHeap.IsHeap store.expiry (store.queues priority).heap)
    (next : Int) : IsLeast (store.wakeTimes next) (store.nextExpiry next) := by
  have high := frontExpiry_least (atRest .high) (covered .high) (ordered .high) next grace
  have low := frontExpiry_least (atRest .low) (covered .low) (ordered .low)
    (if store.empty .high then next else min next (store.frontExpiry .high next - grace)) 0
  simp only [Int.sub_zero] at low
  refine ⟨?_, ?_⟩
  · rcases low.1 with same | timer
    · rw [nextExpiry, same]
      exact high.1.imp_right Or.inl
    · exact Or.inr (Or.inr timer)
  · rintro time (asked | timer | timer)
    · exact (low.2 (Or.inl rfl)).trans (high.2 (Or.inl asked))
    · exact (low.2 (Or.inl rfl)).trans (high.2 (Or.inr timer))
    · exact low.2 (Or.inr timer)

end Store

/-! ## What holds of every reactor -/

namespace Reactor

open Store

variable {reactor reactor' : Reactor Slot} {memory : Ptr → Impl Priority Slot}

theorem placed_step {action : ReactorAction Slot} (placed : reactor.timers.Placed)
    (plain : reactor.Plain action) (taken : reactor.step action = some reactor') :
    reactor'.timers.Placed := by
  cases action with
  | timer action =>
      rcases Option.map_eq_some_iff.mp taken with ⟨timers, moved, rfl⟩
      exact placed.step plain moved
  | linkHook =>
      cases taken
      exact placed
  | unlinkHook =>
      cases taken
      exact placed

theorem reachable_placed (reached : Reachable step Plain (initial memory) reactor) :
    reactor.timers.Placed := by
  let placed (reactor : Reactor Slot) : Prop := reactor.timers.Placed
  have initially : placed (initial memory) := Machine.initial_placed memory
  exact reached.invariant initially
    fun _ _ _ before plain taken => placed_step before plain taken

theorem timersSound (placed : reactor.timers.Placed) (idle : reactor.timers.frames = []) :
    reactor.timers.store.TimersSound := by
  have atRest : ∀ priority, reactor.timers.store.Rested priority := by
    intro priority
    refine placed.atRest priority fun frame running => ?_
    rw [idle] at running
    cases running
  refine ⟨fun priority => (atRest priority).empty_iff_pending (placed.covered priority),
    fun priority some' => ?_,
    nextExpiry_isLeast atRest placed.covered placed.arranged.ordered⟩
  rcases (atRest priority).front_least (placed.covered priority)
    (placed.arranged.ordered priority) some' with ⟨first, isFront, -, waiting, least⟩
  exact ⟨first, isFront, waiting, fun other present _ => least other present⟩

/-! ## The last wait of a poll -/

/-- A wait ends in time for what is pending, and has no end only where nothing is to come. -/
def WaitSound (reactor : Reactor Slot) (now timeout : Int) : Wait → Prop
  | .until deadline =>
      deadline = 0 ∨ deadline ≤ reactor.timers.store.nextExpiry (limit now timeout)
  | .forever =>
      (∀ priority, ∀ impl ∈ (reactor.timers.store.queues priority).heap,
        reactor.timers.store.pending impl = false) ∧
      timeout = noTimeout ∧ reactor.hooks = 0

/--
If a poll is going to block, then the handlers of the earlier pollers leave
nothing that is earlier than all there was to wait for, and no hook where
there was nothing to wait for.
-/
def Undisturbed (reactor last : Reactor Slot) (now timeout : Int) : Prop :=
  timeout ≠ 0 → reactor.hooks = 0 →
    (∀ time ∈ reactor.timers.store.wakeTimes (limit now timeout), now < time) →
      (∀ time ∈ last.timers.store.wakeTimes (limit now timeout),
        ∃ first ∈ reactor.timers.store.wakeTimes (limit now timeout), first ≤ time) ∧
      (timeout = noTimeout → (∀ priority, ∀ impl ∈ (reactor.timers.store.queues priority).heap,
        reactor.timers.store.pending impl = false) → last.hooks = 0)

/-- Pending timers expire before the clock ends. -/
def Bounded (reactor : Reactor Slot) : Prop :=
  ∀ priority, ∀ impl ∈ (reactor.timers.store.queues priority).heap,
    reactor.timers.store.pending impl → reactor.timers.store.expiry impl < clockMax

instance (reactor : Reactor Slot) : Decidable reactor.Bounded :=
  inferInstanceAs (Decidable (∀ priority, ∀ impl ∈ (reactor.timers.store.queues priority).heap,
    reactor.timers.store.pending impl → reactor.timers.store.expiry impl < clockMax))

/-- All pollers but the last are polled without blocking. -/
theorem waits_eq {waitUntil : Int} {phases : List (List (ReactorAction Slot))}
    {made : List (Reactor Slot × Wait)}
    (taken : waits waitUntil reactor phases = some made) (some' : phases ≠ []) :
    ∃ early last, made = early ++ [(last, wait waitUntil 0)] ∧
      (∀ polled ∈ early, polled.2 = .until 0) ∧
      Reachable step Plain reactor last ∧
      (reactor.timers.frames = [] → last.timers.frames = []) ∧
      (early ++ [(last, wait waitUntil 0)]).head?.map Prod.fst = some reactor ∧
      early.length + 1 = phases.length := by
  induction phases generalizing reactor made with
  | nil => exact absurd rfl some'
  | cons phase rest ih =>
      rw [waits] at taken
      rcases Option.bind_eq_some_iff.mp taken with ⟨next, moved, taken⟩
      split at taken
      · rename_i idle
        rcases Option.map_eq_some_iff.mp taken with ⟨later, remaining, rfl⟩
        by_cases more : rest = []
        · subst more
          cases remaining
          exact ⟨[], reactor, rfl, by simp, .refl, id, rfl, rfl⟩
        · rcases ih remaining more with ⟨early, last, rfl, polled, reached, atRest, -, length⟩
          refine ⟨(reactor, wait waitUntil rest.length) :: early, last, rfl, ?_, ?_,
            fun _ => atRest idle, rfl, by rw [List.length_cons, length, List.length_cons]⟩
          · intro entry present
            rcases List.mem_cons.mp present with rfl | old
            · exact if_pos (List.length_pos_iff.mpr more)
            · exact polled entry old
          · rcases reached with ⟨actions, run⟩
            exact ⟨phase ++ actions, (Run.of_execute moved).append run⟩
      · cases taken

theorem blocks_iff {now timeout : Int}
    (least : IsLeast (reactor.timers.store.wakeTimes (limit now timeout))
      (reactor.timers.store.nextExpiry (limit now timeout))) :
    (∀ time ∈ reactor.timers.store.wakeTimes (limit now timeout), now < time) ↔
      now < reactor.timers.store.nextExpiry (limit now timeout) :=
  ⟨fun all => all _ least.1, fun before _ present => before.trans_le (least.2 present)⟩

/-- With nothing before the end of the clock, nothing is pending and no timeout was given. -/
theorem nothing_before_end {now timeout : Int}
    (bounded : reactor.Bounded)
    (inRange : timeout ≠ noTimeout → now + timeout < clockMax)
    (least : clockMax ≤ reactor.timers.store.nextExpiry (limit now timeout))
    (sound : reactor.timers.store.TimersSound) :
    (∀ priority, ∀ impl ∈ (reactor.timers.store.queues priority).heap,
      reactor.timers.store.pending impl = false) ∧ timeout = noTimeout := by
  have below := (sound.next (limit now timeout)).2
  constructor
  · intro priority impl present
    by_contra waiting
    have waiting : reactor.timers.store.pending impl = true := by simpa using waiting
    have before := bounded priority impl present waiting
    cases priority with
    | high =>
        have atMost := below (Or.inr (Or.inl ⟨impl, present, waiting, rfl⟩))
        have : (0 : Int) < grace := by decide
        omega
    | low =>
        have atMost := below (Or.inr (Or.inr ⟨impl, present, waiting, rfl⟩))
        omega
  · by_contra given
    have atMost := below (Or.inl rfl)
    rw [limit, if_neg given] at atMost
    have before := inRange given
    rw [limit, if_neg given] at least
    omega

/-- The last wait is sound exactly where the earlier pollers leave it undisturbed. -/
theorem lastWait_sound_iff {last : Reactor Slot} {now timeout : Int}
    (sound : reactor.timers.store.TimersSound) (sound' : last.timers.store.TimersSound)
    (bounded : reactor.Bounded) (bounded' : last.Bounded) (positive : 0 ≤ now)
    (inRange : timeout ≠ noTimeout → now + timeout < clockMax) :
    last.WaitSound now timeout (wait (reactor.waitUntil now timeout) 0) ↔
      reactor.Undisturbed last now timeout := by
  have least := sound.next (limit now timeout)
  have least' := sound'.next (limit now timeout)
  have clock : (0 : Int) < clockMax := by decide
  rw [Undisturbed, blocks_iff least]
  rw [wait, if_neg (Nat.lt_irrefl 0)]
  have earlier : (∀ time ∈ last.timers.store.wakeTimes (limit now timeout),
      ∃ first ∈ reactor.timers.store.wakeTimes (limit now timeout), first ≤ time) ↔
        reactor.timers.store.nextExpiry (limit now timeout) ≤
          last.timers.store.nextExpiry (limit now timeout) := by
    constructor
    · intro all
      rcases all _ least'.1 with ⟨first, present, atMost⟩
      exact (least.2 present).trans atMost
    · exact fun atMost time present => ⟨_, least.1, atMost.trans (least'.2 present)⟩
  rw [earlier]
  by_cases blocks : timeout ≠ 0 ∧ reactor.hooks = 0 ∧
      now < reactor.timers.store.nextExpiry (limit now timeout)
  · rcases blocks with ⟨notZero, noHooks, later⟩
    have deadline : reactor.waitUntil now timeout =
        reactor.timers.store.nextExpiry (limit now timeout) := by
      rw [waitUntil, if_pos ⟨notZero, noHooks⟩, if_pos later]
    rw [deadline]
    by_cases limited : reactor.timers.store.nextExpiry (limit now timeout) < clockMax
    · rw [if_pos limited, WaitSound]
      constructor
      · rintro (zero | atMost) - - -
        · omega
        · refine ⟨atMost, fun none dead => ?_⟩
          -- without timers and without a timeout there is no such limit
          rcases least.1 with asked | ⟨impl, present, waiting, -⟩ | ⟨impl, present, waiting, -⟩
          · rw [asked, limit, if_pos none] at limited
            exact absurd limited (lt_irrefl _)
          · rw [dead .high impl present] at waiting
            cases waiting
          · rw [dead .low impl present] at waiting
            cases waiting
      · intro undisturbed
        exact Or.inr (undisturbed notZero noHooks later).1
    · rw [if_neg limited, WaitSound]
      rcases nothing_before_end bounded inRange (le_of_not_gt limited) sound with ⟨dead, none⟩
      constructor
      · rintro ⟨dead', -, hooks⟩ - - -
        refine ⟨?_, fun _ _ => hooks⟩
        rcases least'.1 with asked | ⟨impl, present, waiting, -⟩ | ⟨impl, present, waiting, -⟩
        · rw [asked]
          exact least.2 (Or.inl rfl)
        · rw [dead' .high impl present] at waiting
          cases waiting
        · rw [dead' .low impl present] at waiting
          cases waiting
      · intro undisturbed
        rcases undisturbed notZero noHooks later with ⟨atMost, hooks⟩
        rcases nothing_before_end bounded' inRange ((le_of_not_gt limited).trans atMost) sound'
          with ⟨dead', -⟩
        exact ⟨dead', none, hooks none dead⟩
  · have zero : reactor.waitUntil now timeout = 0 := by
      rw [waitUntil]
      split
      · rename_i asked
        rw [if_neg fun later => blocks ⟨asked.1, asked.2, later⟩]
      · rfl
    rw [zero, if_pos clock, WaitSound]
    refine ⟨fun _ notZero noHooks later => absurd ⟨notZero, noHooks, later⟩ blocks,
      fun _ => Or.inl rfl⟩

theorem undisturbed_self (now timeout : Int) : reactor.Undisturbed reactor now timeout :=
  fun _ noHooks _ => ⟨fun time present => ⟨time, present, le_refl _⟩, fun _ _ => noHooks⟩

/--
In a reactor at rest, `empty`, `front` and `next_expiry` say what is pending; and
the waits of a poll are sound exactly where the handlers of the earlier pollers
leave the last one undisturbed, as they do where there is one poller.
-/
theorem rest_sound_and_waits_iff
    (reached : Reachable step Plain (initial memory) reactor)
    (idle : reactor.timers.frames = []) :
    reactor.timers.store.TimersSound ∧
      ∀ now timeout phases made, 0 ≤ now → (timeout ≠ noTimeout → now + timeout < clockMax) →
        reactor.poll now timeout phases = some made →
        (∀ polled ∈ made, polled.1.Bounded) →
          ((∀ polled ∈ made, polled.1.WaitSound now timeout polled.2) ↔
            ∀ polled ∈ made.getLast?, reactor.Undisturbed polled.1 now timeout) ∧
          (phases.length = 1 → ∀ polled ∈ made, polled.1.WaitSound now timeout polled.2) := by
  have sound := timersSound (reachable_placed reached) idle
  refine ⟨sound, fun now timeout phases made positive inRange taken bounded => ?_⟩
  by_cases some' : phases = []
  · subst some'
    cases taken
    simp
  · rcases waits_eq taken some' with 
      ⟨early, last, rfl, polled, reached', idle', first, length⟩
    have member : (last, wait (reactor.waitUntil now timeout) 0) ∈
        early ++ [(last, wait (reactor.waitUntil now timeout) 0)] := by simp
    have bounded' : reactor.Bounded := by
      rcases Option.map_eq_some_iff.mp first with ⟨entry, isFirst, same⟩
      exact same ▸ bounded entry (List.mem_of_head? isFirst)
    have placed' : last.timers.Placed := by
      let placed (reactor : Reactor Slot) : Prop := reactor.timers.Placed
      have initially : placed reactor := reachable_placed reached
      exact reached'.invariant initially
        fun _ _ _ before plain taken => placed_step before plain taken
    have sound' := timersSound placed' (idle' idle)
    have lastSound := lastWait_sound_iff sound sound' bounded' (bounded _ member) positive inRange
    have all : (∀ entry ∈ early ++ [(last, wait (reactor.waitUntil now timeout) 0)],
        entry.1.WaitSound now timeout entry.2) ↔
          last.WaitSound now timeout (wait (reactor.waitUntil now timeout) 0) := by
      refine ⟨fun every => every _ member, fun sound entry present => ?_⟩
      rcases List.mem_append.mp present with old | isLast
      · rw [polled entry old]
        exact Or.inl rfl
      · obtain rfl := List.mem_singleton.mp isLast
        exact sound
    rw [all, lastSound]
    refine ⟨by simp, fun single => ?_⟩
    have alone : early = [] := List.length_eq_zero_iff.mp (by omega)
    subst alone
    have same : last = reactor := Option.some.inj first
    rw [same]
    exact undisturbed_self now timeout

def blank (_ : Ptr) : Impl Priority Nat where
  tq := .high
  refCount := 0
  id := 0
  expiry := 0
  interval := 0
  slot := none

/-- A timer is due in the middle of a second, and one poller waits for it. -/
theorem rest_sound_and_waits_iff_single :
    ∃ (reactor : Reactor Nat) (made : List (Reactor Nat × Wait)),
      reactor.waitUntil 0 noTimeout = 300000 ∧ reactor.poll 0 noTimeout [[]] = some made ∧
      made.length = 1 ∧ reactor.timers.store.TimersSound ∧
      ((∀ polled ∈ made, polled.1.WaitSound 0 noTimeout polled.2) ↔
        ∀ polled ∈ made.getLast?, reactor.Undisturbed polled.1 0 noTimeout) ∧
      ∀ polled ∈ made, polled.1.WaitSound 0 noTimeout polled.2 := by
  have computed :
      (execute step Plain (initial blank) [.timer .declare,
        .timer (.insert (.var 0) .high 500000 0 1)]).map
        (fun reactor => (reactor.timers.frames.length, reactor.waitUntil 0 noTimeout,
          (reactor.poll 0 noTimeout [[]]).map fun made =>
            (made.length, made.all fun polled => decide polled.1.Bounded))) =
          some (0, 300000, some (1, true)) := by
    decide +kernel
  rcases Reachable.of_execute computed with ⟨reactor, reached, observed⟩
  obtain ⟨none, until', polls⟩ := by simpa only [Prod.mk.injEq] using observed
  rcases Option.map_eq_some_iff.mp polls with ⟨made, taken, same⟩
  obtain ⟨one, bounded⟩ := by simpa only [Prod.mk.injEq] using same
  obtain ⟨sound, waits⟩ := rest_sound_and_waits_iff reached (List.length_eq_zero_iff.mp none)
  obtain ⟨exactly, single⟩ := waits 0 noTimeout [[]] made (le_refl 0)
    (fun given => absurd rfl given) taken
    (fun polled present => of_decide_eq_true (List.all_eq_true.mp bounded polled present))
  exact ⟨reactor, made, until', taken, one, sound, exactly, single rfl⟩

/-- Two pollers, and a handler of the first inserts a timer. -/
def insertedMeanwhile : List (List (ReactorAction Nat)) :=
  [[.timer .declare, .timer (.insert (.var 0) .high 10 0 1)], []]

theorem inserted_meanwhile_waits_forever :
    ¬ ∀ now timeout phases made, 0 ≤ now → (timeout ≠ noTimeout → now + timeout < clockMax) →
      (initial blank).poll now timeout phases = some made →
      (∀ polled ∈ made, polled.1.Bounded) →
        ∀ polled ∈ made, polled.1.WaitSound now timeout polled.2 := by
  intro always
  have computed :
      ((initial blank).poll 0 noTimeout insertedMeanwhile).map
        (fun made => (made.all fun polled => decide polled.1.Bounded,
          made.getLast?.map fun polled => (polled.2,
            (polled.1.timers.store.queues .high).heap.any polled.1.timers.store.pending))) =
          some (true, some (.forever, true)) := by
    decide +kernel
  rcases Option.map_eq_some_iff.mp computed with ⟨made, taken, observed⟩
  obtain ⟨bounded, isLast⟩ := by simpa only [Prod.mk.injEq] using observed
  rcases Option.map_eq_some_iff.mp isLast with ⟨polled, found, same⟩
  obtain ⟨forever, pending⟩ := by simpa only [Prod.mk.injEq] using same
  have sound := always 0 noTimeout insertedMeanwhile made (le_refl 0) (fun given => absurd rfl given)
    taken (fun polled present => of_decide_eq_true (List.all_eq_true.mp bounded polled present))
    polled (List.mem_of_getLast? found)
  rw [forever] at sound
  rcases List.any_eq_true.mp pending with ⟨impl, present, waiting⟩
  rw [sound.1 .high impl present] at waiting
  cases waiting

end Reactor

end ReactiveToolbox.Io
