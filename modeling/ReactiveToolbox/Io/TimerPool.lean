import Mathlib.Data.List.GetD
import ReactiveToolbox.Io.Timer
import ReactiveToolbox.Lib.SlabPool

/-!
# The timer pool in memory

`TimerPool::alloc` threads a new slab onto the free list before `slabs_` owns it.  Where
`slabs_` then fails to grow the slab is given back and the free list points into it.
-/

namespace ReactiveToolbox.Io

open ReactiveToolbox.Lib

universe u v

/-- The links, `free_` and `slabs_` of a `TimerPool`, and the timers that are in use. -/
structure TimerPool where
  pool : SlabPool
  live : List Nat

/-- A call of a function of the pool, with what becomes of a new slab in `alloc`. -/
inductive TimerPoolCall where
  | alloc (supply : Supply)
  | dealloc (impl : Nat)
  deriving DecidableEq

/-- `sizeof(Timer::Impl)`. -/
def implSize : Nat := 56

/-- The slabs of timers. -/
def timerShape : SlabShape where
  stride := implSize
  count := slabSize
  stride_pos := by decide

namespace TimerPool

/-- A pool without slabs. -/
def initial : TimerPool :=
  { pool := .empty, live := [] }

/-- `TimerPool::alloc`, which does not use its arguments, and throws where there is no timer. -/
def alloc (self : TimerPool) (supply : Supply) : Option (TimerPool × Option Nat) :=
  (self.pool.alloc timerShape supply).map fun (pool, impl) =>
    ({ pool, live := impl.toList ++ self.live }, impl)

/-- `TimerPool::dealloc`, of a timer that is in use. -/
def dealloc (self : TimerPool) (impl : Nat) : Option TimerPool :=
  if impl ∈ self.live then
    some { pool := self.pool.put impl, live := self.live.erase impl }
  else none

/-- A call of `alloc` or `dealloc`. -/
def step (self : TimerPool) : TimerPoolCall → Option TimerPool
  | .alloc supply => (self.alloc supply).map Prod.fst
  | .dealloc impl => self.dealloc impl

/--
The free list has no node twice, only nodes of slabs that the pool owns, and none that
is in use.
-/
def FreeSound (self : TimerPool) : Prop :=
  ∃ nodes, LinkedChain self.pool.link self.pool.free nodes ∧ nodes.Nodup ∧
    (∀ node ∈ nodes, self.pool.Owns timerShape node) ∧ ∀ node ∈ nodes, node ∉ self.live

/-- An `alloc` that fails leaves the pool as it was. -/
def Restores (self : TimerPool) (call : TimerPoolCall) (after : TimerPool) : Prop :=
  ∀ supply, call = .alloc supply → self.alloc supply = some (after, none) → after = self

/-- `slabs_` does not fail to grow. -/
def SlabsGrow (self : TimerPool) : TimerPoolCall → Prop
  | .alloc (.unkept _) => self.pool.free ≠ none
  | _ => True

variable {self after : TimerPool} {call : TimerPoolCall} {supply : Supply}

/-- The invariant: the free list and the timers in use are different nodes of the slabs. -/
def Sound (self : TimerPool) : Prop :=
  self.pool.Sound timerShape self.live

theorem Sound.initial : TimerPool.initial.Sound :=
  SlabPool.Sound.empty

theorem freeSound_of_sound (sound : self.Sound) : self.FreeSound := by
  obtain ⟨nodes, chain, owned⟩ := sound.free
  exact ⟨nodes, chain, chain.nodup, fun node member => (owned node member).1,
    fun node member => (owned node member).2⟩

/-- A step that lets `slabs_` grow keeps the pool sound. -/
theorem sound_step (sound : self.Sound) (grows : self.SlabsGrow call)
    (taken : self.step call = some after) : after.Sound := by
  cases call with
  | alloc supply =>
      obtain ⟨⟨result, impl⟩, made, rfl⟩ := Option.map_eq_some_iff.mp taken
      obtain ⟨⟨pool, impl⟩, alloced, same⟩ := Option.map_eq_some_iff.mp made
      obtain ⟨rfl, rfl⟩ := Prod.mk.inj same
      rcases SlabPool.alloc_cases alloced with ⟨node, next, free, linked, rfl, rfl⟩ |
        ⟨-, -, rfl, rfl⟩ | ⟨slab, empty, rfl, -, -, -⟩ | ⟨slab, empty, -, fresh, rfl, rfl⟩
      · obtain ⟨other, otherLinked, later⟩ := sound.take free
        obtain rfl := Option.some.inj (linked.symm.trans otherLinked)
        exact later
      · exact sound
      · exact absurd empty grows
      · exact sound.first empty fresh (by decide)
  | dealloc impl =>
      rw [step, dealloc] at taken
      split at taken
      · rename_i used
        obtain rfl := Option.some.inj taken
        exact sound.put used
      · cases taken

/-- So does a failed one, which leaves the pool as it was. -/
theorem restores (grows : self.SlabsGrow call) : self.Restores call after := by
  rintro supply rfl failed
  obtain ⟨⟨pool, impl⟩, alloced, same⟩ := Option.map_eq_some_iff.mp failed
  obtain ⟨rfl, rfl⟩ := Prod.mk.inj same
  rcases SlabPool.alloc_cases alloced with ⟨node, next, -, -, -, other⟩ | ⟨-, -, rfl, -⟩ |
    ⟨slab, empty, rfl, -, -, -⟩ | ⟨slab, -, -, -, -, other⟩
  · cases other
  · rfl
  · exact absurd empty grows
  · cases other

/-- Where `slabs_` fails to grow, the free list begins outside of the pool. -/
theorem not_freeSound (fails : ¬self.SlabsGrow call) (taken : self.step call = some after) :
    ¬after.FreeSound := by
  cases call with
  | dealloc impl => exact absurd trivial fails
  | alloc supply =>
      obtain ⟨⟨result, impl⟩, made, rfl⟩ := Option.map_eq_some_iff.mp taken
      obtain ⟨⟨pool, impl⟩, alloced, same⟩ := Option.map_eq_some_iff.mp made
      obtain ⟨rfl, rfl⟩ := Prod.mk.inj same
      cases supply with
      | refused => exact absurd trivial fails
      | kept slab => exact absurd trivial fails
      | unkept slab =>
          have empty : self.pool.free = none := not_ne_iff.mp fails
          rcases SlabPool.alloc_cases alloced with ⟨node, next, free, -, -, -⟩ |
            ⟨-, other, -, -⟩ | ⟨slab, -, -, fresh, rfl, -⟩ | ⟨slab, -, other, -, -, -⟩
          · rw [empty] at free
            cases free
          · cases other
          · obtain ⟨node, begins, foreign⟩ := SlabPool.free_giveUp empty fresh (by decide)
            rintro ⟨nodes, chain, -, owned, -⟩
            rw [begins] at chain
            cases chain with
            | cons => exact foreign (owned node List.mem_cons_self)
          · cases other

theorem sound_run {calls : List TimerPoolCall} (run : Run step SlabsGrow initial calls self) :
    self.Sound :=
  run.invariant Sound.initial fun _ _ _ sound grows taken => sound_step sound grows taken

/--
Whatever has been called, as long as `slabs_` has not failed to grow the free list is
sound and every call is defined; and the next call leaves it so, and the pool as it was
if it fails, if and only if `slabs_` does not fail to grow in it.
-/
theorem run_freeSound_iff {calls : List TimerPoolCall}
    (run : Run step SlabsGrow initial calls self) :
    self.FreeSound ∧
      (∀ supply, self.pool.SupplyFresh timerShape supply → (self.alloc supply).isSome) ∧
      ∀ call after, self.step call = some after →
        (after.FreeSound ∧ self.Restores call after ↔ self.SlabsGrow call) := by
  have sound := sound_run run
  refine ⟨freeSound_of_sound sound, fun supply fresh => ?_, fun call after taken => ?_⟩
  · rw [alloc, Option.isSome_map]
    exact sound.alloc_isSome fresh
  · constructor
    · rintro ⟨free, -⟩
      by_contra fails
      exact not_freeSound fails taken free
    · intro grows
      exact ⟨freeSound_of_sound (sound_step sound grows taken), restores grows⟩

/-- The first timer of a pool, and its return. -/
theorem run_freeSound_iff_first :
    ∃ self, Run step SlabsGrow initial ([] ++ [.alloc (.kept 4096)] ++ [.dealloc 4096]) self ∧
      self.FreeSound ∧
      (∀ supply, self.pool.SupplyFresh timerShape supply → (self.alloc supply).isSome) ∧
      ∀ call after, self.step call = some after →
        (after.FreeSound ∧ self.Restores call after ↔ self.SlabsGrow call) := by
  have first : Run step SlabsGrow initial ([] ++ [.alloc (.kept 4096)]) _ :=
    .step .start trivial rfl
  have returned : Run step SlabsGrow initial ([] ++ [.alloc (.kept 4096)] ++ [.dealloc 4096]) _ :=
    .step first trivial rfl
  exact ⟨_, returned, run_freeSound_iff returned⟩

/-- The first `alloc` of a pool, where the slab is not owned. -/
theorem not_freeSound_first :
    ∃ after, initial.alloc (.unkept 4096) = some (after, none) ∧ ¬after.FreeSound ∧
      after ≠ initial := by
  obtain ⟨⟨after, impl⟩, made⟩ : ∃ result, initial.alloc (.unkept 4096) = some result := ⟨_, rfl⟩
  have failed : impl = none := congrArg (Option.map Prod.snd) made |> Option.some.inj |>.symm
  subst failed
  have fails : ¬initial.SlabsGrow (.alloc (.unkept 4096)) := fun grows => absurd rfl grows
  have unsound := not_freeSound fails (congrArg (Option.map Prod.fst) made)
  refine ⟨after, made, unsound, fun same => unsound ?_⟩
  rw [same]
  exact freeSound_of_sound Sound.initial

/-! ## The free list of the timer queues -/

variable {Queue : Type u} {Slot : Type v} {store : Store Queue Slot}
  {impl : Ptr} {slab : Nat} {result : Option Nat}

/-- Where a timer is that is counted slab by slab. -/
def address (slabs : List Nat) (impl : Ptr) : Nat :=
  timerShape.node (slabs.getD (impl / slabSize) 0) (impl % slabSize)

/-- The pool of a store, in memory. -/
structure Represents (timers : TimerPool) (store : Store Queue Slot) : Prop where
  slabs : timers.pool.slabs.length = store.slabs
  free : LinkedChain timers.pool.link timers.pool.free
    (store.free.map (address timers.pool.slabs))

theorem address_entry (slabs : List Nat) (slab : Nat) {entry : Nat} (within : entry < slabSize) :
    address (slabs ++ [slab]) (slabs.length * slabSize + entry) = timerShape.node slab entry := by
  have quotient : (slabs.length * slabSize + entry) / slabSize = slabs.length := by
    rw [Nat.mul_comm, Nat.mul_add_div (by decide), Nat.div_eq_of_lt within, Nat.add_zero]
  have remainder : (slabs.length * slabSize + entry) % slabSize = entry := by
    rw [Nat.mul_comm, Nat.mul_add_mod, Nat.mod_eq_of_lt within]
  rw [address, quotient, remainder, List.getD_append_right _ _ _ _ (le_refl _), Nat.sub_self]
  rfl

/-- The entries of a slab behind its first one. -/
theorem map_address_slabRest (slabs : List Nat) (slab : Nat) :
    (Store.slabRest slabs.length).map (address (slabs ++ [slab])) =
      (timerShape.nodes slab).tail.reverse := by
  rw [Store.slabRest, List.map_reverse, List.map_map, SlabShape.nodes, ← List.map_tail]
  refine congrArg List.reverse (List.map_congr_left fun entry member => ?_)
  exact address_entry slabs slab (List.mem_range.mp (List.mem_of_mem_tail member))

/-- An `alloc` that succeeds gives the timer that the store gives. -/
theorem Represents.alloc (represents : self.Represents store)
    (taken : self.alloc (.kept slab) = some (after, result)) :
    result = some (address after.pool.slabs store.poolAlloc.1) ∧ after.Represents store.poolAlloc.2 := by
  obtain ⟨⟨pool, impl⟩, alloced, same⟩ := Option.map_eq_some_iff.mp taken
  obtain ⟨rfl, rfl⟩ := Prod.mk.inj same
  have free := represents.free
  unfold Store.poolAlloc
  cases list : store.free with
  | nil =>
      rw [list] at free
      have empty := free.head_eq
      obtain ⟨rfl, rfl⟩ := SlabPool.alloc_of_empty empty alloced
      have positive : 0 < slabSize := by decide
      have first := address_entry self.pool.slabs slab positive
      have chain : LinkedChain _ (self.pool.thread timerShape slab).free _ :=
        SlabPool.chain_thread empty
      rw [Nat.add_zero, represents.slabs] at first
      rw [← map_address_slabRest self.pool.slabs slab, represents.slabs] at chain
      refine ⟨congrArg some ?_, ?_, ?_⟩
      · rw [SlabPool.slabs_own]
        exact first.symm
      · rw [SlabPool.slabs_own, List.length_append, represents.slabs]
        rfl
      · simp only [SlabPool.slabs_own, SlabPool.link_own, SlabPool.free_own, Store.record]
        exact chain
  | cons impl rest =>
      rw [list] at free
      have begins := free.head_eq
      obtain ⟨next, linked, rfl, rfl⟩ := SlabPool.alloc_of_free begins alloced
      rw [begins] at free
      cases free with
      | cons otherLinked chain =>
          obtain rfl := Option.some.inj (linked.symm.trans otherLinked)
          exact ⟨rfl, represents.slabs, chain⟩

theorem Represents.dealloc (represents : self.Represents store) (sound : self.Sound)
    (taken : self.dealloc (address self.pool.slabs impl) = some after) :
    after.Represents (store.dealloc impl) := by
  rw [TimerPool.dealloc] at taken
  split at taken
  · rename_i used
    obtain rfl := Option.some.inj taken
    obtain ⟨nodes, chain, unused⟩ := sound.free
    obtain rfl := chain.unique represents.free
    refine ⟨represents.slabs, SlabPool.chain_put represents.free fun member => ?_⟩
    exact (unused _ member).2 used
  · cases taken

end TimerPool

end ReactiveToolbox.Io
