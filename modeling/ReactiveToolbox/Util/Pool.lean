import Mathlib.Tactic.IntervalCases
import ReactiveToolbox.Lib.SlabPool
import ReactiveToolbox.Lib.Transition

/-!
# Object pools

A node of `Pool<T>` is a pointer with a value behind it, at the next address that suits
the alignment of `T`.  `alloc` counts as many nodes in a slab as there would be values,
which is none where a value does not fit into a page, and `dealloc` takes the value to
be behind the pointer without a gap.
-/

namespace ReactiveToolbox.Util

open ReactiveToolbox.Lib

/-! ## The layout -/

/-- The least multiple of an alignment that is not below a size. -/
def roundUp (size align : Nat) : Nat :=
  (size + align - 1) / align * align

/-- `sizeof` and `alignof` of a type. -/
structure ElementType where
  size : Nat
  align : Nat
  size_pos : 0 < size
  align_pow : ∃ exponent, align = 2 ^ exponent
  aligned : align ∣ size

/-- `sizeof(Node*)`. -/
def pointerSize : Nat := 8

namespace ElementType

/-- `offsetof(Node, value)`. -/
def valueOffset (type : ElementType) : Nat :=
  roundUp pointerSize type.align

/-- `sizeof(Node)`. -/
def sizeofNode (type : ElementType) : Nat :=
  roundUp (type.valueOffset + type.size) (max pointerSize type.align)

/-- `SlabSize`. -/
def slabSize (type : ElementType) : Nat :=
  (4096 - 16) / type.size

theorem align_pos (type : ElementType) : 0 < type.align := by
  obtain ⟨exponent, same⟩ := type.align_pow
  rw [same]
  exact Nat.two_pow_pos exponent

theorem le_roundUp (size : Nat) {align : Nat} (positive : 0 < align) :
    size ≤ roundUp size align := by
  have quotient := Nat.div_add_mod (size + align - 1) align
  have remainder := Nat.mod_lt (size + align - 1) positive
  rw [roundUp, Nat.mul_comm]
  omega

/-- A value ends within its node. -/
theorem valueOffset_add_size_le (type : ElementType) :
    type.valueOffset + type.size ≤ type.sizeofNode :=
  le_roundUp _ (Nat.lt_of_lt_of_le type.align_pos (Nat.le_max_right _ _))

theorem pointerSize_le_valueOffset (type : ElementType) : pointerSize ≤ type.valueOffset :=
  le_roundUp _ type.align_pos

/-- The value is behind the pointer without a gap just where the alignment is no larger. -/
theorem valueOffset_eq_iff (type : ElementType) :
    type.valueOffset = pointerSize ↔ type.align ≤ pointerSize := by
  by_cases small : type.align ≤ pointerSize
  · refine iff_of_true ?_ small
    obtain ⟨exponent, same⟩ := type.align_pow
    have few : exponent < 4 := by
      rw [← Nat.pow_lt_pow_iff_right (Nat.lt_succ_self 1), ← same]
      exact Nat.lt_of_le_of_lt small (by decide)
    rw [valueOffset, same]
    interval_cases exponent <;> rfl
  · refine iff_of_false (fun same => ?_) small
    have once : (pointerSize + type.align - 1) / type.align = 1 := by
      refine Nat.div_eq_of_lt_le ?_ ?_ <;> unfold pointerSize at * <;> omega
    rw [valueOffset, roundUp, once, Nat.one_mul] at same
    exact small (Nat.le_of_eq same)

theorem slabSize_pos_iff (type : ElementType) : 0 < type.slabSize ↔ type.size ≤ 4080 := by
  rw [slabSize, Nat.div_pos_iff]
  exact and_iff_right type.size_pos

/-- `Node[SlabSize]`. -/
def shape (type : ElementType) : SlabShape where
  stride := type.sizeofNode
  count := type.slabSize
  stride_pos := Nat.lt_of_lt_of_le (Nat.add_pos_right _ type.size_pos) type.valueOffset_add_size_le

end ElementType

/-! ## The pool -/

/-- The links, `free_` and `slabs_` of a pool, and the objects that are in use. -/
structure Pool where
  memory : SlabPool
  live : List Nat

/--
A call of a function of a pool, with what becomes of a new slab in `alloc`, and whether
the constructor of the object returns.
-/
inductive PoolCall where
  | alloc (supply : Supply) (constructed : Bool)
  | dealloc (e : Nat)
  deriving DecidableEq

namespace Pool

variable (type : ElementType)

/-- A pool without slabs. -/
def initial : Pool :=
  { memory := .empty, live := [] }

/-- `alloc`, which throws where it gives no object. -/
def alloc (self : Pool) (supply : Supply) (constructed : Bool) : Option (Pool × Option Nat) :=
  (self.memory.alloc type.shape supply).map fun (memory, node) =>
    let result := if constructed then node.map (· + type.valueOffset) else none
    ({ memory, live := result.toList ++ self.live }, result)

/-- `dealloc`, of an object that is in use. -/
def dealloc (self : Pool) (e : Nat) : Option Pool :=
  if e ∈ self.live then
    some { memory := self.memory.put (e - pointerSize), live := self.live.erase e }
  else none

/-- A call of `alloc` or `dealloc`. -/
def step (self : Pool) : PoolCall → Option Pool
  | .alloc supply constructed => (self.alloc type supply constructed).map Prod.fst
  | .dealloc e => self.dealloc e

/-- An object and its node. -/
def LiesIn (e node : Nat) : Prop :=
  node ≤ e ∧ e + type.size ≤ node + type.sizeofNode

/--
The objects lie within nodes of slabs that the pool owns and do not overlap, and the
next one is going to lie within such a node too.
-/
structure Keeps (pool : Pool) : Prop where
  within : ∀ e ∈ pool.live, ∃ node, pool.memory.Owns type.shape node ∧ LiesIn type e node
  apart : pool.live.Pairwise fun e other => e + type.size ≤ other ∨ other + type.size ≤ e
  next : ∀ node, pool.memory.free = some node → pool.memory.Owns type.shape node

/-- A `dealloc` puts back the node that its object came from. -/
def PutsBack (self : Pool) (call : PoolCall) (after : Pool) : Prop :=
  ∀ e, call = .dealloc e → ∃ node, self.memory.Owns type.shape node ∧
    e = node + type.valueOffset ∧ after.memory.free = some node

/--
A new slab has a node where an object is constructed and no second one where `slabs_`
does not grow, and a value that is given back has no gap in front of it.
-/
def Fits (self : Pool) : PoolCall → Prop
  | .alloc (.kept _) true => self.memory.free = none → type.size ≤ 4080
  | .alloc (.unkept _) _ => self.memory.free = none → type.slabSize ≤ 1
  | .alloc _ _ => True
  | .dealloc _ => type.align ≤ pointerSize

/-- The objects are the values of different nodes, which are not free. -/
def Sound (self : Pool) : Prop :=
  ∃ nodes, self.live = nodes.map (· + type.valueOffset) ∧ self.memory.Sound type.shape nodes

variable {type} {self after : Pool} {call : PoolCall}

theorem Sound.initial : Pool.initial.Sound type :=
  ⟨[], rfl, SlabPool.Sound.empty⟩

theorem keeps_of_sound (sound : self.Sound type) : self.Keeps type := by
  obtain ⟨nodes, live, sound⟩ := sound
  have inside := type.valueOffset_add_size_le
  refine ⟨fun e member => ?_, ?_, fun node free => sound.owns_free free⟩
  · rw [live] at member
    obtain ⟨node, used, rfl⟩ := List.mem_map.mp member
    refine ⟨node, sound.owned node used, Nat.le_add_right _ _, ?_⟩
    omega
  · rw [live, List.pairwise_map]
    refine sound.nodup.imp_of_mem fun used otherUsed different => ?_
    have apart := SlabPool.Owns.apart (sound.owned _ used) (sound.owned _ otherUsed) different
      sound.apart
    have stride : type.shape.stride = type.sizeofNode := rfl
    omega

/-- A node that has been taken holds an object, or is lost where there is none. -/
theorem sound_taken {memory : SlabPool} {nodes live : List Nat} (node : Option Nat)
    (sound : memory.Sound type.shape (node.toList ++ nodes))
    (objects : live = nodes.map (· + type.valueOffset)) (constructed : Bool) :
    Pool.Sound type
      { memory
        live := (if constructed then node.map (· + type.valueOffset) else none).toList ++ live } := by
  cases node with
  | none =>
      refine ⟨nodes, ?_, sound⟩
      cases constructed <;> exact objects
  | some node =>
      cases constructed with
      | true => exact ⟨node :: nodes, congrArg _ objects, sound⟩
      | false => exact ⟨nodes, objects, sound.lose⟩

theorem sound_step (sound : self.Sound type) (fits : self.Fits type call)
    (taken : self.step type call = some after) :
    after.Sound type ∧ self.PutsBack type call after := by
  obtain ⟨nodes, live, sound⟩ := sound
  cases call with
  | alloc supply constructed =>
      refine ⟨?_, fun e other => nomatch other⟩
      obtain ⟨⟨result, object⟩, made, rfl⟩ := Option.map_eq_some_iff.mp taken
      obtain ⟨⟨memory, node⟩, alloced, same⟩ := Option.map_eq_some_iff.mp made
      obtain ⟨rfl, rfl⟩ := Prod.mk.inj same
      rcases SlabPool.alloc_cases alloced with ⟨node, next, free, linked, rfl, rfl⟩ |
        ⟨-, -, rfl, rfl⟩ | ⟨slab, empty, rfl, -, rfl, rfl⟩ | ⟨slab, empty, rfl, fresh, rfl, rfl⟩
      · obtain ⟨other, otherLinked, later⟩ := sound.take free
        obtain rfl := Option.some.inj (linked.symm.trans otherLinked)
        exact sound_taken (some node) later live constructed
      · exact sound_taken none sound live constructed
      · exact sound_taken none (sound.giveUp empty (fits empty)) live constructed
      · cases constructed with
        | true =>
            have positive := type.slabSize_pos_iff.mpr (fits empty)
            exact sound_taken (some _) (sound.first empty fresh positive) live true
        | false => exact ⟨nodes, live, sound.grow empty fresh⟩
  | dealloc e =>
      rw [step, dealloc] at taken
      split at taken
      · rename_i used
        obtain rfl := Option.some.inj taken
        have gap := type.valueOffset_eq_iff.mpr fits
        rw [live] at used
        obtain ⟨node, member, rfl⟩ := List.mem_map.mp used
        have back : node + type.valueOffset - pointerSize = node := by
          rw [gap, Nat.add_sub_cancel]
        refine ⟨⟨nodes.erase node, ?_, ?_⟩, fun e same => ?_⟩
        · rw [live, List.map_erase fun _ _ => Nat.add_right_cancel]
        · rw [back]
          exact sound.put member
        · obtain rfl := PoolCall.dealloc.inj same
          exact ⟨node, sound.owned node member, rfl, congrArg some back⟩
      · cases taken

theorem fits_of_keeps (taken : self.step type call = some after) (keeps : after.Keeps type)
    (puts : self.PutsBack type call after) : self.Fits type call := by
  cases call with
  | alloc supply constructed =>
      obtain ⟨⟨result, object⟩, made, rfl⟩ := Option.map_eq_some_iff.mp taken
      obtain ⟨⟨memory, node⟩, alloced, same⟩ := Option.map_eq_some_iff.mp made
      obtain ⟨rfl, rfl⟩ := Prod.mk.inj same
      rcases SlabPool.alloc_cases alloced with ⟨node, next, free, -, -, -⟩ | ⟨-, rfl, -, -⟩ |
        ⟨slab, empty, rfl, fresh, rfl, rfl⟩ | ⟨slab, empty, rfl, fresh, rfl, rfl⟩
      · have full : self.memory.free ≠ none := by
          rw [free]
          exact Option.some_ne_none node
        cases supply <;> cases constructed <;>
          first | trivial | exact fun empty => absurd empty full
      · trivial
      · intro _
        by_contra several
        obtain ⟨node, begins, foreign⟩ := SlabPool.free_giveUp empty fresh (Nat.lt_of_not_le several)
        exact foreign (keeps.next node begins)
      · cases constructed with
        | false => trivial
        | true =>
            intro _
            obtain ⟨node, ⟨other, -, inside⟩, -⟩ := keeps.within _ List.mem_cons_self
            obtain ⟨index, within, -⟩ := SlabPool.mem_nodes.mp inside
            exact type.slabSize_pos_iff.mp (Nat.lt_of_le_of_lt (Nat.zero_le _) within)
  | dealloc e =>
      obtain ⟨node, -, rfl, back⟩ := puts e rfl
      rw [step, dealloc] at taken
      split at taken
      · obtain rfl := Option.some.inj taken
        have same : node + type.valueOffset - pointerSize = node := Option.some.inj back
        have gap := type.pointerSize_le_valueOffset
        exact type.valueOffset_eq_iff.mp (by omega)
      · cases taken

/--
For every type and whatever has been called, as long as all calls fit the objects lie
within nodes of the pool and do not overlap; and the next call keeps it so, and puts back
the node that the object came from, if and only if it fits.
-/
theorem run_keeps_iff {calls : List PoolCall}
    (run : Run (step type) (Fits type) initial calls self) :
    self.Keeps type ∧
      (∀ supply constructed, self.memory.SupplyFresh type.shape supply →
        (self.alloc type supply constructed).isSome) ∧
      ∀ call after, self.step type call = some after →
        (after.Keeps type ∧ self.PutsBack type call after ↔ self.Fits type call) := by
  have sound : self.Sound type :=
    run.invariant Sound.initial fun _ _ _ sound fits taken => (sound_step sound fits taken).1
  refine ⟨keeps_of_sound sound, fun supply constructed fresh => ?_, fun call after taken => ?_⟩
  · obtain ⟨nodes, -, sound⟩ := sound
    rw [alloc, Option.isSome_map]
    exact sound.alloc_isSome fresh
  · constructor
    · rintro ⟨keeps, puts⟩
      exact fits_of_keeps taken keeps puts
    · intro fits
      obtain ⟨later, puts⟩ := sound_step sound fits taken
      exact ⟨keeps_of_sound later, puts⟩

/-- An `int`. -/
def intType : ElementType where
  size := 4
  align := 4
  size_pos := by decide
  align_pow := ⟨2, rfl⟩
  aligned := ⟨1, rfl⟩

/-- An `int` of a pool. -/
theorem run_keeps_iff_int :
    ∃ self, Run (step intType) (Fits intType) initial ([] ++ [.alloc (.kept 4096) true]) self ∧
      self.live = [4104] ∧ self.Keeps intType ∧
      (∀ supply constructed, self.memory.SupplyFresh intType.shape supply →
        (self.alloc intType supply constructed).isSome) ∧
      ∀ call after, self.step intType call = some after →
        (after.Keeps intType ∧ self.PutsBack intType call after ↔ self.Fits intType call) := by
  have first : Run (step intType) (Fits intType) initial ([] ++ [.alloc (.kept 4096) true]) _ :=
    .step .start (fun _ => by decide) rfl
  exact ⟨_, first, rfl, run_keeps_iff first⟩

/-- A vector of four floats, and a buffer of two pages. -/
def vectorType : ElementType where
  size := 16
  align := 16
  size_pos := Nat.succ_pos 15
  align_pow := ⟨4, rfl⟩
  aligned := ⟨1, rfl⟩

def pagesType : ElementType where
  size := 8192
  align := 1
  size_pos := Nat.succ_pos 8191
  align_pow := ⟨0, rfl⟩
  aligned := ⟨8192, rfl⟩

/--
The vector is given back 8 bytes behind its node, and the buffer lies behind an array
without nodes.
-/
theorem not_keeps_vector_pages :
    (∃ first after, initial.alloc vectorType (.kept 4096) true = some (first, some 4112) ∧
      first.dealloc 4112 = some after ∧ after.memory.free = some 4104 ∧
      ¬first.PutsBack vectorType (.dealloc 4112) after) ∧
    ∃ after, initial.alloc pagesType (.kept 4096) true = some (after, some 4104) ∧
      ¬after.Keeps pagesType := by
  constructor
  · refine ⟨_, _, rfl, rfl, rfl, fun puts => ?_⟩
    obtain ⟨node, -, back, free⟩ := puts 4112 rfl
    obtain rfl : 4104 = node := Option.some.inj free
    exact absurd back (by decide)
  · refine ⟨_, rfl, fun keeps => ?_⟩
    obtain ⟨node, ⟨slab, -, inside⟩, -⟩ := keeps.within 4104 List.mem_cons_self
    obtain ⟨index, within, -⟩ := SlabPool.mem_nodes.mp inside
    exact absurd within (Nat.not_lt_zero index)

end Pool

end ReactiveToolbox.Util
