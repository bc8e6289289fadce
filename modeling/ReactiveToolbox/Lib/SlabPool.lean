import Mathlib.Data.List.Pairwise
import Mathlib.Logic.Function.Basic
import ReactiveToolbox.Lib.LinkedChain

/-!
# Pools of slabs

A pool hands out nodes of equal size, which it gets in slabs, and keeps those that are
free in a list threaded through the nodes themselves.  A slab is threaded onto the list
before the pool owns it, so that the list dangles where the pool then fails to own it.
-/

namespace ReactiveToolbox.Lib

/-- So many nodes in a slab, and so many bytes from each to the next. -/
structure SlabShape where
  stride : Nat
  count : Nat
  stride_pos : 0 < stride

namespace SlabShape

/-- The address of a node in the slab at some address. -/
def node (shape : SlabShape) (slab index : Nat) : Nat :=
  slab + index * shape.stride

/-- The nodes of a slab. -/
def nodes (shape : SlabShape) (slab : Nat) : List Nat :=
  (List.range shape.count).map (shape.node slab)

/-- Two slabs do not overlap. -/
def Apart (shape : SlabShape) (slab other : Nat) : Prop :=
  slab + shape.count * shape.stride ≤ other ∨ other + shape.count * shape.stride ≤ slab

instance (shape : SlabShape) (slab other : Nat) : Decidable (shape.Apart slab other) :=
  inferInstanceAs (Decidable (_ ∨ _))

end SlabShape

/-- The links in memory, where there are any, the head of the free list, and the slabs. -/
structure SlabPool where
  link : Nat → Option (Option Nat)
  free : Option Nat
  slabs : List Nat

/-- What becomes of a new slab: there is none, or the pool cannot own it, or it does. -/
inductive Supply where
  | refused
  | unkept (slab : Nat)
  | kept (slab : Nat)
  deriving DecidableEq

namespace SlabPool

/-- No slab and no node. -/
def empty : SlabPool :=
  { link := fun _ => none, free := none, slabs := [] }

/-- A node in front of the free list. -/
def put (pool : SlabPool) (node : Nat) : SlabPool :=
  { pool with
    link := Function.update pool.link node (some pool.free)
    free := some node }

/-- The nodes of a slab behind its first one, each put in front of the free list. -/
def thread (shape : SlabShape) (pool : SlabPool) (slab : Nat) : SlabPool :=
  (List.range' 1 (shape.count - 1)).foldl (fun pool index => pool.put (shape.node slab index)) pool

/-- The memory of a slab is given back. -/
def giveUp (shape : SlabShape) (pool : SlabPool) (slab : Nat) : SlabPool :=
  { pool with link := fun node => if node ∈ shape.nodes slab then none else pool.link node }

/-- A slab is owned. -/
def own (pool : SlabPool) (slab : Nat) : SlabPool :=
  { pool with slabs := pool.slabs ++ [slab] }

@[simp] theorem link_own (pool : SlabPool) (slab : Nat) : (pool.own slab).link = pool.link := rfl
@[simp] theorem free_own (pool : SlabPool) (slab : Nat) : (pool.own slab).free = pool.free := rfl

/-- Memory for a new slab overlaps none that is in use. -/
def Fresh (shape : SlabShape) (pool : SlabPool) (slab : Nat) : Prop :=
  ∀ other ∈ pool.slabs, shape.Apart slab other

instance (shape : SlabShape) (pool : SlabPool) (slab : Nat) :
    Decidable (pool.Fresh shape slab) :=
  inferInstanceAs (Decidable (∀ _ ∈ _, _))

/-- A node of the free list or else of a new slab, or no node. -/
def alloc (shape : SlabShape) (pool : SlabPool) (supply : Supply) :
    Option (SlabPool × Option Nat) :=
  match pool.free with
  | some node => (pool.link node).map fun next => ({ pool with free := next }, some node)
  | none =>
      match supply with
      | .refused => some (pool, none)
      | .unkept slab =>
          if pool.Fresh shape slab then
            some ((pool.thread shape slab).giveUp shape slab, none)
          else none
      | .kept slab =>
          if pool.Fresh shape slab then
            some ((pool.thread shape slab).own slab, some (shape.node slab 0))
          else none

/-- The node belongs to a slab of the pool. -/
def Owns (shape : SlabShape) (pool : SlabPool) (node : Nat) : Prop :=
  ∃ slab ∈ pool.slabs, node ∈ shape.nodes slab

/-- The free list ends, and its nodes are the pool's own and not in use. -/
def FreeList (shape : SlabShape) (pool : SlabPool) (live nodes : List Nat) : Prop :=
  LinkedChain pool.link pool.free nodes ∧ ∀ node ∈ nodes, pool.Owns shape node ∧ node ∉ live

/-- A pool of which some nodes are in use. -/
structure Sound (shape : SlabShape) (pool : SlabPool) (live : List Nat) : Prop where
  free : ∃ nodes, pool.FreeList shape live nodes
  nodup : live.Nodup
  owned : ∀ node ∈ live, pool.Owns shape node
  apart : pool.slabs.Pairwise shape.Apart

variable {shape : SlabShape} {pool after : SlabPool} {live nodes added : List Nat}
  {slab node other : Nat} {supply : Supply}

/-! ## Nodes of slabs -/

instance : Std.Symm shape.Apart := ⟨fun _ _ apart => apart.symm⟩

theorem mem_nodes :
    node ∈ shape.nodes slab ↔ ∃ index < shape.count, shape.node slab index = node := by
  simp only [SlabShape.nodes, List.mem_map, List.mem_range]

/-- Two indexes of a slab are a stride apart. -/
theorem node_add_stride_le {first second : Nat} (before : first < second) :
    shape.node slab first + shape.stride ≤ shape.node slab second := by
  have strides := Nat.mul_le_mul_right shape.stride (Nat.succ_le_of_lt before)
  rw [Nat.succ_mul] at strides
  unfold SlabShape.node
  omega

theorem node_injective : Function.Injective (shape.node slab) := by
  intro first second same
  have positive := shape.stride_pos
  by_contra different
  rcases Nat.lt_or_gt_of_ne different with before | behind
  · have apart : _ ≤ shape.node slab second := node_add_stride_le before
    omega
  · have apart : _ ≤ shape.node slab first := node_add_stride_le behind
    omega

theorem nodup_nodes : (shape.nodes slab).Nodup :=
  List.nodup_range.map node_injective

theorem node_bounds (member : node ∈ shape.nodes slab) :
    slab ≤ node ∧ node + shape.stride ≤ slab + shape.count * shape.stride := by
  obtain ⟨index, inside, rfl⟩ := mem_nodes.mp member
  exact ⟨Nat.le_add_right _ _, node_add_stride_le inside⟩

theorem not_mem_of_apart {otherSlab : Nat} (apart : shape.Apart slab otherSlab)
    (member : node ∈ shape.nodes slab) : node ∉ shape.nodes otherSlab := by
  intro otherMember
  have bounds := node_bounds member
  have otherBounds := node_bounds otherMember
  have positive := shape.stride_pos
  rcases apart with before | behind <;> omega

theorem Fresh.not_owns (fresh : pool.Fresh shape slab) (member : node ∈ shape.nodes slab) :
    ¬pool.Owns shape node := by
  rintro ⟨other, owned, otherMember⟩
  exact not_mem_of_apart (fresh other owned) member otherMember

/-- Different nodes of a pool are a stride apart. -/
theorem Owns.apart (owns : pool.Owns shape node) (otherOwns : pool.Owns shape other)
    (different : node ≠ other) (apart : pool.slabs.Pairwise shape.Apart) :
    node + shape.stride ≤ other ∨ other + shape.stride ≤ node := by
  obtain ⟨slab, owned, member⟩ := owns
  obtain ⟨otherSlab, otherOwned, otherMember⟩ := otherOwns
  by_cases same : slab = otherSlab
  · subst same
    obtain ⟨index, -, rfl⟩ := mem_nodes.mp member
    obtain ⟨otherIndex, -, rfl⟩ := mem_nodes.mp otherMember
    rcases Nat.lt_or_gt_of_ne fun equal => different (congrArg _ equal) with before | behind
    · exact .inl (node_add_stride_le before)
    · exact .inr (node_add_stride_le behind)
  · have bounds := node_bounds member
    have otherBounds := node_bounds otherMember
    rcases apart.forall owned otherOwned same with before | behind
    · exact .inl (by omega)
    · exact .inr (by omega)

/-! ## The free list -/

theorem chain_put (chain : LinkedChain pool.link pool.free nodes) (fresh : node ∉ nodes) :
    LinkedChain (pool.put node).link (pool.put node).free (node :: nodes) := by
  refine .cons (Function.update_self ..) (chain.congr fun other member => ?_)
  refine Function.update_of_ne (fun same => fresh ?_) ..
  exact same ▸ member

theorem chain_foldl_put (chain : LinkedChain pool.link pool.free nodes) (nodup : added.Nodup)
    (fresh : ∀ node ∈ added, node ∉ nodes) :
    LinkedChain (added.foldl put pool).link (added.foldl put pool).free
      (added.reverse ++ nodes) := by
  induction added generalizing pool nodes with
  | nil => exact chain
  | cons first added continued =>
      obtain ⟨different, nodup⟩ := List.nodup_cons.mp nodup
      rw [List.foldl_cons, List.reverse_cons, List.append_assoc, List.singleton_append]
      refine continued (chain_put chain (fresh first List.mem_cons_self)) nodup ?_
      intro node member present
      rcases List.mem_cons.mp present with rfl | old
      · exact different member
      · exact fresh node (List.mem_cons_of_mem _ member) old

theorem slabs_foldl_put (pool : SlabPool) (added : List Nat) :
    (added.foldl put pool).slabs = pool.slabs := by
  induction added generalizing pool with
  | nil => rfl
  | cons first added continued => exact continued (pool.put first)

/-- The nodes of a slab that are put on the free list. -/
theorem thread_eq (pool : SlabPool) (slab : Nat) :
    pool.thread shape slab = (shape.nodes slab).tail.foldl put pool := by
  rw [thread, SlabShape.nodes, ← List.map_tail, List.foldl_map, List.range_eq_range',
    List.tail_range']

theorem slabs_thread : (pool.thread shape slab).slabs = pool.slabs := by
  rw [thread_eq, slabs_foldl_put]

theorem slabs_own : ((pool.thread shape slab).own slab).slabs = pool.slabs ++ [slab] := by
  rw [own, slabs_thread]

theorem owns_own : ((pool.thread shape slab).own slab).Owns shape node ↔
    pool.Owns shape node ∨ node ∈ shape.nodes slab := by
  unfold Owns
  rw [slabs_own]
  simp only [List.mem_append, List.mem_singleton, or_and_right, exists_or, exists_eq_left]

theorem owns_giveUp : ((pool.thread shape slab).giveUp shape slab).Owns shape node ↔
    pool.Owns shape node := by
  rw [Owns, giveUp, slabs_thread]
  rfl

theorem chain_thread (empty : pool.free = none) :
    LinkedChain (pool.thread shape slab).link (pool.thread shape slab).free
      (shape.nodes slab).tail.reverse := by
  have chain : LinkedChain pool.link pool.free [] := empty ▸ .nil
  rw [thread_eq, ← List.append_nil (List.reverse _)]
  exact chain_foldl_put chain nodup_nodes.tail fun node _ => List.not_mem_nil

theorem nodes_eq_cons (positive : 0 < shape.count) :
    shape.nodes slab = shape.node slab 0 :: (shape.nodes slab).tail := by
  obtain ⟨count, more⟩ := Nat.exists_eq_succ_of_ne_zero (Nat.ne_of_gt positive)
  rw [SlabShape.nodes, more, List.range_succ_eq_map, List.map_cons, List.tail_cons]

/-! ## What the operations do -/

/-- A free list is not affected by what happens to nodes that are not in it. -/
theorem FreeList.weaken {fewer : List Nat} (free : pool.FreeList shape live nodes)
    (less : ∀ node ∈ fewer, node ∈ live) : pool.FreeList shape fewer nodes :=
  ⟨free.1, fun node member =>
    ⟨(free.2 node member).1, fun used => (free.2 node member).2 (less node used)⟩⟩

theorem Sound.empty : (empty : SlabPool).Sound shape [] where
  free := ⟨[], .nil, fun _ member => nomatch member⟩
  nodup := List.nodup_nil
  owned _ member := nomatch member
  apart := .nil

/-- The head of the free list is a node of the pool. -/
theorem Sound.owns_free (sound : pool.Sound shape live) (free : pool.free = some node) :
    pool.Owns shape node := by
  obtain ⟨nodes, chain, owned⟩ := sound.free
  rw [free] at chain
  cases chain with
  | cons => exact (owned node List.mem_cons_self).1

/-- A node in use that nobody refers to any more. -/
theorem Sound.lose (sound : pool.Sound shape (node :: live)) : pool.Sound shape live where
  free := by
    obtain ⟨nodes, free⟩ := sound.free
    exact ⟨nodes, free.weaken fun node => List.mem_cons_of_mem _⟩
  nodup := (List.nodup_cons.mp sound.nodup).2
  owned node member := sound.owned node (List.mem_cons_of_mem _ member)
  apart := sound.apart

theorem Sound.put (sound : pool.Sound shape live) (member : node ∈ live) :
    (pool.put node).Sound shape (live.erase node) where
  free := by
    obtain ⟨nodes, chain, owned⟩ := sound.free
    refine ⟨node :: nodes, chain_put chain fun free => (owned node free).2 member, ?_⟩
    intro other either
    rcases List.mem_cons.mp either with rfl | old
    · exact ⟨sound.owned other member, sound.nodup.not_mem_erase⟩
    · exact ⟨(owned other old).1, fun used => (owned other old).2 (List.mem_of_mem_erase used)⟩
  nodup := sound.nodup.erase node
  owned other used := sound.owned other (List.mem_of_mem_erase used)
  apart := sound.apart

/-- The head of the free list, which is then in use. -/
theorem Sound.take (sound : pool.Sound shape live) (free : pool.free = some node) :
    ∃ next, pool.link node = some next ∧
      ({ pool with free := next } : SlabPool).Sound shape (node :: live) := by
  obtain ⟨nodes, chain, owned⟩ := sound.free
  have nodup := chain.nodup
  rw [free] at chain
  cases chain with
  | @cons _ next rest linked chain =>
      obtain ⟨different, -⟩ := List.nodup_cons.mp nodup
      obtain ⟨owns, unused⟩ := owned node List.mem_cons_self
      refine ⟨next, linked, ⟨rest, chain, fun other member => ?_⟩,
        List.nodup_cons.mpr ⟨unused, sound.nodup⟩, ?_, sound.apart⟩
      · obtain ⟨otherOwns, otherUnused⟩ := owned other (List.mem_cons_of_mem _ member)
        refine ⟨otherOwns, fun used => ?_⟩
        rcases List.mem_cons.mp used with rfl | old
        · exact different member
        · exact otherUnused old
      · intro other used
        rcases List.mem_cons.mp used with rfl | old
        · exact owns
        · exact sound.owned other old

/-- A slab that the pool owns, with all of its nodes but the first on the free list. -/
theorem Sound.grow (sound : pool.Sound shape live) (empty : pool.free = none)
    (fresh : pool.Fresh shape slab) :
    ((pool.thread shape slab).own slab).Sound shape live where
  free := by
    refine ⟨_, chain_thread empty, fun node member => ?_⟩
    have inside := List.mem_of_mem_tail (List.mem_reverse.mp member)
    exact ⟨owns_own.mpr (.inr inside), fun used => fresh.not_owns inside (sound.owned node used)⟩
  nodup := sound.nodup
  owned node used := owns_own.mpr (.inl (sound.owned node used))
  apart := by
    rw [slabs_own]
    refine List.pairwise_append.mpr ⟨sound.apart, List.pairwise_singleton _ _, ?_⟩
    intro old owned new same
    rw [List.mem_singleton.mp same]
    exact (fresh old owned).symm

/-- The first node of a new slab. -/
theorem Sound.first (sound : pool.Sound shape live) (empty : pool.free = none)
    (fresh : pool.Fresh shape slab) (positive : 0 < shape.count) :
    ((pool.thread shape slab).own slab).Sound shape (shape.node slab 0 :: live) where
  free := by
    refine ⟨_, chain_thread empty, fun node member => ?_⟩
    have inside := List.mem_of_mem_tail (List.mem_reverse.mp member)
    refine ⟨owns_own.mpr (.inr inside), fun used => ?_⟩
    rcases List.mem_cons.mp used with rfl | old
    · have nodup : (shape.nodes slab).Nodup := nodup_nodes
      rw [nodes_eq_cons positive] at nodup
      exact (List.nodup_cons.mp nodup).1 (List.mem_reverse.mp member)
    · exact fresh.not_owns inside (sound.owned node old)
  nodup := by
    refine List.nodup_cons.mpr ⟨fun used => ?_, sound.nodup⟩
    exact fresh.not_owns (mem_nodes.mpr ⟨0, positive, rfl⟩) (sound.owned _ used)
  owned node used := by
    rcases List.mem_cons.mp used with rfl | old
    · exact owns_own.mpr (.inr (mem_nodes.mpr ⟨0, positive, rfl⟩))
    · exact owns_own.mpr (.inl (sound.owned node old))
  apart := (sound.grow empty fresh).apart

/-- The memory of a slab of at most one node, which is not on the free list. -/
theorem Sound.giveUp (sound : pool.Sound shape live) (empty : pool.free = none)
    (single : shape.count ≤ 1) :
    ((pool.thread shape slab).giveUp shape slab).Sound shape live := by
  have none_threaded : pool.thread shape slab = pool := by
    rw [thread, Nat.sub_eq_zero_of_le single]
    rfl
  rw [none_threaded]
  refine ⟨⟨[], ?_, fun _ member => nomatch member⟩, sound.nodup, sound.owned, sound.apart⟩
  rw [SlabPool.giveUp, empty]
  exact .nil

/-- Otherwise the free list begins with a node of memory that is given back. -/
theorem free_giveUp (empty : pool.free = none) (fresh : pool.Fresh shape slab)
    (several : 1 < shape.count) :
    ∃ node, ((pool.thread shape slab).giveUp shape slab).free = some node ∧
      ¬((pool.thread shape slab).giveUp shape slab).Owns shape node := by
  have begins : (pool.thread shape slab).free = _ := (chain_thread empty).head_eq
  cases nodes : (shape.nodes slab).tail.reverse with
  | nil =>
      have length := congrArg List.length nodes
      rw [List.length_reverse, List.length_tail, SlabShape.nodes, List.length_map,
        List.length_range, List.length_nil] at length
      omega
  | cons node rest =>
      rw [nodes] at begins
      have member : node ∈ (shape.nodes slab).tail.reverse := by
        rw [nodes]
        exact List.mem_cons_self
      refine ⟨node, begins, fun owns => ?_⟩
      exact fresh.not_owns (List.mem_of_mem_tail (List.mem_reverse.mp member)) (owns_giveUp.mp owns)

/--
What `alloc` can do: give the head of the free list; do nothing, without a slab; give a
slab up again; or give the first node of a new slab.
-/
theorem alloc_cases {result : Option Nat} (taken : pool.alloc shape supply = some (after, result)) :
    (∃ node next, pool.free = some node ∧ pool.link node = some next ∧
      after = { pool with free := next } ∧ result = some node) ∨
    (pool.free = none ∧ supply = .refused ∧ after = pool ∧ result = none) ∨
    (∃ slab, pool.free = none ∧ supply = .unkept slab ∧ pool.Fresh shape slab ∧
      after = (pool.thread shape slab).giveUp shape slab ∧ result = none) ∨
    (∃ slab, pool.free = none ∧ supply = .kept slab ∧ pool.Fresh shape slab ∧
      after = (pool.thread shape slab).own slab ∧ result = some (shape.node slab 0)) := by
  unfold alloc at taken
  split at taken
  · rename_i node free
    obtain ⟨next, linked, same⟩ := Option.map_eq_some_iff.mp taken
    obtain ⟨rfl, rfl⟩ := Prod.mk.inj same
    exact .inl ⟨node, next, free, linked, rfl, rfl⟩
  · rename_i empty
    refine .inr ?_
    split at taken
    · obtain ⟨rfl, rfl⟩ := Prod.mk.inj (Option.some.inj taken)
      exact .inl ⟨empty, rfl, rfl, rfl⟩
    · rename_i slab
      split at taken
      · rename_i fresh
        obtain ⟨rfl, rfl⟩ := Prod.mk.inj (Option.some.inj taken)
        exact .inr (.inl ⟨slab, empty, rfl, fresh, rfl, rfl⟩)
      · cases taken
    · rename_i slab
      split at taken
      · rename_i fresh
        obtain ⟨rfl, rfl⟩ := Prod.mk.inj (Option.some.inj taken)
        exact .inr (.inr ⟨slab, empty, rfl, fresh, rfl, rfl⟩)
      · cases taken

/-- From a list that is not empty it takes the head. -/
theorem alloc_of_free {node : Nat} {result : Option Nat} (free : pool.free = some node)
    (taken : pool.alloc shape supply = some (after, result)) :
    ∃ next, pool.link node = some next ∧ after = { pool with free := next } ∧
      result = some node := by
  rcases alloc_cases taken with ⟨other, next, begins, linked, given, same⟩ | ⟨empty, -⟩ |
    ⟨slab, empty, -⟩ | ⟨slab, empty, -⟩
  · obtain rfl := Option.some.inj (begins.symm.trans free)
    exact ⟨next, linked, given, same⟩
  · cases empty.symm.trans free
  · cases empty.symm.trans free
  · cases empty.symm.trans free

/-- For an empty list it takes a slab. -/
theorem alloc_of_empty {slab : Nat} {result : Option Nat} (empty : pool.free = none)
    (taken : pool.alloc shape (.kept slab) = some (after, result)) :
    after = (pool.thread shape slab).own slab ∧ result = some (shape.node slab 0) := by
  rcases alloc_cases taken with ⟨node, next, free, -⟩ | ⟨-, other, -⟩ | ⟨slab, -, other, -⟩ |
    ⟨slab, -, kept, -, owned, first⟩
  · cases empty.symm.trans free
  · cases other
  · cases other
  · obtain rfl := Supply.kept.inj kept
    exact ⟨owned, first⟩

/-- Memory for the new slab, where there is one, overlaps none that is in use. -/
def SupplyFresh (shape : SlabShape) (pool : SlabPool) : Supply → Prop
  | .refused => True
  | .unkept slab | .kept slab => pool.Fresh shape slab

/-- A sound pool reads no link that is not there. -/
theorem Sound.alloc_isSome (sound : pool.Sound shape live)
    (fresh : pool.SupplyFresh shape supply) : (pool.alloc shape supply).isSome := by
  unfold alloc
  split
  · rename_i node free
    obtain ⟨next, linked, -⟩ := sound.take free
    rw [linked]
    rfl
  · cases supply with
    | refused => rfl
    | unkept slab =>
        have clear : pool.Fresh shape slab := fresh
        simp only [if_pos clear, Option.isSome_some]
    | kept slab =>
        have clear : pool.Fresh shape slab := fresh
        simp only [if_pos clear, Option.isSome_some]

end SlabPool

end ReactiveToolbox.Lib
