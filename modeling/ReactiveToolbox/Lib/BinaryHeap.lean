import Mathlib.Order.WithBot
import Mathlib.Data.List.Perm.Basic

/-!
# Binary heaps in a list

The heap algorithms on a random-access range, with the least key in front: the
children of position `p` are at `2 * p + 1` and `2 * p + 2`.  A position past the
end has the greatest key, so that no bound is carried along.  Which of two equal
keys comes first is left to the algorithms; the laws do not depend on it.
-/

namespace ReactiveToolbox.Lib.BinaryHeap

universe u v

variable {α : Type u} {κ : Type v}

/-- The key at a position, the greatest past the end. -/
def keyAt (key : α → κ) (heap : List α) (position : Nat) : WithTop κ :=
  match heap[position]? with
  | some entry => (key entry : WithTop κ)
  | none => ⊤

/-- Exchange two entries. -/
def swap (heap : List α) (first second : Nat) : List α :=
  (heap.toArray.swapIfInBounds first second).toList

/-! ## Keys by position -/

/-- Two entries change places. -/
theorem swap_perm (heap : List α) (first second : Nat) :
    (swap heap first second).Perm heap := by
  unfold swap Array.swapIfInBounds
  split
  · split
    · exact (Array.swap_perm _ _).toList
    · exact List.Perm.refl _
  · exact List.Perm.refl _

@[simp]
theorem length_swap (heap : List α) (first second : Nat) :
    (swap heap first second).length = heap.length :=
  (swap_perm heap first second).length_eq

section Positions

variable {heap : List α} {first second other : Nat} (key : α → κ)

/-- Behind the heap there is nothing below any key. -/
theorem keyAt_of_le (outside : heap.length ≤ first) : keyAt key heap first = ⊤ := by
  rw [keyAt, List.getElem?_eq_none outside]

theorem getElem?_swap_left (within : first < heap.length) (within' : second < heap.length) :
    (swap heap first second)[first]? = heap[second]? := by
  simp only [swap, Array.swapIfInBounds, List.size_toArray, within, within', dite_true,
    Array.getElem?_toList, Array.getElem?_swap]
  by_cases same : second = first
  · simp [same, within]
  · simp [same, within']

theorem getElem?_swap_right (within : first < heap.length) (within' : second < heap.length) :
    (swap heap first second)[second]? = heap[first]? := by
  simp [swap, Array.swapIfInBounds, within, within']

theorem getElem?_swap_of_ne (notFirst : other ≠ first) (notSecond : other ≠ second) :
    (swap heap first second)[other]? = heap[other]? := by
  unfold swap Array.swapIfInBounds
  split
  · split
    · rw [Array.getElem?_toList, Array.getElem?_swap, if_neg (Ne.symm notSecond),
        if_neg (Ne.symm notFirst), List.getElem?_toArray]
    · rfl
  · rfl

theorem keyAt_swap_left (within : first < heap.length) (within' : second < heap.length) :
    keyAt key (swap heap first second) first = keyAt key heap second := by
  rw [keyAt, getElem?_swap_left within within', keyAt]

theorem keyAt_swap_right (within : first < heap.length) (within' : second < heap.length) :
    keyAt key (swap heap first second) second = keyAt key heap first := by
  rw [keyAt, getElem?_swap_right within within', keyAt]

theorem keyAt_swap_of_ne (notFirst : other ≠ first) (notSecond : other ≠ second) :
    keyAt key (swap heap first second) other = keyAt key heap other := by
  rw [keyAt, getElem?_swap_of_ne notFirst notSecond, keyAt]

end Positions

/-! ## The algorithms -/

variable [LinearOrder κ]

/-- Move the entry at `hole` towards the front until its parent is not greater. -/
def siftUp (key : α → κ) : Nat → Nat → List α → List α
  | 0, _, heap => heap
  | fuel + 1, hole, heap =>
      if keyAt key heap hole < keyAt key heap ((hole - 1) / 2) then
        siftUp key fuel ((hole - 1) / 2) (swap heap hole ((hole - 1) / 2))
      else heap

/-- The child with the lesser key. -/
def lesserChild (key : α → κ) (heap : List α) (hole : Nat) : Nat :=
  if keyAt key heap (2 * hole + 1) ≤ keyAt key heap (2 * hole + 2)
  then 2 * hole + 1
  else 2 * hole + 2

/-- Move the entry at `hole` away from the front until no child is less. -/
def siftDown (key : α → κ) : Nat → Nat → List α → List α
  | 0, _, heap => heap
  | fuel + 1, hole, heap =>
      if keyAt key heap (lesserChild key heap hole) < keyAt key heap hole then
        siftDown key fuel (lesserChild key heap hole)
          (swap heap hole (lesserChild key heap hole))
      else heap

/-- Append an entry and restore the order: `push_back`, then `push_heap`. -/
def pushHeap (key : α → κ) (heap : List α) (entry : α) : List α :=
  siftUp key heap.length heap.length (heap ++ [entry])

/-- Drop the front entry: `pop_heap`, then `pop_back`. -/
def popHeap (key : α → κ) : List α → List α
  | [] => []
  | _ :: rest =>
      match rest.getLast? with
      | none => []
      | some last => siftDown key rest.length 0 (last :: rest.dropLast)

/-- Restore the order below each position before `bound`, the last first. -/
def heapify (key : α → κ) : Nat → List α → List α
  | 0, heap => heap
  | position + 1, heap =>
      heapify key position (siftDown key heap.length position heap)

/-- Order the entries of a list: `make_heap`. -/
def makeHeap (key : α → κ) (heap : List α) : List α :=
  heapify key (heap.length / 2) heap

/-! ## Entries are only moved -/

section Permutation

variable (key : α → κ)

/-- Only places are changed on the way up. -/
theorem siftUp_perm (fuel hole : Nat) (heap : List α) :
    (siftUp key fuel hole heap).Perm heap := by
  induction fuel generalizing hole heap with
  | zero => exact List.Perm.refl _
  | succ fuel ih =>
      rw [siftUp]
      split
      · exact (ih _ _).trans (swap_perm _ _ _)
      · exact List.Perm.refl _

/-- Only places are changed on the way down. -/
theorem siftDown_perm (fuel hole : Nat) (heap : List α) :
    (siftDown key fuel hole heap).Perm heap := by
  induction fuel generalizing hole heap with
  | zero => exact List.Perm.refl _
  | succ fuel ih =>
      rw [siftDown]
      split
      · exact (ih _ _).trans (swap_perm _ _ _)
      · exact List.Perm.refl _

/-- The new entry is added to the others. -/
theorem pushHeap_perm (heap : List α) (entry : α) :
    (pushHeap key heap entry).Perm (entry :: heap) :=
  (siftUp_perm key _ _ _).trans List.perm_append_comm

/-- The front is taken, and the others stay. -/
theorem popHeap_perm (front : α) (rest : List α) :
    (popHeap key (front :: rest)).Perm rest := by
  rw [popHeap]
  rcases List.eq_nil_or_concat rest with rfl | ⟨initial, last, rfl⟩
  · exact List.Perm.refl _
  · simp only [List.concat_eq_append, List.getLast?_append, List.getLast?_singleton,
      Option.some_or, List.dropLast_concat]
    exact (siftDown_perm key _ _ _).trans (List.perm_append_singleton last initial).symm

theorem heapify_perm (bound : Nat) (heap : List α) :
    (heapify key bound heap).Perm heap := by
  induction bound generalizing heap with
  | zero => exact List.Perm.refl _
  | succ bound ih => exact (ih _).trans (siftDown_perm key _ _ _)

/-- A heap is made of the same entries. -/
theorem makeHeap_perm (heap : List α) : (makeHeap key heap).Perm heap :=
  heapify_perm key _ _

end Permutation

/-! ## The order of a heap -/

/-- `child` is a child position of `parent`. -/
def IsChild (parent child : Nat) : Prop := child = 2 * parent + 1 ∨ child = 2 * parent + 2

/-- No parent from `bound` on has a greater key than its child. -/
def OrderedFrom (key : α → κ) (bound : Nat) (heap : List α) : Prop :=
  ∀ parent child, bound ≤ parent → IsChild parent child →
    keyAt key heap parent ≤ keyAt key heap child

/-- No parent has a greater key than its child. -/
def IsHeap (key : α → κ) (heap : List α) : Prop := OrderedFrom key 0 heap

/-- The only pair out of order is the hole and its parent. -/
structure UpReady (key : α → κ) (hole : Nat) (heap : List α) : Prop where
  except : ∀ parent child, child ≠ hole → IsChild parent child →
    keyAt key heap parent ≤ keyAt key heap child
  across : ∀ parent child, IsChild parent hole → IsChild hole child →
    keyAt key heap parent ≤ keyAt key heap child

/-- The only pairs out of order from `bound` on are the hole and its children. -/
structure DownReady (key : α → κ) (bound hole : Nat) (heap : List α) : Prop where
  within : bound ≤ hole
  except : ∀ parent child, bound ≤ parent → parent ≠ hole → IsChild parent child →
    keyAt key heap parent ≤ keyAt key heap child
  across : ∀ parent child, bound ≤ parent → IsChild parent hole → IsChild hole child →
    keyAt key heap parent ≤ keyAt key heap child

section Order

variable {key : α → κ} {heap : List α} {bound hole : Nat}

theorem lt_length_of_keyAt_lt {position : Nat} {above : WithTop κ}
    (less : keyAt key heap position < above) : position < heap.length := by
  by_contra outside
  rw [keyAt, List.getElem?_eq_none (Nat.le_of_not_lt outside)] at less
  exact not_top_lt less

theorem IsChild.lt {parent child : Nat} (isChild : IsChild parent child) : parent < child := by
  unfold IsChild at isChild
  omega

theorem IsChild.parent_eq {parent child : Nat} (isChild : IsChild parent child) :
    (child - 1) / 2 = parent := by
  unfold IsChild at isChild
  omega

theorem isChild_parent {child : Nat} (positive : 0 < child) :
    IsChild ((child - 1) / 2) child := by
  unfold IsChild
  omega

/-- A place has one parent. -/
theorem IsChild.unique {parent other child : Nat}
    (isChild : IsChild parent child) (isChild' : IsChild other child) : parent = other :=
  isChild.parent_eq.symm.trans isChild'.parent_eq

theorem lesserChild_isChild (key : α → κ) (heap : List α) (hole : Nat) :
    IsChild hole (lesserChild key heap hole) := by
  unfold lesserChild IsChild
  split
  · exact Or.inl rfl
  · exact Or.inr rfl

/-- The lesser child is below both. -/
theorem lesserChild_le {child : Nat} (isChild : IsChild hole child) :
    keyAt key heap (lesserChild key heap hole) ≤ keyAt key heap child := by
  unfold lesserChild
  split
  · rename_i least
    rcases isChild with rfl | rfl
    · exact le_refl _
    · exact least
  · rename_i greater
    rcases isChild with rfl | rfl
    · exact le_of_not_ge greater
    · exact le_refl _

/-- An exchange with the parent leaves the parent as the hole. -/
theorem UpReady.swap
    (ready : UpReady key hole heap)
    (less : keyAt key heap hole < keyAt key heap ((hole - 1) / 2)) :
    UpReady key ((hole - 1) / 2) (swap heap hole ((hole - 1) / 2)) := by
  have positive : 0 < hole := by
    rcases Nat.eq_zero_or_pos hole with rfl | positive
    · exact absurd less (lt_irrefl _)
    · exact positive
  have isChild := isChild_parent positive
  generalize (hole - 1) / 2 = up at less isChild ⊢
  have inHeap := lt_length_of_keyAt_lt less
  have upInHeap := isChild.lt.trans inHeap
  have apart : up ≠ hole := isChild.lt.ne
  -- keys after the exchange
  have atHole := keyAt_swap_left key inHeap upInHeap
  have atUp := keyAt_swap_right key inHeap upInHeap
  refine ⟨fun parent child notUp related => ?_, fun parent child above below => ?_⟩
  · by_cases childHole : child = hole
    · subst childHole
      obtain rfl := related.unique isChild
      rw [atHole, atUp]
      exact le_of_lt less
    · rw [keyAt_swap_of_ne key childHole notUp]
      by_cases parentHole : parent = hole
      · subst parentHole
        rw [atHole]
        exact ready.across up child isChild related
      · by_cases parentUp : parent = up
        · subst parentUp
          rw [atUp]
          exact (le_of_lt less).trans (ready.except _ _ childHole related)
        · rw [keyAt_swap_of_ne key parentHole parentUp]
          exact ready.except _ _ childHole related
  · have parentUp : parent ≠ up := above.lt.ne
    have parentHole : parent ≠ hole := (above.lt.trans isChild.lt).ne
    rw [keyAt_swap_of_ne key parentHole parentUp]
    have aboveUp := ready.except parent up apart above
    by_cases childHole : child = hole
    · subst childHole
      rw [atHole]
      exact aboveUp
    · rw [keyAt_swap_of_ne key childHole below.lt.ne']
      exact aboveUp.trans (ready.except _ _ childHole below)

/-- Where the parent is not greater, the hole is filled. -/
theorem UpReady.done
    (ready : UpReady key hole heap)
    (settled : ¬ keyAt key heap hole < keyAt key heap ((hole - 1) / 2)) :
    IsHeap key heap := by
  intro parent child _ related
  by_cases childHole : child = hole
  · subst childHole
    rw [related.parent_eq] at settled
    exact le_of_not_gt settled
  · exact ready.except _ _ childHole related

/-- An entry that goes up where it may be too low makes a heap. -/
theorem siftUp_isHeap {fuel : Nat} (enough : hole ≤ fuel) (ready : UpReady key hole heap) :
    IsHeap key (siftUp key fuel hole heap) := by
  induction fuel generalizing hole heap with
  | zero =>
      obtain rfl := Nat.le_zero.mp enough
      exact ready.done (lt_irrefl _)
  | succ fuel ih =>
      rw [siftUp]
      split
      · rename_i less
        exact ih (by omega) (ready.swap less)
      · rename_i settled
        exact ready.done settled

/-- An exchange with the lesser child leaves that child as the hole. -/
theorem DownReady.swap
    (ready : DownReady key bound hole heap)
    (less : keyAt key heap (lesserChild key heap hole) < keyAt key heap hole) :
    DownReady key bound (lesserChild key heap hole)
      (swap heap hole (lesserChild key heap hole)) := by
  have isChild := lesserChild_isChild key heap hole
  have least : ∀ child, IsChild hole child →
      keyAt key heap (lesserChild key heap hole) ≤ keyAt key heap child :=
    fun child related => lesserChild_le related
  generalize lesserChild key heap hole = down at less isChild least ⊢
  have downInHeap := lt_length_of_keyAt_lt less
  have inHeap := isChild.lt.trans downInHeap
  have atHole := keyAt_swap_left key inHeap downInHeap
  have atDown := keyAt_swap_right key inHeap downInHeap
  refine ⟨ready.within.trans isChild.lt.le,
    fun parent child bounded notDown related => ?_,
    fun parent child bounded above below => ?_⟩
  · by_cases parentHole : parent = hole
    · subst parentHole
      rw [atHole]
      by_cases childDown : child = down
      · subst childDown
        rw [atDown]
        exact le_of_lt less
      · rw [keyAt_swap_of_ne key related.lt.ne' childDown]
        exact least child related
    · rw [keyAt_swap_of_ne key parentHole notDown]
      by_cases childHole : child = hole
      · subst childHole
        rw [atHole]
        exact ready.across _ _ bounded related isChild
      · have childDown : child ≠ down := by
          rintro rfl
          exact parentHole (related.unique isChild)
        rw [keyAt_swap_of_ne key childHole childDown]
        exact ready.except _ _ bounded parentHole related
  · obtain rfl := above.unique isChild
    rw [atHole, keyAt_swap_of_ne key (isChild.lt.trans below.lt).ne' below.lt.ne']
    exact ready.except _ _ (ready.within.trans isChild.lt.le) isChild.lt.ne' below

/-- Where no child is less, the hole is filled. -/
theorem DownReady.done
    (ready : DownReady key bound hole heap)
    (settled : ¬ keyAt key heap (lesserChild key heap hole) < keyAt key heap hole) :
    OrderedFrom key bound heap := by
  intro parent child bounded related
  by_cases parentHole : parent = hole
  · subst parentHole
    exact (le_of_not_gt settled).trans (lesserChild_le related)
  · exact ready.except _ _ bounded parentHole related

/-- An entry that goes down where it may be too high leaves order behind it. -/
theorem siftDown_orderedFrom {fuel : Nat} (enough : heap.length ≤ fuel + hole)
    (ready : DownReady key bound hole heap) :
    OrderedFrom key bound (siftDown key fuel hole heap) := by
  induction fuel generalizing hole heap with
  | zero =>
      refine ready.done ?_
      have past := (lesserChild_isChild key heap hole).lt
      have outside : heap.length ≤ lesserChild key heap hole := by omega
      rw [keyAt_of_le key outside]
      exact not_top_lt
  | succ fuel ih =>
      rw [siftDown]
      split
      · rename_i less
        have past := (lesserChild_isChild key heap hole).lt
        exact ih (by rw [length_swap]; omega) (ready.swap less)
      · rename_i settled
        exact ready.done settled

end Order

/-! ## The laws of the operations -/

section Laws

variable {key key' : α → κ} {heap : List α} {front : α} {rest : List α}

/-- The order depends on the keys of the entries only. -/
theorem IsHeap.congr (isHeap : IsHeap key heap)
    (same : ∀ entry ∈ heap, key' entry = key entry) : IsHeap key' heap := by
  have sameKeys : keyAt key' heap = keyAt key heap := by
    funext position
    unfold keyAt
    split
    · rename_i found
      rw [same _ (List.mem_of_getElem? found)]
    · rfl
  intro parent child bounded related
  rw [sameKeys]
  exact isHeap parent child bounded related

theorem isHeap_nil : IsHeap key [] := by
  intro parent child _ _
  exact le_refl _

/-- The front is below every entry. -/
theorem IsHeap.le_keyAt (isHeap : IsHeap key heap) (position : Nat) :
    keyAt key heap 0 ≤ keyAt key heap position := by
  induction position using Nat.strong_induction_on with
  | _ position ih =>
      rcases Nat.eq_zero_or_pos position with rfl | positive
      · exact le_refl _
      · have related := isChild_parent positive
        exact (ih _ related.lt).trans (isHeap _ _ (Nat.zero_le _) related)

/-- The front entry has the least key. -/
theorem IsHeap.front_le (isHeap : IsHeap key (front :: rest)) {entry : α}
    (present : entry ∈ front :: rest) : key front ≤ key entry := by
  obtain ⟨position, found⟩ := List.getElem?_of_mem present
  have least := isHeap.le_keyAt position
  rw [keyAt, keyAt, found] at least
  exact WithTop.coe_le_coe.mp least

/-- A push keeps a heap. -/
theorem IsHeap.pushHeap (isHeap : IsHeap key heap) (entry : α) :
    IsHeap key (pushHeap key heap entry) := by
  refine siftUp_isHeap (le_refl _) ⟨fun parent child notLast related => ?_,
    fun parent child above below => ?_⟩
  · rcases Nat.lt_or_gt_of_ne notLast with before | past
    · have same : ∀ position, position < heap.length →
          keyAt key (heap ++ [entry]) position = keyAt key heap position := by
        intro position within
        rw [keyAt, List.getElem?_append_left within, keyAt]
      rw [same _ before, same _ (related.lt.trans before)]
      exact isHeap _ _ (Nat.zero_le _) related
    · have outside : (heap ++ [entry]).length ≤ child := by simpa using Nat.succ_le_of_lt past
      rw [keyAt_of_le key outside]
      exact le_top
  · have outside : (heap ++ [entry]).length ≤ child := by simpa using Nat.succ_le_of_lt below.lt
    rw [keyAt_of_le key outside]
    exact le_top

/-- A pop keeps a heap. -/
theorem IsHeap.popHeap (isHeap : IsHeap key (front :: rest)) :
    IsHeap key (popHeap key (front :: rest)) := by
  rw [BinaryHeap.popHeap]
  rcases List.eq_nil_or_concat rest with rfl | ⟨initial, last, rfl⟩
  · exact isHeap_nil
  · simp only [List.concat_eq_append, List.getLast?_append, List.getLast?_singleton,
      Option.some_or, List.dropLast_concat, List.length_append, List.length_singleton]
    refine siftDown_orderedFrom (by simp) ⟨le_refl _, fun parent child _ notFront related => ?_,
      fun parent child _ above _ => absurd above.lt (Nat.not_lt_zero _)⟩
    -- away from the front the entries stand where they stood
    have same : ∀ position, 0 < position → position < initial.length + 1 →
        keyAt key (last :: initial) position =
          keyAt key (front :: (initial ++ [last])) position := by
      intro position positive within
      cases position with
      | zero => omega
      | succ position =>
          rw [keyAt, keyAt, List.getElem?_cons_succ, List.getElem?_cons_succ,
            List.getElem?_append_left (by omega)]
    by_cases within : child < initial.length + 1
    · rw [same parent (Nat.pos_of_ne_zero notFront) (related.lt.trans within),
        same child (Nat.zero_lt_of_lt related.lt) within]
      rw [List.concat_eq_append] at isHeap
      exact isHeap _ _ (Nat.zero_le _) related
    · have outside : (last :: initial).length ≤ child := by simpa using within
      rw [keyAt_of_le key outside]
      exact le_top

theorem heapify_isHeap {bound : Nat} (ordered : OrderedFrom key bound heap) :
    IsHeap key (heapify key bound heap) := by
  induction bound generalizing heap with
  | zero => exact ordered
  | succ bound ih =>
      refine ih (siftDown_orderedFrom (by omega) ⟨le_refl _,
        fun parent child bounded notHole related => ?_,
        fun parent child bounded above _ => ?_⟩)
      · exact ordered _ _ (by omega) related
      · have := above.lt
        omega

/-- What is made is a heap. -/
theorem makeHeap_isHeap (key : α → κ) (heap : List α) : IsHeap key (makeHeap key heap) := by
  refine heapify_isHeap fun parent child bounded related => ?_
  have outside : heap.length ≤ child := by
    unfold IsChild at related
    omega
  rw [keyAt_of_le key outside]
  exact le_top

theorem siftUp_front (key : α → κ) (fuel : Nat) {hole : Nat} (within : hole < heap.length) :
    (siftUp key fuel hole heap)[0]? = heap[0]? ∨
      (siftUp key fuel hole heap)[0]? = heap[hole]? := by
  induction fuel generalizing hole heap with
  | zero => exact Or.inl rfl
  | succ fuel ih =>
      rw [siftUp]
      split
      · have parentWithin : (hole - 1) / 2 < heap.length := by omega
        have moved := getElem?_swap_right within parentWithin
        have stillWithin :
            (hole - 1) / 2 < (swap heap hole ((hole - 1) / 2)).length := by
          rw [length_swap]
          exact parentWithin
        rcases ih stillWithin with kept | risen
        · rcases Nat.eq_zero_or_pos ((hole - 1) / 2) with root | inner
          · rw [root] at moved kept ⊢
            exact Or.inr (kept.trans moved)
          · rw [getElem?_swap_of_ne (by omega) (by omega)] at kept
            exact Or.inl kept
        · exact Or.inr (risen.trans moved)
      · exact Or.inl rfl

/-- The front after a push is the front before it or the new entry. -/
theorem pushHeap_front {entry : α} (first : (pushHeap key heap entry).head? = some front) :
    heap.head? = some front ∨ entry = front := by
  rw [List.head?_eq_getElem?] at first ⊢
  have within : heap.length < (heap ++ [entry]).length := by simp
  rcases siftUp_front key heap.length within with kept | risen
  · rw [pushHeap, kept] at first
    cases heap with
    | nil => exact Or.inr (by simpa using first)
    | cons _ _ => exact Or.inl (by simpa using first)
  · rw [pushHeap, risen] at first
    exact Or.inr (by simpa using first)

end Laws

example : makeHeap (fun key : Int => key) [9, 2, 3, 4, 1] = [1, 2, 3, 4, 9] := by decide

end ReactiveToolbox.Lib.BinaryHeap
