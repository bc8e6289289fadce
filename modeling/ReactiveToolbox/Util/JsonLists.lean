import ReactiveToolbox.Util.JsonSplice

/-!
# Child lists

The list of an element are the slots met from `child_` on through `next_`.  In a
consistent memory every container counts its list in `size_`, and so does every null
element, which the next `at` makes a container.
-/

namespace ReactiveToolbox.Util.Json

open ReactiveToolbox.Lib

/-- The types of which `at` and `push_back` read `value_.child_`. -/
def MutableElement.Counted (self : MutableElement) : Prop :=
  self.elementType = .array ∨ self.elementType = .object ∨ self.elementType = .nullValue

theorem CopyOf.counted {document : Nat} {value element : MutableElement}
    (copy : CopyOf document value element) (counted : element.Counted) :
    value.Counted ∧ element.value = value.value := by
  have same : value.Counted := by
    unfold MutableElement.Counted at counted ⊢
    rwa [← copy.elementType]
  refine ⟨same, copy.value_eq fun string => ?_⟩
  unfold MutableElement.Counted at same
  rw [string] at same
  simp at same

namespace Memory

/-- The `next_` of an element that a document keeps. -/
def link (self : Memory) (address : Address) : Option Pointer :=
  (self.held address).map (·.next)

/-- The list of an element, as long as its `size_` says. -/
def Lists (self : Memory) (element : MutableElement) (nodes : List Address) : Prop :=
  ∃ head, element.value = .child head ∧ LinkedChain self.link head nodes ∧
    nodes.length = element.size

/-- Every list is as long as its element says. -/
def WellCounted (self : Memory) : Prop :=
  ∀ address element, self.held address = some element → element.Counted →
    ∃ nodes, self.Lists element nodes

/-- Every element knows the document that keeps it. -/
def Owned (self : Memory) : Prop :=
  ∀ address element document, self.held address = some element →
    address.document = some document → element.document = some document

/-- Every list is as long as its element says, and every element knows its document. -/
structure Consistent (memory : Memory) : Prop where
  counted : memory.WellCounted
  owned : memory.Owned

/-- A node that lies in no list but that of `this`. -/
def Alone (self : Memory) (this node : Address) : Prop :=
  ∀ other element nodes, other ≠ this → self.held other = some element → element.Counted →
    self.Lists element nodes → node ∉ nodes

variable
    {memory middle after : Memory} {this added : Address} {prev : Pointer}
    {document room fuel : Nat} {self value element : MutableElement} {nodes : List Address}

theorem Lists.linked_of_mem {node : Address} (lists : memory.Lists element nodes)
    (member : node ∈ nodes) : ∃ other, memory.held node = some other := by
  obtain ⟨head, -, chain, -⟩ := lists
  obtain ⟨next, linked⟩ := chain.linked_of_mem member
  obtain ⟨other, held, -⟩ := Option.map_eq_some_iff.mp linked
  exact ⟨other, held⟩

theorem next_of_link {address : Address} {next : Pointer}
    (linked : memory.link address = some next) : memory.next address = some next := by
  obtain ⟨other, held, rfl⟩ := Option.map_eq_some_iff.mp linked
  rw [Memory.next, get_of_held held, Option.map_some]

theorem next_of_get {address : Address} {next : Pointer}
    (linked : memory.link address = some next)
    (got : memory.get address = some element) : element.next = next := by
  have same := next_of_link linked
  rw [Memory.next, got, Option.map_some, Option.some.injEq] at same
  exact same

theorem Lists.of_empty (value_eq : element.value = .child none) (size_eq : element.size = 0) :
    memory.Lists element [] :=
  ⟨none, value_eq, .nil, size_eq.symm⟩

/-! ## Assignments that change no link -/

section

variable {change : MutableElement → MutableElement}

theorem Changed.link (changed : Changed memory after this change)
    (keeps : ∀ element, (change element).next = element.next) : after.link = memory.link := by
  funext other
  simp only [Memory.link, changed.held]
  split
  · rw [Option.map_map]
    congr 1
    funext element
    exact keeps element
  · rfl

theorem Lists.of_link_eq (lists : memory.Lists element nodes)
    (same : after.link = memory.link) : after.Lists element nodes := by
  obtain ⟨head, value_eq, chain, length_eq⟩ := lists
  exact ⟨head, value_eq, same ▸ chain, length_eq⟩

/-- An assignment to an element that leaves it with a list of the right length. -/
theorem Consistent.changed (consistent : memory.Consistent)
    (changed : Changed memory after this change)
    (keeps : ∀ element, (change element).next = element.next)
    (owned : ∀ element, (change element).document = element.document)
    (listed : ∀ self, memory.held this = some self → (change self).Counted →
      ∃ nodes, memory.Lists (change self) nodes) :
    after.Consistent := by
  have same := changed.link keeps
  refine ⟨fun address element held counted => ?_, fun address element document held inside => ?_⟩
  · rw [changed.held] at held
    split at held
    · rename_i here
      subst here
      obtain ⟨self, self_held, rfl⟩ := Option.map_eq_some_iff.mp held
      obtain ⟨nodes, lists⟩ := listed self self_held counted
      exact ⟨nodes, lists.of_link_eq same⟩
    · obtain ⟨nodes, lists⟩ := consistent.counted address element held counted
      exact ⟨nodes, lists.of_link_eq same⟩
  · rw [changed.held] at held
    split at held
    · obtain ⟨self, self_held, rfl⟩ := Option.map_eq_some_iff.mp held
      rw [owned]
      exact consistent.owned address self document self_held inside
    · exact consistent.owned address element document held inside

end

/-! ## Insertion -/

section

variable (spliced : Spliced memory after document this prev element added)
include spliced

theorem Spliced.held_added : after.held added = some element := by
  obtain ⟨generation, index, rfl⟩ := spliced.inside
  exact spliced.new

theorem Spliced.held_of_ne {other : Address} (other_ne : other ≠ added) :
    after.held other = (memory.held other).map (MutableElement.relink this prev added other) := by
  cases other with
  | temporary => rfl
  | root document => exact spliced.others _ other_ne
  | slot document generation index => exact spliced.others _ other_ne

/-- What was there before is not the new element. -/
theorem Spliced.ne_of_get {other : Address} (got : memory.get other = some value) :
    other ≠ added := by
  rintro rfl
  have fresh := spliced.fresh
  rw [got] at fresh
  cases fresh

theorem Spliced.ne_added {other : Address} (held : memory.held other = some value) :
    other ≠ added :=
  spliced.ne_of_get (get_of_held held)

/-- What an element that was there has become. -/
theorem Spliced.get_of_get {other : Address} (got : memory.get other = some value) :
    after.get other = some (value.relink this prev added other) := by
  rw [spliced.others other (spliced.ne_of_get got), got, Option.map_some]

/-- Only the element in front of the new one changes its link. -/
theorem Spliced.next_of_ne {other : Address} (got : memory.get other = some value)
    (apart : prev ≠ some other) : after.next other = memory.next other := by
  rw [next, next, spliced.get_of_get got, got]
  simp only [Option.map_some, MutableElement.relink, if_neg apart]

theorem Spliced.link_of_ne {other : Address} (held : memory.held other = some value)
    (apart : prev ≠ some other) : after.link other = memory.link other := by
  rw [link, link, spliced.held_of_ne (spliced.ne_added held), held]
  simp only [Option.map_some, MutableElement.relink, if_neg apart]

/-- A list that the new element is not linked into stays as it is. -/
theorem Spliced.lists (lists : memory.Lists value nodes)
    (apart : ∀ last, prev = some last → last ∉ nodes) : after.Lists value nodes := by
  obtain ⟨head, value_eq, chain, length_eq⟩ := id lists
  refine ⟨head, value_eq, chain.congr fun node member => ?_, length_eq⟩
  obtain ⟨other, held⟩ := lists.linked_of_mem member
  exact spliced.link_of_ne held fun same => apart node same member

theorem Spliced.lists_first (first : prev = none) (empty : self.size = 0) :
    after.Lists (self.relink this prev added this) [added] := by
  refine ⟨some added, ?_, .cons ?_ .nil, ?_⟩
  · simp only [MutableElement.relink, first, and_self, if_true]
  · rw [link, spliced.held_added, Option.map_some, spliced.first first]
  · simp only [MutableElement.relink, if_true, empty, List.length_singleton]

theorem Spliced.lists_behind {last : Address} {before rest : List Address}
    (behind : prev = some last) (lists : memory.Lists self (before ++ last :: rest)) :
    after.Lists (self.relink this prev added this) (before ++ last :: added :: rest) := by
  obtain ⟨head, value_eq, chain, length_eq⟩ := id lists
  obtain ⟨kept, kept_eq, next_eq⟩ := spliced.behind last behind
  obtain ⟨held_last, last_eq⟩ :=
    lists.linked_of_mem (List.mem_append_right before List.mem_cons_self)
  obtain rfl := Option.some.inj (kept_eq.symm.trans (get_of_held last_eq))
  refine ⟨head, ?_, chain.insert ?_ ?_ fun node member node_ne => ?_, ?_⟩
  · simp only [MutableElement.relink, behind, reduceCtorEq, and_false, if_false, value_eq]
  · rw [link, spliced.held_of_ne (spliced.ne_added last_eq), last_eq]
    simp only [Option.map_some, MutableElement.relink, behind, if_true]
  · rw [link, spliced.held_added, link, last_eq, Option.map_some, Option.map_some, next_eq]
  · obtain ⟨other, held⟩ := lists.linked_of_mem member
    refine spliced.link_of_ne held fun same => ?_
    exact node_ne (Option.some.inj (behind.symm.trans same)).symm
  · simp only [List.length_append, List.length_cons] at length_eq ⊢
    simp only [MutableElement.relink, if_true]
    omega

/-- The list of `this` afterwards, which ends at the new element if it was appended. -/
theorem Spliced.lists_this (lists : memory.Lists self nodes)
    (first : prev = none → nodes = []) (behind : ∀ last, prev = some last → last ∈ nodes) :
    ∃ grown, after.Lists (self.relink this prev added this) grown ∧ added ∈ grown ∧
      (prev = nodes.getLast? → grown.getLast? = some added) := by
  cases prev_eq : prev with
  | none =>
      obtain rfl := first prev_eq
      obtain ⟨-, -, -, size_eq⟩ := lists
      rw [← prev_eq]
      exact ⟨_, spliced.lists_first prev_eq size_eq.symm, List.mem_cons_self, fun _ => rfl⟩
  | some last =>
      obtain ⟨before, rest, rfl⟩ := List.append_of_mem (behind last prev_eq)
      rw [← prev_eq]
      refine ⟨_, spliced.lists_behind prev_eq lists,
        List.mem_append_right _ (List.mem_cons_of_mem _ List.mem_cons_self), fun ends => ?_⟩
      -- The node before the new one is the last, and occurs only once.
      obtain ⟨head, -, chain, -⟩ := lists
      have none_after : rest = [] := by
        by_contra nonempty
        have last_eq : rest.getLast? = some last := by
          have whole := ends.symm.trans prev_eq
          rw [List.getLast?_append_of_ne_nil _ (List.cons_ne_nil _ _)] at whole
          obtain ⟨next, others', rfl⟩ := List.exists_cons_of_ne_nil nonempty
          rwa [List.getLast?_cons_cons] at whole
        exact chain.not_mem_after (List.mem_of_getLast? last_eq)
      subst none_after
      rw [List.getLast?_append_of_ne_nil _ (List.cons_ne_nil _ _), List.getLast?_cons_cons,
        List.getLast?_singleton]

theorem Spliced.held_this (this_held : memory.held this = some self) :
    after.held this = some (self.relink this prev added this) := by
  rw [spliced.held_of_ne (spliced.ne_added this_held), this_held, Option.map_some]

end

/--
A value can be linked into the list of `this` behind `prev`: it counts its own list, the
place is in the list of `this`, or is the beginning of an empty one, and no other list runs
through it.
-/
structure Insertable (memory : Memory) (this : Address) (prev : Pointer)
    (value : MutableElement) : Prop where
  listed : value.Counted → ∃ nodes, memory.Lists value nodes ∧
    ∀ last, prev = some last → last ∉ nodes
  placed : ∀ self, memory.held this = some self → self.Counted →
    ∃ nodes, memory.Lists self nodes ∧ (prev = none → nodes = []) ∧
      ∀ last, prev = some last → last ∈ nodes
  alone : ∀ last, prev = some last → memory.Alone this last

theorem Lists.congr (lists : memory.Lists value nodes)
    (value_eq : element.value = value.value) (size_eq : element.size = value.size) :
    memory.Lists element nodes := by
  obtain ⟨head, head_eq, chain, length_eq⟩ := lists
  exact ⟨head, value_eq.trans head_eq, chain, length_eq.trans size_eq.symm⟩

/-- Linking in a value where it can be linked in keeps every count right. -/
theorem Consistent.splice (consistent : memory.Consistent)
    (insertable : memory.Insertable this prev element)
    (spliced : Spliced memory after document this prev element added) :
    after.Consistent := by
  refine ⟨fun address current held counted => ?_, fun address current document' held inside => ?_⟩
  · by_cases new : address = added
    · subst new
      obtain rfl := Option.some.inj (spliced.held_added.symm.trans held)
      obtain ⟨nodes, lists, apart⟩ := insertable.listed counted
      exact ⟨nodes, spliced.lists lists apart⟩
    · rw [spliced.held_of_ne new] at held
      obtain ⟨old, old_held, rfl⟩ := Option.map_eq_some_iff.mp held
      by_cases here : address = this
      · subst here
        obtain ⟨nodes, lists, first, behind⟩ := insertable.placed old old_held counted
        obtain ⟨grown, grown_lists, -⟩ := spliced.lists_this lists first behind
        exact ⟨grown, grown_lists⟩
      · obtain ⟨nodes, lists⟩ := consistent.counted address old old_held counted
        refine ⟨nodes, (spliced.lists lists fun last last_eq => ?_).congr ?_ ?_⟩
        · exact insertable.alone last last_eq address old nodes here old_held counted lists
        · simp only [MutableElement.relink, here, false_and, if_false]
        · simp only [MutableElement.relink, here, if_false]
  · by_cases new : address = added
    · subst new
      obtain rfl := Option.some.inj (spliced.held_added.symm.trans held)
      obtain ⟨generation, index, rfl⟩ := spliced.inside
      exact spliced.owned.trans inside
    · rw [spliced.held_of_ne new] at held
      obtain ⟨old, old_held, rfl⟩ := Option.map_eq_some_iff.mp held
      exact consistent.owned address old document' old_held inside

theorem Lists.unique {others : List Address} (lists : memory.Lists element nodes)
    (other : memory.Lists element others) : nodes = others := by
  obtain ⟨head, head_eq, chain, -⟩ := lists
  obtain ⟨head', head'_eq, chain', -⟩ := other
  obtain rfl := Value.child.inj (head_eq.symm.trans head'_eq)
  exact chain.unique chain'

/-- The new element lies in no list but the one it was linked into. -/
theorem Consistent.alone_added (consistent : memory.Consistent)
    (insertable : memory.Insertable this prev element)
    (spliced : Spliced memory after document this prev element added) :
    after.Alone this added := by
  intro other current nodes other_ne held counted lists member
  by_cases new : other = added
  · subst new
    obtain rfl := Option.some.inj (spliced.held_added.symm.trans held)
    obtain ⟨old, old_lists, apart⟩ := insertable.listed counted
    obtain rfl := lists.unique (spliced.lists old_lists apart)
    obtain ⟨node, node_held⟩ := old_lists.linked_of_mem member
    exact spliced.ne_added node_held rfl
  · rw [spliced.held_of_ne new] at held
    obtain ⟨old, old_held, rfl⟩ := Option.map_eq_some_iff.mp held
    obtain ⟨old_nodes, old_lists⟩ := consistent.counted other old old_held counted
    have stays := spliced.lists old_lists fun last last_eq =>
      insertable.alone last last_eq other old old_nodes other_ne old_held counted old_lists
    have same : MutableElement.relink this prev added other old =
        { old with next := (MutableElement.relink this prev added other old).next } := by
      simp only [MutableElement.relink, other_ne, false_and, if_false]
    rw [same] at lists
    obtain rfl := (lists.congr rfl rfl : after.Lists old nodes).unique stays
    obtain ⟨node, node_held⟩ := old_lists.linked_of_mem member
    exact spliced.ne_added node_held rfl

/-! ## Searches through a list -/

section

variable {head start tail : Pointer}

theorem seekKey_chain {key : Text} (chain : LinkedChain memory.link head nodes)
    (sought : memory.seekKey key fuel head start = some (.inr tail)) :
    tail = nodes.getLast?.or start := by
  induction chain generalizing fuel start with
  | nil =>
      cases fuel <;>
      · simp only [seekKey, Option.some.injEq, Sum.inr.injEq] at sought
        exact sought.symm
  | cons linked _ ih =>
      cases fuel with
      | zero => cases sought
      | succ fuel =>
          simp only [seekKey, Option.bind_eq_bind, Option.bind_eq_some_iff] at sought
          obtain ⟨element, element_eq, name, -, sought⟩ := sought
          split at sought
          · cases sought
          · rw [next_of_get linked element_eq] at sought
            rw [ih sought, List.getLast?_cons]
            cases List.getLast? _ <;> rfl

/-- Where `at(index)` finds no element, it has counted them all and is at the last one. -/
theorem seekIndex_missing {index count count' : Nat} (chain : LinkedChain memory.link head nodes)
    (sought : memory.seekIndex index fuel count head start = some (.inr (count', tail))) :
    tail = nodes.getLast?.or start ∧ count' = count + nodes.length := by
  induction chain generalizing fuel count start with
  | nil =>
      cases fuel <;>
      · simp only [seekIndex, Option.some.injEq, Sum.inr.injEq, Prod.mk.injEq] at sought
        exact ⟨sought.2.symm, sought.1.symm⟩
  | cons linked _ ih =>
      cases fuel with
      | zero => cases sought
      | succ fuel =>
          simp only [seekIndex, Option.bind_eq_bind, Option.bind_eq_some_iff] at sought
          obtain ⟨element, element_eq, sought⟩ := sought
          split at sought
          · cases sought
          · rw [next_of_get linked element_eq] at sought
            obtain ⟨tail_eq, count_eq⟩ := ih sought
            constructor
            · rw [tail_eq, List.getLast?_cons]
              cases List.getLast? _ <;> rfl
            · rw [count_eq, List.length_cons]
              omega

/-- The element that `at(index)` finds is one of the list. -/
theorem seekIndex_lt {index count : Nat} {found : Address}
    (chain : LinkedChain memory.link head nodes) (from_le : count ≤ index)
    (sought : memory.seekIndex index fuel count head start = some (.inl found)) :
    index < count + nodes.length := by
  induction chain generalizing fuel count start with
  | nil => cases fuel <;> cases sought
  | cons linked _ ih =>
      cases fuel with
      | zero => cases sought
      | succ fuel =>
          simp only [seekIndex, Option.bind_eq_bind, Option.bind_eq_some_iff] at sought
          obtain ⟨element, element_eq, sought⟩ := sought
          rw [List.length_cons]
          split at sought
          · omega
          · rename_i other
            rw [next_of_get linked element_eq] at sought
            have := ih (by omega) sought
            omega

theorem lastFrom_chain (chain : LinkedChain memory.link head nodes)
    (sought : memory.lastFrom fuel head = some tail) : tail = nodes.getLast? := by
  induction chain generalizing fuel with
  | nil =>
      cases fuel <;>
      · simp only [lastFrom, Option.some.injEq] at sought
        exact sought.symm
  | cons linked rest ih =>
      cases fuel with
      | zero => cases sought
      | succ fuel =>
          simp only [lastFrom, Option.bind_eq_bind, Option.bind_eq_some_iff] at sought
          obtain ⟨element, element_eq, sought⟩ := sought
          rw [next_of_get linked element_eq] at sought
          cases rest with
          | nil =>
              simp only [Option.pure_def, Option.some.injEq] at sought
              exact sought.symm
          | cons =>
              rw [ih sought, List.getLast?_cons_cons]

/-- The element that `back()` finds is met from the first on. -/
theorem lastFrom_reaches {last : Address}
    (sought : memory.lastFrom fuel head = some (some last)) : Reaches memory.next head last := by
  induction fuel generalizing head with
  | zero => cases head <;> cases sought
  | succ fuel ih =>
      cases head with
      | none => cases sought
      | some address =>
          simp only [lastFrom, Option.bind_eq_bind, Option.bind_eq_some_iff] at sought
          obtain ⟨element, element_eq, sought⟩ := sought
          cases next_eq : element.next with
          | none =>
              simp only [next_eq, Option.pure_def, Option.some.injEq] at sought
              exact sought ▸ .first
          | some follow =>
              simp only [next_eq] at sought
              refine .later ?_ (ih sought)
              rw [next, element_eq, Option.map_some, next_eq]

/-- The loop of `erase` unlinks nothing, or the element behind one that it has met. -/
theorem unlink_cases {target : Address} {head result : Pointer}
    (unlinked : memory.unlink this target fuel head = some (after, result)) :
    after = memory ∨ ∃ node element erased middle,
      memory.get node = some element ∧ element.next = some target ∧
      memory.get target = some erased ∧
      memory.update node (fun element => { element with next := erased.next }) = some middle ∧
      middle.update this (fun element => { element with size := element.predSize }) =
        some after ∧
      Reaches memory.next head node := by
  induction fuel generalizing head with
  | zero =>
      cases head with
      | none =>
          simp only [unlink, Option.some.injEq, Prod.mk.injEq] at unlinked
          exact Or.inl unlinked.1.symm
      | some => cases unlinked
  | succ fuel ih =>
      cases head with
      | none =>
          simp only [unlink, Option.some.injEq, Prod.mk.injEq] at unlinked
          exact Or.inl unlinked.1.symm
      | some address =>
          simp only [unlink, Option.bind_eq_bind, Option.bind_eq_some_iff] at unlinked
          obtain ⟨element, element_eq, unlinked⟩ := unlinked
          split at unlinked
          · rename_i found
            simp only [Option.bind_eq_some_iff, Option.pure_def, Option.some.injEq,
              Prod.mk.injEq] at unlinked
            obtain ⟨erased, erased_eq, middle, middle_eq, after', after_eq, rfl, -⟩ := unlinked
            exact Or.inr ⟨address, element, erased, middle, element_eq, found, erased_eq,
              middle_eq, after_eq, .first⟩
          · rcases ih unlinked with
              same | ⟨node, before, erased, middle, before_eq, behind, erased_eq, middle_eq,
                after_eq, reached⟩
            · exact Or.inl same
            · refine Or.inr ⟨node, before, erased, middle, before_eq, behind, erased_eq,
                middle_eq, after_eq, .later ?_ reached⟩
              rw [next, element_eq, Option.map_some]

end

/--
The rule of the loop of `operator=`: what a round keeps, with the elements that are still to
be copied, holds at its end, as long as a round leaves the links of these alone.
-/
theorem insertAll_rule {motive : Memory → Pointer → List Address → Prop}
    (round : ∀ memory prev source sources after added,
      motive memory prev (source :: sources) →
      memory.insertAfter this prev source = some (after, added) →
      motive after (some added) sources ∧
        ∀ other ∈ source :: sources, after.next other = memory.next other)
    {head : Pointer} {sources : List Address} (initially : motive memory prev sources)
    (chain : LinkedChain memory.next head sources)
    (inserted : memory.insertAll this fuel prev head = some after) :
    ∃ last, motive after last [] := by
  induction sources generalizing memory prev head fuel with
  | nil =>
      cases chain
      cases fuel <;>
      · simp only [Memory.insertAll, Option.some.injEq] at inserted
        exact ⟨prev, inserted ▸ initially⟩
  | cons source sources ih =>
      have begins := chain.head_eq
      subst begins
      cases fuel with
      | zero => cases inserted
      | succ fuel =>
          simp only [List.head?_cons, Memory.insertAll, Option.bind_eq_bind,
            Option.bind_eq_some_iff, Prod.exists] at inserted
          obtain ⟨middle, added, insert_eq, element, element_eq, rest⟩ := inserted
          obtain ⟨continues, same⟩ := round _ _ _ _ _ _ initially insert_eq
          cases chain.congr same with
          | cons linked chain' =>
              rw [next, element_eq, Option.map_some, Option.some.injEq] at linked
              exact ih continues (linked ▸ chain') rest

end Memory

end ReactiveToolbox.Util.Json
