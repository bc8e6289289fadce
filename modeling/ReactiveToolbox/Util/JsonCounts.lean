import ReactiveToolbox.Lib.Transition
import ReactiveToolbox.Util.JsonLists

/-!
# Sizes of containers

An operation of an element counts only the list it was called for, while the nodes it
links belong to whatever lists run through them.  The sizes are therefore right as long
as no list shares the node that is written with another one, a value keeps the count it
comes with, and the vector of the elements stays where it is.
-/

namespace ReactiveToolbox.Util.Json

open ReactiveToolbox.Lib

namespace Memory

/-- The value counts its own list. -/
def Listed (self : Memory) (value : MutableElement) : Prop :=
  value.Counted → ∃ nodes, self.Lists value nodes

/-- The node that an append writes lies in no other list. -/
def AloneLast (self : Memory) (this : Address) (tail : Pointer) : Prop :=
  ∀ last, tail = some last → self.Alone this last

/-! ## What a call must respect -/

variable (memory : Memory) (this : Address)

/-- An element that is not found is appended: there is room, and no other list ends here. -/
def AdmitsAtKey (key : Text) : Prop :=
  ∀ self head fuel tail, memory.get this = some self →
    self.elementType = .object ∨ self.elementType = .nullValue →
    self.child = some head → memory.seekKey key fuel head none = some (.inr tail) →
    memory.Room this 1 ∧ memory.AloneLast this tail

/-- Elements up to an index are appended: there is room, and no other list ends here. -/
def AdmitsAtIndex (index : Nat) : Prop :=
  ∀ self head fuel count tail, memory.get this = some self →
    self.elementType = .array ∨ self.elementType = .nullValue →
    self.child = some head →
    memory.seekIndex index fuel 0 head none = some (.inr (count, tail)) →
    memory.Room this (index + 1 - count) ∧ memory.AloneLast this tail

/--
What is pushed is there and counts its list, in which the last element of `this` does not
occur, and what is no array has no size that would be taken for that of the new array.
-/
structure AdmitsPushBack (val : Address) : Prop where
  room : memory.Room this 1
  live : ∃ value, memory.get val = some value ∧ memory.Listed value ∧
    ∀ self nodes last, memory.get this = some self → self.elementType = .array →
      memory.Lists self nodes → nodes.getLast? = some last →
      memory.Alone this last ∧
        (value.Counted → ∀ listed, memory.Lists value listed → last ∉ listed)
  size : ∀ self, memory.get this = some self → self.elementType ≠ .array → self.size = 0

/-- There is room for the value, which is there, and so is what it is put behind. -/
structure AdmitsInsertAfter (it : Pointer) (val : Address) : Prop where
  room : memory.Room this 1
  live : ∃ value, memory.get val = some value ∧ memory.Insertable this it value
  placed : ∀ last, it = some last → ∃ before, memory.held last = some before

/-- No other list runs through the element that the erased one stands behind. -/
def AdmitsErase (it : Pointer) : Prop :=
  ∀ self head node, memory.get this = some self → self.child = some head →
    it ≠ none → head ≠ it → Reaches memory.next head node → memory.next node = some it →
    memory.Alone this node

/--
What is assigned counts its list.  Of a container each element of the list does, there is
room for their copies, and `this` is not among them unless it is the first.
-/
structure AdmitsAssign (rhs : Address) : Prop where
  null : ∀ value, memory.get rhs = some value → value.elementType = .nullValue →
    memory.Listed value
  container : ∀ value, memory.get rhs = some value → value.isContainer → rhs ≠ this →
    ∃ head nodes, value.value = .child head ∧ LinkedChain memory.next head nodes ∧
      memory.Room this nodes.length ∧ this ∉ nodes.tail ∧
      ∀ node ∈ nodes, ∀ element, memory.get node = some element → memory.Listed element

/-- The condition on the memory before a call, with the temporaries of its statement. -/
def Admits : Call → Prop
  | .atKey this key => (∃ document, this.document = some document) ∧ memory.AdmitsAtKey this key
  | .atIndex this index =>
      (∃ document, this.document = some document) ∧ memory.AdmitsAtIndex this index
  | .pushBack this val =>
      (∃ document, this.document = some document) ∧ memory.AdmitsPushBack this val
  | .insertAfter this it val =>
      (∃ document, this.document = some document) ∧ memory.AdmitsInsertAfter this it val
  | .erase this it => (∃ document, this.document = some document) ∧ memory.AdmitsErase this it
  | .clear this => ∃ document, this.document = some document
  | .assign this rhs =>
      (∃ document, this.document = some document) ∧ memory.AdmitsAssign this rhs

end Memory

namespace Memory

variable
    {memory middle after : Memory} {this added val rhs : Address} {prev it : Pointer}
    {document room fuel : Nat} {self value element : MutableElement} {nodes : List Address}

theorem Alone.changed {node : Address} {change : MutableElement → MutableElement}
    (alone : memory.Alone this node) (changed : Changed memory after this change)
    (keeps : ∀ element, (change element).next = element.next) : after.Alone this node := by
  intro other element nodes other_ne held counted lists
  rw [changed.held, if_neg other_ne] at held
  exact alone other element nodes other_ne held counted
    (lists.of_link_eq (changed.link keeps).symm)

theorem Listed.insertable_first (listed : memory.Listed value)
    (placed : ∀ self, memory.held this = some self → self.Counted → memory.Lists self []) :
    memory.Insertable this none value where
  listed counted := by
    obtain ⟨nodes, lists⟩ := listed counted
    exact ⟨nodes, lists, fun _ absent => by cases absent⟩
  placed self held counted :=
    ⟨[], placed self held counted, fun _ => rfl, fun _ absent => by cases absent⟩
  alone _ absent := by cases absent

/-- A value can be linked in at the end of a list. -/
theorem Insertable.of_last (lists : memory.Lists self nodes)
    (this_held : memory.held this = some self)
    (listed : value.Counted → ∃ listed, memory.Lists value listed ∧
      ∀ last, nodes.getLast? = some last → last ∉ listed)
    (alone : ∀ last, nodes.getLast? = some last → memory.Alone this last) :
    memory.Insertable this nodes.getLast? value where
  listed := listed
  placed current held _ := by
    obtain rfl := Option.some.inj (this_held.symm.trans held)
    exact ⟨nodes, lists, List.getLast?_eq_none_iff.mp, fun _ => List.mem_of_getLast?⟩
  alone := alone

theorem Insertable.copy (insertable : memory.Insertable this prev value)
    (copy : CopyOf document value element) : memory.Insertable this prev element where
  listed counted := by
    obtain ⟨same, value_eq⟩ := copy.counted counted
    obtain ⟨nodes, lists, apart⟩ := insertable.listed same
    exact ⟨nodes, lists.congr value_eq copy.size, apart⟩
  placed := insertable.placed
  alone := insertable.alone

/-- `insert_after` of a value that can be linked in. -/
theorem Consistent.insertAfter (consistent : memory.Consistent)
    (inserted : memory.insertAfter this it val = some (after, added))
    (inside : this.document = some document) (fits : memory.Fits document (room + 1))
    (live : memory.get val = some value) (insertable : memory.Insertable this it value)
    (placed : ∀ last, it = some last → ∃ before, memory.get last = some before) :
    ∃ element, CopyOf document value element ∧
      Spliced memory after document this it element added ∧
      after.Fits document room ∧ after.Consistent ∧ after.Alone this added := by
  obtain ⟨self, this_eq, -⟩ := Option.bind_eq_some_iff.mp inserted
  have owned := consistent.owned this self document (held_of_get this_eq inside) inside
  obtain ⟨element, copy, spliced, fits'⟩ :=
    insertAfter_spliced inserted this_eq owned fits live placed
  exact ⟨element, copy, spliced, fits', consistent.splice (insertable.copy copy) spliced,
    consistent.alone_added (insertable.copy copy) spliced⟩

/-! ## The two `at` -/

/-- What is empty can be linked in at the end of a list that ends alone. -/
theorem Insertable.default {tail : Pointer} {key : Option Text} {owner : Option Nat}
    (lists : memory.Lists self nodes) (this_held : memory.held this = some self)
    (tail_eq : tail = nodes.getLast?) (alone : memory.AloneLast this tail) :
    memory.Insertable this tail { key := key, document := owner } := by
  subst tail_eq
  exact .of_last lists this_held
    (fun _ => ⟨[], .of_empty rfl rfl, fun _ _ => List.not_mem_nil⟩) alone

/-- A null element or a container becomes a container of the same list. -/
theorem Consistent.retype {elementType : ElementType} (consistent : memory.Consistent)
    (changed : Changed memory after this
      fun element => { element with elementType := elementType })
    (counted : ∀ self, memory.held this = some self → self.Counted) : after.Consistent :=
  consistent.changed changed (fun _ => rfl) (fun _ => rfl) fun self held _ => by
    obtain ⟨nodes, lists⟩ := consistent.counted this self held (counted self held)
    exact ⟨nodes, lists.congr rfl rfl⟩

theorem Lists.head_eq {head : Pointer} (lists : memory.Lists self nodes)
    (child_eq : self.child = some head) : LinkedChain memory.link head nodes := by
  obtain ⟨first, value_eq, chain, -⟩ := lists
  simp only [MutableElement.child, value_eq, Option.some.injEq] at child_eq
  exact child_eq ▸ chain

theorem Consistent.atKey {key : Text} {found : Address} (consistent : memory.Consistent)
    (at_eq : memory.atKey fuel this key = some (.ok (after, found)))
    (inside : this.document = some document) (admits : memory.AdmitsAtKey this key) :
    after.Consistent := by
  obtain ⟨self, this_eq, -⟩ := Option.bind_eq_some_iff.mp at_eq
  have this_held := held_of_get this_eq inside
  obtain ⟨right, typed, head, typed_eq, head_eq, found⟩ := atKey_ok at_eq this_eq
  have counted : self.Counted := by
    rcases right with object | null
    · exact Or.inr (Or.inl object)
    · exact Or.inr (Or.inr null)
  have typed_consistent := consistent.retype (get_update typed_eq) fun other held => by
    obtain rfl := Option.some.inj (this_held.symm.trans held)
    exact counted
  rcases found with ⟨sought, rfl⟩ | ⟨tail, owner, sought, owned, appended⟩
  · exact typed_consistent
  · obtain ⟨fits, alone⟩ := admits self head fuel tail this_eq right head_eq sought
    obtain rfl := Option.some.inj
      (owned.symm.trans (consistent.owned this self document this_held inside))
    obtain ⟨spliced, -⟩ := appended 0 (fits owner inside)
    obtain ⟨nodes, lists⟩ := consistent.counted this self this_held counted
    have tail_eq := seekKey_chain (lists.head_eq head_eq) sought
    rw [Option.or_none] at tail_eq
    have typed_held : typed.held this = some { self with elementType := .object } := by
      rw [(get_update typed_eq).held, if_pos rfl, this_held, Option.map_some]
    have typed_lists : typed.Lists { self with elementType := .object } nodes :=
      (lists.of_link_eq ((get_update typed_eq).link fun _ => rfl)).congr rfl rfl
    exact typed_consistent.splice
      (.default typed_lists typed_held tail_eq fun last last_eq =>
        (alone last last_eq).changed (get_update typed_eq) fun _ => rfl) spliced

/-- The rounds that append elements to a list. -/
theorem Consistent.appendAll {rounds : Nat} {tail last : Pointer} (consistent : memory.Consistent)
    (appended : memory.appendAll this rounds tail = some (after, last))
    (inside : this.document = some document) (fits : memory.Fits document rounds)
    (this_held : memory.held this = some self) (lists : memory.Lists self nodes)
    (tail_eq : tail = nodes.getLast?) (alone : memory.AloneLast this tail) :
    after.Consistent := by
  induction rounds generalizing memory self nodes tail with
  | zero =>
      simp only [Memory.appendAll, Option.some.injEq, Prod.mk.injEq] at appended
      obtain ⟨rfl, -⟩ := appended
      exact consistent
  | succ rounds ih =>
      simp only [Memory.appendAll, Option.bind_eq_bind, Option.bind_eq_some_iff,
        Prod.exists] at appended
      obtain ⟨middle, added, append_eq, rest⟩ := appended
      have owned := consistent.owned this self document this_held inside
      have insertable : memory.Insertable this tail { document := some document } :=
        .default lists this_held tail_eq alone
      obtain ⟨spliced, fits'⟩ := append_spliced append_eq (get_of_held this_held) owned fits
        fun node node_eq => by
          obtain ⟨head, -, chain, -⟩ := id lists
          have ends := List.getLast?_eq_some_iff.mp (tail_eq.symm.trans node_eq)
          obtain ⟨before, rfl⟩ := ends
          obtain ⟨held, held_eq, next_eq⟩ := Option.map_eq_some_iff.mp chain.link_last
          exact ⟨held, get_of_held held_eq, next_eq⟩
      obtain ⟨grown, grown_lists, -, ends⟩ := spliced.lists_this lists
        (fun absent => List.getLast?_eq_none_iff.mp (tail_eq.symm.trans absent))
        fun last last_eq => List.mem_of_getLast? (tail_eq.symm.trans last_eq)
      refine ih (consistent.splice insertable spliced) rest fits' (spliced.held_this this_held)
        grown_lists (ends tail_eq).symm fun node node_eq => ?_
      obtain rfl := Option.some.inj node_eq
      exact consistent.alone_added insertable spliced

theorem Consistent.atIndex {index : Nat} {found : Address} (consistent : memory.Consistent)
    (at_eq : memory.atIndex fuel this index = some (.ok (after, found)))
    (inside : this.document = some document) (admits : memory.AdmitsAtIndex this index) :
    after.Consistent := by
  obtain ⟨self, this_eq, -⟩ := Option.bind_eq_some_iff.mp at_eq
  have this_held := held_of_get this_eq inside
  obtain ⟨right, typed, head, typed_eq, head_eq, found⟩ := atIndex_ok at_eq this_eq
  have counted : self.Counted := by
    rcases right with array | null
    · exact Or.inl array
    · exact Or.inr (Or.inr null)
  have typed_consistent := consistent.retype (get_update typed_eq) fun other held => by
    obtain rfl := Option.some.inj (this_held.symm.trans held)
    exact counted
  rcases found with ⟨sought, rfl⟩ | ⟨count, tail, sought, appended⟩
  · exact typed_consistent
  · obtain ⟨fits, alone⟩ := admits self head fuel count tail this_eq right head_eq sought
    obtain ⟨nodes, lists⟩ := consistent.counted this self this_held counted
    have tail_eq := (seekIndex_missing (lists.head_eq head_eq) sought).1
    rw [Option.or_none] at tail_eq
    have typed_held : typed.held this = some { self with elementType := .array } := by
      rw [(get_update typed_eq).held, if_pos rfl, this_held, Option.map_some]
    have typed_lists : typed.Lists { self with elementType := .array } nodes :=
      (lists.of_link_eq ((get_update typed_eq).link fun _ => rfl)).congr rfl rfl
    exact typed_consistent.appendAll appended inside ((fits document inside).update typed_eq)
      typed_held typed_lists tail_eq fun last last_eq =>
        (alone last last_eq).changed (get_update typed_eq) fun _ => rfl

/-! ## `push_back` -/

theorem Consistent.pushBack (consistent : memory.Consistent)
    (pushed : memory.pushBack fuel this val = some (after, added))
    (inside : this.document = some document) (admits : memory.AdmitsPushBack this val) :
    after.Consistent := by
  simp only [Memory.pushBack, Option.bind_eq_bind, Option.bind_eq_some_iff] at pushed
  obtain ⟨self, this_eq, pushed⟩ := pushed
  have this_held := held_of_get this_eq inside
  obtain ⟨value, live, listed, apart⟩ := admits.live
  have fits := admits.room document inside
  by_cases array : self.elementType = .array
  · simp only [if_pos array, Option.bind_some, Option.bind_eq_some_iff] at pushed
    obtain ⟨it, it_eq, inserted⟩ := pushed
    obtain ⟨nodes, lists⟩ := consistent.counted this self this_held (Or.inl array)
    simp only [back, this_eq, Option.bind_eq_bind, Option.bind_some,
      Option.bind_eq_some_iff] at it_eq
    obtain ⟨head, head_eq, sought⟩ := it_eq
    obtain rfl := lastFrom_chain (lists.head_eq head_eq) sought
    have insertable : memory.Insertable this nodes.getLast? value := by
      refine .of_last lists this_held (fun counted => ?_) fun last last_eq =>
        (apart self nodes last this_eq array lists last_eq).1
      obtain ⟨others, other_lists⟩ := listed counted
      exact ⟨others, other_lists, fun last last_eq =>
        (apart self nodes last this_eq array lists last_eq).2 counted others other_lists⟩
    obtain ⟨-, -, -, -, after_consistent, -⟩ :=
      consistent.insertAfter inserted inside fits live insertable fun last last_eq => by
        obtain ⟨other, held⟩ := lists.linked_of_mem (List.mem_of_getLast? last_eq)
        exact ⟨other, get_of_held held⟩
    exact after_consistent
  · simp only [if_neg array, Option.bind_eq_some_iff] at pushed
    obtain ⟨typed, typed_eq, it, it_eq, inserted⟩ := pushed
    have size_eq := admits.size self this_eq array
    have typed_consistent := consistent.changed (get_update typed_eq) (fun _ => rfl) (fun _ => rfl)
      fun other held _ => by
        obtain rfl := Option.some.inj (this_held.symm.trans held)
        exact ⟨[], .of_empty rfl size_eq⟩
    have typed_get : typed.get this =
        some { self with elementType := .array, value := .child none } := by
      rw [get_update typed_eq, if_pos rfl, this_eq, Option.map_some]
    simp only [back, typed_get, Option.bind_eq_bind, Option.bind_some, MutableElement.child,
      lastFrom, Option.some.injEq] at it_eq
    subst it_eq
    have typed_lists : typed.Lists
        { self with elementType := .array, value := .child none } [] := .of_empty rfl size_eq
    have typed_live : ∃ pushed, typed.get val = some pushed ∧ typed.Listed pushed := by
      rw [get_update typed_eq]
      by_cases same : val = this
      · subst same
        rw [if_pos rfl, this_eq]
        exact ⟨_, rfl, fun _ => ⟨[], typed_lists⟩⟩
      · rw [if_neg same]
        refine ⟨value, live, fun counted => ?_⟩
        obtain ⟨nodes, lists⟩ := listed counted
        exact ⟨nodes, lists.of_link_eq ((get_update typed_eq).link fun _ => rfl)⟩
    obtain ⟨pushed, pushed_eq, pushed_listed⟩ := typed_live
    obtain ⟨-, -, -, -, after_consistent, -⟩ :=
      typed_consistent.insertAfter inserted inside (fits.update typed_eq) pushed_eq
        (pushed_listed.insertable_first fun other held _ => by
          obtain rfl := Option.some.inj
            ((held_of_get typed_get inside).symm.trans held)
          exact typed_lists)
        fun _ absent => by cases absent
    exact after_consistent

/-! ## `clear` and `erase` -/

theorem Consistent.clearElement (consistent : memory.Consistent)
    (cleared : memory.clearElement this = some after) : after.Consistent :=
  consistent.changed (get_update cleared) (fun _ => rfl) (fun _ => rfl)
    fun _ _ _ => ⟨[], .of_empty rfl rfl⟩

theorem Lists.erase_first {target : Address} {erased : MutableElement} {rest : List Address}
    (lists : memory.Lists self (target :: rest)) (erased_eq : memory.get target = some erased) :
    memory.Lists { self with value := .child erased.next, size := self.predSize } rest := by
  obtain ⟨head, -, chain, length_eq⟩ := lists
  cases chain with
  | cons linked chain =>
      refine ⟨_, by rw [next_of_get linked erased_eq], chain, ?_⟩
      rw [List.length_cons] at length_eq
      rw [MutableElement.predSize, ← length_eq, if_neg (Nat.succ_ne_zero _), Nat.add_sub_cancel]

/-- What unlinking the element behind `node` leaves of all elements. -/
theorem unlink_held {node : Address} {follow : Pointer}
    (middle_eq : memory.update node (fun element => { element with next := follow }) =
      some middle)
    (after_eq : middle.update this
      (fun element => { element with size := element.predSize }) = some after)
    (other : Address) :
    after.held other = (memory.held other).map fun element =>
      { element with
        next := if other = node then follow else element.next
        size := if other = this then element.predSize else element.size } := by
  rw [(get_update after_eq).held, (get_update middle_eq).held]
  cases memory.held other with
  | none => split <;> split <;> rfl
  | some element => split <;> split <;> rfl

/-- Linking past an element takes it out of the list of `this`, and of no other. -/
theorem Consistent.unlink {node target : Address} {erased : MutableElement}
    (consistent : memory.Consistent)
    (listed : ∀ self, memory.held this = some self → self.Counted →
      ∃ nodes, memory.Lists self nodes ∧ node ∈ nodes)
    (element_eq : memory.get node = some element) (behind : element.next = some target)
    (erased_eq : memory.get target = some erased)
    (held_eq : ∀ other, after.held other = (memory.held other).map fun element =>
      { element with
        next := if other = node then erased.next else element.next
        size := if other = this then element.predSize else element.size })
    (alone : memory.Alone this node) : after.Consistent := by
  have link_eq : ∀ other, other ≠ node → after.link other = memory.link other := by
    intro other other_ne
    rw [link, link, held_eq, Option.map_map]
    simp only [Function.comp_def, if_neg other_ne]
  refine ⟨fun address current held counted => ?_, fun address current document held inside => ?_⟩
  · rw [held_eq] at held
    obtain ⟨old, old_held, rfl⟩ := Option.map_eq_some_iff.mp held
    by_cases here : address = this
    · subst here
      obtain ⟨nodes, lists, member⟩ := listed old old_held counted
      obtain ⟨before, rest, rfl⟩ := List.append_of_mem member
      obtain ⟨head, value_eq, chain, length_eq⟩ := id lists
      -- The element behind the node is the next of the list.
      obtain ⟨tail, rfl⟩ : ∃ tail, rest = target :: tail := by
        cases chain.suffix with
        | cons linked suffix =>
            rw [← next_of_get linked element_eq, behind] at suffix
            cases suffix
            exact ⟨_, rfl⟩
      have node_link : after.link node = memory.link target := by
        obtain ⟨other, target_held⟩ := lists.linked_of_mem
          (List.mem_append_right before (List.mem_cons_of_mem _ List.mem_cons_self))
        obtain ⟨_, node_held⟩ := lists.linked_of_mem member
        obtain rfl := Option.some.inj ((get_of_held target_held).symm.trans erased_eq)
        rw [link, link, held_eq, node_held, target_held]
        simp only [Option.map_some, if_true]
      refine ⟨before ++ node :: tail, head, value_eq,
        chain.remove node_link fun other _ other_ne => link_eq other other_ne, ?_⟩
      simp only [List.length_append, List.length_cons] at length_eq ⊢
      rw [if_pos trivial, MutableElement.predSize, ← length_eq, if_neg (by omega)]
      omega
    · obtain ⟨others, other_lists⟩ := consistent.counted address old old_held counted
      have apart := alone address old others here old_held counted other_lists
      obtain ⟨head, value_eq, chain, length_eq⟩ := other_lists
      refine ⟨others, head, value_eq, chain.congr fun other member => ?_, ?_⟩
      · exact link_eq other fun same => apart (same ▸ member)
      · simp only [if_neg here, length_eq]
  · rw [held_eq] at held
    obtain ⟨old, old_held, rfl⟩ := Option.map_eq_some_iff.mp held
    exact consistent.owned address old document old_held inside

theorem Consistent.erase {result : Pointer} (consistent : memory.Consistent)
    (erased : memory.erase fuel this it = some (after, result))
    (inside : this.document = some document) (admits : memory.AdmitsErase this it) :
    after.Consistent := by
  simp only [Memory.erase, Option.bind_eq_bind, Option.bind_eq_some_iff] at erased
  obtain ⟨self, this_eq, erased⟩ := erased
  have this_held := held_of_get this_eq inside
  cases it with
  | none =>
      simp only [Option.pure_def, Option.some.injEq, Prod.mk.injEq] at erased
      exact erased.1 ▸ consistent
  | some target =>
      simp only [Option.bind_eq_some_iff] at erased
      obtain ⟨head, head_eq, erased⟩ := erased
      split at erased
      · rename_i first
        simp only [Option.bind_eq_some_iff, Option.pure_def, Option.some.injEq,
          Prod.mk.injEq] at erased
        obtain ⟨target_element, target_eq, after', after_eq, rfl, -⟩ := erased
        subst first
        refine consistent.changed (get_update after_eq) (fun _ => rfl) (fun _ => rfl)
          fun other held counted => ?_
        obtain rfl := Option.some.inj (this_held.symm.trans held)
        obtain ⟨nodes, lists⟩ := consistent.counted this self this_held counted
        have chain := lists.head_eq head_eq
        cases chain
        exact ⟨_, lists.erase_first target_eq⟩
      · rename_i later
        rcases unlink_cases erased with
          rfl | ⟨node, element, erased, middle, element_eq, behind, erased_eq, middle_eq,
            after_eq, reached⟩
        · exact consistent
        · refine consistent.unlink (fun other held counted => ?_) element_eq behind erased_eq
            (unlink_held middle_eq after_eq) (admits self head node this_eq head_eq
              (Option.some_ne_none _) later reached ?_)
          · obtain rfl := Option.some.inj (this_held.symm.trans held)
            obtain ⟨nodes, lists⟩ := consistent.counted this self this_held counted
            have chain := (lists.head_eq head_eq).mono fun _ _ => next_of_link
            exact ⟨nodes, lists, chain.mem_of_reaches reached⟩
          · rw [next, element_eq, Option.map_some, behind]

/-! ## Assignment -/

/--
Between two rounds of the loop of `operator=`: the list of `this` ends at `prev`, in no
other list, and the elements that are still to be copied count lists that `prev` is not in.
-/
structure Filling (memory : Memory) (this : Address) (prev : Pointer)
    (sources : List Address) : Prop where
  consistent : memory.Consistent
  listed : ∃ self nodes, memory.held this = some self ∧ memory.Lists self nodes ∧
    (prev = none → nodes = []) ∧ ∀ last, prev = some last → last ∈ nodes
  alone : memory.AloneLast this prev
  pending : ∀ source ∈ sources, ∃ value, memory.get source = some value ∧ prev ≠ some source ∧
    (value.Counted → ∃ nodes, memory.Lists value nodes ∧ ∀ last, prev = some last → last ∉ nodes)
  apart : this ∉ sources.tail

theorem Filling.insertable {source : Address} {sources : List Address}
    (filling : Filling memory this prev (source :: sources)) :
    ∃ value, memory.get source = some value ∧ memory.Insertable this prev value := by
  obtain ⟨value, source_eq, -, listed⟩ := filling.pending source List.mem_cons_self
  obtain ⟨self, nodes, this_held, lists, first, behind⟩ := filling.listed
  refine ⟨value, source_eq, listed, fun other held _ => ?_, filling.alone⟩
  obtain rfl := Option.some.inj (this_held.symm.trans held)
  exact ⟨nodes, lists, first, behind⟩

/-- A round leaves the elements that are still to be copied as they are. -/
theorem Filling.insert {source : Address} {sources : List Address}
    (filling : Filling memory this prev (source :: sources))
    (inside : this.document = some document)
    (fits : memory.Fits document (source :: sources).length)
    (inserted : memory.insertAfter this prev source = some (after, added)) :
    (Filling after this (some added) sources ∧ after.Fits document sources.length) ∧
      ∀ other ∈ source :: sources, after.next other = memory.next other := by
  obtain ⟨value, source_eq, insertable⟩ := filling.insertable
  obtain ⟨self, nodes, this_held, lists, first, behind⟩ := filling.listed
  obtain ⟨element, copy, spliced, fits', after_consistent, alone⟩ :=
    filling.consistent.insertAfter inserted inside fits source_eq insertable
      fun last last_eq => by
        obtain ⟨other, held⟩ := lists.linked_of_mem (behind last last_eq)
        exact ⟨other, get_of_held held⟩
  refine ⟨⟨?_, fits'⟩, fun other member => ?_⟩
  · exact
      { consistent := after_consistent
        listed := by
          obtain ⟨grown, grown_lists, member, -⟩ := spliced.lists_this lists first behind
          exact ⟨_, grown, spliced.held_this this_held, grown_lists,
            fun absent => (Option.some_ne_none _ absent).elim,
            fun last last_eq => Option.some.inj last_eq ▸ member⟩
        alone := fun last last_eq => Option.some.inj last_eq ▸ alone
        pending := fun other member => by
          obtain ⟨kept, kept_eq, apart, listed⟩ :=
            filling.pending other (List.mem_cons_of_mem _ member)
          have other_ne : other ≠ this := fun same => filling.apart (same ▸ member)
          refine ⟨kept, ?_, fun same => spliced.ne_of_get kept_eq (Option.some.inj same).symm,
            fun counted => ?_⟩
          · rw [spliced.get_of_get kept_eq]
            simp only [MutableElement.relink, if_neg apart, other_ne, false_and,
              if_false]
          · obtain ⟨others, other_lists, prev_apart⟩ := listed counted
            refine ⟨others, spliced.lists other_lists prev_apart, fun last last_eq member => ?_⟩
            obtain rfl := Option.some.inj last_eq
            obtain ⟨held, held_eq⟩ := other_lists.linked_of_mem member
            exact spliced.ne_added held_eq rfl
        apart := fun member => filling.apart (List.mem_of_mem_tail member) }
  · obtain ⟨kept, kept_eq, apart, -⟩ := filling.pending other member
    exact spliced.next_of_ne kept_eq apart

theorem Consistent.assign (consistent : memory.Consistent)
    (assigned : memory.assign fuel this rhs = some after)
    (inside : this.document = some document) (admits : memory.AdmitsAssign this rhs) :
    after.Consistent := by
  obtain ⟨value, value_eq, assigning⟩ := Option.bind_eq_some_iff.mp assigned
  obtain ⟨self, this_eq, -⟩ := Option.bind_eq_some_iff.mp assigning
  rcases assign_cases assigned value_eq with
    ⟨container, emptied, source, head, changed, fits, source_eq, head_eq, inserted⟩ |
      ⟨container, kept, kept_eq, changed, -⟩
  · have emptied_consistent := consistent.changed changed (fun _ => rfl) (fun _ => rfl)
      fun _ _ _ => ⟨[], .of_empty rfl rfl⟩
    have emptied_held : emptied.held this =
        some { self with elementType := value.elementType, value := .child none, size := 0 } := by
      rw [changed.held, if_pos rfl, held_of_get this_eq inside]
      rfl
    by_cases same : rhs = this
    · -- The list of `this` is gone before that of `rhs` is read.
      subst same
      rw [get_of_held emptied_held] at source_eq
      obtain rfl := Option.some.inj source_eq
      simp only [MutableElement.child, Option.some.injEq] at head_eq
      subst head_eq
      cases fuel <;>
      · simp only [insertAll, Option.some.injEq] at inserted
        exact inserted ▸ emptied_consistent
    · obtain ⟨first, nodes, first_eq, chain, room, apart, listed⟩ :=
        admits.container value value_eq container same
      rw [changed, if_neg same, value_eq] at source_eq
      obtain rfl := Option.some.inj source_eq
      simp only [MutableElement.child, first_eq, Option.some.injEq] at head_eq
      subst head_eq
      have filling : Filling emptied this none nodes :=
        { consistent := emptied_consistent
          listed := ⟨_, [], emptied_held, .of_empty rfl rfl, fun _ => rfl,
            fun _ absent => by cases absent⟩
          alone := fun _ absent => by cases absent
          pending := fun node member => by
            obtain ⟨next, linked⟩ := chain.linked_of_mem member
            obtain ⟨element, element_eq, -⟩ := Option.map_eq_some_iff.mp linked
            rw [changed, element_eq]
            by_cases here : node = this
            · rw [if_pos here]
              exact ⟨_, rfl, (Option.some_ne_none _).symm, fun _ =>
                ⟨[], .of_empty rfl rfl, fun _ absent => by cases absent⟩⟩
            · rw [if_neg here]
              refine ⟨element, rfl, (Option.some_ne_none _).symm, fun counted => ?_⟩
              obtain ⟨others, lists⟩ := listed node member element element_eq counted
              exact ⟨others, lists.of_link_eq (changed.link fun _ => rfl),
                fun _ absent => by cases absent⟩
          apart := apart }
      have emptied_chain : LinkedChain emptied.next first nodes := by
        refine chain.congr fun node _ => ?_
        simp only [next, changed node]
        split
        · rw [Option.map_map]
          rfl
        · rfl
      obtain ⟨_, filled, -⟩ := insertAll_rule
        (motive := fun memory prev sources =>
          Filling memory this prev sources ∧ memory.Fits document sources.length)
        (fun _ _ _ _ _ _ filling inserted => filling.1.insert inside filling.2 inserted)
        ⟨filling, fits _ _ (room document inside)⟩ emptied_chain inserted
      exact filled.consistent
  · refine consistent.changed changed (fun _ => rfl) (fun _ => rfl) fun other held counted => ?_
    have null : value.elementType = .nullValue := by
      simp only [MutableElement.isContainer, decide_eq_true_eq, not_or] at container
      rcases counted with array | object | null
      · exact absurd array container.1
      · exact absurd object container.2
      · exact null
    rcases kept_eq with rfl | ⟨string, -⟩
    · obtain ⟨nodes, lists⟩ := admits.null value value_eq null (Or.inr (Or.inr null))
      exact ⟨nodes, lists.congr rfl rfl⟩
    · rw [null] at string
      cases string

/-! ## Statements -/

theorem Consistent.of_held (consistent : memory.Consistent)
    (same : ∀ address, after.held address = memory.held address) : after.Consistent := by
  have link_eq : after.link = memory.link := by
    funext address
    rw [link, link, same]
  refine ⟨fun address element held counted => ?_, fun address element document held => ?_⟩
  · rw [same] at held
    obtain ⟨nodes, lists⟩ := consistent.counted address element held counted
    exact ⟨nodes, lists.of_link_eq link_eq⟩
  · rw [same] at held
    exact consistent.owned address element document held

/-- A call that respects its condition keeps every count right. -/
theorem Consistent.call {call : Call} (consistent : memory.Consistent)
    (called : memory.call fuel call = some after) (admits : memory.Admits call) :
    after.Consistent := by
  cases call with
  | atKey this key =>
      obtain ⟨⟨document, inside⟩, admits⟩ := admits
      simp only [Memory.call, Option.bind_eq_bind, Option.bind_eq_some_iff] at called
      obtain ⟨outcome, at_eq, called⟩ := called
      cases outcome with
      | error => exact Option.some.inj called ▸ consistent
      | ok found => exact Option.some.inj called ▸ consistent.atKey at_eq inside admits
  | atIndex this index =>
      obtain ⟨⟨document, inside⟩, admits⟩ := admits
      simp only [Memory.call, Option.bind_eq_bind, Option.bind_eq_some_iff] at called
      obtain ⟨outcome, at_eq, called⟩ := called
      cases outcome with
      | error => exact Option.some.inj called ▸ consistent
      | ok found => exact Option.some.inj called ▸ consistent.atIndex at_eq inside admits
  | pushBack this val =>
      obtain ⟨⟨document, inside⟩, admits⟩ := admits
      obtain ⟨⟨_, added⟩, pushed, rfl⟩ := Option.map_eq_some_iff.mp called
      exact consistent.pushBack pushed inside admits
  | insertAfter this it val =>
      obtain ⟨⟨document, inside⟩, admits⟩ := admits
      obtain ⟨⟨_, added⟩, inserted, rfl⟩ := Option.map_eq_some_iff.mp called
      obtain ⟨value, live, insertable⟩ := admits.live
      obtain ⟨-, -, -, -, after_consistent, -⟩ :=
        consistent.insertAfter inserted inside (admits.room document inside) live insertable
          fun last last_eq => by
            obtain ⟨before, held⟩ := admits.placed last last_eq
            exact ⟨before, get_of_held held⟩
      exact after_consistent
  | erase this it =>
      obtain ⟨⟨document, inside⟩, admits⟩ := admits
      obtain ⟨⟨_, result⟩, erased, rfl⟩ := Option.map_eq_some_iff.mp called
      exact consistent.erase erased inside admits
  | clear this => exact consistent.clearElement called
  | assign this rhs =>
      obtain ⟨⟨document, inside⟩, admits⟩ := admits
      exact consistent.assign called inside admits

/-- What `MutableDocument::clear` must respect: no other document lists its elements. -/
def AdmitsClear (memory : Memory) (document : Nat) : Prop :=
  ∀ address element nodes, memory.held address = some element → element.Counted →
    address.document ≠ some document → memory.Lists element nodes →
    ∀ node ∈ nodes, node.document ≠ some document

theorem Consistent.clear (consistent : memory.Consistent)
    (cleared : memory.clear document = some after) (admits : memory.AdmitsClear document) :
    after.Consistent := by
  obtain ⟨owner, cleared⟩ := clear_cleared cleared
  refine ⟨fun address element held counted => ?_, fun address element document' held inside => ?_⟩
  · by_cases here : address.document = some document
    · cases address with
      | temporary => cases held
      | root =>
          obtain rfl := Option.some.inj here
          obtain rfl := Option.some.inj (cleared.root.symm.trans held)
          exact ⟨[], .of_empty rfl rfl⟩
      | slot =>
          obtain rfl := Option.some.inj here
          rw [cleared.slot] at held
          cases held
    · rw [cleared.others address here] at held
      obtain ⟨nodes, lists⟩ := consistent.counted address element held counted
      have apart := admits address element nodes held counted here lists
      obtain ⟨head, value_eq, chain, length_eq⟩ := lists
      refine ⟨nodes, head, value_eq, chain.congr fun node member => ?_, length_eq⟩
      rw [link, link, cleared.others node (apart node member)]
  · by_cases here : address.document = some document
    · cases address with
      | temporary => cases held
      | root =>
          obtain rfl := Option.some.inj here
          obtain rfl := Option.some.inj (cleared.root.symm.trans held)
          exact consistent.owned (.root _) owner.root document'
            (held_of_get (get_root cleared.owner_eq) rfl) inside
      | slot =>
          obtain rfl := Option.some.inj here
          rw [cleared.slot] at held
          cases held
    · rw [cleared.others address here] at held
      exact consistent.owned address element document' held inside

/-! ## Runs -/

/-- A memory of documents that have just been constructed. -/
def Fresh (self : Memory) : Prop :=
  ∀ document owner, self.documents[document]? = some owner →
    ∃ elementType capacity, owner = MutableDocument.make document elementType capacity

/-- What holds of the containers: `size()` counts the elements of a list without cycles. -/
def SizesHold (self : Memory) : Prop :=
  ∀ address element, self.held address = some element → element.isContainer →
    ∃ head nodes, element.value = .child head ∧ LinkedChain self.link head nodes ∧
      nodes.Nodup ∧ element.getSize = nodes.length

/-- The condition on the memory before an edit. -/
def AdmitsEdit (self : Memory) : Nat × Edit → Prop
  | (_, .statement temporaries call) => { self with temporaries := temporaries }.Admits call
  | (_, .clear document) => self.AdmitsClear document

theorem Fresh.consistent (fresh : memory.Fresh) : memory.Consistent := by
  have held_eq : ∀ address element, memory.held address = some element →
      ∃ document elementType, address.document = some document ∧
        element = { elementType := elementType, document := some document } := by
    intro address element held
    cases address with
    | temporary => cases held
    | root document =>
        obtain ⟨owner, owner_eq, rfl⟩ := Option.map_eq_some_iff.mp held
        obtain ⟨elementType, capacity, rfl⟩ := fresh document owner owner_eq
        exact ⟨document, elementType, rfl, rfl⟩
    | slot document =>
        simp only [Memory.held, get, Option.bind_eq_bind, Option.bind_eq_some_iff] at held
        obtain ⟨owner, owner_eq, held⟩ := held
        obtain ⟨elementType, capacity, rfl⟩ := fresh document owner owner_eq
        split at held
        · cases held
        · cases held
  refine ⟨fun address element held _ => ?_, fun address element document held inside => ?_⟩
  · obtain ⟨_, _, -, rfl⟩ := held_eq address element held
    exact ⟨[], .of_empty rfl rfl⟩
  · obtain ⟨_, _, inside', rfl⟩ := held_eq address element held
    exact inside'.symm.trans inside

theorem Consistent.edit {action : Nat × Edit} (consistent : memory.Consistent)
    (admits : memory.AdmitsEdit action) (edited : memory.edit action = some after) :
    after.Consistent := by
  obtain ⟨fuel, edit⟩ := action
  cases edit with
  | statement temporaries call =>
      simp only [Memory.edit, statement, Option.bind_eq_bind, Option.bind_eq_some_iff,
        Option.pure_def, Option.some.injEq] at edited
      obtain ⟨middle, called, rfl⟩ := edited
      have began : { memory with temporaries := temporaries }.Consistent :=
        consistent.of_held fun _ => held_temporaries temporaries
      exact (began.call called admits).of_held fun _ => held_temporaries []
  | clear document => exact consistent.clear edited admits

theorem Consistent.sizesHold (consistent : memory.Consistent) : memory.SizesHold := by
  intro address element held container
  have sort : element.elementType = .array ∨ element.elementType = .object := by
    simpa [MutableElement.isContainer] using container
  have counted : element.Counted := by
    rcases sort with array | object
    · exact Or.inl array
    · exact Or.inr (Or.inl object)
  obtain ⟨nodes, head, value_eq, chain, length_eq⟩ :=
    consistent.counted address element held counted
  refine ⟨head, nodes, value_eq, chain, chain.nodup, ?_⟩
  rcases sort with array | object
  · simp only [MutableElement.getSize, array, length_eq]
  · simp only [MutableElement.getSize, object, length_eq]

/--
In every run of edits that respect their conditions, from documents that have just been
constructed, every array and object counts the elements of its list.
-/
theorem sizesHold_of_run {start final : Memory} {actions : List (Nat × Edit)}
    (fresh : start.Fresh) (run : Run edit AdmitsEdit start actions final) : final.SizesHold := by
  have consistent : final.Consistent :=
    run.invariant fresh.consistent fun _ _ _ consistent admits edited =>
      consistent.edit admits edited
  exact consistent.sizesHold

theorem fresh_make (elementType : ElementType) (capacity : Nat) :
    Memory.Fresh { documents := [MutableDocument.make 0 elementType capacity] } := by
  intro document owner owner_eq
  obtain ⟨within, rfl⟩ := List.getElem?_eq_some_iff.mp owner_eq
  obtain rfl : document = 0 := Nat.lt_one_iff.mp within
  exact ⟨elementType, capacity, rfl⟩

/-- An array that `push_back` makes of the null element that `at` has added. -/
theorem sizesHold_atKey_pushBack :
    Memory.SizesHold { documents := [{
      root := {
        elementType := .object, value := .child (some (.slot 0 0 0)), size := 1,
        document := some 0 }
      elements := [
        { elementType := .array, value := .child (some (.slot 0 0 1)), key := some ['a'],
          size := 1, document := some 0 },
        { elementType := .int64, value := .bits 1, document := some 0 }]
      capacity := 256
      strings := [['a']] }] } := by
  have added : AdmitsEdit { documents := [MutableDocument.make 0 .nullValue 256] }
      (1, .statement [] (.atKey (.root 0) ['a'])) := by
    refine ⟨⟨0, rfl⟩, fun self head fuel tail this_eq _ head_eq sought => ?_⟩
    obtain rfl := Option.some.inj this_eq
    obtain rfl := Option.some.inj head_eq
    obtain rfl : none = tail := by
      cases fuel <;> exact Sum.inr.inj (Option.some.inj sought)
    refine ⟨fun document inside => ?_, fun _ absent => by cases absent⟩
    obtain rfl := Option.some.inj inside
    exact ⟨_, rfl, by decide⟩
  have pushed : AdmitsEdit { documents := [{
        root := {
          elementType := .object, value := .child (some (.slot 0 0 0)), size := 1,
          document := some 0 }
        elements := [{ key := some ['a'], document := some 0 }]
        capacity := 256
        strings := [['a']] }] }
      (1, .statement [{ elementType := .int64, value := .bits 1 }]
        (.pushBack (.slot 0 0 0) (.temporary 0))) := by
    refine ⟨⟨0, rfl⟩, fun document inside => ?_, ⟨_, rfl, fun counted => ?_, ?_⟩, ?_⟩
    · obtain rfl := Option.some.inj inside
      exact ⟨_, rfl, by decide⟩
    · rcases counted with array | object | null
      · cases array
      · cases object
      · cases null
    · intro self nodes last this_eq array
      obtain rfl := Option.some.inj this_eq
      cases array
    · intro self this_eq _
      obtain rfl := Option.some.inj this_eq
      rfl
  exact sizesHold_of_run (fresh_make .nullValue 256)
    (.step (.step .start added rfl) pushed rfl)

/--
A string that becomes an array by `push_back` keeps its length in `size_`, so that the
array of one element has six.
-/
theorem pushBack_string_miscounted :
    ∃ final, Memory.Fresh { documents := [MutableDocument.make 0 .nullValue 256] } ∧
      Run edit unguarded { documents := [MutableDocument.make 0 .nullValue 256] }
        [(4, .statement [] (.atKey (.root 0) ['s'])),
          (4, .statement
            [{ elementType := .string, value := .str ['h', 'e', 'l', 'l', 'o'], size := 5 }]
            (.assign (.slot 0 0 0) (.temporary 0))),
          (4, .statement [{ elementType := .int64, value := .bits 1 }]
            (.pushBack (.slot 0 0 0) (.temporary 0)))] final ∧
      ¬final.SizesHold := by
  refine ⟨{ documents := [{
      root := {
        elementType := .object, value := .child (some (.slot 0 0 0)), size := 1,
        document := some 0 }
      elements := [
        { elementType := .array, value := .child (some (.slot 0 0 1)), key := some ['s'],
          size := 6, document := some 0 },
        { elementType := .int64, value := .bits 1, document := some 0 }]
      capacity := 256
      strings := [['s'], ['h', 'e', 'l', 'l', 'o']] }] }, ?_, Run.of_execute (by decide), ?_⟩
  · exact fresh_make .nullValue 256
  · intro holds
    obtain ⟨head, nodes, value_eq, chain, -, size_eq⟩ := holds (.slot 0 0 0) _ rfl rfl
    obtain rfl := Value.child.inj value_eq
    have one : nodes = [.slot 0 0 1] := chain.unique (.cons rfl .nil)
    rw [one] at size_eq
    cases size_eq

end Memory

end ReactiveToolbox.Util.Json
