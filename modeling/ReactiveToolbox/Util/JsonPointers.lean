import ReactiveToolbox.Util.JsonDocument
import ReactiveToolbox.Util.JsonLists

/-!
# Pointers between elements

The pointers of an element lead to slots of its own document as long as that document
has room for what is added, and what is inserted brings no pointer from elsewhere.
-/

namespace ReactiveToolbox.Util.Json

open ReactiveToolbox.Lib

namespace Memory

/-- A pointer that is null or designates a live slot of a document. -/
def LiveSlot (self : Memory) (document : Nat) (pointer : Pointer) : Prop :=
  ∀ target, pointer = some target →
    ∃ generation index element, target = .slot document generation index ∧
      self.held target = some element

/--
The pointers of the elements of a document lead to its own slots, and an element that knows
a document is kept by it.
-/
structure Contained (memory : Memory) : Prop where
  next : ∀ address element document, memory.held address = some element →
    address.document = some document → memory.LiveSlot document element.next
  child : ∀ address element document first, memory.held address = some element →
    address.document = some document → element.value = .child first →
    memory.LiveSlot document first
  home : ∀ address element document owner, memory.held address = some element →
    address.document = some document → element.document = some owner → owner = document

/-- The list that a value has is in the document. -/
def Local (memory : Memory) (document : Nat) (value : MutableElement) : Prop :=
  ∀ first, value.value = .child first → memory.LiveSlot document first

variable
    {memory middle after : Memory} {this added val rhs : Address} {prev it : Pointer}
    {document room fuel : Nat} {self value element : MutableElement}

theorem LiveSlot.null : memory.LiveSlot document none :=
  fun _ absent => by cases absent

theorem LiveSlot.inside {target : Address} (live : memory.LiveSlot document (some target)) :
    target.document = some document ∧ ∃ element, memory.held target = some element := by
  obtain ⟨generation, index, element, rfl, held⟩ := live target rfl
  exact ⟨rfl, element, held⟩

/-- Slots stay live where every element stays. -/
theorem LiveSlot.mono {pointer : Pointer} (live : memory.LiveSlot document pointer)
    (stays : ∀ address element, memory.held address = some element →
      ∃ element, after.held address = some element) : after.LiveSlot document pointer := by
  intro target same
  obtain ⟨generation, index, element, slot, held⟩ := live target same
  obtain ⟨element', held'⟩ := stays target element held
  exact ⟨generation, index, element', slot, held'⟩

theorem Contained.next_get {target : Address} (contained : memory.Contained)
    (inside : target.document = some document) (got : memory.get target = some element) :
    memory.LiveSlot document element.next :=
  contained.next target element document (held_of_get got inside) inside

/-- What is met from a slot of a document on is in the document. -/
theorem Contained.reaches {head : Pointer} {node : Address} (contained : memory.Contained)
    (live : memory.LiveSlot document head) (reached : Reaches memory.next head node) :
    memory.LiveSlot document (some node) := by
  induction reached with
  | first => exact live
  | later linked _ ih =>
      obtain ⟨element, got, rfl⟩ := Option.map_eq_some_iff.mp linked
      exact ih (contained.next_get live.inside.1 got)

theorem Contained.child_get {head : Pointer} (contained : memory.Contained)
    (inside : this.document = some document) (got : memory.get this = some self)
    (child_eq : self.child = some head) : memory.LiveSlot document head := by
  unfold MutableElement.child at child_eq
  split at child_eq
  · rename_i first value_eq
    obtain rfl := Option.some.inj child_eq
    exact contained.child this self document _ (held_of_get got inside) inside value_eq
  · split at child_eq
    · obtain rfl := Option.some.inj child_eq
      exact .null
    · cases child_eq

theorem Contained.of_held (contained : memory.Contained)
    (same : ∀ address, after.held address = memory.held address) : after.Contained := by
  have stays : ∀ address element, memory.held address = some element →
      ∃ element, after.held address = some element :=
    fun address element held => ⟨element, (same address).trans held⟩
  refine ⟨fun address element document held inside => ?_,
    fun address element document first held inside value_eq => ?_,
    fun address element document owner held inside known => ?_⟩
  · rw [same] at held
    exact (contained.next address element document held inside).mono stays
  · rw [same] at held
    exact (contained.child address element document first held inside value_eq).mono stays
  · rw [same] at held
    exact contained.home address element document owner held inside known

/-! ## Assignments to one element -/

theorem Changed.stays {change : MutableElement → MutableElement}
    (changed : Changed memory after this change) (address : Address) (element : MutableElement)
    (held : memory.held address = some element) :
    ∃ element, after.held address = some element := by
  rw [changed.held]
  split
  · exact ⟨_, by rw [held, Option.map_some]⟩
  · exact ⟨element, held⟩

theorem Contained.changed {change : MutableElement → MutableElement}
    (contained : memory.Contained) (changed : Changed memory after this change)
    (links : ∀ self document, memory.held this = some self → this.document = some document →
      memory.LiveSlot document (change self).next ∧ memory.Local document (change self))
    (owned : ∀ element, (change element).document = element.document) : after.Contained := by
  refine ⟨fun address element document held inside => ?_,
    fun address element document first held inside value_eq => ?_,
    fun address element document owner held inside known => ?_⟩
  · rw [changed.held] at held
    split at held
    · rename_i here
      obtain ⟨self, self_held, rfl⟩ := Option.map_eq_some_iff.mp held
      exact (links self document (here ▸ self_held) (here ▸ inside)).1.mono changed.stays
    · exact (contained.next address element document held inside).mono changed.stays
  · rw [changed.held] at held
    split at held
    · rename_i here
      obtain ⟨self, self_held, rfl⟩ := Option.map_eq_some_iff.mp held
      exact ((links self document (here ▸ self_held) (here ▸ inside)).2 first value_eq).mono
        changed.stays
    · exact (contained.child address element document first held inside value_eq).mono
        changed.stays
  · rw [changed.held] at held
    split at held
    · obtain ⟨self, self_held, rfl⟩ := Option.map_eq_some_iff.mp held
      rw [owned] at known
      exact contained.home address self document owner self_held inside known
    · exact contained.home address element document owner held inside known

/-- An assignment that leaves the links of an element alone. -/
theorem Contained.reassigned {change : MutableElement → MutableElement}
    (contained : memory.Contained) (changed : Changed memory after this change)
    (next_eq : ∀ element, (change element).next = element.next)
    (owned : ∀ element, (change element).document = element.document)
    (list : ∀ self document, memory.held this = some self → this.document = some document →
      memory.Local document (change self)) : after.Contained :=
  contained.changed changed
    (fun self document held inside =>
      ⟨next_eq self ▸ contained.next this self document held inside,
        list self document held inside⟩)
    owned

/-! ## Insertion -/

section

variable (spliced : Spliced memory after document this prev element added)
include spliced

theorem Spliced.stays (address : Address) (current : MutableElement)
    (held : memory.held address = some current) :
    ∃ current, after.held address = some current := by
  rw [spliced.held_of_ne (spliced.ne_added held), held, Option.map_some]
  exact ⟨_, rfl⟩

theorem Spliced.live_added : after.LiveSlot document (some added) := by
  intro target same
  obtain rfl := Option.some.inj same
  obtain ⟨generation, index, slot⟩ := spliced.inside
  exact ⟨generation, index, element, slot, spliced.held_added⟩

/-- A value whose list is in the document can be linked in behind an element of it. -/
theorem Contained.splice (contained : memory.Contained)
    (inside : this.document = some document)
    (prev_inside : ∀ last, prev = some last → last.document = some document)
    (list : memory.Local document element) : after.Contained := by
  refine ⟨fun address current document' held inside' => ?_,
    fun address current document' first held inside' value_eq => ?_,
    fun address current document' owner held inside' known => ?_⟩
  · by_cases new : address = added
    · subst new
      obtain rfl := Option.some.inj (spliced.held_added.symm.trans held)
      obtain ⟨generation, index, rfl⟩ := spliced.inside
      obtain rfl := Option.some.inj inside'
      cases prev_eq : prev with
      | none =>
          rw [spliced.first prev_eq]
          exact .null
      | some last =>
          obtain ⟨before, before_eq, next_eq⟩ := spliced.behind last prev_eq
          rw [next_eq]
          exact (contained.next_get (prev_inside last prev_eq) before_eq).mono spliced.stays
    · rw [spliced.held_of_ne new] at held
      obtain ⟨old, old_held, rfl⟩ := Option.map_eq_some_iff.mp held
      simp only [MutableElement.relink]
      split
      · rename_i here
        obtain rfl := Option.some.inj ((prev_inside address here).symm.trans inside')
        exact spliced.live_added
      · exact (contained.next address old document' old_held inside').mono spliced.stays
  · by_cases new : address = added
    · subst new
      obtain rfl := Option.some.inj (spliced.held_added.symm.trans held)
      obtain ⟨generation, index, rfl⟩ := spliced.inside
      obtain rfl := Option.some.inj inside'
      exact (list first value_eq).mono spliced.stays
    · rw [spliced.held_of_ne new] at held
      obtain ⟨old, old_held, rfl⟩ := Option.map_eq_some_iff.mp held
      simp only [MutableElement.relink] at value_eq
      split at value_eq
      · rename_i here
        obtain rfl := Value.child.inj value_eq
        obtain rfl := Option.some.inj (inside.symm.trans (here.1 ▸ inside'))
        exact spliced.live_added
      · exact (contained.child address old document' first old_held inside' value_eq).mono
          spliced.stays
  · by_cases new : address = added
    · subst new
      obtain rfl := Option.some.inj (spliced.held_added.symm.trans held)
      obtain ⟨generation, index, rfl⟩ := spliced.inside
      exact Option.some.inj (known.symm.trans (spliced.owned.trans inside'))
    · rw [spliced.held_of_ne new] at held
      obtain ⟨old, old_held, rfl⟩ := Option.map_eq_some_iff.mp held
      exact contained.home address old document' owner old_held inside' known

end

theorem Local.copy (list : memory.Local document value)
    (copy : CopyOf document value element) : memory.Local document element := by
  intro first value_eq
  by_cases string : value.elementType = .string
  · obtain ⟨text, buffer, -, str_eq, -⟩ := copy.string_eq string
    rw [str_eq] at value_eq
    cases value_eq
  · exact list first ((copy.value_eq string).symm.trans value_eq)

/-! ## The operations -/

/-- An element of the document that is found or appended is in the document. -/
theorem Contained.atKey {key : Text} {found : Address} (contained : memory.Contained)
    (at_eq : memory.atKey fuel this key = some (.ok (after, found)))
    (inside : this.document = some document)
    (fits : ∀ self head tail, memory.get this = some self → self.child = some head →
      memory.seekKey key fuel head none = some (.inr tail) → memory.Fits document (room + 1)) :
    after.Contained ∧ after.LiveSlot document (some found) := by
  obtain ⟨self, this_eq, -⟩ := Option.bind_eq_some_iff.mp at_eq
  have this_held := held_of_get this_eq inside
  obtain ⟨-, typed, head, typed_eq, head_eq, found⟩ := atKey_ok at_eq this_eq
  have head_live := contained.child_get inside this_eq head_eq
  have typed_contained := contained.reassigned (get_update typed_eq) (fun _ => rfl)
    (fun _ => rfl) fun self document held inside first value_eq =>
      contained.child this self document first held inside value_eq
  rcases found with ⟨sought, rfl⟩ | ⟨tail, owner, sought, owned, appended⟩
  · exact ⟨typed_contained, (contained.reaches head_live (seekKey_found sought).1).mono
      (Changed.stays (get_update typed_eq))⟩
  · obtain rfl := contained.home this self document owner this_held inside owned
    obtain ⟨spliced, -⟩ := appended room (fits self head tail this_eq head_eq sought)
    refine ⟨typed_contained.splice spliced inside (fun last last_eq => ?_)
      (fun first value_eq => ?_), spliced.live_added⟩
    · rcases seekKey_tail sought with ⟨-, rfl⟩ | ⟨last', -, rfl, reached, -⟩
      · cases last_eq
      · obtain rfl := Option.some.inj last_eq
        exact (contained.reaches head_live reached).inside.1
    · obtain rfl := Value.child.inj value_eq
      exact .null

theorem Contained.appendAll {rounds : Nat} {tail last : Pointer} (contained : memory.Contained)
    (appended : memory.appendAll this rounds tail = some (after, last))
    (inside : this.document = some document) (fits : memory.Fits document rounds)
    (tail_live : memory.LiveSlot document tail)
    (tail_next : ∀ last, tail = some last →
      ∃ before, memory.get last = some before ∧ before.next = none) :
    after.Contained ∧ after.LiveSlot document last := by
  induction rounds generalizing memory tail with
  | zero =>
      simp only [Memory.appendAll, Option.some.injEq, Prod.mk.injEq] at appended
      obtain ⟨rfl, rfl⟩ := appended
      exact ⟨contained, tail_live⟩
  | succ rounds ih =>
      simp only [Memory.appendAll, Option.bind_eq_bind, Option.bind_eq_some_iff,
        Prod.exists] at appended
      obtain ⟨middle, added, append_eq, rest⟩ := appended
      obtain ⟨self, owner, this_eq, owned⟩ := document_of_append append_eq
      obtain rfl :=
        contained.home this self document owner (held_of_get this_eq inside) inside owned
      obtain ⟨spliced, fits'⟩ := append_spliced append_eq this_eq owned fits tail_next
      refine ih (contained.splice spliced inside (fun last last_eq => ?_)
        fun first value_eq => ?_) rest fits' spliced.live_added fun last last_eq => ?_
      · exact (last_eq ▸ tail_live).inside.1
      · obtain rfl := Value.child.inj value_eq
        exact .null
      · obtain rfl := Option.some.inj last_eq
        exact ⟨_, spliced.new, rfl⟩

theorem Contained.atIndex {index : Nat} {found : Address} (contained : memory.Contained)
    (at_eq : memory.atIndex fuel this index = some (.ok (after, found)))
    (inside : this.document = some document)
    (fits : ∀ self head count tail, memory.get this = some self → self.child = some head →
      memory.seekIndex index fuel 0 head none = some (.inr (count, tail)) →
      memory.Fits document (index + 1 - count)) :
    after.Contained ∧ after.LiveSlot document (some found) := by
  obtain ⟨self, this_eq, -⟩ := Option.bind_eq_some_iff.mp at_eq
  obtain ⟨-, typed, head, typed_eq, head_eq, found⟩ := atIndex_ok at_eq this_eq
  have head_live := contained.child_get inside this_eq head_eq
  have stays := Changed.stays (get_update typed_eq)
  have typed_contained := contained.reassigned (get_update typed_eq) (fun _ => rfl)
    (fun _ => rfl) fun self document held inside first value_eq =>
      contained.child this self document first held inside value_eq
  rcases found with ⟨sought, rfl⟩ | ⟨count, tail, sought, appended⟩
  · exact ⟨typed_contained, (contained.reaches head_live (seekIndex_found sought)).mono stays⟩
  · refine typed_contained.appendAll appended inside
      ((fits self head count tail this_eq head_eq sought).update typed_eq) ?_ fun last last_eq => ?_
    · rcases seekIndex_tail sought with ⟨-, rfl⟩ | ⟨last', -, rfl, reached, -⟩
      · exact .null
      · exact (contained.reaches head_live reached).mono stays
    · rcases seekIndex_tail sought with ⟨-, rfl⟩ | ⟨last', before, rfl, -, before_eq, ends⟩
      · cases last_eq
      · obtain rfl := Option.some.inj last_eq
        rw [get_update typed_eq, before_eq]
        split
        · exact ⟨_, rfl, ends⟩
        · exact ⟨_, rfl, ends⟩

/-- `insert_after` of a value with a list in the document, behind an element of it. -/
theorem Contained.insertAfter (contained : memory.Contained)
    (inserted : memory.insertAfter this it val = some (after, added))
    (inside : this.document = some document) (this_eq : memory.get this = some self)
    (owned : self.document ≠ none) (fits : memory.Fits document (room + 1))
    (live : memory.get val = some value) (list : memory.Local document value)
    (placed : ∀ last, it = some last → last.document = some document ∧
      ∃ before, memory.get last = some before) :
    ∃ element, CopyOf document value element ∧
      Spliced memory after document this it element added ∧
      after.Fits document room ∧ after.Contained := by
  obtain ⟨owner, owner_eq⟩ := Option.ne_none_iff_exists'.mp owned
  obtain rfl :=
    contained.home this self document owner (held_of_get this_eq inside) inside owner_eq
  obtain ⟨element, copy, spliced, fits'⟩ :=
    insertAfter_spliced inserted this_eq owner_eq fits live fun last last_eq =>
      (placed last last_eq).2
  exact ⟨element, copy, spliced, fits', contained.splice spliced inside
    (fun last last_eq => (placed last last_eq).1) (list.copy copy)⟩

/-- `push_back` of a value with a list in the document. -/
theorem Contained.pushBack (contained : memory.Contained)
    (pushed : memory.pushBack fuel this val = some (after, added))
    (inside : this.document = some document) (this_eq : memory.get this = some self)
    (owned : self.document ≠ none) (fits : memory.Fits document (room + 1))
    (live : memory.get val = some value) (list : memory.Local document value) :
    after.Contained := by
  simp only [Memory.pushBack, this_eq, Option.bind_eq_bind, Option.bind_some] at pushed
  by_cases array : self.elementType = .array
  · simp only [if_pos array, Option.bind_eq_some_iff] at pushed
    obtain ⟨it, it_eq, inserted⟩ := pushed
    simp only [back, this_eq, Option.bind_eq_bind, Option.bind_some,
      Option.bind_eq_some_iff] at it_eq
    obtain ⟨head, head_eq, sought⟩ := it_eq
    have head_live := contained.child_get inside this_eq head_eq
    obtain ⟨-, -, -, -, after_contained⟩ :=
      contained.insertAfter inserted inside this_eq owned fits live list fun last last_eq => by
        subst last_eq
        obtain ⟨last_inside, element, held⟩ :=
          (contained.reaches head_live (lastFrom_reaches sought)).inside
        exact ⟨last_inside, element, get_of_held held⟩
    exact after_contained
  · simp only [if_neg array, Option.bind_eq_some_iff] at pushed
    obtain ⟨typed, typed_eq, it, it_eq, inserted⟩ := pushed
    have changed := get_update typed_eq
    have typed_contained := contained.reassigned changed (fun _ => rfl) (fun _ => rfl)
      fun _ _ _ _ first value_eq => Value.child.inj value_eq ▸ .null
    have typed_get : typed.get this =
        some { self with elementType := .array, value := .child none } := by
      rw [changed, if_pos rfl, this_eq, Option.map_some]
    simp only [back, typed_get, Option.bind_eq_bind, Option.bind_some, MutableElement.child,
      lastFrom, Option.some.injEq] at it_eq
    subst it_eq
    have typed_live : ∃ pushed, typed.get val = some pushed ∧ typed.Local document pushed := by
      rw [changed]
      by_cases same : val = this
      · rw [if_pos same, live]
        exact ⟨_, rfl, fun first value_eq => Value.child.inj value_eq ▸ .null⟩
      · rw [if_neg same]
        exact ⟨value, live, fun first value_eq => (list first value_eq).mono changed.stays⟩
    obtain ⟨pushed, pushed_eq, pushed_list⟩ := typed_live
    obtain ⟨-, -, -, -, after_contained⟩ :=
      typed_contained.insertAfter inserted inside typed_get owned (fits.update typed_eq) pushed_eq
        pushed_list fun _ absent => by cases absent
    exact after_contained

theorem Contained.clearElement (contained : memory.Contained)
    (cleared : memory.clearElement this = some after) : after.Contained :=
  contained.reassigned (get_update cleared) (fun _ => rfl) (fun _ => rfl)
    fun _ _ _ _ _ value_eq => Value.child.inj value_eq ▸ .null

/-- An element is linked past to the one behind it, which is in the document. -/
theorem Contained.erase {result : Pointer} (contained : memory.Contained)
    (erased : memory.erase fuel this it = some (after, result))
    (inside : this.document = some document) : after.Contained := by
  simp only [Memory.erase, Option.bind_eq_bind, Option.bind_eq_some_iff] at erased
  obtain ⟨self, this_eq, erased⟩ := erased
  cases it with
  | none =>
      simp only [Option.pure_def, Option.some.injEq, Prod.mk.injEq] at erased
      exact erased.1 ▸ contained
  | some target =>
      simp only [Option.bind_eq_some_iff] at erased
      obtain ⟨head, head_eq, erased⟩ := erased
      have head_live := contained.child_get inside this_eq head_eq
      split at erased
      · rename_i first
        simp only [Option.bind_eq_some_iff, Option.pure_def, Option.some.injEq,
          Prod.mk.injEq] at erased
        obtain ⟨target_element, target_eq, after', after_eq, rfl, -⟩ := erased
        subst first
        refine contained.reassigned (get_update after_eq) (fun _ => rfl) (fun _ => rfl)
          fun other document' _ inside' follow value_eq => ?_
        obtain rfl := Option.some.inj (inside.symm.trans inside')
        obtain rfl := Value.child.inj value_eq
        exact contained.next_get head_live.inside.1 target_eq
      · rcases unlink_cases erased with
          rfl | ⟨node, element, erased, middle, element_eq, behind, erased_eq, middle_eq,
            after_eq, reached⟩
        · exact contained
        · have node_inside := (contained.reaches head_live reached).inside.1
          have target_live := contained.next_get node_inside element_eq
          rw [behind] at target_live
          have follow_live := contained.next_get target_live.inside.1 erased_eq
          have middle_contained := contained.changed (get_update middle_eq)
            (fun other document' held inside' => by
              obtain rfl := Option.some.inj (node_inside.symm.trans inside')
              exact ⟨follow_live, fun first value_eq =>
                contained.child node other document first held inside' value_eq⟩)
            fun _ => rfl
          exact middle_contained.reassigned (get_update after_eq) (fun _ => rfl) (fun _ => rfl)
            fun other document' held inside' first value_eq =>
              middle_contained.child this other document' first held inside' value_eq

/-! ## Assignment -/

/--
Between two rounds of the loop of `operator=`: the element that was linked in last is in
the document, and so are the lists of those that are still to be copied.
-/
structure Inserting (memory : Memory) (document : Nat) (this : Address) (prev : Pointer)
    (sources : List Address) : Prop where
  contained : memory.Contained
  fits : memory.Fits document sources.length
  known : ∃ self, memory.get this = some self ∧ self.document ≠ none
  placed : ∀ last, prev = some last → last.document = some document ∧
    ∃ before, memory.get last = some before
  pending : ∀ source ∈ sources, ∃ value, memory.get source = some value ∧ prev ≠ some source ∧
    memory.Local document value

theorem Inserting.insert {source : Address} {sources : List Address}
    (inserting : Inserting memory document this prev (source :: sources))
    (inside : this.document = some document)
    (inserted : memory.insertAfter this prev source = some (after, added)) :
    Inserting after document this (some added) sources ∧
      ∀ other ∈ source :: sources, after.next other = memory.next other := by
  obtain ⟨self, this_eq, owned⟩ := inserting.known
  obtain ⟨value, source_eq, -, list⟩ := inserting.pending source List.mem_cons_self
  obtain ⟨element, -, spliced, fits, contained⟩ :=
    inserting.contained.insertAfter inserted inside this_eq owned inserting.fits source_eq list
      inserting.placed
  refine ⟨?_, fun other member => ?_⟩
  · exact
      { contained := contained
        fits := fits
        known := ⟨_, spliced.get_of_get this_eq, owned⟩
        placed := fun last last_eq => by
          obtain rfl := Option.some.inj last_eq
          exact ⟨spliced.live_added.inside.1, element, spliced.new⟩
        pending := fun other member => by
          obtain ⟨kept, kept_eq, -, kept_list⟩ :=
            inserting.pending other (List.mem_cons_of_mem _ member)
          refine ⟨_, spliced.get_of_get kept_eq,
            fun same => spliced.ne_of_get kept_eq (Option.some.inj same).symm,
            fun first value_eq => ?_⟩
          simp only [MutableElement.relink] at value_eq
          split at value_eq
          · exact Value.child.inj value_eq ▸ spliced.live_added
          · exact (kept_list first value_eq).mono spliced.stays }
  · obtain ⟨kept, kept_eq, apart, -⟩ := inserting.pending other member
    exact spliced.next_of_ne kept_eq apart

/-- What an assignment from another container must find: room, and lists in the document. -/
structure Assignable (memory : Memory) (document : Nat) (this : Address) (head : Pointer)
    (nodes : List Address) : Prop where
  chain : LinkedChain memory.next head nodes
  fits : memory.Fits document nodes.length
  known : ∃ self, memory.get this = some self ∧ self.document ≠ none
  lists : ∀ node ∈ nodes, ∀ element, memory.get node = some element →
    memory.Local document element

theorem Contained.assign (contained : memory.Contained)
    (assigned : memory.assign fuel this rhs = some after)
    (inside : this.document = some document) (value_eq : memory.get rhs = some value)
    (scalar : ¬value.isContainer → memory.Local document value)
    (container : value.isContainer → rhs ≠ this → ∃ head nodes,
      value.value = .child head ∧ Assignable memory document this head nodes) :
    after.Contained := by
  rcases assign_cases assigned value_eq with
    ⟨sort, emptied, source, head, changed, fits, source_eq, head_eq, inserted⟩ |
      ⟨sort, kept, kept_eq, changed, -⟩
  · have emptied_contained := contained.reassigned changed (fun _ => rfl) (fun _ => rfl)
      fun _ _ _ _ _ value_eq => Value.child.inj value_eq ▸ .null
    by_cases same : rhs = this
    · -- The list of `this` is gone before that of `rhs` is read.
      rw [changed, if_pos same, value_eq, Option.map_some] at source_eq
      obtain rfl := Option.some.inj source_eq
      simp only [MutableElement.child, Option.some.injEq] at head_eq
      subst head_eq
      cases fuel <;>
      · simp only [insertAll, Option.some.injEq] at inserted
        exact inserted ▸ emptied_contained
    · obtain ⟨first, nodes, first_eq, assignable⟩ := container sort same
      rw [changed, if_neg same, value_eq] at source_eq
      obtain rfl := Option.some.inj source_eq
      simp only [MutableElement.child, first_eq, Option.some.injEq] at head_eq
      subst head_eq
      have inserting : Inserting emptied document this none nodes :=
        { contained := emptied_contained
          fits := fits _ _ assignable.fits
          known := by
            obtain ⟨self, this_eq, owned⟩ := assignable.known
            have emptied_eq := changed this
            rw [if_pos rfl, this_eq, Option.map_some] at emptied_eq
            exact ⟨_, emptied_eq, owned⟩
          placed := fun _ absent => by cases absent
          pending := fun node member => by
            obtain ⟨next, linked⟩ := assignable.chain.linked_of_mem member
            obtain ⟨element, element_eq, -⟩ := Option.map_eq_some_iff.mp linked
            rw [changed, element_eq]
            split
            · exact ⟨_, rfl, (Option.some_ne_none _).symm, fun _ value_eq =>
                Value.child.inj value_eq ▸ .null⟩
            · exact ⟨element, rfl, (Option.some_ne_none _).symm, fun first value_eq =>
                (assignable.lists node member element element_eq first value_eq).mono
                  changed.stays⟩ }
      have emptied_chain : LinkedChain emptied.next first nodes := by
        refine assignable.chain.congr fun node _ => ?_
        rw [Memory.next, Memory.next, changed node]
        split
        · rw [Option.map_map]
          rfl
        · rfl
      obtain ⟨_, filled⟩ := insertAll_rule
        (motive := fun memory prev sources => Inserting memory document this prev sources)
        (fun _ _ _ _ _ _ inserting inserted => inserting.insert inside inserted)
        inserting emptied_chain inserted
      exact filled.contained
  · refine contained.reassigned changed (fun _ => rfl) (fun _ => rfl)
      fun _ document' _ inside' first value_eq => ?_
    obtain rfl := Option.some.inj (inside.symm.trans inside')
    rcases kept_eq with rfl | ⟨-, text, buffer, -, rfl, -⟩
    · exact scalar sort first value_eq
    · cases value_eq

/-! ## Whole documents -/

/-- Clearing a document leaves the lists of the others, and its root without any. -/
theorem Contained.clear (contained : memory.Contained)
    (cleared : memory.clear document = some after)
    (root_next : ∀ root, memory.held (.root document) = some root → root.next = none) :
    after.Contained := by
  obtain ⟨owner, cleared⟩ := clear_cleared cleared
  have root_held : memory.held (.root document) = some owner.root := get_root cleared.owner_eq
  have only_root : ∀ address element, address.document = some document →
      after.held address = some element →
        address = .root document ∧ element = owner.clear.root := by
    intro address element here held
    cases address with
    | temporary => cases here
    | root =>
        obtain rfl := Option.some.inj here
        exact ⟨rfl, Option.some.inj (held.symm.trans cleared.root)⟩
    | slot =>
        obtain rfl := Option.some.inj here
        rw [cleared.slot] at held
        cases held
  have elsewhere : ∀ {other pointer}, other ≠ document → memory.LiveSlot other pointer →
      after.LiveSlot other pointer := by
    intro other pointer other_ne live target same
    obtain ⟨generation, index, element, rfl, held⟩ := live target same
    exact ⟨generation, index, element, rfl,
      (cleared.others (.slot other generation index) fun here =>
        other_ne (Option.some.inj here)).trans held⟩
  refine ⟨fun address element other held inside => ?_,
    fun address element other first held inside value_eq => ?_,
    fun address element other known held inside known_eq => ?_⟩
  · by_cases here : other = document
    · obtain ⟨-, rfl⟩ := only_root address element (here ▸ inside) held
      have ends : owner.clear.root.next = none := root_next owner.root root_held
      rw [ends]
      exact .null
    · rw [cleared.others address fun same => here (Option.some.inj (inside.symm.trans same))]
        at held
      exact elsewhere here (contained.next address element other held inside)
  · by_cases here : other = document
    · obtain ⟨-, rfl⟩ := only_root address element (here ▸ inside) held
      exact Value.child.inj value_eq ▸ .null
    · rw [cleared.others address fun same => here (Option.some.inj (inside.symm.trans same))]
        at held
      exact elsewhere here (contained.child address element other first held inside value_eq)
  · by_cases here : other = document
    · obtain ⟨-, rfl⟩ := only_root address element (here ▸ inside) held
      exact here ▸ contained.home (.root document) owner.root document known root_held rfl known_eq
    · rw [cleared.others address fun same => here (Option.some.inj (inside.symm.trans same))]
        at held
      exact contained.home address element other known held inside known_eq

/-- A new document holds only its root. -/
theorem held_append {owner : MutableDocument} (empty : owner.elements = []) (address : Address) :
    { memory with documents := memory.documents ++ [owner] }.held address =
      if address = .root memory.documents.length then some owner.root
      else memory.held address := by
  cases address with
  | temporary => rfl
  | root document =>
      simp only [held, get, Address.root.injEq, List.getElem?_append]
      grind
  | slot document generation index =>
      simp only [held, get, reduceCtorEq, if_false, List.getElem?_append]
      grind

/-- A new document whose root has no list. -/
theorem Contained.append {owner : MutableDocument} (contained : memory.Contained)
    (empty : owner.elements = []) (next_eq : owner.root.next = none)
    (value_eq : owner.root.value = .child none)
    (known : ∀ document, owner.root.document = some document →
      document = memory.documents.length) :
    { memory with documents := memory.documents ++ [owner] }.Contained := by
  have held_eq : ∀ address,
      { memory with documents := memory.documents ++ [owner] }.held address =
        if address = .root memory.documents.length then some owner.root
        else memory.held address := held_append empty
  have stays : ∀ address element, memory.held address = some element →
      ∃ element, { memory with documents := memory.documents ++ [owner] }.held address =
        some element := by
    intro address element held
    rw [held_eq]
    split
    · exact ⟨_, rfl⟩
    · exact ⟨element, held⟩
  refine ⟨fun address element other held inside => ?_,
    fun address element other first held inside value_eq' => ?_,
    fun address element other document held inside known_eq => ?_⟩
  · rw [held_eq] at held
    split at held
    · obtain rfl := Option.some.inj held
      rw [next_eq]
      exact .null
    · exact (contained.next address element other held inside).mono stays
  · rw [held_eq] at held
    split at held
    · obtain rfl := Option.some.inj held
      rw [value_eq] at value_eq'
      exact Value.child.inj value_eq' ▸ .null
    · exact (contained.child address element other first held inside value_eq').mono stays
  · rw [held_eq] at held
    split at held
    · rename_i root
      obtain rfl := Option.some.inj held
      subst root
      exact (known document known_eq).trans (Option.some.inj inside)
    · exact contained.home address element other document held inside known_eq

end Memory

end ReactiveToolbox.Util.Json
