import ReactiveToolbox.Lib.Transition
import ReactiveToolbox.Util.JsonCopy

/-!
# Documents that are built

As long as a document has room for what is added to it, and what is inserted brings no
list from elsewhere, all pointers of its elements lead to its own slots.  What is parsed
or copied into it is then the tree of the parser, or that of the source.
-/

namespace ReactiveToolbox.Util.Json

open ReactiveToolbox.Lib

namespace Memory

/-! ## What an operation must respect -/

section

variable (memory : Memory) (document : Nat) (this : Address)

/-- There is room for the element that is appended if none is found. -/
def PermitsAtKey (key : Text) : Prop :=
  ∀ self head fuel tail, memory.get this = some self →
    self.elementType = .object ∨ self.elementType = .nullValue →
    self.child = some head → memory.seekKey key fuel head none = some (.inr tail) →
    memory.Fits document 1

/-- There is room for the elements that are appended up to an index. -/
def PermitsAtIndex (index : Nat) : Prop :=
  ∀ self head fuel count tail, memory.get this = some self →
    self.elementType = .array ∨ self.elementType = .nullValue →
    self.child = some head →
    memory.seekIndex index fuel 0 head none = some (.inr (count, tail)) →
    memory.Fits document (index + 1 - count)

/--
The value has no list, or one in the document, which has room for a copy of it, and the
place is an element of the document.
-/
structure PermitsInsert (it : Pointer) (val : Address) : Prop where
  fits : memory.Fits document 1
  known : ∀ self, memory.get this = some self → self.document ≠ none
  live : ∃ value, memory.get val = some value ∧ memory.Local document value
  placed : ∀ last, it = some last → last.document = some document ∧
    ∃ before, memory.get last = some before

/-- What is assigned has no list, or one that can be told from that of `this`. -/
structure PermitsAssign (rhs : Address) : Prop where
  scalar : ∀ value, memory.get rhs = some value → ¬value.isContainer →
    memory.Local document value
  container : ∀ value, memory.get rhs = some value → value.isContainer → rhs ≠ this →
    ∃ head nodes, value.value = .child head ∧ Assignable memory document this head nodes

/-- The condition on the memory before a call, with the temporaries of its statement. -/
def Permits : Call → Prop
  | .atKey this key => ∃ document, this.document = some document ∧
      memory.PermitsAtKey document this key
  | .atIndex this index => ∃ document, this.document = some document ∧
      memory.PermitsAtIndex document this index
  | .pushBack this val => ∃ document, this.document = some document ∧
      memory.PermitsInsert document this none val
  | .insertAfter this it val => ∃ document, this.document = some document ∧
      memory.PermitsInsert document this it val
  | .erase this _ => ∃ document, this.document = some document
  | .clear _ => True
  | .assign this rhs => ∃ document, this.document = some document ∧
      memory.PermitsAssign document this rhs

/-- A document is cleared whose root is in no list. -/
def PermitsEdit : Edit → Prop
  | .statement temporaries call => { memory with temporaries := temporaries }.Permits call
  | .clear document => ∀ root, memory.held (.root document) = some root → root.next = none

/-- The root takes the tree, and its document has room for the elements of it. -/
structure PermitsParse (json : Tree) : Prop where
  receives : ∃ root, memory.held (.root document) = some root ∧
    root.document = some document ∧ root.Receives json
  fits : memory.Fits document json.nodes
  faithful : json.Faithful True

/-- Another document has the tree, and the cleared one takes it and has room for it. -/
structure PermitsCopyAssign (source : Nat) (rhs : Address) (json : Tree) : Prop where
  other : source ≠ document
  shown : memory.Denotes source json rhs
  receives : ∃ owner, memory.documents[document]? = some owner ∧
    owner.root.document = some document ∧ owner.root.next = none ∧
    owner.clear.root.Receives json ∧ json.nodes ≤ max owner.capacity 1
  faithful : json.Faithful False

/-- A value without elements: the new document has no vector of its own. -/
structure PermitsCopyConstruct (source : Nat) (rhs : Address) (json : Tree) : Prop where
  shown : memory.Denotes source json rhs
  leaf : json.isContainer = false
  faithful : json.Faithful False

/-- The document is no object, of which `to_object` makes a copy before it is read. -/
def NoObject (source : Nat) : Prop :=
  ∀ owner, memory.documents[source]? = some owner → owner.root.elementType ≠ .object

/-- The condition on the memory before an operation. -/
def PermitsOperation : Nat × Operation → Prop
  | (_, .edit edit) => memory.PermitsEdit edit
  | (_, .construct _ _) => True
  | (_, .parse document json) => memory.PermitsParse document json
  | (_, .copyConstruct rhs) => ∃ source json, memory.PermitsCopyConstruct source rhs json
  | (_, .copyAssign document rhs) =>
      ∃ source json, memory.PermitsCopyAssign document source rhs json
  | (_, .copyConstructDocument rhs) => memory.NoObject rhs ∧
      ∃ json, memory.PermitsCopyConstruct rhs (.root rhs) json
  | (_, .copyAssignDocument document rhs) => memory.NoObject rhs ∧
      ∃ json, memory.PermitsCopyAssign document rhs (.root rhs) json

end

variable
    {memory after : Memory} {this rhs : Address} {document source fuel : Nat} {json : Tree}
    {thrown : Option JsonError}

/-! ## Edits -/

theorem Contained.call {call : Call} (contained : memory.Contained)
    (called : memory.call fuel call = some after) (permits : memory.Permits call) :
    after.Contained := by
  cases call with
  | atKey this key =>
      obtain ⟨document, inside, permits⟩ := permits
      simp only [Memory.call, Option.bind_eq_bind, Option.bind_eq_some_iff] at called
      obtain ⟨outcome, at_eq, called⟩ := called
      cases outcome with
      | error => exact Option.some.inj called ▸ contained
      | ok found =>
          obtain ⟨contained', -⟩ := contained.atKey at_eq inside
            fun self head tail this_eq head_eq sought =>
              permits self head fuel tail this_eq (atKey_ok at_eq this_eq).1 head_eq sought
          exact Option.some.inj called ▸ contained'
  | atIndex this index =>
      obtain ⟨document, inside, permits⟩ := permits
      simp only [Memory.call, Option.bind_eq_bind, Option.bind_eq_some_iff] at called
      obtain ⟨outcome, at_eq, called⟩ := called
      cases outcome with
      | error => exact Option.some.inj called ▸ contained
      | ok found =>
          obtain ⟨contained', -⟩ := contained.atIndex at_eq inside
            fun self head count tail this_eq head_eq sought =>
              permits self head fuel count tail this_eq (atIndex_ok at_eq this_eq).1 head_eq sought
          exact Option.some.inj called ▸ contained'
  | pushBack this val =>
      obtain ⟨document, inside, permits⟩ := permits
      obtain ⟨⟨_, added⟩, pushed, rfl⟩ := Option.map_eq_some_iff.mp called
      obtain ⟨value, live, list⟩ := permits.live
      obtain ⟨self, this_eq, -⟩ := Option.bind_eq_some_iff.mp pushed
      exact contained.pushBack pushed inside this_eq (permits.known self this_eq) permits.fits live
        list
  | insertAfter this it val =>
      obtain ⟨document, inside, permits⟩ := permits
      obtain ⟨⟨_, added⟩, inserted, rfl⟩ := Option.map_eq_some_iff.mp called
      obtain ⟨value, live, list⟩ := permits.live
      obtain ⟨self, this_eq, -⟩ := Option.bind_eq_some_iff.mp inserted
      obtain ⟨-, -, -, -, contained'⟩ := contained.insertAfter inserted inside this_eq
        (permits.known self this_eq) permits.fits live list permits.placed
      exact contained'
  | erase this it =>
      obtain ⟨document, inside⟩ := permits
      obtain ⟨⟨_, result⟩, erased, rfl⟩ := Option.map_eq_some_iff.mp called
      exact contained.erase erased inside
  | clear this => exact contained.clearElement called
  | assign this rhs =>
      obtain ⟨document, inside, permits⟩ := permits
      obtain ⟨value, value_eq, -⟩ := Option.bind_eq_some_iff.mp called
      exact contained.assign called inside value_eq (permits.scalar value value_eq)
        (permits.container value value_eq)

theorem Contained.edit {edit : Edit} (contained : memory.Contained)
    (edited : memory.edit (fuel, edit) = some after) (permits : memory.PermitsEdit edit) :
    after.Contained := by
  cases edit with
  | statement temporaries call =>
      simp only [Memory.edit, statement, Option.bind_eq_bind, Option.bind_eq_some_iff,
        Option.pure_def, Option.some.injEq] at edited
      obtain ⟨middle, called, rfl⟩ := edited
      have began : { memory with temporaries := temporaries }.Contained :=
        contained.of_held fun _ => held_temporaries temporaries
      exact (began.call called permits).of_held fun _ => held_temporaries []
  | clear document => exact contained.clear edited permits

/-! ## Whole documents -/

/-- The operation returns with enough fuel, and whatever it leaves is as it should be. -/
structure Completes (operate : Nat → Option (Memory × Option JsonError))
    (result : Memory → Prop) : Prop where
  returns : ∃ least, ∀ fuel, least ≤ fuel → ∃ after, operate fuel = some (after, none)
  result_of : ∀ fuel after thrown, operate fuel = some (after, thrown) →
    thrown = none ∧ result after

/-- An operation that first reads what it then works with. -/
theorem Completes.of_read {Read : Type} {reading : Nat → Option Read} {value : Read}
    {operate : Nat → Read → Option (Memory × Option JsonError)} {result : Memory → Prop}
    (reads : ∃ least, ∀ fuel, least ≤ fuel → reading fuel = some value)
    (read_eq : ∀ fuel other, reading fuel = some other → other = value)
    (completes : Completes (fun fuel => operate fuel value) result) :
    Completes (fun fuel => (reading fuel).bind (operate fuel)) result := by
  obtain ⟨least, reads⟩ := reads
  obtain ⟨⟨enough, returns⟩, result_of⟩ := completes
  refine ⟨⟨max least enough, fun fuel le => ?_⟩, fun fuel after thrown operated => ?_⟩
  · obtain ⟨after, operated⟩ := returns fuel (Nat.le_trans (Nat.le_max_right _ _) le)
    refine ⟨after, ?_⟩
    simp only [reads fuel (Nat.le_trans (Nat.le_max_left _ _) le), Option.bind_some, operated]
  · obtain ⟨other, reading_eq, operated⟩ := Option.bind_eq_some_iff.mp operated
    obtain rfl := read_eq fuel other reading_eq
    exact result_of fuel after thrown operated

/-- An operation that does nothing without fuel. -/
theorem Completes.of_succ {operate : Nat → Option (Memory × Option JsonError)}
    {result : Memory → Prop} (zero : operate 0 = none)
    (completes : Completes (fun fuel => operate (fuel + 1)) result) :
    Completes operate result := by
  obtain ⟨⟨least, returns⟩, result_of⟩ := completes
  refine ⟨⟨least + 1, fun fuel le => ?_⟩, fun fuel after thrown operated => ?_⟩
  · obtain ⟨fuel, rfl⟩ := Nat.exists_eq_add_of_lt le
    exact returns (least + fuel) (Nat.le_add_right _ _)
  · cases fuel with
    | zero =>
        rw [zero] at operated
        cases operated
    | succ fuel => exact result_of fuel after thrown operated

/-- What holds after a document has been built from a tree, which is read back from it. -/
structure Built (document : Nat) (json : Tree) (after : Memory) : Prop where
  contained : after.Contained
  shown : after.Denotes document json (.root document)
  reads : ∃ least, ∀ fuel, least ≤ fuel → after.read fuel (.root document) = some json

theorem Denotes.frame {address : Address} (denotes : memory.Denotes document json address)
    (same : ∀ address element, address.document = some document →
      memory.held address = some element → after.held address = some element) :
    after.Denotes document json address := by
  obtain ⟨inside, element, held, shows⟩ := denotes
  exact ⟨inside, element, same address element inside held,
    shows.frame same fun _ inside => inside⟩

theorem Denotes.read_eq {address : Address} {other : Tree}
    (denotes : memory.Denotes document json address)
    (read : memory.read fuel address = some other) : other = json := by
  obtain ⟨-, element, held, shows⟩ := denotes
  exact shows.read_eq (get_of_held held) read

theorem Denotes.reads {address : Address} (denotes : memory.Denotes document json address) :
    ∃ least, ∀ fuel, least ≤ fuel → memory.read fuel address = some json := by
  obtain ⟨-, element, held, shows⟩ := denotes
  obtain ⟨least, reads⟩ := shows.reads
  exact ⟨least, fun fuel enough => reads fuel address enough (get_of_held held)⟩

theorem Denotes.root_owner (denotes : memory.Denotes document json (.root document)) :
    ∃ owner, memory.documents[document]? = some owner := by
  obtain ⟨-, element, held, -⟩ := denotes
  obtain ⟨owner, owner_eq, -⟩ := Option.map_eq_some_iff.mp held
  exact ⟨owner, owner_eq⟩

/-- `clear()` of a document changes the type of none. -/
theorem types_of_clear (cleared : memory.clear document = some after) (source : Nat) :
    after.documents[source]?.map (·.root.elementType) =
      memory.documents[source]?.map (·.root.elementType) := by
  obtain ⟨target, target_eq, cleared⟩ := Option.bind_eq_some_iff.mp cleared
  obtain rfl := Option.some.inj cleared
  by_cases here : document = source
  · subst here
    rw [documents_set target.clear target_eq, target_eq]
    rfl
  · rw [List.getElem?_set_ne here]

theorem NoObject.clear (other : memory.NoObject source)
    (cleared : memory.clear document = some after) : after.NoObject source := by
  intro owner owner_eq object
  have types := types_of_clear cleared source
  rw [owner_eq, Option.map_some, eq_comm, Option.map_eq_some_iff] at types
  obtain ⟨before, before_eq, type_eq⟩ := types
  exact other before before_eq (type_eq.trans object)

/-- A document that is an object, as `parse` makes them, is never copied as a document. -/
theorem copyDocument_object {owner : MutableDocument}
    (owner_eq : memory.documents[source]? = some owner)
    (object : owner.root.elementType = .object) (document fuel : Nat) :
    memory.copyConstructDocument fuel source = none ∧
      memory.copyAssignDocument fuel document source = none := by
  refine ⟨(readDocument_object owner_eq object fuel).2, ?_⟩
  rw [copyAssignDocument, Option.bind_eq_bind, Option.bind_eq_none_iff]
  intro cleared clear_eq
  have types := types_of_clear clear_eq source
  rw [owner_eq, Option.map_some, Option.map_eq_some_iff] at types
  obtain ⟨owner', owner_eq', type_eq⟩ := types
  rw [(readDocument_object owner_eq' (type_eq.trans object) fuel).1, Option.bind_eq_bind,
    Option.bind_none]

/-- A document that is no object is read as its root is. -/
theorem Denotes.readDocument (denotes : memory.Denotes source json (.root source))
    (other : memory.NoObject source) :
    (∃ least, ∀ fuel, least ≤ fuel → memory.readDocument fuel source = some (.ok json)) ∧
      ∀ fuel result, memory.readDocument fuel source = some result → result = .ok json := by
  obtain ⟨owner, owner_eq⟩ := denotes.root_owner
  have succ := readDocument_of_ne owner_eq (other owner owner_eq)
  obtain ⟨least, reads⟩ := denotes.reads
  refine ⟨⟨least + 1, fun fuel le => ?_⟩, fun fuel result read => ?_⟩
  · obtain ⟨fuel, rfl⟩ := Nat.exists_eq_add_of_lt le
    rw [succ, reads (least + fuel) (Nat.le_add_right _ _)]
    rfl
  · cases fuel with
    | zero => cases read
    | succ fuel =>
        rw [succ] at read
        obtain ⟨tree, read_eq, rfl⟩ := Option.map_eq_some_iff.mp read
        rw [denotes.read_eq read_eq]

theorem Copied.built {holder : MutableElement} {room : Nat}
    (copied_eq : Copied memory after (.root document) document room holder json) :
    Built document json after := by
  obtain ⟨element, held, -, -, -, shows⟩ := copied_eq.shown
  have denotes : after.Denotes document json (.root document) :=
    ⟨rfl, element, held, shows.frame (fun _ _ _ held => held) fun _ unused => unused.1⟩
  exact ⟨copied_eq.contained, denotes, denotes.reads⟩

/-- A document that is parsed has the tree of the parser. -/
theorem Contained.parse (contained : memory.Contained)
    (permits : memory.PermitsParse document json) :
    Completes (fun fuel => memory.parse fuel document json) (Built document json) := by
  obtain ⟨root, held, owned, receives⟩ := permits.receives
  have fits : memory.Fits document (json.nodes + 0) := permits.fits
  have result : ∀ fuel after thrown, memory.parse fuel document json = some (after, thrown) →
      thrown = none ∧ Built document json after := by
    intro fuel after thrown parsed
    obtain ⟨rfl, copied_eq⟩ := copied_of_copy (fun _ _ => rfl) json permits.faithful receives rfl
      held owned contained fits parsed
    exact ⟨rfl, copied_eq.built⟩
  refine ⟨⟨json.nodes, fun fuel enough => ?_⟩, result⟩
  obtain ⟨⟨after, thrown⟩, parsed⟩ := copy_total (fun _ _ => rfl) json permits.faithful receives
    rfl held owned contained fits enough
  obtain ⟨rfl, -⟩ := result fuel after thrown parsed
  exact ⟨after, parsed⟩

/-- A document that is cleared and takes the tree of another one has it, and leaves that. -/
theorem Contained.copyInto (contained : memory.Contained)
    (permits : memory.PermitsCopyAssign document source rhs json) :
    ∃ cleared owner, memory.clear document = some cleared ∧ Cleared memory cleared document owner ∧
      cleared.Denotes source json rhs ∧
      Completes (fun fuel => copy fuel MutableElement.ofBoolAsDouble json cleared (.root document))
        fun after => Built document json after ∧ after.Denotes source json rhs := by
  obtain ⟨owner, owner_eq, owned, root_next, receives, room⟩ := permits.receives
  obtain ⟨cleared, clear_eq⟩ : ∃ cleared, memory.clear document = some cleared :=
    ⟨_, by
      simp only [Memory.clear, owner_eq, Option.bind_eq_bind, Option.bind_some]
      rfl⟩
  obtain ⟨owner', spec⟩ := clear_cleared clear_eq
  obtain rfl := Option.some.inj (owner_eq.symm.trans spec.owner_eq)
  have cleared_contained := contained.clear clear_eq fun root held => by
    obtain rfl := Option.some.inj ((get_root owner_eq).symm.trans held)
    exact root_next
  have source_ne : ∀ address : Address, address.document = some source →
      address.document ≠ some document := fun address inside here =>
    permits.other (Option.some.inj (inside.symm.trans here))
  have shown : cleared.Denotes source json rhs := permits.shown.frame fun address element inside
      held => (spec.others address (source_ne address inside)).trans held
  have fits : cleared.Fits document (json.nodes + 0) :=
    ⟨owner.clear, spec.owner_after, by
      simpa only [MutableDocument.clear, List.length_nil, Nat.zero_add, Nat.add_zero] using room⟩
  have inexact : False → ∀ value,
      MutableElement.ofBoolAsDouble value = MutableElement.ofBool value := False.elim
  have result : ∀ fuel after thrown,
      copy fuel MutableElement.ofBoolAsDouble json cleared (.root document) = some (after, thrown) →
      thrown = none ∧ Built document json after ∧ after.Denotes source json rhs := by
    intro fuel after thrown copy_eq
    obtain ⟨rfl, copied_eq⟩ := copied_of_copy inexact json permits.faithful receives rfl
      spec.root owned cleared_contained fits copy_eq
    refine ⟨rfl, copied_eq.built, shown.frame fun address element inside held =>
      copied_eq.frame address element ?_ held⟩
    rintro rfl
    exact source_ne _ inside rfl
  refine ⟨cleared, owner, clear_eq, spec, shown, ⟨json.nodes, fun fuel enough => ?_⟩, result⟩
  obtain ⟨⟨after, thrown⟩, copy_eq⟩ := copy_total inexact json permits.faithful receives rfl
    spec.root owned cleared_contained fits enough
  obtain ⟨rfl, -⟩ := result fuel after thrown copy_eq
  exact ⟨after, copy_eq⟩

/-- A document that is assigned an element of another one has the tree of it. -/
theorem Contained.copyAssign (contained : memory.Contained)
    (permits : memory.PermitsCopyAssign document source rhs json) :
    Completes (fun fuel => memory.copyAssign fuel document rhs) fun after =>
      Built document json after ∧ after.Denotes source json rhs := by
  obtain ⟨cleared, owner, clear_eq, -, shown, completes⟩ := contained.copyInto permits
  simp only [Memory.copyAssign, clear_eq, Option.bind_eq_bind, Option.bind_some]
  exact completes.of_read shown.reads fun _ _ => shown.read_eq

/-- A document that is assigned another one, which is no object, has the tree of it. -/
theorem Contained.copyAssignDocument (contained : memory.Contained)
    (other : memory.NoObject source)
    (permits : memory.PermitsCopyAssign document source (.root source) json) :
    Completes (fun fuel => memory.copyAssignDocument fuel document source) fun after =>
      Built document json after ∧ after.Denotes source json (.root source) := by
  obtain ⟨cleared, owner, clear_eq, spec, shown, completes⟩ := contained.copyInto permits
  obtain ⟨reads, read_eq⟩ := shown.readDocument (other.clear clear_eq)
  simp only [Memory.copyAssignDocument, clear_eq, Option.bind_eq_bind, Option.bind_some]
  exact Completes.of_read reads read_eq completes

/-- A document that is constructed from a value without elements has that value. -/
theorem Contained.constructFrom (contained : memory.Contained)
    (permits : memory.PermitsCopyConstruct source rhs json) :
    Completes (fun fuel => memory.constructFrom fuel json) fun after =>
      Built memory.documents.length json after ∧ after.Denotes source json rhs := by
  let added : MutableDocument := { root := {}, capacity := 0 }
  let grown : Memory := { memory with documents := memory.documents ++ [added] }
  have held_eq : ∀ address, grown.held address =
      if address = .root memory.documents.length then some added.root
      else memory.held address := held_append rfl
  have grown_contained : grown.Contained :=
    contained.append rfl rfl rfl fun _ known => by cases known
  have fits : grown.Fits memory.documents.length 0 :=
    ⟨added, List.getElem?_concat_length, Nat.zero_le _⟩
  have root_held := held_eq (.root memory.documents.length)
  rw [if_pos rfl] at root_held
  have inexact : False → ∀ value,
      MutableElement.ofBoolAsDouble value = MutableElement.ofBool value := False.elim
  have result : ∀ fuel after thrown, memory.constructFrom fuel json = some (after, thrown) →
      thrown = none ∧ Built memory.documents.length json after ∧ after.Denotes source json rhs := by
    intro fuel after thrown constructed
    simp only [Memory.constructFrom, Option.bind_eq_bind, Option.bind_eq_some_iff,
      Prod.exists] at constructed
    obtain ⟨copied, thrown', copy_eq, constructed⟩ := constructed
    obtain ⟨rfl, copied_eq⟩ := copied_of_leaf inexact permits.leaf permits.faithful root_held
      grown_contained fits copy_eq
    obtain ⟨rfl, rfl⟩ := Prod.mk.inj (Option.some.inj constructed)
    refine ⟨rfl, copied_eq.built, permits.shown.frame fun address element inside held => ?_⟩
    have old : address ≠ .root memory.documents.length := by
      rintro rfl
      simp [Memory.held, get] at held
    exact copied_eq.frame address element old ((held_eq address).trans ((if_neg old).trans held))
  refine ⟨⟨0, fun fuel _ => ?_⟩, result⟩
  obtain ⟨⟨after, thrown⟩, copy_eq⟩ := copy_leaf_total inexact permits.leaf permits.faithful
    root_held (fun _ known => by cases known) fits
  obtain ⟨rfl, -⟩ := copied_of_leaf inexact permits.leaf permits.faithful root_held
    grown_contained fits copy_eq
  refine ⟨after, ?_⟩
  simp only [Memory.constructFrom, Option.bind_eq_bind]
  rw [copy_eq]
  rfl

theorem Contained.copyConstruct (contained : memory.Contained)
    (permits : memory.PermitsCopyConstruct source rhs json) :
    Completes (fun fuel => memory.copyConstruct fuel rhs) fun after =>
      Built memory.documents.length json after ∧ after.Denotes source json rhs :=
  .of_read permits.shown.reads (fun _ _ => permits.shown.read_eq)
    (contained.constructFrom permits)

/-- A document that is constructed from another one, which has no elements. -/
theorem Contained.copyConstructDocument (contained : memory.Contained)
    (other : memory.NoObject source)
    (permits : memory.PermitsCopyConstruct source (.root source) json) :
    Completes (fun fuel => memory.copyConstructDocument fuel source) fun after =>
      Built memory.documents.length json after ∧ after.Denotes source json (.root source) := by
  obtain ⟨reads, read_eq⟩ := permits.shown.readDocument other
  refine .of_succ rfl ?_
  simp only [Memory.copyConstructDocument, Option.bind_eq_bind]
  exact Completes.of_read reads read_eq (contained.constructFrom permits)

theorem Contained.construct (contained : memory.Contained) (elementType : ElementType)
    (elementsCapacity : Nat) : (memory.construct elementType elementsCapacity).Contained :=
  contained.append rfl rfl rfl fun _ known => (Option.some.inj known).symm

/-! ## Runs -/

theorem Contained.perform {operation : Nat × Operation} (contained : memory.Contained)
    (permits : memory.PermitsOperation operation)
    (performed : memory.perform operation = some after) : after.Contained := by
  obtain ⟨fuel, operation⟩ := operation
  cases operation with
  | edit edit => exact contained.edit performed permits
  | construct elementType elementsCapacity =>
      exact Option.some.inj performed ▸ contained.construct elementType elementsCapacity
  | parse document json =>
      obtain ⟨⟨_, thrown⟩, parsed, rfl⟩ := Option.map_eq_some_iff.mp performed
      exact ((contained.parse permits).result_of fuel _ thrown parsed).2.contained
  | copyConstruct rhs =>
      obtain ⟨source, json, permits⟩ := permits
      obtain ⟨⟨_, thrown⟩, constructed, rfl⟩ := Option.map_eq_some_iff.mp performed
      exact ((contained.copyConstruct permits).result_of fuel _ thrown constructed).2.1.contained
  | copyAssign document rhs =>
      obtain ⟨source, json, permits⟩ := permits
      obtain ⟨⟨_, thrown⟩, assigned, rfl⟩ := Option.map_eq_some_iff.mp performed
      exact ((contained.copyAssign permits).result_of fuel _ thrown assigned).2.1.contained
  | copyConstructDocument rhs =>
      obtain ⟨other, json, permits⟩ := permits
      obtain ⟨⟨_, thrown⟩, constructed, rfl⟩ := Option.map_eq_some_iff.mp performed
      have completes := contained.copyConstructDocument other permits
      exact (completes.result_of fuel _ thrown constructed).2.1.contained
  | copyAssignDocument document rhs =>
      obtain ⟨other, json, permits⟩ := permits
      obtain ⟨⟨_, thrown⟩, assigned, rfl⟩ := Option.map_eq_some_iff.mp performed
      have completes := contained.copyAssignDocument other permits
      exact (completes.result_of fuel _ thrown assigned).2.1.contained

/-- Without documents there are no pointers. -/
theorem contained_empty : Memory.Contained {} := by
  have dead : ∀ address, Memory.held {} address = none := by
    intro address
    cases address <;> rfl
  refine ⟨fun address element _ held => ?_, fun address element _ _ held => ?_,
    fun address element _ _ held => ?_⟩ <;>
  · rw [dead] at held
    cases held

/--
In every run of operations that respect their conditions, the pointers of every element
lead to live slots of its own document.  In each state that is reached, what a document is
parsed from, copied from or constructed from is then what is read of it.
-/
theorem contained_of_run {final : Memory} {actions : List (Nat × Operation)}
    (run : Run perform PermitsOperation {} actions final) :
    final.Contained ∧
      (∀ document json, final.PermitsParse document json →
        Completes (fun fuel => final.parse fuel document json) (Built document json)) ∧
      (∀ document source rhs json, final.PermitsCopyAssign document source rhs json →
        Completes (fun fuel => final.copyAssign fuel document rhs) fun after =>
          Built document json after ∧ after.Denotes source json rhs) ∧
      (∀ source rhs json, final.PermitsCopyConstruct source rhs json →
        Completes (fun fuel => final.copyConstruct fuel rhs) fun after =>
          Built final.documents.length json after ∧ after.Denotes source json rhs) ∧
      (∀ document source json, final.NoObject source →
        final.PermitsCopyAssign document source (.root source) json →
        Completes (fun fuel => final.copyAssignDocument fuel document source) fun after =>
          Built document json after ∧ after.Denotes source json (.root source)) ∧
      ∀ source json, final.NoObject source →
        final.PermitsCopyConstruct source (.root source) json →
        Completes (fun fuel => final.copyConstructDocument fuel source) fun after =>
          Built final.documents.length json after ∧ after.Denotes source json (.root source) := by
  have contained : final.Contained :=
    run.invariant contained_empty fun _ _ _ contained permits performed =>
      contained.perform permits performed
  exact ⟨contained, fun _ _ => contained.parse, fun _ _ _ _ => contained.copyAssign,
    fun _ _ _ => contained.copyConstruct, fun _ _ _ => contained.copyAssignDocument,
    fun _ _ => contained.copyConstructDocument⟩

/-- Two documents, the first of them parsed, from which the second can be assigned. -/
theorem contained_parse_copyAssign :
    let parsed : Memory := { documents := [
      { root := {
          elementType := .array, value := .child (some (.slot 0 0 0)), size := 1,
          document := some 0 }
        elements := [{ elementType := .int64, value := .bits 1, document := some 0 }]
        capacity := 4 },
      MutableDocument.make 1 .nullValue 4] }
    parsed.Contained ∧
      Completes (fun fuel => parsed.copyAssign fuel 1 (.root 0)) (fun after =>
        Built 1 (.array (.cons (.int64 1) .nil)) after ∧
          after.Denotes 0 (.array (.cons (.int64 1) .nil)) (.root 0)) ∧
      Completes (fun fuel => parsed.copyAssignDocument fuel 1 0) fun after =>
        Built 1 (.array (.cons (.int64 1) .nil)) after ∧
          after.Denotes 0 (.array (.cons (.int64 1) .nil)) (.root 0) := by
  intro parsed
  have parses : PermitsOperation
      { documents := [MutableDocument.make 0 .nullValue 4, MutableDocument.make 1 .nullValue 4] }
      (2, .parse 0 (.array (.cons (.int64 1) .nil))) := by
    refine ⟨⟨_, rfl, rfl, rfl, rfl, Or.inr ⟨rfl, rfl⟩⟩, ⟨_, rfl, by decide⟩, ?_⟩
    simp [Tree.Faithful, Items.Faithful, Tree.isEmpty]
  have copies : parsed.PermitsCopyAssign 1 0 (.root 0) (.array (.cons (.int64 1) .nil)) := by
    refine ⟨by decide, ⟨rfl, _, rfl, rfl, rfl, _, rfl, _, _, rfl, rfl, rfl, ⟨rfl, rfl⟩, rfl⟩,
      ⟨_, rfl, rfl, rfl, ⟨rfl, rfl, Or.inr ⟨rfl, rfl⟩⟩, by decide⟩, ?_⟩
    simp [Tree.Faithful, Items.Faithful, Tree.isEmpty]
  have other : parsed.NoObject 0 := by
    intro owner owner_eq
    obtain rfl := Option.some.inj owner_eq
    exact ElementType.noConfusion
  have first : Run perform PermitsOperation {} [(0, .construct .nullValue 4)]
      { documents := [MutableDocument.make 0 .nullValue 4] } := .step .start trivial rfl
  have second : Run perform PermitsOperation {}
      [(0, .construct .nullValue 4), (0, .construct .nullValue 4)]
      { documents := [MutableDocument.make 0 .nullValue 4, MutableDocument.make 1 .nullValue 4] } :=
    .step first trivial rfl
  have third : Run perform PermitsOperation {}
      [(0, .construct .nullValue 4), (0, .construct .nullValue 4),
        (2, .parse 0 (.array (.cons (.int64 1) .nil)))] parsed :=
    .step second parses rfl
  have reached := contained_of_run third
  exact ⟨reached.1, reached.2.2.1 1 0 (.root 0) _ copies, reached.2.2.2.2.1 1 0 _ other copies⟩

/--
Where the vector grows, the elements of before are left behind: the list of the element
that moved leads to where it was, and `parse` follows the pointers of the last element.
-/
theorem growth_leaves_pointers :
    (∃ final, Run perform unguarded {}
      [(4, .construct .nullValue 2),
        (4, .edit (.statement [] (.atKey (.root 0) ['a']))),
        (4, .edit (.statement [] (.atIndex (.slot 0 0 0) 0))),
        (4, .edit (.statement [{ elementType := .int64, value := .bits 5 }]
          (.insertAfter (.root 0) none (.temporary 0))))] final ∧
      ¬final.Contained) ∧
    Run perform unguarded {} [(4, .construct .nullValue 1)]
      { documents := [MutableDocument.make 0 .nullValue 1] } ∧
    ∀ fuel, Memory.parse { documents := [MutableDocument.make 0 .nullValue 1] } fuel 0
      (.object (.cons ['a'] (.int64 1) (.cons ['b'] (.int64 2) .nil))) = none := by
  refine ⟨⟨{ documents := [{
      root := {
        elementType := .object, value := .child (some (.slot 0 1 2)), size := 2,
        document := some 0 }
      elements := [
        { elementType := .array, value := .child (some (.slot 0 0 1)), key := some ['a'],
          size := 1 },
        {},
        { elementType := .int64, value := .bits 5, document := some 0 }]
      capacity := 4
      generation := 1
      strings := [['a']] }] }, Run.of_execute (by decide), fun contained => ?_⟩,
    Run.of_execute (by decide), fun fuel => ?_⟩
  · obtain ⟨-, element, held⟩ :=
      (contained.child (.slot 0 1 0) _ 0 (some (.slot 0 0 1)) rfl rfl rfl).inside
    cases held
  · rcases fuel with _ | _ | fuel <;> rfl

end Memory

end ReactiveToolbox.Util.Json
