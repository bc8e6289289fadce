import ReactiveToolbox.Util.JsonPointers
import ReactiveToolbox.Util.JsonTrees

/-!
# Lists that grow at their end

A copy of a container appends an element for each entry and copies the entry into it.
Only the container itself, the last element of its list and new slots change, so that
what was copied before goes on showing its tree.
-/

namespace ReactiveToolbox.Util.Json

open ReactiveToolbox.Lib

namespace Memory

variable
    {memory typed middle copied after : Memory} {this added : Address}
    {document room count fuel : Nat} {holder element : MutableElement} {elementType : ElementType}
    {nodes : List Address} {head first : Pointer}

/-- An address of the document that holds no element yet. -/
def Unused (memory : Memory) (document : Nat) (address : Address) : Prop :=
  address.document = some document ∧ memory.held address = none

/-- A container, or a null element that becomes one, with its list. -/
structure Listing (memory : Memory) (this : Address) (document : Nat) (elementType : ElementType)
    (nodes : List Address) (holder : MutableElement) (head : Pointer) : Prop where
  inside : this.document = some document
  this_held : memory.held this = some holder
  owned : holder.document = some document
  sort : holder.elementType = elementType ∨ holder.elementType = .nullValue
  list : holder.value = .child head
  chain : LinkedChain memory.link head nodes
  size_eq : holder.size = nodes.length
  apart : this ∉ nodes

/-- So many elements have been appended to a list, the first of them at `first`. -/
structure Grown (memory after : Memory) (this : Address) (document : Nat)
    (elementType : ElementType) (nodes : List Address) (count room : Nat)
    (holder : MutableElement) (first : Pointer) : Prop where
  frame : ∀ other element, other ≠ this → nodes.getLast? ≠ some other →
    memory.held other = some element → after.held other = some element
  last : ∀ node element, nodes.getLast? = some node → memory.held node = some element →
    after.held node = some { element with next := first }
  this_held : after.held this = some { holder with
    elementType := if count = 0 then holder.elementType else elementType
    size := holder.size + count
    value := if nodes = [] then .child first else holder.value }
  fits : after.Fits document room
  contained : after.Contained

/-- The element has been made to show the tree by new elements. -/
structure Copied (memory after : Memory) (this : Address) (document room : Nat)
    (holder : MutableElement) (tree : Tree) : Prop where
  frame : ∀ other element, other ≠ this → memory.held other = some element →
    after.held other = some element
  shown : ∃ element, after.held this = some element ∧ element.next = holder.next ∧
    element.key = holder.key ∧ element.document = holder.document ∧
    after.Shows (memory.Unused document) tree element
  fits : after.Fits document room
  contained : after.Contained

/-- A container without elements, or a null element without a list. -/
theorem Listing.empty (inside : this.document = some document)
    (held : memory.held this = some holder) (owned : holder.document = some document)
    (list : holder.value = .child none) (size_eq : holder.size = 0)
    (sort : holder.elementType = elementType ∨ holder.elementType = .nullValue) :
    Listing memory this document elementType [] holder none where
  inside := inside
  this_held := held
  owned := owned
  sort := sort
  list := list
  chain := .nil
  size_eq := size_eq
  apart := List.not_mem_nil

theorem Listing.child_eq (listing : Listing memory this document elementType nodes holder head) :
    holder.child = some head := by
  simp only [MutableElement.child, listing.list]

theorem Listing.held_of_mem {node : Address}
    (listing : Listing memory this document elementType nodes holder head) (member : node ∈ nodes) :
    ∃ element, memory.held node = some element := by
  obtain ⟨next, linked⟩ := listing.chain.linked_of_mem member
  obtain ⟨element, held, -⟩ := Option.map_eq_some_iff.mp linked
  exact ⟨element, held⟩

/-- The list of a container is what is there before anything is appended. -/
theorem Grown.refl (listing : Listing memory this document elementType nodes holder head)
    (fits : memory.Fits document room) (contained : memory.Contained) :
    Grown memory memory this document elementType nodes 0 room holder none where
  frame _ _ _ _ held := held
  last node element last_eq held := by
    obtain ⟨before, rfl⟩ := List.getLast?_eq_some_iff.mp last_eq
    have ends := listing.chain.link_last
    rw [link, held, Option.map_some, Option.some.injEq] at ends
    rw [held, ← ends]
  this_held := by
    rw [listing.this_held, if_pos rfl, Nat.add_zero]
    split
    · rename_i empty
      have chain := listing.chain
      rw [empty] at chain
      cases chain
      rw [← listing.list]
    · rfl
  fits := fits
  contained := contained

/-- A new element linked in at the end of the list. -/
theorem Spliced.grown (listing : Listing memory this document elementType nodes holder head)
    (changed : Changed memory typed this fun element => { element with elementType := elementType })
    (spliced : Spliced typed after document this nodes.getLast? element added)
    (fits : after.Fits document room) (contained : after.Contained) :
    memory.held added = none ∧
      Grown memory after this document elementType nodes 1 room holder (some added) := by
  have fresh : memory.held added = none := by
    obtain ⟨generation, index, rfl⟩ := spliced.inside
    have dead := spliced.fresh
    rw [changed] at dead
    split at dead
    · exact Option.map_eq_none_iff.mp dead
    · exact dead
  have ne_added : ∀ {other element}, memory.held other = some element → other ≠ added := by
    rintro other element held rfl
    rw [fresh] at held
    cases held
  have this_ne := ne_added listing.this_held
  refine ⟨fresh, fun other element other_ne not_last held => ?_,
    fun node element last_eq held => ?_, ?_, fits, contained⟩
  · rw [spliced.held_of_ne (ne_added held), changed.held, if_neg other_ne, held]
    simp only [Option.map_some, MutableElement.relink, if_neg not_last, other_ne, false_and,
      if_false]
  · have node_ne : node ≠ this := fun same =>
      listing.apart (same ▸ List.mem_of_getLast? last_eq)
    rw [spliced.held_of_ne (ne_added held), changed.held, if_neg node_ne, held]
    simp only [Option.map_some, MutableElement.relink, last_eq, if_true, node_ne, false_and,
      if_false]
  · have not_last : nodes.getLast? ≠ some this := fun same =>
      listing.apart (List.mem_of_getLast? same)
    rw [spliced.held_of_ne this_ne, changed.held, if_pos rfl, listing.this_held]
    simp only [Option.map_some, MutableElement.relink, if_neg not_last, true_and, if_true,
      List.getLast?_eq_none_iff, Nat.one_ne_zero, if_false]

/-! ## One entry after the other -/

section

variable {room' room'' : Nat} {tree : Tree}

/-- The list of a container that has got one more element. -/
theorem Listing.grow (listing : Listing memory this document elementType nodes holder head)
    (grown : Grown memory middle this document elementType nodes 1 room holder (some added))
    (fresh : memory.held added = none) (new : middle.held added = some element)
    (ends : element.next = none) :
    ∃ grown_head, Listing middle this document elementType (nodes ++ [added])
      { holder with
        elementType := elementType
        size := holder.size + 1
        value := if nodes = [] then .child (some added) else holder.value } grown_head := by
  have this_ne : this ≠ added := by
    rintro rfl
    rw [listing.this_held] at fresh
    cases fresh
  have added_link : middle.link added = some none := by
    rw [link, new, Option.map_some, ends]
  have this_held := grown.this_held
  rw [if_neg Nat.one_ne_zero] at this_held
  have apart : this ∉ nodes ++ [added] := by
    simp only [List.mem_append, List.mem_singleton, not_or]
    exact ⟨listing.apart, this_ne⟩
  have size_eq : holder.size + 1 = (nodes ++ [added]).length := by
    rw [listing.size_eq, List.length_append, List.length_singleton]
  rcases List.eq_nil_or_concat nodes with rfl | ⟨before, last, nodes_eq⟩
  · exact ⟨some added,
      { inside := listing.inside
        this_held := this_held
        owned := listing.owned
        sort := Or.inl rfl
        list := rfl
        chain := .cons added_link .nil
        size_eq := size_eq
        apart := apart }⟩
  · rw [List.concat_eq_append] at nodes_eq
    subst nodes_eq
    have last_eq : (before ++ [last]).getLast? = some last := List.getLast?_concat
    obtain ⟨kept, last_held⟩ :=
      listing.held_of_mem (List.mem_append_right before List.mem_cons_self)
    have nonempty : before ++ [last] ≠ [] :=
      List.append_ne_nil_of_right_ne_nil _ (List.cons_ne_nil _ _)
    refine ⟨head,
      { inside := listing.inside
        this_held := this_held
        owned := listing.owned
        sort := Or.inl rfl
        list := by rw [if_neg nonempty, listing.list]
        chain := ?_
        size_eq := size_eq
        apart := apart }⟩
    rw [List.append_assoc]
    refine listing.chain.insert ?_ ?_ fun node member node_ne => ?_
    · rw [link, grown.last last kept last_eq last_held, Option.map_some]
    · rw [added_link, listing.chain.link_last]
    · obtain ⟨element, held⟩ := listing.held_of_mem member
      have node_this : node ≠ this := fun same => listing.apart (same ▸ member)
      have not_last : (before ++ [last]).getLast? ≠ some node := fun same =>
        node_ne (Option.some.inj (last_eq.symm.trans same)).symm
      rw [link, link, grown.frame node element node_this not_last held, held]

/-- Copying into an element of the list leaves the list as it is. -/
theorem Listing.of_copied {node : Address}
    (listing : Listing memory this document elementType nodes holder head)
    (member : node ∈ nodes) (node_held : memory.held node = some element)
    (copied : Copied memory after node document room element tree) :
    Listing after this document elementType nodes holder head := by
  have this_ne : this ≠ node := fun same => listing.apart (same ▸ member)
  refine
    { inside := listing.inside
      this_held := copied.frame this holder this_ne listing.this_held
      owned := listing.owned
      sort := listing.sort
      list := listing.list
      chain := listing.chain.congr fun other other_mem => ?_
      size_eq := listing.size_eq
      apart := listing.apart }
  obtain ⟨kept, held⟩ := listing.held_of_mem other_mem
  by_cases same : other = node
  · subst same
    obtain ⟨shown, shown_held, next_eq, -⟩ := copied.shown
    rw [link, link, shown_held, node_held, Option.map_some, Option.map_some, next_eq]
  · rw [link, link, copied.frame other kept same held, held]

/-- The list of a container that has got one more element, with an entry copied into it. -/
theorem Listing.entry {room'' : Nat}
    (listing : Listing memory this document elementType nodes holder head)
    (grown : Grown memory middle this document elementType nodes 1 room holder (some added))
    (fresh : memory.held added = none) (new : middle.held added = some element)
    (ends : element.next = none)
    (copied_eq : Copied middle copied added document room'' element tree) :
    ∃ grown_head, Listing copied this document elementType (nodes ++ [added])
      { holder with
        elementType := elementType
        size := holder.size + 1
        value := if nodes = [] then .child (some added) else holder.value } grown_head := by
  obtain ⟨grown_head, grown_listing⟩ := listing.grow grown fresh new ends
  exact ⟨grown_head,
    grown_listing.of_copied (List.mem_append_right nodes List.mem_cons_self) new copied_eq⟩

theorem Grown.stays (grown : Grown memory after this document elementType nodes count room holder
    first) (other : Address) (element : MutableElement)
    (held : memory.held other = some element) :
    ∃ element', after.held other = some element' ∧ (other ≠ this → element'.key = element.key) := by
  by_cases here : other = this
  · subst here
    exact ⟨_, grown.this_held, fun away => absurd rfl away⟩
  · by_cases last : nodes.getLast? = some other
    · exact ⟨_, grown.last other element last held, fun _ => rfl⟩
    · exact ⟨element, grown.frame other element here last held, fun _ => rfl⟩

theorem Copied.stays {node : Address}
    (copied_eq : Copied memory after node document room holder tree) (other : Address)
    (element : MutableElement) (node_held : memory.held node = some holder)
    (held : memory.held other = some element) :
    ∃ element', after.held other = some element' ∧ element'.key = element.key := by
  by_cases here : other = node
  · subst here
    obtain rfl := Option.some.inj (node_held.symm.trans held)
    obtain ⟨shown, shown_held, -, key_eq, -⟩ := copied_eq.shown
    exact ⟨shown, shown_held, key_eq⟩
  · exact ⟨element, copied_eq.frame other element here held, rfl⟩

/-- What is unused after appending was so before. -/
theorem Grown.unused {address : Address}
    (grown : Grown memory after this document elementType nodes count room holder first)
    (unused : after.Unused document address) : memory.Unused document address := by
  refine ⟨unused.1, ?_⟩
  cases held : memory.held address with
  | none => rfl
  | some element =>
      obtain ⟨element', held', -⟩ := grown.stays address element held
      rw [unused.2] at held'
      cases held'

theorem Copied.unused {node address : Address}
    (copied_eq : Copied memory after node document room holder tree)
    (node_held : memory.held node = some holder) (unused : after.Unused document address) :
    memory.Unused document address := by
  refine ⟨unused.1, ?_⟩
  cases held : memory.held address with
  | none => rfl
  | some element =>
      obtain ⟨element', held', -⟩ := copied_eq.stays address element node_held held
      rw [unused.2] at held'
      cases held'

/--
An element is appended, an entry is copied into it, and the rest behind it: the element
shows the entry and leads to the rest.
-/
theorem Grown.cons {next : Pointer}
    (listing : Listing memory this document elementType nodes holder head)
    (grown : Grown memory middle this document elementType nodes 1 room'' holder (some added))
    (fresh : memory.held added = none) (new : middle.held added = some element)
    (copied_eq : Copied middle copied added document room' element tree)
    (rest : Grown copied after this document elementType (nodes ++ [added]) count room
      { holder with
        elementType := elementType
        size := holder.size + 1
        value := if nodes = [] then .child (some added) else holder.value } next) :
    Grown memory after this document elementType nodes (count + 1) room holder (some added) ∧
      ∃ shown, after.held added = some shown ∧ shown.next = next ∧ shown.key = element.key ∧
        after.Shows (memory.Unused document) tree shown := by
  have ne_added : ∀ {other element}, memory.held other = some element → other ≠ added := by
    rintro other element held rfl
    rw [fresh] at held
    cases held
  have last_added : (nodes ++ [added]).getLast? = some added := List.getLast?_concat
  have this_middle := grown.this_held
  refine ⟨⟨fun other element other_ne not_last held => ?_, fun node element last_eq held => ?_,
    ?_, rest.fits, rest.contained⟩, ?_⟩
  · have other_added := ne_added held
    refine rest.frame other element other_ne
      (fun same => other_added (Option.some.inj (last_added.symm.trans same)).symm)
      (copied_eq.frame other element other_added (grown.frame other element other_ne not_last held))
  · have node_added := ne_added held
    have node_ne : node ≠ this := fun same =>
      listing.apart (same ▸ List.mem_of_getLast? last_eq)
    exact rest.frame node _ node_ne
      (fun same => node_added (Option.some.inj (last_added.symm.trans same)).symm)
      (copied_eq.frame node _ node_added (grown.last node element last_eq held))
  · rw [rest.this_held]
    simp only [List.append_eq_nil_iff, List.cons_ne_self, and_false, if_false, ite_self,
      Nat.succ_ne_zero, Option.some.injEq, MutableElement.mk.injEq, true_and, and_true]
    omega
  · obtain ⟨shown, shown_held, next_eq, key_eq, -, shows⟩ := copied_eq.shown
    refine ⟨_, rest.last added shown last_added shown_held, rfl, key_eq, ?_⟩
    refine (shows.frame (fun address element inside held => ?_) fun address inside => ?_).congr
      rfl rfl rfl
    · obtain ⟨-, dead⟩ := inside
      refine rest.frame address element ?_ ?_ held
      · rintro rfl
        rw [this_middle] at dead
        cases dead
      · rw [last_added]
        rintro same
        obtain rfl := Option.some.inj same
        rw [new] at dead
        cases dead
    · exact grown.unused inside

end

/-! ## The elements that `at` appends -/

/-- The elements of a list have keys, and others than these. -/
def Keyed (memory : Memory) (nodes : List Address) (keys : List Text) : Prop :=
  ∀ node ∈ nodes, ∃ element name, memory.held node = some element ∧ element.key = some name ∧
    name ∉ keys

/-- An element with the next key is appended, and an entry is copied into it. -/
theorem Keyed.grow {key : Text} {keys : List Text} {room' : Nat} {tree : Tree}
    (keyed : memory.Keyed nodes (key :: keys))
    (listing : Listing memory this document elementType nodes holder head)
    (grown : Grown memory middle this document elementType nodes count room holder first)
    (new : middle.held added = some element) (key_eq : element.key = some key)
    (once : key ∉ keys) (copied_eq : Copied middle copied added document room' element tree) :
    copied.Keyed (nodes ++ [added]) keys := by
  intro node member
  rcases List.mem_append.mp member with earlier | last
  · obtain ⟨old, name, old_held, name_eq, other⟩ := keyed node earlier
    obtain ⟨between, between_held, between_key⟩ := grown.stays node old old_held
    obtain ⟨element', held', key_eq'⟩ := copied_eq.stays node between new between_held
    have node_ne : node ≠ this := fun same => listing.apart (same ▸ earlier)
    exact ⟨element', name, held', (key_eq'.trans (between_key node_ne)).trans name_eq,
      fun rest => other (List.mem_cons_of_mem key rest)⟩
  · obtain rfl := List.mem_singleton.mp last
    obtain ⟨element', held', key_eq'⟩ := copied_eq.stays node element new new
    exact ⟨element', key, held', key_eq'.trans key_eq, once⟩

/-- `at` of a key that the object does not have. -/
theorem atKey_grown {key : Text} {keys : List Text}
    (listing : Listing memory this document .object nodes holder head)
    (contained : memory.Contained) (fits : memory.Fits document (room + 1))
    (keyed : memory.Keyed nodes (key :: keys))
    (at_eq : memory.atKey fuel this key = some (.ok (after, added))) :
    added.document = some document ∧ memory.held added = none ∧
      Grown memory after this document .object nodes 1 room holder (some added) ∧
      after.held added = some { key := some (cString key), document := some document } := by
  have this_get := get_of_held listing.this_held
  obtain ⟨after_contained, live⟩ :=
    contained.atKey at_eq listing.inside fun _ _ _ _ _ _ => fits
  obtain ⟨-, typed, head', typed_eq, head_eq, found⟩ := atKey_ok at_eq this_get
  obtain rfl := Option.some.inj (listing.child_eq.symm.trans head_eq)
  rcases found with ⟨sought, -⟩ | ⟨tail, owner, sought, owned, appended⟩
  · obtain ⟨reached, element, got, named⟩ := seekKey_found sought
    have member := (listing.chain.mono fun _ _ => next_of_link).mem_of_reaches reached
    obtain ⟨kept, name, held, name_eq, other⟩ := keyed added member
    obtain rfl := Option.some.inj ((get_of_held held).symm.trans got)
    obtain rfl := Option.some.inj (name_eq.symm.trans named)
    exact absurd List.mem_cons_self other
  · obtain rfl := Option.some.inj (listing.owned.symm.trans owned)
    have tail_eq := seekKey_chain listing.chain sought
    rw [Option.or_none] at tail_eq
    subst tail_eq
    obtain ⟨spliced, fits'⟩ := appended room fits
    obtain ⟨fresh, grown⟩ := spliced.grown listing (get_update typed_eq) fits' after_contained
    exact ⟨live.inside.1, fresh, grown, spliced.held_added⟩

/-- `at` of the index behind the last. -/
theorem atIndex_grown (listing : Listing memory this document .array nodes holder head)
    (contained : memory.Contained) (fits : memory.Fits document (room + 1))
    (at_eq : memory.atIndex fuel this nodes.length = some (.ok (after, added))) :
    added.document = some document ∧ memory.held added = none ∧
      Grown memory after this document .array nodes 1 room holder (some added) ∧
      after.held added = some { document := some document } := by
  have this_get := get_of_held listing.this_held
  obtain ⟨-, typed, head', typed_eq, head_eq, found⟩ := atIndex_ok at_eq this_get
  obtain rfl := Option.some.inj (listing.child_eq.symm.trans head_eq)
  have one : ∀ {count : Nat} {tail : Pointer},
      memory.seekIndex nodes.length fuel 0 head none = some (.inr (count, tail)) →
        nodes.length + 1 - count = 1 := by
    intro count tail sought
    rw [(seekIndex_missing listing.chain sought).2]
    omega
  obtain ⟨after_contained, live⟩ := contained.atIndex at_eq listing.inside
    fun holder' head' count tail this_eq' head_eq' sought => by
      obtain rfl := Option.some.inj (this_get.symm.trans this_eq')
      obtain rfl := Option.some.inj (head_eq.symm.trans head_eq')
      rw [one sought]
      exact fits.mono (Nat.le_add_left 1 room)
  rcases found with ⟨sought, -⟩ | ⟨count, tail, sought, appended⟩
  · have found_lt := seekIndex_lt listing.chain (Nat.zero_le _) sought
    omega
  · have tail_eq := (seekIndex_missing listing.chain sought).1
    rw [Option.or_none] at tail_eq
    subst tail_eq
    simp only [one sought, appendAll, Option.bind_eq_bind, Option.bind_eq_some_iff,
      Prod.exists, Option.some.injEq, Prod.mk.injEq] at appended
    obtain ⟨grown, slot, append_eq, rfl, rfl⟩ := appended
    have typed_get : typed.get this = some { holder with elementType := .array } := by
      rw [get_update typed_eq, if_pos rfl, this_get, Option.map_some]
    obtain ⟨spliced, fits'⟩ := append_spliced append_eq typed_get listing.owned
      (fits.update typed_eq) fun last last_eq => by
        rcases seekIndex_tail sought with ⟨-, none_eq⟩ | ⟨last', before, some_eq, -, got, ends⟩
        · rw [none_eq] at last_eq
          cases last_eq
        · obtain rfl := Option.some.inj (some_eq.symm.trans last_eq)
          rw [get_update typed_eq, got]
          split
          · exact ⟨_, rfl, ends⟩
          · exact ⟨_, rfl, ends⟩
    obtain ⟨fresh, grown⟩ := spliced.grown listing (get_update typed_eq) fits' after_contained
    exact ⟨live.inside.1, fresh, grown, spliced.held_added⟩

/-! ## Scalars and strings -/

theorem cString_of_free {text : Text} (free : '\x00' ∉ text) : cString text = text := by
  rw [cString, List.takeWhile_eq_self_iff]
  intro char member
  exact decide_eq_true fun nul => free (nul ▸ member)

theorem take_of_cString {text buffer : Text} (free : '\x00' ∉ text)
    (same : cString buffer = cString text) :
    text.length ≤ buffer.length ∧ buffer.take text.length = text := by
  rw [cString_of_free free] at same
  have begins : text <+: buffer := by
    rw [← same]
    exact List.takeWhile_prefix _
  exact ⟨begins.length_le, (List.prefix_iff_eq_take.mp begins).symm⟩

/-- The assignment of a value without a list. -/
theorem assignValue_spec {value : MutableElement} {thrown : Option JsonError}
    (assigned : memory.assignValue fuel this value = some (after, thrown))
    (scalar : value.isContainer = false)
    (no_list : ∀ first, value.value = .child first → first = none)
    (held : memory.held this = some holder)
    (fits : memory.Fits document room) (contained : memory.Contained) :
    thrown = none ∧
      (∀ other element, other ≠ this → memory.held other = some element →
        after.held other = some element) ∧
      after.Fits document room ∧ after.Contained ∧
      ∃ kept, value.Stores kept ∧ after.held this = some { holder with
        elementType := value.elementType, size := value.size, value := kept } := by
  simp only [assignValue, Option.bind_eq_bind, Option.bind_eq_some_iff, Option.pure_def,
    Option.some.injEq, Prod.mk.injEq] at assigned
  obtain ⟨middle, assigned, rfl, rfl⟩ := assigned
  rcases assign_cases assigned rfl with ⟨container, -⟩ | ⟨-, kept, kept_eq, changed, fits'⟩
  · rw [scalar] at container
    cases container
  · have began : { memory with temporaries := [value] }.Contained :=
      contained.of_held fun _ => held_temporaries [value]
    have middle_contained := began.reassigned changed (fun _ => rfl) (fun _ => rfl)
      fun _ _ _ _ first value_eq => by
        rcases kept_eq with rfl | ⟨-, text, buffer, -, rfl, -⟩
        · rw [no_list first value_eq]
          exact .null
        · cases value_eq
    refine ⟨rfl, fun other element other_ne other_held => ?_, fits' _ _ fits,
      middle_contained.of_held fun _ => held_temporaries [], kept, kept_eq, ?_⟩
    · rw [held_temporaries, changed.held, if_neg other_ne, held_temporaries, other_held]
    · rw [held_temporaries, changed.held, if_pos rfl, held_temporaries, held, Option.map_some]

/-! ## `at` and assignment return -/

theorem seekKey_total {keys : List Text} (key : Text) (start : Pointer)
    (chain : LinkedChain memory.link head nodes) (keyed : memory.Keyed nodes keys)
    (enough : nodes.length ≤ fuel) :
    ∃ outcome, memory.seekKey key fuel head start = some outcome := by
  induction chain generalizing fuel start with
  | nil => cases fuel <;> exact ⟨_, rfl⟩
  | cons linked _ ih =>
      obtain ⟨element, name, held, name_eq, -⟩ := keyed _ List.mem_cons_self
      rw [List.length_cons] at enough
      obtain ⟨fuel, rfl⟩ := Nat.exists_eq_add_of_le' (Nat.le_trans (Nat.le_add_left 1 _) enough)
      simp only [seekKey, get_of_held held, name_eq, Option.bind_eq_bind, Option.bind_some]
      split
      · exact ⟨_, rfl⟩
      · rw [next_of_get linked (get_of_held held)]
        exact ih _ (fun node member => keyed node (List.mem_cons_of_mem _ member)) (by omega)

theorem seekIndex_total (index counted : Nat) (start : Pointer)
    (chain : LinkedChain memory.link head nodes) (enough : nodes.length ≤ fuel) :
    ∃ outcome, memory.seekIndex index fuel counted head start = some outcome := by
  induction chain generalizing fuel counted start with
  | nil => cases fuel <;> exact ⟨_, rfl⟩
  | cons linked _ ih =>
      obtain ⟨element, held, -⟩ := Option.map_eq_some_iff.mp linked
      rw [List.length_cons] at enough
      obtain ⟨fuel, rfl⟩ := Nat.exists_eq_add_of_le' (Nat.le_trans (Nat.le_add_left 1 _) enough)
      simp only [seekIndex, get_of_held held, Option.bind_eq_bind, Option.bind_some]
      split
      · exact ⟨_, rfl⟩
      · rw [next_of_get linked (get_of_held held)]
        exact ih _ _ (by omega)

theorem linkBehind_total {tail : Pointer} (added : Address)
    (this_live : ∃ element, memory.get this = some element)
    (tail_live : ∀ last, tail = some last → ∃ element, memory.get last = some element) :
    ∃ after, memory.linkBehind this tail added = some after := by
  cases tail with
  | none =>
      obtain ⟨element, live⟩ := this_live
      exact update_of_live live _
  | some last =>
      obtain ⟨element, live⟩ := tail_live last rfl
      exact update_of_live live _

/-- What an assignment to one element leaves alive. -/
theorem Changed.live {change : MutableElement → MutableElement} {other : Address}
    (changed : Changed memory after this change)
    (live : ∃ element, memory.get other = some element) :
    ∃ element, after.get other = some element := by
  obtain ⟨element, got⟩ := live
  rw [changed, got]
  split
  · exact ⟨_, rfl⟩
  · exact ⟨element, rfl⟩

theorem Allocated.live {other : Address} (allocated : Allocated memory after document element added)
    (live : ∃ element, memory.get other = some element) :
    ∃ element, after.get other = some element := by
  obtain ⟨kept, got⟩ := live
  rw [allocated.get_eq, got]
  split
  · exact ⟨_, rfl⟩
  · exact ⟨kept, rfl⟩

/-- An append to a list that is there, in a document with room. -/
theorem append_total {tail : Pointer} (this_eq : memory.get this = some holder)
    (owned : holder.document = some document) (fits : memory.Fits document (room + 1))
    (tail_live : ∀ last, tail = some last → ∃ element, memory.get last = some element) :
    ∃ result, memory.append this tail = some result := by
  obtain ⟨allocated, slot, alloc_eq, alloc, -⟩ := allocElement_spec .nullValue fits
  have live : ∀ {other}, (∃ element, memory.get other = some element) →
      ∃ element, allocated.get other = some element := alloc.live
  obtain ⟨element, element_eq⟩ := live ⟨holder, this_eq⟩
  obtain ⟨counted, counted_eq⟩ := update_of_live element_eq fun element =>
    { element with size := element.size + 1 }
  have counted_live := Changed.live (get_update counted_eq) ⟨element, element_eq⟩
  obtain ⟨linked, linked_eq⟩ := linkBehind_total slot counted_live fun last last_eq =>
    Changed.live (get_update counted_eq) (live (tail_live last last_eq))
  exact ⟨(linked, slot), by simp only [append, this_eq, owned, alloc_eq, counted_eq, linked_eq,
    Option.bind_eq_bind, Option.bind_some, Option.pure_def]⟩

theorem Listing.tail_live {tail : Pointer}
    (listing : Listing memory this document elementType nodes holder head)
    (tail_eq : tail = nodes.getLast?) (last : Address) (last_eq : tail = some last) :
    ∃ element, memory.get last = some element := by
  obtain ⟨element, held⟩ :=
    listing.held_of_mem (List.mem_of_getLast? (tail_eq.symm.trans last_eq))
  exact ⟨element, get_of_held held⟩

theorem atKey_total {keys : List Text} (fuel : Nat) (key : Text)
    (listing : Listing memory this document .object nodes holder head)
    (fits : memory.Fits document (room + 1)) (keyed : memory.Keyed nodes keys)
    (enough : nodes.length ≤ fuel) :
    ∃ outcome, memory.atKey fuel this key = some outcome := by
  have this_get := get_of_held listing.this_held
  have right : ¬(holder.elementType ≠ .object ∧ holder.elementType ≠ .nullValue) :=
    fun wrong => listing.sort.elim wrong.1 wrong.2
  obtain ⟨typed, typed_eq⟩ := update_of_live this_get fun element =>
    { element with elementType := .object }
  obtain ⟨outcome, sought⟩ := seekKey_total key none listing.chain keyed enough
  simp only [atKey, this_get, if_neg right, typed_eq, listing.child_eq, sought, listing.owned,
    Option.bind_eq_bind, Option.bind_some]
  cases outcome with
  | inl found => exact ⟨_, rfl⟩
  | inr tail =>
      have tail_eq := seekKey_chain listing.chain sought
      rw [Option.or_none] at tail_eq
      obtain ⟨allocated, slot, alloc_eq, alloc, fits'⟩ :=
        allocElement_spec .nullValue (fits.update typed_eq)
      obtain ⟨interned, buffer, interned_eq⟩ := allocString_of_fits key fits'
      have interned_get := (allocString_interned interned_eq).get_eq
      have live : ∀ {other}, (∃ element, memory.get other = some element) →
          ∃ element, interned.get other = some element := by
        intro other kept
        rw [interned_get]
        exact alloc.live (Changed.live (get_update typed_eq) kept)
      have slot_live : interned.get slot =
          some { elementType := .nullValue, document := some document } := by
        rw [interned_get, alloc.get_eq, if_pos rfl]
      obtain ⟨keyed, keyed_eq⟩ := update_of_live slot_live fun element =>
        { element with key := some (cString buffer) }
      obtain ⟨element, element_eq⟩ :=
        Changed.live (get_update keyed_eq) (live ⟨holder, this_get⟩)
      obtain ⟨counted, counted_eq⟩ := update_of_live element_eq fun element =>
        { element with size := element.size + 1 }
      obtain ⟨linked, linked_eq⟩ := linkBehind_total slot
        (Changed.live (get_update counted_eq) ⟨element, element_eq⟩) fun last last_eq =>
          Changed.live (get_update counted_eq) (Changed.live (get_update keyed_eq)
            (live (listing.tail_live tail_eq last last_eq)))
      simp only [alloc_eq, interned_eq, keyed_eq, counted_eq, linked_eq, Option.bind_some]
      exact ⟨_, rfl⟩

theorem atIndex_total (fuel : Nat)
    (listing : Listing memory this document .array nodes holder head)
    (fits : memory.Fits document (room + 1)) (enough : nodes.length ≤ fuel) :
    ∃ outcome, memory.atIndex fuel this nodes.length = some outcome := by
  have this_get := get_of_held listing.this_held
  have right : ¬(holder.elementType ≠ .array ∧ holder.elementType ≠ .nullValue) :=
    fun wrong => listing.sort.elim wrong.1 wrong.2
  obtain ⟨typed, typed_eq⟩ := update_of_live this_get fun element =>
    { element with elementType := .array }
  obtain ⟨outcome, sought⟩ :=
    seekIndex_total nodes.length 0 none listing.chain enough
  simp only [atIndex, this_get, if_neg right, typed_eq, listing.child_eq, sought,
    Option.bind_eq_bind, Option.bind_some]
  cases outcome with
  | inl found => exact ⟨_, rfl⟩
  | inr ends =>
      obtain ⟨count, tail⟩ := ends
      obtain ⟨tail_eq, count_eq⟩ := seekIndex_missing listing.chain sought
      rw [Option.or_none] at tail_eq
      have one : nodes.length + 1 - count = 1 := by
        rw [count_eq]
        omega
      have typed_get : typed.get this = some { holder with elementType := .array } := by
        rw [get_update typed_eq, if_pos rfl, this_get, Option.map_some]
      obtain ⟨⟨grown, slot⟩, append_eq⟩ := append_total typed_get listing.owned
        (fits.update typed_eq) fun last last_eq =>
          Changed.live (get_update typed_eq) (listing.tail_live tail_eq last last_eq)
      simp only [one, appendAll, append_eq, Option.bind_eq_bind, Option.bind_some]
      exact ⟨_, rfl⟩

theorem assignValue_total (value : MutableElement) (scalar : value.isContainer = false)
    (characters : value.elementType = .string → ∃ text, value.characters = some text)
    (held : memory.held this = some holder)
    (known : ∀ owner, holder.document = some owner → owner = document)
    (fits : memory.Fits document room) :
    ∃ result, memory.assignValue fuel this value = some result := by
  have this_get : { memory with temporaries := [value] }.get this = some holder := by
    cases this with
    | temporary => cases held
    | root => exact held
    | slot => exact held
  have value_get : { memory with temporaries := [value] }.get (.temporary 0) = some value := rfl
  have fits' : { memory with temporaries := [value] }.Fits document room := fits
  obtain ⟨assigned, assigned_eq⟩ := update_of_live this_get fun element =>
    { element with elementType := value.elementType, size := value.size, value := value.value }
  simp only [assignValue, assign, this_get, value_get, assigned_eq, scalar, Bool.false_eq_true,
    if_false, Option.bind_eq_bind, Option.bind_some, Option.pure_def]
  split
  · rename_i interns
    obtain ⟨owned, -, string⟩ := interns
    obtain ⟨owner, owner_eq⟩ := Option.isSome_iff_exists.mp owned
    obtain rfl := known owner owner_eq
    obtain ⟨text, text_eq⟩ := characters string
    obtain ⟨interned, buffer, interned_eq⟩ := allocString_of_fits text (fits'.update assigned_eq)
    obtain ⟨element, element_eq⟩ := Changed.live (get_update assigned_eq) ⟨holder, this_get⟩
    rw [← (allocString_interned interned_eq).get_eq] at element_eq
    obtain ⟨kept, kept_eq⟩ := update_of_live element_eq fun element =>
      { element with value := .str buffer }
    simp only [owner_eq, text_eq, interned_eq, kept_eq, Option.bind_some]
    exact ⟨_, rfl⟩
  · exact ⟨_, rfl⟩

end Memory

end ReactiveToolbox.Util.Json
