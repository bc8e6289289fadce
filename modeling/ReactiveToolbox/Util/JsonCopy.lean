import ReactiveToolbox.Util.JsonGrowth

/-!
# Copies show their sources

An element that a tree is copied into shows the tree, and the copy returns.
-/

namespace ReactiveToolbox.Util.Json

/-- An element into which a tree can be copied: a container must be empty and of the type. -/
def MutableElement.Receives (self : MutableElement) : Tree → Prop
  | .array items => self.value = .child none ∧ self.size = 0 ∧
      (self.elementType = .array ∨
        self.elementType = .nullValue ∧ (Tree.array items).isEmpty = false)
  | .object members => self.value = .child none ∧ self.size = 0 ∧
      (self.elementType = .object ∨
        self.elementType = .nullValue ∧ (Tree.object members).isEmpty = false)
  | _ => True

theorem MutableElement.receives_fresh {tree : Tree} {key : Option Text} {document : Option Nat}
    (nonempty : tree.isEmpty = false) :
    MutableElement.Receives { key := key, document := document } tree := by
  cases tree with
  | array items => exact ⟨rfl, rfl, Or.inr ⟨rfl, nonempty⟩⟩
  | object members => exact ⟨rfl, rfl, Or.inr ⟨rfl, nonempty⟩⟩
  | _ => trivial

theorem MutableElement.characters_ofString {text : Text} :
    (MutableElement.ofString text).characters = some text := by
  simp [MutableElement.characters, MutableElement.ofString]

/-- The tree is an array or an object. -/
def Tree.isContainer : Tree → Bool
  | .array _ => true
  | .object _ => true
  | _ => false

/-- The value without a list that an element is assigned so that it shows the tree. -/
structure Leaf (tree : Tree) (value : MutableElement) : Prop where
  scalar : value.isContainer = false
  no_list : ∀ first, value.value = .child first → first = none
  characters : value.elementType = .string → ∃ text, value.characters = some text
  shows : ∀ (memory : Memory) region (holder : MutableElement) kept, value.Stores kept →
    memory.Shows region tree { holder with
      elementType := value.elementType, size := value.size, value := kept }

theorem Leaf.of_number {tree : Tree} {elementType : ElementType} {bits : UInt64}
    (scalar : MutableElement.isContainer { elementType := elementType } = false)
    (no_string : elementType ≠ .string)
    (shows : ∀ (memory : Memory) region (holder : MutableElement), memory.Shows region tree
      { holder with elementType := elementType, size := 0, value := .bits bits }) :
    Leaf tree { elementType := elementType, value := .bits bits } where
  scalar := scalar
  no_list _ absent := by cases absent
  characters string := absurd string no_string
  shows memory region holder kept stores := by
    rcases stores with rfl | ⟨string, -⟩
    · exact shows memory region holder
    · exact absurd string no_string

theorem Leaf.ofBool (value : Bool) : Leaf (.bool value) (.ofBool value) :=
  .of_number rfl (by decide) fun _ _ _ => by cases value <;> exact ⟨rfl, _, rfl, by decide⟩

theorem Leaf.null : Leaf .null {} where
  scalar := rfl
  no_list _ same := (Value.child.inj same).symm
  characters string := by cases string
  shows _ _ _ _ _ := rfl

theorem Leaf.ofString {text : Text} (free : '\x00' ∉ text) :
    Leaf (.string text) (.ofString text) where
  scalar := rfl
  no_list _ absent := by cases absent
  characters _ := ⟨text, MutableElement.characters_ofString⟩
  shows memory region holder kept stores := by
    refine ⟨rfl, ?_⟩
    rcases stores with rfl | ⟨-, text', buffer, text_eq, rfl, same⟩
    · exact MutableElement.characters_ofString
    · obtain rfl := Option.some.inj (MutableElement.characters_ofString.symm.trans text_eq)
      obtain ⟨within, begins⟩ := Memory.take_of_cString free same
      simp [MutableElement.characters, MutableElement.ofString, within, begins]

namespace Memory

variable
    {memory middle after : Memory} {this : Address} {document room fuel : Nat}
    {holder : MutableElement} {bools : Prop} {ofBool : Bool → MutableElement} {tree : Tree}

/-- `copy` of what is no container is one assignment. -/
theorem copy_leaf (exact : bools → ∀ value, ofBool value = .ofBool value)
    (leaf : tree.isContainer = false) (faithful : tree.Faithful bools) :
    ∃ value, Leaf tree value ∧
      copy fuel ofBool tree memory this = memory.assignValue fuel this value := by
  cases tree with
  | bool value =>
      rw [Tree.Faithful] at faithful
      exact ⟨_, .ofBool value, by rw [copy, exact faithful]⟩
  | int64 bits =>
      exact ⟨_, .of_number rfl (by decide) fun _ _ _ => ⟨rfl, rfl⟩, by rw [copy]⟩
  | uint64 bits =>
      exact ⟨_, .of_number rfl (by decide) fun _ _ _ => ⟨rfl, rfl⟩, by rw [copy]⟩
  | double bits =>
      exact ⟨_, .of_number rfl (by decide) fun _ _ _ => ⟨rfl, rfl⟩, by rw [copy]⟩
  | null => exact ⟨_, .null, by rw [copy]⟩
  | string text =>
      rw [Tree.Faithful] at faithful
      exact ⟨_, .ofString faithful, by rw [copy]⟩
  | array => cases leaf
  | object => cases leaf

theorem copied_of_leaf {thrown : Option JsonError}
    (exact : bools → ∀ value, ofBool value = .ofBool value)
    (leaf : tree.isContainer = false) (faithful : tree.Faithful bools)
    (held : memory.held this = some holder) (contained : memory.Contained)
    (fits : memory.Fits document room)
    (copied : copy fuel ofBool tree memory this = some (after, thrown)) :
    thrown = none ∧ Copied memory after this document room holder tree := by
  obtain ⟨value, shown, copy_eq⟩ := copy_leaf exact leaf faithful
  rw [copy_eq] at copied
  obtain ⟨thrown_eq, frame, fits', contained', kept, stores, this_held⟩ :=
    assignValue_spec copied shown.scalar shown.no_list held fits contained
  exact ⟨thrown_eq, frame, ⟨_, this_held, rfl, rfl, rfl, shown.shows _ _ _ kept stores⟩, fits',
    contained'⟩

theorem copy_leaf_total (exact : bools → ∀ value, ofBool value = .ofBool value)
    (leaf : tree.isContainer = false) (faithful : tree.Faithful bools)
    (held : memory.held this = some holder)
    (known : ∀ owner, holder.document = some owner → owner = document)
    (fits : memory.Fits document room) :
    ∃ result, copy fuel ofBool tree memory this = some result := by
  obtain ⟨value, shown, copy_eq⟩ := copy_leaf exact leaf faithful
  rw [copy_eq]
  exact assignValue_total value shown.scalar shown.characters held known fits

mutual

/-- Whatever `copy` makes of an element shows the tree. -/
theorem copied_of_copy (exact : bools → ∀ value, ofBool value = .ofBool value) :
    ∀ (tree : Tree) {memory after : Memory} {this : Address} {document room : Nat}
    {holder : MutableElement} {thrown : Option JsonError},
    tree.Faithful bools → holder.Receives tree → this.document = some document →
    memory.held this = some holder → holder.document = some document → memory.Contained →
    memory.Fits document (tree.nodes + room) →
    copy fuel ofBool tree memory this = some (after, thrown) →
    thrown = none ∧ Copied memory after this document room holder tree
  | .bool _, _, _, _, _, _, _, _, faithful, _, _, held, _, contained, fits, copied =>
      copied_of_leaf exact rfl faithful held contained (fits.mono (Nat.le_add_left _ _)) copied
  | .int64 _, _, _, _, _, _, _, _, faithful, _, _, held, _, contained, fits, copied =>
      copied_of_leaf exact rfl faithful held contained (fits.mono (Nat.le_add_left _ _)) copied
  | .uint64 _, _, _, _, _, _, _, _, faithful, _, _, held, _, contained, fits, copied =>
      copied_of_leaf exact rfl faithful held contained (fits.mono (Nat.le_add_left _ _)) copied
  | .double _, _, _, _, _, _, _, _, faithful, _, _, held, _, contained, fits, copied =>
      copied_of_leaf exact rfl faithful held contained (fits.mono (Nat.le_add_left _ _)) copied
  | .null, _, _, _, _, _, _, _, faithful, _, _, held, _, contained, fits, copied =>
      copied_of_leaf exact rfl faithful held contained (fits.mono (Nat.le_add_left _ _)) copied
  | .string _, _, _, _, _, _, _, _, faithful, _, _, held, _, contained, fits, copied =>
      copied_of_leaf exact rfl faithful held contained (fits.mono (Nat.le_add_left _ _)) copied
  | .array items, memory, after, this, document, room, holder, thrown, faithful, receives, inside,
      held, owned, contained, fits, copied => by
      obtain ⟨value_eq, size_eq, sort⟩ := receives
      rw [Tree.Faithful] at faithful
      rw [copy] at copied
      have listing : Listing memory this document .array [] holder none :=
        .empty inside held owned value_eq size_eq (sort.imp_right And.left)
      obtain ⟨rfl, first, grown, list⟩ :=
        grown_of_copyItems exact items faithful listing contained fits copied
      refine ⟨rfl, fun other element other_ne held => grown.frame other element other_ne
        (Option.some_ne_none _).symm held, ⟨_, grown.this_held, rfl, rfl, rfl, ?_⟩, grown.fits,
        grown.contained⟩
      refine ⟨?_, ?_, first, rfl, list⟩
      · rcases sort with array | ⟨-, nonempty⟩
        · simp only [array, ite_self]
        · cases items with
          | nil => cases nonempty
          | cons => rfl
      · simp only [size_eq, Nat.zero_add]
  | .object members, memory, after, this, document, room, holder, thrown, faithful, receives,
      inside, held, owned, contained, fits, copied => by
      obtain ⟨value_eq, size_eq, sort⟩ := receives
      rw [Tree.Faithful] at faithful
      rw [copy] at copied
      have listing : Listing memory this document .object [] holder none :=
        .empty inside held owned value_eq size_eq (sort.imp_right And.left)
      obtain ⟨rfl, first, grown, list⟩ := grown_of_copyMembers exact members faithful listing
        (fun _ member => by cases member) contained fits copied
      refine ⟨rfl, fun other element other_ne held => grown.frame other element other_ne
        (Option.some_ne_none _).symm held, ⟨_, grown.this_held, rfl, rfl, rfl, ?_⟩, grown.fits,
        grown.contained⟩
      refine ⟨?_, ?_, first, rfl, list⟩
      · rcases sort with object | ⟨-, nonempty⟩
        · simp only [object, ite_self]
        · cases members with
          | nil => cases nonempty
          | cons => rfl
      · simp only [size_eq, Nat.zero_add]

theorem grown_of_copyItems (exact : bools → ∀ value, ofBool value = .ofBool value) :
    ∀ (items : Items) {memory after : Memory} {this : Address} {document room : Nat}
    {holder : MutableElement} {thrown : Option JsonError} {nodes : List Address} {head : Pointer},
    items.Faithful bools →
    Listing memory this document .array nodes holder head → memory.Contained →
    memory.Fits document (items.nodes + room) →
    copyItems fuel ofBool items nodes.length memory this = some (after, thrown) →
    thrown = none ∧ ∃ first,
      Grown memory after this document .array nodes items.length room holder first ∧
      after.ShowsItems (memory.Unused document) items first
  | .nil, _, _, _, _, _, _, _, _, _, _, listing, contained, fits, copied => by
      rw [copyItems] at copied
      obtain ⟨rfl, rfl⟩ := Prod.mk.inj (Option.some.inj copied)
      exact ⟨rfl, none, .refl listing (fits.mono (Nat.le_add_left _ _)) contained, rfl⟩
  | .cons item rest, memory, after, this, document, room, holder, thrown, nodes, head, faithful,
      listing, contained, fits, copied => by
      simp only [Items.Faithful] at faithful
      obtain ⟨nonempty, item_faithful, rest_faithful⟩ := faithful
      simp only [copyItems, Option.bind_eq_bind, Option.bind_eq_some_iff] at copied
      obtain ⟨outcome, at_eq, copied⟩ := copied
      cases outcome with
      | error =>
          obtain ⟨not_array, not_null⟩ := atIndex_error at_eq (get_of_held listing.this_held)
          exact (listing.sort.elim not_array not_null).elim
      | ok found =>
          obtain ⟨middle, added⟩ := found
          simp only [Option.bind_eq_some_iff, Prod.exists] at copied
          obtain ⟨between, thrown', copy_eq, copied⟩ := copied
          have fits' : memory.Fits document (item.nodes + (rest.nodes + room) + 1) := by
            refine fits.mono ?_
            simp only [Items.nodes]
            omega
          obtain ⟨inside, fresh, grown, new⟩ := atIndex_grown listing contained fits' at_eq
          obtain ⟨rfl, copied_eq⟩ := copied_of_copy exact item item_faithful
            (MutableElement.receives_fresh nonempty) inside new rfl grown.contained grown.fits
            copy_eq
          obtain ⟨between_head, between_listing⟩ := listing.entry grown fresh new rfl copied_eq
          have length_eq : (nodes ++ [added]).length = nodes.length + 1 := List.length_append
          rw [Option.isSome_none, if_neg Bool.false_ne_true, ← length_eq] at copied
          obtain ⟨rfl, next, rest_grown, list⟩ := grown_of_copyItems exact rest rest_faithful
            between_listing copied_eq.contained copied_eq.fits copied
          obtain ⟨whole, shown, shown_held, rfl, -, shows⟩ :=
            Grown.cons listing grown fresh new copied_eq rest_grown
          refine ⟨rfl, some added, whole, ?_⟩
          simp only [ShowsItems]
          exact ⟨added, shown, rfl, ⟨inside, fresh⟩, shown_held, shows,
            list.frame (fun _ _ _ held => held)
              fun _ unused => grown.unused (copied_eq.unused new unused)⟩

theorem grown_of_copyMembers (exact : bools → ∀ value, ofBool value = .ofBool value) :
    ∀ (members : Members) {memory after : Memory} {this : Address} {document room : Nat}
    {holder : MutableElement} {thrown : Option JsonError} {nodes : List Address} {head : Pointer},
    members.Faithful bools → Listing memory this document .object nodes holder head →
    memory.Keyed nodes members.keys → memory.Contained →
    memory.Fits document (members.nodes + room) →
    copyMembers fuel ofBool members memory this = some (after, thrown) →
    thrown = none ∧ ∃ first,
      Grown memory after this document .object nodes members.length room holder first ∧
      after.ShowsMembers (memory.Unused document) members first
  | .nil, _, _, _, _, _, _, _, _, _, _, listing, _, contained, fits, copied => by
      rw [copyMembers] at copied
      obtain ⟨rfl, rfl⟩ := Prod.mk.inj (Option.some.inj copied)
      exact ⟨rfl, none, .refl listing (fits.mono (Nat.le_add_left _ _)) contained, rfl⟩
  | .cons key value rest, memory, after, this, document, room, holder, thrown, nodes, head,
      faithful, listing, keyed, contained, fits, copied => by
      simp only [Members.Faithful] at faithful
      obtain ⟨free, once, nonempty, value_faithful, rest_faithful⟩ := faithful
      simp only [copyMembers, Option.bind_eq_bind, Option.bind_eq_some_iff] at copied
      obtain ⟨outcome, at_eq, copied⟩ := copied
      cases outcome with
      | error =>
          obtain ⟨not_object, not_null⟩ := atKey_error at_eq (get_of_held listing.this_held)
          exact (listing.sort.elim not_object not_null).elim
      | ok found =>
          obtain ⟨middle, added⟩ := found
          simp only [Option.bind_eq_some_iff, Prod.exists] at copied
          obtain ⟨between, thrown', copy_eq, copied⟩ := copied
          have fits' : memory.Fits document (value.nodes + (rest.nodes + room) + 1) := by
            refine fits.mono ?_
            simp only [Members.nodes]
            omega
          obtain ⟨inside, fresh, grown, new⟩ :=
            atKey_grown listing contained fits' keyed at_eq
          rw [cString_of_free free] at new
          obtain ⟨rfl, copied_eq⟩ := copied_of_copy exact value value_faithful
            (MutableElement.receives_fresh nonempty) inside new rfl grown.contained grown.fits
            copy_eq
          obtain ⟨between_head, between_listing⟩ := listing.entry grown fresh new rfl copied_eq
          rw [Option.isSome_none, if_neg Bool.false_ne_true] at copied
          obtain ⟨rfl, next, rest_grown, list⟩ := grown_of_copyMembers exact rest rest_faithful
            between_listing (keyed.grow listing grown new rfl once copied_eq) copied_eq.contained
            copied_eq.fits copied
          obtain ⟨whole, shown, shown_held, rfl, key_eq, shows⟩ :=
            Grown.cons listing grown fresh new copied_eq rest_grown
          refine ⟨rfl, some added, whole, ?_⟩
          simp only [ShowsMembers]
          exact ⟨added, shown, rfl, ⟨inside, fresh⟩, shown_held, key_eq, shows,
            list.frame (fun _ _ _ held => held)
              fun _ unused => grown.unused (copied_eq.unused new unused)⟩

end

/-! ## `copy` returns -/

mutual

/-- With fuel for every element of the tree, `copy` returns. -/
theorem copy_total (exact : bools → ∀ value, ofBool value = .ofBool value) :
    ∀ (tree : Tree) {memory : Memory} {this : Address} {document room : Nat}
    {holder : MutableElement},
    tree.Faithful bools → holder.Receives tree → this.document = some document →
    memory.held this = some holder → holder.document = some document → memory.Contained →
    memory.Fits document (tree.nodes + room) → tree.nodes ≤ fuel →
    ∃ result, copy fuel ofBool tree memory this = some result
  | .bool _, _, _, _, _, _, faithful, _, _, held, owned, _, fits, _ =>
      copy_leaf_total exact rfl faithful held
        (fun _ known => (Option.some.inj (owned.symm.trans known)).symm) fits
  | .int64 _, _, _, _, _, _, faithful, _, _, held, owned, _, fits, _ =>
      copy_leaf_total exact rfl faithful held
        (fun _ known => (Option.some.inj (owned.symm.trans known)).symm) fits
  | .uint64 _, _, _, _, _, _, faithful, _, _, held, owned, _, fits, _ =>
      copy_leaf_total exact rfl faithful held
        (fun _ known => (Option.some.inj (owned.symm.trans known)).symm) fits
  | .double _, _, _, _, _, _, faithful, _, _, held, owned, _, fits, _ =>
      copy_leaf_total exact rfl faithful held
        (fun _ known => (Option.some.inj (owned.symm.trans known)).symm) fits
  | .null, _, _, _, _, _, faithful, _, _, held, owned, _, fits, _ =>
      copy_leaf_total exact rfl faithful held
        (fun _ known => (Option.some.inj (owned.symm.trans known)).symm) fits
  | .string _, _, _, _, _, _, faithful, _, _, held, owned, _, fits, _ =>
      copy_leaf_total exact rfl faithful held
        (fun _ known => (Option.some.inj (owned.symm.trans known)).symm) fits
  | .array items, _, _, _, _, _, faithful, receives, inside, held, owned, contained, fits,
      enough => by
      rw [Tree.Faithful] at faithful
      rw [copy]
      refine copyItems_total exact items faithful (.empty inside held owned receives.1 receives.2.1
        (receives.2.2.imp_right And.left)) contained fits ?_
      rwa [List.length_nil, Nat.zero_add]
  | .object members, _, _, _, _, _, faithful, receives, inside, held, owned, contained, fits,
      enough => by
      rw [Tree.Faithful] at faithful
      rw [copy]
      refine copyMembers_total exact members faithful (.empty inside held owned receives.1
        receives.2.1 (receives.2.2.imp_right And.left)) (fun _ member => by cases member) contained
        fits ?_
      rwa [List.length_nil, Nat.zero_add]

theorem copyItems_total (exact : bools → ∀ value, ofBool value = .ofBool value) :
    ∀ (items : Items) {memory : Memory} {this : Address} {document room : Nat}
    {holder : MutableElement} {nodes : List Address} {head : Pointer},
    items.Faithful bools → Listing memory this document .array nodes holder head →
    memory.Contained → memory.Fits document (items.nodes + room) →
    nodes.length + items.nodes ≤ fuel →
    ∃ result, copyItems fuel ofBool items nodes.length memory this = some result
  | .nil, _, _, _, _, _, _, _, _, _, _, _, _ => ⟨_, by rw [copyItems]⟩
  | .cons item rest, memory, this, document, room, holder, nodes, head, faithful, listing,
      contained, fits, enough => by
      simp only [Items.Faithful] at faithful
      obtain ⟨nonempty, item_faithful, rest_faithful⟩ := faithful
      simp only [Items.nodes] at fits enough
      have fits' : memory.Fits document (item.nodes + (rest.nodes + room) + 1) :=
        fits.mono (by omega)
      obtain ⟨outcome, at_eq⟩ := atIndex_total fuel listing fits' (by omega)
      rw [copyItems, at_eq]
      cases outcome with
      | error error => exact ⟨_, rfl⟩
      | ok found =>
          obtain ⟨middle, added⟩ := found
          obtain ⟨inside, fresh, grown, new⟩ := atIndex_grown listing contained fits' at_eq
          obtain ⟨⟨between, thrown⟩, copy_eq⟩ := copy_total exact item item_faithful
            (MutableElement.receives_fresh nonempty) inside new rfl grown.contained grown.fits
            (by omega)
          obtain ⟨rfl, copied_eq⟩ := copied_of_copy exact item item_faithful
            (MutableElement.receives_fresh nonempty) inside new rfl grown.contained grown.fits
            copy_eq
          obtain ⟨between_head, between_listing⟩ := listing.entry grown fresh new rfl copied_eq
          have length_eq : (nodes ++ [added]).length = nodes.length + 1 := List.length_append
          obtain ⟨result, result_eq⟩ := copyItems_total exact rest rest_faithful
            between_listing copied_eq.contained copied_eq.fits (by omega)
          rw [length_eq] at result_eq
          simp only [copy_eq, result_eq, Option.bind_eq_bind, Option.bind_some, Option.isSome_none,
            Bool.false_eq_true, if_false]
          exact ⟨result, rfl⟩

theorem copyMembers_total (exact : bools → ∀ value, ofBool value = .ofBool value) :
    ∀ (members : Members) {memory : Memory} {this : Address} {document room : Nat}
    {holder : MutableElement} {nodes : List Address} {head : Pointer},
    members.Faithful bools → Listing memory this document .object nodes holder head →
    memory.Keyed nodes members.keys → memory.Contained →
    memory.Fits document (members.nodes + room) → nodes.length + members.nodes ≤ fuel →
    ∃ result, copyMembers fuel ofBool members memory this = some result
  | .nil, _, _, _, _, _, _, _, _, _, _, _, _, _ => ⟨_, by rw [copyMembers]⟩
  | .cons key value rest, memory, this, document, room, holder, nodes, head, faithful, listing,
      keyed, contained, fits, enough => by
      simp only [Members.Faithful] at faithful
      obtain ⟨free, once, nonempty, value_faithful, rest_faithful⟩ := faithful
      simp only [Members.nodes] at fits enough
      have fits' : memory.Fits document (value.nodes + (rest.nodes + room) + 1) :=
        fits.mono (by omega)
      obtain ⟨outcome, at_eq⟩ := atKey_total fuel key listing fits' keyed (by omega)
      rw [copyMembers, at_eq]
      cases outcome with
      | error error => exact ⟨_, rfl⟩
      | ok found =>
          obtain ⟨middle, added⟩ := found
          obtain ⟨inside, fresh, grown, new⟩ := atKey_grown listing contained fits' keyed at_eq
          rw [cString_of_free free] at new
          obtain ⟨⟨between, thrown⟩, copy_eq⟩ := copy_total exact value value_faithful
            (MutableElement.receives_fresh nonempty) inside new rfl grown.contained grown.fits
            (by omega)
          obtain ⟨rfl, copied_eq⟩ := copied_of_copy exact value value_faithful
            (MutableElement.receives_fresh nonempty) inside new rfl grown.contained grown.fits
            copy_eq
          obtain ⟨between_head, between_listing⟩ := listing.entry grown fresh new rfl copied_eq
          have length_eq : (nodes ++ [added]).length = nodes.length + 1 := List.length_append
          obtain ⟨result, result_eq⟩ := copyMembers_total exact rest rest_faithful
            between_listing (keyed.grow listing grown new rfl once copied_eq) copied_eq.contained
            copied_eq.fits (by omega)
          simp only [copy_eq, result_eq, Option.bind_eq_bind, Option.bind_some, Option.isSome_none,
            Bool.false_eq_true, if_false]
          exact ⟨result, rfl⟩

end

end Memory

end ReactiveToolbox.Util.Json
