import Mathlib.Data.List.Nodup

/-!
# Singly linked lists over a partial link function

The nodes of a list are addresses of any type.  At an address that holds no node
`link` is undefined; elsewhere it is the link that the node holds, which is null
at the end of a list.
-/

namespace ReactiveToolbox.Lib

universe u

variable {Address : Type u}

/-- The nodes met from `head` on until a link is null. -/
inductive LinkedChain (link : Address → Option (Option Address)) :
    Option Address → List Address → Prop where
  | nil : LinkedChain link none []
  | cons {first : Address} {next : Option Address} {nodes : List Address}
      (linked : link first = some next)
      (rest : LinkedChain link next nodes) :
      LinkedChain link (some first) (first :: nodes)

/-- A node is met from `head` on, whether or not the list ends. -/
inductive Reaches (link : Address → Option (Option Address)) :
    Option Address → Address → Prop where
  | first {node : Address} : Reaches link (some node) node
  | later {first node : Address} {next : Option Address}
      (linked : link first = some next)
      (reached : Reaches link next node) :
      Reaches link (some first) node

namespace LinkedChain

variable
    {link link' : Address → Option (Option Address)}
    {head : Option Address}
    {nodes before after : List Address}
    {node added : Address}

theorem head_eq (chain : LinkedChain link head nodes) : head = nodes.head? := by
  cases chain <;> rfl

/-- An address begins at most one list. -/
theorem unique {others : List Address}
    (chain : LinkedChain link head nodes) (other : LinkedChain link head others) :
    nodes = others := by
  induction chain generalizing others with
  | nil =>
      cases other
      rfl
  | cons linked _ ih =>
      cases other with
      | cons linked' rest' =>
          have same := Option.some.inj (linked.symm.trans linked')
          subst same
          rw [ih rest']

theorem linked_of_mem (chain : LinkedChain link head nodes) (member : node ∈ nodes) :
    ∃ next, link node = some next := by
  induction chain with
  | nil => cases member
  | cons linked _ ih =>
      rcases List.mem_cons.mp member with rfl | later
      · exact ⟨_, linked⟩
      · exact ih later

/-- Links outside a list do not matter to it. -/
theorem congr (chain : LinkedChain link head nodes)
    (same : ∀ node ∈ nodes, link' node = link node) :
    LinkedChain link' head nodes := by
  induction chain with
  | nil => exact .nil
  | cons linked _ ih =>
      refine .cons ?_ (ih fun node member => same node (List.mem_cons_of_mem _ member))
      rw [same _ List.mem_cons_self]
      exact linked

/-- A list remains one where more addresses hold nodes. -/
theorem mono (chain : LinkedChain link head nodes)
    (weaker : ∀ node next, link node = some next → link' node = some next) :
    LinkedChain link' head nodes := by
  induction chain with
  | nil => exact .nil
  | cons linked _ ih => exact .cons (weaker _ _ linked) ih

theorem mem_of_reaches (chain : LinkedChain link head nodes) (reached : Reaches link head node) :
    node ∈ nodes := by
  induction reached generalizing nodes with
  | first =>
      cases chain
      exact List.mem_cons_self
  | later linked _ ih =>
      cases chain with
      | cons linked' rest =>
          obtain rfl := Option.some.inj (linked.symm.trans linked')
          exact List.mem_cons_of_mem _ (ih rest)

theorem suffix (chain : LinkedChain link head (before ++ node :: after)) :
    LinkedChain link (some node) (node :: after) := by
  induction before generalizing head with
  | nil =>
      have begins := chain.head_eq
      subst begins
      exact chain
  | cons _ _ ih =>
      cases chain with
      | cons _ rest => exact ih rest

/-- No node is met twice, so that a list that ends is free of cycles. -/
theorem nodup (chain : LinkedChain link head nodes) : nodes.Nodup := by
  induction chain with
  | nil => exact List.nodup_nil
  | @cons first next nodes linked rest ih =>
      refine List.nodup_cons.mpr ⟨fun member => ?_, ih⟩
      obtain ⟨before, after, split⟩ := List.append_of_mem member
      subst split
      -- Met again, the first node would begin a list shorter than its own.
      have again := rest.suffix.unique (.cons linked rest)
      have lengths := congrArg List.length again
      simp only [List.length_cons, List.length_append] at lengths
      omega

theorem link_last (chain : LinkedChain link head (before ++ [node])) :
    link node = some none := by
  cases chain.suffix with
  | cons linked rest =>
      cases rest
      exact linked

private theorem append_congr
    (chain : LinkedChain link head (before ++ node :: after))
    (same : ∀ other ∈ before, link' other = link other)
    {tail : List Address} (rest : LinkedChain link' (some node) (node :: tail)) :
    LinkedChain link' head (before ++ node :: tail) := by
  induction before generalizing head with
  | nil =>
      have begins := chain.head_eq
      subst begins
      exact rest
  | cons first before ih =>
      cases chain with
      | cons linked chain =>
          refine .cons ?_ (ih chain fun other member =>
            same other (List.mem_cons_of_mem _ member))
          rw [same first List.mem_cons_self]
          exact linked

theorem not_mem_before (chain : LinkedChain link head (before ++ node :: after)) :
    node ∉ before := by
  intro member
  exact List.disjoint_of_nodup_append chain.nodup member List.mem_cons_self

theorem not_mem_after (chain : LinkedChain link head (before ++ node :: after)) :
    node ∉ after :=
  (List.nodup_cons.mp chain.suffix.nodup).1

/-- Linking a new node in behind one of the list. -/
theorem insert
    (chain : LinkedChain link head (before ++ node :: after))
    (linked : link' node = some (some added))
    (continued : link' added = link node)
    (same : ∀ other ∈ before ++ node :: after, other ≠ node → link' other = link other) :
    LinkedChain link' head (before ++ node :: added :: after) := by
  refine chain.append_congr (fun other member => ?_) (.cons linked ?_)
  · refine same other (List.mem_append_left _ member) fun equal => ?_
    exact chain.not_mem_before (equal ▸ member)
  · cases chain.suffix with
    | cons next rest =>
        refine .cons (continued.trans next) (rest.congr fun other member => ?_)
        refine same other (List.mem_append_right _ (List.mem_cons_of_mem _ member)) fun equal => ?_
        exact chain.not_mem_after (equal ▸ member)

/-- Linking past a node takes it out of the list. -/
theorem remove
    (chain : LinkedChain link head (before ++ node :: added :: after))
    (past : link' node = link added)
    (same : ∀ other ∈ before ++ node :: added :: after, other ≠ node →
      link' other = link other) :
    LinkedChain link' head (before ++ node :: after) := by
  cases chain.suffix with
  | cons next rest =>
      have begins := rest.head_eq
      subst begins
      refine chain.append_congr (fun other member => ?_) ?_
      · refine same other (List.mem_append_left _ member) fun equal => ?_
        exact chain.not_mem_before (equal ▸ member)
      · cases rest with
        | cons next' rest =>
            refine .cons (past.trans next') (rest.congr fun other member => ?_)
            refine same other (List.mem_append_right _
              (List.mem_cons_of_mem _ (List.mem_cons_of_mem _ member))) fun equal => ?_
            exact chain.not_mem_after (List.mem_cons_of_mem _ (equal ▸ member))

end LinkedChain

end ReactiveToolbox.Lib
