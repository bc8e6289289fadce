import Mathlib.Data.List.Infix
import Mathlib.Data.List.Nodup
import ReactiveToolbox.Lib.Machine

/-!
# Hooks

`dispatch` goes along a list of hooks with an iterator to the hook behind the one that it
calls, so that each of them may unlink itself and append other hooks to the list.
-/

namespace ReactiveToolbox.Io

open ReactiveToolbox.Lib

universe u

/--
The intrusive list of the hooks, with what is relied on of it.  An iterator is a hook of
the list or none at its end, and `++` goes to the hook that is then behind it.
-/
structure IntrusiveList (Hook : Type u) [DecidableEq Hook] where
  State : Type u
  hooks : State → List Hook
  begin : State → Option Hook
  next : State → Hook → Option Hook
  pushBack : State → Hook → State
  unlink : State → Hook → State
  nodup : ∀ list, (hooks list).Nodup
  begin_eq : ∀ list, begin list = (hooks list).head?
  next_eq : ∀ list before hook after, hooks list = before ++ hook :: after →
    next list hook = after.head?
  hooks_pushBack : ∀ list hook, hook ∉ hooks list →
    hooks (pushBack list hook) = hooks list ++ [hook]
  hooks_unlink : ∀ list hook, hook ∈ hooks list →
    hooks (unlink list hook) = (hooks list).erase hook

variable {Hook : Type u} [DecidableEq Hook]

/-- Such a list as its hooks alone, which are found by going along it. -/
def IntrusiveList.plain (Hook : Type u) [DecidableEq Hook] : IntrusiveList Hook where
  State := { hooks : List Hook // hooks.Nodup }
  hooks := Subtype.val
  begin list := list.val.head?
  next list hook := (list.val.drop (list.val.idxOf hook + 1)).head?
  pushBack list hook :=
    if linked : hook ∈ list.val then list
    else ⟨list.val ++ [hook], List.nodup_append.mpr
      ⟨list.property, List.nodup_singleton hook, fun _ member _ same equal =>
        linked (List.mem_singleton.mp same ▸ equal ▸ member)⟩⟩
  unlink list hook := ⟨list.val.erase hook, list.property.erase hook⟩
  nodup := Subtype.property
  begin_eq _ := rfl
  next_eq := by
    rintro ⟨hooks, nodup⟩ before hook after rfl
    have absent : hook ∉ before := fun member =>
      List.disjoint_of_nodup_append nodup member List.mem_cons_self
    change ((before ++ hook :: after).drop ((before ++ hook :: after).idxOf hook + 1)).head? = _
    rw [List.idxOf_append_of_notMem absent, List.idxOf_cons_self, List.append_cons,
      Nat.add_zero, List.drop_left' (by rw [List.length_append, List.length_singleton])]
  hooks_pushBack list hook unlinked := by rw [dif_neg unlinked]
  hooks_unlink _ _ _ := rfl

/--
What the slot of a hook does from some state of the list on: it may unlink the hook
itself and append hooks that are not linked, and returns or throws in the end.  A hook
without a slot returns at once.
-/
inductive Callback (lists : IntrusiveList Hook) (own : Hook) : lists.State → Type u where
  | returned {list : lists.State} : Callback lists own list
  | threw {list : lists.State} : Callback lists own list
  | unlink {list : lists.State} (linked : own ∈ lists.hooks list)
      (rest : Callback lists own (lists.unlink list own)) : Callback lists own list
  | append {list : lists.State} (hook : Hook) (unlinked : hook ∉ lists.hooks list)
      (rest : Callback lists own (lists.pushBack list hook)) : Callback lists own list

/-- How a slot has ended, with the list then, and the hooks it has appended. -/
structure Invoked (lists : IntrusiveList Hook) where
  list : lists.State
  appended : List Hook
  threw : Bool

namespace Callback

variable {lists : IntrusiveList Hook} {own : Hook}

/-- What a callback leaves of the list. -/
def invoke : {list : lists.State} → Callback lists own list → Invoked lists
  | list, .returned => { list, appended := [], threw := false }
  | list, .threw => { list, appended := [], threw := true }
  | _, .unlink _ rest => rest.invoke
  | _, .append hook _ rest => { rest.invoke with appended := hook :: rest.invoke.appended }

end Callback

/--
The list and the iterator of a `dispatch` between two rounds, with the hooks it has
called, those that have been appended, and the exceptions it has logged.
-/
structure HookDispatch (lists : IntrusiveList Hook) where
  list : lists.State
  it : Option Hook
  called : List Hook
  appended : List Hook
  logged : List Hook

namespace HookDispatch

variable {lists : IntrusiveList Hook}

/-- The loop of `dispatch` stands at the first hook. -/
def start (list : lists.State) : HookDispatch lists where
  list := list
  it := lists.begin list
  called := []
  appended := []
  logged := []

/-- The slots, which may do another thing each time. -/
abbrev Slots (lists : IntrusiveList Hook) : Type u :=
  (before : HookDispatch lists) → (own : Hook) → Callback lists own before.list

/-- A round of the loop, which goes on to the next hook before it calls this one. -/
def step (slots : Slots lists) (self : HookDispatch lists) : Option (HookDispatch lists) :=
  match self.it with
  | none => none
  | some prev =>
      let invoked := (slots self prev).invoke
      some
        { list := invoked.list
          it := lists.next self.list prev
          called := self.called ++ [prev]
          appended := self.appended ++ invoked.appended
          logged := if invoked.threw then self.logged ++ [prev] else self.logged }

/-- What a `dispatch` comes by. -/
def Reaches (slots : Slots lists) (list : lists.State) (state : HookDispatch lists) : Prop :=
  Relation.ReflTransGen (Moves (step slots)) (start list) state

/-- All of the slots together append finitely many hooks. -/
def AppendsFinitely (slots : Slots lists) (list : lists.State) : Prop :=
  ∃ bound, ∀ state, Reaches slots list state → state.appended.length ≤ bound

variable {slots : Slots lists} {list : lists.State} {state after final : HookDispatch lists}

/-! ## A single slot -/

/-- A slot leaves the hooks behind its own as they are, and what it appends is behind them. -/
theorem hooks_invoke {own : Hook} {list : lists.State} (callback : Callback lists own list)
    {front behind added : List Hook} (linked : lists.hooks list = front ++ (behind ++ added))
    (other : own ∉ behind) :
    ∃ front' added', lists.hooks callback.invoke.list = front' ++ (behind ++ added') ∧
      added'.Sublist (added ++ callback.invoke.appended) := by
  induction callback generalizing front added with
  | returned => exact ⟨front, added, linked, List.sublist_append_left _ _⟩
  | threw => exact ⟨front, added, linked, List.sublist_append_left _ _⟩
  | @unlink list member rest continued =>
      have erased := lists.hooks_unlink list own member
      rw [linked] at erased
      by_cases ahead : own ∈ front
      · rw [List.erase_append_left _ ahead] at erased
        exact continued erased
      · rw [List.erase_append_right _ ahead, List.erase_append_right _ other] at erased
        obtain ⟨front', added', left, fewer⟩ := continued erased
        exact ⟨front', added', left, fewer.trans (List.erase_sublist.append_right _)⟩
  | @append list hook unlinked rest continued =>
      have pushed := lists.hooks_pushBack list hook unlinked
      rw [linked, List.append_assoc, List.append_assoc] at pushed
      obtain ⟨front', added', left, fewer⟩ := continued pushed
      rw [List.append_assoc] at fewer
      exact ⟨front', added', left, fewer⟩

/-! ## A run -/

/--
The hooks that are still due are the end of the list, from the iterator on, and begin
with those that were linked at the start.
-/
def Tracks (list : lists.State) (state : HookDispatch lists) : Prop :=
  ∃ front rest later, state.called ++ rest = lists.hooks list ++ later ∧
    later.Sublist state.appended ∧ state.it = rest.head? ∧
    (rest ≠ [] → lists.hooks state.list = front ++ rest)

theorem tracks_start (list : lists.State) : Tracks list (start list) :=
  ⟨[], lists.hooks list, [], (List.append_nil _).symm, List.Sublist.refl _, lists.begin_eq list,
    fun _ => rfl⟩

theorem tracks_step (tracks : Tracks list state) (moved : step slots state = some after) :
    Tracks list after := by
  obtain ⟨front, rest, later, order, fewer, it, linked⟩ := tracks
  unfold step at moved
  split at moved
  · cases moved
  · rename_i prev here
    obtain rfl := Option.some.inj moved
    rw [here] at it
    obtain ⟨behind, rfl⟩ := List.head?_eq_some_iff.mp it.symm
    have place := linked (List.cons_ne_nil _ _)
    have more : later.Sublist (state.appended ++ (slots state prev).invoke.appended) :=
      fewer.trans (List.sublist_append_left _ _)
    cases behind with
    | nil =>
        refine ⟨[], [], later, ?_, more, lists.next_eq _ _ _ _ place, fun due => absurd rfl due⟩
        rw [List.append_nil]
        exact order
    | cons next behind =>
        have nodup := lists.nodup state.list
        rw [place] at nodup
        have other := (List.nodup_cons.mp (List.nodup_append.mp nodup).2.1).1
        have split : lists.hooks state.list = (front ++ [prev]) ++ ((next :: behind) ++ []) := by
          rw [place, List.append_nil, List.append_assoc]
          rfl
        obtain ⟨front', added, left, appended⟩ := hooks_invoke (slots state prev) split other
        have onward : lists.next state.list prev = some next := lists.next_eq _ _ _ _ place
        refine ⟨front', next :: behind ++ added, later ++ added, ?_, fewer.append appended,
          onward, fun _ => left⟩
        rw [← List.append_assoc, ← List.append_assoc, List.append_assoc state.called,
          List.singleton_append, order]

theorem tracks_reached (reached : Reaches slots list state) : Tracks list state := by
  induction reached with
  | refl => exact tracks_start list
  | tail _ moved tracks => exact tracks_step tracks moved

/-- The calls of a `dispatch` are no more than the hooks of the list and the appended ones. -/
theorem length_called_le (tracks : Tracks list state) :
    state.called.length ≤ (lists.hooks list).length + state.appended.length := by
  obtain ⟨front, rest, later, order, fewer, -, -⟩ := tracks
  have lengths := congrArg List.length order
  have bound := fewer.length_le
  rw [List.length_append, List.length_append] at lengths
  omega

theorem length_called_step (moved : step slots state = some after) :
    after.called.length = state.called.length + 1 := by
  unfold step at moved
  split at moved
  · cases moved
  · obtain rfl := Option.some.inj moved
    exact List.length_append

theorem ends_of_appendsFinitely (finite : AppendsFinitely slots list) :
    ∃ final, Ends (step slots) (start list) final := by
  obtain ⟨bound, bounded⟩ := finite
  have counted : ∀ state, Reaches slots list state →
      state.called.length ≤ (lists.hooks list).length + bound := by
    intro state reached
    have calls := length_called_le (tracks_reached reached)
    have appends := bounded state reached
    omega
  refine ends_of_wellFounded (step slots) Nat.lt_wfRel.wf
    (fun state => (lists.hooks list).length + bound - state.called.length) (Reaches slots list)
    (fun _ _ reached moved => reached.tail moved) ?_ (start list) .refl
  intro state next reached moved
  have grown := length_called_step moved
  have last := counted next (reached.tail moved)
  change _ - _ < _ - _
  omega

/--
For every list and whatever its slots do: `dispatch` ends if and only if the slots append
finitely many hooks, and has then called the hooks of the list once each and in order,
and behind them some of those that were appended, as often at most as they were.  At no
time does it call a hook that is not linked.
-/
theorem dispatch_correct (slots : Slots lists) (list : lists.State) :
    ((∃ final, Ends (step slots) (start list) final) ↔ AppendsFinitely slots list) ∧
      (∀ final, Ends (step slots) (start list) final →
        ∃ later, final.called = lists.hooks list ++ later ∧ later.Sublist final.appended) ∧
      ∀ state, Reaches slots list state →
        (∀ hook, state.it = some hook → hook ∈ lists.hooks state.list) ∧
        ∃ later, state.called <+: lists.hooks list ++ later ∧ later.Sublist state.appended := by
  refine ⟨⟨?_, ends_of_appendsFinitely⟩, fun final ends => ?_, fun state reached => ?_⟩
  · rintro ⟨final, ends⟩
    exact ends.bounded fun state => state.appended.length
  · obtain ⟨front, rest, later, order, fewer, it, -⟩ :=
      ends.invariant (fun _ _ => tracks_step) (tracks_start list)
    have stopped := ends.stopped
    unfold step at stopped
    split at stopped
    · rename_i here
      rw [here] at it
      obtain rfl := List.head?_eq_none_iff.mp it.symm
      rw [List.append_nil] at order
      exact ⟨later, order, fewer⟩
    · cases stopped
  · obtain ⟨front, rest, later, order, fewer, it, linked⟩ := tracks_reached reached
    refine ⟨fun hook here => ?_, later, order ▸ List.prefix_append _ _, fewer⟩
    rw [here] at it
    obtain ⟨behind, rfl⟩ := List.head?_eq_some_iff.mp it.symm
    rw [linked (List.cons_ne_nil _ _)]
    exact List.mem_append_right _ List.mem_cons_self

/-! ## Slots that never come to an end -/

/-- A slot that moves its hook to the end of the list. -/
def requeue (lists : IntrusiveList Hook) : Slots lists := fun before own =>
  if linked : own ∈ lists.hooks before.list then
    .unlink linked <| .append own (by
      rw [lists.hooks_unlink _ _ linked]
      exact (lists.nodup _).not_mem_erase) .returned
  else .returned

/-- Each of them goes to the end of the list, and the next one is due. -/
theorem step_requeue {state : HookDispatch lists} {first second : Hook} {rest : List Hook}
    (linked : lists.hooks state.list = first :: second :: rest) (it : state.it = some first) :
    ∃ next, step (requeue lists) state = some next ∧ next.it = some second ∧
      lists.hooks next.list = second :: rest ++ [first] := by
  have member : first ∈ lists.hooks state.list := by
    rw [linked]
    exact List.mem_cons_self
  have unlinked : lists.hooks (lists.unlink state.list first) = second :: rest := by
    rw [lists.hooks_unlink _ _ member, linked, List.erase_cons_head]
  have gone : first ∉ lists.hooks (lists.unlink state.list first) := by
    rw [lists.hooks_unlink _ _ member]
    exact (lists.nodup _).not_mem_erase
  have onward : lists.next state.list first = some second := lists.next_eq _ [] _ _ linked
  have invoked : (requeue lists state first).invoke =
      { list := lists.pushBack (lists.unlink state.list first) first
        appended := [first]
        threw := false } := by
    rw [requeue, dif_pos member]
    rfl
  have moved : step (requeue lists) state = some
      { list := lists.pushBack (lists.unlink state.list first) first
        it := some second
        called := state.called ++ [first]
        appended := state.appended ++ [first]
        logged := state.logged } := by
    unfold step
    rw [it]
    simp only [invoked, onward, Bool.false_eq_true, if_false]
  refine ⟨_, moved, rfl, ?_⟩
  rw [lists.hooks_pushBack _ first gone, unlinked]

/-- Two hooks that go on like that are called for ever, though each appends one at a time. -/
theorem not_ends_requeue (several : 2 ≤ (lists.hooks list).length) :
    ¬Ends (step (requeue lists)) (start list) final := by
  refine not_ends_of_recurs (fun state => state.it = (lists.hooks state.list).head? ∧
    2 ≤ (lists.hooks state.list).length) ?_ ⟨lists.begin_eq list, several⟩
  rintro state ⟨it, several⟩
  obtain ⟨first, second, rest, linked⟩ : ∃ first second rest,
      lists.hooks state.list = first :: second :: rest := by
    match lists.hooks state.list, several with
    | first :: second :: rest, _ => exact ⟨first, second, rest, rfl⟩
  rw [linked] at it
  obtain ⟨next, moved, begins, queued⟩ := step_requeue linked it
  refine ⟨next, .single moved, ?_, ?_⟩
  · rw [queued]
    exact begins
  · rw [queued, List.length_append, List.length_cons, List.length_singleton]
    omega

end HookDispatch

end ReactiveToolbox.Io
