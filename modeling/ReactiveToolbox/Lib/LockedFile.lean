import Mathlib.Data.List.Basic
import Mathlib.Logic.Function.Basic
import Mathlib.Tactic.SplitIfs

/-!
# A name of a file, and its advisory locks

A name, the inodes that it may name one after another, and the open file descriptions of
them.  A description is shared by the processes that have it open.  It may have an exclusive
lock on its inode, which it gives up when the last of them closes it.
-/

namespace ReactiveToolbox.Lib

universe u

/-- An open file description. -/
structure Description where
  inode : Nat
  users : List Nat
  locked : Bool
  deriving DecidableEq

namespace Description

/-- One of the processes closes it. -/
def closedBy (description : Description) (user : Nat) : Description :=
  let users := description.users.filter fun other => other ≠ user
  { description with
    users := users
    locked := description.locked && !users.isEmpty }

/-- Another user has the descriptor as well. -/
def sharedWith (description : Description) (user : Nat) : Description :=
  { description with users := user :: description.users }

end Description

/-- A name with the inodes and their open descriptions, which are numbered. -/
structure LockedFile (α : Type u) where
  named : Option Nat
  text : Nat → List α
  descriptions : List Description

namespace LockedFile

variable {α : Type u} (file : LockedFile α)

/-- A file of a text, or none, that nobody has open. -/
def ofText (text : Option (List α)) : LockedFile α where
  named := text.map fun _ => 0
  text _ := text.getD []
  descriptions := []

/-- An inode that a description is open of is not given to another file. -/
def InUse (inode : Nat) : Prop :=
  ∃ description ∈ file.descriptions, description.users ≠ [] ∧ description.inode = inode

instance (inode : Nat) : Decidable (file.InUse inode) :=
  inferInstanceAs (Decidable (∃ description ∈ file.descriptions, _))

/-- A new description of an inode. -/
def describe (user inode : Nat) : LockedFile α :=
  { file with descriptions := file.descriptions ++ [⟨inode, [user], false⟩] }

/-- Opens the file of the name, which gets the spare inode if it has none. -/
def create (user spare : Nat) : Option (LockedFile α) :=
  match file.named with
  | some inode => some (file.describe user inode)
  | none =>
      if file.InUse spare then none
      else
        some (describe
          { file with named := some spare, text := Function.update file.text spare [] }
          user spare)

/-- No description has a lock on the inode. -/
def Lockable (inode : Nat) : Prop :=
  ∀ description ∈ file.descriptions, description.inode = inode → description.locked = false

instance (inode : Nat) : Decidable (file.Lockable inode) :=
  inferInstanceAs (Decidable (∀ description ∈ file.descriptions, _))

/-- A description is changed. -/
def change (fd : Nat) (by_ : Description → Description) : LockedFile α :=
  { file with descriptions := file.descriptions.modify fd by_ }

/-- An exclusive lock for a description. -/
def lock (fd : Nat) : LockedFile α :=
  file.change fd fun description => { description with locked := true }

/-- A user closes a descriptor. -/
def close (fd user : Nat) : LockedFile α :=
  file.change fd fun description => description.closedBy user

/-- A descriptor is passed on to another user. -/
def share (fd user : Nat) : LockedFile α :=
  file.change fd fun description => description.sharedWith user

/-- The path names no file any more. -/
def unlink : LockedFile α :=
  { file with named := none }

/-- The text of an inode is set. -/
def setText (inode : Nat) (text : List α) : LockedFile α :=
  { file with text := Function.update file.text inode text }

/-- The inode of a description. -/
def inodeOf (fd : Nat) : Option Nat :=
  file.descriptions[fd]?.map Description.inode

/-! ## Locks -/

variable {file} {fd other user inode : Nat} {description : Description}

/-- At most one description has a lock on an inode. -/
def Exclusive (file : LockedFile α) : Prop :=
  ∀ ⦃fd other : Nat⦄ ⦃first second : Description⦄, file.descriptions[fd]? = some first →
    file.descriptions[other]? = some second → first.locked → second.locked →
    first.inode = second.inode → fd = other

/-- A process has a description of an inode open. -/
def Has (file : LockedFile α) (user fd inode : Nat) : Prop :=
  ∃ description, file.descriptions[fd]? = some description ∧ description.inode = inode ∧
    user ∈ description.users

/-- A process has a description open that has the lock on its inode. -/
def Locks (file : LockedFile α) (user fd inode : Nat) : Prop :=
  ∃ description, file.descriptions[fd]? = some description ∧ description.inode = inode ∧
    user ∈ description.users ∧ description.locked

theorem Locks.has (locks : file.Locks user fd inode) : file.Has user fd inode := by
  obtain ⟨description, found, same, shares, -⟩ := locks
  exact ⟨description, found, same, shares⟩

theorem Has.inodeOf (has : file.Has user fd inode) : file.inodeOf fd = some inode := by
  obtain ⟨description, found, rfl, -⟩ := has
  rw [LockedFile.inodeOf, found]
  rfl

/-- Those that share a description have its lock together. -/
theorem Locks.of_has (locks : file.Locks user fd inode) {sharer otherInode : Nat}
    (has : file.Has sharer fd otherInode) : file.Locks sharer fd inode := by
  obtain ⟨description, found, same, -, locked⟩ := locks
  obtain ⟨another, lookup, -, shares⟩ := has
  obtain rfl := Option.some.inj (found.symm.trans lookup)
  exact ⟨description, found, same, shares, locked⟩

/-- Two locks of one inode are those of one description. -/
theorem Exclusive.eq_of_locks (exclusive : file.Exclusive) {first second : Nat}
    (locks : file.Locks first fd inode) (others : file.Locks second other inode) :
    fd = other := by
  obtain ⟨description, found, same, -, locked⟩ := locks
  obtain ⟨another, otherFound, otherSame, -, otherLocked⟩ := others
  exact exclusive found otherFound locked otherLocked (same.trans otherSame.symm)

/-! ## What operations keep -/

/-- A new description stands behind the others. -/
theorem describe_lookup (fd : Nat) :
    (file.describe user inode).descriptions[fd]? =
      if fd = file.descriptions.length then some ⟨inode, [user], false⟩
      else file.descriptions[fd]? := by
  rw [describe, List.getElem?_append]
  rcases Nat.lt_trichotomy fd file.descriptions.length with before | rfl | behind
  · rw [if_pos before, if_neg (Nat.ne_of_lt before)]
  · rw [if_neg (Nat.lt_irrefl _), Nat.sub_self, if_pos rfl]
    rfl
  · rw [if_neg (Nat.lt_asymm behind), if_neg (Nat.ne_of_gt behind),
      List.getElem?_eq_none (Nat.le_of_lt behind)]
    exact List.getElem?_eq_none (Nat.sub_pos_of_lt behind)

theorem describe_lookup_of_some (found : file.descriptions[fd]? = some description)
    (user inode : Nat) :
    (file.describe user inode).descriptions[fd]? = some description := by
  rw [describe_lookup, if_neg (Nat.ne_of_lt (List.getElem?_eq_some_iff.mp found).1)]
  exact found

theorem Has.describe (has : file.Has user fd inode) (newUser newInode : Nat) :
    (file.describe newUser newInode).Has user fd inode := by
  obtain ⟨description, found, rest⟩ := has
  exact ⟨description, describe_lookup_of_some found _ _, rest⟩

/-- A new description takes no lock away. -/
theorem Locks.describe (locks : file.Locks user fd inode) (newUser newInode : Nat) :
    (file.describe newUser newInode).Locks user fd inode := by
  obtain ⟨description, found, rest⟩ := locks
  exact ⟨description, describe_lookup_of_some found _ _, rest⟩

/-- A new description is its user's. -/
theorem has_describe (file : LockedFile α) (user inode : Nat) :
    (file.describe user inode).Has user file.descriptions.length inode := by
  refine ⟨⟨inode, [user], false⟩, ?_, rfl, List.mem_singleton_self user⟩
  rw [describe_lookup, if_pos rfl]

/-- A new description has no lock yet. -/
theorem Exclusive.describe (exclusive : file.Exclusive) (user inode : Nat) :
    (file.describe user inode).Exclusive := by
  intro fd other first second found otherFound locked otherLocked same
  rw [describe_lookup] at found otherFound
  split at found
  · cases found
    cases locked
  · split at otherFound
    · cases otherFound
      cases otherLocked
    · exact exclusive found otherFound locked otherLocked same

theorem inodeOf_describe (same : file.inodeOf fd = some inode) (user other : Nat) :
    (file.describe user other).inodeOf fd = some inode := by
  obtain ⟨description, found, rfl⟩ := Option.map_eq_some_iff.mp same
  rw [LockedFile.inodeOf, describe_lookup_of_some found]
  rfl

/-- A change of a description leaves the others. -/
theorem change_lookup (file : LockedFile α) (fd other : Nat)
    (by_ : Description → Description) :
    (file.change fd by_).descriptions[other]? =
      if fd = other then file.descriptions[other]?.map by_ else file.descriptions[other]? := by
  rw [change, List.getElem?_modify]
  split_ifs
  · rfl
  · exact Option.map_id'

/-- A change that keeps the inode of a description keeps those of all. -/
theorem inodeOf_change (same : file.inodeOf fd = some inode) (other : Nat)
    {by_ : Description → Description}
    (keeps : ∀ description, (by_ description).inode = description.inode) :
    (file.change other by_).inodeOf fd = some inode := by
  obtain ⟨description, found, rfl⟩ := Option.map_eq_some_iff.mp same
  rw [LockedFile.inodeOf, change_lookup, found]
  split
  · exact congrArg some (keeps description)
  · rfl

/-- A change that keeps the inode, and sets no lock, keeps the locks apart. -/
theorem Exclusive.change (exclusive : file.Exclusive) (fd : Nat)
    {by_ : Description → Description} (inode : ∀ description, (by_ description).inode =
      description.inode)
    (locked : ∀ description, (by_ description).locked → description.locked) :
    (file.change fd by_).Exclusive := by
  have before : ∀ {at_ : Nat} {found : Description},
      (file.change fd by_).descriptions[at_]? = some found → found.locked →
      ∃ old, file.descriptions[at_]? = some old ∧ old.locked ∧ old.inode = found.inode := by
    intro at_ found lookup isLocked
    rw [change_lookup] at lookup
    split at lookup
    · obtain ⟨old, oldLookup, rfl⟩ := Option.map_eq_some_iff.mp lookup
      exact ⟨old, oldLookup, locked old isLocked, (inode old).symm⟩
    · exact ⟨found, lookup, isLocked, rfl⟩
  intro first second one two firstLookup secondLookup firstLocked secondLocked same
  obtain ⟨old, oldLookup, oldLocked, oldInode⟩ := before firstLookup firstLocked
  obtain ⟨other, otherLookup, otherLocked, otherInode⟩ := before secondLookup secondLocked
  exact exclusive oldLookup otherLookup oldLocked otherLocked
    (oldInode.trans (same.trans otherInode.symm))

/-- A change keeps what a process has open, where it keeps the inode and the process. -/
theorem Has.change (has : file.Has user fd inode) {other : Nat}
    {by_ : Description → Description}
    (keeps : other = fd → ∀ description, user ∈ description.users →
      (by_ description).inode = description.inode ∧ user ∈ (by_ description).users) :
    (file.change other by_).Has user fd inode := by
  obtain ⟨description, found, same, shares⟩ := has
  by_cases equal : other = fd
  · obtain ⟨inode, still⟩ := keeps equal description shares
    refine ⟨by_ description, ?_, inode.trans same, still⟩
    rw [change_lookup, if_pos equal, found]
    rfl
  · refine ⟨description, ?_, same, shares⟩
    rw [change_lookup, if_neg equal]
    exact found

/-- A lock stays where a change of its description keeps it. -/
theorem Locks.change (locks : file.Locks user fd inode) {other : Nat}
    {by_ : Description → Description}
    (keeps : other = fd → ∀ description, user ∈ description.users → description.locked →
      (by_ description).inode = description.inode ∧ user ∈ (by_ description).users ∧
        (by_ description).locked) :
    (file.change other by_).Locks user fd inode := by
  obtain ⟨description, found, same, shares, locked⟩ := locks
  by_cases equal : other = fd
  · obtain ⟨inode, still⟩ := keeps equal description shares locked
    refine ⟨by_ description, ?_, inode.trans same, still⟩
    rw [change_lookup, if_pos equal, found]
    rfl
  · refine ⟨description, ?_, same, shares, locked⟩
    rw [change_lookup, if_neg equal]
    exact found

/-! ## Locking -/

theorem Has.lock (has : file.Has user fd inode) (other : Nat) :
    (file.lock other).Has user fd inode :=
  has.change fun _ _ shares => ⟨rfl, shares⟩

theorem Locks.lock (locks : file.Locks user fd inode) (other : Nat) :
    (file.lock other).Locks user fd inode :=
  locks.change fun _ _ shares _ => ⟨rfl, shares, rfl⟩

/-- A lock is had by who takes it. -/
theorem locks_lock (has : file.Has user fd inode) : (file.lock fd).Locks user fd inode := by
  obtain ⟨description, found, same, shares⟩ := has
  refine ⟨{ description with locked := true }, ?_, same, shares, rfl⟩
  rw [LockedFile.lock, change_lookup, if_pos rfl, found]
  rfl

/-- An inode that may be locked gets one lock. -/
theorem Exclusive.lock (exclusive : file.Exclusive) (has : file.Has user fd inode)
    (lockable : file.Lockable inode) : (file.lock fd).Exclusive := by
  obtain ⟨description, found, rfl, -⟩ := has
  -- the inode of the new lock has no other
  have only : ∀ {other : Nat} {second : Description}, fd ≠ other →
      (file.lock fd).descriptions[other]? = some second → second.locked →
      second.inode ≠ description.inode := by
    intro other second apart lookup locked same
    rw [LockedFile.lock, change_lookup, if_neg apart] at lookup
    have free := lockable second (List.mem_of_getElem? lookup) same
    rw [free] at locked
    cases locked
  have here : ∀ {second : Description}, (file.lock fd).descriptions[fd]? = some second →
      second.inode = description.inode := by
    intro second lookup
    rw [LockedFile.lock, change_lookup, if_pos rfl, found] at lookup
    cases lookup
    rfl
  intro first second one two firstLookup secondLookup firstLocked secondLocked same
  by_cases firstNew : fd = first
  · subst firstNew
    by_cases secondNew : fd = second
    · exact secondNew
    · exact absurd (same.symm.trans (here firstLookup)) (only secondNew secondLookup secondLocked)
  · by_cases secondNew : fd = second
    · subst secondNew
      exact absurd (same.trans (here secondLookup)) (only firstNew firstLookup firstLocked)
    · rw [LockedFile.lock, change_lookup, if_neg firstNew] at firstLookup
      rw [LockedFile.lock, change_lookup, if_neg secondNew] at secondLookup
      exact exclusive firstLookup secondLookup firstLocked secondLocked same

/-! ## Closing and sharing -/

theorem mem_closedBy {closer : Nat} (description : Description) (apart : user ≠ closer)
    (shares : user ∈ description.users) : user ∈ (description.closedBy closer).users :=
  List.mem_filter.mpr ⟨shares, decide_eq_true apart⟩

/-- What a process has open stays so when another closes what it has. -/
theorem Has.close (has : file.Has user fd inode) {other closer : Nat} (apart : user ≠ closer) :
    (file.close other closer).Has user fd inode :=
  has.change fun _ description shares => ⟨rfl, mem_closedBy description apart shares⟩

/-- Nobody loses a lock because another closes a descriptor. -/
theorem Locks.close (locks : file.Locks user fd inode) {other closer : Nat}
    (apart : user ≠ closer) : (file.close other closer).Locks user fd inode := by
  apply locks.change
  intro _ description shares locked
  have still := mem_closedBy description apart shares
  refine ⟨rfl, still, ?_⟩
  show (description.locked && _) = true
  rw [locked, Bool.true_and, Bool.not_eq_true', ← Bool.not_eq_true, List.isEmpty_iff]
  exact List.ne_nil_of_mem still

/-- To close a descriptor gives no lock. -/
theorem Exclusive.close (exclusive : file.Exclusive) (fd user : Nat) :
    (file.close fd user).Exclusive := by
  apply exclusive.change
  · exact fun _ => rfl
  · intro description locked
    exact (Bool.and_eq_true_iff.mp locked).1

theorem Has.share (has : file.Has user fd inode) (other newUser : Nat) :
    (file.share other newUser).Has user fd inode :=
  has.change fun _ _ shares => ⟨rfl, List.mem_cons_of_mem _ shares⟩

theorem Locks.share (locks : file.Locks user fd inode) (other newUser : Nat) :
    (file.share other newUser).Locks user fd inode :=
  locks.change fun _ _ shares locked => ⟨rfl, List.mem_cons_of_mem _ shares, locked⟩

/-- A descriptor that is passed on is that of one description still. -/
theorem Exclusive.share (exclusive : file.Exclusive) (fd user : Nat) :
    (file.share fd user).Exclusive :=
  exclusive.change fd (fun _ => rfl) fun _ locked => locked

theorem has_share (has : file.Has user fd inode) (newUser : Nat) :
    (file.share fd newUser).Has newUser fd inode := by
  obtain ⟨description, found, same, -⟩ := has
  refine ⟨description.sharedWith newUser, ?_, same, List.mem_cons_self⟩
  rw [LockedFile.share, change_lookup, if_pos rfl, found]
  rfl

/-! ## Who has what open -/

/-- A description is open for a process. -/
def Uses (file : LockedFile α) (fd user : Nat) : Prop :=
  ∃ description, file.descriptions[fd]? = some description ∧ user ∈ description.users

/-- Locks are only held for processes. -/
def Occupied (file : LockedFile α) : Prop :=
  ∀ ⦃fd : Nat⦄ ⦃description : Description⦄, file.descriptions[fd]? = some description →
    description.locked → ∃ user, file.Uses fd user

theorem Has.uses (has : file.Has user fd inode) : file.Uses fd user := by
  obtain ⟨description, found, -, shares⟩ := has
  exact ⟨description, found, shares⟩

/-- A new description has one user. -/
theorem Uses.of_describe {newUser newInode : Nat}
    (uses : (file.describe newUser newInode).Uses fd user) :
    file.Uses fd user ∨ fd = file.descriptions.length ∧ user = newUser := by
  obtain ⟨description, found, shares⟩ := uses
  rw [describe_lookup] at found
  split at found
  · rename_i new
    cases found
    exact .inr ⟨new, List.mem_singleton.mp shares⟩
  · exact .inl ⟨description, found, shares⟩

/-- A change that gives nobody a description leaves who has it. -/
theorem Uses.of_change {other : Nat} {by_ : Description → Description}
    (uses : (file.change other by_).Uses fd user)
    (had : ∀ description, user ∈ (by_ description).users → user ∈ description.users) :
    file.Uses fd user := by
  obtain ⟨description, found, shares⟩ := uses
  rw [change_lookup] at found
  split at found
  · obtain ⟨old, lookup, rfl⟩ := Option.map_eq_some_iff.mp found
    exact ⟨old, lookup, had old shares⟩
  · exact ⟨description, found, shares⟩

theorem Uses.of_lock {other : Nat} (uses : (file.lock other).Uses fd user) : file.Uses fd user :=
  uses.of_change fun _ shares => shares

theorem Uses.of_close {other closer : Nat} (uses : (file.close other closer).Uses fd user) :
    file.Uses fd user :=
  uses.of_change fun _ shares => (List.mem_filter.mp shares).1

/-- Who has closed a description does not have it any more. -/
theorem not_uses_close (file : LockedFile α) (fd user : Nat) :
    ¬(file.close fd user).Uses fd user := by
  rintro ⟨description, found, shares⟩
  rw [LockedFile.close, change_lookup, if_pos rfl] at found
  obtain ⟨old, -, rfl⟩ := Option.map_eq_some_iff.mp found
  exact of_decide_eq_true (List.mem_filter.mp shares).2 rfl

/-- A descriptor that is passed on has one user more. -/
theorem Uses.of_share {other newUser : Nat} (uses : (file.share other newUser).Uses fd user) :
    file.Uses fd user ∨ fd = other ∧ user = newUser := by
  obtain ⟨description, found, shares⟩ := uses
  rw [LockedFile.share, change_lookup] at found
  split at found
  · rename_i same
    obtain ⟨old, lookup, rfl⟩ := Option.map_eq_some_iff.mp found
    rcases List.mem_cons.mp shares with new | before
    · exact .inr ⟨same.symm, new⟩
    · exact .inl ⟨old, lookup, before⟩
  · exact .inl ⟨description, found, shares⟩

theorem Occupied.describe (occupied : file.Occupied) (user inode : Nat) :
    (file.describe user inode).Occupied := by
  intro fd description found locked
  rw [describe_lookup] at found
  split at found
  · cases found
    cases locked
  · obtain ⟨other, old, lookup, shares⟩ := occupied found locked
    exact ⟨other, old, describe_lookup_of_some lookup _ _, shares⟩

/-- A lock is taken by a user of its description. -/
theorem Occupied.lock (occupied : file.Occupied) (has : file.Has user fd inode) :
    (file.lock fd).Occupied := by
  intro other description found locked
  by_cases same : fd = other
  · subst same
    exact ⟨user, (has.lock fd).uses⟩
  · rw [LockedFile.lock, change_lookup, if_neg same] at found
    obtain ⟨user, old, lookup, shares⟩ := occupied found locked
    refine ⟨user, old, ?_, shares⟩
    rw [LockedFile.lock, change_lookup, if_neg same]
    exact lookup

/-- A lock goes with the last user of its description. -/
theorem Occupied.close (occupied : file.Occupied) (fd user : Nat) :
    (file.close fd user).Occupied := by
  intro other description found locked
  have lookup := found
  rw [LockedFile.close, change_lookup] at found
  split at found
  · -- what is still locked has still a user
    obtain ⟨old, -, rfl⟩ := Option.map_eq_some_iff.mp found
    have some_user := (Bool.and_eq_true_iff.mp locked).2
    rw [Bool.not_eq_true', ← Bool.not_eq_true, List.isEmpty_iff] at some_user
    obtain ⟨another, shares⟩ := List.exists_mem_of_ne_nil _ some_user
    exact ⟨another, _, lookup, shares⟩
  · rename_i apart
    obtain ⟨another, old, before, shares⟩ := occupied found locked
    refine ⟨another, old, ?_, shares⟩
    rw [LockedFile.close, change_lookup, if_neg apart]
    exact before

theorem Occupied.share (occupied : file.Occupied) (fd user : Nat) :
    (file.share fd user).Occupied := by
  intro other description found locked
  have lookup := found
  rw [LockedFile.share, change_lookup] at found
  split at found
  · obtain ⟨old, -, rfl⟩ := Option.map_eq_some_iff.mp found
    exact ⟨user, _, lookup, List.mem_cons_self⟩
  · rename_i apart
    obtain ⟨another, old, before, shares⟩ := occupied found locked
    refine ⟨another, old, ?_, shares⟩
    rw [LockedFile.share, change_lookup, if_neg apart]
    exact before

/-- An inode that may not be locked is locked for somebody. -/
theorem Occupied.exists_of_not_lockable (occupied : file.Occupied)
    (locked : ¬file.Lockable inode) : ∃ fd user, file.Locks user fd inode := by
  obtain ⟨description, rest⟩ := not_forall.mp locked
  obtain ⟨member, rest⟩ := Classical.not_imp.mp rest
  obtain ⟨rfl, isLocked⟩ := Classical.not_imp.mp rest
  have isLocked := (Bool.not_eq_false _).mp isLocked
  obtain ⟨fd, found⟩ := List.mem_iff_getElem?.mp member
  obtain ⟨user, another, lookup, shares⟩ := occupied found isLocked
  obtain rfl := Option.some.inj (found.symm.trans lookup)
  exact ⟨fd, user, description, found, rfl, shares, isLocked⟩

theorem inUse_of_uses (uses : file.Uses fd user) (same : file.inodeOf fd = some inode) :
    file.InUse inode := by
  obtain ⟨description, found, shares⟩ := uses
  rw [LockedFile.inodeOf, found] at same
  exact ⟨description, List.mem_of_getElem? found, List.ne_nil_of_mem shares,
    Option.some.inj same⟩

/-- A new description is in nobody's way. -/
theorem lockable_describe (user other : Nat) :
    (file.describe user other).Lockable inode ↔ file.Lockable inode := by
  constructor
  · intro lockable description member
    exact lockable description (List.mem_append_left _ member)
  · intro lockable description member same
    rcases List.mem_append.mp member with before | new
    · exact lockable description before same
    · rw [List.mem_singleton.mp new]

/-! ## At the start -/

theorem occupied_ofText (text : Option (List α)) : (ofText text).Occupied := by
  intro fd description found
  cases found

theorem exclusive_ofText (text : Option (List α)) : (ofText text).Exclusive := by
  intro fd other first second found
  cases found

end LockedFile

end ReactiveToolbox.Lib
