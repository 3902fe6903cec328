import StarStats.Lib.Calls
import StarStats.Lib.Trans
import StarStats.Server.Social
import StarStats.Server.Spicedb

/-!
# Reconciling the friend tuples (`starstats-server/src/friend_sync.rs`)

The passes of the reconcile loop, `remove_friend` and the two writes of an accept, store call by
store call, over the `friendships` of Postgres and the tuples of SpiceDB. A store call may fail:
a pass then ends, `remove_friend` goes on where the source only logs. `users` are the claimed
handles.
-/

namespace StarStats

open Text (lower)

namespace FriendSync

/-! ## What a pass has to do -/

abbrev Pair := String × String

local instance lawfulPair : LawfulBEq Pair := Prod.instLawfulBEq

/-- `list_all_friendships`: the handles as the users spell them. -/
def listAllFriendships (users : List String) (friendships : List Friendship) : List Pair :=
  friendships.flatMap fun f =>
    (users.filter fun u => lower u == lower f.handleA).flatMap fun ua =>
      (users.filter fun u => lower u == lower f.handleB).map fun ub => (ua, ub)

/-- `list_friend_tuples`. -/
def listFriendTuples (rels : List Relationship) : List Pair :=
  (rels.filter fun rel => rel.resource.objectType = .user && rel.relation = .friend &&
    rel.subject.objectType = .user).map fun rel => (rel.resource.objectId, rel.subject.objectId)

def bothWays (pairs : List Pair) : List Pair := pairs.flatMap fun p => [(p.1, p.2), (p.2, p.1)]

/-- The order of a `BTreeSet` of pairs. -/
def pairLe (p q : Pair) : Prop := p.1 < q.1 ∨ p.1 = q.1 ∧ p.2 ≤ q.2

instance : DecidableRel pairLe := fun _ _ => inferInstanceAs (Decidable (_ ∨ _))

/-- Each pair once, whichever way it stands. -/
def unordered (pairs : List Pair) : List Pair :=
  (pairs.map fun p => if p.1 ≤ p.2 then p else (p.2, p.1)).dedup.insertionSort pairLe

structure Diff where
  toWrite : List Pair
  toDelete : List Pair
  deriving DecidableEq

/-- `diff`. -/
def diff (friendships tuples : List Pair) : Diff where
  toWrite := unordered ((bothWays friendships).filter (· ∉ tuples))
  toDelete := unordered (tuples.filter (· ∉ bothWays friendships))

/-! ## The calls -/

/-- The store call of `reconcile_once` that comes next. -/
inductive PassPhase where
  | listTuples
  | listFriendships (tuples : List Pair)
  | reread (d : Diff)
  /-- What is left to do, and the pairs of the second read. -/
  | acting (d : Diff) (fresh : List Pair) (written deleted : Nat)
  /-- What it returned; `none` where a store call failed. -/
  | done (result : Option (Nat × Nat))
  deriving DecidableEq

inductive RemovePhase where
  | removeFriendship
  | findByHandle
  | deleteTuples (theirs : String)
  | done (answer : Except Refusal Unit)
  deriving DecidableEq

inductive AcceptPhase where
  | addFriendship
  | writeTuples
  | done
  deriving DecidableEq

inductive Call where
  | pass (phase : PassPhase)
  /-- `remove_friend` by `me`, of the handle in the path. -/
  | remove (me handle : String) (phase : RemovePhase)
  /-- `accept_request` of a request of `x` to `y`, from `add_friendship` on. -/
  | accept (x y : String) (phase : AcceptPhase)
  deriving DecidableEq

/-- A pair as `friendships` compares it. -/
def key (p : Pair) : Pair := (lower (orderedPair p.1 p.2).1, lower (orderedPair p.1 p.2).2)

structure State where
  friendships : List Friendship
  rels : List Relationship
  calls : List Call
  /-- The pairs whose row was removed and that no accept has touched since. -/
  removed : List Pair
  /-- Those of them whose tuples were deleted by a `remove_friend`, as it spelt them. -/
  ended : List Pair
  deriving DecidableEq

def State.start (friendships : List Friendship) (rels : List Relationship) : State :=
  ⟨friendships, rels, [], [], []⟩

/-- An accept of the pair: it is no longer one that was ended. -/
def State.accepted (s : State) (p : Pair) : State :=
  { s with
    removed := s.removed.filter (· ≠ key p)
    ended := s.ended.filter (key · ≠ key p) }

def State.setCall (s : State) (i : Nat) (c : Call) : State := { s with calls := s.calls.set i c }

/-- A store call of a pass, which succeeds where `ok`. -/
def passStep (users : List String) (ok : Bool) (friendships : List Friendship) :
    PassPhase → List Relationship → PassPhase × List Relationship
  | .listTuples, rels =>
    if ok then (.listFriendships (listFriendTuples rels), rels) else (.done none, rels)
  | .listFriendships tuples, rels =>
    if ok then
      let d := diff (listAllFriendships users friendships) tuples
      if d = ⟨[], []⟩ then (.done (some (0, 0)), rels) else (.reread d, rels)
    else (.done none, rels)
  | .reread d, rels =>
    if ok then (.acting d (bothWays (listAllFriendships users friendships)) 0 0, rels)
    else (.done none, rels)
  | .acting ⟨p :: toWrite, toDelete⟩ fresh written deleted, rels =>
    if p ∈ fresh then
      match (if ok then writeFriendship p.1 p.2 rels else none) with
      | some rels' => (.acting ⟨toWrite, toDelete⟩ fresh (written + 1) deleted, rels')
      | none => (.done none, rels)
    else (.acting ⟨toWrite, toDelete⟩ fresh written deleted, rels)
  | .acting ⟨[], p :: toDelete⟩ fresh written deleted, rels =>
    if p ∉ fresh then
      match (if ok then deleteFriendship p.1 p.2 rels else none) with
      | some rels' => (.acting ⟨[], toDelete⟩ fresh written (deleted + 1), rels')
      | none => (.done none, rels)
    else (.acting ⟨[], toDelete⟩ fresh written deleted, rels)
  | .acting ⟨[], []⟩ _ written deleted, rels => (.done (some (written, deleted)), rels)
  | .done result, rels => (.done result, rels)

/-- A store call of `remove_friend`. -/
def removeStep (users : List String) (ok : Bool) (i : Nat) (me handle : String) (s : State) :
    RemovePhase → State
  | .removeFriendship =>
    if !ok then s.setCall i (.remove me handle (.done (.error (refuse 500 "internal" none))))
    else if areFriends me handle s.friendships then
      { s.setCall i (.remove me handle .findByHandle) with
        friendships := removeFriendship me handle s.friendships
        removed := key (me, handle) :: s.removed }
    else s.setCall i (.remove me handle (.done (.error (refuse 404 "not_friends" none))))
  | .findByHandle =>
    let found := if ok then users.find? (fun u => lower u == lower handle) else none
    s.setCall i (.remove me handle (.deleteTuples (found.getD handle)))
  | .deleteTuples theirs =>
    match (if ok then deleteFriendship me theirs s.rels else none) with
    | some rels =>
      { s.setCall i (.remove me handle (.done (.ok ()))) with
        rels := rels
        ended := if key (me, theirs) ∈ s.removed then (me, theirs) :: s.ended else s.ended }
    | none => s.setCall i (.remove me handle (.done (.ok ())))
  | .done answer => s.setCall i (.remove me handle (.done answer))

/-- A store call of an accept. -/
def acceptStep (ok : Bool) (now : Timestamp) (i : Nat) (x y : String) (s : State) :
    AcceptPhase → State
  | .addFriendship =>
    if ok then
      { (s.accepted (x, y)).setCall i (.accept x y .writeTuples) with
        friendships := addFriendship x y now s.friendships }
    else s.setCall i (.accept x y .done)
  | .writeTuples =>
    if ok then
      { (s.accepted (x, y)).setCall i (.accept x y .done) with
        rels := applyFriends x y true s.rels }
    else s.setCall i (.accept x y .done)
  | .done => s.setCall i (.accept x y .done)

inductive Action where
  | pass
  | remove (me handle : String)
  | accept (x y : String)
  /-- The next store call of a call; it fails unless `ok`. -/
  | next (call : Nat) (now : Timestamp) (ok : Bool)
  deriving DecidableEq

def step (users : List String) (s : State) : Action → Option State
  | .pass => some { s with calls := s.calls ++ [.pass .listTuples] }
  | .remove me handle => some { s with calls := s.calls ++ [.remove me handle .removeFriendship] }
  | .accept x y => some { s with calls := s.calls ++ [.accept x y .addFriendship] }
  | .next i now ok =>
    match s.calls[i]? with
    | none => none
    | some (.pass phase) =>
      let r := passStep users ok s.friendships phase s.rels
      some { s.setCall i (.pass r.1) with rels := r.2 }
    | some (.remove me handle phase) => some (removeStep users ok i me handle s phase)
    | some (.accept x y phase) => some (acceptStep ok now i x y s phase)

/-! ## The window -/

/-- A pass that has read `friendships` again is still to write the pair. -/
def Call.toWrite (p : Pair) : Call → Bool
  | .pass (.acting d fresh _ _) =>
    (p ∈ d.toWrite && p ∈ fresh) || ((p.2, p.1) ∈ d.toWrite && (p.2, p.1) ∈ fresh)
  | _ => false

/-- The pair whose tuples the next store call of a `remove_friend` deletes. -/
def Call.deletes : Call → Option Pair
  | .remove me _ (.deleteTuples theirs) => some (me, theirs)
  | _ => none

/-- When `remove_friend` deletes the tuples of a pair, no pass past its second read is still to
write them. -/
def InTime (s : State) : Action → Prop
  | .next i _ true => ∀ p ∈ s.calls[i]?.bind Call.deletes, ∀ c ∈ s.calls, c.toWrite p = false
  | _ => True

instance : DecidableRel InTime := fun s act =>
  match act with
  | .next i _ true => inferInstanceAs
    (Decidable (∀ p ∈ s.calls[i]?.bind Call.deletes, ∀ c ∈ s.calls, c.toWrite p = false))
  | .next _ _ false | .pass | .remove .. | .accept .. => .isTrue trivial

/-- No pair that was ended has a tuple. -/
def NoneBack (s : State) : Prop :=
  ∀ p ∈ s.ended, friendTuple p.1 p.2 ∉ s.rels ∧ friendTuple p.2 p.1 ∉ s.rels

/-! ## A pass on its own -/

/-- A call for each pair, in turn; none where one is refused. -/
def callEach (call : String → String → List Relationship → Option (List Relationship)) :
    List Pair → List Relationship → Option (List Relationship)
  | [], rels => some rels
  | p :: ps, rels => (call p.1 p.2 rels).bind (callEach call ps)

/-- The pairs a pass wrote and deleted, and what it leaves. -/
structure Reconciled where
  written : List Pair
  deleted : List Pair
  rels : List Relationship
  deriving DecidableEq

/-- `reconcile_once` where both reads of `friendships` give these pairs; none where a call fails. -/
def reconcileOnce (friendships : List Pair) (rels : List Relationship) : Option Reconciled := do
  let d := diff friendships (listFriendTuples rels)
  let fresh := bothWays friendships
  let toWrite := d.toWrite.filter (· ∈ fresh)
  let toDelete := d.toDelete.filter (· ∉ fresh)
  let rels ← callEach writeFriendship toWrite rels
  let rels ← callEach deleteFriendship toDelete rels
  return ⟨toWrite, toDelete, rels⟩

/-- The store calls of a pass, one after the other, when all of them succeed. -/
def passCalls (users : List String) (friendships : List Friendship) :
    Nat → PassPhase → List Relationship → PassPhase × List Relationship
  | 0, phase, rels => (phase, rels)
  | n + 1, phase, rels =>
    let r := passStep users true friendships phase rels
    passCalls users friendships n r.1 r.2

/-- The friend tuples are those of the pairs, both ways. -/
def InStep (friendships : List Pair) (rels : List Relationship) : Prop :=
  ∀ a b, friendTuple a b ∈ rels ↔ (a, b) ∈ friendships ∨ (b, a) ∈ friendships

end FriendSync

end StarStats
