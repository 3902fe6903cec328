import StarStats.Lib.Pairs
import StarStats.Lib.Trans
import StarStats.Server.HandleRenames

/-!
# Moving a handle's relationships (`spicedb.rs`, `handle_renames.rs`, `handle_rename_routes.rs`)

`move_handle` reads every relationship that names the old handle and rewrites it to the new one,
in writes of at most 500 updates. A rename is followed by such a move, and the reconciler takes up
the renames that are not marked, oldest first. The system is one account, the handles of the
others, the relationships and the passes under way: a pass reads, writes and marks in steps of
their own, between which anything else may happen, each of which may fail, and ends where its
server does. What one move is to do by itself is at the end.
-/

namespace StarStats

open Text (lower)

/-! ## Filters -/

/-- A `RelationshipFilter`: the resource's type, its id and the id of a `user` subject, where
set. -/
structure RelationshipFilter where
  resourceType : ObjectType
  resourceId : Option String
  subjectId : Option String

def RelationshipFilter.accepts (f : RelationshipFilter) (rel : Relationship) : Bool :=
  rel.resource.objectType = f.resourceType && f.resourceId.all (rel.resource.objectId = ·) &&
    f.subjectId.all (rel.subject = userRef ·)

/-- `handle_filters`. -/
def handleFilters (handle : String) : List RelationshipFilter :=
  ⟨.statsRecord, some handle, none⟩ :: ⟨.user, some handle, none⟩ ::
    [.statsRecord, .organization, .user, .oauthApp, .oauthToken].map
      fun resourceType => ⟨resourceType, none, some handle⟩

/-- `delete_everything_for_handle`: `fails` says which of the requests fail. -/
def deleteEverythingForHandle (handle : String) (fails : Nat → Bool) (rels : List Relationship) :
    List Relationship :=
  rels.filter fun rel => !((handleFilters handle).zipIdx.any fun f => !fails f.2 && f.1.accepts rel)

/-! ## Moves -/

/-- The object types whose ids are handles. -/
def ObjectType.isHandle : ObjectType → Bool
  | .statsRecord | .user => true
  | _ => false

/-- `renamed_relationship`. -/
def renamedRelationship (rel : Relationship) (old new : String) : Option Relationship :=
  let resource := rel.resource.objectType.isHandle && rel.resource.objectId = old
  let subject : Bool := rel.subject = userRef old
  if resource || subject then
    some
      { resource := if resource then ⟨rel.resource.objectType, new⟩ else rel.resource
        relation := rel.relation
        subject := if subject then userRef new else rel.subject }
  else none

/-- The ids `move_handle` looks for: the handle as written and lower-cased. -/
def moveIds (old : String) : List String := if lower old ≠ old then [old, lower old] else [old]

/-- What the reads of `move_handle` find, with what each relationship becomes. -/
def handleMoves (old new : String) (rels : List Relationship) :
    List (Relationship × Relationship) :=
  (moveIds old).flatMap fun id => (handleFilters id).flatMap fun filter =>
    (rels.filter filter.accepts).filterMap fun rel =>
      (renamedRelationship rel id (respell new id)).map (rel, ·)

abbrev RelationshipUpdate := Tuples.Update ObjectRef Relation

/-- A move is a DELETE and a TOUCH. -/
def moveUpdate (move : Relationship × Relationship) : RelationshipUpdate × RelationshipUpdate :=
  (.delete move.1, .touch move.2)

/-- The updates of `move_handle`, each once. -/
def moveUpdates (old new : String) (rels : List Relationship) : List RelationshipUpdate :=
  (Pairs.layout ((handleMoves old new rels).map moveUpdate)).eraseDups

/-- `MOVE_UPDATES_PER_WRITE`. -/
def moveUpdatesPerWrite : Nat := 500

/-- The writes of `move_handle`. -/
def moveWrites (old new : String) (rels : List Relationship) : List (List RelationshipUpdate) :=
  Pairs.chunks moveUpdatesPerWrite (moveUpdates old new rels)

/-- `move_handle`, of whose writes `failing` fails: what is there afterwards, and how many
relationships were moved, when no write failed. -/
def moveHandle (failing : Option Nat) (old new : String) (rels : List Relationship) :
    List Relationship × Option Nat :=
  let written := Tuples.writeAll failing (moveWrites old new rels) rels
  (written.1, if written.2 then some ((moveUpdates old new rels).length / 2) else none)

/-! ## Renames to move -/

def reconcileBatch : Nat := 50

def HandleRename.pending (r : HandleRename) : Bool := r.spicedbMovedAt.isNone

/-- `pending_spicedb_moves`. -/
def pendingSpicedbMoves (limit : Nat) (renames : List HandleRename) : List HandleRename :=
  ((renames.filter (·.pending)).insertionSort (·.renamedAt ≤ ·.renamedAt)).take limit

/-- `mark_spicedb_moved`. -/
def markSpicedbMoved (id : Uuid) («at» : Timestamp) (renames : List HandleRename) :
    List HandleRename :=
  renames.map fun r => if r.id = id then { r with spicedbMovedAt := some «at» } else r

namespace HandleMoves

/-! ## Grants -/

/-- The resource of a relationship: the account's record, the account, or anything else. -/
inductive Resource where
  | record
  | user
  | other (ref : ObjectRef)
  deriving DecidableEq

inductive Subject where
  | user
  | other (ref : ObjectRef)
  deriving DecidableEq

/-- A relationship as it was written: the account in the place of its handle, and whether the
handle was lower-cased. One without the account is another account's. -/
structure Grant where
  resource : Resource
  relation : Relation
  subject : Subject
  lowered : Bool
  deriving DecidableEq

def Resource.fill (id : String) : Resource → ObjectRef
  | .record => statsRecord id
  | .user => userRef id
  | .other ref => ref

def Subject.fill (id : String) : Subject → ObjectRef
  | .user => userRef id
  | .other ref => ref

/-- The relationship with `id` for the account. -/
def Grant.fill (g : Grant) (id : String) : Relationship :=
  ⟨g.resource.fill id, g.relation, g.subject.fill id⟩

def spell (lowered : Bool) (handle : String) : String := if lowered then lower handle else handle

/-- The grant's relationship under the handle. -/
def Grant.under (g : Grant) (handle : String) : Relationship := g.fill (spell g.lowered handle)

/-- The id is the wildcard, or another account's handle in some spelling. -/
def Foreign (others : List String) (id : String) : Prop :=
  id = "*" ∨ ∃ o ∈ others, lower o = lower id

instance (others : List String) (id : String) : Decidable (Foreign others id) :=
  inferInstanceAs (Decidable (_ ∨ _))

/-- What the relationship names besides the account. -/
def Resource.refs : Resource → List ObjectRef
  | .other ref => [ref]
  | _ => []

def Subject.refs : Subject → List ObjectRef
  | .other ref => [ref]
  | .user => []

/-- The grant names nobody but the account and the others. -/
def Grant.Known (others : List String) (g : Grant) : Prop :=
  ∀ ref ∈ g.resource.refs ++ g.subject.refs, ref.objectType.isHandle → Foreign others ref.objectId

instance (others : List String) (g : Grant) : Decidable (g.Known others) :=
  inferInstanceAs (Decidable (∀ ref ∈ _, _))

/-! ## The system -/

/-- A pass over renames. The first is being moved: its writes are still to come, or its reads. -/
structure Pass where
  queue : List HandleRename
  writes : Option (List (List RelationshipUpdate))

structure State where
  now : Timestamp
  account : Account
  /-- The handles of other accounts. -/
  others : List String
  /-- The account's renames, in the order of their commits. -/
  renames : List HandleRename
  /-- The move after a rename is a pass of its own. -/
  passes : List Pass
  rels : List Relationship
  /-- What was written, whoever wrote it. -/
  grants : List Grant

def State.start (account : Account) (now : Timestamp) : State := ⟨now, account, [], [], [], [], []⟩

inductive Action where
  | wait (d : Nat)
  /-- Another account signs up: what is left under the handle is deleted, and the owner written. -/
  | signUp (handle : String) (deleteFails : Nat → Bool) (ownerFails : Bool)
  /-- Another account renames to the handle. -/
  | takeOver (handle : String)
  | write (grant : Grant)
  | rename (id : Uuid) (newHandle : String) (startedAt : Timestamp)
  /-- A pass of the reconciler begins; `room` of its batch is left for the account's renames. -/
  | reconcile (room : Nat)
  | read (pass : Nat) (fails : Bool)
  | writeChunk (pass : Nat) (fails : Bool)
  | mark (pass : Nat) (fails : Bool)
  /-- The server of the pass stops. -/
  | stop (pass : Nat)

namespace State

def handle (s : State) : String := s.account.claimedHandle

/-- The renames not marked. -/
def pending (s : State) : List HandleRename := s.renames.filter (·.pending)

/-- The handle is free for another account. -/
def claimable (s : State) (handle : String) : Bool :=
  validateHandle handle && lower handle != lower s.handle &&
    !s.others.any (lower · == lower handle) && !handleHeld s.renames handle s.now

def setPass (s : State) (i : Nat) (pass : Pass) : State :=
  { s with passes := s.passes.set i pass }

end State

/-- The owner tuple that a sign-up writes. -/
def ownerGrant (handle : String) : Grant :=
  ⟨.other (statsRecord handle), .owner, .other (userRef handle), false⟩

def step (s : State) : Action → Option State
  | .wait d => some { s with now := s.now + d }
  | .signUp handle deleteFails ownerFails =>
    if !s.claimable handle then none
    else
      let rels := deleteEverythingForHandle handle deleteFails s.rels
      let s' := { s with others := s.others ++ [handle], rels := rels }
      some (if ownerFails then s'
        else { s' with
          rels := Tuples.touch ((ownerGrant handle).under s.handle) rels
          grants := s.grants ++ [ownerGrant handle] })
  | .takeOver handle =>
    if !s.claimable handle then none else some { s with others := s.others ++ [handle] }
  | .write g =>
    if ¬ g.Known s.others then none
    else some { s with
      rels := Tuples.touch (g.under s.handle) s.rels, grants := s.grants ++ [g] }
  | .rename id newHandle startedAt =>
    -- the key is new, and no other account has the handle
    if s.now < startedAt ∨ s.renames.any (·.id = id) ∨ s.others.any (lower · = lower newHandle)
    then none
    else
      match evaluateRename s.account.renameSubject newHandle startedAt with
      | .error _ => none
      | .ok kind =>
        let r := s.account.renameRecord id newHandle kind startedAt
        some
          { s with
            account := s.account.renamed newHandle startedAt
            renames := s.renames ++ [r]
            passes := s.passes ++ [⟨[r], none⟩] }
  | .reconcile room =>
    if reconcileBatch < room then none
    else some { s with passes := s.passes ++ [⟨pendingSpicedbMoves room s.renames, none⟩] }
  | .read i fails =>
    match s.passes[i]? with
    | some ⟨r :: rest, none⟩ =>
      some (s.setPass i (if fails then ⟨rest, none⟩
        else ⟨r :: rest, some (moveWrites r.oldHandle r.newHandle s.rels)⟩))
    | _ => none
  | .writeChunk i fails =>
    match s.passes[i]? with
    | some ⟨r :: rest, some (c :: cs)⟩ =>
      match if fails then none else Tuples.write c s.rels with
      | none => some (s.setPass i ⟨rest, none⟩)
      | some rels => some { s.setPass i ⟨r :: rest, some cs⟩ with rels := rels }
    | _ => none
  | .mark i fails =>
    match s.passes[i]? with
    | some ⟨r :: rest, some []⟩ =>
      -- a failure ends the pass, whatever is left of it
      some (if fails then s.setPass i ⟨[], none⟩
        else { s.setPass i ⟨rest, none⟩ with renames := markSpicedbMoved r.id s.now s.renames })
    | _ => none
  | .stop i => if i < s.passes.length then some (s.setPass i ⟨[], none⟩) else none

/-! ## What the moves are for -/

/-- What was written is there under the account's handle, and nothing else is. -/
structure Followed (s : State) : Prop where
  kept : ∀ g ∈ s.grants, g.under s.handle ∈ s.rels
  only : ∀ rel ∈ s.rels, ∃ g ∈ s.grants, rel = g.under s.handle

/-! ## The condition -/

/-- The rename is the oldest that is not marked. -/
def Oldest (s : State) (r : HandleRename) : Prop := s.pending.head?.map (·.id) = some r.id

instance (s : State) (r : HandleRename) : Decidable (Oldest s r) :=
  inferInstanceAs (Decidable (_ = _))

/-- The updates of the move go in one write, or no two relationships become the same. -/
def Fits (old new : String) (rels : List Relationship) : Prop :=
  (moveUpdates old new rels).length ≤ moveUpdatesPerWrite ∨
    ∀ p ∈ handleMoves old new rels, ∀ q ∈ handleMoves old new rels, p.2 = q.2 → p.1 = q.1

instance (old new : String) (rels : List Relationship) : Decidable (Fits old new rels) :=
  inferInstanceAs (Decidable (_ ∨ _))

/-- The renames are moved one after the other: only the oldest that is not marked is moved (for one
that is marked there is nothing to move), and no account takes a handle before the rename away from
it is marked. A handle without capitals is left for another such handle only. -/
def InOrder (s : State) : Action → Prop
  | .signUp handle _ _ => ∀ r ∈ s.pending, lower r.oldHandle ≠ lower handle
  | .takeOver handle => ∀ r ∈ s.pending, lower r.oldHandle ≠ lower handle
  | .rename _ newHandle _ => lower s.handle = s.handle → lower newHandle = newHandle
  | .read i _ => ∀ p ∈ s.passes[i]?, ∀ r ∈ p.queue.head?,
      (Oldest s r ∧ Fits r.oldHandle r.newHandle s.rels) ∨
        (∀ r' ∈ s.pending, r'.id ≠ r.id) ∧ handleMoves r.oldHandle r.newHandle s.rels = []
  | .writeChunk i _ => ∀ p ∈ s.passes[i]?, ∀ r ∈ p.queue.head?, Oldest s r
  | _ => True

instance : DecidableRel InOrder
  | _, .wait _ => .isTrue trivial
  | s, .signUp handle _ _ =>
    inferInstanceAs (Decidable (∀ r ∈ s.pending, lower r.oldHandle ≠ lower handle))
  | s, .takeOver handle =>
    inferInstanceAs (Decidable (∀ r ∈ s.pending, lower r.oldHandle ≠ lower handle))
  | _, .write _ => .isTrue trivial
  | s, .rename _ newHandle _ =>
    inferInstanceAs (Decidable (lower s.handle = s.handle → lower newHandle = newHandle))
  | _, .reconcile _ => .isTrue trivial
  | s, .read i _ => inferInstanceAs (Decidable (∀ p ∈ s.passes[i]?, ∀ r ∈ p.queue.head?,
      (Oldest s r ∧ Fits r.oldHandle r.newHandle s.rels) ∨
        (∀ r' ∈ s.pending, r'.id ≠ r.id) ∧ handleMoves r.oldHandle r.newHandle s.rels = []))
  | s, .writeChunk i _ => inferInstanceAs (Decidable (∀ p ∈ s.passes[i]?, ∀ r ∈ p.queue.head?,
      Oldest s r))
  | _, .mark .. => .isTrue trivial
  | _, .stop _ => .isTrue trivial

/-! ## One move -/

/-- The object with the new handle for the old one, in the same spelling. -/
def renamedRef (old new : String) (ref : ObjectRef) : ObjectRef :=
  if ref.objectType.isHandle ∧ ref.objectId ∈ moveIds old
  then ⟨ref.objectType, respell new ref.objectId⟩ else ref

/-- What a move is to make of a relationship. -/
def renamedThroughout (old new : String) (rel : Relationship) : Relationship :=
  ⟨renamedRef old new rel.resource, rel.relation, renamedRef old new rel.subject⟩

/-- The subject is one that the schema admits; if it is a handle, it is a user. -/
def Admitted (rel : Relationship) : Prop := rel.subject.objectType = rel.relation.subjectType

instance (rel : Relationship) : Decidable (Admitted rel) := inferInstanceAs (Decidable (_ = _))

/-- A move of `rels` goes through and leaves `orig` renamed; after any number of its writes, what
they have deleted they have touched under its new name. -/
structure Moves (old new : String) (orig rels : List Relationship) : Prop where
  done : (moveHandle none old new rels).2.isSome
  renamed : ∀ rel, rel ∈ (moveHandle none old new rels).1 ↔
    rel ∈ orig.map (renamedThroughout old new)
  paired : ∀ k, ∀ p ∈ handleMoves old new rels,
    .delete p.1 ∈ ((moveWrites old new rels).take k).flatten →
      .touch p.2 ∈ ((moveWrites old new rels).take k).flatten

/-- A move, and a move after one of whose writes any failed. -/
structure LosesNothing (old new : String) (rels : List Relationship) : Prop where
  first : Moves old new rels rels
  again : ∀ k, (moveHandle (some k) old new rels).2 = none →
    Moves old new rels (moveHandle (some k) old new rels).1

/-- The object is the handle's, in this spelling. -/
def NamesRef (id : String) (ref : ObjectRef) : Prop :=
  ref.objectType.isHandle = true ∧ ref.objectId = id

def Names (id : String) (rel : Relationship) : Prop :=
  NamesRef id rel.resource ∨ NamesRef id rel.subject

instance (id : String) (rel : Relationship) : Decidable (Names id rel) :=
  inferInstanceAs (Decidable ((_ ∧ _) ∨ (_ ∧ _)))

/-- The relationships that name the handle, each as often as a filter finds it. -/
def readList (old : String) (rels : List Relationship) : List Relationship :=
  (moveIds old).flatMap fun id =>
    (handleFilters id).flatMap fun filter => rels.filter filter.accepts

/-- The updates for what was read: a DELETE of each relationship and a TOUCH of each that they
become. -/
def updatesOf (old new : String) (read : List Relationship) : Nat :=
  read.eraseDups.length + (read.map (renamedThroughout old new)).eraseDups.length

/-- No write is full with the DELETE of a relationship whose TOUCH comes next. -/
def Aligned (old new : String) (read : List Relationship) : Prop :=
  ∀ before rel after, read = before ++ rel :: after → rel ∉ before →
    renamedThroughout old new rel ∉ before.map (renamedThroughout old new) →
    ¬ moveUpdatesPerWrite ∣ updatesOf old new before + 1

/-- The relationship names the handle in one spelling at most, and in that it changes. -/
structure Plain (old new : String) (rel : Relationship) : Prop where
  changes : ∀ id ∈ moveIds old, Names id rel → respell new id ≠ id
  oneSpelling : ∀ id ∈ moveIds old, ∀ id' ∈ moveIds old, Names id rel → Names id' rel → id = id'

instance (old new : String) (rel : Relationship) : Decidable (Plain old new rel) :=
  decidable_of_iff (_ ∧ _) ⟨fun h => ⟨h.1, h.2⟩, fun h => ⟨h.changes, h.oneSpelling⟩⟩

/-- What a move of the relationships needs, and a second one of those that the first has left.
A handle that is only lower-cased leaves nothing to a second one. -/
structure Separate (old new : String) (rels : List Relationship) : Prop where
  plain : ∀ rel ∈ rels, Plain old new rel
  aligned : ∀ done rest, readList old rels = done ++ rest →
    moveUpdatesPerWrite ∣ updatesOf old new done → Aligned old new (rest.filter (· ∉ done))
  lowering : new = lower old → updatesOf old new (readList old rels) ≤ moveUpdatesPerWrite

end HandleMoves

end StarStats
