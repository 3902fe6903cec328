import StarStats.Lib.Trans
import StarStats.Server.HandleRenames

/-!
# The index and its refresh loop

A rename commits to the store and is then recorded in this server's index, unless another server
made it. The refresh loop reads the recent renames (`recent`) and, one await later, replaces the
whole index by them (`replace_all`). The other checks of a rename (whether the handle is taken)
are left open: a rename may be refused at any point.
-/

namespace StarStats.IndexRefresh

structure State where
  now : Timestamp
  accounts : Uuid → Option Account
  store : List HandleRename
  /-- Committed here and not yet recorded. -/
  unrecorded : List HandleRename
  index : HandleIndex
  /-- What the refresh loop holds between its two steps. -/
  snapshot : Option (List HandleRename)
  /-- The renames whose `record` has returned. -/
  recorded : List HandleRename
  /-- Those recorded since the refresh loop last read the store. -/
  since : List HandleRename
  /-- The renames that ever entered the index, recorded or reloaded. -/
  known : List HandleRename

def State.start (accounts : List Account) (now : Timestamp) : State where
  now := now
  accounts v := accounts.find? (·.id = v)
  store := []
  unrecorded := []
  index := .empty
  snapshot := none
  recorded := []
  since := []
  known := []

inductive Action where
  | wait (d : Nat)
  | commit (userId id : Uuid) (newHandle : String) (startedAt : Timestamp) (here : Bool)
  | record (i : Nat)
  | recent
  | replaceAll

def step (s : State) : Action → Option State
  | .wait d => some { s with now := s.now + d }
  | .commit userId id newHandle startedAt here =>
    match s.accounts userId with
    | none => none
    | some u =>
      match evaluateRename u.renameSubject newHandle startedAt with
      | .error _ => none
      | .ok kind =>
        let r := u.renameRecord id newHandle kind startedAt
        some
          { s with
            accounts := fun v => if v = userId then some (u.renamed newHandle startedAt)
              else s.accounts v
            store := s.store ++ [r]
            unrecorded := if here then s.unrecorded ++ [r] else s.unrecorded }
  | .record i =>
    s.unrecorded[i]?.map fun r =>
      { s with
        unrecorded := s.unrecorded.eraseIdx i
        index := s.index.record r
        recorded := s.recorded ++ [r]
        since := s.since ++ [r]
        known := s.known ++ [r] }
  | .recent =>
    match s.snapshot with
    | some _ => none
    | none =>
      some { s with snapshot := some (recentRenames (s.now - reservation) s.store), since := [] }
  | .replaceAll =>
    s.snapshot.map fun l =>
      { s with index := .replaceAll l, snapshot := none, known := s.known ++ l }

/-- No rename of the account in the list is later. -/
def Latest (r : HandleRename) (l : List HandleRename) : Prop :=
  ∀ r' ∈ l, r'.userId = r.userId → r'.renamedAt ≤ r.renamedAt

instance (r : HandleRename) (l : List HandleRename) : Decidable (Latest r l) :=
  inferInstanceAs (Decidable (∀ r' ∈ l, _))

/-- `get` names the rename's handle, and `resolve` swaps every token of the account that names
another and was issued no later. -/
structure Honours (index : HandleIndex) (r : HandleRename) : Prop where
  get : (index r.userId).map (·.currentHandle) = some r.newHandle
  resolve : ∀ handle issuedAt, Text.eqIgnoreAsciiCase r.newHandle handle = false →
    issuedAt ≤ (r.renamedAt / 1000000).toNat →
    index.resolve r.userId handle issuedAt = some r.newHandle

/-- The index keeps what was recorded, until a later rename of the account enters it or the
reservation ends. -/
def Kept (s : State) : Prop :=
  ∀ r ∈ s.recorded, Latest r s.known → s.now - reservation ≤ r.renamedAt → Honours s.index r

/-- No rename is recorded between the refresh loop's read and its replacement, unless the snapshot
has it, a later one of the account is known or the reservation is over; and renames of one account
are recorded in their order. What was recorded before the read is the store's to know. -/
def UpToDate (s : State) : Action → Prop
  | .record i => ∀ r ∈ s.unrecorded[i]?, Latest r s.known
  | .replaceAll => ∀ l ∈ s.snapshot, ∀ r ∈ s.since, Latest r (s.known ++ l) →
      s.now - reservation ≤ r.renamedAt → r ∈ l
  | _ => True

instance : DecidableRel UpToDate
  | _, .wait _ => .isTrue trivial
  | _, .commit .. => .isTrue trivial
  | s, .record i => inferInstanceAs (Decidable (∀ r ∈ s.unrecorded[i]?, Latest r s.known))
  | _, .recent => .isTrue trivial
  | s, .replaceAll => inferInstanceAs (Decidable (∀ l ∈ s.snapshot, ∀ r ∈ s.since,
      Latest r (s.known ++ l) → s.now - reservation ≤ r.renamedAt → r ∈ l))

end StarStats.IndexRefresh
