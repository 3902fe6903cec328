import StarStats.Lib.Trans
import StarStats.Server.HandleRenames

/-!
# Sign-ups and renames, statement by statement

The committed `users` and `handle_renames` under `READ COMMITTED`, and the claims on a handle under
way: a sign-up is one `INSERT … SELECT … WHERE NOT EXISTS`, whose condition is read when the
statement starts and whose row enters `users_handle_uq` later; a rename locks its row, asks
whether the handle is taken and whether it is reserved, each with the rows committed then, and
updates. A writer whose key another transaction has written, or is about to free, waits for that
transaction's end. What else can fail (the email's index, the other tables) is a rollback.
-/

namespace StarStats

open Text (lower)

/-- The row that a sign-up inserts. -/
def Account.created (id : Uuid) (handle : String) (now : Timestamp) : Account :=
  ⟨id, handle, none, none, none, none, none, now⟩

namespace HandleClaims

inductive Phase where
  /-- `SELECT … FOR UPDATE` has run. -/
  | locked
  /-- The handle was not taken. -/
  | notTaken
  /-- The handle was not held for another account. -/
  | checked
  /-- The row is in the unique index, uncommitted. -/
  | written
  deriving DecidableEq

inductive Source where
  | signUp
  | rename (account : Account) (kind : RenameKind) (startedAt : Timestamp)

structure Claim where
  userId : Uuid
  handle : String
  source : Source
  phase : Phase

/-- The committed handle that the claim's commit gives up. -/
def Claim.oldHandle (c : Claim) : Option String :=
  match c.source with
  | .signUp => none
  | .rename account _ _ => some account.claimedHandle

structure State where
  now : Timestamp
  users : List Account
  renames : List HandleRename
  /-- One for an account at most: a rename locks its row, a sign-up has a new key. -/
  claims : List Claim

def State.start (now : Timestamp) : State := ⟨now, [], [], []⟩

inductive Action where
  | wait (d : Nat)
  | signUp (userId : Uuid) (handle : String)
  | lock (userId : Uuid) (newHandle : String) (startedAt : Timestamp)
  | checkTaken (userId : Uuid)
  | checkReserved (userId : Uuid)
  | write (userId : Uuid)
  | commit (userId id : Uuid)
  | rollback (userId : Uuid)

namespace State

def claim? (s : State) (userId : Uuid) : Option Claim := s.claims.find? (·.userId = userId)

def setPhase (s : State) (userId : Uuid) (phase : Phase) : State :=
  { s with
    claims := s.claims.map fun c => if c.userId = userId then { c with phase := phase } else c }

/-- The transaction ends. -/
def close (s : State) (userId : Uuid) : State :=
  { s with claims := s.claims.filter (·.userId ≠ userId) }

/-- Another transaction has an uncommitted row with the claim's key, or has replaced one. -/
def waits (s : State) (c : Claim) : Bool :=
  s.claims.any fun c' => c'.userId != c.userId && c'.phase == .written &&
    (lower c'.handle == lower c.handle || c'.oldHandle.any (lower · == lower c.handle))

end State

def step (s : State) : Action → Option State
  | .wait d => some { s with now := s.now + d }
  | .signUp userId handle =>
    -- the key is new
    if s.users.any (·.id = userId) ∨ (s.claim? userId).isSome then none
    else if handleHeld s.renames handle s.now then some s
    else some { s with claims := s.claims ++ [⟨userId, handle, .signUp, .checked⟩] }
  | .lock userId newHandle startedAt =>
    if (s.claim? userId).isSome ∨ s.now < startedAt then none
    else
      match s.users.find? (·.id = userId) with
      | none => some s
      | some u =>
        match evaluateRename u.renameSubject newHandle startedAt with
        | .error _ => some s
        | .ok kind =>
          let phase := if Text.eqIgnoreAsciiCase u.claimedHandle newHandle then .checked else .locked
          some { s with
            claims := s.claims ++ [⟨userId, newHandle, .rename u kind startedAt, phase⟩] }
  | .checkTaken userId =>
    match s.claim? userId with
    | some ⟨_, handle, .rename .., .locked⟩ =>
      some (if handleTaken s.users userId handle then s.close userId
        else s.setPhase userId .notTaken)
    | _ => none
  | .checkReserved userId =>
    match s.claim? userId with
    | some ⟨_, handle, .rename _ _ startedAt, .notTaken⟩ =>
      some (if handleReserved s.renames userId handle startedAt then s.close userId
        else s.setPhase userId .checked)
    | _ => none
  | .write userId =>
    match s.claim? userId with
    | some c =>
      if c.phase ≠ .checked ∨ s.waits c then none
      else some (if handleTaken s.users userId c.handle then s.close userId
        else s.setPhase userId .written)
    | none => none
  | .commit userId id =>
    match s.claim? userId with
    | some ⟨_, handle, .signUp, .written⟩ =>
      some { s.close userId with users := s.users ++ [.created userId handle s.now] }
    | some ⟨_, handle, .rename u kind startedAt, .written⟩ =>
      some
        { s.close userId with
          users := s.users.map fun v => if v.id = userId then u.renamed handle startedAt else v
          renames := s.renames ++ [u.renameRecord id handle kind startedAt] }
    | _ => none
  | .rollback userId => if (s.claim? userId).isSome then some (s.close userId) else none

/-- No account holds a handle that is held for another. -/
def HeldSafe (s : State) : Prop :=
  ∀ r ∈ s.renames, s.now < r.reservedUntil → ∀ u ∈ s.users,
    lower u.claimedHandle = lower r.oldHandle → u.id = r.userId

/-- When a rename commits, no claim on the handle that it gives up has passed its check and not
yet written. -/
def NoneBetween (s : State) : Action → Prop
  | .commit userId _ => ∀ c ∈ s.claims, c.userId = userId → ∀ h ∈ c.oldHandle,
      ∀ c' ∈ s.claims, c'.userId ≠ userId → c'.phase = .checked → lower c'.handle ≠ lower h
  | _ => True

instance : DecidableRel NoneBetween
  | _, .wait _ => .isTrue trivial
  | _, .signUp .. => .isTrue trivial
  | _, .lock .. => .isTrue trivial
  | _, .checkTaken _ => .isTrue trivial
  | _, .checkReserved _ => .isTrue trivial
  | _, .write _ => .isTrue trivial
  | s, .commit userId _ => inferInstanceAs (Decidable (∀ c ∈ s.claims, c.userId = userId →
      ∀ h ∈ c.oldHandle, ∀ c' ∈ s.claims, c'.userId ≠ userId → c'.phase = .checked →
        lower c'.handle ≠ lower h))
  | _, .rollback _ => .isTrue trivial

end HandleClaims

end StarStats
