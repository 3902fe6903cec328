import StarStats.Lib.Keyed
import StarStats.Lib.Text
import StarStats.Lib.Trans
import StarStats.Server.Auth

/-!
# Pairing of devices (`devices.rs`, `auth_routes.rs`)

The pairings and devices of one account. `redeem` is a transaction, statement by statement: it
locks the row of its code until it ends, and the device that it inserts is seen by others when it
commits. A password rotation stores the new hash and then revokes every device that is there, in
two statements. `create_pairing`, `revoke` and `revoke_all_for_user` are a statement each. `NOW()`
is the start of the transaction.

Beside the tables, a pairing keeps how many passwords had been stored when it was issued, and a
device the code that it was paired with.
-/

namespace StarStats

namespace Pairing

structure Row where
  code : String
  label : String
  expiresAt : Timestamp
  redeemedAt : Option Timestamp
  /-- The passwords stored before it was issued. -/
  issuedAfter : Nat
  deriving DecidableEq

structure Device where
  id : Uuid
  label : String
  createdAt : Timestamp
  revokedAt : Option Timestamp
  /-- The code that it was paired with. -/
  code : String
  deriving DecidableEq

inductive DeviceError where
  | unknownCode
  | alreadyRedeemed
  | expired
  | deviceNotFound
  | database
  deriving DecidableEq

/-- `device_pairings`. -/
abbrev Pairings := Keyed Row.code

abbrev Devices := Keyed Device.id

/-- `PAIRING_TTL`, in microseconds. -/
def pairingTtl : Int := 5 * 60 * 1000000

def defaultLabel : String := "Desktop client"

/-- `create_pairing`, with the codes that it draws: the first of five that is new. -/
def createPairing (t : Pairings) (label : String) (codes : List String) (expiresAt : Timestamp)
    (passwords : Nat) : Except DeviceError Row × Pairings :=
  let label := if Text.trim label = "" then defaultLabel else label
  match (codes.take 5).find? fun code => t.get code = none with
  | some code =>
    let row : Row := ⟨code, label, expiresAt, none, passwords⟩
    (.ok row, t.insertNew row)
  | none => (.error .database, t)

/-- `SET redeemed_at = NOW()`. -/
def Row.redeem (now : Timestamp) (row : Row) : Row := { row with redeemedAt := some now }

theorem Row.code_redeem (now : Timestamp) (row : Row) : (row.redeem now).code = row.code := rfl

/-- `SET revoked_at = COALESCE(revoked_at, NOW())`. -/
def Device.revoke (now : Timestamp) (d : Device) : Device :=
  { d with revokedAt := some (d.revokedAt.getD now) }

theorem Device.id_revoke (now : Timestamp) (d : Device) : (d.revoke now).id = d.id := rfl

def revoke (t : Devices) (id : Uuid) (now : Timestamp) : Except DeviceError Devices :=
  if t.get id = none then .error .deviceNotFound
  else .ok (t.modify id (Device.revoke now) (Device.id_revoke now))

/-- `WHERE … revoked_at IS NULL`. -/
def Device.revokeActive (now : Timestamp) (d : Device) : Device :=
  if d.revokedAt.isNone then d.revoke now else d

theorem Device.id_revokeActive (now : Timestamp) (d : Device) :
    (d.revokeActive now).id = d.id := by
  unfold revokeActive
  split <;> rfl

def revokeAllForUser (t : Devices) (now : Timestamp) : Devices :=
  t.map (Device.revokeActive now) (Device.id_revokeActive now)

/-! ## The transaction of a redeem -/

/-- The statement or check that comes next. -/
inductive Phase where
  | lock
  | check (row : Row)
  | insert (label : String)
  | update (deviceId : Uuid) (label : String)
  | commit (deviceId : Uuid) (label : String)
  | done (answer : Except DeviceError Uuid)
  deriving DecidableEq

/-- The transaction has the lock on its code. -/
def Phase.holding : Phase → Bool
  | .lock | .done _ => false
  | _ => true

structure Redeem where
  code : String
  startedAt : Timestamp
  phase : Phase
  deriving DecidableEq

/-- A password rotation whose password is stored; `number` counts the passwords. -/
structure Rotation where
  number : Nat
  finished : Bool
  deriving DecidableEq

structure State where
  now : Timestamp
  /-- How many passwords have been stored. -/
  passwords : Nat
  pairings : Pairings
  devices : Devices
  redeems : List Redeem
  rotations : List Rotation
  deriving DecidableEq

def State.start (now : Timestamp) : State := ⟨now, 0, .empty, .empty, [], []⟩

inductive Action where
  | wait (d : Nat)
  | createPairing (label : String) (codes : List String) (startedAt : Timestamp)
  | redeem (code : String)
  /-- What comes next in a redeem, with the id that it draws. -/
  | next (call : Nat) (id : Uuid)
  | fail (call : Nat)
  | revoke (id : Uuid)
  | storePassword
  /-- `revoke_all_for_user` of a rotation. -/
  | revokeAll (rotation : Nat)
  deriving DecidableEq

namespace State

def go (s : State) (i : Nat) (r : Redeem) (phase : Phase) : State :=
  { s with redeems := s.redeems.set i { r with phase := phase } }

/-- Some transaction has the lock on the code. -/
def locked (s : State) (code : String) : Bool :=
  s.redeems.any fun r => r.code = code && r.phase.holding

/-- The commit of a redeem. -/
def commit (s : State) (i : Nat) (r : Redeem) (deviceId : Uuid) (label : String) : State :=
  { s.go i r (.done (.ok deviceId)) with
    pairings := s.pairings.modify r.code (Row.redeem r.startedAt) (Row.code_redeem r.startedAt)
    devices := s.devices.insertNew ⟨deviceId, label, r.startedAt, none, r.code⟩ }

end State

/-- After the lock. -/
def Phase.locked : Option Row → Phase
  | some row => .check row
  | none => .done (.error .unknownCode)

def Phase.checked (now : Timestamp) (row : Row) : Phase :=
  if row.redeemedAt.isSome then .done (.error .alreadyRedeemed)
  else if row.expiresAt < now then .done (.error .expired)
  else .insert row.label

def step (s : State) : Action → Option State
  | .wait d => some { s with now := s.now + d }
  | .createPairing label codes startedAt =>
    if startedAt ≤ s.now then
      some { s with
        pairings :=
          (createPairing s.pairings label codes (startedAt + pairingTtl) s.passwords).2 }
    else none
  | .redeem code => some { s with redeems := s.redeems ++ [⟨code, s.now, .lock⟩] }
  | .next i id =>
    match s.redeems[i]? with
    | none => none
    | some r =>
      match r.phase with
      | .lock => if s.locked r.code then none else some (s.go i r (.locked (s.pairings.get r.code)))
      | .check row => some (s.go i r (.checked s.now row))
      | .insert label => some (s.go i r (.update id label))
      | .update deviceId label => some (s.go i r (.commit deviceId label))
      | .commit deviceId label =>
        -- a device with the id fails the insert
        if s.devices.get deviceId = none then some (s.commit i r deviceId label) else none
      | .done _ => none
  | .fail i =>
    match s.redeems[i]? with
    | none => none
    | some r =>
      match r.phase with
      | .done _ => none
      | _ => some (s.go i r (.done (.error .database)))
  | .revoke id =>
    match revoke s.devices id s.now with
    | .ok devices => some { s with devices := devices }
    | .error _ => some s
  | .storePassword =>
    some { s with
      passwords := s.passwords + 1
      rotations := s.rotations ++ [⟨s.passwords + 1, false⟩] }
  | .revokeAll i =>
    match s.rotations[i]? with
    | some ⟨number, false⟩ =>
      some { s with
        devices := revokeAllForUser s.devices s.now
        rotations := s.rotations.set i ⟨number, true⟩ }
    | _ => none

/-! ## The cut -/

/-- An active device was paired with a code that was issued after the password of every finished
rotation was stored. -/
def CutOff (s : State) : Prop :=
  ∀ r ∈ s.rotations, r.finished = true → ∀ d ∈ s.devices.rows, d.revokedAt = none →
    ∃ row, s.pairings.get d.code = some row ∧ r.number ≤ row.issuedAfter

/-- The code of a redeem that is about to commit. -/
def Redeem.committing (r : Redeem) : Option String :=
  match r.phase with
  | .commit .. => some r.code
  | _ => none

/-- A redeem commits only with a code that was issued after the password of every finished
rotation was stored. -/
def Current (s : State) : Action → Prop
  | .next i _ => ∀ c ∈ s.redeems[i]?, ∀ code ∈ c.committing, ∀ r ∈ s.rotations,
    r.finished = true → ∀ row ∈ s.pairings.get code, r.number ≤ row.issuedAfter
  | _ => True

instance : DecidableRel Current := fun s act =>
  match act with
  | .next i _ => inferInstanceAs (Decidable (∀ c ∈ s.redeems[i]?, ∀ code ∈ c.committing,
    ∀ r ∈ s.rotations, r.finished = true → ∀ row ∈ s.pairings.get code,
      r.number ≤ row.issuedAfter))
  | .wait _ | .createPairing .. | .redeem _ | .fail _ | .revoke _ | .storePassword
  | .revokeAll _ => .isTrue trivial

end Pairing

end StarStats
