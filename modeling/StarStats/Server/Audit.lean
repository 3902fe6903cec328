import StarStats.Lib.Json
import StarStats.Lib.Sha256
import StarStats.Lib.Trans
import StarStats.Server.Repo

/-!
# The audit log (`starstats-server/src/audit.rs`, `migrations/0002_audit_log.sql`)

`write_one` as the steps of its transaction. The advisory lock lets one writer in at a time, over
all replicas; a replica without it waits, so it has no part in the state. The hash is taken over
`tail + 1` while the row gets the next value of a sequence that no rollback takes back.
-/

namespace StarStats

open Json (Value FloatText)
open Sha256 (Digest Bytes)

/-- `serde_json::Value`: its maps are ordered by key. -/
structure Payload (F : Type) where
  value : Value F
  sorted : value.Sorted

/-- A JSON object, as every caller of `append` passes. -/
def Payload.IsObject {F : Type} (p : Payload F) : Prop := ∃ ms, p.value = .object ms

structure AuditEntry (F : Type) where
  actorSub : Option String
  actorHandle : Option String
  action : String
  payload : Payload F

/-- A row of `audit_log`. -/
structure AuditRow (F : Type) where
  seq : Int
  occurredAt : Timestamp
  actorSub : Option String
  actorHandle : Option String
  action : String
  payload : Payload F
  prevHash : Digest
  rowHash : Digest

/-- 32 zero bytes. -/
def genesis : Digest where
  bytes := List.replicate 32 0
  length_eq := List.length_replicate

section
variable {F : Type} (ft : FloatText F)

/-! ## The hash -/

def canonicalize (v : Value F) : Bytes := Json.utf8 (v.sortKeys.text ft)

/-- The bytes fed to the hasher. -/
def hashInput (prevHash : Digest) (payload : Payload F) (seq : Int) : Bytes :=
  prevHash.bytes ++ canonicalize ft payload.value ++ Json.utf8 (Json.decimal seq)

def hashRow (prevHash : Digest) (payload : Payload F) (seq : Int) : Digest :=
  sha256 (hashInput ft prevHash payload seq)

/-! ## The table -/

/-- `ORDER BY seq`. -/
def inSeqOrder (rows : List (AuditRow F)) : List (AuditRow F) :=
  rows.insertionSort fun a b => a.seq ≤ b.seq

/-- `ORDER BY seq DESC LIMIT 1`. -/
def tailRow (rows : List (AuditRow F)) : Option (AuditRow F) := (inSeqOrder rows).getLast?

/-- The tail's `seq`; `0` for an empty table. -/
def tailSeq (rows : List (AuditRow F)) : Int := ((tailRow rows).map (·.seq)).getD 0

/-- The tail's `row_hash`, or the genesis value. -/
def tailHash (rows : List (AuditRow F)) : Digest := ((tailRow rows).map (·.rowHash)).getD genesis

/-! ## `write_one` -/

inductive AuditPhase (F : Type) where
  | locked
  /-- The tail is read and the hash can be computed. -/
  | read (nextSeq : Int) (prevHash : Digest)
  | inserted (row : AuditRow F)

structure AuditTx (F : Type) where
  replica : Nat
  entry : AuditEntry F
  occurredAt : Timestamp
  phase : AuditPhase F

structure AuditState (F : Type) where
  rows : List (AuditRow F)
  /-- The last value that the sequence of `seq` gave out; `0` before the first. -/
  lastValue : Int
  /-- The holder of the advisory lock. -/
  writer : Option (AuditTx F)

def AuditState.empty : AuditState F where
  rows := []
  lastValue := 0
  writer := none

inductive AuditAction (F : Type) where
  | lock (replica : Nat) (entry : AuditEntry F) (occurredAt : Timestamp)
  | readTail (replica : Nat)
  | insert (replica : Nat)
  | commit (replica : Nat)
  /-- The transaction fails at whatever statement it has come to. -/
  | rollback (replica : Nat)

/-- The row that `INSERT` makes: `seq` is the column's default. -/
def AuditTx.row (tx : AuditTx F) (seq nextSeq : Int) (prevHash : Digest) : AuditRow F where
  seq := seq
  occurredAt := tx.occurredAt
  actorSub := tx.entry.actorSub
  actorHandle := tx.entry.actorHandle
  action := tx.entry.action
  payload := tx.entry.payload
  prevHash := prevHash
  rowHash := hashRow ft prevHash tx.entry.payload nextSeq

/-- `audit_log_check_chain` and the table's unique keys. -/
def insertRefused (rows : List (AuditRow F)) (row : AuditRow F) : Bool :=
  row.prevHash ≠ tailHash rows || rows.any (·.rowHash = row.rowHash) || rows.any (·.seq = row.seq)

def auditStep (s : AuditState F) : AuditAction F → Option (AuditState F)
  | .lock replica entry occurredAt =>
    match s.writer with
    | some _ => none
    | none => some { s with writer := some ⟨replica, entry, occurredAt, .locked⟩ }
  | .readTail replica =>
    match s.writer with
    | none => none
    | some tx =>
      if tx.replica ≠ replica then none
      else match tx.phase with
      | .locked =>
        let phase := .read (tailSeq s.rows + 1) (tailHash s.rows)
        some { s with writer := some { tx with phase } }
      | _ => none
  | .insert replica =>
    match s.writer with
    | none => none
    | some tx =>
      if tx.replica ≠ replica then none
      else match tx.phase with
      | .read nextSeq prevHash =>
        -- the default is drawn before the trigger and the unique keys are checked
        let row := tx.row ft (s.lastValue + 1) nextSeq prevHash
        if insertRefused s.rows row then
          some { s with lastValue := s.lastValue + 1, writer := none }
        else
          some { s with
            lastValue := s.lastValue + 1, writer := some { tx with phase := .inserted row } }
      | _ => none
  | .commit replica =>
    match s.writer with
    | none => none
    | some tx =>
      if tx.replica ≠ replica then none
      else match tx.phase with
      | .inserted row => some { s with rows := s.rows ++ [row], writer := none }
      | _ => none
  | .rollback replica =>
    match s.writer with
    | none => none
    | some tx => if tx.replica ≠ replica then none else some { s with writer := none }

/-! ## Checking a chain -/

/-- A row's hash is that of its own columns and it links to the row before it. -/
def rowChecks (before : Option (AuditRow F)) (r : AuditRow F) : Bool :=
  r.rowHash = hashRow ft r.prevHash r.payload r.seq &&
    r.prevHash = (before.map (·.rowHash)).getD genesis

/-- Walk a table from its last row (the list is in descending order): the first row that does
not check. -/
def rewalk : List (AuditRow F) → Option (AuditRow F)
  | [] => none
  | r :: rs => if rowChecks ft rs.head? r then rewalk rs else some r

/-- Every row checks against the row with the next smaller `seq`. -/
def ChainVerifies (rows : List (AuditRow F)) : Prop :=
  ∀ older r newer, inSeqOrder rows = older ++ r :: newer →
    r.rowHash = hashRow ft r.prevHash r.payload r.seq ∧
      r.prevHash = (older.getLast?.map (·.rowHash)).getD genesis

/-- An append commits only when the sequence is one ahead of the tail: since the tail was
stored, no append has rolled back after drawing a value. -/
def NoValueBurnt (s : AuditState F) : AuditAction F → Prop
  | .commit _ => s.lastValue = tailSeq s.rows + 1
  | _ => True

/-- The rows with the `seq` that each was hashed with. -/
def hashedAs : Int → List (AuditRow F) → List (AuditRow F)
  | _, [] => []
  | prev, r :: rs => { r with seq := prev + 1 } :: hashedAs r.seq rs

/-- The columns that the hashes cover. -/
def covered (r : AuditRow F) : Int × Payload F × Digest × Digest :=
  (r.seq, r.payload, r.prevHash, r.rowHash)

/-- What re-walking a table hashes. -/
def hashInputs (rows : List (AuditRow F)) : List Bytes :=
  rows.map fun r => hashInput ft r.prevHash r.payload r.seq

end

end StarStats
