import StarStats.Lib.Trans
import StarStats.Server.HandleRenames
import StarStats.Server.Ingest

/-!
# Ingest while the account is renamed

One account on one server. An ingest request is extracted (the token's handle is resolved against
the index), then checked (`admitExtracted`, the rest of the handler before its first write), then
inserted under the handle it carries. A rename updates `events` with the rows committed when its
statement runs, commits later, and is recorded in the index after that. What else the transaction
checks is left open: it may roll back at any point.
-/

namespace StarStats

open Text (lower)

/-- `handle` from the end of the extractors to the first write. -/
def admitExtracted (env : AuthEnv) (user : AuthenticatedUser) (batch : IngestBatch) :
    Except Refusal Admitted :=
  if batch.schemaVersion < 1 ∨ currentSchemaVersion < batch.schemaVersion then
    .error (refuse 400 "unsupported_schema_version" (some ("got " ++ toString batch.schemaVersion ++
      ", server speaks 1..=" ++ toString currentSchemaVersion)))
  else if (Text.trim batch.claimedHandle).isEmpty then
    .error (refuse 400 "missing_claimed_handle" none)
  else
    let restamped := restamp env user batch
    let batch := restamped.1
    if !Text.eqIgnoreAsciiCase batch.claimedHandle user.preferredUsername then
      .error (refuse 403 "handle_mismatch"
        (some "claimed_handle does not match authenticated identity"))
    else
      match enforceDeviceSyncGate env user with
      | some r => .error r
      | none =>
        let canonicalHandle := lower batch.claimedHandle
        .ok
          { user := user
            batch := { batch with events := batch.events.map (backfillMetadata canonicalHandle) }
            canonicalHandle := canonicalHandle
            handleChanged := restamped.2 }

/-- With nothing in between, the two parts are the handler's checks. -/
theorem admitBatch_eq (env : AuthEnv) (bearer : Option String) (batch : IngestBatch) :
    admitBatch env bearer batch =
      (env.requireUnrestricted .ingest bearer).bind (admitExtracted env · batch) := by
  unfold admitBatch
  cases env.requireUnrestricted .ingest bearer with
  | error r => rfl
  | ok user => rfl

namespace IngestRenames

/-- A row of `events`; `own` when it was accepted for the account. -/
structure OwnedEvent where
  row : EventRow
  own : Bool

/-- A rename between its `UPDATE events` and its end. -/
structure RunningRename where
  newHandle : String
  kind : RenameKind
  now : Timestamp
  /-- How many rows its statement saw. -/
  seen : Nat

structure State where
  account : Account
  events : List OwnedEvent
  index : HandleIndex
  running : Option RunningRename
  /-- Committed and not yet in the index. -/
  unrecorded : List HandleRename
  extracted : List (AuthenticatedUser × IngestBatch)
  admitted : List Admitted

def State.start (account : Account) (others : List EventRow) (index : HandleIndex) : State :=
  ⟨account, others.map (⟨·, false⟩), index, none, [], [], []⟩

inductive Action where
  | extract (env : AuthEnv) (bearer : Option String) (batch : IngestBatch)
  | check (env : AuthEnv) (i : Nat)
  | insert (i : Nat) (now : Timestamp) (fails : Bool)
  | updateEvents (newHandle : String) (now : Timestamp)
  | commit (id : Uuid)
  | rollback
  | record (i : Nat)

/-- The row with its handle rewritten, where it is the old one. -/
def renameEvent (oldHandle newHandle : String) (r : EventRow) : EventRow :=
  if lower r.claimedHandle = lower oldHandle then
    { r with claimedHandle := respell newHandle r.claimedHandle }
  else r

/-- The first `seen` rows are rewritten; the later ones were not there. -/
def renameEvents (oldHandle newHandle : String) (seen : Nat) (events : List OwnedEvent) :
    List OwnedEvent :=
  (events.take seen).map (fun e => { e with row := renameEvent oldHandle newHandle e.row }) ++
    events.drop seen

/-- An `INSERT` with the key or the content of a row that a transaction is rewriting waits for
it. -/
def State.waits (s : State) (rows : List StoredEvent) : Bool :=
  match s.running with
  | none => false
  | some tx => (s.events.take tx.seen).any fun e =>
      lower e.row.claimedHandle == lower s.account.claimedHandle &&
        rows.any fun r => e.row.conflicts r ||
          (renameEvent s.account.claimedHandle tx.newHandle e.row).conflicts r

section
variable (parseEventTimestamp : String → Option Timestamp)

/-- What the request's `insert_batch` adds to `events`. -/
def State.inserts (s : State) (now : Timestamp) (adm : Admitted) : List EventRow :=
  insertNew now (s.events.map (·.row))
    (toInsert parseEventTimestamp adm.canonicalHandle adm.batch.events)

def step (s : State) : Action → Option State
  | .extract env bearer batch =>
    match { env with handleIndex := some s.index }.requireUnrestricted .ingest bearer with
    | .error _ => some s
    | .ok user =>
      -- a request of another account is no step of this system
      if env.parseUuid user.sub = some s.account.id then
        some { s with extracted := s.extracted ++ [(user, batch)] }
      else none
  | .check env i =>
    s.extracted[i]?.map fun req =>
      let s := { s with extracted := s.extracted.eraseIdx i }
      match admitExtracted { env with handleIndex := some s.index } req.1 req.2 with
      | .error _ => s
      | .ok adm => { s with admitted := s.admitted ++ [adm] }
  | .insert i now fails =>
    match s.admitted[i]? with
    | none => none
    | some adm =>
      let rest := { s with admitted := s.admitted.eraseIdx i }
      if fails then some rest
      else if s.waits (toInsert parseEventTimestamp adm.canonicalHandle adm.batch.events) then none
      else
        let rows := s.inserts parseEventTimestamp now adm
        some { rest with events := s.events ++ rows.map (⟨·, true⟩) }
  | .updateEvents newHandle now =>
    match s.running, evaluateRename s.account.renameSubject newHandle now with
    | none, .ok kind => some { s with running := some ⟨newHandle, kind, now, s.events.length⟩ }
    | _, _ => none
  | .commit id =>
    s.running.map fun tx =>
      { s with
        account := s.account.renamed tx.newHandle tx.now
        events := renameEvents s.account.claimedHandle tx.newHandle tx.seen s.events
        running := none
        unrecorded := s.unrecorded ++ [s.account.renameRecord id tx.newHandle tx.kind tx.now] }
  | .rollback => s.running.map fun _ => { s with running := none }
  | .record i =>
    s.unrecorded[i]?.map fun r =>
      { s with index := s.index.record r, unrecorded := s.unrecorded.eraseIdx i }

/-- Every event accepted for the account is stored under its current handle. -/
def Stored (s : State) : Prop :=
  ∀ e ∈ s.events, e.own = true → e.row.claimedHandle = lower s.account.claimedHandle

/-- Every request and every rename has finished. -/
def State.Idle (s : State) : Prop :=
  s.running = none ∧ s.unrecorded = [] ∧ s.extracted = [] ∧ s.admitted = []

/-- No rename overtakes the step: an insert that adds a row carries the handle that the account
still has, and a rename commits when no row of the account came after its `UPDATE events`. -/
def NotOvertaken (s : State) : Action → Prop
  | .insert i now fails => ∀ adm, s.admitted[i]? = some adm →
      fails = true ∨ s.inserts parseEventTimestamp now adm = [] ∨
        adm.canonicalHandle = lower s.account.claimedHandle
  | .commit _ => ∀ tx, s.running = some tx →
      lower tx.newHandle = lower s.account.claimedHandle ∨
        ∀ e ∈ s.events.drop tx.seen, e.own = false
  | _ => True

end

end IngestRenames

end StarStats
