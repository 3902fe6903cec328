import StarStats.Core.Validators
import StarStats.Server.Auth

/-!
# The ingest handler (`starstats-server/src/ingest.rs`)

`handle` in two parts: `admitBatch`, everything that can refuse the request and reads no event, and
`storeBatch`, which validates, quarantines and inserts. The calls into the store that fail are
given by `StoreFaults`; the answer is 200 whichever do.
-/

namespace StarStats

structure HandleChanged where
  claimedHandle : String
  deviceToken : Option String
  deriving DecidableEq

structure IngestResponse where
  batchId : String
  accepted : Nat
  duplicate : Nat
  rejected : Nat
  handleChanged : Option HandleChanged
  deriving DecidableEq

/-- The payload of the audit entry `ingest.batch_processed`, and its actor. -/
structure IngestAudit where
  actorSub : String
  actorHandle : String
  batchId : String
  claimedHandle : String
  gameBuild : Option String
  collectorVersion : Option String
  parserVersion : Option UInt32
  batchSequence : Option UInt64
  contentHash : Option String
  sourceRange : Option SourceRange
  deviceId : Option Uuid
  total : Nat
  accepted : Nat
  duplicate : Nat
  rejected : Nat
  deriving DecidableEq

/-- Which calls into the store fail during a request; one that fails changes nothing. -/
structure StoreFaults where
  /-- By the position of the envelope in the batch. -/
  quarantine : Nat → Bool
  insertBatch : Bool
  observeBatchSequence : Bool

def StoreFaults.none : StoreFaults where
  quarantine _ := false
  insertBatch := false
  observeBatchSequence := false

/-! ## Admission -/

/-- A batch that passed every check, under the handle its events are stored with. -/
structure Admitted where
  user : AuthenticatedUser
  batch : IngestBatch
  canonicalHandle : String
  handleChanged : Option HandleChanged

section
variable (env : AuthEnv)

/-- A batch that names one of the account's own previous handles is taken under the current
one. -/
def restamp (user : AuthenticatedUser) (batch : IngestBatch) : IngestBatch × Option HandleChanged :=
  if Text.eqIgnoreAsciiCase batch.claimedHandle user.preferredUsername then (batch, none)
  else
    let renamed := env.handleIndex.bind fun index => (env.parseUuid user.sub).bind index
    match renamed.filter fun acct =>
        acct.previousHandles.any (Text.eqIgnoreAsciiCase · batch.claimedHandle) with
    | none => (batch, none)
    | some acct =>
      let deviceToken := user.deviceId.bind (env.signDevice user.sub acct.currentHandle)
      ({ batch with claimedHandle := acct.currentHandle },
        some ⟨acct.currentHandle, deviceToken⟩)

def rejectSync (detail : String) : Refusal := refuse 403 "device_sync_disabled" (some detail)

/-- A device may upload only while its sync is enabled on the server. -/
def enforceDeviceSyncGate (user : AuthenticatedUser) : Option Refusal :=
  if user.tokenType ≠ .device then none
  else
    match user.deviceId with
    | none => some (rejectSync "device token without device_id claim")
    | some deviceId =>
      match env.parseUuid user.sub with
      | none => some (refuse 500 "bad_subject" none)
      | some userId =>
        match env.syncEnabledFor userId deviceId with
        | .ok (some true) => none
        | .ok _ => some (rejectSync ("this uplink's sync is disabled — re-enable from the " ++
            "Connected Uplinks page or from the tray's Cloud sync toggle"))
        | .error () => some (refuse 500 "internal" none)

/-- Observed metadata for an envelope that came without. -/
def backfillMetadata (canonicalHandle : String) (e : EventEnvelope) : EventEnvelope :=
  match e.metadata, e.event with
  | none, some event => { e with metadata := some (stamp event (some canonicalHandle)) }
  | _, _ => e

def admitBatch (bearer : Option String) (batch : IngestBatch) : Except Refusal Admitted :=
  match env.requireUnrestricted .ingest bearer with
  | .error r => .error r
  | .ok user =>
    if batch.schemaVersion < 1 ∨ currentSchemaVersion < batch.schemaVersion then
      .error (refuse 400 "unsupported_schema_version" (some ("got " ++ toString batch.schemaVersion ++
        ", server speaks 1..=" ++ toString currentSchemaVersion)))
    else if (Text.trim batch.claimedHandle).isEmpty then
      .error (refuse 400 "missing_claimed_handle" none)
    else
      let restamped := restamp env user batch
      let batch := restamped.1
      if !Text.eqIgnoreAsciiCase batch.claimedHandle user.preferredUsername then
        .error (refuse 403 "handle_mismatch"
          (some "claimed_handle does not match authenticated identity"))
      else
        match enforceDeviceSyncGate env user with
        | some r => .error r
        | none =>
          let canonicalHandle := Text.lower batch.claimedHandle
          .ok
            { user := user
              batch := { batch with events := batch.events.map (backfillMetadata canonicalHandle) }
              canonicalHandle := canonicalHandle
              handleChanged := restamped.2 }

end

/-! ## Storing -/

/-- The envelope passes `validate_event`. -/
def isValid (e : EventEnvelope) : Bool :=
  match validateEvent e with
  | .ok () => true
  | .error _ => false

def quarantinedEvent (canonicalHandle : String) (e : EventEnvelope) (err : ValidationError) :
    QuarantinedEvent where
  idempotencyKey := e.idempotencyKey
  claimedHandle := canonicalHandle
  reason := "validation"
  detail := some err.message
  logSource := e.source
  sourceOffset := e.sourceOffset.toInt64
  rawLine := e.rawLine
  payload := e.event

/-- Quarantine the envelopes that fail validation; the first is at position `i`. -/
def quarantineRejects (faults : StoreFaults) (canonicalHandle : String) :
    Nat → List EventEnvelope → Db → Db
  | _, [], db => db
  | i, e :: es, db =>
    quarantineRejects faults canonicalHandle (i + 1) es <|
      match validateEvent e with
      | .ok () => db
      | .error err =>
        if faults.quarantine i then db else quarantine (quarantinedEvent canonicalHandle e err) db

section
variable (parseEventTimestamp : String → Option Timestamp)

def toInsert (canonicalHandle : String) (events : List EventEnvelope) : List StoredEvent :=
  (events.filter isValid).map (fromEnvelope parseEventTimestamp · canonicalHandle)

structure StoreCounts where
  accepted : Nat
  duplicate : Nat
  rejected : Nat

def storeBatch (faults : StoreFaults) (now : Timestamp) (adm : Admitted) (db : Db) :
    StoreCounts × Db :=
  let rejectedValidation := adm.batch.events.countP (!isValid ·)
  let db := quarantineRejects faults adm.canonicalHandle 0 adm.batch.events db
  let rows := toInsert parseEventTimestamp adm.canonicalHandle adm.batch.events
  if faults.insertBatch then (⟨0, 0, rejectedValidation + rows.length⟩, db)
  else
    let r := insertBatch now rows db
    (⟨r.1.count .inserted, r.1.count .duplicate, rejectedValidation⟩, r.2)

/-- The ordinal of a device's batch moves the device's mark. -/
def observeSequence (faults : StoreFaults) (adm : Admitted) (db : Db) : Db :=
  match adm.user.deviceId, adm.batch.batchSequence with
  | some deviceId, some seq =>
    if faults.observeBatchSequence then db else (observeBatchSequence deviceId seq.toInt64 db).2
  | _, _ => db

structure IngestResult where
  reply : Except Refusal IngestResponse
  db : Db
  audit : Option IngestAudit

/-- `handle`. -/
def handleIngest (env : AuthEnv) (faults : StoreFaults) (now : Timestamp)
    (bearer : Option String) (batch : IngestBatch) (db : Db) : IngestResult :=
  match admitBatch env bearer batch with
  | .error r => ⟨.error r, db, none⟩
  | .ok adm =>
    let stored := storeBatch parseEventTimestamp faults now adm db
    let counts := stored.1
    { reply := .ok
        { batchId := adm.batch.batchId
          accepted := counts.accepted
          duplicate := counts.duplicate
          rejected := counts.rejected
          handleChanged := adm.handleChanged }
      db := observeSequence faults adm stored.2
      audit := some
        { actorSub := adm.user.sub
          actorHandle := Text.lower adm.user.preferredUsername
          batchId := adm.batch.batchId
          claimedHandle := adm.batch.claimedHandle
          gameBuild := adm.batch.gameBuild
          collectorVersion := adm.batch.collectorVersion
          parserVersion := adm.batch.parserVersion
          batchSequence := adm.batch.batchSequence
          contentHash := adm.batch.contentHash
          sourceRange := adm.batch.sourceRange
          deviceId := adm.user.deviceId
          total := adm.batch.events.length
          accepted := counts.accepted
          duplicate := counts.duplicate
          rejected := counts.rejected } }

end

end StarStats
