import StarStats.Core.ContractLife
import StarStats.Core.Wire
import StarStats.Lib.Sql
import StarStats.Lib.Text

/-!
# The event store (`starstats-server/src/repo.rs`)

The tables behind the ingest path and the statements that write them. Tables keyed by handle
are functions of the handle; `events` is a list in insertion order.

`insertBatch` is one atomic statement: insert the rows that hit neither unique index (`ins`),
add them to the running counts (`roll`), mark each touched handle dirty (`dirty`).
-/

namespace StarStats

/-- Microseconds since the epoch, the resolution of `TIMESTAMPTZ`. -/
abbrev Timestamp := Int

structure StoredEvent where
  idempotencyKey : String
  claimedHandle : String
  eventType : String
  eventTimestamp : Option Timestamp
  logSource : LogSource
  sourceOffset : Int64
  rawLine : String
  /-- The serialised event; `none` is the JSON `null`. -/
  payload : Option GameEvent
  metadata : Option EventMetadata
  resolvedLocation : Option ResolvedLocation
  deriving DecidableEq

/-- A row of `events`. -/
structure EventRow extends StoredEvent where
  receivedAt : Timestamp
  hiddenAt : Option Timestamp
  deriving DecidableEq

inductive InsertOutcome where
  | inserted
  | duplicate
  deriving DecidableEq

/-- A row of `quarantined_events`. -/
structure QuarantinedEvent where
  idempotencyKey : String
  claimedHandle : String
  reason : String
  detail : Option String
  logSource : LogSource
  sourceOffset : Int64
  rawLine : String
  payload : Option GameEvent
  deriving DecidableEq

/-- A row of `stat_event_counts`. -/
structure CountRow where
  eventCount : Nat
  firstSeenAt : Option Timestamp
  lastSeenAt : Option Timestamp
  deriving DecidableEq

/-- A row of `stat_rollup_state`. -/
structure RollupRow where
  sessionsDirty : Bool
  contractsDirty : Bool
  sessionsDirtyFromTs : Option Timestamp
  rebuiltAt : Option Timestamp
  updatedAt : Timestamp
  deriving DecidableEq

/-- A row of `session_summary`. -/
structure SessionRow where
  /-- The ordinal behind the `TEXT` key. -/
  sessionId : Nat
  startedAt : Option Timestamp
  endedAt : Option Timestamp
  eventCount : Nat
  deathCount : Nat
  deriving DecidableEq

/-- A row of `entity_rollup_agg`. -/
structure EntityAggRow where
  entityKind : EntityKind
  entityId : String
  displayName : Option String
  eventCount : Nat
  sessionCount : Nat
  firstSeenAt : Option Timestamp
  lastSeenAt : Option Timestamp
  deriving DecidableEq

/-- A row of `contract_runs`. -/
structure ContractRunRow where
  missionId : String
  name : String
  state : String
  closedBy : String
  stepCount : Int32
  stepsComplete : Int32
  stepsRemaining : Int32
  partialHistory : Bool
  connectedServer : Option String
  acceptedAt : Option Timestamp
  closedAt : Option Timestamp
  lastEventAt : Option Timestamp
  steps : List ContractStep
  deriving DecidableEq

structure Db where
  events : List EventRow
  counts : String → String → Option CountRow
  rollup : String → Option RollupRow
  sessions : String → List SessionRow
  entityAgg : String → List EntityAggRow
  contractRuns : String → List ContractRunRow
  quarantined : List QuarantinedEvent
  batchProgress : String → Option Int64

namespace Db

def empty : Db where
  events := []
  counts _ _ := none
  rollup _ := none
  sessions _ := []
  entityAgg _ := []
  contractRuns _ := []
  quarantined := []
  batchProgress _ := none

/-- The handle's rows of `events`. -/
def eventsOf (db : Db) (handle : String) : List EventRow :=
  db.events.filter (·.claimedHandle = handle)

end Db

/-! ## The unique indexes of `events` -/

/-- Equal under `events_handle_idem_uq`. -/
def StoredEvent.sameKey (a b : StoredEvent) : Bool :=
  a.claimedHandle == b.claimedHandle && a.idempotencyKey == b.idempotencyKey

/-- Equal under `events_content_uq` (its digests taken as exact). -/
def StoredEvent.sameContent (a b : StoredEvent) : Bool :=
  a.claimedHandle == b.claimedHandle && a.eventType == b.eventType &&
    a.eventTimestamp == b.eventTimestamp && a.rawLine == b.rawLine && a.payload == b.payload

def StoredEvent.conflicts (a b : StoredEvent) : Bool := a.sameKey b || a.sameContent b

/-- `INSERT … ON CONFLICT DO NOTHING RETURNING`: the rows inserted, in order. A row skips when
it conflicts with a stored row or with one inserted just before it. -/
def insertNew (now : Timestamp) (stored : List EventRow) : List StoredEvent → List EventRow
  | [] => []
  | e :: es =>
    if stored.any (·.conflicts e) then insertNew now stored es
    else
      let row : EventRow := { toStoredEvent := e, receivedAt := now, hiddenAt := none }
      row :: insertNew now (stored ++ [row]) es

/-! ## Counts -/

/-- The rows of one `(claimed_handle, event_type)`. -/
def rowsOfType (handle ty : String) (rows : List EventRow) : List EventRow :=
  rows.filter fun r => r.claimedHandle = handle ∧ r.eventType = ty

/-- `COUNT(*), MIN(event_timestamp), MAX(event_timestamp)` of one group; no row for none. -/
def countGroup (handle ty : String) (rows : List EventRow) : Option CountRow :=
  match rowsOfType handle ty rows with
  | [] => none
  | group => some
    { eventCount := group.length
      firstSeenAt := Sql.minOf (group.map (·.eventTimestamp))
      lastSeenAt := Sql.maxOf (group.map (·.eventTimestamp)) }

/-- The `DO UPDATE` arm of `roll`. -/
def CountRow.add (old new : CountRow) : CountRow where
  eventCount := old.eventCount + new.eventCount
  firstSeenAt := Sql.least old.firstSeenAt new.firstSeenAt
  lastSeenAt := Sql.greatest old.lastSeenAt new.lastSeenAt

/-- The `roll` part for the inserted rows `ins`. -/
def rollCounts (ins : List EventRow) (counts : String → String → Option CountRow)
    (handle ty : String) : Option CountRow :=
  match countGroup handle ty ins, counts handle ty with
  | none, old => old
  | some new, none => some new
  | some new, some old => some (old.add new)

/-! ## The dirty mark -/

/-- The `INSERT` arm of `dirty`, with the column defaults. -/
def RollupRow.fresh (now : Timestamp) (fromTs : Option Timestamp) : RollupRow where
  sessionsDirty := true
  contractsDirty := true
  sessionsDirtyFromTs := fromTs
  rebuiltAt := none
  updatedAt := now

/-- The `DO UPDATE` arm of `dirty`. Dirty without a watermark owes a full rebuild, and that
is kept. -/
def RollupRow.dirtied (now : Timestamp) (fromTs : Option Timestamp) (row : RollupRow) :
    RollupRow where
  sessionsDirty := true
  contractsDirty := true
  sessionsDirtyFromTs :=
    if row.sessionsDirty ∧ row.sessionsDirtyFromTs = none then none
    else Sql.least row.sessionsDirtyFromTs fromTs
  rebuiltAt := row.rebuiltAt
  updatedAt := now

/-- `INSERT … ON CONFLICT (claimed_handle) DO UPDATE` of `dirty`. -/
def dirtyRow (now : Timestamp) (fromTs : Option Timestamp) : Option RollupRow → RollupRow
  | none => .fresh now fromTs
  | some row => row.dirtied now fromTs

/-- The `dirty` part for the inserted rows `ins`. -/
def markDirty (now : Timestamp) (ins : List EventRow) (rollup : String → Option RollupRow)
    (handle : String) : Option RollupRow :=
  match ins.filter (·.claimedHandle = handle) with
  | [] => rollup handle
  | group => some (dirtyRow now (Sql.minOf (group.map (·.eventTimestamp))) (rollup handle))

/-! ## The store's operations -/

/-- What one `insert_batch` statement inserts. -/
def Db.inserted (db : Db) (now : Timestamp) (events : List StoredEvent) : List EventRow :=
  insertNew now db.events events

/-- The state after the statement inserted `ins`. -/
def Db.commitInserted (db : Db) (now : Timestamp) (ins : List EventRow) : Db :=
  { db with
    events := db.events ++ ins
    counts := rollCounts ins db.counts
    rollup := markDirty now ins db.rollup }

def insertBatch (now : Timestamp) (events : List StoredEvent) (db : Db) :
    List InsertOutcome × Db :=
  match events with
  | [] => ([], db)
  | events =>
    let ins := db.inserted now events
    let keys := ins.map (·.idempotencyKey)
    (events.map fun e => if keys.contains e.idempotencyKey then .inserted else .duplicate,
      db.commitInserted now ins)

/-- `INSERT … ON CONFLICT (claimed_handle, idempotency_key) DO NOTHING`. -/
def quarantine (event : QuarantinedEvent) (db : Db) : Db :=
  if db.quarantined.any fun q =>
      q.claimedHandle == event.claimedHandle && q.idempotencyKey == event.idempotencyKey
  then db
  else { db with quarantined := db.quarantined ++ [event] }

/-- Advance a device's high-water mark; the mark before. -/
def observeBatchSequence (deviceId : String) (seq : Int64) (db : Db) : Option Int64 × Db :=
  let prev := db.batchProgress deviceId
  let mark := match prev with
    | none => seq
    | some p => if p ≤ seq then seq else p
  (prev, { db with batchProgress := fun d => if d = deviceId then some mark else db.batchProgress d })

/-! ## From the wire to a row -/

section
variable (parseEventTimestamp : String → Option Timestamp)

/-- `extract_type_and_ts` on the serialised event. -/
def extractTypeAndTs (payload : Option GameEvent) : String × Option Timestamp :=
  match payload with
  | none => ("unknown", none)
  | some e => (eventTypeKey e, parseEventTimestamp e.timestamp)

def fromEnvelope (env : EventEnvelope) (claimedHandle : String) : StoredEvent :=
  let (eventType, eventTimestamp) := extractTypeAndTs parseEventTimestamp env.event
  { idempotencyKey := env.idempotencyKey
    claimedHandle := claimedHandle
    eventType := eventType
    eventTimestamp := eventTimestamp
    logSource := env.source
    sourceOffset := env.sourceOffset.toInt64
    rawLine := env.rawLine
    payload := env.event
    metadata := env.metadata
    resolvedLocation := env.resolvedLocation }

end

end StarStats
