import Mathlib.Data.List.Sort
import Mathlib.Data.Prod.Lex
import StarStats.Server.Repo

/-!
# The rollup rebuilds (`starstats-server/src/repo.rs`)

`rebuildHandleSessionStats` re-derives `session_summary` and `entity_rollup_agg` from the events,
`rebuildContractRunsForHandle` re-derives `contract_runs`. Every SQL statement is a definition of
its own on the tables it reads and writes, so that a rebuild can be run in one go (here) or
statement by statement (`Server/Concurrent.lean`).

A statement's `ORDER BY event_timestamp` leaves the order of equal timestamps open; table order
breaks the tie here.
-/

namespace StarStats

open Text (lower)

/-! ## The rebuild window -/

def sessionIdleGapMinutes : Int := 30

/-- `SESSION_IDLE_GAP_MINUTES` as an interval. -/
def sessionIdleGap : Timestamp := sessionIdleGapMinutes * 60 * 1000000

structure SessionBounds where
  startedAt : Timestamp
  endedAt : Timestamp
  deriving DecidableEq

structure SessionRebuildWindow where
  /-- Re-read events from here on. -/
  fromTs : Timestamp
  /-- Delete session rows that end here or later. -/
  discardEndingAtOrAfter : Timestamp
  deriving DecidableEq

def sessionRebuildWindow (dirtyFromTs gap : Timestamp) (sessions : List SessionBounds) :
    SessionRebuildWindow :=
  let discard := dirtyFromTs - gap
  let starts := (sessions.filter (discard ≤ ·.endedAt)).map (·.startedAt)
  ⟨min (starts.min?.getD dirtyFromTs) dirtyFromTs, discard⟩

/-- `SELECT started_at, ended_at … WHERE started_at IS NOT NULL AND ended_at IS NOT NULL`. -/
def sessionBounds (rows : List SessionRow) : List SessionBounds :=
  rows.filterMap fun r =>
    match r.startedAt, r.endedAt with
    | some s, some e => some ⟨s, e⟩
    | _, _ => none

/-- The window of a rebuild: none when the pending range is unknown. -/
def rebuildWindow (dirtyFromTs : Option Timestamp) (rows : List SessionRow) :
    Option SessionRebuildWindow :=
  dirtyFromTs.map fun ts => sessionRebuildWindow ts sessionIdleGap (sessionBounds rows)

/-! ## `session_summary` -/

/-- What the sessioniser reads of an event: its time and whether it is a death. -/
abbrev SessionEvent := Timestamp ×ₗ Bool

def SessionEvent.time (e : SessionEvent) : Timestamp := (ofLex e).1
def SessionEvent.isDeath (e : SessionEvent) : Bool := (ofLex e).2

/-- `event_timestamp IS NOT NULL AND event_type NOT IN ('launcher_activity','game_crash')`. -/
def sessionEvent? (r : EventRow) : Option SessionEvent :=
  if r.eventType = "launcher_activity" ∨ r.eventType = "game_crash" then none
  else r.eventTimestamp.map fun ts => toLex (ts, r.eventType == "player_death")

/-- The events the sessioniser reads for a handle. -/
def sessionEvents (handle : String) (events : List EventRow) : List SessionEvent :=
  (events.filter (·.claimedHandle = handle)).filterMap sessionEvent?

/-- `$3 IS NULL OR event_timestamp >= $3`. -/
def eventsFrom (fromTs : Option Timestamp) (events : List SessionEvent) : List SessionEvent :=
  match fromTs with
  | none => events
  | some f => events.filter (f ≤ ·.time)

/-- `gaps`: each event with the time of the one before it, `LAG(event_timestamp)`. -/
def gaps (prev : Option Timestamp) : List SessionEvent → List (SessionEvent × Option Timestamp)
  | [] => []
  | e :: es => (e, prev) :: gaps (some e.time) es

/-- `prev_ts IS NULL OR event_timestamp - prev_ts > gap`. -/
def startsSession (gap : Timestamp) (g : SessionEvent × Option Timestamp) : Bool :=
  match g.2 with
  | none => true
  | some p => gap < g.1.time - p

/-- `labeled`: the running `SUM` of the starts. Its default frame ends with the last row of the
same timestamp. -/
def sessionLabel (gap : Timestamp) (gs : List (SessionEvent × Option Timestamp))
    (e : SessionEvent) : Nat :=
  (gs.filter fun g => startsSession gap g && g.1.time ≤ e.time).length

def orderByTime (events : List SessionEvent) : List SessionEvent :=
  events.insertionSort (·.time ≤ ·.time)

/-- `GROUP BY session_id` of the labelled events. -/
def sessionGroups (gap : Timestamp) (events : List SessionEvent) :
    List (Nat × List SessionEvent) :=
  let ordered := orderByTime events
  Sql.groupBy (sessionLabel gap (gaps none ordered)) ordered

def sessionRow (offset : Nat) (group : Nat × List SessionEvent) : SessionRow where
  sessionId := group.1 + offset
  startedAt := Sql.minOf (group.2.map fun e => some e.time)
  endedAt := Sql.maxOf (group.2.map fun e => some e.time)
  eventCount := group.2.length
  deathCount := (group.2.filter (·.isDeath)).length

/-- The rows the sessioniser inserts. -/
def sessionRows (offset : Nat) (events : List SessionEvent) : List SessionRow :=
  (sessionGroups sessionIdleGap events).map (sessionRow offset)

/-- `DELETE FROM session_summary`: from the window's cut on, or all of it. -/
def keptSessions (window : Option SessionRebuildWindow) (rows : List SessionRow) :
    List SessionRow :=
  match window with
  | none => []
  | some w => rows.filter fun r =>
    match r.endedAt with
    | none => false
    | some e => e < w.discardEndingAtOrAfter

/-- `COALESCE(MAX(session_id), 0)`. -/
def sessionIdOffset (rows : List SessionRow) : Nat :=
  (rows.map (·.sessionId)).foldr max 0

/-! ## `entity_rollup_agg` -/

def orderByTimeKey (rows : List EventRow) : List EventRow :=
  rows.insertionSort fun a b =>
    a.eventTimestamp.getD 0 < b.eventTimestamp.getD 0 ∨
      (a.eventTimestamp.getD 0 = b.eventTimestamp.getD 0 ∧ a.idempotencyKey ≤ b.idempotencyKey)

/-- `ordered`: the running number of `process_init` rows. -/
def withSessionOrd (n : Nat) : List EventRow → List (Nat × EventRow)
  | [] => []
  | r :: rs =>
    let n := if r.eventType = "process_init" then n + 1 else n
    (n, r) :: withSessionOrd n rs

/-- `in_stream` of one session: its rows, numbered from 1. -/
def sessionStream (ord : Nat) (rows : List (Nat × EventRow)) : List (EventRow × Nat) :=
  ((rows.filter (·.1 = ord)).map (·.2)).zipIdx 1

/-- `first_end`. -/
def firstEndRn (stream : List (EventRow × Nat)) : Option Nat :=
  Sql.minOf ((stream.filter (·.1.eventType = "session_end")).map fun r => some r.2)

def EventRow.entityId? (r : EventRow) : Option String := r.metadata.map (·.primaryEntity.id)

/-- `tally` of one session: the entities of its rows up to the first `session_end`. -/
def sessionTally (stream : List (EventRow × Nat)) : List String :=
  (stream.filter fun r =>
    (match firstEndRn stream with
      | none => true
      | some n => decide (r.2 ≤ n)) && r.1.eventType != "session_end").filterMap (·.1.entityId?)

/-- `id_counts`: in how many sessions an entity occurs. -/
def entitySessionCount (rows : List EventRow) (id : String) : Nat :=
  let ordered := withSessionOrd 0 (orderByTimeKey (rows.filter (·.eventTimestamp.isSome)))
  let ords := (ordered.map (·.1)).dedup.filter (0 < ·)
  (ords.filter fun ord => id ∈ sessionTally (sessionStream ord ordered)).length

/-- `(array_agg(NULLIF(display_name,'') ORDER BY source_offset DESC))[1]`. -/
def latestDisplayName (rows : List EventRow) : Option String :=
  match rows.insertionSort fun a b => b.sourceOffset ≤ a.sourceOffset with
  | [] => none
  | r :: _ => (r.metadata.map (·.primaryEntity.displayName)).filter (· ≠ "")

/-- `entities`: the rows with metadata, by kind and id. -/
def entityGroups (rows : List EventRow) : List ((EntityKind × String) × List EventRow) :=
  (Sql.groupBy (fun r => r.metadata.map fun m => (m.primaryEntity.kind, m.primaryEntity.id))
    (rows.filter (·.metadata.isSome))).filterMap fun g => g.1.map fun k => (k, g.2)

/-- The rows inserted into `entity_rollup_agg`. -/
def entityAggRows (handle : String) (events : List EventRow) : List EntityAggRow :=
  let rows := events.filter (·.claimedHandle = handle)
  (entityGroups rows).map fun g =>
    { entityKind := g.1.1
      entityId := g.1.2
      displayName := latestDisplayName g.2
      eventCount := g.2.length
      sessionCount := entitySessionCount rows g.1.2
      firstSeenAt := Sql.minOf (g.2.map (·.eventTimestamp))
      lastSeenAt := Sql.maxOf (g.2.map (·.eventTimestamp)) }

/-! ## The clears -/

/-- The clear that ends a session rebuild. The insert arm takes the defaults for the columns it
does not name; the update arm needs the row to be the one read under the lock. -/
def clearSessionsDirty (now : Timestamp) (captured : Option Timestamp) :
    Option RollupRow → RollupRow
  | none =>
    { sessionsDirty := false, contractsDirty := true, sessionsDirtyFromTs := none
      rebuiltAt := some now, updatedAt := now }
  | some row =>
    if captured = some row.updatedAt then
      { row with
        sessionsDirty := false, sessionsDirtyFromTs := none
        rebuiltAt := some now, updatedAt := now }
    else row

/-- The clear that ends a contract rebuild. -/
def clearContractsDirty (now : Timestamp) (captured : Option Timestamp) :
    Option RollupRow → RollupRow
  | none =>
    { sessionsDirty := true, contractsDirty := false, sessionsDirtyFromTs := none
      rebuiltAt := none, updatedAt := now }
  | some row =>
    if captured = some row.updatedAt then { row with contractsDirty := false, updatedAt := now }
    else row

/-! ## The rebuilds -/

/-- Replace one handle's entry of a table. -/
def setAt {β : Type} (f : String → β) (handle : String) (v : β) : String → β :=
  fun h => if h = handle then v else f h

/-- `still_dirty`: a missing row counts as dirty. -/
def stillDirty (flag : RollupRow → Bool) (state : Option RollupRow) : Bool :=
  match state with
  | none => true
  | some row => flag row

def rebuildHandleSessionStats (now : Timestamp) (handle : String) (db : Db) : Db :=
  let h := lower handle
  let state := db.rollup h
  if stillDirty (·.sessionsDirty) state then
    let window := rebuildWindow (state.bind (·.sessionsDirtyFromTs)) (db.sessions h)
    let kept := keptSessions window (db.sessions h)
    let fresh := sessionRows (sessionIdOffset kept)
      (eventsFrom (window.map (·.fromTs)) (sessionEvents h db.events))
    { db with
      sessions := setAt db.sessions h (kept ++ fresh)
      entityAgg := setAt db.entityAgg h (entityAggRows h db.events)
      rollup := setAt db.rollup h
        (some (clearSessionsDirty now (state.map (·.updatedAt)) (db.rollup h))) }
  else db

def sessionRollupMinInterval : Timestamp := 60 * 1000000

def shouldRebuildSessionStats (dirty : Bool) (rebuiltAt : Option Timestamp) (now : Timestamp) :
    Bool :=
  dirty && match rebuiltAt with
    | none => true
    | some built => decide (sessionRollupMinInterval ≤ now - built)

def ensureSessionStatsFresh (now : Timestamp) (handle : String) (db : Db) : Db :=
  let row := db.rollup (lower handle)
  if shouldRebuildSessionStats (stillDirty (·.sessionsDirty) row) (row.bind (·.rebuiltAt)) now then
    rebuildHandleSessionStats now handle db
  else db

/-! ## `contract_runs` -/

/-- The envelopes the contract fold reads. -/
def contractEnvelopes (handle : String) (events : List EventRow) : List EventEnvelope :=
  (orderByTimeKey ((events.filter (·.claimedHandle = handle)).filter (·.eventTimestamp.isSome))).map
    fun r =>
      { idempotencyKey := r.idempotencyKey
        rawLine := ""
        event := r.payload
        source := .live
        sourceOffset := 0
        metadata := none
        resolvedLocation := none }

def rebuildContractRunsForHandle (deriveContractRuns : List EventEnvelope → List ContractRunRow)
    (now : Timestamp) (handle : String) (db : Db) : Db :=
  let h := lower handle
  let state := db.rollup h
  if stillDirty (·.contractsDirty) state then
    { db with
      contractRuns := setAt db.contractRuns h (deriveContractRuns (contractEnvelopes h db.events))
      rollup := setAt db.rollup h
        (some (clearContractsDirty now (state.map (·.updatedAt)) (db.rollup h))) }
  else db

end StarStats
