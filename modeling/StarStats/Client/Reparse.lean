import StarStats.Client.Storage
import StarStats.Core.Metadata
import StarStats.Core.TimedBursts

/-!
# Re-parsing what is stored (`starstats-client/src/commands.rs` `run_reparse`)

Three phases: the rows of `events` are classified anew, with the zone that a death happened in; the
unknown samples that are classified by now become rows; and what reads as a burst becomes one
summary row, in place of its members. `fails` says with which error a storage call fails.
-/

namespace StarStats

open EventsTable (Classification)

/-! ## Storage -/

/-- A row of `unknown_event_samples`, of which the source and the name are the key. -/
structure UnknownSample where
  logSource : String
  eventName : String
  occurrences : Nat
  lastSeen : String
  sampleLine : String
  deriving DecidableEq

/-- `ORDER BY occurrences DESC, last_seen DESC`. -/
def recentUnknowns (unknowns : List UnknownSample) : List UnknownSample :=
  unknowns.insertionSort fun a b =>
    b.occurrences < a.occurrences ∨ (b.occurrences = a.occurrences ∧ b.lastSeen ≤ a.lastSeen)

def deleteUnknown (unknowns : List UnknownSample) (logSource eventName : String) :
    List UnknownSample :=
  unknowns.filter fun u => !(u.logSource = logSource && u.eventName = eventName)

namespace EventsTable

/-- What `for_each_event` walks over. -/
def byId (t : EventsTable) : List LocalRow :=
  (t.rows.filter (0 < ·.id)).insertionSort (·.id ≤ ·.id)

/-- `SELECT DISTINCT log_source FROM events ORDER BY log_source`. -/
def distinctLogSources (t : EventsTable) : List String :=
  (t.rows.map (·.logSource)).dedup.insertionSort (· ≤ ·)

/-- `ORDER BY source_offset ASC, id ASC`. -/
def scanOrder (r r' : LocalRow) : Prop :=
  r.sourceOffset < r'.sourceOffset ∨ (r.sourceOffset = r'.sourceOffset ∧ r.id ≤ r'.id)

instance : DecidableRel scanOrder := fun _ _ => inferInstanceAs (Decidable (_ ∨ _))

def eventsForBurstScan (t : EventsTable) (logSource : String) : List LocalRow :=
  (t.rows.filter (·.logSource = logSource)).insertionSort scanOrder

end EventsTable

/-- A storage call of a re-parse. -/
inductive ReparseCall where
  /-- The batch of `for_each_event` behind an id. -/
  | readEvents (after : Int)
  | updateEventClassification (id : Int)
  | recentUnknowns
  | insertPromoted (logSource eventName : String)
  | deleteUnknown (logSource eventName : String)
  | distinctLogSources
  | eventsForBurstScan (logSource : String)
  | insertSummary (logSource : String) (anchor : Int)
  | deleteMember (id : Int)
  deriving DecidableEq

structure ReparseStore where
  table : EventsTable
  unknowns : List UnknownSample
  deriving DecidableEq

structure ReparseStats where
  examined : Nat
  updated : Nat
  keptUnmatched : Nat
  promotedUnknowns : Nat
  burstsCollapsed : Nat
  membersSuppressed : Nat
  error : Option String
  deriving DecidableEq

/-- A re-parse so far, and the failed calls that it has only logged. -/
structure ReparseRun where
  store : ReparseStore
  stats : ReparseStats
  warnings : List ReparseCall
  deriving DecidableEq

def ReparseRun.start (store : ReparseStore) : ReparseRun := ⟨store, ⟨0, 0, 0, 0, 0, 0, none⟩, []⟩

def ReparseRun.warn (run : ReparseRun) (call : ReparseCall) : ReparseRun :=
  { run with warnings := run.warnings ++ [call] }

def ReparseRun.fail (run : ReparseRun) (error : String) : ReparseRun :=
  { run with stats.error := some error }

def ReparseRun.examine (run : ReparseRun) : ReparseRun :=
  { run with stats.examined := run.stats.examined + 1 }

def ReparseRun.keepUnmatched (run : ReparseRun) : ReparseRun :=
  { run with stats.keptUnmatched := run.stats.keptUnmatched + 1 }

/-! ## Zones -/

structure ZoneTracker where
  zone : Option String
  sourceIdempotencyKey : Option String
  deriving DecidableEq

namespace ZoneTracker

def default : ZoneTracker := ⟨none, none⟩

def observe (_tracker : ZoneTracker) (zone sourceIdempotencyKey : String) : ZoneTracker :=
  ⟨some zone, some sourceIdempotencyKey⟩

/-- The target, and the key of the row that its zone is from. -/
def fill (tracker : ZoneTracker) (target : Option String) : Option String × Option String :=
  match tracker.zone with
  | some zone => (some zone, tracker.sourceIdempotencyKey)
  | none => (target, none)

end ZoneTracker

/-- The zone that an event is a signal of. -/
def zoneSignal : GameEvent → Option String
  | .planetTerrainLoad t => some t.planet
  | .locationInventoryRequested l =>
    if l.location ≠ "INVALID_LOCATION_ID" then some l.location else none
  | _ => none

/-- A death without a zone gets the one of the tracker. -/
def enrichZone (tracker : ZoneTracker) : GameEvent → GameEvent × Option String
  | .playerDeath d =>
    if d.zone.isNone then
      let filled := tracker.fill d.zone
      (.playerDeath { d with zone := filled.1 }, filled.2)
    else (.playerDeath d, none)
  | .playerIncapacitated i =>
    if i.zone.isNone then
      let filled := tracker.fill i.zone
      (.playerIncapacitated { i with zone := filled.1 }, filled.2)
    else (.playerIncapacitated i, none)
  | event => (event, none)

def provenanceForInferredField (field : String) (sourceEventIds : List String) : FieldProvenance :=
  if sourceEventIds.isEmpty then .observed
  else .inferredFrom sourceEventIds ("inferred_" ++ field ++ "_from_sources")

def zoneMetadata (event : GameEvent) (source : String) : EventMetadata :=
  { stamp event none with
    fieldProvenance := [("zone", provenanceForInferredField "zone" [source])] }

def retroBurstMaxMemberGapSecs : Nat := 120
def reparseBatch : Nat := 500

structure ReparseEnv extends IngestEnv where
  /-- `serde_json::to_string`. -/
  metadataToJson : EventMetadata → String

namespace ReparseEnv
variable (env : ReparseEnv)

/-- `serialise_for_reparse`. -/
def serialiseForReparse (event : GameEvent) : Classification :=
  ⟨eventTypeKey event, event.timestamp, env.toJson event⟩

def buildZoneMetadataJson (event : GameEvent) (zoneFilledFrom : Option String) : Option String :=
  zoneFilledFrom.map fun source => env.metadataToJson (zoneMetadata event source)

/-- What a stored line reads as. -/
def reading (raw : String) : Option GameEvent := (structuralParse raw).bind env.lineEvent

/-! ## Phase 1 -/

def observeRow (tracker : ZoneTracker) (row : LocalRow) (event : GameEvent) : ZoneTracker :=
  match zoneSignal event with
  | some zone => tracker.observe zone row.idempotencyKey
  | none => tracker

def dirty (row : LocalRow) (c : Classification) (metadata : Option String) : Bool :=
  row.classification ≠ c || (metadata.isSome && metadata ≠ row.metadata)

section
variable (fails : ReparseCall → Option String)

/-- The row with its classification and metadata is stored when it has changed. -/
def storeReading (run : ReparseRun) (row : LocalRow) (c : Classification)
    (metadata : Option String) : Except String ReparseRun :=
  if dirty row c metadata then
    match fails (.updateEventClassification row.id) with
    | some e => .error ("update_event_classification: " ++ e)
    | none => .ok
      { run with
        store.table := run.store.table.updateEventClassification row.id c metadata
        stats.updated := run.stats.updated + 1 }
  else .ok run

/-- The closure of `for_each_event`, which aborts the walk when it fails. -/
def reparseRow (tracker : ZoneTracker) (run : ReparseRun) (row : LocalRow) :
    ZoneTracker × Except String ReparseRun :=
  -- a summary stands for more lines than the one it has
  if row.eventType = "burst_summary" then (tracker, .ok run)
  else
    match env.reading row.raw with
    | none => (tracker, .ok run.keepUnmatched)
    | some event =>
      let tracker := observeRow tracker row event
      let enriched := enrichZone tracker event
      (tracker, storeReading fails run row (env.serialiseForReparse enriched.1)
        (env.buildZoneMetadataJson enriched.1 enriched.2))

/-- `for_each_event` over the rows behind the id `after`, of whose batch `left` are left. It only
stops at an empty batch. -/
def walkEvents (tracker : ZoneTracker) (run : ReparseRun) (after : Int) (left : Nat) :
    List LocalRow → ReparseRun
  | [] =>
    match fails (.readEvents after) with
    | some e => run.fail ("phase 1: " ++ e)
    | none => run
  | row :: rest =>
    match if left = 0 then fails (.readEvents after) else none with
    | some e => run.fail ("phase 1: " ++ e)
    | none =>
      let walked := env.reparseRow fails tracker run.examine row
      match walked.2 with
      | .error e => run.examine.fail ("phase 1: " ++ e)
      | .ok run =>
        walkEvents walked.1 run row.id ((if left = 0 then reparseBatch else left) - 1) rest

/-! ## Phase 2 -/

def reparseIdempotencyKey (logSource line : String) : String :=
  env.newV5 ("reparse:" ++ logSource ++ ":" ++ line)

/-- The row of a sample that is classified by now. -/
def promotedRow (sample : UnknownSample) : Option EventsRow :=
  (env.reading sample.sampleLine).map fun event =>
    let c := env.serialiseForReparse event
    { idempotencyKey := env.reparseIdempotencyKey sample.logSource sample.sampleLine
      eventType := c.eventType
      timestamp := c.timestamp
      raw := sample.sampleLine
      payload := c.payload
      logSource := sample.logSource
      sourceOffset := 0 }

def promote (run : ReparseRun) (sample : UnknownSample) : ReparseRun :=
  match env.promotedRow sample with
  | none => run
  | some row =>
    match fails (.insertPromoted sample.logSource sample.eventName) with
    | some _ => run.warn (.insertPromoted sample.logSource sample.eventName)
    | none =>
      let run := { run with store.table := (run.store.table.insertEvent env.toIngestEnv row).1 }
      let run :=
        match fails (.deleteUnknown sample.logSource sample.eventName) with
        | some _ => run.warn (.deleteUnknown sample.logSource sample.eventName)
        | none =>
          { run with store.unknowns :=
            deleteUnknown run.store.unknowns sample.logSource sample.eventName }
      { run with stats.promotedUnknowns := run.stats.promotedUnknowns + 1 }

/-! ## Phase 3 -/

/-- The rows that are scanned for bursts, with their lines. -/
def retroLines (rows : List LocalRow) : List (LocalRow × LogLine) :=
  (rows.filter (·.eventType ≠ "burst_summary")).filterMap fun row =>
    (structuralParse row.raw).map (row, ·)

def retroHits (parsed : List (LocalRow × LogLine)) : List BurstHit :=
  if parsed.length < 2 then []
  else detectBurstsWithTimeGap env.parseTs retroBurstMaxMemberGapSecs (parsed.map (·.2))
    builtinBurstRules

def burstIdempotencyKey (logSource : String) (offset : Nat) (line : String) : String :=
  env.newV5 (logSource ++ ":" ++ toString offset ++ ":" ++ line)

def summaryRow (logSource : String) (hit : BurstHit) (anchor : LocalRow) (anchorLine last : LogLine)
    (members : List LogLine) : EventsRow :=
  let event := GameEvent.burstSummary (env.burstSummary hit anchorLine last members)
  let c := env.serialiseForReparse event
  { idempotencyKey := env.burstIdempotencyKey logSource anchor.sourceOffset
      (IngestEnv.syntheticLine anchor.raw hit)
    eventType := c.eventType
    timestamp := c.timestamp
    raw := anchor.raw
    payload := c.payload
    logSource := logSource
    sourceOffset := anchor.sourceOffset }

def deleteMember (run : ReparseRun) (id : Int) : ReparseRun :=
  match fails (.deleteMember id) with
  | some _ => run.warn (.deleteMember id)
  | none =>
    let table := run.store.table.deleteEventById id
    { run with
      store.table := table
      stats.membersSuppressed :=
        run.stats.membersSuppressed + (run.store.table.rows.length - table.rows.length) }

def collapse (logSource : String) (parsed : List (LocalRow × LogLine)) (run : ReparseRun)
    (hit : BurstHit) : ReparseRun :=
  match parsed[hit.startIndex]?, parsed[hit.endIndex]? with
  | some anchor, some last =>
    let members := hit.memberIndices.filterMap (parsed[·]?)
    match fails (.insertSummary logSource anchor.1.id) with
    | some _ => run.warn (.insertSummary logSource anchor.1.id)
    | none =>
      let row := env.summaryRow logSource hit anchor.1 anchor.2 last.2 (members.map (·.2))
      let run := { run with store.table := (run.store.table.insertEvent env.toIngestEnv row).1 }
      let run := (members.map (·.1.id)).foldl (deleteMember fails) run
      { run with stats.burstsCollapsed := run.stats.burstsCollapsed + 1 }
  | _, _ => run

def collapseSource (run : ReparseRun) (logSource : String) : ReparseRun :=
  match fails (.eventsForBurstScan logSource) with
  | some _ => run.warn (.eventsForBurstScan logSource)
  | none =>
    let parsed := retroLines (run.store.table.eventsForBurstScan logSource)
    (env.retroHits parsed).foldl (env.collapse fails logSource parsed) run

/-! ## The re-parse -/

/-- `run_reparse`, with the error that it returns. -/
def runReparse (store : ReparseStore) : ReparseRun × Option String :=
  let run := env.walkEvents fails .default (.start store) 0 0 store.table.byId
  if run.stats.error.isSome then (run, none)
  else
    match fails .recentUnknowns with
    | some e => (run, some ("recent_unknowns: " ++ e))
    | none =>
      let run := (recentUnknowns run.store.unknowns).foldl (env.promote fails) run
      match fails .distinctLogSources with
      | some e => (run.fail ("phase 3: distinct_log_sources: " ++ e), none)
      | none => (run.store.table.distinctLogSources.foldl (env.collapseSource fails) run, none)

end

end ReparseEnv

end StarStats
