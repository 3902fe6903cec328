import StarStats.Client.Reparse

/-!
# Re-parsing twice (`starstats-client/src/commands.rs` `run_reparse`)

When a second re-parse with the same rules finds nothing to do, in terms of what is stored before
the first: the zone that a death is given is one that the second still sees, and the lines that the
bursts of the first leave behind make no burst.
-/

namespace StarStats

/-- Ids are given out in order. -/
structure EventsTable.Ordered (t : EventsTable) : Prop where
  ascending : t.rows.Pairwise (·.id < ·.id)
  positive : ∀ r ∈ t.rows, 0 < r.id
  nonneg : 0 ≤ t.lastId
  bounded : ∀ r ∈ t.rows, r.id ≤ t.lastId

/-- The table behind the inserts of what was ingested. -/
def EventsTable.ofEvents (env : IngestEnv) (events : List EventsRow) : EventsTable :=
  events.foldl (fun t row => (t.insertEvent env row).1) .fresh

/-- The table behind calls of `process_buffer`. -/
def EventsTable.ingested (env : IngestEnv) (inferenceRules : List CompiledInferenceRule)
    (enableV2 : Bool) (calls : List (LogFeed × List (String × Nat))) : EventsTable :=
  .ofEvents env (calls.foldl (fun st call =>
    env.processBuffer call.1 inferenceRules builtinBurstRules enableV2 st call.2)
      ⟨[], .default⟩).events

namespace ReparseEnv
variable (env : ReparseEnv)

/-- `run_reparse` where no storage call fails. -/
def reparse (store : ReparseStore) : ReparseRun := (env.runReparse (fun _ => none) store).1

/-- A second re-parse updates, deletes and inserts nothing. -/
def ReparsesOnce (store : ReparseStore) : Prop :=
  let first := (env.reparse store).store
  let again := env.reparse first
  again.store = first ∧ again.stats.updated = 0 ∧ again.stats.promotedUnknowns = 0 ∧
    again.stats.burstsCollapsed = 0 ∧ again.stats.membersSuppressed = 0

instance (store : ReparseStore) : Decidable (env.ReparsesOnce store) :=
  inferInstanceAs (Decidable (_ ∧ _))

/-! ## What the third phase finds -/

/-- The stored rows, and those of the samples that are classified by now. -/
def offered (store : ReparseStore) : EventsTable :=
  ((recentUnknowns store.unknowns).filterMap env.promotedRow).foldl
    (fun t row => (t.insertEvent env.toIngestEnv row).1) store.table

def retroWindow (t : EventsTable) (logSource : String) : List (LocalRow × LogLine) :=
  retroLines (t.eventsForBurstScan logSource)

/-- The ids of the lines of a source that are in a burst. -/
def collapsedIds (t : EventsTable) (logSource : String) : List Int :=
  let parsed := retroWindow t logSource
  (env.retroHits parsed).flatMap fun hit =>
    (hit.memberIndices.filterMap (parsed[·]?)).map (·.1.id)

/-- No burst has the line. -/
def remains (t : EventsTable) (row : LocalRow) : Bool :=
  t.distinctLogSources.all fun logSource => row.id ∉ env.collapsedIds t logSource

/-- The lines that the bursts leave. -/
def remaining (t : EventsTable) : EventsTable :=
  { t with rows := t.rows.filter (env.remains t) }

/-! ## Zones -/

/-- The zone that a row is a signal of, and its key. -/
def zoneOf (row : LocalRow) : Option (String × String) :=
  if row.eventType = "burst_summary" then none
  else ((env.reading row.raw).bind zoneSignal).map fun zone => (zone, row.idempotencyKey)

/-- The last signal among the rows. -/
def lastZone (rows : List LocalRow) : Option (String × String) := (rows.filterMap env.zoneOf).getLast?

end ReparseEnv

/-- The tracker behind a signal. -/
def ZoneTracker.of : Option (String × String) → ZoneTracker
  | none => .default
  | some (zone, key) => ⟨some zone, some key⟩

/-- A death without a zone. -/
def GameEvent.awaitsZone : GameEvent → Bool
  | .playerDeath d => d.zone.isNone
  | .playerIncapacitated i => i.zone.isNone
  | _ => false

namespace ReparseEnv
variable (env : ReparseEnv)

def AwaitsZone (row : LocalRow) : Prop :=
  row.eventType ≠ "burst_summary" ∧ (env.reading row.raw).any GameEvent.awaitsZone = true

/-- The JSON of a death shows its zone, and that of its metadata the row that the zone is from. -/
structure ZonesShow (env : ReparseEnv) : Prop where
  payload : ∀ event seen seen',
    env.toJson (enrichZone (.of seen) event).1 = env.toJson (enrichZone (.of seen') event).1 →
      (enrichZone (.of seen) event).1 = (enrichZone (.of seen') event).1
  metadata : ∀ event key key', env.metadataToJson (zoneMetadata event key) =
    env.metadataToJson (zoneMetadata event key') → key = key'

/-- What a second re-parse finds as the first leaves it. -/
structure Settled (store : ReparseStore) : Prop where
  /-- The last signal before a death that remains is one that remains. -/
  zones : ∀ before row after, store.table.rows = before ++ row :: after →
    env.remains (env.offered store) row = true → env.AwaitsZone row →
      env.lastZone (before.filter (env.remains (env.offered store))) = env.lastZone before
  /-- Before a death among the samples no signal remains. -/
  samples : ∀ before row after,
    (env.offered store).rows = store.table.rows ++ before ++ row :: after →
    env.remains (env.offered store) row = true → env.AwaitsZone row →
      env.lastZone ((store.table.rows ++ before).filter (env.remains (env.offered store))) = none
  /-- The lines that remain make no burst. -/
  bursts : ∀ logSource,
    env.retroHits (retroWindow (env.remaining (env.offered store)) logSource) = []

end ReparseEnv

end StarStats
