import StarStats.Client.Cuts

/-!
# Summaries that are not stored (`starstats-client/src/gamelog.rs` `process_buffer`)

The insert of a summary may fail. The members of its burst are then not suppressed, and go to
`process_line` with the other records.
-/

namespace StarStats

/-- What a call of `process_buffer` leaves behind, and the records it passed to `process_line` with
their places in the buffer. -/
structure BufferRun where
  state : IngestState
  passed : List ((String × Nat) × Nat)

/-- The calls for the record at a place. -/
def BufferRun.passedAt (run : BufferRun) (i : Nat) : List ((String × Nat) × Nat) :=
  run.passed.filter (·.2 == i)

namespace IngestEnv
variable (env : IngestEnv) (feed : LogFeed)

/-- `process_buffer` when the insert of the summary of the `k`-th burst fails if `fails k`. An
insert that does not fail writes its row or meets one that conflicts with it. -/
def processBufferFailing (inferenceRules : List CompiledInferenceRule)
    (burstRules : List BurstRule) (enableV2 : Bool) (fails : Nat → Bool) (st : IngestState)
    (lines : List (String × Nat)) : BufferRun :=
  let buffer := stitchMultilineRecords lines
  let valid := parseable buffer
  let bursts := detectBursts (valid.map (·.2)) burstRules
  let stored := bursts.zipIdx.foldl (fun st (burst, k) =>
    if fails k then st else env.storeBurst feed enableV2 buffer valid st burst) (st, [])
  let passed := buffer.zipIdx.filter fun (_, i) => i ∉ stored.2
  let ingested := passed.foldl (fun st (line, _) => env.ingestOneLine feed enableV2 st line)
    stored.1
  { state := if enableV2 then env.runInferenceAndPersist feed inferenceRules ingested else ingested
    passed := passed }

/-- The table has a row with the key or the content of the item. -/
def Held (events : List EventsRow) (item : BufferItem) : Prop :=
  ∃ row ∈ events,
    env.rowConflict (env.eventRow feed item.key item.event item.raw item.offset) row = true

/-- The `k`-th burst has the record at this place of the buffer, and its summary is held. -/
def Summarised (burstRules : List BurstRule) (lines : List (String × Nat))
    (events : List EventsRow) (k i : Nat) : Prop :=
  ∃ burst, (detectBursts (burstWindow lines) burstRules)[k]? = some burst ∧
    (∃ p ∈ burst.memberIndices, ∃ line,
      (parseable (stitchMultilineRecords lines))[p]? = some (i, line)) ∧
    ∃ item, env.burstItem feed (recordsOf lines) burst = some item ∧ env.Held feed events item

instance (events : List EventsRow) (item : BufferItem) : Decidable (env.Held feed events item) :=
  inferInstanceAs (Decidable (∃ row ∈ events, _))

instance (burstRules : List BurstRule) (lines : List (String × Nat)) (events : List EventsRow)
    (k i : Nat) : Decidable (env.Summarised feed burstRules lines events k i) :=
  decidable_of_iff
    (((detectBursts (burstWindow lines) burstRules)[k]?).any fun burst =>
      (burst.memberIndices.any fun p =>
        ((parseable (stitchMultilineRecords lines))[p]?).any (·.1 == i)) &&
      (env.burstItem feed (recordsOf lines) burst).any fun item =>
        decide (env.Held feed events item))
    (by simp [Summarised, Option.any_eq_true])

end IngestEnv

end StarStats
