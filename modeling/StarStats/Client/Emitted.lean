import StarStats.Client.Pipeline
import StarStats.Lib.Trans

/-!
# Writes that fail (`starstats-client/src/gamelog.rs` `process_buffer`, `run_inference_and_persist`)

Every write of a call may fail, and the calls of one task share a window. The pass over the window
marks a key as emitted, and writes the row of it afterwards.
-/

namespace StarStats

/-- The writes of a call that fail: of the bursts' summaries, of the records and of the inferred
rows, by their places. An event that does not serialise is one of a write that fails. -/
structure WriteFaults where
  summary : Nat → Bool
  line : Nat → Bool
  inferred : Nat → Bool

def WriteFaults.none : WriteFaults := ⟨fun _ => false, fun _ => false, fun _ => false⟩

/-- A call of `process_buffer`. -/
structure BufferCall where
  feed : LogFeed
  inferenceRules : List CompiledInferenceRule
  burstRules : List BurstRule
  enableV2 : Bool
  faults : WriteFaults
  lines : List (String × Nat)

/-- No line of a log has the text of an inferred row. -/
def EventsRow.isInferred (row : EventsRow) : Bool := "inferred:".toList.isPrefixOf row.raw.toList

/-- The table has an inferred row with the key. -/
def HasInferred (events : List EventsRow) (key : String) : Prop :=
  ∃ row ∈ events, row.idempotencyKey = key ∧ row.isInferred = true

instance (events : List EventsRow) (key : String) : Decidable (HasInferred events key) :=
  inferInstanceAs (Decidable (∃ row ∈ events, _))

/-- A key counts as emitted only when its row is in the table. -/
def EmittedStored (st : IngestState) : Prop :=
  ∀ key ∈ st.window.emitted, HasInferred st.events key

instance : DecidablePred EmittedStored := fun st =>
  inferInstanceAs (Decidable (∀ key ∈ st.window.emitted, _))

namespace IngestEnv
variable (env : IngestEnv)

/-! ## A call -/

/-- One row of a pass, and whether its write fails. -/
def persistAttempt (feed : LogFeed) (st : IngestState) (attempt : InferredEvent × Bool) :
    IngestState :=
  let inferred := env.inferredRow feed attempt.1
  if inferred.idempotencyKey ∈ st.window.emitted then st
  else
    { events := if attempt.2 then st.events else (env.insertEvent st.events inferred).1
      window := st.window.emit inferred.idempotencyKey }

/-- Passes 1 to 3: a summary that is not stored suppresses nothing, and a record that is not stored
does not enter the window. -/
def ingestFaulty (st : IngestState) (call : BufferCall) : IngestState :=
  let buffer := stitchMultilineRecords call.lines
  let valid := parseable buffer
  let bursts := detectBursts (valid.map (·.2)) call.burstRules
  let stored := bursts.zipIdx.foldl (fun st (burst, k) =>
    if call.faults.summary k then st
    else env.storeBurst call.feed call.enableV2 buffer valid st burst) (st, [])
  buffer.zipIdx.foldl (fun st (line, i) =>
    if i ∈ stored.2 then st
    else if call.faults.line i then st
    else env.ingestOneLine call.feed call.enableV2 st line) stored.1

/-- What the rules conclude from the window. -/
def conclusions (st : IngestState) (call : BufferCall) : List InferredEvent :=
  if call.enableV2 then
    inferWithRules env.parseTs st.window.recent .default call.inferenceRules
  else []

/-- The conclusions, with whether their writes fail. -/
def attempts (st : IngestState) (call : BufferCall) : List (InferredEvent × Bool) :=
  (env.conclusions st call).zipIdx.map fun (row, k) => (row, call.faults.inferred k)

def processBufferFaulty (st : IngestState) (call : BufferCall) : IngestState :=
  let ingested := env.ingestFaulty st call
  (env.attempts ingested call).foldl (env.persistAttempt call.feed) ingested

/-! ## What a failed write leaves -/

/-- The table has the inferred row of the key, or it has a row in whose way the inferred row was. -/
def Settled (events rows : List EventsRow) (key : String) : Prop :=
  HasInferred events key ∨
    ∃ row ∈ rows, row.idempotencyKey = key ∧ ∃ other ∈ events, env.rowConflict row other = true

/-- The emitted keys never run ahead of the table, and the next call whose writes do not fail
persists what the rules still conclude. -/
structure Retried (st : IngestState) : Prop where
  emitted_stored : EmittedStored st
  next_persists : ∀ call : BufferCall, call.faults.inferred = (fun _ => false) →
    let rows := (env.conclusions (env.ingestFaulty st call) call).map (env.inferredRow call.feed)
    ∀ row ∈ rows, env.Settled (env.processBufferFaulty st call).events rows row.idempotencyKey

/-- The key of the row is taken care of, or its write does not fail and meets no row in its way. -/
def AttemptLands (feed : LogFeed) (st : IngestState) (attempt : InferredEvent × Bool) : Prop :=
  let inferred := env.inferredRow feed attempt.1
  inferred.idempotencyKey ∈ st.window.emitted ∨
    HasInferred st.events inferred.idempotencyKey ∨
    attempt.2 = false ∧ ∀ other ∈ st.events, env.rowConflict inferred other = false

/-- Every inferred row of the call lands. -/
def Lands (st : IngestState) (call : BufferCall) : Prop :=
  let ingested := env.ingestFaulty st call
  Trans.AllSteps (fun st attempt => some (env.persistAttempt call.feed st attempt))
    (env.AttemptLands call.feed) ingested (env.attempts ingested call)

def bufferStep (st : IngestState) (call : BufferCall) : Option IngestState :=
  some (env.processBufferFaulty st call)

end IngestEnv

end StarStats
