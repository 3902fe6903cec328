import StarStats.Client.Cuts
import StarStats.Client.Tailer

/-!
# Replaying a rotated log (`starstats-client/src/backfill.rs` `backfill_file`)

The lines behind the cursor are processed in chunks. Of a full buffer the lines before the split are
committed, and the others are carried over to the next chunk: the last `burstCarryLines`, and the
whole of a burst that reaches these. Reading the file succeeds here.
-/

namespace StarStats

def burstCarryLines : Nat := 256

def carryBoundary (len : Nat) (burstRanges : List (Nat × Nat)) (maxCarry : Nat) : Nat :=
  if len ≤ maxCarry then 0
  else
    burstRanges.foldl (fun cut (anchor, last) => if cut ≤ last then min cut anchor else cut)
      (len - maxCarry)

/-- The bursts of a buffer whose lines are not joined, as places of its first and last lines. -/
def burstBufferRanges (buffer : List (String × Nat)) (burstRules : List BurstRule) :
    List (Nat × Nat) :=
  let valid := parseable buffer
  (detectBursts (valid.map (·.2)) burstRules).filterMap fun b => do
    let anchor ← valid[b.startIndex]?
    let last ← valid[b.endIndex]?
    return (anchor.1, last.1)

def backfillCarrySplit (buffer : List (String × Nat)) (burstRules : List BurstRule) : Nat :=
  carryBoundary buffer.length (burstBufferRanges buffer burstRules) burstCarryLines

/-- The loop of a backfill over any way to process a buffer. -/
structure BackfillLoop (σ : Type*) where
  state : σ
  chunk : List (String × Nat)
  carry : List (String × Nat)

section
variable {σ : Type*} (process : σ → List (String × Nat) → σ) (chunkLines : Nat)

/-- One more line; `chunkLines` is 10000 in the source. -/
def BackfillLoop.read (loop : BackfillLoop σ) (line : String × Nat) : BackfillLoop σ :=
  let chunk := loop.chunk ++ [line]
  if chunkLines ≤ chunk.length then
    let buf := loop.carry ++ chunk
    let cut := backfillCarrySplit buf builtinBurstRules
    { state := process loop.state (buf.take cut)
      chunk := []
      carry := buf.drop cut }
  else { loop with chunk := chunk }

/-- The final flush, with no hold-back. -/
def BackfillLoop.flush (loop : BackfillLoop σ) : σ :=
  let carry := loop.carry ++ loop.chunk
  if carry.isEmpty then loop.state else process loop.state carry

def backfillLines (state : σ) (lines : List (String × Nat)) : σ :=
  (lines.foldl (BackfillLoop.read process chunkLines) ⟨state, [], []⟩).flush process

end

/-- The complete lines behind the cursor. -/
def archiveLines (bytes : List UInt8) (startingOffset : Nat) : List (String × Nat) :=
  (Tailer.readLoop startingOffset (Tailer.readResults .ok bytes startingOffset)).bufferedLines

/-- The buffers that the loop hands to `process_buffer`, in order. -/
def backfillBuffers (chunkLines : Nat) (lines : List (String × Nat)) :
    List (List (String × Nat)) :=
  backfillLines (fun buffers buf => buffers ++ [buf]) chunkLines [] lines

/-- `backfill_file` with inference off. -/
def IngestEnv.backfillFile (env : IngestEnv) (feed : LogFeed)
    (inferenceRules : List CompiledInferenceRule) (chunkLines : Nat) (st : IngestState)
    (bytes : List UInt8) (startingOffset : Nat) : IngestState :=
  backfillLines (env.processBuffer feed inferenceRules builtinBurstRules false) chunkLines st
    (archiveLines bytes startingOffset)

/-! ## Ingesting an archive again (`starstats-client/src/commands.rs` `run_reingest`)

A backfill hands the lines of an archived log to `process_buffer` in buffers; a re-ingest hands each
of them to `ingest_one_line`, without a window, where no lines are joined and no bursts are looked
for. The log has one signature in both.
-/

namespace IngestEnv
variable (env : IngestEnv) (feed : LogFeed)

/-- The table behind a backfill of the whole log, in a fresh window. The rules have the states
that the logs before have left them in. -/
def backfilled (inferenceRules : List CompiledInferenceRule) (chunkLines : Nat) (enableV2 : Bool)
    (events : List EventsRow) (bytes : List UInt8) : List EventsRow :=
  (backfillLines (env.processBufferRuled feed builtinBurstRules enableV2) chunkLines
    ⟨⟨events, .default⟩, inferenceRules⟩ (archiveLines bytes 0)).ingest.events

/-- `run_reingest` on one log. Without a window no envelope is pushed, whatever the metadata
version. -/
def runReingest (events : List EventsRow) (bytes : List UInt8) : List EventsRow :=
  ((archiveLines bytes 0).foldl (env.ingestOneLine feed false) ⟨events, .default⟩).events

/-- The line is an event. -/
def Recognised (line : String × Nat) : Prop :=
  ∃ event, (structuralParse line.1).bind env.lineEvent = some event

end IngestEnv

/-- In its buffer the line is a record as it stands, and no burst has it. -/
def PassedAlone (buffers : List (List (String × Nat))) (line : String × Nat) : Prop :=
  ∃ buffer ∈ buffers, ∃ p < (recordsOf buffer).length,
    ((recordsOf buffer)[p]?.map (·.1)) = some line ∧ p ∉ IngestEnv.claimed (recordsOf buffer)

instance (buffers : List (List (String × Nat))) (line : String × Nat) :
    Decidable (PassedAlone buffers line) :=
  inferInstanceAs (Decidable (∃ buffer ∈ buffers, _))

end StarStats
