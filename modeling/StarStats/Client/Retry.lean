import StarStats.Client.Cuts
import StarStats.Client.Tailer

/-!
# A drain that is done again (`starstats-client/src/gamelog.rs` `drain`)

One log that grows, and the tray that drains it. When the tray crashes behind `process_buffer` and
before the cursor is written, the rows are stored, and the next drain reads the same lines again with
those that were added since. The window of the inference is not kept over a start of the tray.
-/

namespace StarStats

open Tailer (Handover LogFile)

/-- What can happen to one log and its tail. -/
inductive RetryAction where
  | append (bytes : List UInt8)
  | restart
  | drain
  | crash

namespace RetryAction

def tail : RetryAction → Tailer.Action
  | append bytes => .append bytes
  | restart => .restart
  | drain => .drain
  | crash => .crash

/-- The tray starts anew behind it. -/
def restarts : RetryAction → Bool
  | restart | crash => true
  | append _ | drain => false

end RetryAction

structure TailIngest where
  tailer : Tailer.State
  ingest : IngestState

/-- Before the log is first read. -/
def TailIngest.start (file : LogFile) (events : List EventsRow) : TailIngest :=
  ⟨.start file, ⟨events, .default⟩⟩

/-- The lines that the next drain reads. -/
def TailIngest.unread (newV5 : List UInt8 → String) (s : TailIngest) : List (String × Nat) :=
  (Tailer.drain newV5 .ok s.tailer.file s.tailer.tail).lines

/-- The bursts of a call. -/
def burstsOf (lines : List (String × Nat)) : List BurstHit :=
  detectBursts (burstWindow lines) builtinBurstRules

namespace IngestEnv
variable (env : IngestEnv) (newV5 : List UInt8 → String) (source : LogSource)

/-- What a call of `process_buffer` is told of its file. -/
def feedOf (call : Handover) : LogFeed := ⟨source, call.file.signature newV5⟩

/-- A step of the tail, with the calls of `process_buffer` that it makes. -/
def retryStep (inferenceRules : List CompiledInferenceRule) (enableV2 : Bool) (s : TailIngest)
    (act : RetryAction) : Option TailIngest := do
  let tailer ← Tailer.step newV5 s.tailer act.tail
  let ingest := (tailer.handed.drop s.tailer.handed.length).foldl (fun st call =>
    env.processBuffer (feedOf newV5 source call) inferenceRules builtinBurstRules enableV2 st
      call.lines) s.ingest
  return {
    tailer := tailer
    ingest := if act.restarts then { ingest with window := .default } else ingest }

/-! ## What is stored for a line -/

/-- The row is the summary of a burst of this rule, anchored at this offset of the file. -/
def SummaryRow (s : TailIngest) (fileSig : Option String) (ruleId : String) (offset : Nat)
    (row : EventsRow) : Prop :=
  ∃ call ∈ s.tailer.handed, call.file.signature newV5 = fileSig ∧
    ∃ burst ∈ burstsOf call.lines, burst.ruleId = ruleId ∧
      ∃ item ∈ env.burstItem ⟨source, fileSig⟩ (recordsOf call.lines) burst, item.offset = offset ∧
        row = env.eventRow ⟨source, fileSig⟩ item.key item.event item.raw item.offset

instance (s : TailIngest) (fileSig : Option String) (ruleId : String) (offset : Nat)
    (row : EventsRow) : Decidable (env.SummaryRow newV5 source s fileSig ruleId offset row) :=
  inferInstanceAs (Decidable (∃ call ∈ s.tailer.handed, _))

/-- The line at this offset is a member of a burst whose summary is in the table. -/
def InSummary (s : TailIngest) (offset : Nat) : Prop :=
  ∃ call ∈ s.tailer.handed, ∃ burst ∈ burstsOf call.lines,
    (∃ p ∈ burst.memberIndices, ∃ record,
      (recordsOf call.lines)[p]? = some record ∧ record.1.2 = offset) ∧
    ∃ item ∈ env.burstItem (feedOf newV5 source call) (recordsOf call.lines) burst,
      env.eventRow (feedOf newV5 source call) item.key item.event item.raw item.offset ∈
        s.ingest.events

/-- The line at this offset was stored as an event, which is in the table. -/
def InOwnRow (s : TailIngest) (offset : Nat) : Prop :=
  ∃ call ∈ s.tailer.handed,
    ∃ item ∈ env.lineItems (feedOf newV5 source call) (recordsOf call.lines),
      item.offset = offset ∧
        env.eventRow (feedOf newV5 source call) item.key item.event item.raw item.offset ∈
          s.ingest.events

/-- No line is there twice. -/
structure OnceRepresented (s : TailIngest) : Prop where
  one_summary : ∀ fileSig ruleId offset, ∀ row ∈ s.ingest.events, ∀ row' ∈ s.ingest.events,
    env.SummaryRow newV5 source s fileSig ruleId offset row →
      env.SummaryRow newV5 source s fileSig ruleId offset row' → row = row'
  apart : ∀ offset, ¬ (env.InSummary newV5 source s offset ∧ env.InOwnRow newV5 source s offset)

/-! ## Where a crash may be -/

/-- A burst goes across the place behind the first `n` lines, and the records before the place are
a burst too, or one of them is an event. -/
def SplitsBurst (lines : List (String × Nat)) (n : Nat) : Prop :=
  ∃ rule ∈ builtinBurstRules, ∃ run ∈ rule.bursts (burstWindow lines),
    (∃ q ∈ run, (recordsOf (lines.take n)).length ≤ q) ∧
      (rule.minBurstSize ≤ (run.filter (· < (recordsOf (lines.take n)).length)).length ∨
        ∃ p ∈ run, p < (recordsOf (lines.take n)).length ∧
          ((recordsOf lines)[p]?.any fun record => (env.lineEvent record.2).isSome) = true)

/-- The drains that crashed over lines that the next one reads again did not end inside a record of
several lines, nor inside a burst. -/
def CrashedBetween (s : TailIngest) : RetryAction → Prop
  | .drain | .crash => ∀ call ∈ s.tailer.handed, call.committed = false →
    call.lines <+: s.unread newV5 → ¬ CutsRecord (s.unread newV5) call.lines.length ∧
      ¬ env.SplitsBurst (s.unread newV5) call.lines.length
  | .append _ | .restart => True

instance (lines : List (String × Nat)) (n : Nat) : Decidable (env.SplitsBurst lines n) :=
  inferInstanceAs (Decidable (∃ rule ∈ builtinBurstRules, _))

instance (s : TailIngest) : DecidablePred (env.CrashedBetween newV5 s)
  | .drain | .crash => inferInstanceAs (Decidable (∀ call ∈ s.tailer.handed, _))
  | .append _ | .restart => .isTrue trivial

end IngestEnv

end StarStats
