import StarStats.Client.Pipeline

/-!
# Cutting a log into buffers

The lines of a log reach `process_buffer` in consecutive buffers. A cut between two of them may fall
inside a record of several lines, which then is not joined, or inside a burst, which is then found
in parts.
-/

namespace StarStats

/-- A line that parses, as a record of the buffer. -/
abbrev ParsedRecord := (String × Nat) × LogLine

/-- The parseable records of the lines of a buffer. -/
def recordsOf (lines : List (String × Nat)) : List ParsedRecord :=
  (stitchMultilineRecords lines).filterMap fun record =>
    (structuralParse record.1).map (record, ·)

/-- The window in which bursts are looked for. -/
def burstWindow (lines : List (String × Nat)) : List LogLine := (recordsOf lines).map (·.2)

/-- How many of the lines behind the first `n` belong to a record that begins among those, when the
next `skip` lines belong to one before. -/
def recordOverhang : Nat → List (String × Nat) → Nat → Nat
  | skip, _, 0 => skip
  | _, [], _ + 1 => 0
  | skip + 1, _ :: rest, n + 1 => recordOverhang skip rest n
  | 0, line :: rest, n + 1 =>
    recordOverhang (((joined line.1 rest).map List.length).getD 0) rest n

/-- The place behind the first `n` lines is inside a record of several lines. -/
def CutsRecord (lines : List (String × Nat)) (n : Nat) : Prop := recordOverhang 0 lines n ≠ 0

/-- The place behind the first `n` lines is inside a burst of the whole log. -/
def CutsBurst (lines : List (String × Nat)) (n : Nat) : Prop :=
  ∃ rule ∈ builtinBurstRules, rule.Across (burstWindow lines) (recordsOf (lines.take n)).length

/-- One of the buffers begins behind the first `n` lines. -/
def IsCut (buffers : List (List (String × Nat))) (n : Nat) : Prop :=
  ∃ before after, buffers = before ++ after ∧ n = before.flatten.length

/-- No cut between the buffers is inside a record of several lines. -/
def KeepsRecords (buffers : List (List (String × Nat))) : Prop :=
  ∀ n, IsCut buffers n → ¬ CutsRecord buffers.flatten n

/-- No cut between the buffers is inside a burst. -/
def KeepsBursts (buffers : List (List (String × Nat))) : Prop :=
  ∀ n, IsCut buffers n → ¬ CutsBurst buffers.flatten n

/-- The cuts are behind the first few buffers. -/
theorem forall_isCut {buffers : List (List (String × Nat))} {p : Nat → Prop} :
    (∀ n, IsCut buffers n → p n) ↔
      ∀ k < buffers.length + 1, p (buffers.take k).flatten.length := by
  constructor
  · intro h k _
    exact h _ ⟨_, buffers.drop k, (List.take_append_drop k buffers).symm, rfl⟩
  · rintro h n ⟨before, after, rfl, rfl⟩
    have hlt : before.length < (before ++ after).length + 1 := by
      rw [List.length_append]
      omega
    have := h before.length hlt
    rwa [List.take_left] at this

instance (lines : List (String × Nat)) (n : Nat) : Decidable (CutsRecord lines n) :=
  inferInstanceAs (Decidable (_ ≠ _))

instance (buffers : List (List (String × Nat))) : Decidable (KeepsRecords buffers) :=
  decidable_of_iff
    (∀ k < buffers.length + 1, ¬ CutsRecord buffers.flatten (buffers.take k).flatten.length)
    (forall_isCut (p := fun n => ¬ CutsRecord buffers.flatten n)).symm

instance (rule : BurstRule) (window : List LogLine) (place : Nat) :
    Decidable (rule.Across window place) :=
  inferInstanceAs (Decidable (∃ run ∈ rule.bursts window, _))

instance (lines : List (String × Nat)) (n : Nat) : Decidable (CutsBurst lines n) :=
  inferInstanceAs (Decidable (∃ rule ∈ builtinBurstRules, _))

instance (buffers : List (List (String × Nat))) : Decidable (KeepsBursts buffers) :=
  decidable_of_iff
    (∀ k < buffers.length + 1, ¬ CutsBurst buffers.flatten (buffers.take k).flatten.length)
    (forall_isCut (p := fun n => ¬ CutsBurst buffers.flatten n)).symm

/-! ## What a buffer stores -/

/-- An event on its way into the database. -/
structure BufferItem where
  key : String
  event : GameEvent
  raw : String
  offset : Nat

namespace IngestEnv
variable (env : IngestEnv) (feed : LogFeed)

/-- The records that summaries stand for. -/
def claimed (records : List ParsedRecord) : List Nat :=
  (detectBursts (records.map (·.2)) builtinBurstRules).flatMap (·.memberIndices)

/-- The summary of a burst among the records. -/
def burstItem (records : List ParsedRecord) (burst : BurstHit) : Option BufferItem := do
  let anchor ← records[burst.startIndex]?
  let last ← records[burst.endIndex]?
  let members := burst.memberIndices.filterMap (records[·]?)
  return {
    key := env.idempotencyKey feed anchor.1.2 (syntheticLine anchor.1.1 burst)
    event := .burstSummary (env.burstSummary burst anchor.2 last.2 (members.map (·.2)))
    raw := anchor.1.1
    offset := anchor.1.2 }

def burstItems (records : List ParsedRecord) : List BufferItem :=
  (detectBursts (records.map (·.2)) builtinBurstRules).filterMap (env.burstItem feed records)

/-- The event of a record. -/
def lineItem (record : ParsedRecord) : Option BufferItem :=
  (env.lineEvent record.2).map fun event =>
    { key := env.idempotencyKey feed record.1.2 record.1.1
      event := event
      raw := record.1.1
      offset := record.1.2 }

def lineItems (records : List ParsedRecord) : List BufferItem :=
  records.zipIdx.filterMap fun (record, p) =>
    if p ∈ claimed records then none else env.lineItem feed record

/-- What a call of `process_buffer` stores, in order. -/
def items (records : List ParsedRecord) : List BufferItem :=
  env.burstItems feed records ++ env.lineItems feed records

def storeItem (enableV2 : Bool) (st : IngestState) (item : BufferItem) : IngestState :=
  env.store feed enableV2 st item.key item.event item.raw item.offset

/-- Consecutive calls of `process_buffer`. -/
def processBuffers (inferenceRules : List CompiledInferenceRule) (enableV2 : Bool)
    (st : IngestState) (buffers : List (List (String × Nat))) : IngestState :=
  buffers.foldl (env.processBuffer feed inferenceRules builtinBurstRules enableV2) st

end IngestEnv

end StarStats
