import StarStats.Core.Bursts
import StarStats.Core.Inference
import StarStats.Lib.Inserts

/-!
# Ingesting a buffer of lines (`starstats-client/src/gamelog.rs` `process_buffer`, `burst_rules.rs`)

The lines of a buffer are joined to records, the bursts among the records become one summary each
and every other record that is classified becomes an event. With the second metadata version on,
what is stored also enters the inference window, over which the inference rules then run. The
writes of the tray's own database succeed here.
-/

namespace StarStats

/-! ## The events table -/

/-- A row of `events`. -/
structure EventsRow where
  idempotencyKey : String
  eventType : String
  timestamp : String
  raw : String
  payload : String
  logSource : String
  sourceOffset : Nat
  deriving DecidableEq

/-- What the pipeline takes from elsewhere. -/
structure IngestEnv where
  /-- The built-in classifier. -/
  classify : LogLine → Option GameEvent
  /-- `apply_remote_rules` with the rules of the cache. -/
  applyRemoteRules : LogLine → Option GameEvent
  /-- A line never reads as a summary of lines. -/
  observed : ∀ line s, classify line ≠ some (.burstSummary s) ∧
    applyRemoteRules line ≠ some (.burstSummary s)
  /-- `serde_json::to_string`. -/
  toJson : GameEvent → String
  /-- `str::to_lowercase`. -/
  toLowercase : String → String
  /-- `Uuid::new_v5` in the namespace of OIDs, on the bytes of a text. -/
  newV5 : String → String
  /-- `DateTime::parse_from_rfc3339`, in nanoseconds. -/
  parseTs : String → Option Int

/-- What classifies no line takes none for a summary. -/
theorem none_ne_burstSummary (_ : LogLine) (s : Events.BurstSummary) :
    (none : Option GameEvent) ≠ some (.burstSummary s) ∧
      (none : Option GameEvent) ≠ some (.burstSummary s) := by
  simp

def unitSeparatorChar : Char := Char.ofNat 0x1F

def unitSeparator : String := String.singleton unitSeparatorChar

namespace IngestEnv
variable (env : IngestEnv)

def contentKey (row : EventsRow) : String :=
  env.newV5 (row.eventType ++ unitSeparator ++ row.timestamp ++ unitSeparator ++ row.raw ++
    unitSeparator ++ row.payload)

/-- The unique keys of `events` that two rows share. -/
def rowConflict (row other : EventsRow) : Bool :=
  row.idempotencyKey == other.idempotencyKey || env.contentKey row == env.contentKey other

/-- The table after the insert, and whether it took the row. -/
def insertEvent (events : List EventsRow) (row : EventsRow) : List EventsRow × Bool :=
  Inserts.insertNew env.rowConflict events row

end IngestEnv

/-! ## The inference window -/

def inferenceWindowCapacity : Nat := 50

structure InferenceWindow where
  recent : List EventEnvelope
  emitted : List String
  bounded : recent.length ≤ inferenceWindowCapacity

namespace InferenceWindow

def default : InferenceWindow := ⟨[], [], Nat.zero_le _⟩

def push (window : InferenceWindow) (envelope : EventEnvelope) : InferenceWindow where
  recent := (if window.recent.length = inferenceWindowCapacity then window.recent.tail
    else window.recent) ++ [envelope]
  emitted := window.emitted
  bounded := by
    have hb := window.bounded
    have hc : 0 < inferenceWindowCapacity := by decide
    split <;> simp only [List.length_append, List.length_tail, List.length_singleton] <;> omega

def emit (window : InferenceWindow) (key : String) : InferenceWindow :=
  { window with emitted := key :: window.emitted }

end InferenceWindow

/-- What the calls of `process_buffer` change. -/
structure IngestState where
  events : List EventsRow
  window : InferenceWindow

/-! ## Records -/

def maxStitchLines : Nat := 3

def quoteCount (s : String) : Nat := s.toList.count '"'

def unterminated (s : String) : Bool :=
  Text.contains s "Added notification \"" && quoteCount s % 2 == 1

/-- Without a leading `<ts> `. -/
def continuationBody (s : String) : String :=
  match s.toList with
  | '<' :: rest =>
    match Text.splitOnce ['>', ' '] rest with
    | some (_, body) => String.ofList body
    | none => s
  | _ => s

def looksLikeRecordStart (s : String) : Bool :=
  match s.toList with
  | '<' :: rest =>
    match Text.splitOnce ['>'] rest with
    | some (_, after) => [' ', '['].isPrefixOf after
    | none => false
  | _ => false

/-- The bodies of the lines that complete a text with this many quotes, of at most `left` lines. -/
def continuations (quotes : Nat) : Nat → List (String × Nat) → Option (List String)
  | 0, _ => if quotes % 2 = 0 then some [] else none
  | _, [] => if quotes % 2 = 0 then some [] else none
  | left + 1, next :: rest =>
    if quotes % 2 = 0 then some []
    else if looksLikeRecordStart next.1 then none
    else
      let body := continuationBody next.1
      (continuations (quotes + quoteCount body) left rest).map (body :: ·)

/-- The bodies that a line is joined with; `none` when it stays as it is. -/
def joined (line : String) (rest : List (String × Nat)) : Option (List String) :=
  if unterminated line then continuations (quoteCount line) (maxStitchLines - 1) rest else none

/-- The records of the lines behind the next `skip`. -/
def stitchFrom : Nat → List (String × Nat) → List (String × Nat)
  | _, [] => []
  | skip + 1, _ :: rest => stitchFrom skip rest
  | 0, line :: rest =>
    match joined line.1 rest with
    | some bodies =>
      (bodies.foldl (fun merged body => merged ++ " " ++ body) line.1, line.2) ::
        stitchFrom bodies.length rest
    | none => line :: stitchFrom 0 rest

def stitchMultilineRecords (lines : List (String × Nat)) : List (String × Nat) :=
  stitchFrom 0 lines

/-- The lines that parse, with their places in the buffer. -/
def parseable (buffer : List (String × Nat)) : List (Nat × LogLine) :=
  buffer.zipIdx.filterMap fun (line, i) => (structuralParse line.1).map (i, ·)

/-! ## The burst rules -/

def loadoutRestoreBurstRuleId : String := "loadout_restore_burst"

def eventBurst (id name : String) (tags : List String) (minBurstSize maxMemberGap : Nat) :
    BurstRule :=
  ⟨id, .eventName name, .eventName name, tags, minBurstSize, maxMemberGap⟩

def builtinBurstRules : List BurstRule :=
  [eventBurst loadoutRestoreBurstRuleId "AttachmentReceived" ["Inventory"] 3 1,
    eventBurst "terrain_load_burst" "StatObjLoad 0x800 Format" ["CoreTech"] 5 0,
    eventBurst "hud_notification_burst" "SHUDEvent_OnNotification" [] 3 0,
    eventBurst "vehicle_stowed_burst" "VehicleStowed" [] 3 0]

/-! ## Storing -/

def logSourceName : LogSource → String
  | .live => "live"
  | .ptu => "ptu"
  | .eptu => "eptu"
  | .hotfix => "hotfix"
  | .tech => "tech"
  | .other => "other"

/-- The file that lines come from. -/
structure LogFeed where
  source : LogSource
  fileSig : Option String
  deriving DecidableEq

namespace IngestEnv
variable (env : IngestEnv) (feed : LogFeed)

def idempotencyKey (offset : Nat) (line : String) : String :=
  match feed.fileSig with
  | some sig =>
    env.newV5 (logSourceName feed.source ++ ":" ++ sig ++ ":" ++ toString offset ++ ":" ++ line)
  | none => env.newV5 (logSourceName feed.source ++ ":" ++ toString offset ++ ":" ++ line)

def inferredIdempotencyKey (ruleId triggerKey : String) : String :=
  env.newV5 ("inferred:" ++ ruleId ++ ":" ++ triggerKey)

/-- `insert_event` with a serialised event. -/
def eventRow (key : String) (event : GameEvent) (raw : String) (offset : Nat) : EventsRow where
  idempotencyKey := key
  eventType := eventTypeKey event
  timestamp := event.timestamp
  raw := raw
  payload := env.toJson event
  logSource := logSourceName feed.source
  sourceOffset := offset

def envelope (key : String) (event : GameEvent) (raw : String) (offset : Nat) : EventEnvelope where
  idempotencyKey := key
  rawLine := raw
  event := some event
  source := feed.source
  sourceOffset := offset.toUInt64
  metadata := none
  resolvedLocation := none

/-- The row is inserted, and its envelope pushed when the second metadata version is on. -/
def store (enableV2 : Bool) (st : IngestState) (key : String) (event : GameEvent) (raw : String)
    (offset : Nat) : IngestState where
  events := (env.insertEvent st.events (env.eventRow feed key event raw offset)).1
  window := if enableV2 then st.window.push (envelope feed key event raw offset) else st.window

/-- The event of a parsed line: a remote rule never overrides the built-in classifier. -/
def lineEvent (line : LogLine) : Option GameEvent :=
  (env.classify line).or (env.applyRemoteRules line)

/-- `ingest_one_line`; a line without an event goes to the unknown lines. -/
def ingestOneLine (enableV2 : Bool) (st : IngestState) (line : String × Nat) : IngestState :=
  match (structuralParse line.1).bind env.lineEvent with
  | some event => env.store feed enableV2 st (env.idempotencyKey feed line.2 line.1) event line.1
      line.2
  | none => st

/-- The item classes and ports of the attachments among the members of a burst. -/
def loadoutPairs (members : List LogLine) : List (String × String) :=
  members.filterMap fun line =>
    match env.classify line with
    | some (.attachmentReceived ar) => some (ar.itemClass, ar.port)
    | _ => none

def burstSummary (burst : BurstHit) (anchor last : LogLine) (members : List LogLine) :
    Events.BurstSummary :=
  let sample := String.ofList (anchor.body.toList.take 200)
  let pairs := env.loadoutPairs members
  let restored := burst.ruleId == loadoutRestoreBurstRuleId
  { timestamp := anchor.timestamp
    ruleId := burst.ruleId
    size := burst.size.toUInt32
    endTimestamp := last.timestamp
    anchorBodySample := if sample.isEmpty then none else some sample
    kind := if restored then some "loadout_restore" else none
    categories :=
      if restored then buildLoadoutCategories env.toLowercase (pairs.map (·.1)) else none
    items := if restored then buildLoadoutItems env.toLowercase pairs else none }

/-- The line that keys a summary. -/
def syntheticLine (anchorLine : String) (burst : BurstHit) : String :=
  anchorLine ++ "|burst:" ++ burst.ruleId ++ ":" ++ toString burst.size

/-- Pass 2b for one burst: the state, and the places of the buffer that are suppressed. -/
def storeBurst (enableV2 : Bool) (buffer : List (String × Nat)) (valid : List (Nat × LogLine))
    (st : IngestState × List Nat) (burst : BurstHit) : IngestState × List Nat :=
  match valid[burst.startIndex]?, valid[burst.endIndex]? with
  | some anchor, some last =>
    match buffer[anchor.1]? with
    | some anchorLine =>
      let members := burst.memberIndices.filterMap (valid[·]?)
      let summary := env.burstSummary burst anchor.2 last.2 (members.map (·.2))
      let key := env.idempotencyKey feed anchorLine.2 (syntheticLine anchorLine.1 burst)
      (env.store feed enableV2 st.1 key (.burstSummary summary) anchorLine.1 anchorLine.2,
        st.2 ++ members.map (·.1))
    | none => st
  | _, _ => st

/-! ## Inference -/

/-- The row of an inferred event. -/
def inferredRow (row : InferredEvent) : EventsRow :=
  env.eventRow feed
    (env.inferredIdempotencyKey (row.metadata.ruleId.getD "") row.triggerIdempotencyKey)
    row.event ("inferred:" ++ row.metadata.ruleId.getD "unknown") 0

def persistInferred (st : IngestState) (row : InferredEvent) : IngestState :=
  let inferred := env.inferredRow feed row
  if inferred.idempotencyKey ∈ st.window.emitted then st
  else
    { events := (env.insertEvent st.events inferred).1
      window := st.window.emit inferred.idempotencyKey }

def runInferenceAndPersist (inferenceRules : List CompiledInferenceRule) (st : IngestState) :
    IngestState :=
  (inferWithRules env.parseTs st.window.recent .default inferenceRules).foldl
    (env.persistInferred feed) st

/-! ## A buffer -/

def processBuffer (inferenceRules : List CompiledInferenceRule) (burstRules : List BurstRule)
    (enableV2 : Bool) (st : IngestState) (lines : List (String × Nat)) : IngestState :=
  let buffer := stitchMultilineRecords lines
  let valid := parseable buffer
  let bursts := detectBursts (valid.map (·.2)) burstRules
  let stored := bursts.foldl (env.storeBurst feed enableV2 buffer valid) (st, [])
  let ingested := buffer.zipIdx.foldl (fun st (line, i) =>
    if i ∈ stored.2 then st else env.ingestOneLine feed enableV2 st line) stored.1
  if enableV2 then env.runInferenceAndPersist feed inferenceRules ingested else ingested

/-! ## Calls with one rule list -/

/-- What calls keep that are made with one list of rules: the closures have their states. -/
structure RuledState where
  ingest : IngestState
  rules : List CompiledInferenceRule

/-- The rules run over the window of the call, which what they infer does not enter. -/
def processBufferRuled (burstRules : List BurstRule) (enableV2 : Bool) (run : RuledState)
    (lines : List (String × Nat)) : RuledState :=
  let ingest := env.processBuffer feed run.rules burstRules enableV2 run.ingest lines
  { ingest := ingest
    rules := if enableV2 then rulesAfter env.parseTs .default run.rules ingest.window.recent
      else run.rules }

end IngestEnv

end StarStats
