import Mathlib.Data.List.Sort
import Mathlib.Data.String.Basic
import StarStats.Server.Ingest

/-!
# The tray's upload loop (`starstats-client/src/sync.rs`, `storage.rs`)

A drain reads a page of unsent rows, cuts it into batches and sends them one after another. What
a batch's answer does to the stored rows and to the batches still to be sent is `afterSend`.
-/

namespace StarStats

/-! ## The tray's storage -/

structure UnsentEvent where
  id : Int
  idempotencyKey : String
  payloadJson : String
  rawLine : String
  logSource : String
  sourceOffset : UInt64
  deriving DecidableEq

/-- What `sent_at` holds: a time, or the sentinel of a row the server refused. -/
inductive SentAt where
  | sent
  | quarantined
  deriving DecidableEq

/-- A row of the tray's `events`. -/
structure ClientRow extends UnsentEvent where
  eventType : String
  sentAt : Option SentAt
  deriving DecidableEq

structure ClientStorage where
  /-- By ascending `id`. -/
  rows : List ClientRow
  /-- `batch_sequence_counter`; `0` before the first commit. -/
  batchSequence : Nat

inductive Lane where
  | priority
  | bulk
  deriving DecidableEq

namespace ClientStorage

def readUnsentFiltered (st : ClientStorage) (priorityTypes : List String) (priorityOnly : Bool)
    (limit : Nat) : List UnsentEvent :=
  let unsent := st.rows.filter fun r =>
    r.sentAt.isNone && (priorityTypes.isEmpty || priorityTypes.contains r.eventType == priorityOnly)
  (unsent.take limit).map (·.toUnsentEvent)

/-- `UPDATE events SET sent_at = … WHERE sent_at IS NULL AND id IN (…)`. -/
def mark (st : ClientStorage) (mark : SentAt) (ids : List Int) : ClientStorage :=
  { st with rows := st.rows.map fun r =>
      if r.sentAt.isNone && ids.contains r.id then { r with sentAt := some mark } else r }

def markSent (st : ClientStorage) (ids : List Int) : ClientStorage := st.mark .sent ids

def markQuarantined (st : ClientStorage) (ids : List Int) : ClientStorage :=
  st.mark .quarantined ids

def peekNextBatchSequence (st : ClientStorage) : Nat := st.batchSequence + 1

def commitBatchSequence (st : ClientStorage) (seq : Nat) : ClientStorage :=
  { st with batchSequence := max st.batchSequence seq }

end ClientStorage

/-! ## Batches -/

def envelopeOverhead : Nat := 384

def estimatedEnvelopeBytes (e : UnsentEvent) : Nat :=
  e.idempotencyKey.utf8ByteSize + e.rawLine.utf8ByteSize + e.payloadJson.utf8ByteSize +
    e.logSource.utf8ByteSize + envelopeOverhead

/-- The chunks after `current`, whose estimated size is `currentBytes`. -/
def chunkFrom (maxBytes : Nat) (current : List UnsentEvent) (currentBytes : Nat) :
    List UnsentEvent → List (List UnsentEvent)
  | [] => if current.isEmpty then [] else [current]
  | e :: es =>
    let size := estimatedEnvelopeBytes e
    if !current.isEmpty && maxBytes < currentBytes + size then
      current :: chunkFrom maxBytes [e] size es
    else chunkFrom maxBytes (current ++ [e]) (currentBytes + size) es

def chunkByBytes (events : List UnsentEvent) (maxBytes : Nat) : List (List UnsentEvent) :=
  chunkFrom maxBytes [] 0 events

def parseSource (s : String) : LogSource :=
  if s = "live" then .live
  else if s = "ptu" then .ptu
  else if s = "eptu" then .eptu
  else if s = "hotfix" then .hotfix
  else if s = "tech" then .tech
  else .other

def computeSourceRange (events : List UnsentEvent) : Option SourceRange :=
  match events with
  | [] => none
  | first :: _ =>
    let source := parseSource first.logSource
    if events.any (parseSource ·.logSource ≠ source) then none
    else some
      { source := source
        startOffset := events.foldl (fun o e => min o e.sourceOffset) first.sourceOffset
        endOffset := events.foldl (fun o e => max o e.sourceOffset) first.sourceOffset }

/-- What building a batch takes from elsewhere. -/
structure BatchEnv where
  /-- `serde_json::from_str::<GameEvent>`. -/
  parsePayload : String → Option GameEvent
  /-- The location classifier on the drain's catalogue. -/
  classify : String → ResolvedLocation
  /-- `Uuid::new_v5` in the namespace of content hashes. -/
  contentUuid : String → String
  collectorVersion : String

namespace BatchEnv

def computeContentHash (env : BatchEnv) (events : List UnsentEvent) : String :=
  let keys := (events.map (·.idempotencyKey)).insertionSort (· ≤ ·)
  env.contentUuid ("\n".intercalate keys)

/-- The envelope of a row: an unreadable payload ships as none. -/
def envelope (env : BatchEnv) (e : UnsentEvent) : EventEnvelope :=
  let event := env.parsePayload e.payloadJson
  { idempotencyKey := e.idempotencyKey
    rawLine := e.rawLine
    event := event
    source := parseSource e.logSource
    sourceOffset := e.sourceOffset
    metadata := none
    resolvedLocation := (event.bind (·.locationRaw)).map env.classify }

def buildBatch (env : BatchEnv) (batchId claimedHandle : String) (events : List UnsentEvent)
    (parserVersion : Option UInt32) (batchSequence : Option UInt64) : IngestBatch where
  schemaVersion := currentSchemaVersion
  batchId := batchId
  gameBuild := none
  collectorVersion := some env.collectorVersion
  parserVersion := parserVersion
  batchSequence := batchSequence
  contentHash := some (env.computeContentHash events)
  sourceRange := computeSourceRange events
  claimedHandle := claimedHandle
  events := events.map env.envelope

end BatchEnv

/-! ## A drain -/

inductive SendError where
  | auth
  | badBatch
  | transient
  deriving DecidableEq

/-- `try_send_batch` on the status of an answer that is not a success. -/
def classifyStatus (status : Nat) : SendError :=
  if status = 401 ∨ status = 403 then .auth
  else if 400 ≤ status ∧ status < 500 then .badBatch
  else .transient

def maxQuarantinesPerDrain : Nat := 10

/-- The loop's state: the batches to send, the next first, and the rows quarantined so far. -/
structure Drain where
  stack : List (List UnsentEvent)
  quarantined : Nat

/-- The loop after a batch, and the storage; `none` when the drain has ended. -/
structure AfterSend where
  storage : ClientStorage
  drain : Option Drain

def Drain.next (stack : List (List UnsentEvent)) (quarantined : Nat) : Option Drain :=
  if stack.isEmpty then none else some ⟨stack, quarantined⟩

/-- Which of the tray's own reads and writes fail around a send. -/
structure ClientFaults where
  peekBatchSequence : Bool
  /-- The number of chunks that `mark_sent` has written when it fails. -/
  markSent : Option Nat
  commitBatchSequence : Bool
  markQuarantined : Bool

def ClientFaults.none : ClientFaults where
  peekBatchSequence := false
  markSent := .none
  commitBatchSequence := false
  markQuarantined := false

/-- `SQLITE_MAX_VARIABLE_NUMBER` leaves room for this many ids in a statement. -/
def markChunk : Nat := 500

/-- The rows of an acknowledged batch that `mark_sent` reaches. -/
def ClientFaults.reached (faults : ClientFaults) (sub : List UnsentEvent) : List UnsentEvent :=
  match faults.markSent with
  | .none => sub
  | some chunks => sub.take (markChunk * chunks)

/-- The ordinal the batch carries. -/
def drainSequence (faults : ClientFaults) (st : ClientStorage) : Option Nat :=
  if faults.peekBatchSequence then none else some st.peekNextBatchSequence

/-- The body of the drain loop for the batch `sub`, with `rest` behind it. -/
def afterSend (faults : ClientFaults) (st : ClientStorage) (sub : List UnsentEvent)
    (rest : List (List UnsentEvent)) (quarantined : Nat) :
    Except SendError IngestResponse → AfterSend
  | .ok _ =>
    let marked := st.markSent ((faults.reached sub).map (·.id))
    if faults.markSent.isSome then ⟨marked, none⟩
    else
      let committed := match drainSequence faults st with
        | some seq => if faults.commitBatchSequence then marked else marked.commitBatchSequence seq
        | none => marked
      ⟨committed, Drain.next rest quarantined⟩
  | .error .auth => ⟨st, none⟩
  | .error .transient => ⟨st, none⟩
  | .error .badBatch =>
    match sub with
    | [e] =>
      if maxQuarantinesPerDrain ≤ quarantined then ⟨st, none⟩
      else if faults.markQuarantined then ⟨st, none⟩
      else ⟨st.markQuarantined [e.id], Drain.next rest (quarantined + 1)⟩
    | sub =>
      let mid := sub.length / 2
      ⟨st, some ⟨sub.take mid :: sub.drop mid :: rest, quarantined⟩⟩

/-- `drain_lane` up to its loop: the page, cut into batches. -/
def beginDrain (st : ClientStorage) (lane : Lane) (priorityTypes : List String)
    (pageSize maxBatchBytes : Nat) : Option Drain :=
  let pending := match lane with
    | .priority => st.readUnsentFiltered priorityTypes true pageSize
    | .bulk => st.readUnsentFiltered priorityTypes false pageSize
  Drain.next (chunkByBytes pending maxBatchBytes) 0

end StarStats
