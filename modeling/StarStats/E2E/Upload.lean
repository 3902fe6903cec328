import StarStats.Client.Sync
import StarStats.Lib.Trans

/-!
# Uploads end to end

The tray and the server as one system: the parser adds rows, either lane of the tray begins a
drain, and a drain sends its next batch through a network that may lose the request or the
answer. The server's stores and the tray's own may fail call by call.
-/

namespace StarStats

inductive Network where
  | requestLost
  /-- A layer in front of the handler answers, with no success. -/
  | answered (status : Nat)
  /-- The server has handled the request but the tray cannot read the answer. -/
  | responseLost
  | delivered
  deriving DecidableEq

/-- The circumstances of one send. -/
structure SendWorld where
  network : Network
  auth : AuthEnv
  batchEnv : BatchEnv
  token : String
  claimedHandle : String
  batchId : String
  parserVersion : Option UInt32
  now : Timestamp
  serverFaults : StoreFaults
  clientFaults : ClientFaults

/-- An event marked sent, and the handle under which the server has acknowledged it. -/
structure Delivery where
  envelope : EventEnvelope
  handle : String

structure UploadState where
  storage : ClientStorage
  drains : Lane → Option Drain
  db : Db
  delivered : List Delivery

def UploadState.start (storage : ClientStorage) (db : Db) : UploadState where
  storage := storage
  drains _ := none
  db := db
  delivered := []

inductive UploadAction where
  | record (row : ClientRow)
  | begin (lane : Lane) (priorityTypes : List String) (pageSize maxBatchBytes : Nat)
  | send (lane : Lane) (world : SendWorld)

namespace SendWorld

def batch (w : SendWorld) (st : ClientStorage) (sub : List UnsentEvent) : IngestBatch :=
  w.batchEnv.buildBatch w.batchId w.claimedHandle sub w.parserVersion
    ((drainSequence w.clientFaults st).map UInt64.ofNat)

/-- The request reaches the handler. -/
def handled (w : SendWorld) : Bool :=
  match w.network with
  | .requestLost => false
  | .answered _ => false
  | .responseLost => true
  | .delivered => true

section
variable (parseEventTimestamp : String → Option Timestamp)

def result (w : SendWorld) (batch : IngestBatch) (db : Db) : IngestResult :=
  handleIngest parseEventTimestamp w.auth w.serverFaults w.now (some w.token) batch db

/-- The answer as the tray reads it. -/
def answer (w : SendWorld) (batch : IngestBatch) (db : Db) : Except SendError IngestResponse :=
  match w.network with
  | .requestLost => .error .transient
  | .answered status => .error (classifyStatus status)
  | .responseLost => .error .transient
  | .delivered =>
    match (w.result parseEventTimestamp batch db).reply with
    | .ok response => .ok response
    | .error refusal => .error (classifyStatus refusal.status)

/-- What the tray marks sent on an answer. -/
def deliveries (w : SendWorld) (sub : List UnsentEvent) :
    Except SendError IngestResponse → List Delivery
  | .ok response =>
    let handle := (response.handleChanged.map (·.claimedHandle)).getD w.claimedHandle
    (w.clientFaults.reached sub).map fun e => ⟨w.batchEnv.envelope e, Text.lower handle⟩
  | .error _ => []

end

end SendWorld

section
variable (parseEventTimestamp : String → Option Timestamp)

def uploadStep (s : UploadState) : UploadAction → Option UploadState
  | .record row => some { s with storage := { s.storage with rows := s.storage.rows ++ [row] } }
  | .begin lane priorityTypes pageSize maxBatchBytes =>
    match s.drains lane with
    | some _ => none
    | none =>
      let drain := beginDrain s.storage lane priorityTypes pageSize maxBatchBytes
      some { s with drains := fun l => if l = lane then drain else s.drains l }
  | .send lane w =>
    match s.drains lane with
    | some ⟨sub :: rest, quarantined⟩ =>
      let batch := w.batch s.storage sub
      let answer := w.answer parseEventTimestamp batch s.db
      let after := afterSend w.clientFaults s.storage sub rest quarantined answer
      some
        { storage := after.storage
          drains := fun l => if l = lane then after.drain else s.drains l
          db := if w.handled then (w.result parseEventTimestamp batch s.db).db else s.db
          delivered := s.delivered ++ w.deliveries sub answer }
    | _ => none

/-- The event is stored, by its own key or as a row with the same content, or quarantined. -/
def Landed (db : Db) (handle : String) (e : EventEnvelope) : Prop :=
  (∃ r ∈ db.events, r.conflicts (fromEnvelope parseEventTimestamp e handle) = true) ∨
    ∃ q ∈ db.quarantined, q.claimedHandle = handle ∧ q.idempotencyKey = e.idempotencyKey

/-- No event that the tray has marked sent is lost. -/
def NoneLost (s : UploadState) : Prop :=
  ∀ d ∈ s.delivered, Landed parseEventTimestamp s.db d.handle d.envelope

/-- The call that should keep the envelope at position `i` fails. -/
def StoreFaults.hits (faults : StoreFaults) (i : Nat) (e : EventEnvelope) : Bool :=
  if isValid e then faults.insertBatch else faults.quarantine i

/-- A batch that the tray will mark sent meets no failing `insert_batch` or `quarantine` call but
for events that are stored already. -/
def FaultsSpare (s : UploadState) : UploadAction → Prop
  | .send lane w =>
    ∀ sub rest quarantined adm, s.drains lane = some ⟨sub :: rest, quarantined⟩ →
      w.network = .delivered → admitBatch w.auth (some w.token) (w.batch s.storage sub) = .ok adm →
      ∀ i e, adm.batch.events[i]? = some e → w.serverFaults.hits i e = true →
        Landed parseEventTimestamp s.db adm.canonicalHandle e
  | _ => True

end

end StarStats
