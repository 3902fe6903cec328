import StarStats.Client.Sync
import StarStats.Lib.Checked
import StarStats.Lib.Trans

/-!
# The ordinals of a device's batches

The two lanes of a tray number their batches from one counter (`storage.rs`), and the server keeps
the highest ordinal it has seen from the device and compares each next one with it (`ingest.rs`,
`repo.rs`). A lane peeks, sends and commits in separate steps, and the server's statement reads the
mark before it moves it. Requests and answers may be lost, late, or out of order. Ordinals are
integers: no tray sends `2 ^ 63` batches.
-/

namespace StarStats

/-- What an ordinal says beside the highest one before. -/
inductive BatchSequenceObservation where
  | firstSeen
  | inOrder
  | gap (missing : Nat)
  | regression (prev : Int)
  deriving DecidableEq

/-- On integers; `classifyBatchSequenceChecked` has the overflows, and the two agree on ordinals
below `2 ^ 63` behind a mark below `2 ^ 63 - 1`. -/
def classifyBatchSequence (prev : Option Int) (seq : Int) : BatchSequenceObservation :=
  match prev with
  | none => .firstSeen
  | some prev =>
    if seq = prev + 1 then .inOrder
    else if seq > prev + 1 then .gap (seq - prev - 1).toNat
    else .regression prev

/-- `last_batch_sequence` behind the upsert. -/
def advanceMark (mark : Option Int) (seq : Int) : Int :=
  match mark with
  | none => seq
  | some mark => max mark seq

/-! ## The lanes, the network and the server -/

/-- A turn of a lane's loop. The batch has no ordinal where the peek failed. -/
inductive LaneStage where
  | idle
  | peeked (seq : Option Nat)
  | waiting (seq : Option Nat)
  /-- The lane has a 2xx, and has marked its events sent. -/
  | acknowledged (seq : Option Nat)
  deriving DecidableEq

structure SequenceState where
  storage : ClientStorage
  lanes : Lane → LaneStage
  /-- The batches on their way. -/
  requests : List (Option Nat)
  /-- `observe_batch_sequence` has read the mark and not moved it yet. -/
  observing : List (Nat × Option Int)
  /-- The batches that were answered with a 2xx. -/
  answered : List (Option Nat)
  /-- `last_batch_sequence` of the device. -/
  mark : Option Int
  observations : List BatchSequenceObservation

namespace SequenceState

/-- A tray that has sent nothing, and a device that the server has not heard of. -/
def start (rows : List ClientRow) : SequenceState where
  storage := ⟨rows, 0⟩
  lanes _ := .idle
  requests := []
  observing := []
  answered := []
  mark := none
  observations := []

def setLane (s : SequenceState) (lane : Lane) (stage : LaneStage) : SequenceState :=
  { s with lanes := fun l => if l = lane then stage else s.lanes l }

end SequenceState

inductive SequenceAction where
  | peek (lane : Lane) (fails : Bool)
  | send (lane : Lane)
  /-- The request at this place is lost, or refused. -/
  | drop (i : Nat)
  /-- The server reads the mark for the request at this place. -/
  | observe (i : Nat)
  /-- It moves the mark, and answers. -/
  | advance (i : Nat)
  /-- It answers a batch without an ordinal. -/
  | accept (i : Nat)
  /-- `observe_batch_sequence` fails, and the batch is answered all the same. -/
  | acceptUnobserved (i : Nat)
  | acknowledge (lane : Lane)
  /-- Any other answer, or none; or the events could not be marked sent. -/
  | giveUp (lane : Lane)
  | commit (lane : Lane) (fails : Bool)

namespace SequenceState
variable (s : SequenceState)

def sequenceStep : SequenceAction → Option SequenceState
  | .peek lane fails =>
    match s.lanes lane with
    | .idle =>
      some (s.setLane lane (.peeked (if fails then none else some s.storage.peekNextBatchSequence)))
    | _ => none
  | .send lane =>
    match s.lanes lane with
    | .peeked seq => some { s.setLane lane (.waiting seq) with requests := s.requests ++ [seq] }
    | _ => none
  | .drop i => some { s with requests := s.requests.eraseIdx i }
  | .observe i =>
    match s.requests[i]? with
    | some (some seq) =>
      some { s with
        requests := s.requests.eraseIdx i
        observing := s.observing ++ [(seq, s.mark)] }
    | _ => none
  | .advance i =>
    match s.observing[i]? with
    | some (seq, prev) =>
      some { s with
        observing := s.observing.eraseIdx i
        answered := s.answered ++ [some seq]
        mark := some (advanceMark s.mark seq)
        observations := s.observations ++ [classifyBatchSequence prev seq] }
    | none => none
  | .accept i =>
    match s.requests[i]? with
    | some none =>
      some { s with requests := s.requests.eraseIdx i, answered := s.answered ++ [none] }
    | _ => none
  | .acceptUnobserved i =>
    match s.requests[i]? with
    | some (some seq) =>
      some { s with requests := s.requests.eraseIdx i, answered := s.answered ++ [some seq] }
    | _ => none
  | .acknowledge lane =>
    match s.lanes lane with
    | .waiting seq =>
      -- an answer to any batch with this ordinal will do
      if seq ∈ s.answered then some (s.setLane lane (.acknowledged seq)) else none
    | _ => none
  | .giveUp lane => some (s.setLane lane .idle)
  | .commit lane fails =>
    match s.lanes lane with
    | .acknowledged seq =>
      let storage := match seq with
        | some seq => if fails then s.storage else s.storage.commitBatchSequence seq
        | none => s.storage
      some { s.setLane lane .idle with storage := storage }
    | _ => none

end SequenceState

/-- The server observes the ordinal of each batch that it answers with a 2xx. -/
def SequenceAction.observed : SequenceAction → Bool
  | .acceptUnobserved _ => false
  | _ => true

def Observed (_ : SequenceState) (a : SequenceAction) : Prop := a.observed = true

instance : DecidableRel Observed := fun _ a => inferInstanceAs (Decidable (a.observed = true))

/-- No batch is classified as a gap, and the mark is not behind the tray's counter. -/
structure NoFalseGap (s : SequenceState) : Prop where
  noGap : ∀ missing, BatchSequenceObservation.gap missing ∉ s.observations
  ahead : (s.storage.batchSequence : Int) ≤ s.mark.getD 0

/-! ## The ordinals in 64 bits -/

/-- `classify_batch_sequence` on `i64`; none on an overflow. -/
def classifyBatchSequenceChecked (prev : Option Int) (seq : Int) :
    Option BatchSequenceObservation :=
  match prev with
  | none => some .firstSeen
  | some prev => do
    let next ← Checked.i64 (prev + 1)
    if seq = next then return .inOrder
    else if seq > next then
      let ahead ← Checked.i64 (seq - prev)
      let missing ← Checked.i64 (ahead - 1)
      return .gap (Checked.asU64 missing).toNat
    else return .regression prev

/-- What `handle` says of a device's batches, each against the mark before it. -/
def observedBatches (deviceId : String) :
    List UInt64 → Db → List (Option BatchSequenceObservation)
  | [], _ => []
  | seq :: seqs, db =>
    let r := observeBatchSequence deviceId seq.toInt64 db
    classifyBatchSequenceChecked (r.1.map (·.toInt)) seq.toInt64.toInt ::
      observedBatches deviceId seqs r.2

/-- What the ordinals say. -/
def classifyOrdinals : Option Int → List UInt64 → List BatchSequenceObservation
  | _, [] => []
  | mark, seq :: seqs =>
    classifyBatchSequence mark seq.toNat ::
      classifyOrdinals (some (advanceMark mark seq.toNat)) seqs

/-- Every ordinal is an `i64`, and everything is said without an overflow. -/
structure ClassifiedExactly (deviceId : String) (db : Db) (seqs : List UInt64) : Prop where
  casts : ∀ seq ∈ seqs, seq.toInt64.toInt = seq.toNat
  observed : observedBatches deviceId seqs db =
    (classifyOrdinals ((db.batchProgress deviceId).map (·.toInt)) seqs).map some

end StarStats
