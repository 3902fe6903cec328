import StarStats.Lib.Trans
import StarStats.Server.SessionSpec

/-!
# Ingest and the two rebuilds, statement by statement

The committed tables of one handle under `READ COMMITTED`: an ingest is one atomic statement, a
rebuild a transaction that advances one statement at a time. A statement sees what is committed
when it runs; a transaction's own writes live in its phase until it commits.

Lock 21331 admits one session rebuild, lock 21332 one contract rebuild, so each has at most one
holder and a list of transactions that wait for it. The clear that ends a rebuild locks the
handle's state row until the commit: an ingest that would touch the row, and the other rebuild's
clear, wait for it. `now()` is the transaction's start, and no two transactions share one.
-/

namespace StarStats

/-- What a rebuild read of the state row under its lock. -/
structure Captured where
  updatedAt : Option Timestamp
  dirtyFromTs : Option Timestamp

def Captured.of (state : Option RollupRow) : Captured :=
  ⟨state.map (·.updatedAt), state.bind (·.sessionsDirtyFromTs)⟩

/-- Where a session rebuild stands: the statement it ran last, with the values it holds. -/
inductive SessionPhase where
  | locked
  | read (cap : Captured)
  | windowed (cap : Captured) (window : Option SessionRebuildWindow)
  | deleted (cap : Captured) (window : Option SessionRebuildWindow) (kept : List SessionRow)
  | numbered (cap : Captured) (window : Option SessionRebuildWindow) (kept : List SessionRow)
      (offset : Nat)
  | inserted (cap : Captured) (rows : List SessionRow)
  | aggregated (cap : Captured) (rows : List SessionRow) (agg : List EntityAggRow)
  | cleared (rows : List SessionRow) (agg : List EntityAggRow) (row : RollupRow)

structure SessionTx where
  now : Timestamp
  phase : SessionPhase

inductive ContractPhase where
  | locked
  | read (cap : Captured)
  | fetched (cap : Captured) (runs : List ContractRunRow)
  | deleted (cap : Captured) (runs : List ContractRunRow)
  | inserted (cap : Captured) (runs : List ContractRunRow)
  | cleared (runs : List ContractRunRow) (row : RollupRow)

structure ContractTx where
  now : Timestamp
  phase : ContractPhase

/-- The clear has run and its row lock is held. -/
def SessionTx.locksRow (tx : SessionTx) : Bool :=
  match tx.phase with
  | .cleared .. => true
  | _ => false

def ContractTx.locksRow (tx : ContractTx) : Bool :=
  match tx.phase with
  | .cleared .. => true
  | _ => false

structure RebuildState where
  db : Db
  /-- Every `now()` handed out so far. -/
  used : List Timestamp
  sessionWaiting : List Timestamp
  session : Option SessionTx
  contractWaiting : List Timestamp
  contract : Option ContractTx

def RebuildState.start (db : Db) (used : List Timestamp) : RebuildState :=
  ⟨db, used, [], none, [], none⟩

inductive RebuildAction where
  | ingest (now : Timestamp) (events : List StoredEvent)
  | sessionBegin (now : Timestamp)
  | sessionLock (now : Timestamp)
  | sessionNext
  | sessionAbort
  | sessionGiveUp (now : Timestamp)
  | contractBegin (now : Timestamp)
  | contractLock (now : Timestamp)
  | contractNext
  | contractAbort
  | contractGiveUp (now : Timestamp)

section
variable (handle : String)

/-- The next statement of a session rebuild: the committed tables after it, and the transaction
unless it ended. `none` when the statement waits. -/
def sessionAdvance (db : Db) (rowLocked : Bool) (tx : SessionTx) : Option (Db × Option SessionTx) :=
  let goto phase := some (db, some { tx with phase := phase })
  match tx.phase with
  | .locked =>
    if stillDirty (·.sessionsDirty) (db.rollup handle) then
      goto (.read (.of (db.rollup handle)))
    else some (db, none)
  | .read cap => goto (.windowed cap (rebuildWindow cap.dirtyFromTs (db.sessions handle)))
  | .windowed cap window => goto (.deleted cap window (keptSessions window (db.sessions handle)))
  | .deleted cap window kept => goto (.numbered cap window kept (sessionIdOffset kept))
  | .numbered cap window kept offset =>
    goto (.inserted cap (kept ++ sessionRows offset
      (eventsFrom (window.map (·.fromTs)) (sessionEvents handle db.events))))
  | .inserted cap rows => goto (.aggregated cap rows (entityAggRows handle db.events))
  | .aggregated cap rows agg =>
    if rowLocked then none
    else goto (.cleared rows agg (clearSessionsDirty tx.now cap.updatedAt (db.rollup handle)))
  | .cleared rows agg row => some
    ({ db with
        sessions := setAt db.sessions handle rows
        entityAgg := setAt db.entityAgg handle agg
        rollup := setAt db.rollup handle (some row) }, none)

variable (deriveContractRuns : List EventEnvelope → List ContractRunRow)

/-- The next statement of a contract rebuild. -/
def contractAdvance (db : Db) (rowLocked : Bool) (tx : ContractTx) :
    Option (Db × Option ContractTx) :=
  let goto phase := some (db, some { tx with phase := phase })
  match tx.phase with
  | .locked =>
    if stillDirty (·.contractsDirty) (db.rollup handle) then
      goto (.read (.of (db.rollup handle)))
    else some (db, none)
  | .read cap => goto (.fetched cap (deriveContractRuns (contractEnvelopes handle db.events)))
  | .fetched cap runs => goto (.deleted cap runs)
  | .deleted cap runs => goto (.inserted cap runs)
  | .inserted cap runs =>
    if rowLocked then none
    else goto (.cleared runs (clearContractsDirty tx.now cap.updatedAt (db.rollup handle)))
  | .cleared runs row => some
    ({ db with
        contractRuns := setAt db.contractRuns handle runs
        rollup := setAt db.rollup handle (some row) }, none)

def rebuildStep (s : RebuildState) : RebuildAction → Option RebuildState
  | .ingest now events =>
    let ins := s.db.inserted now events
    let locked := (s.session.any (·.locksRow)) || (s.contract.any (·.locksRow))
    -- an ingest that inserts nothing for the handle does not touch its state row
    if now ∈ s.used ∨ (locked = true ∧ ins.any (·.claimedHandle = handle)) then none
    else some { s with db := s.db.commitInserted now ins, used := now :: s.used }
  | .sessionBegin now =>
    if now ∈ s.used then none
    else some { s with used := now :: s.used, sessionWaiting := now :: s.sessionWaiting }
  | .sessionLock now =>
    if s.session.isNone ∧ now ∈ s.sessionWaiting then some
      { s with sessionWaiting := s.sessionWaiting.erase now, session := some ⟨now, .locked⟩ }
    else none
  | .sessionNext =>
    s.session.bind fun tx =>
      (sessionAdvance handle s.db (s.contract.any (·.locksRow)) tx).map fun r =>
        { s with db := r.1, session := r.2 }
  | .sessionAbort => if s.session.isSome then some { s with session := none } else none
  | .sessionGiveUp now =>
    if now ∈ s.sessionWaiting then
      some { s with sessionWaiting := s.sessionWaiting.erase now }
    else none
  | .contractBegin now =>
    if now ∈ s.used then none
    else some { s with used := now :: s.used, contractWaiting := now :: s.contractWaiting }
  | .contractLock now =>
    if s.contract.isNone ∧ now ∈ s.contractWaiting then some
      { s with contractWaiting := s.contractWaiting.erase now, contract := some ⟨now, .locked⟩ }
    else none
  | .contractNext =>
    s.contract.bind fun tx =>
      (contractAdvance handle deriveContractRuns s.db (s.session.any (·.locksRow)) tx).map
        fun r => { s with db := r.1, contract := r.2 }
  | .contractAbort => if s.contract.isSome then some { s with contract := none } else none
  | .contractGiveUp now =>
    if now ∈ s.contractWaiting then
      some { s with contractWaiting := s.contractWaiting.erase now }
    else none

/-- Nothing is known of the handle yet. -/
def NeverSeen (db : Db) : Prop :=
  db.rollup handle = none ∧ db.events.filter (·.claimedHandle = handle) = [] ∧
    db.sessions handle = []

/-- `contract_runs` holds exactly the fold of the handle's stored events. -/
def ContractsCurrent (db : Db) : Prop :=
  db.contractRuns handle = deriveContractRuns (contractEnvelopes handle db.events)

/-- Each rollup that is not marked dirty is up to date. -/
def RollupsCurrent (db : Db) : Prop :=
  ∀ row, db.rollup handle = some row →
    (row.sessionsDirty = false → SessionsCurrent handle db) ∧
      (row.contractsDirty = false → ContractsCurrent handle deriveContractRuns db)

end

end StarStats
