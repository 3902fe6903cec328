import StarStats.Lib.Trans
import StarStats.Server.Retention

/-!
# Ingest and purges, statement by statement

The running counts under `READ COMMITTED`. An ingest is one atomic statement. A purge deletes
batches of events, each committed on its own, and then recomputes the handle's counts in a
transaction of three statements. The sweep's advisory lock admits one purge at a time.

Uncommitted writes of the recompute hold their rows: an ingest waits when it would touch a count
row that the transaction has deleted or inserted, or the state row it has marked.
-/

namespace StarStats

inductive PurgePhase where
  /-- In the delete loop: rows deleted and batches run so far. -/
  | deleting (total batches : Nat)
  /-- The loop is done and deleted something. -/
  | swept
  /-- The counts are deleted; `gone` says which types had a row. -/
  | emptied (gone : String → Bool)
  | recomputed (gone : String → Bool) (rows : String → Option CountRow)
  | marked (gone : String → Bool) (rows : String → Option CountRow) (row : RollupRow)

structure PurgeTx where
  now : Timestamp
  handle : String
  cutoff : Timestamp
  phase : PurgePhase

structure CountState where
  db : Db
  purge : Option PurgeTx

inductive CountAction where
  | ingest (now : Timestamp) (events : List StoredEvent)
  | purgeStart (now : Timestamp) (handle : String) (cutoff : Timestamp)
  | purgeNext
  /-- The purge's next statement fails. -/
  | purgeFail

/-- The inserted rows touch a row the purge holds. -/
def PurgeTx.blocks (tx : PurgeTx) (ins : List EventRow) : Bool :=
  let rows := ins.filter (·.claimedHandle = tx.handle)
  match tx.phase with
  | .deleting .. | .swept => false
  | .emptied gone => rows.any fun r => gone r.eventType
  | .recomputed gone new => rows.any fun r => gone r.eventType || (new r.eventType).isSome
  | .marked .. => !rows.isEmpty

/-- The counts as the purge's own transaction sees them. -/
def countsSeen (db : Db) (handle : String) (gone : String → Bool) :
    String → String → Option CountRow :=
  fun h ty => if h = handle ∧ gone ty = true then none else db.counts h ty

/-- The next statement of a purge: the committed tables after it and the purge unless it ended. -/
def purgeAdvance (db : Db) (tx : PurgeTx) : Db × Option PurgeTx :=
  let goto (db : Db) phase := (db, some { tx with phase := phase })
  match tx.phase with
  | .deleting total batches =>
    let batch := deleteBatch tx.handle tx.cutoff db.events
    let db := { db with events := batch.2 }
    let total := total + batch.1
    if batch.1 = 0 ∨ perUserBatchCap ≤ batches + 1 then
      if 0 < total then goto db .swept else (db, none)
    else goto db (.deleting total (batches + 1))
  | .swept => goto db (.emptied fun ty => (db.counts tx.handle ty).isSome)
  | .emptied gone =>
    -- a unique violation rolls the transaction back; the deleted events stay deleted
    if recomputeCollides tx.handle db.events (countsSeen db tx.handle gone) then (db, none)
    else goto db (.recomputed gone fun ty => countGroup tx.handle ty db.events)
  | .recomputed gone rows =>
    goto db (.marked gone rows (purgeDirty tx.now (db.rollup tx.handle)))
  | .marked gone rows row =>
    ({ db with
        counts := fun h ty =>
          if h = tx.handle then (rows ty).or (countsSeen db tx.handle gone h ty) else db.counts h ty
        rollup := fun h => if h = tx.handle then some row else db.rollup h }, none)

def countStep (s : CountState) : CountAction → Option CountState
  | .ingest now events =>
    let ins := s.db.inserted now events
    if s.purge.any (·.blocks ins) then none
    else some { s with db := s.db.commitInserted now ins }
  | .purgeStart now handle cutoff =>
    if s.purge.isSome then none
    else some { s with purge := some ⟨now, handle, cutoff, .deleting 0 0⟩ }
  | .purgeNext => s.purge.map fun tx =>
    let r := purgeAdvance s.db tx
    ⟨r.1, r.2⟩
  | .purgeFail => s.purge.map fun _ => { s with purge := none }

/-- How many rows of a type a handle has. -/
def rowCount (handle ty : String) (events : List EventRow) : Nat :=
  (rowsOfType handle ty events).length

/-- The count a table of `n` rows should show: no row for none. -/
def countCell (n : Nat) : Option Nat := if n = 0 then none else some n

/-- `stat_event_counts` counts the rows of `events`. -/
def CountsExact (db : Db) : Prop :=
  ∀ handle ty, (db.counts handle ty).map (·.eventCount) = countCell (rowCount handle ty db.events)

/-- The counts are exact whenever no purge is in flight. -/
def QuietCountsExact (s : CountState) : Prop := s.purge = none → CountsExact s.db

/-- No statement of a purge errors once the purge has deleted a row: none is made to fail, and
the recompute meets no count row that appeared since it emptied the handle's counts. -/
def NoErrorAfterDelete (s : CountState) : CountAction → Prop
  | .purgeFail => ∀ tx, s.purge = some tx → ∃ batches, tx.phase = .deleting 0 batches
  | .purgeNext => ∀ tx gone, s.purge = some tx → tx.phase = .emptied gone →
      recomputeCollides tx.handle s.db.events (countsSeen s.db tx.handle gone) = false
  | _ => True

end StarStats
