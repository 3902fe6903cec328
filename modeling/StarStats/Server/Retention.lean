import Mathlib.Data.List.Sort
import StarStats.Server.Repo

/-!
# Retention purges (`starstats-server/src/retention.rs`)

`purgeUserEvents` deletes a handle's events received before a cutoff, at most `deleteBatchSize`
rows a statement and `perUserBatchCap` statements a sweep. Each `DELETE` commits on its own; the
recompute of the counts and the dirty mark follow in one transaction.
-/

namespace StarStats

def deleteBatchSize : Nat := 1000
def perUserBatchCap : Nat := 100

/-! ## The statements -/

/-- The rows one `DELETE` picks: the oldest received ones before the cutoff. -/
def purgeSelection (handle : String) (cutoff : Timestamp) (events : List EventRow) :
    List EventRow :=
  ((events.filter fun r => r.claimedHandle = handle ∧ r.receivedAt < cutoff).insertionSort
    fun a b => a.receivedAt ≤ b.receivedAt).take deleteBatchSize

/-- One `DELETE`, and how many rows it deleted. Rows differ by `events_handle_idem_uq`, so a row
stands for its `ctid`. -/
def deleteBatch (handle : String) (cutoff : Timestamp) (events : List EventRow) :
    Nat × List EventRow :=
  let selected := purgeSelection handle cutoff events
  (selected.length, events.filter (· ∉ selected))

/-- `DELETE FROM stat_event_counts WHERE claimed_handle = $1`. -/
def deleteCounts (handle : String) (counts : String → String → Option CountRow) :
    String → String → Option CountRow :=
  fun h ty => if h = handle then none else counts h ty

/-- The recompute has no `ON CONFLICT` clause: it fails when a group of the handle already has
a row. -/
def recomputeCollides (handle : String) (events : List EventRow)
    (counts : String → String → Option CountRow) : Bool :=
  (events.filter (·.claimedHandle = handle)).any fun r => (counts handle r.eventType).isSome

/-- `INSERT INTO stat_event_counts … SELECT … GROUP BY`. -/
def recomputeCounts (handle : String) (events : List EventRow)
    (counts : String → String → Option CountRow) : String → String → Option CountRow :=
  fun h ty =>
    if h = handle then
      match countGroup h ty events with
      | some row => some row
      | none => counts h ty
    else counts h ty

/-- The dirty mark of a purge. It leaves the watermark as it is. -/
def purgeDirty (now : Timestamp) : Option RollupRow → RollupRow
  | none => .fresh now none
  | some row => { row with sessionsDirty := true, contractsDirty := true, updatedAt := now }

/-! ## The purge -/

/-- The delete loop, with the batches left: rows deleted, whether it hit the cap, the events. -/
def purgeLoop (handle : String) (cutoff : Timestamp) :
    Nat → List EventRow → (Nat × Bool) × List EventRow
  | 0, events => ((0, true), events)
  | n + 1, events =>
    let batch := deleteBatch handle cutoff events
    if batch.1 = 0 then ((0, false), batch.2)
    else
      let rest := purgeLoop handle cutoff n batch.2
      ((batch.1 + rest.1.1, rest.1.2), rest.2)

def purgeUserEvents (now : Timestamp) (handle : String) (cutoff : Timestamp) (db : Db) :
    (Nat × Bool) × Db :=
  let res := purgeLoop handle cutoff perUserBatchCap db.events
  if 0 < res.1.1 then
    (res.1,
      { db with
        events := res.2
        counts := recomputeCounts handle res.2 (deleteCounts handle db.counts)
        rollup := fun h => if h = handle then some (purgeDirty now (db.rollup h)) else db.rollup h })
  else (res.1, { db with events := res.2 })

end StarStats
