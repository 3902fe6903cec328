import Mathlib.Data.List.Dedup
import StarStats.Lib.Trans
import StarStats.Server.Repo

/-!
# The nightly reconcile (`starstats-server/src/stat_reconcile.rs`)

`runReconcile` on its own, and the same job under `READ COMMITTED` beside ingests: the upsert
groups the events committed when it starts (`truth`) and then takes the groups one at a time,
in any order, against the latest committed row of each. Every row it takes is held until the
commit, and an ingest that would touch a held row waits.
-/

namespace StarStats

/-! ## On its own -/

/-- The upsert of one group: a row is rewritten when its `event_count` differs. -/
def upsertCount (truth : CountRow) : Option CountRow → CountRow
  | none => truth
  | some row => if row.eventCount ≠ truth.eventCount then truth else row

/-- The upsert of every group. -/
def upsertCounts (events : List EventRow) (counts : String → String → Option CountRow) :
    String → String → Option CountRow :=
  fun h ty =>
    match countGroup h ty events with
    | none => counts h ty
    | some truth => some (upsertCount truth (counts h ty))

/-- `NOT EXISTS (SELECT 1 FROM events …)`. -/
def isOrphan (events : List EventRow) (h ty : String) : Bool :=
  !events.any fun e => e.claimedHandle == h && e.eventType == ty

/-- `DELETE FROM stat_event_counts` of the rows without events. -/
def deleteOrphans (events : List EventRow) (counts : String → String → Option CountRow) :
    String → String → Option CountRow :=
  fun h ty => if isOrphan events h ty then none else counts h ty

def runReconcile (db : Db) : Db :=
  { db with counts := deleteOrphans db.events (upsertCounts db.events db.counts) }

/-- `stat_event_counts` is the grouping of `events`, in all its columns. -/
def CountsGrouped (db : Db) : Prop := ∀ h ty, db.counts h ty = countGroup h ty db.events

/-- A count row whose `event_count` is right has the right first and last time too. -/
def TimesFollowCounts (db : Db) : Prop :=
  ∀ h ty row truth, db.counts h ty = some row → countGroup h ty db.events = some truth →
    row.eventCount = truth.eventCount → row = truth

/-! ## Beside ingests -/

structure ReconcileTx where
  /-- The groups of the events committed when the upsert started. -/
  truth : String → String → Option CountRow
  /-- The groups not taken yet. -/
  pending : List (String × String)
  /-- The rows taken, as the transaction left them. -/
  held : String → String → Option CountRow
  /-- The orphans deleted, once the second statement ran. -/
  orphans : Option (String → String → Bool)

structure ReconcileState where
  db : Db
  reconcile : Option ReconcileTx

inductive ReconcileAction where
  | ingest (now : Timestamp) (events : List StoredEvent)
  /-- The upsert starts: it groups the committed events. -/
  | start
  /-- The upsert takes one group. -/
  | take (handle ty : String)
  | deleteOrphans
  | commit
  | abort

namespace ReconcileTx

/-- The upsert groups the committed events. -/
def start (db : Db) : ReconcileTx where
  truth := fun h ty => countGroup h ty db.events
  pending := (db.events.map fun e => (e.claimedHandle, e.eventType)).dedup
  held := fun _ _ => none
  orphans := none

/-- The counts as the transaction sees them. -/
def sees (tx : ReconcileTx) (db : Db) (h ty : String) : Option CountRow :=
  (tx.held h ty).or (db.counts h ty)

/-- The upsert takes a group, against the latest committed row. Postgres locks the row also
when the `WHERE` of the `DO UPDATE` fails. -/
def take (tx : ReconcileTx) (db : Db) (h ty : String) (truth : CountRow) : ReconcileTx :=
  { tx with
    pending := tx.pending.filter (· ≠ (h, ty))
    held := fun h' ty' =>
      if h' = h ∧ ty' = ty then some (upsertCount truth (db.counts h ty)) else tx.held h' ty' }

def deleteOrphans (tx : ReconcileTx) (db : Db) : ReconcileTx :=
  { tx with orphans := some fun h ty => (tx.sees db h ty).isSome && isOrphan db.events h ty }

/-- The counts once the transaction has committed. -/
def commit (tx : ReconcileTx) (db : Db) (gone : String → String → Bool) : Db :=
  { db with counts := fun h ty => if gone h ty then none else tx.sees db h ty }

/-- An ingest of `ins` would touch a row this transaction has written or deleted. -/
def blocks (tx : ReconcileTx) (ins : List EventRow) : Bool :=
  ins.any fun r => (tx.held r.claimedHandle r.eventType).isSome ||
    tx.orphans.any fun gone => gone r.claimedHandle r.eventType

end ReconcileTx

def reconcileStep (s : ReconcileState) : ReconcileAction → Option ReconcileState
  | .ingest now events =>
    let ins := s.db.inserted now events
    if s.reconcile.any (·.blocks ins) then none
    else some { s with db := s.db.commitInserted now ins }
  | .start =>
    match s.reconcile with
    | some _ => none
    | none => some { s with reconcile := some (.start s.db) }
  | .take h ty =>
    match s.reconcile with
    | none => none
    | some tx =>
      match tx.truth h ty with
      | none => none
      | some truth =>
        if (h, ty) ∈ tx.pending then
          some { s with reconcile := some (tx.take s.db h ty truth) }
        else none
  | .deleteOrphans =>
    match s.reconcile with
    | none => none
    | some tx =>
      if tx.pending = [] ∧ tx.orphans.isNone then
        some { s with reconcile := some (tx.deleteOrphans s.db) }
      else none
  | .commit =>
    match s.reconcile with
    | none => none
    | some tx =>
      match tx.orphans with
      | none => none
      | some gone => some { db := tx.commit s.db gone, reconcile := none }
  | .abort =>
    match s.reconcile with
    | none => none
    | some _ => some { s with reconcile := none }

/-- The counts are the grouping whenever no reconcile is in flight. -/
def QuietCountsGrouped (s : ReconcileState) : Prop := s.reconcile = none → CountsGrouped s.db

/-- A reconcile commits only when every group of its snapshot still has the rows it had then. -/
def SnapshotCurrent (s : ReconcileState) : ReconcileAction → Prop
  | .commit => ∀ tx, s.reconcile = some tx → ∀ h ty truth, tx.truth h ty = some truth →
      countGroup h ty s.db.events = some truth
  | _ => True

end StarStats
