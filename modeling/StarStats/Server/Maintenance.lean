import StarStats.Lib.Trans
import StarStats.Server.Retention
import StarStats.Server.SessionSpec

/-!
# Ingest, purges and rebuilds, one after the other

The history of a database whose operations never overlap: batches are inserted, purges run to
their end, session rollups are rebuilt, in any order and for any handles.
-/

namespace StarStats

inductive MaintenanceAction where
  | ingest (now : Timestamp) (events : List StoredEvent)
  | purge (now : Timestamp) (handle : String) (cutoff : Timestamp)
  | rebuild (now : Timestamp) (handle : String)

def maintenanceStep (db : Db) : MaintenanceAction → Option Db
  | .ingest now events => some (insertBatch now events db).2
  | .purge now handle cutoff => some (purgeUserEvents now handle cutoff db).2
  | .rebuild now handle => some (rebuildHandleSessionStats now handle db)

/-- A handle that is not marked dirty has its sessions up to date. -/
def CleanIsCurrent (handle : String) (db : Db) : Prop :=
  ∀ row, db.rollup handle = some row → row.sessionsDirty = false → SessionsCurrent handle db

/-- Where a pending rebuild of the handle starts, if a watermark bounds it. -/
def pendingFrom (handle : String) (db : Db) : Option Timestamp :=
  match db.rollup handle with
  | none => none
  | some row =>
    if row.sessionsDirty then
      (rebuildWindow row.sessionsDirtyFromTs (db.sessions handle)).map (·.fromTs)
    else none

/-- A purge of the handle reaches no session event below a pending window. -/
def PurgeInWindow (handle : String) (db : Db) : MaintenanceAction → Prop
  | .purge _ h cutoff =>
    h = handle → ∀ f ∈ pendingFrom handle db,
      ∀ e ∈ sessionEvents handle (db.events.filter (·.receivedAt < cutoff)), f ≤ e.time
  | _ => True

end StarStats
