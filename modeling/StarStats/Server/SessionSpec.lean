import Mathlib.Algebra.Order.Group.Int
import StarStats.Lib.Timeline
import StarStats.Server.Rollup

/-!
# What a session is

The sessions of a set of events: sort them by time and cut wherever two neighbours are more than
the idle gap apart. `sessionise` is what `session_summary` is for; the rebuild's SQL and its
window are related to it in `Server/Proof/Sessions.lean`.
-/

namespace StarStats

/-- The columns of a session that do not depend on how the table came about. -/
structure SessionSummary where
  startedAt : Option Timestamp
  endedAt : Option Timestamp
  eventCount : Nat
  deathCount : Nat
  deriving DecidableEq

def SessionRow.summary (r : SessionRow) : SessionSummary :=
  ⟨r.startedAt, r.endedAt, r.eventCount, r.deathCount⟩

/-- The summary of one session's events. -/
def summarise (group : List SessionEvent) : SessionSummary where
  startedAt := Sql.minOf (group.map fun e => some e.time)
  endedAt := Sql.maxOf (group.map fun e => some e.time)
  eventCount := group.length
  deathCount := (group.filter (·.isDeath)).length

/-- The sessions of a set of events. -/
def sessionise (events : List SessionEvent) : List SessionSummary :=
  (Timeline.split SessionEvent.time sessionIdleGap events).map summarise

/-- `sessionRows` with any gap. -/
def sessionRowsAt (gap : Timestamp) (offset : Nat) (events : List SessionEvent) : List SessionRow :=
  (sessionGroups gap events).map (sessionRow offset)

/-- `sessionise` with any gap. -/
def sessioniseAt (gap : Timestamp) (events : List SessionEvent) : List SessionSummary :=
  (Timeline.split SessionEvent.time gap events).map summarise

/-- `session_summary` holds exactly the sessions of the handle's stored events. -/
def SessionsCurrent (handle : String) (db : Db) : Prop :=
  ((db.sessions handle).map (·.summary)).Perm (sessionise (sessionEvents handle db.events))

instance (handle : String) (db : Db) : Decidable (SessionsCurrent handle db) :=
  inferInstanceAs (Decidable (List.Perm _ _))

end StarStats
