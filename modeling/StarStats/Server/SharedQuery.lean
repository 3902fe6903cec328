import Mathlib.Data.List.Sort
import Mathlib.Data.String.Basic
import StarStats.Server.Repo

/-!
# The queries behind shared views (`starstats-server/src/repo.rs`, `validation.rs`)

What friends and strangers are shown of a handle's events: the totals by type
(`summaryForHandleShared`), the counts by day (`timelineShared`, `timelineSharedFiltered`) and the
events themselves (`listFiltered`). Days are UTC days. How the database orders types with equal
counts, which the `ORDER BY` leaves open, is a parameter (`TieOrder`).
-/

namespace StarStats

open Text (lower)

/-- A row of `events` with its `seq`. -/
structure SeqRow extends EventRow where
  seq : Int64
  deriving DecidableEq

def dayMicros : Int := 86400 * 1000000

/-- The handle's rows that the owner has not hidden. -/
def sharedRows (handle : String) (events : List SeqRow) : List SeqRow :=
  events.filter fun r => r.claimedHandle = lower handle ∧ r.hiddenAt = none

/-- `event_timestamp >= NOW() - make_interval(days)`, where there is a timestamp. -/
def SeqRow.within (now : Timestamp) (days : UInt32) (r : SeqRow) : Bool :=
  r.eventTimestamp.any (now - days.toNat * dayMicros ≤ ·)

/-- `event_type = ANY(allow)` and `event_type <> ALL(deny)`, each where the list is given. -/
def typeAllowed (allow deny : Option (List String)) (t : String) : Bool :=
  allow.all (·.contains t) && deny.all fun l => !l.contains t

/-! ## Totals by type -/

/-- An order of the event types among those with equal counts. -/
structure TieOrder where
  first : String → String → Bool
  total : ∀ a b, first a b = true ∨ first b a = true
  trans : ∀ a b c, first a b = true → first b c = true → first a c = true
  antisymm : ∀ a b, first a b = true → first b a = true → a = b

def TieOrder.byName : TieOrder where
  first a b := decide (a ≤ b)
  total a b := by simpa using le_total a b
  trans a b c := by simpa using le_trans
  antisymm a b := by simpa using le_antisymm

/-- By count, downwards. -/
def countNotBefore (ties : TieOrder) (a b : String × Nat) : Prop :=
  b.2 < a.2 ∨ (a.2 = b.2 ∧ ties.first a.1 b.1 = true)

instance (ties : TieOrder) : DecidableRel (countNotBefore ties) :=
  fun _ _ => inferInstanceAs (Decidable (_ ∨ _))

/-- `SELECT event_type, COUNT(*) … GROUP BY event_type ORDER BY 2 DESC`. -/
def countByType (ties : TieOrder) (rows : List SeqRow) : List (String × Nat) :=
  ((Sql.groupBy (·.eventType) rows).map fun g => (g.1, g.2.length)).insertionSort
    (countNotBefore ties)

/-- `summary_for_handle_shared`. -/
def summaryForHandleShared (ties : TieOrder) (handle : String) (events : List SeqRow) :
    Nat × List (String × Nat) :=
  let rows := sharedRows handle events
  (rows.length, countByType ties rows)

/-! ## Counts by day -/

/-- The UTC day of the row, as days since the epoch. -/
def SeqRow.day (r : SeqRow) : Int := r.eventTimestamp.getD 0 / dayMicros

/-- `SELECT day, COUNT(*) … GROUP BY day ORDER BY day`. -/
def countByDay (rows : List SeqRow) : List (Int × Nat) :=
  ((Sql.groupBy (·.day) rows).map fun g => (g.1, g.2.length)).insertionSort (·.1 ≤ ·.1)

/-- `timeline_shared`. -/
def timelineShared (now : Timestamp) (handle : String) (days : UInt32) (events : List SeqRow) :
    List (Int × Nat) :=
  countByDay ((sharedRows handle events).filter (·.within now days))

/-- `timeline_shared_filtered`. -/
def timelineSharedFiltered (now : Timestamp) (handle : String) (days : UInt32)
    (allowTypes denyTypes : Option (List String)) (events : List SeqRow) : List (Int × Nat) :=
  if allowTypes.isNone && denyTypes.isNone then timelineShared now handle days events
  else
    countByDay ((sharedRows handle events).filter fun r =>
      r.within now days && typeAllowed allowTypes denyTypes r.eventType)

def timelineDaysMax : UInt32 := 366
def timelineDaysDefault : UInt32 := 30

/-- `resolve_timeline_days`. -/
def resolveTimelineDays (days : Option UInt32) : Except Unit UInt32 :=
  let d := days.getD timelineDaysDefault
  if d = 0 || timelineDaysMax < d then .error () else .ok d

/-- `build_timeline_buckets`: one bucket for each of the `days` days up to today. The format of a
date is `chrono`'s. -/
def buildTimelineBuckets (formatDate : Int → String) (now : Timestamp) (rows : List (Int × Nat))
    (days : UInt32) : List (String × Nat) :=
  let today := now / dayMicros
  let start := today - (days.toNat - 1)
  (List.range (today + 1 - start).toNat).map fun i : Nat =>
    let day := start + i
    (formatDate day, (rows.lookup day).getD 0)

/-! ## Events -/

inductive SeqCursor where
  | before (seq : Int64)
  | after (seq : Int64)

structure EventFilters where
  cursor : Option SeqCursor
  eventType : Option String
  since : Option Timestamp
  «until» : Option Timestamp
  limit : Nat
  excludeHidden : Bool
  allowEventTypes : Option (List String)
  denyEventTypes : Option (List String)

def SeqCursor.admits (seq : Int64) : SeqCursor → Bool
  | .before n => seq < n
  | .after n => n < seq

/-- The `WHERE` clause. -/
def EventFilters.admits (filters : EventFilters) (handle : String) (r : SeqRow) : Bool :=
  r.claimedHandle == lower handle && filters.eventType.all (r.eventType == ·) &&
    (!filters.excludeHidden || r.hiddenAt.isNone) &&
    typeAllowed filters.allowEventTypes filters.denyEventTypes r.eventType &&
    filters.since.all (fun t => r.eventTimestamp.any (t ≤ ·)) &&
    filters.until.all (fun t => r.eventTimestamp.any (· ≤ t)) &&
    filters.cursor.all (·.admits r.seq)

/-- `list_filtered`. -/
def listFiltered (handle : String) (filters : EventFilters) (events : List SeqRow) : List SeqRow :=
  let rows := events.filter (filters.admits handle)
  let ordered := match filters.cursor with
    | some (.after _) => rows.insertionSort fun a b : SeqRow => a.seq ≤ b.seq
    | _ => rows.insertionSort fun a b : SeqRow => b.seq ≤ a.seq
  ordered.take filters.limit

end StarStats
