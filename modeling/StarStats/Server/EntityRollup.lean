import StarStats.Server.EventTimeline

/-!
# The entity list (`starstats-server/src/entity_rollup.rs`)

`listEntities` groups a handle's events by entity, freshens the materialised session counts when
they are dirty (so a read may write), folds the counts in and cuts one page. Every query is
answered.
-/

namespace StarStats.EntityRollup

open Text (lower)
open EventTimeline (err pageLimit)

def entitiesListLimitDefault : Int := 100
def entitiesListLimitMax : Int := 200
def entitiesListHardCap : Nat := 10000
def sessionBoundsHardCap : Nat := 500000

structure EntitySummary where
  kind : String
  id : String
  displayName : String
  eventCount : UInt32
  firstSeen : Option String
  lastSeen : Option String
  sessionCount : UInt32
  deriving DecidableEq

structure EntitiesListResponse where
  entities : List EntitySummary
  nextAfter : Option String
  deriving DecidableEq

/-- The text formats of crates outside the repository: `chrono`'s RFC 3339 and `base64`'s
URL-safe alphabet without padding, over UTF-8. -/
structure Codec where
  toRfc3339 : Timestamp → String
  encodeBase64 : String → String
  decodeBase64 : String → Option String

/-! ## The query -/

/-- A row of the `GROUP BY`. -/
structure EntityRow where
  kind : String
  id : String
  displayName : Option String
  eventCount : Nat
  firstSeen : Option Timestamp
  lastSeen : Option Timestamp

/-- `ORDER BY MAX(event_timestamp) DESC NULLS LAST, kind, id`. -/
def EntityRow.notAfter (a b : EntityRow) : Bool :=
  match a.lastSeen, b.lastSeen with
  | some _, none => true
  | none, some _ => false
  | some s, some t => t < s || (s = t && byKey)
  | none, none => byKey
where
  byKey : Bool := a.kind < b.kind || (a.kind = b.kind && a.id ≤ b.id)

def entityRows (handle : String) (events : List EventRow) : List EntityRow :=
  let rows := (entityGroups (events.filter (·.claimedHandle = lower handle))).map fun g =>
    { kind := entityKindKey g.1.1
      id := g.1.2
      displayName := latestDisplayName g.2
      eventCount := g.2.length
      firstSeen := Sql.minOf (g.2.map (·.eventTimestamp))
      lastSeen := Sql.maxOf (g.2.map (·.eventTimestamp)) }
  (rows.insertionSort (EntityRow.notAfter · ·)).take entitiesListHardCap

def entitySummary (codec : Codec) (r : EntityRow) : EntitySummary where
  kind := r.kind
  id := r.id
  displayName := (r.displayName.filter (· ≠ "")).getD r.id
  eventCount := UInt32.ofNat r.eventCount
  firstSeen := r.firstSeen.map codec.toRfc3339
  lastSeen := r.lastSeen.map codec.toRfc3339
  sessionCount := 0

/-! ## Session counts -/

/-- `entity_session_counts`: `MAX(session_count)` by id, where positive. -/
def entitySessionCounts (rows : List EntityAggRow) : List (String × Nat) :=
  ((Sql.groupBy (·.entityId) rows).map fun g =>
    (g.1, (Sql.maxOf (g.2.map fun r => some r.sessionCount)).getD 0)).filter (0 < ·.2)

/-- `session_bounds_rows`. -/
def sessionBoundsRows (handle : String) (events : List EventRow) : List EventRow :=
  (orderByTimeKey ((events.filter (·.claimedHandle = lower handle)).filter
    (·.eventTimestamp.isSome))).take sessionBoundsHardCap

/-- `flush_session`: one more session for every entity of the tally, if a session is open. -/
def flushSession (tally : Option (List String)) (counts : String → Nat) : String → Nat :=
  match tally with
  | none => counts
  | some ids => fun id => if id ∈ ids then counts id + 1 else counts id

/-- The walk of `derive_entity_session_data`: the entities seen in the open session, and the
counts of the sessions before it. -/
def walkSessions : Option (List String) → (String → Nat) → List EventRow → String → Nat
  | tally, counts, [] => flushSession tally counts
  | tally, counts, r :: rs =>
    if r.eventType = "process_init" then
      walkSessions (some r.entityId?.toList) (flushSession tally counts) rs
    else if r.eventType = "session_end" then walkSessions none (flushSession tally counts) rs
    else walkSessions (tally.map (r.entityId?.toList ++ ·)) counts rs

/-- `derive_entity_session_data`, its counts. -/
def deriveEntitySessionData (rows : List EventRow) : String → Nat :=
  walkSessions none (fun _ => 0) (orderByTimeKey rows)

/-- The materialised counts, or the walk when there are none. -/
def sessionCounts (handle : String) (db : Db) : String → Nat :=
  match entitySessionCounts (db.entityAgg (lower handle)) with
  | [] => deriveEntitySessionData (sessionBoundsRows handle db.events)
  | counts => fun id => (counts.lookup id).getD 0

/-! ## The cursor -/

/-- Split at the first `c`. -/
def splitOnce (c : Char) : List Char → Option (List Char × List Char)
  | [] => none
  | d :: ds => if d = c then some ([], ds) else (splitOnce c ds).map fun p => (d :: p.1, p.2)

section
variable (codec : Codec)

def encodeCursor (lastSeen kind id : String) : String :=
  codec.encodeBase64 (lastSeen ++ "|" ++ kind ++ "|" ++ id)

def decodeCursor (token : String) : Option (String × String × String) := do
  let s ← codec.decodeBase64 token
  let lastSeen ← splitOnce '|' s.toList
  let kind ← splitOnce '|' lastSeen.2
  return (String.ofList lastSeen.1, String.ofList kind.1, String.ofList kind.2)

/-- The entity stands at the cursor or before it. -/
def upToCursor (cursor : String × String × String) (e : EntitySummary) : Bool :=
  let last := e.lastSeen.getD ""
  if cursor.1 < last then true
  else if last < cursor.1 then false
  else if e.kind < cursor.2.1 then true
  else if cursor.2.1 < e.kind then false
  else e.id ≤ cursor.2.2

def applyCursor (entities : List EntitySummary) (after : Option String) : List EntitySummary :=
  match after.bind (decodeCursor codec) with
  | none => entities
  | some cursor => entities.dropWhile (upToCursor cursor)

/-- One page of the list, and the cursor of the next. -/
def entitiesPage (handle : String) (after : Option String) (limit : Nat) (listed : List EntityRow)
    (db : Db) : EntitiesListResponse :=
  let counts := sessionCounts handle db
  let entities := listed.map fun r =>
    { entitySummary codec r with sessionCount := UInt32.ofNat (counts r.id) }
  let rest := applyCursor codec entities after
  let page := rest.take limit
  { entities := page
    nextAfter :=
      if listed.length < entitiesListHardCap ∧ limit < rest.length then
        page.getLast?.map fun e => encodeCursor codec (e.lastSeen.getD "") e.kind e.id
      else none }

/-- `list_entities`: the answer and the database after the freshen. -/
def listEntities (env : AuthEnv) (now : Timestamp) (bearer : Option String) (handle : String)
    (after : Option String) (limit : Option Int) (shares : ShareTable) (db : Db) :
    Except Refusal EntitiesListResponse × Db :=
  match env.authenticate bearer with
  | .error e => (.error e.refusal, db)
  | .ok user =>
    if !validateHandle handle then (.error (err 400 "invalid_handle"), db)
    else if !callerMayViewTimeline now shares handle user.preferredUsername then
      (.error (err 403 "share_event_timeline_not_granted"), db)
    else
      let limit := pageLimit entitiesListLimitDefault entitiesListLimitMax limit
      let listed := entityRows handle db.events
      let db := ensureSessionStatsFresh now handle db
      (.ok (entitiesPage codec handle after limit listed db), db)

end

end StarStats.EntityRollup
