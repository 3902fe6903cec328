import StarStats.Server.EntityRollup

/-!
# The history of an entity (`starstats-server/src/entity_rollup.rs`)

`entityHistory` answers a page of the events that are tagged with one entity, and in which sessions
they were. Every query is answered.
-/

namespace StarStats.EntityRollup

open Text (lower)
open EventTimeline (err pageLimit envelopeFromColumns initSessionId)

def entityEventsLimitDefault : Int := 10000
def entityEventsLimitMax : Int := 10000

def validEntityKinds : List String :=
  ["player", "vehicle", "item", "location", "shop", "mission", "session", "system"]

structure EntitySessionBucket where
  sessionId : String
  startedAt : Option String
  eventCount : UInt32
  deriving DecidableEq

structure EntityHistoryResponse where
  kind : String
  id : String
  displayName : String
  events : List EventEnvelope
  nextAfter : Option String
  sessionBreakdown : List EntitySessionBucket
  deriving DecidableEq

def validateKind (kind : String) : Bool := validEntityKinds.contains kind

def validateEntityId (id : String) : Bool := !id.isEmpty && id.utf8ByteSize ≤ 256

/-! ## The events -/

/-- `ORDER BY source_offset ASC, idempotency_key ASC`. -/
def orderByOffsetKey (rows : List EventRow) : List EventRow :=
  rows.insertionSort fun a b =>
    a.sourceOffset.toInt < b.sourceOffset.toInt ∨
      (a.sourceOffset.toInt = b.sourceOffset.toInt ∧ a.idempotencyKey ≤ b.idempotencyKey)

/-- The row is tagged with the entity. -/
def isTagged (handle kind id : String) (r : EventRow) : Bool :=
  r.claimedHandle = lower handle &&
    r.metadata.any fun m =>
      entityKindKey m.primaryEntity.kind = kind && m.primaryEntity.id = id

/-- `entity_events`. -/
def entityEvents (handle kind id : String) (after : Option String) (limit : Nat)
    (events : List EventRow) : List EventRow :=
  (orderByOffsetKey (events.filter fun r =>
    isTagged handle kind id r && after.all (· < r.idempotencyKey))).take limit

/-! ## The sessions -/

/-- The session that is open in the walk. -/
structure OpenSession where
  id : String
  startedAt : Option Timestamp
  /-- How many of its rows are tagged with the entity. -/
  tally : Nat

section
variable (codec : Codec) (entityId : String)

/-- `flush_session` for one entity. -/
def flushBucket : Option OpenSession → List EntitySessionBucket
  | none => []
  | some s =>
    if s.tally = 0 then []
    else [⟨s.id, s.startedAt.map codec.toRfc3339, UInt32.ofNat s.tally⟩]

def tagged (r : EventRow) : Nat := if r.entityId? = some entityId then 1 else 0

/-- The walk of `derive_entity_session_data` for the breakdown of one entity. -/
def walkBuckets : Option OpenSession → List EventRow → List EntitySessionBucket
  | current, [] => flushBucket codec current
  | current, r :: rs =>
    if r.eventType = "process_init" then
      flushBucket codec current ++
        walkBuckets (some ⟨initSessionId r, r.eventTimestamp, tagged entityId r⟩) rs
    else if r.eventType = "session_end" then flushBucket codec current ++ walkBuckets none rs
    else
      walkBuckets (current.map fun s => { s with tally := s.tally + tagged entityId r }) rs

end

/-! ## The handler -/

section
variable (codec : Codec)
  (deriveResolvedLocation : String → Option GameEvent → Option ResolvedLocation)

/-- The latest name that is not empty. -/
def entityDisplayName (id : String) (rows : List EventRow) : String :=
  (rows.reverse.findSome? fun r =>
    (r.metadata.map (·.primaryEntity.displayName)).filter (· ≠ "")).getD id

/-- The page of `entity_history` for a caller who may see it. -/
def entityHistoryPage (handle kind id : String) (after : Option String) (limit : Nat)
    (events : List EventRow) : Except Refusal EntityHistoryResponse :=
  let stored := entityEvents handle kind id after limit events
  if stored.isEmpty && after.isNone then .error (err 404 "entity_not_found")
  else
    .ok
      { kind := kind
        id := id
        displayName := entityDisplayName id stored
        events := stored.map (envelopeFromColumns deriveResolvedLocation)
        nextAfter := if limit ≤ stored.length then stored.getLast?.map (·.idempotencyKey) else none
        sessionBreakdown :=
          walkBuckets codec id none (orderByTimeKey (sessionBoundsRows handle events)) }

/-- `entity_history`. -/
def entityHistory (env : AuthEnv) (now : Timestamp) (bearer : Option String)
    (handle kind id : String) (after : Option String) (limit : Option Int) (shares : ShareTable)
    (events : List EventRow) : Except Refusal EntityHistoryResponse :=
  match env.authenticate bearer with
  | .error e => .error e.refusal
  | .ok user =>
    if !validateHandle handle then .error (err 400 "invalid_handle")
    else if !validateKind kind then .error (err 400 "invalid_kind")
    else if !validateEntityId id then .error (err 400 "invalid_entity_id")
    else if !callerMayViewTimeline now shares handle user.preferredUsername then
      .error (err 403 "share_event_timeline_not_granted")
    else
      entityHistoryPage codec deriveResolvedLocation handle kind id after
        (pageLimit entityEventsLimitDefault entityEventsLimitMax limit) events

end

/-! ## What a reader of all pages should see -/

/-- The events of the entity, in the order of its pages. -/
def entityEventRows (handle kind id : String) (events : List EventRow) : List EventRow :=
  orderByOffsetKey (events.filter (isTagged handle kind id))

end StarStats.EntityRollup
