import Mathlib.Algebra.GroupWithZero.Nat
import StarStats.Server.SharedQuery
import StarStats.Server.Sharing

/-!
# Friend and public reads (`starstats-server/src/sharing_routes.rs`)

The reads that show one user's events to another: `friendSummary`, `friendTimeline` and
`friendEvents` for the holder of a share, clamped by the scope stored with it, and
`publicSummary` and `publicTimeline` for anyone, clamped by the owner's public scope. The calls
that fail during a request are given by a structure of faults.
-/

namespace StarStats

open Text (lower)

/-! ## Answers -/

inductive SupporterState where
  | none
  | active
  | lapsed
  deriving DecidableEq

def SupporterState.asStr : SupporterState → String
  | .none => "none"
  | .active => "active"
  | .lapsed => "lapsed"

/-- What the chip reads of a row of `supporter_status`. -/
structure SupporterStatus where
  state : SupporterState
  currentTierKey : Option String
  namePlate : Option String

structure PublicSupporterInfo where
  state : String
  currentTierKey : Option String
  namePlate : Option String
  deriving DecidableEq

structure PublicSummaryResponse where
  claimedHandle : String
  total : Nat
  byType : List (String × Nat)
  supporter : Option PublicSupporterInfo
  deriving DecidableEq

structure PublicTimelineResponse where
  days : UInt32
  buckets : List (String × Nat)
  deriving DecidableEq

structure SharedEventDto where
  seq : Int64
  eventType : String
  eventTimestamp : Option Timestamp
  logSource : LogSource
  payload : Option GameEvent
  resolvedLocation : Option ResolvedLocation
  deriving DecidableEq

structure SharedEventsResponse where
  ownerHandle : String
  events : List SharedEventDto
  nextBefore : Option Int64
  deriving DecidableEq

/-- An answer other than success; a 404 says nothing more. -/
inductive ReadRefusal where
  | notFound
  | refused (r : Refusal)
  deriving DecidableEq

def readErr (status : Nat) (code : String) : ReadRefusal := .refused (refuse status code none)

/-- `render_or_404`. -/
def renderOr404 {α : Type} (check : Except Unit Bool) (answer : Except ReadRefusal α) :
    Except ReadRefusal α :=
  match check with
  | .ok true => answer
  | .ok false => .error .notFound
  | .error () => .error (readErr 503 "spicedb_unavailable")

structure ReadEnv extends SharingEnv where
  /-- How the database orders event types with equal counts. -/
  ties : TieOrder
  /-- `get_by_handle_public` of the `SupporterStore`, by the lower-cased handle. -/
  supporters : String → Option SupporterStatus
  /-- `restricted_public_handles` of the `AccountRestrictionStore`, by the lower-cased handle. -/
  publicRestricted : String → Bool
  formatDate : Int → String
  /-- `derive_resolved_location` with the catalog of the moment. -/
  deriveResolvedLocation : String → Option GameEvent → Option Timestamp → Option ResolvedLocation

/-! ## Scope clamps -/

def scopeAllowsTimeline (scope : ShareScope) : Bool :=
  scope.kind == "full" || scope.kind == "timeline" || scope.kind == "tabs"

def scopeAllowsAggregates (scope : ShareScope) : Bool :=
  scope.kind == "full" || scope.kind == "aggregates" || scope.kind == "tabs"

def clampDays (days : UInt32) (scope : Option ShareScope) : UInt32 :=
  match scope.bind (·.windowDays) with
  | some w => min days w
  | none => days

/-- The scope's lists of event types. -/
def allowList (scope : Option ShareScope) : Option (List String) := scope.bind (·.allowEventTypes)
def denyList (scope : Option ShareScope) : Option (List String) := scope.bind (·.denyEventTypes)

def applyEventTypeFilter (rows : List (String × Nat)) (scope : Option ShareScope) :
    Nat × List (String × Nat) :=
  let filtered := rows.filter fun r => typeAllowed (allowList scope) (denyList scope) r.1
  ((filtered.map (·.2)).sum, filtered)

/-- The `max_event_types` busiest types; equal counts stand by type. -/
def applyTypeCap (byType : List (String × Nat)) (scope : Option ShareScope) :
    List (String × Nat) :=
  match scope.bind (·.maxEventTypes) with
  | none => byType
  | some max => (byType.insertionSort (countNotBefore .byName)).take max.toNat

def supporterToPublic (status : SupporterStatus) : Option PublicSupporterInfo :=
  match status.state with
  | .none => none
  | state => some ⟨state.asStr, status.currentTierKey, status.namePlate⟩

/-! ## Rendering -/

/-- The calls of the rendering that fail. -/
structure RenderFaults where
  query : Bool
  supporters : Bool

section
variable (env : ReadEnv) (faults : RenderFaults) (handle : String)

def renderSummaryScoped (scope : Option ShareScope) (events : List SeqRow) :
    Except ReadRefusal PublicSummaryResponse :=
  if faults.query then .error (readErr 500 "query_failed")
  else
    let summary := summaryForHandleShared env.ties handle events
    let clamped := if scope.isSome then applyEventTypeFilter summary.2 scope else summary
    .ok
      { claimedHandle := handle
        total := clamped.1
        byType := applyTypeCap clamped.2 scope
        supporter :=
          if faults.supporters then none
          else (env.supporters (lower handle)).bind supporterToPublic }

def renderTimelineScoped (now : Timestamp) (days : UInt32) (scope : Option ShareScope)
    (events : List SeqRow) : Except ReadRefusal PublicTimelineResponse :=
  if faults.query then .error (readErr 500 "query_failed")
  else
    let rows :=
      if (allowList scope).isNone && (denyList scope).isNone then
        timelineShared now handle days events
      else timelineSharedFiltered now handle days (allowList scope) (denyList scope) events
    .ok ⟨days, buildTimelineBuckets env.formatDate now rows days⟩

def renderTimeline (now : Timestamp) (days : UInt32) (events : List SeqRow) :
    Except ReadRefusal PublicTimelineResponse :=
  renderTimelineScoped env faults handle now days none events

end

/-! ## Friend reads -/

structure FriendFaults where
  check : ReadFaults
  /-- The second lookup of the metadata, for the scope. -/
  find : Bool
  render : RenderFaults

def FriendFaults.none : FriendFaults := ⟨.none, false, ⟨false, false⟩⟩

def sharedEventsLimitMax : UInt32 := 200
def sharedEventsLimitDefault : UInt32 := 50

/-- `limit.unwrap_or(default).clamp(1, max)`. -/
def sharedEventsLimit (limit : Option UInt32) : UInt32 :=
  max 1 (min (limit.getD sharedEventsLimitDefault) sharedEventsLimitMax)

def nextBeforeCursor (rows : List SeqRow) (limit : UInt32) : Option Int64 :=
  if rows.length = limit.toNat then rows.getLast?.map (·.seq) else none

section
variable (env : ReadEnv) (faults : FriendFaults) (now : Timestamp) (bearer : Option String)
  (handle : String) (seen : List Relationship)

/-- The scope of the share, from the metadata the gate has left. -/
def friendScope (viewer : String) (store : ShareStore) : Option ShareScope :=
  if faults.find then none else (store.shares.find handle viewer).bind (·.scope)

/-- The part that the friend reads share: who calls, the gate, whose first check sees `seen`, then
the scope's kind. `answer` is what the share shows. -/
def friendRead {α : Type} (surface : ShareScope → Bool) (store : ShareStore)
    (answer : Option ShareScope → Except ReadRefusal α) : Except ReadRefusal α :=
  match env.authenticate bearer with
  | .error e => .error (.refused e.refusal)
  | .ok user =>
    if !validateHandle handle then .error .notFound
    else if !env.spicedbConfigured then .error (readErr 503 "spicedb_unavailable")
    else
      let viewer := user.preferredUsername
      let check := checkViewWithExpiry env.toSharingEnv faults.check now handle viewer seen store
      let scope := friendScope faults handle viewer check.store
      if scope.any (!surface ·) then .error .notFound
      else renderOr404 check.reply (answer scope)

/-- `friend_summary`. -/
def friendSummary (store : ShareStore) (events : List SeqRow) :
    Except ReadRefusal PublicSummaryResponse :=
  friendRead env faults now bearer handle seen scopeAllowsAggregates store fun scope =>
    renderSummaryScoped env faults.render handle scope events

/-- A `days` parameter out of bounds is refused after the caller and the handle are known. -/
def withDays {α : Type} (days : Option UInt32) (answer : UInt32 → Except ReadRefusal α) :
    Except ReadRefusal α :=
  match env.authenticate bearer with
  | .error e => .error (.refused e.refusal)
  | .ok _ =>
    if !validateHandle handle then .error .notFound
    else
      match resolveTimelineDays days with
      | .error () => .error (readErr 400 "invalid_days")
      | .ok days => answer days

/-- `friend_timeline`. -/
def friendTimeline (days : Option UInt32) (store : ShareStore) (events : List SeqRow) :
    Except ReadRefusal PublicTimelineResponse :=
  withDays env bearer handle days fun days =>
    friendRead env faults now bearer handle seen scopeAllowsTimeline store fun scope =>
      renderTimelineScoped env faults.render handle now (clampDays days scope) scope events

/-- The filters of `friend_events`. -/
def friendEventFilters (days : UInt32) (limit : UInt32) (beforeSeq : Option Int64)
    (scope : Option ShareScope) : EventFilters where
  cursor := beforeSeq.map .before
  eventType := none
  since := some (now - (clampDays days scope).toNat * dayMicros)
  «until» := none
  limit := limit.toNat
  excludeHidden := true
  allowEventTypes := allowList scope
  denyEventTypes := denyList scope

/-- `friend_events`. -/
def friendEvents (days limit : Option UInt32) (beforeSeq : Option Int64) (store : ShareStore)
    (events : List SeqRow) : Except ReadRefusal SharedEventsResponse :=
  withDays env bearer handle days fun days =>
    friendRead env faults now bearer handle seen scopeAllowsTimeline store fun scope =>
      if faults.render.query then .error (readErr 500 "query_failed")
      else
        let limit := sharedEventsLimit limit
        let rows := listFiltered handle (friendEventFilters now days limit beforeSeq scope) events
        .ok
          { ownerHandle := handle
            events := rows.map fun r =>
              { seq := r.seq
                eventType := r.eventType
                eventTimestamp := r.eventTimestamp
                logSource := r.logSource
                payload := r.payload
                resolvedLocation :=
                  env.deriveResolvedLocation r.eventType r.payload r.eventTimestamp }
            nextBefore := nextBeforeCursor rows limit }

end

/-! ## Public reads -/

structure PublicFaults where
  restrictions : Bool
  isBlocked : Bool
  getPublic : Bool
  checkPublic : Bool
  render : RenderFaults

def PublicFaults.none : PublicFaults := ⟨false, false, false, false, ⟨false, false⟩⟩

/-- `has_public_view`. -/
def hasPublicView (rels : List Relationship) (handle : String) : Bool :=
  Tuples.linked rels (statsRecord handle) .publicView (· = userRef "*")

section
variable (env : ReadEnv) (faults : PublicFaults) (bearer : Option String) (handle : String)

/-- `blocked_by_owner`, for the caller when there is one. -/
def blockedByOwner : Except ReadRefusal Bool :=
  match env.authenticate bearer with
  | .error _ => .ok false
  | .ok viewer =>
    if Text.eqIgnoreAsciiCase viewer.preferredUsername handle then .ok false
    else if faults.isBlocked then .error (readErr 503 "block_check_unavailable")
    else .ok (env.isBlocked handle viewer.preferredUsername)

/-- The checks the public reads make before they ask SpiceDB. -/
def publicGate {α : Type} (answer : Except ReadRefusal α) : Except ReadRefusal α :=
  if !validateHandle handle then .error .notFound
  else if faults.restrictions then .error (readErr 503 "restriction_check_unavailable")
  else if env.publicRestricted (lower handle) then .error .notFound
  else
    match blockedByOwner env faults bearer handle with
    | .error r => .error r
    | .ok true => .error .notFound
    | .ok false => answer

/-- `check_public`. -/
def checkPublic (store : ShareStore) : Except Unit Bool :=
  if faults.checkPublic then .error () else .ok (hasPublicView store.relationships handle)

/-- `get_public`; a failed lookup is no clamp. `publicScopes` is by the lower-cased handle. -/
def publicScope (publicScopes : String → Option ShareScope) : Option ShareScope :=
  if faults.getPublic then none else publicScopes (lower handle)

/-- `public_summary`. -/
def publicSummary (publicScopes : String → Option ShareScope) (store : ShareStore)
    (events : List SeqRow) : Except ReadRefusal PublicSummaryResponse :=
  publicGate env faults bearer handle <|
    if !env.spicedbConfigured then .error (readErr 503 "spicedb_unavailable")
    else
      renderOr404 (checkPublic faults handle store) <|
        renderSummaryScoped env faults.render handle (publicScope faults handle publicScopes) events

/-- `public_timeline`: the scope clamps the window. -/
def publicTimeline (now : Timestamp) (days : Option UInt32)
    (publicScopes : String → Option ShareScope) (store : ShareStore) (events : List SeqRow) :
    Except ReadRefusal PublicTimelineResponse :=
  publicGate env faults bearer handle <|
    match resolveTimelineDays days with
    | .error () => .error (readErr 400 "invalid_days")
    | .ok days =>
      if !env.spicedbConfigured then .error (readErr 503 "spicedb_unavailable")
      else
        let days := clampDays days (publicScope faults handle publicScopes)
        renderOr404 (checkPublic faults handle store) <|
          renderTimeline env faults.render handle now days events

end

end StarStats
