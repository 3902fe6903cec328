import Mathlib.Data.Prod.Lex
import Mathlib.Data.String.Basic
import StarStats.Server.Rollup
import StarStats.Server.Sharing

/-!
# The per-event timeline (`starstats-server/src/event_timeline.rs`)

`listSessions` numbers a handle's events by their `process_init` rows and lists the newest
sessions, those that the walk `deriveSessions` finds (`Server/Proof/SessionOracle.lean`);
`listSessionEvents` finds the bounds of one session and reads a page of its events. Both stand
behind `callerMayViewTimeline`. Every query is answered; the `metadata` column exists.
`TimelineVisit` states what hiding an event and blocking a caller ask of them. The pages of a
session should show the events inside its bounds, in order, each once (`CursorsSplit` says for which
lists the cursor does that), and the rows that the session list counted (`CutAlike` says for which
sessions the bounds do that).
-/

namespace StarStats.EventTimeline

open Text (lower)

def sessionsListLimit : Nat := 50
def eventsPageLimitDefault : Int := 10000
def eventsPageLimitMax : Int := 10000
def timelineMaxHours : Int := 24 * 365

structure SessionSummary where
  id : String
  startedAt : Option Timestamp
  endedAt : Option Timestamp
  eventCount : UInt32
  deriving DecidableEq

structure SessionEventsResponse where
  sessionId : String
  events : List EventEnvelope
  nextAfter : Option String
  deriving DecidableEq

def err (status : Nat) (code : String) : Refusal := refuse status code none

/-- `timeline_window_since`. -/
def timelineWindowSince (now : Timestamp) (hours : Option Int) :
    Except Refusal (Option Timestamp) :=
  match hours with
  | none => .ok none
  | some hours =>
    if hours ≤ 0 ∨ timelineMaxHours < hours then .error (err 400 "invalid_hours")
    else .ok (some (now - hours * 3600 * 1000000))

/-! ## Rows -/

/-- `event_type NOT IN ('launcher_activity', 'game_crash')`. -/
def isGameplay (r : EventRow) : Bool :=
  r.eventType != "launcher_activity" && r.eventType != "game_crash"

/-- The handle's rows with a timestamp, in `(event_timestamp, idempotency_key)` order. -/
def timelineRows (handle : String) (events : List EventRow) : List EventRow :=
  orderByTimeKey ((events.filter (·.claimedHandle = lower handle)).filter fun r =>
    r.eventTimestamp.isSome && isGameplay r)

/-- `payload->>'local_session'`. -/
def localSession? (r : EventRow) : Option String :=
  match r.payload with
  | some (.processInit e) => some e.localSession
  | _ => none

/-- `NULLIF(…, '')`. -/
def nonEmpty (s : Option String) : Option String := s.filter (· ≠ "")

/-! ## The session list -/

/-- `kept`: a session's rows up to its first `session_end`. -/
def keptRows (stream : List (EventRow × Nat)) : List EventRow :=
  (stream.filter fun r =>
    match firstEndRn stream with
    | none => true
    | some n => decide (r.2 ≤ n)).map (·.1)

/-- A row of `agg`. -/
structure SessionAgg where
  startedAt : Option Timestamp
  id : String
  eventCount : Nat
  sessionEndTs : Option Timestamp

/-- `COALESCE(meta_id, local_session, 'unknown')`. -/
def initSessionId (r : EventRow) : String :=
  ((nonEmpty r.entityId?).or (nonEmpty (localSession? r))).getD "unknown"

def sessionAgg (rows : List EventRow) : SessionAgg where
  startedAt := Sql.minOf (rows.map (·.eventTimestamp))
  -- a session has its `process_init` row, so this is never `NULL`
  id := (Sql.maxOf (rows.map fun r : EventRow =>
    if r.eventType = "process_init" then some (initSessionId r) else none)).getD ""
  eventCount := rows.length
  sessionEndTs := Sql.maxOf
    ((rows.filter (·.eventType = "session_end")).map (·.eventTimestamp))

/-- `LEAD(started_at) OVER (ORDER BY session_ord)`. -/
def withLead : List SessionAgg → List (SessionAgg × Option Timestamp)
  | [] => []
  | a :: as => (a, as.head?.bind (·.startedAt)) :: withLead as

def sessionSummary (a : SessionAgg × Option Timestamp) : SessionSummary where
  id := a.1.id
  startedAt := a.1.startedAt
  endedAt := a.1.sessionEndTs.or a.2
  eventCount := UInt32.ofNat a.1.eventCount

/-- `agg`, by ascending `session_ord`. Rows before the first `process_init` have ordinal 0. -/
def sessionAggs (rows : List EventRow) : List SessionAgg :=
  let ordered := withSessionOrd 0 rows
  let ords := (ordered.map (·.1)).dedup.filter (0 < ·)
  ords.map fun ord => sessionAgg (keptRows (sessionStream ord ordered))

/-- `sessions_via_sql`. -/
def sessionsViaSql (handle : String) (since : Option Timestamp) (events : List EventRow) :
    List SessionSummary :=
  let rows := (timelineRows handle events).filter fun r =>
    since.all fun since => r.eventTimestamp.any (since ≤ ·)
  (((withLead (sessionAggs rows)).map sessionSummary).reverse).take sessionsListLimit

/-! ## The oracle of the session list -/

/-- `session_id_from_row`. -/
def sessionIdFromRow (r : EventRow) : Option String :=
  if r.eventType ≠ "process_init" then none
  else (nonEmpty r.entityId?).or (nonEmpty (localSession? r))

/-- `u32::saturating_add(1)`. -/
def saturatingSucc (n : UInt32) : UInt32 := if n.toNat + 1 < UInt32.size then n + 1 else n

/-- `sessions`, `current_id`, `current_started` and `current_count`. -/
structure SessionWalk where
  sessions : List SessionSummary := []
  currentId : Option String := none
  currentStarted : Option Timestamp := none
  currentCount : UInt32 := 0

/-- The open session is taken, if there is one. -/
def SessionWalk.push (w : SessionWalk) (endedAt : Option Timestamp) : SessionWalk :=
  match w.currentId with
  | none => w
  | some id =>
    { w with
      sessions := w.sessions ++ [⟨id, w.currentStarted, endedAt, w.currentCount⟩]
      currentId := none
      currentStarted := none }

/-- The body of the loop of `derive_sessions`. -/
def SessionWalk.row (w : SessionWalk) (r : EventRow) : SessionWalk :=
  if !isGameplay r then w
  else if r.eventType = "process_init" then
    { w.push r.eventTimestamp with
      currentId := some ((sessionIdFromRow r).getD "unknown")
      currentStarted := r.eventTimestamp
      currentCount := 1 }
  else if r.eventType = "session_end" then
    { { w with currentCount := saturatingSucc w.currentCount }.push r.eventTimestamp with
      currentCount := 0 }
  -- before the first `process_init` and behind a `session_end` nothing is counted
  else if w.currentId.isSome then { w with currentCount := saturatingSucc w.currentCount }
  else w

/-- `derive_sessions`. -/
def deriveSessions (rows : List EventRow) : List SessionSummary :=
  (((rows.foldl SessionWalk.row {}).push none).sessions.reverse).take sessionsListLimit

/-! ## One session -/

structure SessionBounds where
  startTs : Timestamp
  startIdem : String
  endTs : Option Timestamp
  endIdem : Option String
  deriving DecidableEq

def SessionBounds.isOpen (b : SessionBounds) : Bool := b.endTs.isNone

def rowTime (r : EventRow) : Timestamp := r.eventTimestamp.getD 0

/-- The row ends the session. -/
def SessionBounds.close (b : SessionBounds) (r : EventRow) : SessionBounds :=
  { b with endTs := some (rowTime r), endIdem := some r.idempotencyKey }

/-- The walk of `find_session_bounds`, with the bounds found so far. -/
def findBounds (target : String) : Option SessionBounds → List EventRow → Option SessionBounds
  | bounds, [] => bounds
  | bounds, r :: rs =>
    if r.eventType = "process_init" then
      match bounds.filter (·.isOpen) with
      | some b => some (b.close r)
      | none =>
        if sessionIdFromRow r = some target then
          findBounds target (some ⟨rowTime r, r.idempotencyKey, none, none⟩) rs
        else findBounds target bounds rs
    else if r.eventType = "session_end" then
      match bounds.filter (·.isOpen) with
      -- the end stays inclusive; a later `process_init` of the same id starts over
      | some b => findBounds target (some (b.close r)) rs
      | none => findBounds target bounds rs
    else findBounds target bounds rs

/-- `find_session_bounds`. -/
def findSessionBounds (rows : List EventRow) (target : String) : Option SessionBounds :=
  findBounds target none rows

/-- `(event_timestamp, idempotency_key) >= (start)`, `event_timestamp <= end`,
`idempotency_key > after`. -/
def inPage (bounds : SessionBounds) (after : Option String) (r : EventRow) : Bool :=
  (bounds.startTs < rowTime r || (bounds.startTs = rowTime r && bounds.startIdem ≤ r.idempotencyKey)) &&
    bounds.endTs.all (rowTime r ≤ ·) && after.all (· < r.idempotencyKey)

section
variable (deriveResolvedLocation : String → Option GameEvent → Option ResolvedLocation)

/-- `envelope_from_columns`: the location is derived again, the stored one ignored. -/
def envelopeFromColumns (r : EventRow) : EventEnvelope where
  idempotencyKey := r.idempotencyKey
  rawLine := r.rawLine
  event := r.payload
  source := r.logSource
  sourceOffset := (max r.sourceOffset 0).toUInt64
  metadata := r.metadata
  resolvedLocation := deriveResolvedLocation r.eventType r.payload

/-- `fetch_session_events_with_metadata`. -/
def fetchSessionEvents (handle : String) (bounds : SessionBounds) (after : Option String)
    (limit : Nat) (events : List EventRow) : List EventEnvelope :=
  let rows := (events.filter (·.claimedHandle = lower handle)).filter fun r =>
    r.eventTimestamp.isSome && inPage bounds after r
  ((orderByTimeKey rows).take limit).map (envelopeFromColumns deriveResolvedLocation)

/-- The page of `list_session_events` for a caller who may see it. An unknown session is an
empty one. -/
def sessionEventsPage (handle sessionId : String) (after : Option String) (limit : Nat)
    (events : List EventRow) : SessionEventsResponse :=
  match findSessionBounds (timelineRows handle events) sessionId with
  | none => ⟨sessionId, [], none⟩
  | some bounds =>
    let page := fetchSessionEvents deriveResolvedLocation handle bounds after limit events
    { sessionId := sessionId
      events := page
      nextAfter := if limit ≤ page.length then page.getLast?.map (·.idempotencyKey) else none }

end

/-! ## The handlers -/

section
variable (env : AuthEnv) (now : Timestamp) (bearer : Option String)

/-- The last check of the handlers. -/
def requireTimelineGrant {α : Type} (shares : ShareTable) (handle : String)
    (user : AuthenticatedUser) (answer : α) : Except Refusal α :=
  if callerMayViewTimeline now shares handle user.preferredUsername then .ok answer
  else .error (err 403 "share_event_timeline_not_granted")

/-- `list_sessions`. -/
def listSessions (handle : String) (hours : Option Int) (shares : ShareTable)
    (events : List EventRow) : Except Refusal (List SessionSummary) :=
  match env.authenticate bearer with
  | .error e => .error e.refusal
  | .ok user =>
    if !validateHandle handle then .error (err 400 "invalid_handle")
    else
      match timelineWindowSince now hours with
      | .error r => .error r
      | .ok since =>
        requireTimelineGrant now shares handle user (sessionsViaSql handle since events)

/-- `session_id.is_empty() || session_id.len() > 128`, negated. -/
def validSessionId (sessionId : String) : Bool :=
  !sessionId.isEmpty && sessionId.utf8ByteSize ≤ 128

/-- `limit.unwrap_or(default).clamp(1, max)`. -/
def pageLimit (default cap : Int) (limit : Option Int) : Nat :=
  (max 1 (min (limit.getD default) cap)).toNat

/-- `list_session_events`. -/
def listSessionEvents
    (deriveResolvedLocation : String → Option GameEvent → Option ResolvedLocation)
    (handle sessionId : String) (after : Option String) (limit : Option Int) (shares : ShareTable)
    (events : List EventRow) : Except Refusal SessionEventsResponse :=
  match env.authenticate bearer with
  | .error e => .error e.refusal
  | .ok user =>
    if !validateHandle handle then .error (err 400 "invalid_handle")
    else if !validSessionId sessionId then .error (err 400 "invalid_session_id")
    else
      requireTimelineGrant now shares handle user
        (sessionEventsPage deriveResolvedLocation handle sessionId after
          (pageLimit eventsPageLimitDefault eventsPageLimitMax limit) events)

end

/-! ## What the owner hides -/

/-- A caller other than the owner, and the rows of `share_metadata`. -/
structure TimelineVisit where
  env : SharingEnv
  deriveResolvedLocation : String → Option GameEvent → Option ResolvedLocation
  now : Timestamp
  bearer : Option String
  caller : AuthenticatedUser
  calls : env.authenticate bearer = .ok caller
  handle : String
  other : Text.eqIgnoreAsciiCase caller.preferredUsername handle = false
  shares : ShareTable

namespace TimelineVisit
variable (v : TimelineVisit)

def sessions (hours : Option Int) (events : List EventRow) :
    Except Refusal (List SessionSummary) :=
  listSessions v.env.toAuthEnv v.now v.bearer v.handle hours v.shares events

def sessionEvents (sessionId : String) (after : Option String) (limit : Option Int)
    (events : List EventRow) : Except Refusal SessionEventsResponse :=
  listSessionEvents v.env.toAuthEnv v.now v.bearer v.deriveResolvedLocation v.handle sessionId after
    limit v.shares events

/-- The answers do not depend on hidden rows. -/
def HidesHidden : Prop :=
  ∀ events events' : List EventRow,
    events.filter (·.hiddenAt.isNone) = events'.filter (·.hiddenAt.isNone) →
    (∀ hours, v.sessions hours events = v.sessions hours events') ∧
    ∀ sessionId after limit,
      v.sessionEvents sessionId after limit events = v.sessionEvents sessionId after limit events'

/-- A caller the owner has blocked is refused. -/
def RefusesBlocked : Prop :=
  v.env.isBlocked v.handle v.caller.preferredUsername = true → ∀ events : List EventRow,
    (∀ hours, ∃ r, v.sessions hours events = .error r) ∧
    ∀ sessionId after limit, ∃ r, v.sessionEvents sessionId after limit events = .error r

/-- The caller holds an active timeline share. -/
def holdsTimelineShare : Bool :=
  ((v.shares.find v.handle v.caller.preferredUsername).filter (·.active v.now)).any
    (·.shareEventTimeline)

end TimelineVisit

/-! ## What the pages of a session should show -/

/-- The events inside the bounds of a session, in order. -/
def sessionEventRows (handle sessionId : String) (events : List EventRow) : List EventRow :=
  match findSessionBounds (timelineRows handle events) sessionId with
  | none => []
  | some bounds =>
    orderByTimeKey ((events.filter (·.claimedHandle = Text.lower handle)).filter fun r =>
      r.eventTimestamp.isSome && inPage bounds none r)

/-- Behind each row that ends a full page are just the rows with larger keys. -/
def CursorsSplit (limit : Nat) (rows : List EventRow) : Prop :=
  ∀ k r, rows[(k + 1) * limit - 1]? = some r → ∀ x ∈ rows,
    (r.idempotencyKey < x.idempotencyKey ↔ x ∈ rows.drop ((k + 1) * limit))

/-! ## The sessions of the list -/

/-- The rows that each session is counted from. -/
def countedRows (handle : String) (events : List EventRow) : List (List EventRow) :=
  let ordered := withSessionOrd 0 (timelineRows handle events)
  let ords := (ordered.map (·.1)).dedup.filter (0 < ·)
  ords.map fun ord => keptRows (sessionStream ord ordered)

/-- The same, of the sessions that are listed. -/
def listedRows (handle : String) (events : List EventRow) : List (List EventRow) :=
  (countedRows handle events).reverse.take sessionsListLimit

/-- The place of a row in the timeline. -/
def stamp (r : EventRow) : Int ×ₗ String := toLex (rowTime r, r.idempotencyKey)

/-- The list and the bounds cut a session at the same rows. -/
structure CutAlike (handle : String) (events rows : List EventRow) : Prop where
  /-- Its launch has an id. -/
  named : ∃ r ∈ rows, (sessionIdFromRow r).isSome
  /-- It was not ended by the next launch. -/
  ended : (∃ r ∈ rows, r.eventType = "session_end") ∨
    ∀ r ∈ rows, ∀ x ∈ timelineRows handle events, x.eventType = "process_init" →
      stamp x ≤ stamp r
  /-- No row of the two types that are not counted comes before its end. -/
  alone : ∀ x ∈ events, x.claimedHandle = Text.lower handle → x.eventTimestamp.isSome →
    isGameplay x = false → (∃ r ∈ rows, stamp r ≤ stamp x) →
    ∃ r ∈ rows, r.eventType = "session_end" ∧ rowTime r < rowTime x
  /-- No counted row has the time of its end and a larger key. -/
  sharp : ∀ r ∈ rows, r.eventType = "session_end" → ∀ x ∈ timelineRows handle events,
    rowTime x = rowTime r → x.idempotencyKey ≤ r.idempotencyKey

end StarStats.EventTimeline
