import StarStats.Server.EntityRollup
import StarStats.Server.Ingest

/-!
# Protected routes (`event_timeline.rs`, `entity_rollup.rs`, `ingest.rs`)

Four routes behind the `AuthenticatedUser` extractor as one function of the database.
`SeesNothing` is what the documentation of `TokenType::LoginInterim` promises of each of them: the
token of a login that still owes its second factor is told nothing that depends on the user's
events and leaves no trace.
-/

namespace StarStats

open Text (lower)

/-- The tables the routes read and write. -/
structure ServerDb where
  db : Db
  shares : ShareTable
  /-- The `ingest.batch_processed` entries of `audit_log`. -/
  audit : List IngestAudit

structure ServerEnv extends AuthEnv where
  parseEventTimestamp : String → Option Timestamp
  deriveResolvedLocation : String → Option GameEvent → Option ResolvedLocation
  codec : EntityRollup.Codec

inductive ProtectedRequest where
  | listSessions (handle : String) (hours : Option Int)
  | listSessionEvents (handle sessionId : String) (after : Option String) (limit : Option Int)
  | listEntities (handle : String) (after : Option String) (limit : Option Int)
  | ingest (batch : IngestBatch)

inductive ProtectedAnswer where
  | sessions (sessions : List EventTimeline.SessionSummary)
  | sessionEvents (page : EventTimeline.SessionEventsResponse)
  | entities (page : EntityRollup.EntitiesListResponse)
  | ingested (response : IngestResponse)
  deriving DecidableEq

structure ProtectedResult where
  reply : Except Refusal ProtectedAnswer
  db : ServerDb

section
variable (env : ServerEnv) (faults : StoreFaults) (now : Timestamp) (bearer : Option String)

def serve (req : ProtectedRequest) (s : ServerDb) : ProtectedResult :=
  match req with
  | .listSessions handle hours =>
    { reply := (EventTimeline.listSessions env.toAuthEnv now bearer handle hours s.shares
        s.db.events).map .sessions
      db := s }
  | .listSessionEvents handle sessionId after limit =>
    { reply := (EventTimeline.listSessionEvents env.toAuthEnv now bearer env.deriveResolvedLocation
        handle sessionId after limit s.shares s.db.events).map .sessionEvents
      db := s }
  | .listEntities handle after limit =>
    let r := EntityRollup.listEntities env.codec env.toAuthEnv now bearer handle after limit
      s.shares s.db
    { reply := r.1.map .entities
      db := { s with db := r.2 } }
  | .ingest batch =>
    let r := handleIngest env.parseEventTimestamp env.toAuthEnv faults now bearer batch s.db
    { reply := r.reply.map .ingested
      db := { s with db := r.db, audit := s.audit ++ r.audit.toList } }

/-- The databases have the same rows but for the events of one user. -/
structure DifferOnlyIn (handle : String) (s s' : ServerDb) : Prop where
  rest : s' = { s with db := { s.db with events := s'.db.events } }
  others : (s'.db.events.filter (·.claimedHandle ≠ lower handle)) =
    s.db.events.filter (·.claimedHandle ≠ lower handle)

/-- The route tells nothing of the user's events, and changes nothing. -/
def SeesNothing (handle : String) (req : ProtectedRequest) : Prop :=
  ∀ s s', DifferOnlyIn handle s s' →
    (serve env faults now bearer req s).reply = (serve env faults now bearer req s').reply ∧
    (serve env faults now bearer req s).db = s ∧ (serve env faults now bearer req s').db = s'

end

/-! ## Requests that are let through -/

section
variable (env : AuthEnv) (claims : Claims)

/-- The account is known and not barred from ingest. -/
def MayIngest : Prop :=
  ∃ userId effective, env.parseUuid claims.sub = some userId ∧ env.restrictions = some effective ∧
    (effective userId = .ok none ∨
      ∃ restriction, effective userId = .ok (some restriction) ∧
        restriction.blocks .ingest = false)

/-- The batch names the account: by its handle, or by one it had before. -/
def NamesAccount (claimedHandle : String) : Prop :=
  lower claimedHandle = lower (env.currentHandle claims) ∨
    ∃ index userId acct, env.handleIndex = some index ∧ env.parseUuid claims.sub = some userId ∧
      index userId = some acct ∧
      acct.previousHandles.any (Text.eqIgnoreAsciiCase · claimedHandle) = true ∧
      lower acct.currentHandle = lower (env.currentHandle claims)

/-- Well-formed requests: for the user's own timeline, for anyone's entities, with a batch of the
user's own. -/
def LetsThrough : ProtectedRequest → Prop
  | .listSessions handle hours =>
    validateHandle handle ∧ (∀ h ∈ hours, 0 < h ∧ h ≤ EventTimeline.timelineMaxHours) ∧
      lower handle = lower (env.currentHandle claims)
  | .listSessionEvents handle sessionId _ _ =>
    validateHandle handle ∧ EventTimeline.validSessionId sessionId ∧
      lower handle = lower (env.currentHandle claims)
  | .listEntities handle _ _ => validateHandle handle
  | .ingest batch =>
    MayIngest env claims ∧ (1 ≤ batch.schemaVersion ∧ batch.schemaVersion ≤ currentSchemaVersion) ∧
      Text.trim batch.claimedHandle ≠ "" ∧ NamesAccount env claims batch.claimedHandle

end

end StarStats
