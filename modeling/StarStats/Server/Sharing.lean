import StarStats.Server.Auth
import StarStats.Server.Spicedb

/-!
# Sharing (`starstats-server/src/sharing_routes.rs`, `share_metadata.rs`, `validation.rs`)

A share is a relationship in SpiceDB, written under the exact handles, and a row of
`share_metadata`, keyed by the lower-cased ones. `addShare` and `deleteShare` are the owner's
routes, `checkViewWithExpiry` the gate of the friend reads, `callerMayViewTimeline`
(`event_timeline.rs`) the gate of the per-event reads, which asks `share_metadata` alone. The
calls that fail during a request are given by a structure of faults; one that fails changes
nothing.
-/

namespace StarStats

open Text (lower)

/-! ## Validation -/

def isHandleChar (c : Char) : Bool := c.isAlphanum || c == '_' || c == '-'

def validateHandle (handle : String) : Bool :=
  !handle.isEmpty && handle.utf8ByteSize ≤ 64 && handle.toList.all isHandleChar

structure ShareScope where
  kind : String
  tabs : Option (List String)
  windowDays : Option UInt32
  allowEventTypes : Option (List String)
  denyEventTypes : Option (List String)
  allowWidgets : Option (List String)
  denyWidgets : Option (List String)
  maxEventTypes : Option UInt32
  deriving DecidableEq

def allowedScopeTabs : List String :=
  ["location", "travel", "combat", "loadout", "stability", "commerce"]

def allowedScopeWidgets : List String :=
  ["sessions", "heatmap", "orgs", "entities", "combat_mission", "economy", "travel", "records",
    "recent_activity", "hangar", "loadout"]

def scopeMaxWindowDays : UInt32 := 90
def scopeMaxTypes : Nat := 32

def isScopeEventType (t : String) : Bool :=
  !t.isEmpty && t.utf8ByteSize ≤ 64 &&
    t.toList.all fun c => c.isLower || c.isDigit || c == '_'

/-- A list of the scope, where it is given, has at most `max` items that all pass `item`. -/
def scopeListOk (max : Nat) (item : String → Bool) : Option (List String) → Bool
  | none => true
  | some l => l.length ≤ max && l.all item

/-- The error code of the first check that fails. -/
def validateScope (scope : ShareScope) : Except String Unit :=
  if scope.kind ∉ ["full", "timeline", "aggregates", "tabs"] then .error "invalid_scope_kind"
  else if scope.windowDays.any (fun days => days = 0 || scopeMaxWindowDays < days) then
    .error "invalid_scope_window"
  else if !scopeListOk scopeMaxTypes (allowedScopeTabs.contains ·) scope.tabs then
    .error "invalid_scope_tabs"
  else if !(scopeListOk scopeMaxTypes isScopeEventType scope.allowEventTypes &&
      scopeListOk scopeMaxTypes isScopeEventType scope.denyEventTypes) then
    .error "invalid_scope_types"
  else if !(scopeListOk allowedScopeWidgets.length (allowedScopeWidgets.contains ·)
        scope.allowWidgets &&
      scopeListOk allowedScopeWidgets.length (allowedScopeWidgets.contains ·)
        scope.denyWidgets) then
    .error "invalid_scope_widgets"
  else .ok ()

/-! ## `share_metadata` -/

structure ShareMeta where
  ownerHandle : String
  recipientHandle : String
  expiresAt : Option Timestamp
  note : Option String
  scope : Option ShareScope
  createdAt : Timestamp
  /-- Set by no route; a new row has the column's default, `FALSE`. -/
  shareEventTimeline : Bool
  deriving DecidableEq

/-- `expires_at IS NULL OR expires_at > NOW()`. -/
def ShareMeta.active (now : Timestamp) (row : ShareMeta) : Bool :=
  match row.expiresAt with
  | none => true
  | some t => now < t

/-- The table by its unique index, `lower(owner_handle), lower(recipient_handle)`. -/
abbrev ShareTable := String → String → Option ShareMeta

namespace ShareTable

def find (shares : ShareTable) (owner recipient : String) : Option ShareMeta :=
  shares (lower owner) (lower recipient)

/-- Replace the entry of one pair of handles. -/
def put (shares : ShareTable) (owner recipient : String) (row : Option ShareMeta) : ShareTable :=
  fun o r => if o = lower owner ∧ r = lower recipient then row else shares o r

/-- `INSERT … ON CONFLICT … DO UPDATE SET expires_at, note, scope`. -/
def upsert (now : Timestamp) (owner recipient : String) (expiresAt : Option Timestamp)
    (note : Option String) (scope : Option ShareScope) (shares : ShareTable) : ShareTable :=
  shares.put owner recipient <| some <|
    match shares.find owner recipient with
    | none =>
      { ownerHandle := owner
        recipientHandle := recipient
        expiresAt := expiresAt
        note := note
        scope := scope
        createdAt := now
        shareEventTimeline := false }
    | some row => { row with expiresAt := expiresAt, note := note, scope := scope }

def delete (owner recipient : String) (shares : ShareTable) : ShareTable :=
  shares.put owner recipient none

end ShareTable

/-- `caller_may_view_timeline`, and `caller_may_view` of the entity rollup. -/
def callerMayViewTimeline (now : Timestamp) (shares : ShareTable) (handle caller : String) : Bool :=
  if Text.eqIgnoreAsciiCase caller handle then true
  else
    match (shares.find handle caller).filter (·.active now) with
    | some row => row.shareEventTimeline
    | none => false

/-! ## The owner's routes -/

/-- What sharing reads of a row of `users`. -/
structure User where
  id : Uuid
  claimedHandle : String
  rsiVerifiedAt : Option Timestamp
  sharesPausedUntil : Option Timestamp
  deriving DecidableEq

structure SharingEnv extends AuthEnv where
  users : List User
  /-- `is_blocked` of the `SocialStore`, by the lower-cased blocker and blocked. -/
  blocks : String → String → Bool
  spicedbConfigured : Bool
  toRfc3339 : Timestamp → String

def SharingEnv.findById (env : SharingEnv) (id : Uuid) : Option User :=
  env.users.find? (·.id = id)

/-- `WHERE lower(claimed_handle) = lower($1)`. -/
def SharingEnv.findByHandle (env : SharingEnv) (handle : String) : Option User :=
  env.users.find? fun u => lower u.claimedHandle = lower handle

def SharingEnv.isBlocked (env : SharingEnv) (blocker blocked : String) : Bool :=
  env.blocks (lower blocker) (lower blocked)

/-- What a share consists of. -/
structure ShareStore where
  relationships : List Relationship
  shares : ShareTable

inductive ShareAudit where
  | granted (actorSub actorHandle recipientHandle : String) (expiresAt : Option Timestamp)
      (hasNote : Bool) (scopeKind : Option String)
  | signalRapidGrant (actorSub actorHandle : String) (observedCount : Nat)
  | revoked (actorSub actorHandle recipientHandle : String)
  | expiredRevoked (actorHandle recipientHandle : String) (expiredAt : Timestamp)
  deriving DecidableEq

structure ShareResult (α : Type) where
  reply : α
  store : ShareStore
  audit : List ShareAudit

structure ShareRequest where
  recipientHandle : String
  expiresAt : Option Timestamp
  note : Option String
  scope : Option ShareScope

/-- What a request meets outside the two stores of a share, and which of its calls fail. -/
structure AddFaults where
  findById : Bool
  sharesPausedLookup : Bool
  /-- How many `share.granted` entries of the last day the audit query found. -/
  rapidGrants : Option Nat
  findByHandle : Bool
  writeShare : Bool
  upsert : Bool

def AddFaults.none : AddFaults where
  findById := false
  sharesPausedLookup := false
  rapidGrants := some 0
  findByHandle := false
  writeShare := false
  upsert := false

structure DeleteFaults where
  deleteShare : Bool
  deleteMeta : Bool

def DeleteFaults.none : DeleteFaults := ⟨false, false⟩

section
variable (env : SharingEnv)

/-- `require_rsi_verified`. -/
def requireRsiVerified (faults : AddFaults) (user : AuthenticatedUser) : Option Refusal :=
  match env.parseUuid user.sub with
  | none => some (refuse 500 "bad_subject" none)
  | some sub =>
    if faults.findById then some (refuse 500 "internal" none)
    else
      match env.findById sub with
      | none => some (refuse 401 "unauthorized" none)
      | some u =>
        if u.rsiVerifiedAt.isSome then none else some (refuse 403 "rsi_handle_not_verified" none)

/-- The pause that a cluster of reports puts on an owner; a failed lookup skips it. -/
def sharesPaused (faults : AddFaults) (now : Timestamp) (user : AuthenticatedUser) :
    Option Refusal :=
  if faults.sharesPausedLookup then none
  else
    match (env.findByHandle user.preferredUsername).bind (·.sharesPausedUntil) with
    | some untilTs =>
      if now < untilTs then
        some (refuse 403 "shares_paused" (some ("paused until " ++ env.toRfc3339 untilTs)))
      else none
    | none => none

def rapidGrantThreshold : Nat := 15

/-- `check_rapid_grant`: the count that crosses the threshold; a failed query skips the check. -/
def rapidGrant (faults : AddFaults) : Option Nat :=
  (faults.rapidGrants.map fun n => min n (rapidGrantThreshold + 1)).filter (rapidGrantThreshold ≤ ·)

def noteMaxLen : Nat := 280

/-- What is stored of a note: trimmed, an empty one not at all. -/
def cleanNote (note : Option String) : Option String := (note.map Text.trim).filter (· ≠ "")

/-- What is stored of a scope: `full` is no scope. -/
def normalScope (scope : Option ShareScope) : Except String (Option ShareScope) :=
  match scope with
  | none => .ok none
  | some s =>
    match validateScope s with
    | .error code => .error code
    | .ok () => .ok (if s.kind = "full" then none else some s)

/-- A grant that passed every check. -/
structure Grant where
  recipient : User
  note : Option String
  scope : Option ShareScope

/-- The checks of `add_share` that follow the rate limit. -/
def checkGrant (faults : AddFaults) (now : Timestamp) (req : ShareRequest) :
    Except Refusal Grant :=
  if req.expiresAt.any (· ≤ now) then .error (refuse 400 "expires_at_in_past" none)
  else
    let note := cleanNote req.note
    if note.any (noteMaxLen < ·.toList.length) then .error (refuse 400 "note_too_long" none)
    else
      match normalScope req.scope with
      | .error code => .error (refuse 400 code none)
      | .ok scope =>
        if faults.findByHandle then .error (refuse 500 "internal" none)
        else
          match env.findByHandle (Text.trim req.recipientHandle) with
          | none => .error (refuse 404 "recipient_not_found" none)
          | some recipient =>
            if env.spicedbConfigured then .ok ⟨recipient, note, scope⟩
            else .error (refuse 503 "spicedb_unavailable" none)

/-- The two writes of a grant; the second is best-effort. -/
def writeGrant (faults : AddFaults) (now : Timestamp) (owner : String)
    (expiresAt : Option Timestamp) (grant : Grant) (store : ShareStore) : ShareStore where
  relationships := writeShareWithUser owner grant.recipient.claimedHandle store.relationships
  shares :=
    if faults.upsert then store.shares
    else store.shares.upsert now owner grant.recipient.claimedHandle expiresAt grant.note grant.scope

/-- `add_share`; the answer is the handle shared with. -/
def addShare (faults : AddFaults) (now : Timestamp) (bearer : Option String) (req : ShareRequest)
    (store : ShareStore) : ShareResult (Except Refusal String) :=
  match env.requireUnrestricted .sharing bearer with
  | .error r => ⟨.error r, store, []⟩
  | .ok user =>
    match (requireRsiVerified env faults user).or (sharesPaused env faults now user) with
    | some r => ⟨.error r, store, []⟩
    | none =>
      let recipient := Text.trim req.recipientHandle
      if !validateHandle recipient then
        ⟨.error (refuse 400 "invalid_recipient_handle" none), store, []⟩
      else if Text.eqIgnoreAsciiCase recipient user.preferredUsername then
        ⟨.error (refuse 400 "cannot_share_with_self" none), store, []⟩
      else
        match rapidGrant faults with
        | some n =>
          ⟨.error (refuse 429 "rate_limited_rapid_grant" none), store,
            [.signalRapidGrant user.sub user.preferredUsername n]⟩
        | none =>
          match checkGrant env faults now req with
          | .error r => ⟨.error r, store, []⟩
          | .ok grant =>
            if faults.writeShare then ⟨.error (refuse 500 "spicedb_error" none), store, []⟩
            else
              { reply := .ok grant.recipient.claimedHandle
                store := writeGrant faults now user.preferredUsername req.expiresAt grant store
                audit := [.granted user.sub user.preferredUsername grant.recipient.claimedHandle
                  req.expiresAt grant.note.isSome (grant.scope.map (·.kind))] }

/-- What deleting a share leaves: an entry whose delete fails stays. -/
def eraseShare (relationshipFails rowFails : Bool) (owner recipient : String)
    (store : ShareStore) : ShareStore where
  relationships :=
    if relationshipFails then store.relationships
    else deleteShareWithUser owner recipient store.relationships
  shares := if rowFails then store.shares else store.shares.delete owner recipient

/-- `delete_share`, by the handle in the path. -/
def deleteShare (faults : DeleteFaults) (bearer : Option String) (recipientHandle : String)
    (store : ShareStore) : ShareResult (Except Refusal Unit) :=
  match env.authenticate bearer with
  | .error e => ⟨.error e.refusal, store, []⟩
  | .ok user =>
    let recipient := Text.trim recipientHandle
    if !validateHandle recipient then
      ⟨.error (refuse 400 "invalid_recipient_handle" none), store, []⟩
    else if !env.spicedbConfigured then
      ⟨.error (refuse 503 "spicedb_unavailable" none), store, []⟩
    else if faults.deleteShare then ⟨.error (refuse 500 "spicedb_error" none), store, []⟩
    else
      { reply := .ok ()
        store := eraseShare false faults.deleteMeta user.preferredUsername recipient store
        audit := [.revoked user.sub user.preferredUsername recipient] }

end

/-! ## The gate of the friend reads -/

structure ReadFaults where
  isBlocked : Bool
  checkView : Bool
  find : Bool
  deleteShare : Bool
  deleteMeta : Bool
  recheck : Bool

def ReadFaults.none : ReadFaults := ⟨false, false, false, false, false, false⟩

/-- `check_view`. -/
def checkView (rels : List Relationship) (owner viewer : String) : Bool :=
  statsRecordView rels (statsRecord owner) (userRef viewer)

/-- `check_view_with_expiry`. The first check asks with `minimize_latency` and is answered from
some snapshot of the relationships, `seen`; the check after a lazy revoke is fully consistent. -/
def checkViewWithExpiry (env : SharingEnv) (faults : ReadFaults) (now : Timestamp)
    (owner viewer : String) (seen : List Relationship) (store : ShareStore) :
    ShareResult (Except Unit Bool) :=
  if faults.isBlocked then ⟨.error (), store, []⟩
  else if env.isBlocked owner viewer then ⟨.ok false, store, []⟩
  else if faults.checkView then ⟨.error (), store, []⟩
  else if !checkView seen owner viewer then ⟨.ok false, store, []⟩
  -- without the metadata the share is taken as it stands
  else if faults.find then ⟨.ok true, store, []⟩
  else
    match (store.shares.find owner viewer).bind (·.expiresAt) with
    | none => ⟨.ok true, store, []⟩
    | some expiresAt =>
      if now < expiresAt then ⟨.ok true, store, []⟩
      else
        let store := eraseShare faults.deleteShare faults.deleteMeta owner viewer store
        { reply :=
            if faults.recheck then .error () else .ok (checkView store.relationships owner viewer)
          store := store
          audit := [.expiredRevoked owner viewer expiresAt] }

end StarStats
