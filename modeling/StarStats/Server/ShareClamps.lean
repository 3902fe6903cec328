import StarStats.Server.SharedReads

/-!
# What a scope promises

A scope withholds the owner's events that are older than its window or of a type its lists
exclude; hidden events are withheld from everyone. `GrantedShare.ClampsEnforced` says that a
recipient's reads do not depend on what the granted scope withholds, `PublicView.TypesWithheld`
that the public reads do not depend on the types the public scope excludes.
-/

namespace StarStats

open Text (lower)

namespace ShareScope

/-- The row is older than the scope's window. -/
def outdated (scope : ShareScope) (now : Timestamp) (r : SeqRow) : Bool :=
  scope.windowDays.any fun w => r.eventTimestamp.any (· < now - w.toNat * dayMicros)

/-- The lists exclude the type. -/
def excludes (scope : ShareScope) (t : String) : Bool :=
  !typeAllowed scope.allowEventTypes scope.denyEventTypes t

def withholds (scope : ShareScope) (now : Timestamp) (r : SeqRow) : Bool :=
  scope.outdated now r || scope.excludes r.eventType

/-- The lists exclude no type. -/
def excludesNothing (scope : ShareScope) : Bool :=
  scope.allowEventTypes.isNone && scope.denyEventTypes.all (·.isEmpty)

/-- The lists exclude every type: all that is allowed is also denied. -/
def excludesEverything (scope : ShareScope) : Bool :=
  scope.allowEventTypes.any fun l => l.all ((scope.denyEventTypes.getD []).contains ·)

end ShareScope

/-- The stores differ at most in rows of the handle that are hidden or meet `withheld`. -/
def SameShown (handle : String) (withheld : SeqRow → Bool) (events events' : List SeqRow) : Prop :=
  let kept := fun r : SeqRow =>
    !(r.claimedHandle == lower handle && (r.hiddenAt.isSome || withheld r))
  events.filter kept = events'.filter kept

/-! ## A granted share -/

/-- A share that `add_share` granted with a scope, and the recipient who reads at a time when the
row still stands. Both handles may be spelled in any case. -/
structure GrantedShare where
  env : ReadEnv
  ownerBearer : Option String
  owner : AuthenticatedUser
  ownerCalls : env.authenticate ownerBearer = .ok owner
  scope : ShareScope
  req : ShareRequest
  requested : req.scope = some scope
  grantedAt : Timestamp
  faults : AddFaults
  upserted : faults.upsert = false
  before : ShareStore
  recipient : String
  granted : (addShare env.toSharingEnv faults grantedAt ownerBearer req before).reply = .ok recipient
  bearer : Option String
  viewer : AuthenticatedUser
  viewerCalls : env.authenticate bearer = .ok viewer
  isRecipient : lower viewer.preferredUsername = lower recipient
  handle : String
  namesOwner : lower handle = lower owner.preferredUsername
  now : Timestamp
  /-- What the first check of the gate sees. -/
  seen : List Relationship
  store : ShareStore
  stands : store.shares.find handle viewer.preferredUsername =
    (addShare env.toSharingEnv faults grantedAt ownerBearer req before).store.shares.find
      owner.preferredUsername recipient

namespace GrantedShare
variable (g : GrantedShare)

/-- The recipient's answers do not depend on what the scope withholds. -/
def ClampsEnforced : Prop :=
  ∀ events events', SameShown g.handle (g.scope.withholds g.now) events events' →
    friendSummary g.env .none g.now g.bearer g.handle g.seen g.store events =
      friendSummary g.env .none g.now g.bearer g.handle g.seen g.store events' ∧
    (∀ days, friendTimeline g.env .none g.now g.bearer g.handle g.seen days g.store events =
      friendTimeline g.env .none g.now g.bearer g.handle g.seen days g.store events') ∧
    ∀ days limit beforeSeq,
      friendEvents g.env .none g.now g.bearer g.handle g.seen days limit beforeSeq g.store events =
        friendEvents g.env .none g.now g.bearer g.handle g.seen days limit beforeSeq g.store events'

/-- The gate lets the recipient in. -/
def letIn : Bool :=
  validateHandle g.handle && g.env.spicedbConfigured &&
    match (checkViewWithExpiry g.env.toSharingEnv .none g.now g.handle g.viewer.preferredUsername
        g.seen g.store).reply with
    | .ok b => b
    | .error () => false

/-- The share has expired: a read deletes the row, and with it the scope, before it looks. -/
def lapsed : Bool := g.req.expiresAt.any (· ≤ g.now)

/-- The stored scope has every clamp of the granted one, and each surface applies those it
shows: `full` is stored as no scope, and the summary does not look at the window. -/
def clampsKept : Bool :=
  !g.lapsed && g.scope.kind != "full" &&
    (g.scope.kind == "timeline" || g.scope.windowDays.isNone || g.scope.excludesEverything)

/-- The scope withholds nothing. -/
def withholdsNothing : Bool := g.scope.windowDays.isNone && g.scope.excludesNothing

end GrantedShare

/-! ## A public profile -/

/-- A caller, or nobody, who looks at a profile. -/
structure PublicView where
  env : ReadEnv
  faults : PublicFaults
  bearer : Option String
  handle : String
  now : Timestamp
  store : ShareStore
  publicScopes : String → Option ShareScope
  scope : ShareScope
  stored : publicScopes (lower handle) = some scope

namespace PublicView
variable (v : PublicView)

/-- The public answers do not depend on the types the public scope excludes. -/
def TypesWithheld : Prop :=
  ∀ events events', SameShown v.handle (fun r => v.scope.excludes r.eventType) events events' →
    publicSummary v.env v.faults v.bearer v.handle v.publicScopes v.store events =
      publicSummary v.env v.faults v.bearer v.handle v.publicScopes v.store events' ∧
    ∀ days, publicTimeline v.env v.faults v.bearer v.handle v.now days v.publicScopes v.store events =
      publicTimeline v.env v.faults v.bearer v.handle v.now days v.publicScopes v.store events'

/-- The profile is shown, and the query answers. -/
def shown : Bool :=
  validateHandle v.handle && !v.faults.restrictions && !v.env.publicRestricted (lower v.handle) &&
    (match blockedByOwner v.env v.faults v.bearer v.handle with
      | .ok b => !b
      | .error _ => false) &&
    v.env.spicedbConfigured && !v.faults.checkPublic && hasPublicView v.store.relationships v.handle &&
    !v.faults.render.query

/-- The heatmap has no days: the lookup of the scope succeeds and its window is empty. -/
def noHeatmap : Bool := !v.faults.getPublic && v.scope.windowDays == some 0

end PublicView

end StarStats
