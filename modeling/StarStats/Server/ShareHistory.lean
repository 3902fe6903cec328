import StarStats.Lib.Trans
import StarStats.Server.Sharing

/-!
# Runs of one share

One owner, one recipient account, and the requests that concern the share between them: grants
and revocations by the owner (of any recipient, in any spelling), friend reads by the recipient,
and the clock. SpiceDB answers the first check of a read from the relationships as they are or as
they were before some earlier request. The history records what was answered, newest first;
`latestGrant` and `isRevoked` read off it what the owner last decided for the recipient.
-/

namespace StarStats

/-- The read comes to its first check, and has its answer. -/
def SharingEnv.asks (env : SharingEnv) (faults : ReadFaults) (owner viewer : String) : Bool :=
  !faults.isBlocked && !env.isBlocked owner viewer && !faults.checkView

/-- The row of the share carries an expiry that has passed. -/
def ShareTable.lapsed (shares : ShareTable) (now : Timestamp) (owner recipient : String) : Bool :=
  ((shares.find owner recipient).bind (·.expiresAt)).any (· ≤ now)

/-- An owner, by token, and another account. -/
structure SharePair where
  env : SharingEnv
  bearer : Option String
  owner : AuthenticatedUser
  recipient : User
  authenticated : env.authenticate bearer = .ok owner
  registered : env.findByHandle recipient.claimedHandle = some recipient
  distinct : Text.eqIgnoreAsciiCase recipient.claimedHandle owner.preferredUsername = false

inductive ShareEvent where
  | granted (recipient : String) (expiresAt : Option Timestamp)
  | revoked (recipient : String)
  | read (time : Timestamp) (answer : Except Unit Bool)
  deriving DecidableEq

structure ShareState where
  now : Timestamp
  store : ShareStore
  /-- The relationships before each request so far, newest first. -/
  earlier : List (List Relationship)
  history : List ShareEvent

namespace ShareState

/-- What the first check of a read may see. -/
def snapshots (s : ShareState) : List (List Relationship) := s.store.relationships :: s.earlier

/-- What a request leaves. -/
def leave (s : ShareState) (store : ShareStore) (history : List ShareEvent) : ShareState :=
  ⟨s.now, store, s.snapshots, history⟩

@[simp] theorem leave_now (s : ShareState) (store : ShareStore) (history : List ShareEvent) :
    (s.leave store history).now = s.now := rfl

@[simp] theorem leave_store (s : ShareState) (store : ShareStore) (history : List ShareEvent) :
    (s.leave store history).store = store := rfl

@[simp] theorem leave_history (s : ShareState) (store : ShareStore) (history : List ShareEvent) :
    (s.leave store history).history = history := rfl

end ShareState

inductive ShareAction where
  | add (req : ShareRequest) (faults : AddFaults)
  | delete (recipientHandle : String) (faults : DeleteFaults)
  /-- The first check sees the relationships of `age` requests ago. -/
  | read (faults : ReadFaults) (age : Nat)
  | advance (micros : Nat)

namespace SharePair
variable (p : SharePair)

def ownerHandle : String := p.owner.preferredUsername
def recipientHandle : String := p.recipient.claimedHandle

def step (s : ShareState) : ShareAction → Option ShareState
  | .add req faults =>
    let r := addShare p.env faults s.now p.bearer req s.store
    some <| s.leave r.store <|
      match r.reply with
      | .ok handle => .granted handle req.expiresAt :: s.history
      | .error _ => s.history
  | .delete recipientHandle faults =>
    let r := deleteShare p.env faults p.bearer recipientHandle s.store
    some <| s.leave r.store <|
      match r.reply with
      | .ok () => .revoked (Text.trim recipientHandle) :: s.history
      | .error _ => s.history
  | .read faults age =>
    s.snapshots[age]?.map fun seen =>
      let r := checkViewWithExpiry p.env faults s.now p.ownerHandle p.recipientHandle seen s.store
      s.leave r.store (.read s.now r.reply :: s.history)
  | .advance micros => some { s with now := s.now + micros }

/-- The handle is a spelling of the recipient's. -/
def names (handle : String) : Bool := Text.eqIgnoreAsciiCase handle p.recipientHandle

/-- The `expires_at` of the latest grant to the recipient. -/
def latestGrant : List ShareEvent → Option (Option Timestamp)
  | [] => none
  | .granted handle expiresAt :: es => if p.names handle then some expiresAt else latestGrant es
  | _ :: es => latestGrant es

/-- The recipient's share was revoked and not granted since. -/
def isRevoked : List ShareEvent → Bool
  | [] => false
  | .granted handle _ :: es => if p.names handle then false else isRevoked es
  | .revoked handle :: es => if p.names handle then true else isRevoked es
  | .read _ _ :: es => isRevoked es

/-- Where a run may start: nothing recorded, the recipient without access to the owner's record
on any path and in any spelling, in no snapshot. Rows of `share_metadata` may be left over. -/
structure Fresh (s : ShareState) : Prop where
  history : s.history = []
  noShare : ∀ rels ∈ s.snapshots, ∀ v, p.names v → shareTuple p.ownerHandle v ∉ rels
  noOther : ∀ rels ∈ s.snapshots, ∀ v, p.names v →
    viewWithoutShare rels (statsRecord p.ownerHandle) (userRef v) = false

/-- A read by the recipient comes to its first check. -/
def asks (faults : ReadFaults) : Bool := p.env.asks faults p.ownerHandle p.recipientHandle

/-! ## Expiry -/

/-- No read was answered `true` later than the expiry of the grant that was the latest then. -/
def NoExpiredRead : List ShareEvent → Prop
  | [] => True
  | .read time answer :: es =>
    (answer = .ok true → ∀ e, p.latestGrant es = some (some e) → time ≤ e) ∧ NoExpiredRead es
  | _ :: es => NoExpiredRead es

/-- Grants that reach both stores, reads whose metadata lookup succeeds, and the clock. -/
def sharing (_ : ShareState) : ShareAction → Prop
  | .add _ faults => faults.upsert = false
  | .delete _ _ => False
  | .read faults _ => faults.find = false
  | .advance _ => True

/-- The share's row has lapsed. -/
def lapsed (s : ShareState) : Bool := s.store.shares.lapsed s.now p.ownerHandle p.recipientHandle

/-- A read whose first check sees the relationship finds the row, and if that has lapsed deletes
the relationship. -/
def keepsExpiry (s : ShareState) : ShareAction → Prop
  | .read faults age =>
    p.asks faults → ∀ seen ∈ s.snapshots[age]?, shareTuple p.ownerHandle p.recipientHandle ∈ seen →
      (s.store.shares.find p.ownerHandle p.recipientHandle).isSome ∧
        (p.lapsed s → faults.deleteShare = false)
  | _ => True

instance : DecidableRel sharing
  | _, .add _ faults => inferInstanceAs (Decidable (faults.upsert = false))
  | _, .delete _ _ => .isFalse id
  | _, .read faults _ => inferInstanceAs (Decidable (faults.find = false))
  | _, .advance _ => .isTrue trivial

instance : DecidableRel p.keepsExpiry
  | _, .add _ _ | _, .delete _ _ | _, .advance _ => .isTrue trivial
  | s, .read faults age => inferInstanceAs (Decidable (p.asks faults →
      ∀ seen ∈ s.snapshots[age]?, shareTuple p.ownerHandle p.recipientHandle ∈ seen →
        (s.store.shares.find p.ownerHandle p.recipientHandle).isSome ∧
          (p.lapsed s → faults.deleteShare = false)))

/-! ## Revocation -/

/-- No read was answered `true` while the share was revoked. -/
def NoRevokedRead : List ShareEvent → Prop
  | [] => True
  | .read _ answer :: es => (answer = .ok true → p.isRevoked es = false) ∧ NoRevokedRead es
  | _ :: es => NoRevokedRead es

/-- Neither gate lets the recipient in when nothing is served from an earlier snapshot, whatever
else fails in the read. -/
def NoAccess (s : ShareState) : Prop :=
  ∀ v, p.names v →
    (∀ faults : ReadFaults,
      (checkViewWithExpiry p.env faults s.now p.ownerHandle v s.store.relationships
        s.store).reply ≠ .ok true) ∧
    callerMayViewTimeline s.now s.store.shares p.ownerHandle v = false

/-- Once the share is revoked, it granted no read and grants nothing. -/
def RevokedIsEffective (s : ShareState) : Prop :=
  p.NoRevokedRead s.history ∧ (p.isRevoked s.history → p.NoAccess s)

/-- The row of the share opens the timeline. -/
def opensTimeline (s : ShareState) : Bool :=
  (s.store.shares.find p.ownerHandle p.recipientHandle).any fun row =>
    row.active s.now && row.shareEventTimeline

/-- A revocation of the recipient's share that `delete_share` carries out. -/
def isRevocation (handle : String) (faults : DeleteFaults) : Bool :=
  validateHandle (Text.trim handle) && p.env.spicedbConfigured && !faults.deleteShare &&
    p.names (Text.trim handle)

/-- A revocation names the relationship, where there is one and the recipient is not blocked, in
the spelling it has, and deletes the row, where that opens the timeline. The first check of a read
does not see a relationship that was revoked, unless a row that has lapsed is found. -/
def revokesBoth (s : ShareState) : ShareAction → Prop
  | .delete handle faults =>
    p.isRevocation handle faults →
      (shareTuple p.ownerHandle p.recipientHandle ∈ s.store.relationships →
        p.env.isBlocked p.ownerHandle p.recipientHandle = false →
          Text.trim handle = p.recipientHandle) ∧
      (p.opensTimeline s → faults.deleteMeta = false)
  | .read faults age =>
    p.isRevoked s.history → p.asks faults → (faults.find || !p.lapsed s) →
      ∀ seen ∈ s.snapshots[age]?, shareTuple p.ownerHandle p.recipientHandle ∉ seen
  | _ => True

instance : DecidableRel p.revokesBoth
  | _, .add _ _ | _, .advance _ => .isTrue trivial
  | s, .delete handle faults => inferInstanceAs (Decidable (p.isRevocation handle faults →
      (shareTuple p.ownerHandle p.recipientHandle ∈ s.store.relationships →
        p.env.isBlocked p.ownerHandle p.recipientHandle = false →
          Text.trim handle = p.recipientHandle) ∧
      (p.opensTimeline s → faults.deleteMeta = false)))
  | s, .read faults age => inferInstanceAs (Decidable (p.isRevoked s.history → p.asks faults →
      (faults.find || !p.lapsed s) → ∀ seen ∈ s.snapshots[age]?,
        shareTuple p.ownerHandle p.recipientHandle ∉ seen))

end SharePair

end StarStats
