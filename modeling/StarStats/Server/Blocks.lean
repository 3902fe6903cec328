import StarStats.Lib.Calls
import StarStats.Lib.Trans
import StarStats.Server.Social
import StarStats.Server.Spicedb

/-!
# Blocking while requests are under way (`starstats-server/src/social_routes.rs`)

`send_request`, `accept_request` and one `block_user` of `a` by `b`, store call by store call: the
tables of the social store and the friend tuples of SpiceDB are shared, and any call may go on
between two calls of another. The store calls succeed. What `block_user` clears besides the
friendship, its tuples and the pending requests (salutes, commends, the chat room, notifications
and the share) is left out.
-/

namespace StarStats

open Text (lower)

namespace Blocks

structure Stores where
  social : SocialTables
  rels : List Relationship
  deriving DecidableEq

/-! ## `send_request` -/

/-- The store call that comes next. -/
inductive SendPhase where
  | areFriends
  | mineBlocked
  | countRecent
  | policy
  | theirsBlocked
  | findPending
  | resolve (reverse : FriendRequest)
  | addFriendship
  | writeTuples
  | create
  | done (answer : Except Refusal SendFriendRequestResponse)
  deriving DecidableEq

/-- One store call of `send_request`, from the checks on. -/
def sendStep (env : SocialEnv) (me them : SocialUser) (now : Timestamp) (id : Uuid) :
    SendPhase × Stores → SendPhase × Stores
  | (.areFriends, s) =>
    if areFriends me.claimedHandle them.claimedHandle s.social.friendships then
      (.done (.error (refuse 409 "already_friends" none)), s)
    else (.mineBlocked, s)
  | (.mineBlocked, s) =>
    if isBlocked me.claimedHandle them.claimedHandle s.social.blocks then
      (.done (.error (refuse 409 "you_blocked_user" none)), s)
    else (.countRecent, s)
  | (.countRecent, s) =>
    if requestRateLimitPerWindow ≤
        s.social.requests.countRecent me.claimedHandle (now - requestRateLimitWindow) then
      (.done (.error (refuse 429 "rate_limited" none)), s)
    else (.policy, s)
  | (.policy, s) =>
    match policyRefusal env me them (s.social.getPolicy them.claimedHandle) with
    | some r => (.done (.error r), s)
    | none => (.theirsBlocked, s)
  | (.theirsBlocked, s) =>
    if isBlocked them.claimedHandle me.claimedHandle s.social.blocks then (.create, s)
    else (.findPending, s)
  | (.findPending, s) =>
    match s.social.requests.findPending them.claimedHandle me.claimedHandle with
    | some reverse => (.resolve reverse, s)
    | none => (.create, s)
  | (.resolve reverse, s) =>
    match s.social.requests.resolve reverse.id .accepted now with
    | .error e => (.done (.error (socialErr e)), s)
    | .ok (_, requests) =>
      (.addFriendship, { s with social := { s.social with requests := requests } })
  | (.addFriendship, s) =>
    (.writeTuples, { s with
      social := { s.social with
        friendships :=
          addFriendship me.claimedHandle them.claimedHandle now s.social.friendships } })
  | (.writeTuples, s) =>
    (.done (.ok ⟨.becameFriends, none⟩),
      { s with rels := applyFriends me.claimedHandle them.claimedHandle true s.rels })
  | (.create, s) =>
    match s.social.requests.create id me.claimedHandle them.claimedHandle now with
    | .error e => (.done (.error (socialErr e)), s)
    | .ok (r, requests) =>
      (.done (.ok ⟨.requested, some r⟩),
        { s with social := { s.social with requests := requests } })
  | (.done answer, s) => (.done answer, s)

/-! ## `accept_request` -/

inductive AcceptPhase where
  | get (id : Uuid)
  | isBlocked (r : FriendRequest)
  | resolve (r : FriendRequest)
  | addFriendship (r : FriendRequest)
  | writeTuples (r : FriendRequest)
  | done (answer : Except Refusal FriendRequest)
  deriving DecidableEq

def acceptStep (me : SocialUser) (now : Timestamp) :
    AcceptPhase × Stores → AcceptPhase × Stores
  | (.get id, s) =>
    match s.social.requests.get id with
    | none => (.done (.error (refuse 404 "request_not_found" none)), s)
    | some r =>
      if !Text.eqIgnoreAsciiCase r.recipientHandle me.claimedHandle then
        (.done (.error (refuse 404 "request_not_found" none)), s)
      else (.isBlocked r, s)
  | (.isBlocked r, s) =>
    if isBlocked me.claimedHandle r.requesterHandle s.social.blocks then
      (.done (.error (refuse 404 "request_not_found" none)), s)
    else (.resolve r, s)
  | (.resolve r, s) =>
    match s.social.requests.resolve r.id .accepted now with
    | .error e => (.done (.error (socialErr e)), s)
    | .ok (r, requests) =>
      (.addFriendship r, { s with social := { s.social with requests := requests } })
  | (.addFriendship r, s) =>
    (.writeTuples r, { s with
      social := { s.social with
        friendships :=
          addFriendship r.requesterHandle r.recipientHandle now s.social.friendships } })
  | (.writeTuples r, s) =>
    (.done (.ok r),
      { s with rels := applyFriends r.requesterHandle r.recipientHandle true s.rels })
  | (.done answer, s) => (.done answer, s)

/-! ## `block_user` -/

inductive BlockPhase where
  | block
  | removeFriendship
  | deleteTuples
  | cancelPending
  | done
  deriving DecidableEq

/-- The friendship has been removed. -/
def BlockPhase.removed : BlockPhase → Bool
  | .block | .removeFriendship => false
  | _ => true

/-- The friend tuples have been deleted. -/
def BlockPhase.unshared : BlockPhase → Bool
  | .cancelPending | .done => true
  | _ => false

def blockStep (mine theirs : String) (now : Timestamp) :
    BlockPhase × Stores → BlockPhase × Stores
  | (.block, s) =>
    (.removeFriendship,
      { s with social := { s.social with blocks := block mine theirs s.social.blocks } })
  | (.removeFriendship, s) =>
    (.deleteTuples, { s with
      social := { s.social with
        friendships := removeFriendship mine theirs s.social.friendships } })
  | (.deleteTuples, s) =>
    (.cancelPending, { s with rels := applyFriends mine theirs false s.rels })
  | (.cancelPending, s) =>
    (.done, { s with
      social := { s.social with
        requests := s.social.requests.cancelPendingBetween mine theirs now } })
  | (.done, s) => (.done, s)

/-! ## The system -/

/-- A call of `a`, or of `b` where `byB`. -/
inductive Call where
  | send (byB : Bool) (phase : SendPhase)
  | accept (byB : Bool) (phase : AcceptPhase)
  deriving DecidableEq

def Call.finished : Call → Bool
  | .send _ (.done _) | .accept _ (.done _) => true
  | _ => false

structure State where
  stores : Stores
  block : BlockPhase
  calls : List Call
  deriving DecidableEq

/-- Nothing is under way, and `b` has not blocked `a` yet. -/
def State.start (stores : Stores) : State := ⟨stores, .block, []⟩

/-- Everything has returned. -/
def State.finished (s : State) : Bool := s.block = .done && s.calls.all (·.finished)

inductive Action where
  | send (byB : Bool)
  | accept (byB : Bool) (id : Uuid)
  /-- The next store call of `block_user`. -/
  | block (now : Timestamp)
  /-- The next store call of a call, with the key that a new request gets. -/
  | next (call : Nat) (now : Timestamp) (id : Uuid)
  deriving DecidableEq

section
variable (env : SocialEnv) (a b : SocialUser)

def callStep (now : Timestamp) (id : Uuid) : Call → Stores → Call × Stores
  | .send byB phase, s =>
    let r := if byB then sendStep env b a now id (phase, s) else sendStep env a b now id (phase, s)
    (.send byB r.1, r.2)
  | .accept byB phase, s =>
    let r := acceptStep (if byB then b else a) now (phase, s)
    (.accept byB r.1, r.2)

def step (s : State) : Action → Option State
  | .send byB => some { s with calls := s.calls ++ [.send byB .areFriends] }
  | .accept byB id => some { s with calls := s.calls ++ [.accept byB (.get id)] }
  | .block now =>
    if s.block = .done then none
    else
      let r := blockStep b.claimedHandle a.claimedHandle now (s.block, s.stores)
      some { s with block := r.1, stores := r.2 }
  | .next i now id =>
    match s.calls[i]? with
    | none => none
    | some c =>
      if c.finished then none
      else
        let r := callStep env a b now id c s.stores
        some { s with stores := r.2, calls := s.calls.set i r.1 }

/-- The friendship that the next store call of a call adds. -/
def Call.befriends : Call → Option (String × String)
  | .send byB .addFriendship =>
    if byB then some (b.claimedHandle, a.claimedHandle)
    else some (a.claimedHandle, b.claimedHandle)
  | .accept _ (.addFriendship r) => some (r.requesterHandle, r.recipientHandle)
  | _ => none

/-- The friend tuples that the next store call of a call writes. -/
def Call.shares : Call → Option (String × String)
  | .send byB .writeTuples =>
    if byB then some (b.claimedHandle, a.claimedHandle)
    else some (a.claimedHandle, b.claimedHandle)
  | .accept _ (.writeTuples r) => some (r.requesterHandle, r.recipientHandle)
  | _ => none

/-- The friendship of the two, whichever comes first. -/
def ofBoth (p : String × String) : Bool :=
  (Friendship.ofPair p.1 p.2 0).between b.claimedHandle a.claimedHandle

/-- The tuples of the two, whichever comes first. -/
def sharesBoth (p : String × String) : Bool :=
  p = (a.claimedHandle, b.claimedHandle) || p = (b.claimedHandle, a.claimedHandle)

/-- The call does not add the friendship after the block has removed it, nor write its tuples
after the block has deleted them. -/
def InTime (s : State) : Action → Prop
  | .next i _ _ => ∀ c, s.calls[i]? = some c → c.finished = false →
    (s.block.removed = true → (c.befriends a b).any (ofBoth a b) = false) ∧
      (s.block.unshared = true → (c.shares a b).any (sharesBoth a b) = false)
  | _ => True

instance : DecidableRel (InTime a b) := fun s action =>
  match action with
  | .next i _ _ => inferInstanceAs (Decidable (∀ c ∈ s.calls[i]?, c.finished = false →
      (s.block.removed = true → (c.befriends a b).any (ofBoth a b) = false) ∧
        (s.block.unshared = true → (c.shares a b).any (sharesBoth a b) = false)))
  | .send _ | .accept _ _ | .block _ => .isTrue trivial

/-- What a block promises of the two. -/
structure Ended (s : State) : Prop where
  noFriendship : areFriends b.claimedHandle a.claimedHandle s.stores.social.friendships = false
  noTuples : friendTuple a.claimedHandle b.claimedHandle ∉ s.stores.rels ∧
    friendTuple b.claimedHandle a.claimedHandle ∉ s.stores.rels
  noneListed : ∀ r ∈ s.stores.social.listIncoming b.claimedHandle,
    lower r.requesterHandle ≠ lower a.claimedHandle

end

end Blocks

end StarStats
