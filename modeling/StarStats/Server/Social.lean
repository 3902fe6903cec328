import Mathlib.Data.List.Sort
import Mathlib.Data.String.Basic
import StarStats.Lib.Text
import StarStats.Server.Sharing

/-!
# Friends and blocks (`starstats-server/src/social.rs`, `social_routes.rs`)

The tables `friend_requests`, `friendships` and `user_blocks`, with the statements of
`PostgresSocialStore`, and the handlers over them: `sendRequest`, `acceptRequest`,
`declineRequest`, `cancelRequest` and `listFriends`, each run by itself with the time and the key
that the database gives. A handle is compared without regard to ASCII case. The store calls
succeed; what `share_an_org` asks of the outside is a `SocialEnv`.
-/

namespace StarStats

open Text (lower)

inductive FriendRequestStatus where
  | pending
  | accepted
  | declined
  | cancelled
  deriving DecidableEq

inductive FriendRequestPolicy where
  | everyone
  | orgMates
  | nobody
  deriving DecidableEq

structure FriendRequest where
  id : Uuid
  requesterHandle : String
  recipientHandle : String
  status : FriendRequestStatus
  createdAt : Timestamp
  respondedAt : Option Timestamp
  deriving DecidableEq

/-- The request is one of `requester` to `recipient`. -/
def FriendRequest.goes (r : FriendRequest) (requester recipient : String) : Bool :=
  lower r.requesterHandle == lower requester && lower r.recipientHandle == lower recipient

def FriendRequest.isPending (r : FriendRequest) : Bool := r.status == .pending

/-- `SocialError`, but for errors of the database. -/
inductive SocialError where
  | notFound
  | notPending
  | duplicatePending
  deriving DecidableEq

/-! ## `friend_requests` -/

structure RequestTable where
  rows : List FriendRequest
  keyed : (rows.map (·.id)).Nodup
  deriving DecidableEq

namespace RequestTable

/-- `UPDATE … SET status, responded_at` of the rows that meet `p`. -/
def setStatus (t : RequestTable) (p : FriendRequest → Bool) (status : FriendRequestStatus)
    (now : Timestamp) : RequestTable where
  rows := t.rows.map fun r =>
    if p r then { r with status := status, respondedAt := some now } else r
  keyed := by
    rw [List.map_map]
    refine cast (congrArg List.Nodup (List.map_congr_left fun r _ => ?_)) t.keyed
    simp only [Function.comp]
    split <;> rfl

/-- `create_request`: the key is new, and no request of the pair is pending. -/
def create (t : RequestTable) (id : Uuid) (requester recipient : String) (now : Timestamp) :
    Except SocialError (FriendRequest × RequestTable) :=
  if h : t.rows.any (fun r => r.id = id || r.isPending && r.goes requester recipient) then
    .error .duplicatePending
  else
    let r : FriendRequest := ⟨id, requester, recipient, .pending, now, none⟩
    .ok (r, ⟨t.rows ++ [r], by
      rw [List.map_append, List.map_singleton]
      refine t.keyed.append (List.nodup_singleton _) (List.disjoint_singleton.2 ?_)
      rw [List.mem_map]
      rintro ⟨r', hr', hid⟩
      exact h (List.any_eq_true.2 ⟨r', hr', by simp only [hid, r, decide_true, Bool.true_or]⟩)⟩)

/-- `get_request`. -/
def get (t : RequestTable) (id : Uuid) : Option FriendRequest := t.rows.find? (·.id = id)

/-- `find_pending`. -/
def findPending (t : RequestTable) (requester recipient : String) : Option FriendRequest :=
  t.rows.find? fun r => r.isPending && r.goes requester recipient

/-- `resolve_request`. -/
def resolve (t : RequestTable) (id : Uuid) («to» : FriendRequestStatus) (now : Timestamp) :
    Except SocialError (FriendRequest × RequestTable) :=
  match t.rows.find? fun r => r.id = id && r.isPending with
  | some r => .ok ({ r with status := «to», respondedAt := some now },
      t.setStatus (fun r => r.id = id && r.isPending) «to» now)
  | none => if t.rows.any (·.id = id) then .error .notPending else .error .notFound

/-- `cancel_pending_between`. -/
def cancelPendingBetween (t : RequestTable) (a b : String) (now : Timestamp) : RequestTable :=
  t.setStatus (fun r => r.isPending && (r.goes a b || r.goes b a)) .cancelled now

/-- `count_recent_requests`. -/
def countRecent (t : RequestTable) (requester : String) (since : Timestamp) : Nat :=
  t.rows.countP fun r => lower r.requesterHandle == lower requester && decide (since ≤ r.createdAt)

end RequestTable

/-! ## `friendships` -/

/-- A pair has one row: the handles stand in the order of their lower case. -/
structure Friendship where
  handleA : String
  handleB : String
  createdAt : Timestamp
  ordered : lower handleA ≤ lower handleB
  deriving DecidableEq

/-- `ordered_pair`. -/
def orderedPair (a b : String) : String × String := if lower a ≤ lower b then (a, b) else (b, a)

theorem orderedPair_ordered (a b : String) :
    lower (orderedPair a b).1 ≤ lower (orderedPair a b).2 := by
  unfold orderedPair
  split
  · assumption
  · rename_i h
    exact le_of_not_ge h

def Friendship.ofPair (a b : String) (now : Timestamp) : Friendship :=
  ⟨(orderedPair a b).1, (orderedPair a b).2, now, orderedPair_ordered a b⟩

/-- The row is that of the pair. -/
def Friendship.between (f : Friendship) (a b : String) : Bool :=
  lower f.handleA == lower (orderedPair a b).1 && lower f.handleB == lower (orderedPair a b).2

def Friendship.names (f : Friendship) (handle : String) : Bool :=
  lower f.handleA == lower handle || lower f.handleB == lower handle

/-- `add_friendship`. -/
def addFriendship (a b : String) (now : Timestamp) (friendships : List Friendship) :
    List Friendship :=
  if friendships.any (·.between a b) then friendships else friendships ++ [.ofPair a b now]

/-- `remove_friendship`. -/
def removeFriendship (a b : String) (friendships : List Friendship) : List Friendship :=
  friendships.filter (!·.between a b)

/-- `are_friends`. -/
def areFriends (a b : String) (friendships : List Friendship) : Bool :=
  friendships.any (·.between a b)

/-! ## `user_blocks` -/

/-- `is_blocked`. -/
def isBlocked (blocker blocked : String) (blocks : List (String × String)) : Bool :=
  blocks.any fun b => lower b.1 == lower blocker && lower b.2 == lower blocked

/-- `block`. -/
def block (blocker blocked : String) (blocks : List (String × String)) : List (String × String) :=
  if isBlocked blocker blocked blocks then blocks else blocks ++ [(blocker, blocked)]

/-! ## The tables -/

/-- What the handlers read of `users`. -/
structure SocialUser where
  id : Uuid
  claimedHandle : String
  rsiVerifiedAt : Option Timestamp
  /-- `NULL` is everyone. -/
  friendRequestPolicy : Option FriendRequestPolicy
  discoverable : Option Bool
  deriving DecidableEq

structure SocialTables where
  users : List SocialUser
  requests : RequestTable
  friendships : List Friendship
  blocks : List (String × String)
  deriving DecidableEq

/-- `LIST_LIMIT`. -/
def listLimit : Nat := 1000

structure Friend where
  handle : String
  since : Timestamp
  rsiVerified : Bool
  deriving DecidableEq

namespace SocialTables

def user? (s : SocialTables) (handle : String) : Option SocialUser :=
  s.users.find? fun u => lower u.claimedHandle == lower handle

/-- `get_policy`. -/
def getPolicy (s : SocialTables) (handle : String) : FriendRequestPolicy :=
  ((s.user? handle).bind (·.friendRequestPolicy)).getD .everyone

/-- `get_discoverable`. -/
def getDiscoverable (s : SocialTables) (handle : String) : Bool :=
  ((s.user? handle).bind (·.discoverable)).getD true

def newestFirst (rs : List FriendRequest) : List FriendRequest :=
  (rs.insertionSort fun r r' => r'.createdAt ≤ r.createdAt).take listLimit

/-- `list_incoming`. -/
def listIncoming (s : SocialTables) (handle : String) : List FriendRequest :=
  newestFirst (s.requests.rows.filter fun r => lower r.recipientHandle == lower handle &&
    r.isPending && !isBlocked handle r.requesterHandle s.blocks)

/-- `list_outgoing`. -/
def listOutgoing (s : SocialTables) (handle : String) : List FriendRequest :=
  newestFirst (s.requests.rows.filter fun r =>
    lower r.requesterHandle == lower handle && r.isPending)

/-- The friend on the other side of a row. -/
def friendOf (s : SocialTables) (handle : String) (f : Friendship) : Friend :=
  let other := if lower f.handleA = lower handle then f.handleB else f.handleA
  ⟨other, f.createdAt, (s.user? other).any (·.rsiVerifiedAt.isSome)⟩

/-- `list_friends` of the store. -/
def listFriends (s : SocialTables) (handle : String) : List Friend :=
  (((s.friendships.filter (·.names handle)).map (s.friendOf handle)).insertionSort
    fun f f' => lower f.handle ≤ lower f'.handle).take listLimit

end SocialTables

/-! ## Who is asking, and whom -/

structure SocialEnv where
  parseUuid : String → Option Uuid
  /-- `latest_for_user`: the `sid`s of the latest snapshot. -/
  latestForUser : Uuid → Except Unit (Option (List String))
  /-- `list_orgs_for_user`; `none` without SpiceDB. -/
  listOrgsForUser : Option (String → Except Unit (List String))

/-- `caller`. -/
def socialCaller (env : SocialEnv) (auth : AuthenticatedUser) (users : List SocialUser) :
    Except Refusal SocialUser :=
  if auth.tokenType ≠ .user ∧ auth.tokenType ≠ .device then
    .error (refuse 401 "user_token_required" none)
  else
    match env.parseUuid auth.sub with
    | none => .error (refuse 401 "invalid_subject" none)
    | some id =>
      match users.find? (·.id = id) with
      | some u => .ok u
      | none => .error (refuse 401 "unknown_user" none)

/-- `target`. -/
def socialTarget (handle : String) (s : SocialTables) : Except Refusal SocialUser :=
  if !validateHandle (Text.trim handle) then .error (refuse 400 "invalid_handle" none)
  else
    match s.user? (Text.trim handle) with
    | some u => .ok u
    | none => .error (refuse 404 "user_not_found" none)

/-- `share_an_org`. -/
def shareAnOrg (env : SocialEnv) (a b : SocialUser) : Except Unit Bool :=
  let rsi : Bool :=
    match env.latestForUser a.id, env.latestForUser b.id with
    | .ok x, .ok y =>
      let sids (snap : Option (List String)) : List String := (snap.getD []).map lower
      (sids x).any (· ∈ sids y)
    | _, _ => false
  if rsi then .ok true
  else
    match env.listOrgsForUser with
    | none => .error ()
    | some list =>
      match list a.claimedHandle, list b.claimedHandle with
      | .ok x, .ok y => .ok (x.any (· ∈ y))
      | _, _ => .error ()

/-- Whether the policy of `them` refuses a request of `me`. -/
def policyRefusal (env : SocialEnv) (me them : SocialUser) :
    FriendRequestPolicy → Option Refusal
  | .nobody => some (refuse 403 "not_accepting_requests" none)
  | .orgMates =>
    match shareAnOrg env me them with
    | .ok true => none
    | .ok false => some (refuse 403 "not_accepting_requests" none)
    | .error () => some (refuse 503 "spicedb_unavailable" none)
  | .everyone => none

/-- `social_err`. -/
def socialErr : SocialError → Refusal
  | .notFound => refuse 404 "request_not_found" none
  | .notPending => refuse 409 "request_not_pending" none
  | .duplicatePending => refuse 409 "request_pending" none

/-! ## The handlers -/

/-- `REQUEST_RATE_LIMIT_WINDOW_HOURS`, in microseconds. -/
def requestRateLimitWindow : Int := 24 * 3600 * 1000000

/-- `REQUEST_RATE_LIMIT_PER_WINDOW`. -/
def requestRateLimitPerWindow : Nat := 30

inductive SendFriendRequestOutcome where
  | requested
  | becameFriends
  deriving DecidableEq

structure SendFriendRequestResponse where
  outcome : SendFriendRequestOutcome
  request : Option FriendRequest
  deriving DecidableEq

section
variable (env : SocialEnv) (auth : AuthenticatedUser) (now : Timestamp)

/-- `send_request`, where no request the other way is taken up. -/
def createFriendRequest (mine theirs : String) (id : Uuid) (s : SocialTables) :
    Except Refusal SendFriendRequestResponse × SocialTables :=
  match s.requests.create id mine theirs now with
  | .error e => (.error (socialErr e), s)
  | .ok (r, requests) => (.ok ⟨.requested, some r⟩, { s with requests := requests })

/-- `send_request`, from the checks on. -/
def sendBetween (me them : SocialUser) (id : Uuid) (s : SocialTables) :
    Except Refusal SendFriendRequestResponse × SocialTables :=
  let mine := me.claimedHandle
  let theirs := them.claimedHandle
  if areFriends mine theirs s.friendships then (.error (refuse 409 "already_friends" none), s)
  else if isBlocked mine theirs s.blocks then (.error (refuse 409 "you_blocked_user" none), s)
  else if requestRateLimitPerWindow ≤
      s.requests.countRecent mine (now - requestRateLimitWindow) then
    (.error (refuse 429 "rate_limited" none), s)
  else
    match policyRefusal env me them (s.getPolicy theirs) with
    | some r => (.error r, s)
    | none =>
      if isBlocked theirs mine s.blocks then createFriendRequest now mine theirs id s
      else
        match s.requests.findPending theirs mine with
        | none => createFriendRequest now mine theirs id s
        | some reverse =>
          match s.requests.resolve reverse.id .accepted now with
          | .error e => (.error (socialErr e), s)
          | .ok (_, requests) =>
            (.ok ⟨.becameFriends, none⟩,
              { s with
                requests := requests
                friendships := addFriendship mine theirs now s.friendships })

/-- `send_request`. -/
def sendRequest (handle : String) (id : Uuid) (s : SocialTables) :
    Except Refusal SendFriendRequestResponse × SocialTables :=
  match socialCaller env auth s.users with
  | .error r => (.error r, s)
  | .ok me =>
    match socialTarget handle s with
    | .error r => (.error r, s)
    | .ok them =>
      if them.id = me.id then (.error (refuse 400 "cannot_friend_self" none), s)
      else sendBetween env now me them id s

/-- `request_for`. -/
def requestFor (id : Uuid) (me : SocialUser) (asRecipient : Bool) (s : SocialTables) :
    Except Refusal FriendRequest :=
  match s.requests.get id with
  | none => .error (refuse 404 "request_not_found" none)
  | some r =>
    let side := if asRecipient then r.recipientHandle else r.requesterHandle
    if !Text.eqIgnoreAsciiCase side me.claimedHandle then
      .error (refuse 404 "request_not_found" none)
    else if asRecipient && isBlocked me.claimedHandle r.requesterHandle s.blocks then
      .error (refuse 404 "request_not_found" none)
    else .ok r

/-- `resolve_quietly`. -/
def resolveQuietly (id : Uuid) (asRecipient : Bool) («to» : FriendRequestStatus)
    (s : SocialTables) : Except Refusal FriendRequest × SocialTables :=
  match socialCaller env auth s.users with
  | .error r => (.error r, s)
  | .ok me =>
    match requestFor id me asRecipient s with
    | .error r => (.error r, s)
    | .ok r =>
      match s.requests.resolve r.id «to» now with
      | .error e => (.error (socialErr e), s)
      | .ok (r, requests) => (.ok r, { s with requests := requests })

/-- `decline_request`. -/
def declineRequest (id : Uuid) (s : SocialTables) : Except Refusal FriendRequest × SocialTables :=
  resolveQuietly env auth now id true .declined s

/-- `cancel_request`. -/
def cancelRequest (id : Uuid) (s : SocialTables) : Except Refusal FriendRequest × SocialTables :=
  resolveQuietly env auth now id false .cancelled s

/-- `accept_request`. -/
def acceptRequest (id : Uuid) (s : SocialTables) : Except Refusal FriendRequest × SocialTables :=
  match socialCaller env auth s.users with
  | .error r => (.error r, s)
  | .ok me =>
    match requestFor id me true s with
    | .error r => (.error r, s)
    | .ok r =>
      match s.requests.resolve r.id .accepted now with
      | .error e => (.error (socialErr e), s)
      | .ok (r, requests) =>
        (.ok r,
          { s with
            requests := requests
            friendships := addFriendship r.requesterHandle r.recipientHandle now s.friendships })

structure FriendsResponse where
  friends : List Friend
  incoming : List FriendRequest
  outgoing : List FriendRequest
  friendRequestPolicy : FriendRequestPolicy
  discoverable : Bool
  deriving DecidableEq

/-- `list_friends`. -/
def listFriends (s : SocialTables) : Except Refusal FriendsResponse :=
  match socialCaller env auth s.users with
  | .error r => .error r
  | .ok me =>
    let h := me.claimedHandle
    .ok ⟨s.listFriends h, s.listIncoming h, s.listOutgoing h, s.getPolicy h, s.getDiscoverable h⟩

end

/-! ## The calls of a sender -/

inductive SenderCall where
  /-- `send_request`, with the key that the request gets. -/
  | send (handle : String) (id : Uuid)
  | cancel (id : Uuid)
  | list

inductive SenderAnswer where
  | sent (answer : Except Refusal SendFriendRequestResponse)
  | cancelled (answer : Except Refusal FriendRequest)
  | listed (answer : Except Refusal FriendsResponse)
  deriving DecidableEq

def SenderCall.run (env : SocialEnv) (auth : AuthenticatedUser) (now : Timestamp)
    (s : SocialTables) : SenderCall → SenderAnswer × SocialTables
  | .send handle id =>
    let r := sendRequest env auth now handle id s
    (.sent r.1, r.2)
  | .cancel id =>
    let r := cancelRequest env auth now id s
    (.cancelled r.1, r.2)
  | .list => (.listed (listFriends env auth s), s)

/-- The answers to a sequence of calls, each with its time, and the tables after it. -/
def senderRun (env : SocialEnv) (auth : AuthenticatedUser) :
    List (Timestamp × SenderCall) → SocialTables → List SenderAnswer × SocialTables
  | [], s => ([], s)
  | (now, call) :: calls, s =>
    let r := call.run env auth now s
    let rest := senderRun env auth calls r.2
    (r.1 :: rest.1, rest.2)

/-! ## The calls of a recipient -/

inductive RecipientCall where
  | accept (id : Uuid)
  | decline (id : Uuid)
  | list

inductive RecipientAnswer where
  | answered (answer : Except Refusal FriendRequest)
  | listed (answer : Except Refusal FriendsResponse)
  deriving DecidableEq

def RecipientCall.run (env : SocialEnv) (auth : AuthenticatedUser) (now : Timestamp)
    (s : SocialTables) : RecipientCall → RecipientAnswer × SocialTables
  | .accept id =>
    let r := acceptRequest env auth now id s
    (.answered r.1, r.2)
  | .decline id =>
    let r := declineRequest env auth now id s
    (.answered r.1, r.2)
  | .list => (.listed (listFriends env auth s), s)

/-- The answers to a recipient, where a sender's calls come between. -/
def recipientRun (env : SocialEnv) (sender recipient : AuthenticatedUser) :
    List (Timestamp × (SenderCall ⊕ RecipientCall)) → SocialTables → List RecipientAnswer
  | [], _ => []
  | (now, .inl call) :: calls, s =>
    recipientRun env sender recipient calls (call.run env sender now s).2
  | (now, .inr call) :: calls, s =>
    let r := call.run env recipient now s
    r.1 :: recipientRun env sender recipient calls r.2

end StarStats
