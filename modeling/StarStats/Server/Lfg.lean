import Mathlib.Data.List.Sort
import StarStats.Lib.Keyed
import StarStats.Lib.Text
import StarStats.Server.Auth

/-!
# Looking for group (`starstats-server/src/lfg.rs`, `lfg_routes.rs`, `commends.rs`)

The tables `lfg_posts`, `lfg_members` and `crew_history` with their statements, and the handlers
`create_post`, `join`, `leave` and `respond` over them, each run by itself. A member is found by
the post and the handle without regard to ASCII case. The texts of a post (system, location, ship,
voice, region, note) are left out, and so are notifications, the audit log, the chat room and
`crew_commends`. The store calls succeed; whether a block hides a post is an argument.
-/

namespace StarStats

open Text (lower)

inductive LfgActivity where
  | bountyHunting
  | mercenary
  | fps
  | mining
  | salvage
  | hauling
  | exploration
  | racing
  | medical
  | piracy
  | social
  | other
  deriving DecidableEq

inductive MemberStatus where
  | requested
  | accepted
  | declined
  | left
  | removed
  deriving DecidableEq

structure LfgPost where
  id : Uuid
  hostHandle : String
  activity : LfgActivity
  crewSlots : Nat
  createdAt : Timestamp
  expiresAt : Timestamp
  closedAt : Option Timestamp
  removedAt : Option Timestamp
  deriving DecidableEq

/-- `is_open`. -/
def LfgPost.isOpen (p : LfgPost) (now : Timestamp) : Bool :=
  p.closedAt.isNone && p.removedAt.isNone && decide (now < p.expiresAt)

structure LfgMember where
  postId : Uuid
  handle : String
  status : MemberStatus
  createdAt : Timestamp
  respondedAt : Option Timestamp
  deriving DecidableEq

/-- `lfg_members_pair_uq`. -/
def LfgMember.key (m : LfgMember) : Uuid × String := (m.postId, lower m.handle)

abbrev LfgPosts := Keyed LfgPost.id

abbrev LfgMembers := Keyed LfgMember.key

/-! ## `lfg_posts` -/

/-- `CREW_MIN`, `CREW_MAX`, `EXPIRY_MIN_MINUTES` and `EXPIRY_MAX_MINUTES` hold of what the host
asks for. -/
structure NewLfgPost where
  hostHandle : String
  activity : LfgActivity
  crewSlots : Nat
  minutes : Nat
  slots_valid : 1 ≤ crewSlots ∧ crewSlots ≤ 30
  minutes_valid : 15 ≤ minutes ∧ minutes ≤ 360
  deriving DecidableEq

/-- `Duration::minutes`, in microseconds. -/
def NewLfgPost.duration (p : NewLfgPost) : Int := p.minutes * 60 * 1000000

/-- `open_post_for_host`. -/
def openPostForHost (host : String) (now : Timestamp) (posts : LfgPosts) : Option LfgPost :=
  ((posts.rows.filter fun p => lower p.hostHandle == lower host && p.isOpen now).insertionSort
    fun p q => q.createdAt ≤ p.createdAt).head?

/-- `day`. -/
def lfgDay : Int := 24 * 3600 * 1000000

/-- `POSTS_PER_DAY`. -/
def postsPerDay : Nat := 8

/-- `count_posts_since`. -/
def countPostsSince (host : String) (since : Timestamp) (posts : LfgPosts) : Nat :=
  posts.rows.countP fun p => lower p.hostHandle == lower host && decide (since < p.createdAt)

/-- The row that `create_post` inserts; `now` is the handler's, `createdAt` the database's. -/
def NewLfgPost.row (p : NewLfgPost) (id : Uuid) (now createdAt : Timestamp) : LfgPost :=
  ⟨id, p.hostHandle, p.activity, p.crewSlots, createdAt, now + p.duration, none, none⟩

/-- The row of a post that is closed, unless it has ended already. -/
def LfgPost.closed (now : Timestamp) (p : LfgPost) : LfgPost :=
  if p.closedAt.isNone && p.removedAt.isNone then { p with closedAt := some now } else p

theorem LfgPost.id_closed (now : Timestamp) (p : LfgPost) : (p.closed now).id = p.id := by
  unfold closed
  split <;> rfl

/-- `close_post` of the store. -/
def closePost (id : Uuid) (now : Timestamp) (posts : LfgPosts) : LfgPosts :=
  posts.modify id (LfgPost.closed now) (LfgPost.id_closed now)

/-! ## `lfg_members` -/

/-- `crew_count` of a post. -/
def crewCount (post : Uuid) (members : LfgMembers) : Nat :=
  members.rows.countP fun m => m.postId = post && m.status = .accepted

/-- `member`. -/
def lfgMember (post : Uuid) (handle : String) (members : LfgMembers) : Option LfgMember :=
  members.get (post, lower handle)

/-- `members`. -/
def lfgMembers (post : Uuid) (members : LfgMembers) : List LfgMember :=
  (members.rows.filter (·.postId = post)).insertionSort fun m m' => m.createdAt ≤ m'.createdAt

namespace LfgMember

/-- The row with an answer. -/
def answered (status : MemberStatus) (now : Timestamp) (m : LfgMember) : LfgMember :=
  { m with status := status, respondedAt := some now }

/-- The row of a player who asks again. -/
def renewed (now : Timestamp) (m : LfgMember) : LfgMember :=
  { m with status := .requested, createdAt := now, respondedAt := none }

@[simp] theorem key_answered (status : MemberStatus) (now : Timestamp) (m : LfgMember) :
    (m.answered status now).key = m.key := rfl

@[simp] theorem key_renewed (now : Timestamp) (m : LfgMember) : (m.renewed now).key = m.key := rfl

end LfgMember

/-- `set_member_status`. -/
def setMemberStatus (post : Uuid) (handle : String) (status : MemberStatus) (now : Timestamp)
    (members : LfgMembers) : Option LfgMember × LfgMembers :=
  let members' := members.modify (post, lower handle) (LfgMember.answered status now)
    (LfgMember.key_answered status now)
  (members'.get (post, lower handle), members')

inductive LfgError where
  | alreadyMember
  | removed
  deriving DecidableEq

/-- `request_join`, its check. -/
def joinError : Option LfgMember → Option LfgError
  | none => none
  | some m =>
    match m.status with
    | .removed => some .removed
    | .requested | .accepted => some .alreadyMember
    | .declined | .left => none

/-- `request_join`, its `INSERT … ON CONFLICT`. -/
def upsertRequest (post : Uuid) (handle : String) (now : Timestamp) (members : LfgMembers) :
    Option LfgMember × LfgMembers :=
  match h : members.get (post, lower handle) with
  | none =>
    let m : LfgMember := ⟨post, handle, .requested, now, none⟩
    (some m, members.insert m h)
  | some m =>
    if m.status = .left ∨ m.status = .declined then
      let members' := members.modify (post, lower handle) (LfgMember.renewed now)
        (LfgMember.key_renewed now)
      (members'.get (post, lower handle), members')
    else (none, members)

/-- `store_err`. -/
def lfgErr : LfgError → Refusal
  | .alreadyMember => refuse 409 "already_asked" none
  | .removed => refuse 403 "removed_from_group" none

/-! ## `crew_history` -/

structure CrewRow where
  postId : Uuid
  handle : String
  otherHandle : String
  activity : LfgActivity
  flewAt : Timestamp
  deriving DecidableEq

/-- `crew_history_pair_uq`. -/
def CrewRow.key (r : CrewRow) : Uuid × String × String :=
  (r.postId, lower r.handle, lower r.otherHandle)

abbrev CrewHistory := Keyed CrewRow.key

/-- `record_crew`. -/
def recordCrew (post : Uuid) (activity : LfgActivity) (a b : String) (now : Timestamp)
    (history : CrewHistory) : CrewHistory :=
  (history.insertNew ⟨post, a, b, activity, now⟩).insertNew ⟨post, b, a, activity, now⟩

/-- `forget_crew`. -/
def forgetCrew (post : Uuid) (handle : String) (history : CrewHistory) : CrewHistory :=
  history.filter fun r => !(r.postId = post &&
    (lower r.handle == lower handle || lower r.otherHandle == lower handle))

/-- `flew_together`. -/
def flewTogether (post : Uuid) (a b : String) (history : CrewHistory) : Bool :=
  (history.get (post, lower a, lower b)).isSome

/-- `record_crew_change`. -/
def recordCrewChange (post : LfgPost) (before : MemberStatus) (after : LfgMember) (now : Timestamp)
    (members : LfgMembers) (history : CrewHistory) : CrewHistory :=
  match after.status with
  | .accepted =>
    let others := post.hostHandle :: (((lfgMembers post.id members).filter
      fun m => m.status = .accepted || m.status = .left).filter
      fun m => !Text.eqIgnoreAsciiCase m.handle after.handle).map (·.handle)
    others.foldl
      (fun history other => recordCrew post.id post.activity after.handle other now history) history
  | .removed => if before = .accepted then forgetCrew post.id after.handle history else history
  | _ => history

/-! ## The handlers -/

structure LfgTables where
  posts : LfgPosts
  members : LfgMembers
  history : CrewHistory
  deriving DecidableEq

def lfgNotFound : Refusal := refuse 404 "not_found" none

/-- `create_post`, from the checks of the store on. -/
def createPost (new : NewLfgPost) (id : Uuid) (now : Timestamp) (t : LfgTables) :
    Except Refusal LfgPost × LfgTables :=
  if (openPostForHost new.hostHandle now t.posts).isSome then
    (.error (refuse 409 "already_posting" none), t)
  else if postsPerDay ≤ countPostsSince new.hostHandle (now - lfgDay) t.posts then
    (.error (refuse 429 "rate_limited" none), t)
  else
    (.ok (new.row id now now), { t with posts := t.posts.insertNew (new.row id now now) })

/-- `visible_post`, its check of the post, and what `join` asks of it. -/
def joinRefusal (me : String) (blocked : Bool) (now : Timestamp) (crew : Nat)
    (post : Option LfgPost) : Option Refusal :=
  match post with
  | none => some lfgNotFound
  | some p =>
    if p.removedAt.isSome then some lfgNotFound
    else if blocked then some lfgNotFound
    else if !p.isOpen now then some lfgNotFound
    else if Text.eqIgnoreAsciiCase p.hostHandle me then some (refuse 400 "own_post" none)
    else if p.crewSlots ≤ crew then some (refuse 409 "group_full" none)
    else none

/-- `join`. -/
def joinPost (verified blocked : Bool) (me : String) (id : Uuid) (now : Timestamp)
    (t : LfgTables) : Except Refusal LfgMember × LfgTables :=
  if !verified then (.error (refuse 403 "rsi_handle_not_verified" none), t)
  else
    match joinRefusal me blocked now (crewCount id t.members) (t.posts.get id) with
    | some r => (.error r, t)
    | none =>
      match joinError (lfgMember id me t.members) with
      | some e => (.error (lfgErr e), t)
      | none =>
        match upsertRequest id me now t.members with
        | (some m, members) => (.ok m, { t with members := members })
        | (none, members) => (.error (lfgErr .alreadyMember), { t with members := members })

/-- Whether there is something to leave. -/
def canLeave : Option LfgMember → Bool
  | some m => m.status = .requested || m.status = .accepted
  | none => false

/-- `leave`. -/
def leavePost (me : String) (id : Uuid) (now : Timestamp) (t : LfgTables) :
    Except Refusal Unit × LfgTables :=
  if !canLeave (lfgMember id me t.members) then (.error lfgNotFound, t)
  else (.ok (), { t with members := (setMemberStatus id me .left now t.members).2 })

/-- The status that an action asks for. -/
def respondStatus (action : String) : Option MemberStatus :=
  if action = "accept" then some .accepted
  else if action = "decline" then some .declined
  else if action = "remove" then some .removed
  else none

/-- What `respond` asks before it accepts. -/
def acceptRefusal (post : LfgPost) (crew : Nat) (current : LfgMember) (now : Timestamp) :
    Option Refusal :=
  if !post.isOpen now then some (refuse 409 "post_ended" none)
  else if current.status ≠ .requested then some (refuse 409 "not_requested" none)
  else if post.crewSlots ≤ crew then some (refuse 409 "group_full" none)
  else none

/-- `respond`, up to its write: the new status, the post and the member. -/
def respondCheck (me : String) (id : Uuid) (handle action : String) (now : Timestamp)
    (t : LfgTables) : Except Refusal (MemberStatus × LfgPost × LfgMember) :=
  match respondStatus action with
  | none => .error (refuse 400 "invalid_action" none)
  | some status =>
    match t.posts.get id with
    | none => .error lfgNotFound
    | some post =>
      if !Text.eqIgnoreAsciiCase post.hostHandle me then .error lfgNotFound
      else
        match lfgMember id handle t.members with
        | none => .error lfgNotFound
        | some current =>
          match (if status = .accepted then
              acceptRefusal post (crewCount id t.members) current now else none) with
          | some r => .error r
          | none => .ok (status, post, current)

/-- `respond`, by the host `me`. -/
def respond (me : String) (id : Uuid) (handle action : String) (now : Timestamp) (t : LfgTables) :
    Except Refusal LfgMember × LfgTables :=
  match respondCheck me id handle action now t with
  | .error r => (.error r, t)
  | .ok (status, post, current) =>
    match setMemberStatus id current.handle status now t.members with
    | (none, members) => (.error lfgNotFound, { t with members := members })
    | (some updated, members) =>
      (.ok updated,
        { t with
          members := members
          history := recordCrewChange post current.status updated now members t.history })

end StarStats
