import StarStats.Lib.Calls
import StarStats.Lib.Trans
import StarStats.Server.Lfg

/-!
# Calls on the board that overlap (`starstats-server/src/lfg_routes.rs`)

`create_post`, `join`, `leave` and `respond`, store call by store call, in any number and any
order, with a clock that does not go back. Two things are kept beside the tables: the players that
the host has removed from a post and has not accepted or declined since (`banned`), and the calls
that the write of another has come between, after their check (`overtaken`). A new post gets a key
that nothing refers to. What `respond` does after its write is left out.
-/

namespace StarStats

open Text (lower)

namespace LfgRaces

/-! ## The store calls of a handler -/

inductive CreatePhase where
  | openPost
  | countPosts
  | insert
  | done (answer : Except Refusal LfgPost)
  deriving DecidableEq

/-- `create_post`; `now` is when the call began. -/
def createStep (new : NewLfgPost) (now clock : Timestamp) (id : Uuid) :
    CreatePhase × LfgPosts → CreatePhase × LfgPosts
  | (.openPost, posts) =>
    if (openPostForHost new.hostHandle now posts).isSome then
      (.done (.error (refuse 409 "already_posting" none)), posts)
    else (.countPosts, posts)
  | (.countPosts, posts) =>
    if postsPerDay ≤ countPostsSince new.hostHandle (now - lfgDay) posts then
      (.done (.error (refuse 429 "rate_limited" none)), posts)
    else (.insert, posts)
  | (.insert, posts) =>
    (.done (.ok (new.row id now clock)), posts.insertNew (new.row id now clock))
  | (.done answer, posts) => (.done answer, posts)

inductive JoinPhase where
  | getPost
  /-- The post as it was read, with its `crew_count`. -/
  | visible (post : Option LfgPost) (crew : Nat)
  | member
  | upsert
  | done (answer : Except Refusal LfgMember)
  deriving DecidableEq

/-- `join`, by a verified player. -/
def joinStep (me : String) (post : Uuid) (blocked : Bool) (clock : Timestamp) (posts : LfgPosts) :
    JoinPhase × LfgMembers → JoinPhase × LfgMembers
  | (.getPost, members) => (.visible (posts.get post) (crewCount post members), members)
  | (.visible p crew, members) =>
    match joinRefusal me blocked clock crew p with
    | some r => (.done (.error r), members)
    | none => (.member, members)
  | (.member, members) =>
    match joinError (lfgMember post me members) with
    | some e => (.done (.error (lfgErr e)), members)
    | none => (.upsert, members)
  | (.upsert, members) =>
    match upsertRequest post me clock members with
    | (some m, members') => (.done (.ok m), members')
    | (none, members') => (.done (.error (lfgErr .alreadyMember)), members')
  | (.done answer, members) => (.done answer, members)

inductive LeavePhase where
  | member
  | write
  | done (answer : Except Refusal Unit)
  deriving DecidableEq

/-- `leave`. -/
def leaveStep (me : String) (post : Uuid) (clock : Timestamp) :
    LeavePhase × LfgMembers → LeavePhase × LfgMembers
  | (.member, members) =>
    if !canLeave (lfgMember post me members) then (.done (.error lfgNotFound), members)
    else (.write, members)
  | (.write, members) => (.done (.ok ()), (setMemberStatus post me .left clock members).2)
  | (.done answer, members) => (.done answer, members)

inductive RespondPhase where
  | getPost
  | member (post : LfgPost) (crew : Nat)
  | write (current : LfgMember)
  | done (answer : Except Refusal LfgMember)
  deriving DecidableEq

/-- `respond`, up to and with its write. -/
def respondStep (me : String) (post : Uuid) (handle : String) (status : MemberStatus)
    (clock : Timestamp) (posts : LfgPosts) :
    RespondPhase × LfgMembers → RespondPhase × LfgMembers
  | (.getPost, members) =>
    match posts.get post with
    | none => (.done (.error lfgNotFound), members)
    | some p =>
      if !Text.eqIgnoreAsciiCase p.hostHandle me then (.done (.error lfgNotFound), members)
      else (.member p (crewCount post members), members)
  | (.member p crew, members) =>
    match lfgMember post handle members with
    | none => (.done (.error lfgNotFound), members)
    | some current =>
      match (if status = .accepted then acceptRefusal p crew current clock else none) with
      | some r => (.done (.error r), members)
      | none => (.write current, members)
  | (.write current, members) =>
    match setMemberStatus post current.handle status clock members with
    | (none, members') => (.done (.error lfgNotFound), members')
    | (some updated, members') => (.done (.ok updated), members')
  | (.done answer, members) => (.done answer, members)

/-! ## The system -/

inductive Call where
  | create (new : NewLfgPost) (now : Timestamp) (phase : CreatePhase)
  | join (me : String) (post : Uuid) (phase : JoinPhase)
  | leave (me : String) (post : Uuid) (phase : LeavePhase)
  | respond (me : String) (post : Uuid) (handle : String) (status : MemberStatus)
    (phase : RespondPhase)
  deriving DecidableEq

def Call.finished : Call → Bool
  | .create _ _ (.done _) | .join _ _ (.done _) | .leave _ _ (.done _)
  | .respond _ _ _ _ (.done _) => true
  | _ => false

/-- The next store call is a write that relies on an earlier check. -/
def Call.atWrite : Call → Bool
  | .create _ _ .insert | .leave _ _ .write | .respond _ _ _ _ (.write _) => true
  | _ => false

structure State where
  clock : Timestamp
  posts : LfgPosts
  members : LfgMembers
  calls : List Call
  banned : List (Uuid × String)
  overtaken : List Nat
  deriving DecidableEq

def State.start : State := ⟨0, .empty, .empty, [], [], []⟩

inductive Action where
  | tick (now : Timestamp)
  | create (new : NewLfgPost)
  | join (me : String) (post : Uuid)
  | leave (me : String) (post : Uuid)
  | respond (me : String) (post : Uuid) (handle action : String)
  /-- The write of `close_post`. -/
  | close (post : Uuid)
  /-- The next store call of a call: the key that a new post gets, and what the social store says
  of a block. -/
  | next (call : Nat) (id : Uuid) (blocked : Bool)
  deriving DecidableEq

/-- Nothing refers to the key. -/
def State.fresh (s : State) (id : Uuid) : Bool :=
  (s.posts.get id).isNone && s.members.rows.all (·.postId ≠ id)

/-- `banned` after an answer of the host. -/
def bannedAfter (phase : RespondPhase) (banned : List (Uuid × String)) : List (Uuid × String) :=
  match phase with
  | .done (.ok m) => if m.status = .removed then m.key :: banned else banned.filter (· ≠ m.key)
  | _ => banned

/-- The host has been found without an open post. -/
def CreatePhase.checked : CreatePhase → Bool
  | .countPosts | .insert => true
  | _ => false

/-- The crew has been counted. -/
def RespondPhase.counted : RespondPhase → Bool
  | .member .. | .write _ => true
  | _ => false

/-- The crew of the post is complete. -/
def State.full (s : State) (post : Uuid) : Bool :=
  (s.posts.get post).any fun p => decide (p.crewSlots ≤ crewCount post s.members)

/-- The write of the first call, which leads to `s`, comes after the check of the second and undoes
it: a post of the same host, the removal of the player that leaves, the accept that completes the
crew. -/
def Call.overtakes (s : State) : Call → Call → Bool
  | .create new _ .insert, .create new' _ phase =>
    lower new.hostHandle == lower new'.hostHandle && phase.checked
  | .respond _ post _ .removed (.write current), .leave me post' .write =>
    (post, lower current.handle) == (post', lower me)
  | .respond _ post _ .accepted (.write _), .respond _ post' _ .accepted phase =>
    post == post' && phase.counted && s.full post
  | _, _ => false

/-- The calls other than `i` that the store call of `c` overtakes. -/
def State.overtakenBy (s : State) (i : Nat) (c : Call) : List Nat :=
  (List.range s.calls.length).filter fun j => j ≠ i && (s.calls[j]?).any (c.overtakes s)

/-- The next store call of `c`, which is the call at `i`. -/
def callStep (s : State) (i : Nat) (id : Uuid) (blocked : Bool) : Call → State
  | .create new now phase =>
    let r := createStep new now s.clock id (phase, s.posts)
    { s with posts := r.2, calls := s.calls.set i (.create new now r.1) }
  | .join me post phase =>
    let r := joinStep me post blocked s.clock s.posts (phase, s.members)
    { s with members := r.2, calls := s.calls.set i (.join me post r.1) }
  | .leave me post phase =>
    let r := leaveStep me post s.clock (phase, s.members)
    { s with members := r.2, calls := s.calls.set i (.leave me post r.1) }
  | .respond me post handle status phase =>
    let r := respondStep me post handle status s.clock s.posts (phase, s.members)
    { s with
      members := r.2
      calls := s.calls.set i (.respond me post handle status r.1)
      banned := bannedAfter r.1 s.banned }

def step (s : State) : Action → Option State
  | .tick now => if s.clock ≤ now then some { s with clock := now } else none
  | .create new => some { s with calls := s.calls ++ [.create new s.clock .openPost] }
  | .join me post => some { s with calls := s.calls ++ [.join me post .getPost] }
  | .leave me post => some { s with calls := s.calls ++ [.leave me post .member] }
  | .respond me post handle action =>
    match respondStatus action with
    | none => none
    | some status => some { s with calls := s.calls ++ [.respond me post handle status .getPost] }
  | .close post => some { s with posts := closePost post s.clock s.posts }
  | .next i id blocked =>
    match s.calls[i]? with
    | none => none
    | some c =>
      if c.finished || !s.fresh id then none
      else
        let s' := callStep s i id blocked c
        some { s' with overtaken := s.overtaken ++ s'.overtakenBy i c }

/-! ## The rules -/

/-- The rules of the board. -/
structure Kept (s : State) : Prop where
  slots : ∀ p ∈ s.posts.rows, crewCount p.id s.members ≤ p.crewSlots
  removed : ∀ k ∈ s.banned, ∀ m, s.members.get k = some m →
    m.status ≠ .requested ∧ m.status ≠ .accepted
  one : ∀ p ∈ s.posts.rows, ∀ q ∈ s.posts.rows, lower p.hostHandle = lower q.hostHandle →
    p.isOpen s.clock = true → q.isOpen s.clock = true → p = q

/-- A call comes to its write before the write of another has undone what it checked. -/
def InTurn (s : State) : Action → Prop
  | .next i _ _ => (s.calls[i]?).any Call.atWrite = true → i ∉ s.overtaken
  | _ => True

instance : DecidableRel InTurn := fun s act =>
  match act with
  | .next i _ _ =>
    inferInstanceAs (Decidable ((s.calls[i]?).any Call.atWrite = true → i ∉ s.overtaken))
  | .tick _ | .create _ | .join .. | .leave .. | .respond .. | .close _ => .isTrue trivial

end LfgRaces

end StarStats
