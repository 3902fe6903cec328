import StarStats.Lib.Trans
import StarStats.Server.Lfg

/-!
# Who flew together (`starstats-server/src/lfg_routes.rs`, `commends.rs`)

Calls of `join`, `leave` and `respond` on any posts, one after the other. `flown` is kept beside
the tables: the players that were accepted on a post and have not been removed by its host since.
-/

namespace StarStats

open Text (lower)

namespace CrewHistory

inductive Call where
  | join (verified blocked : Bool) (me : String) (post : Uuid) (now : Timestamp)
  | leave (me : String) (post : Uuid) (now : Timestamp)
  | respond (me : String) (post : Uuid) (handle action : String) (now : Timestamp)
  deriving DecidableEq

structure State where
  tables : LfgTables
  flown : List (Uuid × String)
  deriving DecidableEq

/-- Posts that nobody has asked to join. -/
def State.start (posts : LfgPosts) : State := ⟨⟨posts, .empty, .empty⟩, []⟩

/-- `flown` after an answer of the host. -/
def flownAfter (answer : Except Refusal LfgMember) (flown : List (Uuid × String)) :
    List (Uuid × String) :=
  match answer with
  | .ok m =>
    if m.status = .accepted then m.key :: flown
    else if m.status = .removed then flown.filter (· ≠ m.key)
    else flown
  | .error _ => flown

def step (s : State) : Call → Option State
  | .join verified blocked me post now =>
    some { s with tables := (joinPost verified blocked me post now s.tables).2 }
  | .leave me post now => some { s with tables := (leavePost me post now s.tables).2 }
  | .respond me post handle action now =>
    let r := StarStats.respond me post handle action now s.tables
    some ⟨r.2, flownAfter r.1 s.flown⟩

/-- The player is the host, or was accepted and has not been removed since. -/
def State.InCrew (s : State) (p : LfgPost) (handle : String) : Prop :=
  lower handle = lower p.hostHandle ∨ (p.id, lower handle) ∈ s.flown

/-- The player is the host, or a member whose request stands accepted. -/
def State.Aboard (s : State) (p : LfgPost) (handle : String) : Prop :=
  lower handle = lower p.hostHandle ∨
    ∃ m, lfgMember p.id handle s.tables.members = some m ∧ m.status = .accepted

/-- The history of every post is who flew together on it. -/
structure Exact (s : State) : Prop where
  only : ∀ p ∈ s.tables.posts.rows, ∀ a b, flewTogether p.id a b s.tables.history = true →
    s.InCrew p a ∧ s.InCrew p b
  all : ∀ p ∈ s.tables.posts.rows, ∀ a b, lower a ≠ lower b → s.Aboard p a → s.Aboard p b →
    flewTogether p.id a b s.tables.history = true

/-- When the host accepts someone, every other member that has left was accepted before; when the
host removes someone that was accepted, they are still accepted. -/
def Plain (s : State) : Call → Prop
  | .respond me post handle action now => ∀ p m,
    (respondCheck me post handle action now s.tables = .ok (.accepted, p, m) →
      ∀ m' ∈ s.tables.members.rows, m'.postId = post → m'.status = .left →
        lower m'.handle ≠ lower m.handle → m'.key ∈ s.flown) ∧
    (respondCheck me post handle action now s.tables = .ok (.removed, p, m) →
      m.status ≠ .accepted → m.key ∉ s.flown)
  | _ => True

end CrewHistory

end StarStats
