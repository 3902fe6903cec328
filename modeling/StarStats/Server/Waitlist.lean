import StarStats.Lib.Calls
import StarStats.Lib.Keyed
import StarStats.Lib.Trans
import StarStats.Server.Auth

/-!
# The waitlist (`starstats-server/src/waitlist.rs`)

`signup` as a transaction, statement by statement under `READ COMMITTED`: it takes the advisory
lock, and what it inserts is seen by others when it commits. `admit_batch` is a statement for each
id and `delete_batch` one statement, both without the lock. The cap is fixed. `NOW()` is the start
of the transaction. The emails are normalised. A signup may fail at any point and is then undone.

Beside the tables stand `admissions`, for each automatic admission the number of the other rows
admitted when it committed, and `reports`, the positions that were reported.
-/

namespace StarStats

namespace Waitlist

structure Row where
  id : Uuid
  email : String
  source : Option String
  createdAt : Timestamp
  admittedAt : Option Timestamp
  inviteToken : Option String
  inviteConsumedAt : Option Timestamp
  deriving DecidableEq

def Row.isAdmitted (r : Row) : Bool := r.admittedAt.isSome

def Row.isQueued (r : Row) : Bool := r.admittedAt.isNone

/-- `waitlist_signups`. -/
structure Table where
  signups : Keyed Row.id
  emails : (signups.rows.map (·.email)).Nodup
  deriving DecidableEq

namespace Table

def rows (t : Table) : List Row := t.signups.rows

def find (t : Table) (email : String) : Option Row := t.rows.find? (·.email = email)

def admitted (t : Table) : Nat := t.rows.countP (·.isAdmitted)

def queued (t : Table) : Nat := t.rows.countP (·.isQueued)

/-- A row with a new id and email; the database refuses any other. -/
def insert (t : Table) (r : Row) : Table :=
  if h : t.signups.get r.id = none ∧ r.email ∉ t.rows.map (·.email) then
    ⟨t.signups.insert r h.1, by
      rw [Keyed.insert, List.map_append, List.map_singleton]
      exact t.emails.append (List.nodup_singleton _) (List.disjoint_singleton.2 h.2)⟩
  else t

/-- The row of an invite, unless it is admitted already. -/
def invited (token : String) (now : Timestamp) (r : Row) : Row :=
  if r.isAdmitted then r else { r with admittedAt := some now, inviteToken := some token }

theorem id_invited (token : String) (now : Timestamp) (r : Row) :
    (invited token now r).id = r.id := by
  unfold invited
  split <;> rfl

theorem email_invited (token : String) (now : Timestamp) (r : Row) :
    (invited token now r).email = r.email := by
  unfold invited
  split <;> rfl

/-- The `UPDATE` of `admit_batch` for one id. -/
def admitId (t : Table) (id : Uuid) (token : String) (now : Timestamp) : Table where
  signups := t.signups.modify id (invited token now) (id_invited token now)
  emails := by
    rw [Keyed.modify, List.map_map]
    refine cast (congrArg List.Nodup (List.map_congr_left fun r _ => ?_)) t.emails
    simp only [Function.comp]
    split
    · exact (email_invited token now r).symm
    · rfl

/-- `delete_batch`. -/
def deleteBatch (t : Table) (ids : List Uuid) : Table where
  signups := t.signups.filter fun r => !(r.id ∈ ids && r.inviteConsumedAt.isNone)
  emails := t.emails.sublist (List.filter_sublist.map _)

end Table

/-- `position_of`, over the rows that the transaction sees. -/
def positionOf (id : Uuid) (rows : List Row) : Nat :=
  match rows.find? (·.id = id) with
  | some r => rows.countP (fun q => q.isQueued && decide (q.createdAt < r.createdAt)) + 1
  | none => 1

inductive SignupOutcome where
  | admitted (inviteToken : String)
  | queued (position : Nat)
  | alreadyAdmitted
  | alreadyQueued (position : Nat)
  deriving DecidableEq

/-! ## The transaction of a signup -/

/-- The statement that comes next. -/
inductive Phase where
  | lock
  | lookup
  | locate (id : Uuid)
  | readCap
  | count (cap : Int)
  | insert (cap : Int) (admitted : Nat)
  /-- The row is inserted, its position is read next. -/
  | position (new : Row)
  | commit (new : Option Row) (outcome : SignupOutcome)
  | committed (outcome : SignupOutcome)
  | failed
  deriving DecidableEq

structure Call where
  email : String
  source : Option String
  startedAt : Timestamp
  phase : Phase
  deriving DecidableEq

namespace Phase

/-- The transaction has the lock. -/
def holding : Phase → Bool
  | .lock | .committed _ | .failed => false
  | _ => true

def ended : Phase → Bool
  | .committed _ | .failed => true
  | _ => false

end Phase

/-- The row that a signup inserts. -/
def Call.row (c : Call) (id : Uuid) (token : Option String) : Row :=
  ⟨id, c.email, c.source, c.startedAt, if token.isSome then some c.startedAt else none, token, none⟩

/-- A statement of `signup` after the lock, with the id and the token that it draws. -/
def signupStep (cap : Int) (t : Table) (c : Call) (id : Uuid) (token : String) : Phase → Phase
  | .lookup =>
    match t.find c.email with
    | some r =>
      if r.admittedAt.isSome then .commit none .alreadyAdmitted else .locate r.id
    | none => .readCap
  | .locate rowId => .commit none (.alreadyQueued (positionOf rowId t.rows))
  | .readCap => .count cap
  | .count cap => .insert cap t.admitted
  | .insert cap admitted =>
    if (admitted : Int) < cap then
      .commit (some (c.row id (some token))) (.admitted token)
    else .position (c.row id none)
  | .position new => .commit (some new) (.queued (positionOf new.id (t.rows ++ [new])))
  | phase => phase

structure Report where
  email : String
  position : Nat
  /-- For a new row, the rows that were queued before it. -/
  queuedBefore : Option Nat
  deriving DecidableEq

structure State where
  cap : Int
  table : Table
  /-- The call that has the advisory lock. -/
  lock : Option Nat
  calls : List Call
  admissions : List Nat
  reports : List Report
  deriving DecidableEq

def State.start (cap : Int) (table : Table) : State := ⟨cap, table, none, [], [], []⟩

/-- What a committed signup leaves. -/
def State.commit (s : State) (i : Nat) (c : Call) (new : Option Row) (outcome : SignupOutcome) :
    State :=
  { s with
    table := match new with
      | some r => s.table.insert r
      | none => s.table
    lock := none
    calls := s.calls.set i { c with phase := .committed outcome }
    admissions := match outcome with
      | .admitted _ => s.table.admitted :: s.admissions
      | _ => s.admissions
    reports := match outcome with
      | .queued position => s.reports ++ [⟨c.email, position, some s.table.queued⟩]
      | .alreadyQueued position => s.reports ++ [⟨c.email, position, none⟩]
      | _ => s.reports }

inductive Action where
  | signup (email : String) (source : Option String) (now : Timestamp)
  /-- The next statement of a signup. -/
  | next (call : Nat) (id : Uuid) (token : String)
  | fail (call : Nat)
  | admitId (id : Uuid) (token : String) (now : Timestamp)
  | deleteBatch (ids : List Uuid)
  deriving DecidableEq

def step (s : State) : Action → Option State
  | .signup email source now => some { s with calls := s.calls ++ [⟨email, source, now, .lock⟩] }
  | .next i id token =>
    match s.calls[i]? with
    | none => none
    | some c =>
      match c.phase with
      | .lock =>
        if s.lock = none then
          some { s with lock := some i, calls := s.calls.set i { c with phase := .lookup } }
        else none
      | .commit new outcome => some (s.commit i c new outcome)
      | .committed _ | .failed => none
      | phase =>
        if s.table.signups.get id = none then
          some { s with
            calls := s.calls.set i { c with phase := signupStep s.cap s.table c id token phase } }
        else none
  | .fail i =>
    match s.calls[i]? with
    | none => none
    | some c =>
      if c.phase.ended then none
      else
        some { s with
          lock := if s.lock = some i then none else s.lock
          calls := s.calls.set i { c with phase := .failed } }
  | .admitId id token now => some { s with table := s.table.admitId id token now }
  | .deleteBatch ids => some { s with table := s.table.deleteBatch ids }

/-! ## The cap -/

/-- A signup that has counted and will admit itself. -/
def Phase.admitting : Phase → Bool
  | .insert cap admitted => decide ((admitted : Int) < cap)
  | .commit _ (.admitted _) => true
  | _ => false

/-- `admit_batch` does not take the last place while a signup that has counted is to admit
itself. -/
def LeavesRoom (s : State) : Action → Prop
  | .admitId id _ _ => (∃ c ∈ s.calls, c.phase.admitting = true) →
    (s.table.signups.get id).any (·.isQueued) = true → (s.table.admitted : Int) + 1 < s.cap
  | _ => True

instance : DecidableRel LeavesRoom := fun s act =>
  match act with
  | .admitId id _ _ => inferInstanceAs (Decidable ((∃ c ∈ s.calls, c.phase.admitting = true) →
    (s.table.signups.get id).any (·.isQueued) = true → (s.table.admitted : Int) + 1 < s.cap))
  | .signup .. | .next .. | .fail _ | .deleteBatch _ => .isTrue trivial

/-- Every automatic admission was below the cap. -/
def CapHeld (s : State) : Prop := ∀ n ∈ s.admissions, (n : Int) < s.cap

/-! ## The queue -/

/-- Signups only: nobody is admitted or deleted by hand. -/
def signupsStep (s : State) : Action → Option State
  | .admitId .. | .deleteBatch _ => none
  | act => step s act

/-- A signup that is about to commit a queued row. -/
def Phase.joining : Phase → Bool
  | .commit (some _) (.queued _) => true
  | _ => false

/-- A signup that commits a queued row started after every queued row was created. -/
def InOrder (s : State) : Action → Prop
  | .next i _ _ => ∀ c ∈ s.calls[i]?, c.phase.joining = true →
    ∀ q ∈ s.table.rows, q.isQueued = true → q.createdAt < c.startedAt
  | _ => True

instance : DecidableRel InOrder := fun s act =>
  match act with
  | .next i _ _ => inferInstanceAs (Decidable (∀ c ∈ s.calls[i]?, c.phase.joining = true →
    ∀ q ∈ s.table.rows, q.isQueued = true → q.createdAt < c.startedAt))
  | .signup .. | .fail _ | .admitId .. | .deleteBatch _ => .isTrue trivial

/-- The reported positions are fair. -/
structure Fair (s : State) : Prop where
  position : ∀ r ∈ s.reports, ∀ n, r.queuedBefore = some n → r.position = n + 1
  increasing : (s.reports.filter (·.queuedBefore.isSome)).Pairwise fun r r' =>
    r.position < r'.position
  again : s.reports.Pairwise fun r r' => r'.email = r.email → r'.position ≤ r.position

end Waitlist

end StarStats
