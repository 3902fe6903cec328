import StarStats.Lib.Calls
import StarStats.Lib.Keyed
import StarStats.Lib.Trans
import StarStats.Server.Auth

/-!
# Moderation of a submission (`starstats-server/src/submissions.rs`)

The calls on one submission: `flag`, `withdraw`, `accept_submission`, `reject_submission`,
`dismiss_flag`. Each is a transaction, statement by statement, that locks the row of the submission
first and holds it until it ends; what it writes is seen by others when it commits. A statement may
fail, which undoes the transaction. `withdraw` reads the submission back after its commit. `NOW()`
is the start of the transaction.

`Submission.flag` and its siblings are the calls in one piece, and `log` the calls that committed,
in that order, with the submission before and after.
-/

namespace StarStats

namespace Submissions

inductive SubmissionStatus where
  | review
  | accepted
  | shipped
  | rejected
  | withdrawn
  | flagged
  deriving DecidableEq

def SubmissionStatus.asStr : SubmissionStatus → String
  | .review => "review"
  | .accepted => "accepted"
  | .shipped => "shipped"
  | .rejected => "rejected"
  | .withdrawn => "withdrawn"
  | .flagged => "flagged"

def autoFlagThreshold : Nat := 3

structure Flag where
  userId : Uuid
  reason : Option String
  createdAt : Timestamp
  deriving DecidableEq

/-- A row of `submissions` with its `submission_flags`. -/
structure Submission where
  id : Uuid
  submitterId : Uuid
  status : SubmissionStatus
  rejectionReason : Option String
  updatedAt : Timestamp
  flags : Keyed Flag.userId
  deriving DecidableEq

inductive SubmissionError where
  | notFound
  | forbidden
  | badState
  | illegalTransition («from» «to» : String)
  | database
  deriving DecidableEq

inductive WriteOutcome where
  | inserted
  | alreadyExists
  deriving DecidableEq

structure FlagOutcome where
  write : WriteOutcome
  flagCount : Nat
  escalated : Bool
  deriving DecidableEq

structure SubmissionTransition where
  id : Uuid
  previousStatus : String
  newStatus : String
  wasChanged : Bool
  deriving DecidableEq

/-! ## The requests -/

/-- The arguments of `admin_transition`. -/
structure Transition where
  target : SubmissionStatus
  reason : Option String
  legalPriors : List SubmissionStatus
  deriving DecidableEq

def acceptSubmission : Transition := ⟨.accepted, none, [.review, .flagged, .accepted]⟩

def rejectSubmission (reason : String) : Transition :=
  ⟨.rejected, some reason, [.review, .flagged, .rejected]⟩

def dismissFlag : Transition := ⟨.review, none, [.flagged, .review]⟩

inductive Request where
  | flag (userId : Uuid) (reason : Option String)
  | withdraw (callerId : Uuid)
  | accept
  | reject (reason : String)
  | dismiss
  deriving DecidableEq

/-- What a committed transaction writes, and what a call answers. -/
structure Writes where
  flag : Option Flag
  status : Option SubmissionStatus
  rejectionReason : Option String
  deriving DecidableEq

inductive Answer where
  | flagged (outcome : FlagOutcome)
  | withdrawn (submission : Submission)
  | moderated (transition : SubmissionTransition)
  deriving DecidableEq

/-- The submission with what a transaction has written. -/
def Submission.written (s : Submission) (w : Writes) (now : Timestamp) : Submission :=
  { s with
    flags := match w.flag with
      | some f => s.flags.insertNew f
      | none => s.flags
    status := w.status.getD s.status
    rejectionReason := w.rejectionReason.or s.rejectionReason
    updatedAt := if w.status.isSome then now else s.updatedAt }

/-! ## The calls, statement by statement -/

/-- The statement that comes next. -/
inductive Phase where
  /-- `SELECT … FOR UPDATE`. -/
  | select
  | insertFlag (userId : Uuid) (reason : Option String) (prior : SubmissionStatus)
  | countFlags (prior : SubmissionStatus) (inserted : Option Flag)
  | setFlagged (inserted : Option Flag) (count : Nat)
  | setWithdrawn
  | setStatus (t : Transition) (prior : SubmissionStatus)
  | commit (writes : Writes) (answer : Option Answer)
  /-- `withdraw` has committed and reads the submission back. -/
  | reread
  | done (answer : Except SubmissionError Answer)
  deriving DecidableEq

structure Call where
  request : Request
  startedAt : Timestamp
  phase : Phase
  deriving DecidableEq

/-- The transaction has the row lock. -/
def Call.holding (c : Call) : Bool :=
  match c.phase with
  | .select | .reread | .done _ => false
  | _ => true

/-- `admin_transition` after its `SELECT`. -/
def Transition.selected (t : Transition) (s : Submission) : Except SubmissionError Phase :=
  if s.status ∉ t.legalPriors then
    .error (.illegalTransition s.status.asStr t.target.asStr)
  else if s.status = t.target then
    .ok (.commit ⟨none, none, none⟩
      (some (.moderated ⟨s.id, s.status.asStr, t.target.asStr, false⟩)))
  else .ok (.setStatus t s.status)

/-- After the `SELECT` of a call. -/
def Request.selected (s : Submission) : Request → Except SubmissionError Phase
  | .flag userId reason => .ok (.insertFlag userId reason s.status)
  | .withdraw callerId =>
    if s.submitterId ≠ callerId then .error .forbidden
    else if s.status ≠ .review then .error .badState
    else .ok .setWithdrawn
  | .accept => acceptSubmission.selected s
  | .reject reason => (rejectSubmission reason).selected s
  | .dismiss => dismissFlag.selected s

def writeOutcome (inserted : Option Flag) : WriteOutcome :=
  if inserted.isSome then .inserted else .alreadyExists

/-- The commit of a flag. -/
def flagCommit (inserted : Option Flag) (count : Nat) (escalated : Bool) : Phase :=
  .commit ⟨inserted, if escalated then some .flagged else none, none⟩
    (some (.flagged ⟨writeOutcome inserted, count, escalated⟩))

/-- A statement of a transaction that has the lock, before its commit. -/
def advance (s : Submission) (now : Timestamp) : Phase → Phase
  | .insertFlag userId reason prior =>
    .countFlags prior
      (if s.flags.get userId = none then some ⟨userId, reason, now⟩ else none)
  | .countFlags prior inserted =>
    -- the transaction sees its own flag
    let count := s.flags.rows.length + inserted.toList.length
    let escalated := inserted.isSome && prior == .review && decide (autoFlagThreshold ≤ count)
    if escalated then .setFlagged inserted count else flagCommit inserted count false
  | .setFlagged inserted count => flagCommit inserted count true
  | .setWithdrawn => .commit ⟨none, some .withdrawn, none⟩ none
  | .setStatus t prior =>
    .commit ⟨none, some t.target, t.reason⟩
      (some (.moderated ⟨s.id, prior.asStr, t.target.asStr, true⟩))
  | phase => phase

structure Entry where
  call : Nat
  request : Request
  startedAt : Timestamp
  before : Submission
  after : Submission
  /-- What the call answers; a withdrawal answers with what it reads back. -/
  answer : Option Answer
  deriving DecidableEq

structure State where
  now : Timestamp
  submission : Option Submission
  /-- The call that has the row lock. -/
  lock : Option Nat
  calls : List Call
  log : List Entry
  deriving DecidableEq

def State.start (now : Timestamp) (submission : Option Submission) : State :=
  ⟨now, submission, none, [], []⟩

inductive Action where
  | wait (d : Nat)
  | call (request : Request)
  /-- The next statement of a call. -/
  | next (call : Nat)
  /-- The next statement of a call fails. -/
  | fail (call : Nat)
  deriving DecidableEq

/-- After the commit. -/
def Phase.committed : Option Answer → Phase
  | some a => .done (.ok a)
  | none => .reread

namespace State

def go (s : State) (i : Nat) (c : Call) (phase : Phase) : State :=
  { s with calls := s.calls.set i { c with phase := phase } }

def commit (s : State) (i : Nat) (c : Call) (submission : Submission) (writes : Writes)
    (answer : Option Answer) : State :=
  { s.go i c (.committed answer) with
    submission := some (submission.written writes c.startedAt)
    lock := none
    log := s.log ++
      [⟨i, c.request, c.startedAt, submission, submission.written writes c.startedAt, answer⟩] }

end State

def step (s : State) : Action → Option State
  | .wait d => some { s with now := s.now + d }
  | .call request => some { s with calls := s.calls ++ [⟨request, s.now, .select⟩] }
  | .next i =>
    match s.calls[i]? with
    | none => none
    | some c =>
      match c.phase, s.submission with
      | .done _, _ => none
      | .select, none => some (s.go i c (.done (.error .notFound)))
      | .select, some submission =>
        if s.lock = none then
          match c.request.selected submission with
          | .error e => some (s.go i c (.done (.error e)))
          | .ok phase => some { s.go i c phase with lock := some i }
        else none
      | .reread, none => some (s.go i c (.done (.error .notFound)))
      | .reread, some submission => some (s.go i c (.done (.ok (.withdrawn submission))))
      | .commit writes answer, some submission => some (s.commit i c submission writes answer)
      | phase, some submission => some (s.go i c (advance submission c.startedAt phase))
      | _, none => none
  | .fail i =>
    match s.calls[i]? with
    | none => none
    | some c =>
      match c.phase with
      | .done _ => none
      | _ =>
        some { s.go i c (.done (.error .database)) with
          lock := if c.holding then none else s.lock }

/-! ## The calls in one piece -/

/-- `flag`. -/
def Submission.flag (s : Submission) (userId : Uuid) (reason : Option String) (now : Timestamp) :
    Submission × Answer :=
  let inserted : Option Flag :=
    if s.flags.get userId = none then some ⟨userId, reason, now⟩ else none
  let count := s.flags.rows.length + inserted.toList.length
  let escalated := inserted.isSome && s.status == .review && decide (autoFlagThreshold ≤ count)
  (s.written ⟨inserted, if escalated then some .flagged else none, none⟩ now,
    .flagged ⟨writeOutcome inserted, count, escalated⟩)

/-- `admin_transition`. -/
def Submission.transition (s : Submission) (t : Transition) (now : Timestamp) :
    Except SubmissionError (Submission × Answer) :=
  if s.status ∉ t.legalPriors then .error (.illegalTransition s.status.asStr t.target.asStr)
  else if s.status = t.target then
    .ok (s, .moderated ⟨s.id, s.status.asStr, t.target.asStr, false⟩)
  else
    .ok (s.written ⟨none, some t.target, t.reason⟩ now,
      .moderated ⟨s.id, s.status.asStr, t.target.asStr, true⟩)

/-- A whole transaction. -/
def Submission.serve (s : Submission) (now : Timestamp) :
    Request → Except SubmissionError (Submission × Option Answer)
  | .flag userId reason => .ok ((s.flag userId reason now).1, some (s.flag userId reason now).2)
  | .withdraw callerId =>
    if s.submitterId ≠ callerId then .error .forbidden
    else if s.status ≠ .review then .error .badState
    else .ok (s.written ⟨none, some .withdrawn, none⟩ now, none)
  | .accept => (s.transition acceptSubmission now).map fun r => (r.1, some r.2)
  | .reject reason => (s.transition (rejectSubmission reason) now).map fun r => (r.1, some r.2)
  | .dismiss => (s.transition dismissFlag now).map fun r => (r.1, some r.2)

/-! ## The state machine -/

/-- A move of the status, by the call that makes it. -/
inductive Edge (submitterId : Uuid) : Request → SubmissionStatus → SubmissionStatus → Prop
  | flag (userId : Uuid) (reason : Option String) :
    Edge submitterId (.flag userId reason) .review .flagged
  | withdraw : Edge submitterId (.withdraw submitterId) .review .withdrawn
  | accept («from» : SubmissionStatus) (h : «from» = .review ∨ «from» = .flagged) :
    Edge submitterId .accept «from» .accepted
  | reject (reason : String) («from» : SubmissionStatus)
    (h : «from» = .review ∨ «from» = .flagged) :
    Edge submitterId (.reject reason) «from» .rejected
  | dismiss : Edge submitterId .dismiss .flagged .review

/-- A new distinct flagger while in review, with enough flaggers in total. -/
def Entry.Escalates (e : Entry) : Prop :=
  ∃ userId reason, e.request = .flag userId reason ∧ e.before.flags.get userId = none ∧
    e.before.status = .review ∧ autoFlagThreshold ≤ e.after.flags.rows.length

def Request.isModeration : Request → Bool
  | .accept | .reject _ | .dismiss => true
  | _ => false

/-- A call that committed keeps to the state machine and reports what it did. -/
structure Entry.Lawful (e : Entry) : Prop where
  edge : e.after.status = e.before.status ∨
    Edge e.before.submitterId e.request e.before.status e.after.status
  flagged : (e.before.status ≠ .flagged ∧ e.after.status = .flagged) ↔ e.Escalates
  escalated : (∃ outcome, e.answer = some (.flagged outcome) ∧ outcome.escalated = true) ↔
    e.Escalates
  changed : (∃ t, e.answer = some (.moderated t) ∧ t.wasChanged = true) ↔
    e.request.isModeration = true ∧ e.after.status ≠ e.before.status

/-- What the call answers, where it does. -/
def Entry.Answers (e : Entry) (a : Answer) : Prop :=
  e.answer = some a ∨ e.answer = none ∧ ∃ submission, a = .withdrawn submission

/-- Each call that committed found the submission as the one before it left it. -/
def Chain : Option Submission → List Entry → Option Submission → Prop
  | first, [], last => last = first
  | first, e :: es, last => first = some e.before ∧ Chain (some e.after) es last

end Submissions

end StarStats
