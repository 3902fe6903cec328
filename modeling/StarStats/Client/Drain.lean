import Mathlib.Data.Finset.Card
import Mathlib.Data.List.Forall2
import StarStats.Client.Sync

/-!
# The loop of a drain (`starstats-client/src/sync.rs` `drain_lane`)

The loop sends the batches of its stack one after another, and each POST takes one answer: it marks
the batch sent, halves it, quarantines its one row, or gives up. The batches it gave up on and
those behind them stay unsent, for the next drain. An answer is what `try_send_batch` makes of it: a
2xx that cannot be read is transient. The tray's own reads and writes succeed here.
-/

namespace StarStats

/-- Why a drain gives up. -/
inductive DrainError where
  /-- 401 or 403: the token is refused, or sync is off for this device. -/
  | auth
  | quarantineCap
  | transient
  deriving DecidableEq

/-- A POST and its answer. -/
structure Post where
  batch : List UnsentEvent
  answer : Except SendError IngestResponse

structure DrainRun where
  storage : ClientStorage
  /-- In their order. -/
  posts : List Post
  /-- The batches that were neither sent nor quarantined, the next first. -/
  unresolved : List (List UnsentEvent)
  /-- `none` while it waits for an answer. -/
  outcome : Option (Except DrainError Unit)

def DrainRun.posted (post : Post) (run : DrainRun) : DrainRun :=
  { run with posts := post :: run.posts }

/-- The answers on which the loop ends before its stack is empty. -/
def drainBail (sub : List UnsentEvent) (quarantined : Nat) :
    Except SendError IngestResponse → Option DrainError
  | .ok _ => none
  | .error .auth => some .auth
  | .error .transient => some .transient
  | .error .badBatch =>
    if sub.length = 1 ∧ maxQuarantinesPerDrain ≤ quarantined then some .quarantineCap else none

/-- `while let Some(sub_batch) = stack.pop()`. -/
def drainLoop (st : ClientStorage) (stack : List (List UnsentEvent)) (quarantined : Nat)
    (answers : List (Except SendError IngestResponse)) : DrainRun :=
  match stack, answers with
  | [], _ => ⟨st, [], [], some (.ok ())⟩
  | sub :: rest, [] => ⟨st, [], sub :: rest, none⟩
  | sub :: rest, answer :: answers =>
    match drainBail sub quarantined answer with
    | some e => ⟨st, [⟨sub, answer⟩], sub :: rest, some (.error e)⟩
    | none =>
      let after := afterSend .none st sub rest quarantined answer
      let drain := after.drain.getD ⟨[], quarantined⟩
      (drainLoop after.storage drain.stack drain.quarantined answers).posted ⟨sub, answer⟩
  termination_by structural answers

/-- `drain_lane` on the page it has read. -/
def drainPage (st : ClientStorage) (page : List UnsentEvent) (maxBatchBytes : Nat)
    (answers : List (Except SendError IngestResponse)) : DrainRun :=
  drainLoop st (chunkByBytes page maxBatchBytes) 0 answers

/-! ## What the loop is for -/

namespace Post

/-- A 2xx. -/
def accepted (p : Post) : Bool :=
  match p.answer with
  | .ok _ => true
  | .error _ => false

/-- A 4xx other than 401 and 403. -/
def refused (p : Post) : Bool :=
  match p.answer with
  | .error .badBatch => true
  | _ => false

def refusedAlone (p : Post) : Bool := p.refused && p.batch.length == 1

end Post

/-- The posts after which their rows are sent or quarantined, `quarantined` rows being so
already. -/
def resolvedPosts (quarantined : Nat) : List Post → List Post
  | [] => []
  | p :: ps =>
    if p.accepted then p :: resolvedPosts quarantined ps
    else if p.refusedAlone && decide (quarantined < maxQuarantinesPerDrain) then
      p :: resolvedPosts (quarantined + 1) ps
    else resolvedPosts quarantined ps

/-- The row was in a batch with a 2xx answer. -/
def SentIn (posts : List Post) (e : UnsentEvent) : Prop :=
  ∃ p ∈ posts, p.accepted = true ∧ e ∈ p.batch

/-- The row was posted on its own and refused, before the cap. -/
def QuarantinedIn (posts : List Post) (e : UnsentEvent) : Prop :=
  ∃ earlier p later, posts = earlier ++ p :: later ∧ p.batch = [e] ∧ p.refused = true ∧
    earlier.countP (·.refusedAlone) < maxQuarantinesPerDrain

namespace ClientStorage

/-- What `sent_at` holds for the row with this id. -/
def sentAtOf (st : ClientStorage) (id : Int) : Option SentAt :=
  (st.rows.find? (·.id = id)).bind (·.sentAt)

/-- The page was read from this storage. -/
structure Holds (st : ClientStorage) (page : List UnsentEvent) : Prop where
  key : (st.rows.map (·.id)).Nodup
  distinct : (page.map (·.id)).Nodup
  unsent : ∀ e ∈ page, ∃ r ∈ st.rows, r.toUnsentEvent = e ∧ r.sentAt = none

end ClientStorage

/-- A row before and after a drain: marked by one of its posts, or as it was. -/
def RowSettled (page : List UnsentEvent) (posts : List Post) (r r' : ClientRow) : Prop :=
  (∃ e ∈ page, e.id = r.id ∧
    (SentIn posts e ∧ r' = { r with sentAt := some .sent } ∨
      QuarantinedIn posts e ∧ r' = { r with sentAt := some .quarantined })) ∨
  (∀ e ∈ page, e.id = r.id → ¬ SentIn posts e ∧ ¬ QuarantinedIn posts e) ∧ r' = r

/-- Every row of the page met the fate that its posts say, in the page's order. -/
structure Settled (st : ClientStorage) (page : List UnsentEvent) (run : DrainRun) : Prop where
  sent : ∀ e ∈ page, run.storage.sentAtOf e.id = some .sent ↔ SentIn run.posts e
  quarantined : ∀ e ∈ page,
    run.storage.sentAtOf e.id = some .quarantined ↔ QuarantinedIn run.posts e
  apart : ∀ e ∈ page, ¬ (SentIn run.posts e ∧ QuarantinedIn run.posts e)
  rows : List.Forall₂ (RowSettled page run.posts) st.rows run.storage.rows
  capped : (page.filter fun e => run.storage.sentAtOf e.id = some .quarantined).length ≤
    maxQuarantinesPerDrain
  ordered : (resolvedPosts 0 run.posts).flatMap (·.batch) <+: page

/-- The server refuses the batches with a row of `poison` and accepts the others. -/
def RefusesExactly (poison : Finset UnsentEvent) (p : Post) : Prop :=
  if ∃ e ∈ p.batch, e ∈ poison then p.answer = .error .badBatch else p.accepted = true

end StarStats
