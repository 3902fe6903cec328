import StarStats.Server.Waitlist

/-!
# Sign-ups behind the gate (`auth_routes.rs` `signup`, `waitlist.rs`)

A sign-up whose request is valid, one store call or hash at a time: it reads the gate, redeems its
invite, hashes the password, creates the account, and gives the invite back where one of the last
two fails. Beside the sign-ups run the statements of the waitlist, which is the table of
`Server/Waitlist` with its unique index on `invite_token`. What a store call answers is part of
the action; one that fails has changed nothing, and `release_invite` does not fail. What follows a
created account cannot undo it.

`mailed` are the invites that were handed on to be mailed.
-/

namespace StarStats

/-- What `UserStore::create` fails with. -/
inductive UserError where
  | emailTaken
  | handleTaken
  | database
  deriving DecidableEq

namespace Invites

open Waitlist (Row)

/-- `waitlist_signups`, no two rows with one token. -/
structure Table where
  signups : Waitlist.Table
  tokens : ∀ r ∈ signups.rows, ∀ q ∈ signups.rows, ∀ t, r.inviteToken = some t →
    q.inviteToken = some t → r = q
  deriving DecidableEq

structure AdmittedInvite where
  email : String
  inviteToken : String
  deriving DecidableEq

namespace Table

def rows (t : Table) : List Row := t.signups.rows

def empty : Table := ⟨⟨.empty, List.nodup_nil⟩, fun _ hr => by cases hr⟩

/-- Some row has the token. -/
def hasToken (t : Table) (token : String) : Bool := t.rows.any (·.inviteToken = some token)

theorem not_hasToken {t : Table} {token : String} (h : ¬ t.hasToken token = true) {r : Row}
    (hr : r ∈ t.rows) : r.inviteToken ≠ some token := by
  intro ht
  exact h (List.any_eq_true.2 ⟨r, hr, decide_eq_true ht⟩)

/-- A row with the token that meets a condition, with another `invite_consumed_at`. -/
def consumedAs (token : String) (p : Row → Bool) (consumedAt : Option Timestamp) (r : Row) : Row :=
  if r.inviteToken = some token && p r then { r with inviteConsumedAt := consumedAt } else r

section
variable {token : String} {p : Row → Bool} {consumedAt : Option Timestamp}

theorem id_consumedAs (r : Row) : (consumedAs token p consumedAt r).id = r.id := by
  unfold consumedAs
  split <;> rfl

theorem email_consumedAs (r : Row) : (consumedAs token p consumedAt r).email = r.email := by
  unfold consumedAs
  split <;> rfl

theorem inviteToken_consumedAs (r : Row) :
    (consumedAs token p consumedAt r).inviteToken = r.inviteToken := by
  unfold consumedAs
  split <;> rfl

end

/-- The `UPDATE` that sets `invite_consumed_at`. -/
def setConsumed (t : Table) (token : String) (p : Row → Bool) (consumedAt : Option Timestamp) :
    Table where
  signups :=
    { signups := t.signups.signups.map (consumedAs token p consumedAt) id_consumedAs
      emails := by
        rw [Keyed.map, List.map_map]
        refine cast (congrArg List.Nodup (List.map_congr_left fun r _ => ?_)) t.signups.emails
        exact (email_consumedAs r).symm }
  tokens := by
    intro r hr q hq u hru hqu
    obtain ⟨a, ha, rfl⟩ := List.mem_map.1 hr
    obtain ⟨b, hb, rfl⟩ := List.mem_map.1 hq
    rw [inviteToken_consumedAs] at hru hqu
    rw [t.tokens a ha b hb u hru hqu]

/-- The row that `redeem_invite` takes. -/
def redeemable (r : Row) : Bool := r.inviteConsumedAt.isNone && r.isAdmitted

/-- `redeem_invite`: the row that it has taken, and the table after it. -/
def redeemInvite (t : Table) (token : String) (now : Timestamp) : Option Uuid × Table :=
  ((t.rows.find? fun r => r.inviteToken = some token && redeemable r).map (·.id),
    t.setConsumed token redeemable (some now))

def releaseInvite (t : Table) (token : String) : Table :=
  t.setConsumed token (fun _ => true) none

/-- A row that a signup of the waitlist commits; a token that exists is refused. -/
def insert (t : Table) (r : Row) : Table :=
  if h : ∃ token, r.inviteToken = some token ∧ t.hasToken token = true then t
  else
    { signups := t.signups.insert r
      tokens := by
        intro a ha b hb u hau hbu
        have hrows (c : Row) (hc : c ∈ (t.signups.insert r).rows) : c ∈ t.rows ∨ c = r := by
          unfold Waitlist.Table.insert at hc
          split at hc
          · rcases List.mem_append.1 hc with hc | hc
            · exact .inl hc
            · exact .inr (List.mem_singleton.1 hc)
          · exact .inl hc
        have hnew (c : Row) (hc : c ∈ t.rows) (hcu : c.inviteToken = some u)
            (hru : r.inviteToken = some u) : False :=
          h ⟨u, hru, List.any_eq_true.2 ⟨c, hc, decide_eq_true hcu⟩⟩
        rcases hrows a ha with hat | har <;> rcases hrows b hb with hbt | hbr
        · exact t.tokens a hat b hbt u hau hbu
        · exact (hnew a hat hau (hbr ▸ hbu)).elim
        · exact (hnew b hbt hbu (har ▸ hau)).elim
        · exact har.trans hbr.symm }

/-- A row of `admit_batch` for one id is as it was, or it was queued and has the token now. -/
theorem of_admitId {t : Table} {id : Uuid} {token : String} {now : Timestamp} {r : Row}
    (hr : r ∈ (t.signups.admitId id token now).rows) :
    r ∈ t.rows ∨ ∃ q, t.signups.signups.get id = some q ∧ q.isAdmitted = false ∧
      r = { q with admittedAt := some now, inviteToken := some token } := by
  have hmodify : r ∈ (t.signups.signups.modify id (Waitlist.Table.invited token now)
      (Waitlist.Table.id_invited token now)).rows := hr
  rcases Keyed.mem_modify.1 hmodify with ⟨hold, -⟩ | ⟨q, hq, rfl⟩
  · exact .inl hold
  · unfold Waitlist.Table.invited
    split
    · exact .inl (Keyed.of_get hq).1
    · rename_i hqueued
      exact .inr ⟨q, hq, Bool.eq_false_iff.2 hqueued, rfl⟩

/-- The `UPDATE` of `admit_batch` for one id; a token that exists is refused. -/
def admitId (t : Table) (id : Uuid) (token : String) (now : Timestamp) : Table :=
  if h : t.hasToken token = true then t
  else
    { signups := t.signups.admitId id token now
      tokens := by
        intro a ha b hb u hau hbu
        rcases of_admitId ha with hat | ⟨r, hr, -, har⟩ <;>
          rcases of_admitId hb with hbt | ⟨q, hq, -, hbq⟩
        · exact t.tokens a hat b hbt u hau hbu
        · rw [hbq] at hbu
          exact (not_hasToken h hat (hau.trans hbu.symm)).elim
        · rw [har] at hau
          exact (not_hasToken h hbt (hbu.trans hau.symm)).elim
        · rw [har, hbq, Option.some.inj (hr.symm.trans hq)] }

/-- What `admit_batch` returns for one id. -/
def invitedBy (t : Table) (id : Uuid) (token : String) : List AdmittedInvite :=
  ((t.signups.signups.get id).filter (·.isQueued)).toList.map fun r => ⟨r.email, token⟩

/-- `delete_batch`. -/
def deleteBatch (t : Table) (ids : List Uuid) : Table where
  signups := t.signups.deleteBatch ids
  tokens := fun r hr q hq =>
    t.tokens r (List.mem_filter.1 hr).1 q (List.mem_filter.1 hq).1

/-- `resend_batch`. -/
def resendBatch (t : Table) (ids : List Uuid) : List AdmittedInvite :=
  t.rows.filterMap fun r =>
    if r.id ∈ ids ∧ r.isAdmitted = true then r.inviteToken.map (⟨r.email, ·⟩) else none

end Table

/-! ## The sign-up -/

structure SignupRequest where
  email : String
  password : String
  claimedHandle : String
  inviteToken : Option String
  deriving DecidableEq

/-- The call that comes next; `redeemed` is the invite to release on failure. -/
inductive Phase where
  | gate
  | redeem (token : String)
  | hash (redeemed : Option String)
  | create (redeemed : Option String) (phc : String)
  | release (redeemed : Option String) (answer : Refusal)
  | done (answer : Except Refusal Uuid)
  deriving DecidableEq

structure Call where
  req : SignupRequest
  phase : Phase
  deriving DecidableEq

/-- An account, with the invite that was redeemed for it. -/
structure Account where
  id : Uuid
  email : String
  passwordHash : String
  claimedHandle : String
  invite : Option String
  deriving DecidableEq

/-- After `gate_enabled`. -/
def gateAnswered (req : SignupRequest) : Except Unit Bool → Phase
  | .error () => .done (.error (refuse 500 "gate_unavailable" none))
  | .ok false => .hash none
  | .ok true =>
    match req.inviteToken.filter (· ≠ "") with
    | some token => .redeem token
    | none => .done (.error (refuse 403 "invite_required"
        (some "StarStats is in invite-only beta — join the waitlist")))

/-- After `redeem_invite`. -/
def redeemAnswered (token : String) : Except Unit (Option Uuid) → Phase
  | .ok (some _) => .hash (some token)
  | .ok none => .done (.error (refuse 403 "invite_invalid"
      (some "that invite is not valid, or has already been used")))
  | .error () => .done (.error (refuse 500 "gate_unavailable" none))

/-- After `hash_password`. -/
def hashAnswered (redeemed : Option String) : Except Unit String → Phase
  | .ok phc => .create redeemed phc
  | .error () => .release redeemed (refuse 500 "hash_failed" none)

def UserError.refusal : UserError → Refusal
  | .emailTaken => refuse 409 "email_taken" (some "an account with that email already exists")
  | .handleTaken => refuse 409 "handle_taken" (some "that RSI handle is already claimed")
  | .database => refuse 500 "internal" none

/-- After `create`. -/
def createAnswered (redeemed : Option String) : Except UserError Uuid → Phase
  | .ok id => .done (.ok id)
  | .error e => .release redeemed (UserError.refusal e)

namespace Phase

/-- The invite that the sign-up has redeemed, until the account is made or it is released. -/
def held : Phase → Option String
  | .hash redeemed | .create redeemed _ | .release redeemed _ => redeemed
  | _ => none

def ended : Phase → Bool
  | .done _ => true
  | _ => false

end Phase

structure State where
  gateEnabled : Bool
  table : Table
  calls : List Call
  accounts : List Account
  mailed : List AdmittedInvite
  deriving DecidableEq

def State.start (gateEnabled : Bool) : State := ⟨gateEnabled, .empty, [], [], []⟩

inductive Action where
  | signup (req : SignupRequest)
  | readGate (call : Nat) (readable : Bool)
  | redeem (call : Nat) (reachable : Bool) (now : Timestamp)
  | hash (call : Nat) (answer : Except Unit String)
  | create (call : Nat) (answer : Except UserError Uuid)
  | release (call : Nat)
  /-- A signup of the waitlist commits its row. -/
  | join (call : Waitlist.Call) (id : Uuid) (token : Option String)
  | admitId (id : Uuid) (token : String) (now : Timestamp)
  | resendBatch (ids : List Uuid)
  | deleteBatch (ids : List Uuid)
  | setGate (gateEnabled : Bool)
  deriving DecidableEq

/-- A sign-up goes on. -/
def State.go (s : State) (i : Nat) (c : Call) (phase : Phase) : State :=
  { s with calls := s.calls.set i { c with phase := phase } }

def step (s : State) : Action → Option State
  | .signup req => some { s with calls := s.calls ++ [⟨req, .gate⟩] }
  | .readGate i readable =>
    match s.calls[i]? with
    | some ⟨req, .gate⟩ =>
      some (s.go i ⟨req, .gate⟩
        (gateAnswered req (if readable then .ok s.gateEnabled else .error ())))
    | _ => none
  | .redeem i reachable now =>
    match s.calls[i]? with
    | some ⟨req, .redeem token⟩ =>
      if reachable then
        some { s.go i ⟨req, .redeem token⟩
            (redeemAnswered token (.ok (s.table.redeemInvite token now).1)) with
          table := (s.table.redeemInvite token now).2 }
      else some (s.go i ⟨req, .redeem token⟩ (redeemAnswered token (.error ())))
    | _ => none
  | .hash i answer =>
    match s.calls[i]? with
    | some ⟨req, .hash redeemed⟩ =>
      some (s.go i ⟨req, .hash redeemed⟩ (hashAnswered redeemed answer))
    | _ => none
  | .create i answer =>
    match s.calls[i]? with
    | some ⟨req, .create redeemed phc⟩ =>
      let s' := s.go i ⟨req, .create redeemed phc⟩ (createAnswered redeemed answer)
      match answer with
      | .ok id =>
        some { s' with
          accounts := s.accounts ++ [⟨id, req.email, phc, req.claimedHandle, redeemed⟩] }
      | .error _ => some s'
    | _ => none
  | .release i =>
    match s.calls[i]? with
    | some ⟨req, .release redeemed answer⟩ =>
      let s' := s.go i ⟨req, .release redeemed answer⟩ (.done (.error answer))
      match redeemed with
      | some token => some { s' with table := s.table.releaseInvite token }
      | none => some s'
    | _ => none
  | .join call id token => some { s with table := s.table.insert (call.row id token) }
  | .admitId id token now =>
    if s.table.hasToken token then some s
    else some { s with
      table := s.table.admitId id token now
      mailed := s.mailed ++ s.table.invitedBy id token }
  | .resendBatch ids => some { s with mailed := s.mailed ++ s.table.resendBatch ids }
  | .deleteBatch ids => some { s with table := s.table.deleteBatch ids }
  | .setGate gateEnabled => some { s with gateEnabled := gateEnabled }

/-- An account was created through the invite. -/
def State.used (s : State) (token : String) : Prop := ∃ a ∈ s.accounts, a.invite = some token

end Invites

end StarStats
