import StarStats.Lib.Text
import StarStats.Lib.Trans
import StarStats.Server.Auth

/-!
# Tokens that are mailed (`auth_routes.rs`, `users.rs`)

The calls that change the email or reset the password of one account, one store call at a time:
`email_change_start`, `email_change_verify`, `password_reset_start`, `password_reset_complete`.
A token is looked up by one statement and consumed by another that names only the account. Time
passes between any two steps. A token is new when it is stored, and its expiry counts from a time
that has passed. `to_lowercase` and the database's `lower` are a `Folding`.

Beside the account stand `staged`, what was staged with which token, `commits`, the addresses that
became the account's and by which token, and for the reset tokens those that were `issued`, that a
call has `presented`, that were `replaced` before that, and that set the password (`resets`).
-/

namespace StarStats

namespace MailedTokens

structure Folding where
  toLowercase : String → String
  sqlLower : String → String

/-- The columns of `users` that the calls read and write. -/
structure Account where
  email : String
  emailVerifiedAt : Option Timestamp
  passwordHash : String
  passwordChangedAt : Timestamp
  pendingEmail : Option String
  pendingEmailToken : Option String
  pendingEmailExpiresAt : Option Timestamp
  passwordResetToken : Option String
  passwordResetExpiresAt : Option Timestamp
  deriving DecidableEq

/-- What `create` inserts. -/
def Account.created (email phc : String) (now : Timestamp) : Account :=
  ⟨email, none, phc, now, none, none, none, none, none⟩

namespace Account

def setPendingEmail (f : Folding) (a : Account) (newEmail token : String) (expiresAt : Timestamp) :
    Account :=
  { a with
    pendingEmail := some (f.sqlLower newEmail)
    pendingEmailToken := some token
    pendingEmailExpiresAt := some expiresAt }

/-- `commit_pending_email`: `WHERE … pending_email IS NOT NULL`. -/
def commitPendingEmail (a : Account) (now : Timestamp) : Account :=
  match a.pendingEmail with
  | some pending =>
    { a with
      email := pending
      emailVerifiedAt := some now
      pendingEmail := none
      pendingEmailToken := none
      pendingEmailExpiresAt := none }
  | none => a

def setPasswordResetToken (a : Account) (token : String) (expiresAt : Timestamp) : Account :=
  { a with passwordResetToken := some token, passwordResetExpiresAt := some expiresAt }

def completePasswordReset (a : Account) (phc : String) (now : Timestamp) : Account :=
  { a with
    passwordHash := phc
    passwordChangedAt := now
    passwordResetToken := none
    passwordResetExpiresAt := none }

end Account

def minPasswordLen : Nat := 12

/-- `EMAIL_CHANGE_TTL_HOURS`, in microseconds. -/
def emailChangeTtl : Int := 24 * 3600 * 1000000

/-- `PASSWORD_RESET_TTL_MIN`, in microseconds. -/
def passwordResetTtl : Int := 30 * 60 * 1000000

/-! ## The calls -/

inductive Request where
  | emailChangeStart (newEmail : String)
  | emailChangeVerify (token : String)
  | passwordResetStart (email : String)
  | passwordResetComplete (token newPassword : String)
  deriving DecidableEq

inductive Answer where
  | staged (pendingEmail : String)
  | changed (email : String)
  | sent
  | reset
  deriving DecidableEq

/-- What comes next. -/
inductive Phase where
  | findByEmail (newEmail : String)
  | setPending (newEmail : String)
  | findPending (token : String)
  | checkPending (token : String) (pendingEmail : Option String) (expiresAt : Option Timestamp)
  /-- The token was found with this address, and had not expired at `checkedAt`. -/
  | commitPending (token : String) (pendingEmail : Option String) (checkedAt : Timestamp)
  | findForReset (email : String)
  | setReset
  | findReset (token newPassword : String)
  | checkReset (token newPassword : String) (expiresAt : Option Timestamp)
  | completeReset (token phc : String)
  | done (answer : Except Refusal Answer)
  deriving DecidableEq

def Phase.refused (status : Nat) (error : String) (detail : Option String) : Phase :=
  .done (.error (refuse status error detail))

/-- The checks of the request. -/
def Request.entry (f : Folding) : Request → Phase
  | .emailChangeStart newEmail =>
    let newEmail := f.toLowercase (Text.trim newEmail)
    if newEmail = "" ∨ '@' ∉ newEmail.toList then .refused 400 "invalid_email" none
    else .findByEmail newEmail
  | .emailChangeVerify token =>
    if Text.trim token = "" then .refused 400 "invalid_or_expired" none else .findPending token
  | .passwordResetStart email =>
    let email := Text.trim email
    if email = "" ∨ '@' ∉ email.toList then .refused 400 "invalid_email" none
    else .findForReset email
  | .passwordResetComplete token newPassword =>
    if Text.trim token = "" then .refused 400 "invalid_or_expired" none
    else if newPassword.utf8ByteSize < minPasswordLen then
      .refused 400 "password_too_short"
        (some s!"password must be at least {minPasswordLen} characters")
    else .findReset token newPassword

/-- A token without an expiry counts as expired. -/
def expired (expiresAt : Option Timestamp) (now : Timestamp) : Bool :=
  (expiresAt.map fun exp => decide (exp < now)).getD true

/-- A store call that fails. -/
def Phase.storeFailed : Phase → Option Phase
  | .findByEmail newEmail => some (.setPending newEmail)
  | .findForReset _ | .setReset => some (.done (.ok .sent))
  | .setPending _ | .findPending _ | .commitPending .. | .findReset .. | .completeReset .. =>
    some (.refused 500 "internal" none)
  | .checkPending .. | .checkReset .. | .done _ => none

structure Staging where
  email : String
  token : String
  expiresAt : Timestamp
  deriving DecidableEq

structure Commit where
  email : String
  /-- What the call presented, and when it had not expired. -/
  token : String
  checkedAt : Timestamp
  deriving DecidableEq

structure State where
  now : Timestamp
  account : Account
  calls : List Phase
  staged : List Staging
  commits : List Commit
  issued : List String
  presented : List String
  replaced : List String
  resets : List String
  deriving DecidableEq

def State.start (email phc : String) (now : Timestamp) : State :=
  ⟨now, .created email phc now, [], [], [], [], [], [], []⟩

inductive Action where
  | wait (d : Nat)
  | request (r : Request)
  /-- `find_by_email`: whether another account has the address. -/
  | findByEmail (call : Nat) (other : Bool)
  | setPending (call : Nat) (token : String) (drawnAt : Timestamp)
  | findPending (call : Nat)
  | checkPending (call : Nat)
  /-- `commit_pending_email`: whether another account has the address now. -/
  | commitPending (call : Nat) (taken : Bool)
  | findForReset (call : Nat)
  | setReset (call : Nat) (token : String) (drawnAt : Timestamp)
  | findReset (call : Nat)
  /-- The check of the expiry, and the hash. -/
  | checkReset (call : Nat) (phc : Option String)
  | completeReset (call : Nat)
  | storeFails (call : Nat)
  deriving DecidableEq

namespace State

/-- A call goes on. -/
def go (s : State) (i : Nat) (phase : Phase) : State := { s with calls := s.calls.set i phase }

/-- The reset token that a new one replaces, where no call has presented it. -/
def replacing (s : State) : List String :=
  s.account.passwordResetToken.toList.filter (· ∉ s.presented)

end State

def step (f : Folding) (s : State) : Action → Option State
  | .wait d => some { s with now := s.now + d }
  | .request r => some { s with calls := s.calls ++ [r.entry f] }
  | .findByEmail i other =>
    match s.calls[i]? with
    | some (.findByEmail newEmail) =>
      some (s.go i (if other then .refused 409 "email_taken" none else .setPending newEmail))
    | _ => none
  | .setPending i token drawnAt =>
    match s.calls[i]? with
    | some (.setPending newEmail) =>
      if token ∉ s.staged.map (·.token) ∧ drawnAt ≤ s.now then
        some { s.go i (.done (.ok (.staged newEmail))) with
          account := s.account.setPendingEmail f newEmail token (drawnAt + emailChangeTtl)
          staged := s.staged ++ [⟨f.sqlLower newEmail, token, drawnAt + emailChangeTtl⟩] }
      else none
    | _ => none
  | .findPending i =>
    match s.calls[i]? with
    | some (.findPending token) =>
      some (s.go i (if s.account.pendingEmailToken = some token then
        .checkPending token s.account.pendingEmail s.account.pendingEmailExpiresAt
        else .refused 400 "invalid_or_expired" none))
    | _ => none
  | .checkPending i =>
    match s.calls[i]? with
    | some (.checkPending token pendingEmail expiresAt) =>
      some (s.go i (if expired expiresAt s.now then .refused 400 "invalid_or_expired" none
        else .commitPending token pendingEmail s.now))
    | _ => none
  | .commitPending i taken =>
    match s.calls[i]? with
    | some (.commitPending token pendingEmail checkedAt) =>
      if taken then some (s.go i (.refused 409 "email_taken" none))
      else
        some { s.go i (.done (.ok (.changed (pendingEmail.getD "")))) with
          account := s.account.commitPendingEmail s.now
          commits :=
            s.commits ++ s.account.pendingEmail.toList.map fun e => ⟨e, token, checkedAt⟩ }
    | _ => none
  | .findForReset i =>
    match s.calls[i]? with
    | some (.findForReset email) =>
      some (s.go i (if f.sqlLower s.account.email = f.sqlLower email then .setReset
        else .done (.ok .sent)))
    | _ => none
  | .setReset i token drawnAt =>
    match s.calls[i]? with
    | some .setReset =>
      if token ∉ s.issued ∧ drawnAt ≤ s.now then
        some { s.go i (.done (.ok .sent)) with
          account := s.account.setPasswordResetToken token (drawnAt + passwordResetTtl)
          issued := s.issued ++ [token]
          replaced := s.replaced ++ s.replacing }
      else none
    | _ => none
  | .findReset i =>
    match s.calls[i]? with
    | some (.findReset token newPassword) =>
      if s.account.passwordResetToken = some token then
        some { s.go i (.checkReset token newPassword s.account.passwordResetExpiresAt) with
          presented := s.presented ++ [token] }
      else some (s.go i (.refused 400 "invalid_or_expired" none))
    | _ => none
  | .checkReset i phc =>
    match s.calls[i]? with
    | some (.checkReset token _ expiresAt) =>
      some (s.go i (if expired expiresAt s.now then .refused 400 "invalid_or_expired" none
        else match phc with
          | some phc => .completeReset token phc
          | none => .refused 500 "hash_failed" none))
    | _ => none
  | .completeReset i =>
    match s.calls[i]? with
    | some (.completeReset token phc) =>
      some { s.go i (.done (.ok .reset)) with
        account := s.account.completePasswordReset phc s.now
        resets := s.resets ++ [token] }
    | _ => none
  | .storeFails i =>
    match s.calls[i]? with
    | some phase => phase.storeFailed.map (s.go i)
    | none => none

/-! ## What the tokens prove -/

/-- An address that became the account's was staged with the token that the call presented, and
that had not expired. -/
def Mailed (s : State) : Prop :=
  ∀ c ∈ s.commits, ∃ m ∈ s.staged, m.email = c.email ∧ m.token = c.token ∧ c.checkedAt ≤ m.expiresAt

/-- A reset token sets the password once at most, and never when it was replaced before it was
presented. -/
structure ResetOnce (s : State) : Prop where
  once : s.resets.Nodup
  replaced : ∀ t ∈ s.replaced, t ∉ s.resets

/-- The address that a call is about to commit, as it has read it. -/
def Phase.committing : Phase → Option (Option String)
  | .commitPending _ pendingEmail _ => some pendingEmail
  | _ => none

/-- The token by which a call is about to set the password. -/
def Phase.completing : Phase → Option String
  | .completeReset token _ => some token
  | _ => none

/-- `commit_pending_email` finds nothing staged but what its call has read. -/
def CommitsRead (s : State) : Action → Prop
  | .commitPending i taken => taken = false → ∀ c ∈ s.calls[i]?, ∀ pendingEmail ∈ c.committing,
    s.account.pendingEmail = none ∨ s.account.pendingEmail = pendingEmail
  | _ => True

/-- `complete_password_reset` finds its call's token in the row, where the lookup found it. -/
def StillStaged (s : State) : Action → Prop
  | .completeReset i => ∀ c ∈ s.calls[i]?, ∀ token ∈ c.completing,
    s.account.passwordResetToken = some token
  | _ => True

instance : DecidableRel CommitsRead := fun s act =>
  match act with
  | .commitPending i taken => inferInstanceAs (Decidable (taken = false → ∀ c ∈ s.calls[i]?,
    ∀ pendingEmail ∈ c.committing,
      s.account.pendingEmail = none ∨ s.account.pendingEmail = pendingEmail))
  | .wait _ | .request _ | .findByEmail .. | .setPending .. | .findPending _ | .checkPending _
  | .findForReset _ | .setReset .. | .findReset _ | .checkReset .. | .completeReset _
  | .storeFails _ => .isTrue trivial

instance : DecidableRel StillStaged := fun s act =>
  match act with
  | .completeReset i => inferInstanceAs (Decidable (∀ c ∈ s.calls[i]?, ∀ token ∈ c.completing,
    s.account.passwordResetToken = some token))
  | .wait _ | .request _ | .findByEmail .. | .setPending .. | .findPending _ | .checkPending _
  | .commitPending .. | .findForReset _ | .setReset .. | .findReset _ | .checkReset ..
  | .storeFails _ => .isTrue trivial

end MailedTokens

end StarStats
