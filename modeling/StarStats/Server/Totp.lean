import StarStats.Lib.Trans
import StarStats.Server.Auth

/-!
# The second factor (`starstats-server/src/totp_routes.rs`)

The limiter of failed codes and `verify_login`, in the three parts that other requests can come
between: `openAttempt` (the token and `is_locked`), `checkCode` (which compares the code) and
`closeAttempt` (`record_failure` or `record_success`). `Totp.step` interleaves the parts of any
number of requests of one user. Times are in microseconds.
-/

namespace StarStats

/-- `TOTP_MAX_FAILS`. -/
def totpMaxFails : Nat := 5

/-- `TOTP_LOCKOUT_WINDOW`. -/
def totpLockoutWindow : Int := 300 * 1000000

structure AttemptState where
  fails : Nat
  windowStart : Timestamp
  deriving DecidableEq

/-- `TotpAttemptLimiter`. -/
abbrev TotpAttemptLimiter := Uuid → Option AttemptState

/-! ## The limiter, by a user's entry -/

/-- The window has not elapsed. -/
def AttemptState.isLive (s : AttemptState) (now : Timestamp) : Bool :=
  decide (now - s.windowStart < totpLockoutWindow)

/-- `is_locked`; an entry whose window elapsed is cleared. -/
def isLocked (now : Timestamp) (entry : Option AttemptState) : Bool × Option AttemptState :=
  match entry with
  | some s => if s.isLive now then (decide (totpMaxFails ≤ s.fails), some s) else (false, none)
  | none => (false, none)

/-- `record_failure`, with the count it returns. -/
def recordFailure (now : Timestamp) (entry : Option AttemptState) : Nat × AttemptState :=
  let s := entry.getD ⟨0, now⟩
  let s := if s.isLive now then s else ⟨0, now⟩
  (s.fails + 1, { s with fails := s.fails + 1 })

/-- `record_success`. -/
def recordSuccess : Option AttemptState := none

/-! ## `verify_login` -/

/-- What the handler asks of the stores, for one request. -/
structure VerifyEnv where
  parseUuid : String → Option Uuid
  /-- `find_by_id`: the handle, and whether TOTP is enabled. -/
  findById : Uuid → Except Unit (Option (String × Bool))
  /-- `get_totp_secret` and the decryption; the error names the failing one. -/
  decryptUserSecret : Uuid → Except String (Option (List UInt8))
  /-- `verify_now`. -/
  verifyNow : List UInt8 → String → Bool
  /-- `redeem` of the recovery codes. -/
  redeem : Uuid → String → Except Unit Bool
  signUser : Uuid → String → Option String

structure AuthResponse where
  token : String
  userId : Uuid
  claimedHandle : String
  totpRequired : Bool
  deriving DecidableEq

def tooManyAttempts : Refusal :=
  refuse 429 "too_many_attempts" (some "too many failed codes; wait, then start login again")

def looksLikeTotp (s : String) : Bool := s.utf8ByteSize == 6 && s.toList.all Char.isDigit

/-- The token and the lock; the user and his entry. -/
def openAttempt (env : VerifyEnv) (now : Timestamp) (limiter : TotpAttemptLimiter)
    (auth : AuthenticatedUser) : Except Refusal Uuid × TotpAttemptLimiter :=
  if auth.tokenType ≠ .loginInterim then
    (.error (refuse 403 "interim_token_required"
      (some "call /v1/auth/login first to obtain an interim token")), limiter)
  else
    match env.parseUuid auth.sub with
    | none => (.error (refuse 500 "bad_subject" none), limiter)
    | some userId =>
      let r := isLocked now (limiter userId)
      let limiter : TotpAttemptLimiter := fun u => if u = userId then r.2 else limiter u
      (if r.1 then .error tooManyAttempts else .ok userId, limiter)

/-- Whether the code matched, with the user's handle. -/
def checkCode (env : VerifyEnv) (userId : Uuid) (code : String) : Except Refusal (String × Bool) :=
  match env.findById userId with
  | .error () => .error (refuse 500 "internal" none)
  | .ok none => .error (refuse 401 "unauthorized" none)
  | .ok (some (_, false)) => .error (refuse 401 "totp_no_longer_required" none)
  | .ok (some (handle, true)) =>
    let trimmed := Text.trim code
    if looksLikeTotp trimmed then
      match env.decryptUserSecret userId with
      | .error e => .error (refuse 500 e none)
      | .ok none => .error (refuse 500 "internal" none)
      | .ok (some secret) => .ok (handle, env.verifyNow secret trimmed)
    else
      match env.redeem userId trimmed with
      | .error () => .error (refuse 500 "internal" none)
      | .ok matched => .ok (handle, matched)

/-- The count, and the answer. -/
def closeAttempt (env : VerifyEnv) (now : Timestamp) (limiter : TotpAttemptLimiter) (userId : Uuid)
    (handle : String) (matched : Bool) : Except Refusal AuthResponse × TotpAttemptLimiter :=
  let set (entry : Option AttemptState) : TotpAttemptLimiter :=
    fun u => if u = userId then entry else limiter u
  if matched then
    (match env.signUser userId handle with
      | some token => .ok ⟨token, userId, handle, false⟩
      | none => .error (refuse 500 "sign_failed" none), set recordSuccess)
  else
    let r := recordFailure now (limiter userId)
    (.error (if totpMaxFails ≤ r.1 then tooManyAttempts else refuse 401 "code_mismatch" none),
      set (some r.2))

/-- `verify_login` with nothing in between. -/
def verifyLogin (env : VerifyEnv) (now : Timestamp) (limiter : TotpAttemptLimiter)
    (auth : AuthenticatedUser) (code : String) : Except Refusal AuthResponse × TotpAttemptLimiter :=
  match openAttempt env now limiter auth with
  | (.error r, limiter) => (.error r, limiter)
  | (.ok userId, limiter) =>
    match checkCode env userId code with
    | .error r => (.error r, limiter)
    | .ok (handle, matched) => closeAttempt env now limiter userId handle matched

/-! ## Requests of one user, interleaved -/

namespace Totp

/-- Where a request stands that `is_locked` let through. -/
inductive Phase where
  | opened
  | compared (handle : String) (matched : Bool)
  deriving DecidableEq

structure State where
  now : Timestamp
  limiter : TotpAttemptLimiter
  requests : List Phase
  /-- Wrong codes compared since the last success or the end of the last window. -/
  wrong : Nat

def State.start (now : Timestamp) : State := ⟨now, fun _ => none, [], 0⟩

inductive Action where
  | wait (d : Nat)
  | begin (env : VerifyEnv) (auth : AuthenticatedUser)
  | check (i : Nat) (env : VerifyEnv) (code : String)
  | record (i : Nat) (env : VerifyEnv)

section
variable (userId : Uuid)

/-- The failures that count against the user now. -/
def State.liveFails (s : State) : Nat :=
  match s.limiter userId with
  | some e => if e.isLive s.now then e.fails else 0
  | none => 0

/-- The user's window is open. -/
def State.windowOpen (s : State) : Bool :=
  match s.limiter userId with
  | some e => e.isLive s.now
  | none => false

def step (s : State) : Action → Option State
  | .wait d =>
    let s' := { s with now := s.now + d }
    some { s' with wrong := if s.windowOpen userId && !s'.windowOpen userId then 0 else s.wrong }
  | .begin env auth =>
    -- a request of another user is no step of this system
    if env.parseUuid auth.sub ≠ some userId then none
    else
      match openAttempt env s.now s.limiter auth with
      | (.error _, limiter) => some { s with limiter := limiter }
      | (.ok _, limiter) => some { s with limiter := limiter, requests := s.requests ++ [.opened] }
  | .check i env code =>
    match s.requests[i]? with
    | some .opened =>
      match checkCode env userId code with
      | .error _ => some { s with requests := s.requests.eraseIdx i }
      | .ok (handle, matched) => some
        { s with
          requests := s.requests.set i (.compared handle matched)
          wrong := if matched then s.wrong else s.wrong + 1 }
    | _ => none
  | .record i env =>
    match s.requests[i]? with
    | some (.compared handle matched) => some
      { s with
        limiter := (closeAttempt env s.now s.limiter userId handle matched).2
        requests := s.requests.eraseIdx i
        wrong := if matched then 0 else s.wrong }
    | _ => none

/-- A request is let through only while the failures and the requests under way, each of which
may turn out to be one, are below the limit together. -/
def Counted (s : State) : Action → Prop
  | .begin _ _ => totpMaxFails ≤ s.liveFails userId ∨
      s.liveFails userId + s.requests.length < totpMaxFails
  | _ => True

end

end Totp

end StarStats
