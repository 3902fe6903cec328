import StarStats.Lib.Text
import StarStats.Server.Repo

/-!
# Who is calling (`starstats-server/src/auth.rs`, `handle_renames.rs`, `restriction_guard.rs`)

The extractors that run before a handler. What they ask of the outside (the token check, the
stores they read) is an `AuthEnv`; an error of a store is `.error ()`.
-/

namespace StarStats

/-- A UUID in its canonical text. -/
abbrev Uuid := String

inductive TokenType where
  | user
  | device
  | loginInterim
  deriving DecidableEq

/-- The verified claims that the server reads. -/
structure Claims where
  sub : String
  iat : Nat
  preferredUsername : String
  tokenType : TokenType
  deviceId : Option Uuid
  deriving DecidableEq

structure AuthenticatedUser where
  sub : String
  preferredUsername : String
  tokenType : TokenType
  deviceId : Option Uuid
  deriving DecidableEq

inductive AuthError where
  | missingToken
  | badHeader (reason : String)
  | unsupportedAlgorithm
  | unknownKey
  | invalidToken (reason : String)
  | keypair (reason : String)
  | unavailable (reason : String)
  deriving DecidableEq

/-! ## Answers -/

inductive ErrorBody where
  | api (error : String) (detail : Option String)
  | restricted (capability reason : String)
  deriving DecidableEq

/-- An answer other than success. -/
structure Refusal where
  status : Nat
  body : ErrorBody
  deriving DecidableEq

def refuse (status : Nat) (error : String) (detail : Option String) : Refusal :=
  ⟨status, .api error detail⟩

def AuthError.refusal : AuthError → Refusal
  | .unavailable _ => refuse 503 "unavailable" none
  | _ => refuse 401 "unauthorized" none

/-! ## The handle index -/

structure RenamedAccount where
  currentHandle : String
  previousHandles : List String
  lastRenamedAt : Timestamp

abbrev HandleIndex := Uuid → Option RenamedAccount

/-- The handle a token should act as, when that is not the one it names. -/
def HandleIndex.resolve (index : HandleIndex) (userId : Uuid) (tokenHandle : String)
    (issuedAt : Nat) : Option String :=
  match index userId with
  | none => none
  | some acct =>
    if Text.eqIgnoreAsciiCase acct.currentHandle tokenHandle then none
    -- whole seconds; a time before the epoch counts as the epoch
    else if issuedAt ≤ (acct.lastRenamedAt / 1000000).toNat then some acct.currentHandle
    else none

/-! ## Restrictions -/

inductive Capability where
  | ingest
  | sharing
  | publicProfile
  | submissions
  | chat
  deriving DecidableEq

def Capability.asStr : Capability → String
  | .ingest => "ingest"
  | .sharing => "sharing"
  | .publicProfile => "public_profile"
  | .submissions => "submissions"
  | .chat => "chat"

structure Restriction where
  ingestBlocked : Bool
  sharingBlocked : Bool
  publicProfileBlocked : Bool
  submissionsBlocked : Bool
  chatBlocked : Bool
  reason : String

def Restriction.blocks (r : Restriction) : Capability → Bool
  | .ingest => r.ingestBlocked
  | .sharing => r.sharingBlocked
  | .publicProfile => r.publicProfileBlocked
  | .submissions => r.submissionsBlocked
  | .chat => r.chatBlocked

/-! ## The extractors -/

inductive DeviceAuthStatus where
  | active
  | revoked
  | missing
  deriving DecidableEq

structure AuthEnv where
  /-- `AuthVerifier::verify`. -/
  verify : String → Except AuthError Claims
  parseUuid : String → Option Uuid
  /-- The `HandleIndex` extension, where it is installed. -/
  handleIndex : Option HandleIndex
  deviceAuthStatus : Uuid → Except Unit DeviceAuthStatus
  /-- `effective` of the `AccountRestrictionStore`, where it is installed. -/
  restrictions : Option (Uuid → Except Unit (Option Restriction))
  /-- `sync_enabled_for` of the `DeviceStore`, by user and device. -/
  syncEnabledFor : Uuid → Uuid → Except Unit (Option Bool)
  /-- `sign_device` of the `TokenIssuer`, by subject, handle and device. -/
  signDevice : String → String → Uuid → Option String

namespace AuthEnv

/-- The account's current handle, for a token issued before a rename. -/
def currentHandle (env : AuthEnv) (claims : Claims) : String :=
  match env.handleIndex, env.parseUuid claims.sub with
  | some index, some sub =>
    (index.resolve sub claims.preferredUsername claims.iat).getD claims.preferredUsername
  | _, _ => claims.preferredUsername

/-- `FromRequestParts for AuthenticatedUser`. -/
def authenticate (env : AuthEnv) (bearer : Option String) : Except AuthError AuthenticatedUser :=
  match bearer with
  | none => .error .missingToken
  | some token =>
    match env.verify token with
    | .error e => .error e
    | .ok claims =>
      let user : AuthenticatedUser :=
        { sub := claims.sub
          preferredUsername := env.currentHandle claims
          tokenType := claims.tokenType
          deviceId := claims.deviceId }
      match claims.tokenType with
      | .device =>
        match claims.deviceId with
        | none => .error (.invalidToken "device token without device_id claim")
        | some deviceId =>
          match env.deviceAuthStatus deviceId with
          | .ok .active => .ok user
          | .ok .revoked => .error (.invalidToken "device revoked")
          | .ok .missing => .error (.invalidToken "device not found")
          | .error () => .error (.unavailable "device check failed")
      | _ => .ok user

/-- `FromRequestParts for RequireUnrestricted<C>`. -/
def requireUnrestricted (env : AuthEnv) (capability : Capability) (bearer : Option String) :
    Except Refusal AuthenticatedUser :=
  let unavailable := refuse 503 "restriction_check_unavailable" none
  match env.authenticate bearer with
  | .error e => .error e.refusal
  | .ok user =>
    match env.parseUuid user.sub, env.restrictions with
    | none, _ => .error unavailable
    | _, none => .error unavailable
    | some userId, some effective =>
      match effective userId with
      | .error () => .error unavailable
      | .ok none => .ok user
      | .ok (some restriction) =>
        if restriction.blocks capability then
          .error ⟨403, .restricted capability.asStr restriction.reason⟩
        else .ok user

end AuthEnv

end StarStats
