import StarStats.Lib.Trans
import StarStats.Server.HandleClaims

/-!
# Tokens across renames (`starstats-server/src/auth.rs`)

A token is minted in two steps, the account's handle is read and later signed with the current
second as `iat`; a rename takes its time when the request starts and commits later with that time.
The index is taken as the committed renames of the last 90 days. A commit checks and writes at
once here; a sign-up does too.
-/

namespace StarStats

open Text (lower)

/-- The lifetime of a token, in seconds (`user_ttl_secs`, `device_ttl_secs`). -/
def tokenTtl : TokenType → Nat
  | .user => 3600
  | .device => 90 * 86400
  | .loginInterim => 300

/-- `leeway_seconds`. -/
def leewaySeconds : Nat := 60

/-- The second that a time falls in; a time before the epoch counts as the epoch. -/
def unixSeconds (t : Timestamp) : Nat := (t / 1000000).toNat

/-- `sign`: the claims of a token signed now; `exp` is `iat` and the lifetime. -/
def signedClaims (now : Timestamp) (sub preferredUsername : String) (tokenType : TokenType)
    (deviceId : Option Uuid) : Claims :=
  ⟨sub, unixSeconds now, preferredUsername, tokenType, deviceId⟩

/-- The expiry check of `verify`. -/
def notExpired (now : Timestamp) (claims : Claims) : Bool :=
  decide (unixSeconds now ≤ claims.iat + tokenTtl claims.tokenType + leewaySeconds)

/-- The handle that the extractor makes of the token. -/
def actsAs (index : HandleIndex) (claims : Claims) : String :=
  (index.resolve claims.sub claims.preferredUsername claims.iat).getD claims.preferredUsername

/-- That is `AuthEnv.currentHandle` where the index is installed and the subject is an id. -/
theorem actsAs_eq {env : AuthEnv} {index : HandleIndex} {claims : Claims}
    (hindex : env.handleIndex = some index) (hsub : env.parseUuid claims.sub = some claims.sub) :
    env.currentHandle claims = actsAs index claims := by
  simp [AuthEnv.currentHandle, actsAs, hindex, hsub]

namespace TokenRenames

/-- A handle that was read for a token. -/
structure Minting where
  userId : Uuid
  handle : String
  tokenType : TokenType
  deviceId : Option Uuid

structure Renaming where
  userId : Uuid
  newHandle : String
  startedAt : Timestamp

structure State where
  now : Timestamp
  users : List Account
  renames : List HandleRename
  minting : List Minting
  tokens : List Claims
  underway : List Renaming

def State.start (now : Timestamp) : State := ⟨now, [], [], [], [], []⟩

/-- The committed renames of the last 90 days. -/
def State.index (s : State) : HandleIndex :=
  .replaceAll (recentRenames (s.now - reservation) s.renames)

inductive Action where
  | wait (d : Nat)
  | signUp (userId : Uuid) (handle : String)
  | read (userId : Uuid) (tokenType : TokenType) (deviceId : Option Uuid)
  | sign (i : Nat)
  | startRename (userId : Uuid) (newHandle : String)
  | commitRename (i : Nat) (id : Uuid)

/-- The checks of a rename, with the time that it started at. -/
def refused (s : State) (u : Account) (newHandle : String) (startedAt : Timestamp) : Bool :=
  !Text.eqIgnoreAsciiCase u.claimedHandle newHandle &&
    (handleTaken s.users u.id newHandle || handleReserved s.renames u.id newHandle startedAt)

def step (s : State) : Action → Option State
  | .wait d => some { s with now := s.now + d }
  | .signUp userId handle =>
    if s.users.any (·.id = userId) then none
    else if handleHeld s.renames handle s.now || handleTaken s.users userId handle then some s
    else some { s with users := s.users ++ [.created userId handle s.now] }
  | .read userId tokenType deviceId =>
    (s.users.find? (·.id = userId)).map fun u =>
      { s with minting := s.minting ++ [⟨userId, u.claimedHandle, tokenType, deviceId⟩] }
  | .sign i =>
    s.minting[i]?.map fun m =>
      { s with
        minting := s.minting.eraseIdx i
        tokens := s.tokens ++ [signedClaims s.now m.userId m.handle m.tokenType m.deviceId] }
  | .startRename userId newHandle =>
    some { s with underway := s.underway ++ [⟨userId, newHandle, s.now⟩] }
  | .commitRename i id =>
    match s.underway[i]? with
    | none => none
    | some rn =>
      let rest := { s with underway := s.underway.eraseIdx i }
      match s.users.find? (·.id = rn.userId) with
      | none => some rest
      | some u =>
        match evaluateRename u.renameSubject rn.newHandle rn.startedAt with
        | .error _ => some rest
        | .ok kind =>
          if refused s u rn.newHandle rn.startedAt then some rest
          else some
            { rest with
              users := s.users.map fun v =>
                if v.id = u.id then u.renamed rn.newHandle rn.startedAt else v
              renames := s.renames ++ [u.renameRecord id rn.newHandle kind rn.startedAt] }

/-- Every token that is accepted acts as its account's current handle, which no other account
holds. -/
def TokensRight (s : State) : Prop :=
  ∀ c ∈ s.tokens, notExpired s.now c = true →
    (∃ u ∈ s.users, u.id = c.sub ∧ lower (actsAs s.index c) = lower u.claimedHandle) ∧
      ∀ v ∈ s.users, v.id ≠ c.sub → lower v.claimedHandle ≠ lower (actsAs s.index c)

/-- A rename at `t` has the token swapped for as long as the token is accepted: it was issued no
later than the rename's second, and expires with its leeway before the rename leaves the index. -/
def Covers (t : Timestamp) (c : Claims) : Prop :=
  c.iat ≤ unixSeconds t ∧
    ((c.iat + tokenTtl c.tokenType + leewaySeconds + 1 : Nat) : Int) * 1000000 - 1 ≤ t + reservation

instance (t : Timestamp) (c : Claims) : Decidable (Covers t c) := inferInstanceAs (Decidable (_ ∧ _))

/-- A token is signed with a handle that the account still has, or that its last rename covers; a
rename commits when it covers every accepted token that names the handle it gives up. -/
def Timely (s : State) : Action → Prop
  | .sign i => ∀ m ∈ s.minting[i]?, ∀ u ∈ s.users, u.id = m.userId →
      lower m.handle = lower u.claimedHandle ∨ ∃ t ∈ u.lastHandleChangeAt,
        Covers t (signedClaims s.now m.userId m.handle m.tokenType m.deviceId)
  | .commitRename i _ => ∀ rn ∈ s.underway[i]?, ∀ u ∈ s.users, u.id = rn.userId →
      ∀ c ∈ s.tokens, c.sub = u.id → notExpired s.now c = true →
        lower c.preferredUsername = lower u.claimedHandle →
        lower c.preferredUsername ≠ lower rn.newHandle → Covers rn.startedAt c
  | _ => True

instance : DecidableRel Timely
  | _, .wait _ => .isTrue trivial
  | _, .signUp .. => .isTrue trivial
  | _, .read .. => .isTrue trivial
  | s, .sign i => inferInstanceAs (Decidable (∀ m ∈ s.minting[i]?, ∀ u ∈ s.users,
      u.id = m.userId → lower m.handle = lower u.claimedHandle ∨ ∃ t ∈ u.lastHandleChangeAt,
        Covers t (signedClaims s.now m.userId m.handle m.tokenType m.deviceId)))
  | _, .startRename .. => .isTrue trivial
  | s, .commitRename i _ => inferInstanceAs (Decidable (∀ rn ∈ s.underway[i]?, ∀ u ∈ s.users,
      u.id = rn.userId → ∀ c ∈ s.tokens, c.sub = u.id → notExpired s.now c = true →
        lower c.preferredUsername = lower u.claimedHandle →
        lower c.preferredUsername ≠ lower rn.newHandle → Covers rn.startedAt c))

end TokenRenames

end StarStats
