import StarStats.Lib.Calls
import StarStats.Lib.Text
import StarStats.Lib.Trans
import StarStats.Server.Auth

/-!
# Recovery codes (`starstats-server/src/recovery_codes.rs`)

The codes of one user, statement by statement under `READ COMMITTED`: the committed rows and the
calls under way. `regenerate_for_user` is a transaction of a `DELETE` and ten `INSERT`s; a `DELETE`
works on the rows that were committed when it started, waits for the transactions that have deleted
one of them, and passes over those that are gone by then. `redeem` reads the unused rows, compares,
and marks the row that matched. Any call can fail at any point, and its transaction is then undone.
-/

namespace StarStats

/-- `NUM_CODES`. -/
def numCodes : Nat := 10

def upperHexDigit (n : Nat) : Char := "0123456789ABCDEF".toList.getD n '0'

/-- `generate_code`, from the bytes it draws. -/
def generateCode (bytes : Vector UInt8 8) : String :=
  let hex := bytes.toList.flatMap
    fun b => [upperHexDigit (b.toNat / 16), upperHexDigit (b.toNat % 16)]
  String.ofList (hex.take 4 ++ '-' :: (hex.drop 4).take 4 ++ '-' :: (hex.drop 8).take 4 ++
    '-' :: (hex.drop 12).take 4)

/-- `hash_password` and `verify_password` of `users.rs`, taken as exact, and `to_uppercase`. -/
structure Hashing where
  hashPassword : (salt code : String) → String
  verifyPassword : (candidate hash : String) → Bool
  exact : ∀ salt code candidate,
    verifyPassword candidate (hashPassword salt code) = true ↔ candidate = code
  toUppercase : String → String

/-- `normalise`. -/
def Hashing.normalise (h : Hashing) (candidate : String) : String :=
  h.toUppercase (String.ofList (candidate.toList.filter (!Text.isWhitespace ·)))

namespace RecoveryCodes

/-- A generated code, with the salt of its hash. -/
structure Issued where
  bytes : Vector UInt8 8
  salt : String
  deriving DecidableEq

def Issued.code (e : Issued) : String := generateCode e.bytes

def Issued.codeHash (h : Hashing) (e : Issued) : String := h.hashPassword e.salt e.code

structure Row where
  id : Uuid
  codeHash : String
  usedAt : Option Timestamp
  deriving DecidableEq

inductive RegeneratePhase where
  /-- The codes are generated and hashed, the transaction is open. -/
  | begun
  /-- The `DELETE` is under way. -/
  | deleting (snapshot : List Uuid)
  | writing (deleted : List Uuid) (inserted : List Row) (rest : List Issued)
  | committed
  | failed
  deriving DecidableEq

inductive RedeemPhase where
  | begun
  /-- The row that matched. -/
  | matched (id : Uuid)
  | answered (accepted : Bool)
  | failed
  deriving DecidableEq

inductive ClearPhase where
  | begun
  | deleting (snapshot : List Uuid)
  | cleared
  | failed
  deriving DecidableEq

inductive Call where
  | regenerate (batch : List Issued) (phase : RegeneratePhase)
  | redeem (candidate : String) (phase : RedeemPhase)
  | clear (phase : ClearPhase)
  deriving DecidableEq

namespace Call

def batch : Call → List Issued
  | .regenerate batch _ => batch
  | _ => []

def codes (c : Call) : List String := c.batch.map (·.code)

/-- A regenerate from the start of its `DELETE` to its end. -/
def replacing : Call → Bool
  | .regenerate _ (.deleting _) | .regenerate _ (.writing ..) => true
  | _ => false

/-- A regenerate or clear that has not returned. -/
def inFlight : Call → Bool
  | .regenerate _ .committed | .regenerate _ .failed => false
  | .regenerate _ _ => true
  | .redeem _ _ => false
  | .clear .cleared | .clear .failed => false
  | .clear _ => true

/-- The rows that the call's transaction has deleted. -/
def deleted : Call → List Uuid
  | .regenerate _ (.writing deleted _ _) => deleted
  | _ => []

/-- The call ends without effect. -/
def fail : Call → Call
  | .regenerate batch _ => .regenerate batch .failed
  | .redeem candidate _ => .redeem candidate .failed
  | .clear _ => .clear .failed

def returned : Call → Bool
  | .redeem _ (.answered _) | .redeem _ .failed => true
  | .redeem _ _ => false
  | c => !c.inFlight

end Call

structure State where
  /-- The committed rows. -/
  table : List Row
  calls : List Call
  /-- Every id that was drawn, with the hash of its row. -/
  drawn : List (Uuid × String)
  /-- The candidates that were accepted, normalised. -/
  accepted : List String
  deriving DecidableEq

def State.start : State := ⟨[], [], [], []⟩

inductive Action where
  | regenerate (batch : List Issued)
  | redeem (candidate : String)
  | clear
  | startDelete (call : Nat)
  | endDelete (call : Nat)
  | insert (call : Nat) (id : Uuid)
  | commit (call : Nat)
  | select (call : Nat)
  | burn (call : Nat) (now : Timestamp)
  | startClear (call : Nat)
  | endClear (call : Nat)
  | fail (call : Nat)

namespace State

def ids (s : State) : List Uuid := s.table.map (·.id)

/-- The codes generated so far. -/
def codes (s : State) : List String := s.calls.flatMap (·.codes)

/-- The codes of a regenerate call. -/
def batch (s : State) (call : Nat) : List String := (s.calls[call]?).elim [] (·.codes)

def push (s : State) (c : Call) : State := { s with calls := s.calls ++ [c] }

def setCall (s : State) (i : Nat) (c : Call) : State := { s with calls := s.calls.set i c }

/-- One of the rows is deleted by a transaction that is open. -/
def locked (s : State) (ids : List Uuid) : Bool :=
  s.calls.any fun c => c.deleted.any (· ∈ ids)

/-- A candidate that a redeem would accept. -/
def Redeemable (h : Hashing) (s : State) (code : String) : Prop :=
  ∃ row ∈ s.table, row.usedAt = none ∧ h.verifyPassword code row.codeHash = true

/-- No regenerate or clear is in flight. -/
def Idle (s : State) : Prop := ∀ c ∈ s.calls, c.inFlight = false

instance (s : State) : Decidable s.Idle := inferInstanceAs (Decidable (∀ c ∈ _, _))

end State

def step (h : Hashing) (s : State) : Action → Option State
  | .regenerate batch =>
    -- the codes are distinct, from each other and from those before
    if batch.length = numCodes ∧ (s.codes ++ batch.map (·.code)).Nodup then
      some (s.push (.regenerate batch .begun))
    else none
  | .redeem candidate => some (s.push (.redeem candidate .begun))
  | .clear => some (s.push (.clear .begun))
  | .startDelete i =>
    match s.calls[i]? with
    | some (.regenerate batch .begun) => some (s.setCall i (.regenerate batch (.deleting s.ids)))
    | _ => none
  | .endDelete i =>
    match s.calls[i]? with
    | some (.regenerate batch (.deleting snapshot)) =>
      if s.locked snapshot then none
      else
        let deleted := s.ids.filter (· ∈ snapshot)
        some (s.setCall i (.regenerate batch (.writing deleted [] batch)))
    | _ => none
  | .insert i id =>
    match s.calls[i]? with
    | some (.regenerate batch (.writing deleted inserted (e :: rest))) =>
      -- the key is new
      if s.drawn.any (·.1 = id) then none
      else
        let row : Row := ⟨id, e.codeHash h, none⟩
        some { s.setCall i (.regenerate batch (.writing deleted (inserted ++ [row]) rest)) with
          drawn := s.drawn ++ [(id, row.codeHash)] }
    | _ => none
  | .commit i =>
    match s.calls[i]? with
    | some (.regenerate batch (.writing deleted inserted [])) =>
      some { s.setCall i (.regenerate batch .committed) with
        table := s.table.filter (·.id ∉ deleted) ++ inserted }
    | _ => none
  | .select i =>
    match s.calls[i]? with
    | some (.redeem candidate .begun) =>
      let matching := (s.table.filter (·.usedAt.isNone)).find?
        fun row => h.verifyPassword (h.normalise candidate) row.codeHash
      some (s.setCall i (.redeem candidate (matching.elim (.answered false) (.matched ·.id))))
    | _ => none
  | .burn i now =>
    match s.calls[i]? with
    | some (.redeem candidate (.matched id)) =>
      if s.locked [id] then none
      else
        let accepted := s.table.any fun row => row.id = id && row.usedAt.isNone
        some { s.setCall i (.redeem candidate (.answered accepted)) with
          table := s.table.map fun row =>
            if row.id = id ∧ row.usedAt = none then { row with usedAt := some now } else row
          accepted := if accepted then s.accepted ++ [h.normalise candidate] else s.accepted }
    | _ => none
  | .startClear i =>
    match s.calls[i]? with
    | some (.clear .begun) => some (s.setCall i (.clear (.deleting s.ids)))
    | _ => none
  | .endClear i =>
    match s.calls[i]? with
    | some (.clear (.deleting snapshot)) =>
      if s.locked snapshot then none
      else some { s.setCall i (.clear .cleared) with
        table := s.table.filter (·.id ∉ snapshot) }
    | _ => none
  | .fail i =>
    match s.calls[i]? with
    | some c => if c.returned then none else some (s.setCall i c.fail)
    | none => none

/-- The redeemable codes are all of one regenerate call. -/
def SingleBatch (h : Hashing) (s : State) : Prop :=
  ∃ call, ∀ code, s.Redeemable h code → code ∈ s.batch call

/-- A regenerate does not start its `DELETE` while another one is between its `DELETE` and its
end. -/
def OneAtATime (s : State) : Action → Prop
  | .startDelete _ => ∀ c ∈ s.calls, c.replacing = false
  | _ => True

instance : DecidableRel OneAtATime
  | s, .startDelete _ => inferInstanceAs (Decidable (∀ c ∈ s.calls, c.replacing = false))
  | _, .regenerate _ | _, .redeem _ | _, .clear | _, .endDelete _ | _, .insert .. | _, .commit _
  | _, .select _ | _, .burn .. | _, .startClear _ | _, .endClear _ | _, .fail _ => .isTrue trivial

end RecoveryCodes

end StarStats
