import Mathlib.Data.List.Sort
import Mathlib.Data.String.Basic
import StarStats.Core.Inference
import StarStats.Lib.Text

/-!
# Transactions (`starstats-core/src/transactions.rs`)

Each response is paired with the latest request before it that is still open and whose shop is not
known to be another one; the other requests age. Timestamps are compared as texts here, while the
rule for the timed-out request (`builtInImplicitShopRequestTimeout`) compares the times.
-/

namespace StarStats

open Events

inductive TransactionKind where
  | shop
  | commodityBuy
  | commoditySell
  deriving DecidableEq

inductive TransactionStatus where
  | pending
  | confirmed
  | rejected
  | timedOut
  | submitted
  deriving DecidableEq

structure Transaction where
  kind : TransactionKind
  status : TransactionStatus
  startedAt : String
  confirmedAt : Option String
  shopId : Option String
  item : Option String
  quantity : Option Fp
  rawRequest : String
  rawResponse : Option String
  deriving DecidableEq

/-! ## The clock -/

/-- `i64::from_str` on a text without a sign. -/
def parseI64 (digits : List Char) : Option Int64 :=
  let value := digits.foldl (fun n c => 10 * n + (c.toNat - '0'.toNat)) 0
  if digits ≠ [] ∧ digits.all Char.isDigit ∧ value < 2 ^ 63 then some (Int64.ofNat value) else none

/-- Days since 1970-01-01, as the arithmetic of a release build wraps. -/
def daysFromCivil (y m d : Int64) : Int64 :=
  let y := if m ≤ 2 then y - 1 else y
  let era := (if 0 ≤ y then y else y - 399) / 400
  let yoe := (y - era * 400).toUInt64
  let mU := m.toUInt64
  let dU := d.toUInt64
  let doy := (153 * (if 2 < mU then mU - 3 else mU + 9) + 2) / 5 + dU - 1
  let doe := yoe * 365 + yoe / 4 - yoe / 100 + doy
  era * 146097 + doe.toInt64 - 719468

def parseIsoSecs (s : String) : Option Int64 :=
  if s.isEmpty then none
  else
    let normalised := s.toList.map fun c => if c = 'T' then ' ' else c
    let primary := ((normalised.takeWhile (· ≠ '.')).takeWhile (· ≠ '+')).takeWhile (· ≠ 'Z')
    let parts := Text.fields (fun c => c == ' ' || c == '-' || c == ':')
      (Text.trim (String.ofList primary)).toList
    match parts.map parseI64 with
    | some y :: some mo :: some d :: some h :: some mi :: some se :: _ =>
      some (daysFromCivil y mo d * 86400 + h * 3600 + mi * 60 + se)
    | _ => none

def ageStatus (startedAt : String) (nowSecs : Option Int64) (windowSecs : Int64) :
    TransactionStatus :=
  match nowSecs, parseIsoSecs startedAt with
  | some now, some start => if windowSecs < now - start then .timedOut else .pending
  | _, _ => .pending

/-! ## Pairing -/

/-- A request, and the response it is paired with. -/
abbrev ShopPair := ShopBuyRequest × Option ShopFlowResponse

def shopRequest : GameEvent → Option ShopBuyRequest
  | .shopBuyRequest r => some r
  | _ => none

def shopResponse : GameEvent → Option ShopFlowResponse
  | .shopFlowResponse r => some r
  | _ => none

def commodityBuy : GameEvent → Option CommodityBuyRequest
  | .commodityBuyRequest r => some r
  | _ => none

def commoditySell : GameEvent → Option CommoditySellRequest
  | .commoditySellRequest r => some r
  | _ => none

/-- A request that the response may answer. -/
def awaits (resp : ShopFlowResponse) (pair : ShopPair) : Bool :=
  pair.2.isNone && shopsMatch resp.shopId pair.1.shopId && pair.1.timestamp ≤ resp.timestamp

/-- `max_by`: of equals the later one. -/
def laterRequest (best : Option (ShopPair × Nat)) (next : ShopPair × Nat) :
    Option (ShopPair × Nat) :=
  match best with
  | some b => if next.1.1.timestamp < b.1.1.timestamp then some b else some next
  | none => some next

def pick (pairs : List ShopPair) (resp : ShopFlowResponse) : Option Nat :=
  ((pairs.zipIdx.filter (awaits resp ·.1)).foldl laterRequest none).map (·.2)

def pairResponse (pairs : List ShopPair) (resp : ShopFlowResponse) : List ShopPair :=
  match pick pairs resp with
  | some idx => pairs.modify idx fun pair => (pair.1, some resp)
  | none => pairs

def pairShop (events : List GameEvent) : List ShopPair :=
  (events.filterMap shopResponse).foldl pairResponse
    ((events.filterMap shopRequest).map fun req => (req, none))

def shopTransaction (nowSecs : Option Int64) (windowSecs : Int64) (pair : ShopPair) :
    Transaction where
  kind := .shop
  status := match pair.2 with
    | some resp => if resp.success = some false then .rejected else .confirmed
    | none => ageStatus pair.1.timestamp nowSecs windowSecs
  startedAt := pair.1.timestamp
  confirmedAt := pair.2.map (·.timestamp)
  shopId := pair.1.shopId
  item := pair.1.itemClass
  quantity := pair.1.quantity.map fun q => .num q.toNat
  rawRequest := pair.1.raw
  rawResponse := pair.2.map (·.raw)

def commodityTransaction (kind : TransactionKind) (timestamp : String) (commodity : Option String)
    (quantity : Option Fp) (raw : String) : Transaction where
  kind := kind
  status := .submitted
  startedAt := timestamp
  confirmedAt := none
  shopId := none
  item := commodity
  quantity := quantity
  rawRequest := raw
  rawResponse := none

def pairTransactions (events : List GameEvent) (now : String) (windowSecs : Int64) :
    List Transaction :=
  let shops := (pairShop events).map (shopTransaction (parseIsoSecs now) windowSecs)
  let buys := (events.filterMap commodityBuy).map fun buy =>
    commodityTransaction .commodityBuy buy.timestamp buy.commodity buy.quantity buy.raw
  let sells := (events.filterMap commoditySell).map fun sell =>
    commodityTransaction .commoditySell sell.timestamp sell.commodity sell.quantity sell.raw
  (shops ++ buys ++ sells).insertionSort (·.startedAt ≤ ·.startedAt)

/-! ## The two deciders -/

/-- The transaction of the request is `Confirmed` by this response. -/
def ConfirmedBy (events : List GameEvent) (now : String) (windowSecs : Int64)
    (req : ShopBuyRequest) (resp : ShopFlowResponse) : Prop :=
  (req, some resp) ∈ pairShop events ∧
    ∃ tx ∈ pairTransactions events now windowSecs, tx.status = .confirmed ∧
      tx = shopTransaction (parseIsoSecs now) windowSecs (req, some resp)

def NotTimedOut (parseTs : String → Option Int) (config : InferenceConfig)
    (events : List EventEnvelope) : Prop :=
  ∀ row ∈ inferWithRules parseTs events config builtInInferenceRules, ∀ e,
    row.event ≠ .shopRequestTimedOut e

/-- The response is not further behind the request than the rule looks. -/
def WithinReach (config : InferenceConfig) (events : List EventEnvelope) (req : ShopBuyRequest)
    (resp : ShopFlowResponse) : Prop :=
  ∀ before env after, events = before ++ env :: after → env.event = some (.shopBuyRequest req) →
    ∃ z ∈ before ++ env :: after.take config.windowSize, z.event = some (.shopFlowResponse resp)

end StarStats
