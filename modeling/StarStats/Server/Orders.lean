import StarStats.Lib.Calls
import StarStats.Lib.Text
import StarStats.Lib.Trans
import StarStats.Server.HandleRenames
import StarStats.Server.SharedReads

/-!
# Donations (`starstats-server/src/orders.rs`, `supporters.rs`, `revolut_routes.rs`)

`checkout` lands a pending order, has the merchant create its own and stores the merchant's id;
`webhook` records a delivery, looks the order up, marks its state and, when the order is completed,
the user as a supporter. The system is the three tables, the orders that the merchant has created,
and the checkouts and deliveries under way, each of whose store calls is a step of its own and may
fail without effect. The merchant delivers any event of an order it has created, any number of
times. A delivery here has passed the signature check and the parsing of its body.
-/

namespace StarStats

/-! ## Orders -/

inductive OrderState where
  | pending
  | completed
  | cancelled
  | failed
  | refunded
  deriving DecidableEq

structure RevolutOrderRow where
  id : Uuid
  userId : Uuid
  revolutOrderId : Option String
  tierKey : String
  amountMinor : Int
  currency : String
  namePlateAtCheckout : Option String
  state : OrderState
  checkoutUrl : Option String
  createdAt : Timestamp
  completedAt : Option Timestamp
  deriving DecidableEq

structure NewOrder where
  userId : Uuid
  tierKey : String
  amountMinor : Int
  currency : String
  namePlate : Option String
  deriving DecidableEq

/-- `create_pending`. -/
def createPending (id : Uuid) (new : NewOrder) (now : Timestamp) (orders : List RevolutOrderRow) :
    List RevolutOrderRow :=
  orders ++ [⟨id, new.userId, none, new.tierKey, new.amountMinor, new.currency, new.namePlate,
    .pending, none, now, none⟩]

/-- `attach_revolut_details`; `none` is `NotFound`. -/
def attachRevolutDetails (localId : Uuid) (revolutOrderId checkoutUrl : String)
    (orders : List RevolutOrderRow) : Option (List RevolutOrderRow) :=
  if orders.any (·.id = localId) then
    some (orders.map fun row =>
      if row.id = localId then
        { row with revolutOrderId := some revolutOrderId, checkoutUrl := some checkoutUrl }
      else row)
  else none

/-- `find_by_revolut_id`. -/
def findByRevolutId (revolutOrderId : String) (orders : List RevolutOrderRow) :
    Option RevolutOrderRow :=
  orders.find? (·.revolutOrderId = some revolutOrderId)

/-- `mark_state`; `none` is `NotFound`. -/
def markState (revolutOrderId : String) (state : OrderState) (now : Timestamp)
    (orders : List RevolutOrderRow) : Option (List RevolutOrderRow) :=
  if orders.any (·.revolutOrderId = some revolutOrderId) then
    some (orders.map fun row =>
      if row.revolutOrderId = some revolutOrderId then
        { row with
          state := state
          completedAt := if state = .completed then some now else none }
      else row)
  else none

/-! ## Supporters -/

/-- A row of `supporter_status`. -/
structure SupporterRow where
  userId : Uuid
  state : SupporterState
  namePlate : Option String
  becameSupporterAt : Option Timestamp
  lastPaymentAt : Option Timestamp
  graceUntil : Option Timestamp
  cancelledAt : Option Timestamp
  updatedAt : Timestamp
  deriving DecidableEq

/-- `mark_payment_received`: one upsert. -/
def markPaymentReceived (userId : Uuid) (namePlate : Option String) (coverageUntil now : Timestamp)
    (supporters : List SupporterRow) : List SupporterRow :=
  if supporters.any (·.userId = userId) then
    supporters.map fun s =>
      if s.userId = userId then
        { s with
          state := .active
          namePlate := namePlate.orElse fun _ => s.namePlate
          becameSupporterAt := s.becameSupporterAt.orElse fun _ => some now
          lastPaymentAt := some now
          graceUntil := some coverageUntil
          cancelledAt := none
          updatedAt := now }
      else s
  else
    supporters ++
      [⟨userId, .active, namePlate, some now, some now, some coverageUntil, none, now⟩]

/-! ## Checkout -/

structure Tier where
  key : String
  amountMinor : Int
  currency : String

/-- `TIERS`. -/
def tiers : List Tier :=
  [⟨"coffee", 300, "GBP"⟩, ⟨"standard", 500, "GBP"⟩, ⟨"generous", 1500, "GBP"⟩]

/-- `NAME_PLATE_MAX_CHARS`. -/
def namePlateMaxChars : Nat := 28

/-- `COVERAGE_DAYS`. -/
def coverage : Int := days 30

/-- What `checkout` lands, from the request. -/
def checkoutOrder (userId : Uuid) (tierKey : String) (namePlate : Option String) :
    Except Refusal NewOrder :=
  match tiers.find? (·.key = tierKey) with
  | none => .error (refuse 400 "unknown_tier" none)
  | some tier =>
    let namePlate := (namePlate.map Text.trim).filter (· ≠ "")
    if namePlate.any (namePlateMaxChars < ·.length) then
      .error (refuse 400 "name_plate_too_long" none)
    else .ok ⟨userId, tier.key, tier.amountMinor, tier.currency, namePlate⟩

/-! ## The webhook -/

/-- `WebhookAck`. -/
inductive WebhookAck where
  | completed
  | failed
  | cancelled
  | ignored
  | duplicate
  deriving DecidableEq

/-- The state that an event stands for; the others are not acted on. -/
def webhookState (event : String) : Option (OrderState × WebhookAck) :=
  if event = "ORDER_COMPLETED" then some (.completed, .completed)
  else if event = "ORDER_FAILED" then some (.failed, .failed)
  else if event = "ORDER_CANCELLED" then some (.cancelled, .cancelled)
  else none

inductive WebhookReply where
  /-- 200. -/
  | ok (ack : WebhookAck)
  | refused (r : Refusal)
  deriving DecidableEq

namespace Orders

inductive Checkout where
  | begun (order : NewOrder)
  | landed (id : Uuid)
  | ordered (id : Uuid) (orderId url : String)
  | attached (id : Uuid) (orderId : String)
  | refused (r : Refusal)
  deriving DecidableEq

/-- The order that is created, and not yet attached. -/
def Checkout.orderId? : Checkout → Option String
  | .ordered _ orderId _ => some orderId
  | _ => none

inductive Phase where
  | received
  | recorded
  | found (row : RevolutOrderRow)
  /-- `ORDER_COMPLETED`, after `mark_state`. -/
  | marked (row : RevolutOrderRow)
  | answered (reply : WebhookReply)
  deriving DecidableEq

structure Delivery where
  orderId : String
  event : String
  phase : Phase
  deriving DecidableEq

structure State where
  orders : List RevolutOrderRow
  /-- The keys of `revolut_webhook_events`. -/
  events : List (String × String)
  supporters : List SupporterRow
  /-- The ids of the orders that the merchant has created. -/
  created : List String
  checkouts : List Checkout
  deliveries : List Delivery
  /-- The events whose `mark_state` was applied. -/
  processed : List (String × String)
  /-- The orders whose `mark_payment_received` was applied, with the user. -/
  payments : List (String × Uuid)
  deriving DecidableEq

local instance lawfulEvent : LawfulBEq (String × String) := Prod.instLawfulBEq

def State.start : State := ⟨[], [], [], [], [], [], [], []⟩

inductive Action where
  | checkout (userId : Uuid) (tierKey : String) (namePlate : Option String)
  | createPending (checkout : Nat) (id : Uuid) (now : Timestamp) (fails : Bool)
  | createOrder (checkout : Nat) (orderId url : String)
  /-- `create_order` failed, with the status where there was one. -/
  | createOrderFails (checkout : Nat) (status : Option Nat)
  | attach (checkout : Nat) (fails : Bool)
  | deliver (orderId event : String)
  | record (delivery : Nat) (fails : Bool)
  | find (delivery : Nat) (fails : Bool)
  | markState (delivery : Nat) (now : Timestamp) (fails : Bool)
  | markPayment (delivery : Nat) (now : Timestamp) (fails : Bool)

namespace State

def setCheckout (s : State) (i : Nat) (c : Checkout) : State :=
  { s with checkouts := s.checkouts.set i c }

def setPhase (s : State) (i : Nat) (d : Delivery) (phase : Phase) : State :=
  { s with deliveries := s.deliveries.set i { d with phase := phase } }

def answer (s : State) (i : Nat) (d : Delivery) (ack : WebhookAck) : State :=
  s.setPhase i d (.answered (.ok ack))

/-- A store call failed: 500. -/
def fail (s : State) (i : Nat) (d : Delivery) (error : String) : State :=
  s.setPhase i d (.answered (.refused (refuse 500 error none)))

end State

def step (s : State) : Action → Option State
  | .checkout userId tierKey namePlate =>
    match checkoutOrder userId tierKey namePlate with
    | .error r => some { s with checkouts := s.checkouts ++ [.refused r] }
    | .ok order => some { s with checkouts := s.checkouts ++ [.begun order] }
  | .createPending i id now fails =>
    match s.checkouts[i]? with
    | some (.begun order) =>
      if fails then some (s.setCheckout i (.refused (refuse 500 "order_create_failed" none)))
      -- the key is new
      else if s.orders.any (·.id = id) then none
      else some { s.setCheckout i (.landed id) with orders := createPending id order now s.orders }
    | _ => none
  | .createOrder i orderId url =>
    match s.checkouts[i]? with
    | some (.landed id) =>
      if orderId ∈ s.created then none
      else some { s.setCheckout i (.ordered id orderId url) with created := s.created ++ [orderId] }
    | _ => none
  | .createOrderFails i status =>
    match s.checkouts[i]? with
    | some (.landed _) =>
      let detail := status.map fun status => "Revolut returned " ++ toString status
      some (s.setCheckout i (.refused (refuse 502 "upstream_error" detail)))
    | _ => none
  | .attach i fails =>
    match s.checkouts[i]? with
    | some (.ordered id orderId url) =>
      match if fails then none else attachRevolutDetails id orderId url s.orders with
      | none => some (s.setCheckout i (.refused (refuse 500 "order_persist_failed" none)))
      | some orders => some { s.setCheckout i (.attached id orderId) with orders := orders }
    | _ => none
  | .deliver orderId event =>
    if orderId ∈ s.created then
      some { s with deliveries := s.deliveries ++ [⟨orderId, event, .received⟩] }
    else none
  | .record i fails =>
    match s.deliveries[i]? with
    | some d =>
      if d.phase ≠ .received then none
      else if fails then some (s.fail i d "webhook_persist_failed")
      else if (d.orderId, d.event) ∈ s.events then some (s.answer i d .duplicate)
      else some { s.setPhase i d .recorded with events := s.events ++ [(d.orderId, d.event)] }
    | none => none
  | .find i fails =>
    match s.deliveries[i]? with
    | some d =>
      if d.phase ≠ .recorded then none
      else if fails then some (s.fail i d "webhook_lookup_failed")
      else
        match findByRevolutId d.orderId s.orders with
        | none => some (s.answer i d .ignored)
        | some row =>
          some (if (webhookState d.event).isSome then s.setPhase i d (.found row)
            else s.answer i d .ignored)
    | none => none
  | .markState i now fails =>
    match s.deliveries[i]? with
    | some ⟨orderId, event, .found row⟩ =>
      match webhookState event with
      | none => none
      | some (state, ack) =>
        match if fails then none else markState orderId state now s.orders with
        | none => some (s.fail i ⟨orderId, event, .found row⟩ "webhook_state_failed")
        | some orders =>
          let phase := if state = .completed then .marked row else .answered (.ok ack)
          some { s.setPhase i ⟨orderId, event, .found row⟩ phase with
            orders := orders, processed := s.processed ++ [(orderId, event)] }
    | _ => none
  | .markPayment i now fails =>
    match s.deliveries[i]? with
    | some ⟨orderId, event, .marked row⟩ =>
      if fails then some (s.fail i ⟨orderId, event, .marked row⟩ "webhook_supporter_failed")
      else some { s.answer i ⟨orderId, event, .marked row⟩ .completed with
        supporters :=
          markPaymentReceived row.userId row.namePlateAtCheckout (now + coverage) now s.supporters
        payments := s.payments ++ [(orderId, row.userId)] }
    | _ => none

/-! ## A paid order becomes a supporter -/

/-- A delivery that the merchant will not make again: it was answered 200. -/
def Delivery.acknowledged (d : Delivery) : Bool :=
  match d.phase with
  | .answered (.ok _) => true
  | _ => false

/-- When an `ORDER_COMPLETED` was answered 200, an order with the id is completed, the payment was
applied for its user, and the user is an active supporter. -/
def PaidSupports (s : State) : Prop :=
  ∀ d ∈ s.deliveries, d.event = "ORDER_COMPLETED" → d.acknowledged →
    ∀ row ∈ s.orders, row.revolutOrderId = some d.orderId →
      row.state = .completed ∧ (d.orderId, row.userId) ∈ s.payments ∧
        ∃ st ∈ s.supporters, st.userId = row.userId ∧ st.state = .active

/-- An `ORDER_COMPLETED` comes again only when it was answered 200, the merchant's id is not stored
after such a delivery has looked for it, and a completed order gets no other event. -/
def Undisturbed (s : State) : Action → Prop
  | .record i false => ∀ d ∈ s.deliveries[i]?, d.event = "ORDER_COMPLETED" →
      (d.orderId, d.event) ∈ s.events →
      ∃ d' ∈ s.deliveries, d'.orderId = d.orderId ∧ d'.event = d.event ∧ d'.acknowledged
  | .attach i false => ∀ c ∈ s.checkouts[i]?, ∀ d ∈ s.deliveries, d.event = "ORDER_COMPLETED" →
      d.phase = .answered (.ok .ignored) → c.orderId? ≠ some d.orderId
  | .markState i _ false => ∀ d ∈ s.deliveries[i]?, d.event ≠ "ORDER_COMPLETED" →
      ∀ row ∈ s.orders, row.revolutOrderId = some d.orderId → row.state ≠ .completed
  | _ => True

instance : DecidableRel Undisturbed
  | s, .record i false => inferInstanceAs (Decidable (∀ d ∈ s.deliveries[i]?,
      d.event = "ORDER_COMPLETED" → (d.orderId, d.event) ∈ s.events →
      ∃ d' ∈ s.deliveries, d'.orderId = d.orderId ∧ d'.event = d.event ∧ d'.acknowledged))
  | s, .attach i false => inferInstanceAs (Decidable (∀ c ∈ s.checkouts[i]?, ∀ d ∈ s.deliveries,
      d.event = "ORDER_COMPLETED" → d.phase = .answered (.ok .ignored) →
      c.orderId? ≠ some d.orderId))
  | s, .markState i _ false => inferInstanceAs (Decidable (∀ d ∈ s.deliveries[i]?,
      d.event ≠ "ORDER_COMPLETED" → ∀ row ∈ s.orders, row.revolutOrderId = some d.orderId →
      row.state ≠ .completed))
  | _, .record _ true | _, .attach _ true | _, .markState _ _ true | _, .checkout ..
  | _, .createPending .. | _, .createOrder .. | _, .createOrderFails .. | _, .deliver ..
  | _, .find .. | _, .markPayment .. => .isTrue trivial

/-! ## An order's state is final -/

/-- The state of an order is that of every event processed for it, and pending when there was
none; a completed order has its time. -/
structure Final (s : State) : Prop where
  processed : ∀ row ∈ s.orders, ∀ orderId, row.revolutOrderId = some orderId →
    ∀ event, (orderId, event) ∈ s.processed →
      (webhookState event).map (·.1) = some row.state ∧
        (row.state = .completed → row.completedAt.isSome)
  pending : ∀ row ∈ s.orders, (∀ orderId, row.revolutOrderId = some orderId →
    ∀ event, (orderId, event) ∉ s.processed) → row.state = .pending

/-- No other event of the order was processed before. -/
def OneEvent (s : State) : Action → Prop
  | .markState i _ false => ∀ d ∈ s.deliveries[i]?, ∀ p ∈ s.processed, p.1 = d.orderId →
      p.2 = d.event
  | _ => True

end Orders

end StarStats
