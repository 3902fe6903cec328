import StarStats.Server.Orders

/-!
# What becomes of an order

`Effect` says what each step does. `Base` is kept by all of them: an order of the merchant is
attached to one row, by the checkout that created it. With it, `Final` is kept exactly by the steps
that meet `OneEvent`; a late notification undoes a completed order
(`late_failure_undoes_completion`).
-/

namespace StarStats.Orders

variable {s s' : State} {a : Action} {i : Nat}

/-! ## Rows -/

def attachTo (id : Uuid) (orderId url : String) (row : RevolutOrderRow) : RevolutOrderRow :=
  if row.id = id then { row with revolutOrderId := some orderId, checkoutUrl := some url } else row

def moveTo (orderId : String) (state : OrderState) (now : Timestamp) (row : RevolutOrderRow) :
    RevolutOrderRow :=
  if row.revolutOrderId = some orderId then
    { row with state := state, completedAt := if state = .completed then some now else none }
  else row

section
variable {id : Uuid} {orderId url : String} {state : OrderState} {now : Timestamp}
  {row : RevolutOrderRow} {orders orders' : List RevolutOrderRow}

@[simp] theorem attachTo_id : (attachTo id orderId url row).id = row.id := by
  unfold attachTo
  split <;> rfl

@[simp] theorem attachTo_userId : (attachTo id orderId url row).userId = row.userId := by
  unfold attachTo
  split <;> rfl

@[simp] theorem attachTo_state : (attachTo id orderId url row).state = row.state := by
  unfold attachTo
  split <;> rfl

@[simp] theorem attachTo_completedAt :
    (attachTo id orderId url row).completedAt = row.completedAt := by
  unfold attachTo
  split <;> rfl

theorem attachTo_revolutOrderId : (attachTo id orderId url row).revolutOrderId =
    if row.id = id then some orderId else row.revolutOrderId := by
  unfold attachTo
  split <;> rfl

@[simp] theorem moveTo_id : (moveTo orderId state now row).id = row.id := by
  unfold moveTo
  split <;> rfl

@[simp] theorem moveTo_userId : (moveTo orderId state now row).userId = row.userId := by
  unfold moveTo
  split <;> rfl

@[simp] theorem moveTo_revolutOrderId :
    (moveTo orderId state now row).revolutOrderId = row.revolutOrderId := by
  unfold moveTo
  split <;> rfl

theorem moveTo_of_eq (h : row.revolutOrderId = some orderId) :
    (moveTo orderId state now row).state = state ∧
      (moveTo orderId state now row).completedAt =
        if state = .completed then some now else none := by
  simp [moveTo, h]

theorem moveTo_of_ne (h : row.revolutOrderId ≠ some orderId) : moveTo orderId state now row = row :=
  if_neg h

theorem attachRevolutDetails_eq_some
    (h : attachRevolutDetails id orderId url orders = some orders') :
    orders' = orders.map (attachTo id orderId url) := by
  unfold attachRevolutDetails at h
  split at h
  · exact (Option.some.inj h).symm
  · cases h

theorem markState_eq_some (h : markState orderId state now orders = some orders') :
    (∃ row ∈ orders, row.revolutOrderId = some orderId) ∧
      orders' = orders.map (moveTo orderId state now) := by
  unfold markState at h
  split at h
  · rename_i hany
    exact ⟨by simpa using hany, (Option.some.inj h).symm⟩
  · cases h

theorem markState_eq_none (h : markState orderId state now orders = none) :
    ∀ row ∈ orders, row.revolutOrderId ≠ some orderId := by
  unfold markState at h
  split at h
  · cases h
  · rename_i hany
    simpa using hany

end

/-! ## Steps -/

/-- The row of a checkout that is not attached. -/
def Checkout.rowId? : Checkout → Option Uuid
  | .landed id => some id
  | .ordered id _ _ => some id
  | _ => none

/-- What a step does. -/
inductive Effect (s : State) : Action → State → Prop
  | begin {a : Action} {c : Checkout} (hrow : c.rowId? = none) (horder : c.orderId? = none) :
      Effect s a { s with checkouts := s.checkouts ++ [c] }
  | giveUp {a : Action} {i : Nat} {r : Refusal} : Effect s a (s.setCheckout i (.refused r))
  | land {i : Nat} {id : Uuid} {now : Timestamp} {order : NewOrder}
      (hnew : ∀ row ∈ s.orders, row.id ≠ id) :
      Effect s (.createPending i id now false)
        { s.setCheckout i (.landed id) with orders := createPending id order now s.orders }
  | create {i : Nat} {id : Uuid} {orderId url : String} (hold : s.checkouts[i]? = some (.landed id))
      (hnew : orderId ∉ s.created) :
      Effect s (.createOrder i orderId url)
        { s.setCheckout i (.ordered id orderId url) with created := s.created ++ [orderId] }
  | attach {i : Nat} {id : Uuid} {orderId url : String}
      (hold : s.checkouts[i]? = some (.ordered id orderId url)) :
      Effect s (.attach i false)
        { s.setCheckout i (.attached id orderId) with
          orders := s.orders.map (attachTo id orderId url) }
  | deliver {orderId event : String} :
      Effect s (.deliver orderId event)
        { s with deliveries := s.deliveries ++ [⟨orderId, event, .received⟩] }
  | fail {a : Action} {i : Nat} {d : Delivery} {error : String} (hd : s.deliveries[i]? = some d)
      (hopen : d.acknowledged = false) : Effect s a (s.fail i d error)
  | duplicate {i : Nat} {d : Delivery} (hd : s.deliveries[i]? = some d)
      (hphase : d.phase = .received) (hevent : (d.orderId, d.event) ∈ s.events) :
      Effect s (.record i false) (s.answer i d .duplicate)
  | record {i : Nat} {d : Delivery} (hd : s.deliveries[i]? = some d)
      (hphase : d.phase = .received) :
      Effect s (.record i false)
        { s.setPhase i d .recorded with events := s.events ++ [(d.orderId, d.event)] }
  | miss {i : Nat} {d : Delivery} (hd : s.deliveries[i]? = some d) (hphase : d.phase = .recorded)
      (hnone : ∀ row ∈ s.orders, row.revolutOrderId ≠ some d.orderId) :
      Effect s (.find i false) (s.answer i d .ignored)
  | skip {i : Nat} {d : Delivery} (hd : s.deliveries[i]? = some d) (hphase : d.phase = .recorded)
      (hevent : webhookState d.event = none) : Effect s (.find i false) (s.answer i d .ignored)
  | found {i : Nat} {d : Delivery} {row : RevolutOrderRow} (hd : s.deliveries[i]? = some d)
      (hphase : d.phase = .recorded) (hrow : row ∈ s.orders)
      (hid : row.revolutOrderId = some d.orderId) :
      Effect s (.find i false) (s.setPhase i d (.found row))
  | mark {i : Nat} {d : Delivery} {row : RevolutOrderRow} {now : Timestamp} {state : OrderState}
      {ack : WebhookAck} (hd : s.deliveries[i]? = some d) (hphase : d.phase = .found row)
      (hstate : webhookState d.event = some (state, ack))
      (hknown : ∃ row ∈ s.orders, row.revolutOrderId = some d.orderId) :
      Effect s (.markState i now false)
        { s.setPhase i d (if state = .completed then .marked row else .answered (.ok ack)) with
          orders := s.orders.map (moveTo d.orderId state now)
          processed := s.processed ++ [(d.orderId, d.event)] }
  | pay {i : Nat} {d : Delivery} {row : RevolutOrderRow} {now : Timestamp}
      (hd : s.deliveries[i]? = some d) (hphase : d.phase = .marked row) :
      Effect s (.markPayment i now false)
        { s.answer i d .completed with
          supporters := markPaymentReceived row.userId row.namePlateAtCheckout (now + coverage) now
            s.supporters
          payments := s.payments ++ [(d.orderId, row.userId)] }

theorem acknowledged_of_phase {d : Delivery} {phase : Phase} (hphase : d.phase = phase)
    (h : ∀ ack, phase ≠ .answered (.ok ack)) : d.acknowledged = false := by
  unfold Delivery.acknowledged
  split
  · rename_i ack hack
    exact absurd (hphase.symm.trans hack) (h ack)
  · rfl

theorem effect_record {fails : Bool} (ha : step s (.record i fails) = some s') :
    Effect s (.record i fails) s' := by
  simp only [step] at ha
  split at ha
  · rename_i d hd
    split at ha
    · cases ha
    · rename_i hphase
      rw [ne_eq, not_not] at hphase
      split at ha
      · cases ha
        exact .fail hd (acknowledged_of_phase hphase nofun)
      · rename_i hfails
        obtain rfl : fails = false := by simpa using hfails
        split at ha
        · rename_i hevent
          cases ha
          exact .duplicate hd hphase hevent
        · cases ha
          exact .record hd hphase
  · cases ha

theorem effect_find {fails : Bool} (ha : step s (.find i fails) = some s') :
    Effect s (.find i fails) s' := by
  simp only [step] at ha
  split at ha
  · rename_i d hd
    split at ha
    · cases ha
    · rename_i hphase
      rw [ne_eq, not_not] at hphase
      split at ha
      · cases ha
        exact .fail hd (acknowledged_of_phase hphase nofun)
      · rename_i hfails
        obtain rfl : fails = false := by simpa using hfails
        split at ha
        · rename_i hnone
          cases ha
          exact .miss hd hphase (by simpa [findByRevolutId] using hnone)
        · rename_i row hrow
          cases ha
          split
          · exact .found hd hphase (List.mem_of_find?_eq_some hrow)
              (by simpa using List.find?_some hrow)
          · rename_i hevent
            exact .skip hd hphase (by simpa using hevent)
  · cases ha

theorem effect_markState {now : Timestamp} {fails : Bool}
    (ha : step s (.markState i now fails) = some s') : Effect s (.markState i now fails) s' := by
  simp only [step] at ha
  split at ha
  · rename_i orderId event row hd
    split at ha
    · cases ha
    · rename_i state ack hstate
      split at ha
      · cases ha
        exact .fail hd rfl
      · rename_i orders horders
        cases ha
        split at horders
        · cases horders
        · rename_i hfails
          obtain rfl : fails = false := by simpa using hfails
          obtain ⟨hknown, rfl⟩ := markState_eq_some horders
          exact .mark hd rfl hstate hknown
  · cases ha

theorem effect_of_step (ha : step s a = some s') : Effect s a s' := by
  cases a with
  | checkout userId tierKey namePlate =>
    simp only [step] at ha
    split at ha
    · cases ha
      exact .begin rfl rfl
    · cases ha
      exact .begin rfl rfl
  | createPending i id now fails =>
    simp only [step] at ha
    split at ha
    · split at ha
      · cases ha
        exact .giveUp
      · rename_i hfails
        obtain rfl : fails = false := by simpa using hfails
        split at ha
        · cases ha
        · rename_i hnew
          cases ha
          exact .land (by simpa using hnew)
    · cases ha
  | createOrder i orderId url =>
    simp only [step] at ha
    split at ha
    · rename_i id hold
      split at ha
      · cases ha
      · rename_i hnew
        cases ha
        exact .create hold hnew
    · cases ha
  | createOrderFails i status =>
    simp only [step] at ha
    split at ha
    · cases ha
      exact .giveUp
    · cases ha
  | attach i fails =>
    simp only [step] at ha
    split at ha
    · rename_i id orderId url hold
      split at ha
      · cases ha
        exact .giveUp
      · rename_i orders horders
        cases ha
        split at horders
        · cases horders
        · rename_i hfails
          obtain rfl : fails = false := by simpa using hfails
          rw [attachRevolutDetails_eq_some horders]
          exact .attach hold
    · cases ha
  | deliver orderId event =>
    simp only [step] at ha
    split at ha
    · cases ha
      exact .deliver
    · cases ha
  | record i fails => exact effect_record ha
  | find i fails => exact effect_find ha
  | markState i now fails => exact effect_markState ha
  | markPayment i now fails =>
    simp only [step] at ha
    split at ha
    · rename_i orderId event row hd
      split at ha
      · cases ha
        exact .fail hd rfl
      · rename_i hfails
        obtain rfl : fails = false := by simpa using hfails
        cases ha
        exact .pay hd rfl
    · cases ha

/-! ## One row for an order -/

/-- Two checkouts have different rows and different orders. -/
def Apart (c c' : Checkout) : Prop :=
  (∀ id, c.rowId? = some id → c'.rowId? ≠ some id) ∧
    ∀ orderId, c.orderId? = some orderId → c'.orderId? ≠ some orderId

theorem Apart.symm {c c' : Checkout} (h : Apart c c') : Apart c' c :=
  ⟨fun id h' h'' => h.1 id h'' h', fun orderId h' h'' => h.2 orderId h'' h'⟩

theorem apart_of_none {c c' : Checkout} (hrow : c.rowId? = none) (horder : c.orderId? = none) :
    Apart c c' := by
  simp [Apart, hrow, horder]

structure Base (s : State) : Prop where
  ids : (s.orders.map (·.id)).Nodup
  apart : ∀ (i j : Nat) (c c' : Checkout), i ≠ j → s.checkouts[i]? = some c →
    s.checkouts[j]? = some c' → Apart c c'
  /-- A checkout's row is there, and not attached. -/
  landed : ∀ c ∈ s.checkouts, ∀ id, c.rowId? = some id →
    ∃ row ∈ s.orders, row.id = id ∧ row.revolutOrderId = none
  free : ∀ c ∈ s.checkouts, ∀ orderId, c.orderId? = some orderId →
    orderId ∈ s.created ∧ ∀ row ∈ s.orders, row.revolutOrderId ≠ some orderId
  unique : ∀ row ∈ s.orders, ∀ row' ∈ s.orders, ∀ orderId, row.revolutOrderId = some orderId →
    row'.revolutOrderId = some orderId → row = row'
  created : ∀ row ∈ s.orders, ∀ orderId, row.revolutOrderId = some orderId → orderId ∈ s.created

theorem base_start : Base .start := by
  constructor <;> simp [State.start]

/-- Only the orders, the merchant's orders and the checkouts matter. -/
theorem Base.congr (hb : Base s) (horders : s'.orders = s.orders)
    (hcreated : s'.created = s.created) (hcheckouts : s'.checkouts = s.checkouts) : Base s' where
  ids := by
    rw [horders]
    exact hb.ids
  apart := by
    rw [hcheckouts]
    exact hb.apart
  landed := by
    rw [hcheckouts, horders]
    exact hb.landed
  free := by
    rw [hcheckouts, horders, hcreated]
    exact hb.free
  unique := by
    rw [horders]
    exact hb.unique
  created := by
    rw [horders, hcreated]
    exact hb.created

theorem base_begin (hb : Base s) {c : Checkout} (hrow : c.rowId? = none)
    (horder : c.orderId? = none) : Base { s with checkouts := s.checkouts ++ [c] } :=
  { hb with
    apart := by
      intro i j c₁ c₂ hij h₁ h₂
      rcases Calls.of_push h₁ with ⟨-, rfl⟩ | h₁
      · exact apart_of_none hrow horder
      · rcases Calls.of_push h₂ with ⟨-, rfl⟩ | h₂
        · exact (apart_of_none hrow horder).symm
        · exact hb.apart i j c₁ c₂ hij h₁ h₂
    landed := by
      intro c' hc' id hid
      rcases List.mem_append.1 hc' with hc' | hc'
      · exact hb.landed c' hc' id hid
      · rw [List.mem_singleton.1 hc', hrow] at hid
        cases hid
    free := by
      intro c' hc' orderId hid
      rcases List.mem_append.1 hc' with hc' | hc'
      · exact hb.free c' hc' orderId hid
      · rw [List.mem_singleton.1 hc', horder] at hid
        cases hid }

/-- A checkout moves on to one that is apart from the others. -/
theorem base_setCheckout (hb : Base s) {c : Checkout}
    (hapart : ∀ (j : Nat) (c' : Checkout), j ≠ i → s.checkouts[j]? = some c' → Apart c c')
    (hrow : ∀ id, c.rowId? = some id → ∃ row ∈ s.orders, row.id = id ∧ row.revolutOrderId = none)
    (horder : ∀ orderId, c.orderId? = some orderId →
      orderId ∈ s.created ∧ ∀ row ∈ s.orders, row.revolutOrderId ≠ some orderId) :
    Base (s.setCheckout i c) :=
  { hb with
    apart := by
      intro j k c₁ c₂ hjk h₁ h₂
      rcases Calls.of_set h₁ with ⟨rfl, rfl⟩ | ⟨hj, hc₁⟩
      · rcases Calls.of_set h₂ with ⟨rfl, -⟩ | ⟨hk, hc₂⟩
        · exact absurd rfl hjk
        · exact hapart k c₂ hk hc₂
      · rcases Calls.of_set h₂ with ⟨rfl, rfl⟩ | ⟨-, hc₂⟩
        · exact (hapart j c₁ hj hc₁).symm
        · exact hb.apart j k c₁ c₂ hjk hc₁ hc₂
    landed := by
      intro c' hc'
      rcases List.mem_or_eq_of_mem_set hc' with hc' | rfl
      · exact hb.landed c' hc'
      · exact hrow
    free := by
      intro c' hc'
      rcases List.mem_or_eq_of_mem_set hc' with hc' | rfl
      · exact hb.free c' hc'
      · exact horder }

/-- A checkout ends. -/
theorem base_end (hb : Base s) {c : Checkout} (hrow : c.rowId? = none)
    (horder : c.orderId? = none) : Base (s.setCheckout i c) := by
  apply base_setCheckout hb
  · intro j c' _ _
    exact apart_of_none hrow horder
  · simp [hrow]
  · simp [horder]

theorem base_createPending (hb : Base s) {id : Uuid} {order : NewOrder} {now : Timestamp}
    (hnew : ∀ row ∈ s.orders, row.id ≠ id) :
    Base { s with orders := createPending id order now s.orders } where
  ids := by
    rw [createPending, List.map_append, List.map_singleton]
    apply hb.ids.append (List.nodup_singleton _)
    rw [List.disjoint_singleton]
    simpa using hnew
  apart := hb.apart
  landed := by
    intro c hc id' hid
    obtain ⟨row, hrow, hrest⟩ := hb.landed c hc id' hid
    exact ⟨row, List.mem_append_left _ hrow, hrest⟩
  free := by
    intro c hc orderId hid
    obtain ⟨hmem, hfree⟩ := hb.free c hc orderId hid
    refine ⟨hmem, fun row hrow => ?_⟩
    rcases List.mem_append.1 hrow with hrow | hrow
    · exact hfree row hrow
    · rw [List.mem_singleton.1 hrow]
      exact nofun
  unique := by
    intro row hrow row' hrow' orderId hid hid'
    rcases List.mem_append.1 hrow with hrow | hrow
    · rcases List.mem_append.1 hrow' with hrow' | hrow'
      · exact hb.unique row hrow row' hrow' orderId hid hid'
      · rw [List.mem_singleton.1 hrow'] at hid'
        cases hid'
    · rw [List.mem_singleton.1 hrow] at hid
      cases hid
  created := by
    intro row hrow orderId hid
    rcases List.mem_append.1 hrow with hrow | hrow
    · exact hb.created row hrow orderId hid
    · rw [List.mem_singleton.1 hrow] at hid
      cases hid

theorem base_land (hb : Base s) {id : Uuid} {order : NewOrder} {now : Timestamp}
    (hnew : ∀ row ∈ s.orders, row.id ≠ id) :
    Base { s.setCheckout i (.landed id) with orders := createPending id order now s.orders } := by
  apply base_setCheckout (base_createPending hb hnew)
  · intro j c' _ hc'
    refine ⟨fun id' hid' hid'' => ?_, nofun⟩
    -- the rows of the other checkouts were there before
    obtain ⟨row, hrow, hrowid, -⟩ := hb.landed c' (List.mem_of_getElem? hc') id' hid''
    obtain rfl := Option.some.inj hid'
    exact hnew row hrow hrowid
  · rintro id' hid'
    obtain rfl := Option.some.inj hid'
    exact ⟨_, List.mem_append_right _ (List.mem_singleton_self _), rfl, rfl⟩
  · exact nofun

theorem base_create (hb : Base s) {id : Uuid} {orderId url : String}
    (hold : s.checkouts[i]? = some (.landed id)) (hnew : orderId ∉ s.created) :
    Base { s.setCheckout i (.ordered id orderId url) with
      created := s.created ++ [orderId] } := by
  have hb' : Base { s with created := s.created ++ [orderId] } :=
    { hb with
      free := fun c hc orderId' hid =>
        ⟨List.mem_append_left _ (hb.free c hc orderId' hid).1, (hb.free c hc orderId' hid).2⟩
      created := fun row hrow orderId' hid =>
        List.mem_append_left _ (hb.created row hrow orderId' hid) }
  refine base_setCheckout hb' ?_ ?_ ?_
  · intro j c' hj hc'
    refine ⟨fun id' hid' => (hb.apart i j _ c' hj.symm hold hc').1 id' hid', ?_⟩
    intro orderId' hid' hid''
    obtain rfl := Option.some.inj hid'
    exact hnew (hb.free c' (List.mem_of_getElem? hc') orderId hid'').1
  · intro id' hid'
    exact hb.landed _ (List.mem_of_getElem? hold) id' hid'
  · intro orderId' hid'
    obtain rfl := Option.some.inj hid'
    refine ⟨List.mem_append_right _ (List.mem_singleton_self _), fun row hrow hid => ?_⟩
    exact hnew (hb.created row hrow orderId hid)

theorem base_attach (hb : Base s) {id : Uuid} {orderId url : String}
    (hold : s.checkouts[i]? = some (.ordered id orderId url)) :
    Base { s.setCheckout i (.attached id orderId) with
      orders := s.orders.map (attachTo id orderId url) } := by
  have hmem := List.mem_of_getElem? hold
  obtain ⟨hcreated, hfree⟩ := hb.free _ hmem orderId rfl
  have hset : Base (s.setCheckout i (.attached id orderId)) := base_end hb rfl rfl
  -- the other checkouts have neither the row nor the order
  have hother : ∀ c ∈ (s.setCheckout i (.attached id orderId)).checkouts,
      Apart (.ordered id orderId url) c := by
    intro c hc
    obtain ⟨j, hj⟩ := List.mem_iff_getElem?.1 hc
    rcases Calls.of_set hj with ⟨-, rfl⟩ | ⟨hne, hj⟩
    · exact (apart_of_none rfl rfl).symm
    · exact hb.apart i j _ c hne.symm hold hj
  constructor
  · have hmap : (s.orders.map (attachTo id orderId url)).map (·.id) = s.orders.map (·.id) := by
      simp
    rw [hmap]
    exact hb.ids
  · exact hset.apart
  · intro c hc id' hid'
    obtain ⟨row, hrow, rfl, hnone⟩ := hset.landed c hc id' hid'
    have hne : row.id ≠ id := by
      rintro rfl
      exact (hother c hc).1 row.id rfl hid'
    refine ⟨_, List.mem_map_of_mem hrow, attachTo_id, ?_⟩
    rw [attachTo_revolutOrderId, if_neg hne, hnone]
  · intro c hc orderId' hid'
    obtain ⟨hcreated', hfree'⟩ := hset.free c hc orderId' hid'
    refine ⟨hcreated', fun row hrow hid => ?_⟩
    obtain ⟨row₀, hrow₀, rfl⟩ := List.mem_map.1 hrow
    rw [attachTo_revolutOrderId] at hid
    split at hid
    · exact (hother c hc).2 orderId rfl (Option.some.inj hid ▸ hid')
    · exact hfree' row₀ hrow₀ hid
  · intro row hrow row' hrow' orderId' hid hid'
    obtain ⟨row₀, hrow₀, rfl⟩ := List.mem_map.1 hrow
    obtain ⟨row₁, hrow₁, rfl⟩ := List.mem_map.1 hrow'
    rw [attachTo_revolutOrderId] at hid hid'
    suffices h : row₀ = row₁ by rw [h]
    split at hid
    · rename_i h₀
      obtain rfl := Option.some.inj hid
      split at hid'
      · rename_i h₁
        exact List.inj_on_of_nodup_map hb.ids hrow₀ hrow₁ (h₀.trans h₁.symm)
      · exact absurd hid' (hfree row₁ hrow₁)
    · split at hid'
      · obtain rfl := Option.some.inj hid'
        exact absurd hid (hfree row₀ hrow₀)
      · exact hb.unique row₀ hrow₀ row₁ hrow₁ orderId' hid hid'
  · intro row hrow orderId' hid
    obtain ⟨row₀, hrow₀, rfl⟩ := List.mem_map.1 hrow
    rw [attachTo_revolutOrderId] at hid
    split at hid
    · exact Option.some.inj hid ▸ hcreated
    · exact hb.created row₀ hrow₀ orderId' hid

theorem base_move (hb : Base s) {orderId : String} {state : OrderState} {now : Timestamp} :
    Base { s with orders := s.orders.map (moveTo orderId state now) } where
  ids := by
    have hmap : (s.orders.map (moveTo orderId state now)).map (·.id) = s.orders.map (·.id) := by
      simp
    rw [hmap]
    exact hb.ids
  apart := hb.apart
  landed := by
    intro c hc id hid
    obtain ⟨row, hrow, rfl, hnone⟩ := hb.landed c hc id hid
    exact ⟨_, List.mem_map_of_mem hrow, moveTo_id, by rw [moveTo_revolutOrderId, hnone]⟩
  free := by
    intro c hc orderId' hid
    obtain ⟨hcreated, hfree⟩ := hb.free c hc orderId' hid
    refine ⟨hcreated, fun row hrow => ?_⟩
    obtain ⟨row₀, hrow₀, rfl⟩ := List.mem_map.1 hrow
    rw [moveTo_revolutOrderId]
    exact hfree row₀ hrow₀
  unique := by
    intro row hrow row' hrow' orderId' hid hid'
    obtain ⟨row₀, hrow₀, rfl⟩ := List.mem_map.1 hrow
    obtain ⟨row₁, hrow₁, rfl⟩ := List.mem_map.1 hrow'
    rw [moveTo_revolutOrderId] at hid hid'
    rw [hb.unique row₀ hrow₀ row₁ hrow₁ orderId' hid hid']
  created := by
    intro row hrow orderId' hid
    obtain ⟨row₀, hrow₀, rfl⟩ := List.mem_map.1 hrow
    rw [moveTo_revolutOrderId] at hid
    exact hb.created row₀ hrow₀ orderId' hid

theorem base_step (hb : Base s) (he : Effect s a s') : Base s' := by
  cases he with
  | begin hrow horder => exact base_begin hb hrow horder
  | giveUp => exact base_end hb rfl rfl
  | land hnew => exact base_land hb hnew
  | create hold hnew => exact base_create hb hold hnew
  | attach hold => exact base_attach hb hold
  | mark hd hphase hstate hknown => exact (base_move hb).congr rfl rfl rfl
  | _ => exact hb.congr rfl rfl rfl

/-! ## The state of an order -/

theorem webhookState_inj {event event' : String} {p q : OrderState × WebhookAck}
    (h : webhookState event = some p) (h' : webhookState event' = some q) (hstate : p.1 = q.1) :
    event = event' := by
  unfold webhookState at h h'
  grind

structure FinalInv (s : State) : Prop where
  base : Base s
  final : Final s
  known : ∀ p ∈ s.processed, ∃ row ∈ s.orders, row.revolutOrderId = some p.1

theorem finalInv_start : FinalInv .start where
  base := base_start
  final := ⟨by simp [State.start], by simp [State.start]⟩
  known := by simp [State.start]

theorem FinalInv.congr (hs : FinalInv s) (hb : Base s') (horders : s'.orders = s.orders)
    (hprocessed : s'.processed = s.processed) : FinalInv s' where
  base := hb
  final := by
    constructor
    · rw [horders, hprocessed]
      exact hs.final.processed
    · rw [horders, hprocessed]
      exact hs.final.pending
  known := by
    rw [horders, hprocessed]
    exact hs.known

theorem finalInv_land (hs : FinalInv s) {id : Uuid} {order : NewOrder} {now : Timestamp}
    (hb : Base { s.setCheckout i (.landed id) with
      orders := createPending id order now s.orders }) :
    FinalInv { s.setCheckout i (.landed id) with
      orders := createPending id order now s.orders } where
  base := hb
  final := by
    constructor
    · intro row hrow
      rcases List.mem_append.1 hrow with hrow | hrow
      · exact hs.final.processed row hrow
      · rw [List.mem_singleton.1 hrow]
        exact nofun
    · intro row hrow hnone
      rcases List.mem_append.1 hrow with hrow | hrow
      · exact hs.final.pending row hrow hnone
      · rw [List.mem_singleton.1 hrow]
  known := by
    intro p hp
    obtain ⟨row, hrow, hid⟩ := hs.known p hp
    exact ⟨row, List.mem_append_left _ hrow, hid⟩

/-- The row that is attached is pending, and no event of its order was processed. -/
theorem finalInv_attach (hs : FinalInv s) {id : Uuid} {orderId url : String}
    (hold : s.checkouts[i]? = some (.ordered id orderId url)) :
    FinalInv { s.setCheckout i (.attached id orderId) with
      orders := s.orders.map (attachTo id orderId url) } := by
  have hmem := List.mem_of_getElem? hold
  have hfree := (hs.base.free _ hmem orderId rfl).2
  have hnone : ∀ event, (orderId, event) ∉ s.processed := by
    intro event hevent
    obtain ⟨row, hrow, hid⟩ := hs.known _ hevent
    exact hfree row hrow hid
  refine ⟨base_attach hs.base hold, ⟨?_, ?_⟩, ?_⟩
  · intro row hrow orderId' hid event hevent
    obtain ⟨row₀, hrow₀, rfl⟩ := List.mem_map.1 hrow
    rw [attachTo_revolutOrderId] at hid
    rw [attachTo_state, attachTo_completedAt]
    split at hid
    · exact absurd (Option.some.inj hid ▸ hevent) (hnone event)
    · exact hs.final.processed row₀ hrow₀ orderId' hid event hevent
  · intro row hrow hall
    obtain ⟨row₀, hrow₀, rfl⟩ := List.mem_map.1 hrow
    rw [attachTo_state]
    apply hs.final.pending row₀ hrow₀
    intro orderId' hid
    by_cases hrow₀id : row₀.id = id
    · -- its row is the checkout's, which has no order yet
      obtain ⟨row₁, hrow₁, hrow₁id, hnone₁⟩ := hs.base.landed _ hmem id rfl
      rw [List.inj_on_of_nodup_map hs.base.ids hrow₀ hrow₁ (hrow₀id.trans hrow₁id.symm),
        hnone₁] at hid
      cases hid
    · apply hall
      rw [attachTo_revolutOrderId, if_neg hrow₀id, hid]
  · intro p hp
    obtain ⟨row, hrow, hid⟩ := hs.known p hp
    refine ⟨_, List.mem_map_of_mem hrow, ?_⟩
    rw [attachTo_revolutOrderId]
    split
    · rename_i hrowid
      obtain ⟨row₁, hrow₁, hrow₁id, hnone₁⟩ := hs.base.landed _ hmem id rfl
      rw [List.inj_on_of_nodup_map hs.base.ids hrow hrow₁ (hrowid.trans hrow₁id.symm),
        hnone₁] at hid
      cases hid
    · exact hid

theorem known_move {orderId : String} {state : OrderState} {now : Timestamp} {p : String}
    (h : ∃ row ∈ s.orders, row.revolutOrderId = some p) :
    ∃ row ∈ s.orders.map (moveTo orderId state now), row.revolutOrderId = some p := by
  obtain ⟨row, hrow, hid⟩ := h
  exact ⟨_, List.mem_map_of_mem hrow, by rw [moveTo_revolutOrderId, hid]⟩

section
variable {d : Delivery} {row : RevolutOrderRow} {now : Timestamp} {state : OrderState}
  {ack : WebhookAck} {phase : Phase}

theorem finalInv_mark (hs : FinalInv s) (hstate : webhookState d.event = some (state, ack))
    (hknown : ∃ row ∈ s.orders, row.revolutOrderId = some d.orderId)
    (hone : ∀ p ∈ s.processed, p.1 = d.orderId → p.2 = d.event)
    (hb : Base { s.setPhase i d phase with
      orders := s.orders.map (moveTo d.orderId state now)
      processed := s.processed ++ [(d.orderId, d.event)] }) :
    FinalInv { s.setPhase i d phase with
      orders := s.orders.map (moveTo d.orderId state now)
      processed := s.processed ++ [(d.orderId, d.event)] } := by
  refine ⟨hb, ⟨?_, ?_⟩, ?_⟩
  · intro row hrow orderId hid event hevent
    obtain ⟨row₀, hrow₀, rfl⟩ := List.mem_map.1 hrow
    rw [moveTo_revolutOrderId] at hid
    by_cases heq : orderId = d.orderId
    · subst heq
      have hsame : event = d.event := by
        rcases List.mem_append.1 hevent with hevent | hevent
        · exact hone _ hevent rfl
        · exact congrArg Prod.snd (List.mem_singleton.1 hevent)
      have hmoved : (moveTo d.orderId state now row₀).state = _ ∧ _ := moveTo_of_eq hid
      rw [hmoved.1, hmoved.2, hsame, hstate]
      exact ⟨rfl, fun hc => by simp [hc]⟩
    · have hne : row₀.revolutOrderId ≠ some d.orderId := by
        rw [hid]
        exact fun h => heq (Option.some.inj h)
      rw [moveTo_of_ne hne]
      apply hs.final.processed row₀ hrow₀ orderId hid
      rcases List.mem_append.1 hevent with hevent | hevent
      · exact hevent
      · exact absurd (congrArg Prod.fst (List.mem_singleton.1 hevent)) heq
  · intro row hrow hall
    obtain ⟨row₀, hrow₀, rfl⟩ := List.mem_map.1 hrow
    rw [moveTo_revolutOrderId] at hall
    by_cases hid : row₀.revolutOrderId = some d.orderId
    · exact absurd (List.mem_append_right _ (List.mem_singleton_self _)) (hall _ hid d.event)
    · rw [moveTo_of_ne hid]
      apply hs.final.pending row₀ hrow₀
      intro orderId hid' event hevent
      exact hall orderId hid' event (List.mem_append_left _ hevent)
  · intro p hp
    apply known_move
    rcases List.mem_append.1 hp with hp | hp
    · exact hs.known p hp
    · rw [List.mem_singleton.1 hp]
      exact hknown

/-- A second event gives the order another state than the first. -/
theorem not_final_mark (hs : FinalInv s) (hstate : webhookState d.event = some (state, ack))
    {p : String × String} (hp : p ∈ s.processed) (hid : p.1 = d.orderId) (hne : p.2 ≠ d.event) :
    ¬ Final { s.setPhase i d phase with
      orders := s.orders.map (moveTo d.orderId state now)
      processed := s.processed ++ [(d.orderId, d.event)] } := by
  intro hfinal
  obtain ⟨row, hrow, hrowid⟩ := hs.known p hp
  have hp' : (p.1, p.2) ∈ s.processed ++ [(d.orderId, d.event)] := List.mem_append_left _ hp
  have hlast := (hfinal.processed _ (List.mem_map_of_mem hrow) p.1
    (by rw [moveTo_revolutOrderId, hrowid]) p.2 hp').1
  rw [hid] at hrowid
  rw [(moveTo_of_eq hrowid).1, Option.map_eq_some_iff] at hlast
  obtain ⟨q, hq, hqstate⟩ := hlast
  exact hne (webhookState_inj hq hstate hqstate)

end

theorem finalInv_step (hs : FinalInv s) (ha : step s a = some s') (hok : OneEvent s a) :
    FinalInv s' := by
  have he := effect_of_step ha
  have hb := base_step hs.base he
  cases he with
  | land hnew => exact finalInv_land hs hb
  | attach hold => exact finalInv_attach hs hold
  | mark hd hphase hstate hknown => exact finalInv_mark hs hstate hknown (hok _ hd) hb
  | _ => exact hs.congr hb rfl rfl

theorem not_final_step (hs : FinalInv s) (ha : step s a = some s') (hok : ¬ OneEvent s a) :
    ¬ Final s' := by
  cases a with
  | markState i now fails =>
    cases fails with
    | true => exact absurd trivial hok
    | false =>
      unfold OneEvent at hok
      push Not at hok
      obtain ⟨d, hd, p, hp, hid, hne⟩ := hok
      simp only [step] at ha
      rw [Option.mem_def.1 hd] at ha
      split at ha
      · rename_i orderId event row hd'
        obtain rfl := Option.some.inj hd'
        split at ha
        · cases ha
        · rename_i state ack hstate
          split at ha
          · rename_i hnone
            obtain ⟨row', hrow', hrowid'⟩ := hs.known p hp
            exact absurd (hrowid'.trans (congrArg some hid)) (markState_eq_none hnone row' hrow')
          · rename_i orders horders
            obtain ⟨-, rfl⟩ := markState_eq_some horders
            cases ha
            exact not_final_mark (d := ⟨orderId, event, .found row⟩) hs hstate hp hid hne
      · cases ha
  | _ => exact absurd trivial hok

/-- A run leaves every order in the state of the events processed for it, throughout, exactly when
no order gets a second one. -/
theorem order_final_iff_one_event (as : List Action) :
    Trans.AllStates step Final .start as ↔ Trans.AllSteps step OneEvent .start as :=
  Trans.allStates_iff (fun _ hs => hs.final) (fun _ _ _ hs ha hok => finalInv_step hs ha hok)
    (fun _ _ _ hs ha hok => not_final_step hs ha hok) as finalInv_start

/-! ## Runs -/

/-- A checkout of `u1`, up to the merchant's order `o1`. -/
def checkoutOfU1 : List Action :=
  [.checkout "u1" "coffee" none, .createPending 0 "l1" 0 false, .createOrder 0 "o1" "url",
    .attach 0 false]

def completion (delivery : Nat) : List Action :=
  [.deliver "o1" "ORDER_COMPLETED", .record delivery false, .find delivery false,
    .markState delivery 1 false, .markPayment delivery 1 false]

theorem late_failure_undoes_completion :
    ¬ ∀ s, Trans.Reach step Trans.always .start s → Final s := by
  intro hall
  have hrun : (Trans.exec step Trans.always .start (checkoutOfU1 ++ completion 0 ++
      [Action.deliver "o1" "ORDER_FAILED", .record 1 false, .find 1 false, .markState 1 2 false])).map
      (fun s => (decide (("o1", "ORDER_COMPLETED") ∈ s.processed),
        s.orders.map fun row => (row.revolutOrderId, row.state, row.completedAt))) =
      some (true, [(some "o1", .failed, none)]) := by
    decide +kernel
  obtain ⟨s, hreach, hs⟩ := Trans.reach_of_map_exec _ hrun
  simp only [Prod.mk.injEq, decide_eq_true_eq] at hs
  obtain ⟨hprocessed, horders⟩ := hs
  have hrow : (some "o1", OrderState.failed, (none : Option Timestamp)) ∈
      s.orders.map fun row => (row.revolutOrderId, row.state, row.completedAt) := by
    rw [horders]
    exact List.mem_singleton_self _
  obtain ⟨row, hrow, hpair⟩ := List.mem_map.1 hrow
  simp only [Prod.mk.injEq] at hpair
  have hstate := ((hall s hreach).processed row hrow "o1" hpair.1 _
    hprocessed).1
  rw [hpair.2.1] at hstate
  exact absurd hstate (by decide)

end StarStats.Orders
