import StarStats.Server.Proof.Orders

/-!
# A paid order becomes a supporter

`Keeps` is what a step that meets `Undisturbed` leaves of an order, and `Stands` how far a delivery
of its `ORDER_COMPLETED` has come; so one that was answered 200 has its effects. A redelivery after
a failed side effect is answered as a duplicate, and nothing makes up for it
(`redelivery_is_no_retry`).
-/

namespace StarStats.Orders

variable {s s' : State} {a : Action} {i : Nat}

/-! ## Supporters -/

/-- The user is an active supporter. -/
def Active (supporters : List SupporterRow) (userId : Uuid) : Prop :=
  ∃ st ∈ supporters, st.userId = userId ∧ st.state = .active

section
variable {userId user : Uuid} {plate : Option String} {coverageUntil now : Timestamp}
  {supporters : List SupporterRow}

theorem active_markPaymentReceived :
    Active (markPaymentReceived userId plate coverageUntil now supporters) userId := by
  unfold markPaymentReceived
  split
  · rename_i hany
    obtain ⟨st, hst, hid⟩ := List.any_eq_true.1 hany
    refine ⟨_, List.mem_map_of_mem hst, ?_⟩
    rw [if_pos (of_decide_eq_true hid)]
    exact ⟨of_decide_eq_true hid, rfl⟩
  · exact ⟨_, List.mem_append_right _ (List.mem_singleton_self _), rfl, rfl⟩

theorem Active.markPaymentReceived (h : Active supporters user) :
    Active (markPaymentReceived userId plate coverageUntil now supporters) user := by
  obtain ⟨st, hst, rfl, hactive⟩ := h
  unfold StarStats.markPaymentReceived
  split
  · refine ⟨_, List.mem_map_of_mem hst, ?_⟩
    split
    · exact ⟨rfl, rfl⟩
    · exact ⟨rfl, hactive⟩
  · exact ⟨st, List.mem_append_left _ hst, rfl, hactive⟩

end

/-! ## Paid orders -/

/-- The order is completed, and its payment applied. -/
def Settled (s : State) (orderId : String) : Prop :=
  ∃ r ∈ s.orders, r.revolutOrderId = some orderId ∧ r.state = .completed ∧
    (orderId, r.userId) ∈ s.payments

/-- An `ORDER_COMPLETED` that found no row. -/
def Missed (s : State) (orderId : String) : Prop :=
  ∃ d ∈ s.deliveries, d.orderId = orderId ∧ d.event = "ORDER_COMPLETED" ∧
    d.phase = .answered (.ok .ignored)

/-- How far a delivery of an `ORDER_COMPLETED` has come. -/
def Stands (s : State) (orderId : String) : Phase → Prop
  | .found row => ∃ r ∈ s.orders, r.revolutOrderId = some orderId ∧ r.userId = row.userId
  | .marked row => ∃ r ∈ s.orders, r.revolutOrderId = some orderId ∧ r.userId = row.userId ∧
      r.state = .completed
  | .answered (.ok .completed) => Settled s orderId
  | .answered (.ok .ignored) => ∀ r ∈ s.orders, r.revolutOrderId ≠ some orderId
  | .answered (.ok .duplicate) => Settled s orderId ∨ Missed s orderId
  | .answered (.ok .failed) | .answered (.ok .cancelled) => False
  | .received | .recorded | .answered (.refused _) => True

structure PaidInv (s : State) : Prop where
  base : Base s
  deliveries : ∀ d ∈ s.deliveries, d.event = "ORDER_COMPLETED" → Stands s d.orderId d.phase
  active : ∀ p ∈ s.payments, Active s.supporters p.2

theorem paidInv_start : PaidInv .start where
  base := base_start
  deliveries := by simp [State.start]
  active := by simp [State.start]

/-- What a step leaves of an order. -/
structure Keeps (s s' : State) (orderId : String) : Prop where
  row : ∀ r ∈ s.orders, r.revolutOrderId = some orderId → ∃ r' ∈ s'.orders,
    r'.revolutOrderId = some orderId ∧ r'.userId = r.userId ∧
      (r.state = .completed → r'.state = .completed)
  payments : s.payments ⊆ s'.payments
  missed : Missed s orderId → Missed s' orderId
  none : Missed s orderId → (∀ r ∈ s.orders, r.revolutOrderId ≠ some orderId) →
    ∀ r ∈ s'.orders, r.revolutOrderId ≠ some orderId

theorem Settled.keeps {orderId : String} (h : Settled s orderId) (hk : Keeps s s' orderId) :
    Settled s' orderId := by
  obtain ⟨r, hr, hid, hcompleted, hpaid⟩ := h
  obtain ⟨r', hr', hid', huser, hstate⟩ := hk.row r hr hid
  exact ⟨r', hr', hid', hstate hcompleted, hk.payments (huser ▸ hpaid)⟩

theorem Stands.keeps {orderId : String} {phase : Phase} (h : Stands s orderId phase)
    (hk : Keeps s s' orderId) (hmissed : phase = .answered (.ok .ignored) → Missed s orderId) :
    Stands s' orderId phase := by
  cases phase with
  | received => trivial
  | recorded => trivial
  | found row =>
    obtain ⟨r, hr, hid, huser⟩ := h
    obtain ⟨r', hr', hid', huser', -⟩ := hk.row r hr hid
    exact ⟨r', hr', hid', huser'.trans huser⟩
  | marked row =>
    obtain ⟨r, hr, hid, huser, hcompleted⟩ := h
    obtain ⟨r', hr', hid', huser', hstate⟩ := hk.row r hr hid
    exact ⟨r', hr', hid', huser'.trans huser, hstate hcompleted⟩
  | answered reply =>
    cases reply with
    | refused r => trivial
    | ok ack =>
      cases ack with
      | completed => exact Settled.keeps h hk
      | ignored => exact hk.none (hmissed rfl) h
      | duplicate =>
        rcases h with h | h
        · exact .inl (h.keeps hk)
        · exact .inr (hk.missed h)
      | failed => exact h
      | cancelled => exact h

/-- A step that leaves the orders, the payments and what was missed. -/
theorem keeps_same {orderId : String} (horders : s'.orders = s.orders)
    (hpayments : s.payments ⊆ s'.payments) (hmissed : Missed s orderId → Missed s' orderId) :
    Keeps s s' orderId where
  row := by
    rw [horders]
    exact fun r hr hid => ⟨r, hr, hid, rfl, id⟩
  payments := hpayments
  missed := hmissed
  none := by
    rw [horders]
    exact fun _ h => h

theorem Missed.setPhase {orderId : String} {d : Delivery} {phase : Phase}
    (h : Missed s orderId) (hd : s.deliveries[i]? = some d) (hopen : d.acknowledged = false) :
    Missed (s.setPhase i d phase) orderId := by
  obtain ⟨d', hd', hid, hevent, hphase⟩ := h
  refine ⟨d', Calls.mem_set_of_ne hd hd' ?_, hid, hevent, hphase⟩
  rintro rfl
  simp [Delivery.acknowledged, hphase] at hopen

theorem keeps_land {orderId : String} {id : Uuid} {order : NewOrder} {now : Timestamp} :
    Keeps s { s.setCheckout i (.landed id) with orders := createPending id order now s.orders }
      orderId where
  row := fun r hr hid => ⟨r, List.mem_append_left _ hr, hid, rfl, fun h => h⟩
  payments := List.Subset.refl _
  missed := fun h => h
  none := by
    intro _ hnone r hr
    rcases List.mem_append.1 hr with hr | hr
    · exact hnone r hr
    · rw [List.mem_singleton.1 hr]
      exact nofun

/-- The row that is attached had no order; its order is not one that was missed. -/
theorem keeps_attach (hb : Base s) {id : Uuid} {orderId orderId' url : String}
    (hold : s.checkouts[i]? = some (.ordered id orderId' url))
    (hmissed : Missed s orderId → orderId' ≠ orderId) :
    Keeps s { s.setCheckout i (.attached id orderId') with
      orders := s.orders.map (attachTo id orderId' url) } orderId where
  row := by
    intro r hr hid
    have hne : r.id ≠ id := by
      intro hrid
      obtain ⟨r₁, hr₁, hr₁id, hnone⟩ := hb.landed _ (List.mem_of_getElem? hold) id rfl
      rw [List.inj_on_of_nodup_map hb.ids hr hr₁ (hrid.trans hr₁id.symm), hnone] at hid
      cases hid
    refine ⟨_, List.mem_map_of_mem hr, ?_, attachTo_userId, fun h => by rw [attachTo_state, h]⟩
    rw [attachTo_revolutOrderId, if_neg hne, hid]
  payments := List.Subset.refl _
  missed := fun h => h
  none := by
    intro hm hnone r hr hid
    obtain ⟨r₀, hr₀, rfl⟩ := List.mem_map.1 hr
    rw [attachTo_revolutOrderId] at hid
    split at hid
    · exact hmissed hm (Option.some.inj hid)
    · exact hnone r₀ hr₀ hid

section
variable {d : Delivery} {phase : Phase} {state : OrderState} {now : Timestamp}

/-- A completed order is not moved on. -/
theorem keeps_mark {orderId : String} (hd : s.deliveries[i]? = some d)
    (hopen : d.acknowledged = false)
    (hcompleted : state ≠ .completed → ∀ r ∈ s.orders, r.revolutOrderId = some d.orderId →
      r.state ≠ .completed) :
    Keeps s { s.setPhase i d phase with
      orders := s.orders.map (moveTo d.orderId state now)
      processed := s.processed ++ [(d.orderId, d.event)] } orderId where
  row := by
    intro r hr hid
    refine ⟨_, List.mem_map_of_mem hr, by rw [moveTo_revolutOrderId, hid], moveTo_userId, ?_⟩
    intro hr'
    by_cases heq : r.revolutOrderId = some d.orderId
    · rw [(moveTo_of_eq heq).1]
      by_contra hne
      exact hcompleted hne r hr heq hr'
    · rw [moveTo_of_ne heq, hr']
  payments := List.Subset.refl _
  missed := fun h => h.setPhase hd hopen
  none := by
    intro _ hnone r hr
    obtain ⟨r₀, hr₀, rfl⟩ := List.mem_map.1 hr
    rw [moveTo_revolutOrderId]
    exact hnone r₀ hr₀

end

theorem webhookState_completed_iff {event : String} {state : OrderState} {ack : WebhookAck}
    (h : webhookState event = some (state, ack)) :
    state = .completed ↔ event = "ORDER_COMPLETED" := by
  unfold webhookState at h
  grind

theorem keeps_of_effect (hb : Base s) (hok : Undisturbed s a) (he : Effect s a s')
    (orderId : String) : Keeps s s' orderId := by
  cases he with
  | begin | giveUp | create => exact keeps_same rfl (List.Subset.refl _) fun h => h
  | land hnew => exact keeps_land
  | attach hold =>
    apply keeps_attach hb hold
    rintro ⟨d, hd, rfl, hevent, hphase⟩ heq
    exact hok _ hold d hd hevent hphase (congrArg some heq)
  | deliver =>
    refine keeps_same rfl (List.Subset.refl _) ?_
    rintro ⟨d, hd, hrest⟩
    exact ⟨d, List.mem_append_left _ hd, hrest⟩
  | fail hd hopen => exact keeps_same rfl (List.Subset.refl _) fun h => h.setPhase hd hopen
  | duplicate hd hphase | record hd hphase | miss hd hphase | skip hd hphase | found hd hphase =>
    have hopen := acknowledged_of_phase hphase nofun
    exact keeps_same rfl (List.Subset.refl _) fun h => h.setPhase hd hopen
  | mark hd hphase hstate hknown =>
    refine keeps_mark hd (acknowledged_of_phase hphase nofun) ?_
    intro hne
    exact hok _ hd (fun h => hne ((webhookState_completed_iff hstate).2 h))
  | pay hd hphase =>
    have hopen := acknowledged_of_phase hphase nofun
    exact keeps_same rfl (List.subset_append_left _ _) fun h => h.setPhase hd hopen

/-- The deliveries after one of them moves on. -/
theorem paidInv_setPhase (hs : PaidInv s) {d : Delivery} {phase : Phase}
    (hb : Base s') (hkeeps : ∀ orderId, Keeps s s' orderId)
    (hdeliveries : s'.deliveries = s.deliveries.set i { d with phase := phase })
    (hphase : d.event = "ORDER_COMPLETED" → Stands s' d.orderId phase)
    (hactive : ∀ p ∈ s'.payments, Active s'.supporters p.2) : PaidInv s' where
  base := hb
  deliveries := by
    intro d' hd' hevent
    rw [hdeliveries] at hd'
    rcases List.mem_or_eq_of_mem_set hd' with hmem | rfl
    · apply (hs.deliveries d' hmem hevent).keeps (hkeeps _)
      intro hignored
      exact ⟨d', hmem, rfl, hevent, hignored⟩
    · exact hphase hevent
  active := hactive

theorem PaidInv.of_deliveries (hs : PaidInv s) (hb : Base s')
    (hkeeps : ∀ orderId, Keeps s s' orderId) (hdeliveries : s'.deliveries = s.deliveries)
    (hactive : ∀ p ∈ s'.payments, Active s'.supporters p.2) : PaidInv s' where
  base := hb
  deliveries := by
    intro d hd hevent
    rw [hdeliveries] at hd
    apply (hs.deliveries d hd hevent).keeps (hkeeps _)
    intro hignored
    exact ⟨d, hd, rfl, hevent, hignored⟩
  active := hactive

/-- What an acknowledged `ORDER_COMPLETED` says. -/
theorem PaidInv.acknowledged (hs : PaidInv s) {d : Delivery} (hd : d ∈ s.deliveries)
    (hevent : d.event = "ORDER_COMPLETED") (hack : d.acknowledged) :
    Settled s d.orderId ∨ Missed s d.orderId := by
  have hstands := hs.deliveries d hd hevent
  unfold Delivery.acknowledged at hack
  split at hack
  · rename_i ack hphase
    rw [hphase] at hstands
    cases ack with
    | completed => exact .inl hstands
    | ignored => exact .inr ⟨d, hd, rfl, hevent, hphase⟩
    | duplicate => exact hstands
    | failed => exact hstands.elim
    | cancelled => exact hstands.elim
  · cases hack

theorem paidInv_step (hs : PaidInv s) (hok : Undisturbed s a) (ha : step s a = some s') :
    PaidInv s' := by
  have he := effect_of_step ha
  have hb := base_step hs.base he
  have hkeeps := keeps_of_effect hs.base hok he
  cases he with
  | begin | giveUp | land | create | attach => exact hs.of_deliveries hb hkeeps rfl hs.active
  | deliver =>
    refine ⟨hb, ?_, hs.active⟩
    intro d hd hevent
    rcases List.mem_append.1 hd with hmem | hnew
    · apply (hs.deliveries d hmem hevent).keeps (hkeeps _)
      intro hignored
      exact ⟨d, hmem, rfl, hevent, hignored⟩
    · rw [List.mem_singleton.1 hnew]
      trivial
  | fail hd hopen =>
    exact paidInv_setPhase hs hb hkeeps rfl (fun _ => trivial) hs.active
  | duplicate hd hphase hevents =>
    refine paidInv_setPhase hs hb hkeeps rfl (fun hevent => ?_) hs.active
    obtain ⟨d', hd', hid, hevent', hack⟩ := hok _ hd hevent hevents
    have hdone := hs.acknowledged hd' (hevent'.trans hevent) hack
    rw [hid] at hdone
    have hstands : Stands s _ (.answered (.ok .duplicate)) := hdone
    exact hstands.keeps (hkeeps _) nofun
  | record hd hphase =>
    exact paidInv_setPhase hs hb hkeeps rfl (fun _ => trivial) hs.active
  | miss hd hphase hnone =>
    exact paidInv_setPhase hs hb hkeeps rfl (fun _ => hnone) hs.active
  | skip hd hphase hnone =>
    refine paidInv_setPhase hs hb hkeeps rfl (fun hevent => ?_) hs.active
    rw [hevent] at hnone
    exact absurd hnone (by decide)
  | found hd hphase hrow hid =>
    exact paidInv_setPhase hs hb hkeeps rfl (fun _ => ⟨_, hrow, hid, rfl⟩) hs.active
  | @mark _ d row now state ack hd hphase hstate hknown =>
    refine paidInv_setPhase hs hb hkeeps rfl (fun hevent => ?_) hs.active
    rw [(webhookState_completed_iff hstate).2 hevent, if_pos rfl]
    have hfound := hs.deliveries _ (List.mem_of_getElem? hd) hevent
    rw [hphase] at hfound
    obtain ⟨r, hr, hid, huser⟩ := hfound
    exact ⟨_, List.mem_map_of_mem hr, by rw [moveTo_revolutOrderId, hid],
      by rw [moveTo_userId, huser], (moveTo_of_eq hid).1⟩
  | @pay _ d row now hd hphase =>
    refine paidInv_setPhase hs hb hkeeps rfl (fun hevent => ?_) ?_
    · have hmarked := hs.deliveries _ (List.mem_of_getElem? hd) hevent
      rw [hphase] at hmarked
      obtain ⟨r, hr, hid, huser, hcompleted⟩ := hmarked
      refine ⟨r, hr, hid, hcompleted, List.mem_append_right _ ?_⟩
      rw [huser]
      exact List.mem_singleton_self _
    · intro p hp
      rcases List.mem_append.1 hp with hp | hp
      · exact (hs.active p hp).markPaymentReceived
      · rw [List.mem_singleton.1 hp]
        exact active_markPaymentReceived

theorem PaidInv.paidSupports (hs : PaidInv s) : PaidSupports s := by
  intro d hd hevent hack row hrow hid
  rcases hs.acknowledged hd hevent hack with hsettled | hmissed
  · obtain ⟨r, hr, hrid, hcompleted, hpaid⟩ := hsettled
    obtain rfl := hs.base.unique row hrow r hr d.orderId hid hrid
    exact ⟨hcompleted, hpaid, hs.active _ hpaid⟩
  · obtain ⟨d', hd', heq, hevent', hphase'⟩ := hmissed
    have hnone := hs.deliveries d' hd' hevent'
    rw [hphase', heq] at hnone
    exact absurd hid (hnone row hrow)

/-- In every run whose steps all meet the condition, a paid order makes its user a supporter. -/
theorem paid_order_supports (h : Trans.Reach step Undisturbed .start s) : PaidSupports s :=
  (h.inv paidInv_start fun _ _ _ hs hok ha => paidInv_step hs hok ha).paidSupports

/-! ## Runs -/

theorem redelivery_is_no_retry :
    ¬ ∀ s, Trans.Reach step Trans.always .start s → PaidSupports s := by
  intro hall
  have hrun : (Trans.exec step Trans.always .start (checkoutOfU1 ++
      [Action.deliver "o1" "ORDER_COMPLETED", .record 0 false, .find 0 false, .markState 0 1 true,
        .deliver "o1" "ORDER_COMPLETED", .record 1 false])).map
      (fun s => (s.deliveries[1]?, s.orders.map fun row => (row.revolutOrderId, row.state))) =
      some (some ⟨"o1", "ORDER_COMPLETED", .answered (.ok .duplicate)⟩,
        [(some "o1", .pending)]) := by
    decide +kernel
  obtain ⟨s, hreach, hs⟩ := Trans.reach_of_map_exec _ hrun
  simp only [Prod.mk.injEq] at hs
  obtain ⟨hdelivery, horders⟩ := hs
  have hrow : (some "o1", OrderState.pending) ∈
      s.orders.map fun row => (row.revolutOrderId, row.state) := by
    rw [horders]
    exact List.mem_singleton_self _
  obtain ⟨row, hrow, hpair⟩ := List.mem_map.1 hrow
  simp only [Prod.mk.injEq] at hpair
  have hpaid := (hall s hreach _ (List.mem_of_getElem? hdelivery) rfl rfl
    row hrow hpair.1).1
  rw [hpair.2] at hpaid
  cases hpaid

theorem paid_order_supports_u1 :
    ∃ s, Trans.Reach step Undisturbed .start s ∧
      s.deliveries.map (·.phase) =
        [.answered (.ok .completed), .answered (.ok .duplicate)] ∧
      s.payments = [("o1", "u1")] ∧ PaidSupports s := by
  have hrun : (Trans.exec step Undisturbed .start (checkoutOfU1 ++ completion 0 ++
      [Action.deliver "o1" "ORDER_COMPLETED", .record 1 false])).map
      (fun s => (s.deliveries.map (·.phase), s.payments)) =
      some ([.answered (.ok .completed), .answered (.ok .duplicate)], [("o1", "u1")]) := by
    decide +kernel
  obtain ⟨s, hreach, hs⟩ := Trans.reach_of_map_exec _ hrun
  simp only [Prod.mk.injEq] at hs
  exact ⟨s, hreach, hs.1, hs.2, paid_order_supports hreach⟩

end StarStats.Orders
