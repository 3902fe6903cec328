import StarStats.Core.Proof.ShopPairs

/-!
# Pairing in another order

`pairTransactions_order_iff`: with distinct timestamps the transactions do not depend on the order
of the events exactly when no two responses have the same favourite request. Of two that have, the
one that comes first gets it.
-/

namespace StarStats

open Events

/-- No two responses have the same request as the latest that they fit. -/
def NoSharedFavourite (events : List GameEvent) : Prop :=
  ∀ p ∈ events.filterMap shopResponse, ∀ q ∈ events.filterMap shopResponse, ∀ req,
    Greedy.Favourite Fits ShopBuyRequest.timestamp (events.filterMap shopRequest) p req →
    Greedy.Favourite Fits ShopBuyRequest.timestamp (events.filterMap shopRequest) q req → p = q

/-- It is enough to look at the requests. -/
theorem noSharedFavourite_iff (events : List GameEvent) :
    NoSharedFavourite events ↔
      ∀ p ∈ events.filterMap shopResponse, ∀ q ∈ events.filterMap shopResponse,
        ∀ req ∈ events.filterMap shopRequest,
          Greedy.Favourite Fits ShopBuyRequest.timestamp (events.filterMap shopRequest) p req →
          Greedy.Favourite Fits ShopBuyRequest.timestamp (events.filterMap shopRequest) q req →
          p = q :=
  ⟨fun h p hp q hq req _ => h p hp q hq req,
    fun h p hp q hq req hfav => h p hp q hq req hfav.1 hfav⟩

/-! ## Timestamps -/

theorem shopRequest_eq_some {e : GameEvent} {r : ShopBuyRequest} :
    shopRequest e = some r ↔ e = .shopBuyRequest r := by
  cases e <;> simp [shopRequest]

theorem shopResponse_eq_some {e : GameEvent} {r : ShopFlowResponse} :
    shopResponse e = some r ↔ e = .shopFlowResponse r := by
  cases e <;> simp [shopResponse]

theorem commodityBuy_eq_some {e : GameEvent} {r : CommodityBuyRequest} :
    commodityBuy e = some r ↔ e = .commodityBuyRequest r := by
  cases e <;> simp [commodityBuy]

theorem commoditySell_eq_some {e : GameEvent} {r : CommoditySellRequest} :
    commoditySell e = some r ↔ e = .commoditySellRequest r := by
  cases e <;> simp [commoditySell]

section
variable {events events' : List GameEvent} {now : String} {windowSecs : Int64}

/-- The timestamps of the events of one kind. -/
theorem nodup_filterMap {α : Type} {kind : GameEvent → Option α} {timestamp : α → String}
    (hkind : ∀ e a, kind e = some a → timestamp a = e.timestamp)
    (h : (events.map (·.timestamp)).Nodup) : ((events.filterMap kind).map timestamp).Nodup := by
  refine h.sublist ?_
  clear h
  induction events with
  | nil => exact .slnil
  | cons e events ih =>
    cases hk : kind e with
    | none =>
      rw [List.filterMap_cons_none hk]
      exact ih.cons _
    | some a =>
      rw [List.filterMap_cons_some hk, List.map_cons, List.map_cons, hkind e a hk]
      exact ih.cons_cons _

theorem nodup_requests (h : (events.map (·.timestamp)).Nodup) :
    ((events.filterMap shopRequest).map (·.timestamp)).Nodup :=
  nodup_filterMap (fun e a ha => by rw [shopRequest_eq_some.1 ha]; rfl) h

theorem nodup_responses (h : (events.map (·.timestamp)).Nodup) :
    (events.filterMap shopResponse).Nodup :=
  List.Nodup.of_map (·.timestamp)
    (nodup_filterMap (fun e a ha => by rw [shopResponse_eq_some.1 ha]; rfl) h)

/-- Events of two kinds have different timestamps. -/
theorem timestamps_disjoint {α β : Type} {kind : GameEvent → Option α} {kind' : GameEvent → Option β}
    {timestamp : α → String} {timestamp' : β → String}
    (hkind : ∀ e a, kind e = some a → timestamp a = e.timestamp)
    (hkind' : ∀ e b, kind' e = some b → timestamp' b = e.timestamp)
    (hapart : ∀ e a b, kind e = some a → kind' e ≠ some b) (h : (events.map (·.timestamp)).Nodup) :
    ∀ t ∈ (events.filterMap kind).map timestamp,
      ∀ t' ∈ (events.filterMap kind').map timestamp', t ≠ t' := by
  rintro t ht _ ht' rfl
  obtain ⟨a, ha, rfl⟩ := List.mem_map.1 ht
  obtain ⟨b, hb, heq⟩ := List.mem_map.1 ht'
  obtain ⟨e, he, hea⟩ := List.mem_filterMap.1 ha
  obtain ⟨e', he', heb⟩ := List.mem_filterMap.1 hb
  rw [hkind e a hea, hkind' e' b heb] at heq
  obtain rfl := List.inj_on_of_nodup_map h he' he heq
  exact hapart e' a b hea heb

theorem requests_pairShop (events : List GameEvent) :
    (pairShop events).map (·.1) = events.filterMap shopRequest := by
  obtain ⟨partner, h⟩ := exists_matching_pairShop events
  exact h.same

theorem unsorted_startedAt :
    (unsorted events now windowSecs).map (·.startedAt) =
      (events.filterMap shopRequest).map (·.timestamp) ++
        (events.filterMap commodityBuy).map (·.timestamp) ++
        (events.filterMap commoditySell).map (·.timestamp) := by
  rw [← requests_pairShop, unsorted]
  simp only [List.map_append, List.map_map]
  rfl

theorem nodup_startedAt (h : (events.map (·.timestamp)).Nodup) :
    ((unsorted events now windowSecs).map (·.startedAt)).Nodup := by
  have hreq : ∀ e r, shopRequest e = some r → r.timestamp = e.timestamp :=
    fun e r hr => by rw [shopRequest_eq_some.1 hr]; rfl
  have hbuy : ∀ e r, commodityBuy e = some r → r.timestamp = e.timestamp :=
    fun e r hr => by rw [commodityBuy_eq_some.1 hr]; rfl
  have hsell : ∀ e r, commoditySell e = some r → r.timestamp = e.timestamp :=
    fun e r hr => by rw [commoditySell_eq_some.1 hr]; rfl
  rw [unsorted_startedAt, List.nodup_append, List.nodup_append]
  refine ⟨⟨nodup_filterMap hreq h, nodup_filterMap hbuy h, ?_⟩, nodup_filterMap hsell h, ?_⟩
  · refine timestamps_disjoint hreq hbuy (fun e a b ha hb => ?_) h
    rw [shopRequest_eq_some.1 ha] at hb
    cases hb
  · intro t ht
    rcases List.mem_append.1 ht with ht | ht
    · refine timestamps_disjoint hreq hsell (fun e a b ha hb => ?_) h t ht
      rw [shopRequest_eq_some.1 ha] at hb
      cases hb
    · refine timestamps_disjoint hbuy hsell (fun e a b ha hb => ?_) h t ht
      rw [commodityBuy_eq_some.1 ha] at hb
      cases hb

/-- A transaction is known from when it started. -/
theorem eq_of_startedAt (h : (events.map (·.timestamp)).Nodup) {tx tx' : Transaction}
    (htx : tx ∈ pairTransactions events now windowSecs)
    (htx' : tx' ∈ pairTransactions events now windowSecs) (heq : tx.startedAt = tx'.startedAt) :
    tx = tx' := by
  rw [pairTransactions_eq, List.mem_insertionSort] at htx htx'
  exact List.inj_on_of_nodup_map (nodup_startedAt h) htx htx' heq

/-! ## Two orders -/

theorem pairTransactions_perm (h : (events.map (·.timestamp)).Nodup) (hperm : events'.Perm events)
    (hpairs : (pairShop events').Perm (pairShop events)) :
    pairTransactions events' now windowSecs = pairTransactions events now windowSecs := by
  have hrows : (unsorted events' now windowSecs).Perm (unsorted events now windowSecs) :=
    ((hpairs.map _).append ((hperm.filterMap _).map _)).append ((hperm.filterMap _).map _)
  have hout : (pairTransactions events' now windowSecs).Perm
      (pairTransactions events now windowSecs) :=
    (List.perm_insertionSort _ _).trans (hrows.trans (List.perm_insertionSort _ _).symm)
  have htotal : Std.Total fun a b : Transaction => a.startedAt ≤ b.startedAt :=
    ⟨fun a b => le_total _ _⟩
  have htrans : IsTrans Transaction fun a b => a.startedAt ≤ b.startedAt :=
    ⟨fun a b c => le_trans⟩
  refine hout.eq_of_pairwise (fun tx tx' htx htx' hle hle' => ?_)
    (List.pairwise_insertionSort _ _) (List.pairwise_insertionSort _ _)
  exact eq_of_startedAt h (hout.mem_iff.1 htx) htx' (le_antisymm hle hle')

/-- In an order in which the response comes first it gets its favourite. -/
theorem mem_pairShop_of_first (h : (events.map (·.timestamp)).Nodup) {resp : ShopFlowResponse}
    {req : ShopBuyRequest} (hresp : resp ∈ events.filterMap shopResponse)
    (hfav : Greedy.Favourite Fits ShopBuyRequest.timestamp (events.filterMap shopRequest) resp
      req) :
    ∃ events', events'.Perm events ∧ (req, some resp) ∈ pairShop events' := by
  obtain ⟨e, he, hkind⟩ := List.mem_filterMap.1 hresp
  obtain rfl := shopResponse_eq_some.1 hkind
  obtain ⟨before, after, rfl⟩ := List.append_of_mem he
  refine ⟨.shopFlowResponse resp :: (before ++ after), List.perm_middle.symm, ?_⟩
  have hrequests : (before ++ .shopFlowResponse resp :: after).filterMap shopRequest =
      (GameEvent.shopFlowResponse resp :: (before ++ after)).filterMap shopRequest := by
    rw [List.filterMap_append, List.filterMap_cons_none rfl, List.filterMap_cons_none rfl,
      List.filterMap_append]
  have hnodup := nodup_requests h
  rw [hrequests] at hnodup hfav
  exact Greedy.mem_of_first bestStep_pairResponse hnodup hfav

/-- With distinct timestamps the order of the events does not matter exactly when no two responses
have the same favourite. -/
theorem pairTransactions_order_iff (now : String) (windowSecs : Int64)
    (h : (events.map (·.timestamp)).Nodup) :
    (∀ events', events'.Perm events →
        pairTransactions events' now windowSecs = pairTransactions events now windowSecs) ↔
      NoSharedFavourite events := by
  constructor
  · intro hsame p hp q hq req hfav hfav'
    obtain ⟨ps, hps, hpair⟩ := mem_pairShop_of_first h hp hfav
    obtain ⟨qs, hqs, hpair'⟩ := mem_pairShop_of_first h hq hfav'
    have htx := mem_pairTransactions now windowSecs hpair
    have htx' := mem_pairTransactions now windowSecs hpair'
    rw [hsame ps hps] at htx
    rw [hsame qs hqs] at htx'
    -- one transaction of the request is confirmed when either response came
    have hconfirmed := congrArg (·.confirmedAt) (eq_of_startedAt h htx htx' rfl)
    have htimes : p.timestamp = q.timestamp := Option.some.inj hconfirmed
    obtain ⟨e, he, hkind⟩ := List.mem_filterMap.1 hp
    obtain ⟨e', he', hkind'⟩ := List.mem_filterMap.1 hq
    obtain rfl := shopResponse_eq_some.1 hkind
    obtain rfl := shopResponse_eq_some.1 hkind'
    exact GameEvent.shopFlowResponse.inj (List.inj_on_of_nodup_map h he he' htimes)
  · intro hapart events' hperm
    refine pairTransactions_perm h hperm ?_
    have hrequests := hperm.filterMap shopRequest
    have hresponses := hperm.filterMap shopResponse
    have hnodup := nodup_requests h
    have htaken := Greedy.favourites bestStep_pairResponse hnodup (nodup_responses h) hapart
    refine htaken.perm (Greedy.favourites bestStep_pairResponse ?_ ?_ ?_)
      (List.Nodup.of_map _ hnodup) hrequests hresponses
    · exact (hrequests.map _).nodup_iff.2 hnodup
    · exact hresponses.nodup_iff.2 (nodup_responses h)
    · intro p hp q hq req hfav hfav'
      simp only [Greedy.Favourite, hrequests.mem_iff] at hfav hfav'
      exact hapart p (hresponses.mem_iff.1 hp) q (hresponses.mem_iff.1 hq) req hfav hfav'

end

/-! ### Two requests and two responses -/

def clockAt (second : String) : String := "2026-05-01T18:46:" ++ second ++ ".000Z"

def buyAt (second : String) : GameEvent :=
  .shopBuyRequest ⟨clockAt second, some "shop", some "item", none, "buy", none, none⟩

def answerAt (second : String) (success : Bool) : GameEvent :=
  .shopFlowResponse ⟨clockAt second, some "shop", some success, "answer"⟩

/-- The first request is answered before the second is made. -/
def answeredEvents : List GameEvent :=
  [buyAt "10", answerAt "11" true, buyAt "12", answerAt "13" false]

/-- Newest first, the transactions are the same. -/
theorem pairTransactions_order_answered :
    pairTransactions answeredEvents.reverse "" 30 = pairTransactions answeredEvents "" 30 := by
  refine (pairTransactions_order_iff "" 30 (by decide +kernel)).2 ?_ _ (List.reverse_perm _)
  rw [noSharedFavourite_iff]
  decide +kernel

/-- Both requests are made before the first is answered. -/
def contestedEvents : List GameEvent :=
  [buyAt "10", buyAt "11", answerAt "12" true, answerAt "13" false]

/-- Newest first, the other request is rejected. -/
theorem pairTransactions_not_order_free :
    ¬ ∀ (events : List GameEvent) (now : String) (windowSecs : Int64),
      (events.map (·.timestamp)).Nodup → ∀ events', events'.Perm events →
        pairTransactions events' now windowSecs = pairTransactions events now windowSecs := by
  intro h
  have hsame := h contestedEvents "" 30 (by decide +kernel) contestedEvents.reverse
    (List.reverse_perm _)
  exact absurd hsame (by decide +kernel)

end StarStats
