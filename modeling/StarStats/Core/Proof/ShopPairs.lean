import StarStats.Core.Proof.Transactions
import StarStats.Lib.Greedy

/-!
# What the pairing of responses and requests is

`pairShop` is a greedy matching (`bestStep_pairResponse`): each response takes the latest of the
requests that it fits and that are still open. So every event list has one transaction for each
request, buy and sell, and its pairs are a maximal matching (`pairTransactions_matching`).
-/

namespace StarStats

open Events

/-- The request is not behind the response, and their shops are not known to differ. -/
def Fits (resp : ShopFlowResponse) (req : ShopBuyRequest) : Prop :=
  shopsMatch resp.shopId req.shopId = true ∧ req.timestamp ≤ resp.timestamp

instance (resp : ShopFlowResponse) (req : ShopBuyRequest) : Decidable (Fits resp req) :=
  inferInstanceAs (Decidable (_ ∧ _))

theorem awaits_iff {resp : ShopFlowResponse} {pair : ShopPair} :
    awaits resp pair = true ↔ pair.2 = none ∧ Fits resp pair.1 := by
  simp only [awaits, Fits, Bool.and_eq_true, Option.isNone_iff_eq_none, decide_eq_true_eq,
    and_assoc]

/-! ## The request that is picked -/

theorem laterRequest_isSome (best : Option (ShopPair × Nat)) (next : ShopPair × Nat) :
    ∃ c, laterRequest best next = some c ∧ next.1.1.timestamp ≤ c.1.1.timestamp ∧
      ∀ b, best = some b → b.1.1.timestamp ≤ c.1.1.timestamp := by
  cases best with
  | none => exact ⟨next, rfl, le_refl _, by simp⟩
  | some b =>
    rw [laterRequest]
    split
    case isTrue hlt =>
      refine ⟨b, rfl, hlt.le, fun b' hb' => ?_⟩
      rw [Option.some.inj hb']
    case isFalse hge =>
      refine ⟨next, rfl, le_refl _, fun b' hb' => ?_⟩
      rw [← Option.some.inj hb']
      exact not_lt.1 hge

/-- The last of the latest candidates. -/
theorem foldl_laterRequest (cands : List (ShopPair × Nat)) (best : Option (ShopPair × Nat)) :
    (cands.foldl laterRequest best = none ↔ best = none ∧ cands = []) ∧
      ∀ c, cands.foldl laterRequest best = some c →
        (∀ b, best = some b → b.1.1.timestamp ≤ c.1.1.timestamp) ∧
          ∀ x ∈ cands, x.1.1.timestamp ≤ c.1.1.timestamp := by
  induction cands generalizing best with
  | nil =>
    refine ⟨by simp, fun c hc => ⟨fun b hb => ?_, by simp⟩⟩
    rw [List.foldl_nil, hb] at hc
    rw [Option.some.inj hc]
  | cons next cands ih =>
    obtain ⟨d, hd, hnext, hbest⟩ := laterRequest_isSome best next
    rw [List.foldl_cons, hd]
    obtain ⟨hnone, hsome⟩ := ih (some d)
    refine ⟨by simp [hnone], fun c hc => ?_⟩
    obtain ⟨hdc, hrest⟩ := hsome c hc
    have hle := hdc d rfl
    refine ⟨fun b hb => (hbest b hb).trans hle, fun x hx => ?_⟩
    rcases List.mem_cons.1 hx with rfl | hx
    · exact hnext.trans hle
    · exact hrest x hx

theorem mem_cands {pairs : List ShopPair} {resp : ShopFlowResponse} {req : ShopBuyRequest}
    (hmem : (req, none) ∈ pairs) (hfits : Fits resp req) :
    ∃ c ∈ pairs.zipIdx.filter (awaits resp ·.1), c.1 = (req, none) := by
  obtain ⟨i, hi⟩ := List.mem_iff_getElem?.1 hmem
  exact ⟨((req, none), i), List.mem_filter.2
    ⟨List.mem_zipIdx_iff_getElem?.2 hi, awaits_iff.2 ⟨rfl, hfits⟩⟩, rfl⟩

/-- A response takes the latest open request that it fits. -/
theorem bestStep_pairResponse (pairs : List ShopPair) (resp : ShopFlowResponse) :
    Greedy.BestStep Fits ShopBuyRequest.timestamp pairs resp (pairResponse pairs resp) := by
  obtain ⟨hnone, hsome⟩ := foldl_laterRequest (pairs.zipIdx.filter (awaits resp ·.1)) none
  unfold pairResponse
  cases hpick : pick pairs resp with
  | none =>
    refine .inl ⟨fun req hmem hfits => ?_, rfl⟩
    obtain ⟨c, hc, -⟩ := mem_cands hmem hfits
    rw [(hnone.1 (Option.map_eq_none_iff.1 hpick)).2] at hc
    cases hc
  | some idx =>
    obtain ⟨⟨req, o⟩, hget, hawaits⟩ := awaits_of_pick hpick
    obtain ⟨rfl, hfits⟩ := awaits_iff.1 hawaits
    refine .inr ⟨idx, req, hget, hfits, fun req' hmem hfits' => ?_, ?_⟩
    · obtain ⟨⟨pair, i⟩, hfold, rfl⟩ := Option.map_eq_some_iff.1 hpick
      -- the picked candidate is the request at its place
      have hpair : pair = (req, none) := by
        rcases mem_of_foldl_laterRequest hfold with hno | hmem
        · cases hno
        · have hzip := List.mem_zipIdx_iff_getElem?.1 (List.mem_filter.1 hmem).1
          exact Option.some.inj (hzip.symm.trans hget)
      obtain ⟨c, hc, hceq⟩ := mem_cands hmem hfits'
      have hle := (hsome _ hfold).2 c hc
      rw [hceq, hpair] at hle
      exact hle
    · dsimp only
      rw [List.modify_eq_set_getElem?, hget]
      rfl

/-! ## The transactions -/

theorem exists_matching_pairShop (events : List GameEvent) :
    ∃ partner, Greedy.Matching Fits (events.filterMap shopRequest)
      (events.filterMap shopResponse) (pairShop events) partner :=
  Greedy.exists_matching (fun pairs resp => (bestStep_pairResponse pairs resp).step) _ _

/-- What a transaction says of a request and the response to it. -/
structure Shown (pair : ShopPair) (tx : Transaction) : Prop where
  request : tx.kind = .shop ∧ tx.startedAt = pair.1.timestamp ∧ tx.rawRequest = pair.1.raw
  response : tx.confirmedAt = pair.2.map (·.timestamp) ∧ tx.rawResponse = pair.2.map (·.raw)
  rejected : tx.status = .rejected ↔ pair.2.any (·.success = some false) = true
  confirmed : tx.status = .confirmed ↔ pair.2.any (·.success ≠ some false) = true

theorem ageStatus_cases (startedAt : String) (nowSecs : Option Int64) (windowSecs : Int64) :
    ageStatus startedAt nowSecs windowSecs = .timedOut ∨
      ageStatus startedAt nowSecs windowSecs = .pending := by
  unfold ageStatus
  split
  · split
    · exact .inl rfl
    · exact .inr rfl
  · exact .inr rfl

/-- Of an unanswered request it only says how old it is. -/
theorem shown_shopTransaction (nowSecs : Option Int64) (windowSecs : Int64) (pair : ShopPair) :
    Shown pair (shopTransaction nowSecs windowSecs pair) := by
  obtain ⟨req, resp⟩ := pair
  refine ⟨⟨rfl, rfl, rfl⟩, ⟨rfl, rfl⟩, ?_, ?_⟩
  all_goals
    cases resp with
    | none =>
      rcases ageStatus_cases req.timestamp nowSecs windowSecs with h | h <;>
        simp [shopTransaction, h]
    | some resp => by_cases hno : resp.success = some false <;> simp [shopTransaction, hno]

/-- What is sorted. -/
def unsorted (events : List GameEvent) (now : String) (windowSecs : Int64) : List Transaction :=
  (pairShop events).map (shopTransaction (parseIsoSecs now) windowSecs) ++
    (events.filterMap commodityBuy).map (fun buy =>
      commodityTransaction .commodityBuy buy.timestamp buy.commodity buy.quantity buy.raw) ++
    (events.filterMap commoditySell).map fun sell =>
      commodityTransaction .commoditySell sell.timestamp sell.commodity sell.quantity sell.raw

theorem pairTransactions_eq (events : List GameEvent) (now : String) (windowSecs : Int64) :
    pairTransactions events now windowSecs =
      (unsorted events now windowSecs).insertionSort (·.startedAt ≤ ·.startedAt) := rfl

/-- The pairs are a maximal matching of the requests and the responses, in the order in which these
come; each request, buy and sell has one transaction, and that of a request shows its response. -/
theorem pairTransactions_matching (events : List GameEvent) (now : String) (windowSecs : Int64) :
    (∃ partner, Greedy.Matching Fits (events.filterMap shopRequest)
        (events.filterMap shopResponse) (pairShop events) partner) ∧
      (pairTransactions events now windowSecs).Perm
        (unsorted events now windowSecs) ∧
      ∀ pair ∈ pairShop events, ∃ tx ∈ pairTransactions events now windowSecs, Shown pair tx := by
  refine ⟨exists_matching_pairShop events, List.perm_insertionSort _ _, fun pair hpair => ?_⟩
  refine ⟨shopTransaction (parseIsoSecs now) windowSecs pair, ?_, shown_shopTransaction _ _ pair⟩
  rw [pairTransactions_eq, List.mem_insertionSort]
  exact List.mem_append_left _ (List.mem_append_left _ (List.mem_map_of_mem hpair))

end StarStats
