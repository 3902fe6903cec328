import StarStats.Core.Transactions
import StarStats.Core.Proof.Inference

/-!
# The two deciders on one request

A request that `pairTransactions` confirms is not timed out by the rule, if the response comes at
least a whole second after it and is not further behind it than the rule looks
(`confirmed_not_timed_out`).
-/

namespace StarStats

open Events

/-! ## Pairing -/

theorem shopsMatch_comm (a b : Option String) : shopsMatch a b = shopsMatch b a := by
  cases a <;> cases b <;> simp [shopsMatch, Bool.beq_comm]

/-- A pair's response is one that the request awaits, from the list. -/
def PairSound (responses : List ShopFlowResponse) (pair : ShopPair) : Prop :=
  ∀ resp, pair.2 = some resp → resp ∈ responses ∧ shopsMatch resp.shopId pair.1.shopId = true

theorem mem_of_foldl_laterRequest {cands : List (ShopPair × Nat)} {best : Option (ShopPair × Nat)}
    {c : ShopPair × Nat} (h : cands.foldl laterRequest best = some c) :
    best = some c ∨ c ∈ cands := by
  induction cands generalizing best with
  | nil => exact .inl h
  | cons next cands ih =>
    rcases ih h with hbest | hin
    · unfold laterRequest at hbest
      split at hbest
      · split at hbest
        · exact .inl hbest
        · exact .inr (by simp_all)
      · exact .inr (by simp_all)
    · exact .inr (List.mem_cons_of_mem _ hin)

/-- The request that is picked awaits the response. -/
theorem awaits_of_pick {pairs : List ShopPair} {resp : ShopFlowResponse} {idx : Nat}
    (h : pick pairs resp = some idx) :
    ∃ pair, pairs[idx]? = some pair ∧ awaits resp pair = true := by
  obtain ⟨⟨pair, i⟩, hfold, rfl⟩ := Option.map_eq_some_iff.1 h
  rcases mem_of_foldl_laterRequest hfold with hnone | hmem
  · cases hnone
  · obtain ⟨hzip, hawaits⟩ := List.mem_filter.1 hmem
    exact ⟨pair, List.mem_zipIdx_iff_getElem?.1 hzip, hawaits⟩

theorem sound_pairResponse {pairs : List ShopPair} {responses : List ShopFlowResponse}
    {resp : ShopFlowResponse} (hresp : resp ∈ responses) (h : ∀ pair ∈ pairs, PairSound responses pair) :
    ∀ pair ∈ pairResponse pairs resp, PairSound responses pair := by
  intro pair hpair
  unfold pairResponse at hpair
  split at hpair
  case h_1 idx hpick =>
    obtain ⟨picked, hget, hawaits⟩ := awaits_of_pick hpick
    obtain ⟨i, hi⟩ := List.mem_iff_getElem?.1 hpair
    rw [List.getElem?_modify] at hi
    obtain ⟨old, hold, rfl⟩ := Option.map_eq_some_iff.1 hi
    split
    · rename_i heq
      obtain rfl := Option.some.inj (hget.symm.trans (heq ▸ hold))
      intro r hr
      obtain rfl := Option.some.inj hr
      unfold awaits at hawaits
      simp only [Bool.and_eq_true] at hawaits
      exact ⟨hresp, hawaits.1.2⟩
    · exact h old (List.mem_iff_getElem?.2 ⟨i, hold⟩)
  case h_2 => exact h pair hpair

theorem sound_pairShop {events : List GameEvent} {pair : ShopPair} (h : pair ∈ pairShop events) :
    PairSound (events.filterMap shopResponse) pair := by
  have hrun : ∀ (rest : List ShopFlowResponse) (pairs : List ShopPair),
      (∀ r ∈ rest, r ∈ events.filterMap shopResponse) →
      (∀ pair ∈ pairs, PairSound (events.filterMap shopResponse) pair) →
      ∀ pair ∈ rest.foldl pairResponse pairs, PairSound (events.filterMap shopResponse) pair := by
    intro rest
    induction rest with
    | nil => exact fun pairs _ h => h
    | cons r rest ih =>
      intro pairs hin hsound
      exact ih _ (fun r' hr' => hin r' (List.mem_cons_of_mem _ hr'))
        (sound_pairResponse (hin r List.mem_cons_self) hsound)
  refine hrun _ _ (fun r hr => hr) ?_ pair h
  intro pair hpair r hr
  obtain ⟨req, -, rfl⟩ := List.mem_map.1 hpair
  cases hr

theorem mem_pairTransactions {events : List GameEvent} {pair : ShopPair} (now : String)
    (windowSecs : Int64) (h : pair ∈ pairShop events) :
    shopTransaction (parseIsoSecs now) windowSecs pair ∈ pairTransactions events now windowSecs := by
  rw [pairTransactions, List.mem_insertionSort]
  exact List.mem_append_left _ (List.mem_append_left _ (List.mem_map.2 ⟨pair, h, rfl⟩))

/-! ## The rule -/

section
variable {parseTs : String → Option Int} {config : InferenceConfig}
  {events : List EventEnvelope}

/-- A response that the rule counts for the request. -/
def Answers (req : ShopBuyRequest) (env : EventEnvelope) : Prop :=
  ∃ resp, env.event = some (.shopFlowResponse resp) ∧ shopsMatch req.shopId resp.shopId = true

theorem exists_rule_of_mem_conclusions {st : LocationChangeState} {env : EventEnvelope}
    {window : List EventEnvelope} {row : InferredEvent} (h : row ∈ conclusions parseTs st env window) :
    ∃ rule ∈ rulesIn st, ∃ m, (rule.apply rule.state env
      (windowWithinSecs parseTs env window rule.windowSecs)).1 = some m ∧ row.event = m.event := by
  obtain ⟨ran, hran, hrow⟩ := List.mem_filterMap.1 h
  obtain ⟨rule, hrule, rfl⟩ := List.mem_map.1 hran
  obtain ⟨m, hm, rfl⟩ := Option.map_eq_some_iff.1 hrow
  exact ⟨rule, hrule, m, hm, rfl⟩

/-- A request is timed out when no envelope of its window answers it. -/
theorem timedOut_conclusions {st : LocationChangeState} {env : EventEnvelope}
    {window : List EventEnvelope} {row : InferredEvent} {e : ShopRequestTimedOut}
    (h : row ∈ conclusions parseTs st env window) (hevent : row.event = .shopRequestTimedOut e) :
    ∃ req, env.event = some (.shopBuyRequest req) ∧
      ∀ z ∈ windowWithinSecs parseTs env window implicitShopRequestTimeoutSecs,
        ¬ Answers req z := by
  obtain ⟨rule, hrule, m, hm, heq⟩ := exists_rule_of_mem_conclusions h
  rw [heq] at hevent
  simp only [rulesIn, List.mem_cons, List.not_mem_nil, or_false] at hrule
  rcases hrule with rfl | rfl | rfl | rfl
  · -- the death rule
    simp only [builtInImplicitDeathAfterVehicleDestruction] at hm
    split at hm
    · obtain ⟨spawn, -, rfl⟩ := Option.map_eq_some_iff.1 hm
      cases hevent
    · cases hm
  · -- the location rule
    simp only [builtInImplicitLocationChange, LocationChangeState.apply] at hm
    split at hm
    · obtain ⟨prev, -, rfl⟩ := Option.map_eq_some_iff.1 hm
      cases hevent
    · cases hm
    · cases hm
  · -- the shop rule
    simp only [builtInImplicitShopRequestTimeout] at hm
    split at hm
    case h_1 req hreq =>
      refine ⟨req, hreq, fun z hz => ?_⟩
      rintro ⟨resp, hresp, hmatch⟩
      split at hm
      · cases hm
      · rename_i hnone
        refine hnone (List.any_eq_true.2 ⟨z, hz, ?_⟩)
        rw [hresp]
        exact hmatch
    case h_2 => cases hm
  · -- the travel rule
    simp only [builtInTravelToContractLocation] at hm
    split at hm
    · obtain rfl := Option.some.inj hm
      cases hevent
    · cases hm

theorem timedOut_inferFrom {st : LocationChangeState} {row : InferredEvent}
    {e : ShopRequestTimedOut} (h : row ∈ inferFrom parseTs config (rulesIn st) events)
    (hevent : row.event = .shopRequestTimedOut e) :
    ∃ before env after req, events = before ++ env :: after ∧
      env.event = some (.shopBuyRequest req) ∧
      ∀ z ∈ windowWithinSecs parseTs env (after.take config.windowSize)
        implicitShopRequestTimeoutSecs, ¬ Answers req z := by
  induction events generalizing st with
  | nil => cases h
  | cons env rest ih =>
    rw [inferFrom_cons] at h
    rcases List.mem_append.1 h with h | h
    · obtain ⟨req, hreq, hnone⟩ := timedOut_conclusions h hevent
      exact ⟨[], env, rest, req, rfl, hreq, hnone⟩
    · obtain ⟨before, env', after, req, rfl, hreq, hnone⟩ := ih h
      exact ⟨env :: before, env', after, req, rfl, hreq, hnone⟩

/-- Every timed-out row is about a request of the stream that nothing in its window answers. -/
theorem exists_request_of_timedOut {row : InferredEvent} {e : ShopRequestTimedOut}
    (h : row ∈ inferWithRules parseTs events config builtInInferenceRules)
    (hevent : row.event = .shopRequestTimedOut e) :
    ∃ before env after req, events = before ++ env :: after ∧
      env.event = some (.shopBuyRequest req) ∧
      ∀ z ∈ windowWithinSecs parseTs env (after.take config.windowSize)
        implicitShopRequestTimeoutSecs, ¬ Answers req z := by
  obtain ⟨row', hrow', rfl⟩ := List.mem_map.1 h
  have hstart : row' ∈ inferFrom parseTs config (rulesIn .default) events := hrow'
  exact timedOut_inferFrom hstart hevent

theorem exists_timedOut_inferFrom {st : LocationChangeState} {before after : List EventEnvelope}
    {env : EventEnvelope} {req : ShopBuyRequest} (hreq : env.event = some (.shopBuyRequest req))
    (hnone : ∀ z ∈ windowWithinSecs parseTs env (after.take config.windowSize)
      implicitShopRequestTimeoutSecs, ¬ Answers req z) :
    ∃ row ∈ inferFrom parseTs config (rulesIn st) (before ++ env :: after), ∃ e,
      row.event = .shopRequestTimedOut e := by
  induction before generalizing st with
  | nil =>
    have hran : (builtInImplicitShopRequestTimeout.run parseTs env
        (after.take config.windowSize)).1.map (·.event) = some (.shopRequestTimedOut
          ⟨req.timestamp, req.shopId, req.itemClass, implicitShopRequestTimeoutSecs.toUInt32⟩) := by
      simp only [CompiledInferenceRule.run, builtInImplicitShopRequestTimeout, hreq]
      split
      · rename_i hmatched
        obtain ⟨z, hz, hmatch⟩ := List.any_eq_true.1 hmatched
        split at hmatch
        · rename_i resp hresp
          exact absurd ⟨resp, hresp, hmatch⟩ (hnone z hz)
        · cases hmatch
      · rfl
    obtain ⟨row, hrow, hevent⟩ := Option.map_eq_some_iff.1 hran
    have hrule : builtInImplicitShopRequestTimeout ∈ rulesIn st := by simp [rulesIn]
    rw [List.nil_append, inferFrom_cons]
    exact ⟨row, List.mem_append_left _
      (List.mem_filterMap.2 ⟨_, List.mem_map.2 ⟨_, hrule, rfl⟩, hrow⟩), _, hevent⟩
  | cons z before ih =>
    obtain ⟨row, hrow, hevent⟩ := @ih (st.next z)
    exact ⟨row, List.mem_append_right _ hrow, hevent⟩

/-- A request that nothing in its window answers is timed out. -/
theorem not_notTimedOut {before after : List EventEnvelope} {env : EventEnvelope}
    {req : ShopBuyRequest} (hreq : env.event = some (.shopBuyRequest req))
    (hnone : ∀ z ∈ after.take config.windowSize,
      z ∈ windowWithinSecs parseTs env (after.take config.windowSize)
        implicitShopRequestTimeoutSecs → ¬ Answers req z) :
    ¬ NotTimedOut parseTs config (before ++ env :: after) := by
  intro hall
  obtain ⟨row, hrow, e, hevent⟩ := @exists_timedOut_inferFrom parseTs config .default before after
    env req hreq fun z hz => hnone z (List.mem_filter.1 hz).1 hz
  exact hall _ (List.mem_map.2 ⟨row, hrow, rfl⟩) e hevent

/-- A response a whole second to 30 seconds behind the request is in its window. -/
theorem mem_window {env z : EventEnvelope} {window : List EventEnvelope} {t u : Int}
    (hz : z ∈ window) (ht : envelopeTime parseTs env = some t)
    (hu : envelopeTime parseTs z = some u) (hone : 1000000000 ≤ u - t)
    (hlast : u - t ≤ implicitShopRequestTimeoutSecs * 1000000000) :
    z ∈ windowWithinSecs parseTs env window implicitShopRequestTimeoutSecs := by
  refine List.mem_filter.2 ⟨hz, ?_⟩
  have hsecs : secondsAfter parseTs env z = some (numSeconds (u - t)) := by
    simp [secondsAfter, ht, hu]
  rw [hsecs]
  have hpos : 0 ≤ u - t := by omega
  simp only [numSeconds, Int.tdiv_eq_ediv_of_nonneg hpos, implicitShopRequestTimeoutSecs,
    Bool.and_eq_true, decide_eq_true_eq] at hlast ⊢
  omega

end

/-! ## Both -/

/-- **A request confirmed within its window is not timed out.** -/
theorem confirmed_not_timed_out (parseTs : String → Option Int) (config : InferenceConfig)
    (events : List EventEnvelope) (now : String) (windowSecs : Int64) {req : ShopBuyRequest}
    {resp : ShopFlowResponse} {t u : Int} (htimed : WellTimed parseTs events)
    (hsingle : (classified events).filterMap shopRequest = [req])
    (hconfirmed : ConfirmedBy (classified events) now windowSecs req resp)
    (ht : parseTs req.timestamp = some t) (hu : parseTs resp.timestamp = some u)
    (hone : 1000000000 ≤ u - t) (hlast : u - t ≤ implicitShopRequestTimeoutSecs * 1000000000)
    (hreach : WithinReach config events req resp) : NotTimedOut parseTs config events := by
  intro row hrow e hevent
  obtain ⟨before, env, after, req', rfl, hreq, hnone⟩ := exists_request_of_timedOut hrow hevent
  have hmem : req' ∈ (classified (before ++ env :: after)).filterMap shopRequest := by
    refine List.mem_filterMap.2 ⟨.shopBuyRequest req', List.mem_filterMap.2 ⟨env, ?_, hreq⟩, rfl⟩
    simp
  rw [hsingle, List.mem_singleton] at hmem
  subst hmem
  obtain ⟨z, hz, hresp⟩ := hreach before env after rfl hreq
  have hzu : envelopeTime parseTs z = some u := by
    rw [envelopeTime, envelopeTimestamp, hresp]
    exact hu
  have henvt : envelopeTime parseTs env = some t := by
    rw [envelopeTime, envelopeTimestamp, hreq]
    exact ht
  rcases List.mem_append.1 hz with hz | hz
  · -- what stands before the request is not after it in time
    have hsorted := htimed.2
    rw [List.filterMap_append, List.pairwise_append] at hsorted
    have hle := hsorted.2.2 u (List.mem_filterMap.2 ⟨z, hz, hzu⟩) t
      (List.mem_filterMap.2 ⟨env, List.mem_cons_self, henvt⟩)
    omega
  · rcases List.mem_cons.1 hz with rfl | hz
    · rw [hreq] at hresp
      cases hresp
    · have hshops := (sound_pairShop hconfirmed.1 resp rfl).2
      exact hnone z (mem_window hz henvt hzu hone hlast)
        ⟨resp, hresp, (shopsMatch_comm _ _).trans hshops⟩

/-! ### On a stream of two -/

def shopRequestAt (ts : String) : EventEnvelope where
  idempotencyKey := "a"
  rawLine := ""
  event := some (.shopBuyRequest ⟨ts, some "kiosk_1", none, none, "", none, none⟩)
  source := .live
  sourceOffset := 0
  metadata := none
  resolvedLocation := none

def shopResponseAt (ts : String) : EventEnvelope where
  idempotencyKey := "b"
  rawLine := ""
  event := some (.shopFlowResponse ⟨ts, some "kiosk_1", some true, ""⟩)
  source := .live
  sourceOffset := 0
  metadata := none
  resolvedLocation := none

def joinAt (ts : String) : EventEnvelope where
  idempotencyKey := "c"
  rawLine := ""
  event := some (.joinPu ⟨ts, "", 0, "", ""⟩)
  source := .live
  sourceOffset := 0
  metadata := none
  resolvedLocation := none

/-- Two instants, 15 seconds apart. -/
def twoTimes (ts : String) : Option Int :=
  if ts = "2026-05-17T14:00:00Z" then some 1779026400000000000
  else if ts = "2026-05-17T14:00:15Z" then some 1779026415000000000
  else none

/-- In a short stream everything is within reach. -/
theorem withinReach_of_mem {config : InferenceConfig} {events : List EventEnvelope}
    (hshort : events.length ≤ config.windowSize) {req : ShopBuyRequest} {resp : ShopFlowResponse}
    {z : EventEnvelope} (hz : z ∈ events) (hresp : z.event = some (.shopFlowResponse resp)) :
    WithinReach config events req resp := by
  rintro before env after rfl -
  rw [List.length_append, List.length_cons] at hshort
  rw [List.take_of_length_le (by omega)]
  exact ⟨z, hz, hresp⟩

theorem confirmed_not_timed_out_late :
    NotTimedOut twoTimes .default [shopRequestAt "2026-05-17T14:00:00Z",
      shopResponseAt "2026-05-17T14:00:15Z"] := by
  have hpair : (⟨"2026-05-17T14:00:00Z", some "kiosk_1", none, none, "", none, none⟩,
      some ⟨"2026-05-17T14:00:15Z", some "kiosk_1", some true, ""⟩) ∈
        pairShop (classified [shopRequestAt "2026-05-17T14:00:00Z",
          shopResponseAt "2026-05-17T14:00:15Z"]) := by decide
  exact confirmed_not_timed_out twoTimes .default _ "" 30 (by constructor <;> decide) rfl
    ⟨hpair, _, mem_pairTransactions _ _ hpair, rfl, rfl⟩ rfl rfl (by decide) (by decide)
    (withinReach_of_mem (by decide) (List.mem_cons_of_mem _ List.mem_cons_self) rfl)

/-! ### Two requests that are confirmed and timed out -/

/-- The response has the time of the request. -/
def answeredAtOnce : List EventEnvelope :=
  [shopRequestAt "2026-05-17T14:00:00Z", shopResponseAt "2026-05-17T14:00:00Z"]

/-- The response comes behind 200 other events. -/
def answeredFarBehind : List EventEnvelope :=
  shopRequestAt "2026-05-17T14:00:00Z" ::
    (List.replicate 200 (joinAt "2026-05-17T14:00:00Z") ++
      [shopResponseAt "2026-05-17T14:00:15Z"])

/-- The deciders do not agree on a stream with one request: it is confirmed within 30 seconds and
timed out all the same. -/
def Disagree (parseTs : String → Option Int) (events : List EventEnvelope) : Prop :=
  ∃ req resp t u, WellTimed parseTs events ∧
    (classified events).filterMap shopRequest = [req] ∧
    ConfirmedBy (classified events) "" 30 req resp ∧ parseTs req.timestamp = some t ∧
    parseTs resp.timestamp = some u ∧ u - t ≤ 30000000000 ∧ ¬ NotTimedOut parseTs .default events

theorem disagree_of_unanswered {parseTs : String → Option Int} {t : Int} {req : ShopBuyRequest}
    {env : EventEnvelope} {after : List EventEnvelope} (resp : ShopFlowResponse) (u : Int)
    (htimed : WellTimed parseTs (env :: after)) (hreq : env.event = some (.shopBuyRequest req))
    (hrequests : (classified after).filterMap shopRequest = [])
    (hresponses : (classified after).filterMap shopResponse = [resp])
    (hpaired : [resp].foldl pairResponse [(req, none)] = [(req, some resp)])
    (hsuccess : resp.success = some true) (ht : parseTs req.timestamp = some t)
    (hu : parseTs resp.timestamp = some u) (hclose : u - t ≤ 30000000000)
    (hnone : ∀ z ∈ after.take 200,
      z ∈ windowWithinSecs parseTs env (after.take 200) implicitShopRequestTimeoutSecs →
        ¬ Answers req z) : Disagree parseTs (env :: after) := by
  have hevents : classified (env :: after) = .shopBuyRequest req :: classified after :=
    List.filterMap_cons_some hreq
  have hsingle : (classified (env :: after)).filterMap shopRequest = [req] := by
    have hfirst : shopRequest (.shopBuyRequest req) = some req := rfl
    rw [hevents, List.filterMap_cons_some hfirst, hrequests]
  have hpair : (req, some resp) ∈ pairShop (classified (env :: after)) := by
    have hresponse : (classified (env :: after)).filterMap shopResponse = [resp] := by
      have hfirst : shopResponse (.shopBuyRequest req) = none := rfl
      rw [hevents, List.filterMap_cons_none hfirst, hresponses]
    rw [pairShop, hsingle, hresponse, List.map_singleton, hpaired]
    exact List.mem_singleton_self _
  have hemitted : ¬ NotTimedOut parseTs .default ([] ++ env :: after) :=
    not_notTimedOut hreq hnone
  refine ⟨req, resp, t, u, htimed, hsingle, ⟨hpair, _, mem_pairTransactions _ _ hpair, ?_, rfl⟩, ht,
    hu, hclose, hemitted⟩
  simp [shopTransaction, hsuccess]

theorem wellTimed_farBehind : WellTimed twoTimes answeredFarBehind := by
  have hrequest : envelopeTime twoTimes (shopRequestAt "2026-05-17T14:00:00Z") =
    some 1779026400000000000 := rfl
  have hjoin : envelopeTime twoTimes (joinAt "2026-05-17T14:00:00Z") =
    some 1779026400000000000 := rfl
  have hresponse : envelopeTime twoTimes (shopResponseAt "2026-05-17T14:00:15Z") =
    some 1779026415000000000 := rfl
  constructor
  · intro env henv _
    rcases List.mem_cons.1 henv with rfl | henv
    · rfl
    · rcases List.mem_append.1 henv with henv | henv
      · rw [List.eq_of_mem_replicate henv]
        rfl
      · rw [List.mem_singleton.1 henv]
        rfl
  · rw [answeredFarBehind, List.filterMap_cons_some hrequest, List.filterMap_append,
      List.filterMap_replicate_of_some hjoin, List.filterMap_cons_some hresponse, List.filterMap_nil]
    rw [List.pairwise_cons, List.pairwise_append]
    refine ⟨fun u hu => ?_, List.pairwise_replicate.2 (.inr le_rfl), List.pairwise_singleton _ _,
      fun a ha b hb => ?_⟩
    · rcases List.mem_append.1 hu with hu | hu
      · rw [List.eq_of_mem_replicate hu]
      · rw [List.mem_singleton.1 hu]
        decide
    · rw [List.eq_of_mem_replicate ha, List.mem_singleton.1 hb]
      decide

/-- A response of the same instant, and one with 200 events before it. -/
theorem deciders_disagree :
    Disagree twoTimes answeredAtOnce ∧ Disagree twoTimes answeredFarBehind := by
  constructor
  · have hempty : windowWithinSecs twoTimes (shopRequestAt "2026-05-17T14:00:00Z")
      ([shopResponseAt "2026-05-17T14:00:00Z"].take 200) implicitShopRequestTimeoutSecs = [] := by
      decide
    refine disagree_of_unanswered ⟨"2026-05-17T14:00:00Z", some "kiosk_1", some true, ""⟩
      1779026400000000000 (by constructor <;> decide) rfl rfl rfl (by decide) rfl rfl rfl (by decide)
      fun z _ hz => ?_
    rw [hempty] at hz
    cases hz
  · have hjoins : classified (List.replicate 200 (joinAt "2026-05-17T14:00:00Z") ++
        [shopResponseAt "2026-05-17T14:00:15Z"]) =
        List.replicate 200 (.joinPu ⟨"2026-05-17T14:00:00Z", "", 0, "", ""⟩) ++
          [.shopFlowResponse ⟨"2026-05-17T14:00:15Z", some "kiosk_1", some true, ""⟩] := by
      have hjoin : (joinAt "2026-05-17T14:00:00Z").event =
        some (.joinPu ⟨"2026-05-17T14:00:00Z", "", 0, "", ""⟩) := rfl
      rw [classified, List.filterMap_append, List.filterMap_replicate, hjoin]
      rfl
    have hrequest : shopRequest (.joinPu ⟨"2026-05-17T14:00:00Z", "", 0, "", ""⟩) = none := rfl
    have hresponse : shopResponse (.joinPu ⟨"2026-05-17T14:00:00Z", "", 0, "", ""⟩) = none := rfl
    refine disagree_of_unanswered ⟨"2026-05-17T14:00:15Z", some "kiosk_1", some true, ""⟩
      1779026415000000000 ?_ rfl ?_ ?_ (by decide) rfl rfl rfl (by decide) fun z hz _ => ?_
    · exact wellTimed_farBehind
    · rw [hjoins, List.filterMap_append, List.filterMap_replicate_of_none hrequest]
      rfl
    · rw [hjoins, List.filterMap_append, List.filterMap_replicate_of_none hresponse]
      rfl
    · rw [List.take_left' (List.length_replicate ..)] at hz
      rw [List.eq_of_mem_replicate hz]
      rintro ⟨resp, hresp, -⟩
      cases hresp

end StarStats
