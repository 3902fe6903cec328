import Mathlib.Data.List.Induction
import StarStats.Core.Inference

/-!
# Passes with one rule list

`inferAfter_eq_iff`: what the built-in rules infer from a stream does not depend on the stream
before it exactly when no change of planets straddles the two. Of the four closures only that of
the location rule has a state, and it is the same again behind the first planet.
-/

namespace StarStats

/-- What the location rule remembers behind an envelope. -/
def LocationChangeState.next (st : LocationChangeState) (env : EventEnvelope) :
    LocationChangeState := (st.apply env []).2

/-- The built-in rules, with the location rule in this state. -/
def rulesIn (st : LocationChangeState) : List CompiledInferenceRule :=
  [builtInImplicitDeathAfterVehicleDestruction,
    { builtInImplicitLocationChange with state := st },
    builtInImplicitShopRequestTimeout, builtInTravelToContractLocation]

section
variable {parseTs : String → Option Int} {config : InferenceConfig} {env : EventEnvelope}
  {st st' : LocationChangeState} {events earlier : List EventEnvelope}

/-! ## The location rule -/

theorem next_of_terrain {q : String} (h : terrainPlanet env = some q) :
    st.next env = ⟨some (env.idempotencyKey, q), false⟩ := by
  unfold terrainPlanet at h
  split at h
  case h_1 load hevent =>
    obtain rfl := Option.some.inj h
    simp [LocationChangeState.next, LocationChangeState.apply, hevent]
  case h_2 => cases h

theorem next_of_inventory (h : opensInventory env = true) :
    st.next env = { st with inventorySeenSincePrev := true } := by
  unfold opensInventory at h
  split at h
  case h_1 request hevent => simp [LocationChangeState.next, LocationChangeState.apply, hevent]
  case h_2 => cases h

theorem apply_of_other (h : terrainPlanet env = none) (hinv : opensInventory env = false)
    (window : List EventEnvelope) : st.apply env window = (none, st) := by
  unfold terrainPlanet at h
  unfold opensInventory at hinv
  unfold LocationChangeState.apply
  split
  case h_1 load hevent => simp [hevent] at h
  case h_2 request hevent => simp [hevent] at hinv
  case h_3 => rfl

/-- A planet is remembered, and no inventory was opened since. -/
def Remembers (st : LocationChangeState) (p : String) : Prop :=
  ∃ key, st = ⟨some (key, p), false⟩

/-- The rule concludes something on the first planet of the stream. -/
def Emits (st : LocationChangeState) (events : List EventEnvelope) : Prop :=
  ∃ p c y d q, Remembers st p ∧ events = c ++ y :: d ∧ terrainPlanet y = some q ∧ p ≠ q ∧
    ∀ z ∈ c, terrainPlanet z = none ∧ opensInventory z = false

theorem concat_eq_append_cons {before a b : List EventEnvelope} {x : EventEnvelope} :
    before ++ [env] = a ++ x :: b ↔
      (b = [] ∧ before = a ∧ env = x) ∨ ∃ b', b = b' ++ [env] ∧ before = a ++ x :: b' := by
  constructor
  · intro heq
    rcases List.eq_nil_or_concat b with rfl | ⟨b, z, rfl⟩
    · obtain ⟨hbefore, hlast⟩ := List.append_inj' heq rfl
      exact .inl ⟨rfl, hbefore, List.singleton_inj.1 hlast⟩
    · have hsplit : before ++ [env] = (a ++ x :: b) ++ [z] := by simpa using heq
      obtain ⟨hbefore, hlast⟩ := List.append_inj' hsplit rfl
      exact .inr ⟨b, by rw [List.concat_eq_append, List.singleton_inj.1 hlast], hbefore⟩
  · rintro (⟨rfl, rfl, rfl⟩ | ⟨b', rfl, rfl⟩)
    · rfl
    · simp

/-- What is remembered behind a stream. -/
theorem remembers_foldl_iff {p : String} :
    Remembers (earlier.foldl LocationChangeState.next .default) p ↔
      ∃ a x b, earlier = a ++ x :: b ∧ terrainPlanet x = some p ∧
        ∀ z ∈ b, terrainPlanet z = none ∧ opensInventory z = false := by
  induction earlier using List.reverseRecOn with
  | nil => simp [Remembers, LocationChangeState.default]
  | append_singleton before env ih =>
    rw [List.foldl_append, List.foldl_cons, List.foldl_nil]
    simp only [concat_eq_append_cons]
    cases hterrain : terrainPlanet env with
    | some q =>
      rw [next_of_terrain hterrain]
      constructor
      · rintro ⟨key, heq⟩
        have hq : q = p := by simpa using congrArg (·.prevPlanet.map (·.2)) heq
        exact ⟨before, env, [], .inl ⟨rfl, rfl, rfl⟩, hq ▸ hterrain, by simp⟩
      · rintro ⟨a, x, b, ⟨rfl, rfl, rfl⟩ | ⟨b', rfl, rfl⟩, hx, hb⟩
        · rw [Option.some.inj (hterrain.symm.trans hx)]
          exact ⟨_, rfl⟩
        · rw [(hb env (by simp)).1] at hterrain
          cases hterrain
    | none =>
      have hlast : ∀ {a x b}, (b = [] ∧ before = a ∧ env = x) ∨
          (∃ b', b = b' ++ [env] ∧ before = a ++ x :: b') → terrainPlanet x = some p →
          ∃ b', b = b' ++ [env] ∧ before = a ++ x :: b' := by
        rintro a x b (⟨-, -, rfl⟩ | h) hx
        · rw [hterrain] at hx
          cases hx
        · exact h
      cases hinv : opensInventory env with
      | true =>
        rw [next_of_inventory hinv]
        constructor
        · rintro ⟨key, heq⟩
          cases congrArg (·.inventorySeenSincePrev) heq
        · rintro ⟨a, x, b, h, hx, hb⟩
          obtain ⟨b', rfl, -⟩ := hlast h hx
          rw [(hb env (by simp)).2] at hinv
          cases hinv
      | false =>
        rw [LocationChangeState.next, apply_of_other hterrain hinv, ih]
        constructor
        · rintro ⟨a, x, b, rfl, hx, hb⟩
          refine ⟨a, x, b ++ [env], .inr ⟨b, rfl, rfl⟩, hx, fun z hz => ?_⟩
          rcases List.mem_append.1 hz with hz | hz
          · exact hb z hz
          · rw [List.mem_singleton.1 hz]
            exact ⟨hterrain, hinv⟩
        · rintro ⟨a, x, b, h, hx, hb⟩
          obtain ⟨b', rfl, heq⟩ := hlast h hx
          exact ⟨a, x, b', heq, hx, fun z hz => hb z (List.mem_append_left _ hz)⟩

/-- A change of planets straddles two streams when the rule concludes it on the second. -/
theorem straddled_iff :
    Straddled earlier events ↔ Emits (earlier.foldl LocationChangeState.next .default) events := by
  constructor
  · rintro ⟨a, x, b, c, y, d, p, q, rfl, rfl, hx, hy, hne, hbetween⟩
    refine ⟨p, c, y, d, q, remembers_foldl_iff.2 ⟨a, x, b, rfl, hx, fun z hz => ?_⟩, rfl, hy, hne,
      fun z hz => hbetween z (List.mem_append_right _ hz)⟩
    exact hbetween z (List.mem_append_left _ hz)
  · rintro ⟨p, c, y, d, q, hremembers, rfl, hy, hne, hc⟩
    obtain ⟨a, x, b, rfl, hx, hb⟩ := remembers_foldl_iff.1 hremembers
    exact ⟨a, x, b, c, y, d, p, q, rfl, rfl, hx, hy, hne,
      fun z hz => (List.mem_append.1 hz).elim (hb z) (hc z)⟩

/-! ## A pass from two states -/

theorem rulesAfter_rulesIn :
    rulesAfter parseTs config (rulesIn st) events =
      rulesIn (events.foldl LocationChangeState.next st) := by
  induction events generalizing st with
  | nil => rfl
  | cons env rest ih => exact ih

/-- What the rules infer on one envelope. -/
def conclusions (parseTs : String → Option Int) (st : LocationChangeState) (env : EventEnvelope)
    (window : List EventEnvelope) : List InferredEvent :=
  ((rulesIn st).map (·.run parseTs env window)).filterMap (·.1)

theorem inferFrom_cons (rest : List EventEnvelope) :
    inferFrom parseTs config (rulesIn st) (env :: rest) =
      conclusions parseTs st env (rest.take config.windowSize) ++
        inferFrom parseTs config (rulesIn (st.next env)) rest := rfl

theorem conclusions_congr (window : List EventEnvelope)
    (h : (st.apply env []).1 = (st'.apply env []).1) :
    conclusions parseTs st env window = conclusions parseTs st' env window := by
  have hrun : ∀ st : LocationChangeState,
      (CompiledInferenceRule.run parseTs { builtInImplicitLocationChange with state := st } env
        window).1 = ((st.apply env []).1.map fun m =>
          { event := m.event
            metadata := buildInferredMetadata (primaryEntityFor m.event none) m.event
              builtInImplicitLocationChange.confidence builtInImplicitLocationChange.id
              m.sourceEventIds
            triggerIdempotencyKey := env.idempotencyKey
            supersededBy := none }) := fun _ => rfl
  simp only [conclusions, rulesIn, List.map_cons, List.map_nil, List.filterMap_cons, hrun, h]

/-- On a planet only the location rule concludes something: that one has come from another. -/
theorem length_conclusions_of_terrain (window : List EventEnvelope) {q : String}
    (h : terrainPlanet env = some q) :
    ((∃ p, Remembers st p ∧ p ≠ q) → (conclusions parseTs st env window).length = 1) ∧
      (¬ (∃ p, Remembers st p ∧ p ≠ q) → conclusions parseTs st env window = []) := by
  unfold terrainPlanet at h
  split at h
  case h_2 => cases h
  case h_1 load hevent =>
    obtain rfl := Option.some.inj h
    obtain ⟨prevPlanet, seen⟩ := st
    cases prevPlanet with
    | none => simp [Remembers, conclusions, rulesIn, CompiledInferenceRule.run,
        builtInImplicitDeathAfterVehicleDestruction, builtInImplicitLocationChange,
        builtInImplicitShopRequestTimeout, builtInTravelToContractLocation,
        LocationChangeState.apply, hevent]
    | some prev =>
      obtain ⟨key, p⟩ := prev
      cases seen <;> by_cases hp : p = load.planet <;>
        simp [Remembers, conclusions, rulesIn, CompiledInferenceRule.run,
          builtInImplicitDeathAfterVehicleDestruction, builtInImplicitLocationChange,
          builtInImplicitShopRequestTimeout, builtInTravelToContractLocation,
          LocationChangeState.apply, hevent, hp]

theorem emits_cons_of_terrain {q : String} (h : terrainPlanet env = some q)
    (rest : List EventEnvelope) :
    Emits st (env :: rest) ↔ ∃ p, Remembers st p ∧ p ≠ q := by
  constructor
  · rintro ⟨p, c, y, d, q', hremembers, heq, hy, hne, hc⟩
    cases c with
    | nil =>
      obtain ⟨rfl, -⟩ := List.cons_eq_cons.1 heq
      exact ⟨p, hremembers, Option.some.inj (h.symm.trans hy) ▸ hne⟩
    | cons z c =>
      obtain ⟨rfl, -⟩ := List.cons_eq_cons.1 heq
      rw [(hc env List.mem_cons_self).1] at h
      cases h
  · rintro ⟨p, hremembers, hne⟩
    exact ⟨p, [], env, rest, q, hremembers, rfl, h, hne, by simp⟩

theorem emits_cons_of_other (h : terrainPlanet env = none) (rest : List EventEnvelope) :
    Emits st (env :: rest) ↔ opensInventory env = false ∧ Emits st rest := by
  constructor
  · rintro ⟨p, c, y, d, q, hremembers, heq, hy, hne, hc⟩
    cases c with
    | nil =>
      obtain ⟨rfl, -⟩ := List.cons_eq_cons.1 heq
      rw [h] at hy
      cases hy
    | cons z c =>
      obtain ⟨rfl, rfl⟩ := List.cons_eq_cons.1 heq
      exact ⟨(hc env List.mem_cons_self).2, p, c, y, d, q, hremembers, rfl, hy, hne,
        fun z hz => hc z (List.mem_cons_of_mem _ hz)⟩
  · rintro ⟨hinv, p, c, y, d, q, hremembers, rfl, hy, hne, hc⟩
    refine ⟨p, env :: c, y, d, q, hremembers, rfl, hy, hne, fun z hz => ?_⟩
    rcases List.mem_cons.1 hz with rfl | hz
    · exact ⟨h, hinv⟩
    · exact hc z hz

/-- Beside a state without a planet, a state adds the one conclusion that it emits. -/
theorem inferFrom_rulesIn (hst : st'.prevPlanet = none) :
    (¬ Emits st events → inferFrom parseTs config (rulesIn st) events =
        inferFrom parseTs config (rulesIn st') events) ∧
      (Emits st events → (inferFrom parseTs config (rulesIn st) events).length =
        (inferFrom parseTs config (rulesIn st') events).length + 1) := by
  induction events generalizing st st' with
  | nil =>
    refine ⟨fun _ => rfl, ?_⟩
    rintro ⟨p, c, y, d, q, -, heq, -⟩
    simp at heq
  | cons env rest ih =>
    rw [inferFrom_cons, inferFrom_cons]
    cases hterrain : terrainPlanet env with
    | some q =>
      have hfresh : ¬ ∃ p, Remembers st' p ∧ p ≠ q := by
        rintro ⟨p, ⟨key, rfl⟩, -⟩
        cases hst
      rw [emits_cons_of_terrain hterrain, next_of_terrain hterrain, next_of_terrain hterrain,
        (length_conclusions_of_terrain _ hterrain).2 hfresh]
      constructor
      · intro hnot
        rw [(length_conclusions_of_terrain _ hterrain).2 hnot]
      · intro hemits
        rw [List.length_append, (length_conclusions_of_terrain _ hterrain).1 hemits,
          List.nil_append, Nat.add_comm]
    | none =>
      rw [emits_cons_of_other hterrain]
      cases hinv : opensInventory env with
      | true =>
        have hnone : ∀ st : LocationChangeState, (st.apply env []).1 = none := by
          intro st
          unfold opensInventory at hinv
          unfold LocationChangeState.apply
          split
          case h_1 load hevent => simp [hevent] at hinv
          case h_2 => rfl
          case h_3 => rfl
        have hseen : ¬ Emits { st with inventorySeenSincePrev := true } rest := by
          rintro ⟨p, c, y, d, q, ⟨key, heq⟩, -⟩
          cases congrArg (·.inventorySeenSincePrev) heq
        have hrest := (@ih { st with inventorySeenSincePrev := true }
          { st' with inventorySeenSincePrev := true } hst).1 hseen
        refine ⟨fun _ => ?_, fun h => by cases h.1⟩
        rw [conclusions_congr _ ((hnone st).trans (hnone st').symm), next_of_inventory hinv,
          next_of_inventory hinv, hrest]
      | false =>
        have hsame : ∀ st : LocationChangeState, st.next env = st := fun st => by
          rw [LocationChangeState.next, apply_of_other hterrain hinv]
        have hconcluded : (st.apply env []).1 = (st'.apply env []).1 := by
          rw [apply_of_other hterrain hinv, apply_of_other hterrain hinv]
        obtain ⟨hequal, hlonger⟩ := @ih st st' hst
        rw [hsame, hsame, conclusions_congr _ hconcluded]
        refine ⟨fun hnot => by rw [hequal fun h => hnot ⟨rfl, h⟩], fun h => ?_⟩
        rw [List.length_append, List.length_append, hlonger h.2, Nat.add_assoc]

/-- What the built-in rules infer from a stream does not depend on the one before exactly when no
change of planets straddles them. -/
theorem inferAfter_eq_iff (parseTs : String → Option Int) (config : InferenceConfig)
    (earlier events : List EventEnvelope) :
    inferAfter parseTs config builtInInferenceRules earlier events =
        inferWithRules parseTs events config builtInInferenceRules ↔
      ¬ Straddled earlier events := by
  have hrules : rulesAfter parseTs config builtInInferenceRules earlier =
      rulesIn (earlier.foldl LocationChangeState.next .default) := rulesAfter_rulesIn
  have hfresh := @inferFrom_rulesIn parseTs config
    (earlier.foldl LocationChangeState.next .default) .default events rfl
  rw [straddled_iff, inferAfter, hrules]
  constructor
  · intro heq hemits
    have hlength := congrArg List.length heq
    simp only [inferWithRules, reconcileSupersedes, List.length_map] at hlength
    have hlonger := hfresh.2 hemits
    have hsame : rulesIn .default = builtInInferenceRules := rfl
    rw [hsame] at hlonger
    omega
  · intro hnot
    rw [inferWithRules, hfresh.1 hnot]
    rfl

end

/-- **When inference is a function of the stream**: no change of planets straddles the streams of
two passes with one rule list. -/
theorem infer_functional_iff (parseTs : String → Option Int) (config : InferenceConfig)
    (earlier events : List EventEnvelope) :
    inferAfter parseTs config builtInInferenceRules earlier events =
          inferWithRules parseTs events config builtInInferenceRules ∧
        inferAfter parseTs config builtInInferenceRules earlier earlier =
          inferWithRules parseTs earlier config builtInInferenceRules ↔
      ¬ Straddled earlier events ∧ ¬ Straddled earlier earlier :=
  and_congr (inferAfter_eq_iff parseTs config earlier events)
    (inferAfter_eq_iff parseTs config earlier earlier)

/-! ### A planet in each of two files -/

def terrainLoad (key planet : String) : EventEnvelope where
  idempotencyKey := key
  rawLine := ""
  event := some (.planetTerrainLoad ⟨"t", planet⟩)
  source := .live
  sourceOffset := 0
  metadata := none
  resolvedLocation := none

/-- The player has gone from a planet of the one to that of the other. -/
theorem infer_not_functional :
    ¬ ∀ (parseTs : String → Option Int) (config : InferenceConfig)
      (earlier events : List EventEnvelope),
      inferAfter parseTs config builtInInferenceRules earlier events =
          inferWithRules parseTs events config builtInInferenceRules ∧
        inferAfter parseTs config builtInInferenceRules earlier earlier =
          inferWithRules parseTs earlier config builtInInferenceRules := by
  intro h
  have hsame := congrArg List.length
    (h (fun _ => none) .default [terrainLoad "a" "Hurston"] [terrainLoad "b" "ArcCorp"]).1
  exact absurd hsame (by decide +kernel)

end StarStats
