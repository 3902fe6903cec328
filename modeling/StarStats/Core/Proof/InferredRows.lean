import Mathlib.Tactic.NormNum
import StarStats.Core.Proof.InferenceWindows
import StarStats.Core.Validators

/-!
# What the rows of a pass say

`inferWithRules_sound_iff`: every row names what it was inferred from, has metadata that passes its
own check and names the observed event that stands for it, exactly when the rules conclude from the
stream alone and no conclusion is misled. A conclusion is misled by an event of its kind that
happened less than a second before it, or less than a second too late.
-/

namespace StarStats

section
variable (parseTs : String → Option Int) (config : InferenceConfig)

/-- The rules, shown the stream, conclude this on this trigger. -/
inductive Concludes : List CompiledInferenceRule → List EventEnvelope → EventEnvelope →
    CompiledInferenceRule → InferenceMatch → Prop
  | now {rules rule env rest m} : rule ∈ rules →
      (rule.apply rule.state env
        (windowWithinSecs parseTs env (rest.take config.windowSize) rule.windowSecs)).1 = some m →
      Concludes rules (env :: rest) env rule m
  | later {rules env rest trigger rule m} :
      Concludes (rules.map fun rule =>
        (rule.run parseTs env (rest.take config.windowSize)).2) rest trigger rule m →
      Concludes rules (env :: rest) trigger rule m

/-- The same type and primary entity. -/
def alike (inferred observed : GameEvent) : Bool :=
  let entity := primaryEntityFor observed none
  eventTypeKey observed == eventTypeKey inferred &&
    entity.kind == (primaryEntityFor inferred none).kind &&
    entity.id == (primaryEntityFor inferred none).id

/-- How long behind the inferred event the observed one happened, in nanoseconds. -/
def happenedBehind (inferred observed : GameEvent) : Option Int := do
  let s ← parseTs inferred.timestamp
  let t ← parseTs observed.timestamp
  return t - s

/-- An observed event of the same kind is in the reconciliation window. -/
def standsFor (inferred : GameEvent) (env : EventEnvelope) : Bool :=
  env.event.any fun observed => alike inferred observed &&
    (happenedBehind parseTs inferred observed).any fun delta =>
      0 ≤ delta && delta ≤ config.reconciliationSecs * 1000000000

/-- An observed event of the same kind is less than a second before the reconciliation window or
less than a second behind it. -/
def justMisses (inferred : GameEvent) (env : EventEnvelope) : Bool :=
  env.event.any fun observed => alike inferred observed &&
    (happenedBehind parseTs inferred observed).any fun delta =>
      0 ≤ config.reconciliationSecs && (-1000000000 < delta && delta < 0 ||
        config.reconciliationSecs * 1000000000 < delta &&
          delta < (config.reconciliationSecs + 1) * 1000000000)

/-- The first event at or near the reconciliation window just misses it, and the first inside has
another key. -/
def Misled (events : List EventEnvelope) (inferred : GameEvent) : Prop :=
  ∃ before env after, events = before ++ env :: after ∧
    (∀ x ∈ before, standsFor parseTs config inferred x = false ∧
      justMisses parseTs config inferred x = false) ∧
    justMisses parseTs config inferred env = true ∧
    (after.find? (standsFor parseTs config inferred)).map (·.idempotencyKey) ≠
      some env.idempotencyKey

/-- What a row is documented to say. -/
structure InferredEvent.Sound (events : List EventEnvelope) (row : InferredEvent) : Prop where
  trigger : row.triggerIdempotencyKey ∈ events.map (·.idempotencyKey)
  inputs : ∀ key ∈ row.metadata.inferenceInputs, key ∈ events.map (·.idempotencyKey)
  valid : validateMetadata row.metadata = .ok ()
  superseded : row.supersededBy =
    (events.find? (standsFor parseTs config row.event)).map (·.idempotencyKey)

end

/-- A conclusion names what it was drawn from: something, and nothing outside the stream. -/
def InferenceMatch.NamesInputs (events : List EventEnvelope) (m : InferenceMatch) : Prop :=
  m.sourceEventIds ≠ [] ∧ ∀ key ∈ m.sourceEventIds, key ∈ events.map (·.idempotencyKey)

/-- The row of a conclusion, before it is reconciled. -/
def InferenceMatch.row (m : InferenceMatch) (rule : CompiledInferenceRule)
    (trigger : EventEnvelope) : InferredEvent where
  event := m.event
  metadata := buildInferredMetadata (primaryEntityFor m.event none) m.event rule.confidence rule.id
    m.sourceEventIds
  triggerIdempotencyKey := trigger.idempotencyKey
  supersededBy := none

section
variable {parseTs : String → Option Int} {config : InferenceConfig}
  {events rest : List EventEnvelope} {env trigger : EventEnvelope} {rule : CompiledInferenceRule}
  {m : InferenceMatch} {rules : List CompiledInferenceRule} {inferred : GameEvent}

/-! ## The rows -/

theorem concludes_cons :
    Concludes parseTs config rules (env :: rest) trigger rule m ↔
      (trigger = env ∧ rule ∈ rules ∧ (rule.apply rule.state env
        (windowWithinSecs parseTs env (rest.take config.windowSize) rule.windowSecs)).1 = some m) ∨
      Concludes parseTs config (rules.map fun rule =>
        (rule.run parseTs env (rest.take config.windowSize)).2) rest trigger rule m := by
  constructor
  · intro h
    cases h with
    | now hrule hm => exact .inl ⟨rfl, hrule, hm⟩
    | later h => exact .inr h
  · rintro (⟨rfl, hrule, hm⟩ | h)
    · exact .now hrule hm
    · exact .later h

/-- The rows of a pass are those of what the rules conclude. -/
theorem mem_inferFrom {row : InferredEvent} :
    row ∈ inferFrom parseTs config rules events ↔
      ∃ trigger rule m, Concludes parseTs config rules events trigger rule m ∧
        row = m.row rule trigger := by
  induction events generalizing rules with
  | nil =>
    refine iff_of_false (by simp [inferFrom]) ?_
    rintro ⟨trigger, rule, m, h, -⟩
    cases h
  | cons env rest ih =>
    rw [inferFrom, List.mem_append, List.map_map]
    simp only [concludes_cons, or_and_right, exists_or]
    refine or_congr ?_ ih
    rw [List.mem_filterMap]
    constructor
    · rintro ⟨ran, hran, hrow⟩
      obtain ⟨rule, hrule, rfl⟩ := List.mem_map.1 hran
      obtain ⟨m, hm, rfl⟩ := Option.map_eq_some_iff.1 hrow
      exact ⟨env, rule, m, ⟨rfl, hrule, hm⟩, rfl⟩
    · rintro ⟨trigger, rule, m, ⟨rfl, hrule, hm⟩, rfl⟩
      exact ⟨_, List.mem_map_of_mem hrule, Option.map_eq_some_iff.2 ⟨m, hm, rfl⟩⟩

theorem Concludes.trigger_mem (h : Concludes parseTs config rules events trigger rule m) :
    trigger ∈ events := by
  induction h with
  | now => exact List.mem_cons_self
  | later _ ih => exact List.mem_cons_of_mem _ ih

/-- A rule keeps its confidence. -/
theorem Concludes.confidence (h : Concludes parseTs config rules events trigger rule m) :
    ∃ r ∈ rules, r.confidence = rule.confidence := by
  induction h with
  | now hrule _ => exact ⟨_, hrule, rfl⟩
  | later _ ih =>
    obtain ⟨r, hr, heq⟩ := ih
    obtain ⟨r', hr', rfl⟩ := List.mem_map.1 hr
    exact ⟨r', hr', heq⟩

/-! ## The metadata of a row -/

/-- With a confidence in `[0, 1)` the check of the metadata only asks for inputs. -/
theorem validateMetadata_inferred {entity : EntityRef} {q : Rat} {ruleId : String}
    {inputs : List String} (h0 : 0 ≤ q) (h1 : q < 1) :
    validateMetadata (buildInferredMetadata entity inferred (.num q) ruleId inputs) = .ok () ↔
      inputs ≠ [] := by
  have hrange : (q < 0 || 1 < q) = false := by
    simp only [Bool.or_eq_false_iff, decide_eq_false_iff_not]
    exact ⟨Rat.not_lt.2 h0, Rat.not_lt.2 (Rat.le_of_lt h1)⟩
  have hbelow : decide (1 ≤ q) = false := decide_eq_false (Rat.not_le.2 h1)
  cases inputs <;> simp [validateMetadata, buildInferredMetadata, hrange, hbelow]

/-! ## Reconciliation -/

/-- Whole seconds let in what is in the window, and what just misses it. -/
theorem supersedes_eq (observed : GameEvent) (env : EventEnvelope) (h : env.event = some observed) :
    supersedes parseTs config (m.row rule trigger) observed =
      (standsFor parseTs config m.event env || justMisses parseTs config m.event env) := by
  have hsame : supersedes parseTs config (m.row rule trigger) observed =
      (alike m.event observed && (happenedBehind parseTs m.event observed).any fun delta =>
        0 ≤ numSeconds delta && numSeconds delta ≤ config.reconciliationSecs) := by
    unfold supersedes happenedBehind alike
    cases hs : parseTs m.event.timestamp with
    | none => simp [InferenceMatch.row, buildInferredMetadata, hs]
    | some s =>
      cases parseTs observed.timestamp <;>
        simp [InferenceMatch.row, buildInferredMetadata, hs]
  simp only [hsame, standsFor, justMisses, h, Option.any_some]
  cases alike m.event observed with
  | false => rfl
  | true =>
    cases happenedBehind parseTs m.event observed with
    | none => rfl
    | some delta =>
      rw [Option.any_some, Option.any_some, Option.any_some, Bool.eq_iff_iff]
      rcases Int.lt_or_le config.reconciliationSecs 0 with hneg | hpos
      · -- no delay is long enough and short enough
        simp only [Bool.true_and, Bool.and_eq_true, Bool.or_eq_true, decide_eq_true_eq]
        omega
      · simp only [Bool.true_and, Bool.and_eq_true, Bool.or_eq_true, decide_eq_true_eq,
          numSeconds_nonneg_iff, numSeconds_le_iff hpos]
        omega

theorem not_justMisses (h : standsFor parseTs config inferred env = true) :
    justMisses parseTs config inferred env = false := by
  unfold standsFor at h
  unfold justMisses
  cases hevent : env.event with
  | none => rfl
  | some observed =>
    rw [hevent, Option.any_some, Bool.and_eq_true] at h
    cases hdelay : happenedBehind parseTs inferred observed with
    | none => simp [hdelay]
    | some delta =>
      rw [hdelay] at h
      simp only [Option.any_some, Bool.and_eq_true, decide_eq_true_eq] at h
      simp only [Option.any_some, hdelay, h.1, Bool.true_and, Bool.and_eq_false_iff,
        Bool.or_eq_false_iff, decide_eq_false_iff_not]
      omega

theorem misled_cons :
    Misled parseTs config (env :: rest) inferred ↔
      (justMisses parseTs config inferred env = true ∧
        (rest.find? (standsFor parseTs config inferred)).map (·.idempotencyKey) ≠
          some env.idempotencyKey) ∨
      (standsFor parseTs config inferred env = false ∧
        justMisses parseTs config inferred env = false ∧ Misled parseTs config rest inferred) := by
  constructor
  · rintro ⟨before, x, after, heq, hbefore, hmiss, hkey⟩
    rcases before with _ | ⟨y, before⟩
    · obtain ⟨rfl, rfl⟩ := List.cons_eq_cons.1 heq
      exact .inl ⟨hmiss, hkey⟩
    · obtain ⟨rfl, rfl⟩ := List.cons_eq_cons.1 heq
      obtain ⟨hstands, hmisses⟩ := hbefore env List.mem_cons_self
      exact .inr ⟨hstands, hmisses, before, x, after, rfl,
        fun z hz => hbefore z (List.mem_cons_of_mem _ hz), hmiss, hkey⟩
  · rintro (⟨hmiss, hkey⟩ | ⟨hstands, hmisses, before, x, after, rfl, hbefore, hmiss, hkey⟩)
    · exact ⟨[], env, rest, rfl, by simp, hmiss, hkey⟩
    · refine ⟨env :: before, x, after, rfl, fun z hz => ?_, hmiss, hkey⟩
      rcases List.mem_cons.1 hz with rfl | hz
      · exact ⟨hstands, hmisses⟩
      · exact hbefore z hz

/-- The event that is named is the documented one exactly when the conclusion is not misled. -/
theorem find_near_iff :
    (events.find? fun env =>
        standsFor parseTs config inferred env || justMisses parseTs config inferred env).map
          (·.idempotencyKey) =
        (events.find? (standsFor parseTs config inferred)).map (·.idempotencyKey) ↔
      ¬ Misled parseTs config events inferred := by
  induction events with
  | nil =>
    refine iff_of_true rfl ?_
    rintro ⟨before, env, after, heq, -⟩
    simp at heq
  | cons env rest ih =>
    rw [misled_cons]
    cases hstands : standsFor parseTs config inferred env with
    | true => simp [hstands, not_justMisses hstands]
    | false =>
      cases hmiss : justMisses parseTs config inferred env with
      | true => simp [hstands, hmiss, eq_comm]
      | false => simpa [hstands, hmiss] using ih

theorem sound_row_iff {q : Rat} (hq : rule.confidence = .num q) (h0 : 0 ≤ q) (h1 : q < 1)
    (htrigger : trigger ∈ events) :
    InferredEvent.Sound parseTs config events
        { m.row rule trigger with
          supersededBy := (events.find? fun env =>
            env.event.any (supersedes parseTs config (m.row rule trigger))).map
              (·.idempotencyKey) } ↔
      m.NamesInputs events ∧ ¬ Misled parseTs config events m.event := by
  have hfind : (events.find? fun env =>
        env.event.any (supersedes parseTs config (m.row rule trigger))) =
      events.find? fun env =>
        standsFor parseTs config m.event env || justMisses parseTs config m.event env := by
    congr 1
    funext env
    cases hevent : env.event with
    | none => simp [standsFor, justMisses, hevent]
    | some observed => rw [Option.any_some, supersedes_eq observed env hevent]
  rw [hfind, ← find_near_iff]
  have hvalid : validateMetadata (m.row rule trigger).metadata = .ok () ↔
      m.sourceEventIds ≠ [] := by
    rw [InferenceMatch.row, hq]
    exact validateMetadata_inferred h0 h1
  constructor
  · intro h
    exact ⟨⟨hvalid.1 h.valid, h.inputs⟩, h.superseded⟩
  · intro h
    exact ⟨List.mem_map_of_mem htrigger, h.1.2, hvalid.2 h.1.1, h.2⟩

/-- Every row of a pass is as documented exactly when each conclusion of the rules names inputs from
the stream and is not misled. -/
theorem inferWithRules_sound_iff
    (hconfidence : ∀ rule ∈ rules, ∃ q, rule.confidence = .num q ∧ 0 ≤ q ∧ q < 1) :
    (∀ row ∈ inferWithRules parseTs events config rules,
        row.Sound parseTs config events) ↔
      ∀ trigger rule m, Concludes parseTs config rules events trigger rule m →
        m.NamesInputs events ∧ ¬ Misled parseTs config events m.event := by
  have hrow : ∀ trigger rule m, Concludes parseTs config rules events trigger rule m →
      (InferredEvent.Sound parseTs config events
        { m.row rule trigger with
          supersededBy := (events.find? fun env =>
            env.event.any (supersedes parseTs config (m.row rule trigger))).map
              (·.idempotencyKey) } ↔
        m.NamesInputs events ∧ ¬ Misled parseTs config events m.event) := by
    intro trigger rule m hm
    obtain ⟨r, hr, heq⟩ := hm.confidence
    obtain ⟨q, hq, h0, h1⟩ := hconfidence r hr
    exact sound_row_iff (heq ▸ hq) h0 h1 hm.trigger_mem
  rw [inferWithRules, reconcileSupersedes, List.forall_mem_map]
  constructor
  · intro h trigger rule m hm
    exact (hrow trigger rule m hm).1 (h _ (mem_inferFrom.2 ⟨trigger, rule, m, hm, rfl⟩))
  · intro h row hmem
    obtain ⟨trigger, rule, m, hm, rfl⟩ := mem_inferFrom.1 hmem
    exact (hrow trigger rule m hm).2 (h trigger rule m hm)

end

/-! ### A death that is seen behind the inferred one -/

theorem builtIn_confidence {rule : CompiledInferenceRule} (hrule : rule ∈ builtInInferenceRules) :
    ∃ q, rule.confidence = .num q ∧ 0 ≤ q ∧ q < 1 := by
  simp only [builtInInferenceRules, List.mem_cons, List.not_mem_nil, or_false] at hrule
  rcases hrule with rfl | rfl | rfl | rfl
  · exact ⟨0.85, rfl, by norm_num, by norm_num⟩
  · exact ⟨0.70, rfl, by norm_num, by norm_num⟩
  · exact ⟨0.90, rfl, by norm_num, by norm_num⟩
  · exact ⟨0.90, rfl, by norm_num, by norm_num⟩

/-- The destruction that a death is inferred from, and half a second later the death. -/
def confirmedStream : List EventEnvelope :=
  [envelopeOf "destruction" (.vehicleDestruction
      ⟨"2026-05-01T18:46:10.000Z", "AEGS_Gladius", none, 2, "unknown", none⟩),
    envelopeOf "death" (.playerDeath ⟨"2026-05-01T18:46:10.500Z", "body", "1", none⟩),
    spawnAt "2026-05-01T18:46:25.500Z"]

/-- Nothing but the death is concluded. -/
theorem concludes_confirmed {trigger : EventEnvelope} {rule : CompiledInferenceRule}
    {m : InferenceMatch} (h : Concludes halfSeconds .default builtInInferenceRules confirmedStream
      trigger rule m) :
    m.event = .playerDeath ⟨"2026-05-01T18:46:10.000Z", "inferred", "inferred_destruction", none⟩ ∧
      m.sourceEventIds = ["destruction", "2026-05-01T18:46:25.500Z"] := by
  rcases concludes_cons.1 h with ⟨rfl, hrule, hm⟩ | h
  · simp only [builtInInferenceRules, List.mem_cons, List.not_mem_nil, or_false] at hrule
    rcases hrule with rfl | rfl | rfl | rfl
    · obtain rfl := Option.some.inj hm
      exact ⟨by decide, rfl⟩
    all_goals cases hm
  rcases concludes_cons.1 h with ⟨rfl, hrule, hm⟩ | h
  · simp only [builtInInferenceRules, List.map_cons, List.map_nil, List.mem_cons, List.not_mem_nil,
      or_false] at hrule
    rcases hrule with rfl | rfl | rfl | rfl <;> cases hm
  rcases concludes_cons.1 h with ⟨rfl, hrule, hm⟩ | h
  · simp only [builtInInferenceRules, List.map_cons, List.map_nil, List.mem_cons, List.not_mem_nil,
      or_false] at hrule
    rcases hrule with rfl | rfl | rfl | rfl <;> cases hm
  · cases h

/-- It is the observed one that stands for it. -/
theorem inferWithRules_sound_confirmed :
    (inferWithRules halfSeconds confirmedStream .default builtInInferenceRules).map
        (·.supersededBy) = [some "death"] ∧
      ∀ row ∈ inferWithRules halfSeconds confirmedStream .default builtInInferenceRules,
        row.Sound halfSeconds .default confirmedStream := by
  refine ⟨by decide, (inferWithRules_sound_iff fun rule => builtIn_confidence).2
    fun trigger rule m hm => ?_⟩
  obtain ⟨hevent, hinputs⟩ := concludes_confirmed hm
  rw [InferenceMatch.NamesInputs, hevent, hinputs]
  exact ⟨by decide, find_near_iff.1 (by decide)⟩

/-! ### A death that was seen before -/

/-- A death, and half a second later the destruction that a death is inferred from. -/
def seenStream : List EventEnvelope :=
  [envelopeOf "death" (.playerDeath ⟨"2026-05-01T18:46:10.000Z", "body", "1", none⟩),
    envelopeOf "destruction" (.vehicleDestruction
      ⟨"2026-05-01T18:46:10.500Z", "AEGS_Gladius", none, 2, "unknown", none⟩),
    spawnAt "2026-05-01T18:46:25.500Z"]

theorem inferred_seen :
    inferWithRules halfSeconds seenStream .default builtInInferenceRules ≠ [] := by
  decide

/-- The death before the inferred one is taken for a later one. -/
theorem inferWithRules_not_sound :
    ¬ ∀ (parseTs : String → Option Int) (config : InferenceConfig) (events : List EventEnvelope)
        (rules : List CompiledInferenceRule),
      (∀ rule ∈ rules, ∃ q, rule.confidence = .num q ∧ 0 ≤ q ∧ q < 1) →
        ∀ row ∈ inferWithRules parseTs events config rules,
          row.Sound parseTs config events := by
  intro h
  have hnamed := (h halfSeconds .default seenStream builtInInferenceRules
    (fun _ => builtIn_confidence) (List.head _ inferred_seen) (List.head_mem inferred_seen)).superseded
  exact absurd hnamed (by decide +kernel)

end StarStats
