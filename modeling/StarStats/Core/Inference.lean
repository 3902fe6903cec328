import StarStats.Core.Wire

/-!
# Inferred events (`starstats-core/src/inference.rs`)

A rule looks at one envelope after another, each with those of the envelopes behind it that are
less than its window later, and draws a conclusion or none. The closure of a rule keeps a state
from one envelope to the next, and from one pass to the next with the same list. Times are in
nanoseconds.
-/

namespace StarStats

open Events

structure InferenceConfig where
  windowSize : Nat
  reconciliationSecs : Int

def InferenceConfig.default : InferenceConfig := ⟨200, 5⟩

structure InferredEvent where
  event : GameEvent
  metadata : EventMetadata
  triggerIdempotencyKey : String
  supersededBy : Option String
  deriving DecidableEq

structure InferenceMatch where
  event : GameEvent
  sourceEventIds : List String

structure CompiledInferenceRule where
  id : String
  confidence : Fp
  windowSecs : Int
  State : Type
  state : State
  /-- On the trigger and its window. -/
  apply : State → EventEnvelope → List EventEnvelope → Option InferenceMatch × State

/-- `num_seconds`, towards zero. -/
def numSeconds (delta : Int) : Int := delta.tdiv 1000000000

def envelopeTimestamp (env : EventEnvelope) : Option String := env.event.map (·.timestamp)

/-- The events of a stream. -/
def classified (events : List EventEnvelope) : List GameEvent := events.filterMap (·.event)

/-! ## The pass -/

section
variable (parseTs : String → Option Int)

/-- The time an envelope's event happened. -/
def envelopeTime (env : EventEnvelope) : Option Int := (envelopeTimestamp env).bind parseTs

/-- `DateTime::timestamp`, in whole seconds. -/
def epochSecs (ts : String) : Option Int := (parseTs ts).map (· / 1000000000)

/-- Every event has a time, and none is before the one in front of it. -/
def WellTimed (events : List EventEnvelope) : Prop :=
  (∀ env ∈ events, env.event.isSome = true → (envelopeTime parseTs env).isSome = true) ∧
    (events.filterMap (envelopeTime parseTs)).Pairwise (· ≤ ·)

/-- `a` and `b` both have a time, and `b` is this many whole seconds after `a`. -/
def secondsAfter (a b : EventEnvelope) : Option Int := do
  let s ← envelopeTime parseTs a
  let t ← envelopeTime parseTs b
  return numSeconds (t - s)

def windowWithinSecs (trigger : EventEnvelope) (window : List EventEnvelope) (windowSecs : Int) :
    List EventEnvelope :=
  window.filter fun env =>
    match secondsAfter parseTs trigger env with
    | none => false
    | some delta => 0 < delta && delta ≤ windowSecs

def buildInferredMetadata (primaryEntity : EntityRef) (event : GameEvent) (confidence : Fp)
    (ruleId : String) (inferenceInputs : List String) : EventMetadata where
  primaryEntity := primaryEntity
  source := .inferred
  confidence := confidence
  groupKey := eventTypeKey event ++ ":" ++ entityKindKey primaryEntity.kind ++ ":" ++
    primaryEntity.id
  fieldProvenance := []
  inferenceInputs := inferenceInputs
  ruleId := some ruleId

/-- One rule on one envelope: what it infers, and the rule afterwards. -/
def CompiledInferenceRule.run (rule : CompiledInferenceRule) (env : EventEnvelope)
    (windowSlice : List EventEnvelope) : Option InferredEvent × CompiledInferenceRule :=
  let applied := rule.apply rule.state env
    (windowWithinSecs parseTs env windowSlice rule.windowSecs)
  let row := applied.1.map fun m =>
    { event := m.event
      metadata := buildInferredMetadata (primaryEntityFor m.event none) m.event rule.confidence
        rule.id m.sourceEventIds
      triggerIdempotencyKey := env.idempotencyKey
      supersededBy := none }
  (row, { rule with state := applied.2 })

def inferFrom (config : InferenceConfig) (rules : List CompiledInferenceRule) :
    List EventEnvelope → List InferredEvent
  | [] => []
  | env :: rest =>
    let ran := rules.map (·.run parseTs env (rest.take config.windowSize))
    ran.filterMap (·.1) ++ inferFrom config (ran.map (·.2)) rest

/-- The rules behind a pass: their closures keep their states for the next one. -/
def rulesAfter (config : InferenceConfig) (rules : List CompiledInferenceRule) :
    List EventEnvelope → List CompiledInferenceRule
  | [] => rules
  | env :: rest =>
    rulesAfter config (rules.map fun rule =>
      (rule.run parseTs env (rest.take config.windowSize)).2) rest

/-- `observed` stands for the inferred row on the timeline. -/
def supersedes (config : InferenceConfig) (row : InferredEvent) (observed : GameEvent) : Bool :=
  let entity := primaryEntityFor observed none
  eventTypeKey observed == eventTypeKey row.event &&
    entity.kind == row.metadata.primaryEntity.kind &&
    entity.id == row.metadata.primaryEntity.id &&
    match parseTs row.event.timestamp, parseTs observed.timestamp with
    | some inferredTs, some observedTs =>
      let delta := numSeconds (observedTs - inferredTs)
      0 ≤ delta && delta ≤ config.reconciliationSecs
    | _, _ => false

def reconcileSupersedes (events : List EventEnvelope) (config : InferenceConfig)
    (inferred : List InferredEvent) : List InferredEvent :=
  inferred.map fun row =>
    { row with
      supersededBy := (events.find? fun env =>
        env.event.any (supersedes parseTs config row)).map (·.idempotencyKey) }

def inferWithRules (events : List EventEnvelope) (config : InferenceConfig)
    (rules : List CompiledInferenceRule) : List InferredEvent :=
  reconcileSupersedes parseTs events config (inferFrom parseTs config rules events)

/-- What rules infer from a stream that have been over another before. -/
def inferAfter (config : InferenceConfig) (rules : List CompiledInferenceRule)
    (earlier events : List EventEnvelope) : List InferredEvent :=
  inferWithRules parseTs events config (rulesAfter parseTs config rules earlier)

end

/-! ## The built-in rules -/

def ruleIdImplicitDeath : String := "implicit_death_after_vehicle_destruction"

def implicitDeathWindowSecs : Int := 15

def builtInImplicitDeathAfterVehicleDestruction : CompiledInferenceRule where
  id := ruleIdImplicitDeath
  confidence := .num 0.85
  windowSecs := implicitDeathWindowSecs
  State := Unit
  state := ()
  apply _ env window :=
    let found := match env.event with
      | some (.vehicleDestruction veh) =>
        (window.find? fun f => f.event matches some (.resolveSpawn _)).map fun spawn =>
          { event := .playerDeath
              { timestamp := veh.timestamp
                bodyClass := "inferred"
                bodyId := "inferred_" ++ env.idempotencyKey
                zone := veh.zone }
            sourceEventIds := [env.idempotencyKey, spawn.idempotencyKey] }
      | _ => none
    (found, ())

def ruleIdImplicitLocationChange : String := "implicit_location_change"

structure LocationChangeState where
  /-- The key of the last terrain load, and its planet. -/
  prevPlanet : Option (String × String)
  inventorySeenSincePrev : Bool

def LocationChangeState.default : LocationChangeState := ⟨none, false⟩

namespace LocationChangeState

def apply (st : LocationChangeState) (env : EventEnvelope) (_ : List EventEnvelope) :
    Option InferenceMatch × LocationChangeState :=
  match env.event with
  | some (.planetTerrainLoad load) =>
    let emit := st.prevPlanet.filter fun prev =>
      !st.inventorySeenSincePrev && prev.2 != load.planet
    let result := emit.map fun (prevKey, prevPlanetName) =>
      { event := .locationChanged
          { timestamp := load.timestamp
            «from» := some prevPlanetName
            «to» := load.planet }
        sourceEventIds := [prevKey, env.idempotencyKey] }
    (result, ⟨some (env.idempotencyKey, load.planet), false⟩)
  | some (.locationInventoryRequested _) => (none, { st with inventorySeenSincePrev := true })
  | _ => (none, st)

end LocationChangeState

def builtInImplicitLocationChange : CompiledInferenceRule where
  id := ruleIdImplicitLocationChange
  confidence := .num 0.70
  -- `i64::MAX`
  windowSecs := 9223372036854775807
  State := LocationChangeState
  state := .default
  apply := LocationChangeState.apply

/-! ### What the state of a rule connects -/

def terrainPlanet (env : EventEnvelope) : Option String :=
  match env.event with
  | some (.planetTerrainLoad load) => some load.planet
  | _ => none

def opensInventory (env : EventEnvelope) : Bool :=
  match env.event with
  | some (.locationInventoryRequested _) => true
  | _ => false

/-- The last planet of one stream and the first of the next differ, and no inventory is opened
between them. -/
def Straddled (earlier events : List EventEnvelope) : Prop :=
  ∃ a x b c y d p q, earlier = a ++ x :: b ∧ events = c ++ y :: d ∧
    terrainPlanet x = some p ∧ terrainPlanet y = some q ∧ p ≠ q ∧
    ∀ z ∈ b ++ c, terrainPlanet z = none ∧ opensInventory z = false

def ruleIdImplicitShopRequestTimeout : String := "implicit_shop_request_timeout"

def implicitShopRequestTimeoutSecs : Nat := 30

/-- The shops of a request and of a response are not known to differ. -/
def shopsMatch : Option String → Option String → Bool
  | some a, some b => a == b
  | _, _ => true

def builtInImplicitShopRequestTimeout : CompiledInferenceRule where
  id := ruleIdImplicitShopRequestTimeout
  confidence := .num 0.90
  windowSecs := implicitShopRequestTimeoutSecs
  State := Unit
  state := ()
  apply _ env window :=
    let found := match env.event with
      | some (.shopBuyRequest req) =>
        let matched := window.any fun f =>
          match f.event with
          | some (.shopFlowResponse resp) => shopsMatch req.shopId resp.shopId
          | _ => false
        if matched then none
        else some
          { event := .shopRequestTimedOut
              { timestamp := req.timestamp
                shopId := req.shopId
                itemClass := req.itemClass
                timedOutAfterSecs := implicitShopRequestTimeoutSecs.toUInt32 }
            sourceEventIds := [env.idempotencyKey] }
      | _ => none
    (found, ())

def ruleIdTravelToContractLocation : String := "travel_to_contract_location"

def builtInTravelToContractLocation : CompiledInferenceRule where
  id := ruleIdTravelToContractLocation
  confidence := .num 0.90
  windowSecs := 1
  State := Unit
  state := ()
  apply _ env _ :=
    let found := match env.event with
      | some (.missionQuantumDestinationSelected selected) => some
          { event := .travelToContractLocation
              { timestamp := selected.timestamp
                beaconId := selected.beaconId
                travelStarted := false
                travelCompleted := false }
            sourceEventIds := [env.idempotencyKey] }
      | _ => none
    (found, ())

def builtInInferenceRules : List CompiledInferenceRule :=
  [builtInImplicitDeathAfterVehicleDestruction, builtInImplicitLocationChange,
    builtInImplicitShopRequestTimeout, builtInTravelToContractLocation]

end StarStats
