import StarStats.Core.Classify
import StarStats.Core.Inference
import StarStats.Core.RemoteRules
import StarStats.Lib.Json

/-!
# Remote inference rules (`starstats-core/src/inference_defs.rs`)

A rule that the server publishes: a trigger, follow-ups that have to come behind it one after
another, and a template of the event to emit, in which `${trigger.field}` stands for a field of the
trigger. `compileInferenceRules` checks the rules and makes inference rules of them.
-/

namespace StarStats

open Json (Value Number FloatText)

/-! ## Event types -/

def allEventTypeKeys : List String :=
  ["process_init", "legacy_login", "join_pu", "change_server", "seed_solar_system",
    "resolve_spawn", "actor_death", "player_death", "player_incapacitated", "vehicle_destruction",
    "hud_notification", "location_inventory_requested", "planet_terrain_load",
    "quantum_target_selected", "attachment_received", "vehicle_stowed", "game_crash",
    "launcher_activity", "mission_start", "mission_end", "shop_buy_request", "shop_flow_response",
    "commodity_buy_request", "commodity_sell_request", "session_end", "remote_match",
    "burst_summary", "location_changed", "shop_request_timed_out", "mission_objective",
    "quantum_route", "item_equip_change", "mission_quantum_destination_selected",
    "travel_to_contract_location"]

/-! ## Rules -/

/-- What an event of a slot has to be. The fields are a map. -/
structure EventPattern where
  eventType : String
  fieldEquals : List (String × String)
  distinct : (fieldEquals.map (·.1)).Nodup

/-- What is emitted. The fields are a map. -/
structure EmitTemplate where
  eventType : String
  fields : List (String × String)
  distinct : (fields.map (·.1)).Nodup

structure RemoteInferenceRule where
  id : String
  confidence : Fp
  windowSecs : UInt32
  trigger : EventPattern
  followups : List EventPattern
  emits : EmitTemplate

inductive InferenceCompileError where
  | unknownEventType (ruleId eventType : String)
  | invalidConfidence (ruleId : String) (confidence : Fp)
  | emptyFollowups (ruleId : String)
  deriving DecidableEq

/-- `(0.0..1.0).contains(&confidence)` -/
def inUnit : Fp → Bool
  | .num q => 0 ≤ q && q < 1
  | _ => false

def validateEventType (ruleId eventType : String) (known : List String) :
    Except InferenceCompileError Unit :=
  if known.contains eventType then .ok () else .error (.unknownEventType ruleId eventType)

/-- The checks of one rule, in their order. -/
def RemoteInferenceRule.validate (r : RemoteInferenceRule) : Except InferenceCompileError Unit := do
  validateEventType r.id r.trigger.eventType allEventTypeKeys
  validateEventType r.id r.emits.eventType allEventTypeKeys
  r.followups.forM fun fu => validateEventType r.id fu.eventType allEventTypeKeys
  if inUnit r.confidence then
    if r.followups.isEmpty then .error (.emptyFollowups r.id) else .ok ()
  else .error (.invalidConfidence r.id r.confidence)

/-! ## Substitution -/

/-- What opens a token. -/
def tokenOpen : List Char := "$\x7btrigger.".toList

/-- The tokens of a text replaced. An unterminated token is left as it is. Every turn of the loop
shortens the text, so its length is fuel enough. -/
def substituteFrom (resolve : List Char → List Char) : Nat → List Char → List Char
  | 0, rest => rest
  | fuel + 1, rest =>
    match Text.splitOnce tokenOpen rest with
    | none => rest
    | some (before, token) =>
      match Text.splitOnce ['}'] token with
      | none => before ++ tokenOpen ++ token
      | some (field, after) => before ++ resolve field ++ substituteFrom resolve fuel after

/-- `Value::get` of a field -/
def getField {F : Type} (v : Value F) (field : String) : Option (Value F) :=
  match v with
  | .object members => members.lookup field
  | _ => none

/-- What a rule takes from elsewhere. -/
structure RuleEnv (F : Type) where
  floatText : FloatText F
  /-- `serde_json::to_value`. -/
  toValue : GameEvent → Option (Value F)
  /-- `serde_json::from_value`. -/
  fromValue : Value F → Option GameEvent
  /-- `str::parse` at `f64`, and `Number::from_f64` on what it reads. -/
  parseFinite : String → Option F

namespace RuleEnv
variable {F : Type} (env : RuleEnv F)

def valueToString : Value F → String
  | .string s => s
  | other => String.ofList (other.text env.floatText)

/-- A field of the trigger, or the token as it is. -/
def resolveField (triggerJson : Value F) (field : List Char) : List Char :=
  match getField triggerJson (String.ofList field) with
  | some v => (env.valueToString v).toList
  | none => tokenOpen ++ field ++ ['}']

def substitute (input : String) (triggerEnv : EventEnvelope) (triggerJson : Value F) : String :=
  String.ofList (substituteFrom
    (fun field =>
      if field = "idempotency_key".toList then triggerEnv.idempotencyKey.toList
      else env.resolveField triggerJson field)
    input.toList.length input.toList)

def substituteWithTriggerJson (input : String) (triggerJson : Value F) : String :=
  String.ofList (substituteFrom (env.resolveField triggerJson) input.toList.length input.toList)

/-- A text as the value it looks like. -/
def coerceValue (s : String) : Value F :=
  match parseSigned s with
  | some n => .number (.int n.toInt)
  | none =>
    match parseUnsigned (2 ^ 64) s with
    | some n => .number (.int n)
    | none =>
      match env.parseFinite s with
      | some x => .number (.float x)
      | none =>
        if s = "true" then .bool true
        else if s = "false" then .bool false
        else .string s

/-! ## Matching -/

def objectMatches (candidateJson : Value F) (predicates : List (String × String))
    (triggerJson : Option (Value F)) : Bool :=
  if predicates.isEmpty then true
  else
    match candidateJson with
    | .object members => predicates.all fun (field, want) =>
        match members.lookup field with
        | some actual =>
          let wantResolved := match triggerJson with
            | some t => env.substituteWithTriggerJson want t
            | none => want
          env.valueToString actual == wantResolved
        | none => false
    | _ => false

/-- The trigger as JSON, if the envelope is one. -/
def triggerJson (rule : RemoteInferenceRule) (trigger : EventEnvelope) : Option (Value F) := do
  let observed ← trigger.event
  if eventTypeKey observed ≠ rule.trigger.eventType then none
  let triggerJson ← env.toValue observed
  if env.objectMatches triggerJson rule.trigger.fieldEquals none then some triggerJson else none

def followupMatches (triggerJson : Value F) (fu : EventPattern) (candidate : EventEnvelope) :
    Bool :=
  match candidate.event with
  | none => false
  | some ce =>
    eventTypeKey ce == fu.eventType &&
      match env.toValue ce with
      | none => false
      | some candidateJson => env.objectMatches candidateJson fu.fieldEquals (some triggerJson)

/-- The envelopes that the follow-ups match, each behind the one before. -/
def followupIds (triggerJson : Value F) : List EventPattern → List EventEnvelope →
    Option (List String)
  | [], _ => some []
  | fu :: followups, window =>
    match window.dropWhile (!env.followupMatches triggerJson fu ·) with
    | [] => none
    | found :: rest => (followupIds triggerJson followups rest).map (found.idempotencyKey :: ·)

/-- The trigger and the follow-ups of a rule that matches. -/
def chain (rule : RemoteInferenceRule) (trigger : EventEnvelope) (window : List EventEnvelope) :
    Option (Value F × List String) := do
  let triggerJson ← env.triggerJson rule trigger
  let followupIds ← env.followupIds triggerJson rule.followups window
  return (triggerJson, followupIds)

/-! ## Emission -/

/-- The members of the payload, with the value that is made of each text. -/
def payloadWith (value : String → String → Value F) (emits : EmitTemplate)
    (trigger : EventEnvelope) (triggerJson : Value F) : List (String × Value F) :=
  emits.fields.foldl
    (fun payload (k, v) => insertField k (value k (env.substitute v trigger triggerJson)) payload)
    [("type", .string emits.eventType)]

def payload (emits : EmitTemplate) (trigger : EventEnvelope) (triggerJson : Value F) :
    List (String × Value F) :=
  env.payloadWith (fun _ => env.coerceValue) emits trigger triggerJson

/-- `apply` of a compiled rule. -/
def apply (rule : RemoteInferenceRule) (trigger : EventEnvelope) (window : List EventEnvelope) :
    Option InferenceMatch := do
  let (triggerJson, followupIds) ← env.chain rule trigger window
  let event ← env.fromValue (.object (env.payload rule.emits trigger triggerJson))
  return { event, sourceEventIds := trigger.idempotencyKey :: followupIds }

def compileOne (rule : RemoteInferenceRule) : CompiledInferenceRule where
  id := rule.id
  confidence := rule.confidence
  windowSecs := rule.windowSecs.toNat
  State := Unit
  state := ()
  apply _ trigger window := (env.apply rule trigger window, ())

def compileInferenceRules :
    List RemoteInferenceRule → Except InferenceCompileError (List CompiledInferenceRule)
  | [] => .ok []
  | r :: rules =>
    match r.validate with
    | .error e => .error e
    | .ok () =>
      match compileInferenceRules rules with
      | .error e => .error e
      | .ok out => .ok (env.compileOne r :: out)

end RuleEnv

end StarStats
