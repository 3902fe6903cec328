import StarStats.Core.Wire

/-!
# Validation of uploaded events (`starstats-core/src/validators.rs`)
-/

namespace StarStats

inductive ValidationError where
  | emptyTimestamp
  | badTimestamp
  | emptyField (field : String)
  | badPort (port : UInt16)
  | invalidMetadata (reason : String)
  deriving DecidableEq

/-- The error's text. -/
def ValidationError.message : ValidationError → String
  | emptyTimestamp => "timestamp is empty"
  | badTimestamp => "timestamp does not look like ISO-8601"
  | emptyField field => "required field " ++ field ++ " is empty"
  | badPort port => "port " ++ toString port ++ " is out of plausible range"
  | invalidMetadata reason => "invalid metadata: " ++ reason

/-- A date/time separator and a colon somewhere. -/
def checkTimestamp (ts : String) : Except ValidationError Unit :=
  if ts.isEmpty then .error .emptyTimestamp
  else
    let chars := ts.toList
    if (chars.contains 'T' || chars.contains ' ') && chars.contains ':' then .ok ()
    else .error .badTimestamp

/-- A required text field. -/
def checkField (field value : String) : Except ValidationError Unit :=
  if value.isEmpty then .error (.emptyField field) else .ok ()

def validateGameEvent (event : GameEvent) : Except ValidationError Unit := do
  checkTimestamp event.timestamp
  match event with
  | .legacyLogin e => checkField "handle" e.handle
  | .joinPu e =>
    checkField "shard" e.shard
    if e.port = 0 then .error (.badPort e.port) else .ok ()
  | .actorDeath e =>
    checkField "victim" e.victim
    checkField "killer" e.killer
  | .vehicleDestruction e => checkField "vehicle_class" e.vehicleClass
  | .burstSummary e =>
    checkField "rule_id" e.ruleId
    if e.size = 0 then .error (.emptyField "size") else .ok ()
    checkTimestamp e.endTimestamp
  | _ => .ok ()

/-- `f32::EPSILON`. -/
def f32Epsilon : Rat := 1 / 8388608

def validateMetadata (m : EventMetadata) : Except ValidationError Unit :=
  match m.confidence with
  | .num q =>
    if q < 0 || 1 < q then .error (.invalidMetadata "confidence out of range")
    else
      match m.source with
      | .observed =>
        -- both bounds of the confidence hold here, so `|q - 1|` is `1 - q`
        if f32Epsilon < 1 - q || !m.inferenceInputs.isEmpty then
          .error (.invalidMetadata
            "observed event must have confidence=1.0 and no inference_inputs")
        else .ok ()
      | .inferred =>
        if 1 ≤ q || m.inferenceInputs.isEmpty then
          .error (.invalidMetadata
            "inferred event must have confidence<1.0 and at least one inference input")
        else .ok ()
      | .synthesized => .ok ()
  -- no range contains an infinity or a value that is not a number
  | _ => .error (.invalidMetadata "confidence out of range")

def validateEvent (envelope : EventEnvelope) : Except ValidationError Unit := do
  match envelope.event with
  | some event => validateGameEvent event
  | none => .ok ()
  match envelope.metadata with
  | some m => validateMetadata m
  | none => .ok ()

end StarStats
