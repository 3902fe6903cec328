import StarStats.Core.InferenceDefs
import StarStats.Lib.Search

/-!
# What remote inference rules accept and emit

`compileInferenceRules_iff`: the rules that the documentation admits are compiled exactly when none
names `actor_ejected` or `quantum_arrived`, the two types that `allEventTypeKeys` leaves out.

`apply_keeps_iff`: a string of the trigger reaches the emitted event exactly when it does not look
like a number or a truth value, because `coerceValue` reads every text again.
-/

namespace StarStats

open Json (Value Number FloatText)

/-! ## The vocabulary -/

section
open Events

deriving instance Inhabited for Fp, ProcessInit, LegacyLogin, JoinPu, ServerPhase, ChangeServer,
  SeedSolarSystem, ResolveSpawn, PlayerDeath, PlayerIncapacitated, ActorDeath, ActorEjected,
  VehicleDestruction, HudNotification, LocationInventoryRequested, PlanetTerrainLoad,
  QuantumTargetPhase, QuantumTargetSelected, QuantumRoute, QuantumArrived,
  MissionQuantumDestinationSelected, TravelToContractLocation, VehicleStowed, AttachmentReceived,
  EquipAction, ItemEquipChange, GameCrash, LauncherCategory, LauncherActivity, MissionMarkerKind,
  MissionStart, MissionEnd, MissionObjectiveState, MissionObjective, ShopBuyRequest,
  ShopFlowResponse, CommodityBuyRequest, CommoditySellRequest, SessionEndKind, SessionEnd,
  RemoteMatch, BurstSummary, LocationChanged, ShopRequestTimedOut

end

/-- One event of each type. -/
def sampleEvents : List GameEvent :=
  [.processInit default, .legacyLogin default, .joinPu default, .changeServer default,
    .seedSolarSystem default, .resolveSpawn default, .actorDeath default, .playerDeath default,
    .playerIncapacitated default, .vehicleDestruction default, .hudNotification default,
    .locationInventoryRequested default, .planetTerrainLoad default,
    .quantumTargetSelected default, .attachmentReceived default, .vehicleStowed default,
    .gameCrash default, .launcherActivity default, .missionStart default, .missionEnd default,
    .shopBuyRequest default, .shopFlowResponse default, .commodityBuyRequest default,
    .commoditySellRequest default, .sessionEnd default, .remoteMatch default,
    .burstSummary default, .locationChanged default, .shopRequestTimedOut default,
    .missionObjective default, .quantumRoute default, .itemEquipChange default,
    .missionQuantumDestinationSelected default, .travelToContractLocation default,
    .actorEjected default, .quantumArrived default]

/-- The types that the list of keys leaves out. -/
def unlistedKeys : List String := ["actor_ejected", "quantum_arrived"]

theorem sampleEvents_keys : sampleEvents.map eventTypeKey = allEventTypeKeys ++ unlistedKeys := rfl

theorem eventTypeKey_mem (e : GameEvent) : eventTypeKey e ∈ allEventTypeKeys ++ unlistedKeys := by
  cases e <;> simp [eventTypeKey, allEventTypeKeys, unlistedKeys]

/-- The keys of events are those listed and the two that are not. -/
theorem exists_eventTypeKey {t : String} :
    (∃ e, eventTypeKey e = t) ↔ t ∈ allEventTypeKeys ∨ t ∈ unlistedKeys := by
  rw [← List.mem_append]
  constructor
  · rintro ⟨e, rfl⟩
    exact eventTypeKey_mem e
  · intro ht
    rw [← sampleEvents_keys] at ht
    obtain ⟨e, -, rfl⟩ := List.mem_map.1 ht
    exact ⟨e, rfl⟩

theorem unlisted_not_listed {t : String} (h : t ∈ unlistedKeys) : t ∉ allEventTypeKeys := by
  have hall : ∀ t ∈ unlistedKeys, t ∉ allEventTypeKeys := by decide
  exact hall t h

/-! ## Acceptance -/

namespace RemoteInferenceRule

def eventTypes (r : RemoteInferenceRule) : List String :=
  r.trigger.eventType :: r.emits.eventType :: r.followups.map (·.eventType)

/-- What the documentation asks of a rule: every event type is that of some event. -/
structure Admitted (r : RemoteInferenceRule) : Prop where
  types : ∀ t ∈ r.eventTypes, ∃ e, eventTypeKey e = t
  confidence : inUnit r.confidence = true
  followups : r.followups ≠ []

theorem validateEventType_ok {ruleId t : String} {known : List String} :
    validateEventType ruleId t known = .ok () ↔ t ∈ known := by
  unfold validateEventType
  split
  case isTrue h => exact iff_of_true rfl (List.contains_iff_mem.1 h)
  case isFalse h => exact iff_of_false (by simp) fun hmem => h (List.contains_iff_mem.2 hmem)

theorem bind_ok {E : Type} {x : Except E Unit} {f : Unit → Except E Unit} :
    (x >>= f) = .ok () ↔ x = .ok () ∧ f () = .ok () := by
  cases x with
  | error e => exact iff_of_false (by simp [bind, Except.bind]) fun h => nomatch h.1
  | ok u => simp [bind, Except.bind]

theorem forM_ok {r : RemoteInferenceRule} {followups : List EventPattern} :
    (followups.forM fun fu => validateEventType r.id fu.eventType allEventTypeKeys) = .ok () ↔
      ∀ fu ∈ followups, fu.eventType ∈ allEventTypeKeys := by
  induction followups with
  | nil => exact iff_of_true rfl fun _ h => nomatch h
  | cons fu followups ih =>
    rw [List.forM, bind_ok, validateEventType_ok, ih, List.forall_mem_cons]

theorem validate_ok {r : RemoteInferenceRule} :
    r.validate = .ok () ↔
      (∀ t ∈ r.eventTypes, t ∈ allEventTypeKeys) ∧ inUnit r.confidence = true ∧
        r.followups ≠ [] := by
  have hlast : (if inUnit r.confidence then
      if r.followups.isEmpty then .error (.emptyFollowups r.id) else .ok ()
    else .error (.invalidConfidence r.id r.confidence) : Except InferenceCompileError Unit) =
      .ok () ↔ inUnit r.confidence = true ∧ r.followups ≠ [] := by
    cases inUnit r.confidence <;> cases r.followups <;> simp
  unfold validate
  rw [bind_ok, bind_ok, bind_ok, validateEventType_ok, validateEventType_ok, forM_ok, hlast]
  simp only [eventTypes, List.forall_mem_cons, List.forall_mem_map, and_assoc]

/-- A checked rule is an admitted one that names no unlisted type. -/
theorem validate_ok_iff {r : RemoteInferenceRule} :
    r.validate = .ok () ↔ r.Admitted ∧ ∀ t ∈ r.eventTypes, t ∉ unlistedKeys := by
  rw [validate_ok]
  constructor
  · rintro ⟨htypes, hconf, hne⟩
    refine ⟨⟨fun t ht => exists_eventTypeKey.2 (.inl (htypes t ht)), hconf, hne⟩,
      fun t ht hun => ?_⟩
    exact unlisted_not_listed hun (htypes t ht)
  · rintro ⟨⟨htypes, hconf, hne⟩, hlisted⟩
    refine ⟨fun t ht => ?_, hconf, hne⟩
    exact (exists_eventTypeKey.1 (htypes t ht)).resolve_right (hlisted t ht)

end RemoteInferenceRule

section
variable {F : Type} (env : RuleEnv F)

/-- One rule that fails its checks fails the list. -/
theorem compileInferenceRules_ok {rules : List RemoteInferenceRule} :
    (∃ out, env.compileInferenceRules rules = .ok out) ↔ ∀ r ∈ rules, r.validate = .ok () := by
  induction rules with
  | nil => exact iff_of_true ⟨[], rfl⟩ fun _ h => nomatch h
  | cons r rules ih =>
    rw [List.forall_mem_cons, ← ih]
    rw [RuleEnv.compileInferenceRules]
    cases r.validate with
    | error e => exact iff_of_false (by simp) fun h => nomatch h.1
    | ok u => cases env.compileInferenceRules rules <;> simp

/-- The lists that are documented to compile are those that do, exactly when no such list names
one of the two unlisted types. -/
theorem compileInferenceRules_iff (rules : List RemoteInferenceRule) :
    ((∃ out, env.compileInferenceRules rules = .ok out) ↔ ∀ r ∈ rules, r.Admitted) ↔
      ((∀ r ∈ rules, r.Admitted) → ∀ r ∈ rules, ∀ t ∈ r.eventTypes, t ∉ unlistedKeys) := by
  simp only [compileInferenceRules_ok, RemoteInferenceRule.validate_ok_iff]
  constructor
  · exact fun h hadm r hr => (h.2 hadm r hr).2
  · intro h
    constructor
    · exact fun hall r hr => (hall r hr).1
    · exact fun hadm r hr => ⟨hadm r hr, h hadm r hr⟩

end

/-! ## Substitution -/

/-- A token and nothing else. -/
def wholeToken (field : String) : String := String.ofList (tokenOpen ++ field.toList ++ ['}'])

theorem substituteFrom_nil (resolve : List Char → List Char) (fuel : Nat) :
    substituteFrom resolve fuel [] = [] := by
  cases fuel <;> rfl

theorem substituteFrom_token {resolve : List Char → List Char} {field : List Char} {fuel : Nat}
    (hfield : '}' ∉ field) :
    substituteFrom resolve (fuel + 1) (tokenOpen ++ field ++ ['}']) = resolve field := by
  have hopen : Text.splitOnce tokenOpen (tokenOpen ++ field ++ ['}']) =
      some ([], field ++ ['}']) := by
    have h := @Text.splitOnce_append tokenOpen [] (field ++ ['}']) (by decide) fun _ h => nomatch h
    rwa [List.nil_append, ← List.append_assoc] at h
  have hclose : Text.splitOnce ['}'] (field ++ ['}']) = some (field, []) := by
    have h := @Text.splitOnce_append ['}'] field [] (by decide) fun c hc hmem => by
      rw [List.mem_singleton.1 hmem] at hc
      exact hfield hc
    rwa [List.append_nil] at h
  rw [substituteFrom, hopen]
  dsimp only
  rw [hclose]
  dsimp only
  rw [substituteFrom_nil, List.nil_append, List.append_nil]

/-! ## Emission -/

namespace RuleEnv
variable {F : Type} (env : RuleEnv F)

/-- A string of an event, in its JSON. -/
def stringOf (event : GameEvent) (field : String) : Option String :=
  match (env.toValue event).bind (getField · field) with
  | some (.string s) => some s
  | _ => none

/-- A string field of the events with a tag: no number and no truth value is read for it, and the
event has the string that is read. -/
structure StringField (tag : Option (Value F)) (field : String) : Prop where
  number : ∀ members n, members.lookup "type" = tag → members.lookup field = some (.number n) →
    env.fromValue (.object members) = none
  bool : ∀ members b, members.lookup "type" = tag → members.lookup field = some (.bool b) →
    env.fromValue (.object members) = none
  string : ∀ members s e, members.lookup "type" = tag → members.lookup field = some (.string s) →
    env.fromValue (.object members) = some e → env.stringOf e field = some s

/-- The payload with the text of one field kept as it is. -/
def payloadKeeping (kept : String) (emits : EmitTemplate) (trigger : EventEnvelope)
    (triggerJson : Value F) : List (String × Value F) :=
  env.payloadWith (fun k text => if k = kept then .string text else env.coerceValue text) emits
    trigger triggerJson

end RuleEnv

theorem lookup_member {V : Type} (k k' : String) (v : V) (m : List (String × V)) :
    ((k, v) :: m).lookup k' = if k' = k then some v else m.lookup k' := by
  rw [List.lookup_cons]
  by_cases h : k' = k
  · rw [beq_iff_eq.2 h, if_pos h]
  · rw [beq_eq_false_iff_ne.2 h, if_neg h]

theorem lookup_insertField {V : Type} (k k' : String) (v : V) (m : List (String × V)) :
    (insertField k v m).lookup k' = if k' = k then some v else m.lookup k' := by
  induction m with
  | nil => exact lookup_member k k' v []
  | cons x m ih =>
    obtain ⟨a, b⟩ := x
    rw [insertField]
    split
    case isTrue => rw [lookup_member]
    case isFalse =>
      split
      case isTrue heq =>
        subst heq
        rw [lookup_member, lookup_member]
        split <;> rfl
      case isFalse hne =>
        rw [lookup_member, lookup_member, ih]
        by_cases h : k' = a
        · subst h
          rw [if_pos rfl, if_pos rfl, if_neg (Ne.symm hne)]
        · rw [if_neg h, if_neg h]

namespace RuleEnv
variable {F : Type} {env : RuleEnv F} {emits : EmitTemplate} {trigger : EventEnvelope}
  {triggerJson : Value F}

theorem lookup_foldl {value : String → String → Value F} {fields : List (String × String)}
    {payload : List (String × Value F)} {k : String} (hk : k ∉ fields.map (·.1)) :
    (fields.foldl (fun payload (k, v) =>
      insertField k (value k (env.substitute v trigger triggerJson)) payload) payload).lookup k =
      payload.lookup k := by
  induction fields generalizing payload with
  | nil => rfl
  | cons x fields ih =>
    rw [List.map_cons, List.mem_cons, not_or] at hk
    rw [List.foldl_cons, ih hk.2, lookup_insertField, if_neg hk.1]

/-- A field of the template is set to its text, with the tokens replaced. -/
theorem lookup_payloadWith {value : String → String → Value F} {k v : String}
    (h : (k, v) ∈ emits.fields) :
    (env.payloadWith value emits trigger triggerJson).lookup k =
      some (value k (env.substitute v trigger triggerJson)) := by
  unfold payloadWith
  have hdistinct := emits.distinct
  generalize [("type", Value.string emits.eventType)] = payload
  generalize emits.fields = fields at h hdistinct
  induction fields generalizing payload with
  | nil => cases h
  | cons x fields ih =>
    rw [List.map_cons, List.nodup_cons] at hdistinct
    rcases List.mem_cons.1 h with rfl | h
    · rw [List.foldl_cons, lookup_foldl hdistinct.1, lookup_insertField, if_pos rfl]
    · exact ih _ h hdistinct.2

/-- The payload depends on the values of the template's fields only. -/
theorem payloadWith_congr {value value' : String → String → Value F}
    (h : ∀ x ∈ emits.fields, value x.1 (env.substitute x.2 trigger triggerJson) =
      value' x.1 (env.substitute x.2 trigger triggerJson)) :
    env.payloadWith value emits trigger triggerJson =
      env.payloadWith value' emits trigger triggerJson := by
  unfold payloadWith
  refine List.foldl_ext _ _ _ fun payload x hx => ?_
  dsimp only
  rw [h x hx]

theorem substitute_wholeToken {field s : String} (hname : '}' ∉ field.toList)
    (hkey : field ≠ "idempotency_key") (hvalue : getField triggerJson field = some (.string s)) :
    env.substitute (wholeToken field) trigger triggerJson = s := by
  have htext : (wholeToken field).toList = tokenOpen ++ field.toList ++ ['}'] :=
    String.toList_ofList
  have hlen : (tokenOpen ++ field.toList ++ ['}']).length =
      (tokenOpen ++ field.toList).length + 1 := by
    rw [List.length_append, List.length_singleton]
  have hne : field.toList ≠ "idempotency_key".toList := fun h => hkey (String.toList_injective h)
  rw [substitute, htext, hlen, substituteFrom_token hname, if_neg hne, resolveField,
    String.ofList_toList, hvalue]
  exact String.ofList_toList

/-- A text is kept, or read as a number or a truth value. -/
theorem coerceValue_cases (s : String) : env.coerceValue s = .string s ∨
    (∃ n, env.coerceValue s = .number n) ∨ ∃ b, env.coerceValue s = .bool b := by
  unfold coerceValue
  split
  · exact .inr (.inl ⟨_, rfl⟩)
  · split
    · exact .inr (.inl ⟨_, rfl⟩)
    · split
      · exact .inr (.inl ⟨_, rfl⟩)
      · split
        · exact .inr (.inr ⟨_, rfl⟩)
        · split
          · exact .inr (.inr ⟨_, rfl⟩)
          · exact .inl rfl

/-- A rule that matches emits the event of its payload, if there is one. -/
theorem apply_of_chain {rule : RemoteInferenceRule} {window : List EventEnvelope}
    {ids : List String} (h : env.chain rule trigger window = some (triggerJson, ids)) :
    env.apply rule trigger window =
      (env.fromValue (.object (env.payload rule.emits trigger triggerJson))).map fun event =>
        ⟨event, trigger.idempotencyKey :: ids⟩ := by
  simp only [apply, h, Option.bind_eq_bind, Option.bind_some]
  cases env.fromValue (.object (env.payload rule.emits trigger triggerJson)) <;> rfl

/-- When the text is kept, the payload is the one with the text kept. -/
theorem payload_eq_keeping {kept v s : String} (hfield : (kept, v) ∈ emits.fields)
    (hs : env.substitute v trigger triggerJson = s) (hkeep : env.coerceValue s = .string s) :
    env.payload emits trigger triggerJson = env.payloadKeeping kept emits trigger triggerJson := by
  refine payloadWith_congr fun x hx => ?_
  split
  case isTrue h =>
    obtain rfl : x = (kept, v) := List.inj_on_of_nodup_map emits.distinct hx hfield h
    dsimp only
    rw [hs, hkeep]
  case isFalse => rfl

end RuleEnv

/-- A rule that matches and sets a string field to a string of the trigger emits that string exactly
when the text is not read as something else, and the payload makes an event with it. -/
theorem compileOne_keeps_iff {F : Type} (env : RuleEnv F) (rule : RemoteInferenceRule)
    (trigger : EventEnvelope) (window : List EventEnvelope) (triggerJson : Value F)
    (ids : List String) (emitted field s : String)
    (hchain : env.chain rule trigger window = some (triggerJson, ids))
    (htoken : (emitted, wholeToken field) ∈ rule.emits.fields) (hname : '}' ∉ field.toList)
    (hkey : field ≠ "idempotency_key") (hvalue : getField triggerJson field = some (.string s))
    (hstring : env.StringField ((env.payload rule.emits trigger triggerJson).lookup "type")
      emitted) :
    (∃ m, ((env.compileOne rule).apply (env.compileOne rule).state trigger window).1 = some m ∧
      env.stringOf m.event emitted = some s) ↔
      env.coerceValue s = .string s ∧
        (env.fromValue (.object
          (env.payloadKeeping emitted rule.emits trigger triggerJson))).isSome = true := by
  have hs := @RuleEnv.substitute_wholeToken F env trigger triggerJson field s hname hkey hvalue
  have hlookup : (env.payload rule.emits trigger triggerJson).lookup emitted =
      some (env.coerceValue s) := by
    rw [RuleEnv.payload, RuleEnv.lookup_payloadWith htoken, hs]
  have happly := RuleEnv.apply_of_chain hchain
  change (∃ m, env.apply rule trigger window = some m ∧ _) ↔ _
  rw [happly]
  constructor
  · rintro ⟨m, hm, -⟩
    obtain ⟨event, hevent, -⟩ := Option.map_eq_some_iff.1 hm
    have hkeep : env.coerceValue s = .string s := by
      rcases env.coerceValue_cases s with hkeep | ⟨n, hn⟩ | ⟨b, hb⟩
      · exact hkeep
      · rw [hstring.number _ n rfl (hlookup.trans (by rw [hn]))] at hevent
        cases hevent
      · rw [hstring.bool _ b rfl (hlookup.trans (by rw [hb]))] at hevent
        cases hevent
    refine ⟨hkeep, ?_⟩
    rw [← RuleEnv.payload_eq_keeping htoken hs hkeep, hevent]
    rfl
  · rintro ⟨hkeep, hsome⟩
    rw [← RuleEnv.payload_eq_keeping htoken hs hkeep] at hsome
    obtain ⟨event, hevent⟩ := Option.isSome_iff_exists.1 hsome
    refine ⟨⟨event, trigger.idempotencyKey :: ids⟩, by rw [hevent]; rfl, ?_⟩
    exact hstring.string _ s event rfl (hlookup.trans (by rw [hkeep])) hevent

/-! ## A rule -/

/-- A string member. -/
def stringMember (members : List (String × Value Empty)) (field : String) : Option String :=
  match members.lookup field with
  | some (.string s) => some s
  | _ => none

/-- `serde_json` on the events of `spawnRule`, which have no number. -/
def spawnEnv : RuleEnv Empty where
  floatText :=
    { text := fun x => nomatch x
      numeric := fun x => nomatch x
      fractional := fun x => nomatch x
      injective := fun x => nomatch x }
  toValue
    | .resolveSpawn e => some (.object
        [("fallback", .bool e.fallback), ("player_geid", .string e.playerGeid),
          ("timestamp", .string e.timestamp), ("type", .string "resolve_spawn")])
    | .planetTerrainLoad e => some (.object
        [("planet", .string e.planet), ("timestamp", .string e.timestamp),
          ("type", .string "planet_terrain_load")])
    | .locationInventoryRequested e => some (.object
        [("location", .string e.location), ("player", .string e.player),
          ("timestamp", .string e.timestamp), ("type", .string "location_inventory_requested")])
    | _ => none
  fromValue
    | .object members =>
      if stringMember members "type" = some "location_inventory_requested" then do
        let timestamp ← stringMember members "timestamp"
        let player ← stringMember members "player"
        let location ← stringMember members "location"
        return .locationInventoryRequested { timestamp, player, location }
      else none
    | _ => none
  parseFinite _ := none

/-- The player who spawned looks at the inventory of the place. -/
def spawnRule : RemoteInferenceRule where
  id := "inventory_after_spawn"
  confidence := .num (1 / 2)
  windowSecs := 15
  trigger := ⟨"resolve_spawn", [], .nil⟩
  followups := [⟨"planet_terrain_load", [], .nil⟩]
  emits :=
    { eventType := "location_inventory_requested"
      fields := [("location", "spawn"), ("player", wholeToken "player_geid"),
        ("timestamp", wholeToken "timestamp")]
      distinct := by decide }

def spawnEnvelope (key : String) (event : GameEvent) : EventEnvelope where
  idempotencyKey := key
  rawLine := ""
  event := some event
  source := .live
  sourceOffset := 0
  metadata := none
  resolvedLocation := none

def spawnOf (playerGeid : String) : EventEnvelope :=
  spawnEnvelope "a" (.resolveSpawn ⟨"2026-05-17T14:02:30Z", playerGeid, false⟩)

def terrain : EventEnvelope :=
  spawnEnvelope "b" (.planetTerrainLoad ⟨"2026-05-17T14:02:35Z", "OOC_Stanton_1"⟩)

def spawnJson (playerGeid : String) : Value Empty :=
  .object [("fallback", .bool false), ("player_geid", .string playerGeid),
    ("timestamp", .string "2026-05-17T14:02:30Z"), ("type", .string "resolve_spawn")]

theorem spawnRule_chain (playerGeid : String) :
    spawnEnv.chain spawnRule (spawnOf playerGeid) [terrain] =
      some (spawnJson playerGeid, ["b"]) := rfl

/-- What `spawnEnv` reads as an inventory request. -/
theorem spawnEnv_fromValue (members : List (String × Value Empty)) :
    spawnEnv.fromValue (.object members) =
      if stringMember members "type" = some "location_inventory_requested" then do
        let timestamp ← stringMember members "timestamp"
        let player ← stringMember members "player"
        let location ← stringMember members "location"
        return .locationInventoryRequested { timestamp, player, location }
      else none := rfl

theorem spawnEnv_no_player {members : List (String × Value Empty)}
    (h : stringMember members "player" = none) : spawnEnv.fromValue (.object members) = none := by
  rw [spawnEnv_fromValue, h]
  split
  · cases stringMember members "timestamp" <;> rfl
  · rfl

theorem spawnEnv_player : spawnEnv.StringField
    (some (.string "location_inventory_requested")) "player" where
  number members n _ hplayer := spawnEnv_no_player (by rw [stringMember, hplayer])
  bool members b _ hplayer := spawnEnv_no_player (by rw [stringMember, hplayer])
  string members s e _ hplayer hevent := by
    have hs : stringMember members "player" = some s := by rw [stringMember, hplayer]
    rw [spawnEnv_fromValue, hs] at hevent
    split at hevent
    case isFalse => cases hevent
    case isTrue =>
      cases htime : stringMember members "timestamp" with
      | none =>
        rw [htime] at hevent
        cases hevent
      | some timestamp =>
        cases hplace : stringMember members "location" with
        | none =>
          rw [htime, hplace] at hevent
          cases hevent
        | some location =>
          rw [htime, hplace] at hevent
          obtain rfl := Option.some.inj hevent
          rfl

/-- With a name that is no number the rule keeps it. -/
theorem compileOne_keeps_name :
    ∃ m, ((spawnEnv.compileOne spawnRule).apply (spawnEnv.compileOne spawnRule).state
      (spawnOf "Pilot") [terrain]).1 = some m ∧
        spawnEnv.stringOf m.event "player" = some "Pilot" := by
  refine (compileOne_keeps_iff spawnEnv spawnRule (spawnOf "Pilot") [terrain] (spawnJson "Pilot")
    ["b"] "player" "player_geid" "Pilot" (spawnRule_chain _) (.tail _ (.head _)) (by decide)
    (by decide) rfl ?_).2 ⟨?_, ?_⟩
  · have htype : (spawnEnv.payload spawnRule.emits (spawnOf "Pilot") (spawnJson "Pilot")).lookup
        "type" = some (.string "location_inventory_requested") := by
      rfl
    rw [htype]
    exact spawnEnv_player
  · have hsigned : parseSigned "Pilot" = none := by decide
    have hunsigned : parseUnsigned 18446744073709551616 "Pilot" = none := by decide
    rw [RuleEnv.coerceValue, hsigned]
    simp [hunsigned, spawnEnv]
  · decide

/-- The id of a player is all digits: the rule matches and emits nothing. -/
theorem compileOne_loses_digits :
    spawnEnv.chain spawnRule (spawnOf "204056438813") [terrain] =
        some (spawnJson "204056438813", ["b"]) ∧
      getField (spawnJson "204056438813") "player_geid" = some (.string "204056438813") ∧
      ((spawnEnv.compileOne spawnRule).apply (spawnEnv.compileOne spawnRule).state
        (spawnOf "204056438813") [terrain]).1 = none := by
  exact ⟨spawnRule_chain _, rfl, Option.isNone_iff_eq_none.1 (by decide +kernel)⟩

/-- A rule about ejections. -/
def ejectedRule : RemoteInferenceRule := { spawnRule with trigger := ⟨"actor_ejected", [], .nil⟩ }

/-- Ejections are events, and a rule about them is refused. -/
theorem compileInferenceRules_refuses_ejected :
    (∀ r ∈ [ejectedRule], r.Admitted) ∧
      spawnEnv.compileInferenceRules [ejectedRule] =
        .error (.unknownEventType "inventory_after_spawn" "actor_ejected") := by
  refine ⟨fun r hr => ?_, rfl⟩
  obtain rfl := List.mem_singleton.1 hr
  refine ⟨fun t ht => exists_eventTypeKey.2 ?_, by decide +kernel, List.cons_ne_nil _ _⟩
  have hall : ∀ t ∈ ejectedRule.eventTypes, t ∈ allEventTypeKeys ∨ t ∈ unlistedKeys := by
    decide +kernel
  exact hall t ht

end StarStats
