import StarStats.Core.Events

/-!
# Event metadata (`starstats-core/src/metadata.rs`)

The entity an event is about, the wire key of its type and the metadata stamped on an observed
event.
-/

namespace StarStats

inductive EntityKind where
  | player
  | vehicle
  | item
  | location
  | shop
  | mission
  | session
  | system
  deriving DecidableEq

def entityKindKey : EntityKind → String
  | .player => "player"
  | .vehicle => "vehicle"
  | .item => "item"
  | .location => "location"
  | .shop => "shop"
  | .mission => "mission"
  | .session => "session"
  | .system => "system"

structure EntityRef where
  kind : EntityKind
  id : String
  displayName : String
  deriving DecidableEq

inductive EventSource where
  | observed
  | inferred
  | synthesized
  deriving DecidableEq

inductive FieldProvenance where
  | observed
  | inferredFrom (sourceEventIds : List String) (ruleId : String)
  deriving DecidableEq

structure EventMetadata where
  primaryEntity : EntityRef
  source : EventSource
  confidence : Fp
  groupKey : String
  fieldProvenance : List (String × FieldProvenance)
  inferenceInputs : List String
  ruleId : Option String
  deriving DecidableEq

def EventMetadata.observed (primaryEntity : EntityRef) (groupKey : String) : EventMetadata where
  primaryEntity := primaryEntity
  source := .observed
  confidence := .num 1
  groupKey := groupKey
  fieldProvenance := []
  inferenceInputs := []
  ruleId := none

def unknownId : String := "unknown"

def entityWithFallback (kind : EntityKind) (id displayName : Option String) : EntityRef :=
  let id := id.getD unknownId
  ⟨kind, id, displayName.getD id⟩

/-- The entity a payload is about. Deaths and incapacitations are about the account that
uploads them. -/
def primaryEntityFor (event : GameEvent) (claimedHandle : Option String) : EntityRef :=
  match event with
  | .playerDeath _ | .playerIncapacitated _ =>
    let handle := claimedHandle.getD unknownId
    ⟨.player, handle, handle⟩
  | .legacyLogin e => ⟨.player, e.handle, e.handle⟩
  | .actorDeath e => ⟨.player, e.victim, e.victim⟩
  | .resolveSpawn e => ⟨.player, e.playerGeid, e.playerGeid⟩
  | .actorEjected e => ⟨.vehicle, e.vehicleClass, e.vehicleClass⟩
  | .vehicleDestruction e => ⟨.vehicle, e.vehicleId.getD unknownId, e.vehicleClass⟩
  | .vehicleStowed e => ⟨.vehicle, e.vehicleId, e.vehicleId⟩
  | .quantumRoute e => ⟨.vehicle, e.vehicleId, e.vehicleClass⟩
  | .quantumArrived e => ⟨.vehicle, e.vehicleId, e.vehicleClass⟩
  | .quantumTargetSelected e => ⟨.vehicle, e.vehicleId, e.vehicleClass⟩
  | .attachmentReceived e => ⟨.item, e.itemId, e.itemClass⟩
  | .itemEquipChange e => ⟨.item, e.itemClass, e.itemClass⟩
  | .locationInventoryRequested e => ⟨.location, e.location, e.location⟩
  | .planetTerrainLoad e => ⟨.location, e.planet, e.planet⟩
  | .seedSolarSystem e => ⟨.location, e.solarSystem, e.solarSystem⟩
  | .shopBuyRequest e => entityWithFallback .shop e.shopId e.shopName
  | .shopFlowResponse e => entityWithFallback .shop e.shopId none
  | .commodityBuyRequest e => entityWithFallback .shop e.commodity none
  | .commoditySellRequest e => entityWithFallback .shop e.commodity none
  | .missionStart e => ⟨.mission, e.missionId, e.missionName.getD e.missionId⟩
  | .missionEnd e => entityWithFallback .mission e.missionId none
  | .processInit e => ⟨.session, e.localSession, e.localSession⟩
  | .joinPu e => ⟨.session, e.shard, e.shard⟩
  | .changeServer _ | .sessionEnd _ => ⟨.session, "session", "session"⟩
  | .hudNotification _ => ⟨.system, "hud", "HUD"⟩
  | .gameCrash _ => ⟨.system, "crash", "crash"⟩
  | .launcherActivity _ => ⟨.system, "launcher", "launcher"⟩
  | .remoteMatch e => ⟨.system, e.eventName, e.eventName⟩
  | .burstSummary e => ⟨.system, e.ruleId, e.ruleId⟩
  | .locationChanged e => ⟨.location, e.«to», e.«to»⟩
  | .shopRequestTimedOut e => entityWithFallback .shop e.shopId none
  | .missionObjective e =>
    ⟨.mission, e.missionId.getD e.objectiveId, (e.text <|> e.missionId).getD e.objectiveId⟩
  | .missionQuantumDestinationSelected e => ⟨.mission, e.beaconId, e.beaconId⟩
  | .travelToContractLocation e => ⟨.mission, e.beaconId, e.beaconId⟩

/-- The `type` tag of a serialised payload. -/
def eventTypeKey : GameEvent → String
  | .processInit _ => "process_init"
  | .legacyLogin _ => "legacy_login"
  | .joinPu _ => "join_pu"
  | .changeServer _ => "change_server"
  | .seedSolarSystem _ => "seed_solar_system"
  | .resolveSpawn _ => "resolve_spawn"
  | .actorDeath _ => "actor_death"
  | .playerDeath _ => "player_death"
  | .playerIncapacitated _ => "player_incapacitated"
  | .vehicleDestruction _ => "vehicle_destruction"
  | .actorEjected _ => "actor_ejected"
  | .hudNotification _ => "hud_notification"
  | .locationInventoryRequested _ => "location_inventory_requested"
  | .planetTerrainLoad _ => "planet_terrain_load"
  | .quantumTargetSelected _ => "quantum_target_selected"
  | .attachmentReceived _ => "attachment_received"
  | .vehicleStowed _ => "vehicle_stowed"
  | .gameCrash _ => "game_crash"
  | .launcherActivity _ => "launcher_activity"
  | .missionStart _ => "mission_start"
  | .missionEnd _ => "mission_end"
  | .shopBuyRequest _ => "shop_buy_request"
  | .shopFlowResponse _ => "shop_flow_response"
  | .commodityBuyRequest _ => "commodity_buy_request"
  | .commoditySellRequest _ => "commodity_sell_request"
  | .sessionEnd _ => "session_end"
  | .remoteMatch _ => "remote_match"
  | .burstSummary _ => "burst_summary"
  | .locationChanged _ => "location_changed"
  | .shopRequestTimedOut _ => "shop_request_timed_out"
  | .missionObjective _ => "mission_objective"
  | .quantumRoute _ => "quantum_route"
  | .quantumArrived _ => "quantum_arrived"
  | .itemEquipChange _ => "item_equip_change"
  | .missionQuantumDestinationSelected _ => "mission_quantum_destination_selected"
  | .travelToContractLocation _ => "travel_to_contract_location"

/-- The metadata of an event the client observed. -/
def stamp (event : GameEvent) (claimedHandle : Option String) : EventMetadata :=
  let primary := primaryEntityFor event claimedHandle
  .observed primary
    (eventTypeKey event ++ ":" ++ entityKindKey primary.kind ++ ":" ++ primary.id)

end StarStats
