/-!
# Game events (`starstats-core/src/events.rs`)

One structure per payload and `GameEvent` over them, as the source has them. `f32` and `f64`
values are `Fp`: an exact rational, or one of the values that are not a number. Maps are
association lists.
-/

namespace StarStats

/-- A floating-point value. -/
inductive Fp where
  | num (q : Rat)
  | posInf
  | negInf
  | nan
  deriving DecidableEq

namespace Events

structure ProcessInit where
  timestamp : String
  localSession : String
  envSession : String
  online : Bool
  deriving DecidableEq

structure LegacyLogin where
  timestamp : String
  handle : String
  serverTime : Option String
  deriving DecidableEq

structure JoinPu where
  timestamp : String
  address : String
  port : UInt16
  shard : String
  locationId : String
  deriving DecidableEq

inductive ServerPhase where
  | start
  | «end»
  deriving DecidableEq

structure ChangeServer where
  timestamp : String
  phase : ServerPhase
  isShardPersisted : Bool
  isServer : Bool
  isMultiplayer : Bool
  isOnline : Option Bool
  deriving DecidableEq

structure SeedSolarSystem where
  timestamp : String
  solarSystem : String
  shard : String
  success : Bool
  deriving DecidableEq

structure ResolveSpawn where
  timestamp : String
  playerGeid : String
  fallback : Bool
  deriving DecidableEq

structure PlayerDeath where
  timestamp : String
  bodyClass : String
  bodyId : String
  zone : Option String
  deriving DecidableEq

structure PlayerIncapacitated where
  timestamp : String
  queueId : UInt64
  zone : Option String
  deriving DecidableEq

structure ActorDeath where
  timestamp : String
  victim : String
  victimGeid : Option String
  zone : String
  killer : String
  killerGeid : Option String
  weapon : String
  damageType : String
  deriving DecidableEq

structure ActorEjected where
  timestamp : String
  actor : String
  actorGeid : Option String
  vehicleClass : String
  vehicleId : Option String
  toZone : String
  deriving DecidableEq

structure VehicleDestruction where
  timestamp : String
  vehicleClass : String
  vehicleId : Option String
  destroyLevel : UInt8
  causedBy : String
  zone : Option String
  deriving DecidableEq

structure HudNotification where
  timestamp : String
  text : String
  notificationId : UInt64
  missionId : Option String
  objectiveId : Option String
  deriving DecidableEq

structure LocationInventoryRequested where
  timestamp : String
  player : String
  location : String
  deriving DecidableEq

structure PlanetTerrainLoad where
  timestamp : String
  planet : String
  deriving DecidableEq

inductive QuantumTargetPhase where
  | fuelRequested
  | selected
  deriving DecidableEq

structure QuantumTargetSelected where
  timestamp : String
  phase : QuantumTargetPhase
  vehicleClass : String
  vehicleId : String
  destination : String
  deriving DecidableEq

structure QuantumRoute where
  timestamp : String
  startSystem : String
  destination : String
  vehicleClass : String
  vehicleId : String
  deriving DecidableEq

structure QuantumArrived where
  timestamp : String
  vehicleClass : String
  vehicleId : String
  deriving DecidableEq

structure MissionQuantumDestinationSelected where
  timestamp : String
  beaconId : String
  isMissionDestination : Bool
  travelConfirmed : Bool
  deriving DecidableEq

structure TravelToContractLocation where
  timestamp : String
  beaconId : String
  travelStarted : Bool
  travelCompleted : Bool
  deriving DecidableEq

structure VehicleStowed where
  timestamp : String
  vehicleId : String
  landingArea : String
  landingAreaId : String
  zoneHostId : Option String
  deriving DecidableEq

structure AttachmentReceived where
  timestamp : String
  player : String
  itemClass : String
  itemId : String
  status : String
  port : String
  elapsedSeconds : Fp
  deriving DecidableEq

inductive EquipAction where
  | equip
  | store
  deriving DecidableEq

structure ItemEquipChange where
  timestamp : String
  action : EquipAction
  itemClass : String
  port : Option String
  itemsCount : Option UInt32
  deriving DecidableEq

structure GameCrash where
  timestamp : String
  channel : String
  crashDirName : String
  primaryLogName : Option String
  totalSizeBytes : UInt64
  deriving DecidableEq

inductive LauncherCategory where
  | auth
  | install
  | patch
  | update
  | error
  | info
  deriving DecidableEq

structure LauncherActivity where
  timestamp : String
  level : String
  message : String
  category : LauncherCategory
  deriving DecidableEq

inductive MissionMarkerKind where
  | phase
  | objective
  deriving DecidableEq

structure MissionStart where
  timestamp : String
  missionId : String
  markerKind : MissionMarkerKind
  missionName : Option String
  deriving DecidableEq

structure MissionEnd where
  timestamp : String
  missionId : Option String
  outcome : Option String
  deriving DecidableEq

inductive MissionObjectiveState where
  | inProgress
  | completed
  | failed
  | withdrawn
  | unknown
  deriving DecidableEq

structure MissionObjective where
  timestamp : String
  objectiveId : String
  missionId : Option String
  state : Option MissionObjectiveState
  text : Option String
  deriving DecidableEq

structure ShopBuyRequest where
  timestamp : String
  shopId : Option String
  itemClass : Option String
  quantity : Option UInt32
  raw : String
  price : Option Int64
  shopName : Option String
  deriving DecidableEq

structure ShopFlowResponse where
  timestamp : String
  shopId : Option String
  success : Option Bool
  raw : String
  deriving DecidableEq

structure CommodityBuyRequest where
  timestamp : String
  commodity : Option String
  quantity : Option Fp
  raw : String
  deriving DecidableEq

structure CommoditySellRequest where
  timestamp : String
  commodity : Option String
  quantity : Option Fp
  raw : String
  deriving DecidableEq

inductive SessionEndKind where
  | systemQuit
  | fastShutdown
  deriving DecidableEq

structure SessionEnd where
  timestamp : String
  kind : SessionEndKind
  deriving DecidableEq

structure RemoteMatch where
  timestamp : String
  ruleId : String
  eventName : String
  fields : List (String × String)
  deriving DecidableEq

structure LoadoutItem where
  «class» : String
  port : String
  category : String
  deriving DecidableEq

structure BurstSummary where
  timestamp : String
  ruleId : String
  size : UInt32
  endTimestamp : String
  anchorBodySample : Option String
  kind : Option String
  categories : Option (List (String × UInt64))
  items : Option (List LoadoutItem)
  deriving DecidableEq

structure LocationChanged where
  timestamp : String
  «from» : Option String
  «to» : String
  deriving DecidableEq

structure ShopRequestTimedOut where
  timestamp : String
  shopId : Option String
  itemClass : Option String
  timedOutAfterSecs : UInt32
  deriving DecidableEq

end Events

open Events

inductive GameEvent where
  | processInit (e : ProcessInit)
  | legacyLogin (e : LegacyLogin)
  | joinPu (e : JoinPu)
  | changeServer (e : ChangeServer)
  | seedSolarSystem (e : SeedSolarSystem)
  | resolveSpawn (e : ResolveSpawn)
  | actorDeath (e : ActorDeath)
  | playerDeath (e : PlayerDeath)
  | playerIncapacitated (e : PlayerIncapacitated)
  | vehicleDestruction (e : VehicleDestruction)
  | actorEjected (e : ActorEjected)
  | hudNotification (e : HudNotification)
  | locationInventoryRequested (e : LocationInventoryRequested)
  | planetTerrainLoad (e : PlanetTerrainLoad)
  | quantumTargetSelected (e : QuantumTargetSelected)
  | attachmentReceived (e : AttachmentReceived)
  | vehicleStowed (e : VehicleStowed)
  | gameCrash (e : GameCrash)
  | launcherActivity (e : LauncherActivity)
  | missionStart (e : MissionStart)
  | missionEnd (e : MissionEnd)
  | shopBuyRequest (e : ShopBuyRequest)
  | shopFlowResponse (e : ShopFlowResponse)
  | commodityBuyRequest (e : CommodityBuyRequest)
  | commoditySellRequest (e : CommoditySellRequest)
  | sessionEnd (e : SessionEnd)
  | remoteMatch (e : RemoteMatch)
  | burstSummary (e : BurstSummary)
  | locationChanged (e : LocationChanged)
  | shopRequestTimedOut (e : ShopRequestTimedOut)
  | missionObjective (e : MissionObjective)
  | quantumRoute (e : QuantumRoute)
  | quantumArrived (e : QuantumArrived)
  | itemEquipChange (e : ItemEquipChange)
  | missionQuantumDestinationSelected (e : MissionQuantumDestinationSelected)
  | travelToContractLocation (e : TravelToContractLocation)
  deriving DecidableEq

/-- The timestamp every payload carries. -/
def GameEvent.timestamp : GameEvent → String
  | processInit e => e.timestamp
  | legacyLogin e => e.timestamp
  | joinPu e => e.timestamp
  | changeServer e => e.timestamp
  | seedSolarSystem e => e.timestamp
  | resolveSpawn e => e.timestamp
  | actorDeath e => e.timestamp
  | playerDeath e => e.timestamp
  | playerIncapacitated e => e.timestamp
  | vehicleDestruction e => e.timestamp
  | actorEjected e => e.timestamp
  | hudNotification e => e.timestamp
  | locationInventoryRequested e => e.timestamp
  | planetTerrainLoad e => e.timestamp
  | quantumTargetSelected e => e.timestamp
  | attachmentReceived e => e.timestamp
  | vehicleStowed e => e.timestamp
  | gameCrash e => e.timestamp
  | launcherActivity e => e.timestamp
  | missionStart e => e.timestamp
  | missionEnd e => e.timestamp
  | shopBuyRequest e => e.timestamp
  | shopFlowResponse e => e.timestamp
  | commodityBuyRequest e => e.timestamp
  | commoditySellRequest e => e.timestamp
  | sessionEnd e => e.timestamp
  | remoteMatch e => e.timestamp
  | burstSummary e => e.timestamp
  | locationChanged e => e.timestamp
  | shopRequestTimedOut e => e.timestamp
  | missionObjective e => e.timestamp
  | quantumRoute e => e.timestamp
  | quantumArrived e => e.timestamp
  | itemEquipChange e => e.timestamp
  | missionQuantumDestinationSelected e => e.timestamp
  | travelToContractLocation e => e.timestamp

/-- The place an event names, if it names one. -/
def GameEvent.locationRaw : GameEvent → Option String
  | locationInventoryRequested e => some e.location
  | planetTerrainLoad e => some e.planet
  | quantumTargetSelected e => some e.destination
  | vehicleStowed e => some e.landingArea
  | locationChanged e => some e.«to»
  | actorDeath e => some e.zone
  | playerDeath e => e.zone
  | playerIncapacitated e => e.zone
  | _ => none

end StarStats
