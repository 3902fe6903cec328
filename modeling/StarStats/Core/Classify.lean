import StarStats.Core.Events
import StarStats.Core.LogLine
import StarStats.Lib.Regex

/-!
# Classifying a line (`starstats-core/src/parser.rs` `classify`, `classify_body_prefix`)

The event name of the shell selects an arm, most arms match one regular expression against the
body, and the event is made of its groups. The body alone is looked at for function calls that
the engine logs without a shell.

An arm starts with `let c = …_RE.captures(body)?;`, and the `?` returns from `classify`.
-/

namespace StarStats

open Events Regex
open Text (decimalValue)

/-! ## Numbers -/

/-- `str::parse` at an unsigned type with so many values. -/
def parseUnsigned (values : Nat) (s : String) : Option Nat :=
  let digits := match s.toList with
    | '+' :: cs => cs
    | cs => cs
  if digits ≠ [] ∧ digits.all Char.isDigit ∧ decimalValue digits < values then
    some (decimalValue digits)
  else none

/-- `str::parse` at `i64`. -/
def parseSigned (s : String) : Option Int64 :=
  match s.toList with
  | '-' :: digits =>
    if digits ≠ [] ∧ digits.all Char.isDigit ∧ decimalValue digits ≤ 2 ^ 63 then
      some (Int64.ofInt (-decimalValue digits))
    else none
  | _ => (parseUnsigned (2 ^ 63) s).map Int64.ofNat

/-! ## Texts -/

/-- `rsplit_once`: what stands before the last `sep`, and what stands behind it. -/
def rsplitOnce (sep : Char) (s : String) : Option (String × String) :=
  match s.toList.reverse.dropWhile (· ≠ sep) with
  | _ :: head =>
    some (String.ofList head.reverse,
      String.ofList (s.toList.reverse.takeWhile (· ≠ sep)).reverse)
  | [] => none

def absentGuid : String := "00000000-0000-0000-0000-000000000000"

/-- The class and the id of a vehicle in the name of its zone. -/
def vehicleOfZone (zone : String) : String × Option String :=
  match rsplitOnce '_' zone with
  | some (head, tail) =>
    if !head.isEmpty && tail.toList.all Char.isDigit then (head, some tail) else (zone, none)
  | none => (zone, none)

/-- The destination without a comma behind it. -/
def withoutComma (dest : String) : String :=
  if dest.toList.getLast? = some ',' then String.ofList dest.toList.dropLast else dest

def parseObjectiveState (s : String) : MissionObjectiveState :=
  match s with
  | "INPROGRESS" => .inProgress
  | "COMPLETED" => .completed
  | "FAILED" => .failed
  | "WITHDRAWN" => .withdrawn
  | _ => .unknown

/-! ## Patterns -/

def isMissionIdChar (c : Char) : Bool :=
  c.isDigit || ('a' ≤ c && c ≤ 'f') || ('A' ≤ c && c ≤ 'F') || c == '-'

/-- `outcome\[(?P<outcome>[A-Za-z]+)\]` behind any text on the line. -/
def missionOutcomeRe : Pattern :=
  .seq (.run (· != '\n') 0 false) (.field "outcome".toList "outcome" Char.isAlpha)

/-- `MISSION_END_RE` -/
def missionEndRe : Pattern :=
  .seq (.opt (.field "missionId".toList "id" isMissionIdChar)) (.opt missionOutcomeRe)

/-- The other expressions, as what they capture in a text, and `str::parse` at `f64`. -/
structure ClassifyEnv where
  processInitRe : String → Option Captures
  legacyLoginRe : String → Option Captures
  joinPuRe : String → Option Captures
  changeServerRe : String → Option Captures
  seedSsRe : String → Option Captures
  resolveSpawnRe : String → Option Captures
  actorEjectedRe : String → Option Captures
  actorDeathRe : String → Option Captures
  vehicleDestructionRe : String → Option Captures
  hudNotificationRe : String → Option Captures
  playerDeathRe : String → Option Captures
  locationInventoryRe : String → Option Captures
  shopBuyModernRe : String → Option Captures
  planetTerrainRe : String → Option Captures
  attachmentReceivedRe : String → Option Captures
  equipItemRe : String → Option Captures
  storeItemRe : String → Option Captures
  quantumTargetRe : String → Option Captures
  missionQtBeaconRe : String → Option Captures
  quantumArrivedRe : String → Option Captures
  calculateRouteRe : String → Option Captures
  missionPhaseRe : String → Option Captures
  objectiveUpsertedRe : String → Option Captures
  objectiveLabelRe : String → Option Captures
  vehicleStowedRe : String → Option Captures
  missionObjectiveRe : String → Option Captures
  shopBuyRe : String → Option Captures
  shopResponseRe : String → Option Captures
  commodityBuyRe : String → Option Captures
  commoditySellRe : String → Option Captures
  parseF64 : String → Option Fp

/-! ## Shells -/

/-- An arm of the `match` over the event names. -/
inductive ShellArm where
  /-- The expression that the body has to match, and what is made of the groups. -/
  | pattern (re : String → Option Captures) (event : Captures → Option GameEvent)
  | always (event : GameEvent)

namespace ClassifyEnv
variable (env : ClassifyEnv)

def hudEvent (ts : String) (c : Captures) : Option GameEvent := do
  let text := c.text "text"
  let id ← parseUnsigned (2 ^ 64) (c.text "id")
  if "Incapacitated:".toList.isPrefixOf text.toList then
    return .playerIncapacitated { timestamp := ts, queueId := id.toUInt64, zone := none }
  return .hudNotification
    { timestamp := ts
      text
      notificationId := id.toUInt64
      missionId := (c.name "mission").filter (· != absentGuid)
      objectiveId := ((c.name "objective").filter fun s => !(Text.trim s).isEmpty).filter
        (· != absentGuid) }

def quantumTargetEvent (ts event : String) (c : Captures) : GameEvent :=
  let destination := withoutComma (c.text "dest")
  let selected := event == "Player Selected Quantum Target - Local"
  match if selected then env.missionQtBeaconRe destination else none with
  | some m =>
    .missionQuantumDestinationSelected
      { timestamp := ts
        beaconId := m.text "beacon"
        isMissionDestination := true
        travelConfirmed := false }
  | none =>
    .quantumTargetSelected
      { timestamp := ts
        phase := if selected then .selected else .fuelRequested
        vehicleClass := c.text "vehicle"
        vehicleId := c.text "vid"
        destination }

def missionEndEvent (ts body : String) : GameEvent :=
  let c := missionEndRe.captures body
  .missionEnd
    { timestamp := ts
      missionId := c.bind (·.name "id")
      outcome := c.bind (·.name "outcome") }

/-- The arm of an event name. -/
def shellArm (line : LogLine) (event : String) : Option ShellArm :=
  let ts := line.timestamp
  match event with
  | "Init" =>
    if line.tags.contains "ProcessInit" then
      some (.pattern env.processInitRe fun c => some (.processInit
        { timestamp := ts
          localSession := Text.trim (c.text "local")
          envSession := Text.trim (c.text "env")
          online := c.text "online" == "1" }))
    else none
  | "Legacy login response" =>
    some (.pattern env.legacyLoginRe fun c => some (.legacyLogin
      { timestamp := ts
        handle := c.text "handle"
        serverTime := c.name "time" }))
  | "Join PU" =>
    some (.pattern env.joinPuRe fun c => do
      let port ← parseUnsigned (2 ^ 16) (c.text "port")
      return .joinPu
        { timestamp := ts
          address := c.text "address"
          port := port.toUInt16
          shard := c.text "shard"
          locationId := c.text "loc" })
  | "Change Server Start" | "Change Server End" =>
    some (.pattern env.changeServerRe fun c => some (.changeServer
      { timestamp := ts
        phase := if event = "Change Server Start" then .start else .«end»
        isShardPersisted := c.text "shard" == "1"
        isServer := c.text "server" == "1"
        isMultiplayer := c.text "mp" == "1"
        isOnline := (c.name "online").map (· == "1") }))
  | "Seed Solar System" | "Seed Solar System Success" =>
    some (.pattern env.seedSsRe fun c => some (.seedSolarSystem
      { timestamp := ts
        solarSystem := c.text "ss"
        shard := c.text "shard"
        success := event == "Seed Solar System Success" }))
  | "ResolveSpawnLocation Location Not Found" =>
    some (.pattern env.resolveSpawnRe fun c => some (.resolveSpawn
      { timestamp := ts
        playerGeid := c.text "geid"
        fallback := true }))
  | "[ActorState] Dead" =>
    some (.pattern env.actorEjectedRe fun c => some (.actorEjected
      { timestamp := ts
        actor := c.text "actor"
        actorGeid := c.name "ageid"
        vehicleClass := (vehicleOfZone (c.text "from")).1
        vehicleId := (vehicleOfZone (c.text "from")).2
        toZone := c.text "to" }))
  | "Actor Death" =>
    some (.pattern env.actorDeathRe fun c => some (.actorDeath
      { timestamp := ts
        victim := c.text "victim"
        victimGeid := c.name "vgeid"
        zone := c.text "zone"
        killer := c.text "killer"
        killerGeid := c.name "kgeid"
        weapon := c.text "weapon"
        damageType := c.text "dmg" }))
  | "Vehicle Destruction" =>
    some (.pattern env.vehicleDestructionRe fun c => do
      let level ← parseUnsigned (2 ^ 8) (c.text "level")
      return .vehicleDestruction
        { timestamp := ts
          vehicleClass := c.text "vclass"
          vehicleId := c.name "vid"
          destroyLevel := level.toUInt8
          causedBy := c.text "cause"
          zone := c.name "zone" })
  | "SHUDEvent_OnNotification" => some (.pattern env.hudNotificationRe (hudEvent ts))
  | "Adding non kept item [CSCActorCorpseUtils::PopulateItemPortForItemRecoveryEntitlement]" =>
    some (.pattern env.playerDeathRe fun c => some (.playerDeath
      { timestamp := ts
        bodyClass := c.text "body_class"
        bodyId := c.text "body_id"
        zone := none }))
  | "RequestLocationInventory" =>
    some (.pattern env.locationInventoryRe fun c => some (.locationInventoryRequested
      { timestamp := ts
        player := c.text "player"
        location := c.text "location" }))
  | "CEntityComponentShoppingProvider::SendStandardItemBuyRequest"
  | "CEntityComponentShopUIProvider::SendShopBuyRequest" =>
    some (.pattern env.shopBuyModernRe fun c => some (.shopBuyRequest
      { timestamp := ts
        shopId := c.name "shop"
        itemClass := c.name "item"
        quantity := none
        raw := Text.trim line.body
        price := (c.name "price").bind fun m =>
          parseSigned (String.ofList (m.toList.takeWhile (· ≠ '.')))
        shopName := c.name "shopname" }))
  | "InvalidateAllTerrainCells" =>
    some (.pattern env.planetTerrainRe fun c => some (.planetTerrainLoad
      { timestamp := ts
        planet := c.text "planet" }))
  | "AttachmentReceived" =>
    some (.pattern env.attachmentReceivedRe fun c => do
      let elapsed ← env.parseF64 (c.text "elapsed")
      return .attachmentReceived
        { timestamp := ts
          player := c.text "player"
          itemClass := c.text "class"
          itemId := c.text "id"
          status := c.text "status"
          port := c.text "port"
          elapsedSeconds := elapsed })
  | "EquipItem" =>
    some (.pattern env.equipItemRe fun c => some (.itemEquipChange
      { timestamp := ts
        action := .equip
        itemClass := c.text "class"
        port := some (c.text "port")
        itemsCount := none }))
  | "StoreItem" =>
    some (.pattern env.storeItemRe fun c => some (.itemEquipChange
      { timestamp := ts
        action := .store
        itemClass := c.text "class"
        port := none
        itemsCount := (parseUnsigned (2 ^ 32) (c.text "count")).map Nat.toUInt32 }))
  | "Player Selected Quantum Target - Local"
  | "Player Requested Fuel to Quantum Target - Server Routing" =>
    some (.pattern env.quantumTargetRe fun c => some (env.quantumTargetEvent ts event c))
  | "Quantum Drive Arrived - Arrived at Final Destination" =>
    some (.pattern env.quantumArrivedRe fun c => some (.quantumArrived
      { timestamp := ts
        vehicleClass := c.text "vehicle"
        vehicleId := c.text "vid" }))
  | "Calculate Route" =>
    some (.pattern env.calculateRouteRe fun c => some (.quantumRoute
      { timestamp := ts
        startSystem := c.text "start"
        destination := c.text "dest"
        vehicleClass := c.text "vehicle"
        vehicleId := c.text "vid" }))
  | "CLocalMissionPhaseMarker::CreateMarker" =>
    some (.pattern env.missionPhaseRe fun c => some (.missionStart
      { timestamp := ts
        missionId := c.text "id"
        markerKind := .phase
        missionName := (c.name "name").or (c.name "name2") }))
  | "EndMission" => some (.always (missionEndEvent ts line.body))
  | "SystemQuit" =>
    some (.always (.sessionEnd
      { timestamp := ts
        kind := .systemQuit }))
  | "ObjectiveUpserted" =>
    some (.pattern env.objectiveUpsertedRe fun c => some (.missionObjective
      { timestamp := ts
        objectiveId := c.text "obj"
        missionId := some (c.text "mission")
        state := some (parseObjectiveState (c.text "state"))
        text := none }))
  | "CMissionLogEntry::UpdateActiveObjective" =>
    some (.pattern env.objectiveLabelRe fun c => some (.missionObjective
      { timestamp := ts
        objectiveId := c.text "obj"
        missionId := none
        state := none
        text := some (c.text "text") }))
  | _ => none

/-- The value of the `match`; outside it, `none` where a `?` of the arm returns. -/
def shellMatch (line : LogLine) (event : String) : Option (Option GameEvent) :=
  match env.shellArm line event with
  | some (.pattern re event) => ((re line.body).bind event).map some
  | some (.always event) => some (some event)
  | none => some none

/-! ## Bodies -/

/-- The body has a buy request of a shop. -/
def isShopBuy (body : String) : Bool :=
  Text.contains body "BuyRequest" && (Text.contains body "SendShopBuyRequest" ||
    Text.contains body "SendStandardItemBuyRequest" ||
    Text.contains body "SendStandardShopBuyRequest")

def classifyBodyPrefix (ts body : String) : Option GameEvent :=
  if Text.contains body "[STOWING ON UNREGISTER]" then
    (env.vehicleStowedRe body).map fun c => .vehicleStowed
      { timestamp := ts
        vehicleId := c.text "vehicle_id"
        landingArea := c.text "area"
        landingAreaId := c.text "area_id"
        zoneHostId := if c.text "zone_host" = "0" then none else some (c.text "zone_host") }
  else if Text.contains body "CreateMissionObjectiveMarker" then
    (env.missionObjectiveRe body).map fun c => .missionStart
      { timestamp := ts
        missionId := c.text "id"
        markerKind := .objective
        missionName := none }
  else if isShopBuy body then
    let c := env.shopBuyRe body
    some (.shopBuyRequest
      { timestamp := ts
        shopId := c.bind (·.name "shop")
        itemClass := c.bind (·.name "item")
        quantity := ((c.bind (·.name "qty")).bind (parseUnsigned (2 ^ 32))).map Nat.toUInt32
        raw := Text.trim body
        price := none
        shopName := none })
  else if Text.contains body "ShopFlowResponse" then
    let c := env.shopResponseRe body
    some (.shopFlowResponse
      { timestamp := ts
        shopId := c.bind (·.name "shop")
        success := (c.bind (·.name "result")).map fun m => m == "Success" || m == "OK" || m == "ok"
        raw := Text.trim body })
  else if Text.contains body "SendCommodityBuyRequest" then
    let c := env.commodityBuyRe body
    some (.commodityBuyRequest
      { timestamp := ts
        commodity := c.bind (·.name "commodity")
        quantity := (c.bind (·.name "qty")).bind env.parseF64
        raw := Text.trim body })
  else if Text.contains body "SendCommoditySellRequest" then
    let c := env.commoditySellRe body
    some (.commoditySellRequest
      { timestamp := ts
        commodity := c.bind (·.name "commodity")
        quantity := (c.bind (·.name "qty")).bind env.parseF64
        raw := Text.trim body })
  else if Text.contains body "CCIGBroker::FastShutdown" then
    some (.sessionEnd
      { timestamp := ts
        kind := .fastShutdown })
  else none

def classify (line : LogLine) : Option GameEvent :=
  match line.eventName with
  | none => env.classifyBodyPrefix line.timestamp line.body
  | some event => do
    let shellMatch ← env.shellMatch line event
    shellMatch <|> env.classifyBodyPrefix line.timestamp line.body

end ClassifyEnv

end StarStats
