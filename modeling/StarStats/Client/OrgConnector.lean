import StarStats.Client.ReparseAgain
import StarStats.Client.Search
import StarStats.Lib.Trans

/-!
# The org connector (`starstats-client/src/org_connector.rs`)

A connector that is switched on seeds its cursor with the newest stored event, and each pass
forwards the rows with larger ids, up to `batch` of them, that carry telemetry. The cursor is
written at the end of a pass; the first send that fails ends the pass before. The storage answers
every call. `ForwardsLater` says what the connector is for, `SeedIsLast` when its seed serves it.
-/

namespace StarStats

namespace EventsTable

/-- `recent_events`. -/
def recentEvents (t : EventsTable) (limit : Nat) : List RecentEventRow :=
  ((SearchEnv.searchOrder t.rows).take limit).map SearchEnv.recentEventRow

/-- `read_events_after`. -/
def readEventsAfter (t : EventsTable) (afterId : Int) (limit : Nat) : List RecentEventRow :=
  (((t.rows.filter (afterId < ·.id)).insertionSort fun a b => a.id ≤ b.id).take limit).map
    SearchEnv.recentEventRow

end EventsTable

def orgBatch : Nat := 256

structure Telemetry where
  zone : Option String
  quantumState : Option String
  event : Option String
  deriving DecidableEq

def Telemetry.default : Telemetry := ⟨none, none, none⟩

def Events.QuantumTargetPhase.telemetryState : Events.QuantumTargetPhase → String
  | .selected => "travelling"
  | .fuelRequested => "routing"

/-- `telemetry_for`, where `zone` names a location by the catalogue of the moment. -/
def telemetryFor (zone : String → String) (event : GameEvent) : Option Telemetry :=
  let telemetry : Option Telemetry :=
    match event with
    | .locationChanged e => some { Telemetry.default with zone := some (zone e.«to») }
    | .locationInventoryRequested e =>
      some { Telemetry.default with zone := some (zone e.location) }
    | .planetTerrainLoad e => some { Telemetry.default with zone := some (zone e.planet) }
    | .vehicleStowed e => some { Telemetry.default with zone := some (zone e.landingArea) }
    | .quantumTargetSelected e =>
      some { Telemetry.default with quantumState := some e.phase.telemetryState }
    | .playerDeath e =>
      some { Telemetry.default with zone := e.zone.map zone, event := some "death" }
    | .actorDeath e =>
      some { Telemetry.default with zone := some (zone e.zone), event := some "death" }
    | .playerIncapacitated e =>
      some { Telemetry.default with zone := e.zone.map zone, event := some "downed" }
    | .resolveSpawn _ => some { Telemetry.default with event := some "spawn" }
    | .seedSolarSystem e =>
      if e.success then
        some { Telemetry.default with zone := some (zone e.solarSystem), event := some "spawn" }
      else none
    | _ => none
  telemetry.filter (· ≠ Telemetry.default)

/-! ## The connector -/

/-- What the connector takes from elsewhere. -/
structure OrgEnv extends IngestEnv where
  /-- `serde_json::from_str`. -/
  fromJson : String → Option GameEvent

/-- A pass: what it found, what it sent, and whether it got to its end. -/
structure OrgPass where
  table : EventsTable
  cursor : Int
  sent : List (Int × Telemetry)
  completed : Bool

def OrgPass.ids (p : OrgPass) : List Int := p.sent.map (·.1)

/-- The store with the cursor in it (0 is unset), the rows that were there when the connector was
first enabled, and its passes. -/
structure OrgConnector where
  table : EventsTable
  cursor : Int
  storedBefore : Option (List LocalRow)
  passes : List OrgPass

namespace OrgConnector

/-- `seed_cursor_if_unset`. -/
def seedCursorIfUnset (c : OrgConnector) : OrgConnector :=
  if c.cursor ≠ 0 then c
  else
    let latest := ((c.table.recentEvents 1).head?.map (·.id)).getD 0
    if latest > 0 then { c with cursor := latest } else c

/-- `run_loop` begins. -/
def enable (c : OrgConnector) : OrgConnector :=
  { c.seedCursorIfUnset with storedBefore := c.storedBefore.or (some c.table.rows) }

end OrgConnector

/-- The sends of a pass: after how many the next one fails. -/
abbrev SendFailure := Option Nat

inductive OrgStep where
  | enable
  | insert (row : EventsRow)
  | pass (zone : String → String) (failing : SendFailure)

namespace OrgEnv
variable (env : OrgEnv)

/-- The loop of `forward_new_events`: what is sent, and `max_id` where no send fails. -/
def forwardRows (zone : String → String) :
    SendFailure → Int → List RecentEventRow → List (Int × Telemetry) × Option Int
  | _, maxId, [] => ([], some maxId)
  | failing, maxId, row :: rows =>
    let maxId := max maxId row.id
    match (env.fromJson row.payloadJson).bind (telemetryFor zone) with
    | none => forwardRows zone failing maxId rows
    | some telemetry =>
      match failing with
      | some 0 => ([], none)
      | failing =>
        let rest := forwardRows zone (failing.map (· - 1)) maxId rows
        ((row.id, telemetry) :: rest.1, rest.2)

/-- `forward_new_events`. -/
def forwardNewEvents (zone : String → String) (failing : SendFailure) (c : OrgConnector) :
    OrgConnector :=
  let rows := c.table.readEventsAfter c.cursor orgBatch
  if rows.isEmpty then { c with passes := c.passes ++ [⟨c.table, c.cursor, [], true⟩] }
  else
    let sends := env.forwardRows zone failing c.cursor rows
    { c with
      cursor := sends.2.getD c.cursor
      passes := c.passes ++ [⟨c.table, c.cursor, sends.1, sends.2.isSome⟩] }

/-- A connector that was never enabled makes no pass. -/
def orgStep (c : OrgConnector) : OrgStep → Option OrgConnector
  | .enable => some c.enable
  | .insert row => some { c with table := (c.table.insertEvent env.toIngestEnv row).1 }
  | .pass zone failing =>
    if c.storedBefore.isSome then some (env.forwardNewEvents zone failing c) else none

/-- The connector is enabled for the first time, on a table with these events. -/
def firstEnabled (events : List EventsRow) : OrgConnector :=
  OrgConnector.enable ⟨.ofEvents env.toIngestEnv events, 0, none, []⟩

/-! ## What is to be forwarded -/

/-- The row has telemetry, whatever the catalogue. -/
def bearing (row : LocalRow) : Bool :=
  ((env.fromJson row.payload).bind (telemetryFor id)).isSome

/-- What is sent for the first time has a larger id than all that was sent before. -/
def FirstSentInOrder (sends : List Int) : Prop :=
  ∀ before id behind, sends = before ++ id :: behind → id ∉ before → ∀ k ∈ before, k < id

structure ForwardsLater (c : OrgConnector) : Prop where
  /-- No row that was stored before is sent. -/
  later : ∀ rows ∈ c.storedBefore, ∀ p ∈ c.passes, ∀ row ∈ rows, row.id ∉ p.ids
  /-- A pass that completes has sent the rows with telemetry that are among the first past its
  cursor. -/
  complete : ∀ p ∈ c.passes, p.completed = true → ∀ row ∈ p.table.rows, env.bearing row = true →
    p.cursor < row.id →
    (p.table.rows.filter fun r => p.cursor < r.id ∧ r.id < row.id).length < orgBatch →
    row.id ∈ p.ids
  /-- Each pass sends in the order of the ids. -/
  inOrder : ∀ p ∈ c.passes, p.ids.Pairwise (· < ·)
  firstInOrder : FirstSentInOrder (c.passes.flatMap (·.ids))
  /-- What is sent again was not sent by a pass that completed. -/
  again : c.passes.Pairwise fun p q => ∀ id ∈ p.ids, id ∈ q.ids → p.completed = false

/-- No row with telemetry has a larger id than the newest row. -/
def SeedIsLast (t : EventsTable) : Prop :=
  ∀ newest ∈ t.rows,
    (∀ r ∈ t.rows, r.timestamp < newest.timestamp ∨
      (r.timestamp = newest.timestamp ∧ r.id ≤ newest.id)) →
    ∀ row ∈ t.rows, env.bearing row = true → row.id ≤ newest.id

end OrgEnv

end StarStats
