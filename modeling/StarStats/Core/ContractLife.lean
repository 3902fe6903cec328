import Mathlib.Data.List.Sort
import Mathlib.Data.String.Basic
import StarStats.Core.Inference
import StarStats.Lib.Keyed
import StarStats.Lib.Text

/-!
# Contract runs (`starstats-core/src/contract_life.rs`)

A contract is accepted, gets its steps and is closed by banners that name its mission, or is closed
with all other open ones by the end of the session, a crash, another shard or a gap between two
events. The open runs are the values of a `HashMap`, drained in an order of its own (`DrainOrder`).
-/

namespace StarStats

open Events

inductive ContractState where
  | inProgress
  | completed
  | failed
  | withdrawn
  | abandoned
  | unknown
  | superseded
  deriving DecidableEq

inductive ClosedBy where
  | hudComplete
  | hudFailed
  | hudWithdrawn
  | sessionEnd
  | gameCrash
  | sessionGap
  | shardChange
  | superseded
  | none
  deriving DecidableEq

inductive StepState where
  | inProgress
  | complete
  | withdrawn
  | failed
  deriving DecidableEq

structure ContractStep where
  objectiveId : Option String
  order : UInt32
  text : Option String
  state : StepState
  startedAt : Option String
  completedAt : Option String
  deriving DecidableEq

structure ContractRun where
  missionId : String
  name : String
  state : ContractState
  closedBy : ClosedBy
  accepted : Bool
  inProgress : Bool
  stepCount : UInt32
  stepsComplete : UInt32
  stepsRemaining : UInt32
  partialHistory : Bool
  connectedServer : Option String
  acceptedAt : Option String
  closedAt : Option String
  lastEventAt : Option String
  steps : List ContractStep
  deriving DecidableEq

structure ContractConfig where
  sessionGapSecs : Int

def ContractConfig.default : ContractConfig := ⟨1800⟩

/-! ## Banners -/

inductive ContractVerb where
  | accepted
  | complete
  | failed
  | withdrawn
  deriving DecidableEq

inductive StepVerb where
  | new
  | complete
  | withdrawn
  deriving DecidableEq

/-- The name behind a verb, without white space and colons at its end. -/
def bannerName (rest : List Char) : String :=
  let trimmed := (Text.trim (String.ofList rest)).toList
  Text.trim (String.ofList (trimmed.reverse.dropWhile (· == ':')).reverse)

/-- The first verb that the text starts with, and what follows it. -/
def bannerVerb {α : Type} (verbs : List (String × α)) (text : String) : Option (α × String) :=
  verbs.findSome? fun (start, verb) =>
    if start.toList.isPrefixOf text.toList then
      some (verb, bannerName (text.toList.drop start.length))
    else none

def contractVerb : String → Option (ContractVerb × String) :=
  bannerVerb [("Contract Accepted:", .accepted), ("Contract Complete:", .complete),
    ("Contract Failed:", .failed), ("Contract Withdrawn:", .withdrawn)]

def terminalOutcome : ContractVerb → Option (ContractState × ClosedBy)
  | .complete => some (.completed, .hudComplete)
  | .failed => some (.failed, .hudFailed)
  | .withdrawn => some (.withdrawn, .hudWithdrawn)
  | .accepted => none

def stepVerb : String → Option (StepVerb × String) :=
  bannerVerb [("New Objective:", .new), ("Objective Complete:", .complete),
    ("Objective Withdrawn:", .withdrawn)]

def zeroGuid : String := "00000000-0000-0000-0000-000000000000"

/-- A banner of `bannerVerb`'s verbs as a run sees it. -/
inductive MissionBanner where
  | contract (verb : ContractVerb) (name : String)
  | step (verb : StepVerb) (objectiveId text : String)

/-- What a notification says about the run of its mission. -/
def missionBanner (hud : HudNotification) : Option MissionBanner :=
  match contractVerb hud.text with
  | some (verb, name) => some (.contract verb name)
  | none => do
    let (verb, text) ← stepVerb hud.text
    let objectiveId ← hud.objectiveId
    return .step verb objectiveId text

/-! ## A run -/

/-- `u32::saturating_sub`. -/
def saturatingSub (a b : UInt32) : UInt32 := if b ≤ a then a - b else 0

namespace ContractRun

def closeRun (run : ContractRun) (state : ContractState) (closedBy : ClosedBy)
    (closedAt : Option String) : ContractRun :=
  let stepCount := run.steps.length.toUInt32
  let stepsComplete := (run.steps.countP (·.state = .complete)).toUInt32
  { run with
    state := state
    closedBy := closedBy
    inProgress := state = .inProgress
    closedAt := closedAt.or run.closedAt
    lastEventAt := closedAt.or run.lastEventAt
    stepCount := stepCount
    stepsComplete := stepsComplete
    stepsRemaining := saturatingSub stepCount stepsComplete }

/-- The run of an accepted contract. -/
def accept (missionId name : String) (ts connectedServer : Option String) : ContractRun where
  missionId := missionId
  name := name
  state := .inProgress
  closedBy := .none
  accepted := true
  inProgress := true
  stepCount := 0
  stepsComplete := 0
  stepsRemaining := 0
  partialHistory := false
  connectedServer := connectedServer
  acceptedAt := ts
  closedAt := none
  lastEventAt := ts
  steps := []

/-- The first step of an objective, changed. -/
def changeStep (objectiveId : String) (f : ContractStep → ContractStep) :
    List ContractStep → Option (List ContractStep)
  | [] => none
  | step :: steps =>
    if step.objectiveId = some objectiveId then some (f step :: steps)
    else (changeStep objectiveId f steps).map (step :: ·)

def upsertStep (run : ContractRun) (objectiveId text : String) (startedAt : Option String) :
    ContractRun :=
  match changeStep objectiveId (fun step => { step with text := some text }) run.steps with
  | some steps => { run with steps := steps }
  | none =>
    { run with
      steps := run.steps ++
        [⟨some objectiveId, run.steps.length.toUInt32, some text, .inProgress, startedAt, none⟩] }

/-- The step of an objective has got this final state. -/
def resolveStep (state : StepState) (run : ContractRun) (objectiveId text : String)
    (completedAt : Option String) : ContractRun :=
  match changeStep objectiveId
    (fun step => { step with state := state, completedAt := completedAt }) run.steps with
  | some steps => { run with steps := steps }
  | none =>
    { run with
      steps := run.steps ++
        [⟨some objectiveId, run.steps.length.toUInt32, some text, state, none, completedAt⟩]
      partialHistory := true }

def completeStep : ContractRun → String → String → Option String → ContractRun :=
  resolveStep .complete

def withdrawStep : ContractRun → String → String → Option String → ContractRun :=
  resolveStep .withdrawn

/-- A step banner on the open run of its mission. -/
def onStep (run : ContractRun) (verb : StepVerb) (objectiveId text : String)
    (ts : Option String) : ContractRun :=
  let stepped := match verb with
    | .new => run.upsertStep objectiveId text ts
    | .complete => run.completeStep objectiveId text ts
    | .withdrawn => run.withdrawStep objectiveId text ts
  { stepped with lastEventAt := ts }

theorem missionId_resolveStep (state : StepState) (run : ContractRun) (objectiveId text : String)
    (ts : Option String) :
    (resolveStep state run objectiveId text ts).missionId = run.missionId := by
  unfold resolveStep
  split <;> rfl

theorem missionId_onStep (run : ContractRun) (verb : StepVerb) (objectiveId text : String)
    (ts : Option String) : (run.onStep verb objectiveId text ts).missionId = run.missionId := by
  cases verb with
  | new =>
    show (run.upsertStep objectiveId text ts).missionId = run.missionId
    unfold upsertStep
    split <;> rfl
  | complete => exact missionId_resolveStep ..
  | withdrawn => exact missionId_resolveStep ..

end ContractRun

/-! ## The fold -/

abbrev OpenRuns := Keyed ContractRun.missionId

/-- In which order a `HashMap` gives its values when it is drained at the `n`-th event. -/
structure DrainOrder where
  order : Nat → List ContractRun → List ContractRun
  perm : ∀ n runs, (order n runs).Perm runs

structure ContractFold where
  runs : List ContractRun
  opened : OpenRuns
  /-- The time of the last event that has one, in seconds. -/
  lastTs : Option Int
  lastTsStr : Option String
  currentShard : Option String

namespace ContractFold

def start : ContractFold := ⟨[], .empty, none, none, none⟩

def closeAll (order : List ContractRun → List ContractRun) (st : ContractFold)
    (state : ContractState) (closedBy : ClosedBy) (closedAt : Option String) : ContractFold :=
  { st with
    runs := st.runs ++ (order st.opened.rows).map (·.closeRun state closedBy closedAt)
    opened := .empty }

/-- The open run of a mission is closed, if there is one. -/
def closeOne (st : ContractFold) (missionId : String) (state : ContractState)
    (closedBy : ClosedBy) (closedAt : Option String) : ContractFold :=
  { st with
    runs := st.runs ++ ((st.opened.get missionId).map (·.closeRun state closedBy closedAt)).toList
    opened := st.opened.filter (·.missionId ≠ missionId) }

/-- `handle_hud`, past its guards. -/
def onBanner (st : ContractFold) (missionId : String) (ts : Option String) :
    MissionBanner → ContractFold
  | .contract verb name =>
    match terminalOutcome verb with
    | some (state, closedBy) => st.closeOne missionId state closedBy ts
    | none =>
      let st := st.closeOne missionId .superseded .superseded ts
      { st with opened := st.opened.insertNew (.accept missionId name ts st.currentShard) }
  | .step verb objectiveId text =>
    { st with
      opened := st.opened.modify missionId (·.onStep verb objectiveId text ts)
        fun run => run.missionId_onStep verb objectiveId text ts }

def handleHud (st : ContractFold) (hud : HudNotification) (ts : Option String) : ContractFold :=
  match hud.missionId with
  | none => st
  | some missionId =>
    if missionId = zeroGuid then st
    else match missionBanner hud with
      | some banner => st.onBanner missionId ts banner
      | none => st

section
variable (parseTs : String → Option Int) (cfg : ContractConfig)

/-- The event is too far behind the last one that has a time. -/
def gapBefore (lastTs : Option Int) (ev : GameEvent) : Bool :=
  match epochSecs parseTs ev.timestamp, lastTs with
  | some cur, some prev => cfg.sessionGapSecs < cur - prev
  | _, _ => false

/-- Another shard than the one in effect is joined. -/
def shardChanges (currentShard : Option String) (join : JoinPu) : Bool :=
  currentShard.any (· ≠ join.shard)

variable (order : List ContractRun → List ContractRun)

def afterGap (st : ContractFold) (ev : GameEvent) : ContractFold :=
  if gapBefore parseTs cfg st.lastTs ev then
    st.closeAll order .abandoned .sessionGap st.lastTsStr
  else st

def onJoin (st : ContractFold) (join : JoinPu) (ts : Option String) : ContractFold :=
  let st := if shardChanges st.currentShard join then
      st.closeAll order .abandoned .shardChange ts
    else st
  { st with currentShard := some join.shard }

/-- What an event does to the runs, at its own time. -/
def react (st : ContractFold) (ev : GameEvent) : ContractFold :=
  let ts := some ev.timestamp
  match ev with
  | .joinPu join => st.onJoin order join ts
  | .sessionEnd _ => st.closeAll order .abandoned .sessionEnd ts
  | .gameCrash _ => st.closeAll order .abandoned .gameCrash ts
  | .hudNotification hud => st.handleHud hud ts
  | _ => st

def onEvent (st : ContractFold) (ev : GameEvent) : ContractFold :=
  { (st.afterGap parseTs cfg order ev).react order ev with
    lastTs := (epochSecs parseTs ev.timestamp).or st.lastTs
    lastTsStr := some ev.timestamp }

/-- The state a run is left in that is open at the end. -/
def finalState (lastTs : Option Int) (run : ContractRun) : ContractState :=
  match run.lastEventAt.bind (epochSecs parseTs), lastTs with
  | some runTs, some finalTs =>
    if finalTs - runTs ≤ cfg.sessionGapSecs then .inProgress else .unknown
  | _, _ => .unknown

def finish (st : ContractFold) : List ContractRun :=
  st.runs ++ (order st.opened.rows).map fun run =>
    run.closeRun (finalState parseTs cfg st.lastTs run) .none none

end

end ContractFold

/-- `(accepted_at, mission_id)` of one run is not behind that of the other. -/
def ContractRun.notBehind (a b : ContractRun) : Bool :=
  match a.acceptedAt, b.acceptedAt with
  | none, none => a.missionId ≤ b.missionId
  | none, some _ => true
  | some _, none => false
  | some s, some t => s < t || (s == t && a.missionId ≤ b.missionId)

section
variable (parseTs : String → Option Int) (cfg : ContractConfig) (drain : DrainOrder)

/-- The fold over the events from the `n`-th one on. -/
def contractFold (n : Nat) (st : ContractFold) : List EventEnvelope → ContractFold
  | [] => st
  | env :: rest =>
    match env.event with
    | none => contractFold (n + 1) st rest
    | some ev => contractFold (n + 1) (st.onEvent parseTs cfg (drain.order n) ev) rest

def deriveContractRuns (events : List EventEnvelope) : List ContractRun :=
  ((contractFold parseTs cfg drain 0 .start events).finish parseTs cfg
    (drain.order events.length)).insertionSort (·.notBehind ·)

end

/-! ## What a run is -/

/-- The states a run can be reported in, and what each is closed by. -/
def consistentOutcomes : List (ContractState × ClosedBy) :=
  [(.completed, .hudComplete), (.failed, .hudFailed), (.withdrawn, .hudWithdrawn),
    (.abandoned, .sessionEnd), (.abandoned, .gameCrash), (.abandoned, .sessionGap),
    (.abandoned, .shardChange), (.superseded, .superseded), (.inProgress, .none), (.unknown, .none)]

/-- The steps of a run are well formed. -/
structure ContractRun.StepsOk (run : ContractRun) : Prop where
  order : run.steps.map (·.order) = (List.range run.steps.length).map (·.toUInt32)
  distinct : (run.steps.map (·.objectiveId)).Nodup

/-- A run as it is reported. The counters are as wide as in the source; up to their width nothing
is cut off of a difference. -/
structure ContractRun.Ok (run : ContractRun) : Prop extends run.StepsOk where
  count : run.stepCount = run.steps.length.toUInt32
  complete : run.stepsComplete = (run.steps.countP (·.state = .complete)).toUInt32
  remaining : run.steps.length < UInt32.size →
    run.stepsRemaining.toNat + run.stepsComplete.toNat = run.stepCount.toNat
  closed : run.closedAt.isSome = true ↔ run.closedBy ≠ .none
  outcome : (run.state, run.closedBy) ∈ consistentOutcomes
  inProgress : run.inProgress = true ↔ run.state = .inProgress

/-- What a run has from its accept banner. -/
def ContractRun.acceptance (run : ContractRun) : String × String × Option String :=
  (run.missionId, run.name, run.acceptedAt)

/-- What an accept banner with a mission says. -/
def acceptBanner : GameEvent → Option (String × String × Option String)
  | .hudNotification hud => do
    let missionId ← hud.missionId.filter (· ≠ zeroGuid)
    let (verb, name) ← contractVerb hud.text
    if verb = .accepted then some (missionId, name, some hud.timestamp) else none
  | _ => none

/-! ## What the stream says of a contract -/

/-- The time and the shard that the events so far have left. -/
structure StreamPast where
  lastTs : Option Int
  shard : Option String

/-- The verb and the objective of a step banner of the mission. -/
def stepBanner (missionId : String) : GameEvent → Option (StepVerb × String)
  | .hudNotification hud =>
    if hud.missionId = some missionId then
      match missionBanner hud with
      | some (.step verb objectiveId _) => some (verb, objectiveId)
      | _ => none
    else none
  | _ => none

section
variable (parseTs : String → Option Int) (cfg : ContractConfig)

def StreamPast.after (past : StreamPast) (ev : GameEvent) : StreamPast where
  lastTs := (epochSecs parseTs ev.timestamp).or past.lastTs
  shard := match ev with
    | .joinPu join => some join.shard
    | _ => past.shard

/-- The event itself ends every contract, or that of the mission. -/
def endsContract (shard : Option String) (missionId : String) : GameEvent → Bool
  | .joinPu join => ContractFold.shardChanges shard join
  | .sessionEnd _ | .gameCrash _ => true
  | .hudNotification hud => hud.missionId = some missionId && (contractVerb hud.text).isSome
  | _ => false

/-- The step banners of the mission, until an event or a gap before it ends the contract. -/
def bannersAhead (missionId : String) (past : StreamPast) :
    List GameEvent → List (StepVerb × String)
  | [] => []
  | ev :: rest =>
    if ContractFold.gapBefore parseTs cfg past.lastTs ev ||
        endsContract past.shard missionId ev then []
    else (stepBanner missionId ev).toList ++ bannersAhead missionId (past.after parseTs ev) rest

/-- A contract in the stream: its accept banner, and its step banners until it ends. -/
structure ContractLife where
  acceptance : String × String × Option String
  banners : List (StepVerb × String)

def contractLives (past : StreamPast) : List GameEvent → List ContractLife
  | [] => []
  | ev :: rest =>
    let past' := past.after parseTs ev
    ((acceptBanner ev).toList.map fun acceptance =>
      ⟨acceptance, bannersAhead parseTs cfg acceptance.1 past' rest⟩) ++ contractLives past' rest

end

/-- The objectives of the banners, each where it first appears. -/
def objectives (banners : List (StepVerb × String)) : List String :=
  (banners.map (·.2)).reverse.dedup.reverse

/-- Some objective first appears already resolved. -/
def firstResolved (banners : List (StepVerb × String)) : Bool :=
  banners.any fun banner => (banners.find? (·.2 = banner.2)).any (·.1 ≠ .new)

/-- The acceptance of a contract, its objectives, and whether its history is known in part. -/
abbrev ContractView := (String × String × Option String) × List (Option String) × Bool

def ContractRun.view (run : ContractRun) : ContractView :=
  (run.acceptance, run.steps.map (·.objectiveId), run.partialHistory)

def ContractLife.view (life : ContractLife) : ContractView :=
  (life.acceptance, (objectives life.banners).map some, firstResolved life.banners)

/-- The same event, or two banners of one time neither of which names the mission. -/
def SameFor (missionId : String) (env env' : EventEnvelope) : Prop :=
  env.event = env'.event ∨ ∃ hud hud', env.event = some (.hudNotification hud) ∧
    env'.event = some (.hudNotification hud') ∧ hud.timestamp = hud'.timestamp ∧
    hud.missionId ≠ some missionId ∧ hud'.missionId ≠ some missionId

end StarStats
