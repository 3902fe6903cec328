import Mathlib.Algebra.Ring.Int.Defs
import StarStats.Core.Inference

/-!
# Lives (`starstats-core/src/character_life.rs`)

A life opens with a session or behind a death or a crash, and is closed by the next death, crash or
gap between two events, or by the end of the stream. It lasts from the first active event within it
to the last. The counters wrap at `u32`, as in a release build.
-/

namespace StarStats

open Events

structure LifeConfig where
  sessionGapSecs : Int

def LifeConfig.default : LifeConfig := ⟨1800⟩

/-- The engine and the streaming cause it, not the player. -/
def isPassive : GameEvent → Bool
  | .planetTerrainLoad _ | .attachmentReceived _ | .seedSolarSystem _ | .burstSummary _
  | .hudNotification _ => true
  | _ => false

inductive LifeEnd where
  | death
  | crash
  | sessionGap
  | stillAlive
  deriving DecidableEq

structure Life where
  startTs : Option String
  endTs : Option String
  durationSecs : Option Int
  endedBy : LifeEnd
  incapCount : UInt32
  deathZone : Option String
  deathInferred : Bool
  deriving DecidableEq

structure OpenLife where
  startTs : Option String
  firstActive : Option Int
  lastActive : Option Int
  incapCount : UInt32
  deathZone : Option String
  deathInferred : Bool

namespace OpenLife

def new (startTs : Option String) : OpenLife := ⟨startTs, none, none, 0, none, false⟩

def markActive (life : OpenLife) (ts : Int) : OpenLife :=
  { life with firstActive := life.firstActive.or (some ts), lastActive := some ts }

/-- From the first active event to the last, where they are in this order. -/
def duration (life : OpenLife) : Option Int :=
  match life.firstActive, life.lastActive with
  | some a, some b => if a ≤ b then some (b - a) else none
  | _, _ => none

def endsARealLife : LifeEnd → Bool
  | .death | .crash => true
  | .sessionGap | .stillAlive => false

def close (life : OpenLife) (endedBy : LifeEnd) (endTs : Option String) : Option Life :=
  if life.firstActive.isNone && !endsARealLife endedBy then none
  else some
    { startTs := life.startTs
      endTs := endTs
      durationSecs := life.duration
      endedBy := endedBy
      incapCount := life.incapCount
      deathZone := life.deathZone
      deathInferred := life.deathInferred }

end OpenLife

/-! ## The fold -/

structure LifeFold where
  lives : List Life
  opened : Option OpenLife
  /-- The time of the last event that has one. -/
  lastTs : Option Int
  sessions : UInt32
  inSession : Bool

namespace LifeFold

def start : LifeFold := ⟨[], none, none, 0, false⟩

/-- The open life ends, if there is one. -/
def flush (st : LifeFold) (endedBy : LifeEnd) : LifeFold :=
  { st with
    lives := st.lives ++ (st.opened.bind (·.close endedBy none)).toList
    opened := none }

/-- A death or a crash: the life it closes is the open one or a new one, and the next one opens. -/
def dies (st : LifeFold) (endedBy : LifeEnd) (ts : String) (mark : OpenLife → OpenLife) :
    LifeFold :=
  let life := mark (st.opened.getD (.new none))
  { st with
    lives := st.lives ++ (life.close endedBy (some ts)).toList
    opened := some (.new (some ts)) }

section
variable (parseTs : String → Option Int) (cfg : LifeConfig)

/-- `ts` is too far behind the last time. -/
def gapBefore (st : LifeFold) (ts : Option Int) : Bool :=
  match ts, st.lastTs with
  | some cur, some prev => cfg.sessionGapSecs < cur - prev
  | _, _ => false

/-- A gap ends the open life and the session. -/
def afterGap (st : LifeFold) (ts : Option Int) : LifeFold :=
  if st.gapBefore cfg ts then { st.flush .sessionGap with inSession := false } else st

/-- The first event of a session opens it and its first life. -/
def enter (st : LifeFold) (ts : String) : LifeFold :=
  if st.inSession then st
  else
    { st with
      sessions := st.sessions + 1
      inSession := true
      opened := some (.new (some ts)) }

def session (st : LifeFold) (ev : GameEvent) : LifeFold :=
  let ts := epochSecs parseTs ev.timestamp
  { (st.afterGap cfg ts).enter ev.timestamp with lastTs := ts.or st.lastTs }

/-- The event is within the open life. -/
def active (st : LifeFold) (ev : GameEvent) : LifeFold :=
  match epochSecs parseTs ev.timestamp with
  | some t => if isPassive ev then st else { st with opened := st.opened.map (·.markActive t) }
  | none => st

def onEvent (st : LifeFold) (ev : GameEvent) : LifeFold :=
  let st := (st.session parseTs cfg ev).active parseTs ev
  match ev with
  | .playerIncapacitated _ =>
    { st with
      opened := st.opened.map fun life => { life with incapCount := life.incapCount + 1 } }
  | .playerDeath d =>
    st.dies .death d.timestamp fun life =>
      { life with deathZone := d.zone, deathInferred := d.bodyClass == "inferred" }
  | .gameCrash c => st.dies .crash c.timestamp id
  | _ => st

end

end LifeFold

structure LifeSummary where
  lives : List Life
  totalLives : UInt32
  deaths : UInt32
  deathsInferred : UInt32
  meanLifeSecs : Option Int
  longestLifeSecs : Option Int
  sessions : UInt32
  livesEndedByCrash : UInt32

def LifeFold.summary (st : LifeFold) : LifeSummary :=
  let durs := st.lives.filterMap (·.durationSecs)
  { lives := st.lives
    totalLives := st.lives.length.toUInt32
    deaths := (st.lives.countP (·.endedBy = .death)).toUInt32
    deathsInferred := (st.lives.countP fun l => l.endedBy = .death && l.deathInferred).toUInt32
    meanLifeSecs := if durs.isEmpty then none else some (durs.sum.tdiv durs.length)
    longestLifeSecs := durs.max?
    sessions := st.sessions
    livesEndedByCrash := (st.lives.countP (·.endedBy = .crash)).toUInt32 }

def deriveLives (parseTs : String → Option Int) (cfg : LifeConfig) (events : List EventEnvelope) :
    LifeSummary :=
  (((classified events).foldl (LifeFold.onEvent parseTs cfg) .start).flush
    .stillAlive).summary

/-! ## What is counted -/

def isDeath : GameEvent → Bool
  | .playerDeath _ => true
  | _ => false

def isInferredDeath : GameEvent → Bool
  | .playerDeath d => d.bodyClass == "inferred"
  | _ => false

def isCrash : GameEvent → Bool
  | .gameCrash _ => true
  | _ => false

/-- What lies between one time and the next. -/
def gapsOf (times : List Int) : List Int := List.zipWith (fun a b => b - a) times times.tail

/-- The gaps of a stream that are within a session. -/
def sessionSecs (parseTs : String → Option Int) (cfg : LifeConfig) (events : List EventEnvelope) :
    Int :=
  ((gapsOf ((classified events).filterMap (epochSecs parseTs ·.timestamp))).filter
    (· ≤ cfg.sessionGapSecs)).sum

end StarStats
