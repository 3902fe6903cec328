import Mathlib.Order.Basic
import StarStats.Client.Reparse

/-!
# The re-parse that is owed (`starstats-client/src/commands.rs` `maybe_auto_reparse`)

At its start the client compares the parser revision and the version of the rules with those of
`reparse_state`, re-parses what is stored when one of them is newer, and records them.
-/

namespace StarStats

/-- The row of `reparse_state`. -/
structure ReparseState where
  parserRevision : UInt32
  defVersion : Option UInt32
  deriving DecidableEq

inductive ReparseNeed where
  | upToDate
  | parserRevision («from» : Option UInt32) («to» : UInt32)
  | definitions («from» : Option UInt32) («to» : UInt32)
  | nothingToDo
  deriving DecidableEq

def decideReparse (stored : Option ReparseState) (currentRevision : UInt32)
    (currentDefVersion : Option UInt32) (storeHasEvents : Bool) : ReparseNeed :=
  if !storeHasEvents then .nothingToDo
  else
    match stored with
    | none => .parserRevision none currentRevision
    | some stored =>
      if stored.parserRevision < currentRevision then
        .parserRevision (some stored.parserRevision) currentRevision
      else
        match currentDefVersion with
        | some cur =>
          if stored.defVersion.all (· < cur) then .definitions stored.defVersion cur else .upToDate
        | none => .upToDate

/-- Whether it walks over what is stored. -/
def ReparseNeed.reparses : ReparseNeed → Bool
  | .parserRevision .. | .definitions .. => true
  | .upToDate | .nothingToDo => false

/-- What the client keeps from one start to the next. -/
structure TrayStore where
  stored : ReparseStore
  reparseState : Option ReparseState
  /-- The version of the rules in `parser_def_manifest`. -/
  manifestVersion : Option UInt32

/-- A start of the client, with the parser and the rules of its build, and its failing calls. -/
structure ClientStart where
  env : ReparseEnv
  parserRevision : UInt32
  readReparseStateFails : Bool
  readManifestVersionFails : Bool
  hasAnyEventsFails : Bool
  writeReparseStateFails : Bool
  fails : ReparseCall → Option String

namespace ClientStart
variable (start : ClientStart) (tray : TrayStore)

/-- The rules' version as `maybe_auto_reparse` reads it. -/
def defs : Option UInt32 :=
  if start.readManifestVersionFails then none else tray.manifestVersion

def need : ReparseNeed :=
  decideReparse (if start.readReparseStateFails then none else tray.reparseState)
    start.parserRevision (start.defs tray)
    (start.hasAnyEventsFails || !tray.stored.table.rows.isEmpty)

/-- `write_reparse_state`. -/
def writeReparseState : TrayStore :=
  if start.writeReparseStateFails then tray
  else { tray with reparseState := some ⟨start.parserRevision, start.defs tray⟩ }

def run : ReparseRun × Option String := start.env.runReparse start.fails tray.stored

/-- The store behind it and, of a re-parse that did not fail, the statistics. -/
def maybeAutoReparse : TrayStore × Option ReparseStats :=
  match start.need tray with
  | .upToDate => (tray, none)
  | .nothingToDo => (start.writeReparseState tray, none)
  | .parserRevision .. | .definitions .. =>
    let ran := start.run tray
    let tray := { tray with stored := ran.1.store }
    match ran.2 with
    | none => (start.writeReparseState tray, some ran.1.stats)
    | some _ => (tray, none)

end ClientStart

/-- What happens to the store over time. -/
inductive TrayStep where
  | start (start : ClientStart)
  /-- Lines are ingested, rows sent, purged or re-parsed by hand. -/
  | stored (stored : ReparseStore)
  /-- `write_parser_def_manifest`. -/
  | manifest (version : UInt32)

def TrayStore.step (tray : TrayStore) : TrayStep → TrayStore
  | .start start => (start.maybeAutoReparse tray).1
  | .stored stored => { tray with stored := stored }
  | .manifest version => { tray with manifestVersion := some version }

/-! ## What is owed -/

/-- Every phase has come to its end, and no storage call has failed on the way. -/
def ReparseRun.Completed (ran : ReparseRun × Option String) : Prop :=
  ran.2 = none ∧ ran.1.stats.error = none ∧ ran.1.warnings = []

instance (ran : ReparseRun × Option String) : Decidable (ReparseRun.Completed ran) :=
  inferInstanceAs (Decidable (_ ∧ _))

/-- There are events, and the parser or the rules are newer than those of the last re-parse. -/
def TrayStore.Owed (tray : TrayStore) (revision : UInt32) : Prop :=
  (decideReparse tray.reparseState revision tray.manifestVersion
    (!tray.stored.table.rows.isEmpty)).reparses = true

instance (tray : TrayStore) (revision : UInt32) : Decidable (tray.Owed revision) :=
  inferInstanceAs (Decidable (_ = _))

/-- Of the storage calls of the re-parse none but `recent_unknowns` fails, or the record of it
fails as well. -/
def ClientStart.OnlyUnknownsFail (start : ClientStart) : Prop :=
  (∀ call, start.fails call ≠ none → call = .recentUnknowns) ∨ start.writeReparseStateFails = true

/-- The rules are not older. -/
def NotOlder (prev cur : Option UInt32) : Prop :=
  ∀ p, prev = some p → ∃ c, cur = some c ∧ p ≤ c

/-- At every start that finds events, the record changes only behind a re-parse that has completed;
and where it has not and is owed, the next start re-parses, unless its parser or its rules are older
or there are no events any more. -/
def StaysOwed (steps : List TrayStep) (tray : TrayStore) : Prop :=
  ∀ before start after, steps = before ++ .start start :: after →
    let found := before.foldl TrayStore.step tray
    let left := found.step (.start start)
    found.stored.table.rows ≠ [] →
      (left.reparseState ≠ found.reparseState → ReparseRun.Completed (start.run found)) ∧
      (found.Owed start.parserRevision → ¬ ReparseRun.Completed (start.run found) →
        ∀ between next rest, after = between ++ .start next :: rest →
          (∀ other, .start other ∉ between) →
          let later := between.foldl TrayStore.step left
          start.parserRevision ≤ next.parserRevision →
          NotOlder found.manifestVersion later.manifestVersion →
          later.stored.table.rows ≠ [] → next.readManifestVersionFails = false →
          (next.need later).reparses = true)

end StarStats
