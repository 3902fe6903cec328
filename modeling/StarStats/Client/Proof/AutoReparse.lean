import StarStats.Client.AutoReparse

/-!
# A re-parse stays owed until it succeeds

`reparse_owed`: over the starts of the client, where of the calls of a re-parse only
`recent_unknowns` may fail, `reparse_state` changes only behind a re-parse that has completed, and
after one that has not the next start re-parses. The other failures are lost: `reparse_not_owed` is
one of them.
-/

namespace StarStats

/-! ## A re-parse without failures -/

/-- Nothing has failed so far. -/
def ReparseRun.Quiet (run : ReparseRun) : Prop := run.stats.error = none ∧ run.warnings = []

namespace ReparseEnv

variable {env : ReparseEnv} {fails : ReparseCall → Option String}

section
variable (hfails : ∀ call, fails call ≠ none → call = .recentUnknowns)
include hfails

/-- The calls that do not fail. -/
theorem fails_eq_none (call : ReparseCall) (h : call ≠ .recentUnknowns) : fails call = none := by
  by_contra hne
  exact h (hfails call hne)

theorem storeReading_quiet {run : ReparseRun} (hrun : run.Quiet) (row : LocalRow)
    (c : EventsTable.Classification) (metadata : Option String) :
    ∃ run', storeReading fails run row c metadata = .ok run' ∧ run'.Quiet := by
  have hnone := fails_eq_none hfails (.updateEventClassification row.id) (by simp)
  unfold storeReading
  split
  · rw [hnone]
    exact ⟨_, rfl, hrun⟩
  · exact ⟨run, rfl, hrun⟩

theorem reparseRow_quiet (env : ReparseEnv) {run : ReparseRun} (hrun : run.Quiet) (tracker : ZoneTracker)
    (row : LocalRow) :
    ∃ run', (env.reparseRow fails tracker run row).2 = .ok run' ∧ run'.Quiet := by
  unfold reparseRow
  split
  · exact ⟨run, rfl, hrun⟩
  · split
    · exact ⟨_, rfl, hrun⟩
    · exact storeReading_quiet hfails hrun row _ _

theorem walkEvents_quiet (env : ReparseEnv) {run : ReparseRun} (hrun : run.Quiet) (tracker : ZoneTracker)
    (after : Int) (left : Nat) (rows : List LocalRow) :
    (env.walkEvents fails tracker run after left rows).Quiet := by
  have hread : ∀ id, fails (.readEvents id) = none := fun id => fails_eq_none hfails _ (by simp)
  induction rows generalizing run tracker after left with
  | nil =>
    rw [walkEvents, hread]
    exact hrun
  | cons row rest ih =>
    obtain ⟨run', hrow, hquiet⟩ :=
      reparseRow_quiet hfails env (show run.examine.Quiet from hrun) tracker row
    simp only [walkEvents, hread, ite_self, hrow]
    exact ih hquiet _ _ _

theorem promote_quiet {run : ReparseRun} (hrun : run.Quiet) (sample : UnknownSample) :
    (env.promote fails run sample).Quiet := by
  have hinsert := fails_eq_none hfails
    (.insertPromoted sample.logSource sample.eventName) (by simp)
  have hdelete := fails_eq_none hfails
    (.deleteUnknown sample.logSource sample.eventName) (by simp)
  unfold promote
  split
  · exact hrun
  · rw [hinsert, hdelete]
    exact hrun

theorem deleteMember_quiet {run : ReparseRun} (hrun : run.Quiet) (id : Int) :
    (deleteMember fails run id).Quiet := by
  have hnone := fails_eq_none hfails (.deleteMember id) (by simp)
  rw [deleteMember, hnone]
  exact hrun

theorem collapse_quiet {run : ReparseRun} (hrun : run.Quiet) (source : String)
    (parsed : List (LocalRow × LogLine)) (hit : BurstHit) :
    (env.collapse fails source parsed run hit).Quiet := by
  unfold collapse
  split
  case h_1 anchor last hanchor hlast =>
    have hnone := fails_eq_none hfails (.insertSummary source anchor.1.id) (by simp)
    rw [hnone]
    exact List.foldlRecOn _ _ (motive := ReparseRun.Quiet) hrun
      fun run hrun id _ => deleteMember_quiet hfails hrun id
  case h_2 => exact hrun

theorem collapseSource_quiet {run : ReparseRun} (hrun : run.Quiet) (source : String) :
    (env.collapseSource fails run source).Quiet := by
  have hnone := fails_eq_none hfails (.eventsForBurstScan source) (by simp)
  rw [collapseSource, hnone]
  exact List.foldlRecOn _ _ (motive := ReparseRun.Quiet) hrun
    fun run hrun hit _ => collapse_quiet hfails hrun source _ hit

/-- A re-parse that returns statistics has come to its end. -/
theorem completed_of_ok {store : ReparseStore} (h : (env.runReparse fails store).2 = none) :
    ReparseRun.Completed (env.runReparse fails store) := by
  have hwalk := walkEvents_quiet hfails env (show (ReparseRun.start store).Quiet from ⟨rfl, rfl⟩)
    .default 0 0 store.table.byId
  have hdistinct := fails_eq_none hfails .distinctLogSources (by simp)
  refine ⟨h, ?_⟩
  simp only [runReparse, hwalk.1, Option.isSome_none, Bool.false_eq_true, if_false,
    hdistinct] at h ⊢
  split at h
  · cases h
  · refine List.foldlRecOn _ _ (motive := ReparseRun.Quiet) ?_
      fun run hrun source _ => collapseSource_quiet hfails hrun source
    exact List.foldlRecOn _ _ (motive := ReparseRun.Quiet) hwalk
      fun run hrun sample _ => promote_quiet hfails hrun sample

end

end ReparseEnv

/-! ## The decision -/

/-- What a parser and its rules owe, newer ones owe as well. -/
theorem decideReparse_mono {stored : Option ReparseState} {revision later : UInt32}
    {defs laterDefs : Option UInt32} {hasEvents : Bool}
    (howed : (decideReparse stored revision defs hasEvents).reparses = true)
    (hrevision : revision ≤ later) (hdefs : NotOlder defs laterDefs) :
    (decideReparse stored later laterDefs true).reparses = true := by
  unfold decideReparse at howed ⊢
  cases hasEvents with
  | false => cases howed
  | true =>
    cases stored with
    | none => rfl
    | some s =>
      simp only [Bool.not_true, Bool.false_eq_true, if_false] at howed ⊢
      by_cases hlater : s.parserRevision < later
      · rw [if_pos hlater]
        rfl
      · have hrev : ¬ s.parserRevision < revision := fun h =>
          hlater (UInt32.lt_of_lt_of_le h hrevision)
        rw [if_neg hlater]
        rw [if_neg hrev] at howed
        cases defs with
        | none => cases howed
        | some cur =>
          obtain ⟨c, rfl, hle⟩ := hdefs cur rfl
          simp only at howed ⊢
          split at howed
          case isTrue hall =>
            have hall' : s.defVersion.all (· < c) = true := by
              cases hprev : s.defVersion with
              | none => rfl
              | some prev =>
                rw [hprev] at hall
                simp only [Option.all_some, decide_eq_true_eq] at hall ⊢
                exact UInt32.lt_of_lt_of_le hall hle
            rw [if_pos hall']
            rfl
          case isFalse => cases howed

/-! ## Starts -/

namespace ClientStart

variable {start : ClientStart} {tray : TrayStore}

/-- When the record of the last re-parse may change. -/
theorem maybeAutoReparse_cases (start : ClientStart) (tray : TrayStore) :
    (start.maybeAutoReparse tray).1.reparseState = tray.reparseState ∨
      start.need tray = .nothingToDo ∨
      (start.run tray).2 = none ∧ start.writeReparseStateFails = false := by
  have hwrite : ∀ tray', (start.writeReparseState tray').reparseState = tray'.reparseState ∨
      start.writeReparseStateFails = false := by
    intro tray'
    unfold writeReparseState
    cases start.writeReparseStateFails with
    | true => exact .inl rfl
    | false => exact .inr rfl
  unfold maybeAutoReparse
  cases hneed : start.need tray with
  | upToDate => exact .inl rfl
  | nothingToDo => exact .inr (.inl rfl)
  | parserRevision | definitions =>
    dsimp only
    cases hran : (start.run tray).2 with
    | none => exact (hwrite _).imp_right fun h => .inr ⟨rfl, h⟩
    | some e => exact .inl rfl

theorem need_ne_nothingToDo (hevents : tray.stored.table.rows ≠ []) :
    start.need tray ≠ .nothingToDo := by
  have hempty : tray.stored.table.rows.isEmpty = false := by simpa using hevents
  unfold need decideReparse
  rw [hempty, Bool.not_false, Bool.or_true]
  simp only [Bool.not_true, Bool.false_eq_true, if_false]
  repeat' split
  all_goals simp

/-- The record of a re-parse changes only behind one that has completed. -/
theorem completed_of_recorded (hok : start.OnlyUnknownsFail)
    (hevents : tray.stored.table.rows ≠ [])
    (h : (start.maybeAutoReparse tray).1.reparseState ≠ tray.reparseState) :
    ReparseRun.Completed (start.run tray) := by
  rcases maybeAutoReparse_cases start tray with hsame | hneed | ⟨hran, hwrite⟩
  · exact absurd hsame h
  · exact absurd hneed (need_ne_nothingToDo hevents)
  · rcases hok with hfails | hfails
    · exact ReparseEnv.completed_of_ok hfails hran
    · exact absurd (hfails.symm.trans hwrite) (by simp)

/-- What is owed, a start with the rules at hand re-parses. -/
theorem need_reparses {revision : UInt32} {prev : TrayStore} (howed : prev.Owed revision)
    (hstate : tray.reparseState = prev.reparseState)
    (hrevision : revision ≤ start.parserRevision)
    (hmanifest : NotOlder prev.manifestVersion tray.manifestVersion)
    (hevents : tray.stored.table.rows ≠ []) (hread : start.readManifestVersionFails = false) :
    (start.need tray).reparses = true := by
  have hempty : tray.stored.table.rows.isEmpty = false := by simpa using hevents
  unfold need
  rw [hempty, Bool.not_false, Bool.or_true, defs, hread, hstate]
  cases start.readReparseStateFails with
  | true => rfl
  | false => exact decideReparse_mono howed hrevision hmanifest

end ClientStart

/-- Between two starts the record stays. -/
theorem reparseState_between {between : List TrayStep} (h : ∀ start, .start start ∉ between)
    (tray : TrayStore) :
    (between.foldl TrayStore.step tray).reparseState = tray.reparseState := by
  induction between generalizing tray with
  | nil => rfl
  | cons step between ih =>
    have hrest := ih (fun start hmem => h start (.tail _ hmem)) (tray.step step)
    rw [List.foldl_cons, hrest]
    cases step with
    | start start => exact absurd List.mem_cons_self (h start)
    | stored | manifest => rfl

/-! ## Runs -/

/-- Where of the calls of a re-parse only `recent_unknowns` fails, or its record fails too, an owed
re-parse stays owed until it has completed. -/
theorem reparse_owed {steps : List TrayStep}
    (hok : ∀ start, .start start ∈ steps → start.OnlyUnknownsFail) (tray : TrayStore) :
    StaysOwed steps tray := by
  intro before start after hsteps found left hevents
  have hstart : start.OnlyUnknownsFail := by
    refine hok start ?_
    rw [hsteps]
    exact List.mem_append_right _ List.mem_cons_self
  refine ⟨ClientStart.completed_of_recorded hstart hevents, ?_⟩
  intro howed hfailed between next rest _ hbetween later hrevision hmanifest hlater hread
  have hkept : left.reparseState = found.reparseState := by
    by_contra hne
    exact hfailed (ClientStart.completed_of_recorded hstart hevents hne)
  have hstate : later.reparseState = found.reparseState :=
    (reparseState_between hbetween left).trans hkept
  exact ClientStart.need_reparses howed hstate hrevision hmanifest hlater hread

/-! ## A failure that is lost -/

/-- The line of a rule that is no longer among the remote rules. -/
def cargoRow : LocalRow where
  idempotencyKey := "live:9:<2026-01-01T00:00:00.000Z> <CargoDoor> open"
  eventType := "remote_match"
  timestamp := "2026-01-01T00:00:00.000Z"
  raw := "<2026-01-01T00:00:00.000Z> <CargoDoor> open"
  payload := "\x7b\"type\":\"remote_match\",\"timestamp\":\"2026-01-01T00:00:00.000Z\"," ++
    "\"rule_id\":\"cargo\",\"event_name\":\"CargoDoor\",\"fields\":\x7b\x7d\x7d"
  logSource := "live"
  sourceOffset := 9
  id := 1
  metadata := none
  sentAt := none
  contentKey := "cargo"

/-- The line is no event of the built-in classifier, and there are no remote rules. -/
def cargoEnv : ReparseEnv where
  classify _ := none
  applyRemoteRules _ := none
  observed := none_ne_burstSummary
  toJson _ := ""
  toLowercase := Text.lower
  newV5 := id
  parseTs _ := none
  metadataToJson _ := ""

/-- Nothing was re-parsed before. -/
def cargoTray : TrayStore := ⟨⟨⟨[cargoRow], 1⟩, []⟩, none, none⟩

def cargoStart (failing : Option ReparseCall) : ClientStart where
  env := cargoEnv
  parserRevision := 2
  readReparseStateFails := false
  readManifestVersionFails := false
  hasAnyEventsFails := false
  writeReparseStateFails := false
  fails call := if failing = some call then some "disk I/O error" else none

theorem reparse_owed_unknowns :
    ((cargoStart none).need
      (cargoTray.step (.start (cargoStart (some .recentUnknowns))))).reparses = true := by
  have hok : ∀ start, .start start ∈
      [TrayStep.start (cargoStart (some .recentUnknowns)), .start (cargoStart none)] →
        start.OnlyUnknownsFail := by
    intro start hstart
    left
    intro call hcall
    simp only [List.mem_cons, TrayStep.start.injEq, List.not_mem_nil, or_false] at hstart
    rcases hstart with rfl | rfl
    · by_contra hne
      exact hcall (if_neg fun h => hne (Option.some.inj h).symm)
    · exact absurd rfl hcall
  have hstart := reparse_owed hok cargoTray [] _ _ rfl (by decide)
  exact hstart.2 (by decide) (by decide +kernel) [] (cargoStart none) [] rfl (by simp) (by decide)
    (fun _ h => ⟨_, h, UInt32.le_refl _⟩) (by decide +kernel) rfl

/-- The sources of the log cannot be read, and nothing is owed any more. -/
theorem reparse_not_owed : ¬ ∀ steps tray, StaysOwed steps tray := by
  intro h
  have hstart := h [.start (cargoStart (some .distinctLogSources))] cargoTray [] _ [] rfl (by decide)
  have hcompleted := hstart.1 (by decide +kernel)
  revert hcompleted
  decide +kernel

end StarStats
