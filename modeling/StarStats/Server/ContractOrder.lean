import StarStats.Core.Proof.ContractMissions
import StarStats.Server.Proof.EventPages
import StarStats.Server.Rollup

/-!
# The order that contracts are rebuilt in (`starstats-server/src/repo.rs`)

`rebuild_contract_runs_for_handle` reads the events by time and key, as the server does everywhere.
Keys are hashes, so events of one time come in another order than in the log.

* `rebuilt_in_logOrder`: the runs are those of the log when events that change places do not
  interfere.
-/

namespace StarStats

open Events
open EventTimeline (orderBy orderBy_perm orderBy_sorted notAfter_iff)

/-! ## What an event says to the fold -/

deriving instance DecidableEq for MissionBanner

inductive ContractSignal where
  | join (shard : String)
  | sessionEnd
  | gameCrash
  | banner (missionId : String) (banner : MissionBanner)
  deriving DecidableEq

def ContractSignal.mission? : ContractSignal → Option String
  | .banner missionId _ => some missionId
  | _ => none

/-- The name that a closing banner repeats is not read. -/
def MissionBanner.essential : MissionBanner → MissionBanner
  | .contract .accepted name => .contract .accepted name
  | .contract verb _ => .contract verb ""
  | .step verb objectiveId text => .step verb objectiveId text

def HudNotification.signal? (hud : HudNotification) : Option ContractSignal :=
  match hud.missionId with
  | none => none
  | some missionId =>
    if missionId = zeroGuid then none
    else (missionBanner hud).map fun banner => .banner missionId banner.essential

def GameEvent.signal? : GameEvent → Option ContractSignal
  | .joinPu join => some (.join join.shard)
  | .sessionEnd _ => some .sessionEnd
  | .gameCrash _ => some .gameCrash
  | .hudNotification hud => HudNotification.signal? hud
  | _ => none

/-- One says nothing, both say the same, or they name two missions. -/
def Apart (a b : Option ContractSignal) : Prop :=
  a = none ∨ b = none ∨ a = b ∨
    ∃ m ∈ a.bind (·.mission?), ∃ m' ∈ b.bind (·.mission?), m ≠ m'

instance (a b : Option ContractSignal) : Decidable (Apart a b) :=
  inferInstanceAs (Decidable (_ ∨ _))

/-- Two events of one time that can change places. -/
def GameEvent.Independent (a b : GameEvent) : Prop :=
  a.timestamp = b.timestamp ∧ Apart a.signal? b.signal?

def EventRow.Independent (a b : EventRow) : Prop :=
  ∀ x ∈ a.payload, ∀ y ∈ b.payload, x.Independent y

namespace MissionFold

def onSignal (st : MissionFold) (missionId : String) (ts : Option String) :
    ContractSignal → MissionFold
  | .join shard =>
    let st := if st.currentShard.any (· ≠ shard) then st.closeRun .abandoned .shardChange ts else st
    { st with currentShard := some shard }
  | .sessionEnd => st.closeRun .abandoned .sessionEnd ts
  | .gameCrash => st.closeRun .abandoned .gameCrash ts
  | .banner m banner => if m = missionId then st.onBanner missionId ts banner else st

section
variable {st : MissionFold} {missionId : String}

theorem onBanner_essential (ts : Option String) (banner : MissionBanner) :
    st.onBanner missionId ts banner.essential = st.onBanner missionId ts banner := by
  cases banner with
  | contract verb name => cases verb <;> rfl
  | step verb objectiveId text => rfl

theorem handleHud_eq (hud : HudNotification) (ts : Option String) :
    st.handleHud missionId hud ts =
      (HudNotification.signal? hud).elim st (st.onSignal missionId ts) := by
  rw [handleHud, HudNotification.signal?]
  cases hmission : hud.missionId with
  | none => rfl
  | some m =>
    dsimp only
    by_cases hzero : m = zeroGuid
    · rw [if_pos hzero, if_neg]
      · rfl
      · rintro ⟨heq, hne⟩
        exact hne ((Option.some.inj heq).symm.trans hzero)
    · rw [if_neg hzero]
      cases hbanner : missionBanner hud with
      | none => simp
      | some banner =>
        simp only [Option.map_some, Option.elim_some, onSignal, onBanner_essential]
        by_cases hsame : m = missionId
        · rw [if_pos hsame, if_pos ⟨congrArg some hsame, hsame ▸ hzero⟩]
        · rw [if_neg hsame, if_neg fun h => hsame (Option.some.inj h.1)]

/-- The fold reads of an event what it says, and its time. -/
theorem react_eq (ev : GameEvent) :
    st.react missionId ev = ev.signal?.elim st (st.onSignal missionId (some ev.timestamp)) := by
  cases ev with
  | hudNotification hud => exact handleHud_eq hud _
  | joinPu join => rfl
  | sessionEnd e => rfl
  | gameCrash e => rfl
  | _ => rfl

/-- A signal of another mission says nothing. -/
theorem onSignal_other {m : String} (hm : m ≠ missionId) {ts : Option String} {a : ContractSignal}
    (ha : a.mission? = some m) : st.onSignal missionId ts a = st := by
  cases a with
  | banner m' banner => exact if_neg fun heq => hm ((Option.some.inj ha).symm.trans heq)
  | _ => cases ha

theorem react_comm {a b : GameEvent} (h : a.Independent b) :
    (st.react missionId a).react missionId b = (st.react missionId b).react missionId a := by
  obtain ⟨htime, hapart⟩ := h
  rw [react_eq, react_eq, react_eq, react_eq, htime]
  rcases hapart with hnone | hnone | heq | ⟨m, hm, m', hm', hne⟩
  · rw [hnone]
    rfl
  · rw [hnone]
    rfl
  · rw [heq]
  · -- the mission is not named by both
    obtain ⟨x, hx, hxm⟩ := Option.bind_eq_some_iff.1 hm
    obtain ⟨y, hy, hym⟩ := Option.bind_eq_some_iff.1 hm'
    rw [hx, hy]
    simp only [Option.elim_some]
    by_cases hsame : m = missionId
    · have hother : m' ≠ missionId := fun heq => hne (hsame.trans heq.symm)
      rw [onSignal_other hother hym, onSignal_other hother hym]
    · rw [onSignal_other hsame hxm, onSignal_other hsame hxm]

/-! ## Two events of one time -/

/-- The time that an event leaves behind. -/
def stamped (st : MissionFold) (lastTs : Option Int) (lastTsStr : Option String) : MissionFold :=
  { st with
    lastTs := lastTs
    lastTsStr := lastTsStr }

theorem onSignal_stamped (lastTs : Option Int) (s ts : Option String) (a : ContractSignal) :
    (st.stamped lastTs s).onSignal missionId ts a =
      (st.onSignal missionId ts a).stamped lastTs s := by
  cases a with
  | join shard =>
    have hclosed : (if st.currentShard.any (· ≠ shard) then
          (st.stamped lastTs s).closeRun .abandoned .shardChange ts else st.stamped lastTs s) =
        (if st.currentShard.any (· ≠ shard) then
          st.closeRun .abandoned .shardChange ts else st).stamped lastTs s := by
      split <;> rfl
    exact congrArg (fun m : MissionFold => { m with currentShard := some shard }) hclosed
  | sessionEnd => rfl
  | gameCrash => rfl
  | banner m banner =>
    simp only [onSignal]
    by_cases hm : m = missionId
    · rw [if_pos hm, if_pos hm]
      cases banner with
      | contract verb name => cases verb <;> rfl
      | step verb objectiveId text => rfl
    · rw [if_neg hm, if_neg hm]

theorem react_stamped (lastTs : Option Int) (s : Option String) (ev : GameEvent) :
    (st.stamped lastTs s).react missionId ev = (st.react missionId ev).stamped lastTs s := by
  rw [react_eq, react_eq]
  cases ev.signal? with
  | none => rfl
  | some a => exact onSignal_stamped lastTs s _ a

variable {parseTs : String → Option Int} {cfg : ContractConfig}

/-- No gap is between an event and the next of its time. -/
theorem afterGap_stamped (hcfg : 0 ≤ cfg.sessionGapSecs) {ev : GameEvent} (lastTs : Option Int)
    (s : Option String) :
    (st.stamped ((epochSecs parseTs ev.timestamp).or lastTs) s).afterGap parseTs cfg ev =
      st.stamped ((epochSecs parseTs ev.timestamp).or lastTs) s := by
  have hgap : ContractFold.gapBefore parseTs cfg ((epochSecs parseTs ev.timestamp).or lastTs) ev =
      false := by
    unfold ContractFold.gapBefore
    cases epochSecs parseTs ev.timestamp with
    | none => cases lastTs <;> rfl
    | some t =>
      have hle : ¬ cfg.sessionGapSecs < t - t := by omega
      exact decide_eq_false hle
  exact if_neg (Bool.eq_false_iff.1 hgap)

/-- The second event of one time finds the state without another gap. -/
theorem onEvent_onEvent (hcfg : 0 ≤ cfg.sessionGapSecs) {a b : GameEvent}
    (htime : a.timestamp = b.timestamp) :
    (st.onEvent parseTs cfg missionId a).onEvent parseTs cfg missionId b =
      ((((st.afterGap parseTs cfg a).react missionId a).react missionId b).stamped
        ((epochSecs parseTs b.timestamp).or ((epochSecs parseTs b.timestamp).or st.lastTs))
        (some b.timestamp)) := by
  have hfirst : st.onEvent parseTs cfg missionId a =
      ((st.afterGap parseTs cfg a).react missionId a).stamped
        ((epochSecs parseTs b.timestamp).or st.lastTs) (some b.timestamp) := by
    rw [← htime]
    rfl
  rw [hfirst]
  show (((((st.afterGap parseTs cfg a).react missionId a).stamped _ _).afterGap parseTs cfg b).react
    missionId b).stamped _ _ = _
  rw [afterGap_stamped hcfg, react_stamped]
  rfl

theorem onEvent_comm (hcfg : 0 ≤ cfg.sessionGapSecs) {a b : GameEvent} (h : a.Independent b) :
    (st.onEvent parseTs cfg missionId a).onEvent parseTs cfg missionId b =
      (st.onEvent parseTs cfg missionId b).onEvent parseTs cfg missionId a := by
  have hgap : st.afterGap parseTs cfg a = st.afterGap parseTs cfg b := by
    unfold afterGap ContractFold.gapBefore
    rw [h.1]
  rw [onEvent_onEvent hcfg h.1, onEvent_onEvent hcfg h.1.symm, hgap, react_comm h, h.1]

end

end MissionFold

/-! ## The rebuild -/

/-- What the rebuild makes of a row. -/
def contractEnvelope (r : EventRow) : EventEnvelope where
  idempotencyKey := r.idempotencyKey
  rawLine := ""
  event := r.payload
  source := .live
  sourceOffset := 0
  metadata := none
  resolvedLocation := none

/-- The events of a handle as its log has them: by time, with keys of their own. -/
structure LogOf (handle : String) (table log : List EventRow) : Prop where
  stored : ((table.filter (·.claimedHandle = handle)).filter (·.eventTimestamp.isSome)).Perm log
  keys : (log.map (·.idempotencyKey)).Nodup
  times : log.Pairwise fun a b => a.eventTimestamp.getD 0 ≤ b.eventTimestamp.getD 0

theorem LogOf.time_eq {handle : String} {table log : List EventRow} (h : LogOf handle table log)
    {a b : EventRow} (ha : a ∈ log) (hb : b ∈ log)
    (heq : a.eventTimestamp.getD 0 = b.eventTimestamp.getD 0) :
    a.eventTimestamp = b.eventTimestamp := by
  have hsome : ∀ r ∈ log, ∃ t, r.eventTimestamp = some t := fun r hr =>
    Option.isSome_iff_exists.1 (List.mem_filter.1 (h.stored.mem_iff.2 hr)).2
  obtain ⟨t, ht⟩ := hsome a ha
  obtain ⟨u, hu⟩ := hsome b hb
  rw [ht, hu] at heq ⊢
  exact congrArg some heq

/-- The rebuild sorts the log by time and key. -/
theorem LogOf.contractEnvelopes_eq {handle : String} {table log : List EventRow}
    (h : LogOf handle table log) :
    contractEnvelopes handle table =
      (orderBy (fun r => r.eventTimestamp.getD 0) log).map contractEnvelope := by
  refine congrArg (List.map contractEnvelope) ?_
  refine List.Perm.eq_of_pairwise (fun a b ha hb hab hba => ?_)
    (orderBy_sorted (fun r => r.eventTimestamp.getD 0) _) (orderBy_sorted _ log)
    ((orderBy_perm _ _).trans (h.stored.trans (orderBy_perm _ log).symm))
  have hinlog : ∀ r, r ∈ orderBy (fun r => r.eventTimestamp.getD 0)
      ((table.filter (·.claimedHandle = handle)).filter (·.eventTimestamp.isSome)) → r ∈ log :=
    fun r hr => h.stored.mem_iff.1 ((orderBy_perm _ _).mem_iff.1 hr)
  have hkey := (Prod.ext_iff.1 (toLex.injective (le_antisymm hab hba))).2
  exact List.inj_on_of_nodup_map h.keys (hinlog a ha) ((orderBy_perm _ log).mem_iff.1 hb) hkey

section
variable {parseTs : String → Option Int} {cfg : ContractConfig} {handle : String}
  {table log : List EventRow}

/-- What a row does to the fold of a mission. -/
def MissionFold.onRow (parseTs : String → Option Int) (cfg : ContractConfig) (missionId : String)
    (st : MissionFold) (r : EventRow) : MissionFold :=
  r.payload.elim st (st.onEvent parseTs cfg missionId)

theorem missionFold_rows (missionId : String) (st : MissionFold) (rows : List EventRow) :
    missionFold parseTs cfg missionId st (rows.map contractEnvelope) =
      rows.foldl (MissionFold.onRow parseTs cfg missionId) st := by
  rw [missionFold, classified, List.filterMap_map, List.foldl_filterMap]
  congr 1
  funext st r
  cases hevent : r.payload <;> simp [contractEnvelope, MissionFold.onRow, hevent]

theorem MissionFold.onRow_comm (hcfg : 0 ≤ cfg.sessionGapSecs) {a b : EventRow}
    (h : a.Independent b) (missionId : String) (st : MissionFold) :
    (st.onRow parseTs cfg missionId a).onRow parseTs cfg missionId b =
      (st.onRow parseTs cfg missionId b).onRow parseTs cfg missionId a := by
  simp only [onRow]
  cases ha : a.payload with
  | none => rfl
  | some x =>
    cases hb : b.payload with
    | none => rfl
    | some y => exact onEvent_comm hcfg (h x ha y hb)

/-- The rebuild follows the log, as far as events that come in another order do not interfere. -/
theorem rebuilt_in_logOrder (hlog : LogOf handle table log)
    (hties : log.Pairwise fun a b => a.eventTimestamp = b.eventTimestamp →
      b.idempotencyKey < a.idempotencyKey → a.Independent b) (drain drain' : DrainOrder) :
    deriveContractRuns parseTs .default drain (contractEnvelopes handle table) =
      deriveContractRuns parseTs .default drain' (log.map contractEnvelope) := by
  refine deriveContractRuns_eq parseTs .default fun missionId => ?_
  rw [filter_deriveContractRuns, filter_deriveContractRuns, hlog.contractEnvelopes_eq,
    missionFold_rows, missionFold_rows, orderBy, Stable.foldl_insertionSort]
  refine (hlog.times.and hties).imp_of_mem fun {a b} ha hb h hnot st => ?_
  -- what the sort puts behind a later event has its time and a larger key
  obtain ⟨hlt, hkey⟩ := not_or.1 hnot
  have heq := h.1.antisymm (Int.not_lt.1 hlt)
  exact MissionFold.onRow_comm (by decide) (h.2 (hlog.time_eq ha hb heq)
    (not_le.1 fun hle => hkey ⟨heq, hle⟩)) missionId st

end

/-! ### Banners of one time -/

/-- A banner as the server stores it. -/
def bannerRow (key text missionId : String) (objectiveId : Option String) : EventRow :=
  EventTimeline.sampleRow key 0 "hud_notification"
    (some (.hudNotification ⟨"t", text, 0, some missionId, objectiveId⟩))

/-- Two contracts are accepted at once, and the keys are the other way round. -/
def twoContracts : List EventRow :=
  [bannerRow "b" "Contract Accepted: x" "m" none, bannerRow "a" "Contract Accepted: y" "n" none]

theorem rebuilt_in_logOrder_two :
    deriveContractRuns (fun _ => none) .default .forwards (contractEnvelopes "ada" twoContracts) =
      deriveContractRuns (fun _ => none) .default .forwards
        (twoContracts.map contractEnvelope) := by
  have hlog : LogOf "ada" twoContracts twoContracts :=
    ⟨List.Perm.refl _, by decide, by decide⟩
  have hapart : twoContracts[0].Independent twoContracts[1] := by
    intro x hx y hy
    obtain rfl := Option.some.inj hx
    obtain rfl := Option.some.inj hy
    exact ⟨rfl, by decide +kernel⟩
  exact rebuilt_in_logOrder hlog (List.pairwise_pair.2 fun _ _ => hapart) _ _

/-- The first objective comes with the contract, and its key is the smaller one. -/
def acceptAndStep : List EventRow :=
  [bannerRow "b" "Contract Accepted: x" "m" none, bannerRow "a" "New Objective: y" "m" (some "o")]

/-- The rebuild loses the step of the contract. -/
theorem rebuilt_loses_step :
    LogOf "ada" acceptAndStep acceptAndStep ∧
      (deriveContractRuns (fun _ => none) .default .forwards
        (contractEnvelopes "ada" acceptAndStep)).map (·.stepCount) = [0] ∧
      (deriveContractRuns (fun _ => none) .default .forwards
        (acceptAndStep.map contractEnvelope)).map (·.stepCount) = [1] := by
  refine ⟨⟨List.Perm.refl _, by decide, by decide⟩, ?_, ?_⟩
  · decide +kernel
  · decide +kernel

end StarStats
