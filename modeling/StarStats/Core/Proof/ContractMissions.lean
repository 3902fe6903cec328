import Mathlib.Data.Prod.Lex
import Mathlib.Order.WithBot
import StarStats.Core.Proof.ContractLife
import StarStats.Lib.Stable

/-!
# Missions do not interfere

`MissionFold` is what the fold does for one mission; the fold over all of them, looked at through
that mission, is this one (`mission_contractFold`). So what is reported of a mission depends on
nothing that other missions' banners say, and the whole list not on the order in which the open
runs are drained (`contractRuns_separate`).
-/

namespace StarStats

open Events

/-! ## One mission -/

structure MissionFold where
  closed : List ContractRun
  opened : Option ContractRun
  lastTs : Option Int
  lastTsStr : Option String
  currentShard : Option String

namespace MissionFold

def closeRun (st : MissionFold) (state : ContractState) (closedBy : ClosedBy)
    (closedAt : Option String) : MissionFold :=
  { st with
    closed := st.closed ++ (st.opened.map (·.closeRun state closedBy closedAt)).toList
    opened := none }

def onBanner (st : MissionFold) (missionId : String) (ts : Option String) :
    MissionBanner → MissionFold
  | .contract verb name =>
    match terminalOutcome verb with
    | some (state, closedBy) => st.closeRun state closedBy ts
    | none =>
      { st.closeRun .superseded .superseded ts with
        opened := some (.accept missionId name ts st.currentShard) }
  | .step verb objectiveId text =>
    { st with opened := st.opened.map (·.onStep verb objectiveId text ts) }

/-- A notification about this mission. -/
def handleHud (st : MissionFold) (missionId : String) (hud : HudNotification) (ts : Option String) :
    MissionFold :=
  if hud.missionId = some missionId ∧ missionId ≠ zeroGuid then
    (missionBanner hud).elim st (st.onBanner missionId ts)
  else st

def onJoin (st : MissionFold) (join : JoinPu) (ts : Option String) : MissionFold :=
  let st := if ContractFold.shardChanges st.currentShard join then
      st.closeRun .abandoned .shardChange ts
    else st
  { st with currentShard := some join.shard }

def react (st : MissionFold) (missionId : String) (ev : GameEvent) : MissionFold :=
  let ts := some ev.timestamp
  match ev with
  | .joinPu join => st.onJoin join ts
  | .sessionEnd _ => st.closeRun .abandoned .sessionEnd ts
  | .gameCrash _ => st.closeRun .abandoned .gameCrash ts
  | .hudNotification hud => st.handleHud missionId hud ts
  | _ => st

section
variable (parseTs : String → Option Int) (cfg : ContractConfig)

def afterGap (st : MissionFold) (ev : GameEvent) : MissionFold :=
  if ContractFold.gapBefore parseTs cfg st.lastTs ev then
    st.closeRun .abandoned .sessionGap st.lastTsStr
  else st

def onEvent (missionId : String) (st : MissionFold) (ev : GameEvent) : MissionFold :=
  { (st.afterGap parseTs cfg ev).react missionId ev with
    lastTs := (epochSecs parseTs ev.timestamp).or st.lastTs
    lastTsStr := some ev.timestamp }

def finish (st : MissionFold) : List ContractRun :=
  st.closed ++ (st.opened.map fun run =>
    run.closeRun (ContractFold.finalState parseTs cfg st.lastTs run) .none none).toList

end

end MissionFold

/-! ## The fold seen through one mission -/

namespace ContractFold

def mission (missionId : String) (st : ContractFold) : MissionFold where
  closed := st.runs.filter (·.missionId = missionId)
  opened := st.opened.get missionId
  lastTs := st.lastTs
  lastTsStr := st.lastTsStr
  currentShard := st.currentShard

section
variable {missionId : String} {st : ContractFold} {order : List ContractRun → List ContractRun}
  {state : ContractState} {closedBy : ClosedBy} {closedAt ts : Option String}

/-- In whichever order they are drained, there is at most one run of a mission. -/
theorem filter_drained (horder : ∀ runs, (order runs).Perm runs)
    (f : ContractRun → ContractRun) (hf : ∀ run, (f run).missionId = run.missionId) :
    ((order st.opened.rows).map f).filter (·.missionId = missionId) =
      ((st.opened.get missionId).map f).toList := by
  have hfilter : (order st.opened.rows).filter (·.missionId = missionId) =
      (st.opened.get missionId).toList := by
    have hperm := (horder st.opened.rows).filter (·.missionId = missionId)
    rw [Keyed.filter_key] at hperm
    cases hget : st.opened.get missionId with
    | none =>
      rw [hget] at hperm
      exact List.perm_nil.1 hperm
    | some run =>
      rw [hget] at hperm
      exact List.perm_singleton.1 hperm
  rw [List.filter_map]
  have hsame : (fun run : ContractRun => decide (run.missionId = missionId)) ∘ f =
      fun run => decide (run.missionId = missionId) := by
    funext run
    simp only [Function.comp_apply, hf]
  rw [hsame, hfilter]
  cases st.opened.get missionId <;> rfl

theorem mission_closeAll (horder : ∀ runs, (order runs).Perm runs) :
    (st.closeAll order state closedBy closedAt).mission missionId =
      (st.mission missionId).closeRun state closedBy closedAt := by
  have hdrained : ((order st.opened.rows).map (·.closeRun state closedBy closedAt)).filter
      (·.missionId = missionId) =
        ((st.opened.get missionId).map (·.closeRun state closedBy closedAt)).toList :=
    filter_drained horder _ fun _ => rfl
  rw [mission, closeAll, List.filter_append, hdrained]
  rfl

theorem mission_closeOne (missionId' : String) :
    (st.closeOne missionId' state closedBy closedAt).mission missionId =
      if missionId' = missionId then (st.mission missionId).closeRun state closedBy closedAt
      else st.mission missionId := by
  have hopened : (st.opened.filter (·.missionId ≠ missionId')).get missionId =
      if missionId' = missionId then none else st.opened.get missionId := by
    rw [Keyed.get_filter]
    cases hget : st.opened.get missionId with
    | none => simp
    | some run =>
      have hkey := (Keyed.of_get hget).2
      by_cases hsame : missionId' = missionId
      · simp [Option.filter_some, hkey, hsame]
      · simp [Option.filter_some, hkey, hsame, Ne.symm hsame]
  have hclosed : (((st.opened.get missionId').map (·.closeRun state closedBy closedAt)).toList).filter
      (·.missionId = missionId) = if missionId' = missionId then
        ((st.opened.get missionId).map (·.closeRun state closedBy closedAt)).toList else [] := by
    cases hget : st.opened.get missionId' with
    | none =>
      split
      · rename_i hsame
        rw [← hsame, hget]
        rfl
      · rfl
    | some run =>
      have hkey : (run.closeRun state closedBy closedAt).missionId = missionId' :=
        (Keyed.of_get hget).2
      split
      · rename_i hsame
        rw [← hsame, hget]
        simp [hkey]
      · rename_i hother
        simp [hkey, hother]
  rw [mission, closeOne, List.filter_append, hclosed, hopened]
  split
  · rfl
  · rw [List.append_nil]
    rfl

theorem mission_insertNew {run : ContractRun} (hnew : st.opened.get run.missionId = none) :
    ({ st with opened := st.opened.insertNew run } : ContractFold).mission missionId =
      if run.missionId = missionId then { st.mission missionId with opened := some run }
      else st.mission missionId := by
  have hopened : (st.opened.insertNew run).get missionId =
      if run.missionId = missionId then some run else st.opened.get missionId := by
    rw [Keyed.get_insertNew]
    by_cases hsame : run.missionId = missionId
    · rw [← hsame, if_pos rfl, if_pos rfl, hnew]
      rfl
    · rw [if_neg (Ne.symm hsame), if_neg hsame]
  rw [mission, hopened]
  split <;> rfl

theorem mission_modify (missionId' : String) {f : ContractRun → ContractRun}
    (hf : ∀ run, (f run).missionId = run.missionId) :
    ({ st with opened := st.opened.modify missionId' f hf } : ContractFold).mission missionId =
      if missionId' = missionId then
        { st.mission missionId with opened := (st.mission missionId).opened.map f }
      else st.mission missionId := by
  rw [mission, Keyed.get_modify]
  by_cases hsame : missionId' = missionId
  · rw [if_pos hsame.symm, if_pos hsame, hsame]
    rfl
  · rw [if_neg (Ne.symm hsame), if_neg hsame]
    rfl

theorem mission_onBanner (missionId' : String) (banner : MissionBanner) :
    (st.onBanner missionId' ts banner).mission missionId =
      if missionId' = missionId then (st.mission missionId).onBanner missionId ts banner
      else st.mission missionId := by
  have hclose : ∀ state closedBy, (st.closeOne missionId' state closedBy ts).mission missionId =
      if missionId' = missionId then (st.mission missionId).closeRun state closedBy ts
      else st.mission missionId := fun state closedBy => mission_closeOne missionId'
  cases banner with
  | contract verb name =>
    cases verb with
    | accepted =>
      have hnew : (st.closeOne missionId' .superseded .superseded ts).opened.get missionId' =
          none := get_closeOne missionId'
      show ContractFold.mission missionId { st.closeOne missionId' .superseded .superseded ts with
        opened := (st.closeOne missionId' .superseded .superseded ts).opened.insertNew
          (.accept missionId' name ts st.currentShard) } = _
      rw [mission_insertNew hnew]
      show (if missionId' = missionId then _ else _) = _
      by_cases hsame : missionId' = missionId
      · subst hsame
        rw [if_pos rfl, if_pos rfl, hclose, if_pos rfl]
        rfl
      · rw [if_neg hsame, if_neg hsame, hclose, if_neg hsame]
    | complete => exact hclose .completed .hudComplete
    | failed => exact hclose .failed .hudFailed
    | withdrawn => exact hclose .withdrawn .hudWithdrawn
  | step verb objectiveId text => exact mission_modify missionId' _

theorem mission_handleHud (hud : HudNotification) :
    (st.handleHud hud ts).mission missionId =
      (st.mission missionId).handleHud missionId hud ts := by
  unfold handleHud MissionFold.handleHud
  cases hmission : hud.missionId with
  | none => simp
  | some missionId' =>
    by_cases hsame : missionId' = missionId
    · subst hsame
      by_cases hzero : missionId' = zeroGuid
      · simp [hzero]
      · simp only [hzero, if_false, true_and, ne_eq, not_false_eq_true, if_true]
        cases missionBanner hud with
        | none => rfl
        | some banner => exact (mission_onBanner missionId' banner).trans (if_pos rfl)
    · rw [if_neg fun h => hsame (Option.some.inj h.1)]
      dsimp only
      split
      · rfl
      · split
        · rename_i banner _
          exact (mission_onBanner missionId' banner).trans (if_neg hsame)
        · rfl

section
variable {parseTs : String → Option Int} {cfg : ContractConfig} {ev : GameEvent}

theorem mission_onEvent (horder : ∀ runs, (order runs).Perm runs) :
    (st.onEvent parseTs cfg order ev).mission missionId =
      (st.mission missionId).onEvent parseTs cfg missionId ev := by
  have hgap : (st.afterGap parseTs cfg order ev).mission missionId =
      (st.mission missionId).afterGap parseTs cfg ev := by
    unfold afterGap MissionFold.afterGap
    show ContractFold.mission missionId (if gapBefore parseTs cfg st.lastTs ev then _ else _) =
      if gapBefore parseTs cfg st.lastTs ev then _ else _
    split
    · exact mission_closeAll horder
    · rfl
  have hjoin : ∀ (st : ContractFold) (join : JoinPu) (ts : Option String),
      (st.onJoin order join ts).mission missionId = (st.mission missionId).onJoin join ts := by
    intro st join ts
    have hclosed : (if shardChanges st.currentShard join then
          st.closeAll order .abandoned .shardChange ts else st).mission missionId =
        if shardChanges st.currentShard join then
          (st.mission missionId).closeRun .abandoned .shardChange ts else st.mission missionId := by
      split
      · exact mission_closeAll horder
      · rfl
    exact congrArg (fun m => { m with currentShard := some join.shard }) hclosed
  have hreact : ((st.afterGap parseTs cfg order ev).react order ev).mission missionId =
      ((st.mission missionId).afterGap parseTs cfg ev).react missionId ev := by
    rw [← hgap]
    unfold react MissionFold.react
    cases ev with
    | joinPu join => exact hjoin _ join _
    | sessionEnd e => exact mission_closeAll horder
    | gameCrash e => exact mission_closeAll horder
    | hudNotification hud => exact mission_handleHud hud
    | _ => rfl
  exact congrArg (fun m : MissionFold =>
    { m with
      lastTs := (epochSecs parseTs ev.timestamp).or st.lastTs
      lastTsStr := some ev.timestamp }) hreact

theorem mission_finish (horder : ∀ runs, (order runs).Perm runs) :
    (st.finish parseTs cfg order).filter (·.missionId = missionId) =
      (st.mission missionId).finish parseTs cfg := by
  have hdrained : ((order st.opened.rows).map fun run =>
      run.closeRun (finalState parseTs cfg st.lastTs run) .none none).filter
        (·.missionId = missionId) = ((st.opened.get missionId).map fun run =>
      run.closeRun (finalState parseTs cfg st.lastTs run) .none none).toList :=
    filter_drained horder _ fun _ => rfl
  rw [finish, List.filter_append, hdrained]
  rfl

end

end

end ContractFold

/-- The fold for one mission. -/
def missionFold (parseTs : String → Option Int) (cfg : ContractConfig) (missionId : String)
    (st : MissionFold) (events : List EventEnvelope) : MissionFold :=
  (classified events).foldl (MissionFold.onEvent parseTs cfg missionId) st

theorem mission_contractFold (parseTs : String → Option Int) (cfg : ContractConfig)
    (drain : DrainOrder) (missionId : String) (n : Nat) (st : ContractFold)
    (events : List EventEnvelope) :
    (contractFold parseTs cfg drain n st events).mission missionId =
      missionFold parseTs cfg missionId (st.mission missionId) events := by
  induction events generalizing n st with
  | nil => rfl
  | cons env rest ih =>
    unfold contractFold
    cases hevent : env.event with
    | none =>
      have hskip : classified (env :: rest) = classified rest := List.filterMap_cons_none hevent
      rw [missionFold, hskip]
      exact ih (n + 1) st
    | some ev =>
      have hevents : classified (env :: rest) = ev :: classified rest :=
        List.filterMap_cons_some hevent
      have hstep : (st.onEvent parseTs cfg (drain.order n) ev).mission missionId = _ :=
        ContractFold.mission_onEvent (drain.perm n)
      rw [missionFold, hevents, List.foldl_cons, ← hstep]
      exact ih (n + 1) _

/-! ## The order of the report -/

namespace ContractRun

/-- `(accepted_at, mission_id)`; no time is before every time. -/
def sortKey (run : ContractRun) : WithBot String ×ₗ String :=
  toLex (run.acceptedAt.elim ⊥ (fun s => (s : WithBot String)), run.missionId)

theorem notBehind_iff {a b : ContractRun} : a.notBehind b = true ↔ a.sortKey ≤ b.sortKey := by
  rw [sortKey, sortKey, Prod.Lex.toLex_le_toLex]
  unfold notBehind
  cases a.acceptedAt <;> cases b.acceptedAt <;> simp

theorem notBehind_trans (a b c : ContractRun) (hab : a.notBehind b = true)
    (hbc : b.notBehind c = true) : a.notBehind c = true :=
  notBehind_iff.2 ((notBehind_iff.1 hab).trans (notBehind_iff.1 hbc))

theorem notBehind_total (a b : ContractRun) : a.notBehind b = true ∨ b.notBehind a = true :=
  (le_total a.sortKey b.sortKey).imp notBehind_iff.2 notBehind_iff.2

theorem missionId_of_ties {a b : ContractRun}
    (h : Stable.ties (fun a b : ContractRun => a.notBehind b = true) a b = true) :
    b.missionId = a.missionId := by
  simp only [Stable.ties, Bool.and_eq_true, decide_eq_true_eq, notBehind_iff] at h
  have hkey := le_antisymm h.1 h.2
  exact (congrArg (fun k => (ofLex k).2) hkey).symm

end ContractRun

section
variable (parseTs : String → Option Int) (cfg : ContractConfig)

/-- What is reported of a mission is what the fold for it reports. -/
theorem filter_deriveContractRuns (drain : DrainOrder) (events : List EventEnvelope)
    (missionId : String) :
    (deriveContractRuns parseTs cfg drain events).filter (·.missionId = missionId) =
      ((missionFold parseTs cfg missionId (ContractFold.start.mission missionId)
        events).finish parseTs cfg).insertionSort (·.notBehind ·) := by
  rw [deriveContractRuns,
    Stable.filter_insertionSort ContractRun.notBehind_trans ContractRun.notBehind_total,
    ContractFold.mission_finish (drain.perm events.length), mission_contractFold]

theorem deriveContractRuns_sorted (drain : DrainOrder) (events : List EventEnvelope) :
    (deriveContractRuns parseTs cfg drain events).Pairwise fun a b => a.notBehind b = true := by
  have : Std.Total fun a b : ContractRun => a.notBehind b = true := ⟨ContractRun.notBehind_total⟩
  have : IsTrans ContractRun fun a b => a.notBehind b = true := ⟨ContractRun.notBehind_trans⟩
  exact List.pairwise_insertionSort _ _

/-- The whole report is known from what it says of each mission. -/
theorem deriveContractRuns_eq {drain drain' : DrainOrder} {events events' : List EventEnvelope}
    (h : ∀ missionId, (deriveContractRuns parseTs cfg drain events).filter
        (·.missionId = missionId) =
      (deriveContractRuns parseTs cfg drain' events').filter (·.missionId = missionId)) :
    deriveContractRuns parseTs cfg drain events = deriveContractRuns parseTs cfg drain' events' := by
  refine Stable.eq_of_filter_ties (fun a => ContractRun.notBehind_iff.2 le_rfl)
    (deriveContractRuns_sorted parseTs cfg drain events)
    (deriveContractRuns_sorted parseTs cfg drain' events') fun a => ?_
  have hwithin : ∀ runs : List ContractRun,
      runs.filter (Stable.ties (fun a b : ContractRun => a.notBehind b = true) a) =
        (runs.filter (·.missionId = a.missionId)).filter
          (Stable.ties (fun a b : ContractRun => a.notBehind b = true) a) := by
    intro runs
    rw [List.filter_filter]
    refine List.filter_congr fun b _ => ?_
    cases hties : Stable.ties (fun a b : ContractRun => a.notBehind b = true) a b with
    | false => rfl
    | true => simp [ContractRun.missionId_of_ties hties]
  rw [hwithin, h, ← hwithin]

/-! ## Other missions -/

theorem MissionFold.onEvent_other {missionId : String} {st : MissionFold} {hud : HudNotification}
    (h : hud.missionId ≠ some missionId) :
    st.onEvent parseTs cfg missionId (.hudNotification hud) =
      { st.afterGap parseTs cfg (.hudNotification hud) with
        lastTs := (epochSecs parseTs hud.timestamp).or st.lastTs
        lastTsStr := some hud.timestamp } := by
  have hnone : (st.afterGap parseTs cfg (.hudNotification hud)).handleHud missionId hud
      (some hud.timestamp) = st.afterGap parseTs cfg (.hudNotification hud) :=
    if_neg fun hnamed => h hnamed.1
  exact congrArg (fun m : MissionFold =>
    { m with
      lastTs := (epochSecs parseTs hud.timestamp).or st.lastTs
      lastTsStr := some hud.timestamp }) hnone

theorem missionFold_congr {missionId : String} {st : MissionFold}
    {events events' : List EventEnvelope} (h : List.Forall₂ (SameFor missionId) events events') :
    missionFold parseTs cfg missionId st events = missionFold parseTs cfg missionId st events' := by
  induction h generalizing st with
  | nil => rfl
  | @cons env env' rest rest' hsame _ ih =>
    rcases hsame with heq | ⟨hud, hud', hevent, hevent', htime, hother, hother'⟩
    · unfold missionFold classified
      cases hevent : env'.event with
      | none =>
        rw [List.filterMap_cons_none (heq.trans hevent), List.filterMap_cons_none hevent]
        exact ih
      | some ev =>
        rw [List.filterMap_cons_some (heq.trans hevent), List.filterMap_cons_some hevent]
        exact ih
    · have hstep : st.onEvent parseTs cfg missionId (.hudNotification hud) =
          st.onEvent parseTs cfg missionId (.hudNotification hud') := by
        rw [MissionFold.onEvent_other parseTs cfg hother, htime,
          MissionFold.onEvent_other parseTs cfg hother']
        have hgap : st.afterGap parseTs cfg (.hudNotification hud) =
            st.afterGap parseTs cfg (.hudNotification hud') := by
          unfold MissionFold.afterGap ContractFold.gapBefore
          rw [show (GameEvent.hudNotification hud).timestamp =
            (GameEvent.hudNotification hud').timestamp from htime]
        rw [hgap]
      unfold missionFold classified
      rw [List.filterMap_cons_some hevent, List.filterMap_cons_some hevent', List.foldl_cons,
        List.foldl_cons, hstep]
      exact ih

end

/-- **Missions do not interfere**: what is reported of a mission does not depend on the banners of
others, and the report not on the order in which the open runs are drained. -/
theorem contractRuns_separate (parseTs : String → Option Int) (cfg : ContractConfig) :
    (∀ drain drain' events, deriveContractRuns parseTs cfg drain events =
      deriveContractRuns parseTs cfg drain' events) ∧
    ∀ drain drain' missionId events events', List.Forall₂ (SameFor missionId) events events' →
      (deriveContractRuns parseTs cfg drain events).filter (·.missionId = missionId) =
        (deriveContractRuns parseTs cfg drain' events').filter (·.missionId = missionId) := by
  constructor
  · intro drain drain' events
    refine deriveContractRuns_eq parseTs cfg fun missionId => ?_
    rw [filter_deriveContractRuns, filter_deriveContractRuns]
  · intro drain drain' missionId events events' h
    rw [filter_deriveContractRuns, filter_deriveContractRuns, missionFold_congr parseTs cfg h]

/-- A notification at a time, for a mission. -/
def bannerAt (ts text missionId : String) : EventEnvelope where
  idempotencyKey := ""
  rawLine := ""
  event := some (.hudNotification ⟨ts, text, 0, some missionId, none⟩)
  source := .live
  sourceOffset := 0
  metadata := none
  resolvedLocation := none

def DrainOrder.forwards : DrainOrder := ⟨fun _ runs => runs, fun _ _ => .refl _⟩

def DrainOrder.backwards : DrainOrder :=
  ⟨fun _ runs => runs.reverse, fun _ runs => runs.reverse_perm⟩

theorem contractRuns_separate_two :
    (deriveContractRuns (fun _ => none) .default .forwards
      [bannerAt "1" "Contract Accepted: x" "m", bannerAt "2" "Contract Accepted: y" "a"]).filter
        (·.missionId = "m") =
      (deriveContractRuns (fun _ => none) .default .backwards
        [bannerAt "1" "Contract Accepted: x" "m", bannerAt "2" "Contract Failed: z" "b"]).filter
          (·.missionId = "m") :=
  (contractRuns_separate (fun _ => none) .default).2 .forwards .backwards "m" _ _
    (.cons (.inl rfl) (.cons (.inr ⟨_, _, rfl, rfl, rfl, by decide, by decide⟩) .nil))

end StarStats
