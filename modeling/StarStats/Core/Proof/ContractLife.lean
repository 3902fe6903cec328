import Mathlib.Data.List.Dedup
import StarStats.Core.ContractLife

/-!
# What every reported run is

`ContractRun.StepsOk` is kept by each step banner, `ContractRun.Ok` is what `closeRun` makes of it,
and `ContractFold.Inv` is kept by each event: there is one run for each accept banner, open or
closed. `ContractRun.Tracks` ties a run to the step banners of its contract so far, and
`ContractFold.views_contractFold` the runs that the fold ends with to the contracts of the stream
(`deriveContractRuns_ok`).
-/

namespace StarStats

open Events

/-! ## Steps -/

namespace ContractRun

variable {run : ContractRun} {objectiveId text : String} {ts : Option String}
  {f : ContractStep → ContractStep}

/-- A step that is there is changed in its place. -/
theorem changeStep_cases {steps : List ContractStep} :
    (changeStep objectiveId f steps = none ∧ some objectiveId ∉ steps.map (·.objectiveId)) ∨
      ∃ before step after, steps = before ++ step :: after ∧
        step.objectiveId = some objectiveId ∧
        changeStep objectiveId f steps = some (before ++ f step :: after) := by
  induction steps with
  | nil => exact .inl ⟨rfl, by simp⟩
  | cons step steps ih =>
    unfold changeStep
    by_cases hid : step.objectiveId = some objectiveId
    · exact .inr ⟨[], step, steps, rfl, hid, if_pos hid⟩
    · rw [if_neg hid]
      rcases ih with ⟨hnone, hnew⟩ | ⟨before, found, after, rfl, hfound, hsome⟩
      · refine .inl ⟨by rw [hnone]; rfl, ?_⟩
        rw [List.map_cons, List.mem_cons, not_or]
        exact ⟨Ne.symm hid, hnew⟩
      · exact .inr ⟨step :: before, found, after, rfl, hfound, by rw [hsome]; rfl⟩

def KeepsPlace (f : ContractStep → ContractStep) : Prop :=
  ∀ step, (f step).objectiveId = step.objectiveId ∧ (f step).order = step.order

theorem StepsOk.change {before after : List ContractStep} {step : ContractStep}
    (h : run.StepsOk) (hsteps : run.steps = before ++ step :: after) (hf : KeepsPlace f) :
    ({ run with steps := before ++ f step :: after } : ContractRun).StepsOk := by
  obtain ⟨hid, horder⟩ := hf step
  constructor
  · have hold := h.order
    rw [hsteps] at hold
    simpa [horder] using hold
  · have hdistinct := h.distinct
    rw [hsteps] at hdistinct
    simpa [hid] using hdistinct

/-- A new step goes behind the others. -/
theorem StepsOk.append (h : run.StepsOk) (hnew : some objectiveId ∉ run.steps.map (·.objectiveId))
    (state : StepState) (startedAt completedAt : Option String) (historyPartial : Bool) :
    ({ run with
      steps := run.steps ++ [⟨some objectiveId, run.steps.length.toUInt32, some text, state,
        startedAt, completedAt⟩]
      partialHistory := historyPartial } : ContractRun).StepsOk := by
  constructor
  · rw [List.map_append, h.order, List.length_append, List.length_singleton, List.range_succ,
      List.map_append]
    rfl
  · rw [List.map_append, List.map_singleton]
    exact h.distinct.append (List.nodup_singleton _) (List.disjoint_singleton.2 hnew)

theorem StepsOk.upsertStep (h : run.StepsOk) : (run.upsertStep objectiveId text ts).StepsOk := by
  have hf : KeepsPlace fun step => { step with text := some text } := fun step => ⟨rfl, rfl⟩
  unfold ContractRun.upsertStep
  rcases changeStep_cases with ⟨hnone, hnew⟩ | ⟨before, step, after, hsteps, hid, hsome⟩
  · rw [hnone]
    exact h.append hnew ..
  · rw [hsome]
    exact h.change hsteps hf

theorem StepsOk.resolveStep (h : run.StepsOk) (state : StepState) :
    (resolveStep state run objectiveId text ts).StepsOk := by
  have hf : KeepsPlace fun step => { step with state := state, completedAt := ts } :=
    fun step => ⟨rfl, rfl⟩
  unfold ContractRun.resolveStep
  rcases changeStep_cases with ⟨hnone, hnew⟩ | ⟨before, step, after, hsteps, hid, hsome⟩
  · rw [hnone]
    exact h.append hnew ..
  · rw [hsome]
    exact h.change hsteps hf

theorem StepsOk.onStep (h : run.StepsOk) (verb : StepVerb) :
    (run.onStep verb objectiveId text ts).StepsOk := by
  have hstepped : ∀ run : ContractRun, run.StepsOk →
      ({ run with lastEventAt := ts } : ContractRun).StepsOk :=
    fun run h => ⟨h.order, h.distinct⟩
  cases verb with
  | new => exact hstepped _ h.upsertStep
  | complete => exact hstepped _ (h.resolveStep .complete)
  | withdrawn => exact hstepped _ (h.resolveStep .withdrawn)

theorem stepsOk_accept (missionId name : String) (ts connectedServer : Option String) :
    (accept missionId name ts connectedServer).StepsOk :=
  ⟨rfl, List.nodup_nil⟩

/-! ## The banners of a contract -/

theorem mem_objectives {banners : List (StepVerb × String)} :
    objectiveId ∈ objectives banners ↔ objectiveId ∈ banners.map (·.2) := by
  rw [objectives, List.mem_reverse, List.mem_dedup, List.mem_reverse]

theorem objectives_snoc (banners : List (StepVerb × String)) (verb : StepVerb) :
    objectives (banners ++ [(verb, objectiveId)]) =
      if objectiveId ∈ banners.map (·.2) then objectives banners
      else objectives banners ++ [objectiveId] := by
  unfold objectives
  rw [List.map_append, List.map_singleton, List.reverse_append, List.reverse_singleton,
    List.singleton_append]
  split
  · rename_i hmem
    rw [List.dedup_cons_of_mem (List.mem_reverse.2 hmem)]
  · rename_i hnew
    rw [List.dedup_cons_of_notMem (mt List.mem_reverse.1 hnew), List.reverse_cons]

/-- A further banner counts if it is the first of its objective. -/
theorem firstResolved_snoc (banners : List (StepVerb × String)) (verb : StepVerb) :
    firstResolved (banners ++ [(verb, objectiveId)]) =
      (firstResolved banners || (decide (objectiveId ∉ banners.map (·.2)) && verb ≠ .new)) := by
  have hfirst : ∀ banner ∈ banners, (banners ++ [(verb, objectiveId)]).find? (·.2 = banner.2) =
      banners.find? (·.2 = banner.2) := by
    intro banner hbanner
    have hsome : (banners.find? (·.2 = banner.2)).isSome = true :=
      List.find?_isSome.2 ⟨banner, hbanner, decide_eq_true rfl⟩
    rw [List.find?_append, Option.or_of_isSome hsome]
  have hold : (banners.any fun banner =>
      ((banners ++ [(verb, objectiveId)]).find? (·.2 = banner.2)).any (·.1 ≠ .new)) =
        firstResolved banners := by
    rw [firstResolved, Bool.eq_iff_iff, List.any_eq_true, List.any_eq_true]
    refine exists_congr fun banner => and_congr_right fun hbanner => ?_
    rw [hfirst banner hbanner]
  rw [firstResolved, List.any_append, hold, List.any_cons, List.any_nil, Bool.or_false]
  by_cases hmem : objectiveId ∈ banners.map (·.2)
  · obtain ⟨banner, hbanner, hsame⟩ := List.mem_map.1 hmem
    subst hsame
    rw [hfirst banner hbanner, decide_eq_false (not_not.2 hmem), Bool.false_and]
    -- the objective has counted with its first banner
    cases hany : (banners.find? (·.2 = banner.2)).any (·.1 ≠ .new) with
    | false => rfl
    | true =>
      have hbefore : firstResolved banners = true := List.any_eq_true.2 ⟨banner, hbanner, hany⟩
      rw [hbefore]
      rfl
  · have hnone : banners.find? (·.2 = objectiveId) = none := by
      rw [List.find?_eq_none]
      intro banner hbanner hsame
      exact hmem (List.mem_map.2 ⟨banner, hbanner, of_decide_eq_true hsame⟩)
    simp [List.find?_append, hnone, hmem]

/-- A run has a step for each objective of the banners, and knows whether one of them first
appeared resolved. -/
structure Tracks (run : ContractRun) (banners : List (StepVerb × String)) : Prop where
  steps : run.steps.map (·.objectiveId) = (objectives banners).map some
  history : run.partialHistory = firstResolved banners

theorem tracks_accept (missionId name : String) (ts connectedServer : Option String) :
    (accept missionId name ts connectedServer).Tracks [] :=
  ⟨rfl, rfl⟩

/-- A changed step is that of the same objective, in the same place. -/
theorem objectiveIds_change {f : ContractStep → ContractStep} {before after : List ContractStep}
    {step : ContractStep} (hf : KeepsPlace f) (hsteps : run.steps = before ++ step :: after)
    (hid : step.objectiveId = some objectiveId) :
    some objectiveId ∈ run.steps.map (·.objectiveId) ∧
      (before ++ f step :: after).map (·.objectiveId) = run.steps.map (·.objectiveId) := by
  rw [hsteps]
  simp [hid, (hf step).1]

/-- A resolved objective that was not seen before shows that the history is not whole. -/
theorem resolveStep_cases (run : ContractRun) (state : StepState) :
    let after := resolveStep state run objectiveId text ts
    (some objectiveId ∈ run.steps.map (·.objectiveId) ∧
      after.steps.map (·.objectiveId) = run.steps.map (·.objectiveId) ∧
      after.partialHistory = run.partialHistory) ∨
    (some objectiveId ∉ run.steps.map (·.objectiveId) ∧
      after.steps.map (·.objectiveId) = run.steps.map (·.objectiveId) ++ [some objectiveId] ∧
      after.partialHistory = true) := by
  simp only [resolveStep]
  rcases changeStep_cases with ⟨hnone, hnew⟩ | ⟨before, step, after, hsteps, hid, hsome⟩
  · rw [hnone]
    exact .inr ⟨hnew, List.map_append, rfl⟩
  · rw [hsome]
    obtain ⟨hmem, hids⟩ :=
      objectiveIds_change (f := fun step => { step with state := state, completedAt := ts })
        (fun step => ⟨rfl, rfl⟩) hsteps hid
    exact .inl ⟨hmem, hids, rfl⟩

/-- A step banner changes the step of its objective or adds it; only then, and only if it resolves
it, is the history not whole. -/
theorem onStep_cases (run : ContractRun) (verb : StepVerb) :
    let after := run.onStep verb objectiveId text ts
    (some objectiveId ∈ run.steps.map (·.objectiveId) ∧
      after.steps.map (·.objectiveId) = run.steps.map (·.objectiveId) ∧
      after.partialHistory = run.partialHistory) ∨
    (some objectiveId ∉ run.steps.map (·.objectiveId) ∧
      after.steps.map (·.objectiveId) = run.steps.map (·.objectiveId) ++ [some objectiveId] ∧
      after.partialHistory = (run.partialHistory || verb ≠ .new)) := by
  cases verb with
  | new =>
    simp only [onStep, upsertStep]
    rcases changeStep_cases with ⟨hnone, hnew⟩ | ⟨before, step, after, hsteps, hid, hsome⟩
    · rw [hnone]
      exact .inr ⟨hnew, List.map_append, (Bool.or_false _).symm⟩
    · rw [hsome]
      obtain ⟨hmem, hids⟩ := objectiveIds_change (f := fun step => { step with text := some text })
        (fun step => ⟨rfl, rfl⟩) hsteps hid
      exact .inl ⟨hmem, hids, rfl⟩
  | complete =>
    refine (run.resolveStep_cases .complete).imp_right fun ⟨hnew, hids, hhistory⟩ =>
      ⟨hnew, hids, ?_⟩
    exact hhistory.trans (Bool.or_true _).symm
  | withdrawn =>
    refine (run.resolveStep_cases .withdrawn).imp_right fun ⟨hnew, hids, hhistory⟩ =>
      ⟨hnew, hids, ?_⟩
    exact hhistory.trans (Bool.or_true _).symm

theorem Tracks.onStep {banners : List (StepVerb × String)} (h : run.Tracks banners)
    (verb : StepVerb) :
    (run.onStep verb objectiveId text ts).Tracks (banners ++ [(verb, objectiveId)]) := by
  have hmem : some objectiveId ∈ run.steps.map (·.objectiveId) ↔
      objectiveId ∈ banners.map (·.2) := by
    rw [h.steps, List.mem_map_of_injective (Option.some_injective _), mem_objectives]
  rcases onStep_cases run verb with ⟨hin, hids, hhistory⟩ | ⟨hnew, hids, hhistory⟩
  · rw [hmem] at hin
    refine ⟨?_, ?_⟩
    · rw [hids, h.steps, objectives_snoc, if_pos hin]
    · rw [hhistory, h.history, firstResolved_snoc]
      simp [hin]
  · rw [hmem] at hnew
    refine ⟨?_, ?_⟩
    · rw [hids, h.steps, objectives_snoc, if_neg hnew, List.map_append]
      rfl
    · rw [hhistory, h.history, firstResolved_snoc]
      simp [hnew]

/-! ## A run that is closed -/

/-- What fits loses nothing in a difference. -/
theorem saturatingSub_toNat {n k : Nat} (hfits : n < UInt32.size) (hle : k ≤ n) :
    (saturatingSub n.toUInt32 k.toUInt32).toNat + k.toUInt32.toNat = n.toUInt32.toNat := by
  have hn : n.toUInt32.toNat = n := UInt32.toNat_ofNat_of_lt' hfits
  have hk : k.toUInt32.toNat = k := UInt32.toNat_ofNat_of_lt' (hle.trans_lt hfits)
  have hle' : k.toUInt32 ≤ n.toUInt32 := by
    rw [UInt32.le_iff_toNat_le, hn, hk]
    exact hle
  rw [saturatingSub, if_pos hle', UInt32.toNat_sub_of_le _ _ hle', hn, hk]
  exact Nat.sub_add_cancel hle

theorem StepsOk.closeRun (h : run.StepsOk) (hopen : run.closedAt = none) {state : ContractState}
    {closedBy : ClosedBy} {closedAt : Option String}
    (houtcome : (state, closedBy) ∈ consistentOutcomes)
    (hclosed : closedAt.isSome = true ↔ closedBy ≠ .none) :
    (run.closeRun state closedBy closedAt).Ok where
  order := h.order
  distinct := h.distinct
  count := rfl
  complete := rfl
  remaining hfits := saturatingSub_toNat hfits List.countP_le_length
  closed := by
    show (closedAt.or run.closedAt).isSome = true ↔ closedBy ≠ .none
    rw [hopen, Option.or_none]
    exact hclosed
  outcome := houtcome
  inProgress := decide_eq_true_iff

theorem Ok.state_ne (h : run.Ok) (hclosed : run.closedBy ≠ .none) : run.state ≠ .inProgress := by
  intro hstate
  have houtcome := h.outcome
  rw [hstate] at houtcome
  revert hclosed houtcome
  cases run.closedBy <;> decide

theorem resolveStep_eq (run : ContractRun) (state : StepState) :
    ∃ steps historyPartial, resolveStep state run objectiveId text ts =
      { run with steps := steps, partialHistory := historyPartial } := by
  unfold resolveStep
  split
  · exact ⟨_, _, rfl⟩
  · exact ⟨_, _, rfl⟩

theorem upsertStep_eq (run : ContractRun) :
    ∃ steps, run.upsertStep objectiveId text ts = { run with steps := steps } := by
  unfold upsertStep
  split
  · exact ⟨_, rfl⟩
  · exact ⟨_, rfl⟩

/-- A banner of a step writes the steps and whether their history is whole, and its time. -/
theorem onStep_eq (run : ContractRun) (verb : StepVerb) :
    ∃ steps historyPartial, run.onStep verb objectiveId text ts =
      { run with steps := steps, partialHistory := historyPartial, lastEventAt := ts } := by
  cases verb with
  | new =>
    obtain ⟨steps, heq⟩ := @upsertStep_eq objectiveId text ts run
    exact ⟨steps, run.partialHistory, congrArg (fun r => { r with lastEventAt := ts }) heq⟩
  | complete =>
    obtain ⟨steps, historyPartial, heq⟩ := @resolveStep_eq objectiveId text ts run .complete
    exact ⟨steps, historyPartial, congrArg (fun r => { r with lastEventAt := ts }) heq⟩
  | withdrawn =>
    obtain ⟨steps, historyPartial, heq⟩ := @resolveStep_eq objectiveId text ts run .withdrawn
    exact ⟨steps, historyPartial, congrArg (fun r => { r with lastEventAt := ts }) heq⟩

theorem acceptance_onStep (run : ContractRun) (verb : StepVerb) :
    (run.onStep verb objectiveId text ts).acceptance = run.acceptance := by
  obtain ⟨steps, historyPartial, heq⟩ := onStep_eq run verb
  rw [heq]
  rfl

theorem closedAt_onStep (run : ContractRun) (verb : StepVerb) :
    (run.onStep verb objectiveId text ts).closedAt = run.closedAt := by
  obtain ⟨steps, historyPartial, heq⟩ := onStep_eq run verb
  rw [heq]

end ContractRun

/-! ## The fold -/

namespace ContractFold

/-- Closed runs are as they are reported, open ones have well-formed steps, and together they are
those of the accept banners so far. -/
structure Inv (st : ContractFold) (accepts : List (String × String × Option String)) : Prop where
  closed : ∀ run ∈ st.runs, run.Ok ∧ run.closedBy ≠ .none
  opened : ∀ run ∈ st.opened.rows, run.StepsOk ∧ run.closedAt = none
  accepted : ((st.runs ++ st.opened.rows).map (·.acceptance)).Perm accepts
  timed : st.lastTs.isSome = true → st.lastTsStr.isSome = true

variable {st : ContractFold} {accepts : List (String × String × Option String)}
  {state : ContractState} {closedBy : ClosedBy} {closedAt : Option String}

theorem inv_start : Inv .start [] :=
  ⟨by simp [start], by simp [start, Keyed.empty], .refl _, by simp [start]⟩

/-- An event closes runs for a reason, at a time. -/
structure Closing (state : ContractState) (closedBy : ClosedBy) (closedAt : Option String) :
    Prop where
  outcome : (state, closedBy) ∈ consistentOutcomes
  reason : closedBy ≠ .none
  timed : closedAt.isSome = true

theorem Inv.closeAll {order : List ContractRun → List ContractRun}
    (horder : ∀ runs, (order runs).Perm runs) (h : st.Inv accepts)
    (hclosing : Closing state closedBy closedAt) :
    (st.closeAll order state closedBy closedAt).Inv accepts where
  closed run hrun := by
    rcases List.mem_append.1 hrun with hrun | hrun
    · exact h.closed run hrun
    · obtain ⟨open', hopen, rfl⟩ := List.mem_map.1 hrun
      obtain ⟨hsteps, hnone⟩ := h.opened open' ((horder _).mem_iff.1 hopen)
      exact ⟨hsteps.closeRun hnone hclosing.outcome (iff_of_true hclosing.timed hclosing.reason),
        hclosing.reason⟩
  opened run hrun := by cases hrun
  accepted := by
    refine List.Perm.trans ?_ h.accepted
    show ((st.runs ++ (order st.opened.rows).map _ ++ []).map _).Perm _
    rw [List.append_nil, List.map_append, List.map_append, List.map_map]
    exact ((horder _).map _).append_left _
  timed := h.timed

theorem Inv.closeOne (h : st.Inv accepts) (missionId : String)
    (hclosing : Closing state closedBy closedAt) :
    (st.closeOne missionId state closedBy closedAt).Inv accepts where
  closed run hrun := by
    rcases List.mem_append.1 hrun with hrun | hrun
    · exact h.closed run hrun
    · obtain ⟨found, hfound, rfl⟩ := Option.map_eq_some_iff.1 (Option.mem_toList.1 hrun)
      obtain ⟨hsteps, hnone⟩ := h.opened found (Keyed.of_get hfound).1
      exact ⟨hsteps.closeRun hnone hclosing.outcome (iff_of_true hclosing.timed hclosing.reason),
        hclosing.reason⟩
  opened run hrun := h.opened run (List.mem_filter.1 hrun).1
  accepted := by
    refine List.Perm.trans ?_ h.accepted
    have hrows := ((st.opened.rows_perm missionId).map (·.acceptance)).append_left
      (st.runs.map (·.acceptance))
    have hclosed : (((st.opened.get missionId).map (·.closeRun state closedBy closedAt)).toList).map
        (·.acceptance) = (st.opened.get missionId).toList.map (·.acceptance) := by
      cases st.opened.get missionId <;> rfl
    show ((st.runs ++ _ ++ (st.opened.filter _).rows).map _).Perm _
    rw [List.map_append, List.map_append, hclosed, List.map_append, List.append_assoc,
      ← List.map_append]
    exact hrows
  timed := h.timed

theorem get_closeOne (missionId : String) :
    (st.closeOne missionId state closedBy closedAt).opened.get missionId = none := by
  show (st.opened.filter _).get missionId = none
  rw [Keyed.get_filter]
  cases hget : st.opened.get missionId with
  | none => rfl
  | some run => simp [(Keyed.of_get hget).2]

theorem Inv.insert (h : st.Inv accepts) {run : ContractRun}
    (hrun : run.StepsOk ∧ run.closedAt = none) (hnew : st.opened.get run.missionId = none) :
    ({ st with opened := st.opened.insertNew run } : ContractFold).Inv
      (accepts ++ [run.acceptance]) := by
  have hrows : (st.opened.insertNew run).rows = st.opened.rows ++ [run] := by
    rw [Keyed.insertNew, dif_pos hnew]
    rfl
  refine ⟨h.closed, fun r hr => ?_, ?_, h.timed⟩
  · rw [hrows] at hr
    rcases List.mem_append.1 hr with hr | hr
    · exact h.opened r hr
    · rw [List.mem_singleton.1 hr]
      exact hrun
  · rw [hrows, ← List.append_assoc, List.map_append]
    exact h.accepted.append_right _

theorem Inv.modify (h : st.Inv accepts) (missionId : String) (verb : StepVerb)
    (objectiveId text : String) (ts : Option String) :
    ({ st with
      opened := st.opened.modify missionId (·.onStep verb objectiveId text ts)
        fun run => run.missionId_onStep verb objectiveId text ts } : ContractFold).Inv accepts where
  closed := h.closed
  opened run hrun := by
    have hkeeps : ∀ run : ContractRun,
      (run.onStep verb objectiveId text ts).missionId = run.missionId :=
      fun run => run.missionId_onStep verb objectiveId text ts
    rcases (@Keyed.mem_modify _ _ _ _ st.opened _ run _ hkeeps).1 hrun with
      ⟨hrun, -⟩ | ⟨found, hfound, rfl⟩
    · exact h.opened run hrun
    · obtain ⟨hsteps, hnone⟩ := h.opened found (Keyed.of_get hfound).1
      exact ⟨hsteps.onStep verb, (ContractRun.closedAt_onStep found verb).trans hnone⟩
  accepted := by
    refine List.Perm.trans ?_ h.accepted
    show ((st.runs ++ st.opened.rows.map _).map _).Perm _
    rw [List.map_append, List.map_append, List.map_map]
    refine .append_left _ (.of_eq (List.map_congr_left fun run _ => ?_))
    dsimp only [Function.comp_apply]
    split
    · exact ContractRun.acceptance_onStep run verb
    · rfl
  timed := h.timed

/-- What a banner accepts. -/
def accepting (missionId : String) (ts : Option String) :
    MissionBanner → List (String × String × Option String)
  | .contract verb name => if verb = .accepted then [(missionId, name, ts)] else []
  | .step _ _ _ => []

theorem Inv.onBanner (h : st.Inv accepts) (missionId ts : String) (banner : MissionBanner) :
    (st.onBanner missionId (some ts) banner).Inv
      (accepts ++ accepting missionId (some ts) banner) := by
  have hclose : ∀ {state closedBy}, Closing state closedBy (some ts) →
      (st.closeOne missionId state closedBy (some ts)).Inv (accepts ++ []) := by
    intro state closedBy hclosing
    rw [List.append_nil]
    exact h.closeOne missionId hclosing
  cases banner with
  | contract verb name =>
    cases verb with
    | accepted =>
      exact (h.closeOne missionId ⟨by decide, by decide, rfl⟩).insert
        ⟨ContractRun.stepsOk_accept .., rfl⟩ (get_closeOne missionId)
    | complete => exact hclose ⟨by decide, by decide, rfl⟩
    | failed => exact hclose ⟨by decide, by decide, rfl⟩
    | withdrawn => exact hclose ⟨by decide, by decide, rfl⟩
  | step verb objectiveId text =>
    rw [accepting, List.append_nil]
    exact h.modify missionId verb objectiveId text (some ts)

/-- What a notification accepts is what its banner does. -/
theorem acceptBanner_hud {hud : HudNotification} {missionId : String}
    (hmission : hud.missionId = some missionId) (hzero : missionId ≠ zeroGuid) :
    (acceptBanner (.hudNotification hud)).toList = (missionBanner hud).elim []
      (accepting missionId (some hud.timestamp)) := by
  have hkept : hud.missionId.filter (· ≠ zeroGuid) = some missionId := by
    rw [hmission]
    exact Option.filter_some_pos (decide_eq_true hzero)
  unfold acceptBanner missionBanner
  dsimp only
  rw [hkept]
  cases hverb : contractVerb hud.text with
  | some found =>
    obtain ⟨verb, name⟩ := found
    by_cases haccepted : verb = .accepted <;> simp [accepting, haccepted]
  | none =>
    cases stepVerb hud.text <;> cases hud.objectiveId <;> rfl

theorem Inv.handleHud (h : st.Inv accepts) (hud : HudNotification) :
    (st.handleHud hud (some hud.timestamp)).Inv
      (accepts ++ (acceptBanner (.hudNotification hud)).toList) := by
  unfold ContractFold.handleHud
  cases hmission : hud.missionId with
  | none => simpa [acceptBanner, hmission] using h
  | some missionId =>
    by_cases hzero : missionId = zeroGuid
    · simpa [acceptBanner, hmission, hzero, Option.filter_some] using h
    · rw [acceptBanner_hud hmission hzero]
      simp only [hzero, if_false]
      cases missionBanner hud with
      | none => simpa using h
      | some banner => exact h.onBanner missionId hud.timestamp banner

section
variable {parseTs : String → Option Int} {cfg : ContractConfig} {ev : GameEvent}
  {order : List ContractRun → List ContractRun}

theorem Inv.onEvent (horder : ∀ runs, (order runs).Perm runs) (h : st.Inv accepts) :
    (st.onEvent parseTs cfg order ev).Inv (accepts ++ (acceptBanner ev).toList) := by
  have hgap : (st.afterGap parseTs cfg order ev).Inv accepts := by
    unfold ContractFold.afterGap
    split
    · rename_i hfar
      -- a gap is seen behind an event, and that one has a text
      have hlast : st.lastTs.isSome = true := by
        unfold gapBefore at hfar
        split at hfar
        · rename_i hlast
          rw [hlast]
          rfl
        · cases hfar
      exact h.closeAll horder ⟨by decide, by decide, h.timed hlast⟩
    · exact h
  have hreact : ((st.afterGap parseTs cfg order ev).react order ev).Inv
      (accepts ++ (acceptBanner ev).toList) := by
    have hother : ∀ {st : ContractFold}, st.Inv accepts → st.Inv (accepts ++ []) := by
      intro st h
      rwa [List.append_nil]
    unfold ContractFold.react
    split
    case h_1 join =>
      have hjoined : (if shardChanges (st.afterGap parseTs cfg order (.joinPu join)).currentShard
          join then (st.afterGap parseTs cfg order (.joinPu join)).closeAll order .abandoned
            .shardChange (some join.timestamp)
          else st.afterGap parseTs cfg order (.joinPu join)).Inv accepts := by
        split
        · exact hgap.closeAll horder ⟨by decide, by decide, rfl⟩
        · exact hgap
      exact hother ⟨hjoined.closed, hjoined.opened, hjoined.accepted, hjoined.timed⟩
    case h_2 => exact hother (hgap.closeAll horder ⟨by decide, by decide, rfl⟩)
    case h_3 => exact hother (hgap.closeAll horder ⟨by decide, by decide, rfl⟩)
    case h_4 hud => exact hgap.handleHud hud
    case h_5 hjoin hend hcrash hhud =>
      have hnone : acceptBanner ev = none := by
        unfold acceptBanner
        split
        · rename_i hud
          exact absurd rfl (hhud hud)
        · rfl
      rw [hnone]
      exact hother hgap
  exact ⟨hreact.closed, hreact.opened, hreact.accepted, fun _ => rfl⟩

/-- The runs that are open at the end are reported as in progress or unknown. -/
theorem Inv.finish (horder : ∀ runs, (order runs).Perm runs) (h : st.Inv accepts) :
    (∀ run ∈ st.finish parseTs cfg order, run.Ok) ∧
      ((st.finish parseTs cfg order).map (·.acceptance)).Perm accepts ∧
      (((st.finish parseTs cfg order).filter (·.state = .inProgress)).map
        (·.missionId)).Nodup := by
  have hopen : ∀ run ∈ order st.opened.rows, run.StepsOk ∧ run.closedAt = none :=
    fun run hrun => h.opened run ((horder _).mem_iff.1 hrun)
  refine ⟨fun run hrun => ?_, ?_, ?_⟩
  · rcases List.mem_append.1 hrun with hrun | hrun
    · exact (h.closed run hrun).1
    · obtain ⟨found, hfound, rfl⟩ := List.mem_map.1 hrun
      obtain ⟨hsteps, hnone⟩ := hopen found hfound
      refine hsteps.closeRun hnone ?_ (by simp)
      unfold finalState
      split
      · split <;> decide
      · decide
  · refine List.Perm.trans ?_ h.accepted
    rw [ContractFold.finish, List.map_append, List.map_append, List.map_map]
    exact ((horder _).map _).append_left _
  · -- of the closed runs none is in progress
    have hclosed : st.runs.filter (·.state = .inProgress) = [] := by
      refine List.filter_eq_nil_iff.2 fun run hrun hstate => ?_
      obtain ⟨hok, hreason⟩ := h.closed run hrun
      exact hok.state_ne hreason (of_decide_eq_true hstate)
    rw [ContractFold.finish, List.filter_append, hclosed, List.nil_append]
    refine List.Nodup.sublist (List.filter_sublist.map _) ?_
    rw [List.map_map]
    exact (((horder _).map _).nodup_iff).2 st.opened.unique

end

theorem Inv.contractFold (parseTs : String → Option Int) (cfg : ContractConfig)
    (drain : DrainOrder) {n : Nat} (h : st.Inv accepts) (events : List EventEnvelope) :
    (contractFold parseTs cfg drain n st events).Inv
      (accepts ++ (classified events).filterMap acceptBanner) := by
  induction events generalizing n st accepts with
  | nil => simpa [contractFold, classified] using h
  | cons env rest ih =>
    unfold StarStats.contractFold
    cases hevent : env.event with
    | none =>
      have hskip : classified (env :: rest) = classified rest := List.filterMap_cons_none hevent
      rw [hskip]
      exact ih h
    | some ev =>
      have hevents : classified (env :: rest) = ev :: classified rest :=
        List.filterMap_cons_some hevent
      have hstep : (st.onEvent parseTs cfg (drain.order n) ev).Inv
          (accepts ++ (acceptBanner ev).toList) := h.onEvent (drain.perm n)
      have hrest := @ih _ _ (n + 1) hstep
      rw [hevents, List.filterMap_cons]
      cases hbanner : acceptBanner ev <;> simpa [hbanner] using hrest

/-! ## The contracts of the stream -/

variable {seen : String → List (StepVerb × String)} {missionId : String} {ts : Option String}

/-- `seen` are the step banners of the open runs so far. -/
def TracksAll (st : ContractFold) (seen : String → List (StepVerb × String)) : Prop :=
  ∀ run ∈ st.opened.rows, run.missionId ≠ zeroGuid ∧ run.Tracks (seen run.missionId)

/-- What the runs will show, given the step banners that the open ones still get. -/
def views (st : ContractFold) (seen ahead : String → List (StepVerb × String)) :
    List ContractView :=
  st.runs.map (·.view) ++ st.opened.rows.map fun run =>
    ContractLife.view ⟨run.acceptance, seen run.missionId ++ ahead run.missionId⟩

theorem view_of_tracks {run : ContractRun} {banners : List (StepVerb × String)}
    (h : run.Tracks banners) : run.view = ContractLife.view ⟨run.acceptance, banners⟩ := by
  rw [ContractRun.view, ContractLife.view, h.steps, h.history]

theorem views_congr {ahead ahead' : String → List (StepVerb × String)}
    (h : ∀ run ∈ st.opened.rows, ahead run.missionId = ahead' run.missionId) :
    st.views seen ahead = st.views seen ahead' := by
  rw [views, views]
  refine congrArg _ (List.map_congr_left fun run hrun => ?_)
  rw [h run hrun]

theorem views_of_nothing_ahead (h : st.TracksAll seen) :
    st.views seen (fun _ => []) = (st.runs ++ st.opened.rows).map (·.view) := by
  rw [views, List.map_append]
  refine congrArg _ (List.map_congr_left fun run hrun => ?_)
  rw [List.append_nil, view_of_tracks (h run hrun).2]

/-- A run that is closed shows what it has. -/
theorem views_closeAll {order : List ContractRun → List ContractRun}
    (horder : ∀ runs, (order runs).Perm runs) (h : st.TracksAll seen)
    (seen' ahead : String → List (StepVerb × String)) :
    ((st.closeAll order state closedBy closedAt).views seen' ahead).Perm
      (st.views seen fun _ => []) := by
  rw [views_of_nothing_ahead h]
  show (((st.runs ++ (order st.opened.rows).map _).map _) ++ []).Perm _
  rw [List.append_nil, List.map_append, List.map_append, List.map_map]
  exact ((horder _).map _).append_left _

theorem views_closeOne (h : st.TracksAll seen) (missionId : String)
    (ahead : String → List (StepVerb × String)) :
    ((st.closeOne missionId state closedBy closedAt).views seen ahead).Perm
      (st.views seen fun m => if m = missionId then [] else ahead m) := by
  have hclosed : ((st.opened.get missionId).map (·.closeRun state closedBy closedAt)).toList.map
      (·.view) = (st.opened.get missionId).toList.map fun run => ContractLife.view
        ⟨run.acceptance, seen run.missionId ++ if run.missionId = missionId then []
          else ahead run.missionId⟩ := by
    cases hget : st.opened.get missionId with
    | none => rfl
    | some run =>
      obtain ⟨hrun, hkey⟩ := Keyed.of_get hget
      have hview := view_of_tracks (h run hrun).2
      simp only [Option.map_some, Option.toList_some, List.map_singleton, hkey, if_true,
        List.append_nil]
      rw [← hkey, ← hview]
      rfl
  have hothers : ((st.opened.filter (·.missionId ≠ missionId)).rows.map fun run =>
      ContractLife.view ⟨run.acceptance, seen run.missionId ++ ahead run.missionId⟩) =
        (st.opened.filter (·.missionId ≠ missionId)).rows.map fun run => ContractLife.view
          ⟨run.acceptance, seen run.missionId ++ if run.missionId = missionId then []
            else ahead run.missionId⟩ := by
    refine List.map_congr_left fun run hrun => ?_
    rw [if_neg (of_decide_eq_true (List.mem_filter.1 hrun).2)]
  show ((st.runs ++ _).map _ ++ (st.opened.filter _).rows.map _).Perm _
  rw [List.map_append, hclosed, hothers, List.append_assoc, ← List.map_append]
  exact ((st.opened.rows_perm missionId).map _).append_left _

theorem tracksAll_closeOne (h : st.TracksAll seen) (missionId : String) :
    (st.closeOne missionId state closedBy closedAt).TracksAll seen :=
  fun run hrun => h run (List.mem_filter.1 hrun).1

/-- What a banner makes of the banners ahead of its mission. -/
def aheadOf (ahead : List (StepVerb × String)) : MissionBanner → List (StepVerb × String)
  | .contract _ _ => []
  | .step verb objectiveId _ => (verb, objectiveId) :: ahead

theorem views_accept (h : st.TracksAll seen) (hmission : missionId ≠ zeroGuid)
    (hnew : st.opened.get missionId = none) (name : String)
    (ahead : String → List (StepVerb × String)) :
    let run := ContractRun.accept missionId name ts st.currentShard
    let st' : ContractFold := { st with opened := st.opened.insertNew run }
    let seen' := fun m => if m = missionId then [] else seen m
    st'.TracksAll seen' ∧ st'.views seen' ahead =
      st.views seen ahead ++ [ContractLife.view ⟨(missionId, name, ts), ahead missionId⟩] := by
  intro run st' seen'
  have hrows : st'.opened.rows = st.opened.rows ++ [run] := by
    show (st.opened.insertNew run).rows = _
    rw [Keyed.insertNew, dif_pos (show st.opened.get run.missionId = none from hnew)]
    rfl
  have hother : ∀ r ∈ st.opened.rows, seen' r.missionId = seen r.missionId :=
    fun r hr => if_neg (Keyed.get_eq_none.1 hnew r hr)
  constructor
  · intro r hr
    rw [hrows] at hr
    rcases List.mem_append.1 hr with hr | hr
    · rw [hother r hr]
      exact h r hr
    · rw [List.mem_singleton.1 hr]
      refine ⟨hmission, ?_⟩
      rw [show seen' run.missionId = [] from if_pos rfl]
      exact ContractRun.tracks_accept ..
  · have hold : (st.opened.rows.map fun run => ContractLife.view
        ⟨run.acceptance, seen' run.missionId ++ ahead run.missionId⟩) =
          st.opened.rows.map fun run => ContractLife.view
            ⟨run.acceptance, seen run.missionId ++ ahead run.missionId⟩ := by
      refine List.map_congr_left fun r hr => ?_
      rw [hother r hr]
    rw [views, hrows, List.map_append, hold, List.map_singleton, ← List.append_assoc,
      show seen' run.missionId = [] from if_pos rfl, List.nil_append]
    rfl

theorem views_step (h : st.TracksAll seen) (verb : StepVerb) (objectiveId text : String)
    (ahead : String → List (StepVerb × String)) :
    let st' : ContractFold := { st with
      opened := st.opened.modify missionId (·.onStep verb objectiveId text ts)
        fun run => run.missionId_onStep verb objectiveId text ts }
    let seen' := fun m => if m = missionId then seen m ++ [(verb, objectiveId)] else seen m
    st'.TracksAll seen' ∧ st'.views seen' ahead = st.views seen fun m =>
      if m = missionId then (verb, objectiveId) :: ahead m else ahead m := by
  intro st' seen'
  have hkeeps : ∀ run : ContractRun,
      (run.onStep verb objectiveId text ts).missionId = run.missionId :=
    fun run => run.missionId_onStep verb objectiveId text ts
  constructor
  · intro r hr
    rcases (@Keyed.mem_modify _ _ _ _ st.opened _ r _ hkeeps).1 hr with
      ⟨hr, hne⟩ | ⟨found, hfound, rfl⟩
    · rw [show seen' r.missionId = seen r.missionId from if_neg hne]
      exact h r hr
    · obtain ⟨hrun, hkey⟩ := Keyed.of_get hfound
      obtain ⟨hzero, htracks⟩ := h found hrun
      rw [hkeeps]
      refine ⟨hzero, ?_⟩
      rw [show seen' found.missionId = seen found.missionId ++ [(verb, objectiveId)] from
        if_pos hkey]
      exact htracks.onStep verb
  · rw [views, views]
    refine congrArg _ ?_
    show (st.opened.rows.map _).map _ = _
    rw [List.map_map]
    refine List.map_congr_left fun run _ => ?_
    by_cases hkey : run.missionId = missionId
    · simp only [Function.comp_apply, hkey, if_true, seen', hkeeps,
        ContractRun.acceptance_onStep, List.append_assoc, List.singleton_append]
    · simp only [Function.comp_apply, hkey, if_false, seen']

theorem views_onBanner (h : st.TracksAll seen) (hmission : missionId ≠ zeroGuid)
    (banner : MissionBanner) (ahead : String → List (StepVerb × String)) :
    ∃ seen', (st.onBanner missionId ts banner).TracksAll seen' ∧
      ((st.onBanner missionId ts banner).views seen' ahead).Perm
        ((st.views seen fun m => if m = missionId then aheadOf (ahead m) banner else ahead m) ++
          (accepting missionId ts banner).map fun acceptance =>
            ContractLife.view ⟨acceptance, ahead acceptance.1⟩) := by
  have hclose : ∀ {state closedBy},
      ((st.closeOne missionId state closedBy ts).views seen ahead).Perm
        ((st.views seen fun m => if m = missionId then [] else ahead m) ++ []) := by
    intro state closedBy
    rw [List.append_nil]
    exact views_closeOne h missionId ahead
  cases banner with
  | contract verb name =>
    cases verb with
    | accepted =>
      have hclosed : (st.closeOne missionId .superseded .superseded ts).TracksAll seen :=
        tracksAll_closeOne h missionId
      obtain ⟨htracks, hviews⟩ := views_accept hclosed hmission (get_closeOne missionId) name ahead
      refine ⟨_, htracks, ?_⟩
      refine (List.Perm.of_eq hviews).trans ?_
      exact (views_closeOne h missionId ahead).append_right _
    | complete => exact ⟨seen, tracksAll_closeOne h missionId, hclose⟩
    | failed => exact ⟨seen, tracksAll_closeOne h missionId, hclose⟩
    | withdrawn => exact ⟨seen, tracksAll_closeOne h missionId, hclose⟩
  | step verb objectiveId text =>
    obtain ⟨htracks, hviews⟩ := views_step h verb objectiveId text ahead
    refine ⟨_, htracks, ?_⟩
    rw [accepting, List.map_nil, List.append_nil]
    exact .of_eq hviews

/-- A text is a banner of the contract or of a step, not both. -/
theorem isSome_contractVerb (hud : HudNotification) :
    (contractVerb hud.text).isSome = true ↔
      ∃ verb name, missionBanner hud = some (.contract verb name) := by
  unfold missionBanner
  cases contractVerb hud.text with
  | some found => simp
  | none =>
    cases stepVerb hud.text <;> cases hud.objectiveId <;> simp

/-- What a notification of the mission makes of the banners ahead. -/
theorem aheadOf_hud {hud : HudNotification} {banner : MissionBanner} {shard : Option String}
    (hmission : hud.missionId = some missionId) (hbanner : missionBanner hud = some banner)
    (ahead : List (StepVerb × String)) :
    (if endsContract shard missionId (.hudNotification hud) then []
      else (stepBanner missionId (.hudNotification hud)).toList ++ ahead) =
      aheadOf ahead banner := by
  cases banner with
  | contract verb name =>
    have hends : endsContract shard missionId (.hudNotification hud) = true := by
      rw [endsContract, Bool.and_eq_true, decide_eq_true_eq]
      exact ⟨hmission, (isSome_contractVerb hud).2 ⟨verb, name, hbanner⟩⟩
    rw [if_pos hends]
    rfl
  | step verb objectiveId text =>
    have hends : ¬ endsContract shard missionId (.hudNotification hud) = true := by
      rw [endsContract, Bool.and_eq_true, not_and, isSome_contractVerb, hbanner]
      simp
    rw [if_neg hends, stepBanner, if_pos hmission, hbanner]
    rfl

/-- A notification that is no banner of the mission leaves it alone. -/
theorem ahead_of_other {hud : HudNotification} {shard : Option String}
    (hother : hud.missionId ≠ some missionId ∨ missionBanner hud = none)
    (ahead : List (StepVerb × String)) :
    (if endsContract shard missionId (.hudNotification hud) then []
      else (stepBanner missionId (.hudNotification hud)).toList ++ ahead) = ahead := by
  have hends : ¬ endsContract shard missionId (.hudNotification hud) = true := by
    rw [endsContract, Bool.and_eq_true, not_and, decide_eq_true_eq, isSome_contractVerb]
    rintro hsame ⟨verb, name, hbanner⟩
    rcases hother with hne | hnone
    · exact hne hsame
    · rw [hnone] at hbanner
      cases hbanner
  have hstep : stepBanner missionId (.hudNotification hud) = none := by
    unfold stepBanner
    dsimp only
    split
    · rename_i hsame
      rw [hother.resolve_left (not_not.2 hsame)]
    · rfl
  rw [if_neg hends, hstep]
  rfl

/-- What an event makes of the banners ahead of a mission, gaps apart. -/
def aheadAfter (shard : Option String) (ev : GameEvent)
    (ahead : String → List (StepVerb × String)) (missionId : String) : List (StepVerb × String) :=
  if endsContract shard missionId ev then []
  else (stepBanner missionId ev).toList ++ ahead missionId

/-- The contract that an event accepts, with what is ahead of it. -/
def acceptedLives (ev : GameEvent) (ahead : String → List (StepVerb × String)) :
    List ContractView :=
  (acceptBanner ev).toList.map fun acceptance =>
    ContractLife.view ⟨acceptance, ahead acceptance.1⟩

theorem views_handleHud (h : st.TracksAll seen) (hud : HudNotification)
    (ahead : String → List (StepVerb × String)) :
    ∃ seen', (st.handleHud hud (some hud.timestamp)).TracksAll seen' ∧
      ((st.handleHud hud (some hud.timestamp)).views seen' ahead).Perm
        (st.views seen (aheadAfter st.currentShard (.hudNotification hud) ahead) ++
          acceptedLives (.hudNotification hud) ahead) := by
  -- nothing happens: no mission, none of its banners
  have hsame : (∀ m, m ≠ zeroGuid → hud.missionId ≠ some m ∨ missionBanner hud = none) →
      acceptBanner (.hudNotification hud) = none →
        ∃ seen', st.TracksAll seen' ∧ (st.views seen' ahead).Perm
          (st.views seen (aheadAfter st.currentShard (.hudNotification hud) ahead) ++
            acceptedLives (.hudNotification hud) ahead) := by
    intro hother hnone
    refine ⟨seen, h, .of_eq ?_⟩
    rw [acceptedLives, hnone, Option.toList_none, List.map_nil, List.append_nil]
    exact (views_congr fun run hrun => ahead_of_other (hother _ (h run hrun).1) _).symm
  unfold ContractFold.handleHud
  cases hmission : hud.missionId with
  | none => exact hsame (fun m _ => .inl (by simp [hmission])) (by simp [acceptBanner, hmission])
  | some missionId =>
    by_cases hzero : missionId = zeroGuid
    · simp only [hzero, if_true]
      refine hsame (fun m hm => .inl ?_)
        (by simp [acceptBanner, hmission, hzero, Option.filter_some])
      rw [hmission, hzero]
      exact fun heq => hm (Option.some.inj heq).symm
    · simp only [hzero, if_false]
      have haccept := acceptBanner_hud hmission hzero
      cases hbanner : missionBanner hud with
      | none =>
        rw [hbanner] at haccept
        exact hsame (fun _ _ => .inr hbanner) (Option.toList_eq_nil_iff.1 haccept)
      | some banner =>
        rw [hbanner] at haccept
        obtain ⟨seen', htracks, hviews⟩ := views_onBanner h hzero banner ahead
        refine ⟨seen', htracks, hviews.trans (.of_eq ?_)⟩
        rw [acceptedLives, haccept]
        refine congrArg (· ++ _) (views_congr fun run _ => ?_)
        by_cases hkey : run.missionId = missionId
        · rw [if_pos hkey, aheadAfter, hkey]
          exact (aheadOf_hud hmission hbanner _).symm
        · rw [if_neg hkey, aheadAfter]
          refine (ahead_of_other (.inl ?_) _).symm
          rw [hmission]
          exact fun heq => hkey (Option.some.inj heq).symm

section
variable {parseTs : String → Option Int} {cfg : ContractConfig} {ev : GameEvent}
  {order : List ContractRun → List ContractRun}

theorem tracksAll_closeAll (seen' : String → List (StepVerb × String)) :
    (st.closeAll order state closedBy closedAt).TracksAll seen' :=
  fun _ hrun => by cases hrun

theorem views_react (horder : ∀ runs, (order runs).Perm runs) (h : st.TracksAll seen)
    (ahead : String → List (StepVerb × String)) :
    ∃ seen', (st.react order ev).TracksAll seen' ∧ ((st.react order ev).views seen' ahead).Perm
      (st.views seen (aheadAfter st.currentShard ev ahead) ++ acceptedLives ev ahead) := by
  have hnone : acceptBanner ev = none → acceptedLives ev ahead = [] := by
    intro hnone
    rw [acceptedLives, hnone]
    rfl
  have hclosed : ∀ {state closedBy closedAt}, acceptBanner ev = none →
      (∀ m, endsContract st.currentShard m ev = true) →
        ((st.closeAll order state closedBy closedAt).views seen ahead).Perm
          (st.views seen (aheadAfter st.currentShard ev ahead) ++ acceptedLives ev ahead) := by
    intro state closedBy closedAt haccept hends
    rw [hnone haccept, List.append_nil]
    refine (views_closeAll horder h seen ahead).trans (.of_eq (views_congr fun run _ => ?_))
    rw [aheadAfter, if_pos (hends run.missionId)]
  have hkept : acceptBanner ev = none → (∀ m, endsContract st.currentShard m ev = false) →
      (∀ m, stepBanner m ev = none) → (st.views seen ahead).Perm
        (st.views seen (aheadAfter st.currentShard ev ahead) ++ acceptedLives ev ahead) := by
    intro haccept hends hstep
    rw [hnone haccept, List.append_nil]
    refine .of_eq (views_congr fun run _ => ?_)
    rw [aheadAfter, if_neg (Bool.eq_false_iff.1 (hends run.missionId)), hstep]
    rfl
  unfold ContractFold.react
  cases ev with
  | joinPu join =>
    cases hshard : shardChanges st.currentShard join with
    | true =>
      simp only [onJoin, hshard, if_true]
      exact ⟨seen, (fun run hrun => by cases hrun), hclosed rfl fun _ => hshard⟩
    | false =>
      simp only [onJoin, hshard, Bool.false_eq_true, if_false]
      exact ⟨seen, h, hkept rfl (fun _ => hshard) fun _ => rfl⟩
  | sessionEnd e => exact ⟨seen, tracksAll_closeAll seen, hclosed rfl fun _ => rfl⟩
  | gameCrash e => exact ⟨seen, tracksAll_closeAll seen, hclosed rfl fun _ => rfl⟩
  | hudNotification hud => exact views_handleHud h hud ahead
  | _ => exact ⟨seen, h, hkept rfl (fun _ => rfl) fun _ => rfl⟩

theorem currentShard_handleHud (st : ContractFold) (hud : HudNotification) (ts : Option String) :
    (st.handleHud hud ts).currentShard = st.currentShard := by
  unfold ContractFold.handleHud
  split
  · rfl
  · split
    · rfl
    · split
      · rename_i banner _
        cases banner with
        | contract verb name => cases verb <;> rfl
        | step verb objectiveId text => rfl
      · rfl

theorem currentShard_react (st : ContractFold) (ev : GameEvent) (lastTs : Option Int) :
    (st.react order ev).currentShard =
      (StreamPast.after parseTs ⟨lastTs, st.currentShard⟩ ev).shard := by
  cases ev with
  | hudNotification hud => exact currentShard_handleHud st hud _
  | _ => rfl

/-- What the events so far have left, as the fold keeps it. -/
def past (st : ContractFold) : StreamPast := ⟨st.lastTs, st.currentShard⟩

theorem afterGap_eq (st : ContractFold) (ev : GameEvent) :
    (st.afterGap parseTs cfg order ev).lastTs = st.lastTs ∧
      (st.afterGap parseTs cfg order ev).currentShard = st.currentShard := by
  unfold ContractFold.afterGap
  split <;> exact ⟨rfl, rfl⟩

theorem past_onEvent (st : ContractFold) (ev : GameEvent) :
    (st.onEvent parseTs cfg order ev).past = st.past.after parseTs ev := by
  have hshard : ((st.afterGap parseTs cfg order ev).react order ev).currentShard =
      (st.past.after parseTs ev).shard := by
    rw [past, ← (afterGap_eq st ev).2]
    exact currentShard_react _ ev st.lastTs
  rw [past, StreamPast.mk.injEq]
  exact ⟨rfl, hshard⟩

theorem views_onEvent (horder : ∀ runs, (order runs).Perm runs) (h : st.TracksAll seen)
    (events : List GameEvent) :
    let st' := st.onEvent parseTs cfg order ev
    let ahead := fun m => bannersAhead parseTs cfg m st'.past events
    ∃ seen', st'.TracksAll seen' ∧ (st'.views seen' ahead).Perm
      ((st.views seen fun m => bannersAhead parseTs cfg m st.past (ev :: events)) ++
        acceptedLives ev ahead) := by
  intro st' ahead
  have hahead : ahead = fun m => bannersAhead parseTs cfg m (st.past.after parseTs ev) events := by
    simp only [ahead, st', past_onEvent]
  have hgap : ∃ seen', (st.afterGap parseTs cfg order ev).TracksAll seen' ∧
      ((st.afterGap parseTs cfg order ev).views seen' (aheadAfter st.currentShard ev ahead)).Perm
        (st.views seen fun m => bannersAhead parseTs cfg m st.past (ev :: events)) := by
    unfold ContractFold.afterGap
    cases hfar : gapBefore parseTs cfg st.lastTs ev with
    | true =>
      refine ⟨seen, tracksAll_closeAll seen, (views_closeAll horder h seen _).trans (.of_eq ?_)⟩
      refine views_congr fun run _ => ?_
      simp only [bannersAhead, past, hfar, Bool.true_or, if_true]
    | false =>
      refine ⟨seen, h, .of_eq (views_congr fun run _ => ?_)⟩
      simp only [hahead, bannersAhead, aheadAfter, past, hfar, Bool.false_or]
  obtain ⟨seen₁, htracks₁, hviews₁⟩ := hgap
  obtain ⟨seen₂, htracks₂, hviews₂⟩ := views_react horder htracks₁ ahead
  rw [(afterGap_eq st ev).2] at hviews₂
  exact ⟨seen₂, htracks₂, hviews₂.trans (hviews₁.append_right _)⟩

end

theorem views_finish (parseTs : String → Option Int) (cfg : ContractConfig)
    {order : List ContractRun → List ContractRun} (horder : ∀ runs, (order runs).Perm runs)
    (h : st.TracksAll seen) :
    ((st.finish parseTs cfg order).map (·.view)).Perm (st.views seen fun _ => []) := by
  rw [views_of_nothing_ahead h, ContractFold.finish, List.map_append, List.map_append,
    List.map_map]
  exact ((horder _).map _).append_left _

/-- The runs that the fold ends with show the open contracts with what is ahead of them, and those
that are accepted yet. -/
theorem views_contractFold (parseTs : String → Option Int) (cfg : ContractConfig)
    (drain : DrainOrder) {n k : Nat} (h : st.TracksAll seen) (events : List EventEnvelope) :
    (((contractFold parseTs cfg drain n st events).finish parseTs cfg (drain.order k)).map
      (·.view)).Perm
      ((st.views seen fun m => bannersAhead parseTs cfg m st.past (classified events)) ++
        (contractLives parseTs cfg st.past (classified events)).map (·.view)) := by
  induction events generalizing n st seen with
  | nil =>
    rw [show classified [] = [] from rfl, contractLives, List.map_nil, List.append_nil]
    exact views_finish parseTs cfg (drain.perm k) h
  | cons env rest ih =>
    unfold StarStats.contractFold
    cases hevent : env.event with
    | none =>
      rw [show classified (env :: rest) = classified rest from List.filterMap_cons_none hevent]
      exact ih h
    | some ev =>
      rw [show classified (env :: rest) = ev :: classified rest from
        List.filterMap_cons_some hevent]
      obtain ⟨seen', htracks, hviews⟩ := views_onEvent (drain.perm n) h (classified rest)
      refine (ih htracks).trans ?_
      rw [contractLives, List.map_append, List.map_map, ← past_onEvent, ← List.append_assoc]
      exact hviews.append_right _

end ContractFold

/-- **What the fold over contracts reports**: one run for each accept banner of the stream, with a
step for each objective that its contract names before it ends, and with a partial history exactly
if one of them first appears already resolved; each run well formed; and at most one of a mission
in progress. -/
theorem deriveContractRuns_ok (parseTs : String → Option Int) (cfg : ContractConfig)
    (drain : DrainOrder) (events : List EventEnvelope) :
    let runs := deriveContractRuns parseTs cfg drain events
    (runs.map (·.acceptance)).Perm ((classified events).filterMap acceptBanner) ∧
      (runs.map (·.view)).Perm
        ((contractLives parseTs cfg ⟨none, none⟩ (classified events)).map (·.view)) ∧
      (∀ run ∈ runs, run.Ok) ∧
      ((runs.filter (·.state = .inProgress)).map (·.missionId)).Nodup := by
  intro runs
  have hfold : (contractFold parseTs cfg drain 0 .start events).Inv
    ((classified events).filterMap acceptBanner) :=
    ContractFold.inv_start.contractFold parseTs cfg drain events
  obtain ⟨hok, haccepted, hunique⟩ := @ContractFold.Inv.finish _ _ parseTs cfg _
    (drain.perm events.length) hfold
  have hperm : runs.Perm ((contractFold parseTs cfg drain 0 .start events).finish parseTs cfg
    (drain.order events.length)) := List.perm_insertionSort _ _
  have htracks : ContractFold.start.TracksAll fun _ => [] := fun _ hrun => by cases hrun
  refine ⟨(hperm.map _).trans haccepted, (hperm.map _).trans ?_,
    fun run hrun => hok run (hperm.mem_iff.1 hrun), ?_⟩
  · exact ContractFold.views_contractFold parseTs cfg drain htracks events
  · exact ((hperm.filter _).map _).nodup_iff.2 hunique

end StarStats
