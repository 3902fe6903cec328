import StarStats.Core.Proof.Classify

/-!
# The end of a mission

`missionEnd_iff`: of an `EndMission` line the mission and its outcome are kept exactly when the body
begins with the mission. Both groups of `MISSION_END_RE` are optional, so the expression matches at
the front of every body, and text in front of the mission is not skipped.
-/

namespace StarStats

open Events Regex

/-! ## The documented body -/

def outcomeText : Option (List Char × List Char) → List Char
  | some (word, post) => fieldText "outcome".toList word ++ post
  | none => []

/-- Any text, the mission, any text, and possibly the outcome and any text. -/
structure MissionEndBody (body pre id mid : List Char)
    (outcome : Option (List Char × List Char)) : Prop where
  text : body = pre ++ (fieldText "missionId".toList id ++ (mid ++ outcomeText outcome))
  mission : FieldValue isMissionIdChar id
  word : ∀ o ∈ outcome, FieldValue Char.isAlpha o.1
  missionOnce : ∀ a x b, FieldValue isMissionIdChar x →
    body = a ++ (fieldText "missionId".toList x ++ b) → a = pre
  outcomeOnce : ∀ a x b, FieldValue Char.isAlpha x →
    body = a ++ (fieldText "outcome".toList x ++ b) →
      outcome.isSome = true ∧ a = pre ++ (fieldText "missionId".toList id ++ mid)

/-! ## The match -/

/-- `missionId\[(?P<id>[0-9a-fA-F-]+)\]` -/
def missionIdRe : Pattern := .field "missionId".toList "id" isMissionIdChar

/-- The mission if the text begins with it, and then the outcome. -/
theorem missionEndRe_search {s : List Char} {front back : Way}
    (hfront : (missionIdRe.first s).getD (.nothing s) = front)
    (hback : (missionOutcomeRe.first front.rest).getD (.nothing front.rest) = back) :
    missionEndRe.search s = some (front.captures ++ back.captures) := by
  have htotal : ∀ t, ((Pattern.opt missionOutcomeRe).first t).isSome = true := by
    intro t
    rw [Pattern.first_opt]
    rfl
  have hfirst : missionEndRe.first s = some (front.andThen back) := by
    rw [missionEndRe, Pattern.first_seq_of_total htotal, Pattern.first_opt]
    rw [missionIdRe] at hfront
    rw [hfront, Option.bind_some, Pattern.first_opt, hback]
    rfl
  exact Pattern.search_of_first hfirst

/-- The outcome has no group but its own. -/
theorem outcome_captures (s : List Char) :
    ((missionOutcomeRe.first s).getD (.nothing s)).captures.lookup "id" = none := by
  cases h : missionOutcomeRe.first s with
  | none => rfl
  | some w =>
    obtain ⟨x, hx⟩ := Pattern.captures_of_lazy_field (by decide) h
    simp only [Option.getD_some]
    rw [hx]
    rfl

namespace MissionEndBody
variable {body pre id mid : List Char} {outcome : Option (List Char × List Char)}

/-- The mission is not looked for behind other text. -/
theorem id_none (h : MissionEndBody body pre id mid outcome) (hpre : pre ≠ []) :
    (missionEndRe.search body).bind (·.name "id") = none := by
  have hmiss : (missionIdRe.first body).getD (.nothing body) = .nothing body := by
    cases hfirst : missionIdRe.first body with
    | none => rfl
    | some w =>
      obtain ⟨x, r, hx, hbody⟩ := Pattern.field_of_first hfirst
      exact absurd (h.missionOnce [] x r hx hbody).symm hpre
  rw [missionEndRe_search hmiss rfl, Option.bind_some]
  exact outcome_captures body

/-- Without other text in front the mission is found. -/
theorem missionIdRe_first (h : MissionEndBody body [] id mid outcome) :
    missionIdRe.first body = some ⟨[("id", String.ofList id)], fieldText "missionId".toList id,
      mid ++ outcomeText outcome⟩ := by
  rw [h.text, List.nil_append]
  exact Pattern.first_field (by decide) h.mission

/-- Where the outcome is looked for, it stands behind `mid` or nowhere. -/
theorem outcome_place (h : MissionEndBody body [] id mid outcome) {a x b : List Char}
    (hx : FieldValue Char.isAlpha x)
    (heq : mid ++ outcomeText outcome = a ++ (fieldText "outcome".toList x ++ b)) :
    outcome.isSome = true ∧ a = mid := by
  have hbody : body =
      (fieldText "missionId".toList id ++ a) ++ (fieldText "outcome".toList x ++ b) := by
    rw [h.text, heq, List.nil_append, List.append_assoc]
  obtain ⟨hsome, ha⟩ := h.outcomeOnce _ x b hx hbody
  rw [List.nil_append] at ha
  exact ⟨hsome, List.append_cancel_left ha⟩

/-- The outcome is found if no line ends in front of it. -/
theorem missionOutcomeRe_first {o : List Char × List Char}
    (h : MissionEndBody body [] id mid (some o)) (hline : '\n' ∉ mid) :
    missionOutcomeRe.first (mid ++ outcomeText (some o)) =
      some ⟨[("outcome", String.ofList o.1)], mid ++ fieldText "outcome".toList o.1, o.2⟩ := by
  refine Pattern.first_lazy_field (by decide) (h.word o rfl) ?_ ?_
  · intro c hc
    have hne : c ≠ '\n' := fun heq => hline (heq ▸ hc)
    simpa using hne
  · exact fun b y t hy heq => (h.outcome_place hy heq).2

theorem missionOutcomeRe_miss (h : MissionEndBody body [] id mid outcome)
    (hno : outcome.isSome = true → '\n' ∈ mid) :
    missionOutcomeRe.first (mid ++ outcomeText outcome) = none := by
  refine Pattern.first_lazy_field_none fun b y t hy heq hskip => ?_
  obtain ⟨hsome, rfl⟩ := h.outcome_place hy heq
  exact absurd (hskip _ (hno hsome)) (by decide)

/-- Without other text in front the mission is the front of the match. -/
theorem front_eq (h : MissionEndBody body [] id mid outcome) :
    (missionIdRe.first body).getD (.nothing body) = ⟨[("id", String.ofList id)],
      fieldText "missionId".toList id, mid ++ outcomeText outcome⟩ := by
  rw [h.missionIdRe_first]
  rfl

theorem search_outcome {o : List Char × List Char} (h : MissionEndBody body [] id mid (some o))
    (hline : '\n' ∉ mid) :
    missionEndRe.search body =
      some [("id", String.ofList id), ("outcome", String.ofList o.1)] := by
  rw [missionEndRe_search h.front_eq rfl]
  dsimp only
  rw [h.missionOutcomeRe_first hline]
  rfl

theorem search_mission (h : MissionEndBody body [] id mid outcome)
    (hno : outcome.isSome = true → '\n' ∈ mid) :
    missionEndRe.search body = some [("id", String.ofList id)] := by
  rw [missionEndRe_search h.front_eq rfl]
  dsimp only
  rw [h.missionOutcomeRe_miss hno]
  rfl

end MissionEndBody

/-! ## The event -/

theorem missionEnd_eq (env : ClassifyEnv) {line : LogLine}
    (h : line.eventName = some "EndMission") :
    env.classify line = some (.missionEnd
      { timestamp := line.timestamp
        missionId := (missionEndRe.search line.body.toList).bind (·.name "id")
        outcome := (missionEndRe.search line.body.toList).bind (·.name "outcome") }) := by
  unfold ClassifyEnv.classify
  rw [h]
  rfl

/-- The mission and its outcome are kept exactly when the body begins with the mission, and no line
ends between the two. -/
theorem missionEnd_iff (env : ClassifyEnv) (line : LogLine) (pre id mid : List Char)
    (outcome : Option (List Char × List Char)) (hname : line.eventName = some "EndMission")
    (h : MissionEndBody line.body.toList pre id mid outcome) :
    env.classify line = some (.missionEnd
      { timestamp := line.timestamp
        missionId := some (String.ofList id)
        outcome := outcome.map fun o => String.ofList o.1 }) ↔
      pre = [] ∧ (outcome.isSome = true → '\n' ∉ mid) := by
  rw [missionEnd_eq env hname]
  by_cases hpre : pre = []
  · subst hpre
    cases outcome with
    | none =>
      rw [h.search_mission (by simp)]
      simp [Captures.name]
    | some o =>
      by_cases hline : '\n' ∈ mid
      · rw [h.search_mission fun _ => hline]
        simp [Captures.name, hline]
      · rw [h.search_outcome hline]
        simp [Captures.name, hline, List.lookup_cons]
  · refine iff_of_false ?_ fun hcon => hpre hcon.1
    rw [h.id_none hpre]
    simp

def endMissionLine (body : String) : LogLine where
  timestamp := "2026-05-07T12:30:00.000Z"
  level := none
  eventName := some "EndMission"
  body
  tags := ["Missions"]

/-- A body in which nothing stands in front of the mission. -/
theorem missionFirst_body : MissionEndBody
    "missionId[ab-12] outcome[Success]".toList [] "ab-12".toList [' ']
    (some ("Success".toList, [])) where
  text := by decide
  mission := ⟨by simp, List.all_eq_true.1 (by decide)⟩
  word o ho := by
    obtain rfl := Option.some.inj ho
    exact ⟨by simp, List.all_eq_true.1 (by decide)⟩
  missionOnce a x b _ h := by
    have hplace := fieldText_place (n := 0) (by decide) h
    exact hplace.trans (by decide)
  outcomeOnce a x b _ h := by
    have hplace := fieldText_place (n := 17) (by decide) h
    exact ⟨rfl, hplace.trans (by decide)⟩

/-- Its mission and its outcome are kept. -/
theorem missionEnd_first :
    ClassifyEnv.nothingFound.classify (endMissionLine "missionId[ab-12] outcome[Success]") =
      some (.missionEnd
        { timestamp := "2026-05-07T12:30:00.000Z"
          missionId := some "ab-12"
          outcome := some "Success" }) := by
  have hid : String.ofList "ab-12".toList = "ab-12" := String.ofList_toList
  have houtcome : String.ofList "Success".toList = "Success" := String.ofList_toList
  have hkept := (missionEnd_iff ClassifyEnv.nothingFound
    (endMissionLine "missionId[ab-12] outcome[Success]") [] "ab-12".toList [' ']
    (some ("Success".toList, [])) rfl missionFirst_body).2 ⟨rfl, fun _ => by decide⟩
  rwa [hid, Option.map_some, houtcome] at hkept

/-- The mission of a body with text in front of it is lost. -/
theorem missionEnd_loses_mission :
    structuralParse ("<2026-05-07T12:30:00.000Z> <EndMission> " ++
      "Ending missionId[ab-12] outcome[Success] [Missions]") =
        some (endMissionLine "Ending missionId[ab-12] outcome[Success]") ∧
    MissionEndBody "Ending missionId[ab-12] outcome[Success]".toList
      "Ending ".toList "ab-12".toList [' '] (some ("Success".toList, [])) ∧
    ClassifyEnv.nothingFound.classify
      (endMissionLine "Ending missionId[ab-12] outcome[Success]") =
        some (.missionEnd
          { timestamp := "2026-05-07T12:30:00.000Z"
            missionId := none
            outcome := some "Success" }) := by
  have hchars : ("<2026-05-07T12:30:00.000Z> <EndMission> " ++
      "Ending missionId[ab-12] outcome[Success] [Missions]").toList = _ :=
    String.toList_append.trans (congrArg₂ (· ++ ·) String.toList_ofList String.toList_ofList)
  refine ⟨?_, ?_, by decide +kernel⟩
  · rw [structuralParse, hchars]
    decide +kernel
  exact
    { text := by decide +kernel
      mission := missionFirst_body.mission
      word := missionFirst_body.word
      missionOnce := fun a x b _ h =>
        (fieldText_place (n := 7) (by decide +kernel) h).trans (by decide +kernel)
      outcomeOnce := fun a x b _ h =>
        ⟨rfl, (fieldText_place (n := 24) (by decide +kernel) h).trans (by decide +kernel)⟩ }

end StarStats
