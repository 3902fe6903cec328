import StarStats.Core.Classify

/-!
# The fall-through of `classify`

`classify_documented_iff`: a line is classified as documented unless the expression of its arm
misses and the body is a function call that `classify_body_prefix` knows. There the `?` of the arm
returns before the body is looked at.
-/

namespace StarStats

open Events Regex

namespace ClassifyEnv
variable (env : ClassifyEnv)

/-! ## The documented dispatch -/

/-- The arm that the event name selects, and otherwise or when its expression misses the body. -/
def documentedClassify (line : LogLine) : Option GameEvent :=
  match line.eventName.bind (env.shellArm line) with
  | some (.pattern re event) =>
    match re line.body with
    | some c => event c
    | none => env.classifyBodyPrefix line.timestamp line.body
  | some (.always event) => some event
  | none => env.classifyBodyPrefix line.timestamp line.body

/-- The expression of the arm does not match the body. -/
def ArmMisses (line : LogLine) : Prop :=
  ∃ re event, line.eventName.bind (env.shellArm line) = some (.pattern re event) ∧
    re line.body = none

/-- The body is a function call that `classify_body_prefix` knows. -/
def bodyRecognised (body : String) : Bool :=
  if Text.contains body "[STOWING ON UNREGISTER]" then (env.vehicleStowedRe body).isSome
  else if Text.contains body "CreateMissionObjectiveMarker" then
    (env.missionObjectiveRe body).isSome
  else isShopBuy body || Text.contains body "ShopFlowResponse" ||
    Text.contains body "SendCommodityBuyRequest" || Text.contains body "SendCommoditySellRequest" ||
    Text.contains body "CCIGBroker::FastShutdown"

variable {env}

theorem classifyBodyPrefix_isSome (ts body : String) :
    (env.classifyBodyPrefix ts body).isSome = env.bodyRecognised body := by
  unfold classifyBodyPrefix bodyRecognised
  split
  · rw [Option.isSome_map]
  split
  · rw [Option.isSome_map]
  split
  case isTrue hbuy => simp [hbuy]
  split
  case isTrue hflow => simp [hflow]
  split
  case isTrue hcbuy => simp [hcbuy]
  split
  case isTrue hsell => simp [hsell]
  split
  case isTrue hdown => simp [hdown]
  case isFalse hbuy hflow hcbuy hsell hdown => simp [hbuy, hflow, hcbuy, hsell, hdown]

/-! ## What `classify` does -/

/-- A miss returns; everything else is as documented. -/
theorem classify_eq (line : LogLine) :
    env.classify line = match line.eventName.bind (env.shellArm line) with
      | some (.pattern re event) => (re line.body).bind event
      | some (.always event) => some event
      | none => env.classifyBodyPrefix line.timestamp line.body := by
  unfold classify shellMatch
  cases line.eventName with
  | none => rfl
  | some name =>
    dsimp only [Option.bind_some]
    cases env.shellArm line name with
    | none => rfl
    | some arm =>
      cases arm with
      | always event => rfl
      | pattern re event =>
        dsimp only
        cases (re line.body).bind event <;> rfl

theorem classify_of_misses {line : LogLine} (h : env.ArmMisses line) :
    env.classify line = none ∧
      env.documentedClassify line = env.classifyBodyPrefix line.timestamp line.body := by
  obtain ⟨re, event, harm, hre⟩ := h
  rw [classify_eq, documentedClassify, harm]
  dsimp only
  rw [hre]
  exact ⟨rfl, rfl⟩

theorem classify_of_not_misses {line : LogLine} (h : ¬ env.ArmMisses line) :
    env.classify line = env.documentedClassify line := by
  rw [classify_eq, documentedClassify]
  cases harm : line.eventName.bind (env.shellArm line) with
  | none => rfl
  | some arm =>
    cases arm with
    | always event => rfl
    | pattern re event =>
      dsimp only
      cases hre : re line.body with
      | some c => rfl
      | none => exact absurd ⟨re, event, harm, hre⟩ h

/-! ## Misses -/

/-- The line is classified as documented exactly when its arm does not drop a function call. -/
theorem classify_documented_iff (env : ClassifyEnv) (line : LogLine) :
    env.classify line = env.documentedClassify line ↔
      ¬ (env.ArmMisses line ∧ env.bodyRecognised line.body = true) := by
  by_cases hmiss : env.ArmMisses line
  · obtain ⟨hnone, hdoc⟩ := classify_of_misses hmiss
    rw [hnone, hdoc, ← classifyBodyPrefix_isSome line.timestamp]
    cases env.classifyBodyPrefix line.timestamp line.body with
    | none => exact iff_of_true rfl fun h => absurd h.2 (by simp)
    | some e => exact iff_of_false (by simp) fun h => h ⟨hmiss, rfl⟩
  · exact iff_of_true (classify_of_not_misses hmiss) fun h => hmiss h.1

/-- A purchase in the older form, under the shell of the newer one. -/
def shellBuyLine : String :=
  "<2026-05-01T18:46:15.085Z> [Notice] <CEntityComponentShopUIProvider::SendShopBuyRequest> " ++
    "SendShopBuyRequest() [Team_Shops]"

/-- No expression finds anything. -/
def nothingFound : ClassifyEnv where
  processInitRe := fun _ => none
  legacyLoginRe := fun _ => none
  joinPuRe := fun _ => none
  changeServerRe := fun _ => none
  seedSsRe := fun _ => none
  resolveSpawnRe := fun _ => none
  actorEjectedRe := fun _ => none
  actorDeathRe := fun _ => none
  vehicleDestructionRe := fun _ => none
  hudNotificationRe := fun _ => none
  playerDeathRe := fun _ => none
  locationInventoryRe := fun _ => none
  shopBuyModernRe := fun _ => none
  planetTerrainRe := fun _ => none
  attachmentReceivedRe := fun _ => none
  equipItemRe := fun _ => none
  storeItemRe := fun _ => none
  quantumTargetRe := fun _ => none
  missionQtBeaconRe := fun _ => none
  quantumArrivedRe := fun _ => none
  calculateRouteRe := fun _ => none
  missionPhaseRe := fun _ => none
  objectiveUpsertedRe := fun _ => none
  objectiveLabelRe := fun _ => none
  vehicleStowedRe := fun _ => none
  missionObjectiveRe := fun _ => none
  shopBuyRe := fun _ => none
  shopResponseRe := fun _ => none
  commodityBuyRe := fun _ => none
  commoditySellRe := fun _ => none
  parseF64 := fun _ => none

/-- What the expressions find in that body: the call, without arguments. -/
def shellBuyFinds : ClassifyEnv := { nothingFound with shopBuyRe := fun _ => some [] }

/-- The purchase is dropped. -/
theorem classify_drops_call : ∃ line, structuralParse shellBuyLine = some line ∧
    shellBuyFinds.classify line = none ∧
    shellBuyFinds.documentedClassify line = some (.shopBuyRequest
      { timestamp := "2026-05-01T18:46:15.085Z"
        shopId := none
        itemClass := none
        quantity := none
        raw := "SendShopBuyRequest()"
        price := none
        shopName := none }) := by
  have hchars : shellBuyLine.toList = _ :=
    String.toList_append.trans (congrArg₂ (· ++ ·) String.toList_ofList String.toList_ofList)
  refine ⟨⟨"2026-05-01T18:46:15.085Z", some "Notice",
    some "CEntityComponentShopUIProvider::SendShopBuyRequest", "SendShopBuyRequest()",
    ["Team_Shops"]⟩, ?_, by decide +kernel, by decide +kernel⟩
  rw [structuralParse, hchars]
  decide +kernel

end ClassifyEnv

end StarStats
