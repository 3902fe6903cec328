import Mathlib.Order.Basic
import StarStats.Core.Templates

/-!
# What a template hit says

`matchOneTemplate_spec`: the lines of a hit ascend, each matches its step, the lines passed over
between them are no more than the slack, and the missing steps are the required ones without a line.
There is a hit exactly when enough required steps have a line, unless the window or the template is
empty: then there is none, even when no step has to match.
-/

namespace StarStats

/-- The lines passed over from `pos` on, up to the last of some places. -/
def passedOver : Nat → List Nat → Nat
  | _, [] => 0
  | pos, i :: is => (i - pos) + passedOver (i + 1) is

/-- The lines passed over between the first and the last of some places. -/
def passedBetween : List Nat → Nat
  | [] => 0
  | i :: is => passedOver (i + 1) is

theorem passedBetween_le (pos : Nat) (is : List Nat) : passedBetween is ≤ passedOver pos is := by
  cases is with
  | nil => exact Nat.le_refl 0
  | cons i is => exact Nat.le_add_left _ _

/-- A hit reports the walk as it was. -/
structure TemplateHit.Sound (hit : TemplateHit) (window : List LogLine) (tpl : EventTemplate) :
    Prop where
  aligned : hit.capturedIndices.length = tpl.steps.length
  ascending : (hit.capturedIndices.filterMap id).Pairwise (· < ·)
  captured : ∀ k i : Nat, hit.capturedIndices[k]? = some (some i) →
    ∃ (step : TemplateStep) (line : LogLine),
      tpl.steps[k]? = some step ∧ window[i]? = some line ∧ step.accepts line = true
  slack : passedBetween (hit.capturedIndices.filterMap id) ≤ tpl.maxSlack
  missing : ∀ k : Nat, k ∈ hit.missingSteps ↔
    ∃ step : TemplateStep, tpl.steps[k]? = some step ∧ step.optional = false ∧
      hit.capturedIndices[k]? = some none
  missing_ascending : hit.missingSteps.Pairwise (· < ·)

/-! ## One step -/

/-- A step takes a line that matches it, and the slack still holds with the lines it passes over. -/
theorem TemplateStep.find_some {step : TemplateStep} {maxSlack slackUsed offset k : Nat}
    {lines : List LogLine} (h : step.find maxSlack slackUsed offset lines = some k) :
    offset ≤ k ∧ (∃ line, lines[k - offset]? = some line ∧ step.accepts line = true) ∧
      (k = offset ∨ slackUsed + k ≤ maxSlack) := by
  induction lines generalizing offset with
  | nil => cases h
  | cons line rest ih =>
    rw [find] at h
    split at h
    case isTrue haccepts =>
      obtain rfl := Option.some.inj h
      exact ⟨Nat.le_refl _, ⟨line, by simp, haccepts⟩, .inl rfl⟩
    case isFalse =>
      split at h
      case isTrue => cases h
      case isFalse hslack =>
        obtain ⟨hle, ⟨found, hfound, haccepts⟩, hk⟩ := ih h
        have hsucc : k - offset = k - (offset + 1) + 1 := by omega
        refine ⟨by omega, ⟨found, ?_, haccepts⟩, .inr ?_⟩
        · rw [hsucc, List.getElem?_cons_succ]
          exact hfound
        · omega

/-! ## The walk -/

section
variable {window : List LogLine} {maxSlack : Nat}

theorem walkSteps_length (windowPos slackUsed stepIdx : Nat) (steps : List TemplateStep) :
    (walkSteps window maxSlack windowPos slackUsed stepIdx steps).1.length = steps.length := by
  induction steps generalizing windowPos slackUsed stepIdx with
  | nil => rfl
  | cons step steps ih =>
    rw [walkSteps]
    split <;> simp [ih]

/-- What is captured ascends from the place where the walk stands, and the slack is kept. -/
theorem walkSteps_captured (windowPos slackUsed stepIdx : Nat) (steps : List TemplateStep)
    (hslack : slackUsed ≤ maxSlack) :
    let places := (walkSteps window maxSlack windowPos slackUsed stepIdx steps).1.filterMap id
    (∀ i ∈ places, windowPos ≤ i) ∧ places.Pairwise (· < ·) ∧
      slackUsed + passedOver windowPos places ≤ maxSlack := by
  induction steps generalizing windowPos slackUsed stepIdx with
  | nil => simpa [walkSteps, passedOver] using hslack
  | cons step steps ih =>
    rw [walkSteps]
    split
    case h_1 localSkip hfind =>
      obtain ⟨-, -, hskip⟩ := TemplateStep.find_some hfind
      have hroom : slackUsed + localSkip ≤ maxSlack := by omega
      obtain ⟨hlow, hasc, hpassed⟩ := ih (windowPos + localSkip + 1) (slackUsed + localSkip)
        (stepIdx + 1) hroom
      have hfront : ∀ (i : Nat) (l : List (Option Nat)),
          (some i :: l).filterMap id = i :: l.filterMap id := fun _ _ => rfl
      simp only [hfront, List.mem_cons, List.pairwise_cons, passedOver]
      refine ⟨?_, ⟨fun i hi => hlow i hi, hasc⟩, ?_⟩
      · rintro i (rfl | hi)
        · omega
        · exact Nat.le_trans (by omega) (hlow i hi)
      · omega
    case h_2 => exact ih windowPos slackUsed (stepIdx + 1) hslack

/-- A captured line matches its step. -/
theorem walkSteps_accepts (windowPos slackUsed stepIdx : Nat) (steps : List TemplateStep)
    {k i : Nat} (h : (walkSteps window maxSlack windowPos slackUsed stepIdx steps).1[k]? =
      some (some i)) :
    ∃ step line, steps[k]? = some step ∧ window[i]? = some line ∧ step.accepts line = true := by
  induction steps generalizing windowPos slackUsed stepIdx k with
  | nil => simp [walkSteps] at h
  | cons step steps ih =>
    rw [walkSteps] at h
    split at h
    case h_1 localSkip hfind =>
      cases k with
      | zero =>
        obtain ⟨-, ⟨line, hline, haccepts⟩, -⟩ := TemplateStep.find_some hfind
        obtain rfl : windowPos + localSkip = i := by simpa using h
        rw [Nat.sub_zero, List.getElem?_drop] at hline
        exact ⟨step, line, rfl, hline, haccepts⟩
      | succ k => exact ih _ _ _ h
    case h_2 =>
      cases k with
      | zero => simp at h
      | succ k => exact ih _ _ _ h

/-- The missing steps are the required ones for which nothing is captured. -/
theorem mem_missing (windowPos slackUsed stepIdx : Nat) (steps : List TemplateStep) (k : Nat) :
    k ∈ (walkSteps window maxSlack windowPos slackUsed stepIdx steps).2 ↔
      ∃ n step, k = stepIdx + n ∧ steps[n]? = some step ∧ step.optional = false ∧
        (walkSteps window maxSlack windowPos slackUsed stepIdx steps).1[n]? = some none := by
  induction steps generalizing windowPos slackUsed stepIdx with
  | nil => simp [walkSteps]
  | cons step steps ih =>
    -- a step behind the first one, counted from the first
    have hshift : ∀ (captured : List (Option Nat)) (c : Option Nat),
        (∃ n s, k = stepIdx + n ∧ (step :: steps)[n]? = some s ∧ s.optional = false ∧
          (c :: captured)[n]? = some none) ↔
        (k = stepIdx ∧ step.optional = false ∧ c = none) ∨
          ∃ n s, k = stepIdx + 1 + n ∧ steps[n]? = some s ∧ s.optional = false ∧
            captured[n]? = some none := by
      intro captured c
      constructor
      · rintro ⟨n, s, hk, hs, hopt, hc⟩
        cases n with
        | zero =>
          obtain rfl : step = s := by simpa using hs
          exact .inl ⟨hk, hopt, by simpa using hc⟩
        | succ n => exact .inr ⟨n, s, by omega, by simpa using hs, hopt, by simpa using hc⟩
      · rintro (⟨hk, hopt, rfl⟩ | ⟨n, s, hk, hs, hopt, hc⟩)
        · exact ⟨0, step, hk, rfl, hopt, rfl⟩
        · exact ⟨n + 1, s, by omega, by simpa using hs, hopt, by simpa using hc⟩
    rw [walkSteps]
    split
    case h_1 localSkip hfind =>
      dsimp only
      rw [hshift, ih]
      simp
    case h_2 hfind =>
      dsimp only
      rw [hshift, ← ih]
      cases step.optional <;> simp

theorem missing_ascending (windowPos slackUsed stepIdx : Nat) (steps : List TemplateStep) :
    (walkSteps window maxSlack windowPos slackUsed stepIdx steps).2.Pairwise (· < ·) := by
  induction steps generalizing windowPos slackUsed stepIdx with
  | nil => exact .nil
  | cons step steps ih =>
    rw [walkSteps]
    split
    case h_1 => exact ih _ _ _
    case h_2 =>
      dsimp only
      split
      · exact ih _ _ _
      · refine List.pairwise_cons.2 ⟨fun k hk => ?_, ih _ _ _⟩
        obtain ⟨n, s, rfl, -⟩ := (mem_missing _ _ _ _ k).1 hk
        omega

end

/-! ## The hit -/

section
variable (f32Ratio : Nat → Nat → Fp) (window : List LogLine) (tpl : EventTemplate)

theorem matchOneTemplate_sound {hit : TemplateHit}
    (h : hit ∈ matchOneTemplate f32Ratio window tpl) : hit.Sound window tpl := by
  unfold matchOneTemplate at h
  split at h
  case isTrue => cases h
  case isFalse =>
    split at h
    case isTrue => cases h
    case isFalse =>
      obtain rfl := Option.some.inj h
      obtain ⟨-, hasc, hpassed⟩ :=
        @walkSteps_captured window tpl.maxSlack 0 0 0 tpl.steps (Nat.zero_le _)
      rw [Nat.zero_add] at hpassed
      exact
        { aligned := walkSteps_length 0 0 0 tpl.steps
          ascending := hasc
          captured := fun k i hk => walkSteps_accepts 0 0 0 tpl.steps hk
          slack := Nat.le_trans (passedBetween_le 0 _) hpassed
          missing := fun k => by
            refine (mem_missing 0 0 0 tpl.steps k).trans ?_
            simp only [Nat.zero_add]
            constructor
            · rintro ⟨n, step, rfl, hstep⟩
              exact ⟨step, hstep⟩
            · exact fun ⟨step, hstep⟩ => ⟨k, step, rfl, hstep⟩
          missing_ascending := missing_ascending 0 0 0 tpl.steps }

theorem matchOneTemplate_isSome :
    (matchOneTemplate f32Ratio window tpl).isSome = true ↔
      window ≠ [] ∧ tpl.steps ≠ [] ∧ tpl.minMatchCount ≤ tpl.requiredMatched window := by
  unfold matchOneTemplate
  split
  case isTrue hempty =>
    rw [Bool.or_eq_true, List.isEmpty_iff, List.isEmpty_iff] at hempty
    refine iff_of_false Bool.false_ne_true ?_
    rintro ⟨hwindow, hsteps, -⟩
    exact hempty.elim hwindow hsteps
  case isFalse hempty =>
    rw [Bool.or_eq_true, List.isEmpty_iff, List.isEmpty_iff, not_or] at hempty
    split
    case isTrue hlow => exact iff_of_false Bool.false_ne_true fun h => by omega
    case isFalse hlow => exact iff_of_true rfl ⟨hempty.1, hempty.2, Nat.not_lt.1 hlow⟩

/-- Every hit is sound, and of a window and a template that are not empty there is one exactly when
enough required steps match. -/
theorem matchOneTemplate_spec :
    (∀ hit ∈ matchOneTemplate f32Ratio window tpl, hit.Sound window tpl) ∧
      ((matchOneTemplate f32Ratio window tpl).isSome = true ↔
        window ≠ [] ∧ tpl.steps ≠ [] ∧ tpl.minMatchCount ≤ tpl.requiredMatched window) :=
  ⟨fun _ h => matchOneTemplate_sound f32Ratio window tpl h,
    matchOneTemplate_isSome f32Ratio window tpl⟩

end

def idleTemplate : EventTemplate := ⟨"idle", [⟨.any, [], true⟩], 0, 0⟩

/-- An empty window has no hit, even of a template that no line has to match. -/
theorem matchOneTemplate_empty :
    idleTemplate.minMatchCount ≤ idleTemplate.requiredMatched [] ∧
      matchOneTemplate (fun _ _ => .num 1) [] idleTemplate = none := by
  decide +kernel

end StarStats
