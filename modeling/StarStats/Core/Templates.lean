import StarStats.Core.Bursts

/-!
# Templates (`starstats-core/src/templates.rs` `match_templates`)

A template is walked step by step over a window. A step takes the next line that matches it, as long
as the lines passed over on the way, together with those of the steps before, are not more than
`maxSlack`.
-/

namespace StarStats

structure TemplateStep where
  «match» : StepMatch
  tags : List String
  optional : Bool
  deriving DecidableEq

structure EventTemplate where
  id : String
  steps : List TemplateStep
  maxSlack : Nat
  minMatchCount : Nat
  deriving DecidableEq

structure TemplateHit where
  templateId : String
  matchedCount : Nat
  totalSteps : Nat
  confidence : Fp
  capturedIndices : List (Option Nat)
  missingSteps : List Nat
  deriving DecidableEq

def TemplateStep.accepts (step : TemplateStep) (line : LogLine) : Bool :=
  lineMatches line step.«match» step.tags

/-- The offset of the first line that matches, the next line being at `offset`. -/
def TemplateStep.find (step : TemplateStep) (maxSlack slackUsed offset : Nat) :
    List LogLine → Option Nat
  | [] => none
  | line :: rest =>
    if step.accepts line then some offset
    else if maxSlack ≤ slackUsed + offset then none
    else step.find maxSlack slackUsed (offset + 1) rest

/-- The walk from `windowPos` on: what each step captures, the next being the step `stepIdx`, and
which of the required ones are missing. -/
def walkSteps (window : List LogLine) (maxSlack windowPos slackUsed stepIdx : Nat) :
    List TemplateStep → List (Option Nat) × List Nat
  | [] => ([], [])
  | step :: steps =>
    match step.find maxSlack slackUsed 0 (window.drop windowPos) with
    | some localSkip =>
      let idx := windowPos + localSkip
      let after := walkSteps window maxSlack (idx + 1) (slackUsed + localSkip) (stepIdx + 1) steps
      (some idx :: after.1, after.2)
    | none =>
      let after := walkSteps window maxSlack windowPos slackUsed (stepIdx + 1) steps
      (none :: after.1, if step.optional then after.2 else stepIdx :: after.2)

namespace EventTemplate

def walk (tpl : EventTemplate) (window : List LogLine) : List (Option Nat) × List Nat :=
  walkSteps window tpl.maxSlack 0 0 0 tpl.steps

def requiredTotal (tpl : EventTemplate) : Nat := tpl.steps.countP (!·.optional)

/-- How many of the required steps the walk captures a line for. -/
def requiredMatched (tpl : EventTemplate) (window : List LogLine) : Nat :=
  ((tpl.walk window).1.zip tpl.steps).countP fun (c, s) => c.isSome && !s.optional

end EventTemplate

section
-- the quotient of two counts in `f32`
variable (f32Ratio : Nat → Nat → Fp)

def matchOneTemplate (window : List LogLine) (tpl : EventTemplate) : Option TemplateHit :=
  if window.isEmpty || tpl.steps.isEmpty then none
  else if tpl.requiredMatched window < tpl.minMatchCount then none
  else
    some
      { templateId := tpl.id
        matchedCount := (tpl.walk window).1.countP (·.isSome)
        totalSteps := tpl.steps.length
        confidence :=
          if tpl.requiredTotal = 0 then .num 1
          else f32Ratio (min (tpl.requiredMatched window) tpl.requiredTotal) tpl.requiredTotal
        capturedIndices := (tpl.walk window).1
        missingSteps := (tpl.walk window).2 }

def matchTemplates (window : List LogLine) (templates : List EventTemplate) : List TemplateHit :=
  templates.filterMap (matchOneTemplate f32Ratio window)

end

end StarStats
