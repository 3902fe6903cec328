import Mathlib.Data.Int.Order.Basic
import StarStats.Core.Inference

/-!
# The window of a rule

`windowWithinSecs_eq_iff`: what a rule is shown behind its trigger is the documented window exactly
when no envelope is less than a second behind either bound. A delay is cut down to whole seconds
before it is compared, so both bounds are a second late.
-/

namespace StarStats

/-! ## Whole seconds -/

theorem numSeconds_pos_iff (delta : Int) : 0 < numSeconds delta ↔ 1000000000 ≤ delta := by
  have hsign : Int.sign 1000000000 = 1 := rfl
  rw [numSeconds, Int.tdiv_eq_ediv]
  split <;> omega

theorem numSeconds_nonneg_iff (delta : Int) : 0 ≤ numSeconds delta ↔ -1000000000 < delta := by
  have hsign : Int.sign 1000000000 = 1 := rfl
  rw [numSeconds, Int.tdiv_eq_ediv]
  split <;> omega

theorem numSeconds_le_iff {delta secs : Int} (h : 0 ≤ secs) :
    numSeconds delta ≤ secs ↔ delta < (secs + 1) * 1000000000 := by
  have hsign : Int.sign 1000000000 = 1 := rfl
  rw [numSeconds, Int.tdiv_eq_ediv]
  split <;> omega

/-! ## The window -/

section
variable (parseTs : String → Option Int)

/-- How long behind the trigger an envelope is, in nanoseconds. -/
def delayBehind (trigger env : EventEnvelope) : Option Int := do
  let s ← envelopeTime parseTs trigger
  let t ← envelopeTime parseTs env
  return t - s

/-- The envelope is in `(trigger, trigger + windowSecs]`. -/
def follows (trigger : EventEnvelope) (windowSecs : Int) (env : EventEnvelope) : Bool :=
  (delayBehind parseTs trigger env).any fun delta =>
    0 < delta && delta ≤ windowSecs * 1000000000

/-- The envelope is less than a second behind one of the two bounds. -/
def JustBehind (trigger : EventEnvelope) (windowSecs : Int) (env : EventEnvelope) : Prop :=
  ∃ delta, delayBehind parseTs trigger env = some delta ∧
    (0 < delta ∧ delta < 1000000000 ∨
      windowSecs * 1000000000 < delta ∧ delta < (windowSecs + 1) * 1000000000)

end

section
variable {parseTs : String → Option Int} {trigger : EventEnvelope} {window : List EventEnvelope}
  {windowSecs : Int}

theorem secondsAfter_eq (env : EventEnvelope) :
    secondsAfter parseTs trigger env = (delayBehind parseTs trigger env).map numSeconds := by
  unfold secondsAfter delayBehind
  cases envelopeTime parseTs trigger with
  | none => rfl
  | some s => cases envelopeTime parseTs env <;> rfl

/-- What is kept, on the delay. -/
theorem windowWithinSecs_eq :
    windowWithinSecs parseTs trigger window windowSecs = window.filter fun env =>
      (delayBehind parseTs trigger env).any fun delta =>
        0 < numSeconds delta && numSeconds delta ≤ windowSecs := by
  refine List.filter_congr fun env _ => ?_
  rw [secondsAfter_eq]
  cases delayBehind parseTs trigger env <;> rfl

theorem filter_eq_filter_iff {α : Type*} {p q : α → Bool} {l : List α} :
    l.filter p = l.filter q ↔ ∀ x ∈ l, p x = q x := by
  constructor
  · intro h x hx
    have hmem : x ∈ l.filter p ↔ x ∈ l.filter q := by rw [h]
    simp only [List.mem_filter, hx, true_and] at hmem
    exact Bool.eq_iff_iff.2 hmem
  · exact List.filter_congr

/-- An envelope is shown that is not in the window, or is in it and not shown, when it is just
behind a bound. -/
theorem shown_eq_follows_iff (hsecs : 0 < windowSecs) (env : EventEnvelope) :
    ((delayBehind parseTs trigger env).any fun delta =>
        0 < numSeconds delta && numSeconds delta ≤ windowSecs) =
      follows parseTs trigger windowSecs env ↔ ¬ JustBehind parseTs trigger windowSecs env := by
  unfold follows JustBehind
  cases delayBehind parseTs trigger env with
  | none => simp
  | some delta =>
    rw [Option.any_some, Option.any_some, Bool.eq_iff_iff]
    simp only [Option.some.injEq, exists_eq_left', Bool.and_eq_true, decide_eq_true_eq,
      numSeconds_pos_iff, numSeconds_le_iff (Int.le_of_lt hsecs)]
    omega

/-- The window is the documented one exactly when it is empty or no envelope is just behind one of
its bounds. -/
theorem windowWithinSecs_eq_iff (trigger : EventEnvelope) (window : List EventEnvelope)
    (windowSecs : Int) :
    windowWithinSecs parseTs trigger window windowSecs =
        window.filter (follows parseTs trigger windowSecs) ↔
      windowSecs ≤ 0 ∨ ∀ env ∈ window, ¬ JustBehind parseTs trigger windowSecs env := by
  rw [windowWithinSecs_eq, filter_eq_filter_iff]
  rcases Int.lt_or_le 0 windowSecs with hpos | hneg
  · rw [or_iff_right (by omega)]
    exact forall₂_congr fun env _ => shown_eq_follows_iff hpos env
  · -- neither window has anything in it
    refine iff_of_true (fun env _ => ?_) (.inl hneg)
    unfold follows
    cases delayBehind parseTs trigger env with
    | none => rfl
    | some delta =>
      rw [Option.any_some, Option.any_some, Bool.eq_iff_iff]
      simp only [Bool.and_eq_true, decide_eq_true_eq, numSeconds_pos_iff]
      constructor
      · rintro ⟨hlong, hle⟩
        have := (numSeconds_pos_iff delta).2 hlong
        omega
      · rintro ⟨hlong, hle⟩
        omega

end

/-! ### Half a second -/

/-- The times of the texts below, in nanoseconds from the first minute. -/
def halfSeconds (ts : String) : Option Int :=
  if ts = "2026-05-01T18:46:10.000Z" then some 10000000000
  else if ts = "2026-05-01T18:46:10.500Z" then some 10500000000
  else if ts = "2026-05-01T18:46:25.500Z" then some 25500000000
  else none

def envelopeOf (key : String) (event : GameEvent) : EventEnvelope where
  idempotencyKey := key
  rawLine := ""
  event := some event
  source := .live
  sourceOffset := 0
  metadata := none
  resolvedLocation := none

def spawnAt (timestamp : String) : EventEnvelope :=
  envelopeOf timestamp (.resolveSpawn ⟨timestamp, "201", false⟩)

/-- The follow-up half a second later is left out, and the one fifteen and a half seconds later is
kept. -/
theorem windowWithinSecs_not_exact :
    ¬ ∀ (parseTs : String → Option Int) (trigger : EventEnvelope) (window : List EventEnvelope)
        (windowSecs : Int),
      (∀ env ∈ trigger :: window, (envelopeTime parseTs env).isSome = true) → 0 ≤ windowSecs →
        windowWithinSecs parseTs trigger window windowSecs =
          window.filter (follows parseTs trigger windowSecs) := by
  intro h
  have hsame := h halfSeconds (spawnAt "2026-05-01T18:46:10.000Z")
    [spawnAt "2026-05-01T18:46:10.500Z", spawnAt "2026-05-01T18:46:25.500Z"] 15
    (by decide +kernel) (by decide)
  exact absurd hsame (by decide +kernel)

end StarStats
