import Mathlib.Logic.Relation

/-!
# Step functions and their runs

A system is a partial step function `step : σ → α → Option σ`: `none` when the action is not
enabled (it waits for a lock, its transaction does not exist). `Reach step ok s s'` is
reachability by steps that all meet `ok`; `Reach.inv` is the invariant rule. `exec` replays a
list of actions, for concrete runs (`reach_of_exec`). `AllStates` and `AllSteps` speak about the
states and the steps of one run; `allStates_iff` says when a run keeps a property throughout,
`last_iff` when it ends with it.
-/

namespace Trans

variable {σ α : Type*}

/-- One step from `s` to `s'` by an action that meets `ok`. -/
def Step (step : σ → α → Option σ) (ok : σ → α → Prop) (s s' : σ) : Prop :=
  ∃ a, ok s a ∧ step s a = some s'

/-- `s'` is reached from `s` by steps that all meet `ok`. -/
abbrev Reach (step : σ → α → Option σ) (ok : σ → α → Prop) : σ → σ → Prop :=
  Relation.ReflTransGen (Step step ok)

/-- The condition that every step meets. -/
def always : σ → α → Prop := fun _ _ => True

instance : DecidableRel (always : σ → α → Prop) := fun _ _ => .isTrue trivial

/-- **The invariant rule.** -/
theorem Reach.inv {step : σ → α → Option σ} {ok : σ → α → Prop} {I : σ → Prop} {s s' : σ}
    (h : Reach step ok s s') (hs : I s)
    (hstep : ∀ s a s', I s → ok s a → step s a = some s' → I s') : I s' := by
  induction h with
  | refl => exact hs
  | tail _ hlast ih =>
    obtain ⟨a, hok, ha⟩ := hlast
    exact hstep _ a _ ih hok ha

/-- Replay a list of actions, each of which must be enabled and meet `ok`. -/
def exec (step : σ → α → Option σ) (ok : σ → α → Prop) [DecidableRel ok] : σ → List α → Option σ
  | s, [] => some s
  | s, a :: as => if ok s a then (step s a).bind (exec step ok · as) else none

theorem reach_of_exec {step : σ → α → Option σ} {ok : σ → α → Prop} [DecidableRel ok] :
    ∀ {s s' : σ} (as : List α), exec step ok s as = some s' → Reach step ok s s'
  | s, s', [], h => by
    simp only [exec, Option.some.injEq] at h
    exact h ▸ .refl
  | s, s', a :: as, h => by
    simp only [exec] at h
    split at h
    · rename_i hok
      obtain ⟨s₁, h₁, h₂⟩ := Option.bind_eq_some_iff.1 h
      exact .head ⟨a, hok, h₁⟩ (reach_of_exec as h₂)
    · cases h

/-- Where every action is enabled, a run is a fold. -/
theorem exec_some (f : σ → α → σ) (s : σ) (as : List α) :
    exec (fun s a => some (f s a)) always s as = some (as.foldl f s) := by
  induction as generalizing s with
  | nil => rfl
  | cons a as ih =>
    simp only [exec, if_pos (show always s a from trivial), Option.bind_some, ih, List.foldl_cons]

/-- What a replay ends with is reached. -/
theorem reach_of_map_exec {β : Type*} {step : σ → α → Option σ} {ok : σ → α → Prop}
    [DecidableRel ok] {f : σ → β} {b : β} {s : σ} (as : List α)
    (h : (exec step ok s as).map f = some b) : ∃ s', Reach step ok s s' ∧ f s' = b := by
  obtain ⟨s', hs', hf⟩ := Option.map_eq_some_iff.1 h
  exact ⟨s', reach_of_exec as hs', hf⟩

/-- Actions that meet `ok` in every state need no check at each step. -/
theorem reach_of_exec_always {step : σ → α → Option σ} {ok : σ → α → Prop} :
    ∀ {s s' : σ} (as : List α), (∀ a ∈ as, ∀ s, ok s a) → exec step always s as = some s' →
      Reach step ok s s'
  | s, s', [], _, h => by
    simp only [exec, Option.some.injEq] at h
    exact h ▸ .refl
  | s, s', a :: as, hok, h => by
    simp only [exec, if_pos (show always s a from trivial)] at h
    obtain ⟨s₁, h₁, h₂⟩ := Option.bind_eq_some_iff.1 h
    have hrest := reach_of_exec_always as (fun a ha => hok a (.tail _ ha)) h₂
    exact .head ⟨a, hok a List.mem_cons_self s, h₁⟩ hrest

/-- `P` holds at every state of the run of `as` from `s` (up to an action not enabled). -/
def AllStates (step : σ → α → Option σ) (P : σ → Prop) : σ → List α → Prop
  | s, [] => P s
  | s, a :: as => P s ∧ ∀ s', step s a = some s' → AllStates step P s' as

/-- What holds at every state of a run holds at its last. -/
theorem AllStates.of_exec {step : σ → α → Option σ} {P : σ → Prop} :
    ∀ {s s' : σ} {as : List α}, AllStates step P s as → exec step always s as = some s' → P s'
  | s, s', [], h, he => by
    simp only [exec, Option.some.injEq] at he
    exact he ▸ h
  | s, s', a :: as, h, he => by
    simp only [exec, if_pos (show always s a from trivial)] at he
    obtain ⟨s₁, h₁, h₂⟩ := Option.bind_eq_some_iff.1 he
    exact AllStates.of_exec (h.2 s₁ h₁) h₂

theorem AllStates.mono {step : σ → α → Option σ} {P Q : σ → Prop} (hPQ : ∀ s, P s → Q s) :
    ∀ {s : σ} {as : List α}, AllStates step P s as → AllStates step Q s as
  | s, [], h => hPQ s h
  | _, _ :: _, h => ⟨hPQ _ h.1, fun s' hs' => AllStates.mono hPQ (h.2 s' hs')⟩

/-- `ok` holds at every step of the run of `as` from `s`. -/
def AllSteps (step : σ → α → Option σ) (ok : σ → α → Prop) : σ → List α → Prop
  | _, [] => True
  | s, a :: as => ∀ s', step s a = some s' → ok s a ∧ AllSteps step ok s' as

theorem allSteps_of_exec {step : σ → α → Option σ} {ok : σ → α → Prop} [DecidableRel ok] :
    ∀ {s : σ} (as : List α), (exec step ok s as).isSome = true → AllSteps step ok s as
  | _, [], _ => trivial
  | s, a :: as, h => by
    simp only [exec] at h
    split at h
    · rename_i hok
      intro s' hs'
      rw [hs', Option.bind_some] at h
      exact ⟨hok, allSteps_of_exec as h⟩
    · cases h

/-- Where `I` is kept by the steps that meet `ok` and `P`, which `I` gives, is broken by the
others, a run keeps `P` throughout exactly when all its steps meet `ok`. -/
theorem allStates_iff {step : σ → α → Option σ} {ok : σ → α → Prop} {P I : σ → Prop}
    (hP : ∀ s, I s → P s) (hok : ∀ s a s', I s → step s a = some s' → ok s a → I s')
    (hbad : ∀ s a s', I s → step s a = some s' → ¬ ok s a → ¬ P s') :
    ∀ {s : σ} (as : List α), I s → (AllStates step P s as ↔ AllSteps step ok s as)
  | s, [], hs => by simp [AllStates, AllSteps, hP s hs]
  | s, a :: as, hs => by
    simp only [AllStates, AllSteps, hP s hs, true_and]
    refine forall₂_congr fun s' hs' => ?_
    constructor
    · intro hall
      have hP' : P s' := by
        cases as with
        | nil => exact hall
        | cons b bs => exact hall.1
      have hk : ok s a := Classical.byContradiction fun hn => hbad s a s' hs hs' hn hP'
      exact ⟨hk, (allStates_iff hP hok hbad as (hok s a s' hs hs' hk)).1 hall⟩
    · rintro ⟨hk, hall⟩
      exact (allStates_iff hP hok hbad as (hok s a s' hs hs' hk)).2 hall

/-- Where `P` is kept by the steps that meet `ok`, broken by the others, and never comes back, it
holds at the end of a run exactly when all its steps meet `ok`. -/
theorem last_iff {step : σ → α → Option σ} {ok : σ → α → Prop} {P : σ → Prop}
    (hok : ∀ s a s', P s → step s a = some s' → ok s a → P s')
    (hbad : ∀ s a s', step s a = some s' → ¬ ok s a → ¬ P s')
    (hstay : ∀ s a s', ¬ P s → step s a = some s' → ¬ P s') :
    ∀ {s s' : σ} (as : List α), P s → exec step always s as = some s' →
      (P s' ↔ AllSteps step ok s as)
  | s, s', [], hs, he => by
    simp only [exec, Option.some.injEq] at he
    subst he
    exact ⟨fun _ => trivial, fun _ => hs⟩
  | s, s', a :: as, hs, he => by
    simp only [exec, if_pos (show always s a from trivial)] at he
    obtain ⟨s₁, h₁, h₂⟩ := Option.bind_eq_some_iff.1 he
    have hsplit : AllSteps step ok s (a :: as) ↔ ok s a ∧ AllSteps step ok s₁ as := by
      simp only [AllSteps, h₁, Option.some.injEq, forall_eq']
    rw [hsplit]
    by_cases hk : ok s a
    · rw [last_iff hok hbad hstay as (hok s a s₁ hs h₁ hk) h₂]
      exact ⟨fun h => ⟨hk, h⟩, fun h => h.2⟩
    · have hlast : ¬ P s' := by
        have hreach : Reach step always s₁ s' := reach_of_exec as h₂
        exact hreach.inv (hbad s a s₁ h₁ hk) fun s a s' h _ => hstay s a s' h
      exact ⟨fun h => absurd h hlast, fun h => absurd h.1 hk⟩

end Trans
