import StarStats.Server.Submissions

/-!
# The state machine of a submission

The row lock makes each call one piece: `Ready` is what a transaction that holds the lock is about
to commit, and `Inv.served` that it commits what `Submission.serve` does with the submission that
it found. The state machine is then read off `serve` (`lawful_of_serve`).
-/

namespace StarStats

namespace Submissions

variable {s s' : State} {act : Action}

/-! ## A call in one piece -/

/-- The transaction commits what the call in one piece does. -/
def Serves (s : Submission) (c : Call) (writes : Writes) (answer : Option Answer) : Prop :=
  s.serve c.startedAt c.request = .ok (s.written writes c.startedAt, answer)

/-- What a transaction that has the lock knows of the submission. -/
def Ready (s : Submission) (c : Call) : Phase → Prop
  | .insertFlag userId reason prior => c.request = .flag userId reason ∧ prior = s.status
  | .countFlags prior inserted => ∃ userId reason, c.request = .flag userId reason ∧
    prior = s.status ∧ inserted =
      if s.flags.get userId = none then some ⟨userId, reason, c.startedAt⟩ else none
  | .setFlagged inserted count => Serves s c ⟨inserted, some .flagged, none⟩
    (some (.flagged ⟨writeOutcome inserted, count, true⟩))
  | .setWithdrawn => Serves s c ⟨none, some .withdrawn, none⟩ none
  | .setStatus t prior => Serves s c ⟨none, some t.target, t.reason⟩
    (some (.moderated ⟨s.id, prior.asStr, t.target.asStr, true⟩))
  | .commit writes answer => Serves s c writes answer
  | .select | .reread | .done _ => True

theorem ready_transition {s : Submission} {c : Call} {t : Transition} {phase : Phase}
    (hserve : s.serve c.startedAt c.request =
      (s.transition t c.startedAt).map fun r => (r.1, some r.2))
    (h : t.selected s = .ok phase) : Ready s c phase := by
  unfold Transition.selected at h
  unfold Submission.transition at hserve
  split at h
  · cases h
  · rename_i hlegal
    rw [if_neg hlegal] at hserve
    split at h
    · rename_i hsame
      cases h
      rw [if_pos hsame] at hserve
      exact hserve
    · rename_i hother
      cases h
      rw [if_neg hother] at hserve
      exact hserve

theorem ready_selected {s : Submission} {c : Call} {phase : Phase}
    (h : c.request.selected s = .ok phase) : Ready s c phase := by
  cases hrequest : c.request with
  | flag userId reason =>
    rw [hrequest] at h
    cases h
    exact ⟨hrequest, rfl⟩
  | withdraw callerId =>
    rw [hrequest] at h
    simp only [Request.selected] at h
    split at h
    · cases h
    · rename_i howner
      split at h
      · cases h
      · rename_i hreview
        cases h
        show Serves s c ⟨none, some .withdrawn, none⟩ none
        rw [Serves, hrequest, Submission.serve, if_neg howner, if_neg hreview]
  | accept =>
    rw [hrequest] at h
    exact ready_transition (by rw [hrequest]; rfl) h
  | reject reason =>
    rw [hrequest] at h
    exact ready_transition (by rw [hrequest]; rfl) h
  | dismiss =>
    rw [hrequest] at h
    exact ready_transition (by rw [hrequest]; rfl) h

theorem ready_advance {s : Submission} {c : Call} {phase : Phase} (h : Ready s c phase) :
    Ready s c (advance s c.startedAt phase) := by
  cases phase with
  | insertFlag userId reason prior => exact ⟨userId, reason, h.1, h.2, rfl⟩
  | countFlags prior inserted =>
    obtain ⟨userId, reason, hrequest, rfl, hinserted⟩ := h
    have hserve : s.serve c.startedAt c.request =
        .ok ((s.flag userId reason c.startedAt).1, some (s.flag userId reason c.startedAt).2) := by
      rw [hrequest]
      rfl
    simp only [Submission.flag, ← hinserted] at hserve
    simp only [advance]
    split
    · rename_i hescalated
      rw [hescalated] at hserve
      exact hserve
    · rename_i hnot
      rw [Bool.eq_false_iff.2 hnot] at hserve
      exact hserve
  | setFlagged | setWithdrawn | setStatus | commit => exact h
  | select | reread | done => trivial

/-! ## The state machine of a call -/

/-- A transition that changes the status comes from a legal prior, and says so. -/
theorem transition_cases {s s' : Submission} {t : Transition} {now : Timestamp} {a : Answer}
    (h : s.transition t now = .ok (s', a)) :
    (s' = s ∧ a = .moderated ⟨s.id, s.status.asStr, t.target.asStr, false⟩) ∨
    (s.status ∈ t.legalPriors ∧ s.status ≠ t.target ∧
      s' = s.written ⟨none, some t.target, t.reason⟩ now ∧
      a = .moderated ⟨s.id, s.status.asStr, t.target.asStr, true⟩) := by
  unfold Submission.transition at h
  split at h
  · cases h
  · rename_i hlegal
    split at h
    · cases h
      exact .inl ⟨rfl, rfl⟩
    · rename_i hother
      cases h
      exact .inr ⟨not_not.1 hlegal, hother, rfl, rfl⟩

/-- The parts of the law that are about flags hold of a call that is no flag. -/
theorem lawful_of_not_flag {e : Entry} (hflag : ∀ userId reason, e.request ≠ .flag userId reason)
    (hanswer : ∀ outcome, e.answer ≠ some (.flagged outcome))
    (hstatus : e.after.status = e.before.status ∨
      e.after.status ≠ .flagged ∧
        Edge e.before.submitterId e.request e.before.status e.after.status)
    (hchanged : (∃ t, e.answer = some (.moderated t) ∧ t.wasChanged = true) ↔
      e.request.isModeration = true ∧ e.after.status ≠ e.before.status) : e.Lawful where
  edge := hstatus.imp_right fun h => h.2
  flagged := by
    have hnot : ¬ e.Escalates := by
      rintro ⟨userId, reason, hrequest, -⟩
      exact hflag userId reason hrequest
    refine iff_of_false ?_ hnot
    rintro ⟨hbefore, hafter⟩
    rcases hstatus with hsame | ⟨hne, -⟩
    · exact hbefore (hsame ▸ hafter)
    · exact hne hafter
  escalated := by
    refine iff_of_false ?_ ?_
    · rintro ⟨outcome, houtcome, -⟩
      exact hanswer outcome houtcome
    · rintro ⟨userId, reason, hrequest, -⟩
      exact hflag userId reason hrequest
  changed := hchanged

theorem lawful_of_transition {e : Entry} {t : Transition} {now : Timestamp} {a : Answer}
    (h : e.before.transition t now = .ok (e.after, a)) (ha : e.answer = some a)
    (hmod : e.request.isModeration = true) (htarget : t.target ≠ .flagged)
    (hedge : ∀ «from» ∈ t.legalPriors, «from» ≠ t.target →
      Edge e.before.submitterId e.request «from» t.target) : e.Lawful := by
  refine lawful_of_not_flag (fun userId reason hrequest => ?_) ?_ ?_ ?_
  · rw [hrequest] at hmod
    cases hmod
  all_goals rcases transition_cases h with ⟨hafter, rfl⟩ | ⟨hlegal, hother, hafter, rfl⟩
  · simp [ha]
  · simp [ha]
  · exact .inl (by rw [hafter])
  · have hstatus : e.after.status = t.target := by
      rw [hafter]
      rfl
    rw [hstatus]
    exact .inr ⟨htarget, hedge _ hlegal hother⟩
  · simp [ha, hafter]
  · have hstatus : e.after.status = t.target := by
      rw [hafter]
      rfl
    simp [ha, hmod, hstatus, Ne.symm hother]

theorem lawful_of_withdraw {e : Entry} {callerId : Uuid} (hrequest : e.request = .withdraw callerId)
    (h : e.before.serve e.startedAt e.request = .ok (e.after, e.answer)) : e.Lawful := by
  rw [hrequest, Submission.serve] at h
  split at h
  · cases h
  · rename_i howner
    split at h
    · cases h
    · rename_i hreview
      obtain ⟨hafter, hanswer⟩ := Prod.mk.inj (Except.ok.inj h)
      have hstatus : e.after.status = .withdrawn := by
        rw [← hafter]
        rfl
      refine lawful_of_not_flag ?_ ?_ ?_ ?_
      · simp [hrequest]
      · simp [← hanswer]
      · rw [hstatus, hrequest, not_not.1 howner, not_not.1 hreview]
        exact .inr ⟨by decide, .withdraw⟩
      · simp [← hanswer, hrequest, Request.isModeration]

theorem length_insertNew {t : Keyed Flag.userId} {f : Flag} (hnew : t.get f.userId = none) :
    (t.insertNew f).rows.length = t.rows.length + 1 := by
  rw [Keyed.insertNew, dif_pos hnew, Keyed.insert, List.length_append]
  rfl

/-- A flag changes nothing, or adds a new flagger and escalates where the rule says so. -/
theorem flag_cases (s : Submission) (userId : Uuid) (reason : Option String) (now : Timestamp) :
    (s.flags.get userId ≠ none ∧ s.flag userId reason now =
      (s, .flagged ⟨.alreadyExists, s.flags.rows.length, false⟩)) ∨
    (s.flags.get userId = none ∧ ∃ escalated : Bool,
      (escalated = true ↔ s.status = .review ∧ autoFlagThreshold ≤ s.flags.rows.length + 1) ∧
      s.flag userId reason now =
        (s.written ⟨some ⟨userId, reason, now⟩, if escalated then some .flagged else none, none⟩
          now, .flagged ⟨.inserted, s.flags.rows.length + 1, escalated⟩)) := by
  cases hget : s.flags.get userId with
  | some f =>
    refine .inl ⟨Option.some_ne_none f, ?_⟩
    simp [Submission.flag, hget, Submission.written, writeOutcome]
  | none =>
    refine .inr ⟨rfl, s.status == .review && decide (autoFlagThreshold ≤ s.flags.rows.length + 1),
      by simp, ?_⟩
    simp [Submission.flag, hget, writeOutcome]

theorem lawful_of_flag {e : Entry} {userId : Uuid} {reason : Option String}
    (hrequest : e.request = .flag userId reason)
    (h : e.before.serve e.startedAt e.request = .ok (e.after, e.answer)) : e.Lawful := by
  rw [hrequest, Submission.serve] at h
  obtain ⟨hafter, hanswer⟩ := Prod.mk.inj (Except.ok.inj h)
  have hescalates : e.Escalates ↔ e.before.flags.get userId = none ∧ e.before.status = .review ∧
      autoFlagThreshold ≤ e.after.flags.rows.length := by
    constructor
    · rintro ⟨u, r, hur, hrest⟩
      rw [hrequest] at hur
      cases hur
      exact hrest
    · exact fun hrest => ⟨userId, reason, hrequest, hrest⟩
  have hmoderated : ¬ ∃ t, e.answer = some (.moderated t) ∧ t.wasChanged = true := by
    rintro ⟨t, ht, -⟩
    rw [← hanswer] at ht
    cases Option.some.inj ht
  have hmod : ¬ (e.request.isModeration = true ∧ e.after.status ≠ e.before.status) := by
    rw [hrequest]
    simp [Request.isModeration]
  rcases flag_cases e.before userId reason e.startedAt with ⟨hold, heq⟩ | ⟨hnew, escalated, hiff, heq⟩
  · rw [heq] at hafter hanswer
    have hsame : e.after.status = e.before.status := by rw [← hafter]
    have hnot : ¬ e.Escalates := fun hesc => hold (hescalates.1 hesc).1
    refine ⟨.inl hsame, iff_of_false ?_ hnot, iff_of_false ?_ hnot,
      iff_of_false hmoderated hmod⟩
    · rw [hsame]
      exact fun hboth => hboth.1 hboth.2
    · simp [← hanswer]
  · rw [heq] at hafter hanswer
    have hlength : e.after.flags.rows.length = e.before.flags.rows.length + 1 := by
      rw [← hafter]
      exact length_insertNew hnew
    have hesc : e.Escalates ↔ escalated = true := by
      rw [hescalates, hiff, hlength]
      exact and_iff_right hnew
    have hstatus : e.after.status = if escalated then .flagged else e.before.status := by
      rw [← hafter]
      cases escalated <;> rfl
    cases escalated with
    | false =>
      have hnot : ¬ e.Escalates := fun h' => by cases hesc.1 h'
      refine ⟨.inl hstatus, iff_of_false ?_ hnot, iff_of_false ?_ hnot,
        iff_of_false hmoderated hmod⟩
      · rw [hstatus]
        exact fun hboth => hboth.1 hboth.2
      · simp [← hanswer]
    | true =>
      have hreview : e.before.status = .review := (hiff.1 rfl).1
      refine ⟨.inr ?_, iff_of_true ⟨?_, hstatus⟩ (hesc.2 rfl), iff_of_true ?_ (hesc.2 rfl),
        iff_of_false hmoderated hmod⟩
      · rw [hstatus, hrequest, hreview]
        exact .flag userId reason
      · rw [hreview]
        decide
      · exact ⟨_, hanswer.symm, rfl⟩

theorem lawful_of_serve {e : Entry}
    (h : e.before.serve e.startedAt e.request = .ok (e.after, e.answer)) : e.Lawful := by
  have hof {t : Transition} (hserve : e.before.serve e.startedAt e.request =
      (e.before.transition t e.startedAt).map fun r => (r.1, some r.2)) :
      ∃ a, e.before.transition t e.startedAt = .ok (e.after, a) ∧ e.answer = some a := by
    rw [hserve] at h
    cases htransition : e.before.transition t e.startedAt with
    | error err =>
      rw [htransition] at h
      cases h
    | ok r =>
      rw [htransition] at h
      obtain ⟨hafter, hanswer⟩ := Prod.mk.inj (Except.ok.inj h)
      exact ⟨r.2, by rw [← hafter], hanswer.symm⟩
  cases hrequest : e.request with
  | flag userId reason => exact lawful_of_flag hrequest h
  | withdraw callerId => exact lawful_of_withdraw hrequest h
  | accept =>
    obtain ⟨a, ht, ha⟩ := hof (t := acceptSubmission) (by rw [hrequest]; rfl)
    refine lawful_of_transition ht ha (by rw [hrequest]; rfl) (by decide) fun r hr hne => ?_
    rw [hrequest]
    have haccepted : r ≠ .accepted := hne
    exact .accept r (by simpa [acceptSubmission, haccepted] using hr)
  | reject reason =>
    obtain ⟨a, ht, ha⟩ := hof (t := rejectSubmission reason) (by rw [hrequest]; rfl)
    refine lawful_of_transition ht ha (by rw [hrequest]; rfl)
      (fun hflagged => by cases hflagged) fun r hr hne => ?_
    rw [hrequest]
    have hrejected : r ≠ .rejected := hne
    exact .reject reason r (by simpa [rejectSubmission, hrejected] using hr)
  | dismiss =>
    obtain ⟨a, ht, ha⟩ := hof (t := dismissFlag) (by rw [hrequest]; rfl)
    refine lawful_of_transition ht ha (by rw [hrequest]; rfl) (by decide) fun r hr hne => ?_
    rw [hrequest]
    have hreview : r ≠ .review := hne
    have hflagged : r = .flagged := by simpa [dismissFlag, hreview] using hr
    rw [hflagged]
    exact .dismiss

/-! ## What a step is -/

/-- What the log has of a call, by its phase. -/
def Accounted (log : List Entry) (i : Nat) (c : Call) : Prop :=
  match c.phase with
  | .done (.ok a) => ∃ e ∈ log, e.call = i ∧ e.request = c.request ∧ e.Answers a
  | .reread => ∃ e ∈ log, e.call = i ∧ e.request = c.request ∧ e.answer = none
  | .done (.error err) => (∃ e ∈ log, e.call = i) →
    (∃ callerId, c.request = .withdraw callerId) ∧ err = .database
  | _ => ∀ e ∈ log, e.call ≠ i

structure Inv (start : Option Submission) (s : State) : Prop where
  mutex : Calls.Mutex Call.holding s.lock s.calls
  ready : ∀ c ∈ s.calls, c.holding = true → ∃ submission, s.submission = some submission ∧
    Ready submission c c.phase
  chain : Chain start s.log s.submission
  served : ∀ e ∈ s.log, e.before.serve e.startedAt e.request = .ok (e.after, e.answer)
  once : (s.log.map (·.call)).Nodup
  below : ∀ e ∈ s.log, e.call < s.calls.length
  accounted : ∀ (i : Nat) (c : Call), s.calls[i]? = some c → Accounted s.log i c
  gone : s.submission = none → s.log = []

theorem inv_start (now : Timestamp) (start : Option Submission) :
    Inv start (.start now start) where
  mutex := fun _ _ h => by cases h
  ready := fun _ h => by cases h
  chain := rfl
  served := fun _ h => by cases h
  once := List.nodup_nil
  below := fun _ h => by cases h
  accounted := fun _ _ h => by cases h
  gone := fun _ => rfl

theorem holding_selected {s : Submission} {c : Call} {phase : Phase}
    (h : c.request.selected s = .ok phase) :
    ({ c with phase := phase } : Call).holding = true := by
  have htransition {t : Transition} (ht : t.selected s = .ok phase) :
      ({ c with phase := phase } : Call).holding = true := by
    unfold Transition.selected at ht
    split at ht
    · cases ht
    · split at ht <;> cases ht <;> rfl
  cases hrequest : c.request with
  | flag userId reason =>
    rw [hrequest] at h
    cases h
    rfl
  | withdraw callerId =>
    rw [hrequest] at h
    simp only [Request.selected] at h
    split at h
    · cases h
    · split at h
      · cases h
      · cases h
        rfl
  | accept | reject reason | dismiss =>
    rw [hrequest] at h
    exact htransition h

theorem holding_advance {s : Submission} {c : Call} (h : c.holding = true) :
    ({ c with phase := advance s c.startedAt c.phase } : Call).holding = true := by
  cases hphase : c.phase with
  | select | reread | done =>
    rw [Call.holding, hphase] at h
    cases h
  | countFlags prior inserted =>
    simp only [advance]
    split <;> rfl
  | _ => rfl

inductive Effect (s : State) : State → Prop
  | waited (d : Nat) : Effect s { s with now := s.now + d }
  | began (request : Request) :
    Effect s { s with calls := s.calls ++ [⟨request, s.now, .select⟩] }
  /-- A call that has not committed ends with an error. -/
  | stopped (i : Nat) (c : Call) (e : SubmissionError) (hc : s.calls[i]? = some c)
    (hopen : c.phase = .select ∨ c.holding = true) :
    Effect s { s.go i c (.done (.error e)) with lock := if c.holding then none else s.lock }
  | locked (i : Nat) (c : Call) (submission : Submission) (phase : Phase)
    (hc : s.calls[i]? = some c) (hphase : c.phase = .select) (hfree : s.lock = none)
    (hsubmission : s.submission = some submission)
    (hselected : c.request.selected submission = .ok phase) :
    Effect s { s.go i c phase with lock := some i }
  | went (i : Nat) (c : Call) (submission : Submission) (hc : s.calls[i]? = some c)
    (hholding : c.holding = true) (hsubmission : s.submission = some submission) :
    Effect s (s.go i c (advance submission c.startedAt c.phase))
  | committed (i : Nat) (c : Call) (submission : Submission) (writes : Writes)
    (answer : Option Answer) (hc : s.calls[i]? = some c)
    (hphase : c.phase = .commit writes answer) (hsubmission : s.submission = some submission) :
    Effect s (s.commit i c submission writes answer)
  /-- A withdrawal has read the submission back, or failed to. -/
  | reread (i : Nat) (c : Call) (answer : Except SubmissionError Answer)
    (hc : s.calls[i]? = some c) (hphase : c.phase = .reread)
    (hanswer : (∃ submission, answer = .ok (.withdrawn submission)) ∨ answer = .error .database) :
    Effect s (s.go i c (.done answer))

theorem effect_next {start : Option Submission} (hs : Inv start s) {i : Nat}
    (h : step s (.next i) = some s') : Effect s s' := by
  cases hc : s.calls[i]? with
  | none => simp [step, hc] at h
  | some c =>
    have hstopped {e : SubmissionError} (hphase : c.phase = .select) :
        Effect s (s.go i c (.done (.error e))) := by
      have hnot : c.holding = false := by rw [Call.holding, hphase]
      have heffect := Effect.stopped i c e hc (.inl hphase)
      rw [hnot] at heffect
      exact heffect
    have hwent {submission : Submission} (hholding : c.holding = true)
        (hsubmission : s.submission = some submission)
        (h' : some (s.go i c (advance submission c.startedAt c.phase)) = some s') :
        Effect s s' := by
      cases h'
      exact .went i c submission hc hholding hsubmission
    cases hsubmission : s.submission with
    | none =>
      cases hphase : c.phase with
      | select =>
        simp only [step, hc, hphase, hsubmission, Option.some.injEq] at h
        subst h
        exact hstopped hphase
      | reread =>
        -- its entry is in the log
        have haccounted := hs.accounted i c hc
        rw [Accounted, hphase] at haccounted
        obtain ⟨e, he, -⟩ := haccounted
        rw [hs.gone hsubmission] at he
        cases he
      | _ => simp [step, hc, hphase, hsubmission] at h
    | some submission =>
      cases hphase : c.phase with
      | select =>
        simp only [step, hc, hphase, hsubmission] at h
        split at h
        · rename_i hfree
          split at h
          · cases h
            exact hstopped hphase
          · rename_i phase hselected
            cases h
            exact .locked i c submission phase hc hphase hfree hsubmission hselected
        · cases h
      | reread =>
        simp only [step, hc, hphase, hsubmission, Option.some.injEq] at h
        subst h
        exact .reread i c _ hc hphase (.inl ⟨submission, rfl⟩)
      | done => simp [step, hc, hphase] at h
      | commit writes answer =>
        simp only [step, hc, hphase, hsubmission, Option.some.injEq] at h
        subst h
        exact .committed i c submission writes answer hc hphase hsubmission
      | _ =>
        apply hwent (by rw [Call.holding, hphase]) hsubmission
        simp only [step, hc, hphase, hsubmission] at h ⊢
        exact h

theorem effect_of_step {start : Option Submission} (hs : Inv start s)
    (h : step s act = some s') : Effect s s' := by
  cases act with
  | wait d =>
    cases h
    exact .waited d
  | call request =>
    cases h
    exact .began request
  | next i => exact effect_next hs h
  | fail i =>
    cases hc : s.calls[i]? with
    | none => simp [step, hc] at h
    | some c =>
      cases hphase : c.phase with
      | done => simp [step, hc, hphase] at h
      | reread =>
        have hnot : c.holding = false := by rw [Call.holding, hphase]
        simp only [step, hc, hphase, hnot, Option.some.injEq] at h
        subst h
        exact .reread i c _ hc hphase (.inr rfl)
      | select =>
        simp only [step, hc, hphase, Option.some.injEq] at h
        subst h
        exact .stopped i c .database hc (.inl hphase)
      | _ =>
        simp only [step, hc, hphase, Option.some.injEq] at h
        subst h
        exact .stopped i c .database hc (.inr (by rw [Call.holding, hphase]))

/-! ## The invariant -/

section
variable {log : List Entry} {i : Nat} {c : Call}

/-- A call that is not yet committed is not in the log. -/
theorem not_in_log (hopen : c.phase = .select ∨ c.holding = true) (h : Accounted log i c) :
    ∀ e ∈ log, e.call ≠ i := by
  unfold Accounted at h
  cases hphase : c.phase with
  | reread | done =>
    simp [Call.holding, hphase] at hopen
  | _ =>
    rw [hphase] at h
    exact h

theorem accounted_of_holding (hc : c.holding = true) (h : ∀ e ∈ log, e.call ≠ i) :
    Accounted log i c := by
  unfold Accounted
  cases hphase : c.phase with
  | reread | done =>
    simp [Call.holding, hphase] at hc
  | _ => exact h

/-- The entry of another call changes nothing. -/
theorem accounted_append {e : Entry} (h : Accounted log i c) (he : e.call ≠ i) :
    Accounted (log ++ [e]) i c := by
  have hold {p : Entry → Prop} (hex : ∃ e ∈ log, e.call = i ∧ p e) :
      ∃ e' ∈ log ++ [e], e'.call = i ∧ p e' := by
    obtain ⟨e', he', hp⟩ := hex
    exact ⟨e', List.mem_append_left _ he', hp⟩
  have hnew {e' : Entry} (he' : e' ∈ log ++ [e]) (hcall : e'.call = i) : e' ∈ log := by
    rcases List.mem_append.1 he' with he' | he'
    · exact he'
    · rw [List.mem_singleton.1 he'] at hcall
      exact absurd hcall he
  unfold Accounted at h ⊢
  cases hphase : c.phase with
  | reread =>
    simp only [hphase] at h
    exact hold h
  | done answer =>
    cases answer with
    | ok a =>
      simp only [hphase] at h
      exact hold h
    | error err =>
      simp only [hphase] at h
      rintro ⟨e', he', hcall⟩
      exact h ⟨e', hnew he' hcall, hcall⟩
  | _ =>
    simp only [hphase] at h
    exact fun e' he' hcall => h e' (hnew he' hcall) hcall

end

theorem chain_append {start : Option Submission} {log : List Entry} {e : Entry}
    (h : Chain start log (some e.before)) : Chain start (log ++ [e]) (some e.after) := by
  induction log generalizing start with
  | nil => exact ⟨h.symm, rfl⟩
  | cons first log ih => exact ⟨h.1, ih h.2⟩

/-- Only a withdrawal answers later. -/
theorem withdraw_of_answer_none {s s' : Submission} {now : Timestamp} {request : Request}
    (h : s.serve now request = .ok (s', none)) : ∃ callerId, request = .withdraw callerId := by
  have hnot {t : Transition}
      (h' : (s.transition t now).map (fun r => (r.1, some r.2)) = .ok (s', none)) : False := by
    cases htransition : s.transition t now with
    | error e =>
      rw [htransition] at h'
      cases h'
    | ok r =>
      rw [htransition] at h'
      cases h'
  cases request with
  | flag userId reason => cases h
  | withdraw callerId => exact ⟨callerId, rfl⟩
  | accept => exact (hnot h).elim
  | reject reason => exact (hnot h).elim
  | dismiss => exact (hnot h).elim

theorem ready_set {start : Option Submission} (hs : Inv start s) {i : Nat} {c : Call}
    (hc : c.holding = true → ∃ submission, s.submission = some submission ∧
      Ready submission c c.phase) : ∀ d ∈ s.calls.set i c, d.holding = true →
      ∃ submission, s.submission = some submission ∧ Ready submission d d.phase := by
  intro d hd
  rcases List.mem_or_eq_of_mem_set hd with hd | rfl
  · exact hs.ready d hd
  · exact hc

theorem accounted_set {start : Option Submission} (hs : Inv start s) {i : Nat} {c : Call}
    (hc : Accounted s.log i c) (j : Nat) (d : Call) (hj : (s.calls.set i c)[j]? = some d) :
    Accounted s.log j d := by
  rcases Calls.of_set hj with ⟨rfl, rfl⟩ | ⟨-, hj⟩
  · exact hc
  · exact hs.accounted j d hj

theorem below_set {start : Option Submission} (hs : Inv start s) {i : Nat} {c : Call} :
    ∀ e ∈ s.log, e.call < (s.calls.set i c).length := by
  rw [List.length_set]
  exact hs.below

theorem inv_commit {start : Option Submission} (hs : Inv start s) {i : Nat} {c : Call}
    {submission : Submission} {writes : Writes} {answer : Option Answer}
    (hc : s.calls[i]? = some c) (hphase : c.phase = .commit writes answer)
    (hsubmission : s.submission = some submission) :
    Inv start (s.commit i c submission writes answer) := by
  have hholding : c.holding = true := by rw [Call.holding, hphase]
  have hnew := not_in_log (.inr hholding) (hs.accounted i c hc)
  obtain ⟨_, hsame, hready⟩ := hs.ready c (List.mem_of_getElem? hc) hholding
  rw [hsubmission] at hsame
  cases hsame
  rw [hphase] at hready
  have hlast : ({ c with phase := .committed answer } : Call).holding = false := by
    cases answer <;> rfl
  refine ⟨hs.mutex.release hc hholding hlast, ?_, ?_, ?_, ?_, ?_, ?_, ?_⟩
  · intro d hd hdh
    obtain ⟨j, hj⟩ := List.mem_iff_getElem?.1 hd
    rcases Calls.of_set hj with ⟨-, rfl⟩ | ⟨hne, hj⟩
    · rw [hlast] at hdh
      cases hdh
    · rw [hs.mutex.not_holding hc hholding hj hne] at hdh
      cases hdh
  · exact chain_append (by rw [← hsubmission]; exact hs.chain)
  · intro e he
    rcases List.mem_append.1 he with he | he
    · exact hs.served e he
    · rw [List.mem_singleton.1 he]
      exact hready
  · show ((s.log ++ [_]).map Entry.call).Nodup
    rw [List.map_append, List.map_singleton]
    refine hs.once.append (List.nodup_singleton i) (List.disjoint_singleton.2 fun hmem => ?_)
    obtain ⟨e, he, hcall⟩ := List.mem_map.1 hmem
    exact hnew e he hcall
  · intro e he
    show e.call < (s.calls.set i _).length
    rw [List.length_set]
    rcases List.mem_append.1 he with he | he
    · exact hs.below e he
    · rw [List.mem_singleton.1 he]
      exact (List.getElem?_eq_some_iff.1 hc).1
  · intro j d hj
    rcases Calls.of_set hj with ⟨rfl, rfl⟩ | ⟨hne, hj⟩
    · have hlog := List.mem_append_right s.log (List.mem_singleton_self
        (⟨j, c.request, c.startedAt, submission, submission.written writes c.startedAt, answer⟩ :
          Entry))
      cases answer with
      | some a => exact ⟨_, hlog, rfl, rfl, .inl rfl⟩
      | none => exact ⟨_, hlog, rfl, rfl, rfl⟩
    · exact accounted_append (hs.accounted j d hj) (Ne.symm hne)
  · intro hnone
    cases hnone

theorem inv_step {start : Option Submission} (hs : Inv start s) (h : step s act = some s') :
    Inv start s' := by
  cases effect_of_step hs h with
  | waited d =>
    exact ⟨hs.mutex, hs.ready, hs.chain, hs.served, hs.once, hs.below, hs.accounted, hs.gone⟩
  | began request =>
    refine ⟨hs.mutex.push rfl, ?_, hs.chain, hs.served, hs.once, ?_, ?_, hs.gone⟩
    · intro c hc hholding
      rcases List.mem_append.1 hc with hc | hc
      · exact hs.ready c hc hholding
      · rw [List.mem_singleton.1 hc] at hholding
        cases hholding
    · intro e he
      have hlt := hs.below e he
      show e.call < (s.calls ++ [_]).length
      rw [List.length_append]
      omega
    · intro i c hi
      rcases Calls.of_push hi with ⟨rfl, rfl⟩ | hi
      · exact fun e he => Nat.ne_of_lt (hs.below e he)
      · exact hs.accounted i c hi
  | stopped i c e hc hopen =>
    have hnew := not_in_log hopen (hs.accounted i c hc)
    refine ⟨?_, ready_set hs (fun h => by cases h), hs.chain, hs.served, hs.once, below_set hs,
      accounted_set hs ?_, hs.gone⟩
    · show Calls.Mutex Call.holding (if c.holding then none else s.lock) _
      split
      · rename_i hholding
        exact hs.mutex.release hc hholding rfl
      · exact hs.mutex.idle rfl
    · rintro ⟨e, he, hcall⟩
      exact absurd hcall (hnew e he)
  | locked i c submission phase hc hphase hfree hsubmission hselected =>
    have hnew := not_in_log (.inl hphase) (hs.accounted i c hc)
    have hholding := holding_selected hselected
    refine ⟨(hfree ▸ hs.mutex).take, ready_set hs fun _ => ?_, hs.chain, hs.served, hs.once,
      below_set hs, accounted_set hs (accounted_of_holding hholding hnew), hs.gone⟩
    have hready := ready_selected hselected
    exact ⟨submission, hsubmission, by cases phase <;> exact hready⟩
  | went i c submission hc hholding hsubmission =>
    have hnew := not_in_log (.inr hholding) (hs.accounted i c hc)
    obtain ⟨_, hsame, hready⟩ := hs.ready c (List.mem_of_getElem? hc) hholding
    rw [hsubmission] at hsame
    cases hsame
    have hadvance := ready_advance hready
    refine ⟨hs.mutex.keep hc hholding, ready_set hs fun _ => ⟨submission, hsubmission, ?_⟩,
      hs.chain, hs.served, hs.once, below_set hs,
      accounted_set hs (accounted_of_holding (holding_advance hholding) hnew), hs.gone⟩
    cases hphase : advance submission c.startedAt c.phase <;>
      (rw [hphase] at hadvance; exact hadvance)
  | committed i c submission writes answer hc hphase hsubmission =>
    exact inv_commit hs hc hphase hsubmission
  | reread i c answer hc hphase hanswer =>
    have haccounted := hs.accounted i c hc
    rw [Accounted, hphase] at haccounted
    obtain ⟨e, he, hcall, hrequest, hnone⟩ := haccounted
    refine ⟨hs.mutex.idle rfl, ready_set hs (fun h => by cases h), hs.chain, hs.served, hs.once,
      below_set hs, accounted_set hs ?_, hs.gone⟩
    rcases hanswer with ⟨submission, rfl⟩ | rfl
    · exact ⟨e, he, hcall, hrequest, .inr ⟨hnone, submission, rfl⟩⟩
    · intro _
      have hserved := hs.served e he
      rw [hnone] at hserved
      obtain ⟨callerId, hwithdraw⟩ := withdraw_of_answer_none hserved
      exact ⟨⟨callerId, hrequest ▸ hwithdraw⟩, rfl⟩

/-- **The moderation of a submission** in every interleaving: the calls that committed form a chain
from the first submission to the current one, each does what it does in one piece and keeps to the
state machine; a call that answers is one of them, and a call that fails is not, unless it is a
withdrawal that has committed and could not read the submission back. -/
theorem calls_follow_stateMachine {now : Timestamp} {start : Option Submission}
    (h : Trans.Reach step Trans.always (.start now start) s) :
    Chain start s.log s.submission ∧ (s.log.map (·.call)).Nodup ∧
    (∀ e ∈ s.log,
      e.before.serve e.startedAt e.request = .ok (e.after, e.answer) ∧ e.Lawful) ∧
    ∀ (i : Nat) (c : Call), s.calls[i]? = some c →
      (∀ a, c.phase = .done (.ok a) →
        ∃ e ∈ s.log, e.call = i ∧ e.request = c.request ∧ e.Answers a) ∧
      ∀ err, c.phase = .done (.error err) → (∃ e ∈ s.log, e.call = i) →
        (∃ callerId, c.request = .withdraw callerId) ∧ err = .database := by
  have hs : Inv start s := h.inv (inv_start now start) fun _ _ _ hs _ => inv_step hs
  refine ⟨hs.chain, hs.once, fun e he => ⟨hs.served e he, lawful_of_serve (hs.served e he)⟩,
    fun i c hc => ?_⟩
  have haccounted := hs.accounted i c hc
  unfold Accounted at haccounted
  constructor
  · intro a ha
    simp only [ha] at haccounted
    exact haccounted
  · intro err herr
    simp only [herr] at haccounted
    exact haccounted

/-! ## Two runs -/

/-- In review, not flagged yet. -/
def annsSubmission : Submission := ⟨"p", "ann", .review, none, 0, .empty⟩

/-- Three flags escalate, the moderator dismisses, a fourth flagger escalates again. -/
def flagsAroundDismissal : List Action :=
  [Action.call (.flag "u" none), .call (.flag "v" none), .next 0, .next 0, .next 0, .next 0, .next 1,
    .next 1, .next 1, .next 1, .call (.flag "w" none), .next 2, .next 2, .next 2, .next 2, .next 2,
    .call .dismiss, .next 3, .next 3, .next 3, .call (.flag "x" none), .next 4, .next 4, .next 4,
    .next 4, .next 4, .call .accept, .next 5, .next 5, .next 5]

theorem calls_follow_stateMachine_dismissal : ∃ s,
    Trans.Reach step Trans.always (.start 0 (some annsSubmission)) s ∧
    s.log.map (·.after.status) = [.review, .review, .flagged, .review, .flagged, .accepted] ∧
    ∀ e ∈ s.log, e.before.serve e.startedAt e.request = .ok (e.after, e.answer) ∧ e.Lawful := by
  have hrun : (Trans.exec step Trans.always (.start 0 (some annsSubmission))
      flagsAroundDismissal).map (fun s => s.log.map (·.after.status)) =
      some [.review, .review, .flagged, .review, .flagged, .accepted] := by decide +kernel
  obtain ⟨s, hreach, hend⟩ := Trans.reach_of_map_exec flagsAroundDismissal hrun
  exact ⟨s, hreach, hend, (calls_follow_stateMachine hreach).2.2.1⟩

/-- Ann withdraws, and the submission cannot be read back. -/
def withdrawUnread : List Action :=
  [.call (.withdraw "ann"), .next 0, .next 0, .next 0, .fail 0]

theorem failed_call_withdraws : ¬ ∀ (now : Timestamp) (start : Option Submission) (s : State),
    Trans.Reach step Trans.always (.start now start) s → ∀ (i : Nat) (c : Call) (err),
      s.calls[i]? = some c → c.phase = .done (.error err) → ∀ e ∈ s.log, e.call ≠ i := by
  intro h
  have hrun : (Trans.exec step Trans.always (.start 0 (some annsSubmission))
      withdrawUnread).map (fun s => (s.calls[0]?.map (·.phase), s.log.map fun e =>
        (e.call, e.after.status))) =
      some (some (.done (.error .database)), [(0, .withdrawn)]) := by decide +kernel
  obtain ⟨s, hreach, hend⟩ := Trans.reach_of_map_exec withdrawUnread hrun
  obtain ⟨hcalls, hlog⟩ := Prod.mk.inj hend
  obtain ⟨c, hc, hphase⟩ := Option.map_eq_some_iff.1 hcalls
  obtain ⟨e, he, hpair⟩ := List.mem_map.1
    (hlog ▸ List.mem_singleton_self _ : (0, .withdrawn) ∈ s.log.map fun e =>
      (e.call, e.after.status))
  exact h 0 _ s hreach 0 c _ hc hphase e he (Prod.mk.inj hpair).1

end Submissions

end StarStats
