import StarStats.Server.Concurrent
import StarStats.Server.Proof.Repo
import StarStats.Server.Proof.Sessions

/-!
# What session rows are worth

`Covers state old events` says what session rows derived from `old` are worth while the handle's
state row is `state` and `events` are stored: exact without a row or when clean, agreeing below
the watermark while one is pending. Ingest, a contract rebuild's clear and the session rebuild's
own statements each keep it.
-/

namespace StarStats.Concurrent

open Timeline (AgreeBelow)

/-! ## What rows derived from `old` are worth -/

def Covers (state : Option RollupRow) (old events : List SessionEvent) : Prop :=
  match state with
  | none => old.Perm events
  | some row =>
    match row.sessionsDirty, row.sessionsDirtyFromTs with
    | false, none => old.Perm events
    | false, some _ => False
    | true, none => True
    | true, some w => AgreeBelow SessionEvent.time w old events

section Covers
variable {state : Option RollupRow} {old events : List SessionEvent}


/-- Ingest moves the watermark down to the new events. -/
theorem Covers.ingest (h : Covers state old events) {now : Timestamp} {m : Option Timestamp}
    {ins : List SessionEvent} (hm : ∀ w, m = some w → ∀ e ∈ ins, w ≤ e.time)
    (hnone : m = none → ins = []) :
    Covers (some (dirtyRow now m state)) old (events ++ ins) := by
  cases state with
  | none =>
    cases m with
    | none => trivial
    | some w => exact (AgreeBelow.of_perm h SessionEvent.time w).append_right (hm w rfl)
  | some row =>
    obtain ⟨dirty, cdirty, from?, rebuilt, updated⟩ := row
    match dirty, from?, m with
    | true, none, _ => trivial
    | false, some _, _ => exact h.elim
    | false, none, none => trivial
    | false, none, some w => exact (AgreeBelow.of_perm h SessionEvent.time w).append_right (hm w rfl)
    | true, some w, none =>
      rw [hnone rfl, List.append_nil]
      exact h
    | true, some w, some m =>
      exact (AgreeBelow.mono h (min_le_left w m)).append_right fun e he =>
        (min_le_right w m).trans (hm m rfl e he)

/-- A contract rebuild's clear leaves the session columns alone. -/
theorem Covers.contractsCleared (h : Covers state old events) (now : Timestamp)
    (captured : Option Timestamp) :
    Covers (some (clearContractsDirty now captured state)) old events := by
  cases state with
  | none => trivial
  | some row =>
    rw [clearContractsDirty]
    split
    · exact h
    · exact h

/-- What is kept below `f` and read again from `f` on. -/
def refreshed (f : Timestamp) (old events : List SessionEvent) : List SessionEvent :=
  (old.filter fun e => decide (e.time < f)) ++ events.filter fun e => decide (f ≤ e.time)

theorem filter_le_eq (f : Timestamp) (l : List SessionEvent) :
    (l.filter fun e => decide (f ≤ e.time)) = l.filter fun e => !decide (e.time < f) := by
  refine List.filter_congr fun e _ => ?_
  simp only [← decide_not, not_lt]

theorem refreshed_perm {f : Timestamp} (h : AgreeBelow SessionEvent.time f old events) :
    (refreshed f old events).Perm events := by
  refine (List.Perm.append_right _ h).trans ?_
  rw [filter_le_eq]
  exact List.filter_append_perm _ events

theorem Covers.refresh (h : Covers state old events) (f : Timestamp) :
    Covers state (refreshed f old events) events := by
  cases state with
  | none => exact refreshed_perm (.of_perm h _ f)
  | some row =>
    obtain ⟨dirty, cdirty, from?, rebuilt, updated⟩ := row
    match dirty, from? with
    | false, none => exact refreshed_perm (.of_perm h _ f)
    | false, some _ => exact h.elim
    | true, none => trivial
    | true, some w =>
      have hw : (refreshed f (old.filter fun e => decide (e.time < w))
          (events.filter fun e => decide (e.time < w))).Perm
            (events.filter fun e => decide (e.time < w)) :=
        refreshed_perm (List.Perm.filter _ h)
      rw [refreshed, List.filter_comm, List.filter_comm (l := events), ← List.filter_append] at hw
      exact hw

theorem Covers.self (h : Covers state old events) : Covers state events events := by
  cases state with
  | none => exact .refl _
  | some row =>
    obtain ⟨dirty, cdirty, from?, rebuilt, updated⟩ := row
    match dirty, from? with
    | false, none => exact .refl _
    | false, some _ => exact h.elim
    | true, none => trivial
    | true, some w => exact .refl _ _ _

end Covers

/-! ## What a transaction knows -/

/-- The state row is still the one the transaction read. -/
def Fresh (cap : Captured) (state : Option RollupRow) : Prop :=
  state.map (·.updatedAt) = cap.updatedAt

/-- What was read of a fresh row is still true of it. -/
def CapturedOk (cap : Captured) (state : Option RollupRow) : Prop :=
  Fresh cap state → state.bind (·.sessionsDirtyFromTs) = cap.dirtyFromTs ∧
    stillDirty (·.sessionsDirty) state = true

/-- The rows a session rebuild is about to commit. -/
def Derived (cap : Captured) (state : Option RollupRow) (events : List SessionEvent)
    (rows : List SessionRow) : Prop :=
  ∃ new, (rows.map (·.summary)).Perm (sessionise new) ∧ Covers state new events ∧
    (Fresh cap state → new.Perm events)

/-- A clear of derived rows keeps what they are worth. -/
theorem Derived.cleared {cap : Captured} {state : Option RollupRow} {events : List SessionEvent}
    {rows : List SessionRow} (h : Derived cap state events rows) (now : Timestamp) :
    ∃ new, (rows.map (·.summary)).Perm (sessionise new) ∧
      Covers (some (clearSessionsDirty now cap.updatedAt state)) new events := by
  obtain ⟨new, hrows, hcov, hfresh⟩ := h
  refine ⟨new, hrows, ?_⟩
  cases state with
  | none => exact hcov
  | some row =>
    rw [clearSessionsDirty]
    split
    · rename_i heq
      exact hfresh heq.symm
    · exact hcov

/-- The insert statement derives rows from the captured watermark's window. -/
theorem Derived.of_insert {cap : Captured} {state : Option RollupRow} {events : List SessionEvent}
    {sessions : List SessionRow} {old : List SessionEvent}
    (hrows : (sessions.map (·.summary)).Perm (sessionise old)) (hcov : Covers state old events)
    (hcap : CapturedOk cap state) (offset : Nat) :
    let window := rebuildWindow cap.dirtyFromTs sessions
    Derived cap state events (keptSessions window sessions ++
      sessionRows offset (eventsFrom (window.map (·.fromTs)) events)) := by
  cases hw : cap.dirtyFromTs with
  | none =>
    exact ⟨events, rebuilt_summary_full sessions events offset, hcov.self, fun _ => .refl _⟩
  | some w =>
    obtain ⟨f, hf⟩ : ∃ f, f = (sessionRebuildWindow w sessionIdleGap (sessionBounds sessions)).fromTs :=
      ⟨_, rfl⟩
    have hread : eventsFrom (some f) (refreshed f old events) = eventsFrom (some f) events := by
      have hnone : ((old.filter fun e => decide (e.time < f)).filter
          fun e => decide (f ≤ e.time)) = [] := by
        rw [List.filter_filter, List.filter_eq_nil_iff]
        intro e _
        simp
      simp only [eventsFrom, refreshed, List.filter_append, hnone, List.nil_append,
        List.filter_filter, Bool.and_self]
    have hagree : AgreeBelow SessionEvent.time f old (refreshed f old events) := by
      have : AgreeBelow SessionEvent.time f old (old.filter fun e => decide (e.time < f)) := by
        rw [AgreeBelow, List.filter_filter]
        simp only [Bool.and_self]
        exact .refl _
      exact this.append_right fun e he => by simpa using (List.mem_filter.1 he).2
    refine ⟨refreshed f old events, ?_, hcov.refresh f, fun hfresh => ?_⟩
    · have := rebuilt_summary offset rfl hrows (hf ▸ hagree)
      rw [← hf, hread, hf] at this
      rw [hf]
      exact this
    · obtain ⟨hfrom, hdirty⟩ := hcap hfresh
      cases state with
      | none => rw [hw] at hfrom; cases hfrom
      | some row =>
        obtain ⟨dirty, cdirty, from?, rebuilt, updated⟩ := row
        obtain rfl : dirty = true := hdirty
        obtain rfl : from? = some w := hfrom.trans hw
        exact refreshed_perm (AgreeBelow.mono hcov (hf ▸ sessionRebuildWindow_from_le w _ _))

end StarStats.Concurrent
