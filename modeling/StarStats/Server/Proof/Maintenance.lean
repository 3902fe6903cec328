import StarStats.Server.Maintenance
import StarStats.Server.Proof.Repo
import StarStats.Server.Proof.Retention
import StarStats.Server.Proof.Sessions

/-!
# The incremental session rollup

`Inv handle db` says what the rows of `session_summary` are worth in each state of the handle's
dirty mark: exact when clean, and when a watermark is pending, derived from events that agree
with the stored ones below the window the watermark opens.

* `clean_is_current`: in every history whose purges stay inside the pending window, a handle that
  is not dirty has exactly the sessions of its stored events.
* `purge_below_window_goes_stale`: a purge below the window breaks it.
-/

namespace StarStats.Maintenance

open Timeline (AgreeBelow)

/-- The rows were derived from events that agree with the stored ones below the pending window. -/
def Pending (w : Timestamp) (rows : List SessionRow) (events : List SessionEvent) : Prop :=
  ∃ old, (rows.map (·.summary)).Perm (sessionise old) ∧
    AgreeBelow SessionEvent.time
      (sessionRebuildWindow w sessionIdleGap (sessionBounds rows)).fromTs old events

/-- The state of a handle's rollup row and what its session rows are worth. -/
def RowInv (rows : List SessionRow) (events : List SessionEvent) : Option RollupRow → Prop
  | none => events = [] ∧ rows = []
  | some row =>
    match row.sessionsDirty, row.sessionsDirtyFromTs with
    | false, none => (rows.map (·.summary)).Perm (sessionise events)
    | false, some _ => False
    | true, none => True
    | true, some w => Pending w rows events

def Inv (handle : String) (db : Db) : Prop :=
  RowInv (db.sessions handle) (sessionEvents handle db.events) (db.rollup handle)

theorem inv_empty (handle : String) : Inv handle Db.empty := ⟨rfl, rfl⟩

/-! ## Ingest -/

/-- New events at or after the new watermark leave it pending. -/
theorem Pending.append {w w' : Timestamp} {rows : List SessionRow} {events ins : List SessionEvent}
    (h : Pending w rows events) (hw : w' ≤ w) (hins : ∀ e ∈ ins, w' ≤ e.time) :
    Pending w' rows (events ++ ins) := by
  obtain ⟨old, hrows, hagree⟩ := h
  refine ⟨old, hrows, (hagree.mono (sessionRebuildWindow_from_mono hw _ _)).append_right ?_⟩
  exact fun e he => (sessionRebuildWindow_from_le w' _ _).trans (hins e he)

/-- Exact rows are pending from any watermark. -/
theorem Pending.of_current {rows : List SessionRow} {events : List SessionEvent}
    (h : (rows.map (·.summary)).Perm (sessionise events)) (w : Timestamp) :
    Pending w rows events := ⟨events, h, .refl _ _ _⟩

theorem RowInv.ingest {rows : List SessionRow} {events : List SessionEvent}
    {state : Option RollupRow} (h : RowInv rows events state) (now : Timestamp) {handle : String}
    {ins : List EventRow} {m : Option Timestamp}
    (hm : Sql.minOf ((ins.filter (·.claimedHandle = handle)).map (·.eventTimestamp)) = m) :
    RowInv rows (events ++ sessionEvents handle ins) (some (dirtyRow now m state)) := by
  cases state with
  | none =>
    obtain ⟨rfl, rfl⟩ := h
    cases m with
    | none => trivial
    | some w => exact (Pending.of_current (.refl _) w).append le_rfl fun e he => le_time_of_minOf hm he
  | some row =>
    obtain ⟨dirty, cdirty, from?, rebuilt, updated⟩ := row
    match dirty, from? with
    | true, none => trivial
    | false, some _ => exact h.elim
    | false, none =>
      cases m with
      | none => trivial
      | some w => exact (Pending.of_current h w).append le_rfl fun e he => le_time_of_minOf hm he
    | true, some w =>
      cases m with
      | none =>
        rw [sessionEvents_of_minOf_none hm, List.append_nil]
        exact h
      | some m =>
        exact Pending.append h (min_le_left w m) fun e he =>
          (min_le_right w m).trans (le_time_of_minOf hm he)

theorem inv_ingest {handle : String} {db : Db} (h : Inv handle db) (now : Timestamp)
    (ins : List EventRow) : Inv handle (db.commitInserted now ins) := by
  simp only [Inv, Db.commitInserted, sessionEvents_append]
  cases hins : ins.filter (·.claimedHandle = handle) with
  | nil =>
    rw [markDirty_of_nil hins, sessionEvents, sessionEvents, hins, List.filterMap_nil,
      List.append_nil]
    exact h
  | cons r rs =>
    rw [markDirty_of_cons hins]
    exact RowInv.ingest h now (by rw [hins])

/-! ## Purges -/

/-- Deleting events from `f` on keeps the agreement below `f`. -/
theorem agreeBelow_purged {handle : String} {f : Timestamp} {old : List SessionEvent}
    {l : List EventRow} {keep : EventRow → Bool}
    (h : AgreeBelow SessionEvent.time f old (sessionEvents handle l))
    (hdel : ∀ e ∈ sessionEvents handle (l.filter fun r => !keep r), f ≤ e.time) :
    AgreeBelow SessionEvent.time f old (sessionEvents handle (l.filter keep)) := by
  have hperm : (sessionEvents handle (l.filter keep) ++
      sessionEvents handle (l.filter fun r => !keep r)).Perm (sessionEvents handle l) := by
    rw [← sessionEvents_append]
    exact ((List.filter_append_perm keep l).filter _).filterMap _
  have hnone : ((sessionEvents handle (l.filter fun r => !keep r)).filter
      fun e => decide (e.time < f)) = [] := by
    rw [List.filter_eq_nil_iff]
    intro e he
    simpa using hdel e he
  refine h.trans ?_
  have := (hperm.filter fun e => decide (e.time < f)).symm
  rwa [List.filter_append, hnone, List.append_nil] at this

/-- What a purge of the handle deletes was received before the cutoff. -/
theorem mem_sessionEvents_deleted {handle : String} {cutoff : Timestamp} {l : List EventRow}
    {keep : EventRow → Bool} (hdel : ∀ r, keep r = false → r.receivedAt < cutoff)
    {e : SessionEvent} (he : e ∈ sessionEvents handle (l.filter fun r => !keep r)) :
    e ∈ sessionEvents handle (l.filter (·.receivedAt < cutoff)) := by
  have hsub : (l.filter fun r => !keep r).Sublist (l.filter (·.receivedAt < cutoff)) := by
    refine List.monotone_filter_right _ fun r hr => ?_
    simpa using hdel r (by simpa using hr)
  exact ((hsub.filter _).filterMap _).subset he

theorem inv_purge {handle : String} {db : Db} (h : Inv handle db) {now : Timestamp}
    {cutoff : Timestamp} (hok : PurgeInWindow handle db (.purge now handle cutoff)) :
    Inv handle (purgeUserEvents now handle cutoff db).2 := by
  obtain ⟨keep, hkeep, hdel⟩ := purgeLoop_events handle cutoff perUserBatchCap db.events
  simp only [purgeUserEvents]
  split
  · simp only [Inv, hkeep, if_true]
    cases hrow : db.rollup handle with
    | none => trivial
    | some row =>
      obtain ⟨dirty, cdirty, from?, rebuilt, updated⟩ := row
      simp only [Inv, hrow] at h
      match dirty, from? with
      | true, none => trivial
      | false, none => trivial
      | false, some _ => exact h.elim
      | true, some w =>
        obtain ⟨old, hrows, hagree⟩ := h
        refine ⟨old, hrows, agreeBelow_purged hagree fun e he => ?_⟩
        exact hok rfl _ (by simp only [pendingFrom, hrow]; rfl) e
          (mem_sessionEvents_deleted (fun r hr => (hdel r hr).2) he)
  · rename_i hz
    rw [purgeLoop_zero (by omega)]
    exact h

/-- A purge of another handle touches nothing of this one. -/
theorem inv_purge_other {handle h' : String} (hne : h' ≠ handle) {db : Db} (h : Inv handle db)
    (now cutoff : Timestamp) : Inv handle (purgeUserEvents now h' cutoff db).2 := by
  obtain ⟨keep, hkeep, hdel⟩ := purgeLoop_events h' cutoff perUserBatchCap db.events
  have hevents : sessionEvents handle (db.events.filter keep) = sessionEvents handle db.events := by
    rw [sessionEvents, List.filter_comm]
    congr 1
    refine List.filter_eq_self.2 fun r hr => ?_
    by_contra hk
    have := (hdel r (by simpa using hk)).1
    exact hne (this.symm.trans (by simpa using (List.mem_filter.1 hr).2))
  simp only [purgeUserEvents]
  split
  · simpa only [Inv, hkeep, hevents, if_neg hne.symm] using h
  · simpa only [Inv, hkeep, hevents] using h

/-! ## Rebuilds -/

/-- **A rebuild makes the rows exact.** -/
theorem RowInv.rebuilt {rows : List SessionRow} {events : List SessionEvent}
    {state : Option RollupRow} (h : RowInv rows events state)
    (hdirty : stillDirty (·.sessionsDirty) state = true) (offset : Nat) :
    let window := rebuildWindow (state.bind (·.sessionsDirtyFromTs)) rows
    ((keptSessions window rows ++
      sessionRows offset (eventsFrom (window.map (·.fromTs)) events)).map (·.summary)).Perm
        (sessionise events) := by
  cases state with
  | none => exact rebuilt_summary_full rows events offset
  | some row =>
    obtain ⟨dirty, cdirty, from?, rebuilt, updated⟩ := row
    obtain rfl : dirty = true := hdirty
    match from? with
    | none => exact rebuilt_summary_full rows events offset
    | some w =>
      obtain ⟨old, hrows, hagree⟩ := h
      exact rebuilt_summary offset rfl hrows hagree

theorem inv_rebuild {handle : String} {db : Db} (h : Inv handle db) (now : Timestamp)
    (h' : String) : Inv handle (rebuildHandleSessionStats now h' db) := by
  rw [rebuildHandleSessionStats]
  split
  · rename_i hdirty
    by_cases hne : handle = Text.lower h'
    · subst hne
      have hcur := RowInv.rebuilt h hdirty
      simp only [Inv, setAt_self]
      cases hrow : db.rollup (Text.lower h') with
      | none => exact (hrow ▸ hcur) _
      | some row =>
        rw [hrow] at hcur
        simp only [clearSessionsDirty, Option.map_some, if_true]
        exact hcur _
    · simpa only [Inv, setAt_of_ne _ _ hne] using h
  · exact h

/-! ## Histories -/

theorem inv_step {handle : String} {db db' : Db} {a : MaintenanceAction} (h : Inv handle db)
    (hok : PurgeInWindow handle db a) (hstep : maintenanceStep db a = some db') :
    Inv handle db' := by
  cases a with
  | ingest now events =>
    obtain rfl := Option.some.inj hstep
    rw [insertBatch_snd]
    exact inv_ingest h now _
  | purge now h' cutoff =>
    obtain rfl := Option.some.inj hstep
    by_cases hne : h' = handle
    · subst hne
      exact inv_purge h hok
    · exact inv_purge_other hne h now cutoff
  | rebuild now h' =>
    obtain rfl := Option.some.inj hstep
    exact inv_rebuild h now h'

theorem Inv.cleanIsCurrent {handle : String} {db : Db} (h : Inv handle db) :
    CleanIsCurrent handle db := by
  intro row hrow hclean
  obtain ⟨dirty, cdirty, from?, rebuilt, updated⟩ := row
  obtain rfl : dirty = false := hclean
  simp only [Inv, hrow] at h
  match from? with
  | none => exact h
  | some _ => exact h.elim

/-- **Incremental equals full.** In every history whose purges stay inside the pending window, a
handle that is not dirty has exactly the sessions of its stored events. -/
theorem clean_is_current (handle : String) {db : Db}
    (h : Trans.Reach maintenanceStep (PurgeInWindow handle) Db.empty db) :
    CleanIsCurrent handle db :=
  (h.inv (inv_empty handle) fun _ _ _ hinv hok hstep => inv_step hinv hok hstep).cleanIsCurrent

/-- Two flights a day apart; after the first rebuild the older one is purged, and a second rebuild
follows. -/
def purgeThenRebuild : Db :=
  rebuildHandleSessionStats 50 "pilot"
    (purgeUserEvents 40 "pilot" 15
      (rebuildHandleSessionStats 30 "pilot"
        (insertBatch 20 [flight "b" 86400000000]
          (insertBatch 10 [flight "a" 0] Db.empty).2).2)).2

theorem clean_is_current_purgeThenRebuild :
    (purgeThenRebuild.sessions "pilot").map (·.summary) =
        [⟨some 86400000000, some 86400000000, 1, 0⟩] ∧
      CleanIsCurrent "pilot" purgeThenRebuild := by
  refine ⟨by decide +kernel, clean_is_current "pilot" ?_⟩
  refine .head ⟨.ingest 10 [flight "a" 0], trivial, rfl⟩ ?_
  refine .head ⟨.ingest 20 [flight "b" 86400000000], trivial, rfl⟩ ?_
  refine .head ⟨.rebuild 30 "pilot", trivial, rfl⟩ ?_
  -- the handle is clean when the purge runs, so no window is pending
  refine .head ⟨.purge 40 "pilot" 15, fun _ f hf => ?_, rfl⟩ ?_
  · rw [show pendingFrom "pilot" _ = none by decide +kernel] at hf
    cases hf
  · exact .head ⟨.rebuild 50 "pilot", trivial, rfl⟩ .refl

/-- The same flights, but the second arrives after the first rebuild and waits for the next one
when the purge runs: the watermark it left is narrow. -/
def purgeWhilePending : Db :=
  rebuildHandleSessionStats 50 "pilot"
    (purgeUserEvents 40 "pilot" 15
      (insertBatch 30 [flight "b" 86400000000]
        (rebuildHandleSessionStats 20 "pilot"
          (insertBatch 10 [flight "a" 0] Db.empty).2)).2).2

/-- **A purge below the pending window goes stale.** The rebuild keeps the session of the purged
flight and marks the handle clean. -/
theorem purge_below_window_goes_stale :
    ¬ ∀ handle db, Trans.Reach maintenanceStep Trans.always Db.empty db →
      CleanIsCurrent handle db := by
  intro h
  have hreach : Trans.Reach maintenanceStep Trans.always Db.empty purgeWhilePending := by
    refine .head ⟨.ingest 10 [flight "a" 0], trivial, rfl⟩ ?_
    refine .head ⟨.rebuild 20 "pilot", trivial, rfl⟩ ?_
    refine .head ⟨.ingest 30 [flight "b" 86400000000], trivial, rfl⟩ ?_
    refine .head ⟨.purge 40 "pilot" 15, trivial, rfl⟩ ?_
    exact .head ⟨.rebuild 50 "pilot", trivial, rfl⟩ .refl
  have hrow : purgeWhilePending.rollup "pilot" = some ⟨false, true, none, some 50, 50⟩ := by
    decide +kernel
  have hcur := h "pilot" _ hreach _ hrow rfl
  have hsessions : ((purgeWhilePending.sessions "pilot").map (·.summary)).length = 2 := by
    decide +kernel
  have hevents : (sessionise (sessionEvents "pilot" purgeWhilePending.events)).length = 1 := by
    decide +kernel
  have hlen := hcur.length_eq
  rw [hsessions, hevents] at hlen
  cases hlen

end StarStats.Maintenance
