import StarStats.Server.Retention

/-!
# What a purge deletes

`purgeLoop_events`: whatever the number of batches, a purge keeps every row of another handle and
every row received at or after the cutoff; `purgeLoop_zero`: one that counts no deletion deletes
nothing.
-/

namespace StarStats

variable {handle : String} {cutoff : Timestamp}

theorem mem_purgeSelection {events : List EventRow} {r : EventRow}
    (h : r ∈ purgeSelection handle cutoff events) :
    r ∈ events ∧ r.claimedHandle = handle ∧ r.receivedAt < cutoff := by
  have := (List.mem_insertionSort _).1 (List.mem_of_mem_take h)
  simpa using this

/-- One `DELETE` keeps the rows it does not pick. -/
theorem deleteBatch_events (handle : String) (cutoff : Timestamp) (events : List EventRow) :
    ∃ keep : EventRow → Bool, (deleteBatch handle cutoff events).2 = events.filter keep ∧
      ∀ r, keep r = false → r.claimedHandle = handle ∧ r.receivedAt < cutoff := by
  refine ⟨fun r => decide (r ∉ purgeSelection handle cutoff events), rfl, fun r hr => ?_⟩
  exact (mem_purgeSelection (by simpa using hr)).2

theorem deleteBatch_zero {events : List EventRow} (h : (deleteBatch handle cutoff events).1 = 0) :
    (deleteBatch handle cutoff events).2 = events := by
  have : purgeSelection handle cutoff events = [] := List.length_eq_zero_iff.1 h
  simp [deleteBatch, this]

/-- **The purge loop** keeps other handles' rows and those received from the cutoff on. -/
theorem purgeLoop_events (handle : String) (cutoff : Timestamp) :
    ∀ (n : Nat) (events : List EventRow),
    ∃ keep : EventRow → Bool, (purgeLoop handle cutoff n events).2 = events.filter keep ∧
      ∀ r, keep r = false → r.claimedHandle = handle ∧ r.receivedAt < cutoff
  | 0, events => ⟨fun _ => true, by simp [purgeLoop], by simp⟩
  | n + 1, events => by
    obtain ⟨keep, heq, hkeep⟩ := deleteBatch_events handle cutoff events
    by_cases hz : (deleteBatch handle cutoff events).1 = 0
    · exact ⟨keep, by rw [purgeLoop, if_pos hz, heq], hkeep⟩
    · obtain ⟨keep', heq', hkeep'⟩ :=
        purgeLoop_events handle cutoff n (deleteBatch handle cutoff events).2
      refine ⟨fun r => keep' r && keep r, ?_, fun r hr => ?_⟩
      · rw [purgeLoop, if_neg hz]
        exact heq'.trans (by rw [heq, List.filter_filter])
      · rcases Bool.and_eq_false_iff.1 hr with h | h
        · exact hkeep' r h
        · exact hkeep r h

/-- A purge that counts no deletion leaves the events alone. -/
theorem purgeLoop_zero : ∀ {n : Nat} {events : List EventRow},
    (purgeLoop handle cutoff n events).1.1 = 0 → (purgeLoop handle cutoff n events).2 = events
  | 0, _, _ => rfl
  | n + 1, events, h => by
    by_cases hz : (deleteBatch handle cutoff events).1 = 0
    · rw [purgeLoop, if_pos hz]
      exact deleteBatch_zero hz
    · rw [purgeLoop, if_neg hz] at h
      have : (deleteBatch handle cutoff events).1 = 0 := by
        simp only at h
        omega
      exact absurd this hz

end StarStats
