import StarStats.Server.Repo

/-!
# What one ingest statement does

* `insertBatch_snd`: the state after `insert_batch`, the empty batch included.
* `exists_conflicts_of_mem`: afterwards every event of the batch is stored, by its own key or as
  a row with the same content.
* `countGroup_append`: counts that were exact stay exact.
-/

namespace StarStats

/-! ## The inserted rows -/

theorem rollCounts_nil (counts : String → String → Option CountRow) :
    rollCounts [] counts = counts := rfl

theorem markDirty_of_nil {ins : List EventRow} {handle : String}
    (h : ins.filter (·.claimedHandle = handle) = []) (now : Timestamp)
    (rollup : String → Option RollupRow) : markDirty now ins rollup handle = rollup handle := by
  rw [markDirty, h]

theorem markDirty_of_cons {ins : List EventRow} {handle : String} {r : EventRow}
    {rs : List EventRow} (h : ins.filter (·.claimedHandle = handle) = r :: rs) (now : Timestamp)
    (rollup : String → Option RollupRow) :
    markDirty now ins rollup handle =
      some (dirtyRow now (Sql.minOf ((r :: rs).map (·.eventTimestamp))) (rollup handle)) := by
  rw [markDirty, h]

theorem Db.commitInserted_nil (db : Db) (now : Timestamp) : db.commitInserted now [] = db := by
  simp only [commitInserted, List.append_nil, rollCounts_nil]
  rfl

/-- The state after `insert_batch`. -/
theorem insertBatch_snd (now : Timestamp) (events : List StoredEvent) (db : Db) :
    (insertBatch now events db).2 = db.commitInserted now (db.inserted now events) := by
  cases events with
  | nil => exact (db.commitInserted_nil now).symm
  | cons e es => rfl

theorem StoredEvent.conflicts_self (e : StoredEvent) : e.conflicts e = true := by
  simp [conflicts, sameKey]

/-- After the statement every event of the batch conflicts with a stored row. -/
theorem exists_conflicts_of_mem (now : Timestamp) (stored : List EventRow) {es : List StoredEvent}
    {e : StoredEvent} (he : e ∈ es) :
    ∃ r ∈ stored ++ insertNew now stored es, r.conflicts e = true := by
  induction es generalizing stored with
  | nil => cases he
  | cons e' es ih =>
    rw [insertNew]
    by_cases h : stored.any (·.conflicts e') = true
    · rw [if_pos h]
      rcases List.mem_cons.1 he with rfl | he
      · obtain ⟨r, hr, hc⟩ := List.any_eq_true.1 h
        exact ⟨r, List.mem_append_left _ hr, hc⟩
      · exact ih stored he
    · rw [if_neg h]
      rcases List.mem_cons.1 he with rfl | he
      · exact ⟨_, List.mem_append_right _ (.head _), StoredEvent.conflicts_self _⟩
      · obtain ⟨r, hr, hc⟩ := ih (stored ++ [⟨e', now, none⟩]) he
        exact ⟨r, by simpa using hr, hc⟩

/-- Inserted rows come from the batch. -/
theorem mem_insertNew {now : Timestamp} : ∀ {stored : List EventRow} {es : List StoredEvent}
    {r : EventRow}, r ∈ insertNew now stored es → r.toStoredEvent ∈ es
  | _, [], _, hr => by cases hr
  | stored, e :: es, r, hr => by
    rw [insertNew] at hr
    by_cases h : stored.any (·.conflicts e) = true
    · rw [if_pos h] at hr
      exact .tail _ (mem_insertNew hr)
    · rw [if_neg h] at hr
      rcases List.mem_cons.1 hr with rfl | hr
      · exact .head _
      · exact .tail _ (mem_insertNew hr)

/-! ## Counts -/

theorem countGroup_eq_none {handle ty : String} {rows : List EventRow} :
    countGroup handle ty rows = none ↔ rowsOfType handle ty rows = [] := by
  rw [countGroup]
  cases rowsOfType handle ty rows <;> simp

theorem countGroup_of_ne {handle ty : String} {rows : List EventRow}
    (h : rowsOfType handle ty rows ≠ []) :
    countGroup handle ty rows = some
      { eventCount := (rowsOfType handle ty rows).length
        firstSeenAt := Sql.minOf ((rowsOfType handle ty rows).map (·.eventTimestamp))
        lastSeenAt := Sql.maxOf ((rowsOfType handle ty rows).map (·.eventTimestamp)) } := by
  rw [countGroup]
  cases hr : rowsOfType handle ty rows with
  | nil => exact absurd hr h
  | cons r rs => rfl

theorem rowsOfType_append (handle ty : String) (l l' : List EventRow) :
    rowsOfType handle ty (l ++ l') = rowsOfType handle ty l ++ rowsOfType handle ty l' :=
  List.filter_append ..

/-- Adding the inserted rows to exact counts gives exact counts. -/
theorem countGroup_append (handle ty : String) (l ins : List EventRow) :
    countGroup handle ty (l ++ ins) =
      rollCounts ins (fun h t => countGroup h t l) handle ty := by
  rw [rollCounts]
  by_cases hins : rowsOfType handle ty ins = []
  · rw [countGroup_eq_none.2 hins, countGroup, countGroup, rowsOfType_append, hins,
      List.append_nil]
  · by_cases hl : rowsOfType handle ty l = []
    · rw [countGroup_eq_none.2 hl, countGroup_of_ne hins, countGroup, rowsOfType_append, hl,
        List.nil_append]
      cases h : rowsOfType handle ty ins with
      | nil => exact absurd h hins
      | cons r rs => rfl
    · rw [countGroup_of_ne hins, countGroup_of_ne hl, countGroup_of_ne (by
        rw [rowsOfType_append]
        simp [hl])]
      simp only [CountRow.add, rowsOfType_append, List.length_append, List.map_append,
        Sql.minOf_append, Sql.maxOf_append]

/-! ## For concrete runs -/

/-- A plain event of `pilot`. -/
def flight (key : String) (ts : Timestamp) : StoredEvent where
  idempotencyKey := key
  claimedHandle := "pilot"
  eventType := "join_pu"
  eventTimestamp := some ts
  logSource := .live
  sourceOffset := 0
  rawLine := key
  payload := none
  metadata := none
  resolvedLocation := none

end StarStats
