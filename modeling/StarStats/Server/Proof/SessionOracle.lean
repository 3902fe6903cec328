import StarStats.Server.Proof.SessionPages

/-!
# The session list and its oracle

`sessionsViaSql` groups, ranks and aggregates; `deriveSessions` walks. On rows in time order both
give, launch by launch, the same session: `SessionWalk.walk` follows the walk with and without an
open session.
-/

namespace StarStats.EventTimeline

open Islands

/-! ## What the query lists -/

/-- The sessions of the query, oldest first. -/
def queriedSessions (rows : List EventRow) : List SessionSummary :=
  (withLead ((islands isInit rows).map fun part => sessionAgg (upTo isEnd part))).map sessionSummary

theorem sessionsViaSql_eq (handle : String) (events : List EventRow) :
    sessionsViaSql handle none events =
      (queriedSessions (timelineRows handle events)).reverse.take sessionsListLimit := by
  rw [sessionsViaSql_counted, countedRows_eq, List.map_map]
  rfl

/-- Rows that have a time, in time order. -/
structure InTime (rows : List EventRow) : Prop where
  timed : ∀ r ∈ rows, r.eventTimestamp.isSome = true
  sorted : rows.Pairwise (rowTime · ≤ rowTime ·)

section
variable {r : EventRow} {rows : List EventRow}

theorem InTime.tail (h : InTime (r :: rows)) : InTime rows where
  timed x hx := h.timed x (List.mem_cons_of_mem _ hx)
  sorted := (List.pairwise_cons.1 h.sorted).2

theorem InTime.eventTimestamp_eq (h : InTime (r :: rows)) :
    r.eventTimestamp = some (rowTime r) := by
  obtain ⟨t, ht⟩ := Option.isSome_iff_exists.1 (h.timed r List.mem_cons_self)
  rw [rowTime, ht]
  rfl

/-- Where the open session ends: at its `session_end`, or at the next launch. -/
def restEnd (rows : List EventRow) : Option Timestamp :=
  (((rows.takeWhile (!isInit ·)).find? isEnd).bind (·.eventTimestamp)).or
    ((rows.find? isInit).bind (·.eventTimestamp))

/-- How many rows the open session still gets. -/
def restCount (rows : List EventRow) : Nat := (upTo isEnd (rows.takeWhile (!isInit ·))).length

theorem mem_of_mem_upTo_takeWhile {x : EventRow}
    (hx : x ∈ upTo isEnd (rows.takeWhile (!isInit ·))) : x ∈ rows ∧ isInit x = false := by
  have hx := upTo_sublist.subset hx
  exact ⟨(List.takeWhile_sublist _).subset hx, by simpa using List.mem_takeWhile_imp hx⟩

theorem sessionAgg_startedAt (h : InTime (r :: rows)) :
    (sessionAgg (r :: upTo isEnd (rows.takeWhile (!isInit ·)))).startedAt = r.eventTimestamp := by
  rw [sessionAgg, List.map_cons, h.eventTimestamp_eq]
  refine Sql.minOf_cons_of_le fun t ht => ?_
  obtain ⟨x, hx, hxt⟩ := List.mem_map.1 ht
  have hle := (List.pairwise_cons.1 h.sorted).1 x (mem_of_mem_upTo_takeWhile hx).1
  rwa [rowTime, rowTime, hxt] at hle

theorem sessionAgg_sessionEndTs (hr : isInit r = true) :
    (sessionAgg (r :: upTo isEnd rows)).sessionEndTs =
      (rows.find? isEnd).bind (·.eventTimestamp) := by
  have hfilter : (r :: upTo isEnd rows).filter (·.eventType = "session_end") =
      (rows.find? isEnd).toList := by
    rw [← filter_upTo]
    exact List.filter_cons_of_neg (by simpa [isEnd] using isEnd_of_isInit hr)
  rw [sessionAgg]
  simp only [hfilter]
  cases rows.find? isEnd <;> simp

/-- The first session of the query starts at the first launch. -/
theorem startedAt_head (h : InTime rows) :
    ((islands isInit rows).map fun part => sessionAgg (upTo isEnd part)).head?.bind (·.startedAt) =
      (rows.find? isInit).bind (·.eventTimestamp) := by
  induction rows with
  | nil => rfl
  | cons r rs ih =>
    cases hr : isInit r with
    | true =>
      rw [islands, if_pos hr, List.find?_cons_of_pos hr, List.map_cons, List.head?_cons,
        Option.bind_some, Option.bind_some, upTo, isEnd_of_isInit hr, if_neg Bool.false_ne_true]
      exact sessionAgg_startedAt h
    | false =>
      rw [islands, hr, if_neg Bool.false_ne_true, List.find?_cons_of_neg (by simp [hr])]
      exact ih h.tail

theorem queriedSessions_init (h : InTime (r :: rows)) (hr : isInit r = true) :
    queriedSessions (r :: rows) =
      ⟨initSessionId r, r.eventTimestamp, restEnd rows, UInt32.ofNat (1 + restCount rows)⟩ ::
        queriedSessions rows := by
  have hpart : upTo isEnd (r :: rows.takeWhile (!isInit ·)) =
      r :: upTo isEnd (rows.takeWhile (!isInit ·)) := by
    rw [upTo, isEnd_of_isInit hr, if_neg Bool.false_ne_true]
  have hinit : ∀ x ∈ upTo isEnd (rows.takeWhile (!isInit ·)), isInit x = false :=
    fun x hx => (mem_of_mem_upTo_takeWhile hx).2
  have hid := sessionAgg_id hr hinit
  rw [queriedSessions, islands, if_pos hr, List.map_cons, withLead, List.map_cons, hpart]
  congr 1
  rw [sessionSummary]
  simp only [hid, sessionAgg_startedAt h, sessionAgg_sessionEndTs hr, startedAt_head h.tail]
  rw [sessionAgg, List.length_cons, Nat.add_comm]
  rfl

theorem queriedSessions_other (hr : isInit r = false) :
    queriedSessions (r :: rows) = queriedSessions rows := by
  rw [queriedSessions, islands, hr, if_neg Bool.false_ne_true]
  rfl

end

/-! ## What the walk finds -/

section
variable {r : EventRow} {rows : List EventRow} {w : SessionWalk}

theorem saturatingSucc_ofNat {c : Nat} (h : c + 1 < UInt32.size) :
    saturatingSucc (UInt32.ofNat c) = UInt32.ofNat (c + 1) := by
  have hto : (UInt32.ofNat c).toNat = c := UInt32.toNat_ofNat_of_lt' (by omega)
  rw [saturatingSucc, hto, if_pos h, UInt32.ofNat_add]
  rfl

theorem SessionWalk.row_of_not_gameplay (h : isGameplay r = false) : w.row r = w := by
  simp [SessionWalk.row, h]

theorem SessionWalk.foldl_gameplay (rows : List EventRow) (w : SessionWalk) :
    (rows.filter isGameplay).foldl SessionWalk.row w = rows.foldl SessionWalk.row w := by
  rw [List.foldl_filter]
  congr 1
  funext w r
  cases h : isGameplay r with
  | true => rfl
  | false => exact (SessionWalk.row_of_not_gameplay h).symm

theorem SessionWalk.row_init (hgame : isGameplay r = true) (hr : isInit r = true) :
    w.row r = { w.push r.eventTimestamp with
      currentId := some (initSessionId r)
      currentStarted := r.eventTimestamp
      currentCount := 1 } := by
  have hid : (sessionIdFromRow r).getD "unknown" = initSessionId r := by
    rw [sessionIdFromRow, if_neg (not_not.2 (isInit_iff.1 hr))]
    rfl
  rw [SessionWalk.row, hgame, if_neg (by decide), if_pos (isInit_iff.1 hr), hid]

theorem SessionWalk.row_end (hgame : isGameplay r = true) (hr : isEnd r = true) :
    w.row r = { { w with currentCount := saturatingSucc w.currentCount }.push r.eventTimestamp with
      currentCount := 0 } := by
  have hinit : r.eventType ≠ "process_init" := by
    rw [isEnd_iff.1 hr]
    decide
  rw [SessionWalk.row, hgame, if_neg (by decide), if_neg hinit, if_pos (isEnd_iff.1 hr)]

theorem SessionWalk.row_other (hgame : isGameplay r = true) (hinit : isInit r = false)
    (hend : isEnd r = false) :
    w.row r = if w.currentId.isSome then
      { w with currentCount := saturatingSucc w.currentCount } else w := by
  rw [SessionWalk.row, hgame, if_neg (by decide), if_neg (by simpa [isInit] using hinit),
    if_neg (by simpa [isEnd] using hend)]

/-- With an open session the walk completes it and then finds the sessions of the query; without
one it finds just these. -/
theorem SessionWalk.walk (h : InTime rows) (hgame : ∀ r ∈ rows, isGameplay r = true)
    (hlen : rows.length < UInt32.size) :
    (∀ w : SessionWalk, w.currentId = none →
      ((rows.foldl SessionWalk.row w).push none).sessions = w.sessions ++ queriedSessions rows) ∧
    ∀ (w : SessionWalk) (id : String) (c : Nat), w.currentId = some id →
      w.currentCount = UInt32.ofNat c → c + rows.length < UInt32.size →
      ((rows.foldl SessionWalk.row w).push none).sessions =
        w.sessions ++ ⟨id, w.currentStarted, restEnd rows, UInt32.ofNat (c + restCount rows)⟩ ::
          queriedSessions rows := by
  induction rows with
  | nil =>
    refine ⟨fun w hid => ?_, fun w id c hid hc _ => ?_⟩
    · simp [SessionWalk.push, hid, queriedSessions, islands, withLead]
    · simp [SessionWalk.push, hid, hc, queriedSessions, islands, withLead, restEnd, restCount,
        upTo]
  | cons r rs ih =>
    rw [List.length_cons] at hlen
    obtain ⟨ihClosed, ihOpen⟩ :=
      ih h.tail (fun x hx => hgame x (List.mem_cons_of_mem _ hx)) (by omega)
    have hgame := hgame r List.mem_cons_self
    cases hinit : isInit r with
    | true =>
      have hopened : ∀ w : SessionWalk, (((r :: rs).foldl SessionWalk.row w).push none).sessions =
          (w.push r.eventTimestamp).sessions ++ queriedSessions (r :: rs) := by
        intro w
        rw [List.foldl_cons, row_init hgame hinit, queriedSessions_init h hinit]
        exact ihOpen _ _ 1 rfl rfl (by omega)
      refine ⟨fun w hid => ?_, fun w id c hid hc _ => ?_⟩
      · rw [hopened, SessionWalk.push, hid]
      · rw [hopened, SessionWalk.push, hid, hc]
        simp [restEnd, restCount, hinit, upTo]
    | false =>
      rw [queriedSessions_other hinit]
      cases hend : isEnd r with
      | true =>
        refine ⟨fun w hid => ?_, fun w id c hid hc hlen => ?_⟩
        · rw [List.foldl_cons, row_end hgame hend, ihClosed]
          · simp [SessionWalk.push, hid]
          · simp [SessionWalk.push, hid]
        · rw [List.foldl_cons, row_end hgame hend, ihClosed]
          · rw [List.length_cons] at hlen
            simp [SessionWalk.push, hid, hc, restEnd, restCount, hinit, hend, upTo,
              h.eventTimestamp_eq, saturatingSucc_ofNat (show c + 1 < UInt32.size by omega)]
          · simp [SessionWalk.push, hid]
      | false =>
        refine ⟨fun w hid => ?_, fun w id c hid hc hlen => ?_⟩
        · rw [List.foldl_cons, row_other hgame hinit hend, hid, Option.isSome_none,
            if_neg Bool.false_ne_true, ihClosed w hid]
        · rw [List.length_cons] at hlen
          have hnext := ihOpen { w with currentCount := saturatingSucc w.currentCount } id (c + 1)
            hid (by rw [hc, saturatingSucc_ofNat (by omega)]) (by omega)
          rw [List.foldl_cons, row_other hgame hinit hend, if_pos (by rw [hid]; rfl), hnext]
          simp [restEnd, restCount, hinit, hend, upTo, Nat.add_assoc, Nat.add_comm 1]

end

/-! ## Both -/

/-- **The session list is its oracle's**, on any events with distinct keys. -/
theorem sessionsViaSql_eq_deriveSessions (handle : String) {events : List EventRow}
    (hkeys : (events.map (·.idempotencyKey)).Nodup) (hlen : events.length < 2 ^ 32) :
    sessionsViaSql handle none events = deriveSessions (fullRows handle events) := by
  have hmem : ∀ r ∈ timelineRows handle events,
      r ∈ fullRows handle events ∧ isGameplay r = true := fun r hr => (mem_timelineRows hkeys).1 hr
  have htime : InTime (timelineRows handle events) :=
    ⟨fun r hr => (mem_fullRows.1 (hmem r hr).1).2.2,
      (timelineRows_sorted hkeys handle).imp fun hlt => rowTime_le_of_stamp_le (le_of_lt hlt)⟩
  have hshort : (timelineRows handle events).length < UInt32.size := by
    rw [timelineRows, orderByTimeKey, List.length_insertionSort]
    exact ((List.length_filter_le _ _).trans (List.length_filter_le _ _)).trans_lt hlen
  have hwalk := (SessionWalk.walk htime (fun r hr => (hmem r hr).2) hshort).1 {} rfl
  rw [sessionsViaSql_eq, deriveSessions, ← SessionWalk.foldl_gameplay, ← timelineRows_eq hkeys,
    hwalk]
  rfl

/-- A launch that the next one ends. -/
theorem sessionsViaSql_twoLaunches :
    sessionsViaSql "ada" none twoLaunches = deriveSessions (fullRows "ada" twoLaunches) :=
  sessionsViaSql_eq_deriveSessions "ada" (by decide +kernel) (by decide)

end StarStats.EventTimeline
