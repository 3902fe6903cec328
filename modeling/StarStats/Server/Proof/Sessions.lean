import StarStats.Server.SessionSpec

/-!
# The sessioniser computes sessions

* `sessionRows_summary`: the rows the rebuild's SQL inserts for a set of events are
  `sessionise` of it.
* `rebuilt_summary` (**the window is wide enough**): kept rows and re-derived rows together are
  the sessions of all events, when nothing below the window's start has changed since the rows
  were derived.
* `rebuilt_with_new`: so it is with the window of whatever events are new, and no two ordinals
  collide.
-/

namespace StarStats

open Timeline (split near)

/-! ## Starts and labels -/

/-- Where the SQL sees a session start. -/
def sessionStarts (gap : Timestamp) (prev : Option Timestamp) (l : List SessionEvent) :
    List SessionEvent :=
  ((gaps prev l).filter (startsSession gap)).map (·.1)

theorem gaps_append (prev : Option Timestamp) (l l' : List SessionEvent) :
    gaps prev (l ++ l') = gaps prev l ++ gaps ((l.getLast?.map (·.time)).or prev) l' := by
  induction l generalizing prev with
  | nil => rfl
  | cons e l ih =>
    cases l with
    | nil => rfl
    | cons e' l =>
      have := ih (some e.time)
      simp only [List.cons_append, gaps] at this ⊢
      rw [this, List.getLast?_cons_cons]
      cases h : (e' :: l).getLast? with
      | none => simp at h
      | some x => rfl

/-- Inside a run of neighbours no session starts. -/
theorem sessionStarts_chain {gap : Timestamp} : ∀ {e : SessionEvent} {l : List SessionEvent},
    (e :: l).IsChain (fun a b => near SessionEvent.time gap a b = true) →
    sessionStarts gap (some e.time) l = []
  | _, [], _ => rfl
  | e, e' :: l, h => by
    rw [List.isChain_cons_cons] at h
    have hnear : ¬ gap < e'.time - e.time := by
      simpa [near] using h.1
    have ih := sessionStarts_chain h.2
    simp only [sessionStarts, gaps, List.filter_cons, startsSession, decide_eq_false hnear,
      Bool.false_eq_true, if_false] at ih ⊢
    exact ih

/-- The starts of a list in groups are the heads of the groups. -/
theorem sessionStarts_flatten {gap : Timestamp} : ∀ {G : List (List SessionEvent)}
    (prev : Option Timestamp), [] ∉ G →
    (∀ g ∈ G, g.IsChain fun a b => near SessionEvent.time gap a b = true) →
    G.IsChain (fun a b => ∃ ha hb, near SessionEvent.time gap (a.getLast ha) (b.head hb) = false) →
    (∀ p e, prev = some p → e ∈ G.head?.bind List.head? → gap < e.time - p) →
    sessionStarts gap prev G.flatten = G.filterMap List.head?
  | [], _, _, _, _, _ => rfl
  | [] :: _, _, hn, _, _, _ => absurd List.mem_cons_self hn
  | (e :: l) :: G, prev, hn, hg, hc, hp => by
    have hstart : startsSession gap (e, prev) = true := by
      cases prev with
      | none => rfl
      | some p => simpa [startsSession] using hp p e rfl rfl
    have hl : sessionStarts gap (some e.time) l = [] := sessionStarts_chain (hg _ (.head _))
    have hrest : sessionStarts gap ((l.getLast?.map (·.time)).or (some e.time)) G.flatten =
        G.filterMap List.head? := by
      refine sessionStarts_flatten _ (fun h => hn (.tail _ h)) (fun g hg' => hg g (.tail _ hg'))
        hc.tail ?_
      rintro p e' hlast he'
      cases G with
      | nil => simp at he'
      | cons g' G =>
        obtain ⟨ha, hb, hfar⟩ := (List.isChain_cons_cons.1 hc).1
        have hhead : g'.head hb = e' := by
          rw [List.head?_cons, Option.bind_some] at he'
          exact Option.some.inj ((List.head?_eq_some_head hb).symm.trans he')
        have hp : p = ((e :: l).getLast ha).time := by
          cases l with
          | nil => simpa using hlast.symm
          | cons e₂ l =>
            rw [List.getLast?_eq_some_getLast (List.cons_ne_nil e₂ l)] at hlast
            simpa using hlast.symm
        rw [hp, ← hhead]
        exact Timeline.near_eq_false.1 hfar
    simp only [sessionStarts] at hl hrest ⊢
    rw [List.flatten_cons, List.cons_append, gaps, List.filter_cons, if_pos hstart, gaps_append,
      List.filter_append, List.map_cons, List.map_append, hl, hrest, List.nil_append]
    rfl

/-- A label counts the starts up to an event. -/
theorem sessionLabel_eq (gap : Timestamp) (l : List SessionEvent) (e : SessionEvent) :
    sessionLabel gap (gaps none l) e =
      ((sessionStarts gap none l).filter fun s => decide (s.time ≤ e.time)).length := by
  rw [sessionLabel, sessionStarts, List.filter_map, List.length_map, List.filter_filter]
  congr 1
  exact List.filter_congr fun g _ => Bool.and_comm _ _

/-! ## Groups are sessions -/

theorem time_le_time {a b : SessionEvent} (h : a ≤ b) : a.time ≤ b.time :=
  Prod.Lex.monotone_fst _ _ h

theorem sessionIdleGap_nonneg : 0 ≤ sessionIdleGap := by decide

section
variable {gap : Timestamp} {l : List SessionEvent}

theorem sessionStarts_sort (gap : Timestamp) (l : List SessionEvent) :
    sessionStarts gap none (Timeline.sort l) =
      (split SessionEvent.time gap l).filterMap List.head? := by
  rw [← Timeline.flatten_split SessionEvent.time gap l]
  refine sessionStarts_flatten none (List.nil_notMem_splitBy _ _)
    (fun g hg => List.isChain_of_mem_splitBy hg) (List.isChain_getLast_head_splitBy _ _) ?_
  rintro p e ⟨⟩

/-- The head of a session is its earliest event. -/
theorem head_time_le {g : List SessionEvent} (hg : g ∈ split SessionEvent.time gap l)
    {s x : SessionEvent} (hs : s ∈ g.head?) (hx : x ∈ g) : s.time ≤ x.time := by
  have hsorted := Timeline.pairwise_of_mem_split hg
  cases g with
  | nil => cases hx
  | cons a g =>
    obtain rfl : a = s := by simpa using hs
    rcases List.mem_cons.1 hx with rfl | hx
    · exact le_rfl
    · exact time_le_time ((List.pairwise_cons.1 hsorted).1 x hx)

/-- All events of a session have one label. -/
theorem label_eq_of_mem (hgap : 0 ≤ gap) {g : List SessionEvent}
    (hg : g ∈ split SessionEvent.time gap l) {x y : SessionEvent} (hx : x ∈ g) (hy : y ∈ g) :
    sessionLabel gap (gaps none (Timeline.sort l)) x =
      sessionLabel gap (gaps none (Timeline.sort l)) y := by
  rw [sessionLabel_eq, sessionLabel_eq, sessionStarts_sort]
  congr 1
  refine List.filter_congr fun s hs => ?_
  obtain ⟨g', hg', hs'⟩ := List.mem_filterMap.1 hs
  have hsg' : s ∈ g' := List.mem_of_mem_head? hs'
  congr 1
  by_cases hne : g = g'
  · subst hne
    exact propext (iff_of_true (head_time_le hg hs' hx) (head_time_le hg hs' hy))
  · rcases Timeline.far_or_far (fun _ _ => time_le_time) hg hg' hne with h | h
    · exact propext (iff_of_false (not_le.2 (Timeline.lt_of_far hgap (h x hx s hsg')))
        (not_le.2 (Timeline.lt_of_far hgap (h y hy s hsg'))))
    · exact propext (iff_of_true (Timeline.lt_of_far hgap (h s hsg' x hx)).le
        (Timeline.lt_of_far hgap (h s hsg' y hy)).le)

/-- A later session has a larger label. -/
theorem label_lt_of_far (hgap : 0 ≤ gap) {g g' : List SessionEvent}
    (hg' : g' ∈ split SessionEvent.time gap l)
    (hfar : ∀ x ∈ g, ∀ y ∈ g', gap < y.time - x.time) {x y : SessionEvent} (hx : x ∈ g)
    (hy : y ∈ g') :
    sessionLabel gap (gaps none (Timeline.sort l)) x <
      sessionLabel gap (gaps none (Timeline.sort l)) y := by
  rw [sessionLabel_eq, sessionLabel_eq, sessionStarts_sort]
  obtain ⟨s, hs⟩ : ∃ s, g'.head? = some s :=
    ⟨_, List.head?_eq_some_head (Timeline.ne_nil_of_mem_split hg')⟩
  have hsg' : s ∈ g' := List.mem_of_mem_head? hs
  have hxs := Timeline.lt_of_far hgap (hfar x hx s hsg')
  have hxy := Timeline.lt_of_far hgap (hfar x hx y hy)
  -- the starts up to `x` are among those up to `y`, and the later session's own start is new
  have hsub : ((split SessionEvent.time gap l).filterMap List.head?).filter
        (fun s => decide (s.time ≤ x.time)) |>.Sublist
      (((split SessionEvent.time gap l).filterMap List.head?).filter
        fun s => decide (s.time ≤ y.time)) := by
    refine List.monotone_filter_right _ fun s h => ?_
    simp only [decide_eq_true_eq] at h ⊢
    exact h.trans hxy.le
  refine lt_of_le_of_ne hsub.length_le fun heq => ?_
  have hmem : s ∈ ((split SessionEvent.time gap l).filterMap List.head?).filter
      fun s => decide (s.time ≤ x.time) := by
    rw [hsub.eq_of_length heq, List.mem_filter]
    exact ⟨List.mem_filterMap.2 ⟨g', hg', hs⟩, by simpa using head_time_le hg' hs hy⟩
  exact absurd (by simpa using (List.mem_filter.1 hmem).2) (not_le.2 hxs)

/-- The label of a session: that of its first event. -/
def groupLabel (gap : Timestamp) (l g : List SessionEvent) : Nat :=
  (g.head?.map (sessionLabel gap (gaps none (Timeline.sort l)))).getD 0

theorem label_eq_groupLabel (hgap : 0 ≤ gap) {g : List SessionEvent}
    (hg : g ∈ split SessionEvent.time gap l) {x : SessionEvent} (hx : x ∈ g) :
    sessionLabel gap (gaps none (Timeline.sort l)) x = groupLabel gap l g := by
  cases g with
  | nil => cases hx
  | cons a g => exact label_eq_of_mem hgap hg hx List.mem_cons_self

/-- Grouping sorted events by label gives the sessions. -/
theorem groupBy_label (hgap : 0 ≤ gap) (l : List SessionEvent) :
    Sql.groupBy (sessionLabel gap (gaps none (Timeline.sort l))) (Timeline.sort l) =
      (split SessionEvent.time gap l).map fun g => (groupLabel gap l g, g) := by
  have hflat := Timeline.flatten_split SessionEvent.time gap l
  conv_lhs => arg 2; rw [← hflat]
  refine Sql.groupBy_flatten _ (groupLabel gap l) (fun g hg => Timeline.ne_nil_of_mem_split hg)
    (fun g hg x hx => label_eq_groupLabel hgap hg hx) ?_
  refine (List.Pairwise.and_mem.1 (Timeline.split_pairwise (fun _ _ => time_le_time) l)).imp ?_
  rintro g g' ⟨hg, hg', hfar⟩
  obtain ⟨x, hx⟩ := List.exists_mem_of_ne_nil g (Timeline.ne_nil_of_mem_split hg)
  obtain ⟨y, hy⟩ := List.exists_mem_of_ne_nil g' (Timeline.ne_nil_of_mem_split hg')
  rw [← label_eq_groupLabel hgap hg hx, ← label_eq_groupLabel hgap hg' hy]
  exact (label_lt_of_far hgap hg' hfar hx hy).ne

end

/-! ## The order of equal timestamps does not matter -/

theorem orderByTime_perm (l : List SessionEvent) : (orderByTime l).Perm (Timeline.sort l) :=
  (List.perm_insertionSort _ l).trans (Timeline.sort_perm l).symm

theorem orderByTime_times (l : List SessionEvent) :
    (orderByTime l).map (·.time) = (Timeline.sort l).map (·.time) := by
  have hle : ∀ a b : SessionEvent, a.time ≤ b.time ∨ b.time ≤ a.time := fun a b => le_total _ _
  have : Std.Total fun a b : SessionEvent => a.time ≤ b.time := ⟨hle⟩
  have : IsTrans SessionEvent fun a b => a.time ≤ b.time := ⟨fun _ _ _ => le_trans⟩
  refine ((orderByTime_perm l).map _).eq_of_pairwise' (r := (· ≤ ·)) ?_ ?_
  · exact List.pairwise_map.2 (List.pairwise_insertionSort _ l)
  · exact List.pairwise_map.2 ((Timeline.sort_pairwise l).imp fun h => time_le_time h)

theorem gaps_times : ∀ {l l' : List SessionEvent} (prev : Option Timestamp),
    l.map (·.time) = l'.map (·.time) →
    (gaps prev l).map (fun g => (g.1.time, g.2)) = (gaps prev l').map (fun g => (g.1.time, g.2))
  | [], [], _, _ => rfl
  | [], _ :: _, _, h => by cases h
  | _ :: _, [], _, h => by cases h
  | e :: l, e' :: l', prev, h => by
    simp only [List.map_cons, List.cons.injEq] at h
    simp only [gaps, List.map_cons, h.1, gaps_times _ h.2]

theorem sessionLabel_congr {gap : Timestamp} {l l' : List SessionEvent}
    (h : l.map (·.time) = l'.map (·.time)) (e : SessionEvent) :
    sessionLabel gap (gaps none l) e = sessionLabel gap (gaps none l') e := by
  have hcount : ∀ gs : List (SessionEvent × Option Timestamp), sessionLabel gap gs e =
      (gs.map fun g => (g.1.time, g.2)).countP fun g =>
        g.2.all (fun p => gap < g.1 - p) && decide (g.1 ≤ e.time) := by
    intro gs
    rw [sessionLabel, List.countP_map, ← List.countP_eq_length_filter]
    refine List.countP_congr fun g _ => ?_
    cases hg : g.2 with
    | none => simp [startsSession, hg]
    | some p => simp [startsSession, hg]
  rw [hcount, hcount, gaps_times none h]

theorem summarise_perm {g g' : List SessionEvent} (h : g.Perm g') : summarise g = summarise g' := by
  simp only [summarise, Sql.minOf_perm (h.map _), Sql.maxOf_perm (h.map _), h.length_eq,
    (h.filter _).length_eq]

/-- **The SQL computes the sessions.** -/
theorem sessionRowsAt_summary {gap : Timestamp} (hgap : 0 ≤ gap) (offset : Nat)
    (events : List SessionEvent) :
    (sessionRowsAt gap offset events).map (·.summary) = sessioniseAt gap events := by
  have htimes := orderByTime_times events
  have hlabel : sessionLabel gap (gaps none (orderByTime events)) =
      sessionLabel gap (gaps none (Timeline.sort events)) :=
    funext (sessionLabel_congr htimes)
  have hkeys : (orderByTime events).map
        (sessionLabel gap (gaps none (Timeline.sort events))) =
      (Timeline.sort events).map
        (sessionLabel gap (gaps none (Timeline.sort events))) := by
    have := congrArg (List.map fun t => ((gaps none (Timeline.sort events)).filter fun g =>
      startsSession gap g && decide (g.1.time ≤ t)).length) htimes
    rw [List.map_map, List.map_map] at this
    exact this
  have hgroups := congrArg (List.map fun g : Nat × List SessionEvent => summarise g.2)
    (groupBy_label hgap events)
  rw [List.map_map] at hgroups
  calc (sessionRowsAt gap offset events).map (·.summary)
      = (sessionGroups gap events).map fun g => summarise g.2 := by
        rw [sessionRowsAt, List.map_map]
        rfl
    _ = (Sql.groupBy (sessionLabel gap (gaps none (Timeline.sort events)))
          (Timeline.sort events)).map fun g => summarise g.2 := by
        rw [sessionGroups, hlabel, Sql.groupBy, Sql.groupBy, hkeys, List.map_map, List.map_map]
        exact List.map_congr_left fun k _ => summarise_perm ((orderByTime_perm events).filter _)
    _ = sessioniseAt gap events := hgroups

theorem sessionRows_summary (offset : Nat) (events : List SessionEvent) :
    (sessionRows offset events).map (·.summary) = sessionise events :=
  sessionRowsAt_summary sessionIdleGap_nonneg offset events

theorem orderByTime_pairwise (l : List SessionEvent) :
    (orderByTime l).Pairwise fun a b => a.time ≤ b.time := by
  have : Std.Total fun a b : SessionEvent => a.time ≤ b.time := ⟨fun a b => le_total _ _⟩
  have : IsTrans SessionEvent fun a b => a.time ≤ b.time := ⟨fun _ _ _ => le_trans⟩
  exact List.pairwise_insertionSort _ l

/-- The first event starts a session, so that the labels count from one. -/
theorem sessionLabel_pos {gap : Timestamp} {events : List SessionEvent} {x : SessionEvent}
    (hx : x ∈ orderByTime events) :
    0 < sessionLabel gap (gaps none (orderByTime events)) x := by
  have hsorted := orderByTime_pairwise events
  cases hl : orderByTime events with
  | nil => simp [hl] at hx
  | cons e es =>
    rw [hl] at hx hsorted
    have hle : e.time ≤ x.time := by
      rcases List.mem_cons.1 hx with rfl | hx
      · exact le_rfl
      · exact (List.pairwise_cons.1 hsorted).1 x hx
    have hmem : (e, none) ∈ (gaps none (e :: es)).filter fun g =>
        startsSession gap g && decide (g.1.time ≤ x.time) :=
      List.mem_filter.2 ⟨List.mem_cons_self, by simpa [startsSession] using hle⟩
    exact List.length_pos_of_mem hmem

theorem lt_sessionId {gap : Timestamp} {offset : Nat} {events : List SessionEvent} {r : SessionRow}
    (hr : r ∈ sessionRowsAt gap offset events) : offset < r.sessionId := by
  obtain ⟨group, hgroup, rfl⟩ := List.mem_map.1 hr
  obtain ⟨k, hk, rfl⟩ := List.mem_map.1 hgroup
  obtain ⟨x, hx, rfl⟩ := List.mem_map.1 (List.mem_dedup.1 hk)
  exact Nat.lt_add_of_pos_left (sessionLabel_pos hx)

theorem sessionId_le_offset : ∀ {rows : List SessionRow} {r : SessionRow}, r ∈ rows →
    r.sessionId ≤ sessionIdOffset rows
  | r :: rows, r', h => by
    rcases List.mem_cons.1 h with rfl | h
    · exact le_max_left _ _
    · exact (sessionId_le_offset h).trans (le_max_right _ _)

/-! ## The rebuild window -/

theorem sessionRebuildWindow_from_le (w gap : Timestamp) (sessions : List SessionBounds) :
    (sessionRebuildWindow w gap sessions).fromTs ≤ w := min_le_right _ _

/-- The window reaches down to the start of every suspect session. -/
theorem sessionRebuildWindow_from_le_start {w gap : Timestamp} {sessions : List SessionBounds}
    {b : SessionBounds} (hb : b ∈ sessions) (hend : w - gap ≤ b.endedAt) :
    (sessionRebuildWindow w gap sessions).fromTs ≤ b.startedAt := by
  have hmem : b.startedAt ∈ (sessions.filter (w - gap ≤ ·.endedAt)).map (·.startedAt) :=
    List.mem_map_of_mem (List.mem_filter.2 ⟨hb, by simpa using hend⟩)
  refine (min_le_left _ _).trans ?_
  cases hmin : ((sessions.filter (w - gap ≤ ·.endedAt)).map (·.startedAt)).min? with
  | none =>
    rw [List.min?_eq_none_iff.1 hmin] at hmem
    cases hmem
  | some m => exact (List.min?_eq_some_iff.1 hmin).2 _ hmem

/-- It starts at the watermark or with a suspect session. -/
theorem sessionRebuildWindow_from_eq (w gap : Timestamp) (sessions : List SessionBounds) :
    (sessionRebuildWindow w gap sessions).fromTs = w ∨
      ∃ b ∈ sessions, w - gap ≤ b.endedAt ∧
        (sessionRebuildWindow w gap sessions).fromTs = b.startedAt := by
  simp only [sessionRebuildWindow]
  cases hmin : ((sessions.filter (w - gap ≤ ·.endedAt)).map (·.startedAt)).min? with
  | none => exact .inl (min_self w)
  | some m =>
    obtain ⟨b, hb, rfl⟩ := List.mem_map.1 (List.min?_eq_some_iff.1 hmin).1
    obtain ⟨hb, hend⟩ := List.mem_filter.1 hb
    rcases le_total b.startedAt w with h | h
    · exact .inr ⟨b, hb, by simpa using hend, by simpa using h⟩
    · exact .inl (by simpa using h)

/-- A lower watermark opens a wider window. -/
theorem sessionRebuildWindow_from_mono {w w' : Timestamp} (h : w' ≤ w) (gap : Timestamp)
    (sessions : List SessionBounds) :
    (sessionRebuildWindow w' gap sessions).fromTs ≤ (sessionRebuildWindow w gap sessions).fromTs := by
  rcases sessionRebuildWindow_from_eq w gap sessions with heq | ⟨b, hb, hend, heq⟩
  · rw [heq]
    exact (sessionRebuildWindow_from_le w' gap sessions).trans h
  · rw [heq]
    exact sessionRebuildWindow_from_le_start hb ((sub_le_sub_right h gap).trans hend)

/-- The bounds a session row gives. -/
def SessionSummary.bounds? (s : SessionSummary) : Option SessionBounds :=
  match s.startedAt, s.endedAt with
  | some a, some b => some ⟨a, b⟩
  | _, _ => none

theorem sessionBounds_eq (rows : List SessionRow) :
    sessionBounds rows = (rows.map (·.summary)).filterMap SessionSummary.bounds? := by
  rw [List.filterMap_map]
  rfl

/-- A session's bounds are its first and last event. -/
theorem summarise_bounds {g : List SessionEvent} {b : SessionBounds}
    (h : (summarise g).bounds? = some b) :
    (∃ x ∈ g, x.time = b.startedAt) ∧ (∀ x ∈ g, b.startedAt ≤ x.time) ∧
      (∃ x ∈ g, x.time = b.endedAt) ∧ ∀ x ∈ g, x.time ≤ b.endedAt := by
  obtain ⟨hs, he⟩ : Sql.minOf (g.map fun e => some e.time) = some b.startedAt ∧
      Sql.maxOf (g.map fun e => some e.time) = some b.endedAt := by
    simp only [SessionSummary.bounds?, summarise] at h
    split at h
    · rename_i s e hs he
      obtain rfl := Option.some.inj h
      exact ⟨hs, he⟩
    · cases h
  have hmem : ∀ x ∈ g, some x.time ∈ g.map fun e => some e.time := fun x hx =>
    List.mem_map_of_mem hx
  refine ⟨?_, fun x hx => Sql.minOf_le hs (hmem x hx), ?_, fun x hx => Sql.le_maxOf he (hmem x hx)⟩
  · simpa using Sql.minOf_mem hs
  · simpa using Sql.maxOf_mem he

theorem exists_summarise_bounds {g : List SessionEvent} (hg : g ≠ []) :
    ∃ b, (summarise g).bounds? = some b := by
  obtain ⟨e, l, rfl⟩ := List.exists_cons_of_ne_nil hg
  have hs : (summarise (e :: l)).startedAt ≠ none := fun h => by
    simpa using Sql.minOf_eq_none.1 h (some e.time) (by simp)
  have he : (summarise (e :: l)).endedAt ≠ none := fun h => by
    simpa using Sql.maxOf_eq_none.1 h (some e.time) (by simp)
  obtain ⟨a, ha⟩ := Option.ne_none_iff_exists'.1 hs
  obtain ⟨b, hb⟩ := Option.ne_none_iff_exists'.1 he
  exact ⟨⟨a, b⟩, by rw [SessionSummary.bounds?, ha, hb]⟩

/-- Which sessions a rebuild keeps, by their summary. -/
def SessionSummary.endsBefore (cut : Timestamp) (s : SessionSummary) : Bool :=
  match s.endedAt with
  | none => false
  | some e => e < cut

theorem summarise_endsBefore (cut : Timestamp) {g : List SessionEvent} (hg : g ≠ []) :
    (summarise g).endsBefore cut = g.all fun x => decide (x.time < cut) := by
  obtain ⟨b, hb⟩ := exists_summarise_bounds hg
  obtain ⟨-, -, ⟨x, hx, hxe⟩, hle⟩ := summarise_bounds hb
  have he : (summarise g).endedAt = some b.endedAt := by
    simp only [SessionSummary.bounds?] at hb
    split at hb
    · rename_i s e hs he
      obtain rfl := Option.some.inj hb
      exact he
    · cases hb
  rw [SessionSummary.endsBefore, he, Bool.eq_iff_iff]
  simp only [decide_eq_true_eq, List.all_eq_true]
  exact ⟨fun h y hy => (hle y hy).trans_lt h, fun h => hxe ▸ h x hx⟩

/-- **The window is wide enough.** Rows derived from `old`, rebuilt with watermark `w` over
`events` that agree with `old` below the window's start, are the sessions of `events`. -/
theorem rebuiltAt_summary {gap : Timestamp} (hgap : 0 ≤ gap) {rows : List SessionRow}
    {old events : List SessionEvent} {w : Timestamp} (offset : Nat) {window : SessionRebuildWindow}
    (hwindow : window = sessionRebuildWindow w gap (sessionBounds rows))
    (hrows : (rows.map (·.summary)).Perm (sessioniseAt gap old))
    (hagree : Timeline.AgreeBelow SessionEvent.time window.fromTs old events) :
    ((keptSessions (some window) rows ++
      sessionRowsAt gap offset (eventsFrom (some window.fromTs) events)).map (·.summary)).Perm
        (sessioniseAt gap events) := by
  subst hwindow
  have hbounds : ∀ b, b ∈ sessionBounds rows ↔
      ∃ g ∈ split SessionEvent.time gap old, (summarise g).bounds? = some b := by
    intro b
    rw [sessionBounds_eq, List.mem_filterMap]
    simp only [hrows.mem_iff, sessioniseAt, List.mem_map]
    exact ⟨fun ⟨_, ⟨g, hg, rfl⟩, hb⟩ => ⟨g, hg, hb⟩, fun ⟨g, hg, hb⟩ => ⟨_, ⟨g, hg, rfl⟩, hb⟩⟩
  have hlow : ∀ g ∈ split SessionEvent.time gap old,
      (∃ x ∈ g, w - gap ≤ x.time) → ∀ x ∈ g,
        (sessionRebuildWindow w gap (sessionBounds rows)).fromTs ≤ x.time := by
    rintro g hg ⟨x, hx, hxw⟩ y hy
    obtain ⟨b, hb⟩ := exists_summarise_bounds (Timeline.ne_nil_of_mem_split hg)
    obtain ⟨-, hstart, -, hend⟩ := summarise_bounds hb
    exact (sessionRebuildWindow_from_le_start ((hbounds b).2 ⟨g, hg, hb⟩)
      (hxw.trans (hend x hx))).trans (hstart y hy)
  have hatt : (sessionRebuildWindow w gap (sessionBounds rows)).fromTs = w ∨
      ∃ g ∈ split SessionEvent.time gap old, (∃ x ∈ g, w - gap ≤ x.time) ∧
        ∃ x ∈ g, x.time =
          (sessionRebuildWindow w gap (sessionBounds rows)).fromTs := by
    refine (sessionRebuildWindow_from_eq w gap _).imp_right ?_
    rintro ⟨b, hb, hend, heq⟩
    obtain ⟨g, hg, hgb⟩ := (hbounds b).1 hb
    obtain ⟨⟨x, hx, hxs⟩, -, ⟨y, hy, hye⟩, -⟩ := summarise_bounds hgb
    exact ⟨g, hg, ⟨y, hy, hye ▸ hend⟩, x, hx, hxs.trans heq.symm⟩
  have hkept : ((keptSessions (some (sessionRebuildWindow w gap (sessionBounds rows)))
      rows).map (·.summary)).Perm (((split SessionEvent.time gap old).filter
        fun g => g.all fun x => decide (x.time < w - gap)).map summarise) := by
    have hmap : (keptSessions (some (sessionRebuildWindow w gap (sessionBounds rows)))
        rows).map (·.summary) =
          (rows.map (·.summary)).filter (SessionSummary.endsBefore (w - gap)) := by
      rw [List.filter_map]
      rfl
    rw [hmap]
    refine (hrows.filter _).trans (.of_eq ?_)
    rw [sessioniseAt, List.filter_map]
    congr 1
    exact List.filter_congr fun g hg =>
      summarise_endsBefore _ (Timeline.ne_nil_of_mem_split hg)
  rw [List.map_append, sessionRowsAt_summary hgap]
  refine (hkept.append_right _).trans (.of_eq ?_)
  rw [sessioniseAt, ← List.map_append, sessioniseAt]
  congr 1
  exact Timeline.split_window (fun _ _ => time_le_time) hgap
    (sessionRebuildWindow_from_le w gap _) hlow hatt hagree

theorem rebuilt_summary {rows : List SessionRow} {old events : List SessionEvent} {w : Timestamp}
    (offset : Nat) {window : SessionRebuildWindow}
    (hwindow : window = sessionRebuildWindow w sessionIdleGap (sessionBounds rows))
    (hrows : (rows.map (·.summary)).Perm (sessionise old))
    (hagree : Timeline.AgreeBelow SessionEvent.time window.fromTs old events) :
    ((keptSessions (some window) rows ++
      sessionRows offset (eventsFrom (some window.fromTs) events)).map (·.summary)).Perm
        (sessionise events) :=
  rebuiltAt_summary sessionIdleGap_nonneg offset hwindow hrows hagree

/-- What a rebuild leaves when events come in: `S` are rows of the stored events, with whatever
ordinals, `d` is the earliest time of the new ones. -/
theorem rebuilt_with_new {gap : Timestamp} (hgap : 0 ≤ gap) {S : List SessionRow}
    {E N : List SessionEvent} (hS : (S.map (·.summary)).Perm (sessioniseAt gap E)) {d : Timestamp}
    (hd : (N.map (·.time)).min? = some d) {window : SessionRebuildWindow}
    (hwindow : window = sessionRebuildWindow d gap (sessionBounds S))
    {kept rebuilt : List SessionRow} (hkept : kept = keptSessions (some window) S)
    (hrebuilt : rebuilt = sessionRowsAt gap (sessionIdOffset kept)
      (eventsFrom (some window.fromTs) (E ++ N))) :
    ((kept ++ rebuilt).map (·.summary)).Perm (sessioniseAt gap (E ++ N)) ∧
      ∀ r ∈ kept, ∀ r' ∈ rebuilt, r.sessionId ≠ r'.sessionId := by
  constructor
  · have hnew : ∀ e ∈ N, window.fromTs ≤ e.time := fun e he => by
      rw [hwindow]
      exact (sessionRebuildWindow_from_le d gap _).trans
        ((List.min?_eq_some_iff.1 hd).2 _ (List.mem_map_of_mem he))
    rw [hrebuilt, hkept]
    exact rebuiltAt_summary hgap _ hwindow hS ((Timeline.AgreeBelow.refl _ _ E).append_right hnew)
  · intro r hr r' hr'
    rw [hrebuilt] at hr'
    exact ((sessionId_le_offset hr).trans_lt (lt_sessionId hr')).ne

def eventAt (ts : Timestamp) : SessionEvent := toLex (ts, false)

def sessionAt (sessionId : Nat) (startedAt endedAt : Timestamp) (eventCount : Nat) :
    SessionRow where
  sessionId := sessionId
  startedAt := some startedAt
  endedAt := some endedAt
  eventCount := eventCount
  deathCount := 0

/-- The new event is exactly the gap behind one session and before another. -/
theorem rebuilt_with_new_between :
    (([sessionAt 5 0 0 1] ++ [sessionAt 6 100 120 3]).map (·.summary)).Perm
        (sessioniseAt 10 ([eventAt 0, eventAt 100, eventAt 120] ++ [eventAt 110])) ∧
      ∀ r ∈ [sessionAt 5 0 0 1], ∀ r' ∈ [sessionAt 6 100 120 3], r.sessionId ≠ r'.sessionId :=
  rebuilt_with_new (by decide)
    (S := [sessionAt 5 0 0 1, sessionAt 2 100 100 1, sessionAt 3 120 120 1]) (by decide +kernel)
    (d := 110) rfl rfl (by decide +kernel) (by decide +kernel)

/-- Without a window everything is derived again. -/
theorem rebuilt_summary_full (rows : List SessionRow) (events : List SessionEvent) (offset : Nat) :
    ((keptSessions none rows ++ sessionRows offset (eventsFrom none events)).map
      (·.summary)).Perm (sessionise events) := by
  rw [keptSessions, List.nil_append, sessionRows_summary]
  rfl

/-! ## The session events of a batch -/

theorem sessionEvents_append (handle : String) (l l' : List EventRow) :
    sessionEvents handle (l ++ l') = sessionEvents handle l ++ sessionEvents handle l' := by
  rw [sessionEvents, List.filter_append, List.filterMap_append]
  rfl

/-- A session event has the time of its row. -/
theorem exists_row_of_mem {handle : String} {l : List EventRow} {e : SessionEvent}
    (he : e ∈ sessionEvents handle l) :
    ∃ r ∈ l.filter (·.claimedHandle = handle), r.eventTimestamp = some e.time := by
  obtain ⟨r, hr, hre⟩ := List.mem_filterMap.1 he
  refine ⟨r, hr, ?_⟩
  rw [sessionEvent?] at hre
  split at hre
  · cases hre
  · obtain ⟨ts, hts, rfl⟩ := Option.map_eq_some_iff.1 hre
    exact hts

/-- What a batch's rows of the handle do to the watermark bounds their times. -/
theorem le_time_of_minOf {handle : String} {ins : List EventRow} {m : Timestamp}
    (hm : Sql.minOf ((ins.filter (·.claimedHandle = handle)).map (·.eventTimestamp)) = some m)
    {e : SessionEvent} (he : e ∈ sessionEvents handle ins) : m ≤ e.time := by
  obtain ⟨r, hr, hre⟩ := exists_row_of_mem he
  exact Sql.minOf_le hm (hre ▸ List.mem_map_of_mem hr)

/-- Without a minimum the batch has no session events. -/
theorem sessionEvents_of_minOf_none {handle : String} {ins : List EventRow}
    (hm : Sql.minOf ((ins.filter (·.claimedHandle = handle)).map (·.eventTimestamp)) = none) :
    sessionEvents handle ins = [] := by
  refine List.eq_nil_iff_forall_not_mem.2 fun e he => ?_
  obtain ⟨r, hr, hre⟩ := exists_row_of_mem he
  have := Sql.minOf_eq_none.1 hm _ (List.mem_map_of_mem hr)
  rw [hre] at this
  cases this

/-! ## Tables keyed by handle -/

@[simp] theorem setAt_self {β : Type} (f : String → β) (handle : String) (v : β) :
    setAt f handle v handle = v := if_pos rfl

theorem setAt_of_ne {β : Type} (f : String → β) {handle h : String} (v : β) (hne : h ≠ handle) :
    setAt f handle v h = f h := if_neg hne

end StarStats
