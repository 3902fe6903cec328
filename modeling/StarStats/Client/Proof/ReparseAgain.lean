import StarStats.Client.Proof.Reparse
import StarStats.Client.Proof.Suppression

/-!
# When a second re-parse finds nothing to do

`reparse_once_iff`: a second re-parse changes nothing exactly when what is stored before the first
is `Settled`. The second sees of the rows what the first has seen, less the lines of the bursts.
-/

namespace StarStats

open EventsTable (Classification)

namespace ReparseEnv

variable {env : ReparseEnv}

/-! ## The columns that stay -/

/-- A row without the columns that a classification writes; a summary stays one. -/
def bare (row : LocalRow) : LocalRow :=
  { row with
    eventType := if row.eventType = "burst_summary" then "burst_summary" else ""
    timestamp := ""
    payload := ""
    metadata := none }

theorem bare_summary (row : LocalRow) :
    (bare row).eventType = "burst_summary" ↔ row.eventType = "burst_summary" := by
  unfold bare
  split <;> simp [*]

/-- Two tables whose rows differ in what a classification writes. -/
structure SameLines (t t' : EventsTable) : Prop where
  rows : t.rows.map bare = t'.rows.map bare
  lastId : t.lastId = t'.lastId

theorem enrichZone_not_summary {tracker : ZoneTracker} {event : GameEvent}
    (h : ∀ s, event ≠ .burstSummary s) : ∀ s, (enrichZone tracker event).1 ≠ .burstSummary s := by
  intro s
  unfold enrichZone
  split
  · split <;> simp
  · split <;> simp
  · exact h s

/-- No line reads as a summary. -/
theorem reading_not_summary {raw : String} {event : GameEvent} (h : env.reading raw = some event) :
    ∀ s, event ≠ .burstSummary s := by
  obtain ⟨line, -, hline⟩ := Option.bind_eq_some_iff.1 h
  rintro s rfl
  rcases Option.or_eq_some_iff.1 hline with hclassify | ⟨-, hremote⟩
  · exact (env.observed line s).1 hclassify
  · exact (env.observed line s).2 hremote

theorem bare_reclassified {c : Classification} {metadata : Option String} {row : LocalRow}
    (hc : c.eventType ≠ "burst_summary") (hrow : row.eventType ≠ "burst_summary") :
    bare (EventsTable.reclassified c metadata row) = bare row := by
  have htype : (EventsTable.reclassified c metadata row).eventType ≠ "burst_summary" := hc
  rw [bare, if_neg htype, bare, if_neg hrow]
  rfl

theorem bare_reread (seen : Option (String × String)) (row : LocalRow) :
    bare (env.reread seen row) = bare row := by
  unfold reread
  split
  case isTrue => rfl
  case isFalse hsummary =>
    split
    case h_1 => rfl
    case h_2 event hreading =>
      have hnew := IngestEnv.eventTypeKey_eq_burst
        (@enrichZone_not_summary (.of seen) event (reading_not_summary hreading))
      exact bare_reclassified hnew hsummary

theorem bare_rereadAll (seen : Option (String × String)) (rows : List LocalRow) :
    (env.rereadAll seen rows).map bare = rows.map bare := by
  induction rows generalizing seen with
  | nil => rfl
  | cons row rest ih => rw [rereadAll, List.map_cons, List.map_cons, ih, bare_reread]

theorem zoneOf_bare (row : LocalRow) : env.zoneOf (bare row) = env.zoneOf row := by
  simp only [zoneOf, bare_summary]
  rfl

theorem lastZone_bare (rows : List LocalRow) : env.lastZone (rows.map bare) = env.lastZone rows := by
  rw [lastZone, lastZone, List.filterMap_map]
  congr 2
  funext row
  exact zoneOf_bare row

theorem lastZone_congr {rows rows' : List LocalRow} (h : rows.map bare = rows'.map bare) :
    env.lastZone rows = env.lastZone rows' := by
  rw [← lastZone_bare, h, lastZone_bare]

/-! ### Windows -/

theorem retroWindow_bare (t : EventsTable) (source : String) :
    (retroWindow t source).map (fun p => (bare p.1, p.2)) =
      retroWindow ⟨t.rows.map bare, t.lastId⟩ source := by
  have hscan : (EventsTable.mk (t.rows.map bare) t.lastId).eventsForBurstScan source =
      (t.eventsForBurstScan source).map bare := by
    rw [EventsTable.eventsForBurstScan, EventsTable.eventsForBurstScan, List.filter_map,
      List.map_insertionSort EventsTable.scanOrder EventsTable.scanOrder bare _
        fun _ _ _ _ => Iff.rfl]
    rfl
  rw [retroWindow, retroWindow, hscan, retroLines, retroLines, List.filter_map, List.filterMap_map,
    List.map_filterMap]
  have hkept : (fun r : LocalRow => decide (r.eventType ≠ "burst_summary")) ∘ bare =
      fun r => decide (r.eventType ≠ "burst_summary") := by
    funext r
    simp only [Function.comp, ne_eq, bare_summary]
  rw [hkept]
  refine List.filterMap_congr fun r _ => ?_
  simp only [Function.comp, Option.map_map]
  rfl

theorem retroHits_bare (parsed : List (LocalRow × LogLine)) :
    env.retroHits (parsed.map fun p => (bare p.1, p.2)) = env.retroHits parsed := by
  simp only [retroHits, List.length_map, List.map_map, Function.comp_def]

theorem collapsedIds_bare (t : EventsTable) (source : String) :
    env.collapsedIds ⟨t.rows.map bare, t.lastId⟩ source = env.collapsedIds t source := by
  simp only [collapsedIds, ← retroWindow_bare, retroHits_bare]
  congr 1
  funext hit
  simp only [List.getElem?_map, List.map_filterMap]
  refine List.filterMap_congr fun i _ => ?_
  rw [Option.map_map]
  rfl

variable {t t' : EventsTable} (h : SameLines t t')
include h

theorem SameLines.eq : EventsTable.mk (t.rows.map bare) t.lastId = ⟨t'.rows.map bare, t'.lastId⟩ := by
  rw [h.rows, h.lastId]

theorem SameLines.retroHits (source : String) :
    env.retroHits (retroWindow t source) = env.retroHits (retroWindow t' source) := by
  rw [← retroHits_bare, retroWindow_bare, h.eq, ← retroWindow_bare, retroHits_bare]

theorem SameLines.collapsedIds (source : String) :
    env.collapsedIds t source = env.collapsedIds t' source := by
  rw [← collapsedIds_bare, h.eq, collapsedIds_bare]

theorem SameLines.distinctLogSources : t.distinctLogSources = t'.distinctLogSources := by
  have hbare : ∀ rows : List LocalRow, rows.map (·.logSource) = (rows.map bare).map (·.logSource) := by
    intro rows
    rw [List.map_map]
    rfl
  rw [EventsTable.distinctLogSources, EventsTable.distinctLogSources, hbare, h.rows, ← hbare]

theorem SameLines.remains : env.remains t = env.remains t' := by
  funext row
  simp only [ReparseEnv.remains, h.distinctLogSources, h.collapsedIds]

omit h

/-- The columns that two rows must not share. -/
theorem SameLines.any {rows rows' : List LocalRow} (h : rows.map bare = rows'.map bare)
    (p : LocalRow → Bool) (hp : ∀ r, p (bare r) = p r) : rows.any p = rows'.any p := by
  have hbare : ∀ rows : List LocalRow, rows.any p = (rows.map bare).any p := by
    intro rows
    rw [List.any_map]
    congr 1
    funext r
    exact (hp r).symm
  rw [hbare, h, ← hbare]

/-- The same rows are inserted. -/
theorem SameLines.insertRows {t t' : EventsTable} (h : SameLines t t') (rows : List EventsRow) :
    ∃ more, (env.insertRows t rows).rows = t.rows ++ more ∧
      (env.insertRows t' rows).rows = t'.rows ++ more ∧
      (env.insertRows t rows).lastId = (env.insertRows t' rows).lastId ∧
      ∀ r ∈ more, r.toEventsRow ∈ rows ∧ r.metadata = none := by
  induction rows generalizing t t' with
  | nil => exact ⟨[], by simp [ReparseEnv.insertRows], by simp [ReparseEnv.insertRows], h.lastId,
      by simp⟩
  | cons row rows ih =>
    have hkey : t.rows.any (·.idempotencyKey = row.idempotencyKey) =
        t'.rows.any (·.idempotencyKey = row.idempotencyKey) := SameLines.any h.rows _ fun _ => rfl
    have hcontent : t.rows.any (·.contentKey = env.contentKey row) =
        t'.rows.any (·.contentKey = env.contentKey row) := SameLines.any h.rows _ fun _ => rfl
    have hnew : newRow env.toIngestEnv t row = newRow env.toIngestEnv t' row := by
      rw [newRow, newRow, h.lastId]
    have hstep : (t.insertEvent env.toIngestEnv row).1 = t ∧
          (t'.insertEvent env.toIngestEnv row).1 = t' ∨
        (t.insertEvent env.toIngestEnv row).1 =
            ⟨t.rows ++ [newRow env.toIngestEnv t row], t.lastId + 1⟩ ∧
          (t'.insertEvent env.toIngestEnv row).1 =
            ⟨t'.rows ++ [newRow env.toIngestEnv t row], t'.lastId + 1⟩ := by
      rw [hnew]
      unfold EventsTable.insertEvent
      simp only [hkey, hcontent]
      split
      · exact .inl ⟨rfl, rfl⟩
      · split
        · exact .inl ⟨rfl, rfl⟩
        · rw [← hnew]
          exact .inr ⟨rfl, by rw [hnew]; rfl⟩
    simp only [ReparseEnv.insertRows, List.foldl_cons]
    rcases hstep with ⟨hsame, hsame'⟩ | ⟨hone, hone'⟩
    · rw [hsame, hsame']
      obtain ⟨more, hrows, hrows', hlast, hmore⟩ := ih h
      exact ⟨more, hrows, hrows', hlast, fun r hr => ⟨.tail _ (hmore r hr).1, (hmore r hr).2⟩⟩
    · rw [hone, hone']
      have hgrown : SameLines ⟨t.rows ++ [newRow env.toIngestEnv t row], t.lastId + 1⟩
          ⟨t'.rows ++ [newRow env.toIngestEnv t row], t'.lastId + 1⟩ :=
        ⟨by rw [List.map_append, List.map_append, h.rows], congrArg (· + 1) h.lastId⟩
      obtain ⟨more, hrows, hrows', hlast, hmore⟩ := ih hgrown
      refine ⟨newRow env.toIngestEnv t row :: more, ?_, ?_, hlast, fun r hr => ?_⟩
      · exact hrows.trans (List.append_assoc _ _ _)
      · exact hrows'.trans (List.append_assoc _ _ _)
      · rcases List.mem_cons.1 hr with rfl | hr
        · exact ⟨List.mem_cons_self, rfl⟩
        · exact ⟨.tail _ (hmore r hr).1, (hmore r hr).2⟩

/-! ## Reading a row twice -/

theorem enrichZone_of_not_awaits {tracker : ZoneTracker} {event : GameEvent}
    (h : event.awaitsZone = false) : enrichZone tracker event = (event, none) := by
  unfold GameEvent.awaitsZone at h
  unfold enrichZone
  split
  · rw [if_neg (Bool.eq_false_iff.1 h)]
  · rw [if_neg (Bool.eq_false_iff.1 h)]
  · rfl

theorem fill_of (seen : Option (String × String)) :
    (ZoneTracker.of seen).fill none = (seen.map (·.1), seen.map (·.2)) := by
  cases seen <;> rfl

/-- A death takes the zone of the tracker. -/
theorem enrichZone_awaits {event : GameEvent} (h : event.awaitsZone = true)
    (seen : Option (String × String)) : (enrichZone (.of seen) event).2 = seen.map (·.2) := by
  cases event with
  | playerDeath d =>
    have hnone : d.zone = none := Option.isNone_iff_eq_none.1 h
    simp only [enrichZone, hnone, Option.isNone_none, if_true, fill_of]
  | playerIncapacitated i =>
    have hnone : i.zone = none := Option.isNone_iff_eq_none.1 h
    simp only [enrichZone, hnone, Option.isNone_none, if_true, fill_of]
  | _ => cases h

theorem zone_of_enrichZone {event : GameEvent} (h : event.awaitsZone = true)
    {seen seen' : Option (String × String)}
    (heq : (enrichZone (.of seen) event).1 = (enrichZone (.of seen') event).1) :
    seen.map (·.1) = seen'.map (·.1) := by
  cases event with
  | playerDeath d =>
    have hnone : d.zone = none := Option.isNone_iff_eq_none.1 h
    simpa only [enrichZone, hnone, Option.isNone_none, if_true, fill_of,
      GameEvent.playerDeath.injEq, Events.PlayerDeath.mk.injEq, true_and] using heq
  | playerIncapacitated i =>
    have hnone : i.zone = none := Option.isNone_iff_eq_none.1 h
    simpa only [enrichZone, hnone, Option.isNone_none, if_true, fill_of,
      GameEvent.playerIncapacitated.injEq, Events.PlayerIncapacitated.mk.injEq, true_and] using heq
  | _ => cases h

/-- Without a signal a reading stays as it is. -/
theorem enrichZone_none (event : GameEvent) : enrichZone (.of none) event = (event, none) := by
  by_cases h : event.awaitsZone = true
  · cases event with
    | playerDeath d =>
      have hnone : d.zone = none := Option.isNone_iff_eq_none.1 h
      simp only [enrichZone, hnone, Option.isNone_none, if_true, fill_of, Option.map_none]
      rw [← hnone]
    | playerIncapacitated i =>
      have hnone : i.zone = none := Option.isNone_iff_eq_none.1 h
      simp only [enrichZone, hnone, Option.isNone_none, if_true, fill_of, Option.map_none]
      rw [← hnone]
    | _ => cases h
  · exact enrichZone_of_not_awaits (Bool.eq_false_iff.2 h)

theorem reclassified_reclassified {c c' : Classification} {m m' : Option String} {row : LocalRow} :
    EventsTable.reclassified c' m' (EventsTable.reclassified c m row) =
        EventsTable.reclassified c m row ↔
      c' = c ∧ (m'.or (m.or row.metadata) = m.or row.metadata) := by
  obtain ⟨eventType, timestamp, payload⟩ := c
  obtain ⟨eventType', timestamp', payload'⟩ := c'
  simp [EventsTable.reclassified, and_assoc]

theorem reread_eq {event : GameEvent} {row : LocalRow} (hsummary : row.eventType ≠ "burst_summary")
    (hreading : env.reading row.raw = some event) (seen : Option (String × String)) :
    env.reread seen row =
      EventsTable.reclassified (env.serialiseForReparse (enrichZone (.of seen) event).1)
        (env.buildZoneMetadataJson (enrichZone (.of seen) event).1
          (enrichZone (.of seen) event).2) row := by
  rw [reread, if_neg hsummary, hreading]

/-- A death that is classified as before has its zone from where it had it. -/
theorem seen_eq (henv : ZonesShow env) {event : GameEvent} (ha : event.awaitsZone = true)
    {seen seen' : Option (String × String)} {stored : Option String}
    (hc : env.serialiseForReparse (enrichZone (.of seen') event).1 =
      env.serialiseForReparse (enrichZone (.of seen) event).1)
    (hm : (env.buildZoneMetadataJson (enrichZone (.of seen') event).1
          (enrichZone (.of seen') event).2).or
        ((env.buildZoneMetadataJson (enrichZone (.of seen) event).1
          (enrichZone (.of seen) event).2).or stored) =
      (env.buildZoneMetadataJson (enrichZone (.of seen) event).1
        (enrichZone (.of seen) event).2).or stored) : seen = seen' := by
  have hevent := henv.payload event seen' seen (congrArg Classification.payload hc)
  have hzone := zone_of_enrichZone ha hevent
  simp only [hevent, enrichZone_awaits ha, buildZoneMetadataJson, Option.map_map] at hm
  cases seen with
  | none =>
    cases seen' with
    | none => rfl
    | some s' => cases hzone
  | some s =>
    cases seen' with
    | none => cases hzone
    | some s' =>
      have hkey := henv.metadata _ _ _ (Option.some.inj hm)
      exact congrArg some (Prod.ext (Option.some.inj hzone).symm hkey.symm)

/-- A row that is read twice stays when its zone does. -/
theorem reread_reread_iff (henv : ZonesShow env) (seen seen' : Option (String × String))
    (row : LocalRow) :
    env.reread seen' (env.reread seen row) = env.reread seen row ↔
      (env.AwaitsZone row → seen = seen') := by
  by_cases hsummary : row.eventType = "burst_summary"
  · have hreread : ∀ seen, env.reread seen row = row := fun seen => if_pos hsummary
    rw [hreread, hreread]
    exact ⟨fun _ h => absurd hsummary h.1, fun _ => rfl⟩
  · cases hreading : env.reading row.raw with
    | none =>
      have hreread : ∀ seen, env.reread seen row = row := fun seen => by
        rw [reread, if_neg hsummary, hreading]
      rw [hreread, hreread]
      exact ⟨fun _ h => absurd h.2 (by rw [hreading]; simp), fun _ => rfl⟩
    | some event =>
      have hsummary' : (env.reread seen row).eventType ≠ "burst_summary" := by
        rwa [ne_eq, ← bare_summary, bare_reread, bare_summary]
      have hraw : (env.reread seen row).raw = row.raw := congrArg (·.raw) (bare_reread seen row)
      rw [reread_eq hsummary' (hraw ▸ hreading), reread_eq hsummary hreading,
        reclassified_reclassified]
      constructor
      · rintro ⟨hc, hm⟩ ⟨-, ha⟩
        rw [hreading] at ha
        exact seen_eq henv ha hc hm
      · intro hseen
        by_cases ha : event.awaitsZone = true
        · obtain rfl := hseen ⟨hsummary, by rw [hreading]; exact ha⟩
          refine ⟨rfl, ?_⟩
          cases env.buildZoneMetadataJson (enrichZone (.of seen) event).1
            (enrichZone (.of seen) event).2 <;> rfl
        · have hevent : ∀ tracker, enrichZone tracker event = (event, none) := fun _ =>
            enrichZone_of_not_awaits (Bool.eq_false_iff.2 ha)
          simp only [hevent]
          exact ⟨trivial, rfl⟩

/-! ## Rows that the first phase leaves as they are -/

theorem lastZone_cons (row : LocalRow) (rows : List LocalRow) :
    env.lastZone (row :: rows) = (env.lastZone rows).or (env.zoneOf row) := by
  rw [lastZone, lastZone, List.filterMap_cons]
  cases env.zoneOf row with
  | none => exact (Option.or_none).symm
  | some zone =>
    rw [List.getLast?_cons]
    cases (rows.filterMap env.zoneOf).getLast? <;> rfl

/-- A death is no signal. -/
theorem zoneOf_of_awaits {row : LocalRow} (h : env.AwaitsZone row) : env.zoneOf row = none := by
  obtain ⟨hsummary, ha⟩ := h
  rw [zoneOf, if_neg hsummary]
  cases hreading : env.reading row.raw with
  | none => rfl
  | some event =>
    rw [hreading] at ha
    cases event with
    | playerDeath | playerIncapacitated => rfl
    | _ => cases ha

theorem zoneOf_reread (seen : Option (String × String)) (row : LocalRow) :
    env.zoneOf (env.reread seen row) = env.zoneOf row := by
  rw [← zoneOf_bare, bare_reread, zoneOf_bare]

theorem rereadAll_cons_iff {seen : Option (String × String)} {row : LocalRow}
    {rows : List LocalRow} : env.rereadAll seen (row :: rows) = row :: rows ↔
      env.reread ((env.zoneOf row).or seen) row = row ∧
        env.rereadAll ((env.zoneOf row).or seen) rows = rows := by
  rw [rereadAll, List.cons_eq_cons]

theorem rereadAll_append (seen : Option (String × String)) (rows more : List LocalRow) :
    env.rereadAll seen (rows ++ more) =
      env.rereadAll seen rows ++ env.rereadAll ((env.lastZone rows).or seen) more := by
  induction rows generalizing seen with
  | nil => rfl
  | cons row rows ih =>
    rw [List.cons_append, rereadAll, ih, rereadAll, lastZone_cons, List.cons_append, Option.or_assoc]

/-- A list cut before one of its elements is cut before the first or further behind. -/
theorem forall_cut_cons {α : Type} {P : List α → α → Prop} {a : α} {as : List α} :
    (∀ before x after, a :: as = before ++ x :: after → P before x) ↔
      P [] a ∧ ∀ before x after, as = before ++ x :: after → P (a :: before) x := by
  constructor
  · intro h
    exact ⟨h [] a as rfl, fun before x after heq => h (a :: before) x after (by rw [heq]; rfl)⟩
  · rintro ⟨hfirst, hrest⟩ before x after heq
    cases before with
    | nil =>
      obtain ⟨rfl, -⟩ := List.cons_eq_cons.1 heq
      exact hfirst
    | cons b before =>
      obtain ⟨rfl, htail⟩ := List.cons_eq_cons.1 heq
      exact hrest before x after htail

section
variable (henv : ZonesShow env) {stays : LocalRow → Bool}
include henv

/-- The rows that stay of those that were read once, behind the signals that the two see. -/
theorem rereadAll_filter_iff (hstays : ∀ seen row, stays (env.reread seen row) = stays row)
    (rows : List LocalRow) (seen seen' : Option (String × String)) :
    env.rereadAll seen' ((env.rereadAll seen rows).filter stays) =
        (env.rereadAll seen rows).filter stays ↔
      ∀ before row after, rows = before ++ row :: after → stays row = true →
        env.AwaitsZone row →
          (env.lastZone (before.filter stays)).or seen' = (env.lastZone before).or seen := by
  induction rows generalizing seen seen' with
  | nil => simp [rereadAll]
  | cons row rows ih =>
    rw [forall_cut_cons, rereadAll, List.filter_cons, hstays]
    by_cases hrow : stays row = true
    · rw [if_pos hrow, rereadAll_cons_iff, zoneOf_reread, ih]
      refine and_congr ?_ ?_
      · rw [reread_reread_iff henv]
        refine ⟨fun h _ ha => ?_, fun h ha => ?_⟩
        · have heq := h ha
          rw [zoneOf_of_awaits ha] at heq
          exact heq.symm
        · rw [zoneOf_of_awaits ha]
          exact (h hrow ha).symm
      · simp only [List.filter_cons, if_pos hrow, lastZone_cons, Option.or_assoc]
    · rw [if_neg hrow, ih]
      have hfirst : (stays row = true → env.AwaitsZone row →
          (env.lastZone ([].filter stays)).or seen' = (env.lastZone []).or seen) :=
        fun h => absurd h hrow
      rw [and_iff_right hfirst]
      simp only [List.filter_cons, if_neg hrow, lastZone_cons, Option.or_assoc]

/-- The rows that stay of those that never saw a signal. -/
theorem rereadAll_filter_fresh_iff {rows : List LocalRow}
    (hrows : ∀ row ∈ rows, env.reread none row = row) (seen : Option (String × String)) :
    env.rereadAll seen (rows.filter stays) = rows.filter stays ↔
      ∀ before row after, rows = before ++ row :: after → stays row = true →
        env.AwaitsZone row → (env.lastZone (before.filter stays)).or seen = none := by
  induction rows generalizing seen with
  | nil => simp [rereadAll]
  | cons row rows ih =>
    have ih := ih fun r hr => hrows r (.tail _ hr)
    have hread := hrows row List.mem_cons_self
    rw [forall_cut_cons, List.filter_cons]
    by_cases hrow : stays row = true
    · rw [if_pos hrow, rereadAll_cons_iff, ih]
      refine and_congr ?_ ?_
      · have hiff := reread_reread_iff henv none ((env.zoneOf row).or seen) row
        rw [hread] at hiff
        rw [hiff]
        refine ⟨fun h _ ha => ?_, fun h ha => ?_⟩
        · have heq := h ha
          rw [zoneOf_of_awaits ha] at heq
          exact heq.symm
        · rw [zoneOf_of_awaits ha]
          exact (h hrow ha).symm
      · simp only [List.filter_cons, if_pos hrow, lastZone_cons, Option.or_assoc]
    · rw [if_neg hrow, ih]
      have hfirst : (stays row = true → env.AwaitsZone row →
          (env.lastZone ([].filter stays)).or seen = none) := fun h => absurd h hrow
      rw [and_iff_right hfirst]
      simp only [List.filter_cons, if_neg hrow]

end

/-! ## The second re-parse -/

/-- A burst has a line of its window. -/
theorem exists_mem_of_retroHits {t : EventsTable} {source : String}
    (h : env.retroHits (retroWindow t source) ≠ []) :
    ∃ r ∈ t.rows, r.id ∈ t.distinctLogSources.flatMap (env.collapsedIds t) := by
  obtain ⟨hit, hhit⟩ := List.exists_mem_of_ne_nil _ h
  obtain ⟨hstart, -, hlt⟩ := mem_retroHits hhit
  obtain ⟨p, hp⟩ : ∃ p, (retroWindow t source)[hit.startIndex]? = some p :=
    ⟨_, List.getElem?_eq_getElem (hlt _ hstart)⟩
  obtain ⟨hmem, hsource⟩ := mem_retroWindow (List.mem_of_getElem? hp)
  refine ⟨p.1, hmem, List.mem_flatMap.2 ⟨source, ?_, ?_⟩⟩
  · rw [EventsTable.distinctLogSources, List.mem_insertionSort, List.mem_dedup]
    exact hsource ▸ List.mem_map_of_mem hmem
  · refine List.mem_flatMap.2 ⟨hit, hhit, List.mem_map_of_mem ?_⟩
    exact List.mem_filterMap.2 ⟨hit.startIndex, hstart, hp⟩

theorem length_rereadAll (seen : Option (String × String)) (rows : List LocalRow) :
    (env.rereadAll seen rows).length = rows.length := by
  have h := congrArg List.length (env.rereadAll_ids seen rows)
  rwa [List.length_map, List.length_map] at h

/-- Where no sample is classified, a re-parse changes nothing exactly when it reads every row as it
is and finds no burst. -/
theorem reparse_eq_iff {store : ReparseStore} (h : store.table.Ordered)
    (hsamples : env.recognised store = []) :
    ((env.reparse store).store = store ∧
        (ReparseRun.start store).stats.Idle (env.reparse store).stats) ↔
      env.rereadAll none store.table.rows = store.table.rows ∧
        ∀ source, env.retroHits (retroWindow store.table source) = [] := by
  obtain ⟨⟨-, summaries, hrows, hsummaries, -⟩, -, hfollows⟩ := @reparse_ok env _ h
  have hrewritten : env.rewritten store =
      ⟨env.rereadAll none store.table.rows, store.table.lastId⟩ := by
    rw [rewritten, hsamples]
    rfl
  rw [hrewritten] at hrows hfollows hsummaries
  constructor
  · rintro ⟨hsame, -⟩
    rw [hsame] at hrows
    -- a summary would have a new id
    have hnone : summaries = [] := by
      refine List.eq_nil_iff_forall_not_mem.2 fun r hr => ?_
      have hmem : r ∈ store.table.rows := by
        rw [hrows]
        exact List.mem_append_right _ hr
      have hle := h.bounded r hmem
      have hlt : store.table.lastId < r.id := (hsummaries r hr).2.1
      omega
    rw [hnone, List.append_nil] at hrows
    have hkept := List.filter_sublist.eq_of_length
      ((congrArg List.length hrows).symm.trans (length_rereadAll none store.table.rows).symm)
    have hread : env.rereadAll none store.table.rows = store.table.rows :=
      hkept.symm.trans hrows.symm
    refine ⟨hread, fun source => ?_⟩
    by_contra hne
    obtain ⟨r, hr, hid⟩ := exists_mem_of_retroHits hne
    have hgone := of_decide_eq_true (List.filter_eq_self.1 hkept r (hread.symm ▸ hr))
    rw [hread] at hgone
    exact hgone hid
  · rintro ⟨hread, hhits⟩
    rw [hread] at hfollows
    have hidle := hfollows.store ⟨rfl, hsamples, fun source _ => hhits source⟩
    exact ⟨hidle, hfollows.stats ⟨rfl, hsamples, fun source _ => hhits source⟩⟩

/-- What the bursts leave is what no burst has. -/
theorem filter_remains (t : EventsTable) (rows : List LocalRow) :
    rows.filter (·.id ∉ t.distinctLogSources.flatMap (env.collapsedIds t)) =
      rows.filter (env.remains t) := by
  refine List.filter_congr fun r _ => ?_
  rw [Bool.eq_iff_iff]
  simp [remains, List.mem_flatMap]

theorem reread_none_of_promoted {sample : UnknownSample} {row : LocalRow}
    (h : env.promotedRow sample = some row.toEventsRow) : env.reread none row = row := by
  obtain ⟨event, hreading, heq⟩ := Option.map_eq_some_iff.1 h
  have hraw : row.raw = sample.sampleLine := congrArg EventsRow.raw heq.symm
  have htype : row.eventType = eventTypeKey event := congrArg EventsRow.eventType heq.symm
  have hsummary : row.eventType ≠ "burst_summary" := by
    rw [htype]
    exact IngestEnv.eventTypeKey_eq_burst (reading_not_summary hreading)
  rw [reread_eq hsummary (hraw ▸ hreading), enrichZone_none, reclassified_eq_self]
  have hclass : row.classification = env.serialiseForReparse event :=
    congrArg EventsRow.classification heq.symm
  simp [dirty, hclass, buildZoneMetadataJson]

theorem rereadAll_append_iff (seen : Option (String × String)) (rows more : List LocalRow) :
    env.rereadAll seen (rows ++ more) = rows ++ more ↔
      env.rereadAll seen rows = rows ∧
        env.rereadAll ((env.lastZone rows).or seen) more = more := by
  rw [rereadAll_append]
  constructor
  · intro h
    exact List.append_inj h (length_rereadAll seen rows)
  · rintro ⟨h, h'⟩
    rw [h, h']

theorem rereadAll_summaries {rows : List LocalRow} (h : ∀ r ∈ rows, r.eventType = "burst_summary")
    (seen : Option (String × String)) : env.rereadAll seen rows = rows := by
  induction rows generalizing seen with
  | nil => rfl
  | cons row rows ih =>
    rw [rereadAll, ih fun r hr => h r (.tail _ hr), reread, if_pos (h row List.mem_cons_self)]

theorem lastZone_append (rows more : List LocalRow) :
    env.lastZone (rows ++ more) = (env.lastZone more).or (env.lastZone rows) := by
  rw [lastZone, List.filterMap_append, List.getLast?_append]
  rfl

theorem remains_bare (t : EventsTable) (row : LocalRow) :
    env.remains t (bare row) = env.remains t row := rfl

theorem bare_filter {rows rows' : List LocalRow} (h : rows.map bare = rows'.map bare)
    (t : EventsTable) :
    (rows.filter (env.remains t)).map bare = (rows'.filter (env.remains t)).map bare := by
  have hfilter : ∀ rows : List LocalRow,
      (rows.filter (env.remains t)).map bare = (rows.map bare).filter (env.remains t) := by
    intro rows
    rw [List.filter_map]
    rfl
  rw [hfilter, h, ← hfilter]

/-- A filtered table is in order. -/
theorem ordered_filter {t : EventsTable} (h : t.Ordered) (p : LocalRow → Bool) :
    EventsTable.Ordered ⟨t.rows.filter p, t.lastId⟩ :=
  ⟨h.ascending.filter p, fun r hr => h.positive r (List.mem_of_mem_filter hr), h.nonneg,
    fun r hr => h.bounded r (List.mem_of_mem_filter hr)⟩

/-- The table between the phases has the lines that are offered, with new ones at its end. -/
theorem rewritten_rows (env : ReparseEnv) (store : ReparseStore) :
    ∃ more, (env.rewritten store).rows = env.rereadAll none store.table.rows ++ more ∧
      (env.offered store).rows = store.table.rows ++ more ∧
      (env.rewritten store).lastId = (env.offered store).lastId ∧
      ∀ r ∈ more, env.reread none r = r := by
  have hsame : SameLines ⟨env.rereadAll none store.table.rows, store.table.lastId⟩ store.table :=
    ⟨bare_rereadAll none _, rfl⟩
  obtain ⟨more, hrewritten, hoffered, hlast, hmore⟩ :=
    SameLines.insertRows hsame (env.recognised store)
  refine ⟨more, hrewritten, hoffered, hlast, fun r hr => ?_⟩
  obtain ⟨sample, -, hsample⟩ := List.mem_filterMap.1 (hmore r hr).1
  exact reread_none_of_promoted hsample

/-- What the first re-parse leaves. -/
theorem reparse_rows {store : ReparseStore} (h : store.table.Ordered) :
    ∃ more summaries,
      (env.reparse store).store.table.rows =
        (env.rereadAll none store.table.rows).filter (env.remains (env.offered store)) ++
          more.filter (env.remains (env.offered store)) ++ summaries ∧
      (env.offered store).rows = store.table.rows ++ more ∧
      (∀ r ∈ more, env.reread none r = r) ∧
      (∀ r ∈ summaries, r.eventType = "burst_summary") ∧
      (env.reparse store).store.table.Ordered ∧
      ∀ source, env.retroHits (retroWindow (env.reparse store).store.table source) =
        env.retroHits (retroWindow (env.remaining (env.offered store)) source) := by
  obtain ⟨hcollapsed, -, -⟩ := @reparse_ok env _ h
  obtain ⟨more, hrewritten, hoffered, hlast, hmore⟩ := env.rewritten_rows store
  have hordered : (env.rewritten store).Ordered := ordered_insertRows (ordered_rereadAll h none) _
  have hsame : SameLines (env.rewritten store) (env.offered store) := by
    refine ⟨?_, hlast⟩
    rw [hrewritten, hoffered, List.map_append, List.map_append, bare_rereadAll]
  have hafter := hcollapsed.ordered hordered
  obtain ⟨hle, summaries, hrows, hsummaries, hasc⟩ := hcollapsed
  rw [filter_remains, hsame.remains] at hrows
  refine ⟨more, summaries, ?_, hoffered, hmore, fun r hr => (hsummaries r hr).1, hafter,
    fun source => ?_⟩
  · rw [hrows, hrewritten, List.filter_append]
  · have hnil : ∀ rows : List LocalRow, rows.filter (·.id ∉ []) = rows := fun rows =>
      List.filter_eq_self.2 (by simp)
    have hleft : Collapsed
        ⟨(env.rewritten store).rows.filter (env.remains (env.offered store)),
          (env.rewritten store).lastId⟩ (env.reparse store).store.table [] :=
      ⟨hle, summaries, by rw [hrows, hnil], hsummaries, hasc⟩
    have hremaining : SameLines
        ⟨(env.rewritten store).rows.filter (env.remains (env.offered store)),
          (env.rewritten store).lastId⟩ (env.remaining (env.offered store)) :=
      ⟨bare_filter hsame.rows _, hlast⟩
    rw [hleft.retroWindow_eq (ordered_filter hordered _) (by simp)]
    exact hremaining.retroHits source

/-- A second re-parse with the same rules changes nothing exactly when the zones that the first
gives come from signals that remain, and what remains makes no burst. -/
theorem reparse_once_iff (henv : ZonesShow env) {store : ReparseStore}
    (hstore : store.table.Ordered) : env.ReparsesOnce store ↔ env.Settled store := by
  obtain ⟨more, summaries, hrows, hoffered, hmore, hsummaries, hordered, hwindow⟩ :=
    @reparse_rows env _ hstore
  have hsamples : env.recognised (env.reparse store).store = [] := by
    obtain ⟨-, hunknowns, -⟩ := @reparse_ok env _ hstore
    refine List.filterMap_eq_nil_iff.2 fun u hu => ?_
    exact (hunknowns u ((List.mem_insertionSort _).1 hu)).2
  have honce : env.ReparsesOnce store ↔
      (env.reparse (env.reparse store).store).store = (env.reparse store).store ∧
        (ReparseRun.start (env.reparse store).store).stats.Idle
          (env.reparse (env.reparse store).store).stats := by
    refine and_congr_right fun _ => ⟨fun h => ?_, fun h => ?_⟩
    · exact ⟨h.1, h.2.1, h.2.2.1, h.2.2.2⟩
    · exact ⟨h.updated, h.promotedUnknowns, h.burstsCollapsed, h.membersSuppressed⟩
  have hzone : env.lastZone
        ((env.rereadAll none store.table.rows).filter (env.remains (env.offered store))) =
      env.lastZone (store.table.rows.filter (env.remains (env.offered store))) :=
    lastZone_congr (bare_filter (bare_rereadAll none _) _)
  have hstays : ∀ seen row, env.remains (env.offered store) (env.reread seen row) =
      env.remains (env.offered store) row := by
    intro seen row
    rw [← remains_bare, bare_reread, remains_bare]
  rw [honce, reparse_eq_iff hordered hsamples, hrows, rereadAll_append_iff, rereadAll_append_iff,
    and_iff_left (rereadAll_summaries hsummaries _), rereadAll_filter_iff henv hstays,
    rereadAll_filter_fresh_iff henv hmore, hzone]
  simp only [Option.or_none, hwindow]
  constructor
  · rintro ⟨⟨hzones, hfresh⟩, hbursts⟩
    refine ⟨hzones, fun before row after heq => ?_, hbursts⟩
    rw [hoffered, List.append_assoc] at heq
    rw [List.filter_append, lastZone_append]
    exact hfresh before row after (List.append_cancel_left heq)
  · rintro ⟨hzones, hfresh, hbursts⟩
    refine ⟨⟨hzones, fun before row after heq => ?_⟩, hbursts⟩
    rw [← lastZone_append, ← List.filter_append]
    refine hfresh before row after ?_
    rw [hoffered, heq, List.append_assoc]

/-- Ingestion leaves a table in order, and so does a re-parse (`reparse_rows`). -/
theorem ordered_ingested (env : IngestEnv) (inferenceRules : List CompiledInferenceRule)
    (enableV2 : Bool) (calls : List (LogFeed × List (String × Nat))) :
    (EventsTable.ingested env inferenceRules enableV2 calls).Ordered :=
  List.foldlRecOn _ _ (motive := EventsTable.Ordered) ⟨.nil, by simp [EventsTable.fresh],
    Int.le_refl _, by simp [EventsTable.fresh]⟩ fun _ h row _ => ordered_insertEvent env h row

end ReparseEnv

/-! ## A death that is promoted -/

/-- A fall of the player, on its first notification, and loads of terrain are recognised. -/
def fallEvent (line : LogLine) : Option GameEvent :=
  if line.eventName = some "SHUDEvent_OnNotification" then
    if "Added notification \"Incapacitated:\" [1]".toList.isPrefixOf line.body.toList then
      some (.playerIncapacitated ⟨line.timestamp, 1, none⟩)
    else none
  else IngestEnv.landingEvent line

def zoneJson : Option String → String
  | some zone => "\"" ++ zone ++ "\""
  | none => "null"

def fallJson (event : GameEvent) : String :=
  match event with
  | .playerDeath e =>
    "\x7b\"type\":\"player_death\",\"timestamp\":\"" ++ e.timestamp ++ "\",\"body_class\":\"" ++
      e.bodyClass ++ "\",\"body_id\":\"" ++ e.bodyId ++ "\",\"zone\":" ++ zoneJson e.zone ++ "\x7d"
  | .playerIncapacitated e =>
    "\x7b\"type\":\"player_incapacitated\",\"timestamp\":\"" ++ e.timestamp ++
      "\",\"queue_id\":" ++ toString e.queueId.toNat ++ ",\"zone\":" ++ zoneJson e.zone ++ "\x7d"
  | event => IngestEnv.landingJson event

/-- The metadata of what was observed up to its provenance. -/
def metadataHead (entity : EntityRef) (groupKey : String) : String :=
  "\x7b\"primary_entity\":\x7b\"kind\":\"" ++ entityKindKey entity.kind ++ "\",\"id\":\"" ++ entity.id ++
    "\",\"display_name\":\"" ++ entity.displayName ++
    "\"\x7d,\"source\":\"observed\",\"confidence\":1.0,\"group_key\":\"" ++ groupKey ++ "\""

/-- The provenance of one field that was inferred from one row. -/
def provenanceJson : List (String × FieldProvenance) → String × String × String
  | [(field, .inferredFrom [key] ruleId)] =>
    (",\"field_provenance\":\x7b\"" ++ field ++
      "\":\x7b\"type\":\"inferred_from\",\"source_event_ids\":[\"", key,
      "\"],\"rule_id\":\"" ++ ruleId ++ "\"\x7d\x7d\x7d")
  | _ => ("", "", "\x7d")

def fallMetadataJson (m : EventMetadata) : String :=
  metadataHead m.primaryEntity m.groupKey ++ (provenanceJson m.fieldProvenance).1 ++
    (provenanceJson m.fieldProvenance).2.1 ++ (provenanceJson m.fieldProvenance).2.2

/-- Keys are not hashed. -/
def fallEnv : ReparseEnv where
  classify := fallEvent
  applyRemoteRules _ := none
  observed line s := by
    refine ⟨?_, by simp⟩
    unfold fallEvent
    split
    · split <;> simp
    · exact (IngestEnv.landingEnv.observed line s).1
  toJson := fallJson
  toLowercase := Text.lower
  newV5 := id
  parseTs _ := none
  metadataToJson := fallMetadataJson

/-- Terrain was loaded, and an older parser did not know the notification of the fall. -/
def fallStore : ReparseStore where
  table := .ingested fallEnv.toIngestEnv [] false
    [(⟨.live, none⟩, [("<1> <InvalidateAllTerrainCells> Planet OOC_A", 0)])]
  unknowns :=
    [⟨"live", "SHUDEvent_OnNotification", 1, "1",
      "<2> <SHUDEvent_OnNotification> Added notification \"Incapacitated:\" [1] to queue."⟩]

theorem zoneJson_injective : Function.Injective zoneJson := by
  intro zone zone' h
  have hchars := congrArg String.toList h
  cases zone with
  | none =>
    cases zone' with
    | none => rfl
    | some z' => simp [zoneJson] at hchars
  | some z =>
    cases zone' with
    | none => simp [zoneJson] at hchars
    | some z' =>
      simp only [zoneJson, String.toList_append] at hchars
      have hz := List.append_cancel_left (List.append_cancel_right hchars)
      rw [String.toList_inj.1 hz]

theorem append_cancel {before after s s' : String} (h : before ++ s ++ after = before ++ s' ++ after) :
    s = s' := by
  have hchars := congrArg String.toList h
  simp only [String.toList_append] at hchars
  exact String.toList_inj.1 (List.append_cancel_left (List.append_cancel_right hchars))

theorem fallEnv_zonesShow : fallEnv.ZonesShow where
  payload event seen seen' h := by
    by_cases ha : event.awaitsZone = true
    · cases event with
      | playerDeath d =>
        have hnone : d.zone = none := Option.isNone_iff_eq_none.1 ha
        simp only [enrichZone, hnone, Option.isNone_none, if_true, ReparseEnv.fill_of] at h ⊢
        have hzone := zoneJson_injective (append_cancel h)
        rw [show seen.map (·.1) = seen'.map (·.1) from hzone]
      | playerIncapacitated i =>
        have hnone : i.zone = none := Option.isNone_iff_eq_none.1 ha
        simp only [enrichZone, hnone, Option.isNone_none, if_true, ReparseEnv.fill_of] at h ⊢
        have hzone := zoneJson_injective (append_cancel h)
        rw [show seen.map (·.1) = seen'.map (·.1) from hzone]
      | _ => cases ha
    · rw [ReparseEnv.enrichZone_of_not_awaits (Bool.eq_false_iff.2 ha),
        ReparseEnv.enrichZone_of_not_awaits (Bool.eq_false_iff.2 ha)]
  metadata event key key' h := by
    exact append_cancel (show metadataHead (stamp event none).primaryEntity
      (stamp event none).groupKey ++ _ ++ key ++ _ = metadataHead (stamp event none).primaryEntity
      (stamp event none).groupKey ++ _ ++ key' ++ _ from h)

/-- A death that was ingested has its zone after one re-parse. -/
theorem reparse_settled :
    fallEnv.Settled ⟨.ingested fallEnv.toIngestEnv [] false
      [(⟨.live, none⟩, [("<1> <InvalidateAllTerrainCells> Planet OOC_A", 0)]),
        (⟨.live, none⟩,
          [("<2> <SHUDEvent_OnNotification> Added notification \"Incapacitated:\" [1] to queue.",
            45)])], []⟩ :=
  (ReparseEnv.reparse_once_iff fallEnv_zonesShow (ReparseEnv.ordered_ingested _ _ _ _)).1
    (by decide +kernel)

/-- A death that was promoted has its zone after the second. -/
theorem reparse_not_once :
    ¬ ∀ (env : ReparseEnv) (inferenceRules : List CompiledInferenceRule) (enableV2 : Bool)
      (calls : List (LogFeed × List (String × Nat))) (unknowns : List UnknownSample),
      env.ReparsesOnce ⟨.ingested env.toIngestEnv inferenceRules enableV2 calls, unknowns⟩ := by
  intro h
  have hstore : fallEnv.ReparsesOnce fallStore := h fallEnv [] false _ _
  revert hstore
  decide +kernel

end StarStats
