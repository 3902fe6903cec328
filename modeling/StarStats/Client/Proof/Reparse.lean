import Mathlib.Data.List.Dedup
import StarStats.Client.Proof.Stored
import StarStats.Client.ReparseAgain
import StarStats.Core.Proof.TimedBursts
import StarStats.Lib.Paging

/-!
# What a re-parse leaves

Where no storage call fails, the three phases of a re-parse are three functions of the rows:
`rereadAll` (`walkEvents_ok`), the inserts of the recognised samples (`promote_ok`) and the removal
of the lines in bursts (`collapseSources_ok`).
-/

namespace StarStats

open EventsTable (Classification)

/-- The calls that have counted nothing. -/
structure ReparseStats.Idle (stats stats' : ReparseStats) : Prop where
  updated : stats'.updated = stats.updated
  promotedUnknowns : stats'.promotedUnknowns = stats.promotedUnknowns
  burstsCollapsed : stats'.burstsCollapsed = stats.burstsCollapsed
  membersSuppressed : stats'.membersSuppressed = stats.membersSuppressed

theorem ReparseStats.Idle.refl (stats : ReparseStats) : stats.Idle stats := ⟨rfl, rfl, rfl, rfl⟩

theorem ReparseStats.Idle.trans {a b c : ReparseStats} (h : a.Idle b) (h' : b.Idle c) : a.Idle c :=
  ⟨h'.updated.trans h.updated, h'.promotedUnknowns.trans h.promotedUnknowns,
    h'.burstsCollapsed.trans h.burstsCollapsed, h'.membersSuppressed.trans h.membersSuppressed⟩

namespace ReparseEnv

variable {env : ReparseEnv}

/-! ## The first phase -/

/-- A row as the first phase leaves it. -/
def reread (env : ReparseEnv) (seen : Option (String × String)) (row : LocalRow) : LocalRow :=
  if row.eventType = "burst_summary" then row
  else
    match env.reading row.raw with
    | none => row
    | some event =>
      let enriched := enrichZone (.of seen) event
      EventsTable.reclassified (env.serialiseForReparse enriched.1)
        (env.buildZoneMetadataJson enriched.1 enriched.2) row

def rereadAll (env : ReparseEnv) (seen : Option (String × String)) : List LocalRow → List LocalRow
  | [] => []
  | row :: rest =>
    env.reread ((env.zoneOf row).or seen) row :: rereadAll env ((env.zoneOf row).or seen) rest

/-- The first phase does not write a row that it would leave as it is. -/
theorem reclassified_eq_self {row : LocalRow} {c : Classification} {metadata : Option String} :
    EventsTable.reclassified c metadata row = row ↔ dirty row c metadata = false := by
  obtain ⟨⟨key, eventType, timestamp, raw, payload, logSource, offset⟩, id, stored, sent, content⟩ :=
    row
  obtain ⟨eventType', timestamp', payload'⟩ := c
  simp only [EventsTable.reclassified, dirty, EventsRow.classification, LocalRow.mk.injEq,
    EventsRow.mk.injEq, Classification.mk.injEq, Bool.or_eq_false_iff, decide_eq_false_iff_not,
    ne_eq, Decidable.not_not, Bool.and_eq_false_iff, and_true, true_and]
  cases metadata with
  | none => simp [eq_comm]
  | some m => cases stored <;> simp [eq_comm]

/-- Only the row of the id is changed. -/
theorem updated_rows {before after : List LocalRow} {row : LocalRow} {c : Classification}
    {metadata : Option String} (hids : (before ++ row :: after).Pairwise (·.id < ·.id)) :
    (before ++ row :: after).map (fun r => if r.id = row.id then
        EventsTable.reclassified c metadata r else r) =
      before ++ EventsTable.reclassified c metadata row :: after := by
  obtain ⟨-, hrow, hbefore⟩ := List.pairwise_append.1 hids
  have hafter := (List.pairwise_cons.1 hrow).1
  rw [List.map_append, List.map_cons, if_pos rfl]
  congr 1
  · refine (List.map_congr_left fun r hr => ?_).trans (List.map_id _)
    have := hbefore r hr row List.mem_cons_self
    rw [if_neg (by omega)]
    rfl
  · congr 1
    refine (List.map_congr_left fun r hr => ?_).trans (List.map_id _)
    have := hafter r hr
    rw [if_neg (by omega)]
    rfl

/-- Nothing has failed from one run to the other and, when `idle`, nothing was done. -/
structure Follows (run run' : ReparseRun) (idle : Prop) : Prop where
  error : run'.stats.error = run.stats.error
  warnings : run'.warnings = run.warnings
  stats : idle → run.stats.Idle run'.stats
  store : idle → run'.store = run.store

theorem Follows.refl (run : ReparseRun) (idle : Prop) : Follows run run idle :=
  ⟨rfl, rfl, fun _ => .refl _, fun _ => rfl⟩

theorem Follows.trans {a b c : ReparseRun} {p q r : Prop} (h : Follows a b p) (h' : Follows b c q)
    (hidle : r → p ∧ q) : Follows a c r :=
  ⟨h'.error.trans h.error, h'.warnings.trans h.warnings,
    fun hr => (h.stats (hidle hr).1).trans (h'.stats (hidle hr).2),
    fun hr => (h'.store (hidle hr).2).trans (h.store (hidle hr).1)⟩

section
variable {run : ReparseRun} {before after : List LocalRow} {row : LocalRow}
  (hrows : run.store.table.rows = before ++ row :: after)
  (hids : (before ++ row :: after).Pairwise (·.id < ·.id))
include hrows

/-- The store with another row in the place. -/
def withRow (run : ReparseRun) (before : List LocalRow) (row : LocalRow) (after : List LocalRow) :
    ReparseStore :=
  ⟨⟨before ++ row :: after, run.store.table.lastId⟩, run.store.unknowns⟩

theorem withRow_self : withRow run before row after = run.store := by
  rw [withRow, ← hrows]

include hids

theorem storeReading_ok (c : Classification) (metadata : Option String) :
    ∃ run', storeReading (fun _ => none) run row c metadata = .ok run' ∧
      run'.store = withRow run before (EventsTable.reclassified c metadata row) after ∧
      Follows run run' (EventsTable.reclassified c metadata row = row) := by
  simp only [storeReading]
  split
  case isTrue hdirty =>
    have hdiffers : EventsTable.reclassified c metadata row ≠ row := fun hsame => by
      rw [reclassified_eq_self.1 hsame] at hdirty
      cases hdirty
    refine ⟨_, rfl, ?_, rfl, rfl, fun hsame => absurd hsame hdiffers, fun hsame =>
      absurd hsame hdiffers⟩
    simp only [EventsTable.updateEventClassification, withRow, hrows, updated_rows hids]
  case isFalse hclean =>
    have hsame := reclassified_eq_self.2 (Bool.eq_false_iff.2 hclean)
    refine ⟨run, rfl, ?_, .refl _ _⟩
    rw [hsame, withRow_self hrows]

/-- What the walk does with one row. -/
theorem reparseRow_ok (env : ReparseEnv) (seen : Option (String × String)) :
    ∃ run', env.reparseRow (fun _ => none) (.of seen) run row =
        (.of ((env.zoneOf row).or seen), .ok run') ∧
      run'.store = withRow run before (env.reread ((env.zoneOf row).or seen) row) after ∧
      Follows run run' (env.reread ((env.zoneOf row).or seen) row = row) := by
  unfold reparseRow
  by_cases hsummary : row.eventType = "burst_summary"
  · have hzone : env.zoneOf row = none := if_pos hsummary
    simp only [if_pos hsummary, hzone, Option.none_or, reread]
    exact ⟨run, rfl, (withRow_self hrows).symm, .refl _ _⟩
  · cases hreading : env.reading row.raw with
    | none =>
      have hzone : env.zoneOf row = none := by
        rw [zoneOf, if_neg hsummary, hreading]
        rfl
      simp only [if_neg hsummary, hzone, Option.none_or, reread, hreading]
      exact ⟨_, rfl, (withRow_self hrows).symm, rfl, rfl, fun _ => ⟨rfl, rfl, rfl, rfl⟩,
        fun _ => rfl⟩
    | some event =>
      have hzone : observeRow (.of seen) row event = .of ((env.zoneOf row).or seen) := by
        rw [zoneOf, if_neg hsummary, hreading, Option.bind_some, observeRow]
        cases zoneSignal event <;> rfl
      simp only [if_neg hsummary, reread, hreading, hzone]
      obtain ⟨run', hstore, hrun'⟩ := storeReading_ok hrows hids
        (env.serialiseForReparse (enrichZone (.of ((env.zoneOf row).or seen)) event).1)
        (env.buildZoneMetadataJson (enrichZone (.of ((env.zoneOf row).or seen)) event).1
          (enrichZone (.of ((env.zoneOf row).or seen)) event).2)
      exact ⟨run', by rw [hstore], hrun'⟩

end

theorem reread_id (seen : Option (String × String)) (row : LocalRow) :
    (env.reread seen row).id = row.id := by
  unfold reread
  repeat' split
  all_goals rfl

theorem rereadAll_ids (seen : Option (String × String)) (rows : List LocalRow) :
    (env.rereadAll seen rows).map (·.id) = rows.map (·.id) := by
  induction rows generalizing seen with
  | nil => rfl
  | cons row rest ih => rw [rereadAll, List.map_cons, List.map_cons, ih, reread_id]

theorem ascending_of_ids {rows rows' : List LocalRow} (h : rows'.map (·.id) = rows.map (·.id))
    (hrows : rows.Pairwise (·.id < ·.id)) : rows'.Pairwise (·.id < ·.id) := by
  rw [← List.pairwise_map (R := (· < ·))] at hrows ⊢
  rwa [h]

/-- The first phase. -/
theorem walkEvents_ok (env : ReparseEnv) {run : ReparseRun} {before rows : List LocalRow}
    (hrows : run.store.table.rows = before ++ rows)
    (hids : (before ++ rows).Pairwise (·.id < ·.id)) (seen : Option (String × String))
    (id : Int) (left : Nat) :
    (env.walkEvents (fun _ => none) (.of seen) run id left rows).store =
        ⟨⟨before ++ env.rereadAll seen rows, run.store.table.lastId⟩, run.store.unknowns⟩ ∧
      Follows run (env.walkEvents (fun _ => none) (.of seen) run id left rows)
        (env.rereadAll seen rows = rows) := by
  induction rows generalizing run before seen id left with
  | nil =>
    simp only [walkEvents, rereadAll]
    refine ⟨?_, .refl _ _⟩
    rw [← hrows]
  | cons row rest ih =>
    obtain ⟨run', hrow, hstore, hfollows⟩ := reparseRow_ok
      (show run.examine.store.table.rows = before ++ row :: rest from hrows) hids env seen
    have hrows' : run'.store.table.rows =
        (before ++ [env.reread ((env.zoneOf row).or seen) row]) ++ rest := by
      rw [hstore, List.append_assoc]
      rfl
    have hids' : ((before ++ [env.reread ((env.zoneOf row).or seen) row]) ++ rest).Pairwise
        (·.id < ·.id) := by
      refine ascending_of_ids ?_ hids
      simp only [List.map_append, List.map_cons, reread_id, List.append_assoc,
        List.singleton_append]
    simp only [walkEvents, ite_self, hrow, rereadAll]
    obtain ⟨hrest, hfollows'⟩ := ih hrows' hids' ((env.zoneOf row).or seen) row.id
      ((if left = 0 then reparseBatch else left) - 1)
    refine ⟨?_, ?_⟩
    · rw [hrest, hstore, List.append_assoc]
      rfl
    · have hexamined : Follows run run.examine True :=
        ⟨rfl, rfl, fun _ => ⟨rfl, rfl, rfl, rfl⟩, fun _ => rfl⟩
      refine (hexamined.trans hfollows fun h => ⟨trivial, h⟩).trans hfollows' fun h => ?_
      exact List.cons_eq_cons.1 h

/-! ## The second phase -/

/-- A row as `insert_event` stores it. -/
def newRow (env : IngestEnv) (t : EventsTable) (row : EventsRow) : LocalRow :=
  ⟨row, t.lastId + 1, none, none, env.contentKey row⟩

theorem insertEvent_eq (env : IngestEnv) (t : EventsTable) (row : EventsRow) :
    (t.insertEvent env row).1 = t ∨
      (t.insertEvent env row).1 = ⟨t.rows ++ [newRow env t row], t.lastId + 1⟩ := by
  unfold EventsTable.insertEvent
  dsimp only
  split
  · exact .inl rfl
  · split
    · exact .inl rfl
    · exact .inr rfl

/-- The inserts of rows in turn. -/
def insertRows (env : ReparseEnv) (t : EventsTable) (rows : List EventsRow) : EventsTable :=
  rows.foldl (fun t row => (t.insertEvent env.toIngestEnv row).1) t

theorem promote_ok (run : ReparseRun) (sample : UnknownSample) :
    (env.promote (fun _ => none) run sample).store =
      (match env.promotedRow sample with
      | none => run.store
      | some row => ⟨(run.store.table.insertEvent env.toIngestEnv row).1,
          deleteUnknown run.store.unknowns sample.logSource sample.eventName⟩) ∧
      Follows run (env.promote (fun _ => none) run sample) (env.promotedRow sample = none) := by
  unfold promote
  cases hrow : env.promotedRow sample with
  | none => exact ⟨rfl, .refl _ _⟩
  | some row => exact ⟨rfl, rfl, rfl, fun h => absurd h (by simp), fun h => absurd h (by simp)⟩

/-- What is left of the samples. -/
theorem mem_deleteUnknown {unknowns : List UnknownSample} {source name : String}
    {u : UnknownSample} (h : u ∈ deleteUnknown unknowns source name) :
    u ∈ unknowns ∧ (u.logSource = source → u.eventName ≠ name) := by
  simpa [deleteUnknown, imp_iff_not_or] using h

theorem promotes_ok (env : ReparseEnv) (run : ReparseRun) (samples : List UnknownSample) :
    (samples.foldl (env.promote (fun _ => none)) run).store.table =
        env.insertRows run.store.table (samples.filterMap env.promotedRow) ∧
      (∀ u ∈ (samples.foldl (env.promote (fun _ => none)) run).store.unknowns,
        u ∈ run.store.unknowns ∧ (u ∈ samples → env.promotedRow u = none)) ∧
      Follows run (samples.foldl (env.promote (fun _ => none)) run)
        (samples.filterMap env.promotedRow = []) := by
  induction samples generalizing run with
  | nil => exact ⟨rfl, fun u hu => ⟨hu, fun h => absurd h List.not_mem_nil⟩, .refl _ _⟩
  | cons sample samples ih =>
    obtain ⟨hstore, hfollows⟩ := env.promote_ok run sample
    obtain ⟨htable, hunknowns, hrest⟩ := ih (env.promote (fun _ => none) run sample)
    rw [List.foldl_cons, List.filterMap_cons, htable, hstore]
    rw [hstore] at hunknowns
    cases hrow : env.promotedRow sample with
    | none =>
      rw [hrow] at hunknowns
      refine ⟨rfl, fun u hu => ?_, hfollows.trans hrest fun h => ⟨hrow, h⟩⟩
      obtain ⟨hmem, hdone⟩ := hunknowns u hu
      refine ⟨hmem, fun h => ?_⟩
      rcases List.mem_cons.1 h with rfl | h
      · exact hrow
      · exact hdone h
    | some row =>
      rw [hrow] at hunknowns
      refine ⟨rfl, fun u hu => ?_, hfollows.trans hrest fun h => absurd h (by simp)⟩
      obtain ⟨hmem, hdone⟩ := hunknowns u hu
      obtain ⟨hmem, hother⟩ := mem_deleteUnknown hmem
      refine ⟨hmem, fun h => ?_⟩
      rcases List.mem_cons.1 h with rfl | h
      · exact absurd rfl (hother rfl)
      · exact hdone h

/-! ## The third phase -/

/-- The rows of `ids` are gone, and summaries have come. -/
structure Collapsed (t t' : EventsTable) (ids : List Int) : Prop where
  lastId : t.lastId ≤ t'.lastId
  rows : ∃ summaries, t'.rows = t.rows.filter (·.id ∉ ids) ++ summaries ∧
    (∀ r ∈ summaries, r.eventType = "burst_summary" ∧ t.lastId < r.id ∧ r.id ≤ t'.lastId) ∧
    summaries.Pairwise (·.id < ·.id)

theorem Collapsed.refl (t : EventsTable) : Collapsed t t [] :=
  ⟨Int.le_refl _, [], by simp, by simp, .nil⟩

theorem Collapsed.trans {t t' t'' : EventsTable} {ids ids' : List Int} (h : Collapsed t t' ids)
    (h' : Collapsed t' t'' ids') (hids' : ∀ id ∈ ids', id ≤ t.lastId) :
    Collapsed t t'' (ids ++ ids') := by
  obtain ⟨hlast, summaries, hrows, hsummaries, hasc⟩ := h
  obtain ⟨hlast', summaries', hrows', hsummaries', hasc'⟩ := h'
  have hkept : summaries.filter (·.id ∉ ids') = summaries := by
    rw [List.filter_eq_self]
    intro r hr
    have := (hsummaries r hr).2.1
    refine decide_eq_true fun hmem => ?_
    have := hids' r.id hmem
    omega
  refine ⟨hlast.trans hlast', summaries ++ summaries', ?_, fun r hr => ?_, ?_⟩
  · rw [hrows', hrows, List.filter_append, hkept, List.filter_filter, List.append_assoc]
    congr 2
    funext r
    simp only [List.mem_append, not_or, Bool.decide_and, Bool.and_comm]
  · rcases List.mem_append.1 hr with hr | hr
    · obtain ⟨htype, hlt, hle⟩ := hsummaries r hr
      exact ⟨htype, hlt, hle.trans hlast'⟩
    · obtain ⟨htype, hlt, hle⟩ := hsummaries' r hr
      exact ⟨htype, by omega, hle⟩
  · refine List.pairwise_append.2 ⟨hasc, hasc', fun r hr r' hr' => ?_⟩
    have := (hsummaries r hr).2.2
    have := (hsummaries' r' hr').2.1
    omega

theorem Collapsed.ordered {t t' : EventsTable} {ids : List Int} (h : Collapsed t t' ids)
    (ht : t.Ordered) : t'.Ordered := by
  obtain ⟨hle, summaries, hrows, hsummaries, hasc⟩ := h
  have hnonneg := ht.nonneg
  refine ⟨?_, ?_, hnonneg.trans hle, ?_⟩
  · rw [hrows]
    refine List.pairwise_append.2 ⟨ht.ascending.filter _, hasc, fun r hr r' hr' => ?_⟩
    have := ht.bounded r (List.mem_of_mem_filter hr)
    have := (hsummaries r' hr').2.1
    omega
  · intro r hr
    rw [hrows] at hr
    rcases List.mem_append.1 hr with hr | hr
    · exact ht.positive r (List.mem_of_mem_filter hr)
    · have := (hsummaries r hr).2.1
      omega
  · intro r hr
    rw [hrows] at hr
    rcases List.mem_append.1 hr with hr | hr
    · exact (ht.bounded r (List.mem_of_mem_filter hr)).trans hle
    · exact (hsummaries r hr).2.2

/-- A summary is one row more, if it is new. -/
theorem insertEvent_collapsed (env : IngestEnv) (t : EventsTable) {row : EventsRow}
    (hrow : row.eventType = "burst_summary") : Collapsed t (t.insertEvent env row).1 [] := by
  rcases insertEvent_eq env t row with heq | heq
  · rw [heq]
    exact .refl t
  · rw [heq]
    refine ⟨by dsimp only; omega, [newRow env t row], ?_, fun r hr => ?_,
      List.pairwise_singleton _ _⟩
    · rw [List.filter_eq_self.2 (by simp)]
    · obtain rfl := List.mem_singleton.1 hr
      exact ⟨hrow, by simp only [newRow]; omega, Int.le_refl _⟩

theorem deleteMembers_ok (run : ReparseRun) (ids : List Int) :
    (ids.foldl (deleteMember (fun _ => none)) run).store =
        ⟨⟨run.store.table.rows.filter (·.id ∉ ids), run.store.table.lastId⟩,
          run.store.unknowns⟩ ∧
      Follows run (ids.foldl (deleteMember (fun _ => none)) run) False := by
  induction ids generalizing run with
  | nil =>
    refine ⟨?_, .refl _ _⟩
    simp
  | cons id ids ih =>
    obtain ⟨hstore, hfollows⟩ := ih (deleteMember (fun _ => none) run id)
    have hdeleted : Follows run (deleteMember (fun _ => none) run id) False :=
      ⟨rfl, rfl, False.elim, False.elim⟩
    refine ⟨?_, hdeleted.trans hfollows fun h => ⟨h, h⟩⟩
    rw [List.foldl_cons, hstore]
    simp only [deleteMember, EventsTable.deleteEventById, List.filter_filter, List.mem_cons, not_or,
      Bool.decide_and, Bool.and_comm, ne_eq]

/-! ### Windows -/

instance : Std.Total EventsTable.scanOrder := ⟨fun r r' => by
  unfold EventsTable.scanOrder
  omega⟩

instance : IsTrans LocalRow EventsTable.scanOrder := ⟨fun r r' r'' h h' => by
  unfold EventsTable.scanOrder at *
  omega⟩

/-- The rows of a source that are no summaries. -/
def scanned (source : String) (row : LocalRow) : Bool :=
  row.logSource = source && row.eventType ≠ "burst_summary"

theorem eq_of_id {rows : List LocalRow} (h : rows.Pairwise (·.id < ·.id)) {r r' : LocalRow}
    (hr : r ∈ rows) (hr' : r' ∈ rows) (hid : r.id = r'.id) : r = r' := by
  by_contra hne
  have hsymm : rows.Pairwise fun x y => x.id ≠ y.id := h.imp fun hlt => by omega
  have : Std.Symm fun x y : LocalRow => x.id ≠ y.id := ⟨fun _ _ h => h.symm⟩
  exact hsymm.forall hr hr' hne hid

/-- The summaries and the other sources do not matter to a window. -/
theorem retroWindow_eq {t : EventsTable} (h : t.rows.Pairwise (·.id < ·.id)) (source : String) :
    retroWindow t source =
      ((t.rows.filter (scanned source)).insertionSort EventsTable.scanOrder).filterMap
        fun row => (structuralParse row.raw).map (row, ·) := by
  have hsource : ∀ x ∈ t.rows.filter (·.logSource = source),
      ∀ y ∈ t.rows.filter (·.logSource = source), EventsTable.scanOrder x y →
        EventsTable.scanOrder y x → x = y := by
    intro x hx y hy hxy hyx
    refine eq_of_id h (List.mem_of_mem_filter hx) (List.mem_of_mem_filter hy) ?_
    unfold EventsTable.scanOrder at hxy hyx
    omega
  rw [retroWindow, retroLines, EventsTable.eventsForBurstScan,
    ← Paging.insertionSort_filter hsource, List.filter_filter]
  congr 2
  refine List.filter_congr fun r _ => ?_
  simp only [scanned, Bool.and_comm]

theorem mem_retroWindow {t : EventsTable} {source : String} {p : LocalRow × LogLine}
    (h : p ∈ retroWindow t source) : p.1 ∈ t.rows ∧ p.1.logSource = source := by
  obtain ⟨row, hrow, hline⟩ := List.mem_filterMap.1 h
  obtain ⟨line, -, rfl⟩ := Option.map_eq_some_iff.1 hline
  have hrow := (List.mem_insertionSort _).1 (List.mem_of_mem_filter hrow)
  simpa using hrow

theorem mem_collapsedIds {t : EventsTable} {source : String} {id : Int}
    (h : id ∈ env.collapsedIds t source) : ∃ r ∈ t.rows, r.id = id ∧ r.logSource = source := by
  obtain ⟨hit, -, hid⟩ := List.mem_flatMap.1 h
  obtain ⟨p, hp, rfl⟩ := List.mem_map.1 hid
  obtain ⟨i, -, hi⟩ := List.mem_filterMap.1 hp
  obtain ⟨hmem, hsource⟩ := mem_retroWindow (List.mem_of_getElem? hi)
  exact ⟨p.1, hmem, rfl, hsource⟩

/-- Where the bursts of other sources were collapsed, a window is as before. -/
theorem Collapsed.retroWindow_eq {t t' : EventsTable} {ids : List Int} (h : Collapsed t t' ids)
    (ht : t.Ordered) {source : String}
    (hother : ∀ r ∈ t.rows, r.logSource = source → r.id ∉ ids) :
    retroWindow t' source = retroWindow t source := by
  rw [ReparseEnv.retroWindow_eq (h.ordered ht).ascending,
    ReparseEnv.retroWindow_eq ht.ascending]
  obtain ⟨-, summaries, hrows, hsummaries, -⟩ := h
  have hnone : summaries.filter (scanned source) = [] := by
    rw [List.filter_eq_nil_iff]
    intro r hr
    simp [scanned, (hsummaries r hr).1]
  rw [hrows, List.filter_append, hnone, List.append_nil, List.filter_filter]
  congr 2
  refine List.filter_congr fun r hr => ?_
  by_cases hsource : r.logSource = source
  · simp [hother r hr hsource]
  · simp [scanned, hsource]

/-! ### Bursts -/

theorem mem_retroHits {parsed : List (LocalRow × LogLine)} {hit : BurstHit}
    (h : hit ∈ env.retroHits parsed) :
    hit.startIndex ∈ hit.memberIndices ∧ hit.endIndex ∈ hit.memberIndices ∧
      ∀ p ∈ hit.memberIndices, p < parsed.length := by
  unfold retroHits at h
  split at h
  · cases h
  · simpa using mem_detectBurstsWithTimeGap h

/-- The ids of the rows of a burst. -/
def memberIds (parsed : List (LocalRow × LogLine)) (hit : BurstHit) : List Int :=
  (hit.memberIndices.filterMap (parsed[·]?)).map (·.1.id)

theorem collapse_ok (run : ReparseRun) (source : String) {parsed : List (LocalRow × LogLine)}
    {hit : BurstHit} (hhit : hit ∈ env.retroHits parsed)
    (hbound : ∀ p ∈ parsed, p.1.id ≤ run.store.table.lastId) :
    Collapsed run.store.table (env.collapse (fun _ => none) source parsed run hit).store.table
        (memberIds parsed hit) ∧
      (env.collapse (fun _ => none) source parsed run hit).store.unknowns = run.store.unknowns ∧
      Follows run (env.collapse (fun _ => none) source parsed run hit) False := by
  obtain ⟨hstart, hend, hlt⟩ := mem_retroHits hhit
  obtain ⟨anchor, hanchor⟩ : ∃ anchor, parsed[hit.startIndex]? = some anchor :=
    ⟨_, List.getElem?_eq_getElem (hlt _ hstart)⟩
  obtain ⟨last, hlast⟩ : ∃ last, parsed[hit.endIndex]? = some last :=
    ⟨_, List.getElem?_eq_getElem (hlt _ hend)⟩
  simp only [collapse, hanchor, hlast]
  generalize hrow : env.summaryRow source hit _ _ _ _ = row
  have hsummary : row.eventType = "burst_summary" := by
    rw [← hrow]
    rfl
  have hinsert := insertEvent_collapsed env.toIngestEnv run.store.table hsummary
  generalize (run.store.table.insertEvent env.toIngestEnv row).1 = inserted at hinsert ⊢
  obtain ⟨hstore, hfollows⟩ := deleteMembers_ok
    ⟨⟨inserted, run.store.unknowns⟩, run.stats, run.warnings⟩ (memberIds parsed hit)
  rw [← memberIds, hstore]
  refine ⟨?_, rfl, hfollows.error, hfollows.warnings, False.elim, False.elim⟩
  have hdelete : Collapsed inserted
      ⟨inserted.rows.filter (·.id ∉ memberIds parsed hit), inserted.lastId⟩
      (memberIds parsed hit) := ⟨Int.le_refl _, [], (List.append_nil _).symm, by simp, .nil⟩
  refine hinsert.trans hdelete fun id hid => ?_
  obtain ⟨p, hp, rfl⟩ := List.mem_map.1 hid
  obtain ⟨i, -, hi⟩ := List.mem_filterMap.1 hp
  exact hbound p (List.mem_of_getElem? hi)

theorem collapses_ok (run : ReparseRun) (source : String) {parsed : List (LocalRow × LogLine)}
    {hits : List BurstHit} (hhits : ∀ hit ∈ hits, hit ∈ env.retroHits parsed)
    (hbound : ∀ p ∈ parsed, p.1.id ≤ run.store.table.lastId) :
    Collapsed run.store.table
        (hits.foldl (env.collapse (fun _ => none) source parsed) run).store.table
        (hits.flatMap (memberIds parsed)) ∧
      (hits.foldl (env.collapse (fun _ => none) source parsed) run).store.unknowns =
        run.store.unknowns ∧
      Follows run (hits.foldl (env.collapse (fun _ => none) source parsed) run) (hits = []) := by
  induction hits generalizing run with
  | nil => exact ⟨.refl _, rfl, .refl _ _⟩
  | cons hit hits ih =>
    obtain ⟨hone, hunknowns, hfollows⟩ := collapse_ok run source
      (hhits hit List.mem_cons_self) hbound
    obtain ⟨hrest, hunknowns', hfollows'⟩ := ih
      (env.collapse (fun _ => none) source parsed run hit)
      (fun hit hmem => hhits hit (.tail _ hmem)) fun p hp => (hbound p hp).trans hone.lastId
    rw [List.foldl_cons, List.flatMap_cons]
    refine ⟨hone.trans hrest fun id hid => ?_, hunknowns'.trans hunknowns,
      hfollows.trans hfollows' fun h => absurd h (by simp)⟩
    obtain ⟨hit', -, hid⟩ := List.mem_flatMap.1 hid
    obtain ⟨p, hp, rfl⟩ := List.mem_map.1 hid
    obtain ⟨i, -, hi⟩ := List.mem_filterMap.1 hp
    exact hbound p (List.mem_of_getElem? hi)

theorem collapseSource_ok (env : ReparseEnv) {run : ReparseRun} (h : run.store.table.Ordered) (source : String) :
    Collapsed run.store.table (env.collapseSource (fun _ => none) run source).store.table
        (env.collapsedIds run.store.table source) ∧
      (env.collapseSource (fun _ => none) run source).store.unknowns = run.store.unknowns ∧
      Follows run (env.collapseSource (fun _ => none) run source)
        (env.retroHits (retroWindow run.store.table source) = []) :=
  collapses_ok run source (fun _ h => h) fun p hp => h.bounded p.1 (mem_retroWindow hp).1

/-- The third phase. -/
theorem collapseSources_ok {t : EventsTable} (ht : t.Ordered) {run : ReparseRun}
    (done sources : List String) (hsources : (done ++ sources).Nodup)
    (h : Collapsed t run.store.table (done.flatMap (env.collapsedIds t))) :
    Collapsed t (sources.foldl (env.collapseSource (fun _ => none)) run).store.table
        ((done ++ sources).flatMap (env.collapsedIds t)) ∧
      (sources.foldl (env.collapseSource (fun _ => none)) run).store.unknowns =
        run.store.unknowns ∧
      Follows run (sources.foldl (env.collapseSource (fun _ => none)) run)
        (∀ source ∈ sources, env.retroHits (retroWindow t source) = []) := by
  induction sources generalizing run done with
  | nil =>
    rw [List.append_nil]
    exact ⟨h, rfl, .refl _ _⟩
  | cons source sources ih =>
    have hnew : source ∉ done := fun hmem =>
      (List.nodup_append.1 hsources).2.2 source hmem source List.mem_cons_self rfl
    have hwindow : retroWindow run.store.table source = retroWindow t source := by
      refine h.retroWindow_eq ht fun r hr hsource hmem => ?_
      obtain ⟨other, hother, hid⟩ := List.mem_flatMap.1 hmem
      obtain ⟨r', hr', heq, hsource'⟩ := mem_collapsedIds hid
      obtain rfl := eq_of_id ht.ascending hr' hr heq
      exact hnew (hsource.symm.trans hsource' ▸ hother)
    obtain ⟨hone, hunknowns, hfollows⟩ := collapseSource_ok env (h.ordered ht) source
    have hids : env.collapsedIds run.store.table source = env.collapsedIds t source := by
      rw [collapsedIds, hwindow]
      rfl
    rw [hids] at hone
    rw [hwindow] at hfollows
    have hdone : Collapsed t (env.collapseSource (fun _ => none) run source).store.table
        ((done ++ [source]).flatMap (env.collapsedIds t)) := by
      rw [List.flatMap_append, List.flatMap_singleton]
      refine h.trans hone fun id hid => ?_
      obtain ⟨r, hr, rfl, -⟩ := mem_collapsedIds hid
      exact ht.bounded r hr
    obtain ⟨hrest, hunknowns', hfollows'⟩ := ih (done ++ [source])
      (by rwa [List.append_assoc]) hdone
    rw [List.append_assoc] at hrest
    refine ⟨hrest, hunknowns'.trans hunknowns, hfollows.trans hfollows' fun hall => ?_⟩
    exact ⟨hall source List.mem_cons_self, fun other hmem => hall other (.tail _ hmem)⟩

/-! ## The re-parse -/

theorem byId_eq {t : EventsTable} (h : t.Ordered) : t.byId = t.rows := by
  have hpositive : t.rows.filter (0 < ·.id) = t.rows :=
    List.filter_eq_self.2 fun r hr => decide_eq_true (h.positive r hr)
  rw [EventsTable.byId, hpositive]
  exact (h.ascending.imp fun hlt => Int.le_of_lt hlt).insertionSort_eq

theorem ordered_insertEvent (env : IngestEnv) {t : EventsTable} (h : t.Ordered)
    (row : EventsRow) : (t.insertEvent env row).1.Ordered := by
  have hnonneg := h.nonneg
  rcases insertEvent_eq env t row with heq | heq
  · rw [heq]
    exact h
  · rw [heq]
    refine ⟨?_, fun r hr => ?_, by dsimp only; omega, fun r hr => ?_⟩
    · refine List.pairwise_append.2 ⟨h.ascending, List.pairwise_singleton _ _, fun r hr r' hr' => ?_⟩
      obtain rfl := List.mem_singleton.1 hr'
      exact Int.lt_add_one_of_le (h.bounded r hr)
    · rcases List.mem_append.1 hr with hr | hr
      · exact h.positive r hr
      · obtain rfl := List.mem_singleton.1 hr
        simp only [newRow]
        omega
    · rcases List.mem_append.1 hr with hr | hr
      · exact (h.bounded r hr).trans (by dsimp only; omega)
      · obtain rfl := List.mem_singleton.1 hr
        exact Int.le_refl _

theorem ordered_insertRows {t : EventsTable} (h : t.Ordered) (rows : List EventsRow) :
    (env.insertRows t rows).Ordered :=
  List.foldlRecOn _ _ (motive := EventsTable.Ordered) h fun _ h row _ =>
    ordered_insertEvent env.toIngestEnv h row

theorem ordered_rereadAll {t : EventsTable} (h : t.Ordered) (seen : Option (String × String)) :
    EventsTable.Ordered ⟨env.rereadAll seen t.rows, t.lastId⟩ := by
  have hids := env.rereadAll_ids seen t.rows
  have hmem : ∀ r ∈ env.rereadAll seen t.rows, ∃ r' ∈ t.rows, r'.id = r.id := by
    intro r hr
    have hid : r.id ∈ t.rows.map (·.id) := hids ▸ List.mem_map_of_mem hr
    exact List.mem_map.1 hid
  refine ⟨ascending_of_ids hids h.ascending, fun r hr => ?_, h.nonneg, fun r hr => ?_⟩
  · obtain ⟨r', hr', hid⟩ := hmem r hr
    exact hid ▸ h.positive r' hr'
  · obtain ⟨r', hr', hid⟩ := hmem r hr
    exact hid ▸ h.bounded r' hr'

/-- The samples that are classified by now. -/
def recognised (env : ReparseEnv) (store : ReparseStore) : List EventsRow :=
  (recentUnknowns store.unknowns).filterMap env.promotedRow

/-- The table between the second and the third phase. -/
def rewritten (env : ReparseEnv) (store : ReparseStore) : EventsTable :=
  env.insertRows ⟨env.rereadAll none store.table.rows, store.table.lastId⟩ (env.recognised store)

theorem nodup_distinctLogSources (t : EventsTable) : t.distinctLogSources.Nodup :=
  (List.perm_insertionSort _ _).nodup_iff.2 (List.nodup_dedup _)

theorem reparse_ok {store : ReparseStore} (h : store.table.Ordered) :
    Collapsed (env.rewritten store) (env.reparse store).store.table
        ((env.rewritten store).distinctLogSources.flatMap
          (env.collapsedIds (env.rewritten store))) ∧
      (∀ u ∈ (env.reparse store).store.unknowns, u ∈ store.unknowns ∧ env.promotedRow u = none) ∧
      Follows (.start store) (env.reparse store)
        (env.rereadAll none store.table.rows = store.table.rows ∧ env.recognised store = [] ∧
          ∀ source ∈ (env.rewritten store).distinctLogSources,
            env.retroHits (retroWindow (env.rewritten store) source) = []) := by
  obtain ⟨hstore, hfollows⟩ := walkEvents_ok env
    (show (ReparseRun.start store).store.table.rows = [] ++ store.table.rows from rfl)
    h.ascending none 0 0
  change (env.walkEvents (fun _ => none) .default (.start store) 0 0 store.table.rows).store =
    ⟨⟨env.rereadAll none store.table.rows, store.table.lastId⟩, store.unknowns⟩ at hstore
  change Follows (.start store)
    (env.walkEvents (fun _ => none) .default (.start store) 0 0 store.table.rows) _ at hfollows
  simp only [reparse, runReparse, byId_eq h]
  generalize env.walkEvents (fun _ => none) .default (.start store) 0 0 store.table.rows = one at *
  have herror : one.stats.error.isSome = false := congrArg Option.isSome hfollows.error
  simp only [herror, Bool.false_eq_true, if_false, hstore]
  obtain ⟨htable, hunknowns, hpromoted⟩ :=
    promotes_ok env one (recentUnknowns store.unknowns)
  rw [hstore] at htable hunknowns
  generalize (recentUnknowns store.unknowns).foldl (env.promote (fun _ => none)) one = two at *
  have hordered : (env.rewritten store).Ordered := ordered_insertRows (ordered_rereadAll h none) _
  have htable : two.store.table = env.rewritten store := htable
  have hstart : Collapsed (env.rewritten store) two.store.table [] := by
    rw [htable]
    exact .refl _
  obtain ⟨hcollapsed, hkept, hthird⟩ := collapseSources_ok hordered []
    (env.rewritten store).distinctLogSources (nodup_distinctLogSources _) hstart
  rw [htable]
  refine ⟨hcollapsed, fun u hu => ?_, ?_⟩
  · rw [hkept] at hu
    obtain ⟨hmem, hdone⟩ := hunknowns u hu
    exact ⟨hmem, hdone ((List.mem_insertionSort _).2 hmem)⟩
  · have htwo : Follows (.start store) two (env.rereadAll none store.table.rows =
        store.table.rows ∧ env.recognised store = []) := hfollows.trans hpromoted fun h => h
    exact htwo.trans hthird fun h => ⟨⟨h.1, h.2.1⟩, h.2.2⟩

end ReparseEnv

end StarStats
