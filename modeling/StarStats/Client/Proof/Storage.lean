import StarStats.Client.Proof.Stored
import StarStats.Client.Storage
import StarStats.Lib.Trans

/-!
# One row for a line

`one_row_per_line_iff`: over a run of writes every line keeps one row exactly when no write
classifies a stored line anew. `update_event_classification` leaves the content key as it was.
-/

namespace StarStats

open EventsTable (Classification)

/-! ## The hash -/

/-- The hash tells apart what is said of a line. -/
theorem classification_of_contentKey {env : IngestEnv} (hhash : Function.Injective env.newV5)
    {row other : EventsRow} (hrow : row.classification.Separated)
    (hother : other.classification.Separated) (hraw : row.raw = other.raw)
    (h : env.contentKey row = env.contentKey other) :
    row.classification = other.classification := by
  have hchars := congrArg String.toList (hhash h)
  simp only [String.toList_append, List.append_assoc, unitSeparator, String.toList_singleton,
    List.singleton_append] at hchars
  obtain ⟨htype, hchars⟩ := Text.split_unique hrow.1 hother.1 hchars
  obtain ⟨htime, hchars⟩ := Text.split_unique hrow.2 hother.2 hchars
  rw [hraw] at hchars
  have hpayload := (List.cons_inj_right _).1 (List.append_cancel_left hchars)
  simp only [EventsRow.classification, Classification.mk.injEq]
  exact ⟨String.toList_inj.1 htype, String.toList_inj.1 htime, String.toList_inj.1 hpayload⟩

theorem contentKey_of_sameContent (env : IngestEnv) {row other : EventsRow}
    (h : row.SameContent other) : env.contentKey row = env.contentKey other := by
  obtain ⟨hsame, hraw⟩ := h
  simp only [EventsRow.classification, Classification.mk.injEq] at hsame
  obtain ⟨htype, htime, hpayload⟩ := hsame
  rw [IngestEnv.contentKey, IngestEnv.contentKey, htype, htime, hraw, hpayload]

/-! ## The invariant -/

/-- Each row has the hash of its columns, and no two have the same. -/
structure ContentKeyed (env : IngestEnv) (t : EventsTable) : Prop where
  keyed : ∀ r ∈ t.rows, r.contentKey = env.contentKey r.toEventsRow
  distinct : (t.rows.map (·.contentKey)).Nodup
  separated : ∀ r ∈ t.rows, r.classification.Separated

variable {env : IngestEnv} {t : EventsTable}

theorem contentKeyed_fresh (env : IngestEnv) : ContentKeyed env .fresh where
  keyed := by simp [EventsTable.fresh]
  distinct := List.nodup_nil
  separated := by simp [EventsTable.fresh]

theorem ContentKeyed.oneRowPerLine (h : ContentKeyed env t) : OneRowPerLine env t where
  keyed := h.keyed
  apart := by
    refine (List.pairwise_map.1 h.distinct).imp_of_mem ?_
    intro r r' hr hr' hne hsame
    refine hne ?_
    rw [h.keyed r hr, h.keyed r' hr']
    exact contentKey_of_sameContent env hsame
  reread := by
    intro r hr row hsame
    have hany : t.rows.any (·.contentKey = env.contentKey row) = true := by
      rw [List.any_eq_true]
      refine ⟨r, hr, ?_⟩
      rw [h.keyed r hr, contentKey_of_sameContent env hsame]
      exact decide_eq_true rfl
    rw [EventsTable.insertEvent, if_pos hany]

/-! ## The writes -/

/-- What an insert can do. -/
theorem insertEvent_cases (env : IngestEnv) (t : EventsTable) (row : EventsRow) :
    (t.insertEvent env row).1 = t ∨
      (∀ r ∈ t.rows, r.contentKey ≠ env.contentKey row) ∧
      ∃ r : LocalRow, r.toEventsRow = row ∧ r.contentKey = env.contentKey row ∧
        (t.insertEvent env row).1.rows = t.rows ++ [r] := by
  simp only [EventsTable.insertEvent]
  split
  case isTrue => exact .inl rfl
  case isFalse hcontent =>
    split
    case isTrue => exact .inl rfl
    case isFalse =>
      refine .inr ⟨fun r hr heq => hcontent (List.any_eq_true.2 ⟨r, hr, by simpa using heq⟩), ?_⟩
      exact ⟨_, rfl, rfl, rfl⟩

theorem ContentKeyed.insertEvent (h : ContentKeyed env t) {row : EventsRow}
    (hrow : row.classification.Separated) : ContentKeyed env (t.insertEvent env row).1 := by
  rcases insertEvent_cases env t row with heq | ⟨hfree, r, rfl, hkey, hrows⟩
  · rw [heq]
    exact h
  · constructor
    · intro x hx
      rw [hrows] at hx
      rcases List.mem_append.1 hx with hx | hx
      · exact h.keyed x hx
      · rw [List.mem_singleton.1 hx, hkey]
    · rw [hrows, List.map_append, List.nodup_append]
      refine ⟨h.distinct, List.nodup_singleton _, fun k hk k' hk' heq => ?_⟩
      obtain ⟨x, hx, rfl⟩ := List.mem_map.1 hk
      rw [List.mem_singleton.1 hk'] at heq
      exact hfree x hx (heq.trans hkey)
    · intro x hx
      rw [hrows] at hx
      rcases List.mem_append.1 hx with hx | hx
      · exact h.separated x hx
      · rw [List.mem_singleton.1 hx]
        exact hrow

theorem ContentKeyed.deleteEventById (h : ContentKeyed env t) (id : Int) :
    ContentKeyed env (t.deleteEventById id) where
  keyed r hr := h.keyed r (List.mem_of_mem_filter hr)
  distinct := h.distinct.sublist (List.filter_sublist.map _)
  separated r hr := h.separated r (List.mem_of_mem_filter hr)

/-- A row of the table after an update, which has kept its key. -/
theorem mem_updateEventClassification {id : Int} {c : Classification} {metadata : Option String}
    {x : LocalRow} : x ∈ (t.updateEventClassification id c metadata).rows ↔
      ∃ r ∈ t.rows, x = if r.id = id then EventsTable.reclassified c metadata r else r := by
  rw [EventsTable.updateEventClassification, List.mem_map]
  simp only [eq_comm]

theorem ContentKeyed.updateEventClassification (h : ContentKeyed env t) {id : Int}
    {c : Classification}
    (metadata : Option String) (hkeeps : ∀ r ∈ t.rows, r.id = id → r.classification = c) :
    ContentKeyed env (t.updateEventClassification id c metadata) := by
  have hsame : ∀ r ∈ t.rows, r.id = id →
      (EventsTable.reclassified c metadata r).toEventsRow = r.toEventsRow := by
    intro r hr hid
    rw [← hkeeps r hr hid]
    rfl
  constructor
  · intro x hx
    obtain ⟨r, hr, rfl⟩ := mem_updateEventClassification.1 hx
    split
    case isTrue hid =>
      rw [hsame r hr hid]
      exact h.keyed r hr
    case isFalse => exact h.keyed r hr
  · have hkeys : (t.updateEventClassification id c metadata).rows.map (·.contentKey) =
        t.rows.map (·.contentKey) := by
      rw [EventsTable.updateEventClassification, List.map_map]
      refine List.map_congr_left fun r _ => ?_
      dsimp only [Function.comp]
      split <;> rfl
    rw [hkeys]
    exact h.distinct
  · intro x hx
    obtain ⟨r, hr, rfl⟩ := mem_updateEventClassification.1 hx
    split
    case isTrue hid =>
      rw [hsame r hr hid]
      exact h.separated r hr
    case isFalse => exact h.separated r hr

/-- An update that says something else of a line leaves its row with a hash of what was said
before. -/
theorem not_contentKeyed_of_update (hhash : Function.Injective env.newV5)
    (h : ContentKeyed env t) {id : Int}
    {c : Classification} (hc : c.Separated) (metadata : Option String) {r : LocalRow}
    (hr : r ∈ t.rows) (hid : r.id = id) (hne : r.classification ≠ c) :
    ¬ OneRowPerLine env (t.updateEventClassification id c metadata) := by
  intro hone
  have hmem : EventsTable.reclassified c metadata r ∈
      (t.updateEventClassification id c metadata).rows :=
    mem_updateEventClassification.2 ⟨r, hr, by rw [if_pos hid]⟩
  have hkey : env.contentKey r.toEventsRow =
      env.contentKey (EventsTable.reclassified c metadata r).toEventsRow :=
    (h.keyed r hr).symm.trans (hone.keyed _ hmem)
  have hsame : r.classification = (EventsTable.reclassified c metadata r).classification :=
    classification_of_contentKey hhash (h.separated r hr) hc rfl hkey
  exact hne hsame

/-! ## Runs -/

/-- The table after a write. -/
def tableStep (env : IngestEnv) (t : EventsTable) (w : TableWrite) : Option EventsTable :=
  some (w.apply env t)

/-- **When one line is one row**: over a run of writes from a fresh table, exactly as long as no
write classifies a stored line anew. -/
theorem one_row_per_line_iff (env : IngestEnv) (hhash : Function.Injective env.newV5)
    (writes : List TableWrite) :
    Trans.AllStates (tableStep env) (OneRowPerLine env) .fresh writes ↔
      Trans.AllSteps (tableStep env) TableWrite.KeepsClassification .fresh writes := by
  refine Trans.allStates_iff (fun t h => h.oneRowPerLine) ?_ ?_ writes (contentKeyed_fresh env)
  · intro t w t' h hstep hkeeps
    obtain rfl := Option.some.inj hstep
    cases w with
    | insertEvent row separated => exact h.insertEvent separated
    | updateClassification id c separated metadata => exact h.updateEventClassification metadata hkeeps
    | deleteEvent id => exact h.deleteEventById id
  · intro t w t' h hstep hnot
    obtain rfl := Option.some.inj hstep
    cases w with
    | insertEvent row separated => exact absurd trivial hnot
    | updateClassification id c separated metadata =>
      simp only [TableWrite.KeepsClassification, not_forall] at hnot
      obtain ⟨r, hr, hid, hne⟩ := hnot
      exact not_contentKeyed_of_update hhash h separated metadata hr hid hne
    | deleteEvent id => exact absurd trivial hnot

/-! ### A line read again after a re-parse -/

/-- The hash as the text it is of. -/
def plainEnv : IngestEnv where
  classify _ := none
  applyRemoteRules _ := none
  observed := none_ne_burstSummary
  toJson _ := ""
  toLowercase := id
  newV5 := id
  parseTs _ := none

def readRow (key eventType : String) : EventsRow where
  idempotencyKey := key
  eventType := eventType
  timestamp := "t"
  raw := "line"
  payload := "{}"
  logSource := "live"
  sourceOffset := 0

/-- The line is read from the live log and again from an archive, and deleted. -/
def readTwice : List TableWrite :=
  [.insertEvent (readRow "a" "old") (by decide), .insertEvent (readRow "b" "old") (by decide),
    .deleteEvent 1]

theorem one_row_per_line_of_reads :
    Trans.AllStates (tableStep plainEnv) (OneRowPerLine plainEnv) .fresh readTwice := by
  refine (one_row_per_line_iff plainEnv Function.injective_id readTwice).2 ?_
  exact fun _ _ => ⟨trivial, fun _ _ => ⟨trivial, fun _ _ => ⟨trivial, trivial⟩⟩⟩

/-- The line is classified anew, and read again. -/
def readAnew : List TableWrite :=
  [.insertEvent (readRow "a" "old") (by decide),
    .updateClassification 1 (readRow "a" "new").classification (by decide) none,
    .insertEvent (readRow "b" "new") (by decide)]

/-- Then it has two rows. -/
theorem one_row_per_line_fails :
    ¬ ∀ env : IngestEnv, Function.Injective env.newV5 → ∀ writes : List TableWrite,
      Trans.AllStates (tableStep env) (OneRowPerLine env) .fresh writes := by
  intro h
  have hexec : Trans.exec (tableStep plainEnv) Trans.always .fresh readAnew =
      some (readAnew.foldl (fun t w => w.apply plainEnv t) .fresh) := rfl
  have hapart := ((h plainEnv Function.injective_id readAnew).of_exec hexec).apart
  revert hapart
  decide +kernel

end StarStats
