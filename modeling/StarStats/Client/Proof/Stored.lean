import StarStats.Client.Proof.Cuts
import StarStats.Lib.Json

/-!
# The rows of a log

Keys tell apart the rows that are stored for the lines of one file, and the rows of a log come in
the order of their offsets among those that conflict (`ranked_rows`, `rows_ordered`). So the first
of them stays, whatever the table holds.
-/

namespace StarStats

/-! ## Keys -/

theorem colon_not_mem_toString (n : Nat) : ':' ∉ (toString n).toList := by
  intro h
  have hmem : ':' ∈ Nat.toDigits 10 n := by
    simpa [Nat.repr, String.toList_ofList] using h
  exact absurd (Json.isDigit_of_mem_toDigits hmem) (by decide)

theorem toString_injective {m n : Nat} (h : toString m = toString n) : m = n := by
  apply Json.toDigits_injective
  have := congrArg String.toList h
  simpa [Nat.repr, String.toList_ofList] using this

namespace IngestEnv

variable {env : IngestEnv} {feed : LogFeed}

/-- A key names the offset and the text. -/
theorem idempotencyKey_inj (hkeys : Function.Injective env.newV5) {m n : Nat} {s t : String}
    (h : env.idempotencyKey feed m s = env.idempotencyKey feed n t) : m = n ∧ s = t := by
  have hfields : ∀ start : String,
      start ++ toString m ++ ":" ++ s = start ++ toString n ++ ":" ++ t → m = n ∧ s = t := by
    intro start heq
    have hchars := congrArg String.toList heq
    simp only [String.toList_append, List.append_assoc, List.append_cancel_left_eq] at hchars
    obtain ⟨hdigits, hrest⟩ := Text.split_unique (colon_not_mem_toString m)
      (colon_not_mem_toString n) hchars
    exact ⟨toString_injective (String.toList_inj.1 hdigits), String.toList_inj.1 hrest⟩
  unfold idempotencyKey at h
  cases hsig : feed.fileSig with
  | none =>
    simp only [hsig] at h
    exact hfields _ (hkeys h)
  | some sig =>
    simp only [hsig] at h
    exact hfields _ (hkeys h)

/-! ## Items -/

variable {records : List ParsedRecord} {item other : BufferItem}

/-- The anchor of a summary. -/
theorem burstItem_eq_some {burst : BurstHit} (h : env.burstItem feed records burst = some item) :
    ∃ record, records[burst.startIndex]? = some record ∧ item.offset = record.1.2 ∧
      item.key = env.idempotencyKey feed record.1.2 (syntheticLine record.1.1 burst) ∧
      ∃ summary, item.event = .burstSummary summary := by
  simp only [burstItem, Option.bind_eq_bind, Option.bind_eq_some_iff, Option.pure_def,
    Option.some.injEq] at h
  obtain ⟨anchor, hanchor, last, -, rfl⟩ := h
  exact ⟨anchor, hanchor, rfl, rfl, _, rfl⟩

theorem exists_burstItem {burst : BurstHit} (h : InRange (records.map (·.2)) burst) :
    ∃ item, env.burstItem feed records burst = some item := by
  have hplaced : ∀ p ∈ burst.memberIndices, ∃ record, records[p]? = some record := by
    intro p hp
    have hlt := h.members p hp
    rw [List.length_map] at hlt
    exact ⟨_, List.getElem?_eq_getElem hlt⟩
  obtain ⟨anchor, hanchor⟩ := hplaced _ h.start
  obtain ⟨last, hlast⟩ := hplaced _ h.last
  simp only [burstItem, hanchor, hlast, Option.bind_eq_bind, Option.bind_some]
  exact ⟨_, rfl⟩

theorem lineItem_eq_some {record : ParsedRecord} (h : env.lineItem feed record = some item) :
    item.offset = record.1.2 ∧ item.key = env.idempotencyKey feed record.1.2 record.1.1 ∧
      ∀ summary, item.event ≠ .burstSummary summary := by
  obtain ⟨event, hevent, rfl⟩ := Option.map_eq_some_iff.1 h
  refine ⟨rfl, rfl, fun summary hsum => ?_⟩
  obtain rfl : event = .burstSummary summary := hsum
  rcases Option.or_eq_some_iff.1 hevent with hc | ⟨-, hr⟩
  · exact (env.observed _ _).1 hc
  · exact (env.observed _ _).2 hr

theorem mem_lineItems (h : item ∈ env.lineItems feed records) :
    ∃ p record, records[p]? = some record ∧ p ∉ claimed records ∧
      env.lineItem feed record = some item := by
  obtain ⟨x, hx, hitem⟩ := List.mem_filterMap.1 h
  dsimp only at hitem
  split at hitem
  case isTrue => cases hitem
  case isFalse hnot => exact ⟨x.2, x.1, List.mem_zipIdx_iff_getElem?.1 hx, hnot, hitem⟩

/-- The record that an item is stored at. -/
theorem exists_record_of_mem_items (h : item ∈ env.items feed records) :
    ∃ record ∈ records, item.offset = record.1.2 := by
  rcases List.mem_append.1 h with h | h
  · obtain ⟨burst, -, hitem⟩ := List.mem_filterMap.1 h
    obtain ⟨record, hrecord, hoffset, -⟩ := burstItem_eq_some hitem
    exact ⟨record, List.mem_of_getElem? hrecord, hoffset⟩
  · obtain ⟨p, record, hrecord, -, hitem⟩ := mem_lineItems h
    exact ⟨record, List.mem_of_getElem? hrecord, (lineItem_eq_some hitem).1⟩

theorem key_of_mem_items (h : item ∈ env.items feed records) :
    ∃ text, item.key = env.idempotencyKey feed item.offset text := by
  rcases List.mem_append.1 h with h | h
  · obtain ⟨burst, -, hitem⟩ := List.mem_filterMap.1 h
    obtain ⟨record, -, hoffset, hkey, -⟩ := burstItem_eq_some hitem
    exact ⟨_, hoffset ▸ hkey⟩
  · obtain ⟨p, record, -, -, hitem⟩ := mem_lineItems h
    obtain ⟨hoffset, hkey, -⟩ := lineItem_eq_some hitem
    exact ⟨_, hoffset ▸ hkey⟩

/-! ## Offsets -/

/-- Each record begins behind the one before it. -/
def Increasing (records : List ParsedRecord) : Prop := records.Pairwise (·.1.2 < ·.1.2)

theorem Increasing.place_le (h : Increasing records) {i j : Nat} {r r' : ParsedRecord}
    (hi : records[i]? = some r) (hj : records[j]? = some r') (hle : r.1.2 ≤ r'.1.2) : i ≤ j := by
  by_contra hlt
  obtain ⟨hi', rfl⟩ := List.getElem?_eq_some_iff.1 hi
  obtain ⟨hj', rfl⟩ := List.getElem?_eq_some_iff.1 hj
  have := List.pairwise_iff_getElem.1 h j i hj' hi' (Nat.lt_of_not_le hlt)
  omega

theorem Increasing.place_eq (h : Increasing records) {i j : Nat} {r r' : ParsedRecord}
    (hi : records[i]? = some r) (hj : records[j]? = some r') (heq : r.1.2 = r'.1.2) : i = j :=
  Nat.le_antisymm (h.place_le hi hj (Nat.le_of_eq heq)) (h.place_le hj hi (Nat.le_of_eq heq.symm))

theorem Increasing.record_eq (h : Increasing records) {r r' : ParsedRecord} (hr : r ∈ records)
    (hr' : r' ∈ records) (heq : r.1.2 = r'.1.2) : r = r' := by
  obtain ⟨i, hi⟩ := List.mem_iff_getElem?.1 hr
  obtain ⟨j, hj⟩ := List.mem_iff_getElem?.1 hr'
  obtain rfl := h.place_eq hi hj heq
  exact Option.some.inj (hi.symm.trans hj)

theorem Increasing.offset_le (h : Increasing records) {i j : Nat} {r r' : ParsedRecord}
    (hi : records[i]? = some r) (hj : records[j]? = some r') (hle : i ≤ j) : r.1.2 ≤ r'.1.2 := by
  rcases Nat.lt_or_eq_of_le hle with hlt | rfl
  · obtain ⟨hi', rfl⟩ := List.getElem?_eq_some_iff.1 hi
    obtain ⟨hj', rfl⟩ := List.getElem?_eq_some_iff.1 hj
    exact Nat.le_of_lt (List.pairwise_iff_getElem.1 h i j hi' hj' hlt)
  · obtain rfl := Option.some.inj (hi.symm.trans hj)
    exact Nat.le_refl _

/-- A record is joined from lines, the first of which gives its offset. -/
theorem stitchFrom_offsets (skip : Nat) (lines : List (String × Nat)) :
    ((stitchFrom skip lines).map (·.2)).Sublist (lines.map (·.2)) := by
  induction lines generalizing skip with
  | nil => cases skip <;> exact .slnil
  | cons line rest ih =>
    cases skip with
    | succ k => exact (ih k).cons _
    | zero =>
      rw [stitchFrom]
      cases joined line.1 rest with
      | some bodies => exact (ih _).cons_cons _
      | none => exact (ih 0).cons_cons _

theorem increasing_recordsOf {lines : List (String × Nat)} (h : lines.Pairwise (·.2 < ·.2)) :
    Increasing (recordsOf lines) := by
  rw [Increasing, recordsOf, List.pairwise_filterMap]
  have hoffsets : (lines.map (·.2)).Pairwise (· < ·) := List.pairwise_map.2 h
  have hrecords := List.pairwise_map.1 (hoffsets.sublist (stitchFrom_offsets 0 lines))
  refine hrecords.imp fun hlt r hr r' hr' => ?_
  obtain ⟨line, -, rfl⟩ := Option.map_eq_some_iff.1 hr
  obtain ⟨line', -, rfl⟩ := Option.map_eq_some_iff.1 hr'
  exact hlt

/-! ## Conflicts -/

def row (env : IngestEnv) (feed : LogFeed) (item : BufferItem) : EventsRow :=
  env.eventRow feed item.key item.event item.raw item.offset

theorem rowConflict_comm (env : IngestEnv) (x y : EventsRow) :
    env.rowConflict x y = env.rowConflict y x := by
  simp only [rowConflict, Bool.beq_comm]

theorem rowConflict_self (env : IngestEnv) (x : EventsRow) : env.rowConflict x x = true := by
  simp [rowConflict]

theorem eventTypeKey_eq_burst {e : GameEvent} (h : ∀ summary, e ≠ .burstSummary summary) :
    eventTypeKey e ≠ "burst_summary" := by
  cases e with
  | burstSummary s => exact absurd rfl (h s)
  | _ =>
    simp only [eventTypeKey]
    decide

theorem separator_not_mem_eventTypeKey (e : GameEvent) :
    unitSeparatorChar ∉ (eventTypeKey e).toList := by
  have hchars : ∀ {cs : List Char}, unitSeparatorChar ∉ cs →
      unitSeparatorChar ∉ (String.ofList cs).toList :=
    fun h => by rwa [String.toList_ofList]
  cases e <;> simp only [eventTypeKey] <;> exact hchars (by decide)

theorem eventTypeKey_ne_empty (e : GameEvent) : eventTypeKey e ≠ "" := by
  cases e <;> simp only [eventTypeKey] <;> decide

/-- Contents of two kinds of event differ. -/
theorem contentKey_ne (hkeys : Function.Injective env.newV5) {x y : EventsRow}
    (hx : unitSeparatorChar ∉ x.eventType.toList) (hy : unitSeparatorChar ∉ y.eventType.toList)
    (hne : x.eventType ≠ y.eventType) : env.contentKey x ≠ env.contentKey y := by
  intro h
  have hchars := congrArg String.toList (hkeys h)
  simp only [String.toList_append, List.append_assoc, unitSeparator, String.toList_singleton,
    List.singleton_append] at hchars
  exact hne (String.toList_inj.1 (Text.split_unique hx hy hchars).1)

/-- A summary never stands in the way of an event, nor an event of a summary. -/
theorem summary_line_apart (hkeys : Function.Injective env.newV5) (hinc : Increasing records)
    {summaries lines : List ParsedRecord} (hsummaries : ∀ r ∈ summaries, r ∈ records)
    (hlines : ∀ r ∈ lines, r ∈ records) (hitem : item ∈ env.burstItems feed summaries)
    (hother : other ∈ env.lineItems feed lines) :
    env.rowConflict (env.row feed item) (env.row feed other) = false := by
  obtain ⟨burst, -, hburst⟩ := List.mem_filterMap.1 hitem
  obtain ⟨anchor, hanchor, hoffset, hkey, summary, hsum⟩ := burstItem_eq_some hburst
  obtain ⟨p, record, hrecord, -, hline⟩ := mem_lineItems hother
  obtain ⟨hoffset', hkey', hnot⟩ := lineItem_eq_some hline
  simp only [rowConflict, Bool.or_eq_false_iff, beq_eq_false_iff_ne]
  constructor
  · intro heq
    have heq : item.key = other.key := heq
    rw [hkey, hkey'] at heq
    obtain ⟨hsame, htext⟩ := idempotencyKey_inj hkeys heq
    obtain rfl := hinc.record_eq (hsummaries _ (List.mem_of_getElem? hanchor))
      (hlines _ (List.mem_of_getElem? hrecord)) hsame
    have hlen := congrArg String.length htext
    simp only [syntheticLine, String.length_append] at hlen
    have hburstLen : "|burst:".length = 7 := by decide
    omega
  · refine contentKey_ne hkeys (separator_not_mem_eventTypeKey item.event)
      (separator_not_mem_eventTypeKey other.event) ?_
    show eventTypeKey item.event ≠ eventTypeKey other.event
    rw [hsum]
    exact (eventTypeKey_eq_burst hnot).symm

/-! ## Order -/

theorem burstItems_ordered (hinc : Increasing records) :
    (env.burstItems feed records).Pairwise (·.offset ≤ ·.offset) := by
  rw [burstItems, List.pairwise_filterMap]
  refine (detectBursts_sorted _ _).imp fun hle x hx y hy => ?_
  obtain ⟨r, hr, hoffset, -⟩ := burstItem_eq_some hx
  obtain ⟨r', hr', hoffset', -⟩ := burstItem_eq_some hy
  rw [hoffset, hoffset']
  exact hinc.offset_le hr hr' hle

theorem lineItems_ordered (hinc : Increasing records) :
    (env.lineItems feed records).Pairwise (·.offset ≤ ·.offset) := by
  rw [lineItems, List.pairwise_filterMap]
  have hzip : (records.zipIdx.map Prod.fst).Pairwise fun r r' => r.1.2 < r'.1.2 := by
    rw [List.zipIdx_map_fst]
    exact hinc
  refine (List.pairwise_map.1 hzip).imp fun hlt x hx y hy => ?_
  dsimp only at hx hy
  split at hx
  case isTrue => cases hx
  split at hy
  case isTrue => cases hy
  rw [(lineItem_eq_some hx).1, (lineItem_eq_some hy).1]
  exact Nat.le_of_lt hlt

/-- The rows that conflict come in the order of their offsets. -/
def RowsOrdered (env : IngestEnv) (feed : LogFeed) (items : List BufferItem) : Prop :=
  (items.map (env.row feed)).Pairwise fun x y =>
    env.rowConflict x y = true → x.sourceOffset ≤ y.sourceOffset

theorem items_ordered (hkeys : Function.Injective env.newV5) (hinc : Increasing records)
    {part : List ParsedRecord} (hpart : part.Sublist records) :
    RowsOrdered env feed (env.items feed part) := by
  have hsub : Increasing part := hinc.sublist hpart
  have hmem : ∀ r ∈ part, r ∈ records := fun r hr => hpart.subset hr
  have hsummaries : (env.burstItems feed part).Pairwise fun x y =>
      env.rowConflict (env.row feed x) (env.row feed y) = true → x.offset ≤ y.offset := by
    refine (burstItems_ordered hsub).imp ?_
    intro x y hle _
    exact hle
  have hevents : (env.lineItems feed part).Pairwise fun x y =>
      env.rowConflict (env.row feed x) (env.row feed y) = true → x.offset ≤ y.offset := by
    refine (lineItems_ordered hsub).imp ?_
    intro x y hle _
    exact hle
  rw [RowsOrdered, List.pairwise_map, items, List.pairwise_append]
  refine ⟨hsummaries, hevents, fun x hx y hy hc => ?_⟩
  rw [summary_line_apart hkeys hinc hmem hmem hx hy] at hc
  cases hc

/-- Two summaries at one offset are one. -/
theorem burstItem_unique (hinc : Increasing records) (hitem : item ∈ env.burstItems feed records)
    (hother : other ∈ env.burstItems feed records) (heq : item.offset = other.offset) :
    item = other := by
  obtain ⟨rule, hrule, run, hrun, hburst⟩ := mem_burstItems.1 hitem
  obtain ⟨rule', hrule', run', hrun', hburst'⟩ := mem_burstItems.1 hother
  obtain ⟨r, hr, hoffset, -⟩ := burstItem_eq_some hburst
  obtain ⟨r', hr', hoffset', -⟩ := burstItem_eq_some hburst'
  have hhead : run.headD 0 = run'.headD 0 := hinc.place_eq hr hr' (by rw [← hoffset, heq, hoffset'])
  have hsame : rule = rule' := by
    obtain ⟨line, hline, hm⟩ := first_matches hrun
    obtain ⟨line', hline', hm'⟩ := first_matches hrun'
    rw [← hhead, hline] at hline'
    obtain rfl := Option.some.inj hline'
    exact rule_unique hrule hrule' hm hm'
  subst hsame
  obtain rfl := BurstRule.bursts_unique hrun hrun' hhead
  exact Option.some.inj (hburst.symm.trans hburst')

theorem lineItem_unique (hinc : Increasing records) (hitem : item ∈ env.lineItems feed records)
    (hother : other ∈ env.lineItems feed records) (heq : item.offset = other.offset) :
    item = other := by
  obtain ⟨p, r, hr, -, hline⟩ := mem_lineItems hitem
  obtain ⟨p', r', hr', -, hline'⟩ := mem_lineItems hother
  obtain rfl := hinc.record_eq (List.mem_of_getElem? hr) (List.mem_of_getElem? hr')
    (by rw [← (lineItem_eq_some hline).1, heq, (lineItem_eq_some hline').1])
  exact Option.some.inj (hline.symm.trans hline')

/-- The rows of a log that conflict are told apart by their offsets. -/
theorem ranked_rows (hkeys : Function.Injective env.newV5) (hinc : Increasing records) :
    Inserts.Ranked env.rowConflict (·.sourceOffset) ((env.items feed records).map (env.row feed)) where
  ordered := items_ordered hkeys hinc (List.Sublist.refl _)
  apart := by
    intro x hx y hy hc heq
    obtain ⟨item, hitem, rfl⟩ := List.mem_map.1 hx
    obtain ⟨other, hother, rfl⟩ := List.mem_map.1 hy
    rcases List.mem_append.1 hitem with hitem | hitem
    · rcases List.mem_append.1 hother with hother | hother
      · rw [burstItem_unique hinc hitem hother heq]
      · rw [summary_line_apart hkeys hinc (fun _ h => h) (fun _ h => h) hitem hother] at hc
        cases hc
    · rcases List.mem_append.1 hother with hother | hother
      · rw [rowConflict_comm,
          summary_line_apart hkeys hinc (fun _ h => h) (fun _ h => h) hother hitem] at hc
        cases hc
      · rw [lineItem_unique hinc hitem hother heq]

/-- So are those of its buffers. -/
theorem buffers_ordered (hkeys : Function.Injective env.newV5) {parts : List (List ParsedRecord)}
    (hinc : Increasing parts.flatten) :
    RowsOrdered env feed (parts.flatMap (env.items feed)) := by
  induction parts with
  | nil => exact .nil
  | cons part parts ih =>
    rw [List.flatten_cons] at hinc
    obtain ⟨-, hlater, hbetween⟩ := List.pairwise_append.1 hinc
    have hfirst := @items_ordered env feed _ hkeys hinc _
      (List.sublist_append_left part parts.flatten)
    rw [RowsOrdered, List.flatMap_cons, List.map_append, List.pairwise_append]
    refine ⟨hfirst, ih hlater, fun x hx y hy _ => ?_⟩
    obtain ⟨item, hitem, rfl⟩ := List.mem_map.1 hx
    obtain ⟨other, hother, rfl⟩ := List.mem_map.1 hy
    obtain ⟨later, hmem, hother⟩ := List.mem_flatMap.1 hother
    obtain ⟨r, hr, hoffset⟩ := exists_record_of_mem_items hitem
    obtain ⟨r', hr', hoffset'⟩ := exists_record_of_mem_items hother
    show item.offset ≤ other.offset
    rw [hoffset, hoffset']
    exact Nat.le_of_lt (hbetween r hr r' (List.mem_flatten.2 ⟨later, hmem, hr'⟩))

end IngestEnv

end StarStats
