import StarStats.Client.Proof.Suppression
import StarStats.Client.Backfill

/-!
# A log that is ingested again

A line that the backfill passed on alone has the same key both times. Any other line that is an
event has a key that no row of the backfill has, and a table that is empty but for rows in the way
of the backfill shows it (`reingest_unchanged_iff`).
-/

namespace StarStats

namespace IngestEnv

variable {env : IngestEnv} {feed : LogFeed} {enableV2 : Bool}
  {inferenceRules : List CompiledInferenceRule}

/-! ## What a backfill writes -/

theorem foldl_persistInferred_window (st : IngestState) (conclusions : List InferredEvent) :
    (conclusions.foldl (env.persistInferred feed) st).window =
      (conclusions.foldl (env.persistInferred feed) ⟨[], st.window⟩).window := by
  induction conclusions generalizing st with
  | nil => rfl
  | cons conclusion rest ih =>
    rw [List.foldl_cons, List.foldl_cons, ih, ih (env.persistInferred feed ⟨[], st.window⟩ _)]
    congr 3
    simp only [persistInferred]
    split <;> rfl

/-- The window behind a call does not depend on the table. -/
theorem processBuffer_window (st : IngestState) (lines : List (String × Nat)) :
    (env.processBuffer feed inferenceRules builtinBurstRules enableV2 st lines).window =
      (env.processBuffer feed inferenceRules builtinBurstRules enableV2 ⟨[], st.window⟩
        lines).window := by
  simp only [processBuffer_eq]
  cases enableV2 with
  | false =>
    rw [if_neg Bool.false_ne_true, if_neg Bool.false_ne_true, foldl_storeItem_window,
      foldl_storeItem_window]
  | true =>
    rw [if_pos rfl, if_pos rfl, runInferenceAndPersist, foldl_persistInferred_window]
    conv_rhs => rw [runInferenceAndPersist, foldl_persistInferred_window]
    simp only [foldl_storeItem_window]

/-- The rows of the calls: those of their items, and rows that are inferred. -/
structure WritesOf (env : IngestEnv) (feed : LogFeed) (buffers : List (List (String × Nat)))
    (rows : List EventsRow) : Prop where
  items : ∀ buffer ∈ buffers, ∀ item ∈ env.items feed (recordsOf buffer), env.row feed item ∈ rows
  only : ∀ row ∈ rows, (∃ buffer ∈ buffers, ∃ item ∈ env.items feed (recordsOf buffer),
    row = env.row feed item) ∨ ∃ conclusion, row = env.inferredRow feed conclusion

/-- Whatever the table, the calls write the same rows. -/
theorem exists_writes (env : IngestEnv) (feed : LogFeed)
    (inferenceRules : List CompiledInferenceRule) (enableV2 : Bool) (window : InferenceWindow)
    (buffers : List (List (String × Nat))) :
    ∃ rows, WritesOf env feed buffers rows ∧ ∀ events,
      (buffers.foldl (env.processBufferRuled feed builtinBurstRules enableV2)
        ⟨⟨events, window⟩, inferenceRules⟩).ingest.events =
          Inserts.insertAll env.rowConflict events rows := by
  induction buffers generalizing window inferenceRules with
  | nil =>
    exact ⟨[], ⟨fun _ h => absurd h List.not_mem_nil, fun _ h => absurd h List.not_mem_nil⟩,
      fun _ => rfl⟩
  | cons buffer buffers ih =>
    let process := env.processBuffer feed inferenceRules builtinBurstRules enableV2
    let after := (process ⟨[], window⟩ buffer).window
    let rulesBehind := if enableV2 then
      rulesAfter env.parseTs .default inferenceRules after.recent else inferenceRules
    let first := (env.items feed (recordsOf buffer)).map (env.row feed) ++
      rowsInferred env feed inferenceRules enableV2 window.emitted after.recent
    have hfirst : ∀ events, process ⟨events, window⟩ buffer =
        ⟨Inserts.insertAll env.rowConflict events first, after⟩ := by
      intro events
      have hwindow : (process ⟨events, window⟩ buffer).window = after := processBuffer_window _ _
      have hevents : (process ⟨events, window⟩ buffer).events =
          Inserts.insertAll env.rowConflict events ((env.items feed (recordsOf buffer)).map
            (env.row feed) ++ rowsInferred env feed inferenceRules enableV2 window.emitted
              (process ⟨events, window⟩ buffer).window.recent) := by
        simp only [process, processBuffer_eq]
        exact (inferred_rows inferenceRules ⟨events, window⟩ _).2
      rw [hwindow] at hevents
      calc process ⟨events, window⟩ buffer
          = ⟨(process ⟨events, window⟩ buffer).events,
              (process ⟨events, window⟩ buffer).window⟩ := rfl
        _ = _ := by rw [hevents, hwindow]
    have hruled : ∀ events, env.processBufferRuled feed builtinBurstRules enableV2
        ⟨⟨events, window⟩, inferenceRules⟩ buffer =
          ⟨⟨Inserts.insertAll env.rowConflict events first, after⟩, rulesBehind⟩ := fun events => by
      rw [processBufferRuled]
      exact congrArg (fun st : IngestState => RuledState.mk st (if enableV2 then
        rulesAfter env.parseTs .default inferenceRules st.window.recent else inferenceRules))
        (hfirst events)
    obtain ⟨rows, hrows, hfold⟩ := ih rulesBehind after
    refine ⟨first ++ rows, ⟨?_, ?_⟩, fun events => ?_⟩
    · intro b hb item hitem
      rcases List.mem_cons.1 hb with rfl | hb
      · exact List.mem_append_left _ (List.mem_append_left _ (List.mem_map_of_mem hitem))
      · exact List.mem_append_right _ (hrows.items b hb item hitem)
    · intro row hrow
      rcases List.mem_append.1 hrow with hrow | hrow
      · rcases List.mem_append.1 hrow with hrow | hrow
        · obtain ⟨item, hitem, rfl⟩ := List.mem_map.1 hrow
          exact .inl ⟨buffer, List.mem_cons_self, item, hitem, rfl⟩
        · obtain ⟨conclusion, -, rfl⟩ := List.mem_map.1 (rowsInferred_subset _ hrow)
          exact .inr ⟨conclusion, rfl⟩
      · refine (hrows.only row hrow).imp_left fun ⟨b, hb, hitem⟩ => ?_
        exact ⟨b, List.mem_cons_of_mem _ hb, hitem⟩
    · rw [List.foldl_cons, hruled, hfold]
      exact (Inserts.insertAll_append events first rows).symm

/-! ## What a re-ingest writes -/

/-- The event of a line as it stands. -/
def rawItem (env : IngestEnv) (feed : LogFeed) (line : String × Nat) : Option BufferItem :=
  (structuralParse line.1).bind fun parsed => env.lineItem feed (line, parsed)

theorem runReingest_eq (events : List EventsRow) (bytes : List UInt8) :
    env.runReingest feed events bytes = Inserts.insertAll env.rowConflict events
      (((archiveLines bytes 0).filterMap (env.rawItem feed)).map (env.row feed)) := by
  have hfold : ∀ st, (archiveLines bytes 0).foldl (env.ingestOneLine feed false) st =
      ((archiveLines bytes 0).filterMap (env.rawItem feed)).foldl (env.storeItem feed false) st := by
    intro st
    rw [List.foldl_filterMap]
    congr 1
    funext st line
    rw [ingestOneLine_eq, rawItem]
    cases (structuralParse line.1).bind fun parsed => env.lineItem feed (line, parsed) <;> rfl
  rw [runReingest, hfold, foldl_storeItem_events]

theorem rawItem_eq_some {line : String × Nat} {item : BufferItem}
    (h : env.rawItem feed line = some item) :
    ∃ parsed, structuralParse line.1 = some parsed ∧ env.lineItem feed (line, parsed) = some item :=
  Option.bind_eq_some_iff.1 h

theorem recognised_iff {line : String × Nat} :
    env.Recognised line ↔ ∃ item, env.rawItem feed line = some item := by
  unfold Recognised rawItem lineItem
  cases structuralParse line.1 with
  | none => simp
  | some parsed => cases env.lineEvent parsed <;> simp

theorem parsed_of_record {lines : List (String × Nat)} {record : ParsedRecord}
    (h : record ∈ recordsOf lines) : structuralParse record.1.1 = some record.2 := by
  obtain ⟨stitched, -, hparsed⟩ := List.mem_filterMap.1 h
  obtain ⟨parsed, hline, rfl⟩ := Option.map_eq_some_iff.1 hparsed
  exact hline

/-- A line that was passed on alone was stored as what it is stored as now. -/
theorem mem_items_of_passedAlone {buffers : List (List (String × Nat))} {line : String × Nat}
    (h : PassedAlone buffers line) {item : BufferItem} (hitem : env.rawItem feed line = some item) :
    ∃ buffer ∈ buffers, item ∈ env.items feed (recordsOf buffer) := by
  obtain ⟨buffer, hbuffer, p, -, hp, hfree⟩ := h
  obtain ⟨⟨line', parsed⟩, hrecord, rfl⟩ := Option.map_eq_some_iff.1 hp
  obtain ⟨parsed', hparsed', hline⟩ := rawItem_eq_some hitem
  obtain rfl : parsed' = parsed := Option.some.inj
    (hparsed'.symm.trans (parsed_of_record (List.mem_of_getElem? hrecord)))
  refine ⟨buffer, hbuffer, List.mem_append_right _ (List.mem_filterMap.2
    ⟨(_, p), List.mem_zipIdx_iff_getElem?.2 hrecord, ?_⟩)⟩
  simp only [if_neg hfree]
  exact hline

/-! ## Keys that the backfill does not have -/

theorem length_le_merged (merged : String) (bodies : List String) :
    merged.length ≤ (bodies.foldl (fun merged body => merged ++ " " ++ body) merged).length := by
  induction bodies generalizing merged with
  | nil => exact Nat.le_refl _
  | cons body bodies ih =>
    refine Nat.le_trans ?_ (ih _)
    simp only [String.length_append]
    omega

/-- A record has the text of its first line in it. -/
theorem length_le_of_stitchFrom {skip : Nat} {lines : List (String × Nat)} {record : String × Nat}
    (h : record ∈ stitchFrom skip lines) :
    ∃ line ∈ lines, line.2 = record.2 ∧ line.1.length ≤ record.1.length := by
  induction lines generalizing skip with
  | nil => cases skip <;> cases h
  | cons line rest ih =>
    have hlater : ∀ {skip}, record ∈ stitchFrom skip rest →
        ∃ l ∈ line :: rest, l.2 = record.2 ∧ l.1.length ≤ record.1.length := by
      intro skip h
      obtain ⟨l, hl, hsame⟩ := ih h
      exact ⟨l, List.mem_cons_of_mem _ hl, hsame⟩
    cases skip with
    | succ k => exact hlater h
    | zero =>
      rw [stitchFrom] at h
      cases hj : joined line.1 rest with
      | none =>
        rw [hj] at h
        rcases List.mem_cons.1 h with rfl | h
        · exact ⟨record, List.mem_cons_self, rfl, Nat.le_refl _⟩
        · exact hlater h
      | some bodies =>
        rw [hj] at h
        rcases List.mem_cons.1 h with rfl | h
        · exact ⟨line, List.mem_cons_self, rfl, length_le_merged line.1 bodies⟩
        · exact hlater h

theorem inferred_key_ne (hkeys : Function.Injective env.newV5) (offset : Nat)
    (text ruleId trigger : String) :
    env.idempotencyKey feed offset text ≠ env.inferredIdempotencyKey ruleId trigger := by
  intro h
  have hhead : (logSourceName feed.source).toList.head? = some 'i' := by
    have hname : ∀ (rest : String), (logSourceName feed.source ++ rest).toList.head? =
        (logSourceName feed.source).toList.head? := by
      intro rest
      cases feed.source <;> simp [logSourceName]
    unfold idempotencyKey inferredIdempotencyKey at h
    cases hsig : feed.fileSig with
    | none =>
      simp only [hsig, String.append_assoc] at h
      rw [← hname, hkeys h]
      simp
    | some sig =>
      simp only [hsig, String.append_assoc] at h
      rw [← hname, hkeys h]
      simp
  revert hhead
  cases feed.source <;> decide

/-- A line whose key a call has used was passed on alone in it. -/
theorem passedAlone_of_key (hkeys : Function.Injective env.newV5)
    {buffers : List (List (String × Nat))} (hinc : buffers.flatten.Pairwise (·.2 < ·.2))
    {line : String × Nat} (hline : line ∈ buffers.flatten) {buffer : List (String × Nat)}
    (hbuffer : buffer ∈ buffers) {item : BufferItem}
    (hitem : item ∈ env.items feed (recordsOf buffer))
    (hkey : item.key = env.idempotencyKey feed line.2 line.1) : PassedAlone buffers line := by
  rcases List.mem_append.1 hitem with hitem | hitem
  · -- a summary has a longer text in its key than any line at its place
    obtain ⟨burst, -, hburst⟩ := List.mem_filterMap.1 hitem
    obtain ⟨record, hrecord, -, hkey', -⟩ := burstItem_eq_some hburst
    rw [hkey] at hkey'
    obtain ⟨hoffset, htext⟩ := idempotencyKey_inj hkeys hkey'
    obtain ⟨stitched, hstitched, hparsed⟩ :=
      List.mem_filterMap.1 (List.mem_of_getElem? hrecord)
    obtain ⟨parsed, -, rfl⟩ := Option.map_eq_some_iff.1 hparsed
    obtain ⟨first, hfirst, hsame, hle⟩ := length_le_of_stitchFrom hstitched
    have hflat : first ∈ buffers.flatten := List.mem_flatten.2 ⟨buffer, hbuffer, hfirst⟩
    have heq : first = line := by
      by_contra hne
      have : Std.Symm fun x y : String × Nat => x.2 ≠ y.2 := ⟨fun _ _ h => h.symm⟩
      have hapart := (hinc.imp Nat.ne_of_lt).forall hflat hline hne
      exact hapart (hsame.trans hoffset.symm)
    have hlen := congrArg String.length htext
    simp only [syntheticLine, String.length_append] at hlen
    have hburstLen : "|burst:".length = 7 := by decide
    rw [heq] at hle
    omega
  · obtain ⟨p, record, hrecord, hfree, hrecordItem⟩ := mem_lineItems hitem
    rw [(lineItem_eq_some hrecordItem).2.1] at hkey
    obtain ⟨hoffset, htext⟩ := idempotencyKey_inj hkeys hkey
    refine ⟨buffer, hbuffer, p, (List.getElem?_eq_some_iff.1 hrecord).1, ?_, hfree⟩
    rw [hrecord]
    exact congrArg some (Prod.ext htext hoffset)

/-- A log that is ingested again leaves every table as the backfill left it exactly when all its
events were passed on alone. -/
theorem reingest_unchanged_iff (env : IngestEnv) (hkeys : Function.Injective env.newV5)
    (feed : LogFeed) (inferenceRules : List CompiledInferenceRule) (chunkLines : Nat)
    (enableV2 : Bool) (bytes : List UInt8) :
    (∀ events,
        env.runReingest feed (env.backfilled feed inferenceRules chunkLines enableV2 events bytes)
            bytes =
          env.backfilled feed inferenceRules chunkLines enableV2 events bytes) ↔
      ∀ line ∈ archiveLines bytes 0, env.Recognised line →
        PassedAlone (backfillBuffers chunkLines (archiveLines bytes 0)) line := by
  have hflat := backfillBuffers_flatten chunkLines (archiveLines bytes 0)
  have hinc := archiveLines_increasing bytes 0
  obtain ⟨rows, hrows, hfold⟩ := exists_writes env feed inferenceRules enableV2 .default
    (backfillBuffers chunkLines (archiveLines bytes 0))
  have hbackfilled : ∀ events, env.backfilled feed inferenceRules chunkLines enableV2 events bytes =
      Inserts.insertAll env.rowConflict events rows := fun events => by
    rw [backfilled, backfillLines_eq, hfold]
  simp only [hbackfilled, runReingest_eq, Inserts.insertAll_eq_self]
  constructor
  · intro h line hline hevent
    obtain ⟨item, hitem⟩ := (@recognised_iff env feed line).1 hevent
    -- every row of the backfill meets something else that has its key
    have hblocked : Inserts.insertAll env.rowConflict (rows.map blocker) rows = rows.map blocker :=
      Inserts.insertAll_eq_self.2 fun row hrow =>
        ⟨_, List.mem_map_of_mem hrow, rowConflict_blocker row⟩
    obtain ⟨x, hx, hconflict⟩ := h (rows.map blocker) (env.row feed item)
      (List.mem_map_of_mem (List.mem_filterMap.2 ⟨line, hline, hitem⟩))
    rw [hblocked] at hx
    obtain ⟨row, hrow, rfl⟩ := List.mem_map.1 hx
    obtain ⟨parsed, -, hlineItem⟩ := rawItem_eq_some hitem
    have hkey : row.idempotencyKey = env.idempotencyKey feed line.2 line.1 := by
      simp only [rowConflict, Bool.or_eq_true, beq_iff_eq] at hconflict
      rcases hconflict with hconflict | hconflict
      · exact hconflict.symm.trans (lineItem_eq_some hlineItem).2.1
      · refine absurd hconflict (contentKey_ne hkeys (separator_not_mem_eventTypeKey item.event)
          ?_ ?_)
        · show unitSeparatorChar ∉ "".toList
          decide
        · show eventTypeKey item.event ≠ ""
          exact eventTypeKey_ne_empty item.event
    rcases hrows.only row hrow with ⟨buffer, hbuffer, other, hother, rfl⟩ | ⟨conclusion, rfl⟩
    · rw [← hflat] at hinc hline
      exact passedAlone_of_key hkeys hinc hline hbuffer hother hkey
    · exact absurd hkey.symm (inferred_key_ne hkeys _ _ _ _)
  · intro h events row hrow
    obtain ⟨item, hitem, rfl⟩ := List.mem_map.1 hrow
    obtain ⟨line, hline, hitem⟩ := List.mem_filterMap.1 hitem
    obtain ⟨buffer, hbuffer, hmem⟩ :=
      mem_items_of_passedAlone (h line hline (recognised_iff.2 ⟨item, hitem⟩)) hitem
    exact Inserts.conflict_insertAll (rowConflict_self env) (hrows.items buffer hbuffer item hmem)

/-! ### Three notifications -/

def noticeBody : String := "Added notification \"a\" [1] to queue."

/-- What the classifier makes of the line below. -/
def noticeEvent (line : LogLine) : Option GameEvent :=
  if line.eventName = some "SHUDEvent_OnNotification" ∧ line.body = noticeBody then
    some (.hudNotification ⟨line.timestamp, "a", 1, none, none⟩)
  else none

def noticeJson (event : GameEvent) : String :=
  match event with
  | .hudNotification e =>
    "\x7b\"type\":\"hud_notification\",\"timestamp\":\"" ++ e.timestamp ++ "\",\"text\":\"" ++ e.text ++
      "\",\"notification_id\":1,\"mission_id\":null,\"objective_id\":null\x7d"
  | .burstSummary s => summaryJson s
  | _ => ""

def noticeEnv : IngestEnv where
  classify := noticeEvent
  applyRemoteRules _ := none
  observed line s := by
    refine ⟨?_, by simp⟩
    unfold noticeEvent
    split
    · simp
    · simp
  toJson := noticeJson
  toLowercase := Text.lower
  newV5 := id
  parseTs _ := none

def noticeLine : List UInt8 :=
  ("<1> <SHUDEvent_OnNotification> " ++ noticeBody ++ "\n").toList.map fun c => c.toNat.toUInt8

/-- Two are no burst. -/
theorem reingest_unchanged_two :
    noticeEnv.runReingest ⟨.live, none⟩
        (noticeEnv.backfilled ⟨.live, none⟩ builtInInferenceRules 10000 true []
          (noticeLine ++ noticeLine)) (noticeLine ++ noticeLine) =
      noticeEnv.backfilled ⟨.live, none⟩ builtInInferenceRules 10000 true []
        (noticeLine ++ noticeLine) := by
  refine (reingest_unchanged_iff noticeEnv Function.injective_id ⟨.live, none⟩
    builtInInferenceRules 10000 true (noticeLine ++ noticeLine)).2 ?_ []
  have halone : ∀ line ∈ archiveLines (noticeLine ++ noticeLine) 0,
      PassedAlone (backfillBuffers 10000 (archiveLines (noticeLine ++ noticeLine) 0)) line := by
    decide +kernel
  exact fun line hline _ => halone line hline

/-- Of three the backfill stores one summary, and the re-ingest stores one of them. -/
theorem reingest_not_unchanged :
    ¬ ∀ (env : IngestEnv), Function.Injective env.newV5 →
      ∀ (feed : LogFeed) (inferenceRules : List CompiledInferenceRule) (chunkLines : Nat)
        (enableV2 : Bool) (events : List EventsRow) (bytes : List UInt8),
        env.runReingest feed
            (env.backfilled feed inferenceRules chunkLines enableV2 events bytes) bytes =
          env.backfilled feed inferenceRules chunkLines enableV2 events bytes := by
  intro h
  have hsame := h noticeEnv Function.injective_id ⟨.live, none⟩ [] 10000 false []
    (noticeLine ++ noticeLine ++ noticeLine)
  exact absurd hsame (by decide +kernel)

end IngestEnv

end StarStats
