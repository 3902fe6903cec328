import StarStats.Client.Proof.Backfill
import StarStats.Client.Suppression

/-!
# No line disappears into a burst

A record is suppressed by a burst whose summary was written or met a row, and is passed to
`process_line` once otherwise (`lines_kept`). A second call over the same lines stores rows that all
meet one of the first; it can only add what the rules infer from another window or in other states.
-/

namespace StarStats

namespace IngestEnv

variable {env : IngestEnv} {feed : LogFeed} {enableV2 : Bool}

/-! ## The calls of `process_line` -/

/-- The bursts whose summaries are stored. -/
def storedBursts (fails : Nat → Bool) (bursts : List BurstHit) : List BurstHit :=
  (bursts.zipIdx.filter fun x => !fails x.2).map (·.1)

theorem mem_storedBursts {fails : Nat → Bool} {bursts : List BurstHit} {burst : BurstHit} :
    burst ∈ storedBursts fails bursts ↔ ∃ k, bursts[k]? = some burst ∧ fails k = false := by
  simp only [storedBursts, List.mem_map, List.mem_filter, Bool.not_eq_true', Prod.exists,
    List.mem_zipIdx_iff_getElem?]
  constructor
  · rintro ⟨b, k, ⟨hk, hfails⟩, rfl⟩
    exact ⟨k, hk, hfails⟩
  · rintro ⟨k, hk, hfails⟩
    exact ⟨burst, k, ⟨hk, hfails⟩, rfl⟩

theorem storedBursts_of_none (bursts : List BurstHit) :
    storedBursts (fun _ => false) bursts = bursts := by
  simp only [storedBursts, Bool.not_false, List.filter_true, List.zipIdx_map_fst]

theorem foldl_storedBursts {σ : Type*} (fails : Nat → Bool) (bursts : List BurstHit)
    (store : σ → BurstHit → σ) (st : σ) :
    bursts.zipIdx.foldl (fun st x => if fails x.2 then st else store st x.1) st =
      (storedBursts fails bursts).foldl store st := by
  rw [storedBursts, List.foldl_map, List.foldl_filter]
  congr 1
  funext st x
  cases fails x.2 <;> rfl

/-- The places of the buffer that the stored summaries stand for. -/
def suppressedPlaces (burstRules : List BurstRule) (fails : Nat → Bool)
    (lines : List (String × Nat)) : List Nat :=
  (storedBursts fails (detectBursts (burstWindow lines) burstRules)).flatMap
    (suppressedBy (placedRecords (stitchMultilineRecords lines)))

/-- The summaries that are stored, then the events of the records that are passed on. -/
def itemsKept (env : IngestEnv) (feed : LogFeed) (burstRules : List BurstRule)
    (fails : Nat → Bool) (lines : List (String × Nat)) : List BufferItem :=
  (storedBursts fails (detectBursts (burstWindow lines) burstRules)).filterMap
      (env.burstItem feed (recordsOf lines)) ++
    (stitchMultilineRecords lines).zipIdx.filterMap fun x =>
      if x.2 ∈ suppressedPlaces burstRules fails lines then none
      else (structuralParse x.1.1).bind fun parsed => env.lineItem feed (x.1, parsed)

theorem processBufferFailing_eq (inferenceRules : List CompiledInferenceRule)
    (burstRules : List BurstRule) (fails : Nat → Bool) (st : IngestState)
    (lines : List (String × Nat)) :
    env.processBufferFailing feed inferenceRules burstRules enableV2 fails st lines =
      let stored := (env.itemsKept feed burstRules fails lines).foldl (env.storeItem feed enableV2) st
      { state := if enableV2 then env.runInferenceAndPersist feed inferenceRules stored else stored
        passed := (stitchMultilineRecords lines).zipIdx.filter
          (·.2 ∉ suppressedPlaces burstRules fails lines) } := by
  have hrange : ∀ burst ∈ storedBursts fails (detectBursts (burstWindow lines) burstRules),
      InRange ((placedRecords (stitchMultilineRecords lines)).map (·.2.2)) burst := by
    intro burst hburst
    obtain ⟨k, hk, -⟩ := mem_storedBursts.1 hburst
    rw [placed_window]
    exact inRange_of_mem (List.mem_of_getElem? hk)
  have hstored := foldl_storedBursts fails (detectBursts (burstWindow lines) burstRules)
    (env.storeBurst feed enableV2 (stitchMultilineRecords lines)
      (parseable (stitchMultilineRecords lines))) (st, [])
  rw [foldl_storeBurst hrange, List.nil_append, ← recordsOf_eq] at hstored
  have hpassed : ∀ st, ((stitchMultilineRecords lines).zipIdx.filter
        (·.2 ∉ suppressedPlaces burstRules fails lines)).foldl
          (fun st x => env.ingestOneLine feed enableV2 st x.1) st =
      ((stitchMultilineRecords lines).zipIdx.filterMap fun x =>
        if x.2 ∈ suppressedPlaces burstRules fails lines then none
        else (structuralParse x.1.1).bind fun parsed =>
          env.lineItem feed (x.1, parsed)).foldl (env.storeItem feed enableV2) st := by
    intro st
    rw [← foldl_ingestOneLine, List.foldl_filter]
    congr 1
    funext st x
    by_cases h : x.2 ∈ suppressedPlaces burstRules fails lines
    · simp [h]
    · simp [h]
  simp only [processBufferFailing, parseable_window, hstored]
  rw [itemsKept, List.foldl_append, ← hpassed]
  rfl

/-- When nothing fails, it is the call of before. -/
theorem processBufferFailing_of_none (inferenceRules : List CompiledInferenceRule)
    (burstRules : List BurstRule) (st : IngestState) (lines : List (String × Nat)) :
    (env.processBufferFailing feed inferenceRules burstRules enableV2 (fun _ => false) st
        lines).state =
      env.processBuffer feed inferenceRules burstRules enableV2 st lines := by
  have hstored := foldl_storedBursts (fun _ => false)
    (detectBursts ((parseable (stitchMultilineRecords lines)).map (·.2)) burstRules)
    (env.storeBurst feed enableV2 (stitchMultilineRecords lines)
      (parseable (stitchMultilineRecords lines))) (st, [])
  rw [storedBursts_of_none] at hstored
  simp only [processBufferFailing, processBuffer, hstored, List.foldl_filter, decide_not,
    Bool.not_eq_true', decide_eq_false_iff_not, ite_not]

/-! ## The rows of a call -/

/-- The window behind the envelopes of the items. -/
def pushed (feed : LogFeed) (enableV2 : Bool) (window : InferenceWindow)
    (items : List BufferItem) : InferenceWindow :=
  items.foldl (fun window item => if enableV2 then
    window.push (envelope feed item.key item.event item.raw item.offset) else window) window

theorem foldl_storeItem_window (st : IngestState) (items : List BufferItem) :
    (items.foldl (env.storeItem feed enableV2) st).window =
      pushed feed enableV2 st.window items := by
  induction items generalizing st with
  | nil => rfl
  | cons item items ih =>
    rw [List.foldl_cons, ih]
    rfl

theorem pushed_emitted (window : InferenceWindow) (items : List BufferItem) :
    (pushed feed enableV2 window items).emitted = window.emitted := by
  induction items generalizing window with
  | nil => rfl
  | cons item items ih =>
    rw [pushed, List.foldl_cons, ← pushed, ih]
    split <;> rfl

/-- The rows of the conclusions whose keys were not emitted yet. -/
def freshRows (env : IngestEnv) (feed : LogFeed) :
    List String → List InferredEvent → List EventsRow
  | _, [] => []
  | emitted, conclusion :: rest =>
    let row := env.inferredRow feed conclusion
    if row.idempotencyKey ∈ emitted then freshRows env feed emitted rest
    else row :: freshRows env feed (row.idempotencyKey :: emitted) rest

theorem freshRows_subset (emitted : List String) (conclusions : List InferredEvent) :
    freshRows env feed emitted conclusions ⊆ conclusions.map (env.inferredRow feed) := by
  induction conclusions generalizing emitted with
  | nil => exact List.Subset.refl _
  | cons conclusion rest ih =>
    simp only [freshRows, List.map_cons]
    split
    · exact List.subset_cons_of_subset _ (ih _)
    · exact List.cons_subset_cons _ (ih _)

theorem foldl_persistInferred (st : IngestState) (conclusions : List InferredEvent) :
    (conclusions.foldl (env.persistInferred feed) st).events =
        Inserts.insertAll env.rowConflict st.events
          (freshRows env feed st.window.emitted conclusions) ∧
      (conclusions.foldl (env.persistInferred feed) st).window.recent = st.window.recent := by
  induction conclusions generalizing st with
  | nil => exact ⟨rfl, rfl⟩
  | cons conclusion rest ih =>
    rw [List.foldl_cons, (ih _).1, (ih _).2]
    simp only [persistInferred, freshRows]
    split
    · exact ⟨rfl, rfl⟩
    · exact ⟨rfl, rfl⟩

/-- The rows that a call writes from what the rules conclude over its window. -/
def rowsInferred (env : IngestEnv) (feed : LogFeed) (inferenceRules : List CompiledInferenceRule)
    (enableV2 : Bool) (emitted : List String) (recent : List EventEnvelope) : List EventsRow :=
  if enableV2 then
    freshRows env feed emitted (inferWithRules env.parseTs recent .default inferenceRules)
  else []

theorem rowsInferred_subset {inferenceRules : List CompiledInferenceRule} {emitted : List String}
    (recent : List EventEnvelope) :
    rowsInferred env feed inferenceRules enableV2 emitted recent ⊆
      (inferWithRules env.parseTs recent .default inferenceRules).map (env.inferredRow feed) := by
  unfold rowsInferred
  split
  · exact freshRows_subset _ _
  · exact List.nil_subset _

/-- What is inferred behind the items is written behind their rows. -/
theorem inferred_rows (inferenceRules : List CompiledInferenceRule) (st : IngestState)
    (items : List BufferItem) :
    let stored := items.foldl (env.storeItem feed enableV2) st
    let call := if enableV2 then env.runInferenceAndPersist feed inferenceRules stored else stored
    call.window.recent = (pushed feed enableV2 st.window items).recent ∧
      call.events = Inserts.insertAll env.rowConflict st.events (items.map (env.row feed) ++
        rowsInferred env feed inferenceRules enableV2 st.window.emitted call.window.recent) := by
  dsimp only
  cases enableV2 with
  | false =>
    rw [rowsInferred, if_neg Bool.false_ne_true, if_neg Bool.false_ne_true, List.append_nil]
    exact ⟨congrArg _ (foldl_storeItem_window _ _), foldl_storeItem_events _ _ _⟩
  | true =>
    simp only [if_true, runInferenceAndPersist, rowsInferred, (foldl_persistInferred _ _).1,
      (foldl_persistInferred _ _).2, foldl_storeItem_window, foldl_storeItem_events,
      pushed_emitted, Inserts.insertAll_append, and_self]

/-- A call writes the rows of its items, then those that it infers. -/
theorem processBufferFailing_rows (inferenceRules : List CompiledInferenceRule)
    (burstRules : List BurstRule) (fails : Nat → Bool) (st : IngestState)
    (lines : List (String × Nat)) :
    let call := (env.processBufferFailing feed inferenceRules burstRules enableV2 fails st lines).state
    let items := env.itemsKept feed burstRules fails lines
    call.window.recent = (pushed feed enableV2 st.window items).recent ∧
      call.events = Inserts.insertAll env.rowConflict st.events (items.map (env.row feed) ++
        rowsInferred env feed inferenceRules enableV2 st.window.emitted call.window.recent) := by
  rw [processBufferFailing_eq]
  exact inferred_rows inferenceRules st _

theorem processBuffer_rows (inferenceRules : List CompiledInferenceRule)
    (burstRules : List BurstRule) (st : IngestState) (lines : List (String × Nat)) :
    let call := env.processBuffer feed inferenceRules burstRules enableV2 st lines
    let items := env.itemsKept feed burstRules (fun _ => false) lines
    call.window.recent = (pushed feed enableV2 st.window items).recent ∧
      call.events = Inserts.insertAll env.rowConflict st.events (items.map (env.row feed) ++
        rowsInferred env feed inferenceRules enableV2 st.window.emitted call.window.recent) := by
  rw [← processBufferFailing_of_none]
  exact processBufferFailing_rows _ _ _ _ _

/-! ## Suppressed records -/

theorem mem_suppressedPlaces {burstRules : List BurstRule} {fails : Nat → Bool}
    {lines : List (String × Nat)} {i : Nat} :
    i ∈ suppressedPlaces burstRules fails lines ↔
      ∃ k burst, (detectBursts (burstWindow lines) burstRules)[k]? = some burst ∧ fails k = false ∧
        ∃ p ∈ burst.memberIndices, ∃ line,
          (parseable (stitchMultilineRecords lines))[p]? = some (i, line) := by
  simp only [suppressedPlaces, List.mem_flatMap, mem_storedBursts, suppressedBy, List.mem_map,
    List.mem_filterMap, parseable_eq, List.getElem?_map, Option.map_eq_some_iff, Prod.mk.injEq]
  constructor
  · rintro ⟨burst, ⟨k, hk, hfails⟩, x, ⟨p, hp, hx⟩, rfl⟩
    exact ⟨k, burst, hk, hfails, p, hp, _, x, hx, rfl, rfl⟩
  · rintro ⟨k, burst, hk, hfails, p, hp, line, x, hx, rfl, rfl⟩
    exact ⟨burst, ⟨k, hk, hfails⟩, x, ⟨p, hp, hx⟩, rfl⟩

/-- A summary whose insert does not fail is held afterwards. -/
theorem held_of_stored (inferenceRules : List CompiledInferenceRule) {burstRules : List BurstRule}
    {fails : Nat → Bool} (st : IngestState) {lines : List (String × Nat)} {k : Nat}
    {burst : BurstHit} (hk : (detectBursts (burstWindow lines) burstRules)[k]? = some burst)
    (hfails : fails k = false) :
    ∃ item, env.burstItem feed (recordsOf lines) burst = some item ∧
      env.Held feed (env.processBufferFailing feed inferenceRules burstRules enableV2 fails st
        lines).state.events item := by
  obtain ⟨item, hitem⟩ := @exists_burstItem env feed _ _ (inRange_of_mem (List.mem_of_getElem? hk))
  refine ⟨item, hitem, ?_⟩
  have hkept : item ∈ env.itemsKept feed burstRules fails lines := List.mem_append_left _
    (List.mem_filterMap.2 ⟨burst, mem_storedBursts.2 ⟨k, hk, hfails⟩, hitem⟩)
  rw [(processBufferFailing_rows _ _ _ _ _).2]
  exact Inserts.conflict_insertAll (rowConflict_self env)
    (List.mem_append_left _ (List.mem_map_of_mem hkept))

/-- The suppressed records are those of the bursts whose summaries were stored. -/
theorem mem_suppressedPlaces_iff (env : IngestEnv) (feed : LogFeed)
    (inferenceRules : List CompiledInferenceRule) {burstRules : List BurstRule}
    {fails : Nat → Bool} (st : IngestState) {lines : List (String × Nat)} {i : Nat} :
    i ∈ suppressedPlaces burstRules fails lines ↔
      ∃ k, fails k = false ∧ env.Summarised feed burstRules lines
        (env.processBufferFailing feed inferenceRules burstRules enableV2 fails st
          lines).state.events k i := by
  rw [mem_suppressedPlaces]
  constructor
  · rintro ⟨k, burst, hk, hfails, hmember⟩
    exact ⟨k, hfails, burst, hk, hmember, held_of_stored inferenceRules st hk hfails⟩
  · rintro ⟨k, hfails, burst, hk, hmember, -⟩
    exact ⟨k, burst, hk, hfails, hmember⟩

/-- A place of a list, among all its places. -/
theorem zipIdx_filter_place {α : Type*} [DecidableEq α] {l : List α} {i : Nat} {a : α}
    (h : l[i]? = some a) : l.zipIdx.filter (·.2 == i) = [(a, i)] := by
  have hnodup : l.zipIdx.Nodup := (zipIdx_increasing l 0).imp fun {x y} hlt heq => by
    rw [heq] at hlt
    exact Nat.lt_irrefl _ hlt
  have hmem : (a, i) ∈ l.zipIdx := List.mem_zipIdx_iff_getElem?.2 h
  have hsame : ∀ x ∈ l.zipIdx, (x.2 == i) = (x == (a, i)) := by
    intro x hx
    have hget := List.mem_zipIdx_iff_getElem?.1 hx
    rw [Bool.eq_iff_iff, beq_iff_eq, beq_iff_eq]
    constructor
    · intro hi
      rw [hi, h] at hget
      exact Prod.ext (Option.some.inj hget).symm hi
    · rintro rfl
      rfl
  rw [List.filter_congr hsame, List.filter_beq, List.count_eq_one_of_mem hnodup hmem]
  rfl

theorem passedAt_eq (env : IngestEnv) (feed : LogFeed) (enableV2 : Bool)
    (inferenceRules : List CompiledInferenceRule) (burstRules : List BurstRule)
    (fails : Nat → Bool) (st : IngestState) {lines : List (String × Nat)} {i : Nat}
    {record : String × Nat} (h : (stitchMultilineRecords lines)[i]? = some record) :
    (env.processBufferFailing feed inferenceRules burstRules enableV2 fails st lines).passedAt i =
      if i ∈ suppressedPlaces burstRules fails lines then [] else [(record, i)] := by
  rw [BufferRun.passedAt, processBufferFailing_eq]
  dsimp only
  rw [List.filter_comm, zipIdx_filter_place h, List.filter_singleton]
  by_cases hmem : i ∈ suppressedPlaces burstRules fails lines
  · simp [hmem]
  · simp [hmem]

/-! ## The same lines again -/

/-- The same lines again only add what is inferred. -/
theorem processBuffer_again (inferenceRules again : List CompiledInferenceRule)
    (burstRules : List BurstRule) (st : IngestState) (lines : List (String × Nat))
    (window : InferenceWindow) :
    let first := env.processBuffer feed inferenceRules burstRules enableV2 st lines
    let second := env.processBuffer feed again burstRules enableV2 ⟨first.events, window⟩ lines
    second.events = Inserts.insertAll env.rowConflict first.events
      (rowsInferred env feed again enableV2 window.emitted second.window.recent) := by
  intro first second
  obtain ⟨-, hfirst⟩ := @processBuffer_rows env feed enableV2 inferenceRules burstRules st lines
  obtain ⟨-, hsecond⟩ := @processBuffer_rows env feed enableV2 again burstRules
    ⟨first.events, window⟩ lines
  have hitems : Inserts.insertAll env.rowConflict first.events
      ((env.itemsKept feed burstRules (fun _ => false) lines).map (env.row feed)) =
        first.events := by
    apply Inserts.insertAll_eq_self.2
    intro row hrow
    show ∃ x ∈ first.events, env.rowConflict row x = true
    rw [hfirst]
    exact Inserts.conflict_insertAll (rowConflict_self env) (List.mem_append_left _ hrow)
  rw [hsecond, Inserts.insertAll_append, hitems]

/-- Over the same window the rules conclude the same. -/
theorem inferred_again (inferenceRules : List CompiledInferenceRule) (burstRules : List BurstRule)
    (st : IngestState) (lines : List (String × Nat)) :
    let first := env.processBuffer feed inferenceRules burstRules enableV2 st lines
    let second := env.processBuffer feed inferenceRules burstRules enableV2
      ⟨first.events, st.window⟩ lines
    Inserts.insertAll env.rowConflict first.events
      (rowsInferred env feed inferenceRules enableV2 st.window.emitted second.window.recent) =
        first.events := by
  intro first second
  obtain ⟨hfirstWindow, hfirst⟩ :=
    @processBuffer_rows env feed enableV2 inferenceRules burstRules st lines
  obtain ⟨hsecondWindow, -⟩ := @processBuffer_rows env feed enableV2 inferenceRules burstRules
    ⟨first.events, st.window⟩ lines
  have hrecent : second.window.recent = first.window.recent := hsecondWindow.trans hfirstWindow.symm
  apply Inserts.insertAll_eq_self.2
  intro row hrow
  rw [hrecent] at hrow
  show ∃ x ∈ first.events, env.rowConflict row x = true
  rw [hfirst]
  exact Inserts.conflict_insertAll (rowConflict_self env) (List.mem_append_right _ hrow)

/-- A record is in a burst whose summary was stored or goes to `process_line` once, never both; the
same lines again, with whatever window and rule states other calls have left, keep every row and
add none but what the rules conclude. -/
theorem lines_kept (env : IngestEnv) (feed : LogFeed) (burstRules : List BurstRule)
    (enableV2 : Bool) (run : RuledState) (lines : List (String × Nat)) :
    (∀ (fails : Nat → Bool) (i : Nat) (record : String × Nat),
      (stitchMultilineRecords lines)[i]? = some record →
        let call := env.processBufferFailing feed run.rules burstRules enableV2 fails run.ingest
          lines
        let stored := ∃ k, fails k = false ∧
          env.Summarised feed burstRules lines call.state.events k i
        (stored ∧ call.passedAt i = []) ∨ (¬ stored ∧ call.passedAt i = [(record, i)])) ∧
    ∀ (window : InferenceWindow) (rules : List CompiledInferenceRule),
      let first := env.processBufferRuled feed burstRules enableV2 run lines
      let second := env.processBufferRuled feed burstRules enableV2
        ⟨⟨first.ingest.events, window⟩, rules⟩ lines
      (enableV2 = false ∨ (window = run.ingest.window ∧ rules = run.rules) →
        second.ingest.events = first.ingest.events) ∧
        first.ingest.events <+: second.ingest.events ∧
        ∀ row ∈ second.ingest.events, row ∈ first.ingest.events ∨ ∃ conclusion ∈
          inferWithRules env.parseTs second.ingest.window.recent .default rules,
          row = env.inferredRow feed conclusion := by
  constructor
  · intro fails i record hi call stored
    have hiff : i ∈ suppressedPlaces burstRules fails lines ↔ stored :=
      mem_suppressedPlaces_iff env feed run.rules run.ingest
    have hpassed := passedAt_eq env feed enableV2 run.rules burstRules fails run.ingest hi
    by_cases h : i ∈ suppressedPlaces burstRules fails lines
    · rw [if_pos h] at hpassed
      exact .inl ⟨hiff.1 h, hpassed⟩
    · rw [if_neg h] at hpassed
      exact .inr ⟨fun hstored => h (hiff.2 hstored), hpassed⟩
  · intro window rules first second
    have hagain : second.ingest.events = Inserts.insertAll env.rowConflict first.ingest.events
        (rowsInferred env feed rules enableV2 window.emitted second.ingest.window.recent) :=
      processBuffer_again run.rules rules burstRules run.ingest lines window
    refine ⟨fun h => ?_, ?_, fun row hrow => ?_⟩
    · rw [hagain]
      rcases h with rfl | ⟨rfl, rfl⟩
      · rfl
      · exact inferred_again run.rules burstRules run.ingest lines
    · rw [hagain]
      exact Inserts.prefix_insertAll _ _
    · rw [hagain] at hrow
      refine (Inserts.mem_or_of_mem_insertAll hrow).imp_right fun hnew => ?_
      obtain ⟨conclusion, hmem, rfl⟩ := List.mem_map.1 (rowsInferred_subset _ hnew)
      exact ⟨conclusion, hmem, rfl⟩

/-! ## Where they show -/

/-- The name behind `Planet `. -/
def planetOf (body : String) : Option String :=
  (Text.splitOnce "Planet ".toList body.toList).map fun x =>
    String.ofList (x.2.takeWhile (!Text.isWhitespace ·))

def landingEvent (line : LogLine) : Option GameEvent :=
  if line.eventName = some "InvalidateAllTerrainCells" then
    (planetOf line.body).map fun planet => .planetTerrainLoad ⟨line.timestamp, planet⟩
  else none

def landingJson (event : GameEvent) : String :=
  match event with
  | .planetTerrainLoad e =>
    "\x7b\"type\":\"planet_terrain_load\",\"timestamp\":\"" ++ e.timestamp ++ "\",\"planet\":\"" ++
      e.planet ++ "\"\x7d"
  | .locationChanged e =>
    "\x7b\"type\":\"location_changed\",\"timestamp\":\"" ++ e.timestamp ++ "\",\"from\":\"" ++
      e.from.getD "" ++ "\",\"to\":\"" ++ e.to ++ "\"\x7d"
  | _ => ""

/-- Only the loads of terrain are recognised; keys are not hashed. -/
def landingEnv : IngestEnv where
  classify := landingEvent
  applyRemoteRules _ := none
  observed line s := by
    refine ⟨?_, by simp⟩
    unfold landingEvent
    split
    · simp
    · simp
  toJson := landingJson
  toLowercase := Text.lower
  newV5 := id
  parseTs _ := none

def landing (timestamp planet : String) : String :=
  "<" ++ timestamp ++ "> <InvalidateAllTerrainCells> Planet " ++ planet

/-- From one moon to another. -/
def landings : List (String × Nat) :=
  [(landing "18:00" "OOC_Daymar", 0), (landing "19:00" "OOC_Yela", 57)]

def vehiclesStowed : List (String × Nat) := archiveLines (stowed ++ stowed ++ stowed) 0

/-- An insert may fail although the summary is there from an earlier call: then the record is
summarised and passed on. And a second call with the same rule list takes the way back for another
journey. -/
theorem lines_not_kept :
    (¬ ∀ (env : IngestEnv) (feed : LogFeed) (inferenceRules : List CompiledInferenceRule)
        (burstRules : List BurstRule) (enableV2 : Bool) (fails : Nat → Bool) (st : IngestState)
        (lines : List (String × Nat)) (i : Nat) (record : String × Nat),
        (stitchMultilineRecords lines)[i]? = some record →
          let run := env.processBufferFailing feed inferenceRules burstRules enableV2 fails st lines
          Xor (∃ k, env.Summarised feed burstRules lines run.state.events k i)
            (run.passedAt i = [(record, i)])) ∧
      ¬ ∀ (env : IngestEnv) (feed : LogFeed) (burstRules : List BurstRule) (enableV2 : Bool)
        (run : RuledState) (lines : List (String × Nat)),
        let call := fun run => env.processBufferRuled feed burstRules enableV2 run lines
        (call (call run)).ingest.events = (call run).ingest.events := by
  constructor
  · intro h
    have hxor := h stowingEnv ⟨.live, none⟩ [] builtinBurstRules false (fun _ => true)
      (stowingEnv.processBuffer ⟨.live, none⟩ [] builtinBurstRules false ⟨[], .default⟩
        vehiclesStowed) vehiclesStowed 0 _ rfl
    rcases hxor with ⟨-, hnot⟩ | ⟨-, hnot⟩
    · exact hnot (by decide +kernel)
    · exact hnot ⟨0, by decide +kernel⟩
  · intro h
    have hsame := h landingEnv ⟨.live, none⟩ builtinBurstRules true
      ⟨⟨[], .default⟩, builtInInferenceRules⟩ landings
    exact absurd hsame (by decide +kernel)

end IngestEnv

end StarStats
