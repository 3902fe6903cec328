import StarStats.Client.Backfill
import StarStats.Client.Proof.Stored
import StarStats.Client.Proof.Tailer

/-!
# What a backfill stores

The loop hands each line over once, in consecutive buffers (`backfillLines_eq`,
`backfillBuffers_flatten`). `backfill_invisible_iff`: the table it leaves behind is that of one call
over all lines exactly when no burst is cut. A burst that is cut has a summary in the one call whose
key no summary of a part has.
-/

namespace StarStats

/-! ## The loop -/

section
variable {σ : Type*} (process : σ → List (String × Nat) → σ)

/-- One more line, in a loop over states and in the loop that collects the buffers. -/
theorem BackfillLoop.read_fold (chunkLines : Nat) (st : σ)
    (loop : BackfillLoop (List (List (String × Nat)))) (line : String × Nat) :
    BackfillLoop.read process chunkLines
        ⟨loop.state.foldl process st, loop.chunk, loop.carry⟩ line =
      let next := loop.read (fun buffers buf => buffers ++ [buf]) chunkLines line
      ⟨next.state.foldl process st, next.chunk, next.carry⟩ := by
  simp only [BackfillLoop.read]
  split
  · rw [List.foldl_append, List.foldl_cons, List.foldl_nil]
  · rfl

theorem BackfillLoop.flush_fold (st : σ) (loop : BackfillLoop (List (List (String × Nat)))) :
    BackfillLoop.flush process ⟨loop.state.foldl process st, loop.chunk, loop.carry⟩ =
      (loop.flush fun buffers buf => buffers ++ [buf]).foldl process st := by
  simp only [BackfillLoop.flush]
  split
  · rfl
  · rw [List.foldl_append, List.foldl_cons, List.foldl_nil]

/-- The loop processes the buffers, in order. -/
theorem backfillLines_eq (chunkLines : Nat) (st : σ) (lines : List (String × Nat)) :
    backfillLines process chunkLines st lines =
      (backfillBuffers chunkLines lines).foldl process st := by
  have hloop : ∀ loop : BackfillLoop (List (List (String × Nat))),
      (lines.foldl (BackfillLoop.read process chunkLines)
        ⟨loop.state.foldl process st, loop.chunk, loop.carry⟩).flush process =
      ((lines.foldl (BackfillLoop.read (fun buffers buf => buffers ++ [buf]) chunkLines)
        loop).flush fun buffers buf => buffers ++ [buf]).foldl process st := by
    induction lines with
    | nil => exact BackfillLoop.flush_fold process st
    | cons line lines ih =>
      intro loop
      rw [List.foldl_cons, List.foldl_cons, BackfillLoop.read_fold]
      exact ih _
  exact hloop ⟨[], [], []⟩

end

theorem BackfillLoop.flush_flatten (loop : BackfillLoop (List (List (String × Nat)))) :
    (loop.flush fun buffers buf => buffers ++ [buf]).flatten =
      loop.state.flatten ++ (loop.carry ++ loop.chunk) := by
  simp only [BackfillLoop.flush]
  split
  case isTrue hempty => rw [List.isEmpty_iff.1 hempty, List.append_nil]
  case isFalse => rw [List.flatten_append, List.flatten_singleton]

/-- Every line is in one buffer, in order. -/
theorem backfillBuffers_flatten (chunkLines : Nat) (lines : List (String × Nat)) :
    (backfillBuffers chunkLines lines).flatten = lines := by
  have hloop : ∀ loop : BackfillLoop (List (List (String × Nat))),
      ((lines.foldl (BackfillLoop.read (fun buffers buf => buffers ++ [buf]) chunkLines)
        loop).flush fun buffers buf => buffers ++ [buf]).flatten =
      loop.state.flatten ++ (loop.carry ++ (loop.chunk ++ lines)) := by
    induction lines with
    | nil =>
      intro loop
      rw [List.foldl_nil, BackfillLoop.flush_flatten, List.append_nil]
    | cons line lines ih =>
      intro loop
      rw [List.foldl_cons, ih]
      simp only [BackfillLoop.read]
      split
      case isTrue =>
        rw [List.flatten_append, List.flatten_singleton, List.append_assoc, List.nil_append,
          ← List.append_assoc (List.take _ _), List.take_append_drop]
        simp
      case isFalse => simp
  exact hloop ⟨[], [], []⟩

theorem archiveLines_eq (bytes : List UInt8) (start : Nat) :
    archiveLines bytes start = Tailer.textsFrom start (Tailer.linesOf (bytes.drop start)) := by
  rw [archiveLines, Tailer.readLoop_ok (fun _ h => by cases h)]

theorem archiveLines_increasing (bytes : List UInt8) (start : Nat) :
    (archiveLines bytes start).Pairwise (·.2 < ·.2) := by
  rw [archiveLines_eq]
  exact Tailer.textsFrom_increasing start _

/-- Lines that do not fill a chunk wait. -/
theorem foldl_read_short {σ : Type*} (process : σ → List (String × Nat) → σ) {chunkLines : Nat}
    (loop : BackfillLoop σ) {lines : List (String × Nat)}
    (h : loop.chunk.length + lines.length < chunkLines) :
    lines.foldl (BackfillLoop.read process chunkLines) loop =
      { loop with chunk := loop.chunk ++ lines } := by
  induction lines generalizing loop with
  | nil => rw [List.append_nil]; rfl
  | cons line lines ih =>
    rw [List.length_cons] at h
    have hread : BackfillLoop.read process chunkLines loop line =
        { loop with chunk := loop.chunk ++ [line] } := by
      have hshort : ¬ chunkLines ≤ (loop.chunk ++ [line]).length := by
        rw [List.length_append, List.length_singleton]
        omega
      rw [BackfillLoop.read, if_neg hshort]
    have hrest : (loop.chunk ++ [line]).length + lines.length < chunkLines := by
      rw [List.length_append, List.length_singleton]
      omega
    rw [List.foldl_cons, hread, ih _ hrest, List.append_assoc]
    rfl

/-- A full chunk is split behind the lines that are carried. -/
theorem foldl_read_full {σ : Type*} (process : σ → List (String × Nat) → σ) {chunkLines : Nat}
    (st : σ) (carry : List (String × Nat)) {lines : List (String × Nat)} {line : String × Nat}
    (hfull : lines.length + 1 = chunkLines) :
    (lines ++ [line]).foldl (BackfillLoop.read process chunkLines) ⟨st, [], carry⟩ =
      let buf := carry ++ (lines ++ [line])
      let cut := backfillCarrySplit buf builtinBurstRules
      ⟨process st (buf.take cut), [], buf.drop cut⟩ := by
  have hlt : ([] : List (String × Nat)).length + lines.length < chunkLines := by
    rw [List.length_nil]
    omega
  have hle : chunkLines ≤ (lines ++ [line]).length := by
    rw [List.length_append, List.length_singleton, hfull]
  rw [List.foldl_append, foldl_read_short process ⟨st, [], carry⟩ hlt, List.foldl_cons,
    List.foldl_nil, BackfillLoop.read, List.nil_append, if_pos hle]

/-- The buffers of a full chunk with less than a chunk behind it. -/
theorem backfillBuffers_chunk {chunkLines : Nat} {lines more : List (String × Nat)}
    {line : String × Nat} (hfull : lines.length + 1 = chunkLines)
    (hmore : more ≠ []) (hshort : more.length < chunkLines) :
    backfillBuffers chunkLines (lines ++ line :: more) =
      let cut := backfillCarrySplit (lines ++ [line]) builtinBurstRules
      [(lines ++ [line]).take cut, (lines ++ [line]).drop cut ++ more] := by
  have hsplit : lines ++ line :: more = (lines ++ [line]) ++ more := by simp
  rw [backfillBuffers, backfillLines, hsplit, List.foldl_append, foldl_read_full _ _ _ hfull,
    List.nil_append, foldl_read_short]
  · simp [BackfillLoop.flush, hmore]
  · simpa using hshort

/-- No burst is cut when none goes across a place between the buffers. -/
theorem keepsBursts_iff_joint {buffers : List (List (String × Nat))} (h : KeepsRecords buffers) :
    KeepsBursts buffers ↔ ∀ k < buffers.length + 1,
      Joint ((buffers.take k).flatMap recordsOf) ((buffers.drop k).flatMap recordsOf) := by
  rw [KeepsBursts, forall_isCut]
  refine forall₂_congr fun k _ => ?_
  have hsplit := List.take_append_drop k buffers
  generalize buffers.take k = before, buffers.drop k = after at hsplit ⊢
  subst hsplit
  have hcut : ¬ CutsRecord (before.flatten ++ after.flatten) before.flatten.length := by
    rw [← List.flatten_append]
    exact h _ ⟨before, after, rfl, rfl⟩
  rw [List.flatten_append, cutsBurst_length hcut, not_not, h.recordsOf_left, h.of_append.recordsOf]

namespace IngestEnv

variable {env : IngestEnv} {feed : LogFeed}

/-! ## The table -/

/-- The items enter the table one after another. -/
theorem foldl_storeItem_events (enableV2 : Bool) (st : IngestState) (items : List BufferItem) :
    (items.foldl (env.storeItem feed enableV2) st).events =
      Inserts.insertAll env.rowConflict st.events (items.map (env.row feed)) := by
  induction items generalizing st with
  | nil => rfl
  | cons item items ih =>
    rw [List.foldl_cons, ih, List.map_cons, Inserts.insertAll_cons]
    rfl

theorem processBuffer_events (inferenceRules : List CompiledInferenceRule) (st : IngestState)
    (lines : List (String × Nat)) :
    (env.processBuffer feed inferenceRules builtinBurstRules false st lines).events =
      Inserts.insertAll env.rowConflict st.events
        ((env.items feed (recordsOf lines)).map (env.row feed)) := by
  rw [processBuffer_eq]
  exact foldl_storeItem_events false st _

/-- So do those of one buffer after another. -/
theorem processBuffers_events (inferenceRules : List CompiledInferenceRule) (st : IngestState)
    (buffers : List (List (String × Nat))) :
    (env.processBuffers feed inferenceRules false st buffers).events =
      Inserts.insertAll env.rowConflict st.events
        (((buffers.map recordsOf).flatMap (env.items feed)).map (env.row feed)) := by
  induction buffers generalizing st with
  | nil => rfl
  | cons buffer buffers ih =>
    rw [processBuffers, List.foldl_cons, ← processBuffers, ih, processBuffer_events,
      ← Inserts.insertAll_append, List.map_cons, List.flatMap_cons, List.map_append]

theorem backfillFile_events (inferenceRules : List CompiledInferenceRule) (chunkLines : Nat)
    (st : IngestState) (bytes : List UInt8) (start : Nat) :
    (env.backfillFile feed inferenceRules chunkLines st bytes start).events =
      Inserts.insertAll env.rowConflict st.events
        ((((backfillBuffers chunkLines (archiveLines bytes start)).map recordsOf).flatMap
          (env.items feed)).map (env.row feed)) := by
  rw [backfillFile, backfillLines_eq, ← processBuffers, processBuffers_events]

/-! ## No burst is cut -/

section
variable {buffers : List (List (String × Nat))}

theorem mem_items_of_clean (h : CleanCuts buffers) {item : BufferItem} :
    item ∈ env.items feed (recordsOf buffers.flatten) ↔
      item ∈ (buffers.map recordsOf).flatMap (env.items feed) := by
  simp only [items, List.mem_append, h.mem_burstItems, h.lineItems, List.mem_flatMap, List.mem_map,
    exists_exists_and_eq_and]
  rw [← exists_or]
  exact exists_congr fun buffer => and_or_left.symm

/-- The same rows in the same order of conflicts. -/
theorem same_events_of_clean (hkeys : Function.Injective env.newV5)
    (hinc : buffers.flatten.Pairwise (·.2 < ·.2)) (h : CleanCuts buffers)
    (table : List EventsRow) (x : EventsRow) :
    x ∈ Inserts.insertAll env.rowConflict table
        (((buffers.map recordsOf).flatMap (env.items feed)).map (env.row feed)) ↔
      x ∈ Inserts.insertAll env.rowConflict table
        ((env.items feed (recordsOf buffers.flatten)).map (env.row feed)) := by
  have hrecords := increasing_recordsOf hinc
  have hwhole := @ranked_rows env feed _ hkeys hrecords
  rw [h.records.recordsOf, List.flatMap_def] at hrecords
  have hsame : ∀ x, x ∈ ((buffers.map recordsOf).flatMap (env.items feed)).map (env.row feed) ↔
      x ∈ (env.items feed (recordsOf buffers.flatten)).map (env.row feed) := by
    intro x
    simp only [List.mem_map, mem_items_of_clean h]
  have hparts : Inserts.Ranked env.rowConflict (·.sourceOffset)
      (((buffers.map recordsOf).flatMap (env.items feed)).map (env.row feed)) :=
    ⟨buffers_ordered hkeys hrecords,
      fun x hx y hy => hwhole.apart x ((hsame x).1 hx) y ((hsame y).1 hy)⟩
  exact Inserts.mem_insertAll_congr (rowConflict_comm env) hparts hwhole hsame x

/-! ## A burst is cut -/

/-- Where a part of the log is among its records. -/
theorem records_around (h : KeepsRecords buffers) {before after : List (List (String × Nat))}
    {buffer : List (String × Nat)} (hsplit : buffers = before ++ buffer :: after) :
    recordsOf buffers.flatten =
      before.flatMap recordsOf ++ (recordsOf buffer ++ after.flatMap recordsOf) := by
  rw [h.recordsOf, hsplit, List.flatMap_append, List.flatMap_cons]

/-- A part lies on one side of a cut. -/
theorem part_beside_cut (h : KeepsRecords buffers) {before after : List (List (String × Nat))}
    {buffer : List (String × Nat)} {n : Nat} (hsplit : buffers = before ++ buffer :: after)
    (hn : IsCut buffers n) :
    (recordsOf (buffers.flatten.take n)).length ≤ (before.flatMap recordsOf).length ∨
      (before.flatMap recordsOf).length + (recordsOf buffer).length ≤
        (recordsOf (buffers.flatten.take n)).length := by
  obtain ⟨first, second, hcut, rfl⟩ := hn
  have hfirst : recordsOf (buffers.flatten.take first.flatten.length) =
      first.flatMap recordsOf := by
    rw [hcut] at h ⊢
    rw [List.flatten_append, List.take_left, h.recordsOf_left]
  rw [hfirst]
  rw [hsplit, List.append_eq_append_iff] at hcut
  rcases hcut with ⟨more, rfl, hmore⟩ | ⟨more, rfl, -⟩
  · cases more with
    | nil =>
      left
      rw [List.append_nil]
    | cons b more =>
      obtain rfl : buffer = b := (List.cons.inj hmore).1
      right
      rw [List.flatMap_append, List.flatMap_cons, List.length_append, List.length_append]
      omega
  · left
    rw [List.flatMap_append, List.length_append]
    omega

theorem size_eq_of_syntheticLine {line : String} {rule : BurstRule} {run run' : List Nat}
    (h : syntheticLine line (rule.hit run) = syntheticLine line (rule.hit run')) :
    run.length = run'.length := by
  have hchars := congrArg String.toList h
  simp only [syntheticLine, BurstRule.hit, String.toList_append, List.append_assoc,
    List.append_cancel_left_eq] at hchars
  exact toString_injective (String.toList_inj.1 hchars)

/-- The summary of a burst that is cut is no summary of a part. -/
theorem burst_key_ne (hkeys : Function.Injective env.newV5)
    (hinc : Increasing (recordsOf buffers.flatten)) (h : KeepsRecords buffers) {n : Nat}
    (hn : IsCut buffers n) {rule : BurstRule} (hrule : rule ∈ builtinBurstRules) {run : List Nat}
    (hrun : run ∈ rule.bursts (burstWindow buffers.flatten))
    (hbefore : ∃ p ∈ run, p < (recordsOf (buffers.flatten.take n)).length)
    (hbehind : ∃ p ∈ run, (recordsOf (buffers.flatten.take n)).length ≤ p)
    {item other : BufferItem}
    (hitem : env.burstItem feed (recordsOf buffers.flatten) (rule.hit run) = some item)
    {buffer : List (String × Nat)} (hbuffer : buffer ∈ buffers)
    (hother : other ∈ env.burstItems feed (recordsOf buffer)) : item.key ≠ other.key := by
  intro hkey
  obtain ⟨rule', hrule', run', hrun', hburst⟩ := mem_burstItems.1 hother
  obtain ⟨r, hr, -, hitemKey, -⟩ := burstItem_eq_some hitem
  obtain ⟨r', hr', -, hotherKey, -⟩ := burstItem_eq_some hburst
  obtain ⟨before, after, hsplit⟩ := List.append_of_mem hbuffer
  have haround := records_around h hsplit
  rw [hitemKey, hotherKey] at hkey
  obtain ⟨hsame, htext⟩ := idempotencyKey_inj hkeys hkey
  -- the part has the same record at the same place
  have hplace' : (recordsOf buffers.flatten)[run'.headD 0 + (before.flatMap recordsOf).length]? =
      some r' := by
    obtain ⟨hlt, -⟩ := List.getElem?_eq_some_iff.1 hr'
    have hlt : run'.headD 0 < (recordsOf buffer).length := hlt
    rw [haround, List.getElem?_append_right (by omega), List.getElem?_append_left (by omega),
      Nat.add_sub_cancel]
    exact hr'
  have hhead := hinc.place_eq hr hplace' hsame
  have hhead : run.headD 0 = run'.headD 0 + (before.flatMap recordsOf).length := hhead
  rw [← hhead] at hplace'
  obtain rfl : r = r' := Option.some.inj (hr.symm.trans hplace')
  obtain rfl : rule = rule' := by
    obtain ⟨line, hline, hm⟩ := first_matches hrun
    obtain ⟨line', hline', hm'⟩ := first_matches hrun'
    have hr : (recordsOf buffers.flatten)[run.headD 0]? = some r := hr
    have hr' : (recordsOf buffer)[run'.headD 0]? = some r := hr'
    rw [burstWindow, List.getElem?_map, hr] at hline
    rw [List.getElem?_map, hr'] at hline'
    obtain rfl : line = line' := Option.some.inj (hline.symm.trans hline')
    exact rule_unique hrule hrule' hm hm'
  rw [burstWindow, haround, List.map_append, List.map_append] at hrun
  have hlen := size_eq_of_syntheticLine htext
  have hne : ∀ p ∈ run, (p < (before.flatMap recordsOf).length ∨
      (before.flatMap recordsOf).length + (recordsOf buffer).length ≤ p) →
      run.length ≠ run'.length := fun p hp hout =>
    BurstRule.length_ne_of_outside hrun hrun' (by rw [List.length_map]; exact hhead) hp
      (by rw [List.length_map, List.length_map]; exact hout)
  obtain ⟨p, hp, hlt⟩ := hbefore
  obtain ⟨q, hq, hge⟩ := hbehind
  rcases part_beside_cut h hsplit hn with hcut | hcut
  · exact hne p hp (.inl (by omega)) hlen
  · exact hne q hq (.inr (by omega)) hlen

/-- A burst that is cut leaves a row that only the one call can write. -/
theorem exists_row_of_cut (hkeys : Function.Injective env.newV5)
    (hinc : Increasing (recordsOf buffers.flatten)) (h : KeepsRecords buffers) {n : Nat}
    (hn : IsCut buffers n) (hcut : CutsBurst buffers.flatten n) :
    ∃ item ∈ env.burstItems feed (recordsOf buffers.flatten),
      env.row feed item ∉
        ((buffers.map recordsOf).flatMap (env.items feed)).map (env.row feed) := by
  obtain ⟨rule, hrule, run, hrun, hbefore, hbehind⟩ := hcut
  have hrange := inRange_of_mem (mem_builtinBursts.2 ⟨rule, hrule, run, hrun, rfl⟩)
  obtain ⟨item, hitem⟩ := @exists_burstItem env feed _ _ hrange
  have hmem : item ∈ env.burstItems feed (recordsOf buffers.flatten) :=
    mem_burstItems.2 ⟨rule, hrule, run, hrun, hitem⟩
  refine ⟨item, hmem, fun hrow => ?_⟩
  obtain ⟨other, hother, heq⟩ := List.mem_map.1 hrow
  obtain ⟨part, hpart, hother⟩ := List.mem_flatMap.1 hother
  obtain ⟨buffer, hbuffer, rfl⟩ := List.mem_map.1 hpart
  have hkey : item.key = other.key := congrArg EventsRow.idempotencyKey heq.symm
  rcases List.mem_append.1 hother with hother | hother
  · exact burst_key_ne hkeys hinc h hn hrule hrun hbefore hbehind hitem hbuffer hother hkey
  · have hsub : ∀ r ∈ recordsOf buffer, r ∈ recordsOf buffers.flatten := by
      intro r hr
      rw [h.recordsOf]
      exact List.mem_flatMap.2 ⟨buffer, hbuffer, hr⟩
    have hapart := summary_line_apart hkeys hinc (fun _ hr => hr) hsub hmem hother
    rw [← heq, rowConflict_self] at hapart
    cases hapart

/-- Something else that has the key of a row. -/
def blocker (x : EventsRow) : EventsRow := { x with eventType := "" }

theorem rowConflict_blocker (x : EventsRow) : env.rowConflict x (blocker x) = true := by
  simp [rowConflict, blocker]

theorem not_conflict_blocker (hkeys : Function.Injective env.newV5)
    (hinc : Increasing records) {item other : BufferItem} (hitem : item ∈ env.items feed records)
    (hother : other ∈ env.items feed records) (hne : env.row feed other ≠ env.row feed item) :
    env.rowConflict (env.row feed item) (blocker (env.row feed other)) = false := by
  simp only [rowConflict, Bool.or_eq_false_iff, beq_eq_false_iff_ne]
  constructor
  · intro heq
    have heq : item.key = other.key := heq
    obtain ⟨text, hkey⟩ := key_of_mem_items hitem
    obtain ⟨text', hkey'⟩ := key_of_mem_items hother
    have hoffset : item.offset = other.offset := by
      rw [hkey, hkey'] at heq
      exact (idempotencyKey_inj hkeys heq).1
    have hconflict : env.rowConflict (env.row feed other) (env.row feed item) = true := by
      simp [rowConflict, row, eventRow, heq]
    exact hne ((ranked_rows hkeys hinc).apart _ (List.mem_map_of_mem hother) _
      (List.mem_map_of_mem hitem) hconflict hoffset.symm)
  · refine contentKey_ne hkeys (separator_not_mem_eventTypeKey item.event) ?_ ?_
    · show unitSeparatorChar ∉ "".toList
      decide
    · show eventTypeKey item.event ≠ ""
      exact eventTypeKey_ne_empty item.event

/-- So in some table the one call leaves a row that the loop does not. -/
theorem exists_table_of_cut (hkeys : Function.Injective env.newV5)
    (hinc : Increasing (recordsOf buffers.flatten)) (h : KeepsRecords buffers) {n : Nat}
    (hn : IsCut buffers n) (hcut : CutsBurst buffers.flatten n) :
    ∃ table x,
      x ∈ Inserts.insertAll env.rowConflict table
        ((env.items feed (recordsOf buffers.flatten)).map (env.row feed)) ∧
      x ∉ Inserts.insertAll env.rowConflict table
        (((buffers.map recordsOf).flatMap (env.items feed)).map (env.row feed)) := by
  obtain ⟨item, hburst, hnot⟩ := @exists_row_of_cut env feed _ hkeys hinc h n hn hcut
  have hitem : item ∈ env.items feed (recordsOf buffers.flatten) := List.mem_append_left _ hburst
  obtain ⟨table, htable⟩ := Inserts.exists_table (rowConflict_self env _)
    (List.mem_map_of_mem hitem) hnot blocker (fun y _ _ => rowConflict_blocker y) <| by
      intro y hy hne
      obtain ⟨other, hother, rfl⟩ := List.mem_map.1 hy
      exact not_conflict_blocker hkeys hinc hitem hother hne
  exact ⟨table, _, htable⟩

/-! ## The backfill of a file -/

end

/-- A cut through a burst shows. -/
theorem exists_state_of_cut (hkeys : Function.Injective env.newV5) (feed : LogFeed)
    (inferenceRules : List CompiledInferenceRule) {chunkLines : Nat} {bytes : List UInt8}
    {startingOffset : Nat}
    (hrecords : KeepsRecords (backfillBuffers chunkLines (archiveLines bytes startingOffset)))
    {n : Nat} (hn : IsCut (backfillBuffers chunkLines (archiveLines bytes startingOffset)) n)
    (hcut : CutsBurst (archiveLines bytes startingOffset) n) :
    ∃ st x,
      x ∈ (env.processBuffer feed inferenceRules builtinBurstRules false st
        (archiveLines bytes startingOffset)).events ∧
      x ∉ (env.backfillFile feed inferenceRules chunkLines st bytes startingOffset).events := by
  have hflat := backfillBuffers_flatten chunkLines (archiveLines bytes startingOffset)
  have hinc := increasing_recordsOf (archiveLines_increasing bytes startingOffset)
  simp only [backfillFile_events, processBuffer_events]
  generalize backfillBuffers chunkLines (archiveLines bytes startingOffset) = buffers at *
  rw [← hflat] at hinc hcut ⊢
  obtain ⟨table, x, hwhole, hparts⟩ := @exists_table_of_cut env feed _ hkeys hinc hrecords n hn hcut
  exact ⟨⟨table, .default⟩, x, hwhole, hparts⟩

/-- The chunks of a backfill do not show exactly when no burst is cut. -/
theorem backfill_invisible_iff (env : IngestEnv) (hkeys : Function.Injective env.newV5)
    (feed : LogFeed) (inferenceRules : List CompiledInferenceRule) (chunkLines : Nat)
    (bytes : List UInt8) (startingOffset : Nat)
    (hrecords : KeepsRecords (backfillBuffers chunkLines (archiveLines bytes startingOffset))) :
    ((backfillBuffers chunkLines (archiveLines bytes startingOffset)).flatten =
        archiveLines bytes startingOffset ∧
      ∀ st x,
        x ∈ (env.backfillFile feed inferenceRules chunkLines st bytes startingOffset).events ↔
          x ∈ (env.processBuffer feed inferenceRules builtinBurstRules false st
            (archiveLines bytes startingOffset)).events) ↔
      KeepsBursts (backfillBuffers chunkLines (archiveLines bytes startingOffset)) := by
  have hflat := backfillBuffers_flatten chunkLines (archiveLines bytes startingOffset)
  constructor
  · rintro ⟨-, hsame⟩ n hn hcut
    rw [hflat] at hcut
    obtain ⟨st, x, hwhole, hparts⟩ := exists_state_of_cut hkeys feed inferenceRules hrecords hn hcut
    exact hparts ((hsame st x).2 hwhole)
  · intro hbursts
    have hinc := archiveLines_increasing bytes startingOffset
    simp only [backfillFile_events, processBuffer_events]
    generalize backfillBuffers chunkLines (archiveLines bytes startingOffset) = buffers at *
    rw [← hflat] at hinc ⊢
    exact ⟨rfl, fun st x => same_events_of_clean hkeys hinc ⟨hrecords, hbursts⟩ st.events x⟩

/-! ## Stowed vehicles -/

/-- A summary as it is stored, without what only a loadout has. -/
def summaryJson (s : Events.BurstSummary) : String :=
  "\x7b\"type\":\"burst_summary\",\"timestamp\":\"" ++ s.timestamp ++ "\",\"rule_id\":\"" ++
    s.ruleId ++ "\",\"size\":" ++ toString s.size.toNat ++ ",\"end_timestamp\":\"" ++
    s.endTimestamp ++ "\",\"anchor_body_sample\":\"" ++ s.anchorBodySample.getD "" ++ "\"\x7d"

/-- No line but those of a burst is recognised; keys are not hashed. -/
def stowingEnv : IngestEnv where
  classify _ := none
  applyRemoteRules _ := none
  observed := none_ne_burstSummary
  toJson
    | .burstSummary s => summaryJson s
    | _ => ""
  toLowercase := Text.lower
  newV5 := id
  parseTs _ := none

def stowed : List UInt8 :=
  "<2026-01-01T00:00:00Z> [Notice] <VehicleStowed> x\n".toList.map fun c => c.toNat.toUInt8

theorem stowed_line :
    Utf8.lineFeed ∉ stowed.dropLast ∧ stowed = stowed.dropLast ++ [Utf8.lineFeed] ∧
      stowed.length = 50 := by
  have hbytes : stowed = _ := congrArg (List.map _) String.toList_ofList
  rw [hbytes]
  decide

def stowedText : String := "<2026-01-01T00:00:00Z> [Notice] <VehicleStowed> x"

def stowedLine : LogLine := ⟨"2026-01-01T00:00:00Z", some "Notice", some "VehicleStowed", "x", []⟩

theorem lineText_stowed : Tailer.lineText stowed = stowedText := by
  have hbytes : stowed = _ := congrArg (List.map _) String.toList_ofList
  rw [Tailer.lineText, Tailer.trimLineEnd, Utf8.decodeLossy, String.toList_ofList, hbytes]
  decide

theorem unterminated_stowed : unterminated stowedText = false := by
  have hchars : stowedText.toList = _ := String.toList_ofList
  rw [unterminated, Text.contains, hchars]
  decide

theorem structuralParse_stowed : structuralParse stowedText = some stowedLine := by
  have hchars : stowedText.toList = _ := String.toList_ofList
  rw [structuralParse, hchars]
  decide

/-- The lines of so many vehicles that are stowed, from this offset on. -/
def stowedLines (offset n : Nat) : List (String × Nat) :=
  (List.range n).map fun i => (stowedText, offset + 50 * i)

theorem text_of_mem_stowedLines {offset n : Nat} {line : String × Nat}
    (h : line ∈ stowedLines offset n) : line.1 = stowedText := by
  obtain ⟨i, -, rfl⟩ := List.mem_map.1 h
  rfl

theorem closed_stowedLines (offset n : Nat) :
    ∀ line ∈ stowedLines offset n, unterminated line.1 = false := by
  intro line hline
  rw [text_of_mem_stowedLines hline, unterminated_stowed]

theorem recordsOf_stowedLines (offset n : Nat) :
    recordsOf (stowedLines offset n) = (stowedLines offset n).map (·, stowedLine) := by
  rw [recordsOf_of_closed (closed_stowedLines offset n), ← List.filterMap_eq_map]
  refine List.filterMap_congr fun line hline => ?_
  rw [text_of_mem_stowedLines hline, structuralParse_stowed]
  rfl

theorem textsFrom_stowed (n offset : Nat) (bytes : List UInt8) :
    Tailer.textsFrom offset (Tailer.linesOf ((List.replicate n stowed).flatten ++ bytes)) =
      stowedLines offset n ++ Tailer.textsFrom (offset + 50 * n) (Tailer.linesOf bytes) := by
  obtain ⟨hfeed, hbody, hlen⟩ := stowed_line
  have htexts := Tailer.textsFrom_replicate hfeed n offset bytes
  have hbodyLen : stowed.dropLast.length + 1 = 50 := by rw [List.length_dropLast, hlen]
  rwa [← hbody, hbodyLen, lineText_stowed] at htexts

/-- Nothing else is in the file. -/
theorem textsFrom_stowed_only (n offset : Nat) :
    Tailer.textsFrom offset (Tailer.linesOf (List.replicate n stowed).flatten) =
      stowedLines offset n := by
  have htexts := textsFrom_stowed n offset []
  have hnone : Tailer.textsFrom (offset + 50 * n) (Tailer.linesOf []) = [] := rfl
  rwa [hnone, List.append_nil, List.append_nil] at htexts

def parkedLine : List UInt8 :=
  "<2026-01-01T00:00:01Z> [Notice] <VehicleParked> x\n".toList.map fun c => c.toNat.toUInt8

theorem parked_line :
    Utf8.lineFeed ∉ parkedLine.dropLast ∧ parkedLine = parkedLine.dropLast ++ [Utf8.lineFeed] ∧
      parkedLine.length = 50 := by
  have hbytes : parkedLine = _ := congrArg (List.map _) String.toList_ofList
  rw [hbytes]
  decide

def parkedText : String := "<2026-01-01T00:00:01Z> [Notice] <VehicleParked> x"

def parkedLogLine : LogLine :=
  ⟨"2026-01-01T00:00:01Z", some "Notice", some "VehicleParked", "x", []⟩

theorem lineText_parked : Tailer.lineText parkedLine = parkedText := by
  have hbytes : parkedLine = _ := congrArg (List.map _) String.toList_ofList
  rw [Tailer.lineText, Tailer.trimLineEnd, Utf8.decodeLossy, String.toList_ofList, hbytes]
  decide

theorem unterminated_parked : unterminated parkedText = false := by
  have hchars : parkedText.toList = _ := String.toList_ofList
  rw [unterminated, Text.contains, hchars]
  decide

theorem structuralParse_parked : structuralParse parkedText = some parkedLogLine := by
  have hchars : parkedText.toList = _ := String.toList_ofList
  rw [structuralParse, hchars]
  decide

theorem textsFrom_parked (offset : Nat) (bytes : List UInt8) :
    Tailer.textsFrom offset (Tailer.linesOf (parkedLine ++ bytes)) =
      (parkedText, offset) :: Tailer.textsFrom (offset + 50) (Tailer.linesOf bytes) := by
  obtain ⟨hfeed, hbody, hlen⟩ := parked_line
  have htexts := Tailer.textsFrom_line hfeed offset bytes
  have hbodyLen : parkedLine.dropLast.length + 1 = 50 := by rw [List.length_dropLast, hlen]
  have hline : parkedLine.dropLast ++ Utf8.lineFeed :: bytes = parkedLine ++ bytes := by
    rw [hbody, List.append_assoc, List.dropLast_concat]
    rfl
  rwa [hline, ← hbody, hbodyLen, lineText_parked] at htexts

def blankLines (offset n : Nat) : List (String × Nat) :=
  (List.range n).map fun i => ("", offset + i)

theorem textsFrom_blank (n offset : Nat) (bytes : List UInt8) :
    Tailer.textsFrom offset (Tailer.linesOf (List.replicate n Utf8.lineFeed ++ bytes)) =
      blankLines offset n ++ Tailer.textsFrom (offset + n) (Tailer.linesOf bytes) := by
  have htexts := @Tailer.textsFrom_replicate [] List.not_mem_nil n offset bytes
  have htext : Tailer.lineText ([] ++ [Utf8.lineFeed]) = "" := by decide
  rw [htext] at htexts
  simpa [blankLines] using htexts

theorem blankLines_succ (offset n : Nat) :
    blankLines offset (n + 1) = blankLines offset n ++ [("", offset + n)] := by
  simp [blankLines, List.range_succ]

theorem closed_blankLines (offset n : Nat) :
    ∀ line ∈ blankLines offset n, unterminated line.1 = false := by
  intro line hline
  obtain ⟨i, -, rfl⟩ := List.mem_map.1 hline
  rfl

theorem parse_blankLines {offset n : Nat} {line : String × Nat} (h : line ∈ blankLines offset n) :
    structuralParse line.1 = none := by
  obtain ⟨i, -, rfl⟩ := List.mem_map.1 h
  rfl

theorem recordsOf_blankLines (offset n : Nat) : recordsOf (blankLines offset n) = [] := by
  rw [recordsOf_of_closed (closed_blankLines offset n), List.filterMap_eq_nil_iff]
  intro line hline
  rw [parse_blankLines hline]
  rfl

/-- Of lines with blank ones behind them the first parse. -/
theorem parseable_append_blank (lines : List (String × Nat)) (offset n : Nat) :
    parseable (lines ++ blankLines offset n) = parseable lines := by
  have hblank : ∀ x ∈ (blankLines offset n).zipIdx (0 + lines.length),
      (structuralParse x.1.1).map (x.2, ·) = none := by
    intro x hx
    rw [parse_blankLines (List.fst_mem_of_mem_zipIdx hx)]
    rfl
  rw [parseable, List.zipIdx_append, List.filterMap_append, List.filterMap_eq_nil_iff.2 hblank,
    List.append_nil, parseable]

theorem parseable_blank_append (lines : List (String × Nat)) (offset n : Nat) :
    parseable (blankLines offset n ++ lines) = (parseable lines).map fun r => (r.1 + n, r.2) := by
  have hblank : ∀ x ∈ (blankLines offset n).zipIdx,
      (structuralParse x.1.1).map (x.2, ·) = none := by
    intro x hx
    rw [parse_blankLines (List.fst_mem_of_mem_zipIdx hx)]
    rfl
  have hlen : (blankLines offset n).length = n := by simp [blankLines]
  rw [parseable, List.zipIdx_append, List.filterMap_append, List.filterMap_eq_nil_iff.2 hblank,
    List.nil_append, hlen, Nat.zero_add, List.zipIdx_eq_map_add, List.filterMap_map, parseable,
    List.map_filterMap]
  refine List.filterMap_congr fun x _ => ?_
  simp [Function.comp_def, Nat.add_comm]

/-! ### Two pages of a log -/

/-- Three vehicles are stowed and one is parked, then come as many blank lines as are carried. -/
def page : List UInt8 :=
  (List.replicate 3 stowed).flatten ++ (parkedLine ++ List.replicate 256 Utf8.lineFeed)

/-- The lines before the blank ones. -/
def vehicleLines (offset : Nat) : List (String × Nat) :=
  stowedLines offset 3 ++ [(parkedText, offset + 150)]

def pageLines (offset : Nat) : List (String × Nat) :=
  vehicleLines offset ++ blankLines (offset + 200) 256

theorem archiveLines_pages : archiveLines (page ++ page) 0 = pageLines 0 ++ pageLines 456 := by
  have hpage : ∀ offset bytes, Tailer.textsFrom offset (Tailer.linesOf (page ++ bytes)) =
      pageLines offset ++ Tailer.textsFrom (offset + 456) (Tailer.linesOf bytes) := by
    intro offset bytes
    rw [page, List.append_assoc, List.append_assoc, textsFrom_stowed, textsFrom_parked,
      textsFrom_blank, pageLines, vehicleLines]
    simp [Nat.add_assoc]
  have hnone : Tailer.textsFrom (0 + 456 + 456) (Tailer.linesOf []) = [] := rfl
  rw [archiveLines_eq, List.drop_zero, hpage]
  have hlast := hpage (0 + 456) []
  rw [hnone, List.append_nil, List.append_nil, Nat.zero_add] at hlast
  rw [Nat.zero_add, hlast]

theorem closed_vehicleLines (offset : Nat) :
    ∀ line ∈ vehicleLines offset, unterminated line.1 = false := by
  intro line hline
  rcases List.mem_append.1 hline with hline | hline
  · exact closed_stowedLines offset 3 line hline
  · rw [List.mem_singleton.1 hline, unterminated_parked]

theorem closed_pageLines (offset : Nat) :
    ∀ line ∈ pageLines offset, unterminated line.1 = false := by
  intro line hline
  rcases List.mem_append.1 hline with hline | hline
  · exact closed_vehicleLines offset line hline
  · exact closed_blankLines _ 256 line hline

theorem closed_pages : ∀ line ∈ pageLines 0 ++ pageLines 456, unterminated line.1 = false :=
  fun line hline => (List.mem_append.1 hline).elim (closed_pageLines 0 line)
    (closed_pageLines 456 line)

theorem recordsOf_vehicleLines (offset : Nat) :
    recordsOf (vehicleLines offset) =
      (stowedLines offset 3).map (·, stowedLine) ++
        [((parkedText, offset + 150), parkedLogLine)] := by
  have hclosed := closed_vehicleLines offset
  have hparked : recordsOf [(parkedText, offset + 150)] =
      [((parkedText, offset + 150), parkedLogLine)] := by
    rw [recordsOf_of_closed fun line hline => hclosed line (List.mem_append_right _ hline)]
    simp [structuralParse_parked]
  rw [vehicleLines, recordsOf_append (not_cutsRecord_of_closed hclosed _), recordsOf_stowedLines,
    hparked]

/-- The burst of a page ends before the lines that are carried. -/
theorem backfillCarrySplit_page (before offset n : Nat) :
    backfillCarrySplit (blankLines before n ++ pageLines offset) builtinBurstRules = n + 4 := by
  have hparsed : parseable (blankLines before n ++ pageLines offset) =
      [(0 + n, stowedLine), (1 + n, stowedLine), (2 + n, stowedLine), (3 + n, parkedLogLine)] := by
    rw [parseable_blank_append, pageLines, parseable_append_blank]
    simp [parseable, vehicleLines, stowedLines, List.range_succ, structuralParse_stowed,
      structuralParse_parked]
  have hbursts : detectBursts [stowedLine, stowedLine, stowedLine, parkedLogLine]
      builtinBurstRules = [⟨"vehicle_stowed_burst", 0, 2, 3, [0, 1, 2]⟩] := by
    decide
  have hlen : (blankLines before n ++ pageLines offset).length = n + 4 + 256 := by
    simp [blankLines, pageLines, vehicleLines, stowedLines, Nat.add_assoc]
  have hrange : ¬ n + 4 ≤ 2 + n := by omega
  rw [backfillCarrySplit, burstBufferRanges, hparsed]
  simp [hbursts, hlen, carryBoundary, burstCarryLines, hrange]

/-- Two chunks are committed before the end. -/
theorem backfillBuffers_pages :
    backfillBuffers 260 (pageLines 0 ++ pageLines 456) =
      [vehicleLines 0, blankLines 200 256 ++ vehicleLines 456, blankLines 656 256] := by
  have hlast : ∀ offset, pageLines offset =
      (vehicleLines offset ++ blankLines (offset + 200) 255) ++ [("", offset + 200 + 255)] := by
    intro offset
    rw [pageLines, blankLines_succ _ 255, List.append_assoc]
  have hfull : ∀ offset,
      (vehicleLines offset ++ blankLines (offset + 200) 255).length + 1 = 260 := by
    intro offset
    simp [vehicleLines, stowedLines, blankLines]
  have hvehicles : ∀ offset, (vehicleLines offset).length = 4 := by
    intro offset
    simp [vehicleLines, stowedLines]
  have hblank : ∀ offset, (blankLines offset 256).length = 256 := by
    intro offset
    simp [blankLines]
  have hchunk : ∀ buffers before n offset,
      (pageLines offset).foldl (BackfillLoop.read (fun buffers buf => buffers ++ [buf]) 260)
          ⟨buffers, [], blankLines before n⟩ =
        ⟨buffers ++ [blankLines before n ++ vehicleLines offset], [],
          blankLines (offset + 200) 256⟩ := by
    intro buffers before n offset
    have hsplit := backfillCarrySplit_page before offset n
    have hlen : (blankLines before n ++ vehicleLines offset).length = n + 4 := by
      rw [List.length_append, hvehicles, blankLines, List.length_map, List.length_range]
    have hpage : blankLines before n ++ pageLines offset =
        (blankLines before n ++ vehicleLines offset) ++ blankLines (offset + 200) 256 := by
      rw [pageLines, List.append_assoc]
    conv_lhs => rw [hlast]
    rw [foldl_read_full _ _ _ (hfull offset), ← hlast]
    dsimp only
    rw [hsplit, hpage, ← hlen, List.take_left, List.drop_left]
  have hfirst := hchunk [] 0 0 0
  have hsecond := hchunk [vehicleLines 0] 200 256 456
  have hnone : blankLines 0 0 = [] := rfl
  rw [hnone, List.nil_append, List.nil_append] at hfirst
  have hrest : blankLines 656 256 ≠ [] := by
    rw [blankLines_succ 656 255]
    exact List.append_ne_nil_of_right_ne_nil _ (List.cons_ne_nil _ _)
  rw [backfillBuffers, backfillLines, List.foldl_append, hfirst, hsecond]
  simp [BackfillLoop.flush, hrest]

/-- The vehicles of the first page are parked before those of the second are stowed. -/
theorem keepsBursts_pages :
    KeepsBursts [vehicleLines 0, blankLines 200 256 ++ vehicleLines 456, blankLines 656 256] := by
  have hsecond : recordsOf (blankLines 200 256 ++ vehicleLines 456) =
      recordsOf (vehicleLines 456) := by
    have hclosed : ∀ line ∈ blankLines 200 256 ++ vehicleLines 456,
        unterminated line.1 = false := fun line hline =>
      (List.mem_append.1 hline).elim (closed_blankLines _ _ line) (closed_vehicleLines _ line)
    rw [recordsOf_append (not_cutsRecord_of_closed hclosed _), recordsOf_blankLines,
      List.nil_append]
  have hkeeps : KeepsRecords
      [vehicleLines 0, blankLines 200 256 ++ vehicleLines 456, blankLines 656 256] := by
    intro n _
    rw [← backfillBuffers_pages, backfillBuffers_flatten]
    exact not_cutsRecord_of_closed closed_pages n
  rw [keepsBursts_iff_joint hkeeps]
  intro k hk
  obtain rfl | rfl | rfl | rfl : k = 0 ∨ k = 1 ∨ k = 2 ∨ k = 3 := by
    have hlt : k < 4 := hk
    omega
  all_goals
    simp only [List.take_zero, List.take_succ_cons, List.drop_zero, List.drop_succ_cons,
      List.flatMap_nil, List.flatMap_cons, hsecond, recordsOf_blankLines, recordsOf_vehicleLines,
      List.append_nil, Joint]
    decide

/-- The cuts are behind the parked vehicles. -/
theorem backfill_invisible_of_pages :
    backfillBuffers 260 (archiveLines (page ++ page) 0) =
        [vehicleLines 0, blankLines 200 256 ++ vehicleLines 456, blankLines 656 256] ∧
      (backfillBuffers 260 (archiveLines (page ++ page) 0)).flatten =
        archiveLines (page ++ page) 0 ∧
      ∀ st x,
        x ∈ (stowingEnv.backfillFile ⟨.live, none⟩ [] 260 st (page ++ page) 0).events ↔
          x ∈ (stowingEnv.processBuffer ⟨.live, none⟩ [] builtinBurstRules false st
            (archiveLines (page ++ page) 0)).events := by
  have hbuffers := archiveLines_pages ▸ backfillBuffers_pages
  refine ⟨hbuffers, (backfill_invisible_iff stowingEnv (fun _ _ h => h) ⟨.live, none⟩ [] 260
    (page ++ page) 0 ?_).2 ?_⟩
  · intro n _
    rw [backfillBuffers_flatten, archiveLines_pages]
    exact not_cutsRecord_of_closed closed_pages n
  · rw [hbuffers]
    exact keepsBursts_pages

/-! ### A burst that is cut -/

/-- Three vehicles are stowed, then comes a page of blank lines, then the fourth. -/
def stowedLog : List UInt8 :=
  stowed ++ stowed ++ stowed ++ List.replicate 256 Utf8.lineFeed ++ stowed

theorem archiveLines_stowedLog :
    archiveLines stowedLog 0 = stowedLines 0 3 ++ (blankLines 150 256 ++ stowedLines 406 1) := by
  have hthree : (List.replicate 3 stowed).flatten = stowed ++ stowed ++ stowed := by
    simp [List.replicate_succ]
  have hlast : Tailer.textsFrom 406 (Tailer.linesOf stowed) = stowedLines 406 1 := by
    have hone : (List.replicate 1 stowed).flatten = stowed := by simp
    rw [← hone, textsFrom_stowed_only]
  rw [archiveLines_eq, List.drop_zero, stowedLog, ← hthree, List.append_assoc, textsFrom_stowed,
    textsFrom_blank, hlast]

theorem closed_stowedLog : ∀ line ∈ archiveLines stowedLog 0, unterminated line.1 = false := by
  intro line hline
  rw [archiveLines_stowedLog, List.mem_append, List.mem_append] at hline
  rcases hline with hline | hline | hline
  · exact closed_stowedLines _ _ line hline
  · exact closed_blankLines _ _ line hline
  · exact closed_stowedLines _ _ line hline

/-- The fourth is of the burst of the others. -/
theorem cutsBurst_stowedLog : CutsBurst (archiveLines stowedLog 0) 3 := by
  have hclosed := closed_stowedLog
  rw [archiveLines_stowedLog] at hclosed ⊢
  have hbehind : recordsOf (blankLines 150 256 ++ stowedLines 406 1) =
      (stowedLines 406 1).map (·, stowedLine) := by
    have hmore := fun line hline => hclosed line (List.mem_append_right _ hline)
    rw [recordsOf_append (not_cutsRecord_of_closed hmore _), recordsOf_blankLines,
      recordsOf_stowedLines, List.nil_append]
  refine (cutsBurst_length (not_cutsRecord_of_closed hclosed (stowedLines 0 3).length)).2 ?_
  rw [recordsOf_stowedLines, hbehind, Joint]
  decide

/-- Of the first 259 lines the last 256 are held back. -/
theorem isCut_stowedLog : IsCut (backfillBuffers 259 (archiveLines stowedLog 0)) 3 := by
  have hlines : archiveLines stowedLog 0 =
      (stowedLines 0 3 ++ blankLines 150 255) ++ ("", 405) :: stowedLines 406 1 := by
    rw [archiveLines_stowedLog, blankLines_succ 150 255, List.append_assoc, List.append_assoc]
    rfl
  have hchunk : (stowedLines 0 3 ++ blankLines 150 255) ++ [("", 405)] =
      stowedLines 0 3 ++ blankLines 150 256 := by
    rw [blankLines_succ 150 255, List.append_assoc]
  have hparsed : parseable (stowedLines 0 3 ++ blankLines 150 256) =
      [(0, stowedLine), (1, stowedLine), (2, stowedLine)] := by
    have hblank : ∀ x ∈ (blankLines 150 256).zipIdx 3,
        (structuralParse x.1.1).map (x.2, ·) = none := by
      intro x hx
      rw [parse_blankLines (List.fst_mem_of_mem_zipIdx hx)]
      rfl
    rw [parseable, List.zipIdx_append, List.filterMap_append]
    refine (congrArg₂ (· ++ ·) ?_ (List.filterMap_eq_nil_iff.2 hblank)).trans (List.append_nil _)
    simp [stowedLines, List.range_succ, structuralParse_stowed]
  have hlen : (stowedLines 0 3 ++ blankLines 150 256).length = 259 := by
    simp [stowedLines, blankLines]
  have hsplit :
      backfillCarrySplit (stowedLines 0 3 ++ blankLines 150 256) builtinBurstRules = 3 := by
    rw [backfillCarrySplit, burstBufferRanges, hparsed, hlen]
    decide
  have hfull : (stowedLines 0 3 ++ blankLines 150 255).length + 1 = 259 := by
    simp [stowedLines, blankLines]
  have hmore : stowedLines 406 1 ≠ [] := List.cons_ne_nil _ _
  rw [hlines, backfillBuffers_chunk hfull hmore (by decide), hchunk, hsplit]
  exact isCut_first

/-- The first chunk ends before the fourth: the loop takes the first three for a burst. -/
theorem backfill_not_invisible :
    ¬ ∀ (env : IngestEnv), Function.Injective env.newV5 →
      ∀ (feed : LogFeed) (inferenceRules : List CompiledInferenceRule) (chunkLines : Nat)
        (bytes : List UInt8) (startingOffset : Nat),
        KeepsRecords (backfillBuffers chunkLines (archiveLines bytes startingOffset)) →
        (backfillBuffers chunkLines (archiveLines bytes startingOffset)).flatten =
            archiveLines bytes startingOffset ∧
          ∀ st x,
            x ∈ (env.backfillFile feed inferenceRules chunkLines st bytes
                startingOffset).events ↔
              x ∈ (env.processBuffer feed inferenceRules builtinBurstRules false st
                (archiveLines bytes startingOffset)).events := by
  intro h
  have hkeeps : KeepsRecords (backfillBuffers 259 (archiveLines stowedLog 0)) := by
    intro n _
    rw [backfillBuffers_flatten]
    exact not_cutsRecord_of_closed closed_stowedLog n
  obtain ⟨st, x, hwhole, hparts⟩ := @exists_state_of_cut stowingEnv (fun _ _ h => h)
    ⟨.live, none⟩ [] 259 stowedLog 0 hkeeps 3 isCut_stowedLog cutsBurst_stowedLog
  exact hparts (((h stowingEnv (fun _ _ h => h) ⟨.live, none⟩ [] 259 stowedLog 0 hkeeps).2 st x).2
    hwhole)

end IngestEnv

end StarStats
