import StarStats.Client.Cuts
import StarStats.Core.Proof.Bursts

/-!
# What consecutive buffers store

A call of `process_buffer` stores its `items`: a summary for each burst among its records, and an
event for each other record that has one. Where no cut falls inside a record or a burst, the items
of the buffers are those of the whole log (`mem_items_join`, `lineItems_join`).
-/

namespace StarStats

/-! ## Records at a cut -/

theorem recordOverhang_skip {skip n : Nat} {lines : List (String × Nat)} (hn : n ≤ skip)
    (hlen : n ≤ lines.length) : recordOverhang skip lines n = skip - n := by
  induction n generalizing skip lines with
  | zero => cases lines <;> simp [recordOverhang]
  | succ n ih =>
    obtain ⟨k, rfl⟩ : ∃ k, skip = k + 1 := ⟨skip - 1, by omega⟩
    cases lines with
    | nil => simp at hlen
    | cons line rest =>
      rw [recordOverhang, ih (by omega) (by simpa using hlen)]
      omega

/-- What lies behind a place only matters to the records that begin before it. -/
theorem recordOverhang_add (skip n m : Nat) {lines : List (String × Nat)} (hlen : n ≤ lines.length) :
    recordOverhang skip lines (n + m) =
      recordOverhang (recordOverhang skip lines n) (lines.drop n) m := by
  induction n generalizing skip lines with
  | zero => cases lines <;> simp [recordOverhang]
  | succ n ih =>
    cases lines with
    | nil => simp at hlen
    | cons line rest =>
      have hrest : n ≤ rest.length := by simpa using hlen
      rw [show n + 1 + m = (n + m) + 1 by omega, List.drop_succ_cons]
      cases skip with
      | zero => rw [recordOverhang, recordOverhang, ih _ hrest]
      | succ k => rw [recordOverhang, recordOverhang, ih _ hrest]

theorem continuations_of_even {quotes : Nat} (h : quotes % 2 = 0) (left : Nat)
    (lines : List (String × Nat)) : continuations quotes left lines = some [] := by
  cases left with
  | zero => simp [continuations, h]
  | succ left =>
    cases lines with
    | nil => simp [continuations, h]
    | cons line lines => simp [continuations, h]

/-- Two quotes are closed, so the next line stays a line of its own. -/
example : continuations 2 1 [("next", 0)] = some [] := by decide +kernel

/-- More lines do not change what a record is joined with. -/
theorem continuations_append {quotes left : Nat} {lines more : List (String × Nat)}
    {bodies : List String} (h : continuations quotes left lines = some bodies) :
    continuations quotes left (lines ++ more) = some bodies := by
  induction left generalizing quotes lines bodies with
  | zero => simpa [continuations] using h
  | succ left ih =>
    by_cases heven : quotes % 2 = 0
    · rw [continuations_of_even heven] at h ⊢
      exact h
    · cases lines with
      | nil => simp [continuations, heven] at h
      | cons line lines =>
        rw [List.cons_append, continuations, if_neg heven]
        rw [continuations, if_neg heven] at h
        split at h
        case isTrue => cases h
        case isFalse hstart =>
          rw [if_neg hstart]
          obtain ⟨rest, hrest, rfl⟩ := Option.map_eq_some_iff.1 h
          dsimp only
          rw [ih hrest, Option.map_some]

/-- Nor do they when all that it is joined with comes before them. -/
theorem continuations_of_append {quotes left : Nat} {lines more : List (String × Nat)}
    {bodies : List String} (h : continuations quotes left (lines ++ more) = some bodies)
    (hlen : bodies.length ≤ lines.length) : continuations quotes left lines = some bodies := by
  induction left generalizing quotes lines bodies with
  | zero => simpa [continuations] using h
  | succ left ih =>
    by_cases heven : quotes % 2 = 0
    · rw [continuations_of_even heven] at h ⊢
      exact h
    · cases lines with
      | nil =>
        obtain rfl : bodies = [] := by simpa using hlen
        cases more with
        | nil => simp [continuations, heven] at h
        | cons next more => simp [continuations, heven] at h
      | cons line lines =>
        rw [List.cons_append, continuations, if_neg heven] at h
        rw [continuations, if_neg heven]
        split at h
        case isTrue => cases h
        case isFalse hstart =>
          rw [if_neg hstart]
          obtain ⟨rest, hrest, rfl⟩ := Option.map_eq_some_iff.1 h
          dsimp only
          rw [ih hrest (by simpa using hlen), Option.map_some]

theorem joined_append {line : String} {lines more : List (String × Nat)}
    (hlen : ((joined line (lines ++ more)).map List.length).getD 0 ≤ lines.length) :
    joined line lines = joined line (lines ++ more) := by
  unfold joined at hlen ⊢
  split
  case isFalse => rfl
  case isTrue hopen =>
    rw [if_pos hopen] at hlen
    cases h : continuations (quoteCount line) (maxStitchLines - 1) (lines ++ more) with
    | some bodies =>
      rw [h] at hlen
      exact continuations_of_append h hlen
    | none =>
      cases h' : continuations (quoteCount line) (maxStitchLines - 1) lines with
      | none => rfl
      | some bodies =>
        rw [continuations_append h'] at h
        cases h

theorem joined_append_some {line : String} {lines more : List (String × Nat)} {bodies : List String}
    (h : joined line lines = some bodies) : joined line (lines ++ more) = some bodies := by
  unfold joined at h ⊢
  split
  case isTrue hopen =>
    rw [if_pos hopen] at h
    exact continuations_append h
  case isFalse hopen =>
    rw [if_neg hopen] at h
    exact h

/-- A place that is inside no record stays so when lines behind it are left out. -/
theorem recordOverhang_take {skip : Nat} {lines more : List (String × Nat)}
    (h : recordOverhang skip (lines ++ more) lines.length = 0) (n : Nat) :
    recordOverhang skip (lines ++ more.take n) lines.length = 0 := by
  induction lines generalizing skip with
  | nil => simpa [recordOverhang] using h
  | cons line lines ih =>
    cases skip with
    | succ k =>
      rw [List.cons_append, List.length_cons, recordOverhang] at h ⊢
      exact ih h
    | zero =>
      rw [List.cons_append, List.length_cons, recordOverhang] at h ⊢
      have hsame : joined line.1 (lines ++ more.take n) = joined line.1 (lines ++ more) := by
        have hmore : lines ++ more = lines ++ more.take n ++ more.drop n := by
          rw [List.append_assoc, List.take_append_drop]
        cases htake : joined line.1 (lines ++ more.take n) with
        | some bodies =>
          rw [hmore]
          exact (joined_append_some htake).symm
        | none =>
          cases hall : joined line.1 (lines ++ more) with
          | none => rfl
          | some bodies =>
            have hinside : ((joined line.1 (lines ++ more)).map List.length).getD 0 ≤
                lines.length := by
              by_contra hc
              rw [recordOverhang_skip (by omega) (by simp)] at h
              omega
            have hlines := (joined_append hinside).trans hall
            rw [joined_append_some hlines] at htake
            cases htake
      rw [hsame]
      exact ih h

/-- Behind a place that is inside no record, the records begin anew. -/
theorem stitchFrom_append {skip : Nat} {lines more : List (String × Nat)}
    (h : recordOverhang skip (lines ++ more) lines.length = 0) :
    stitchFrom skip (lines ++ more) = stitchFrom skip lines ++ stitchFrom 0 more := by
  induction lines generalizing skip with
  | nil =>
    obtain rfl : skip = 0 := by simpa [recordOverhang] using h
    simp [stitchFrom]
  | cons line lines ih =>
    cases skip with
    | succ k =>
      rw [List.cons_append, List.length_cons, recordOverhang] at h
      rw [List.cons_append, stitchFrom, stitchFrom, ih h]
    | zero =>
      rw [List.cons_append, List.length_cons, recordOverhang] at h
      have hinside : ((joined line.1 (lines ++ more)).map List.length).getD 0 ≤ lines.length := by
        by_contra hc
        rw [recordOverhang_skip (by omega) (by simp)] at h
        omega
      have hjoined := joined_append hinside
      rw [List.cons_append, stitchFrom, stitchFrom, hjoined]
      cases hj : joined line.1 (lines ++ more) with
      | some bodies =>
        rw [hj, Option.map_some, Option.getD_some] at h
        dsimp only
        rw [ih h, List.cons_append]
      | none =>
        rw [hj, Option.map_none, Option.getD_none] at h
        dsimp only
        rw [ih h, List.cons_append]

theorem recordsOf_append {lines more : List (String × Nat)}
    (h : ¬ CutsRecord (lines ++ more) lines.length) :
    recordsOf (lines ++ more) = recordsOf lines ++ recordsOf more := by
  simp only [CutsRecord, ne_eq, Decidable.not_not] at h
  simp only [recordsOf, stitchMultilineRecords, stitchFrom_append h, List.filterMap_append]

theorem CutsRecord.append {lines more : List (String × Nat)} {n : Nat}
    (h : ¬ CutsRecord (lines ++ more) lines.length) (hmore : CutsRecord more n) :
    CutsRecord (lines ++ more) (lines.length + n) := by
  simp only [CutsRecord, ne_eq, Decidable.not_not] at h hmore ⊢
  rwa [recordOverhang_add _ _ _ (by simp), h, List.drop_left]

/-! ## Lines that leave no quote open -/

section
variable {lines : List (String × Nat)} (h : ∀ line ∈ lines, unterminated line.1 = false)
include h

/-- They are records as they are. -/
theorem stitch_of_closed : stitchMultilineRecords lines = lines := by
  rw [stitchMultilineRecords]
  induction lines with
  | nil => rfl
  | cons line rest ih =>
    obtain ⟨hline, hrest⟩ := List.forall_mem_cons.1 h
    have hjoined : joined line.1 rest = none := by
      rw [joined, hline]
      rfl
    rw [stitchFrom, hjoined]
    exact congrArg (line :: ·) (ih hrest)

theorem recordsOf_of_closed :
    recordsOf lines = lines.filterMap fun record => (structuralParse record.1).map (record, ·) := by
  rw [recordsOf, stitch_of_closed h]

theorem not_cutsRecord_of_closed (n : Nat) : ¬ CutsRecord lines n := by
  rw [CutsRecord, ne_eq, not_not]
  induction lines generalizing n with
  | nil => cases n <;> rfl
  | cons line rest ih =>
    obtain ⟨hline, hrest⟩ := List.forall_mem_cons.1 h
    have hjoined : joined line.1 rest = none := by
      rw [joined, hline]
      rfl
    cases n with
    | zero => rfl
    | succ n =>
      rw [recordOverhang, hjoined]
      exact ih hrest n

end

/-! ## The items of a call -/

/-- The parseable records of a buffer with their places in it. -/
def placedRecords (buffer : List (String × Nat)) : List (Nat × ParsedRecord) :=
  buffer.zipIdx.filterMap fun x => (structuralParse x.1.1).map fun line => (x.2, x.1, line)

theorem parseable_eq (buffer : List (String × Nat)) :
    parseable buffer = (placedRecords buffer).map fun x => (x.1, x.2.2) := by
  simp only [parseable, placedRecords, List.map_filterMap, Option.map_map]
  rfl

theorem recordsOf_eq (lines : List (String × Nat)) :
    recordsOf lines = (placedRecords (stitchMultilineRecords lines)).map (·.2) := by
  have hzip : ∀ (buffer : List (String × Nat)) (k : Nat),
      (buffer.filterMap fun record => (structuralParse record.1).map (record, ·)) =
        (buffer.zipIdx k).filterMap fun x => (structuralParse x.1.1).map (x.1, ·) := by
    intro buffer k
    conv_lhs => rw [← List.zipIdx_map_fst k buffer, List.filterMap_map]
    rfl
  rw [recordsOf, hzip _ 0]
  simp only [placedRecords, List.map_filterMap, Option.map_map]
  rfl

theorem getElem?_of_mem_placed {buffer : List (String × Nat)} {x : Nat × ParsedRecord}
    (h : x ∈ placedRecords buffer) :
    buffer[x.1]? = some x.2.1 ∧ structuralParse x.2.1.1 = some x.2.2 := by
  obtain ⟨y, hy, hx⟩ := List.mem_filterMap.1 h
  obtain ⟨line, hline, rfl⟩ := Option.map_eq_some_iff.1 hx
  exact ⟨List.mem_zipIdx_iff_getElem?.1 hy, hline⟩

theorem zipIdx_increasing {α : Type*} (l : List α) (k : Nat) :
    (l.zipIdx k).Pairwise (·.2 < ·.2) := by
  apply List.pairwise_map.1
  rw [List.zipIdx_map_snd]
  exact List.pairwise_lt_range'

theorem placed_increasing (buffer : List (String × Nat)) :
    (placedRecords buffer).Pairwise (·.1 < ·.1) := by
  rw [placedRecords, List.pairwise_filterMap]
  refine (zipIdx_increasing buffer 0).imp fun hlt x hx y hy => ?_
  obtain ⟨line, -, rfl⟩ := Option.map_eq_some_iff.1 hx
  obtain ⟨line', -, rfl⟩ := Option.map_eq_some_iff.1 hy
  exact hlt

/-- A place of the buffer belongs to one record only. -/
theorem placed_unique {buffer : List (String × Nat)} {k l : Nat} {x y : Nat × ParsedRecord}
    (hk : (placedRecords buffer)[k]? = some x) (hl : (placedRecords buffer)[l]? = some y)
    (h : x.1 = y.1) : k = l := by
  obtain ⟨hk', rfl⟩ := List.getElem?_eq_some_iff.1 hk
  obtain ⟨hl', rfl⟩ := List.getElem?_eq_some_iff.1 hl
  have hinc := List.pairwise_iff_getElem.1 (placed_increasing buffer)
  rcases Nat.lt_trichotomy k l with hlt | heq | hlt
  · have := hinc k l hk' hl' hlt
    omega
  · exact heq
  · have := hinc l k hl' hk' hlt
    omega

/-! ## The built-in burst rules -/

theorem lineMatches_eventName {line : LogLine} {name : String} {tags : List String}
    (h : lineMatches line (.eventName name) tags = true) : line.eventName = some name := by
  simp only [lineMatches, Bool.and_eq_true, beq_iff_eq] at h
  exact h.1

theorem eventBurst_apart {id id' name name' : String} {tags tags' : List String}
    {size size' gap gap' : Nat} (h : name ≠ name') :
    (eventBurst id name tags size gap).Apart (eventBurst id' name' tags' size' gap') := by
  rintro line ⟨hm, hm'⟩
  have heq := (lineMatches_eventName hm).symm.trans (lineMatches_eventName hm')
  exact h (Option.some.inj heq)

theorem builtin_uniform : ∀ rule ∈ builtinBurstRules, rule.Uniform := by
  simp only [builtinBurstRules, List.forall_mem_cons]
  exact ⟨rfl, rfl, rfl, rfl, by simp⟩

theorem builtin_apart : builtinBurstRules.Pairwise BurstRule.Apart := by
  simp only [builtinBurstRules, List.pairwise_cons, List.forall_mem_cons]
  refine ⟨⟨?_, ?_, ?_, by simp⟩, ⟨?_, ?_, by simp⟩, ⟨?_, by simp⟩, by simp, .nil⟩
  all_goals exact eventBurst_apart (by decide)

/-- Two rules that share a line are one. -/
theorem rule_unique {rule rule' : BurstRule} (hrule : rule ∈ builtinBurstRules)
    (hrule' : rule' ∈ builtinBurstRules) {line : LogLine}
    (h : lineMatches line rule.member rule.tags = true)
    (h' : lineMatches line rule'.member rule'.tags = true) : rule = rule' := by
  by_contra hne
  have hsymm : Std.Symm BurstRule.Apart := ⟨fun _ _ hab line hm => hab line hm.symm⟩
  exact builtin_apart.forall hrule hrule' hne line ⟨h, h'⟩

/-- The first line of a burst matches its rule. -/
theorem first_matches {rule : BurstRule} {window : List LogLine} {run : List Nat}
    (hrun : run ∈ rule.bursts window) :
    ∃ line, window[run.headD 0]? = some line ∧
      lineMatches line rule.member rule.tags = true := by
  obtain ⟨a, l, rfl⟩ := List.exists_cons_of_ne_nil (BurstRule.ne_nil_of_mem_bursts hrun)
  exact BurstRule.mem_positions_zero.1
    (BurstRule.mem_positions_of_mem_bursts hrun List.mem_cons_self)

theorem mem_builtinBursts {window : List LogLine} {hit : BurstHit} :
    hit ∈ detectBursts window builtinBurstRules ↔
      ∃ rule ∈ builtinBurstRules, ∃ run ∈ rule.bursts window, hit = rule.hit run :=
  mem_detectBursts builtin_uniform builtin_apart

/-- The lines of a burst are there. -/
structure InRange (window : List LogLine) (hit : BurstHit) : Prop where
  start : hit.startIndex ∈ hit.memberIndices
  last : hit.endIndex ∈ hit.memberIndices
  members : ∀ p ∈ hit.memberIndices, p < window.length

theorem inRange_of_mem {window : List LogLine} {rules : List BurstRule} {hit : BurstHit}
    (h : hit ∈ detectBursts window rules) : InRange window hit := by
  rw [detectBursts, List.mem_insertionSort] at h
  obtain ⟨rule, -, claimed, hscan⟩ := exists_scan_of_mem_detectFrom h
  obtain ⟨walked, hhit, hlt⟩ := BurstRule.exists_of_mem_scan hscan
  rw [Nat.zero_add] at hlt
  rw [hhit]
  refine ⟨List.mem_cons_self, ?_, hlt⟩
  simp only [BurstRule.hit, List.getLastD_eq_getLast?, List.getLast?_cons, Option.getD_some]
  exact List.mem_of_getLast? (by rw [List.getLast?_cons])

namespace IngestEnv

variable {env : IngestEnv} {feed : LogFeed} {enableV2 : Bool}

/-! ## The items of a call -/

/-- The places of the buffer at which a burst has records. -/
def suppressedBy (placed : List (Nat × ParsedRecord)) (burst : BurstHit) : List Nat :=
  (burst.memberIndices.filterMap (placed[·]?)).map (·.1)

/-- Pass 2b stores the summary of a burst and suppresses its records. -/
theorem storeBurst_eq {buffer : List (String × Nat)} {burst : BurstHit}
    (hrange : InRange ((placedRecords buffer).map (·.2.2)) burst) (st : IngestState)
    (suppressed : List Nat) :
    ∃ item, env.burstItem feed ((placedRecords buffer).map (·.2)) burst = some item ∧
      env.storeBurst feed enableV2 buffer (parseable buffer) (st, suppressed) burst =
        (env.storeItem feed enableV2 st item,
          suppressed ++ suppressedBy (placedRecords buffer) burst) := by
  have hplaced : ∀ p ∈ burst.memberIndices, ∃ x, (placedRecords buffer)[p]? = some x := by
    intro p hp
    have hlt := hrange.members p hp
    rw [List.length_map] at hlt
    exact ⟨_, List.getElem?_eq_getElem hlt⟩
  obtain ⟨first, hfirst⟩ := hplaced _ hrange.start
  obtain ⟨last, hlast⟩ := hplaced _ hrange.last
  have hline := (getElem?_of_mem_placed (List.mem_of_getElem? hfirst)).1
  simp only [burstItem, storeBurst, parseable_eq, List.getElem?_map, hfirst, hlast, hline,
    Option.map_some, ← List.map_filterMap, List.map_map]
  exact ⟨_, rfl, rfl⟩

theorem foldl_storeBurst {buffer : List (String × Nat)} {bursts : List BurstHit}
    (hrange : ∀ burst ∈ bursts, InRange ((placedRecords buffer).map (·.2.2)) burst)
    (st : IngestState) (suppressed : List Nat) :
    bursts.foldl (env.storeBurst feed enableV2 buffer (parseable buffer)) (st, suppressed) =
      ((bursts.filterMap (env.burstItem feed ((placedRecords buffer).map (·.2)))).foldl
          (env.storeItem feed enableV2) st,
        suppressed ++ bursts.flatMap (suppressedBy (placedRecords buffer))) := by
  induction bursts generalizing st suppressed with
  | nil => simp
  | cons burst bursts ih =>
    obtain ⟨hburst, hrange⟩ := List.forall_mem_cons.1 hrange
    obtain ⟨item, hitem, hstore⟩ := @storeBurst_eq env feed enableV2 buffer burst hburst st
      suppressed
    rw [List.foldl_cons, hstore, ih hrange, List.filterMap_cons_some hitem, List.foldl_cons,
      List.flatMap_cons, List.append_assoc]

/-- A record is suppressed exactly when a burst has it. -/
theorem mem_suppressed_iff {buffer : List (String × Nat)} {bursts : List BurstHit} {k : Nat}
    {x : Nat × ParsedRecord} (hk : (placedRecords buffer)[k]? = some x) :
    x.1 ∈ bursts.flatMap (suppressedBy (placedRecords buffer)) ↔
      k ∈ bursts.flatMap (·.memberIndices) := by
  simp only [List.mem_flatMap, suppressedBy, List.mem_map, List.mem_filterMap]
  constructor
  · rintro ⟨burst, hburst, y, ⟨l, hl, hy⟩, hxy⟩
    obtain rfl := placed_unique hy hk hxy
    exact ⟨burst, hburst, hl⟩
  · rintro ⟨burst, hburst, hl⟩
    exact ⟨burst, hburst, x, ⟨k, hl, hk⟩, rfl⟩

theorem ingestOneLine_eq (st : IngestState) (line : String × Nat) :
    env.ingestOneLine feed enableV2 st line =
      ((structuralParse line.1).bind fun parsed => env.lineItem feed (line, parsed)).elim st
        (env.storeItem feed enableV2 st) := by
  unfold ingestOneLine lineItem
  cases structuralParse line.1 with
  | none => rfl
  | some parsed =>
    dsimp only [Option.bind_some]
    cases env.lineEvent parsed <;> rfl

/-- Pass 3 stores the events of the lines that are not suppressed. -/
theorem foldl_ingestOneLine (buffer : List ((String × Nat) × Nat)) (suppressed : List Nat)
    (st : IngestState) :
    buffer.foldl (fun st x =>
        if x.2 ∈ suppressed then st else env.ingestOneLine feed enableV2 st x.1) st =
      (buffer.filterMap fun x =>
        if x.2 ∈ suppressed then none
        else (structuralParse x.1.1).bind fun parsed =>
          env.lineItem feed (x.1, parsed)).foldl (env.storeItem feed enableV2) st := by
  rw [List.foldl_filterMap]
  congr 1
  funext st x
  split
  · rfl
  · rw [ingestOneLine_eq]
    cases (structuralParse x.1.1).bind fun parsed => env.lineItem feed (x.1, parsed) <;> rfl

theorem lineItems_eq {lines : List (String × Nat)} {suppressed : List Nat}
    (h : ∀ k x, (placedRecords (stitchMultilineRecords lines))[k]? = some x →
      (x.1 ∈ suppressed ↔ k ∈ claimed (recordsOf lines))) :
    env.lineItems feed (recordsOf lines) =
      (stitchMultilineRecords lines).zipIdx.filterMap fun x =>
        if x.2 ∈ suppressed then none
        else (structuralParse x.1.1).bind fun parsed => env.lineItem feed (x.1, parsed) := by
  have hzip : (recordsOf lines).zipIdx =
      (placedRecords (stitchMultilineRecords lines)).zipIdx.map fun x => (x.1.2, x.2) := by
    rw [recordsOf_eq, List.zipIdx_map]
    rfl
  have hfst := List.zipIdx_map_fst 0 (placedRecords (stitchMultilineRecords lines))
  calc env.lineItems feed (recordsOf lines)
      = (placedRecords (stitchMultilineRecords lines)).zipIdx.filterMap (fun x =>
          if x.1.1 ∈ suppressed then none else env.lineItem feed x.1.2) := by
        rw [lineItems, hzip, List.filterMap_map]
        refine List.filterMap_congr fun x hx => ?_
        have hiff := h x.2 x.1 (List.mem_zipIdx_iff_getElem?.1 hx)
        simp only [Function.comp, hiff]
    _ = (placedRecords (stitchMultilineRecords lines)).filterMap (fun x =>
          if x.1 ∈ suppressed then none else env.lineItem feed x.2) := by
        conv_rhs => rw [← hfst, List.filterMap_map]
        rfl
    _ = _ := by
        rw [placedRecords, List.filterMap_filterMap]
        refine List.filterMap_congr fun x _ => ?_
        cases structuralParse x.1.1 with
        | none => simp
        | some parsed => simp

theorem parseable_window (lines : List (String × Nat)) :
    (parseable (stitchMultilineRecords lines)).map (·.2) = burstWindow lines := by
  rw [parseable_eq, burstWindow, recordsOf_eq, List.map_map, List.map_map]
  rfl

theorem placed_window (lines : List (String × Nat)) :
    (placedRecords (stitchMultilineRecords lines)).map (·.2.2) = burstWindow lines := by
  rw [burstWindow, recordsOf_eq, List.map_map]
  rfl

/-- A call of `process_buffer` stores the items of its records. -/
theorem processBuffer_eq (inferenceRules : List CompiledInferenceRule) (st : IngestState)
    (lines : List (String × Nat)) :
    env.processBuffer feed inferenceRules builtinBurstRules enableV2 st lines =
      let stored := (env.items feed (recordsOf lines)).foldl (env.storeItem feed enableV2) st
      if enableV2 then env.runInferenceAndPersist feed inferenceRules stored else stored := by
  have hrange : ∀ burst ∈ detectBursts (burstWindow lines) builtinBurstRules,
      InRange ((placedRecords (stitchMultilineRecords lines)).map (·.2.2)) burst := by
    rw [placed_window]
    exact fun burst => inRange_of_mem
  have hclaimed : ∀ k x, (placedRecords (stitchMultilineRecords lines))[k]? = some x →
      (x.1 ∈ (detectBursts (burstWindow lines) builtinBurstRules).flatMap
        (suppressedBy (placedRecords (stitchMultilineRecords lines))) ↔
          k ∈ claimed (recordsOf lines)) := fun k x hk => mem_suppressed_iff hk
  simp only [processBuffer, parseable_window, foldl_storeBurst hrange, ← recordsOf_eq,
    foldl_ingestOneLine, List.nil_append]
  rw [← lineItems_eq hclaimed, items, burstItems, List.foldl_append]
  rfl

end IngestEnv

/-! ## Joined records -/

section
variable {rule : BurstRule} {records more : List ParsedRecord} {run : List Nat}

/-- A summary is made of the rule, the size and the records of its burst. -/
theorem burstItem_congr (env : IngestEnv) (feed : LogFeed) {hit hit' : BurstHit}
    (hrule : hit.ruleId = hit'.ruleId) (hsize : hit.size = hit'.size)
    (hstart : records[hit.startIndex]? = more[hit'.startIndex]?)
    (hlast : records[hit.endIndex]? = more[hit'.endIndex]?)
    (hmembers : hit.memberIndices.filterMap (records[·]?) =
      hit'.memberIndices.filterMap (more[·]?)) :
    env.burstItem feed records hit = env.burstItem feed more hit' := by
  simp only [IngestEnv.burstItem, IngestEnv.syntheticLine, IngestEnv.burstSummary, hrule, hsize,
    hstart, hlast, hmembers]

theorem burstItem_left (env : IngestEnv) (feed : LogFeed) (hne : run ≠ [])
    (hrun : ∀ p ∈ run, p < records.length) :
    env.burstItem feed (records ++ more) (rule.hit run) =
      env.burstItem feed records (rule.hit run) := by
  have hget : ∀ p ∈ run, (records ++ more)[p]? = records[p]? :=
    fun p hp => List.getElem?_append_left (hrun p hp)
  obtain ⟨a, l, rfl⟩ := List.exists_cons_of_ne_nil hne
  have hlast : (a :: l).getLastD 0 ∈ a :: l := by
    rw [List.getLastD_eq_getLast?, List.getLast?_cons, Option.getD_some]
    exact List.mem_of_getLast? (by rw [List.getLast?_cons])
  exact burstItem_congr env feed rfl rfl (hget a List.mem_cons_self) (hget _ hlast)
    (List.filterMap_congr hget)

theorem burstItem_right (env : IngestEnv) (feed : LogFeed) (hne : run ≠ []) :
    env.burstItem feed (records ++ more) (rule.hit (run.map (· + records.length))) =
      env.burstItem feed more (rule.hit run) := by
  have hget : ∀ p, (records ++ more)[p + records.length]? = more[p]? := by
    intro p
    rw [List.getElem?_append_right (Nat.le_add_left _ _), Nat.add_sub_cancel]
  obtain ⟨a, l, rfl⟩ := List.exists_cons_of_ne_nil hne
  have hlast : ((a :: l).map (· + records.length)).getLastD 0 =
      (a :: l).getLastD 0 + records.length := by
    simp only [List.getLastD_eq_getLast?, List.getLast?_map, List.getLast?_cons, Option.map_some,
      Option.getD_some]
  refine burstItem_congr env feed rfl ?_ (hget a) ?_ ?_
  · exact List.length_map _
  · show (records ++ more)[((a :: l).map (· + records.length)).getLastD 0]? = _
    rw [hlast, hget]
    rfl
  · show ((a :: l).map (· + records.length)).filterMap ((records ++ more)[·]?) = _
    rw [List.filterMap_map]
    exact List.filterMap_congr fun p _ => hget p

theorem mem_burstItems {env : IngestEnv} {feed : LogFeed} {item : BufferItem} :
    item ∈ env.burstItems feed records ↔
      ∃ rule ∈ builtinBurstRules, ∃ run ∈ rule.bursts (records.map (·.2)),
        env.burstItem feed records (rule.hit run) = some item := by
  simp only [IngestEnv.burstItems, List.mem_filterMap, mem_builtinBursts]
  constructor
  · rintro ⟨hit, ⟨rule, hrule, run, hrun, rfl⟩, hitem⟩
    exact ⟨rule, hrule, run, hrun, hitem⟩
  · rintro ⟨rule, hrule, run, hrun, hitem⟩
    exact ⟨_, ⟨rule, hrule, run, hrun, rfl⟩, hitem⟩

theorem mem_claimed {p : Nat} :
    p ∈ IngestEnv.claimed records ↔
      ∃ rule ∈ builtinBurstRules, ∃ run ∈ rule.bursts (records.map (·.2)), p ∈ run := by
  simp only [IngestEnv.claimed, List.mem_flatMap, mem_builtinBursts]
  constructor
  · rintro ⟨hit, ⟨rule, hrule, run, hrun, rfl⟩, hp⟩
    exact ⟨rule, hrule, run, hrun, hp⟩
  · rintro ⟨rule, hrule, run, hrun, hp⟩
    exact ⟨_, ⟨rule, hrule, run, hrun, rfl⟩, hp⟩

/-- No burst goes across the place where the records are joined. -/
def Joint (records more : List ParsedRecord) : Prop :=
  ∀ rule ∈ builtinBurstRules, ¬ rule.Across ((records ++ more).map (·.2)) records.length

theorem Joint.mem_bursts (h : Joint records more) (hrule : rule ∈ builtinBurstRules) :
    run ∈ rule.bursts ((records ++ more).map (·.2)) ↔
      run ∈ rule.bursts (records.map (·.2)) ∨
        ∃ later ∈ rule.bursts (more.map (·.2)), run = later.map (· + records.length) := by
  have hacross := h rule hrule
  have hlen : (records.map (·.2)).length = records.length := List.length_map _
  rw [List.map_append, ← hlen] at hacross
  rw [List.map_append, BurstRule.bursts_append hacross, List.mem_append, List.mem_map, hlen]
  simp only [eq_comm]

/-- The summaries of joined records are those of both. -/
theorem Joint.mem_burstItems (h : Joint records more) {env : IngestEnv} {feed : LogFeed}
    {item : BufferItem} :
    item ∈ env.burstItems feed (records ++ more) ↔
      item ∈ env.burstItems feed records ∨ item ∈ env.burstItems feed more := by
  have hleft : ∀ {rule : BurstRule} {run : List Nat}, run ∈ rule.bursts (records.map (·.2)) →
      env.burstItem feed (records ++ more) (rule.hit run) =
        env.burstItem feed records (rule.hit run) := fun hrun =>
    burstItem_left env feed (BurstRule.ne_nil_of_mem_bursts hrun) fun p hp => by
      simpa using BurstRule.lt_of_mem_bursts hrun hp
  have hright : ∀ {rule : BurstRule} {run : List Nat}, run ∈ rule.bursts (more.map (·.2)) →
      env.burstItem feed (records ++ more) (rule.hit (run.map (· + records.length))) =
        env.burstItem feed more (rule.hit run) := fun hrun =>
    burstItem_right env feed (BurstRule.ne_nil_of_mem_bursts hrun)
  simp only [StarStats.mem_burstItems]
  constructor
  · rintro ⟨rule, hrule, run, hrun, hitem⟩
    rcases (h.mem_bursts hrule).1 hrun with hrun | ⟨later, hlater, rfl⟩
    · exact .inl ⟨rule, hrule, run, hrun, by rw [← hleft hrun, hitem]⟩
    · exact .inr ⟨rule, hrule, later, hlater, by rw [← hright hlater, hitem]⟩
  · rintro (⟨rule, hrule, run, hrun, hitem⟩ | ⟨rule, hrule, run, hrun, hitem⟩)
    · exact ⟨rule, hrule, run, (h.mem_bursts hrule).2 (.inl hrun), by rw [hleft hrun, hitem]⟩
    · exact ⟨rule, hrule, _, (h.mem_bursts hrule).2 (.inr ⟨run, hrun, rfl⟩),
        by rw [hright hrun, hitem]⟩

theorem Joint.mem_claimed_left (h : Joint records more) {p : Nat} (hp : p < records.length) :
    p ∈ IngestEnv.claimed (records ++ more) ↔ p ∈ IngestEnv.claimed records := by
  simp only [mem_claimed]
  refine exists_congr fun rule => and_congr_right fun hrule => ⟨?_, ?_⟩
  · rintro ⟨run, hrun, hmem⟩
    rcases (h.mem_bursts hrule).1 hrun with hrun | ⟨later, hlater, rfl⟩
    · exact ⟨run, hrun, hmem⟩
    · obtain ⟨q, -, rfl⟩ := List.mem_map.1 hmem
      omega
  · rintro ⟨run, hrun, hmem⟩
    exact ⟨run, (h.mem_bursts hrule).2 (.inl hrun), hmem⟩

theorem Joint.mem_claimed_right (h : Joint records more) {p : Nat} :
    p + records.length ∈ IngestEnv.claimed (records ++ more) ↔ p ∈ IngestEnv.claimed more := by
  simp only [mem_claimed]
  refine exists_congr fun rule => and_congr_right fun hrule => ⟨?_, ?_⟩
  · rintro ⟨run, hrun, hmem⟩
    rcases (h.mem_bursts hrule).1 hrun with hrun | ⟨later, hlater, rfl⟩
    · have := BurstRule.lt_of_mem_bursts hrun hmem
      rw [List.length_map] at this
      omega
    · obtain ⟨q, hq, heq⟩ := List.mem_map.1 hmem
      obtain rfl : q = p := by omega
      exact ⟨later, hlater, hq⟩
  · rintro ⟨run, hrun, hmem⟩
    exact ⟨_, (h.mem_bursts hrule).2 (.inr ⟨run, hrun, rfl⟩), List.mem_map_of_mem hmem⟩

/-- The events of joined records are those of both, in order. -/
theorem Joint.lineItems (h : Joint records more) (env : IngestEnv) (feed : LogFeed) :
    env.lineItems feed (records ++ more) = env.lineItems feed records ++ env.lineItems feed more := by
  have hzip : more.zipIdx records.length = more.zipIdx.map fun x => (x.1, x.2 + records.length) := by
    rw [List.zipIdx_eq_map_add]
    refine List.map_congr_left fun x _ => ?_
    rw [Nat.add_comm]
  rw [IngestEnv.lineItems, List.zipIdx_append, List.filterMap_append]
  congr 1
  · refine List.filterMap_congr fun x hx => ?_
    have hlt := (List.mem_zipIdx' hx).1
    simp only [h.mem_claimed_left hlt]
  · rw [Nat.zero_add, hzip, List.filterMap_map]
    refine List.filterMap_congr fun x _ => ?_
    simp only [Function.comp, h.mem_claimed_right]

end

/-! ## Buffers -/

section
variable {buffer : List (String × Nat)} {buffers : List (List (String × Nat))}

theorem IsCut.cons {n : Nat} (h : IsCut buffers n) : IsCut (buffer :: buffers) (buffer.length + n) := by
  obtain ⟨before, after, rfl, rfl⟩ := h
  exact ⟨buffer :: before, after, rfl, by rw [List.flatten_cons, List.length_append]⟩

theorem isCut_first : IsCut (buffer :: buffers) buffer.length :=
  ⟨[buffer], buffers, rfl, by simp⟩

theorem KeepsRecords.first (h : KeepsRecords (buffer :: buffers)) :
    ¬ CutsRecord (buffer ++ buffers.flatten) buffer.length := h _ isCut_first

theorem KeepsRecords.tail (h : KeepsRecords (buffer :: buffers)) : KeepsRecords buffers :=
  fun _ hn hcut => h _ hn.cons (hcut.append h.first)

/-- The records of the log are those of its buffers. -/
theorem KeepsRecords.recordsOf (h : KeepsRecords buffers) :
    recordsOf buffers.flatten = buffers.flatMap recordsOf := by
  induction buffers with
  | nil => rfl
  | cons buffer buffers ih =>
    rw [List.flatten_cons, recordsOf_append h.first, ih h.tail, List.flatMap_cons]

theorem KeepsRecords.of_append {before after : List (List (String × Nat))}
    (h : KeepsRecords (before ++ after)) : KeepsRecords after := by
  induction before with
  | nil => exact h
  | cons buffer before ih => exact ih h.tail

theorem KeepsRecords.recordsOf_left {before after : List (List (String × Nat))}
    (h : KeepsRecords (before ++ after)) :
    StarStats.recordsOf before.flatten = before.flatMap StarStats.recordsOf := by
  have hcut : ¬ CutsRecord (before.flatten ++ after.flatten) before.flatten.length := by
    rw [← List.flatten_append]
    exact h _ ⟨before, after, rfl, rfl⟩
  have hwhole := h.recordsOf
  rw [List.flatten_append, recordsOf_append hcut, h.of_append.recordsOf, List.flatMap_append]
    at hwhole
  exact List.append_cancel_right hwhole

theorem burstWindow_append {lines more : List (String × Nat)}
    (h : ¬ CutsRecord (lines ++ more) lines.length) :
    burstWindow (lines ++ more) = burstWindow lines ++ burstWindow more := by
  simp only [burstWindow, recordsOf_append h, List.map_append]

theorem cutsBurst_length {lines more : List (String × Nat)}
    (h : ¬ CutsRecord (lines ++ more) lines.length) :
    CutsBurst (lines ++ more) lines.length ↔ ¬ Joint (recordsOf lines) (recordsOf more) := by
  simp only [CutsBurst, Joint, List.take_left, burstWindow, recordsOf_append h]
  push Not
  rfl

theorem CutsBurst.append {lines more : List (String × Nat)} {n : Nat}
    (h : ¬ CutsRecord (lines ++ more) lines.length)
    (hjoint : Joint (recordsOf lines) (recordsOf more)) (hmore : CutsBurst more n) :
    CutsBurst (lines ++ more) (lines.length + n) := by
  obtain ⟨rule, hrule, hacross⟩ := hmore
  have hlen : (burstWindow lines).length = (recordsOf lines).length := List.length_map _
  have htake : ¬ CutsRecord (lines ++ more.take n) lines.length := by
    simp only [CutsRecord, ne_eq, Decidable.not_not] at h ⊢
    exact recordOverhang_take h n
  have hnot := hjoint rule hrule
  rw [List.map_append, ← hlen] at hnot
  refine ⟨rule, hrule, ?_⟩
  rw [burstWindow_append h, List.take_length_add_append, recordsOf_append htake, List.length_append,
    ← hlen]
  exact hacross.append hnot

structure CleanCuts (buffers : List (List (String × Nat))) : Prop where
  records : KeepsRecords buffers
  bursts : KeepsBursts buffers

theorem CleanCuts.joint (h : CleanCuts (buffer :: buffers)) :
    Joint (StarStats.recordsOf buffer) (StarStats.recordsOf buffers.flatten) := by
  by_contra hnot
  exact h.bursts _ isCut_first ((cutsBurst_length h.records.first).2 hnot)

theorem CleanCuts.tail (h : CleanCuts (buffer :: buffers)) : CleanCuts buffers where
  records := h.records.tail
  bursts _ hn hcut := h.bursts _ hn.cons (hcut.append h.records.first h.joint)

/-- The summaries of the log are those of its buffers. -/
theorem CleanCuts.mem_burstItems (h : CleanCuts buffers) {env : IngestEnv} {feed : LogFeed}
    {item : BufferItem} :
    item ∈ env.burstItems feed (recordsOf buffers.flatten) ↔
      ∃ buffer ∈ buffers, item ∈ env.burstItems feed (recordsOf buffer) := by
  induction buffers with
  | nil =>
    have hnone : env.burstItems feed (recordsOf []) = [] := rfl
    simp [hnone]
  | cons buffer buffers ih =>
    rw [List.flatten_cons, recordsOf_append h.records.first, h.joint.mem_burstItems, ih h.tail]
    simp

/-- The events of the log are those of its buffers, in order. -/
theorem CleanCuts.lineItems (h : CleanCuts buffers) (env : IngestEnv) (feed : LogFeed) :
    env.lineItems feed (recordsOf buffers.flatten) =
      buffers.flatMap fun buffer => env.lineItems feed (recordsOf buffer) := by
  induction buffers with
  | nil => rfl
  | cons buffer buffers ih =>
    rw [List.flatten_cons, recordsOf_append h.records.first, h.joint.lineItems, ih h.tail,
      List.flatMap_cons]

end

end StarStats
