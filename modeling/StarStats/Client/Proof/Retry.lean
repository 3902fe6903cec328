import StarStats.Client.Proof.Backfill
import StarStats.Client.Retry

/-!
# Retried drains

The lines of a drain that crashed are the first of those that the next one reads. When they end
inside no record and inside no burst, what was stored for them is stored for the longer call too
(`Extends`), and no line has both a summary and a row of its own (`retry_once`).
-/

namespace StarStats

open Tailer (Handover LogFile textsFrom linesOf lineEnd)

namespace IngestEnv

variable {env : IngestEnv}

/-! ## A longer call -/

section
variable {lines more : List (String × Nat)} {rule : BurstRule} {run : List Nat}

/-- The bursts of the first lines stay what they are. -/
theorem mem_bursts_of_not_splits (hrecord : ¬ CutsRecord (lines ++ more) lines.length)
    (hsplit : ¬ env.SplitsBurst (lines ++ more) lines.length) (hrule : rule ∈ builtinBurstRules)
    (hrun : run ∈ rule.bursts (burstWindow lines)) :
    run ∈ rule.bursts (burstWindow (lines ++ more)) := by
  have hrecords := recordsOf_append hrecord
  have hlen : (recordsOf ((lines ++ more).take lines.length)).length = (recordsOf lines).length := by
    rw [List.take_left]
  obtain ⟨later, hlonger, hbehind⟩ := BurstRule.exists_burst_append hrun (burstWindow more)
  have hwindow : burstWindow (lines ++ more) = burstWindow lines ++ burstWindow more := by
    simp only [burstWindow, hrecords, List.map_append]
  rw [← hwindow] at hlonger
  cases later with
  | nil => rwa [List.append_nil] at hlonger
  | cons q later =>
    refine absurd ⟨rule, hrule, _, hlonger, ⟨q, by simp, ?_⟩, .inl ?_⟩ hsplit
    · have := hbehind q List.mem_cons_self
      rwa [burstWindow, List.length_map, ← hlen] at this
    · have hfirst : ∀ p ∈ run, p < (recordsOf lines).length := fun p hp => by
        simpa [burstWindow] using BurstRule.lt_of_mem_bursts hrun hp
      rw [hlen, List.filter_append, List.filter_eq_self.2 (by simpa using hfirst),
        List.length_append]
      have hlong := (List.mem_filter.1 hrun).2
      simp only [decide_eq_true_eq] at hlong
      omega

theorem mem_burstItems_of_not_splits (hrecord : ¬ CutsRecord (lines ++ more) lines.length)
    (hsplit : ¬ env.SplitsBurst (lines ++ more) lines.length) {feed : LogFeed} {item : BufferItem}
    (h : item ∈ env.burstItems feed (recordsOf lines)) :
    item ∈ env.burstItems feed (recordsOf (lines ++ more)) := by
  obtain ⟨rule, hrule, run, hrun, hitem⟩ := mem_burstItems.1 h
  refine mem_burstItems.2 ⟨rule, hrule, run, mem_bursts_of_not_splits hrecord hsplit hrule hrun, ?_⟩
  rw [recordsOf_append hrecord, burstItem_left env feed (BurstRule.ne_nil_of_mem_bursts hrun), hitem]
  intro p hp
  simpa using BurstRule.lt_of_mem_bursts hrun hp

/-- An event of the first lines is in no burst of all. -/
theorem not_claimed_of_not_splits (hrecord : ¬ CutsRecord (lines ++ more) lines.length)
    (hsplit : ¬ env.SplitsBurst (lines ++ more) lines.length) {p : Nat} {record : ParsedRecord}
    (hp : (recordsOf lines)[p]? = some record) (hevent : (env.lineEvent record.2).isSome = true)
    (hfree : p ∉ claimed (recordsOf lines)) : p ∉ claimed (recordsOf (lines ++ more)) := by
  intro hclaimed
  have hlen : (recordsOf ((lines ++ more).take lines.length)).length = (recordsOf lines).length := by
    rw [List.take_left]
  obtain ⟨rule, hrule, run, hrun, hmem⟩ := mem_claimed.1 hclaimed
  obtain ⟨hlt, -⟩ := List.getElem?_eq_some_iff.1 hp
  by_cases hacross : ∃ q ∈ run, (recordsOf lines).length ≤ q
  · obtain ⟨q, hq, hge⟩ := hacross
    refine hsplit ⟨rule, hrule, run, hrun, ⟨q, hq, by rwa [hlen]⟩,
      .inr ⟨p, hmem, by rwa [hlen], ?_⟩⟩
    rw [recordsOf_append hrecord, List.getElem?_append_left hlt, hp]
    exact hevent
  · -- the burst is among the first lines
    simp only [not_exists, not_and, Nat.not_le] at hacross
    have hwindow : burstWindow (lines ++ more) = burstWindow lines ++ burstWindow more := by
      simp only [burstWindow, recordsOf_append hrecord, List.map_append]
    rw [← burstWindow, hwindow] at hrun
    exact hfree (mem_claimed.2 ⟨rule, hrule, run, BurstRule.mem_bursts_of_before hrun
      fun q hq => by simpa [burstWindow] using hacross q hq, hmem⟩)

end

/-! ## Two calls -/

/-- The second call has later lines only. -/
def Ahead (call later : Handover) : Prop := ∀ x ∈ call.lines, ∀ y ∈ later.lines, x.2 < y.2

/-- The second call has the lines of the first again, and more behind them. -/
structure Extends (env : IngestEnv) (call later : Handover) : Prop where
  lines : call.lines <+: later.lines
  record : ¬ CutsRecord later.lines call.lines.length
  burst : ¬ env.SplitsBurst later.lines call.lines.length

theorem mem_burstItems_iff_burstsOf {feed : LogFeed} {lines : List (String × Nat)}
    {item : BufferItem} :
    item ∈ env.burstItems feed (recordsOf lines) ↔
      ∃ burst ∈ burstsOf lines, env.burstItem feed (recordsOf lines) burst = some item :=
  List.mem_filterMap

theorem mem_claimed_iff_burstsOf {lines : List (String × Nat)} {p : Nat} :
    p ∈ claimed (recordsOf lines) ↔ ∃ burst ∈ burstsOf lines, p ∈ burst.memberIndices :=
  List.mem_flatMap

theorem Extends.mem_burstItems {call later : Handover} (h : Extends env call later)
    {feed : LogFeed} {item : BufferItem} (hitem : item ∈ env.burstItems feed (recordsOf call.lines)) :
    item ∈ env.burstItems feed (recordsOf later.lines) := by
  obtain ⟨⟨more, hmore⟩, hrecord, hburst⟩ := h
  rw [← hmore] at hrecord hburst ⊢
  exact mem_burstItems_of_not_splits hrecord hburst hitem

theorem Extends.getElem? {call later : Handover} (h : Extends env call later) {p : Nat}
    {record : ParsedRecord} (hp : (recordsOf call.lines)[p]? = some record) :
    (recordsOf later.lines)[p]? = some record := by
  obtain ⟨⟨more, hmore⟩, hrecord, -⟩ := h
  rw [← hmore] at hrecord ⊢
  rw [recordsOf_append hrecord, List.getElem?_append_left (List.getElem?_eq_some_iff.1 hp).1, hp]

/-- Members stay members. -/
theorem Extends.mem_claimed {call later : Handover} (h : Extends env call later) {p : Nat}
    (hp : p ∈ claimed (recordsOf call.lines)) : p ∈ claimed (recordsOf later.lines) := by
  obtain ⟨⟨more, hmore⟩, hrecord, hburst⟩ := h
  rw [← hmore] at hrecord hburst ⊢
  obtain ⟨rule, hrule, run, hrun, hmem⟩ := StarStats.mem_claimed.1 hp
  exact StarStats.mem_claimed.2
    ⟨rule, hrule, run, mem_bursts_of_not_splits hrecord hburst hrule hrun, hmem⟩

theorem Extends.not_mem_claimed {call later : Handover} (h : Extends env call later) {p : Nat}
    {record : ParsedRecord} (hp : (recordsOf call.lines)[p]? = some record)
    (hevent : (env.lineEvent record.2).isSome = true) (hfree : p ∉ claimed (recordsOf call.lines)) :
    p ∉ claimed (recordsOf later.lines) := by
  obtain ⟨⟨more, hmore⟩, hrecord, hburst⟩ := h
  rw [← hmore] at hrecord hburst ⊢
  exact not_claimed_of_not_splits hrecord hburst hp hevent hfree

/-- A record begins where one of the lines does. -/
theorem exists_line_of_record {lines : List (String × Nat)} {record : ParsedRecord}
    (h : record ∈ recordsOf lines) : ∃ x ∈ lines, x.2 = record.1.2 := by
  obtain ⟨stitched, hstitched, hparsed⟩ := List.mem_filterMap.1 h
  obtain ⟨line, -, rfl⟩ := Option.map_eq_some_iff.1 hparsed
  have hoffset := (stitchFrom_offsets 0 lines).subset (List.mem_map_of_mem hstitched)
  exact List.mem_map.1 hoffset

/-- Calls of which one is ahead of the other have no record at the same place. -/
theorem Ahead.offset_ne {call later : Handover} (h : Ahead call later) {record other : ParsedRecord}
    (hrecord : record ∈ recordsOf call.lines) (hother : other ∈ recordsOf later.lines) :
    record.1.2 ≠ other.1.2 := by
  obtain ⟨x, hx, hxo⟩ := exists_line_of_record hrecord
  obtain ⟨y, hy, hyo⟩ := exists_line_of_record hother
  have := h x hx y hy
  omega

/-! ## The run -/

section
variable {newV5 : List UInt8 → String}

/-- The tail goes on from its offset. -/
structure Fits (newV5 : List UInt8 → String) (file : LogFile) (tail : Tailer.Tail) : Prop where
  inside : tail.offset ≤ file.bytes.length
  sig : tail.lastSig = none ∨ tail.lastSig = file.signature newV5

theorem Fits.resumed {file : LogFile} {tail : Tailer.Tail} (h : Fits newV5 file tail) :
    tail.resumed newV5 file = tail.offset := by
  have hnot : Tailer.rotated tail.lastSig (file.signature newV5) = false := by
    rcases h.sig with hsig | hsig
    · rw [hsig]
      rfl
    · rw [hsig]
      cases file.signature newV5 <;> simp [Tailer.rotated]
  have := h.inside
  simp only [Tailer.Tail.resumed, Tailer.resolveResumeOffset, hnot, Bool.false_eq_true, ↓reduceIte,
    if_neg (Nat.not_lt.2 this)]

theorem Fits.grown {file : LogFile} {tail : Tailer.Tail} (h : Fits newV5 file tail)
    (more : List UInt8) : Fits newV5 { file with bytes := file.bytes ++ more } tail := by
  refine ⟨?_, ?_⟩
  · have := h.inside
    simp only [List.length_append]
    omega
  · by_cases hlen : Tailer.fileSigHeadBytes ≤ file.bytes.length
    · rw [Tailer.signature_append hlen]
      exact h.sig
    · have hhead : (file.bytes.take Tailer.fileSigHeadBytes).length < Tailer.fileSigHeadBytes := by
        rw [List.length_take]
        omega
      have hnone : file.signature newV5 = none := by
        simp only [LogFile.signature, Tailer.signatureFromHead, if_pos hhead]
      exact .inl (h.sig.elim id fun hsig => hsig.trans hnone)

/-- The lines that a drain reads. -/
def unreadFrom (file : LogFile) (n : Nat) : List (String × Nat) :=
  textsFrom n (linesOf (file.bytes.drop n))

theorem unreadFrom_grown {file : LogFile} {n : Nat} (hn : n ≤ file.bytes.length)
    (more : List UInt8) :
    unreadFrom file n <+: unreadFrom { file with bytes := file.bytes ++ more } n := by
  have hdrop : (file.bytes ++ more).drop n = file.bytes.drop n ++ more :=
    List.drop_append_of_le_length hn
  have hle := Tailer.lineEnd_le (file.bytes.drop n)
  have htake : (file.bytes.drop n ++ more).take (lineEnd (file.bytes.drop n)) =
      (file.bytes.drop n).take (lineEnd (file.bytes.drop n)) :=
    List.take_append_of_le_length hle
  have hcut := @Tailer.textsFrom_cut (file.bytes.drop n ++ more) (lineEnd (file.bytes.drop n))
    (by rw [List.length_append]; omega)
    (by rw [htake]; exact Tailer.atLineEnd_take_lineEnd _) n
  rw [htake, Tailer.linesOf_take_lineEnd] at hcut
  simp only [unreadFrom, hdrop, hcut]
  exact List.prefix_append _ _

theorem unreadFrom_bounds {file : LogFile} {n : Nat} :
    ∀ x ∈ unreadFrom file n, n ≤ x.2 ∧ x.2 < n + lineEnd (file.bytes.drop n) := by
  intro x hx
  obtain ⟨⟨raw, start⟩, hmem, rfl⟩ := List.mem_map.1 hx
  obtain ⟨before, after, hlines, rfl⟩ := Lines.mem_withStarts.1 hmem
  have hraw : raw ∈ linesOf (file.bytes.drop n) := by
    rw [hlines]
    simp
  have := List.length_pos_iff.2 (Lines.split_ne_nil hraw)
  simp only [lineEnd, hlines, List.flatten_append, List.flatten_cons, List.length_append]
  omega

/-- What holds of a log and its tail, whatever crashed. -/
structure RetryInv (env : IngestEnv) (newV5 : List UInt8 → String) (s : TailIngest) : Prop where
  tail : Fits newV5 s.tailer.file s.tailer.tail
  cursor : Fits newV5 s.tailer.file (Tailer.loadCursor s.tailer.cursor)
  loaded : (Tailer.loadCursor s.tailer.cursor).offset = s.tailer.tail.offset
  increasing : ∀ call ∈ s.tailer.handed, call.lines.Pairwise (·.2 < ·.2)
  /-- A call is done with, or the lines that it crashed over are still unread. -/
  handed : ∀ call ∈ s.tailer.handed, (∀ x ∈ call.lines, x.2 < s.tailer.tail.offset) ∨
    call.committed = false ∧ call.lines <+: unreadFrom s.tailer.file s.tailer.tail.offset
  apart : s.tailer.handed.Pairwise fun call later => Ahead call later ∨ Extends env call later

theorem mem_handed {s : TailIngest} {committed : Bool} {call : Handover}
    (h : call ∈ s.tailer.handed ++ Tailer.hand s.tailer.file
      (unreadFrom s.tailer.file s.tailer.tail.offset) committed) :
    call ∈ s.tailer.handed ∨ call = ⟨s.tailer.file,
      unreadFrom s.tailer.file s.tailer.tail.offset, committed⟩ :=
  (List.mem_append.1 h).imp_right Tailer.mem_hand

theorem unread_eq {s : TailIngest} (h : Fits newV5 s.tailer.file s.tailer.tail) :
    s.unread newV5 = unreadFrom s.tailer.file s.tailer.tail.offset := by
  rw [TailIngest.unread, Tailer.drain_ok.2, h.resumed]
  rfl

/-- The next call is ahead of the others, or has the lines again over which they crashed. -/
theorem RetryInv.next {s : TailIngest} (hs : RetryInv env newV5 s) (committed : Bool)
    (hok : ∀ call ∈ s.tailer.handed, call.committed = false →
      call.lines <+: s.unread newV5 → ¬ CutsRecord (s.unread newV5) call.lines.length ∧
        ¬ env.SplitsBurst (s.unread newV5) call.lines.length) :
    (s.tailer.handed ++ Tailer.hand s.tailer.file
      (unreadFrom s.tailer.file s.tailer.tail.offset) committed).Pairwise
        fun call later => Ahead call later ∨ Extends env call later := by
  rw [unread_eq hs.tail] at hok
  refine List.pairwise_append.2 ⟨hs.apart, ?_, fun call hcall later hlater => ?_⟩
  · unfold Tailer.hand
    split
    · exact .nil
    · exact List.pairwise_singleton _ _
  · obtain rfl := Tailer.mem_hand hlater
    rcases hs.handed call hcall with hdone | ⟨hcrashed, hagain⟩
    · left
      intro x hx y hy
      have := hdone x hx
      have := (unreadFrom_bounds y hy).1
      omega
    · obtain ⟨hrecord, hburst⟩ := hok call hcall hcrashed hagain
      exact .inr ⟨hagain, hrecord, hburst⟩

theorem increasing_unreadFrom (file : LogFile) (n : Nat) :
    (unreadFrom file n).Pairwise (·.2 < ·.2) := Tailer.textsFrom_increasing n _

theorem inv_append {s s' : TailIngest} {more : List UInt8} (hs : RetryInv env newV5 s)
    (h : Tailer.step newV5 s.tailer (.append more) = some s'.tailer) : RetryInv env newV5 s' := by
  obtain ⟨tailer, ingest⟩ := s'
  simp only [Tailer.step, Option.some.injEq] at h
  subst h
  refine ⟨hs.tail.grown more, hs.cursor.grown more, hs.loaded, hs.increasing, fun call hcall => ?_,
    hs.apart⟩
  rcases hs.handed call hcall with hdone | hopen
  · exact .inl hdone
  · exact .inr ⟨hopen.1, hopen.2.trans (unreadFrom_grown hs.tail.inside more)⟩

theorem inv_restart {s s' : TailIngest} (hs : RetryInv env newV5 s)
    (h : Tailer.step newV5 s.tailer .restart = some s'.tailer) : RetryInv env newV5 s' := by
  obtain ⟨tailer, ingest⟩ := s'
  simp only [Tailer.step, Option.some.injEq] at h
  subst h
  refine ⟨hs.cursor, hs.cursor, rfl, hs.increasing, ?_, hs.apart⟩
  dsimp only
  rw [hs.loaded]
  exact hs.handed

theorem inv_crash {s s' : TailIngest} (hs : RetryInv env newV5 s)
    (hok : env.CrashedBetween newV5 s .crash)
    (h : Tailer.step newV5 s.tailer .crash = some s'.tailer) : RetryInv env newV5 s' := by
  have hnext := hs.next false hok
  obtain ⟨tailer, ingest⟩ := s'
  simp only [Tailer.step, Option.some.injEq, Tailer.drain_ok.2, hs.tail.resumed] at h
  subst h
  refine ⟨hs.cursor, hs.cursor, rfl, fun call hcall => ?_, fun call hcall => ?_, hnext⟩
  · rcases mem_handed hcall with hold | rfl
    · exact hs.increasing call hold
    · exact increasing_unreadFrom _ _
  · dsimp only
    rw [hs.loaded]
    rcases mem_handed hcall with hold | rfl
    · exact hs.handed call hold
    · exact .inr ⟨rfl, List.prefix_refl _⟩

theorem inv_drain {s s' : TailIngest} (hs : RetryInv env newV5 s)
    (hok : env.CrashedBetween newV5 s .drain)
    (h : Tailer.step newV5 s.tailer .drain = some s'.tailer) : RetryInv env newV5 s' := by
  have hnext := hs.next true hok
  obtain ⟨htail, hlines⟩ := @Tailer.drain_ok newV5 s.tailer.file s.tailer.tail
  have hcursor := @Tailer.drain_cursor newV5 s.tailer.file s.tailer.tail
  rw [hs.tail.resumed] at htail hlines hcursor
  have hle := Tailer.lineEnd_le (s.tailer.file.bytes.drop s.tailer.tail.offset)
  rw [List.length_drop] at hle
  have hinside := hs.tail.inside
  obtain ⟨tailer, ingest⟩ := s'
  simp only [Tailer.step, Option.some.injEq, hlines] at h
  subst h
  have hfits : Fits newV5 s.tailer.file
      ⟨s.tailer.tail.offset + lineEnd (s.tailer.file.bytes.drop s.tailer.tail.offset),
        s.tailer.file.signature newV5⟩ := ⟨by dsimp only; omega, .inr rfl⟩
  have hloaded : Fits newV5 s.tailer.file (Tailer.loadCursor
        ((Tailer.drain newV5 .ok s.tailer.file s.tailer.tail).cursor.or s.tailer.cursor)) ∧
      (Tailer.loadCursor ((Tailer.drain newV5 .ok s.tailer.file s.tailer.tail).cursor.or
        s.tailer.cursor)).offset =
        s.tailer.tail.offset + lineEnd (s.tailer.file.bytes.drop s.tailer.tail.offset) := by
    rcases hcursor with hcursor | ⟨hcursor, hend⟩
    · rw [hcursor, htail]
      exact ⟨hfits, rfl⟩
    · -- nothing was read, and the cursor stays
      rw [hcursor, Option.none_or, hs.loaded]
      exact ⟨hs.cursor, by omega⟩
  rw [← htail] at hfits
  refine ⟨hfits, hloaded.1, hloaded.2.trans (congrArg Tailer.Tail.offset htail).symm,
    fun call hcall => ?_, fun call hcall => ?_, hnext⟩
  · rcases mem_handed hcall with hold | rfl
    · exact hs.increasing call hold
    · exact increasing_unreadFrom _ _
  · left
    have hoffset := congrArg Tailer.Tail.offset htail
    intro x hx
    rcases mem_handed hcall with hold | rfl
    · rcases hs.handed call hold with hdone | ⟨-, hagain⟩
      · have := hdone x hx
        dsimp only at hoffset ⊢
        omega
      · have := (unreadFrom_bounds x (hagain.subset hx)).2
        dsimp only at hoffset ⊢
        omega
    · have := (unreadFrom_bounds x hx).2
      dsimp only at hoffset ⊢
      omega

section
variable {source : LogSource} {inferenceRules : List CompiledInferenceRule} {enableV2 : Bool}

theorem tailer_of_step {s s' : TailIngest} {act : RetryAction}
    (h : env.retryStep newV5 source inferenceRules enableV2 s act = some s') :
    Tailer.step newV5 s.tailer act.tail = some s'.tailer := by
  simp only [retryStep, Option.bind_eq_bind, Option.bind_eq_some_iff, Option.pure_def,
    Option.some.injEq] at h
  obtain ⟨tailer, htailer, rfl⟩ := h
  exact htailer

/-- A step that hands over one more call. -/
theorem exists_handing {s : TailIngest} {act : RetryAction} {tailer : Tailer.State}
    {call : Handover} (h : Tailer.step newV5 s.tailer act.tail = some tailer)
    (hhanded : tailer.handed = s.tailer.handed ++ [call]) :
    ∃ s', env.retryStep newV5 source inferenceRules enableV2 s act = some s' ∧
      s'.tailer = tailer ∧ s'.ingest.events = (env.processBuffer (feedOf newV5 source call)
        inferenceRules builtinBurstRules enableV2 s.ingest call.lines).events := by
  have hstep : env.retryStep newV5 source inferenceRules enableV2 s act =
      let ingest := env.processBuffer (feedOf newV5 source call) inferenceRules builtinBurstRules
        enableV2 s.ingest call.lines
      some ⟨tailer, if act.restarts then { ingest with window := .default } else ingest⟩ := by
    rw [retryStep, h]
    simp [hhanded]
  refine ⟨_, hstep, rfl, ?_⟩
  dsimp only
  split <;> rfl

theorem retryStep_append (s : TailIngest) (bytes : List UInt8) :
    env.retryStep newV5 source inferenceRules enableV2 s (.append bytes) =
      some { s with tailer := { s.tailer with file := s.tailer.file.grown bytes } } := by
  simp [retryStep, RetryAction.tail, RetryAction.restarts, Tailer.step, LogFile.grown]

theorem retry_step {s s' : TailIngest} {act : RetryAction} (hs : RetryInv env newV5 s)
    (hok : env.CrashedBetween newV5 s act)
    (h : env.retryStep newV5 source inferenceRules enableV2 s act = some s') :
    RetryInv env newV5 s' := by
  have htailer := tailer_of_step h
  cases act with
  | append bytes => exact inv_append hs htailer
  | restart => exact inv_restart hs htailer
  | drain => exact inv_drain hs hok htailer
  | crash => exact inv_crash hs hok htailer

theorem retry_start (env : IngestEnv) (newV5 : List UInt8 → String) (file : LogFile)
    (events : List EventsRow) : RetryInv env newV5 (.start file events) where
  tail := ⟨Nat.zero_le _, .inl rfl⟩
  cursor := ⟨Nat.zero_le _, .inl rfl⟩
  loaded := rfl
  increasing := fun _ h => absurd h List.not_mem_nil
  handed := fun _ h => absurd h List.not_mem_nil
  apart := .nil

end

/-! ## What the table holds -/

/-- Two calls are one, or one comes before the other. -/
theorem RetryInv.related {s : TailIngest} (hs : RetryInv env newV5 s) {call later : Handover}
    (hcall : call ∈ s.tailer.handed) (hlater : later ∈ s.tailer.handed) :
    call = later ∨ (Ahead call later ∨ Extends env call later) ∨
      (Ahead later call ∨ Extends env later call) := by
  let related : Handover → Handover → Prop := fun call later => call = later ∨
    (Ahead call later ∨ Extends env call later) ∨ (Ahead later call ∨ Extends env later call)
  have hsymm : Std.Symm related := ⟨fun _ _ h => h.imp Eq.symm Or.symm⟩
  have hpairs : s.tailer.handed.Pairwise related := hs.apart.imp fun h => .inr (.inl h)
  exact hpairs.forall_of_forall (fun _ _ => .inl rfl) hcall hlater

theorem summary_unique {call later : Handover} (h : Ahead call later ∨ Extends env call later)
    (hinc : later.lines.Pairwise (·.2 < ·.2)) {feed : LogFeed} {item other : BufferItem}
    (hitem : item ∈ env.burstItems feed (recordsOf call.lines))
    (hother : other ∈ env.burstItems feed (recordsOf later.lines))
    (heq : item.offset = other.offset) : item = other := by
  rcases h with h | h
  · obtain ⟨burst, -, hburst⟩ := List.mem_filterMap.1 hitem
    obtain ⟨burst', -, hburst'⟩ := List.mem_filterMap.1 hother
    obtain ⟨record, hrecord, hoffset, -⟩ := burstItem_eq_some hburst
    obtain ⟨record', hrecord', hoffset', -⟩ := burstItem_eq_some hburst'
    refine absurd ?_ (h.offset_ne (List.mem_of_getElem? hrecord) (List.mem_of_getElem? hrecord'))
    rw [← hoffset, heq, hoffset']
  · exact burstItem_unique (increasing_recordsOf hinc) (h.mem_burstItems hitem) hother heq

/-- A record that is an event on its own in one of two calls is a member in neither. -/
theorem member_apart {call later : Handover} (h : Ahead call later ∨ Extends env call later)
    (hinc : later.lines.Pairwise (·.2 < ·.2)) {p q : Nat} {record other : ParsedRecord}
    (hp : (recordsOf call.lines)[p]? = some record)
    (hq : (recordsOf later.lines)[q]? = some other) (heq : record.1.2 = other.1.2) :
    (p ∈ claimed (recordsOf call.lines) → q ∈ claimed (recordsOf later.lines)) ∧
      ((env.lineEvent record.2).isSome = true → p ∉ claimed (recordsOf call.lines) →
        q ∉ claimed (recordsOf later.lines)) := by
  rcases h with h | h
  · exact absurd heq (h.offset_ne (List.mem_of_getElem? hp) (List.mem_of_getElem? hq))
  · obtain rfl := (increasing_recordsOf hinc).place_eq (h.getElem? hp) hq heq
    exact ⟨h.mem_claimed, h.not_mem_claimed hp⟩

theorem RetryInv.once {s : TailIngest} (hs : RetryInv env newV5 s) (source : LogSource) :
    env.OnceRepresented newV5 source s where
  one_summary := by
    rintro fileSig ruleId offset row - row' - ⟨call, hcall, -, burst, hburst, -, item, hitem,
      hoffset, rfl⟩ ⟨call', hcall', -, burst', hburst', -, item', hitem', hoffset', rfl⟩
    have hmem := mem_burstItems_iff_burstsOf.2 ⟨burst, hburst, hitem⟩
    have hmem' := mem_burstItems_iff_burstsOf.2 ⟨burst', hburst', hitem'⟩
    have heq : item.offset = item'.offset := hoffset.trans hoffset'.symm
    have hinc := hs.increasing call hcall
    have hinc' := hs.increasing call' hcall'
    have hsame : item = item' := by
      rcases hs.related hcall hcall' with rfl | h | h
      · exact burstItem_unique (increasing_recordsOf hinc) hmem hmem' heq
      · exact summary_unique h hinc' hmem hmem' heq
      · exact (summary_unique h hinc hmem' hmem heq.symm).symm
    rw [hsame]
  apart := by
    rintro offset ⟨⟨call, hcall, burst, hburst, ⟨p, hp, record, hrecord, rfl⟩, -⟩,
      call', hcall', item, hitem, hoffset, -⟩
    obtain ⟨q, other, hother, hfree, hline⟩ := mem_lineItems hitem
    have hclaimed := mem_claimed_iff_burstsOf.2 ⟨burst, hburst, hp⟩
    have heq : record.1.2 = other.1.2 := by rw [← hoffset, (lineItem_eq_some hline).1]
    have hevent : (env.lineEvent other.2).isSome = true := by
      obtain ⟨event, hevent, -⟩ := Option.map_eq_some_iff.1 hline
      rw [hevent]
      rfl
    have hinc := hs.increasing call hcall
    have hinc' := hs.increasing call' hcall'
    rcases hs.related hcall hcall' with rfl | h | h
    · obtain rfl := (increasing_recordsOf hinc).place_eq hrecord hother heq
      exact hfree hclaimed
    · exact hfree ((member_apart h hinc' hrecord hother heq).1 hclaimed)
    · exact (member_apart h hinc hother hrecord heq.symm).2 hevent hfree hclaimed

end

/-- In every run whose crashed drains ended inside no record and inside no burst, no line is there
twice. -/
theorem retry_once (env : IngestEnv) (newV5 : List UInt8 → String) (source : LogSource)
    (inferenceRules : List CompiledInferenceRule) (enableV2 : Bool) (file : LogFile)
    (events : List EventsRow) {s : TailIngest}
    (h : Trans.Reach (env.retryStep newV5 source inferenceRules enableV2)
      (env.CrashedBetween newV5) (.start file events) s) :
    env.OnceRepresented newV5 source s :=
  (h.inv (retry_start env newV5 file events) fun _ _ _ => retry_step).once source

/-! ### Twelve vehicles are stowed -/

def stowedFile : LogFile := ⟨0, none, (List.replicate 12 stowed).flatten⟩

/-- The tail behind a drain of all lines that crashed, and more lines. -/
def crashedTail (file : LogFile) (lines : List (String × Nat)) (more : List UInt8) :
    Tailer.State where
  file := file.grown more
  past := []
  tail := ⟨0, none⟩
  cursor := none
  handed := [⟨file, lines, false⟩]
  drained := []

theorem unread_of_start {newV5 : List UInt8 → String} {s : TailIngest}
    (h : s.tailer.tail = ⟨0, none⟩) :
    s.unread newV5 = textsFrom 0 (linesOf s.tailer.file.bytes) := by
  have hfits : Fits newV5 s.tailer.file s.tailer.tail := by
    rw [h]
    exact ⟨Nat.zero_le _, .inl rfl⟩
  rw [unread_eq hfits, h]
  rfl

section
variable {newV5 : List UInt8 → String} {source : LogSource} {enableV2 : Bool}
  {inferenceRules : List CompiledInferenceRule}

/-- A crash in the first drain of the file, and more lines behind it. -/
theorem exists_crashed (more : List UInt8) :
    ∃ s s', env.retryStep newV5 source inferenceRules enableV2 (.start stowedFile []) .crash =
        some s ∧
      env.retryStep newV5 source inferenceRules enableV2 s (.append more) = some s' ∧
      s'.tailer = crashedTail stowedFile (stowedLines 0 12) more ∧
      s'.ingest.events = (env.processBuffer
        (feedOf newV5 source ⟨stowedFile, stowedLines 0 12, false⟩) inferenceRules
          builtinBurstRules enableV2 ⟨[], .default⟩ (stowedLines 0 12)).events := by
  have hlines : (Tailer.drain newV5 .ok stowedFile ⟨0, none⟩).lines = stowedLines 0 12 :=
    (@unread_of_start newV5 (.start stowedFile []) rfl).trans (textsFrom_stowed_only 12 0)
  have htail : Tailer.step newV5 (TailIngest.start stowedFile []).tailer .crash =
      some { crashedTail stowedFile (stowedLines 0 12) [] with file := stowedFile } := by
    rw [TailIngest.start, Tailer.State.start, Tailer.step, Tailer.loadCursor]
    dsimp only [Option.getD_none]
    rw [hlines]
    rfl
  obtain ⟨s, hcrash, htailer, hevents⟩ := @exists_handing env newV5 source inferenceRules enableV2
    (.start stowedFile []) .crash _ ⟨stowedFile, stowedLines 0 12, false⟩ htail rfl
  refine ⟨s, _, hcrash, retryStep_append s more, ?_, hevents⟩
  rw [htailer]
  rfl

end

/-- The parked vehicle is in no burst with those that are stowed. -/
theorem crashedBetween_parked {s : TailIngest}
    (h : s.tailer = crashedTail stowedFile (stowedLines 0 12) parkedLine) :
    stowingEnv.CrashedBetween (fun _ => "v5") s .drain := by
  have hclosed : ∀ line ∈ stowedLines 0 12 ++ [(parkedText, 600)],
      unterminated line.1 = false := by
    intro line hline
    rcases List.mem_append.1 hline with hline | hline
    · exact closed_stowedLines 0 12 line hline
    · rw [List.mem_singleton.1 hline, unterminated_parked]
  have hparked : recordsOf [(parkedText, 600)] = [((parkedText, 600), parkedLogLine)] := by
    rw [recordsOf_of_closed fun line hline => hclosed line (List.mem_append_right _ hline)]
    simp [structuralParse_parked]
  have hrecords : recordsOf (stowedLines 0 12 ++ [(parkedText, 600)]) =
      (stowedLines 0 12).map (·, stowedLine) ++ [((parkedText, 600), parkedLogLine)] := by
    rw [recordsOf_append (not_cutsRecord_of_closed hclosed _), recordsOf_stowedLines, hparked]
  have hunread : s.unread (fun _ => "v5") = stowedLines 0 12 ++ [(parkedText, 600)] := by
    have hbytes : (crashedTail stowedFile (stowedLines 0 12) parkedLine).file.bytes =
        (List.replicate 12 stowed).flatten ++ parkedLine := rfl
    have htexts := textsFrom_parked (0 + 50 * 12) []
    rw [List.append_nil] at htexts
    rw [unread_of_start (by rw [h]; rfl), h, hbytes, textsFrom_stowed, htexts]
    rfl
  intro call hcall _ _
  rw [h] at hcall
  obtain rfl := List.mem_singleton.1 hcall
  rw [hunread]
  refine ⟨not_cutsRecord_of_closed hclosed _, ?_⟩
  rw [SplitsBurst, List.take_left, burstWindow, hrecords, recordsOf_stowedLines]
  decide

/-- The drain crashes, the log goes on with another line, and the drain is done again. -/
def crashedBetween : TailIngest :=
  (Trans.exec (stowingEnv.retryStep (fun _ => "v5") .live builtInInferenceRules false)
    (stowingEnv.CrashedBetween fun _ => "v5") (.start stowedFile [])
    [.crash, .append parkedLine, .drain]).getD (.start stowedFile [])

theorem retry_once_between : stowingEnv.OnceRepresented (fun _ => "v5") .live crashedBetween := by
  have hexec : (Trans.exec (stowingEnv.retryStep (fun _ => "v5") .live builtInInferenceRules false)
      (stowingEnv.CrashedBetween fun _ => "v5") (.start stowedFile [])
      [.crash, .append parkedLine, .drain]).isSome = true := by
    obtain ⟨s, s', hcrash, happend, htailer, -⟩ := @exists_crashed stowingEnv (fun _ => "v5") .live
      false builtInInferenceRules parkedLine
    have hstart : stowingEnv.CrashedBetween (fun _ => "v5") (.start stowedFile []) .crash :=
      fun call hcall => absurd hcall List.not_mem_nil
    have happended : stowingEnv.CrashedBetween (fun _ => "v5") s (.append parkedLine) := trivial
    rw [Trans.exec, if_pos hstart, hcrash, Option.bind_some, Trans.exec, if_pos happended, happend,
      Option.bind_some, Trans.exec, if_pos (crashedBetween_parked htailer)]
    rfl
  refine retry_once stowingEnv (fun _ => "v5") .live builtInInferenceRules false stowedFile [] ?_
  refine Trans.reach_of_exec [.crash, .append parkedLine, .drain] ?_
  exact (Option.some_get hexec).symm.trans (congrArg some (Option.get_eq_getD _))

/-- The thirteenth is stowed behind the crash. -/
def crashedInside : TailIngest :=
  (Trans.exec (stowingEnv.retryStep (fun _ => "v5") .live builtInInferenceRules false)
    Trans.always (.start stowedFile []) [.crash, .append stowed, .drain]).getD (.start stowedFile [])

/-- The burst of the first so many. -/
def stowedBurst (n : Nat) : BurstHit := ⟨"vehicle_stowed_burst", 0, n - 1, n, List.range n⟩

def stowedItem (n : Nat) : BufferItem where
  key := stowingEnv.idempotencyKey ⟨.live, some "v5"⟩ 0
    (IngestEnv.syntheticLine stowedText (stowedBurst n))
  event := .burstSummary (stowingEnv.burstSummary (stowedBurst n) stowedLine stowedLine
    (List.replicate n stowedLine))
  raw := stowedText
  offset := 0

theorem stowed_twelve :
    burstsOf (stowedLines 0 12) = [stowedBurst 12] ∧
      stowingEnv.burstItem ⟨.live, some "v5"⟩ (recordsOf (stowedLines 0 12)) (stowedBurst 12) =
        some (stowedItem 12) := by
  rw [burstsOf, burstWindow, recordsOf_stowedLines]
  exact ⟨by decide, rfl⟩

theorem stowed_thirteen :
    burstsOf (stowedLines 0 13) = [stowedBurst 13] ∧
      stowingEnv.burstItem ⟨.live, some "v5"⟩ (recordsOf (stowedLines 0 13)) (stowedBurst 13) =
        some (stowedItem 13) := by
  rw [burstsOf, burstWindow, recordsOf_stowedLines]
  exact ⟨by decide, rfl⟩

theorem stowed_items {n : Nat} (hbursts : burstsOf (stowedLines 0 n) = [stowedBurst n])
    (hitem : stowingEnv.burstItem ⟨.live, some "v5"⟩ (recordsOf (stowedLines 0 n)) (stowedBurst n) =
      some (stowedItem n)) :
    stowingEnv.items ⟨.live, some "v5"⟩ (recordsOf (stowedLines 0 n)) = [stowedItem n] := by
  have hbursts' : detectBursts ((recordsOf (stowedLines 0 n)).map (·.2)) builtinBurstRules =
      [stowedBurst n] := hbursts
  have hlines : stowingEnv.lineItems ⟨.live, some "v5"⟩ (recordsOf (stowedLines 0 n)) = [] := by
    refine List.filterMap_eq_nil_iff.2 fun record _ => ?_
    exact ite_self none
  rw [items, burstItems, hbursts', hlines, List.append_nil, List.filterMap_cons_some hitem]
  rfl

theorem signature_of_long {file : LogFile} (h : Tailer.fileSigHeadBytes ≤ file.bytes.length) :
    file.signature (fun _ => "v5") = some "v5" := by
  rw [LogFile.signature, Tailer.signatureFromHead, List.length_take, Nat.min_eq_left h]
  exact if_neg (Nat.lt_irrefl _)

theorem le_length_stowedFile : Tailer.fileSigHeadBytes ≤ stowedFile.bytes.length := by
  simp [stowedFile, stowed_line.2.2, Tailer.fileSigHeadBytes]

theorem stowedFile_signature : stowedFile.signature (fun _ => "v5") = some "v5" :=
  signature_of_long le_length_stowedFile

theorem grown_signature : (stowedFile.grown stowed).signature (fun _ => "v5") = some "v5" := by
  refine signature_of_long ?_
  rw [LogFile.grown, List.length_append]
  exact le_length_stowedFile.trans (Nat.le_add_right _ _)

theorem crashedInside_calls :
    Trans.exec (stowingEnv.retryStep (fun _ => "v5") .live builtInInferenceRules false)
        Trans.always (.start stowedFile []) [.crash, .append stowed, .drain] = some crashedInside ∧
      crashedInside.tailer.handed = [⟨stowedFile, stowedLines 0 12, false⟩,
        ⟨stowedFile.grown stowed, stowedLines 0 13, true⟩] ∧
      crashedInside.ingest.events = Inserts.insertAll stowingEnv.rowConflict
        [stowingEnv.row ⟨.live, some "v5"⟩ (stowedItem 12)]
        [stowingEnv.row ⟨.live, some "v5"⟩ (stowedItem 13)] := by
  obtain ⟨s, s', hcrash, happend, htailer, hevents⟩ := @exists_crashed stowingEnv (fun _ => "v5")
    .live false builtInInferenceRules stowed
  have hunread : s'.unread (fun _ => "v5") = stowedLines 0 13 := by
    have hbytes : (crashedTail stowedFile (stowedLines 0 12) stowed).file.bytes =
        (List.replicate 13 stowed).flatten := by
      show (List.replicate 12 stowed).flatten ++ stowed = _
      rw [@List.replicate_succ' 12, List.flatten_append, List.flatten_singleton]
    rw [unread_of_start (by rw [htailer]; rfl), htailer, hbytes, textsFrom_stowed_only]
  obtain ⟨tailer, hdrain, hhanded⟩ : ∃ tailer,
      Tailer.step (fun _ => "v5") s'.tailer .drain = some tailer ∧
        tailer.handed =
          s'.tailer.handed ++ [⟨stowedFile.grown stowed, stowedLines 0 13, true⟩] := by
    refine ⟨_, rfl, ?_⟩
    show s'.tailer.handed ++ Tailer.hand s'.tailer.file (s'.unread fun _ => "v5") true = _
    rw [hunread, htailer]
    rfl
  obtain ⟨s'', hlast, rfl, hlastEvents⟩ := @exists_handing stowingEnv (fun _ => "v5") .live
    builtInInferenceRules false s' .drain tailer _ hdrain hhanded
  have halways : ∀ s act, @Trans.always TailIngest RetryAction s act := fun _ _ => trivial
  have hexec : Trans.exec (stowingEnv.retryStep (fun _ => "v5") .live builtInInferenceRules false)
      Trans.always (.start stowedFile []) [.crash, .append stowed, .drain] = some s'' := by
    rw [Trans.exec, if_pos (halways _ _), hcrash, Option.bind_some, Trans.exec,
      if_pos (halways _ _), happend, Option.bind_some, Trans.exec, if_pos (halways _ _), hlast]
    rfl
  have hs : crashedInside = s'' := by
    rw [crashedInside, hexec]
    rfl
  rw [hs]
  refine ⟨hexec, ?_, ?_⟩
  · rw [hhanded, htailer]
    rfl
  · rw [hlastEvents, processBuffer_events, hevents, processBuffer_events, feedOf, feedOf,
      stowedFile_signature, grown_signature, stowed_items stowed_twelve.1 stowed_twelve.2,
      stowed_items stowed_thirteen.1 stowed_thirteen.2]
    rfl

/-- Then the first is the anchor of two summaries. -/
theorem retry_not_once :
    ¬ ∀ (env : IngestEnv) (newV5 : List UInt8 → String) (source : LogSource)
      (inferenceRules : List CompiledInferenceRule) (enableV2 : Bool) (file : LogFile)
      (events : List EventsRow) (s : TailIngest),
      Trans.Reach (env.retryStep newV5 source inferenceRules enableV2) Trans.always
        (.start file events) s → env.OnceRepresented newV5 source s := by
  intro h
  obtain ⟨hexec, hhanded, hevents⟩ := crashedInside_calls
  have honce := (h _ _ _ _ _ _ _ _ (Trans.reach_of_exec _ hexec)).one_summary (some "v5")
    "vehicle_stowed_burst" 0
  have hfirst : stowingEnv.SummaryRow (fun _ => "v5") .live crashedInside (some "v5")
      "vehicle_stowed_burst" 0
      (stowingEnv.row ⟨.live, some "v5"⟩ (stowedItem 12)) :=
    ⟨⟨stowedFile, stowedLines 0 12, false⟩, by simp [hhanded], stowedFile_signature, stowedBurst 12,
      by simp [stowed_twelve.1], rfl, stowedItem 12, stowed_twelve.2, rfl, rfl⟩
  have hsecond : stowingEnv.SummaryRow (fun _ => "v5") .live crashedInside (some "v5")
      "vehicle_stowed_burst" 0
      (stowingEnv.row ⟨.live, some "v5"⟩ (stowedItem 13)) :=
    ⟨⟨stowedFile.grown stowed, stowedLines 0 13, true⟩, by simp [hhanded], grown_signature,
      stowedBurst 13, by simp [stowed_thirteen.1], rfl, stowedItem 13, stowed_thirteen.2, rfl, rfl⟩
  have hconflict : stowingEnv.rowConflict (stowingEnv.row ⟨.live, some "v5"⟩ (stowedItem 13))
      (stowingEnv.row ⟨.live, some "v5"⟩ (stowedItem 12)) = false := by
    decide +kernel
  have hboth : crashedInside.ingest.events = [stowingEnv.row ⟨.live, some "v5"⟩ (stowedItem 12),
      stowingEnv.row ⟨.live, some "v5"⟩ (stowedItem 13)] := by
    rw [hevents]
    simp [Inserts.insertAll, Inserts.insertNew, hconflict]
  rw [hboth] at honce
  have hsame := honce _ List.mem_cons_self _ (List.mem_cons_of_mem _ List.mem_cons_self) hfirst
    hsecond
  rw [hsame, rowConflict_self] at hconflict
  cases hconflict

end IngestEnv

end StarStats
