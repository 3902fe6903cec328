import StarStats.Client.Tailer

/-!
# Which lines the tail hands over

`drain_ok`: a drain in which no call fails hands over the lines of its file from where it resumes,
and stops at the end of the last. Over a run the tail either stands at the end of a line of the
current file, all lines before it handed over, or has not begun that file (`Position`);
`lines_once` follows. `nothingLost_iff` is about a drain in which a call does fail: the offset has
moved with each line that was read, and the lines themselves are gone.
-/

namespace StarStats

namespace Tailer

open Utf8 (lineFeed decodeLossy)
open Lines (split withStarts AtLineEnd IsLine)

/-! ## Lines -/

/-- The lines as they are handed over, the first starting at `n`. -/
def textsFrom (n : Nat) (lines : List (List UInt8)) : List (String × Nat) :=
  (withStarts n lines).map fun x => (lineText x.1, x.2)

/-- The complete lines of some bytes. -/
def linesOf (bytes : List UInt8) : List (List UInt8) := (split lineFeed bytes).1

theorem textsFrom_increasing (n : Nat) (bytes : List UInt8) :
    (textsFrom n (linesOf bytes)).Pairwise fun x y => x.2 < y.2 := by
  rw [textsFrom, List.pairwise_map]
  exact Lines.withStarts_increasing (fun l hl => Lines.split_ne_nil hl) n

theorem textsFrom_line {body : List UInt8} (h : lineFeed ∉ body) (n : Nat) (bytes : List UInt8) :
    textsFrom n (linesOf (body ++ lineFeed :: bytes)) =
      (lineText (body ++ [lineFeed]), n) :: textsFrom (n + (body.length + 1)) (linesOf bytes) := by
  rw [linesOf, Lines.split_line h, textsFrom, withStarts, List.map_cons, List.length_append]
  rfl

/-- A line that comes several times. -/
theorem textsFrom_replicate {body : List UInt8} (h : lineFeed ∉ body) (k n : Nat)
    (bytes : List UInt8) :
    textsFrom n (linesOf ((List.replicate k (body ++ [lineFeed])).flatten ++ bytes)) =
      (List.range k).map (fun i => (lineText (body ++ [lineFeed]), n + (body.length + 1) * i)) ++
        textsFrom (n + (body.length + 1) * k) (linesOf bytes) := by
  induction k generalizing n with
  | zero => rfl
  | succ k ih =>
    rw [List.replicate_succ, List.flatten_cons, List.append_assoc, List.append_assoc,
      List.singleton_append, textsFrom_line h, ih, List.range_succ_eq_map, List.map_cons,
      List.map_map, List.cons_append, Nat.mul_zero, Nat.add_zero]
    congr 2
    · exact List.map_congr_left fun i _ => by simp [Nat.mul_add, Nat.add_assoc, Nat.add_comm]
    · congr 1
      rw [Nat.mul_succ]
      omega

theorem mem_textsFrom {bytes : List UInt8} {x : String × Nat} :
    x ∈ textsFrom 0 (linesOf bytes) ↔ ∃ raw, IsLine lineFeed bytes raw x.2 ∧ x.1 = lineText raw := by
  simp only [textsFrom, List.mem_map]
  constructor
  · rintro ⟨⟨raw, start⟩, hmem, rfl⟩
    exact ⟨raw, Lines.mem_withStarts_split.1 hmem, rfl⟩
  · rintro ⟨raw, hline, htext⟩
    exact ⟨(raw, x.2), Lines.mem_withStarts_split.2 hline, by rw [← htext]⟩

/-- In a list with increasing starts nothing is twice. -/
theorem count_of_increasing {xs : List (String × Nat)} {x : String × Nat}
    (h : xs.Pairwise fun x y => x.2 < y.2) (hx : x ∈ xs) : xs.count x = 1 := by
  have hnodup : xs.Nodup := h.imp fun hlt heq => by simp [heq] at hlt
  exact List.count_eq_one_of_mem hnodup hx

/-- The end of the last complete line. -/
def lineEnd (bytes : List UInt8) : Nat := (linesOf bytes).flatten.length

theorem lineEnd_le (bytes : List UInt8) : lineEnd bytes ≤ bytes.length := by
  have hjoin := congrArg List.length (Lines.split_join lineFeed bytes)
  rw [List.length_append] at hjoin
  unfold lineEnd linesOf
  omega

theorem take_lineEnd (bytes : List UInt8) :
    bytes.take (lineEnd bytes) = (linesOf bytes).flatten := by
  calc bytes.take (lineEnd bytes)
      = ((linesOf bytes).flatten ++ (split lineFeed bytes).2).take
          (linesOf bytes).flatten.length := by
        unfold lineEnd linesOf
        rw [Lines.split_join]
    _ = (linesOf bytes).flatten := List.take_left

theorem atLineEnd_take_lineEnd (bytes : List UInt8) :
    AtLineEnd lineFeed (bytes.take (lineEnd bytes)) := by
  rw [take_lineEnd]
  apply Lines.atLineEnd_flatten
  intro l hl
  obtain ⟨body, rfl, -⟩ := Lines.mem_split hl
  exact ⟨body, rfl⟩

/-- Behind the last complete line there is no other. -/
theorem linesOf_take_lineEnd (bytes : List UInt8) :
    linesOf (bytes.take (lineEnd bytes)) = linesOf bytes := by
  have hend := atLineEnd_take_lineEnd bytes
  have hjoin := Lines.split_join lineFeed bytes
  have hcut := Lines.split_append hend (split lineFeed bytes).2
  rw [take_lineEnd] at hcut ⊢
  unfold linesOf at hcut ⊢
  rw [hjoin, Lines.split_tail (Lines.not_mem_split_tail lineFeed bytes), List.append_nil] at hcut
  exact (congrArg Prod.fst hcut).symm

/-- The lines before the end of a line, and those behind it. -/
theorem textsFrom_cut {bytes : List UInt8} {n : Nat} (hn : n ≤ bytes.length)
    (h : AtLineEnd lineFeed (bytes.take n)) (k : Nat) :
    textsFrom k (linesOf bytes) =
      textsFrom k (linesOf (bytes.take n)) ++ textsFrom (k + n) (linesOf (bytes.drop n)) := by
  rw [textsFrom, textsFrom, textsFrom, ← List.map_append]
  exact congrArg _ (Lines.withStarts_split_cut hn h k)

theorem lineEnd_cut {bytes : List UInt8} {n : Nat} (hn : n ≤ bytes.length)
    (h : AtLineEnd lineFeed (bytes.take n)) :
    lineEnd bytes = n + lineEnd (bytes.drop n) := by
  have hsplit := Lines.split_append h (bytes.drop n)
  rw [List.take_append_drop] at hsplit
  have hlen : (linesOf (bytes.take n)).flatten.length = n := by
    rw [linesOf, Lines.length_split_flatten h, List.length_take, Nat.min_eq_left hn]
  have hlines : linesOf bytes = linesOf (bytes.take n) ++ linesOf (bytes.drop n) :=
    congrArg Prod.fst hsplit
  rw [lineEnd, hlines, List.flatten_append, List.length_append, hlen, lineEnd]

/-- More bytes, no fewer lines. -/
theorem lineEnd_le_append (bytes more : List UInt8) : lineEnd bytes ≤ lineEnd (bytes ++ more) := by
  have hle := lineEnd_le bytes
  have hend := atLineEnd_take_lineEnd bytes
  have htake : (bytes ++ more).take (lineEnd bytes) = bytes.take (lineEnd bytes) :=
    List.take_append_of_le_length hle
  rw [← htake] at hend
  have hn : lineEnd bytes ≤ (bytes ++ more).length := by
    rw [List.length_append]
    omega
  have := lineEnd_cut hn hend
  omega

theorem isLine_append {bytes raw : List UInt8} {start : Nat}
    (h : IsLine lineFeed bytes raw start) (more : List UInt8) :
    IsLine lineFeed (bytes ++ more) raw start := by
  obtain ⟨before, after, rfl, hstart, hend, hraw⟩ := h
  exact ⟨before, after ++ more, by simp only [List.append_assoc], hstart, hend, hraw⟩

/-! ## The read loop -/

theorem getLast_decodeLossy {body : List UInt8} :
    (decodeLossy (body ++ [lineFeed])).toList.getLast? = some '\n' := by
  rw [Utf8.decodeLossy_append_lineFeed, List.getLast?_concat]

/-- The loop on complete lines and then `last`, which is no such line. -/
theorem readLoop_lines {lines : List (List UInt8)} {last : Except Unit (List UInt8)}
    (hlines : ∀ l ∈ lines, ∃ body, l = body ++ [lineFeed])
    (hlast : ∀ raw, last = .ok raw → lineFeed ∉ raw) (offset : Nat) :
    readLoop offset (lines.map .ok ++ [last]) =
      ⟨offset + lines.flatten.length, textsFrom offset lines, !last.isOk⟩ := by
  induction lines generalizing offset with
  | nil =>
    cases last with
    | error u => rfl
    | ok raw =>
      have hraw := hlast raw rfl
      simp only [List.map_nil, List.nil_append, readLoop]
      split
      · rfl
      · have hpartial : (decodeLossy raw).toList.getLast? ≠ some '\n' := fun hc =>
          Utf8.lineFeed_not_mem_decodeLossy hraw (List.mem_of_getLast? hc)
        rw [if_pos hpartial]
        rfl
  | cons l ls ih =>
    obtain ⟨⟨body, rfl⟩, hls⟩ := List.forall_mem_cons.1 hlines
    have hne : ¬ (body ++ [lineFeed]).length = 0 := by simp
    have hfull : ¬ (decodeLossy (body ++ [lineFeed])).toList.getLast? ≠ some '\n' :=
      not_not.2 getLast_decodeLossy
    simp only [List.map_cons, List.cons_append, readLoop, if_neg hne, if_neg hfull, ih hls]
    simp only [textsFrom, withStarts, List.map_cons, lineText, List.flatten_cons,
      List.length_append, Nat.add_assoc]

theorem linesOf_complete (bytes : List UInt8) :
    ∀ l ∈ linesOf bytes, ∃ body, l = body ++ [lineFeed] := by
  intro l hl
  obtain ⟨body, rfl, -⟩ := Lines.mem_split hl
  exact ⟨body, rfl⟩

/-- When no read fails, the loop takes the complete lines behind its offset. -/
theorem readLoop_ok {io : DrainIo} (hio : ∀ position, io ≠ .readFails position)
    (content : List UInt8) (offset : Nat) :
    readLoop offset (readResults io content offset) =
      ⟨offset + lineEnd (content.drop offset), textsFrom offset (linesOf (content.drop offset)),
        false⟩ := by
  have hresults : readResults io content offset = (linesOf (content.drop offset)).map .ok ++
      [.ok (split lineFeed (content.drop offset)).2] := by
    unfold readResults
    split
    · exact absurd rfl (hio _)
    · rfl
  rw [hresults, readLoop_lines (linesOf_complete _)]
  · rfl
  · intro raw hraw
    obtain rfl := Except.ok.inj hraw
    exact Lines.not_mem_split_tail lineFeed _

/-- The loop up to a read that fails. -/
theorem readLoop_fails {content : List UInt8} {position : Nat} (h : position ≤ content.length)
    (offset : Nat) :
    readLoop offset (readResults (.readFails position) content offset) =
      ⟨offset + lineEnd ((content.take position).drop offset),
        textsFrom offset (linesOf ((content.take position).drop offset)), true⟩ := by
  simp only [readResults, if_pos h]
  rw [← linesOf, readLoop_lines (linesOf_complete _)]
  · rfl
  · intro raw hraw
    cases hraw

/-! ## A drain in which nothing fails -/

section
variable {newV5 : List UInt8 → String} {file : LogFile} {tail : Tail}

/-- It hands over the lines from where it resumes, and stops behind the last. -/
theorem drain_ok :
    let resumed := tail.resumed newV5 file
    let unread := file.bytes.drop resumed
    (drain newV5 .ok file tail).tail = ⟨resumed + lineEnd unread, file.signature newV5⟩ ∧
    (drain newV5 .ok file tail).lines = textsFrom resumed (linesOf unread) := by
  by_cases hlen : file.bytes.length = tail.resumed newV5 file
  · have hnone : file.bytes.drop (tail.resumed newV5 file) = [] := by
      rw [← hlen, List.drop_length]
    simp only [drain, reduceCtorEq, or_self, ↓reduceIte, if_pos hlen, hnone]
    exact ⟨rfl, rfl⟩
  · simp only [drain, reduceCtorEq, or_self, ↓reduceIte, if_neg hlen,
      @readLoop_ok .ok (fun _ h => by cases h), Bool.false_eq_true, and_self]

/-- The cursor is where the memory is, unless there was nothing to read. -/
theorem drain_cursor :
    (drain newV5 .ok file tail).cursor = some (drain newV5 .ok file tail).tail ∨
      (drain newV5 .ok file tail).cursor = none ∧
        file.bytes.length = tail.resumed newV5 file := by
  by_cases hlen : file.bytes.length = tail.resumed newV5 file
  · simp only [drain, reduceCtorEq, or_self, ↓reduceIte, if_pos hlen]
    exact .inr ⟨trivial, hlen⟩
  · simp only [drain, reduceCtorEq, or_self, ↓reduceIte, if_neg hlen,
      @readLoop_ok .ok (fun _ h => by cases h), Bool.false_eq_true]
    exact .inl trivial

end

/-! ## Where the tail stands -/

section
variable {newV5 : List UInt8 → String} {s s' : State}

/-- More bytes do not change a signature. -/
theorem signature_append {file : LogFile} (h : fileSigHeadBytes ≤ file.bytes.length)
    (more : List UInt8) :
    ({ file with bytes := file.bytes ++ more } : LogFile).signature newV5 =
      file.signature newV5 := by
  simp only [LogFile.signature, List.take_append_of_le_length h]

theorem signature_isSome {file : LogFile} (h : fileSigHeadBytes ≤ file.bytes.length) :
    ∃ sig, file.signature newV5 = some sig := by
  have hhead : ¬ (file.bytes.take fileSigHeadBytes).length < fileSigHeadBytes := by
    rw [List.length_take]
    omega
  simp only [LogFile.signature, signatureFromHead, if_neg hhead]
  exact ⟨_, rfl⟩

/-- The lines of the current file that are handed over end where the tail stands. -/
structure Standing (newV5 : List UInt8 → String) (s : State) : Prop where
  signed : fileSigHeadBytes ≤ s.file.bytes.length
  sig : s.tail.lastSig = s.file.signature newV5
  inside : s.tail.offset ≤ s.file.bytes.length
  atEnd : AtLineEnd lineFeed (s.file.bytes.take s.tail.offset)
  lines : s.committedLines s.file.id = textsFrom 0 (linesOf (s.file.bytes.take s.tail.offset))
  /-- No drain has seen a complete line behind that place. -/
  reached : ∀ d ∈ s.drained, d.id = s.file.id → lineEnd d.bytes ≤ s.tail.offset

/-- No drain has read the current file. -/
structure Unread (newV5 : List UInt8 → String) (s : State) : Prop where
  lines : s.committedLines s.file.id = []
  notDrained : ∀ d ∈ s.drained, d.id ≠ s.file.id
  tail : s.tail = loadCursor none ∨
    ∃ f ∈ s.past, f.signature newV5 ≠ none ∧ s.tail.lastSig = f.signature newV5

structure Inv (newV5 : List UInt8 → String) (s : State) : Prop where
  past : ∀ f ∈ s.past, f.id < s.file.id
  loaded : s.tail = loadCursor s.cursor
  handedIds : ∀ h ∈ s.handed, h.file.id ≤ s.file.id
  drainedIds : ∀ d ∈ s.drained, d.id < s.file.id ∨
    d.id = s.file.id ∧ ∃ more, s.file.bytes = d.bytes ++ more
  position : Standing newV5 s ∨ Unread newV5 s
  exactly : ExactlyOnce s

theorem inv_start (file : LogFile) : Inv newV5 (.start file) where
  past := by
    intro f hf
    cases hf
  loaded := rfl
  handedIds := by
    intro h hh
    cases hh
  drainedIds := by
    intro d hd
    cases hd
  position := by
    refine .inr ⟨rfl, ?_, .inl rfl⟩
    intro d hd
    cases hd
  exactly := by
    constructor
    · intro h hh
      cases hh
    · intro h hh
      cases hh
    · intro d hd
      cases hd
    · intro id
      exact .nil

/-- Where a drain resumes: at the end of a line, before which everything is handed over. -/
theorem resumed_spec (hs : Inv newV5 s) (hlen : fileSigHeadBytes ≤ s.file.bytes.length)
    (hsigned : ∀ f ∈ s.past, f.signature newV5 ≠ none →
      f.signature newV5 ≠ s.file.signature newV5) :
    let resumed := s.tail.resumed newV5 s.file
    resumed ≤ s.file.bytes.length ∧ AtLineEnd lineFeed (s.file.bytes.take resumed) ∧
      s.committedLines s.file.id = textsFrom 0 (linesOf (s.file.bytes.take resumed)) ∧
      (s.tail = ⟨resumed, s.file.signature newV5⟩ ∨ resumed = 0) := by
  obtain ⟨sig, hsig⟩ := @signature_isSome newV5 _ hlen
  rcases hs.position with hstand | hunread
  · have hresumed : s.tail.resumed newV5 s.file = s.tail.offset := by
      have hnot : rotated (s.file.signature newV5) (s.file.signature newV5) = false := by
        simp [rotated, hsig]
      simp only [Tail.resumed, resolveResumeOffset, hstand.sig, hnot, Bool.false_eq_true,
        ↓reduceIte, if_neg (Nat.not_lt.2 hstand.inside)]
    simp only [hresumed]
    exact ⟨hstand.inside, hstand.atEnd, hstand.lines, .inl (by rw [← hstand.sig])⟩
  · have hresumed : s.tail.resumed newV5 s.file = 0 := by
      rcases hunread.tail with htail | ⟨f, hf, hsome, htail⟩
      · simp [Tail.resumed, resolveResumeOffset, htail, loadCursor, rotated]
      · obtain ⟨old, hold⟩ := Option.ne_none_iff_exists'.1 hsome
        have hne : old ≠ sig := by
          have := hsigned f hf hsome
          rw [hold, hsig] at this
          simpa using this
        have hrot : rotated s.tail.lastSig (s.file.signature newV5) = true := by
          rw [htail, hold, hsig]
          simpa [rotated] using hne
        simp only [Tail.resumed, resolveResumeOffset, hrot, ↓reduceIte]
    simp only [hresumed, List.take_zero]
    exact ⟨Nat.zero_le _, .inl rfl, hunread.lines, .inr trivial⟩

/-! ## Steps -/

/-- Only a handover that counts, of the same file, adds lines. -/
theorem committedLines_hand {file : LogFile} {lines : List (String × Nat)} {committed : Bool}
    (h : s'.handed = s.handed ++ hand file lines committed) (id : Nat) :
    s'.committedLines id =
      s.committedLines id ++ if committed = true ∧ file.id = id then lines else [] := by
  have hnew : ((hand file lines committed).filter fun h =>
      h.committed && h.file.id == id).flatMap (·.lines) =
      if committed = true ∧ file.id = id then lines else [] := by
    unfold hand
    by_cases hcond : committed = true ∧ file.id = id
    · rw [if_pos hcond]
      split
      · rename_i hempty
        rw [List.isEmpty_iff.1 hempty]
        rfl
      · simp [hcond]
    · rw [if_neg hcond]
      split
      · rfl
      · simp only [List.filter_cons, List.filter_nil]
        rw [if_neg]
        · rfl
        · simpa using hcond
  rw [State.committedLines, h, List.filter_append, List.flatMap_append, hnew, State.committedLines]

theorem mem_hand {file : LogFile} {lines : List (String × Nat)} {committed : Bool} {h : Handover}
    (hh : h ∈ hand file lines committed) : h = ⟨file, lines, committed⟩ := by
  unfold hand at hh
  split at hh
  · cases hh
  · exact List.mem_singleton.1 hh

/-- What a drain hands over is lines of its file. -/
theorem whole_of_resumed {file : LogFile} {n : Nat} (hn : n ≤ file.bytes.length)
    (hend : AtLineEnd lineFeed (file.bytes.take n)) :
    ∀ x ∈ textsFrom n (linesOf (file.bytes.drop n)),
      ∃ raw, file.HasLine raw x.2 ∧ x.1 = lineText raw := by
  intro x hx
  apply mem_textsFrom.1
  rw [textsFrom_cut hn hend 0, Nat.zero_add]
  exact List.mem_append_right _ hx

/-- A handover that does not count, of lines of the current file. -/
theorem exactly_crash (hs : Inv newV5 s) (hlen : fileSigHeadBytes ≤ s.file.bytes.length)
    (hsigned : ∀ f ∈ s.past, f.signature newV5 ≠ none →
      f.signature newV5 ≠ s.file.signature newV5)
    (hh : s'.handed = s.handed ++ hand s.file (drain newV5 .ok s.file s.tail).lines false)
    (hd : s'.drained = s.drained) : ExactlyOnce s' := by
  obtain ⟨hn, hend, -, -⟩ := resumed_spec hs hlen hsigned
  have hlines := (@drain_ok newV5 s.file s.tail).2
  have hcommitted : ∀ id, s'.committedLines id = s.committedLines id := by
    intro id
    rw [committedLines_hand hh]
    simp
  constructor
  · intro h hmem
    rw [hh] at hmem
    rcases List.mem_append.1 hmem with hmem | hmem
    · exact hs.exactly.whole h hmem
    · rw [mem_hand hmem, hlines]
      exact whole_of_resumed hn hend
  · intro h hmem
    rw [hh] at hmem
    rcases List.mem_append.1 hmem with hmem | hmem
    · exact hs.exactly.apart h hmem
    · rw [mem_hand hmem, hlines]
      exact textsFrom_increasing _ _
  · intro d hmem
    rw [hcommitted]
    exact hs.exactly.once d (hd ▸ hmem)
  · intro id
    rw [hcommitted]
    exact hs.exactly.ordered id

/-- The drain that counts completes the lines of the current file. -/
theorem committedLines_drain (hs : Inv newV5 s) (hlen : fileSigHeadBytes ≤ s.file.bytes.length)
    (hsigned : ∀ f ∈ s.past, f.signature newV5 ≠ none →
      f.signature newV5 ≠ s.file.signature newV5)
    (hh : s'.handed = s.handed ++ hand s.file (drain newV5 .ok s.file s.tail).lines true) :
    s'.committedLines s.file.id = textsFrom 0 (linesOf s.file.bytes) := by
  obtain ⟨hn, hend, hold, -⟩ := resumed_spec hs hlen hsigned
  have hlines := (@drain_ok newV5 s.file s.tail).2
  rw [committedLines_hand hh, if_pos ⟨rfl, rfl⟩, hold, hlines, textsFrom_cut hn hend 0,
    Nat.zero_add]

theorem exactly_drain (hs : Inv newV5 s) (hlen : fileSigHeadBytes ≤ s.file.bytes.length)
    (hsigned : ∀ f ∈ s.past, f.signature newV5 ≠ none →
      f.signature newV5 ≠ s.file.signature newV5)
    (hh : s'.handed = s.handed ++ hand s.file (drain newV5 .ok s.file s.tail).lines true)
    (hd : s'.drained = s.drained ++ [s.file]) : ExactlyOnce s' := by
  obtain ⟨hn, hend, -, -⟩ := resumed_spec hs hlen hsigned
  have hlines := (@drain_ok newV5 s.file s.tail).2
  have hcurrent := committedLines_drain hs hlen hsigned hh
  have hother : ∀ id, id ≠ s.file.id → s'.committedLines id = s.committedLines id := by
    intro id hne
    rw [committedLines_hand hh]
    simp [Ne.symm hne]
  constructor
  · intro h hmem
    rw [hh] at hmem
    rcases List.mem_append.1 hmem with hmem | hmem
    · exact hs.exactly.whole h hmem
    · rw [mem_hand hmem, hlines]
      exact whole_of_resumed hn hend
  · intro h hmem
    rw [hh] at hmem
    rcases List.mem_append.1 hmem with hmem | hmem
    · exact hs.exactly.apart h hmem
    · rw [mem_hand hmem, hlines]
      exact textsFrom_increasing _ _
  · intro d hmem raw start hline
    have hcases : d ∈ s.drained ∧ d.id < s.file.id ∨
        d.id = s.file.id ∧ ∃ more, s.file.bytes = d.bytes ++ more := by
      rw [hd] at hmem
      rcases List.mem_append.1 hmem with hmem | hmem
      · exact (hs.drainedIds d hmem).imp_left fun hlt => ⟨hmem, hlt⟩
      · obtain rfl := List.mem_singleton.1 hmem
        exact .inr ⟨rfl, [], (List.append_nil _).symm⟩
    rcases hcases with ⟨hmem, hlt⟩ | ⟨hid, more, hbytes⟩
    · rw [hother d.id (by omega)]
      exact hs.exactly.once d hmem raw start hline
    · rw [hid, hcurrent]
      apply count_of_increasing (textsFrom_increasing 0 _)
      refine mem_textsFrom.2 ⟨raw, ?_, rfl⟩
      rw [hbytes]
      exact isLine_append hline more
  · intro id
    by_cases hid : id = s.file.id
    · rw [hid, hcurrent]
      exact textsFrom_increasing 0 _
    · rw [hother id hid]
      exact hs.exactly.ordered id

theorem inv_drain (hs : Inv newV5 s) (hok : Signed newV5 s .drain)
    (h : step newV5 s .drain = some s') : Inv newV5 s' ∧ AfterDrain s' := by
  obtain ⟨hlen, hsigned⟩ := hok
  simp only [step, Option.some.injEq] at h
  obtain ⟨hn, hend, -, hwhere⟩ := resumed_spec hs hlen hsigned
  have htail := (@drain_ok newV5 s.file s.tail).1
  rw [← lineEnd_cut hn hend] at htail
  have hhanded : s'.handed = s.handed ++ hand s.file (drain newV5 .ok s.file s.tail).lines true := by
    rw [← h]
  have hdrained : s'.drained = s.drained ++ [s.file] := by rw [← h]
  have hfile : s'.file = s.file := by rw [← h]
  have htail' : s'.tail = ⟨lineEnd s.file.bytes, s.file.signature newV5⟩ := by rw [← h, ← htail]
  have hids : ∀ d ∈ s'.drained, d.id < s.file.id ∨
      d.id = s.file.id ∧ ∃ more, s.file.bytes = d.bytes ++ more := by
    intro d hd
    rw [hdrained] at hd
    rcases List.mem_append.1 hd with hd | hd
    · exact hs.drainedIds d hd
    · obtain rfl := List.mem_singleton.1 hd
      exact .inr ⟨rfl, [], (List.append_nil _).symm⟩
  have hafter : AfterDrain s' := by
    constructor
    · rw [hdrained, hfile]
      simp
    · rw [htail', hfile]
      exact lineEnd_le _
    · rw [htail', hfile]
      exact atLineEnd_take_lineEnd _
  refine ⟨⟨?_, ?_, ?_, ?_, ?_, exactly_drain hs hlen hsigned hhanded hdrained⟩, hafter⟩
  · rw [← h]
    exact hs.past
  · rw [← h]
    dsimp only
    rcases @drain_cursor newV5 s.file s.tail with hc | ⟨hc, hfull⟩
    · rw [hc]
      rfl
    · -- nothing new: the tail had stood at the end of the file
      rw [hc, Option.none_or, ← hs.loaded, htail]
      rcases hwhere with hsame | hzero
      · have hnone : lineEnd s.file.bytes = s.file.bytes.length := by
          rw [lineEnd_cut hn hend, ← hfull, List.drop_length]
          rfl
        rw [hnone, hfull, ← hsame]
      · have : fileSigHeadBytes = 512 := rfl
        omega
  · intro x hx
    rw [hhanded] at hx
    rw [hfile]
    rcases List.mem_append.1 hx with hx | hx
    · exact hs.handedIds x hx
    · rw [mem_hand hx]
  · rw [hfile]
    exact hids
  · left
    constructor
    · rw [hfile]
      exact hlen
    · rw [htail', hfile]
    · exact hafter.inside
    · exact hafter.lineEnd
    · rw [hfile, committedLines_drain hs hlen hsigned hhanded, htail', linesOf_take_lineEnd]
    · intro d hd hid
      rw [hfile] at hid
      rw [htail']
      rcases hids d hd with hlt | ⟨-, more, hbytes⟩
      · omega
      · rw [hbytes]
        exact lineEnd_le_append _ _

theorem inv_crash (hs : Inv newV5 s) (hok : Signed newV5 s .crash)
    (h : step newV5 s .crash = some s') : Inv newV5 s' := by
  obtain ⟨hlen, hsigned⟩ := hok
  simp only [step, Option.some.injEq] at h
  have hhanded : s'.handed =
      s.handed ++ hand s.file (drain newV5 .ok s.file s.tail).lines false := by
    rw [← h]
  have hcommitted : ∀ id, s'.committedLines id = s.committedLines id := by
    intro id
    rw [committedLines_hand hhanded]
    simp
  have htail : s'.tail = s.tail := by
    rw [hs.loaded, ← h]
  have hfile : s'.file = s.file := by rw [← h]
  have hpast : s'.past = s.past := by rw [← h]
  have hdrained : s'.drained = s.drained := by rw [← h]
  refine ⟨?_, ?_, ?_, ?_, ?_, exactly_crash hs hlen hsigned hhanded hdrained⟩
  · rw [hpast, hfile]
    exact hs.past
  · rw [← h]
  · intro x hx
    rw [hhanded] at hx
    rw [hfile]
    rcases List.mem_append.1 hx with hx | hx
    · exact hs.handedIds x hx
    · rw [mem_hand hx]
  · rw [hdrained, hfile]
    exact hs.drainedIds
  · rcases hs.position with hp | hp
    · exact .inl ⟨by rw [hfile]; exact hp.signed, by rw [htail, hfile]; exact hp.sig,
        by rw [htail, hfile]; exact hp.inside, by rw [htail, hfile]; exact hp.atEnd,
        by rw [hcommitted, htail, hfile]; exact hp.lines,
        by rw [hdrained, htail, hfile]; exact hp.reached⟩
    · exact .inr ⟨by rw [hcommitted, hfile]; exact hp.lines,
        by rw [hdrained, hfile]; exact hp.notDrained, by rw [htail, hpast]; exact hp.tail⟩

theorem inv_append {more : List UInt8} (hs : Inv newV5 s)
    (h : step newV5 s (.append more) = some s') : Inv newV5 s' := by
  simp only [step, Option.some.injEq] at h
  subst h
  refine ⟨hs.past, hs.loaded, hs.handedIds, ?_, ?_,
    ⟨hs.exactly.whole, hs.exactly.apart, hs.exactly.once, hs.exactly.ordered⟩⟩
  · intro d hd
    refine (hs.drainedIds d hd).imp_right ?_
    rintro ⟨hid, rest, hbytes⟩
    exact ⟨hid, rest ++ more, by simp only [hbytes, List.append_assoc]⟩
  · rcases hs.position with hp | hp
    · left
      constructor
      · exact hp.signed.trans (by simp)
      · exact hp.sig.trans (signature_append hp.signed more).symm
      · exact hp.inside.trans (by simp)
      · rw [List.take_append_of_le_length hp.inside]
        exact hp.atEnd
      · rw [List.take_append_of_le_length hp.inside]
        exact hp.lines
      · exact hp.reached
    · exact .inr ⟨hp.lines, hp.notDrained, hp.tail⟩

theorem inv_rotate {createdMillis : Option Nat} {bytes : List UInt8} (hs : Inv newV5 s)
    (h : step newV5 s (.rotate createdMillis bytes) = some s') : Inv newV5 s' := by
  simp only [step, Option.some.injEq] at h
  subst h
  refine ⟨?_, hs.loaded, ?_, ?_, ?_,
    ⟨hs.exactly.whole, hs.exactly.apart, hs.exactly.once, hs.exactly.ordered⟩⟩
  · intro f hf
    rcases List.mem_cons.1 hf with rfl | hf
    · exact Nat.lt_succ_self _
    · exact Nat.lt_succ_of_lt (hs.past f hf)
  · intro x hx
    exact Nat.le_succ_of_le (hs.handedIds x hx)
  · intro d hd
    left
    rcases hs.drainedIds d hd with hlt | ⟨hid, -⟩
    · exact Nat.lt_succ_of_lt hlt
    · exact hid ▸ Nat.lt_succ_self _
  · right
    constructor
    · have hnone : s.handed.filter (fun h => h.committed && h.file.id == s.file.id + 1) = [] := by
        rw [List.filter_eq_nil_iff]
        intro x hx
        have := hs.handedIds x hx
        simp only [Bool.and_eq_true, beq_iff_eq, not_and]
        omega
      simp only [State.committedLines, hnone, List.flatMap_nil]
    · intro d hd
      dsimp only
      rcases hs.drainedIds d hd with hlt | ⟨hid, -⟩
      · omega
      · omega
    · rcases hs.position with hp | hp
      · obtain ⟨sig, hsig⟩ := @signature_isSome newV5 _ hp.signed
        exact .inr ⟨s.file, List.mem_cons_self, by simp [hsig], hp.sig⟩
      · refine hp.tail.imp_right ?_
        rintro ⟨f, hf, hrest⟩
        exact ⟨f, List.mem_cons_of_mem _ hf, hrest⟩

theorem inv_step {act : Action} (hs : Inv newV5 s) (hok : Signed newV5 s act)
    (h : step newV5 s act = some s') : Inv newV5 s' := by
  cases act with
  | append more => exact inv_append hs h
  | rotate createdMillis bytes => exact inv_rotate hs h
  | restart =>
    simp only [step, ← hs.loaded, Option.some.injEq] at h
    exact h ▸ hs
  | drain => exact (inv_drain hs hok h).1
  | crash => exact inv_crash hs hok h

/-- In every run whose drains read signed files, each complete line that a drain finds is handed
over exactly once, and a drain leaves the tail at the end of a line. -/
theorem lines_once {file : LogFile}
    (h : Trans.Reach (step newV5) (Signed newV5) (.start file) s) :
    ExactlyOnce s ∧ ∀ s', Signed newV5 s .drain → step newV5 s .drain = some s' →
      ExactlyOnce s' ∧ AfterDrain s' := by
  have hinv : Inv newV5 s := h.inv (inv_start file) fun _ _ _ hs hok hstep => inv_step hs hok hstep
  refine ⟨hinv.exactly, ?_⟩
  intro s' hok hstep
  obtain ⟨hinv', hafter⟩ := inv_drain hinv hok hstep
  exact ⟨hinv'.exactly, hafter⟩

end

/-! ## A drain in which a call fails -/

section
variable {newV5 : List UInt8 → String} {io : DrainIo} {file : LogFile} {tail : Tail}

theorem resumed_le : tail.resumed newV5 file ≤ file.bytes.length := by
  unfold Tail.resumed resolveResumeOffset
  split
  · exact Nat.zero_le _
  · split
    · exact Nat.zero_le _
    · omega

/-- A tail that has read some of the file goes on from there, however the file has grown. -/
theorem resumed_grown {n : Nat} (hn : n ≤ file.bytes.length) (more : List UInt8) :
    (⟨n, file.signature newV5⟩ : Tail).resumed newV5 (file.grown more) = n := by
  have hnot : rotated (file.signature newV5) ((file.grown more).signature newV5) = false := by
    by_cases hlen : fileSigHeadBytes ≤ file.bytes.length
    · obtain ⟨sig, hsig⟩ := @signature_isSome newV5 _ hlen
      have hgrown : (file.grown more).signature newV5 = file.signature newV5 :=
        signature_append hlen more
      rw [hgrown, hsig]
      simp [rotated]
    · have hnone : file.signature newV5 = none := by
        have hhead : (file.bytes.take fileSigHeadBytes).length < fileSigHeadBytes := by
          rw [List.length_take]
          omega
        simp only [LogFile.signature, signatureFromHead, if_pos hhead]
      rw [hnone]
      rfl
  have hlong : ¬ (file.grown more).bytes.length < n := by
    simp only [LogFile.grown, List.length_append]
    omega
  simp only [Tail.resumed, resolveResumeOffset, hnot, Bool.false_eq_true, ↓reduceIte, if_neg hlong]

/-- A drain that has handed over the lines up to its new offset loses nothing. -/
theorem nothingLost_of_caughtUp {m : Nat}
    (hm : m ≤ (file.bytes.drop (tail.resumed newV5 file)).length)
    (hend : AtLineEnd lineFeed ((file.bytes.drop (tail.resumed newV5 file)).take m))
    (htail : (drain newV5 io file tail).tail =
      ⟨tail.resumed newV5 file + m, file.signature newV5⟩)
    (hlines : (drain newV5 io file tail).lines = textsFrom (tail.resumed newV5 file)
      (linesOf ((file.bytes.drop (tail.resumed newV5 file)).take m))) :
    NothingLost newV5 io file tail := by
  right
  intro more raw start hline
  have hle := @resumed_le newV5 file tail
  generalize tail.resumed newV5 file = r at *
  rw [List.length_drop] at hm
  have hlater := (@drain_ok newV5 (file.grown more) ⟨r + m, file.signature newV5⟩).2
  rw [resumed_grown (by omega)] at hlater
  have hdrop : (file.grown more).bytes.drop r = file.bytes.drop r ++ more :=
    List.drop_append_of_le_length hle
  have htake : ((file.grown more).bytes.drop r).take m = (file.bytes.drop r).take m := by
    rw [hdrop, List.take_append_of_le_length (by rw [List.length_drop]; omega)]
  have hcut := @textsFrom_cut ((file.grown more).bytes.drop r) m
    (by rw [hdrop, List.length_append, List.length_drop]; omega) (by rwa [htake]) r
  rw [htake, List.drop_drop] at hcut
  rw [htail, hlines, hlater, ← hcut, textsFrom, List.mem_map]
  refine ⟨(raw, r + start), ?_, rfl⟩
  obtain ⟨before, after, hls, hstart⟩ :=
    Lines.mem_withStarts.1 (Lines.mem_withStarts_split.2 hline)
  exact Lines.mem_withStarts.2 ⟨before, after, hls, by omega⟩

/-- What the drain has read when a read fails. -/
theorem drain_readFails {position : Nat} (hpos : position ≤ file.bytes.length)
    (hlen : file.bytes.length ≠ tail.resumed newV5 file) :
    drain newV5 (.readFails position) file tail =
      ⟨⟨tail.resumed newV5 file +
          lineEnd ((file.bytes.take position).drop (tail.resumed newV5 file)),
        file.signature newV5⟩, [], none, .error ()⟩ := by
  simp only [drain, reduceCtorEq, or_self, ↓reduceIte, if_neg hlen, readLoop_fails hpos]

theorem nothingLost_of_not_behind (herr : (drain newV5 io file tail).outcome = .error ())
    (h : ¬ ReadFailsBehindLine newV5 io file tail) : NothingLost newV5 io file tail := by
  have hzero : (file.bytes.drop (tail.resumed newV5 file)).take 0 = [] := List.take_zero
  by_cases hlen : file.bytes.length = tail.resumed newV5 file
  · -- nothing to read: only a call before the reading can fail
    left
    simp only [drain, if_pos hlen] at herr ⊢
    split_ifs at herr ⊢
    rfl
  · cases io with
    | ok =>
      simp only [drain, reduceCtorEq, or_self, ↓reduceIte, if_neg hlen,
        @readLoop_ok .ok (fun _ h => by cases h), Bool.false_eq_true] at herr
    | notFound => cases herr
    | openFails => exact .inl rfl
    | metadataFails => exact .inl rfl
    | signatureFails => exact .inl rfl
    | seekFails =>
      have hdrain : drain newV5 .seekFails file tail =
          ⟨⟨tail.resumed newV5 file, file.signature newV5⟩, [], none, .error ()⟩ := by
        simp only [drain, reduceCtorEq, or_self, ↓reduceIte, if_neg hlen]
      apply nothingLost_of_caughtUp (m := 0) (Nat.zero_le _)
      · exact .inl hzero
      · rw [hdrain, Nat.add_zero]
      · rw [hdrain, hzero]
        rfl
    | readFails position =>
      by_cases hpos : position ≤ file.bytes.length
      · have hno : lineFeed ∉ (file.bytes.take position).drop (tail.resumed newV5 file) :=
          fun hin => h ⟨position, rfl, hpos, hin⟩
        have hnone : linesOf ((file.bytes.take position).drop (tail.resumed newV5 file)) = [] :=
          congrArg Prod.fst (Lines.split_tail hno)
        have hdrain := @drain_readFails newV5 file tail _ hpos hlen
        rw [lineEnd, hnone] at hdrain
        apply nothingLost_of_caughtUp (m := 0) (Nat.zero_le _)
        · exact .inl hzero
        · rw [hdrain]
          rfl
        · rw [hdrain, hzero]
          rfl
      · have hwhole : readResults (.readFails position) file.bytes (tail.resumed newV5 file) =
            readResults .ok file.bytes (tail.resumed newV5 file) := by
          simp only [readResults, if_neg hpos]
        simp only [drain, reduceCtorEq, or_self, ↓reduceIte, if_neg hlen, hwhole,
          @readLoop_ok .ok (fun _ h => by cases h), Bool.false_eq_true] at herr
    | cursorFails =>
      have hdrain : drain newV5 .cursorFails file tail =
          ⟨⟨tail.resumed newV5 file + lineEnd (file.bytes.drop (tail.resumed newV5 file)),
              file.signature newV5⟩,
            textsFrom (tail.resumed newV5 file)
              (linesOf (file.bytes.drop (tail.resumed newV5 file))), none, .error ()⟩ := by
        simp only [drain, reduceCtorEq, or_self, ↓reduceIte, if_neg hlen,
          @readLoop_ok .cursorFails (fun _ h => by cases h), Bool.false_eq_true]
      apply nothingLost_of_caughtUp (lineEnd_le _) (atLineEnd_take_lineEnd _)
      · rw [hdrain]
      · rw [hdrain, linesOf_take_lineEnd]

/-- The line in front of the read that failed is never handed over. -/
theorem not_nothingLost_of_behind (h : ReadFailsBehindLine newV5 io file tail) :
    (drain newV5 io file tail).outcome = .error () ∧ ¬ NothingLost newV5 io file tail := by
  obtain ⟨position, rfl, hpos, hin⟩ := h
  have hlen : file.bytes.length ≠ tail.resumed newV5 file := by
    intro heq
    rw [← heq, List.drop_eq_nil_of_le (by rw [List.length_take]; omega)] at hin
    cases hin
  have hdrain := @drain_readFails newV5 file tail _ hpos hlen
  obtain ⟨body, rest, hread, hbody⟩ := Lines.exists_line hin
  -- the first line that was read
  have hfirst : linesOf ((file.bytes.take position).drop (tail.resumed newV5 file)) =
      (body ++ [lineFeed]) :: linesOf rest := by
    rw [linesOf, hread, Lines.split_line hbody, linesOf]
  have hmoved : 0 < lineEnd ((file.bytes.take position).drop (tail.resumed newV5 file)) := by
    rw [lineEnd, hfirst, List.flatten_cons, List.length_append, List.length_append]
    simp
  have hbound : tail.resumed newV5 file +
      lineEnd ((file.bytes.take position).drop (tail.resumed newV5 file)) ≤ file.bytes.length := by
    have := lineEnd_le ((file.bytes.take position).drop (tail.resumed newV5 file))
    have := @resumed_le newV5 file tail
    rw [List.length_drop, List.length_take] at *
    omega
  rw [NothingLost, hdrain]
  refine ⟨rfl, ?_⟩
  generalize lineEnd ((file.bytes.take position).drop (tail.resumed newV5 file)) = m at *
  rintro (hsame | hall)
  · have hgrown := @resumed_grown newV5 file _ hbound []
    have hfile : file.grown [] = file := by
      simp only [LogFile.grown, List.append_nil]
    rw [hfile] at hgrown
    dsimp only at hsame
    rw [hsame] at hgrown
    omega
  · have hline : IsLine lineFeed ((file.grown []).bytes.drop (tail.resumed newV5 file))
        (body ++ [lineFeed]) 0 := by
      refine ⟨[], rest ++ file.bytes.drop position, ?_, rfl, .inl rfl, body, rfl, hbody⟩
      have hle : tail.resumed newV5 file ≤ (file.bytes.take position).length := by
        by_contra hgt
        rw [List.drop_eq_nil_of_le (by omega)] at hin
        cases hin
      calc (file.grown []).bytes.drop (tail.resumed newV5 file)
          = (file.bytes.take position ++ file.bytes.drop position).drop
              (tail.resumed newV5 file) := by
            rw [List.take_append_drop, LogFile.grown, List.append_nil]
        _ = (file.bytes.take position).drop (tail.resumed newV5 file) ++
              file.bytes.drop position := List.drop_append_of_le_length hle
        _ = [] ++ (body ++ [lineFeed] ++ (rest ++ file.bytes.drop position)) := by
            rw [hread]
            simp
    have hmem := hall [] (body ++ [lineFeed]) 0 hline
    have hlater := (@drain_ok newV5 (file.grown [])
      ⟨tail.resumed newV5 file + m, file.signature newV5⟩).2
    rw [resumed_grown hbound] at hlater
    dsimp only at hmem
    rw [hlater, List.nil_append, textsFrom, List.mem_map] at hmem
    obtain ⟨x, hx, heq⟩ := hmem
    have hle := Lines.withStarts_le hx
    have := congrArg Prod.snd heq
    dsimp only at this
    omega

/-- **A drain that fails loses nothing exactly when no read failed behind a line.** -/
theorem nothingLost_iff (newV5 : List UInt8 → String) (io : DrainIo) (file : LogFile)
    (tail : Tail) :
    ((drain newV5 io file tail).outcome = .error () → NothingLost newV5 io file tail) ↔
      ¬ ReadFailsBehindLine newV5 io file tail := by
  constructor
  · intro h hbehind
    obtain ⟨herr, hnot⟩ := not_nothingLost_of_behind hbehind
    exact hnot (h herr)
  · intro h herr
    exact nothingLost_of_not_behind herr h

end

/-! ## Two logs -/

/-- A log of two lines, the second behind the read that fails. -/
def twoLines : LogFile := ⟨0, none, [97, lineFeed, 98, lineFeed]⟩

/-- The first line has been read but not processed, and the offset is behind it. -/
theorem read_error_loses_line :
    ¬ ∀ (newV5 : List UInt8 → String) (io : DrainIo) (file : LogFile) (tail : Tail),
      (drain newV5 io file tail).outcome = .error () → NothingLost newV5 io file tail := by
  intro h
  have hbehind : ReadFailsBehindLine (fun _ => "v5") (.readFails 2) twoLines ⟨0, none⟩ :=
    ⟨2, rfl, by decide, by decide⟩
  obtain ⟨herr, hnot⟩ := not_nothingLost_of_behind hbehind
  exact hnot (h _ _ _ _ herr)

/-- A log of one long line. -/
def longLine (id : Nat) (byte : UInt8) : LogFile :=
  ⟨id, none, List.replicate 600 byte ++ [lineFeed]⟩

/-- Logs are told apart by the last byte of what is signed. -/
def lastByte (payload : List UInt8) : String := if payload.getLast? = some 97 then "old" else "new"

section
variable {file : LogFile} {byte : UInt8} {more : List UInt8}

theorem length_longLine (h : file.bytes = List.replicate 600 byte ++ more) :
    fileSigHeadBytes ≤ file.bytes.length := by
  rw [h, List.length_append, List.length_replicate, fileSigHeadBytes]
  omega

theorem lastByte_append {front : List UInt8} {n : Nat} :
    lastByte (front ++ List.replicate (n + 1) byte) = if byte = 97 then "old" else "new" := by
  rw [lastByte, List.replicate_succ', ← List.append_assoc, List.getLast?_concat]
  simp

theorem signature_longLine (h : file.bytes = List.replicate 600 byte ++ more) :
    file.signature lastByte = some (if byte = 97 then "old" else "new") := by
  have hhead : file.bytes.take fileSigHeadBytes = List.replicate 512 byte := by
    rw [h, List.take_append_of_le_length (by rw [List.length_replicate]; decide),
      List.take_replicate]
    rfl
  have hlen : ¬ (List.replicate 512 byte).length < fileSigHeadBytes := by
    rw [List.length_replicate]
    decide
  rw [LogFile.signature, signatureFromHead, hhead, if_neg hlen]
  exact congrArg some lastByte_append

end

def after (s : State) (a : Action) : State := (step lastByte s a).getD s

/-- A log is drained, grows by a line and a half, is drained, and is drained again behind a restart;
another one takes its place, and is drained. -/
def grownAndRotated : List Action :=
  [.drain, .append [98, lineFeed, 99], .drain, .restart, .drain,
    .rotate none (longLine 1 98).bytes, .drain]

theorem lines_once_longLine :
    ExactlyOnce (grownAndRotated.foldl after (.start (longLine 0 97))) := by
  let start : State := .start (longLine 0 97)
  let grown : LogFile := (longLine 0 97).grown [98, lineFeed, 99]
  have hfirst : fileSigHeadBytes ≤ (longLine 0 97).bytes.length := length_longLine rfl
  have hgrown : grown.bytes = List.replicate 600 97 ++ ([lineFeed] ++ [98, lineFeed, 99]) :=
    List.append_assoc ..
  have hsecond : fileSigHeadBytes ≤ (longLine 1 98).bytes.length := length_longLine rfl
  have hnone : ∀ file f : LogFile, f ∈ ([] : List LogFile) → f.signature lastByte ≠ none →
      f.signature lastByte ≠ file.signature lastByte := by
    intro file f hf
    cases hf
  have hapart : ∀ f ∈ [grown], f.signature lastByte ≠ none →
      f.signature lastByte ≠ (longLine 1 98).signature lastByte := by
    intro f hf _
    rw [List.mem_singleton.1 hf, signature_longLine hgrown, signature_longLine rfl]
    decide
  have hreach : Trans.Reach (step lastByte) (Signed lastByte) start
      (grownAndRotated.foldl after start) :=
    ((((((Relation.ReflTransGen.single ⟨.drain, ⟨hfirst, hnone _⟩, rfl⟩).tail
      ⟨.append [98, lineFeed, 99], trivial, rfl⟩).tail
      ⟨.drain, ⟨length_longLine hgrown, hnone _⟩, rfl⟩).tail
      ⟨.restart, trivial, rfl⟩).tail
      ⟨.drain, ⟨length_longLine hgrown, hnone _⟩, rfl⟩).tail
      ⟨.rotate none (longLine 1 98).bytes, trivial, rfl⟩).tail
      ⟨.drain, ⟨hsecond, hapart⟩, rfl⟩
  exact (lines_once hreach).1

end Tailer

end StarStats
