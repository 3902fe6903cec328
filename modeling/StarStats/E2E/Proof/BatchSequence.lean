import StarStats.E2E.BatchSequence

/-!
# No false gap

`no_false_gap`: however the lanes, the network and the server interleave, no batch is classified as
a gap, the server's mark is never behind the tray's counter and never goes back, as long as the
server observes each ordinal that it answers with a 2xx. `observing_checked`: on these ordinals the
server's 64 bits are exact. `classifiedExactly_iff`: of any tray, the classification is exact until
an ordinal reaches the end of them.
-/

namespace StarStats

/-- The mark as a number: a device that the server has not heard of has 0. -/
def SequenceState.reached (s : SequenceState) : Int := s.mark.getD 0

/-- The marks of the server go up. -/
def MarkGrows (s s' : SequenceState) : Prop := ∀ m ∈ s.mark, ∃ m' ∈ s'.mark, m ≤ m'

/-! ## The server -/

theorem getD_le_advanceMark (mark : Option Int) {seq : Int} (hseq : 0 ≤ seq) :
    mark.getD 0 ≤ advanceMark mark seq := by
  cases mark with
  | none => exact hseq
  | some m => exact le_max_left m seq

theorem le_advanceMark (mark : Option Int) (seq : Int) : seq ≤ advanceMark mark seq := by
  cases mark with
  | none => exact Int.le_refl _
  | some m => exact le_max_right m seq

/-- An ordinal that is at most the next one is no gap. -/
theorem classifyBatchSequence_ne_gap {prev : Option Int} {seq : Int} (h : seq ≤ prev.getD 0 + 1)
    (missing : Nat) : classifyBatchSequence prev seq ≠ .gap missing := by
  cases prev with
  | none => simp [classifyBatchSequence]
  | some prev =>
    rw [Option.getD_some] at h
    rw [classifyBatchSequence]
    split
    · simp
    · rw [if_neg (by omega)]
      simp

/-- The mark is that of the server's table. -/
theorem observeBatchSequence_mark (deviceId : String) (seq : Int64) (db : Db) :
    ((observeBatchSequence deviceId seq db).2.batchProgress deviceId).map (·.toInt) =
      some (advanceMark ((db.batchProgress deviceId).map (·.toInt)) seq.toInt) := by
  unfold observeBatchSequence
  cases hprev : db.batchProgress deviceId with
  | none => simp [advanceMark]
  | some prev =>
    simp only [if_true, Option.map_some, advanceMark, Option.some.injEq]
    split
    case isTrue hle => rw [max_eq_right (Int64.le_iff_toInt_le.1 hle)]
    case isFalse hlt =>
      rw [max_eq_left (Int.le_of_lt (Int.not_le.1 fun hle => hlt (Int64.le_iff_toInt_le.2 hle)))]

/-! ## The invariant -/

/-- The ordinal of a batch that is to be sent, or under way: at most the next one. -/
def IsNext (s : SequenceState) (seq : Option Nat) : Prop := ∀ n ∈ seq, (n : Int) ≤ s.reached + 1

/-- The ordinal of a batch that was observed. -/
def IsReached (s : SequenceState) (seq : Option Nat) : Prop := ∀ n ∈ seq, (n : Int) ≤ s.reached

/-- What a lane may hold. -/
def LaneFits (s : SequenceState) : LaneStage → Prop
  | .idle => True
  | .peeked seq => IsNext s seq
  | .waiting seq => IsNext s seq
  | .acknowledged seq => IsReached s seq

structure Numbered (s : SequenceState) : Prop where
  lanes : ∀ lane, LaneFits s (s.lanes lane)
  requests : ∀ seq ∈ s.requests, IsNext s seq
  observing : ∀ o ∈ s.observing, (o.1 : Int) ≤ o.2.getD 0 + 1
  answered : ∀ seq ∈ s.answered, IsReached s seq
  falseGap : NoFalseGap s

section
variable {s s' : SequenceState}

theorem LaneFits.mono (h : s.reached ≤ s'.reached) {stage : LaneStage} (hfits : LaneFits s stage) :
    LaneFits s' stage := by
  cases stage with
  | idle => trivial
  | peeked seq => exact fun n hn => (hfits n hn).trans (by omega)
  | waiting seq => exact fun n hn => (hfits n hn).trans (by omega)
  | acknowledged seq => exact fun n hn => (hfits n hn).trans h

namespace Numbered
variable (h : Numbered s)
include h

theorem setLane (lane : Lane) (stage : LaneStage) (hfits : LaneFits s stage) :
    Numbered (s.setLane lane stage) where
  lanes l := by
    simp only [SequenceState.setLane]
    split
    · exact hfits
    · exact h.lanes l
  requests := h.requests
  observing := h.observing
  answered := h.answered
  falseGap := ⟨h.falseGap.noGap, h.falseGap.ahead⟩

theorem peek (lane : Lane) (fails : Bool) :
    Numbered (s.setLane lane
      (.peeked (if fails then none else some s.storage.peekNextBatchSequence))) := by
  refine h.setLane lane _ fun n hn => ?_
  have hahead : (s.storage.batchSequence : Int) ≤ s.reached := h.falseGap.ahead
  split at hn
  · cases hn
  · obtain rfl := Option.some.inj hn
    simp only [ClientStorage.peekNextBatchSequence]
    omega

theorem erase (i : Nat) : Numbered { s with requests := s.requests.eraseIdx i } where
  lanes := h.lanes
  requests seq hseq := h.requests seq (List.mem_of_mem_eraseIdx hseq)
  observing := h.observing
  answered := h.answered
  falseGap := ⟨h.falseGap.noGap, h.falseGap.ahead⟩

/-- The mark moves to an ordinal that is compared with a mark before. -/
theorem advance {seq : Nat} {prev : Option Int} {i : Nat}
    (hi : s.observing[i]? = some (seq, prev)) :
    Numbered { s with
      observing := s.observing.eraseIdx i
      answered := s.answered ++ [some seq]
      mark := some (advanceMark s.mark seq)
      observations := s.observations ++ [classifyBatchSequence prev seq] } := by
  have hle : s.reached ≤ advanceMark s.mark seq := getD_le_advanceMark s.mark (by omega)
  refine ⟨fun lane => (h.lanes lane).mono hle, fun r hr n hn => ?_, fun o ho => ?_,
    fun a ha n hn => ?_, fun missing hgap => ?_, h.falseGap.ahead.trans hle⟩
  · exact (h.requests r hr n hn).trans (Int.add_le_add_right hle 1)
  · exact h.observing o (List.mem_of_mem_eraseIdx ho)
  · rcases List.mem_append.1 ha with ha | ha
    · exact (h.answered a ha n hn).trans hle
    · obtain rfl := List.mem_singleton.1 ha
      obtain rfl := Option.some.inj hn
      exact le_advanceMark s.mark seq
  · rcases List.mem_append.1 hgap with hgap | hgap
    · exact h.falseGap.noGap missing hgap
    · have hnext := h.observing _ (List.mem_of_getElem? hi)
      exact classifyBatchSequence_ne_gap hnext missing (List.mem_singleton.1 hgap).symm

theorem commit (lane : Lane) {seq : Nat} (hlane : s.lanes lane = .acknowledged (some seq)) :
    Numbered { s.setLane lane .idle with storage := s.storage.commitBatchSequence seq } := by
  have hreached : (seq : Int) ≤ s.reached := by
    have hfits := h.lanes lane
    rw [hlane] at hfits
    exact hfits seq rfl
  have hidle := h.setLane lane .idle trivial
  refine ⟨hidle.lanes, hidle.requests, hidle.observing, hidle.answered, hidle.falseGap.noGap, ?_⟩
  have hahead : (s.storage.batchSequence : Int) ≤ s.reached := h.falseGap.ahead
  have hmax : ((max s.storage.batchSequence seq : Nat) : Int) ≤ s.reached := by omega
  exact hmax

theorem step {a : SequenceAction} (hok : Observed s a) (ha : s.sequenceStep a = some s') :
    Numbered s' ∧ MarkGrows s s' := by
  have hsame : ∀ {t : SequenceState}, t.mark = s.mark → MarkGrows s t := fun heq m hm =>
    ⟨m, heq ▸ hm, Int.le_refl m⟩
  cases a with
  | peek lane fails =>
    simp only [SequenceState.sequenceStep] at ha
    split at ha
    · exact Option.some.inj ha ▸ ⟨h.peek lane fails, hsame rfl⟩
    · cases ha
  | send lane =>
    simp only [SequenceState.sequenceStep] at ha
    split at ha
    case h_1 seq hlane =>
      have hnext : IsNext s seq := by
        have hfits := h.lanes lane
        rwa [hlane] at hfits
      have hwaits := h.setLane lane (.waiting seq) hnext
      refine Option.some.inj ha ▸ ⟨⟨hwaits.lanes, fun r hr => ?_, hwaits.observing,
        hwaits.answered, ⟨hwaits.falseGap.noGap, hwaits.falseGap.ahead⟩⟩, hsame rfl⟩
      rcases List.mem_append.1 hr with hr | hr
      · exact h.requests r hr
      · obtain rfl := List.mem_singleton.1 hr
        exact hnext
    case h_2 => cases ha
  | drop i => exact Option.some.inj ha ▸ ⟨h.erase i, hsame rfl⟩
  | observe i =>
    simp only [SequenceState.sequenceStep] at ha
    split at ha
    case h_1 seq hi =>
      have herased := h.erase i
      refine Option.some.inj ha ▸ ⟨⟨herased.lanes, herased.requests, fun o ho => ?_,
        herased.answered, ⟨herased.falseGap.noGap, herased.falseGap.ahead⟩⟩, hsame rfl⟩
      rcases List.mem_append.1 ho with ho | ho
      · exact h.observing o ho
      · obtain rfl := List.mem_singleton.1 ho
        exact h.requests _ (List.mem_of_getElem? hi) seq rfl
    case h_2 => cases ha
  | advance i =>
    simp only [SequenceState.sequenceStep] at ha
    split at ha
    case h_1 seq prev hi =>
      refine Option.some.inj ha ▸ ⟨h.advance hi, fun m hm => ⟨_, rfl, ?_⟩⟩
      have hle : s.mark.getD 0 ≤ advanceMark s.mark seq := getD_le_advanceMark s.mark (by omega)
      rwa [Option.mem_def.1 hm] at hle ⊢
    case h_2 => cases ha
  | accept i =>
    simp only [SequenceState.sequenceStep] at ha
    split at ha
    · have herased := h.erase i
      refine Option.some.inj ha ▸ ⟨⟨herased.lanes, herased.requests, herased.observing,
        fun r hr => ?_, ⟨herased.falseGap.noGap, herased.falseGap.ahead⟩⟩, hsame rfl⟩
      rcases List.mem_append.1 hr with hr | hr
      · exact h.answered r hr
      · obtain rfl := List.mem_singleton.1 hr
        exact fun n hn => by cases hn
    · cases ha
  | acceptUnobserved i => cases hok
  | acknowledge lane =>
    simp only [SequenceState.sequenceStep] at ha
    split at ha
    · split at ha
      case isTrue hanswered =>
        exact Option.some.inj ha ▸ ⟨h.setLane lane _ (h.answered _ hanswered), hsame rfl⟩
      case isFalse => cases ha
    · cases ha
  | giveUp lane => exact Option.some.inj ha ▸ ⟨h.setLane lane .idle trivial, hsame rfl⟩
  | commit lane fails =>
    simp only [SequenceState.sequenceStep] at ha
    split at ha
    case h_1 seq hlane =>
      have hidle := h.setLane lane .idle trivial
      refine Option.some.inj ha ▸ ⟨?_, hsame rfl⟩
      cases seq with
      | none => exact hidle
      | some seq =>
        cases fails with
        | true => exact hidle
        | false => exact h.commit lane hlane
    case h_2 => cases ha

end Numbered

theorem numbered_start (rows : List ClientRow) : Numbered (.start rows) where
  lanes _ := trivial
  requests := by simp [SequenceState.start]
  observing := by simp [SequenceState.start]
  answered := by simp [SequenceState.start]
  falseGap := ⟨by simp [SequenceState.start], Int.le_refl 0⟩

/-- **No false gap**: whatever is lost, late or out of order, and whichever commits fail. -/
theorem no_false_gap {rows : List ClientRow}
    (h : Trans.Reach SequenceState.sequenceStep Observed (.start rows) s)
    (h' : Trans.Reach SequenceState.sequenceStep Observed s s') :
    NoFalseGap s ∧ MarkGrows s s' := by
  have hstart := h.inv (numbered_start rows) fun s a s' hs hok ha => (hs.step hok ha).1
  refine ⟨hstart.falseGap, ?_⟩
  have hrun := h'.inv (I := fun t => Numbered t ∧ MarkGrows s t)
    ⟨hstart, fun m hm => ⟨m, hm, Int.le_refl m⟩⟩ fun t a t' ht hok ha => ?_
  · exact hrun.2
  · obtain ⟨hnumbered, hgrows⟩ := ht.1.step hok ha
    refine ⟨hnumbered, fun m hm => ?_⟩
    obtain ⟨m', hm', hle⟩ := ht.2 m hm
    obtain ⟨m'', hm'', hle'⟩ := hgrows m' hm'
    exact ⟨m'', hm'', hle.trans hle'⟩

end

/-! ### Both lanes with the first ordinal -/

def firstOrdinals : List SequenceAction :=
  [.peek .priority false, .peek .bulk false, .send .priority, .send .bulk, .observe 0, .observe 0,
    .advance 1, .acknowledge .bulk, .commit .bulk false]

/-- The bulk lane goes on before the batch of the other is observed. -/
def secondOrdinal : List SequenceAction :=
  [.peek .bulk false, .send .bulk, .observe 0, .advance 1, .advance 0, .acknowledge .priority,
    .commit .priority true]

def racedFirst : Option SequenceState :=
  Trans.exec SequenceState.sequenceStep Observed (.start []) firstOrdinals

def racedOn : Option SequenceState :=
  racedFirst.bind fun s => Trans.exec SequenceState.sequenceStep Observed s secondOrdinal

theorem no_false_gap_raced :
    ∃ s s', racedFirst = some s ∧ racedOn = some s' ∧ NoFalseGap s ∧ MarkGrows s s' ∧
      s'.observations = [.firstSeen, .inOrder, .firstSeen] := by
  have hsome : (racedOn.map (·.observations)) = some [.firstSeen, .inOrder, .firstSeen] := by
    decide
  obtain ⟨s', hs', hobservations⟩ := Option.map_eq_some_iff.1 hsome
  obtain ⟨s, hs, hon⟩ := Option.bind_eq_some_iff.1 hs'
  obtain ⟨hno, hgrows⟩ :=
    no_false_gap (Trans.reach_of_exec firstOrdinals hs) (Trans.reach_of_exec secondOrdinal hon)
  exact ⟨s, s', hs, hs', hno, hgrows, hobservations⟩

/-! ## Ordinals that are no `i64` -/

open Checked (InI64 i64_of)

theorem cast_exact_iff (seq : UInt64) :
    seq.toInt64.toInt = seq.toNat ↔ seq.toNat < 9223372036854775808 := by
  have hlt := seq.toNat_lt
  rw [Checked.toInt_toInt64, Checked.asI64]
  split <;> omega

/-- The arithmetic is exact behind any mark but the largest. -/
theorem classifyBatchSequenceChecked_eq {prev : Option Int} {seq : Int} (hseq : 0 ≤ seq)
    (hlt : seq < 9223372036854775808) (hprev : ∀ p ∈ prev, 0 ≤ p ∧ p < 9223372036854775807) :
    classifyBatchSequenceChecked prev seq = some (classifyBatchSequence prev seq) := by
  cases prev with
  | none => rfl
  | some p =>
    obtain ⟨hp, hmax⟩ := hprev p rfl
    rw [classifyBatchSequenceChecked, classifyBatchSequence,
      i64_of (x := p + 1) (by constructor <;> omega), Option.bind_eq_bind, Option.bind_some]
    split
    · rfl
    · split
      case isTrue hahead =>
        rw [i64_of (x := seq - p) (by constructor <;> omega), Option.bind_some,
          i64_of (x := seq - p - 1) (by constructor <;> omega), Option.bind_some,
          Checked.asU64_of (by constructor <;> omega)]
        rfl
      case isFalse => rfl

/-- What a step does to the mark and to the comparisons with it. -/
theorem sequenceStep_marks {s s' : SequenceState} {a : SequenceAction}
    (h : s.sequenceStep a = some s') :
    (s'.mark = s.mark ∧ s'.observing = s.observing) ∨
    (∃ seq, s'.mark = s.mark ∧ s'.observing = s.observing ++ [(seq, s.mark)]) ∨
    ∃ i seq, s'.mark = some (advanceMark s.mark seq) ∧ s'.observing = s.observing.eraseIdx i ∧
      0 ≤ seq := by
  cases a with
  | observe i =>
    simp only [SequenceState.sequenceStep] at h
    split at h
    case h_1 seq _ => exact Option.some.inj h ▸ .inr (.inl ⟨seq, rfl, rfl⟩)
    case h_2 => cases h
  | advance i =>
    simp only [SequenceState.sequenceStep] at h
    split at h
    case h_1 seq _ _ =>
      exact Option.some.inj h ▸ .inr (.inr ⟨i, seq, rfl, rfl, Int.natCast_nonneg seq⟩)
    case h_2 => cases h
  | drop i => exact Option.some.inj h ▸ .inl ⟨rfl, rfl⟩
  | giveUp lane => exact Option.some.inj h ▸ .inl ⟨rfl, rfl⟩
  | acknowledge lane =>
    simp only [SequenceState.sequenceStep] at h
    split at h
    · split at h
      · exact Option.some.inj h ▸ .inl ⟨rfl, rfl⟩
      · cases h
    · cases h
  | peek | send | accept | acceptUnobserved | commit =>
    simp only [SequenceState.sequenceStep] at h
    split at h
    · exact Option.some.inj h ▸ .inl ⟨rfl, rfl⟩
    · cases h

/-- A comparison goes by a mark that was reached. -/
structure MarksFit (s : SequenceState) : Prop where
  mark : 0 ≤ s.reached
  observing : ∀ o ∈ s.observing, ∀ p ∈ o.2, 0 ≤ p ∧ p ≤ s.reached

theorem MarksFit.step {s s' : SequenceState} (h : MarksFit s) {a : SequenceAction}
    (ha : s.sequenceStep a = some s') : MarksFit s' := by
  obtain ⟨hmark, hobserving⟩ | ⟨seq, hmark, hobserving⟩ | ⟨i, seq, hmark, hobserving, hseq⟩ :=
    sequenceStep_marks ha
  · have hreached : s'.reached = s.reached := by rw [SequenceState.reached, hmark]; rfl
    exact ⟨hreached ▸ h.mark, by rw [hreached, hobserving]; exact h.observing⟩
  · have hreached : s'.reached = s.reached := by rw [SequenceState.reached, hmark]; rfl
    refine ⟨hreached ▸ h.mark, fun o ho p hp => ?_⟩
    rw [hobserving] at ho
    rw [hreached]
    rcases List.mem_append.1 ho with ho | ho
    · exact h.observing o ho p hp
    · rw [List.mem_singleton.1 ho] at hp
      have hmem : s.mark = some p := hp
      have hp : s.reached = p := by rw [SequenceState.reached, hmem]; rfl
      exact ⟨hp ▸ h.mark, hp.ge⟩
  · have hreached : s'.reached = advanceMark s.mark seq := by rw [SequenceState.reached, hmark]; rfl
    have hle : s.reached ≤ s'.reached := hreached ▸ getD_le_advanceMark s.mark hseq
    refine ⟨h.mark.trans hle, fun o ho p hp => ?_⟩
    rw [hobserving] at ho
    obtain ⟨h0, hp⟩ := h.observing o (List.mem_of_mem_eraseIdx ho) p hp
    exact ⟨h0, hp.trans hle⟩

/-- Until the mark comes to the end of `i64` the server's comparisons are those on integers. -/
theorem observing_checked {rows : List ClientRow} {s : SequenceState}
    (h : Trans.Reach SequenceState.sequenceStep Observed (.start rows) s)
    (hmark : s.reached < 9223372036854775807) {seq : Nat} {prev : Option Int}
    (ho : (seq, prev) ∈ s.observing) :
    classifyBatchSequenceChecked prev seq = some (classifyBatchSequence prev seq) := by
  have hnumbered := h.inv (numbered_start rows) fun s a s' hs hok ha => (hs.step hok ha).1
  have hfit : MarksFit s := h.inv ⟨Int.le_refl 0, by simp [SequenceState.start]⟩
    fun s a s' hs _ ha => hs.step ha
  have hnext := hnumbered.observing _ ho
  have hprev := hfit.observing _ ho
  have hle : prev.getD 0 ≤ s.reached := by
    cases prev with
    | none => exact hfit.mark
    | some p => exact (hprev p rfl).2
  exact classifyBatchSequenceChecked_eq (by omega) (by dsimp only at hnext; omega)
    fun p hp => ⟨(hprev p hp).1, (hprev p hp).2.trans_lt hmark⟩

/-- Behind the largest ordinal there is no next one. -/
theorem classifyBatchSequenceChecked_max (seq : Int) :
    classifyBatchSequenceChecked (some (9223372036854775807)) seq = none := by
  rw [classifyBatchSequenceChecked]
  simp [Checked.i64, InI64]

section
variable {deviceId : String} {db : Db} {seq : UInt64} {seqs : List UInt64}

/-- The mark of the device. -/
def markOf (deviceId : String) (db : Db) : Option Int := (db.batchProgress deviceId).map (·.toInt)

theorem classifiedExactly_cons :
    ClassifiedExactly deviceId db (seq :: seqs) ↔
      seq.toInt64.toInt = seq.toNat ∧
      classifyBatchSequenceChecked (markOf deviceId db) seq.toNat =
        some (classifyBatchSequence (markOf deviceId db) seq.toNat) ∧
      ClassifiedExactly deviceId (observeBatchSequence deviceId seq.toInt64 db).2 seqs := by
  have hmark := observeBatchSequence_mark deviceId seq.toInt64 db
  have hprev : (observeBatchSequence deviceId seq.toInt64 db).1.map (·.toInt) =
      markOf deviceId db := rfl
  constructor
  · rintro ⟨hcasts, hobserved⟩
    have hcast := hcasts seq List.mem_cons_self
    rw [observedBatches, classifyOrdinals, List.map_cons, hprev, hcast] at hobserved
    obtain ⟨hhead, htail⟩ := List.cons.inj hobserved
    refine ⟨hcast, hhead, fun x hx => hcasts x (List.mem_cons_of_mem _ hx), ?_⟩
    rw [hmark, hcast]
    exact htail
  · rintro ⟨hcast, hhead, hcasts, htail⟩
    refine ⟨fun x hx => ?_, ?_⟩
    · rcases List.mem_cons.1 hx with rfl | hx
      · exact hcast
      · exact hcasts x hx
    · rw [hmark, hcast] at htail
      rw [observedBatches, classifyOrdinals, List.map_cons, hprev, hcast, htail, hhead]
      rfl

theorem classifiedExactly_from (hmark : ∀ m ∈ markOf deviceId db, 0 ≤ m ∧ m < 9223372036854775808) :
    ClassifiedExactly deviceId db seqs ↔
      (∀ seq ∈ seqs, seq.toNat < 9223372036854775808) ∧
        (∀ seq ∈ seqs.dropLast, seq.toNat ≠ 9223372036854775807) ∧
        (seqs ≠ [] → markOf deviceId db ≠ some (9223372036854775807)) := by
  induction seqs generalizing db with
  | nil => exact iff_of_true ⟨by simp, rfl⟩ (by simp)
  | cons seq seqs ih =>
    rw [classifiedExactly_cons, cast_exact_iff]
    by_cases hseq : seq.toNat < 9223372036854775808
    case neg => exact iff_of_false (fun h => hseq h.1) fun h => hseq (h.1 seq List.mem_cons_self)
    by_cases hmax : markOf deviceId db = some (9223372036854775807)
    case pos =>
      refine iff_of_false (fun h => ?_) fun h => h.2.2 (List.cons_ne_nil _ _) hmax
      have hhead := h.2.1
      rw [hmax, classifyBatchSequenceChecked_max] at hhead
      cases hhead
    have hbelow : ∀ m ∈ markOf deviceId db, 0 ≤ m ∧ m < 9223372036854775807 := by
      intro m hm
      have hne : m ≠ 9223372036854775807 := fun heq => hmax (heq ▸ hm)
      have := hmark m hm
      omega
    have hhead : classifyBatchSequenceChecked (markOf deviceId db) seq.toNat =
        some (classifyBatchSequence (markOf deviceId db) seq.toNat) :=
      classifyBatchSequenceChecked_eq (by omega) (by omega) hbelow
    have hnext : markOf deviceId (observeBatchSequence deviceId seq.toInt64 db).2 =
        some (advanceMark (markOf deviceId db) seq.toNat) := by
      rw [markOf, observeBatchSequence_mark, (cast_exact_iff seq).2 hseq]
      rfl
    have hrange : 0 ≤ advanceMark (markOf deviceId db) seq.toNat ∧
        advanceMark (markOf deviceId db) seq.toNat < 9223372036854775808 ∧
        (advanceMark (markOf deviceId db) seq.toNat = 9223372036854775807 ↔
          seq.toNat = 9223372036854775807) := by
      cases hm : markOf deviceId db with
      | none => simp only [advanceMark]; omega
      | some m =>
        have := hbelow m hm
        simp only [advanceMark]
        omega
    have hbelow' : ∀ m ∈ markOf deviceId (observeBatchSequence deviceId seq.toInt64 db).2,
        0 ≤ m ∧ m < 9223372036854775808 := by
      rw [hnext]
      rintro m ⟨⟩
      exact ⟨hrange.1, hrange.2.1⟩
    have htail := ih hbelow'
    rw [hnext] at htail
    simp only [ne_eq, Option.some.injEq, hrange.2.2] at htail
    rw [htail]
    cases seqs with
    | nil =>
      exact iff_of_true ⟨hseq, hhead, by simp⟩ ⟨by simpa using hseq, by simp, fun _ => hmax⟩
    | cons seq' seqs =>
      simp only [List.forall_mem_cons, List.dropLast_cons_cons, ne_eq, reduceCtorEq,
        not_false_eq_true, true_imp_iff, hhead, hseq, hmax]
      tauto

/-- **Where the classification is exact**: no ordinal is `2 ^ 63` or more, and only the last batch
has the one before. -/
theorem classifiedExactly_iff (hnew : db.batchProgress deviceId = none) :
    ClassifiedExactly deviceId db seqs ↔
      (∀ seq ∈ seqs, seq.toNat < 9223372036854775808) ∧
        ∀ seq ∈ seqs.dropLast, seq.toNat ≠ 9223372036854775807 := by
  have hnone : markOf deviceId db = none := by rw [markOf, hnew]; rfl
  rw [classifiedExactly_from (by simp [hnone]), hnone]
  simp

end

/-- A gap, a regression and the largest ordinal, last. -/
theorem classifiedExactly_mixed :
    ClassifiedExactly "d" Db.empty [1, 2, 5, 3, 9223372036854775807] :=
  (classifiedExactly_iff rfl).2 ⟨by simp, by simp⟩

/-- Behind the largest ordinal the next one overflows, and a larger one is not what it says. -/
theorem hostile_mark_overflows :
    observedBatches "d" [9223372036854775807, 1] Db.empty = [some .firstSeen, none] ∧
    ¬ ClassifiedExactly "d" Db.empty [9223372036854775807, 1] ∧
    ¬ ClassifiedExactly "d" Db.empty [5, 9223372036854775808] := by
  have hmark : observedBatches "d" [9223372036854775807, 1] Db.empty =
      [some .firstSeen, none] := by decide +kernel
  refine ⟨hmark, fun h => ?_, fun h => ?_⟩
  · have hobserved := h.observed
    rw [hmark] at hobserved
    exact absurd hobserved (by decide +kernel)
  · exact absurd (h.casts 9223372036854775808 (by decide)) (by decide +kernel)

end StarStats
