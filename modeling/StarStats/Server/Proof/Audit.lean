import Mathlib.Data.Set.Function
import StarStats.Server.Audit

/-!
# The audit chain

In every run the rows ascend in `seq` and form a chain over the `seq` that each was hashed with
(`Inv`), which is one more than its predecessor's and not always its own.

* `chain_verifies`: a run keeps the chain verifying as long as no append commits after a value of
  the sequence was burnt.
* `tamper_evident_iff`: re-walking an altered table reports a mismatch exactly when a covered column
  was altered.
-/

namespace StarStats.Audit

open Json (FloatText Value)
open Sha256 (Digest Bytes)

section
variable {F : Type} {ft : FloatText F}

/-! ## Tables in order -/

def Ascending (rows : List (AuditRow F)) : Prop := rows.Pairwise (·.seq < ·.seq)

theorem Ascending.inSeqOrder {rows : List (AuditRow F)} (h : Ascending rows) :
    inSeqOrder rows = rows := by
  apply List.Pairwise.insertionSort_eq
  exact h.imp fun hlt => le_of_lt hlt

theorem Ascending.tailSeq {rows : List (AuditRow F)} (h : Ascending rows) :
    tailSeq rows = (rows.getLast?.map (·.seq)).getD 0 := by
  unfold StarStats.tailSeq tailRow
  rw [h.inSeqOrder]

theorem Ascending.tailHash {rows : List (AuditRow F)} (h : Ascending rows) :
    tailHash rows = (rows.getLast?.map (·.rowHash)).getD genesis := by
  unfold StarStats.tailHash tailRow
  rw [h.inSeqOrder]

theorem Ascending.le_tailSeq {rows : List (AuditRow F)} (h : Ascending rows) :
    ∀ r ∈ rows, r.seq ≤ StarStats.tailSeq rows := by
  rw [h.tailSeq]
  induction rows with
  | nil => simp
  | cons r rs ih =>
    intro r' hr'
    obtain ⟨hr, hrs⟩ := List.pairwise_cons.1 h
    cases rs with
    | nil => simp_all
    | cons r₂ rs =>
      rw [List.getLast?_cons_cons]
      rcases List.mem_cons.1 hr' with heq | hmem
      · subst heq
        have h₂ := ih hrs r₂ List.mem_cons_self
        have := hr r₂ List.mem_cons_self
        omega
      · exact ih hrs r' hmem

theorem Ascending.append {rows : List (AuditRow F)} (h : Ascending rows) {row : AuditRow F}
    (hlt : StarStats.tailSeq rows < row.seq) : Ascending (rows ++ [row]) := by
  refine List.pairwise_append.2 ⟨h, List.pairwise_singleton _ _, fun r hr r' hr' => ?_⟩
  have := h.le_tailSeq r hr
  rw [List.mem_singleton.1 hr']
  omega

theorem Ascending.tailSeq_append {rows : List (AuditRow F)} {row : AuditRow F}
    (h : Ascending (rows ++ [row])) : StarStats.tailSeq (rows ++ [row]) = row.seq := by
  rw [h.tailSeq]
  simp

/-! ## Chains, last row first -/

theorem rewalk_cons_eq_none {r : AuditRow F} {rs : List (AuditRow F)} :
    rewalk ft (r :: rs) = none ↔ rowChecks ft rs.head? r = true ∧ rewalk ft rs = none := by
  rw [rewalk]
  by_cases h : rowChecks ft rs.head? r = true
  · simp [h]
  · simp [h]

theorem rowChecks_iff {before : Option (AuditRow F)} {r : AuditRow F} :
    rowChecks ft before r = true ↔ r.rowHash = hashRow ft r.prevHash r.payload r.seq ∧
      r.prevHash = (before.map (·.rowHash)).getD genesis := by
  simp [rowChecks]

/-- A walk that reports nothing has checked every row. -/
theorem rewalk_eq_none_append {newer : List (AuditRow F)} {older : List (AuditRow F)}
    (h : rewalk ft (newer ++ older) = none) : rewalk ft older = none := by
  induction newer with
  | nil => exact h
  | cons r rs ih => exact ih (rewalk_cons_eq_none.1 h).2

theorem chainVerifies_of_rewalk {rows : List (AuditRow F)}
    (h : rewalk ft (inSeqOrder rows).reverse = none) : ChainVerifies ft rows := by
  intro older r newer heq
  rw [heq, List.reverse_append, List.reverse_cons, List.append_assoc] at h
  have hr := (rewalk_cons_eq_none.1 (rewalk_eq_none_append h)).1
  simpa using rowChecks_iff.1 hr

/-- A walk reads the covered columns only. -/
theorem rewalk_congr : ∀ {rs rs' : List (AuditRow F)}, rs.map covered = rs'.map covered →
    (rewalk ft rs = none ↔ rewalk ft rs' = none)
  | [], [], _ => Iff.rfl
  | [], _ :: _, h => by cases h
  | _ :: _, [], h => by cases h
  | r :: rs, r' :: rs', h => by
    rw [List.map_cons, List.map_cons, List.cons.injEq] at h
    obtain ⟨hr, hrs⟩ := h
    have hbefore : rs.head?.map (·.rowHash) = rs'.head?.map (·.rowHash) := by
      have := congrArg (fun l => l.head?.map fun c => c.2.2.2) hrs
      simpa [covered, Function.comp_def] using this
    simp only [covered, Prod.mk.injEq] at hr
    rw [rewalk_cons_eq_none, rewalk_cons_eq_none, rewalk_congr hrs, rowChecks_iff, rowChecks_iff,
      hbefore, hr.1, hr.2.1, hr.2.2.1, hr.2.2.2]

/-! ## The run invariant -/

theorem hashedAs_append (rows : List (AuditRow F)) (row : AuditRow F) (prev : Int) :
    hashedAs prev (rows ++ [row]) = hashedAs prev rows ++
      [{ row with seq := (rows.getLast?.map (·.seq)).getD prev + 1 }] := by
  induction rows generalizing prev with
  | nil => rfl
  | cons r rs ih =>
    rw [List.cons_append, hashedAs, ih, hashedAs, List.cons_append]
    cases rs with
    | nil => rfl
    | cons r₂ rs => simp [List.getLast?_cons]

theorem hashedAs_last (rows : List (AuditRow F)) (prev : Int) :
    (hashedAs prev rows).getLast?.map (·.rowHash) = rows.getLast?.map (·.rowHash) := by
  induction rows generalizing prev with
  | nil => rfl
  | cons r rs ih =>
    cases rs with
    | nil => rfl
    | cons r₂ rs =>
      rw [hashedAs, List.getLast?_cons_cons, ← ih r.seq, hashedAs, List.getLast?_cons_cons]

/-- What the writer knows in each phase. -/
def PhaseOk (ft : FloatText F) (rows : List (AuditRow F)) (lastValue : Int) : AuditPhase F → Prop
  | .locked => True
  | .read nextSeq prevHash => nextSeq = tailSeq rows + 1 ∧ prevHash = tailHash rows
  | .inserted row => tailSeq rows < row.seq ∧ row.seq = lastValue ∧
      row.prevHash = tailHash rows ∧
      row.rowHash = hashRow ft row.prevHash row.payload (tailSeq rows + 1)

structure Inv (ft : FloatText F) (s : AuditState F) : Prop where
  ascending : Ascending s.rows
  tail_le : tailSeq s.rows ≤ s.lastValue
  chained : rewalk ft (hashedAs 0 s.rows).reverse = none
  phase : ∀ tx, s.writer = some tx → PhaseOk ft s.rows s.lastValue tx.phase

theorem Inv.released {s : AuditState F} (h : Inv ft s) {lastValue : Int}
    (hle : s.lastValue ≤ lastValue) :
    Inv ft { s with lastValue := lastValue, writer := none } where
  ascending := h.ascending
  tail_le := le_trans h.tail_le hle
  chained := h.chained
  phase := fun tx htx => by cases htx

/-- Storing the row of a transaction extends the chain. -/
theorem Inv.stored {s : AuditState F} (h : Inv ft s) {row : AuditRow F}
    (hrow : PhaseOk ft s.rows s.lastValue (.inserted row)) :
    Inv ft { s with rows := s.rows ++ [row], writer := none } := by
  obtain ⟨hlt, hseq, hprev, hhash⟩ := hrow
  have hasc := h.ascending.append hlt
  refine ⟨hasc, ?_, ?_, fun tx htx => by cases htx⟩
  · show tailSeq (s.rows ++ [row]) ≤ s.lastValue
    rw [hasc.tailSeq_append, hseq]
  · show rewalk ft (hashedAs 0 (s.rows ++ [row])).reverse = none
    rw [hashedAs_append, List.reverse_append, List.reverse_singleton, List.singleton_append]
    refine rewalk_cons_eq_none.2 ⟨rowChecks_iff.2 ⟨?_, ?_⟩, h.chained⟩
    · rw [← h.ascending.tailSeq]
      exact hhash
    · rw [List.head?_reverse, hashedAs_last, ← h.ascending.tailHash]
      exact hprev

/-- A writer moves on to another phase. -/
theorem Inv.moved {s : AuditState F} (h : Inv ft s) (tx : AuditTx F)
    (htx : PhaseOk ft s.rows s.lastValue tx.phase) : Inv ft { s with writer := some tx } where
  ascending := h.ascending
  tail_le := h.tail_le
  chained := h.chained
  phase := fun tx' htx' => by
    cases htx'
    exact htx

theorem Inv.inserted {s : AuditState F} (h : Inv ft s) {tx : AuditTx F} {nextSeq : Int}
    {prevHash : Digest} (hread : PhaseOk ft s.rows s.lastValue (.read nextSeq prevHash)) :
    Inv ft
      { s with
        lastValue := s.lastValue + 1
        writer := some { tx with
          phase := .inserted (tx.row ft (s.lastValue + 1) nextSeq prevHash) } } := by
  have hle := h.tail_le
  refine ⟨h.ascending, ?_, h.chained, ?_⟩
  · show tailSeq s.rows ≤ s.lastValue + 1
    omega
  · intro tx' htx'
    cases htx'
    refine ⟨?_, rfl, hread.2, ?_⟩
    · show tailSeq s.rows < s.lastValue + 1
      omega
    · rw [← hread.1]
      rfl

theorem commit_cases {s s' : AuditState F} {replica : Nat}
    (h : auditStep ft s (.commit replica) = some s') :
    ∃ tx row, s.writer = some tx ∧ tx.phase = .inserted row ∧
      s' = { s with rows := s.rows ++ [row], writer := none } := by
  simp only [auditStep] at h
  split at h
  · cases h
  · rename_i tx htx
    split at h
    · cases h
    · split at h
      · rename_i row hphase
        cases h
        exact ⟨tx, row, htx, hphase, rfl⟩
      · cases h

/-- Only a commit stores a row. -/
theorem rows_of_ne_commit {s s' : AuditState F} {a : AuditAction F}
    (ha : ∀ replica, a ≠ .commit replica) (h : auditStep ft s a = some s') : s'.rows = s.rows := by
  cases a with
  | commit replica => exact absurd rfl (ha replica)
  | lock replica entry occurredAt =>
    simp only [auditStep] at h
    split at h
    · cases h
    · cases h
      rfl
  | readTail replica =>
    simp only [auditStep] at h
    split at h
    · cases h
    · split at h
      · cases h
      · split at h
        · cases h
          rfl
        · cases h
  | insert replica =>
    simp only [auditStep] at h
    split at h
    · cases h
    · split at h
      · cases h
      · split at h
        · split at h <;> cases h <;> rfl
        · cases h
  | rollback replica =>
    simp only [auditStep] at h
    split at h
    · cases h
    · split at h
      · cases h
      · cases h
        rfl

theorem Inv.step {s s' : AuditState F} (hs : Inv ft s) :
    ∀ {a : AuditAction F}, auditStep ft s a = some s' → Inv ft s'
  | .lock replica entry occurredAt, h => by
    simp only [auditStep] at h
    split at h
    · cases h
    · cases h
      exact hs.moved _ trivial
  | .readTail replica, h => by
    simp only [auditStep] at h
    split at h
    · cases h
    · split at h
      · cases h
      · split at h
        · cases h
          exact hs.moved _ ⟨rfl, rfl⟩
        · cases h
  | .insert replica, h => by
    simp only [auditStep] at h
    split at h
    · cases h
    · rename_i tx htx
      split at h
      · cases h
      · split at h
        · rename_i nextSeq prevHash hphase
          split at h
          · cases h
            exact hs.released (by omega)
          · cases h
            exact hs.inserted (hphase ▸ hs.phase tx htx)
        · cases h
  | .commit replica, h => by
    obtain ⟨tx, row, htx, hphase, rfl⟩ := commit_cases h
    exact hs.stored (hphase ▸ hs.phase tx htx)
  | .rollback replica, h => by
    simp only [auditStep] at h
    split at h
    · cases h
    · split at h
      · cases h
      · cases h
        exact hs.released le_rfl

theorem inv_empty : Inv ft (AuditState.empty : AuditState F) where
  ascending := .nil
  tail_le := le_rfl
  chained := rfl
  phase := fun tx h => by cases h

theorem inv_of_reach {ok : AuditState F → AuditAction F → Prop} {s : AuditState F}
    (h : Trans.Reach (auditStep ft) ok AuditState.empty s) : Inv ft s :=
  h.inv inv_empty fun _ _ _ hs _ hstep => hs.step hstep

/-! ## The chain verifies -/

/-- Every row was hashed with its own `seq`. -/
def OwnSeq (s : AuditState F) : Prop := hashedAs 0 s.rows = s.rows

theorem OwnSeq.step {s s' : AuditState F} (hown : OwnSeq s) (hs : Inv ft s) {a : AuditAction F}
    (hok : NoValueBurnt s a) (h : auditStep ft s a = some s') : OwnSeq s' := by
  by_cases ha : ∃ replica, a = .commit replica
  · obtain ⟨replica, rfl⟩ := ha
    obtain ⟨tx, row, htx, hphase, rfl⟩ := commit_cases h
    obtain ⟨-, hseq, -, -⟩ : PhaseOk ft s.rows s.lastValue (.inserted row) := hphase ▸ hs.phase tx htx
    have hrow : row.seq = tailSeq s.rows + 1 := hseq.trans hok
    unfold OwnSeq at hown ⊢
    simp only
    rw [hashedAs_append, ← hs.ascending.tailSeq, ← hrow, hown]
  · unfold OwnSeq
    rw [rows_of_ne_commit (fun replica heq => ha ⟨replica, heq⟩) h]
    exact hown

/-- In a run in which no append commits after a value was burnt, the chain verifies. -/
theorem chain_verifies {s : AuditState F}
    (h : Trans.Reach (auditStep ft) NoValueBurnt AuditState.empty s) : ChainVerifies ft s.rows := by
  have hown : Inv ft s ∧ OwnSeq s :=
    Trans.Reach.inv (I := fun s => Inv ft s ∧ OwnSeq s) h ⟨inv_empty, rfl⟩
      fun _ _ _ hs hok hstep => ⟨hs.1.step hstep, hs.2.step hs.1 hok hstep⟩
  apply chainVerifies_of_rewalk
  rw [hown.1.ascending.inSeqOrder, ← hown.2]
  exact hown.1.chained

/-! ## What the hash determines -/

theorem payload_ext {p q : Payload F} (h : p.value = q.value) : p = q := by
  cases p
  cases q
  cases h
  rfl

/-- The text of an object ends where a number after it begins. -/
theorem object_append_decimal {v w : Value F} (hv : v.kind = 5) {i j : Int}
    (h : v.text ft ++ Json.decimal i = w.text ft ++ Json.decimal j) : v = w ∧ i = j := by
  have hw : w.kind = 5 := (Json.Value.kind_eq ft h).symm.trans hv
  obtain ⟨hval, hdec⟩ := Json.Value.text_cancel ft v w (fun h2 => by omega) (fun h2 => by omega) h
  exact ⟨hval, Json.decimal_injective hdec⟩

theorem text_append_decimal {p q : Payload F} (hp : p.IsObject) {i j : Int}
    (h : p.value.sortKeys.text ft ++ Json.decimal i = q.value.sortKeys.text ft ++ Json.decimal j) :
    p = q ∧ i = j := by
  rw [p.value.sortKeys_of_sorted p.sorted, q.value.sortKeys_of_sorted q.sorted] at h
  obtain ⟨ms, hms⟩ := hp
  obtain ⟨hval, hdec⟩ := object_append_decimal (by rw [hms]; rfl) h
  exact ⟨payload_ext hval, hdec⟩

/-- Whatever order the members of the payloads are in. -/
theorem canonicalize_append_seq_eq_iff {ms ns : List (String × Value F)}
    (hms : (Value.object ms).DistinctKeys) (hns : (Value.object ns).DistinctKeys) {i j : Int} :
    canonicalize ft (.object ms) ++ Json.utf8 (Json.decimal i) =
        canonicalize ft (.object ns) ++ Json.utf8 (Json.decimal j) ↔
      i = j ∧ (Value.object ms).Reordered (.object ns) := by
  rw [canonicalize, canonicalize, ← Json.utf8_append, ← Json.utf8_append,
    ← Json.Value.sortKeys_eq_iff hms hns]
  constructor
  · intro h
    have hkind : (Value.object ms).sortKeys.kind = 5 := by rw [Value.sortKeys]; rfl
    obtain ⟨hval, hseq⟩ := object_append_decimal hkind (Json.utf8_injective h)
    exact ⟨hseq, hval⟩
  · rintro ⟨rfl, hval⟩
    rw [hval]

theorem hashInput_injective {d d' : Digest} {p q : Payload F} (hp : p.IsObject) {i j : Int}
    (h : hashInput ft d p i = hashInput ft d' q j) : d = d' ∧ p = q ∧ i = j := by
  unfold hashInput canonicalize at h
  rw [List.append_assoc, List.append_assoc, ← Json.utf8_append, ← Json.utf8_append] at h
  obtain ⟨hd, htext⟩ := List.append_inj h (d.length_eq.trans d'.length_eq.symm)
  refine ⟨?_, text_append_decimal hp (Json.utf8_injective htext)⟩
  cases d
  cases d'
  cases hd
  rfl

/-- Two chains of one length with one last hash agree in the covered columns. -/
theorem covered_eq_of_rewalk : ∀ {rs rs' : List (AuditRow F)},
    rewalk ft rs = none → rewalk ft rs' = none → (∀ r ∈ rs, r.payload.IsObject) →
    Set.InjOn sha256 {b | b ∈ hashInputs ft rs ∨ b ∈ hashInputs ft rs'} →
    rs.length = rs'.length → rs.head?.map (·.rowHash) = rs'.head?.map (·.rowHash) →
    rs.map covered = rs'.map covered
  | [], [], _, _, _, _, _, _ => rfl
  | [], _ :: _, _, _, _, _, hlen, _ => by cases hlen
  | _ :: _, [], _, _, _, _, hlen, _ => by cases hlen
  | r :: rs, r' :: rs', h, h', hobj, hfree, hlen, hlast => by
    obtain ⟨hr, hrs⟩ := rewalk_cons_eq_none.1 h
    obtain ⟨hr', hrs'⟩ := rewalk_cons_eq_none.1 h'
    obtain ⟨hhash, hprev⟩ := rowChecks_iff.1 hr
    obtain ⟨hhash', hprev'⟩ := rowChecks_iff.1 hr'
    have hrow : r.rowHash = r'.rowHash := by simpa using hlast
    -- the two rows were hashed from the same bytes
    have hin : hashInput ft r.prevHash r.payload r.seq =
        hashInput ft r'.prevHash r'.payload r'.seq := by
      apply hfree (.inl List.mem_cons_self) (.inr List.mem_cons_self)
      exact hhash.symm.trans (hrow.trans hhash')
    obtain ⟨hp, hpay, hseq⟩ := hashInput_injective (hobj r List.mem_cons_self) hin
    have hlen' : rs.length = rs'.length := by simpa using hlen
    -- so their predecessors have one hash too
    have hlast' : rs.head?.map (·.rowHash) = rs'.head?.map (·.rowHash) := by
      rw [hprev, hprev'] at hp
      cases rs <;> cases rs' <;> simp_all
    have hrest := covered_eq_of_rewalk hrs hrs' (fun r hr => hobj r (.tail _ hr))
      (hfree.mono fun b hb => hb.imp (.tail _) (.tail _)) hlen' hlast'
    rw [List.map_cons, List.map_cons, hrest]
    simp only [covered, hp, hpay, hseq, hrow]

theorem length_hashedAs (prev : Int) (rows : List (AuditRow F)) :
    (hashedAs prev rows).length = rows.length := by
  induction rows generalizing prev with
  | nil => rfl
  | cons r rs ih => simp [hashedAs, ih]

theorem payload_of_mem_hashedAs {prev : Int} {rows : List (AuditRow F)} {r : AuditRow F}
    (h : r ∈ hashedAs prev rows) : ∃ r' ∈ rows, r'.payload = r.payload := by
  induction rows generalizing prev with
  | nil => cases h
  | cons r₁ rs ih =>
    rcases List.mem_cons.1 h with heq | hmem
    · exact ⟨r₁, List.mem_cons_self, by rw [heq]⟩
    · obtain ⟨r', hr', hp⟩ := ih hmem
      exact ⟨r', .tail _ hr', hp⟩

/-- Re-walking a table of the same size and last hash as the log reports a mismatch exactly when
it differs from the log, as it was hashed, in a covered column. -/
theorem tamper_evident_iff {s : AuditState F}
    (hs : Trans.Reach (auditStep ft) Trans.always AuditState.empty s)
    (hobj : ∀ r ∈ s.rows, r.payload.IsObject) (t : List (AuditRow F))
    (hlen : t.length = s.rows.length)
    (hlast : (tailRow t).map (·.rowHash) = (tailRow s.rows).map (·.rowHash))
    (hfree : Set.InjOn sha256
      {b | b ∈ hashInputs ft (hashedAs 0 (inSeqOrder s.rows)) ∨ b ∈ hashInputs ft (inSeqOrder t)}) :
    (rewalk ft (inSeqOrder t).reverse).isSome ↔
      (inSeqOrder t).map covered ≠ (hashedAs 0 (inSeqOrder s.rows)).map covered := by
  have hinv := inv_of_reach hs
  rw [← Option.ne_none_iff_isSome, not_iff_not]
  rw [hinv.ascending.inSeqOrder] at hfree ⊢
  constructor
  · intro hwalk
    have hcov := covered_eq_of_rewalk hinv.chained hwalk ?_ ?_ ?_ ?_
    · rw [List.map_reverse, List.map_reverse] at hcov
      exact (List.reverse_injective hcov).symm
    · intro r hr
      obtain ⟨r', hr', hp⟩ := payload_of_mem_hashedAs (List.mem_reverse.1 hr)
      exact hp ▸ hobj r' hr'
    · refine hfree.mono fun b hb => hb.imp ?_ ?_
      · simp [hashInputs]
      · simp [hashInputs]
    · simp [length_hashedAs, inSeqOrder, hlen]
    · rw [List.head?_reverse, List.head?_reverse, hashedAs_last]
      unfold tailRow at hlast
      rw [hinv.ascending.inSeqOrder] at hlast
      exact hlast.symm
  · intro hcov
    have hcov' : (inSeqOrder t).reverse.map covered = (hashedAs 0 s.rows).reverse.map covered := by
      rw [List.map_reverse, List.map_reverse, hcov]
    exact (rewalk_congr hcov').2 hinv.chained

end

/-- Floats with an integer value, as they are printed below `10 ^ 16`. -/
def wholeFloats : FloatText Int where
  text n := Json.decimal n ++ ['.', '0']
  numeric := by
    intro n c hc
    rcases List.mem_append.1 hc with hc | hc
    · exact Json.decimal_numeric n c hc
    · simp only [List.mem_cons, List.not_mem_nil, or_false] at hc
      rcases hc with rfl | rfl <;> rfl
  fractional := fun n => .inl (by simp)
  injective := fun m n h => Json.decimal_injective (List.append_cancel_right h)

/-- `\x7b"n":n\x7d` -/
def countPayload (n : Int) : Payload Int where
  value := .object [("n", .number (.int n))]
  sorted := by simp [Json.Value.Sorted, Json.membersSorted]

def intValue (n : Int) : Value Int := .number (.int n)

/-- Two values with their keys in different orders, at two depths. -/
def keysOneWay : List (String × Value Int) :=
  [("z", intValue 1), ("a", intValue 2), ("m", .object [("y", intValue 3), ("x", intValue 4)])]

def keysOtherWay : List (String × Value Int) :=
  [("m", .object [("x", intValue 4), ("y", intValue 3)]), ("a", intValue 2), ("z", intValue 1)]

theorem canonicalize_keys_both_ways :
    canonicalize wholeFloats (.object keysOneWay) ++ Json.utf8 (Json.decimal 7) =
      canonicalize wholeFloats (.object keysOtherWay) ++ Json.utf8 (Json.decimal 7) :=
  (canonicalize_append_seq_eq_iff
    (by simp [keysOneWay, intValue, Value.DistinctKeys, Json.membersDistinct])
    (by simp [keysOtherWay, intValue, Value.DistinctKeys, Json.membersDistinct])).2
    ⟨rfl, rfl, ⟨intValue 1, .tail _ (.tail _ (.head _)), rfl⟩,
      ⟨intValue 2, .tail _ (.head _), rfl⟩,
      ⟨.object _, .head _, rfl, ⟨intValue 3, .tail _ (.head _), rfl⟩,
        ⟨intValue 4, .head _, rfl⟩, trivial⟩, trivial⟩

def shareCreated : AuditTx Int where
  replica := 0
  entry :=
    { actorSub := some "alice"
      actorHandle := none
      action := "share.created"
      payload := countPayload 1 }
  occurredAt := 0
  phase := .locked

/-- The first row, with the `seq` it was stored under. -/
def firstRow (seq : Int) : AuditRow Int := shareCreated.row wholeFloats seq 1 genesis

def shareDeleted : AuditTx Int where
  replica := 1
  entry :=
    { actorSub := some "bob"
      actorHandle := none
      action := "share.deleted"
      payload := countPayload 5 }
  occurredAt := 1
  phase := .locked

/-- The row behind it, of another replica. -/
def secondRow : AuditRow Int := shareDeleted.row wholeFloats 2 2 (firstRow 1).rowHash

/-- An append to an empty table, up to its `INSERT`. -/
theorem reach_append {ok : AuditState Int → AuditAction Int → Prop} (lastValue : Int)
    (hok : ∀ s a, (∀ replica, a ≠ .commit replica) → ok s a) :
    Trans.Reach (auditStep wholeFloats) ok ⟨[], lastValue, none⟩
      ⟨[], lastValue + 1,
        some { shareCreated with phase := .inserted (firstRow (lastValue + 1)) }⟩ :=
  .head ⟨.lock 0 shareCreated.entry 0, hok _ _ (by simp), rfl⟩
    (.head ⟨.readTail 0, hok _ _ (by simp), rfl⟩
      (.single ⟨.insert 0, hok _ _ (by simp), rfl⟩))

/-- The digests of both rows, and of the first with another payload. -/
theorem digests_distinct :
    (firstRow 1).rowHash ≠ secondRow.rowHash ∧
      hashRow wholeFloats genesis (countPayload 2) 1 ≠ (firstRow 1).rowHash ∧
      hashRow wholeFloats genesis (countPayload 2) 1 ≠ secondRow.rowHash := by
  decide +kernel

theorem secondRow_accepted : insertRefused [firstRow 1] secondRow = false := by
  have hprev : secondRow.prevHash = tailHash [firstRow 1] := rfl
  have hseq : (firstRow 1).seq ≠ secondRow.seq := by
    show (1 : Int) ≠ 2
    decide
  simp [insertRefused, hprev, hseq, digests_distinct.1]

/-- The second append, up to its `INSERT`. -/
theorem reach_append_second {ok : AuditState Int → AuditAction Int → Prop}
    (hok : ∀ s a, (∀ replica, a ≠ .commit replica) → ok s a) :
    Trans.Reach (auditStep wholeFloats) ok ⟨[firstRow 1], 1, none⟩
      ⟨[firstRow 1], 2, some { shareDeleted with phase := .inserted secondRow }⟩ := by
  have hinsert : auditStep wholeFloats ⟨[firstRow 1], 1,
        some { shareDeleted with phase := .read 2 (firstRow 1).rowHash }⟩ (.insert 1) =
      some ⟨[firstRow 1], 2, some { shareDeleted with phase := .inserted secondRow }⟩ := by
    have hrow : AuditTx.row wholeFloats
        { shareDeleted with phase := .read 2 (firstRow 1).rowHash } (1 + 1) 2
          (firstRow 1).rowHash = secondRow := rfl
    have hreplica : ¬ shareDeleted.replica ≠ 1 := not_not.2 rfl
    simp only [auditStep, if_neg hreplica, hrow, secondRow_accepted]
    rfl
  exact .head ⟨.lock 1 shareDeleted.entry 1, hok _ _ (by simp), rfl⟩
    (.head ⟨.readTail 1, hok _ _ (by simp), rfl⟩ (.single ⟨.insert 1, hok _ _ (by simp), hinsert⟩))

theorem chain_verifies_two :
    Trans.Reach (auditStep wholeFloats) NoValueBurnt AuditState.empty
        ⟨[firstRow 1, secondRow], 2, none⟩ ∧
      ChainVerifies wholeFloats [firstRow 1, secondRow] := by
  have hok : ∀ s (a : AuditAction Int), (∀ replica, a ≠ .commit replica) → NoValueBurnt s a :=
    fun _ a ha => by cases a <;> simp_all [NoValueBurnt]
  have hfirst : Trans.Reach (auditStep wholeFloats) NoValueBurnt AuditState.empty
      ⟨[firstRow 1], 1, none⟩ :=
    (reach_append 0 hok).tail ⟨.commit 0, rfl, rfl⟩
  have h : Trans.Reach (auditStep wholeFloats) NoValueBurnt AuditState.empty
      ⟨[firstRow 1, secondRow], 2, none⟩ :=
    (hfirst.trans (reach_append_second hok)).tail ⟨.commit 1, rfl, rfl⟩
  exact ⟨h, chain_verifies h⟩

/-- An append that rolls back after its `INSERT` makes the next row unverifiable. -/
theorem burnt_value_breaks_chain :
    ¬ ∀ s, Trans.Reach (auditStep wholeFloats) Trans.always AuditState.empty s →
      ChainVerifies wholeFloats s.rows := by
  intro h
  have happend := fun n => @reach_append Trans.always n fun _ _ _ => trivial
  have hreach : Trans.Reach (auditStep wholeFloats) Trans.always AuditState.empty
      ⟨[firstRow 2], 2, none⟩ :=
    (((happend 0).tail ⟨.rollback 0, trivial, rfl⟩).trans (happend 1)).tail
      ⟨.commit 0, trivial, rfl⟩
  have hrow := (h _ hreach [] (firstRow 2) [] rfl).1
  exact absurd hrow (by decide +kernel)

theorem reach_firstRow :
    Trans.Reach (auditStep wholeFloats) Trans.always AuditState.empty ⟨[firstRow 1], 1, none⟩ :=
  (reach_append 0 fun _ _ _ => trivial).tail ⟨.commit 0, trivial, rfl⟩

theorem reach_secondRow :
    Trans.Reach (auditStep wholeFloats) Trans.always AuditState.empty
      ⟨[firstRow 1, secondRow], 2, none⟩ :=
  (reach_firstRow.trans (reach_append_second fun _ _ _ => trivial)).tail
    ⟨.commit 1, trivial, rfl⟩

theorem isObject_firstRow : ∀ r ∈ [firstRow 1], r.payload.IsObject := by
  intro r hr
  rw [List.mem_singleton.1 hr]
  exact ⟨_, rfl⟩

/-- The first row with another payload. -/
def alteredRow : AuditRow Int := { firstRow 1 with payload := countPayload 2 }

/-- A payload altered behind the last row is reported. -/
theorem tamper_evident_payload :
    (rewalk wholeFloats [secondRow, alteredRow]).isSome = true := by
  have hobj : ∀ r ∈ [firstRow 1, secondRow], r.payload.IsObject := by
    intro r hr
    rcases List.mem_pair.1 hr with rfl | rfl <;> exact ⟨_, rfl⟩
  refine (tamper_evident_iff reach_secondRow hobj [alteredRow, secondRow] rfl rfl ?_).2 ?_
  · have hstored : hashInputs wholeFloats (hashedAs 0 (inSeqOrder [firstRow 1, secondRow])) =
        [hashInput wholeFloats genesis (countPayload 1) 1,
          hashInput wholeFloats (firstRow 1).rowHash (countPayload 5) 2] := rfl
    have haltered : hashInputs wholeFloats (inSeqOrder [alteredRow, secondRow]) =
        [hashInput wholeFloats genesis (countPayload 2) 1,
          hashInput wholeFloats (firstRow 1).rowHash (countPayload 5) 2] := rfl
    have hdistinct : sha256 (hashInput wholeFloats genesis (countPayload 1) 1) ≠
          sha256 (hashInput wholeFloats (firstRow 1).rowHash (countPayload 5) 2) ∧
        sha256 (hashInput wholeFloats genesis (countPayload 2) 1) ≠
          sha256 (hashInput wholeFloats genesis (countPayload 1) 1) ∧
        sha256 (hashInput wholeFloats genesis (countPayload 2) 1) ≠
          sha256 (hashInput wholeFloats (firstRow 1).rowHash (countPayload 5) 2) :=
      digests_distinct
    rw [hstored, haltered]
    generalize hashInput wholeFloats genesis (countPayload 1) 1 = first,
      hashInput wholeFloats (firstRow 1).rowHash (countPayload 5) 2 = second,
      hashInput wholeFloats genesis (countPayload 2) 1 = altered, sha256 = digest at hdistinct ⊢
    obtain ⟨hfirst, haltered, hother⟩ := hdistinct
    intro b hb b' hb' heq
    have hmem : ∀ {c : Bytes}, c ∈ [first, second] ∨ c ∈ [altered, second] →
        c = first ∨ c = second ∨ c = altered := by
      intro c hc
      rcases hc with hc | hc <;> rcases List.mem_pair.1 hc with hc | hc <;> simp [hc]
    obtain rfl | rfl | rfl := hmem hb <;> obtain rfl | rfl | rfl := hmem hb'
    all_goals first
      | rfl
      | exact absurd heq ‹_›
      | exact absurd heq.symm ‹_›
  · intro h
    have hval := congrArg (List.map fun c => c.2.1.value) h
    simp [inSeqOrder, hashedAs, covered, countPayload, firstRow, AuditTx.row, shareCreated,
      alteredRow, secondRow, shareDeleted] at hval

/-- A row given to another actor is not reported. -/
theorem reattributed_row_goes_unnoticed :
    ¬ ∀ (s : AuditState Int) (t : List (AuditRow Int)),
      Trans.Reach (auditStep wholeFloats) Trans.always AuditState.empty s →
      (∀ r ∈ s.rows, r.payload.IsObject) → t.length = s.rows.length →
      (tailRow t).map (·.rowHash) = (tailRow s.rows).map (·.rowHash) →
      Set.InjOn sha256 {b | b ∈ hashInputs wholeFloats (hashedAs 0 (inSeqOrder s.rows)) ∨
        b ∈ hashInputs wholeFloats (inSeqOrder t)} →
      inSeqOrder t ≠ inSeqOrder s.rows →
      (rewalk wholeFloats (inSeqOrder t).reverse).isSome = true := by
  intro h
  have hreport := h _ [{ firstRow 1 with actorSub := some "mallory" }] reach_firstRow
    isObject_firstRow rfl rfl ?_ ?_
  · have hcov : [{ firstRow 1 with actorSub := some "mallory" }].map covered =
        (hashedAs 0 [firstRow 1]).reverse.map covered := rfl
    have hnone := (rewalk_congr hcov).2 (inv_of_reach reach_firstRow).chained
    simp only [inSeqOrder, List.insertionSort_cons, List.insertionSort_nil, List.orderedInsert_nil,
      List.reverse_singleton, hnone] at hreport
    cases hreport
  · intro b hb b' hb' _
    rcases hb with hb | hb <;> rcases hb' with hb' | hb' <;>
      exact (List.mem_singleton.1 hb).trans (List.mem_singleton.1 hb').symm
  · intro heq
    have hactor := congrArg (fun l => l.map (·.actorSub)) heq
    exact absurd hactor (by decide +kernel)

end StarStats.Audit
