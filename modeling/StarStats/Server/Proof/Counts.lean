import StarStats.Server.Counts
import StarStats.Server.Proof.Repo
import StarStats.Server.Proof.Retention

/-!
# The running counts

While a purge of a handle is in flight its counts exceed the stored rows by what the purge has
deleted so far (`Ahead`); a commit pays the debt and an error leaves it.

* `counts_exact_iff`: a run keeps the counts exact, whenever no purge is in flight, exactly when no
  statement of a purge errors after the purge has deleted a row.
* `purge_error_leaves_counts_high`: one failing statement breaks it.
-/

namespace StarStats.Counts

/-! ## Counting -/

theorem rowCount_append (handle ty : String) (l l' : List EventRow) :
    rowCount handle ty (l ++ l') = rowCount handle ty l + rowCount handle ty l' := by
  rw [rowCount, rowsOfType_append, List.length_append]
  rfl

theorem countGroup_count (handle ty : String) (rows : List EventRow) :
    (countGroup handle ty rows).map (·.eventCount) = countCell (rowCount handle ty rows) := by
  by_cases h : rowsOfType handle ty rows = []
  · rw [countGroup_eq_none.2 h, countCell, rowCount, h]
    rfl
  · have hpos : rowCount handle ty rows ≠ 0 := fun h0 => h (List.length_eq_zero_iff.1 h0)
    rw [countGroup_of_ne h, countCell, if_neg hpos]
    rfl

theorem countCell_eq_none {n : Nat} : countCell n = none ↔ n = 0 := by
  rw [countCell]
  split <;> simp_all

theorem countCell_inj {m n : Nat} (h : countCell m = countCell n) : m = n := by
  simp only [countCell] at h
  split at h <;> split at h <;> simp_all

/-- Ingest adds to a count, whatever it was. -/
theorem rollCounts_count {counts : String → String → Option CountRow} {handle ty : String} {n : Nat}
    (h : (counts handle ty).map (·.eventCount) = countCell n) (ins : List EventRow) :
    (rollCounts ins counts handle ty).map (·.eventCount) =
      countCell (n + rowCount handle ty ins) := by
  have hins := countGroup_count handle ty ins
  rw [rollCounts]
  cases hg : countGroup handle ty ins with
  | none =>
    rw [hg] at hins
    have h0 : rowCount handle ty ins = 0 := countCell_eq_none.1 hins.symm
    rw [h0, Nat.add_zero]
    exact h
  | some new =>
    rw [hg] at hins
    cases hc : counts handle ty with
    | none =>
      rw [hc] at h
      have h0 : n = 0 := countCell_eq_none.1 h.symm
      rw [h0, Nat.zero_add]
      exact hins
    | some old =>
      rw [hc] at h
      simp only [countCell, Option.map_some] at h hins ⊢
      split at h
      · cases h
      · split at hins
        · cases hins
        · rw [if_neg (by omega)]
          simp only [Option.some.injEq, CountRow.add] at h hins ⊢
          omega

/-- A `DELETE` of a handle's rows lowers no other handle's count. -/
theorem rowCount_deleteBatch_other {handle h : String} (hne : h ≠ handle) (cutoff : Timestamp)
    (ty : String) (events : List EventRow) :
    rowCount h ty (deleteBatch handle cutoff events).2 = rowCount h ty events := by
  obtain ⟨keep, hkeep, hdel⟩ := deleteBatch_events handle cutoff events
  rw [hkeep, rowCount, rowCount, rowsOfType, List.filter_comm]
  congr 1
  refine List.filter_eq_self.2 fun r hr => ?_
  by_contra hk
  have hr' := (List.mem_filter.1 hr).2
  simp only [decide_eq_true_eq] at hr'
  exact hne (hr'.1.symm.trans (hdel r (by simpa using hk)).1)

theorem rowCount_deleteBatch_le (handle h : String) (cutoff : Timestamp) (ty : String)
    (events : List EventRow) :
    rowCount h ty (deleteBatch handle cutoff events).2 ≤ rowCount h ty events := by
  obtain ⟨keep, hkeep, -⟩ := deleteBatch_events handle cutoff events
  rw [hkeep]
  exact (List.filter_sublist.filter _).length_le

/-- A `DELETE` that deletes something lowers the count of some type. -/
theorem exists_rowCount_lt {handle : String} {cutoff : Timestamp} {events : List EventRow}
    (h : (deleteBatch handle cutoff events).1 ≠ 0) :
    ∃ ty, rowCount handle ty (deleteBatch handle cutoff events).2 < rowCount handle ty events := by
  obtain ⟨r, hr⟩ := List.exists_mem_of_ne_nil (purgeSelection handle cutoff events) fun h0 =>
    h (List.length_eq_zero_iff.2 h0)
  obtain ⟨hmem, hhandle, -⟩ := mem_purgeSelection hr
  refine ⟨r.eventType, ?_⟩
  have hsub : (rowsOfType handle r.eventType (deleteBatch handle cutoff events).2).Sublist
      (rowsOfType handle r.eventType events) := List.filter_sublist.filter _
  refine lt_of_le_of_ne hsub.length_le fun heq => ?_
  have hin : r ∈ rowsOfType handle r.eventType events :=
    List.mem_filter.2 ⟨hmem, by simp [hhandle]⟩
  rw [← hsub.eq_of_length heq] at hin
  have := (List.mem_filter.1 (List.mem_filter.1 hin).1).2
  simp only [decide_eq_true_eq] at this
  exact this hr

/-! ## The debt of a purge -/

/-- The handle's counts exceed its rows by `debt`; every other handle's are exact. -/
def Ahead (db : Db) (handle : String) (debt : String → Nat) : Prop :=
  ∀ h ty, (db.counts h ty).map (·.eventCount) =
    countCell (rowCount h ty db.events + if h = handle then debt ty else 0)

/-- What holds in each phase of a purge. -/
def PhaseOk (db : Db) (handle : String) (debt : String → Nat) : PurgePhase → Prop
  | .deleting total _ => if total = 0 then ∀ ty, debt ty = 0 else ∃ ty, debt ty ≠ 0
  | .swept => ∃ ty, debt ty ≠ 0
  | .emptied gone => (∃ ty, debt ty ≠ 0) ∧ ∀ ty, gone ty = false → debt ty = 0
  | .recomputed gone rows | .marked gone rows _ => (∃ ty, debt ty ≠ 0) ∧
      (∀ ty, gone ty = false → debt ty = 0 ∧ rows ty = none) ∧
      ∀ ty, gone ty = true →
        (rows ty).map (·.eventCount) = countCell (rowCount handle ty db.events)

def Inv (s : CountState) : Prop :=
  match s.purge with
  | none => CountsExact s.db
  | some tx => ∃ debt, Ahead s.db tx.handle debt ∧ PhaseOk s.db tx.handle debt tx.phase

theorem Inv.quiet {s : CountState} (h : Inv s) : QuietCountsExact s := by
  intro hnone
  rw [Inv, hnone] at h
  exact h

/-! ## Steps -/

theorem CountsExact.ingest {db : Db} (h : CountsExact db) (now : Timestamp) (ins : List EventRow) :
    CountsExact (db.commitInserted now ins) := by
  intro handle ty
  simp only [Db.commitInserted, rowCount_append]
  exact rollCounts_count (h handle ty) ins

theorem Ahead.ingest {db : Db} {handle : String} {debt : String → Nat} (h : Ahead db handle debt)
    (now : Timestamp) (ins : List EventRow) : Ahead (db.commitInserted now ins) handle debt := by
  intro h' ty
  simp only [Db.commitInserted, rowCount_append]
  rw [Nat.add_right_comm]
  exact rollCounts_count (h h' ty) ins

/-- Types an ingest does not touch keep their count. -/
theorem rowCount_eq_of_untouched {handle : String} {ins : List EventRow} {p : String → Bool}
    (h : ((ins.filter (·.claimedHandle = handle)).any fun r => p r.eventType) = false)
    {ty : String} (hty : p ty = true) (l : List EventRow) :
    rowCount handle ty (l ++ ins) = rowCount handle ty l := by
  have h0 : rowsOfType handle ty ins = [] := by
    rw [rowsOfType, List.filter_eq_nil_iff]
    intro r hr hrty
    simp only [decide_eq_true_eq] at hrty
    have := List.any_eq_false.1 h r (List.mem_filter.2 ⟨hr, by simpa using hrty.1⟩)
    rw [hrty.2] at this
    exact this hty
  rw [rowCount_append]
  simp only [rowCount, h0, List.length_nil, Nat.add_zero]

theorem PhaseOk.ingest {db : Db} {tx : PurgeTx} {debt : String → Nat}
    (h : PhaseOk db tx.handle debt tx.phase) {ins : List EventRow} (hfree : tx.blocks ins = false)
    (now : Timestamp) : PhaseOk (db.commitInserted now ins) tx.handle debt tx.phase := by
  obtain ⟨n, handle, cutoff, phase⟩ := tx
  cases phase with
  | deleting total batches => exact h
  | swept => exact h
  | emptied gone => exact h
  | recomputed gone rows =>
    refine ⟨h.1, h.2.1, fun ty hgone => ?_⟩
    have hty : (gone ty || (rows ty).isSome) = true := by rw [hgone, Bool.true_or]
    simp only [Db.commitInserted]
    rw [rowCount_eq_of_untouched (p := fun ty => gone ty || (rows ty).isSome) hfree hty]
    exact h.2.2 ty hgone
  | marked gone rows row =>
    refine ⟨h.1, h.2.1, fun ty hgone => ?_⟩
    have hnone : ins.filter (·.claimedHandle = handle) = [] := by simpa [PurgeTx.blocks] using hfree
    simp only [Db.commitInserted]
    rw [rowCount_eq_of_untouched (p := fun _ => true) (by rw [hnone]; rfl) rfl]
    exact h.2.2 ty hgone

theorem inv_ingest {s : CountState} (h : Inv s) {ins : List EventRow}
    (hfree : s.purge.any (·.blocks ins) = false) (now : Timestamp) :
    Inv { s with db := s.db.commitInserted now ins } := by
  obtain ⟨db, purge⟩ := s
  cases purge with
  | none => exact CountsExact.ingest h now ins
  | some tx =>
    obtain ⟨debt, hahead, hphase⟩ := h
    exact ⟨debt, hahead.ingest now ins, hphase.ingest hfree now⟩

theorem inv_purgeStart {db : Db} (h : CountsExact db) (now : Timestamp) (handle : String)
    (cutoff : Timestamp) : Inv ⟨db, some ⟨now, handle, cutoff, .deleting 0 0⟩⟩ := by
  refine ⟨fun _ => 0, fun h' ty => ?_, fun _ => rfl⟩
  rw [ite_self, Nat.add_zero]
  exact h h' ty

/-- A `DELETE` adds what it deleted to the debt. -/
theorem Ahead.delete {db : Db} {handle : String} {debt : String → Nat} (h : Ahead db handle debt)
    (cutoff : Timestamp) :
    Ahead { db with events := (deleteBatch handle cutoff db.events).2 } handle fun ty =>
      debt ty + (rowCount handle ty db.events -
        rowCount handle ty (deleteBatch handle cutoff db.events).2) := by
  intro h' ty
  have hle := rowCount_deleteBatch_le handle h' cutoff ty db.events
  have hah := h h' ty
  by_cases hne : h' = handle
  · subst hne
    simp only [if_true] at hah ⊢
    rw [hah]
    congr 1
    omega
  · simp only [if_neg hne] at hah ⊢
    rw [hah, rowCount_deleteBatch_other hne]

theorem inv_delete {db : Db} {tx : PurgeTx} {debt : String → Nat} {total batches : Nat}
    (h : Ahead db tx.handle debt) (hphase : PhaseOk db tx.handle debt (.deleting total batches))
    (htx : tx.phase = .deleting total batches) :
    Inv ⟨(purgeAdvance db tx).1, (purgeAdvance db tx).2⟩ := by
  have hahead := h.delete tx.cutoff
  have htotal : if total + (deleteBatch tx.handle tx.cutoff db.events).1 = 0 then
      ∀ ty, debt ty + (rowCount tx.handle ty db.events -
        rowCount tx.handle ty (deleteBatch tx.handle tx.cutoff db.events).2) = 0
      else ∃ ty, debt ty + (rowCount tx.handle ty db.events -
        rowCount tx.handle ty (deleteBatch tx.handle tx.cutoff db.events).2) ≠ 0 := by
    simp only [PhaseOk] at hphase
    by_cases hz : (deleteBatch tx.handle tx.cutoff db.events).1 = 0
    · rw [hz, deleteBatch_zero hz]
      simpa using hphase
    · obtain ⟨ty, hty⟩ := exists_rowCount_lt hz
      rw [if_neg (by omega)]
      exact ⟨ty, by omega⟩
  simp only [purgeAdvance, htx]
  split
  · by_cases hpos : 0 < total + (deleteBatch tx.handle tx.cutoff db.events).1
    · rw [if_pos hpos]
      rw [if_neg (by omega)] at htotal
      exact ⟨_, hahead, htotal⟩
    · rw [if_neg hpos]
      rw [if_pos (by omega)] at htotal
      intro h' ty
      have := hahead h' ty
      simp only [htotal ty, ite_self, Nat.add_zero] at this
      exact this
  · exact ⟨_, hahead, htotal⟩

/-- What the recompute's own transaction sees before its `INSERT`: nothing, if it does not
collide. -/
theorem rows_of_not_collides {db : Db} {handle : String} {debt : String → Nat}
    (h : Ahead db handle debt) {gone : String → Bool}
    (hfree : recomputeCollides handle db.events (countsSeen db handle gone) = false) {ty : String}
    (hgone : gone ty = false) : rowsOfType handle ty db.events = [] := by
  refine List.eq_nil_iff_forall_not_mem.2 fun r hr => ?_
  obtain ⟨hmem, hrty⟩ := List.mem_filter.1 hr
  simp only [decide_eq_true_eq] at hrty
  have hcell := h handle ty
  simp only [if_true] at hcell
  have hpos : rowCount handle ty db.events ≠ 0 := fun h0 => by
    rw [rowCount, List.length_eq_zero_iff] at h0
    rw [h0] at hr
    cases hr
  have hsome : (db.counts handle ty).isSome = true := by
    cases hc : db.counts handle ty with
    | none =>
      rw [hc] at hcell
      have := countCell_eq_none.1 hcell.symm
      omega
    | some row => rfl
  have := List.any_eq_false.1 hfree r (List.mem_filter.2 ⟨hmem, by simpa using hrty.1⟩)
  rw [hrty.2, countsSeen, if_neg (by simp [hgone])] at this
  exact this hsome

theorem inv_recompute {db : Db} {tx : PurgeTx} {debt : String → Nat} {gone : String → Bool}
    (h : Ahead db tx.handle debt) (hphase : PhaseOk db tx.handle debt (.emptied gone))
    (hfree : recomputeCollides tx.handle db.events (countsSeen db tx.handle gone) = false) :
    PhaseOk db tx.handle debt (.recomputed gone fun ty => countGroup tx.handle ty db.events) :=
  ⟨hphase.1, fun ty hty => ⟨hphase.2 ty hty,
    countGroup_eq_none.2 (rows_of_not_collides h hfree hty)⟩,
    fun ty _ => countGroup_count tx.handle ty db.events⟩

/-- The commit pays the debt. -/
theorem exact_of_commit {db : Db} {tx : PurgeTx} {debt : String → Nat} {gone : String → Bool}
    {rows : String → Option CountRow} {row : RollupRow} (h : Ahead db tx.handle debt)
    (hphase : PhaseOk db tx.handle debt (.marked gone rows row))
    (htx : tx.phase = .marked gone rows row) : CountsExact (purgeAdvance db tx).1 := by
  obtain ⟨-, hkept, hgone⟩ := hphase
  intro h' ty
  have hah := h h' ty
  simp only [purgeAdvance, htx]
  by_cases hne : h' = tx.handle
  · subst hne
    simp only [if_true] at hah ⊢
    cases hg : gone ty with
    | true =>
      have hrow := hgone ty hg
      simp only [countsSeen, hg, and_self, if_true, Option.or_none]
      exact hrow
    | false =>
      obtain ⟨hdebt, hnone⟩ := hkept ty hg
      rw [hdebt, Nat.add_zero] at hah
      simp only [hnone, Option.none_or, countsSeen, hg, Bool.false_eq_true, and_false, if_false]
      exact hah
  · simp only [if_neg hne, Nat.add_zero] at hah ⊢
    exact hah

theorem inv_purgeNext {db : Db} {tx : PurgeTx} (h : Inv ⟨db, some tx⟩)
    (hok : NoErrorAfterDelete ⟨db, some tx⟩ .purgeNext) :
    Inv ⟨(purgeAdvance db tx).1, (purgeAdvance db tx).2⟩ := by
  obtain ⟨debt, hahead, hphase⟩ := h
  cases hp : tx.phase with
  | deleting total batches => exact inv_delete hahead (hp ▸ hphase) hp
  | swept =>
    rw [hp] at hphase
    simp only [purgeAdvance, hp]
    refine ⟨debt, hahead, hphase, fun ty hty => ?_⟩
    have hcell := hahead tx.handle ty
    rw [Option.isSome_eq_false_iff, Option.isNone_iff_eq_none] at hty
    simp only [hty, if_true] at hcell
    have := countCell_eq_none.1 hcell.symm
    omega
  | emptied gone =>
    rw [hp] at hphase
    have hfree := hok tx gone rfl hp
    simp only [purgeAdvance, hp, hfree, Bool.false_eq_true, if_false]
    exact ⟨debt, hahead, inv_recompute hahead hphase hfree⟩
  | recomputed gone rows =>
    rw [hp] at hphase
    simp only [purgeAdvance, hp]
    exact ⟨debt, hahead, hphase⟩
  | marked gone rows row =>
    rw [hp] at hphase
    have := exact_of_commit hahead hphase hp
    simp only [purgeAdvance, hp] at this ⊢
    exact this

/-- A debt left behind is a wrong count. -/
theorem not_exact_of_debt {db : Db} {handle : String} {debt : String → Nat}
    (h : Ahead db handle debt) (hdebt : ∃ ty, debt ty ≠ 0) : ¬ CountsExact db := by
  intro hexact
  obtain ⟨ty, hty⟩ := hdebt
  have := (h handle ty).symm.trans (hexact handle ty)
  simp only [if_true] at this
  exact hty (by have := countCell_inj this; omega)

theorem exists_debt {db : Db} {handle : String} {debt : String → Nat} {phase : PurgePhase}
    (h : PhaseOk db handle debt phase) (hne : ∀ batches, phase ≠ .deleting 0 batches) :
    ∃ ty, debt ty ≠ 0 := by
  cases phase with
  | deleting total batches =>
    simp only [PhaseOk] at h
    rwa [if_neg fun h0 => hne batches (by rw [h0])] at h
  | swept => exact h
  | emptied gone => exact h.1
  | recomputed gone rows => exact h.1
  | marked gone rows row => exact h.1

/-! ## Runs -/

theorem inv_step {s s' : CountState} {a : CountAction} (h : Inv s) (hstep : countStep s a = some s')
    (hok : NoErrorAfterDelete s a) : Inv s' := by
  obtain ⟨db, purge⟩ := s
  cases a with
  | ingest now events =>
    simp only [countStep] at hstep
    split at hstep
    · cases hstep
    · rename_i hfree
      obtain rfl := Option.some.inj hstep
      exact inv_ingest h (by simpa using hfree) now
  | purgeStart now handle cutoff =>
    cases purge with
    | some tx => cases hstep
    | none =>
      obtain rfl := Option.some.inj hstep
      exact inv_purgeStart h now handle cutoff
  | purgeNext =>
    cases purge with
    | none => cases hstep
    | some tx =>
      obtain rfl := Option.some.inj hstep
      exact inv_purgeNext h hok
  | purgeFail =>
    cases purge with
    | none => cases hstep
    | some tx =>
      obtain rfl := Option.some.inj hstep
      obtain ⟨debt, hahead, hphase⟩ := h
      obtain ⟨batches, hp⟩ := hok tx rfl
      have hdebt : ∀ ty, debt ty = 0 := by
        have := hphase
        rw [show tx.phase = _ from hp] at this
        exact this
      intro h' ty
      have := hahead h' ty
      simp only [hdebt ty, ite_self, Nat.add_zero] at this
      exact this

/-- An error after a deletion leaves the counts wrong, with no purge in flight. -/
theorem not_quiet_of_error {s s' : CountState} {a : CountAction} (h : Inv s)
    (hstep : countStep s a = some s') (hbad : ¬ NoErrorAfterDelete s a) : ¬ QuietCountsExact s' := by
  obtain ⟨db, purge⟩ := s
  cases a with
  | ingest now events => exact absurd trivial hbad
  | purgeStart now handle cutoff => exact absurd trivial hbad
  | purgeNext =>
    simp only [NoErrorAfterDelete] at hbad
    push Not at hbad
    obtain ⟨tx, gone, htx, hp, hcol⟩ := hbad
    obtain rfl : purge = some tx := htx
    obtain ⟨debt, hahead, hphase⟩ := h
    obtain rfl := Option.some.inj hstep
    have hcol' : recomputeCollides tx.handle db.events (countsSeen db tx.handle gone) = true := by
      simpa using hcol
    simp only [purgeAdvance, hp, hcol', if_true]
    exact fun hq => not_exact_of_debt hahead (exists_debt hphase (by simp [hp])) (hq rfl)
  | purgeFail =>
    simp only [NoErrorAfterDelete] at hbad
    push Not at hbad
    obtain ⟨tx, htx, hp⟩ := hbad
    obtain rfl : purge = some tx := htx
    obtain ⟨debt, hahead, hphase⟩ := h
    obtain rfl := Option.some.inj hstep
    exact fun hq => not_exact_of_debt hahead (exists_debt hphase hp) (hq rfl)

/-- **When the counts follow the events.** From exact counts, a run of ingests and purges shows
exact counts at every quiet moment if and only if no purge statement errors after that purge has
deleted a row. -/
theorem counts_exact_iff {db : Db} (h : CountsExact db) (as : List CountAction) :
    Trans.AllStates countStep QuietCountsExact ⟨db, none⟩ as ↔
      Trans.AllSteps countStep NoErrorAfterDelete ⟨db, none⟩ as :=
  Trans.allStates_iff (fun _ => Inv.quiet) (fun _ _ _ hinv hstep hok => inv_step hinv hstep hok)
    (fun _ _ _ hinv hstep hbad => not_quiet_of_error hinv hstep hbad) as
    (show Inv ⟨db, none⟩ from h)

theorem countsExact_empty : CountsExact Db.empty := fun _ _ => rfl

/-- A purge that fails before it deletes anything does no harm. -/
theorem counts_exact_early_failure :
    Trans.AllStates countStep QuietCountsExact ⟨Db.empty, none⟩
      [.ingest 10 [flight "a" 0], .purgeStart 20 "pilot" 5, .purgeFail] := by
  refine (counts_exact_iff countsExact_empty _).2 ?_
  refine fun s₁ h₁ => ⟨trivial, fun s₂ h₂ => ⟨trivial, fun s₃ _ => ⟨?_, trivial⟩⟩⟩
  obtain rfl := Option.some.inj h₁
  obtain rfl := Option.some.inj h₂
  rintro tx ⟨⟩
  exact ⟨0, rfl⟩

/-- One flight is stored, a purge deletes it and the next statement of the purge fails. -/
def failAfterDelete : List CountAction :=
  [.ingest 10 [flight "a" 0], .purgeStart 20 "pilot" 15, .purgeNext, .purgeFail]

/-- **A purge that fails after a deletion leaves the counts high.** -/
theorem purge_error_leaves_counts_high :
    ¬ ∀ db, CountsExact db → ∀ as, Trans.AllStates countStep QuietCountsExact ⟨db, none⟩ as := by
  intro h
  have hall := h _ countsExact_empty failAfterDelete
  have hrun : ((Trans.exec countStep Trans.always ⟨Db.empty, none⟩ failAfterDelete).map fun s =>
      (s.purge.isNone, (s.db.counts "pilot" "join_pu").map (·.eventCount),
        rowCount "pilot" "join_pu" s.db.events)) = some (true, some 1, 0) := by
    decide +kernel
  obtain ⟨s, hs, hvals⟩ := Option.map_eq_some_iff.1 hrun
  simp only [Prod.mk.injEq] at hvals
  have hexact := hall.of_exec hs (Option.isNone_iff_eq_none.1 hvals.1) "pilot" "join_pu"
  rw [hvals.2.1, hvals.2.2] at hexact
  cases hexact

end StarStats.Counts
