import StarStats.Server.Proof.Repo
import StarStats.Server.Reconcile

/-!
# What the reconcile heals and what it harms

* `runReconcile_grouped_iff`: on its own it restores the grouping exactly when no row with the
  right count has a wrong first or last time (only the count decides what is rewritten).
* `quiet_counts_grouped_iff`: beside ingests a run keeps the grouping exactly when every reconcile
  that commits had a current snapshot.
* `reconcile_exact_iff`: both.
-/

namespace StarStats.Reconcile

/-! ## On its own -/

theorem isOrphan_iff {events : List EventRow} {h ty : String} :
    isOrphan events h ty = true ↔ countGroup h ty events = none := by
  rw [countGroup_eq_none, rowsOfType, List.filter_eq_nil_iff]
  simp [isOrphan]

theorem runReconcile_counts (db : Db) (h ty : String) :
    (runReconcile db).counts h ty =
      (countGroup h ty db.events).map fun truth => upsertCount truth (db.counts h ty) := by
  simp only [runReconcile, deleteOrphans, upsertCounts]
  cases hg : countGroup h ty db.events with
  | none => rw [if_pos (isOrphan_iff.2 hg)]; rfl
  | some truth =>
    have : ¬ isOrphan db.events h ty = true := fun ho => by
      rw [isOrphan_iff.1 ho] at hg
      cases hg
    rw [if_neg this]
    rfl

theorem upsertCount_eq_iff {truth : CountRow} {row : Option CountRow} :
    upsertCount truth row = truth ↔
      ∀ r, row = some r → r.eventCount = truth.eventCount → r = truth := by
  cases row with
  | none => simp [upsertCount]
  | some r =>
    simp only [upsertCount]
    split
    · rename_i hne
      simp only [true_iff]
      intro r' hr' heq
      cases hr'
      exact absurd heq hne
    · rename_i heq
      rw [ne_eq, not_not] at heq
      constructor
      · intro h r' hr' _
        cases hr'
        exact h
      · intro h
        exact h r rfl heq

/-- What the reconcile heals. -/
theorem runReconcile_grouped_iff (db : Db) :
    CountsGrouped (runReconcile db) ↔ TimesFollowCounts db := by
  unfold CountsGrouped TimesFollowCounts
  refine forall₂_congr fun h ty => ?_
  rw [runReconcile_counts]
  show _ = countGroup h ty db.events ↔ _
  cases hg : countGroup h ty db.events with
  | none => simp
  | some truth =>
    simp only [Option.map_some, Option.some.injEq, upsertCount_eq_iff]
    constructor
    · intro hup row truth' hrow htruth heq
      cases htruth
      exact hup row hrow heq
    · intro hup row hrow heq
      exact hup row truth hrow rfl heq

/-! ## Beside ingests -/

/-- What a reconcile in flight knows: its snapshot is a prefix of the events, and the rows it
holds are the snapshot's groups it has taken. -/
structure TxOk (db : Db) (tx : ReconcileTx) : Prop where
  snapshot : ∃ snap more, db.events = snap ++ more ∧
    tx.truth = fun h ty => countGroup h ty snap
  taken : ∀ h ty, tx.truth h ty ≠ none → (h, ty) ∉ tx.pending → tx.held h ty = tx.truth h ty
  held : ∀ h ty, tx.held h ty = none ∨ tx.held h ty = tx.truth h ty
  orphans : ∀ gone, tx.orphans = some gone → tx.pending = [] ∧ ∀ h ty, gone h ty = false

structure Inv (s : ReconcileState) : Prop where
  grouped : CountsGrouped s.db
  tx : ∀ tx, s.reconcile = some tx → TxOk s.db tx

theorem CountsGrouped.ingest {db : Db} (h : CountsGrouped db) (now : Timestamp)
    (ins : List EventRow) : CountsGrouped (db.commitInserted now ins) := by
  intro handle ty
  have hcounts : db.counts = fun h t => countGroup h t db.events := by
    funext h' ty'
    exact h h' ty'
  simp only [Db.commitInserted]
  rw [countGroup_append, hcounts]

/-- A group of the snapshot is still there, and unless it grew it is the same. -/
theorem exists_countGroup_append {snap : List EventRow} {h ty : String} {truth : CountRow}
    (ht : countGroup h ty snap = some truth) (more : List EventRow) :
    ∃ now, countGroup h ty (snap ++ more) = some now ∧
      (now.eventCount = truth.eventCount → now = truth) := by
  rw [countGroup_append, rollCounts]
  simp only [ht]
  cases hm : countGroup h ty more with
  | none => exact ⟨truth, rfl, fun _ => rfl⟩
  | some new =>
    refine ⟨truth.add new, rfl, fun heq => ?_⟩
    -- a group that exists has a positive count
    have hne : rowsOfType h ty more ≠ [] := fun h0 => by
      rw [countGroup_eq_none.2 h0] at hm
      cases hm
    have hpos : 0 < new.eventCount := by
      rw [countGroup_of_ne hne, Option.some.injEq] at hm
      rw [← hm]
      exact List.length_pos_iff.2 hne
    simp only [CountRow.add] at heq
    omega

/-- Taking a group leaves the snapshot's row, whether or not the group has grown. -/
theorem upsertCount_of_prefix {db : Db} (hdb : CountsGrouped db) {snap more : List EventRow}
    (hev : db.events = snap ++ more) {h ty : String} {truth : CountRow}
    (ht : countGroup h ty snap = some truth) : upsertCount truth (db.counts h ty) = truth := by
  obtain ⟨now, hnow, heq⟩ := exists_countGroup_append ht more
  rw [hdb h ty, hev, hnow]
  exact upsertCount_eq_iff.2 fun r hr hc => by
    cases hr
    exact heq hc

/-! ### The steps keep the invariant -/

theorem TxOk.start (db : Db) : TxOk db (.start db) where
  snapshot := ⟨db.events, [], (List.append_nil _).symm, rfl⟩
  taken := by
    intro h ty hne hnot
    have hrows : rowsOfType h ty db.events ≠ [] := fun h0 => hne (countGroup_eq_none.2 h0)
    obtain ⟨r, hr⟩ := List.exists_mem_of_ne_nil _ hrows
    obtain ⟨hmem, hr⟩ := List.mem_filter.1 hr
    simp only [decide_eq_true_eq] at hr
    refine absurd (List.mem_dedup.2 (List.mem_map.2 ⟨r, hmem, ?_⟩)) hnot
    rw [hr.1, hr.2]
  held := fun _ _ => .inl rfl
  orphans := by
    intro gone h
    cases h

theorem TxOk.ingest {db : Db} {tx : ReconcileTx} (h : TxOk db tx) (now : Timestamp)
    (ins : List EventRow) : TxOk (db.commitInserted now ins) tx where
  snapshot := by
    obtain ⟨snap, more, hev, ht⟩ := h.snapshot
    refine ⟨snap, more ++ ins, ?_, ht⟩
    simp only [Db.commitInserted, hev, List.append_assoc]
  taken := h.taken
  held := h.held
  orphans := h.orphans

theorem TxOk.take {db : Db} (hdb : CountsGrouped db) {tx : ReconcileTx} (h : TxOk db tx)
    {handle ty : String} {truth : CountRow} (ht : tx.truth handle ty = some truth)
    (hpend : (handle, ty) ∈ tx.pending) : TxOk db (tx.take db handle ty truth) := by
  have hup : upsertCount truth (db.counts handle ty) = truth := by
    obtain ⟨snap, more, hev, htruth⟩ := h.snapshot
    rw [htruth] at ht
    exact upsertCount_of_prefix hdb hev ht
  constructor
  · exact h.snapshot
  · intro h' ty' hne hnot
    simp only [ReconcileTx.take] at hne hnot ⊢
    by_cases heq : h' = handle ∧ ty' = ty
    · rw [if_pos heq, hup, heq.1, heq.2, ht]
    · rw [if_neg heq]
      refine h.taken h' ty' hne fun hp => hnot (List.mem_filter.2 ⟨hp, ?_⟩)
      simp only [ne_eq, Prod.mk.injEq, heq, not_false_eq_true, decide_true]
  · intro h' ty'
    simp only [ReconcileTx.take]
    by_cases heq : h' = handle ∧ ty' = ty
    · right
      rw [if_pos heq, hup, heq.1, heq.2, ht]
    · rw [if_neg heq]
      exact h.held h' ty'
  · intro gone hgone
    -- the orphans go last
    rw [(h.orphans gone hgone).1] at hpend
    cases hpend

theorem TxOk.deleteOrphans {db : Db} (hdb : CountsGrouped db) {tx : ReconcileTx} (h : TxOk db tx)
    (hpend : tx.pending = []) : TxOk db (tx.deleteOrphans db) := by
  constructor
  · exact h.snapshot
  · exact h.taken
  · exact h.held
  · intro gone hgone
    refine ⟨hpend, fun handle ty => ?_⟩
    simp only [ReconcileTx.deleteOrphans, Option.some.injEq] at hgone
    rw [← hgone]
    cases ho : isOrphan db.events handle ty with
    | false => simp [ho]
    | true =>
      -- a group without events now had none at the snapshot, so no row of it is held
      have hnone := isOrphan_iff.1 ho
      have htruth : tx.truth handle ty = none := by
        obtain ⟨snap, more, hev, ht⟩ := h.snapshot
        rw [hev] at hnone
        rw [ht]
        cases hs : countGroup handle ty snap with
        | none => exact hs
        | some truth =>
          obtain ⟨now, hnow, -⟩ := exists_countGroup_append hs more
          rw [hnow] at hnone
          cases hnone
      have hheld : tx.held handle ty = none := by
        rcases h.held handle ty with h0 | h0
        · exact h0
        · rw [h0, htruth]
      simp [ReconcileTx.sees, hheld, hdb handle ty, hnone]

/-- Once every group is taken, the transaction sees its snapshot's groups, and elsewhere the
committed counts. -/
theorem TxOk.sees_eq {db : Db} {tx : ReconcileTx} (h : TxOk db tx) (hpend : tx.pending = [])
    (handle ty : String) : tx.sees db handle ty = (tx.truth handle ty).or (db.counts handle ty) := by
  unfold ReconcileTx.sees
  cases ht : tx.truth handle ty with
  | none =>
    rcases h.held handle ty with h0 | h0
    · rw [h0]
    · rw [h0, ht]
  | some truth =>
    rw [h.taken handle ty (by rw [ht]; simp) (by rw [hpend]; simp), ht]

theorem TxOk.commit_counts {db : Db} {tx : ReconcileTx} (h : TxOk db tx)
    {gone : String → String → Bool} (hgone : tx.orphans = some gone) (handle ty : String) :
    (tx.commit db gone).counts handle ty =
      (tx.truth handle ty).or (db.counts handle ty) := by
  obtain ⟨hpend, hnone⟩ := h.orphans gone hgone
  simp only [ReconcileTx.commit, hnone handle ty]
  exact h.sees_eq hpend handle ty

/-- A commit leaves exact counts exactly when its snapshot is current. -/
theorem TxOk.commit_grouped_iff {db : Db} (hdb : CountsGrouped db) {tx : ReconcileTx}
    (h : TxOk db tx) {gone : String → String → Bool} (hgone : tx.orphans = some gone) :
    CountsGrouped (tx.commit db gone) ↔
      ∀ handle ty truth, tx.truth handle ty = some truth →
        countGroup handle ty db.events = some truth := by
  unfold CountsGrouped
  refine forall₂_congr fun handle ty => ?_
  rw [h.commit_counts hgone]
  show _ = countGroup handle ty db.events ↔ _
  cases ht : tx.truth handle ty with
  | none => simp [hdb handle ty]
  | some truth =>
    rw [Option.some_or]
    constructor
    · intro heq truth' ht'
      cases ht'
      exact heq.symm
    · intro hall
      exact (hall truth rfl).symm

/-- Every step but a commit keeps the invariant. -/
theorem Inv.step {s s' : ReconcileState} (hs : Inv s) :
    ∀ {a : ReconcileAction}, a ≠ .commit → reconcileStep s a = some s' → Inv s'
  | .ingest now events, _, h => by
    simp only [reconcileStep] at h
    split at h
    · cases h
    · cases h
      exact ⟨CountsGrouped.ingest hs.grouped now _, fun tx htx => (hs.tx tx htx).ingest now _⟩
  | .start, _, h => by
    simp only [reconcileStep] at h
    split at h
    · cases h
    · cases h
      refine ⟨hs.grouped, fun tx htx => ?_⟩
      cases htx
      exact .start s.db
  | .take handle ty, _, h => by
    simp only [reconcileStep] at h
    split at h
    · cases h
    · rename_i tx htx
      split at h
      · cases h
      · rename_i truth ht
        split at h
        · rename_i hpend
          cases h
          refine ⟨hs.grouped, fun tx' htx' => ?_⟩
          cases htx'
          exact (hs.tx tx htx).take hs.grouped ht hpend
        · cases h
  | .deleteOrphans, _, h => by
    simp only [reconcileStep] at h
    split at h
    · cases h
    · rename_i tx htx
      split at h
      · rename_i hpend
        cases h
        refine ⟨hs.grouped, fun tx' htx' => ?_⟩
        cases htx'
        exact (hs.tx tx htx).deleteOrphans hs.grouped hpend.1
      · cases h
  | .commit, hne, _ => absurd rfl hne
  | .abort, _, h => by
    simp only [reconcileStep] at h
    split at h
    · cases h
    · cases h
      exact ⟨hs.grouped, fun tx htx => by cases htx⟩

theorem commit_inv {s s' : ReconcileState} (h : reconcileStep s .commit = some s') :
    ∃ tx gone, s.reconcile = some tx ∧ tx.orphans = some gone ∧
      s' = { db := tx.commit s.db gone, reconcile := none } := by
  simp only [reconcileStep] at h
  split at h
  · cases h
  · rename_i tx htx
    split at h
    · cases h
    · rename_i gone hgone
      cases h
      exact ⟨tx, gone, htx, hgone, rfl⟩

/-- What the reconcile harms. -/
theorem quiet_counts_grouped_iff {db : Db} (hdb : CountsGrouped db) (as : List ReconcileAction) :
    Trans.AllStates reconcileStep QuietCountsGrouped ⟨db, none⟩ as ↔
      Trans.AllSteps reconcileStep SnapshotCurrent ⟨db, none⟩ as := by
  have hinit : Inv ⟨db, none⟩ := ⟨hdb, fun tx htx => by cases htx⟩
  have hquiet : ∀ s, Inv s → QuietCountsGrouped s := fun s hs _ => hs.grouped
  refine Trans.allStates_iff (I := Inv) hquiet ?_ ?_ as hinit
  · intro s a s' hs h hok
    by_cases ha : a = .commit
    · subst ha
      obtain ⟨tx, gone, htx, hgone, rfl⟩ := commit_inv h
      refine ⟨((hs.tx tx htx).commit_grouped_iff hs.grouped hgone).2 (hok tx htx), ?_⟩
      intro tx' htx'
      simp at htx'
    · exact hs.step ha h
  · intro s a s' hs h hok hquiet
    cases a with
    | commit =>
      obtain ⟨tx, gone, htx, hgone, rfl⟩ := commit_inv h
      refine hok fun tx' htx' => ?_
      rw [htx, Option.some.injEq] at htx'
      exact htx' ▸ ((hs.tx tx htx).commit_grouped_iff hs.grouped hgone).1 (hquiet rfl)
    | ingest | start | take | deleteOrphans | abort => exact hok trivial

/-- When the reconcile heals and when it does no harm. -/
theorem reconcile_exact_iff (db : Db) :
    (CountsGrouped (runReconcile db) ↔ TimesFollowCounts db) ∧
      (CountsGrouped db → ∀ as,
        (Trans.AllStates reconcileStep QuietCountsGrouped ⟨db, none⟩ as ↔
          Trans.AllSteps reconcileStep SnapshotCurrent ⟨db, none⟩ as)) :=
  ⟨runReconcile_grouped_iff db, fun hdb as => quiet_counts_grouped_iff hdb as⟩

/-- One stored flight, counted. -/
def oneFlight : Db := (insertBatch 10 [flight "a" 0] Db.empty).2

/-- A second flight of the same type arrives while the reconcile runs. -/
def lateFlight : List ReconcileAction :=
  [.start, .ingest 20 [flight "b" 5], .take "pilot" "join_pu", .deleteOrphans, .commit]

theorem countsGrouped_oneFlight : CountsGrouped oneFlight := by
  have h0 : CountsGrouped Db.empty := fun _ _ => rfl
  rw [oneFlight, insertBatch_snd]
  exact CountsGrouped.ingest h0 10 _

/-- Nothing arrives while the reconcile runs. -/
theorem reconcile_exact_undisturbed :
    CountsGrouped oneFlight ∧
      Trans.AllStates reconcileStep QuietCountsGrouped ⟨oneFlight, none⟩
        [.start, .take "pilot" "join_pu", .deleteOrphans, .commit] := by
  refine ⟨countsGrouped_oneFlight,
    ((reconcile_exact_iff oneFlight).2 countsGrouped_oneFlight _).2 ?_⟩
  refine fun s₁ h₁ => ⟨trivial, fun s₂ h₂ => ⟨trivial, fun s₃ h₃ => ⟨trivial, fun s₄ _ =>
    ⟨?_, trivial⟩⟩⟩⟩
  cases h₁
  cases h₂
  cases h₃
  intro tx htx h ty truth ht
  cases htx
  exact ht

/-- A right count hides wrong times, and the increment of a flight that commits between the
snapshot and the upsert is lost. -/
theorem reconcile_keeps_and_makes_drift :
    ¬ (∀ db, CountsGrouped (runReconcile db)) ∧
      ¬ ∀ db, CountsGrouped db → ∀ as,
        Trans.AllStates reconcileStep QuietCountsGrouped ⟨db, none⟩ as := by
  constructor
  · intro h
    let drifted : Db := { oneFlight with counts := fun _ _ => some ⟨1, some 7, some 7⟩ }
    have heq := h drifted "pilot" "join_pu"
    exact absurd heq (by decide +kernel)
  · intro h
    have hrun : (Trans.exec reconcileStep Trans.always ⟨oneFlight, none⟩ lateFlight).map
        (fun s => (s.reconcile.isNone, (s.db.counts "pilot" "join_pu").map (·.eventCount),
          (countGroup "pilot" "join_pu" s.db.events).map (·.eventCount))) =
        some (true, some 1, some 2) := by
      decide +kernel
    obtain ⟨s, hexec, hs⟩ := Option.map_eq_some_iff.1 hrun
    simp only [Prod.mk.injEq] at hs
    obtain ⟨hnone, hcount, hgroup⟩ := hs
    have hquiet := (h oneFlight countsGrouped_oneFlight lateFlight).of_exec hexec
    have heq := hquiet (Option.isNone_iff_eq_none.1 hnone) "pilot" "join_pu"
    rw [heq, hgroup] at hcount
    cases hcount

end StarStats.Reconcile
