import StarStats.Server.Proof.Covers

/-!
# No dirtying is lost

`Inv` carries `Covers` through every interleaving, together with what each transaction in flight
knows: whoever still sees the `updated_at` it captured has seen every committed event.

* `rollups_current`: in every interleaving of ingests and rebuilds of a handle never seen before,
  a rollup that is not marked dirty is up to date.
-/

namespace StarStats.Concurrent

/-! ## The invariant -/

section
variable (handle : String) (deriveContractRuns : List EventEnvelope → List ContractRunRow)

/-- What a session rebuild holds, against the committed tables. -/
def SessionPhaseOk (db : Db) (now : Timestamp) : SessionPhase → Prop
  | .locked => True
  | .read cap => CapturedOk cap (db.rollup handle)
  | .windowed cap window =>
    CapturedOk cap (db.rollup handle) ∧ window = rebuildWindow cap.dirtyFromTs (db.sessions handle)
  | .deleted cap window kept | .numbered cap window kept _ =>
    CapturedOk cap (db.rollup handle) ∧
      window = rebuildWindow cap.dirtyFromTs (db.sessions handle) ∧
      kept = keptSessions window (db.sessions handle)
  | .inserted cap rows | .aggregated cap rows _ =>
    Derived cap (db.rollup handle) (sessionEvents handle db.events) rows
  | .cleared rows _ row =>
    ∃ cap : Captured, row = clearSessionsDirty now cap.updatedAt (db.rollup handle) ∧
      Derived cap (db.rollup handle) (sessionEvents handle db.events) rows

/-- The runs a contract rebuild is about to commit. -/
def Folded (cap : Captured) (db : Db) (runs : List ContractRunRow) : Prop :=
  stillDirty (·.contractsDirty) (db.rollup handle) = true ∧
    (Fresh cap (db.rollup handle) ∨ db.rollup handle = none →
      runs = deriveContractRuns (contractEnvelopes handle db.events))

/-- What a contract rebuild holds, against the committed tables. -/
def ContractPhaseOk (db : Db) (now : Timestamp) : ContractPhase → Prop
  | .locked => True
  | .read _ => stillDirty (·.contractsDirty) (db.rollup handle) = true
  | .fetched cap runs | .deleted cap runs | .inserted cap runs =>
    Folded handle deriveContractRuns cap db runs
  | .cleared runs row =>
    ∃ cap : Captured, row = clearContractsDirty now cap.updatedAt (db.rollup handle) ∧
      Folded handle deriveContractRuns cap db runs

/-- The committed tables. -/
structure DbOk (db : Db) : Prop where
  sessions : ∃ old, ((db.sessions handle).map (·.summary)).Perm (sessionise old) ∧
    Covers (db.rollup handle) old (sessionEvents handle db.events)
  contracts : ∀ row, db.rollup handle = some row → row.contractsDirty = false →
    ContractsCurrent handle deriveContractRuns db

/-- The `updated_at` a session rebuild compares with. -/
def sessionCaptured : SessionPhase → Option Timestamp
  | .locked | .cleared .. => none
  | .read cap | .windowed cap _ | .deleted cap _ _ | .numbered cap _ _ _ | .inserted cap _
  | .aggregated cap _ _ => cap.updatedAt

/-- The `updated_at` a contract rebuild compares with. -/
def contractCaptured : ContractPhase → Option Timestamp
  | .locked | .cleared .. => none
  | .read cap | .fetched cap _ | .deleted cap _ | .inserted cap _ => cap.updatedAt

/-- The start times of the transactions in flight. -/
def live (s : RebuildState) : List Timestamp :=
  s.sessionWaiting ++ s.contractWaiting ++ (s.session.map (·.now)).toList ++
    (s.contract.map (·.now)).toList

/-- `c` is the start time of a transaction that has ended. -/
def Ended (s : RebuildState) (c : Timestamp) : Prop := c ∈ s.used ∧ c ∉ live s

structure ClockOk (s : RebuildState) : Prop where
  nodup : (live s).Nodup
  used : ∀ c ∈ live s, c ∈ s.used
  row : ∀ row, s.db.rollup handle = some row → Ended s row.updatedAt
  session : ∀ tx c, s.session = some tx → sessionCaptured tx.phase = some c → Ended s c
  contract : ∀ tx c, s.contract = some tx → contractCaptured tx.phase = some c → Ended s c

structure Inv (s : RebuildState) : Prop where
  db : DbOk handle deriveContractRuns s.db
  session : ∀ tx, s.session = some tx → SessionPhaseOk handle s.db tx.now tx.phase
  contract : ∀ tx, s.contract = some tx →
    ContractPhaseOk handle deriveContractRuns s.db tx.now tx.phase
  clock : ClockOk handle s
  oneLock : ¬ (s.session.any (·.locksRow) = true ∧ s.contract.any (·.locksRow) = true)

end

section
variable {handle : String} {deriveContractRuns : List EventEnvelope → List ContractRunRow}

/-! ## What the other transactions notice -/

theorem Fresh.updatedAt {cap : Captured} {row : RollupRow} (h : Fresh cap (some row)) :
    cap.updatedAt = some row.updatedAt := h.symm

/-- A session rebuild past its read keeps what it holds when the state row moves on, as long as
it cannot mistake the new row for the one it read. -/
theorem SessionPhaseOk.moved {db db' : Db} {now : Timestamp} {phase : SessionPhase}
    (h : SessionPhaseOk handle db now phase) (hlock : SessionTx.locksRow ⟨now, phase⟩ = false)
    (hsessions : db'.sessions handle = db.sessions handle)
    (hcov : ∀ old, Covers (db.rollup handle) old (sessionEvents handle db.events) →
      Covers (db'.rollup handle) old (sessionEvents handle db'.events))
    (hfresh : ∀ cap : Captured, sessionCaptured phase = cap.updatedAt →
      Fresh cap (db'.rollup handle) → db'.rollup handle = db.rollup handle ∧
        sessionEvents handle db'.events = sessionEvents handle db.events) :
    SessionPhaseOk handle db' now phase := by
  have hcap : ∀ cap : Captured, sessionCaptured phase = cap.updatedAt →
      CapturedOk cap (db.rollup handle) → CapturedOk cap (db'.rollup handle) := by
    intro cap hc hok hf
    have heq := (hfresh cap hc hf).1
    rw [heq] at hf ⊢
    exact hok hf
  have hder : ∀ (cap : Captured) rows, sessionCaptured phase = cap.updatedAt →
      Derived cap (db.rollup handle) (sessionEvents handle db.events) rows →
      Derived cap (db'.rollup handle) (sessionEvents handle db'.events) rows := by
    rintro cap rows hc ⟨new, hrows, hcovn, hnew⟩
    refine ⟨new, hrows, hcov new hcovn, fun hf => ?_⟩
    obtain ⟨heq, hev⟩ := hfresh cap hc hf
    rw [heq] at hf
    rw [hev]
    exact hnew hf
  cases phase with
  | locked => trivial
  | read cap => exact hcap cap rfl h
  | windowed cap window => exact ⟨hcap cap rfl h.1, hsessions ▸ h.2⟩
  | deleted cap window kept => exact ⟨hcap cap rfl h.1, hsessions ▸ h.2⟩
  | numbered cap window kept offset => exact ⟨hcap cap rfl h.1, hsessions ▸ h.2⟩
  | inserted cap rows => exact hder cap rows rfl h
  | aggregated cap rows agg => exact hder cap rows rfl h
  | cleared rows agg row => cases hlock

/-- The same for a contract rebuild. -/
theorem ContractPhaseOk.moved {db db' : Db} {now : Timestamp} {phase : ContractPhase}
    (h : ContractPhaseOk handle deriveContractRuns db now phase)
    (hlock : ContractTx.locksRow ⟨now, phase⟩ = false)
    (hdirty : stillDirty (·.contractsDirty) (db.rollup handle) = true →
      stillDirty (·.contractsDirty) (db'.rollup handle) = true)
    (hfresh : ∀ cap : Captured, contractCaptured phase = cap.updatedAt →
      Fresh cap (db'.rollup handle) ∨ db'.rollup handle = none →
      db'.rollup handle = db.rollup handle ∧
        contractEnvelopes handle db'.events = contractEnvelopes handle db.events) :
    ContractPhaseOk handle deriveContractRuns db' now phase := by
  have hfold : ∀ (cap : Captured) runs, contractCaptured phase = cap.updatedAt →
      Folded handle deriveContractRuns cap db runs →
      Folded handle deriveContractRuns cap db' runs := by
    rintro cap runs hc ⟨hd, hruns⟩
    refine ⟨hdirty hd, fun hf => ?_⟩
    obtain ⟨heq, henv⟩ := hfresh cap hc hf
    rw [heq] at hf
    rw [henv]
    exact hruns hf
  cases phase with
  | locked => trivial
  | read cap => exact hdirty h
  | fetched cap runs => exact hfold cap runs rfl h
  | deleted cap runs => exact hfold cap runs rfl h
  | inserted cap runs => exact hfold cap runs rfl h
  | cleared runs row => cases hlock

/-! ## Ingest -/

/-- A batch without rows of the handle leaves its part of the database alone. -/
theorem commitInserted_other (db : Db) {ins : List EventRow}
    (h : ins.filter (·.claimedHandle = handle) = []) (now : Timestamp) :
    (db.commitInserted now ins).rollup handle = db.rollup handle ∧
      (db.commitInserted now ins).events.filter (·.claimedHandle = handle) =
        db.events.filter (·.claimedHandle = handle) := by
  refine ⟨markDirty_of_nil h now _, ?_⟩
  simp only [Db.commitInserted, List.filter_append, h, List.append_nil]

theorem sessionEvents_congr {l l' : List EventRow}
    (h : l'.filter (·.claimedHandle = handle) = l.filter (·.claimedHandle = handle)) :
    sessionEvents handle l' = sessionEvents handle l := by
  rw [sessionEvents, sessionEvents, h]

theorem contractEnvelopes_congr {l l' : List EventRow}
    (h : l'.filter (·.claimedHandle = handle) = l.filter (·.claimedHandle = handle)) :
    contractEnvelopes handle l' = contractEnvelopes handle l := by
  rw [contractEnvelopes, contractEnvelopes, h]

theorem Covers.committed {db : Db} {old : List SessionEvent}
    (h : Covers (db.rollup handle) old (sessionEvents handle db.events)) (now : Timestamp)
    (ins : List EventRow) :
    Covers ((db.commitInserted now ins).rollup handle) old
      (sessionEvents handle (db.commitInserted now ins).events) := by
  cases hins : ins.filter (·.claimedHandle = handle) with
  | nil =>
    obtain ⟨hrow, hev⟩ := commitInserted_other db hins now
    rw [hrow, sessionEvents_congr hev]
    exact h
  | cons r rs =>
    simp only [Db.commitInserted, markDirty_of_cons hins, sessionEvents_append]
    refine h.ingest (fun w hw e he => ?_) fun hm => ?_
    · exact le_time_of_minOf (by rw [hins]; exact hw) he
    · exact sessionEvents_of_minOf_none (by rw [hins]; exact hm)

theorem DbOk.ingest {db : Db} (h : DbOk handle deriveContractRuns db) (now : Timestamp)
    (ins : List EventRow) : DbOk handle deriveContractRuns (db.commitInserted now ins) where
  sessions := by
    obtain ⟨old, hrows, hcov⟩ := h.sessions
    exact ⟨old, hrows, hcov.committed now ins⟩
  contracts := by
    intro row hrow hclean
    cases hins : ins.filter (·.claimedHandle = handle) with
    | nil =>
      obtain ⟨hsame, hev⟩ := commitInserted_other db hins now
      rw [hsame] at hrow
      rw [ContractsCurrent, contractEnvelopes_congr hev]
      exact h.contracts row hrow hclean
    | cons r rs =>
      simp only [Db.commitInserted, markDirty_of_cons hins, Option.some.injEq] at hrow
      subst hrow
      cases hst : db.rollup handle <;> simp [dirtyRow, hst, RollupRow.fresh, RollupRow.dirtied] at hclean

theorem dirtyRow_updatedAt (now : Timestamp) (m : Option Timestamp) (state : Option RollupRow) :
    (dirtyRow now m state).updatedAt = now := by
  cases state <;> rfl

/-- After an ingest whoever compares with another transaction's `updated_at` sees the row change,
or the batch had nothing for the handle. -/
theorem fresh_commitInserted {db : Db} {now : Timestamp} {ins : List EventRow} {cap : Captured}
    (hne : cap.updatedAt ≠ some now)
    (hf : Fresh cap ((db.commitInserted now ins).rollup handle) ∨
      (db.commitInserted now ins).rollup handle = none) :
    (db.commitInserted now ins).rollup handle = db.rollup handle ∧
      (db.commitInserted now ins).events.filter (·.claimedHandle = handle) =
        db.events.filter (·.claimedHandle = handle) := by
  cases hins : ins.filter (·.claimedHandle = handle) with
  | nil => exact commitInserted_other db hins now
  | cons r rs =>
    simp only [Db.commitInserted, markDirty_of_cons hins, reduceCtorEq, or_false] at hf
    rw [hf.updatedAt, dirtyRow_updatedAt] at hne
    exact absurd rfl hne

theorem stillDirty_commitInserted {db : Db} (now : Timestamp) (ins : List EventRow)
    (h : stillDirty (·.contractsDirty) (db.rollup handle) = true) :
    stillDirty (·.contractsDirty) ((db.commitInserted now ins).rollup handle) = true := by
  cases hins : ins.filter (·.claimedHandle = handle) with
  | nil => rwa [(commitInserted_other db hins now).1]
  | cons r rs =>
    simp only [Db.commitInserted, markDirty_of_cons hins]
    cases db.rollup handle <;> rfl

/-! ## The clock -/

theorem Ended.mono {s s' : RebuildState} {c : Timestamp} (h : Ended s c)
    (hused : ∀ c ∈ s.used, c ∈ s'.used) (hlive : ∀ c ∈ live s', c ∈ live s ∨ c ∉ s.used) :
    Ended s' c := by
  refine ⟨hused c h.1, fun hc => ?_⟩
  rcases hlive c hc with hl | hu
  · exact h.2 hl
  · exact hu h.1

/-- Transactions end, nothing else happens to the clock. -/
theorem ClockOk.shrink {s s' : RebuildState} (h : ClockOk handle s)
    (hlive : (live s').Sublist (live s)) (hused : s'.used = s.used)
    (hrow : ∀ row, s'.db.rollup handle = some row → Ended s' row.updatedAt)
    (hsession : ∀ tx c, s'.session = some tx → sessionCaptured tx.phase = some c → Ended s c)
    (hcontract : ∀ tx c, s'.contract = some tx → contractCaptured tx.phase = some c → Ended s c) :
    ClockOk handle s' := by
  have hmono : ∀ {c}, Ended s c → Ended s' c := fun hc =>
    hc.mono (fun c hc => hused ▸ hc) fun c hc => .inl (hlive.subset hc)
  exact
    { nodup := hlive.nodup h.nodup
      used := fun c hc => hused ▸ h.used c (hlive.subset hc)
      row := hrow
      session := fun tx c htx hc => hmono (hsession tx c htx hc)
      contract := fun tx c htx hc => hmono (hcontract tx c htx hc) }

variable {s : RebuildState}

theorem live_session_ended (h : ClockOk handle s) {tx : SessionTx} (htx : s.session = some tx) :
    tx.now ∈ live s ∧ (live { s with session := none }).Sublist (live s) ∧
      tx.now ∉ live { s with session := none } := by
  have hnodup := h.nodup
  simp only [live, htx, Option.map_some, Option.toList_some, Option.map_none, Option.toList_none,
    List.append_nil] at hnodup ⊢
  refine ⟨by simp, (List.sublist_append_left _ _).append (.refl _), fun hc => ?_⟩
  rw [List.append_assoc] at hnodup
  have hcomm := (List.perm_append_comm.append_left (s.sessionWaiting ++ s.contractWaiting)).nodup_iff.1
    hnodup
  rw [← List.append_assoc] at hcomm
  exact (List.disjoint_of_nodup_append hcomm) hc (.head _)

theorem live_contract_ended (h : ClockOk handle s) {tx : ContractTx} (htx : s.contract = some tx) :
    tx.now ∈ live s ∧ (live { s with contract := none }).Sublist (live s) ∧
      tx.now ∉ live { s with contract := none } := by
  have hnodup := h.nodup
  simp only [live, htx, Option.map_some, Option.toList_some, Option.map_none, Option.toList_none,
    List.append_nil] at hnodup ⊢
  exact ⟨by simp, List.sublist_append_left _ _, fun hc =>
    (List.disjoint_of_nodup_append hnodup) hc (.head _)⟩

/-- The row a commit leaves is stamped by the transaction that just ended, or it is the row that
was there. -/
theorem ClockOk.committed {s' : RebuildState} (h : ClockOk handle s) {now : Timestamp}
    {row : RollupRow} (hnow : now ∈ live s) (hended : now ∉ live s')
    (hlive : (live s').Sublist (live s)) (hused : s'.used = s.used)
    (hrow : row.updatedAt = now ∨ s.db.rollup handle = some row) : Ended s' row.updatedAt := by
  rcases hrow with hu | hu
  · rw [hu]
    exact ⟨hused ▸ h.used now hnow, hended⟩
  · exact (h.row _ hu).mono (fun c hc => hused ▸ hc) fun c hc => .inl (hlive.subset hc)

/-! ## One lemma per action -/

theorem Inv.contract_unlocked (h : Inv handle deriveContractRuns s) {tx : SessionTx}
    (htx : s.session = some tx) (hlock : tx.locksRow = true) {other : ContractTx}
    (hc : s.contract = some other) : other.locksRow = false := by
  have hone := h.oneLock
  rw [htx, hc] at hone
  cases hl : other.locksRow with
  | false => rfl
  | true => exact absurd ⟨hlock, hl⟩ hone

theorem Inv.session_unlocked (h : Inv handle deriveContractRuns s) {tx : ContractTx}
    (htx : s.contract = some tx) (hlock : tx.locksRow = true) {other : SessionTx}
    (hs : s.session = some other) : other.locksRow = false := by
  have hone := h.oneLock
  rw [htx, hs] at hone
  cases hl : other.locksRow with
  | false => rfl
  | true => exact absurd ⟨hl, hlock⟩ hone

theorem inv_ingest (h : Inv handle deriveContractRuns s) {now : Timestamp} {ins : List EventRow}
    (hnow : now ∉ s.used)
    (hlock : ((s.session.any (·.locksRow)) || (s.contract.any (·.locksRow))) = true →
      ins.filter (·.claimedHandle = handle) = []) :
    Inv handle deriveContractRuns
      { s with db := s.db.commitInserted now ins, used := now :: s.used } := by
  have hclock := h.clock
  have hmono : ∀ {c}, Ended s c →
      Ended { s with db := s.db.commitInserted now ins, used := now :: s.used } c := fun hc =>
    hc.mono (fun c hc => .tail _ hc) fun c hc => .inl hc
  have hne : ∀ {c}, Ended s c → c ≠ now := fun hc heq => hnow (heq ▸ hc.1)
  refine ⟨h.db.ingest now ins, fun tx htx => ?_, fun tx htx => ?_, ?_, h.oneLock⟩
  · -- a transaction that holds the row lock sees only batches without rows of the handle
    cases hl : tx.locksRow with
    | true =>
      have hnil := hlock (by rw [show s.session = some tx from htx]; simp [hl])
      obtain ⟨hrow, hev⟩ := commitInserted_other s.db hnil now
      have := h.session tx htx
      obtain ⟨n, phase⟩ := tx
      cases phase <;> try cases hl
      simp only [SessionPhaseOk, hrow, sessionEvents_congr hev]
      exact this
    | false =>
      refine (h.session tx htx).moved hl rfl (fun old hc => hc.committed now ins)
        fun cap hcap hf => ?_
      have hcne : cap.updatedAt ≠ some now := fun heq =>
        hne (hclock.session tx now htx (hcap.trans heq)) rfl
      obtain ⟨hrow, hev⟩ := fresh_commitInserted hcne (.inl hf)
      exact ⟨hrow, sessionEvents_congr hev⟩
  · cases hl : tx.locksRow with
    | true =>
      have hnil := hlock (by rw [show s.contract = some tx from htx]; simp [hl])
      obtain ⟨hrow, hev⟩ := commitInserted_other s.db hnil now
      have := h.contract tx htx
      obtain ⟨n, phase⟩ := tx
      cases phase <;> try cases hl
      simp only [ContractPhaseOk, Folded, hrow, contractEnvelopes_congr hev]
      exact this
    | false =>
      refine (h.contract tx htx).moved hl (stillDirty_commitInserted now ins) fun cap hcap hf => ?_
      have hcne : cap.updatedAt ≠ some now := fun heq =>
        hne (hclock.contract tx now htx (hcap.trans heq)) rfl
      obtain ⟨hrow, hev⟩ := fresh_commitInserted hcne hf
      exact ⟨hrow, contractEnvelopes_congr hev⟩
  · refine ⟨hclock.nodup, fun c hc => .tail _ (hclock.used c hc), fun row hrow => ?_,
      fun tx c htx hc => hmono (hclock.session tx c htx hc),
      fun tx c htx hc => hmono (hclock.contract tx c htx hc)⟩
    cases hins : ins.filter (·.claimedHandle = handle) with
    | nil =>
      simp only [(commitInserted_other s.db hins now).1] at hrow
      exact hmono (hclock.row row hrow)
    | cons r rs =>
      simp only [Db.commitInserted, markDirty_of_cons hins, Option.some.injEq] at hrow
      rw [← hrow, dirtyRow_updatedAt]
      exact ⟨.head _, fun hc => hnow (hclock.used now hc)⟩

/-- A transaction begins with a start time nobody had. -/
theorem ClockOk.begin {s' : RebuildState} (h : ClockOk handle s) {now : Timestamp}
    (hnow : now ∉ s.used) (hlive : (live s').Perm (now :: live s)) (hused : s'.used = now :: s.used)
    (hdb : s'.db = s.db) (hsession : s'.session = s.session) (hcontract : s'.contract = s.contract) :
    ClockOk handle s' := by
  have hmono : ∀ {c}, Ended s c → Ended s' c := fun hc => hc.mono (fun c hc => hused ▸ .tail _ hc)
    fun c hc => by
      rcases List.mem_cons.1 (hlive.mem_iff.1 hc) with rfl | hc
      · exact .inr hnow
      · exact .inl hc
  refine ⟨hlive.nodup_iff.2 (List.nodup_cons.2 ⟨fun hc => hnow (h.used now hc), h.nodup⟩),
    fun c hc => ?_, fun row hrow => hmono (h.row row (hdb ▸ hrow)),
    fun tx c htx hc => hmono (h.session tx c (hsession ▸ htx) hc),
    fun tx c htx hc => hmono (h.contract tx c (hcontract ▸ htx) hc)⟩
  rw [hused]
  rcases List.mem_cons.1 (hlive.mem_iff.1 hc) with rfl | hc
  · exact .head _
  · exact .tail _ (h.used c hc)

/-- A lock changes hands: who is in flight stays the same. -/
theorem ClockOk.handover {s' : RebuildState} (h : ClockOk handle s)
    (hlive : (live s').Perm (live s)) (hused : s'.used = s.used) (hdb : s'.db = s.db)
    (hsession : ∀ tx c, s'.session = some tx → sessionCaptured tx.phase = some c → Ended s c)
    (hcontract : ∀ tx c, s'.contract = some tx → contractCaptured tx.phase = some c → Ended s c) :
    ClockOk handle s' := by
  have hmono : ∀ {c}, Ended s c → Ended s' c := fun hc =>
    hc.mono (fun c hc => hused ▸ hc) fun c hc => .inl (hlive.mem_iff.1 hc)
  exact
    { nodup := hlive.nodup_iff.2 h.nodup
      used := fun c hc => hused ▸ h.used c (hlive.mem_iff.1 hc)
      row := fun row hrow => hmono (h.row row (hdb ▸ hrow))
      session := fun tx c htx hc => hmono (hsession tx c htx hc)
      contract := fun tx c htx hc => hmono (hcontract tx c htx hc) }

/-! ### The session rebuild -/

theorem inv_sessionBegin (h : Inv handle deriveContractRuns s) {now : Timestamp}
    (hnow : now ∉ s.used) : Inv handle deriveContractRuns
      { s with used := now :: s.used, sessionWaiting := now :: s.sessionWaiting } :=
  ⟨h.db, h.session, h.contract, h.clock.begin hnow (.refl _) rfl rfl rfl rfl, h.oneLock⟩

theorem inv_sessionLock (h : Inv handle deriveContractRuns s) {now : Timestamp}
    (hnone : s.session = none) (hnow : now ∈ s.sessionWaiting) :
    Inv handle deriveContractRuns
      { s with sessionWaiting := s.sessionWaiting.erase now, session := some ⟨now, .locked⟩ } := by
  refine ⟨h.db, ?_, h.contract, h.clock.handover ?_ rfl rfl ?_ h.clock.contract, ?_⟩
  · rintro tx ⟨⟩
    trivial
  · -- the start time moves from the waiting list to the holder
    simp only [live, hnone, Option.map_none, Option.toList_none, Option.map_some,
      Option.toList_some, List.append_nil]
    refine List.Perm.append_right _ ?_
    refine List.perm_append_comm.trans ?_
    rw [List.singleton_append, ← List.cons_append]
    exact (List.perm_cons_erase hnow).symm.append_right _
  · rintro tx c ⟨⟩ ⟨⟩
  · rintro ⟨⟨⟩, -⟩

/-- The rebuild runs a statement that writes nothing others can see. -/
theorem inv_session_goto (h : Inv handle deriveContractRuns s) {tx : SessionTx}
    (htx : s.session = some tx) {phase : SessionPhase}
    (hphase : SessionPhaseOk handle s.db tx.now phase)
    (hcap : ∀ c, sessionCaptured phase = some c → Ended s c)
    (hlock : SessionTx.locksRow ⟨tx.now, phase⟩ = true → s.contract.any (·.locksRow) = false) :
    Inv handle deriveContractRuns { s with session := some { tx with phase := phase } } := by
  refine ⟨h.db, ?_, h.contract, h.clock.handover ?_ rfl rfl ?_ h.clock.contract, ?_⟩
  · rintro tx' ⟨⟩
    exact hphase
  · simp only [live, htx, Option.map_some]
    exact .refl _
  · rintro tx' c ⟨⟩ hc
    exact hcap c hc
  · rintro ⟨hl, hc⟩
    rw [hlock hl] at hc
    cases hc

/-- The rebuild's transaction ends without a commit. -/
theorem inv_session_end (h : Inv handle deriveContractRuns s) :
    Inv handle deriveContractRuns { s with session := none } := by
  have hlive : (live { s with session := none }).Sublist (live s) := by
    simp only [live, Option.map_none, Option.toList_none, List.append_nil]
    exact (List.sublist_append_left _ _).append (.refl _)
  refine ⟨h.db, ?_, h.contract, h.clock.shrink hlive rfl ?_ ?_ h.clock.contract, ?_⟩
  · rintro tx ⟨⟩
  · exact fun row hrow => (h.clock.row row hrow).mono (fun c hc => hc) fun c hc =>
      .inl (hlive.subset hc)
  · rintro tx c ⟨⟩
  · rintro ⟨⟨⟩, -⟩

theorem clearSessionsDirty_updatedAt (now : Timestamp) (captured : Option Timestamp)
    (state : Option RollupRow) :
    (clearSessionsDirty now captured state).updatedAt = now ∨
      state = some (clearSessionsDirty now captured state) := by
  cases state with
  | none => exact .inl rfl
  | some row =>
    rw [clearSessionsDirty]
    split
    · exact .inl rfl
    · exact .inr rfl

theorem stillDirty_clearSessionsDirty {now : Timestamp} {captured : Option Timestamp}
    {state : Option RollupRow} (h : stillDirty (·.contractsDirty) state = true) :
    (clearSessionsDirty now captured state).contractsDirty = true := by
  cases state with
  | none => rfl
  | some row =>
    rw [clearSessionsDirty]
    split
    · exact h
    · exact h

/-- The rebuild commits. -/
theorem inv_session_commit (h : Inv handle deriveContractRuns s) {now : Timestamp}
    {rows : List SessionRow} {agg : List EntityAggRow} {row : RollupRow}
    (htx : s.session = some ⟨now, .cleared rows agg row⟩) :
    Inv handle deriveContractRuns
      { s with
        db := { s.db with
          sessions := setAt s.db.sessions handle rows
          entityAgg := setAt s.db.entityAgg handle agg
          rollup := setAt s.db.rollup handle (some row) }
        session := none } := by
  obtain ⟨cap, hrow, hder⟩ := h.session _ htx
  replace hrow : row = clearSessionsDirty now cap.updatedAt (s.db.rollup handle) := hrow
  subst hrow
  obtain ⟨new, hrows, hcov⟩ := hder.cleared now
  obtain ⟨hnow, hlive, hended⟩ := live_session_ended h.clock htx
  have hstamp := clearSessionsDirty_updatedAt now cap.updatedAt (s.db.rollup handle)
  refine ⟨⟨⟨new, ?_, ?_⟩, fun row' hrow' hclean => ?_⟩, ?_, fun tx hc => ?_,
    h.clock.shrink hlive rfl (fun row' hrow' => ?_) ?_ h.clock.contract, ?_⟩
  · simp only [setAt_self]
    exact hrows
  · simp only [setAt_self]
    exact hcov
  · simp only [setAt_self, Option.some.injEq] at hrow'
    subst hrow'
    cases hst : s.db.rollup handle with
    | none =>
      rw [hst] at hclean
      cases hclean
    | some old =>
      refine h.db.contracts old hst ?_
      cases hd : old.contractsDirty with
      | false => rfl
      | true =>
        have hold : stillDirty (·.contractsDirty) (some old) = true := hd
        rw [hst, stillDirty_clearSessionsDirty hold] at hclean
        cases hclean
  · rintro tx ⟨⟩
  · refine (h.contract tx hc).moved (h.contract_unlocked htx rfl hc) (fun hd => ?_)
      fun cap' hcap hf => ?_
    · simp only [setAt_self]
      exact stillDirty_clearSessionsDirty hd
    · simp only [setAt_self, reduceCtorEq, or_false] at hf
      rcases hstamp with hu | hu
      · have hold := h.clock.contract tx now hc (by rw [hcap, hf.updatedAt, hu])
        exact absurd hnow hold.2
      · exact ⟨(setAt_self _ _ _).trans hu.symm, rfl⟩
  · simp only [setAt_self, Option.some.injEq] at hrow'
    subst hrow'
    exact h.clock.committed hnow hended hlive rfl hstamp
  · rintro tx c ⟨⟩
  · rintro ⟨⟨⟩, -⟩

theorem inv_sessionNext (h : Inv handle deriveContractRuns s) {tx : SessionTx}
    (htx : s.session = some tx) {r : Db × Option SessionTx}
    (hadv : sessionAdvance handle s.db (s.contract.any (·.locksRow)) tx = some r) :
    Inv handle deriveContractRuns { s with db := r.1, session := r.2 } := by
  obtain ⟨now, phase⟩ := tx
  have hphase := h.session _ htx
  have hcap := fun c => h.clock.session _ c htx
  cases phase with
  | locked =>
    simp only [sessionAdvance] at hadv
    split at hadv
    · rename_i hdirty
      obtain rfl := Option.some.inj hadv
      refine inv_session_goto h htx (fun _ => ⟨rfl, hdirty⟩) (fun c hc => ?_) nofun
      obtain ⟨row, hrow, rfl⟩ := Option.map_eq_some_iff.1 hc
      exact h.clock.row row hrow
    · obtain rfl := Option.some.inj hadv
      exact inv_session_end h
  | read cap =>
    obtain rfl := Option.some.inj hadv
    exact inv_session_goto h htx ⟨hphase, rfl⟩ hcap nofun
  | windowed cap window =>
    obtain rfl := Option.some.inj hadv
    exact inv_session_goto h htx ⟨hphase.1, hphase.2, rfl⟩ hcap nofun
  | deleted cap window kept =>
    obtain rfl := Option.some.inj hadv
    exact inv_session_goto h htx hphase hcap nofun
  | numbered cap window kept offset =>
    obtain rfl := Option.some.inj hadv
    obtain ⟨hcapt, rfl, rfl⟩ := hphase
    obtain ⟨old, hrows, hcov⟩ := h.db.sessions
    exact inv_session_goto h htx (Derived.of_insert hrows hcov hcapt offset) hcap nofun
  | inserted cap rows =>
    obtain rfl := Option.some.inj hadv
    exact inv_session_goto h htx hphase hcap nofun
  | aggregated cap rows agg =>
    simp only [sessionAdvance] at hadv
    split at hadv
    · cases hadv
    · rename_i hlock
      obtain rfl := Option.some.inj hadv
      exact inv_session_goto h htx ⟨cap, rfl, hphase⟩ nofun fun _ => by simpa using hlock
  | cleared rows agg row =>
    obtain rfl := Option.some.inj hadv
    exact inv_session_commit h htx

theorem inv_sessionGiveUp (h : Inv handle deriveContractRuns s) (now : Timestamp) :
    Inv handle deriveContractRuns { s with sessionWaiting := s.sessionWaiting.erase now } := by
  have hlive : (live { s with sessionWaiting := s.sessionWaiting.erase now }).Sublist (live s) :=
    (((List.erase_sublist).append (.refl _)).append (.refl _)).append (.refl _)
  exact ⟨h.db, h.session, h.contract, h.clock.shrink hlive rfl
    (fun row hrow => (h.clock.row row hrow).mono (fun c hc => hc) fun c hc =>
      .inl (hlive.subset hc)) h.clock.session h.clock.contract, h.oneLock⟩

/-! ### The contract rebuild -/

theorem inv_contractBegin (h : Inv handle deriveContractRuns s) {now : Timestamp}
    (hnow : now ∉ s.used) : Inv handle deriveContractRuns
      { s with used := now :: s.used, contractWaiting := now :: s.contractWaiting } := by
  refine ⟨h.db, h.session, h.contract, h.clock.begin hnow ?_ rfl rfl rfl rfl, h.oneLock⟩
  simp only [live, List.append_assoc, List.cons_append]
  exact List.perm_middle

theorem inv_contractLock (h : Inv handle deriveContractRuns s) {now : Timestamp}
    (hnone : s.contract = none) (hnow : now ∈ s.contractWaiting) :
    Inv handle deriveContractRuns
      { s with contractWaiting := s.contractWaiting.erase now, contract := some ⟨now, .locked⟩ } := by
  refine ⟨h.db, h.session, ?_, h.clock.handover ?_ rfl rfl h.clock.session ?_, ?_⟩
  · rintro tx ⟨⟩
    trivial
  · simp only [live, hnone, Option.map_none, Option.toList_none, Option.map_some,
      Option.toList_some, List.append_nil, List.append_assoc]
    refine List.Perm.append_left _ ?_
    rw [← List.append_assoc]
    refine List.perm_append_comm.trans ?_
    rw [List.singleton_append, ← List.cons_append]
    exact (List.perm_cons_erase hnow).symm.append_right _
  · rintro tx c ⟨⟩ ⟨⟩
  · rintro ⟨-, ⟨⟩⟩

theorem inv_contract_goto (h : Inv handle deriveContractRuns s) {tx : ContractTx}
    (htx : s.contract = some tx) {phase : ContractPhase}
    (hphase : ContractPhaseOk handle deriveContractRuns s.db tx.now phase)
    (hcap : ∀ c, contractCaptured phase = some c → Ended s c)
    (hlock : ContractTx.locksRow ⟨tx.now, phase⟩ = true → s.session.any (·.locksRow) = false) :
    Inv handle deriveContractRuns { s with contract := some { tx with phase := phase } } := by
  refine ⟨h.db, h.session, ?_, h.clock.handover ?_ rfl rfl h.clock.session ?_, ?_⟩
  · rintro tx' ⟨⟩
    exact hphase
  · simp only [live, htx, Option.map_some]
    exact .refl _
  · rintro tx' c ⟨⟩ hc
    exact hcap c hc
  · rintro ⟨hs, hl⟩
    rw [hlock hl] at hs
    cases hs

theorem inv_contract_end (h : Inv handle deriveContractRuns s) :
    Inv handle deriveContractRuns { s with contract := none } := by
  have hlive : (live { s with contract := none }).Sublist (live s) := by
    simp only [live, Option.map_none, Option.toList_none, List.append_nil]
    exact List.sublist_append_left _ _
  refine ⟨h.db, h.session, ?_, h.clock.shrink hlive rfl ?_ h.clock.session ?_, ?_⟩
  · rintro tx ⟨⟩
  · exact fun row hrow => (h.clock.row row hrow).mono (fun c hc => hc) fun c hc =>
      .inl (hlive.subset hc)
  · rintro tx c ⟨⟩
  · rintro ⟨-, ⟨⟩⟩

theorem clearContractsDirty_updatedAt (now : Timestamp) (captured : Option Timestamp)
    (state : Option RollupRow) :
    (clearContractsDirty now captured state).updatedAt = now ∨
      state = some (clearContractsDirty now captured state) := by
  cases state with
  | none => exact .inl rfl
  | some row =>
    rw [clearContractsDirty]
    split
    · exact .inl rfl
    · exact .inr rfl

/-- A clear that leaves the flag down was made by a transaction that saw every event. -/
theorem Folded.cleared {cap : Captured} {db : Db} {runs : List ContractRunRow}
    (h : Folded handle deriveContractRuns cap db runs) {now : Timestamp}
    (hclean : (clearContractsDirty now cap.updatedAt (db.rollup handle)).contractsDirty = false) :
    runs = deriveContractRuns (contractEnvelopes handle db.events) := by
  cases hst : db.rollup handle with
  | none => exact h.2 (.inr hst)
  | some row =>
    rw [hst, clearContractsDirty] at hclean
    split at hclean
    · rename_i heq
      exact h.2 (.inl (by rw [hst]; exact heq.symm))
    · have := h.1
      rw [hst] at this
      exact absurd (this.symm.trans hclean) (by decide)

theorem inv_contract_commit (h : Inv handle deriveContractRuns s) {now : Timestamp}
    {runs : List ContractRunRow} {row : RollupRow}
    (htx : s.contract = some ⟨now, .cleared runs row⟩) :
    Inv handle deriveContractRuns
      { s with
        db := { s.db with
          contractRuns := setAt s.db.contractRuns handle runs
          rollup := setAt s.db.rollup handle (some row) }
        contract := none } := by
  obtain ⟨cap, hrow, hfold⟩ := h.contract _ htx
  replace hrow : row = clearContractsDirty now cap.updatedAt (s.db.rollup handle) := hrow
  subst hrow
  obtain ⟨hnow, hlive, hended⟩ := live_contract_ended h.clock htx
  have hstamp := clearContractsDirty_updatedAt now cap.updatedAt (s.db.rollup handle)
  refine ⟨⟨?_, fun row' hrow' hclean => ?_⟩, fun tx hs => ?_, ?_,
    h.clock.shrink hlive rfl (fun row' hrow' => ?_) h.clock.session ?_, ?_⟩
  · obtain ⟨old, hrows, hcov⟩ := h.db.sessions
    refine ⟨old, hrows, ?_⟩
    simp only [setAt_self]
    exact hcov.contractsCleared now cap.updatedAt
  · simp only [setAt_self, Option.some.injEq] at hrow'
    subst hrow'
    simp only [ContractsCurrent, setAt_self]
    exact hfold.cleared hclean
  · refine (h.session tx hs).moved (h.session_unlocked htx rfl hs) rfl (fun old hcov => ?_)
      fun cap' hcap hf => ?_
    · simp only [setAt_self]
      exact hcov.contractsCleared now cap.updatedAt
    · simp only [setAt_self] at hf
      rcases hstamp with hu | hu
      · have hold := h.clock.session tx now hs (by rw [hcap, hf.updatedAt, hu])
        exact absurd hnow hold.2
      · exact ⟨(setAt_self _ _ _).trans hu.symm, rfl⟩
  · rintro tx ⟨⟩
  · simp only [setAt_self, Option.some.injEq] at hrow'
    subst hrow'
    exact h.clock.committed hnow hended hlive rfl hstamp
  · rintro tx c ⟨⟩
  · rintro ⟨-, ⟨⟩⟩

theorem inv_contractNext (h : Inv handle deriveContractRuns s) {tx : ContractTx}
    (htx : s.contract = some tx) {r : Db × Option ContractTx}
    (hadv : contractAdvance handle deriveContractRuns s.db (s.session.any (·.locksRow)) tx = some r) :
    Inv handle deriveContractRuns { s with db := r.1, contract := r.2 } := by
  obtain ⟨now, phase⟩ := tx
  have hphase := h.contract _ htx
  have hcap := fun c => h.clock.contract _ c htx
  cases phase with
  | locked =>
    simp only [contractAdvance] at hadv
    split at hadv
    · rename_i hdirty
      obtain rfl := Option.some.inj hadv
      refine inv_contract_goto h htx hdirty (fun c hc => ?_) nofun
      obtain ⟨row, hrow, rfl⟩ := Option.map_eq_some_iff.1 hc
      exact h.clock.row row hrow
    · obtain rfl := Option.some.inj hadv
      exact inv_contract_end h
  | read cap =>
    obtain rfl := Option.some.inj hadv
    exact inv_contract_goto h htx ⟨hphase, fun _ => rfl⟩ hcap nofun
  | fetched cap runs =>
    obtain rfl := Option.some.inj hadv
    exact inv_contract_goto h htx hphase hcap nofun
  | deleted cap runs =>
    obtain rfl := Option.some.inj hadv
    exact inv_contract_goto h htx hphase hcap nofun
  | inserted cap runs =>
    simp only [contractAdvance] at hadv
    split at hadv
    · cases hadv
    · rename_i hlock
      obtain rfl := Option.some.inj hadv
      exact inv_contract_goto h htx ⟨cap, rfl, hphase⟩ nofun fun _ => by simpa using hlock
  | cleared runs row =>
    obtain rfl := Option.some.inj hadv
    exact inv_contract_commit h htx

theorem inv_contractGiveUp (h : Inv handle deriveContractRuns s) (now : Timestamp) :
    Inv handle deriveContractRuns { s with contractWaiting := s.contractWaiting.erase now } := by
  have hlive : (live { s with contractWaiting := s.contractWaiting.erase now }).Sublist (live s) :=
    (((List.Sublist.refl _).append List.erase_sublist).append (.refl _)).append (.refl _)
  exact ⟨h.db, h.session, h.contract, h.clock.shrink hlive rfl
    (fun row hrow => (h.clock.row row hrow).mono (fun c hc => hc) fun c hc =>
      .inl (hlive.subset hc)) h.clock.session h.clock.contract, h.oneLock⟩

/-! ## Every interleaving -/

theorem inv_step {s' : RebuildState} {a : RebuildAction} (h : Inv handle deriveContractRuns s)
    (hstep : rebuildStep handle deriveContractRuns s a = some s') :
    Inv handle deriveContractRuns s' := by
  cases a with
  | ingest now events =>
    simp only [rebuildStep] at hstep
    split at hstep
    · cases hstep
    · rename_i hguard
      obtain ⟨hnow, hlock⟩ := not_or.1 hguard
      obtain rfl := Option.some.inj hstep
      refine inv_ingest h hnow fun hl => ?_
      rw [List.filter_eq_nil_iff]
      intro r hr hrh
      exact hlock ⟨hl, List.any_eq_true.2 ⟨r, hr, hrh⟩⟩
  | sessionBegin now =>
    simp only [rebuildStep] at hstep
    split at hstep
    · cases hstep
    · obtain rfl := Option.some.inj hstep
      exact inv_sessionBegin h ‹_›
  | sessionLock now =>
    simp only [rebuildStep] at hstep
    split at hstep
    · rename_i hguard
      obtain rfl := Option.some.inj hstep
      exact inv_sessionLock h (Option.isNone_iff_eq_none.1 hguard.1) hguard.2
    · cases hstep
  | sessionNext =>
    obtain ⟨tx, htx, hnext⟩ := Option.bind_eq_some_iff.1 hstep
    obtain ⟨r, hadv, rfl⟩ := Option.map_eq_some_iff.1 hnext
    exact inv_sessionNext h htx hadv
  | sessionAbort =>
    simp only [rebuildStep] at hstep
    split at hstep
    · obtain rfl := Option.some.inj hstep
      exact inv_session_end h
    · cases hstep
  | sessionGiveUp now =>
    simp only [rebuildStep] at hstep
    split at hstep
    · obtain rfl := Option.some.inj hstep
      exact inv_sessionGiveUp h now
    · cases hstep
  | contractBegin now =>
    simp only [rebuildStep] at hstep
    split at hstep
    · cases hstep
    · obtain rfl := Option.some.inj hstep
      exact inv_contractBegin h ‹_›
  | contractLock now =>
    simp only [rebuildStep] at hstep
    split at hstep
    · rename_i hguard
      obtain rfl := Option.some.inj hstep
      exact inv_contractLock h (Option.isNone_iff_eq_none.1 hguard.1) hguard.2
    · cases hstep
  | contractNext =>
    obtain ⟨tx, htx, hnext⟩ := Option.bind_eq_some_iff.1 hstep
    obtain ⟨r, hadv, rfl⟩ := Option.map_eq_some_iff.1 hnext
    exact inv_contractNext h htx hadv
  | contractAbort =>
    simp only [rebuildStep] at hstep
    split at hstep
    · obtain rfl := Option.some.inj hstep
      exact inv_contract_end h
    · cases hstep
  | contractGiveUp now =>
    simp only [rebuildStep] at hstep
    split at hstep
    · obtain rfl := Option.some.inj hstep
      exact inv_contractGiveUp h now
    · cases hstep

theorem inv_start {db : Db} (h : NeverSeen handle db) (used : List Timestamp) :
    Inv handle deriveContractRuns (.start db used) := by
  obtain ⟨hrow, hev, hsess⟩ := h
  have hev' : sessionEvents handle db.events = [] := by rw [sessionEvents, hev]; rfl
  have hnone : ∀ row, (RebuildState.start db used).db.rollup handle ≠ some row := fun row h => by
    rw [show (RebuildState.start db used).db.rollup handle = none from hrow] at h
    cases h
  constructor
  case db =>
    refine ⟨⟨[], ?_, ?_⟩, fun row h => absurd h (hnone row)⟩
    · show List.Perm ((db.sessions handle).map _) _
      rw [hsess]
      exact .refl _
    · show Covers (db.rollup handle) [] (sessionEvents handle db.events)
      rw [hrow, hev']
      exact .refl _
  case session => exact fun tx h => by cases h
  case contract => exact fun tx h => by cases h
  case clock =>
    refine ⟨.nil, ?_, fun row h => absurd h (hnone row), ?_, ?_⟩
    · rintro c ⟨⟩
    · rintro tx c ⟨⟩
    · rintro tx c ⟨⟩
  case oneLock => exact fun h => by cases h.1

theorem DbOk.rollupsCurrent {db : Db} (h : DbOk handle deriveContractRuns db) :
    RollupsCurrent handle deriveContractRuns db := by
  refine fun row hrow => ⟨fun hclean => ?_, h.contracts row hrow⟩
  obtain ⟨old, hrows, hcov⟩ := h.sessions
  obtain ⟨dirty, cdirty, from?, rebuilt, updated⟩ := row
  obtain rfl : dirty = false := hclean
  rw [hrow] at hcov
  match from? with
  | none =>
    refine hrows.trans (.of_eq ?_)
    rw [sessionise, sessionise, Timeline.split_perm _ _ (show List.Perm _ _ from hcov)]
  | some _ => exact hcov.elim

end

/-- **No dirtying is lost.** In every interleaving of ingests, session rebuilds and contract
rebuilds of a handle never seen before, each rollup that is not marked dirty is up to date. -/
theorem rollups_current (handle : String)
    (deriveContractRuns : List EventEnvelope → List ContractRunRow) {db : Db}
    (hdb : NeverSeen handle db) (used : List Timestamp) {s : RebuildState}
    (h : Trans.Reach (rebuildStep handle deriveContractRuns) Trans.always (.start db used) s) :
    RollupsCurrent handle deriveContractRuns s.db :=
  (h.inv (inv_start hdb used) fun _ _ _ hinv _ hstep => inv_step hinv hstep).db.rollupsCurrent

/-- An ingest commits while the first session rebuild is half done, so that its clear does
nothing; a second rebuild and a contract rebuild follow. -/
def race : List RebuildAction :=
  List.flatten
    [[.sessionBegin 10, .sessionLock 10, .sessionNext, .ingest 20 [flight "a" 0]],
      List.replicate 7 .sessionNext,
      [.sessionBegin 30, .contractBegin 40, .sessionLock 30, .contractLock 40],
      List.replicate 8 .sessionNext,
      List.replicate 6 .contractNext]

theorem rollups_current_race : ∃ s : RebuildState,
    s.db.rollup "pilot" = some ⟨false, false, none, some 30, 40⟩ ∧
      (s.db.sessions "pilot").map (·.summary) = [⟨some 0, some 0, 1, 0⟩] ∧
      RollupsCurrent "pilot" (fun _ => []) s.db := by
  have hrun : ((Trans.exec (rebuildStep "pilot" fun _ => []) Trans.always (.start .empty [])
      race).map fun s => (s.db.rollup "pilot", (s.db.sessions "pilot").map (·.summary))) =
        some (some ⟨false, false, none, some 30, 40⟩, [⟨some 0, some 0, 1, 0⟩]) := by
    decide +kernel
  obtain ⟨s, hreach, hrow⟩ := Trans.reach_of_map_exec race hrun
  have hnever : NeverSeen "pilot" .empty := ⟨rfl, rfl, rfl⟩
  exact ⟨s, congrArg Prod.fst hrow, congrArg Prod.snd hrow,
    rollups_current "pilot" (fun _ => []) hnever [] hreach⟩

end StarStats.Concurrent
