import StarStats.Server.Erasure
import StarStats.Server.Proof.HandleRenames

/-!
# What a deletion leaves under the handle

`StatementSpec`: where the rows after a statement come from, and which rows it keeps; `RunSpec` the
same of a list of statements. `erased_forgotten_iff`: the handle is forgotten when no row has it
only in a column that no statement looks at. `handle_outlives_account` is a row that does.
-/

namespace StarStats

open Text (lower)

/-! ## One statement -/

/-- What a statement makes of the tables. -/
structure StatementSpec (pseudonym handle : String) (statement : EraseStatement)
    (tables tables' : HandleTables) : Prop where
  origin : ∀ table, ∀ row ∈ tables' table,
    row ∈ tables table ∧ statement.hits handle table row = false ∨
      statement = .pseudonymise ∧ table = .events ∧ row.cells .claimedHandle = some pseudonym
  /-- The members of an LFG post may go with it. -/
  kept : ∀ table, table ≠ .lfgMembers → ∀ row ∈ tables table,
    statement.hits handle table row = false → row ∈ tables' table

section
variable {shape : RowShape} {pseudonym handle : String}

/-- A statement finds rows of its own table only. -/
theorem hits_table {statement : EraseStatement} {table : HandleTable} {row : HandleRow}
    (h : statement.hits handle table row = true) : table = statement.column.1 := by
  cases statement <;> simp only [EraseStatement.hits, Bool.and_eq_true, decide_eq_true_eq] at h
  · exact h.1
  · exact h.1
  · exact h.1

theorem mem_deleteRows {statement : EraseStatement} {tables : HandleTables} {table : HandleTable}
    {row : HandleRow}
    (h : row ∈ deleteRows shape handle statement statement.column.1 tables table) :
    row ∈ tables table ∧ statement.hits handle table row = false := by
  have hset : row ∈ setTable tables statement.column.1 ((tables statement.column.1).filter
      fun row => !statement.hits handle statement.column.1 row) table := by
    unfold deleteRows at h
    split at h
    · simp only [cascadeMembers, setTable] at h ⊢
      split at h
      · rename_i htable
        subst htable
        exact (List.mem_filter.1 h).1
      · exact h
    · exact h
  simp only [setTable] at hset
  split at hset
  · rename_i htable
    subst htable
    simpa using hset
  · rename_i htable
    refine ⟨hset, ?_⟩
    by_contra hhit
    exact htable (hits_table (Bool.not_eq_false _ ▸ hhit))

theorem kept_deleteRows {statement : EraseStatement} {tables : HandleTables} {table : HandleTable}
    {row : HandleRow} (hmembers : table ≠ .lfgMembers) (hrow : row ∈ tables table)
    (hhit : statement.hits handle table row = false) :
    row ∈ deleteRows shape handle statement statement.column.1 tables table := by
  have hset : row ∈ setTable tables statement.column.1 ((tables statement.column.1).filter
      fun row => !statement.hits handle statement.column.1 row) table := by
    simp only [setTable]
    split
    · rename_i htable
      subst htable
      exact List.mem_filter.2 ⟨hrow, by simp [hhit]⟩
    · exact hrow
  unfold deleteRows
  split
  · simp only [cascadeMembers, setTable, if_neg hmembers]
    exact hset
  · exact hset

theorem deleteRows_spec (statement : EraseStatement) (tables : HandleTables) :
    StatementSpec pseudonym handle statement tables
      (deleteRows shape handle statement statement.column.1 tables) where
  origin := fun _ _ h => .inl (mem_deleteRows h)
  kept := fun _ hmembers _ hrow hhit => kept_deleteRows hmembers hrow hhit

theorem pseudonymiseEvents_spec {tables tables' : HandleTables}
    (h : pseudonymiseEvents shape pseudonym handle tables = .ok tables') :
    StatementSpec pseudonym handle .pseudonymise tables tables' := by
  simp only [pseudonymiseEvents] at h
  split at h
  · cases h
  · obtain rfl := Except.ok.inj h
    constructor
    · intro table row hrow
      simp only [setTable] at hrow
      split at hrow
      · rename_i htable
        subst htable
        obtain ⟨row₀, hrow₀, rfl⟩ := List.mem_map.1 hrow
        split
        · exact .inr ⟨rfl, rfl, rfl⟩
        · rename_i hhit
          exact .inl ⟨hrow₀, by simpa using hhit⟩
      · rename_i htable
        exact .inl ⟨hrow, by simp [EraseStatement.hits, htable]⟩
    · intro table _ row hrow hhit
      simp only [setTable]
      split
      · rename_i htable
        subst htable
        exact List.mem_map.2 ⟨row, hrow, by simp [hhit]⟩
      · exact hrow

theorem run_spec {statement : EraseStatement} {tables tables' : HandleTables}
    (h : statement.run shape pseudonym handle tables = .ok tables') :
    StatementSpec pseudonym handle statement tables tables' := by
  cases statement with
  | pseudonymise => exact pseudonymiseEvents_spec h
  | deleteFolded t c =>
    obtain rfl := Except.ok.inj h
    exact deleteRows_spec (.deleteFolded t c) tables
  | deleteLowered t =>
    obtain rfl := Except.ok.inj h
    exact deleteRows_spec (.deleteLowered t) tables

end

/-! ## All statements -/

theorem orDatabase_bind_ok {α β : Type} {fails : Bool} {result : Except UserError α}
    {rest : α → Except UserError β} {b : β} (h : (orDatabase fails result >>= rest) = .ok b) :
    ∃ a, result = .ok a ∧ rest a = .ok b := by
  unfold orDatabase at h
  split at h
  · cases h
  · cases hr : result with
    | error e =>
      rw [hr] at h
      cases h
    | ok a =>
      rw [hr] at h
      exact ⟨a, rfl, h⟩

/-- What a list of statements makes of the tables. -/
structure RunSpec (pseudonym handle : String) (statements : List EraseStatement)
    (tables tables' : HandleTables) : Prop where
  origin : ∀ table, ∀ row ∈ tables' table,
    (row ∈ tables table ∧ ∀ st ∈ statements, st.hits handle table row = false) ∨
      .pseudonymise ∈ statements ∧ table = .events ∧ row.cells .claimedHandle = some pseudonym
  kept : ∀ table, table ≠ .lfgMembers → ∀ row ∈ tables table,
    (∀ st ∈ statements, st.hits handle table row = false) → row ∈ tables' table

/-- A statement before the others. -/
theorem RunSpec.cons {pseudonym handle : String} {statement : EraseStatement}
    {statements : List EraseStatement} {tables tables₁ tables' : HandleTables}
    (h : StatementSpec pseudonym handle statement tables tables₁)
    (hs : RunSpec pseudonym handle statements tables₁ tables') :
    RunSpec pseudonym handle (statement :: statements) tables tables' where
  origin := by
    intro table row hrow
    rcases hs.origin table row hrow with ⟨hrow₁, hrest⟩ | ⟨hmem, hp⟩
    · rcases h.origin table row hrow₁ with ⟨hrow₀, hhit⟩ | ⟨rfl, hp⟩
      · exact .inl ⟨hrow₀, List.forall_mem_cons.2 ⟨hhit, hrest⟩⟩
      · exact .inr ⟨List.mem_cons_self, hp⟩
    · exact .inr ⟨List.mem_cons_of_mem _ hmem, hp⟩
  kept := by
    intro table hmembers row hrow hhits
    obtain ⟨hhit, hrest⟩ := List.forall_mem_cons.1 hhits
    exact hs.kept table hmembers row (h.kept table hmembers row hrow hhit) hrest

theorem runStatements_spec {shape : RowShape} {faults : EraseFaults} {pseudonym handle : String} :
    ∀ {statements : List EraseStatement} {tables tables' : HandleTables},
    runStatements shape faults pseudonym handle statements tables = .ok tables' →
    RunSpec pseudonym handle statements tables tables'
  | [], tables, tables', h => by
    obtain rfl := Except.ok.inj h
    constructor
    · intro table row hrow
      exact .inl ⟨hrow, fun st hst => by cases hst⟩
    · intro table _ row hrow _
      exact hrow
  | statement :: rest, tables, tables', h => by
    obtain ⟨tables₁, h₁, hrest⟩ := orDatabase_bind_ok h
    exact .cons (run_spec h₁) (runStatements_spec hrest)

/-! ## The transaction -/

section
variable {shape : RowShape} {faults : EraseFaults} {pseudonym : String}
  {statements : List EraseStatement} {userId : Uuid} {db : AccountDb} {u : Account}

/-- A deletion that fails, at whatever statement, changes nothing. -/
theorem erase_error {e : UserError}
    (h : (erase shape faults pseudonym statements userId db).1 = .error e) :
    (erase shape faults pseudonym statements userId db).2 = db := by
  unfold erase at h ⊢
  split
  · rfl
  · rename_i db' htx
    rw [htx] at h
    dsimp only at h ⊢
    split at h
    · rename_i hc
      rw [if_pos hc]
    · cases h

theorem erase_ok (h : (erase shape faults pseudonym statements userId db).1 = .ok ()) :
    eraseTx shape faults pseudonym statements userId db =
      .ok (erase shape faults pseudonym statements userId db).2 := by
  unfold erase at h ⊢
  split at h
  · cases h
  · rename_i db' htx
    rw [htx]
    split at h
    · cases h
    · rename_i hc
      rw [if_neg hc]

/-- The tables of a deletion that succeeded: the statements, then the cascade of the user's row. -/
theorem erase_tables (hu : db.users.find? (·.id = userId) = some u)
    (h : (erase shape faults pseudonym statements userId db).1 = .ok ()) :
    ∃ tables, RunSpec pseudonym u.claimedHandle statements db.tables tables ∧
      (erase shape faults pseudonym statements userId db).2.tables =
        setTable tables .accountRestrictions ((tables .accountRestrictions).filter
          fun row => shape.restrictedUser row != some userId) := by
  have htx := erase_ok h
  generalize (erase shape faults pseudonym statements userId db).2 = db' at htx
  obtain ⟨row, hrow, htx⟩ := orDatabase_bind_ok htx
  obtain rfl := Except.ok.inj hrow
  rw [hu] at htx
  dsimp only at htx
  cases hrun : runStatements shape faults pseudonym u.claimedHandle statements db.tables with
  | error e =>
    rw [hrun] at htx
    cases htx
  | ok tables =>
    rw [hrun] at htx
    obtain ⟨releaseReads, -, htx⟩ := orDatabase_bind_ok htx
    obtain ⟨newsReads, -, htx⟩ := orDatabase_bind_ok htx
    unfold orDatabase at htx
    split at htx
    · cases htx
    · obtain rfl := Except.ok.inj htx
      exact ⟨tables, runStatements_spec hrun, rfl⟩

end

/-! ## Forgotten -/

/-- In a table that keeps its `CHECK`, a statement finds each row with the handle in its column. -/
theorem hits_of_names {statement : EraseStatement} {handle v : String} {tables : HandleTables}
    {row : HandleRow} (hchecks : ChecksHold tables)
    (hlowered : ∀ t, statement = .deleteLowered t → checksLower t = true ∧ t ≠ .events)
    (hrow : row ∈ tables statement.column.1) (hv : row.cells statement.column.2 = some v)
    (hname : lower v = lower handle) :
    statement.hits handle statement.column.1 row = true := by
  cases statement with
  | pseudonymise =>
    simp only [EraseStatement.column] at hv
    simp [EraseStatement.hits, EraseStatement.column, hv, hname]
  | deleteFolded t c =>
    simp only [EraseStatement.column] at hv
    simp [EraseStatement.hits, EraseStatement.column, hv, hname]
  | deleteLowered t =>
    obtain ⟨hlower, hevents⟩ := hlowered t rfl
    simp only [EraseStatement.column] at hv hrow
    have hcell := hchecks t hlower hevents row hrow v hv
    simp only [EraseStatement.hits, EraseStatement.column, hv, decide_true, Bool.true_and,
      beq_iff_eq, Option.some.injEq]
    rw [hcell, hname]

/-- The lists of both deletions: the tables matched without folding keep their `CHECK`, and the
members of LFG posts are looked at. -/
structure ListChecked (statements : List EraseStatement) : Prop where
  lowered : ∀ t, .deleteLowered t ∈ statements → checksLower t = true ∧ t ≠ .events
  members : ∀ c, (.lfgMembers, c) ∉ missedColumns statements

theorem deleteStatements_checked : ListChecked deleteStatements where
  lowered := by
    intro t
    cases t <;> decide
  members := by
    intro c
    cases c <;> decide

theorem purgeStatements_checked : ListChecked purgeStatements where
  lowered := by
    intro t
    cases t <;> decide
  members := by
    intro c
    cases c <;> decide

/-- A listed column is missed, or a statement looks at it. -/
theorem missed_or_column {statements : List EraseStatement} {c : HandleTable × HandleColumn}
    (hc : c ∈ handleColumns) :
    c ∈ missedColumns statements ∨ ∃ st ∈ statements, st.column = c := by
  by_cases h : ∃ st ∈ statements, st.column = c
  · exact .inr h
  · exact .inl (List.mem_filter.2 ⟨hc, by simpa using h⟩)

section
variable {shape : RowShape} {pseudonym : String} {statements : List EraseStatement} {u : Account}
  {tables tables' : HandleTables}

theorem forgotten_of_onlyInErasedRows (hlist : ListChecked statements)
    (hchecks : ChecksHold tables)
    (hfresh : .pseudonymise ∈ statements → lower pseudonym ≠ lower u.claimedHandle)
    (hrun : RunSpec pseudonym u.claimedHandle statements tables tables')
    (honly : OnlyInErasedRows shape statements u tables) :
    Forgotten u.claimedHandle (setTable tables' .accountRestrictions
      ((tables' .accountRestrictions).filter fun row =>
        shape.restrictedUser row != some u.id)) := by
  intro table row hrow hnames
  obtain ⟨c, v, hc, hv, hname⟩ := hnames
  have hrow' : row ∈ tables' table ∧
      ¬ (table = .accountRestrictions ∧ shape.restrictedUser row = some u.id) := by
    simp only [setTable] at hrow
    split at hrow
    · rename_i htable
      subst htable
      simpa using hrow
    · rename_i htable
      exact ⟨hrow, fun h => htable h.1⟩
  obtain ⟨hkept, hown⟩ := hrow'
  rcases hrun.origin table row hkept with ⟨hmem, hhits⟩ | ⟨hp, rfl, hcell⟩
  · rcases @missed_or_column statements _ hc with hmissed | ⟨st, hst, hcol⟩
    · rcases honly _ hmissed row hmem v hv hname with ⟨st, hst, hhit⟩ | hrestricted
      · rw [hhits st hst] at hhit
        cases hhit
      · exact hown hrestricted
    · obtain ⟨htable, hcolumn⟩ := Prod.ext_iff.1 hcol
      dsimp only at htable hcolumn
      subst htable hcolumn
      have hhit := hits_of_names hchecks
        (fun t ht => hlist.lowered t (ht ▸ hst)) hmem hv hname
      rw [hhits st hst] at hhit
      cases hhit
  · have hevents : c = .claimedHandle := by
      revert hc
      cases c <;> decide
    subst hevents
    rw [hcell] at hv
    obtain rfl := Option.some.inj hv
    exact hfresh hp hname

/-- A row that only a missed column gives away stays. -/
theorem onlyInErasedRows_of_forgotten (hlist : ListChecked statements)
    (hrun : RunSpec pseudonym u.claimedHandle statements tables tables')
    (hforgotten : Forgotten u.claimedHandle (setTable tables' .accountRestrictions
      ((tables' .accountRestrictions).filter fun row =>
        shape.restrictedUser row != some u.id))) :
    OnlyInErasedRows shape statements u tables := by
  intro c hmissed row hrow v hv hname
  by_contra hstays
  have hhits : ∀ st ∈ statements, st.hits u.claimedHandle c.1 row = false := by
    intro st hst
    by_contra hhit
    exact hstays (.inl ⟨st, hst, Bool.not_eq_false _ ▸ hhit⟩)
  have hmembers : c.1 ≠ .lfgMembers := by
    intro hc
    obtain ⟨t, column⟩ := c
    dsimp only at hc
    subst hc
    exact hlist.members column hmissed
  have hkept : row ∈ tables' c.1 := hrun.kept c.1 hmembers row hrow hhits
  refine hforgotten c.1 row ?_ ⟨c.2, v, (List.mem_filter.1 hmissed).1, hv, hname⟩
  simp only [setTable]
  split
  · rename_i htable
    rw [← htable]
    refine List.mem_filter.2 ⟨hkept, ?_⟩
    by_contra hown
    exact hstays (.inr ⟨htable, by simpa using hown⟩)
  · exact hkept

end

section
variable {shape : RowShape} {faults : EraseFaults} {tombstone userId : Uuid} {db : AccountDb}
  {u : Account}

/-- A deletion that succeeds forgets the handle exactly when no row has it only in a column that
the deletion does not look at. -/
theorem erased_forgotten_iff (hchecks : ChecksHold db.tables)
    (hu : db.users.find? (·.id = userId) = some u)
    (hfresh : lower ("deleted-" ++ tombstone) ≠ lower u.claimedHandle) :
    ((deleteUser shape faults tombstone userId db).1 = .ok () →
      (Forgotten u.claimedHandle (deleteUser shape faults tombstone userId db).2.tables ↔
        OnlyInErasedRows shape deleteStatements u db.tables)) ∧
    ((purgeUser shape faults userId db).1 = .ok () →
      (Forgotten u.claimedHandle (purgeUser shape faults userId db).2.tables ↔
        OnlyInErasedRows shape purgeStatements u db.tables)) := by
  have hid : u.id = userId := by simpa using List.find?_some hu
  constructor
  · intro hok
    obtain ⟨tables, hrun, htables⟩ := erase_tables hu hok
    rw [deleteUser, htables, ← hid]
    exact ⟨onlyInErasedRows_of_forgotten deleteStatements_checked hrun,
      forgotten_of_onlyInErasedRows deleteStatements_checked hchecks (fun _ => hfresh) hrun⟩
  · intro hok
    obtain ⟨tables, hrun, htables⟩ := erase_tables hu hok
    have hkeeps : EraseStatement.pseudonymise ∉ purgeStatements := by decide
    rw [purgeUser, htables, ← hid]
    exact ⟨onlyInErasedRows_of_forgotten purgeStatements_checked hrun,
      forgotten_of_onlyInErasedRows purgeStatements_checked hchecks
        (fun h => absurd h hkeeps) hrun⟩

end

/-! ## A handle that outlives its account -/

example : missedColumns purgeStatements =
    [(.quarantinedEvents, .claimedHandle),
      (.entityRollupAgg, .claimedHandle),
      (.unknownTagSighting, .claimedHandle),
      (.shareMetadata, .ownerHandle),
      (.shareMetadata, .recipientHandle),
      (.shareReports, .reporterHandle),
      (.shareReports, .ownerHandle),
      (.shareReports, .recipientHandle),
      (.shareReports, .resolvedBy),
      (.publicProfileViewCounters, .profileHandle),
      (.lfgPosts, .removedBy),
      (.lfgReports, .resolvedBy),
      (.chatReports, .resolvedBy),
      (.parserSubmissions, .submitterHandle),
      (.accountRestrictions, .restrictedBy),
      (.newsPosts, .createdBy),
      (.roadmapChangelog, .publishedBy),
      (.parserHealthFinding, .acknowledgedBy)] := by decide

def daisy : Account := ⟨"u1", "Daisy", none, none, none, none, none, 0⟩

/-- An event of hers. -/
def claimedRow : HandleRow :=
  ⟨fun c => if c = .claimedHandle then some "daisy" else none, fun _ => none⟩

/-- A restriction that she has put on herself. -/
def selfRestriction : HandleRow :=
  ⟨fun c => if c = .restrictedBy then some "Daisy" else none, fun _ => none⟩

def restrictedShape : RowShape := ⟨fun _ => none, fun _ => some "u1", id⟩

def restrictedDb : AccountDb :=
  ⟨⟨[daisy], fun t =>
    if t = .events then [claimedRow] else if t = .accountRestrictions then [selfRestriction]
    else [], []⟩, [], []⟩

theorem restrictedDb_checks : ChecksHold restrictedDb.tables := by
  intro table hlower hevents row hrow v hv
  by_cases hrestricted : table = .accountRestrictions
  · subst hrestricted
    cases hlower
  · simp [restrictedDb, hevents, hrestricted] at hrow

/-- The event is covered, and the restriction goes with her account. -/
theorem erased_forgotten_restricted :
    Forgotten "Daisy" (deleteUser restrictedShape .none "t" "u1" restrictedDb).2.tables ∧
      Forgotten "Daisy" (purgeUser restrictedShape .none "u1" restrictedDb).2.tables := by
  obtain ⟨hdelete, hpurge⟩ := @erased_forgotten_iff restrictedShape .none "t" "u1" restrictedDb
    daisy restrictedDb_checks rfl (by decide)
  exact ⟨(hdelete rfl).2 (by decide), (hpurge rfl).2 (by decide)⟩

def plainShape : RowShape := ⟨fun _ => none, fun _ => none, id⟩

/-- The event is in quarantine. -/
def daisyDb : AccountDb :=
  ⟨⟨[daisy], fun t => if t = .quarantinedEvents then [claimedRow] else [], []⟩, [], []⟩

theorem claimedRow_names : claimedRow.Names .quarantinedEvents "Daisy" :=
  ⟨.claimedHandle, "daisy", by decide, rfl, by decide⟩

/-- Neither deletion looks at `quarantined_events`. -/
theorem handle_outlives_account :
    (¬ ∀ (shape : RowShape) (faults : EraseFaults) (tombstone userId : Uuid) (db : AccountDb)
      (u : Account), db.users.find? (·.id = userId) = some u →
      (deleteUser shape faults tombstone userId db).1 = .ok () →
      Forgotten u.claimedHandle (deleteUser shape faults tombstone userId db).2.tables) ∧
    ¬ ∀ (shape : RowShape) (faults : EraseFaults) (userId : Uuid) (db : AccountDb) (u : Account),
      db.users.find? (·.id = userId) = some u →
      (purgeUser shape faults userId db).1 = .ok () →
      Forgotten u.claimedHandle (purgeUser shape faults userId db).2.tables := by
  constructor
  · intro h
    exact h plainShape .none "t" "u1" daisyDb daisy rfl rfl .quarantinedEvents claimedRow
      List.mem_cons_self claimedRow_names
  · intro h
    exact h plainShape .none "u1" daisyDb daisy rfl rfl .quarantinedEvents claimedRow
      List.mem_cons_self claimedRow_names

end StarStats
