import StarStats.Server.HandleRenames
import Mathlib.Data.List.Induction

/-!
# What a rename moves

`updateColumns_ok`: the statements of the loop together rewrite every listed cell once.
`rename_ok` sums up the transaction, and `rename_moves_iff` says when a rename that succeeds has
moved one account's rows and only those: the unique indexes do not see every row that is already
filed under the new handle. The last part is about the renames of an account in their order: the
cooldown keeps them apart, and the last one makes its entry in the index.
-/

namespace StarStats

open Text (lower)

/-! ## One cell -/

theorem lower_respell (newHandle v : String) : lower (respell newHandle v) = lower newHandle := by
  unfold respell
  split <;> simp

/-- What the statements make of a cell is what a rename is for. -/
theorem renameCell_moved (oldHandle newHandle : String) (v : Option String) :
    CellMoved oldHandle newHandle v (renameCell oldHandle newHandle v) where
  held := by
    intro x hx hold
    subst hx
    simp only [renameCell, Option.map_some, if_pos hold, respell]
    split
    · exact .inr rfl
    · exact .inl rfl
  other := by
    intro hne
    cases v with
    | none => rfl
    | some x => simp only [renameCell, Option.map_some, if_neg (hne x rfl)]

/-- A rewritten cell has the new handle only where it had one of the two. -/
theorem lower_of_renameCell {oldHandle newHandle x : String} {v : Option String}
    (h : renameCell oldHandle newHandle v = some x) :
    (∃ w, v = some w ∧ lower w = lower oldHandle ∧ lower x = lower newHandle) ∨
      (v = some x ∧ lower x ≠ lower oldHandle) := by
  obtain ⟨w, rfl, hw⟩ := Option.map_eq_some_iff.1 h
  by_cases hold : lower w = lower oldHandle
  · rw [if_pos hold] at hw
    subst hw
    exact .inl ⟨w, rfl, hold, lower_respell newHandle w⟩
  · rw [if_neg hold] at hw
    subst hw
    exact .inr ⟨rfl, hold⟩

/-! ## The loop over the columns -/

/-- The row after the statements for the columns `cs` of its table. -/
def renameCells (oldHandle newHandle : String) (cs : List (HandleTable × HandleColumn))
    (table : HandleTable) (row : HandleRow) : HandleRow :=
  { row with cells := fun c =>
      if (table, c) ∈ cs then renameCell oldHandle newHandle (row.cells c) else row.cells c }

section
variable {faults : RenameFaults} {oldHandle newHandle : String}

theorem updateColumn_ok {tables tables' : HandleTables} {column : HandleTable × HandleColumn}
    (h : updateColumn oldHandle newHandle tables column = .ok tables') :
    tables' = setTable tables column.1
      ((tables column.1).map (renameRow oldHandle newHandle column.2)) := by
  simp only [updateColumn] at h
  split at h
  · cases h
  · split at h
    · cases h
    · exact (Except.ok.inj h).symm

/-- After a statement that succeeded the rest of the transaction runs. -/
theorem orFail_bind_ok {α β : Type} {fails : Bool} {result : Except HandleRenameError α}
    {rest : α → Except HandleRenameError β} {b : β} (h : (orFail fails result >>= rest) = .ok b) :
    ∃ a, result = .ok a ∧ rest a = .ok b := by
  unfold orFail at h
  split at h
  · cases h
  · cases hr : result with
    | error e =>
      rw [hr] at h
      cases h
    | ok a =>
      rw [hr] at h
      exact ⟨a, rfl, h⟩

/-- A statement with no failure of its own. -/
theorem orFail_false {α : Type} (result : Except HandleRenameError α) :
    orFail false result = result := rfl

/-- One more column, not yet rewritten. -/
theorem renameCells_cons {table : HandleTable} {column : HandleColumn}
    {cs : List (HandleTable × HandleColumn)} (hnew : (table, column) ∉ cs) (row : HandleRow) :
    renameCells oldHandle newHandle cs table (renameRow oldHandle newHandle column row) =
      renameCells oldHandle newHandle ((table, column) :: cs) table row := by
  simp only [renameCells, renameRow, HandleRow.mk.injEq, and_true]
  funext c
  by_cases hc : c = column
  · subst hc
    simp [hnew]
  · simp [hc]

theorem renameCells_other {table table' : HandleTable} {column : HandleColumn}
    {cs : List (HandleTable × HandleColumn)} (hne : table ≠ table') :
    renameCells oldHandle newHandle ((table', column) :: cs) table =
      renameCells oldHandle newHandle cs table := by
  funext row
  simp [renameCells, hne]

/-- The loop rewrites the cells of its columns, each once. -/
theorem updateColumns_ok : ∀ {cs : List (HandleTable × HandleColumn)}
    {tables tables' : HandleTables}, cs.Nodup →
    updateColumns faults newHandle oldHandle cs tables = .ok tables' →
    ∀ table, tables' table = (tables table).map (renameCells oldHandle newHandle cs table)
  | [], tables, tables', _, h, table => by
    cases h
    have hid : renameCells oldHandle newHandle [] table = id := by
      funext row
      simp [renameCells]
    rw [hid, List.map_id]
  | (t, c) :: cs, tables, tables', hnd, h, table => by
    obtain ⟨hnew, hnd'⟩ := List.nodup_cons.1 hnd
    obtain ⟨tables₁, h₁, h₂⟩ := orFail_bind_ok h
    have hset := updateColumn_ok h₁
    have ih := updateColumns_ok hnd' h₂ table
    rw [ih, hset]
    by_cases ht : table = t
    · subst ht
      simp only [setTable, ↓reduceIte, List.map_map]
      apply List.map_congr_left
      intro row _
      exact renameCells_cons hnew row
    · simp only [setTable, if_neg ht, renameCells_other ht]

theorem renameCells_moved (table : HandleTable) (row : HandleRow) :
    RowMoved table oldHandle newHandle row
      (renameCells oldHandle newHandle handleColumns table row) where
  others := rfl
  listed := by
    intro c hc
    simp only [renameCells, if_pos hc]
    exact renameCell_moved oldHandle newHandle (row.cells c)
  unlisted := by
    intro c hc
    simp only [renameCells, if_neg hc]

/-! ## Friendships -/

theorem mem_friendships {c : HandleColumn} :
    (HandleTable.friendships, c) ∈ handleColumns ↔ c = .handleA ∨ c = .handleB := by
  cases c <;> decide

theorem sortFriendships_ok {tables tables' : HandleTables}
    (h : sortFriendships newHandle tables = .ok tables') :
    tables' = setTable tables .friendships ((tables .friendships).map fun row =>
      if outOfOrder newHandle row then swapPair row else row) := by
  simp only [sortFriendships] at h
  split at h
  · cases h
  · exact (Except.ok.inj h).symm

theorem outOfOrder_iff {row : HandleRow} :
    outOfOrder newHandle row = true ↔ ∃ a b, row.cells .handleA = some a ∧
      row.cells .handleB = some b ∧ lower b < lower a ∧
      (lower a = lower newHandle ∨ lower b = lower newHandle) := by
  unfold outOfOrder
  split
  · rename_i a b ha hb
    simp [ha, hb]
  · rename_i h
    constructor
    · intro hf
      cases hf
    · rintro ⟨a, b, ha, hb, -⟩
      exact (h a b ha hb).elim

/-- A pair that is still out of order after the last statement does not name the new handle. -/
theorem pairSorted_sorted {row : HandleRow}
    (h : (∃ a, (row.cells .handleA = some a ∨ row.cells .handleB = some a) ∧
      lower a = lower newHandle) ∨ row.PairSorted) :
    (if outOfOrder newHandle row then swapPair row else row).PairSorted := by
  by_cases ho : outOfOrder newHandle row = true
  · rw [if_pos ho]
    obtain ⟨a, b, ha, hb, hlt, -⟩ := outOfOrder_iff.1 ho
    intro x y hx hy
    simp only [swapPair, hb, ha, Option.some.injEq] at hx hy
    subst hx hy
    exact le_of_lt hlt
  · rw [if_neg ho]
    rcases h with ⟨v, hv, hnew⟩ | hs
    · intro a b ha hb
      by_contra hgt
      refine ho (outOfOrder_iff.2 ⟨a, b, ha, hb, not_le.1 hgt, ?_⟩)
      rcases hv with hv | hv
      · rw [ha] at hv
        cases hv
        exact .inl hnew
      · rw [hb] at hv
        cases hv
        exact .inr hnew
    · exact hs

/-! ## The transaction -/

/-- The rows of a table after a rename that succeeded. -/
def renamedRow (oldHandle newHandle : String) (table : HandleTable) (row : HandleRow) : HandleRow :=
  let row := renameCells oldHandle newHandle handleColumns table row
  if table = .friendships ∧ outOfOrder newHandle row then swapPair row else row

theorem handleColumns_nodup : handleColumns.Nodup := by decide

theorem updateUser_ok {userId : Uuid} {now : Timestamp} {users users' : List Account}
    (h : updateUser userId newHandle now users = .ok users') :
    users' = users.map fun u => if u.id = userId then u.renamed newHandle now else u := by
  simp only [updateUser] at h
  split at h
  · exact (Except.ok.inj h).symm
  · cases h

/-- The two statements on the friendships and the loop, table by table. -/
theorem renamedRow_of_statements {tables tables₁ tables₂ : HandleTables}
    (hloop : updateColumns faults newHandle oldHandle handleColumns tables = .ok tables₁)
    (hsort : sortFriendships newHandle tables₁ = .ok tables₂) (table : HandleTable) :
    tables₂ table = (tables table).map (renamedRow oldHandle newHandle table) := by
  have hrows := updateColumns_ok handleColumns_nodup hloop table
  rw [sortFriendships_ok hsort]
  by_cases ht : table = .friendships
  · subst ht
    simp only [setTable, ↓reduceIte, hrows, List.map_map]
    apply List.map_congr_left
    intro row _
    simp [renamedRow]
  · simp only [setTable, if_neg ht, hrows]
    apply List.map_congr_left
    intro row _
    simp [renamedRow, ht]

/-- What the statements of a rename leave, when all succeed. -/
theorem renameTx_ok {userId id : Uuid} {now : Timestamp} {db db' : RenameDb} {r : HandleRename}
    (h : renameTx faults userId newHandle now id db = .ok (r, db')) :
    db'.users = db.users.map (fun u => if u.id = userId then u.renamed newHandle now else u) ∧
    ∀ table, db'.tables table =
      (db.tables table).map (renamedRow (heldHandle db.users userId) newHandle table) := by
  obtain ⟨row, hrow, h⟩ := orFail_bind_ok h
  obtain rfl := Except.ok.inj hrow
  split at h
  · cases h
  · rename_i u hu
    have hold : heldHandle db.users userId = u.claimedHandle := by
      simp [heldHandle, hu]
    dsimp only at h
    split at h
    · cases h
    · rw [← orFail_false (checkAvailable _ _ _ _ _ _)] at h
      obtain ⟨-, -, h⟩ := orFail_bind_ok h
      obtain ⟨users, husers, h⟩ := orFail_bind_ok h
      rw [← orFail_false (updateColumns _ _ _ _ _)] at h
      obtain ⟨tables₁, hloop, h⟩ := orFail_bind_ok h
      obtain ⟨tables₂, hsort, h⟩ := orFail_bind_ok h
      unfold orFail at h
      split at h
      · cases h
      · cases h
        refine ⟨updateUser_ok husers, fun table => ?_⟩
        rw [hold]
        exact renamedRow_of_statements hloop hsort table

/-- A rename that fails, at whatever statement, changes nothing. -/
theorem rename_error {userId id : Uuid} {now : Timestamp} {db : RenameDb} {e : HandleRenameError}
    (h : (rename faults userId newHandle now id db).1 = .error e) :
    (rename faults userId newHandle now id db).2 = db := by
  unfold rename at h ⊢
  split
  · rfl
  · rename_i r db' htx
    rw [htx] at h
    dsimp only at h ⊢
    split at h
    · rename_i hc
      rw [if_pos hc]
    · cases h

theorem rename_ok {userId id : Uuid} {now : Timestamp} {db : RenameDb} {r : HandleRename}
    (h : (rename faults userId newHandle now id db).1 = .ok r) :
    renameTx faults userId newHandle now id db =
      .ok (r, (rename faults userId newHandle now id db).2) := by
  unfold rename at h ⊢
  split at h
  · cases h
  · rename_i r' db' htx
    rw [htx]
    split at h
    · cases h
    · rename_i hc
      cases h
      rw [if_neg hc]

/-! ## Moved -/

section
variable {table : HandleTable} {row : HandleRow}

/-- A rewritten row that names the new handle had one of the two. -/
theorem names_of_renameCells
    (h : (renameCells oldHandle newHandle handleColumns table row).Names table newHandle) :
    row.Names table oldHandle ∨ row.Names table newHandle := by
  obtain ⟨c, x, hc, hx, hl⟩ := h
  simp only [renameCells, if_pos hc] at hx
  rcases lower_of_renameCell hx with ⟨w, hw, hold, -⟩ | ⟨hx, -⟩
  · exact .inl ⟨c, w, hc, hw, hold⟩
  · exact .inr ⟨c, x, hc, hx, hl⟩

/-- A row that does not name the old handle stays as it is. -/
theorem RowMoved.eq_of_not_names {row' : HandleRow}
    (h : RowMoved table oldHandle newHandle row row') (hn : ¬ row.Names table oldHandle) :
    row' = row := by
  have hcells : row'.cells = row.cells := by
    funext c
    by_cases hc : (table, c) ∈ handleColumns
    · exact (h.listed c hc).other fun x hx hold => hn ⟨c, x, hc, hx, hold⟩
    · exact h.unlisted c hc
  obtain ⟨cells, others⟩ := row
  obtain ⟨cells', others'⟩ := row'
  obtain rfl : cells' = cells := hcells
  obtain rfl : others' = others := h.others
  rfl

theorem outOfOrder.names (h : outOfOrder newHandle row = true) :
    row.Names .friendships newHandle := by
  obtain ⟨a, b, ha, hb, -, hl | hl⟩ := outOfOrder_iff.1 h
  · exact ⟨.handleA, a, mem_friendships.2 (.inl rfl), ha, hl⟩
  · exact ⟨.handleB, b, mem_friendships.2 (.inr rfl), hb, hl⟩

/-- The row is moved; where it changes places, it named the old handle. -/
theorem renamedRow_moved
    (hun : lower oldHandle = lower newHandle ∨ ¬ row.Names table newHandle) :
    RowMovedOrSwapped table oldHandle newHandle row (renamedRow oldHandle newHandle table row) := by
  refine ⟨_, renameCells_moved table row, ?_⟩
  unfold renamedRow
  dsimp only
  split
  · rename_i h
    obtain ⟨rfl, ho⟩ := h
    refine .inr ⟨rfl, ?_, rfl⟩
    rcases names_of_renameCells (outOfOrder.names ho) with hn | hn
    · exact hn
    · rcases hun with heq | hun
      · obtain ⟨c, v, hc, hv, hl⟩ := hn
        exact ⟨c, v, hc, hv, hl.trans heq.symm⟩
      · exact (hun hn).elim
  · exact .inl rfl

/-- Every cell of the row after the rename, up to the places of a pair. -/
theorem renamedRow_cells {c : HandleColumn} {v : String} (hc : (table, c) ∈ handleColumns)
    (h : (renamedRow oldHandle newHandle table row).cells c = some v) :
    ∃ c', (table, c') ∈ handleColumns ∧ renameCell oldHandle newHandle (row.cells c') = some v := by
  unfold renamedRow at h
  dsimp only at h
  split at h
  · rename_i ht
    obtain ⟨rfl, -⟩ := ht
    obtain rfl | rfl := mem_friendships.1 hc
    · refine ⟨.handleB, mem_friendships.2 (.inr rfl), ?_⟩
      simpa [swapPair, renameCells, mem_friendships] using h
    · refine ⟨.handleA, mem_friendships.2 (.inl rfl), ?_⟩
      simpa [swapPair, renameCells, mem_friendships] using h
  · refine ⟨c, hc, ?_⟩
    simpa [renameCells, hc] using h

theorem renamedRow_gone {c : HandleColumn} {v : String} (hc : (table, c) ∈ handleColumns)
    (h : (renamedRow oldHandle newHandle table row).cells c = some v)
    (hold : lower v = lower oldHandle) : v = newHandle ∨ v = lower newHandle := by
  obtain ⟨c', hc', hv⟩ := renamedRow_cells hc h
  rcases lower_of_renameCell hv with ⟨w, hw, hwold, -⟩ | ⟨-, hne⟩
  · rcases (renameCell_moved oldHandle newHandle (row.cells c')).held w hw hwold with hx | hx
    · rw [hv] at hx
      exact .inl (Option.some.inj hx)
    · rw [hv] at hx
      exact .inr (Option.some.inj hx)
  · exact (hne hold).elim

/-- A pair that named the old handle is put in order; any other was in order before. -/
theorem renamedRow_sorted (h : ¬ row.Names .friendships oldHandle → row.PairSorted) :
    (renamedRow oldHandle newHandle .friendships row).PairSorted := by
  have hrow : renamedRow oldHandle newHandle .friendships row =
      if outOfOrder newHandle (renameCells oldHandle newHandle handleColumns .friendships row) then
        swapPair (renameCells oldHandle newHandle handleColumns .friendships row)
      else renameCells oldHandle newHandle handleColumns .friendships row := by
    simp [renamedRow]
  rw [hrow]
  apply pairSorted_sorted
  by_cases hn : row.Names .friendships oldHandle
  · obtain ⟨c, v, hc, hv, hold⟩ := hn
    have hcell : (renameCells oldHandle newHandle handleColumns .friendships row).cells c =
        some (respell newHandle v) := by
      simp only [renameCells, if_pos hc, hv, renameCell, Option.map_some, if_pos hold]
    refine .inl ⟨_, ?_, lower_respell newHandle v⟩
    obtain rfl | rfl := mem_friendships.1 hc
    · exact .inl hcell
    · exact .inr hcell
  · right
    rw [(renameCells_moved .friendships row).eq_of_not_names hn]
    exact h hn

end

/-- The pairs that do not name the old handle are in order. -/
def OtherPairsSorted (oldHandle : String) (tables : HandleTables) : Prop :=
  ∀ row ∈ tables .friendships, ¬ row.Names .friendships oldHandle → row.PairSorted

section
variable {userId id : Uuid} {now : Timestamp} {db db' : RenameDb} {r : HandleRename}

theorem Moved.otherPairsSorted (h : Moved userId oldHandle newHandle db db') :
    OtherPairsSorted oldHandle db.tables := by
  intro row hrow hn
  obtain ⟨i, hi, rfl⟩ := List.mem_iff_getElem.1 hrow
  have hrows := h.rows .friendships
  have hi' : i < (db'.tables .friendships).length := hrows.length_eq ▸ hi
  obtain ⟨row₁, hmoved, hrow' | ⟨-, hnames, -⟩⟩ := hrows.get hi hi'
  · have heq := hmoved.eq_of_not_names hn
    rw [heq] at hrow'
    simp only [List.get_eq_getElem] at hrow' hmoved
    rw [← hrow']
    exact h.sorted _ (List.getElem_mem hi')
  · exact (hn hnames).elim

/-- Where no one else's rows are under the new handle, the statements move what they should. -/
theorem renameTx_moved (h : renameTx faults userId newHandle now id db = .ok (r, db'))
    (hun : Unmerged (heldHandle db.users userId) newHandle db.tables)
    (hsorted : OtherPairsSorted (heldHandle db.users userId) db.tables) :
    Moved userId (heldHandle db.users userId) newHandle db db' := by
  obtain ⟨husers, htables⟩ := renameTx_ok h
  refine ⟨⟨?_, ?_⟩, ?_, ?_, ?_, hun⟩
  · rw [husers, List.map_map]
    apply List.map_congr_left
    intro u _
    by_cases hu : u.id = userId
    · simp [hu, Account.renamed]
    · simp [hu]
  · intro u hu
    rw [husers] at hu
    obtain ⟨u₀, hu₀, rfl⟩ := List.mem_map.1 hu
    by_cases hid : u₀.id = userId
    · simp [hid, Account.renamed]
    · simp [hid, hu₀]
  · intro table
    rw [htables, List.forall₂_map_right_iff]
    apply List.forall₂_same.2
    intro row hrow
    exact renamedRow_moved (hun.imp_right fun h => h table row hrow)
  · intro table row hrow c v hc hv hold
    rw [htables] at hrow
    obtain ⟨row₀, -, rfl⟩ := List.mem_map.1 hrow
    exact renamedRow_gone hc hv hold
  · intro row hrow
    rw [htables] at hrow
    obtain ⟨row₀, hrow₀, rfl⟩ := List.mem_map.1 hrow
    exact renamedRow_sorted (hsorted row₀ hrow₀)

end

end

/-- **What a rename moves.** A rename that fails changes nothing. One that succeeds has moved one
account's rows and only those exactly when no listed row was under the new handle before (or only
the case changes) and the pairs that do not name the old handle were in order. -/
theorem rename_moves_iff (faults : RenameFaults) (userId : Uuid) (newHandle : String)
    (now : Timestamp) (id : Uuid) (db : RenameDb) :
    (∀ e, (rename faults userId newHandle now id db).1 = .error e →
      (rename faults userId newHandle now id db).2 = db) ∧
    (∀ r, (rename faults userId newHandle now id db).1 = .ok r →
      (Moved userId (heldHandle db.users userId) newHandle db
          (rename faults userId newHandle now id db).2 ↔
        Unmerged (heldHandle db.users userId) newHandle db.tables ∧
          OtherPairsSorted (heldHandle db.users userId) db.tables)) := by
  constructor
  · intro e he
    exact rename_error he
  · intro r hr
    constructor
    · intro h
      exact ⟨h.unmerged, h.otherPairsSorted⟩
    · intro ⟨hun, hsorted⟩
      exact renameTx_moved (rename_ok hr) hun hsorted

/-! A deleted account left an event under `bob`. -/

def aliceAccount : Account := ⟨"u1", "alice", none, none, none, none, none, 0⟩

def eventRow (handle key content : String) : HandleRow where
  cells
    | .claimedHandle => some handle
    | _ => none
  others
    | .idempotencyKey => some key
    | .eventType => some "player_death"
    | .eventContent => some content
    | _ => none

def orphanedDb : RenameDb where
  users := [aliceAccount]
  tables
    | .events => [eventRow "bob" "k1" "a", eventRow "alice" "k2" "b"]
    | _ => []
  renames := []

/-- Alice becomes bob and the two people's events are one. -/
theorem rename_merges_orphaned_events :
    (∃ r, (rename .none "u1" "bob" 0 "r1" orphanedDb).1 = .ok r) ∧
      ¬ Moved "u1" "alice" "bob" orphanedDb (rename .none "u1" "bob" 0 "r1" orphanedDb).2 := by
  constructor
  · have hok : (rename .none "u1" "bob" 0 "r1" orphanedDb).1.toOption.isSome = true := by
      decide +kernel
    cases h : (rename .none "u1" "bob" 0 "r1" orphanedDb).1 with
    | error e =>
      rw [h] at hok
      cases hok
    | ok r => exact ⟨r, rfl⟩
  · intro h
    rcases h.unmerged with hcase | hun
    · exact absurd hcase (by decide)
    · exact hun .events (eventRow "bob" "k1" "a") List.mem_cons_self
        ⟨.claimedHandle, "bob", by decide, rfl, rfl⟩

/-! ## An account's renames in order -/

/-- The cooldown: a rename that is not refused is that much later than the last. -/
theorem cooldown_of_evaluate {u : Account} {newHandle : String} {now last : Timestamp}
    {kind : RenameKind} (h : evaluateRename u.renameSubject newHandle now = .ok kind)
    (hlast : u.lastHandleChangeAt = some last) : last + renameCooldown ≤ now := by
  simp only [evaluateRename, Account.renameSubject, hlast] at h
  split at h
  · cases h
  · split at h
    · cases h
    · split at h
      · cases h
      · rename_i hnow
        exact not_lt.1 hnow

/-- Renames of one account are a cooldown apart. -/
def Spaced (renames : List HandleRename) : Prop :=
  renames.Pairwise fun r r' => r.userId = r'.userId → r.renamedAt + renameCooldown ≤ r'.renamedAt

/-- Renames of one account at one time are the same. -/
theorem Spaced.eq_of_renamedAt_eq {renames : List HandleRename} (hspaced : Spaced renames)
    {r r' : HandleRename} (hr : r ∈ renames) (hr' : r' ∈ renames) (hu : r.userId = r'.userId)
    (ht : r.renamedAt = r'.renamedAt) : r = r' := by
  have hpos : (0 : Int) < renameCooldown := by decide
  obtain ⟨i, hi, rfl⟩ := List.mem_iff_getElem.1 hr
  obtain ⟨j, hj, rfl⟩ := List.mem_iff_getElem.1 hr'
  rw [Spaced, List.pairwise_iff_getElem] at hspaced
  rcases lt_trichotomy i j with hij | rfl | hij
  · have hle := hspaced i j hi hj hij hu
    rw [ht] at hle
    exact absurd hle (Int.not_le.2 (Int.lt_add_of_pos_right _ hpos))
  · rfl
  · have hle := hspaced j i hj hi hij hu.symm
    rw [ht] at hle
    exact absurd hle (Int.not_le.2 (Int.lt_add_of_pos_right _ hpos))

/-! ## The entry in the index -/

/-- The account's entry is the one that the rename made. -/
def HandleIndex.EntryOf (index : HandleIndex) (r : HandleRename) : Prop :=
  ∃ acct, index r.userId = some acct ∧ acct.currentHandle = r.newHandle ∧
    acct.lastRenamedAt = r.renamedAt

theorem HandleIndex.entryOf_apply (index : HandleIndex) (r : HandleRename) :
    (index.apply r).EntryOf r := by
  refine ⟨_, if_pos rfl, rfl, rfl⟩

theorem HandleIndex.EntryOf.apply_other {index : HandleIndex} {r x : HandleRename}
    (h : index.EntryOf r) (hne : x.userId ≠ r.userId) : (index.apply x).EntryOf r := by
  obtain ⟨acct, hget, hentry⟩ := h
  refine ⟨acct, ?_, hentry⟩
  rw [← hget]
  exact if_neg hne.symm

/-- Of renames in order the account's last one makes the entry. -/
theorem HandleIndex.entryOf_foldl {index : HandleIndex} {r : HandleRename}
    (l : List HandleRename) (hr : r ∈ l) (hsorted : l.Pairwise (·.renamedAt ≤ ·.renamedAt))
    (hlast : ∀ x ∈ l, x.userId = r.userId → r.renamedAt ≤ x.renamedAt → x = r) :
    (l.foldl apply index).EntryOf r := by
  induction l using List.reverseRecOn with
  | nil => cases hr
  | append_singleton l x ih =>
    rw [List.foldl_append]
    obtain ⟨hl, -, hx⟩ := List.pairwise_append.1 hsorted
    by_cases hu : x.userId = r.userId
    · have hle : r.renamedAt ≤ x.renamedAt := by
        rcases List.mem_append.1 hr with hr | hr
        · exact hx r hr x List.mem_cons_self
        · rw [List.mem_singleton.1 hr]
      obtain rfl := hlast x (by simp) hu hle
      exact entryOf_apply _ x
    · have hr' : r ∈ l := by
        rcases List.mem_append.1 hr with hr | hr
        · exact hr
        · exact absurd (congrArg HandleRename.userId (List.mem_singleton.1 hr).symm) hu
      have hentry := ih hr' hl fun y hy => hlast y (List.mem_append_left _ hy)
      exact hentry.apply_other hu

/-- Renames of other accounts leave an account's entry alone. -/
theorem HandleIndex.foldl_apply_of_forall_ne {userId : Uuid} :
    ∀ {l : List HandleRename} {index : HandleIndex},
      (∀ r ∈ l, r.userId ≠ userId) → (l.foldl HandleIndex.apply index) userId = index userId
  | [], _, _ => rfl
  | r :: l, index, h => by
    rw [List.foldl_cons, foldl_apply_of_forall_ne fun x hx => h x (.tail _ hx)]
    exact if_neg (h r List.mem_cons_self).symm

theorem recentRenames_sorted (since : Timestamp) (renames : List HandleRename) :
    (recentRenames since renames).Pairwise (·.renamedAt ≤ ·.renamedAt) := by
  have htotal : Std.Total fun a b : HandleRename => a.renamedAt ≤ b.renamedAt :=
    ⟨fun a b => le_total a.renamedAt b.renamedAt⟩
  have htrans : IsTrans HandleRename fun a b => a.renamedAt ≤ b.renamedAt :=
    ⟨fun _ _ _ => le_trans⟩
  exact List.pairwise_insertionSort _ _

theorem mem_recentRenames {since : Timestamp} {renames : List HandleRename} {r : HandleRename} :
    r ∈ recentRenames since renames ↔ r ∈ renames ∧ since ≤ r.renamedAt := by
  simp [recentRenames]

end StarStats
