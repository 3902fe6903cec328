import StarStats.Server.HandleRenames
import StarStats.Server.Invites

/-!
# Deleting an account (`users.rs` `delete_user`, `purge_user`; `social.rs` `delete_social_rows_for`)

Each is one transaction: it reads the handle, runs its list of statements on the tables that are
keyed by the handle, and deletes the user's row. `delete_user` keeps the events, under a pseudonym
and blanked; `purge_user` deletes them. The tables and their columns are those of the renames. Of
the tables that hang on the user's id only `account_restrictions` has a handle column; the members
of a deleted LFG post go with the post.

A transaction that fails leaves nothing.
-/

namespace StarStats

open Text (lower)

/-! ## Statements -/

inductive EraseStatement where
  /-- `UPDATE events SET claimed_handle = $1, raw_line = '', payload = '{}'`. -/
  | pseudonymise
  /-- `DELETE FROM table WHERE lower(column) = lower($1)`. -/
  | deleteFolded (table : HandleTable) (column : HandleColumn)
  /-- `DELETE FROM table WHERE claimed_handle = lower($1)`. -/
  | deleteLowered (table : HandleTable)
  deriving DecidableEq

/-- The pairs of `delete_social_rows_for`. -/
def socialColumns : List (HandleTable × HandleColumn) :=
  [(.friendRequests, .requesterHandle),
    (.friendRequests, .recipientHandle),
    (.friendships, .handleA),
    (.friendships, .handleB),
    (.userBlocks, .blockerHandle),
    (.userBlocks, .blockedHandle),
    (.profileSalutes, .saluterHandle),
    (.profileSalutes, .targetHandle),
    (.lfgPosts, .hostHandle),
    (.lfgMembers, .memberHandle),
    (.lfgReports, .reporterHandle),
    (.lfgReports, .hostHandle),
    (.crewHistory, .handle),
    (.crewHistory, .otherHandle),
    (.crewCommends, .giverHandle),
    (.crewCommends, .recipientHandle),
    (.chatReports, .reporterHandle),
    (.chatReports, .reportedHandle),
    (.userMutes, .muterHandle),
    (.userMutes, .mutedHandle),
    (.notifications, .recipientHandle),
    (.notifications, .actorHandle)]

def deleteSocialRowsFor : List EraseStatement :=
  socialColumns.map fun c => .deleteFolded c.1 c.2

/-- The statements of `delete_user` that take the handle. -/
def deleteStatements : List EraseStatement :=
  [.pseudonymise, .deleteLowered .contractRuns, .deleteLowered .statRollupState] ++
    deleteSocialRowsFor

/-- The derived tables of `purge_user`. -/
def purgedTables : List HandleTable :=
  [.contractRuns, .statRollupState, .statEventCounts, .sessionSummary, .characterRecords]

/-- The statements of `purge_user` that take the handle. -/
def purgeStatements : List EraseStatement :=
  .deleteFolded .events .claimedHandle :: purgedTables.map .deleteLowered ++ deleteSocialRowsFor

/-- What the database reads of a row beside the columns of the unique indexes. -/
structure RowShape where
  /-- `lfg_posts.id`. -/
  postId : HandleRow → Option String
  /-- `account_restrictions.user_id`. -/
  restrictedUser : HandleRow → Option Uuid
  /-- What `events_content_uq` sees of an event once its line and payload are blank. -/
  blank : Option String → Option String

/-- The statement finds the row. -/
def EraseStatement.hits (handle : String) (table : HandleTable) (row : HandleRow) :
    EraseStatement → Bool
  | .pseudonymise =>
    table = .events && (row.cells .claimedHandle).any (lower · == lower handle)
  | .deleteFolded t c => table = t && (row.cells c).any (lower · == lower handle)
  | .deleteLowered t => table = t && row.cells .claimedHandle == some (lower handle)

section
variable (shape : RowShape) (pseudonym handle : String)

def pseudonymiseRow (row : HandleRow) : HandleRow where
  cells := fun c => if c = .claimedHandle then some pseudonym else row.cells c
  others := fun c => if c = .eventContent then shape.blank (row.others c) else row.others c

/-- The `UPDATE events`, under its `CHECK` and its unique indexes. -/
def pseudonymiseEvents (tables : HandleTables) : Except UserError HandleTables :=
  let rows := tables .events
  let hit := fun row => EraseStatement.pseudonymise.hits handle .events row
  let rows' := rows.map fun row => if hit row then pseudonymiseRow shape pseudonym row else row
  if rows.any hit && (pseudonym != lower pseudonym || !uniqueHolds .events rows') then
    .error .database
  else .ok (setTable tables .events rows')

/-- `ON DELETE CASCADE` of `lfg_members.post_id`. -/
def cascadeMembers (deleted : List HandleRow) (tables : HandleTables) : HandleTables :=
  setTable tables .lfgMembers <| (tables .lfgMembers).filter fun member =>
    !deleted.any fun post => member.others .postId == shape.postId post

/-- A `DELETE` from one of the tables. -/
def deleteRows (statement : EraseStatement) (table : HandleTable) (tables : HandleTables) :
    HandleTables :=
  let hit := fun row => statement.hits handle table row
  let deleted := (tables table).filter hit
  let tables := setTable tables table ((tables table).filter fun row => !hit row)
  if table = .lfgPosts then cascadeMembers shape deleted tables else tables

def EraseStatement.run (tables : HandleTables) : EraseStatement → Except UserError HandleTables
  | .pseudonymise => pseudonymiseEvents shape pseudonym handle tables
  | .deleteFolded t c => .ok (deleteRows shape handle (.deleteFolded t c) t tables)
  | .deleteLowered t => .ok (deleteRows shape handle (.deleteLowered t) t tables)

end

/-! ## The transaction -/

structure AccountDb extends RenameDb where
  /-- The user of each row of `release_reads`, and of `news_reads`. -/
  releaseReads : List Uuid
  newsReads : List Uuid

/-- The statements that fail for a reason of their own, a lost connection say. -/
structure EraseFaults where
  select : Bool
  statement : EraseStatement → Bool
  releaseReads : Bool
  newsReads : Bool
  deleteUser : Bool
  commit : Bool

def EraseFaults.none : EraseFaults := ⟨false, fun _ => false, false, false, false, false⟩

def orDatabase {α : Type} (fails : Bool) (result : Except UserError α) : Except UserError α :=
  if fails then .error .database else result

section
variable (shape : RowShape) (faults : EraseFaults) (pseudonym : String)

def runStatements (handle : String) : List EraseStatement → HandleTables →
    Except UserError HandleTables
  | [], tables => .ok tables
  | statement :: rest, tables => do
    let tables ← orDatabase (faults.statement statement)
      (statement.run shape pseudonym handle tables)
    runStatements handle rest tables

/-- `DELETE FROM users`, with what cascades from it. -/
def deleteUserRow (userId : Uuid) (db : AccountDb) : AccountDb :=
  { db with
    users := db.users.filter (·.id ≠ userId)
    tables := setTable db.tables .accountRestrictions <|
      (db.tables .accountRestrictions).filter fun row => shape.restrictedUser row != some userId
    renames := db.renames.filter (·.userId ≠ userId) }

/-- The statements of a deletion on the transaction's own copy. -/
def eraseTx (statements : List EraseStatement) (userId : Uuid) (db : AccountDb) :
    Except UserError AccountDb := do
  let row ← orDatabase faults.select (.ok (db.users.find? (·.id = userId)))
  let tables ← match row with
    | none => .ok db.tables
    | some u => runStatements shape faults pseudonym u.claimedHandle statements db.tables
  let releaseReads ← orDatabase faults.releaseReads (.ok (db.releaseReads.filter (· ≠ userId)))
  let newsReads ← orDatabase faults.newsReads (.ok (db.newsReads.filter (· ≠ userId)))
  orDatabase faults.deleteUser
    (.ok (deleteUserRow shape userId ⟨⟨db.users, tables, db.renames⟩, releaseReads, newsReads⟩))

/-- Only a commit changes the database. -/
def erase (statements : List EraseStatement) (userId : Uuid) (db : AccountDb) :
    Except UserError Unit × AccountDb :=
  match eraseTx shape faults pseudonym statements userId db with
  | .error e => (.error e, db)
  | .ok db' => if faults.commit then (.error .database, db) else (.ok (), db')

/-- `delete_user`; `tombstone` is the fresh UUID in the pseudonym. -/
def deleteUser (tombstone userId : Uuid) (db : AccountDb) : Except UserError Unit × AccountDb :=
  erase shape faults ("deleted-" ++ tombstone) deleteStatements userId db

/-- `purge_user`. -/
def purgeUser (userId : Uuid) (db : AccountDb) : Except UserError Unit × AccountDb :=
  erase shape faults "" purgeStatements userId db

end

/-! ## What a deletion is for -/

/-- No row of a listed column names the handle, in any case. -/
def Forgotten (handle : String) (tables : HandleTables) : Prop :=
  ∀ table, ∀ row ∈ tables table, ¬ row.Names table handle

/-- `CHECK (claimed_handle = lower(claimed_handle))`, where the constraint holds of old rows too. -/
def ChecksHold (tables : HandleTables) : Prop :=
  ∀ table, checksLower table = true → table ≠ .events → ∀ row ∈ tables table,
    ∀ v, row.cells .claimedHandle = some v → v = lower v

/-- The column that the statement takes the handle from. -/
def EraseStatement.column : EraseStatement → HandleTable × HandleColumn
  | .pseudonymise => (.events, .claimedHandle)
  | .deleteFolded t c => (t, c)
  | .deleteLowered t => (t, .claimedHandle)

/-- The listed columns that no statement looks at. -/
def missedColumns (statements : List EraseStatement) : List (HandleTable × HandleColumn) :=
  handleColumns.filter fun c => statements.all fun statement => statement.column ≠ c

/-- A row with the handle in a missed column goes all the same: through another of its columns, or
with the user's row. -/
def OnlyInErasedRows (shape : RowShape) (statements : List EraseStatement) (u : Account)
    (tables : HandleTables) : Prop :=
  ∀ c ∈ missedColumns statements, ∀ row ∈ tables c.1, ∀ v, row.cells c.2 = some v →
    lower v = lower u.claimedHandle →
    (∃ statement ∈ statements, statement.hits u.claimedHandle c.1 row = true) ∨
      c.1 = .accountRestrictions ∧ shape.restrictedUser row = some u.id

instance (shape : RowShape) (statements : List EraseStatement) (u : Account)
    (tables : HandleTables) : Decidable (OnlyInErasedRows shape statements u tables) :=
  inferInstanceAs (Decidable (∀ c ∈ missedColumns statements, ∀ row ∈ tables c.1,
    ∀ v ∈ row.cells c.2, _ → _ ∨ _))

end StarStats
