import StarStats.Server.Auth
import StarStats.Server.Sharing
import Mathlib.Data.List.Sort
import Mathlib.Data.String.Basic

/-!
# Handle renames (`starstats-server/src/handle_renames.rs`, `users.rs`, migrations)

The rules of a rename (`evaluate`), the index of renamed accounts (`HandleIndex.record`,
`HandleIndex.replaceAll`) and the store's `rename`: one transaction that checks the new handle,
rewrites the user's row and then every handle column of the other tables, statement by statement,
under the tables' unique indexes. A transaction that fails leaves nothing. Handles are compared
and folded as ASCII.
-/

namespace StarStats

open Text (lower)

/-- A whole number of days. -/
def days (n : Int) : Int := n * 86400 * 1000000

def renameCooldown : Int := days 30
def reservation : Int := days 90

/-! ## The rules -/

structure RenameSubject where
  currentHandle : String
  rsiVerified : Bool
  lastHandleChangeAt : Option Timestamp

inductive RenameKind where
  | free
  | standard
  deriving DecidableEq

inductive RenameRefusal where
  | invalidHandle
  | unchanged
  | cooldown («until» : Timestamp)
  | taken
  | reserved
  deriving DecidableEq

/-- `evaluate`. -/
def evaluateRename (subject : RenameSubject) (newHandle : String) (now : Timestamp) :
    Except RenameRefusal RenameKind :=
  if !validateHandle newHandle then .error .invalidHandle
  else if subject.currentHandle = newHandle then .error .unchanged
  else
    match subject.lastHandleChangeAt with
    | none => if subject.rsiVerified then .ok .standard else .ok .free
    | some last =>
      if now < last + renameCooldown then .error (.cooldown (last + renameCooldown))
      else .ok .standard

/-- A row of `handle_renames`. -/
structure HandleRename where
  id : Uuid
  userId : Uuid
  oldHandle : String
  newHandle : String
  wasVerified : Bool
  freeChange : Bool
  renamedAt : Timestamp
  reservedUntil : Timestamp
  spicedbMovedAt : Option Timestamp
  deriving DecidableEq

inductive HandleRenameError where
  | refused (r : RenameRefusal)
  | userNotFound
  | database
  deriving DecidableEq

/-! ## The index -/

namespace HandleIndex

/-- `apply`. -/
def apply (index : HandleIndex) (r : HandleRename) : HandleIndex := fun userId =>
  if userId = r.userId then
    let previous := ((index userId).map (·.previousHandles)).getD []
    some
      { currentHandle := r.newHandle
        previousHandles := r.oldHandle :: previous.filter fun h =>
          !Text.eqIgnoreAsciiCase h r.oldHandle && !Text.eqIgnoreAsciiCase h r.newHandle
        lastRenamedAt := r.renamedAt }
  else index userId

def empty : HandleIndex := fun _ => none

/-- `record`. -/
def record (index : HandleIndex) (r : HandleRename) : HandleIndex := index.apply r

/-- `replace_all`. -/
def replaceAll (renames : List HandleRename) : HandleIndex := renames.foldl apply empty

end HandleIndex

/-- `recent`: the renames at or after `since`, oldest first. -/
def recentRenames (since : Timestamp) (renames : List HandleRename) : List HandleRename :=
  (renames.filter (since ≤ ·.renamedAt)).insertionSort (·.renamedAt ≤ ·.renamedAt)

/-! ## Availability -/

/-- What a rename reads and writes of a row of `users`. -/
structure Account where
  id : Uuid
  claimedHandle : String
  rsiVerifiedAt : Option Timestamp
  rsiVerifyCode : Option String
  rsiVerifyExpiresAt : Option Timestamp
  lastHandleChangeAt : Option Timestamp
  chatLocalpart : Option String
  updatedAt : Timestamp
  deriving DecidableEq

/-- Another account holds the handle. -/
def handleTaken (users : List Account) (userId : Uuid) (handle : String) : Bool :=
  users.any fun u => lower u.claimedHandle == lower handle && u.id != userId

/-- Another account renamed away from the handle and still holds it. -/
def handleReserved (renames : List HandleRename) (userId : Uuid) (handle : String)
    (now : Timestamp) : Bool :=
  renames.any fun r => lower r.oldHandle == lower handle && decide (now < r.reservedUntil) &&
    r.userId != userId

/-- The condition of `users.create`: whoever renamed away, the handle is held. -/
def handleHeld (renames : List HandleRename) (handle : String) (now : Timestamp) : Bool :=
  renames.any fun r => lower r.oldHandle == lower handle && decide (now < r.reservedUntil)

namespace Account

def renameSubject (u : Account) : RenameSubject :=
  ⟨u.claimedHandle, u.rsiVerifiedAt.isSome, u.lastHandleChangeAt⟩

/-- The user's row after the `UPDATE users`. -/
def renamed (u : Account) (newHandle : String) (now : Timestamp) : Account :=
  { u with
    claimedHandle := newHandle
    rsiVerifiedAt := none
    rsiVerifyCode := none
    rsiVerifyExpiresAt := none
    lastHandleChangeAt := some now
    chatLocalpart := some (u.chatLocalpart.getD (lower u.claimedHandle))
    updatedAt := now }

/-- The row that the rename inserts into `handle_renames`. -/
def renameRecord (u : Account) (id : Uuid) (newHandle : String) (kind : RenameKind)
    (now : Timestamp) : HandleRename where
  id := id
  userId := u.id
  oldHandle := u.claimedHandle
  newHandle := newHandle
  wasVerified := u.rsiVerifiedAt.isSome
  freeChange := kind = .free
  renamedAt := now
  reservedUntil := now + reservation
  spicedbMovedAt := none

end Account

/-! ## Handle columns -/

inductive HandleTable where
  | events | quarantinedEvents | statEventCounts | entityRollupAgg | sessionSummary
  | characterRecords | statRollupState | contractRuns | unknownTagSighting | shareMetadata
  | shareReports | publicProfileViewCounters | friendRequests | friendships | userBlocks | userMutes
  | notifications | profileSalutes | lfgPosts | lfgMembers | lfgReports | crewHistory | crewCommends
  | chatReports | parserSubmissions | accountRestrictions | newsPosts | roadmapChangelog
  | parserHealthFinding
  deriving DecidableEq

inductive HandleColumn where
  | claimedHandle | ownerHandle | recipientHandle | reporterHandle | resolvedBy | profileHandle
  | requesterHandle | handleA | handleB | blockerHandle | blockedHandle | muterHandle | mutedHandle
  | actorHandle | saluterHandle | targetHandle | hostHandle | removedBy | memberHandle | handle
  | otherHandle | giverHandle | reportedHandle | submitterHandle | restrictedBy | createdBy
  | publishedBy | acknowledgedBy
  deriving DecidableEq

/-- `HANDLE_COLUMNS`. -/
def handleColumns : List (HandleTable × HandleColumn) :=
  [(.events, .claimedHandle),
    (.quarantinedEvents, .claimedHandle),
    (.statEventCounts, .claimedHandle),
    (.entityRollupAgg, .claimedHandle),
    (.sessionSummary, .claimedHandle),
    (.characterRecords, .claimedHandle),
    (.statRollupState, .claimedHandle),
    (.contractRuns, .claimedHandle),
    (.unknownTagSighting, .claimedHandle),
    (.shareMetadata, .ownerHandle),
    (.shareMetadata, .recipientHandle),
    (.shareReports, .reporterHandle),
    (.shareReports, .ownerHandle),
    (.shareReports, .recipientHandle),
    (.shareReports, .resolvedBy),
    (.publicProfileViewCounters, .profileHandle),
    (.friendRequests, .requesterHandle),
    (.friendRequests, .recipientHandle),
    (.friendships, .handleA),
    (.friendships, .handleB),
    (.userBlocks, .blockerHandle),
    (.userBlocks, .blockedHandle),
    (.userMutes, .muterHandle),
    (.userMutes, .mutedHandle),
    (.notifications, .recipientHandle),
    (.notifications, .actorHandle),
    (.profileSalutes, .saluterHandle),
    (.profileSalutes, .targetHandle),
    (.lfgPosts, .hostHandle),
    (.lfgPosts, .removedBy),
    (.lfgMembers, .memberHandle),
    (.lfgReports, .reporterHandle),
    (.lfgReports, .hostHandle),
    (.lfgReports, .resolvedBy),
    (.crewHistory, .handle),
    (.crewHistory, .otherHandle),
    (.crewCommends, .giverHandle),
    (.crewCommends, .recipientHandle),
    (.chatReports, .reporterHandle),
    (.chatReports, .reportedHandle),
    (.chatReports, .resolvedBy),
    (.parserSubmissions, .submitterHandle),
    (.accountRestrictions, .restrictedBy),
    (.newsPosts, .createdBy),
    (.roadmapChangelog, .publishedBy),
    (.parserHealthFinding, .acknowledgedBy)]

/-- The other columns of the unique indexes; `rest` is all that is in none. -/
inductive OtherColumn where
  | idempotencyKey | eventType | eventContent | entityKind | entityId | sessionId | shellTag | day
  | source | status | postId | rest
  deriving DecidableEq

structure HandleRow where
  cells : HandleColumn → Option String
  others : OtherColumn → Option String

/-! ## Constraints -/

/-- A unique index with a handle column in it. -/
structure UniqueIndex where
  table : HandleTable
  /-- The handle columns, and whether the index folds them. -/
  handles : List (HandleColumn × Bool)
  others : List OtherColumn
  /-- A partial index has only the rows with this status. -/
  onlyStatus : Option String

def plainIndex (table : HandleTable) (column : HandleColumn) (others : List OtherColumn) :
    UniqueIndex := ⟨table, [(column, false)], others, none⟩

def foldedIndex (table : HandleTable) (columns : List HandleColumn) (others : List OtherColumn) :
    UniqueIndex := ⟨table, columns.map (·, true), others, none⟩

def uniqueIndexes : List UniqueIndex :=
  [plainIndex .events .claimedHandle [.idempotencyKey],
    plainIndex .events .claimedHandle [.eventType, .eventContent],
    plainIndex .quarantinedEvents .claimedHandle [.idempotencyKey],
    plainIndex .statEventCounts .claimedHandle [.eventType],
    plainIndex .entityRollupAgg .claimedHandle [.entityKind, .entityId],
    plainIndex .sessionSummary .claimedHandle [.sessionId],
    plainIndex .characterRecords .claimedHandle [],
    plainIndex .statRollupState .claimedHandle [],
    plainIndex .unknownTagSighting .claimedHandle [.shellTag],
    foldedIndex .shareMetadata [.ownerHandle, .recipientHandle] [],
    plainIndex .publicProfileViewCounters .profileHandle [.day, .source],
    { foldedIndex .friendRequests [.requesterHandle, .recipientHandle] [] with
      onlyStatus := some "pending" },
    foldedIndex .friendships [.handleA, .handleB] [],
    foldedIndex .userBlocks [.blockerHandle, .blockedHandle] [],
    foldedIndex .userMutes [.muterHandle, .mutedHandle] [],
    foldedIndex .profileSalutes [.saluterHandle, .targetHandle] [],
    foldedIndex .lfgMembers [.memberHandle] [.postId],
    foldedIndex .crewHistory [.handle, .otherHandle] [.postId],
    foldedIndex .crewCommends [.giverHandle, .recipientHandle] [.postId]]

/-- The row's entry in the index, where it has one. -/
def UniqueIndex.entry (ix : UniqueIndex) (row : HandleRow) :
    Option (List (Option String) × List (Option String)) :=
  if ix.onlyStatus.all (row.others .status = some ·) then
    some (ix.handles.map fun c => (row.cells c.1).map fun v => if c.2 then lower v else v,
      ix.others.map row.others)
  else none

/-- No two rows have the same entry. -/
def UniqueIndex.holds (ix : UniqueIndex) (rows : List HandleRow) : Bool :=
  decide (rows.filterMap ix.entry).Nodup

def uniqueHolds (table : HandleTable) (rows : List HandleRow) : Bool :=
  (uniqueIndexes.filter (·.table = table)).all (·.holds rows)

/-- The tables with `CHECK (claimed_handle = lower(claimed_handle))`. -/
def checksLower : HandleTable → Bool
  | .events | .statEventCounts | .entityRollupAgg | .sessionSummary | .characterRecords
  | .statRollupState | .contractRuns | .unknownTagSighting => true
  | _ => false

/-! ## Statements -/

abbrev HandleTables := HandleTable → List HandleRow

/-- `CASE WHEN column = lower(column) THEN lower($2) ELSE $2 END`. -/
def respell (newHandle v : String) : String := if v = lower v then lower newHandle else newHandle

/-- The value of a column after the `UPDATE` of one handle column. -/
def renameCell (oldHandle newHandle : String) (v : Option String) : Option String :=
  v.map fun v => if lower v = lower oldHandle then respell newHandle v else v

def setTable (tables : HandleTables) (table : HandleTable) (rows : List HandleRow) : HandleTables :=
  fun t => if t = table then rows else tables t

def renameRow (oldHandle newHandle : String) (column : HandleColumn) (row : HandleRow) :
    HandleRow :=
  { row with cells := fun c =>
      if c = column then renameCell oldHandle newHandle (row.cells c) else row.cells c }

/-- The new row breaks the table's `CHECK`; only rows that the statement updates are checked. -/
def breaksCheck (oldHandle newHandle : String) (table : HandleTable) (column : HandleColumn)
    (row : HandleRow) : Bool :=
  checksLower table && (row.cells column).any fun v =>
    lower v == lower oldHandle && respell newHandle v != lower (respell newHandle v)

/-- `UPDATE table SET column = … WHERE lower(column) = lower($1)`. A unique index is checked row by
row; all rows get the same handle, so that is the check of the result. -/
def updateColumn (oldHandle newHandle : String) (tables : HandleTables)
    (column : HandleTable × HandleColumn) : Except HandleRenameError HandleTables :=
  let rows := tables column.1
  let rows' := rows.map (renameRow oldHandle newHandle column.2)
  if rows.any (breaksCheck oldHandle newHandle column.1 column.2) then .error .database
  else if !uniqueHolds column.1 rows' then .error (.refused .taken)
  else .ok (setTable tables column.1 rows')

/-- The pair is out of order and names the handle. -/
def outOfOrder (newHandle : String) (row : HandleRow) : Bool :=
  match row.cells .handleA, row.cells .handleB with
  | some a, some b =>
    decide (lower b < lower a) && (lower a == lower newHandle || lower b == lower newHandle)
  | _, _ => false

/-- `handle_a = handle_b, handle_b = handle_a`. -/
def swapPair (row : HandleRow) : HandleRow :=
  { row with cells := fun c =>
      match c with
      | .handleA => row.cells .handleB
      | .handleB => row.cells .handleA
      | c => row.cells c }

/-- The `UPDATE friendships` that puts the pairs back in order. -/
def sortFriendships (newHandle : String) (tables : HandleTables) :
    Except HandleRenameError HandleTables :=
  let rows := (tables .friendships).map fun row =>
    if outOfOrder newHandle row then swapPair row else row
  if !uniqueHolds .friendships rows then .error .database
  else .ok (setTable tables .friendships rows)

/-! ## The transaction -/

structure RenameDb where
  users : List Account
  tables : HandleTables
  renames : List HandleRename

/-- The statements that fail for a reason of their own, a lost connection say. -/
structure RenameFaults where
  select : Bool
  taken : Bool
  reserved : Bool
  updateUser : Bool
  updateColumn : HandleTable × HandleColumn → Bool
  sortFriendships : Bool
  insertRename : Bool
  commit : Bool

def RenameFaults.none : RenameFaults :=
  ⟨false, false, false, false, fun _ => false, false, false, false⟩

/-- A statement that may fail for a reason of its own. -/
def orFail {α : Type} (fails : Bool) (result : Except HandleRenameError α) :
    Except HandleRenameError α := if fails then .error .database else result

section
variable (faults : RenameFaults) (userId : Uuid) (newHandle : String) (now : Timestamp)

/-- The two `SELECT EXISTS`, which a change of case only skips. -/
def checkAvailable (oldHandle : String) (db : RenameDb) : Except HandleRenameError Unit :=
  if Text.eqIgnoreAsciiCase oldHandle newHandle then .ok ()
  else do
    let taken ← orFail faults.taken (.ok (handleTaken db.users userId newHandle))
    if taken then .error (.refused .taken)
    else do
      let reserved ← orFail faults.reserved (.ok (handleReserved db.renames userId newHandle now))
      if reserved then .error (.refused .reserved) else .ok ()

/-- `UPDATE users`, under `users_handle_uq` and `users_chat_localpart_uq`. -/
def updateUser (users : List Account) : Except HandleRenameError (List Account) :=
  let users' := users.map fun u => if u.id = userId then u.renamed newHandle now else u
  if (users'.map fun u => lower u.claimedHandle).Nodup ∧ (users'.filterMap (·.chatLocalpart)).Nodup
  then .ok users'
  else .error (.refused .taken)

/-- One `UPDATE` for each of the columns. -/
def updateColumns (oldHandle : String) : List (HandleTable × HandleColumn) → HandleTables →
    Except HandleRenameError HandleTables
  | [], tables => .ok tables
  | c :: cs, tables => do
    let tables ← orFail (faults.updateColumn c) (updateColumn oldHandle newHandle tables c)
    updateColumns oldHandle cs tables

/-- The statements of `rename` on the transaction's own copy; `id` is the fresh key. -/
def renameTx (id : Uuid) (db : RenameDb) : Except HandleRenameError (HandleRename × RenameDb) := do
  let row ← orFail faults.select (.ok (db.users.find? (·.id = userId)))
  match row with
  | none => .error .userNotFound
  | some u =>
    match evaluateRename u.renameSubject newHandle now with
    | .error r => .error (.refused r)
    | .ok kind => do
      checkAvailable faults userId newHandle now u.claimedHandle db
      let users ← orFail faults.updateUser (updateUser userId newHandle now db.users)
      let tables ← updateColumns faults newHandle u.claimedHandle handleColumns db.tables
      let tables ← orFail faults.sortFriendships (sortFriendships newHandle tables)
      let r := u.renameRecord id newHandle kind now
      orFail faults.insertRename (.ok (r, ⟨users, tables, db.renames ++ [r]⟩))

/-- `rename`: only a commit changes the database. -/
def rename (id : Uuid) (db : RenameDb) : Except HandleRenameError HandleRename × RenameDb :=
  match renameTx faults userId newHandle now id db with
  | .error e => (.error e, db)
  | .ok (r, db') => if faults.commit then (.error .database, db) else (.ok r, db')

end

/-! ## What a rename is for -/

/-- The row has the handle, in some spelling, in a listed column. -/
def HandleRow.Names (table : HandleTable) (handle : String) (row : HandleRow) : Prop :=
  ∃ c v, (table, c) ∈ handleColumns ∧ row.cells c = some v ∧ lower v = lower handle

/-- The old handle became the new one, as written or lower-cased; any other value stayed. -/
structure CellMoved (oldHandle newHandle : String) (v v' : Option String) : Prop where
  held : ∀ x, v = some x → lower x = lower oldHandle →
    v' = some newHandle ∨ v' = some (lower newHandle)
  other : (∀ x, v = some x → lower x ≠ lower oldHandle) → v' = v

structure RowMoved (table : HandleTable) (oldHandle newHandle : String) (row row' : HandleRow) :
    Prop where
  others : row'.others = row.others
  listed : ∀ c, (table, c) ∈ handleColumns →
    CellMoved oldHandle newHandle (row.cells c) (row'.cells c)
  unlisted : ∀ c, (table, c) ∉ handleColumns → row'.cells c = row.cells c

/-- As `RowMoved`; the pair of a friendship that names the old handle may change places. -/
def RowMovedOrSwapped (table : HandleTable) (oldHandle newHandle : String) (row row' : HandleRow) :
    Prop :=
  ∃ row₁, RowMoved table oldHandle newHandle row row₁ ∧
    (row' = row₁ ∨ table = .friendships ∧ row.Names table oldHandle ∧ row' = swapPair row₁)

/-- The pair is in lower-sorted order. -/
def HandleRow.PairSorted (row : HandleRow) : Prop :=
  ∀ a b, row.cells .handleA = some a → row.cells .handleB = some b → lower a ≤ lower b

/-- No listed row has the new handle, unless the rename only changes case. -/
def Unmerged (oldHandle newHandle : String) (tables : HandleTables) : Prop :=
  lower oldHandle = lower newHandle ∨
    ∀ table, ∀ row ∈ tables table, ¬ row.Names table newHandle

/-- One account's rows are moved and only those. -/
structure Moved (userId : Uuid) (oldHandle newHandle : String) (db db' : RenameDb) : Prop where
  users : db'.users.map (·.id) = db.users.map (·.id) ∧
    ∀ u ∈ db'.users, if u.id = userId then u.claimedHandle = newHandle else u ∈ db.users
  rows : ∀ table, List.Forall₂ (RowMovedOrSwapped table oldHandle newHandle)
    (db.tables table) (db'.tables table)
  gone : ∀ table, ∀ row ∈ db'.tables table, ∀ c v, (table, c) ∈ handleColumns →
    row.cells c = some v → lower v = lower oldHandle → v = newHandle ∨ v = lower newHandle
  sorted : ∀ row ∈ db'.tables .friendships, row.PairSorted
  unmerged : Unmerged oldHandle newHandle db.tables

/-- The handle of an account. -/
def heldHandle (users : List Account) (userId : Uuid) : String :=
  ((users.find? (·.id = userId)).map (·.claimedHandle)).getD ""

end StarStats
