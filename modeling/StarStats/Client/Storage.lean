import StarStats.Client.Pipeline

/-!
# The tray's event table (`starstats-client/src/storage.rs`)

The rows of `events` with their ids and what is stored beside an event, and the statements that
write them: `insert_event`, `update_event_classification` and `delete_event_by_id`. A fresh
database has the unique index on `content_key`.
-/

namespace StarStats

/-- A row of `events` with all its columns but `inserted_at`. -/
structure LocalRow extends EventsRow where
  id : Int
  metadata : Option String
  sentAt : Option String
  contentKey : String
  deriving DecidableEq

/-- The table and the last id it gave out. -/
structure EventsTable where
  rows : List LocalRow
  lastId : Int
  deriving DecidableEq

namespace EventsTable

def fresh : EventsTable := ⟨[], 0⟩

/-- `insert_event`, and whether it wrote the row. -/
def insertEvent (env : IngestEnv) (t : EventsTable) (row : EventsRow) : EventsTable × Bool :=
  let contentKey := env.contentKey row
  if t.rows.any (·.contentKey = contentKey) then (t, false)
  else if t.rows.any (·.idempotencyKey = row.idempotencyKey) then (t, false)
  else
    let id := t.lastId + 1
    ({ rows := t.rows ++
        [{ toEventsRow := row, id := id, metadata := none, sentAt := none,
           contentKey := contentKey }]
       lastId := id }, true)

/-- What a classification says of a line. -/
structure Classification where
  eventType : String
  timestamp : String
  payload : String
  deriving DecidableEq

def reclassified (c : Classification) (metadata : Option String) (r : LocalRow) : LocalRow :=
  { r with
    eventType := c.eventType
    timestamp := c.timestamp
    payload := c.payload
    metadata := metadata.or r.metadata }

/-- `update_event_classification`. -/
def updateEventClassification (t : EventsTable) (id : Int) (c : Classification)
    (metadata : Option String) : EventsTable :=
  { t with rows := t.rows.map fun r => if r.id = id then reclassified c metadata r else r }

/-- `delete_event_by_id`. -/
def deleteEventById (t : EventsTable) (id : Int) : EventsTable :=
  { t with rows := t.rows.filter (·.id ≠ id) }

end EventsTable

/-! ## What a row stands for -/

open EventsTable (Classification)

def EventsRow.classification (row : EventsRow) : Classification :=
  ⟨row.eventType, row.timestamp, row.payload⟩

/-- The two rows say the same of the same line. -/
def EventsRow.SameContent (row other : EventsRow) : Prop :=
  row.classification = other.classification ∧ row.raw = other.raw

instance (row other : EventsRow) : Decidable (row.SameContent other) :=
  inferInstanceAs (Decidable (_ ∧ _))

/-- No event type and no time of a log line has the character between the columns of the hash. -/
def EventsTable.Classification.Separated (c : Classification) : Prop :=
  unitSeparatorChar ∉ c.eventType.toList ∧ unitSeparatorChar ∉ c.timestamp.toList

instance (c : Classification) : Decidable c.Separated := inferInstanceAs (Decidable (_ ∧ _))

/-- A write to the table, from whatever file, offset or source. -/
inductive TableWrite where
  | insertEvent (row : EventsRow) (separated : row.classification.Separated)
  | updateClassification (id : Int) (c : Classification) (separated : c.Separated)
      (metadata : Option String)
  | deleteEvent (id : Int)

namespace TableWrite

def apply (env : IngestEnv) (t : EventsTable) : TableWrite → EventsTable
  | insertEvent row _ => (t.insertEvent env row).1
  | updateClassification id c _ metadata => t.updateEventClassification id c metadata
  | deleteEvent id => t.deleteEventById id

/-- It does not classify a stored line anew. -/
def KeepsClassification (t : EventsTable) : TableWrite → Prop
  | updateClassification id c _ _ => ∀ r ∈ t.rows, r.id = id → r.classification = c
  | _ => True

end TableWrite

/-- One line is one row. -/
structure OneRowPerLine (env : IngestEnv) (t : EventsTable) : Prop where
  keyed : ∀ r ∈ t.rows, r.contentKey = env.contentKey r.toEventsRow
  apart : t.rows.Pairwise fun r r' => ¬ r.SameContent r'.toEventsRow
  /-- What is read again is not stored again. -/
  reread : ∀ r ∈ t.rows, ∀ row : EventsRow, row.SameContent r.toEventsRow →
    t.insertEvent env row = (t, false)

end StarStats
