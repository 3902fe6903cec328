import Mathlib.Data.String.Basic
import StarStats.Client.Storage

/-!
# Searching the local events (`starstats-client/src/storage.rs`, `commands.rs` `search_events`)

`searchEventsPaged` answers a page of the rows that match a search, newest first; `searchEventsImpl`
adds how many there are and whether more are to come. Every query is answered, and every row of its
answer decodes.
-/

namespace StarStats

def defaultTimelineLimit : Nat := 50
def maxTimelineLimit : Nat := 5000

def clampTimelineLimit (limit : Option Nat) : Nat :=
  max 1 (min (limit.getD defaultTimelineLimit) maxTimelineLimit)

structure RecentEventRow where
  id : Int
  eventType : String
  timestamp : String
  payloadJson : String
  rawLine : String
  logSource : String
  sentAt : Option String
  deriving DecidableEq

/-- An entry of the timeline; here its location is never resolved. -/
structure TimelineEntry where
  id : Int
  timestamp : String
  eventType : String
  summary : String
  rawLine : String
  logSource : String
  synced : Bool
  deriving DecidableEq

structure SearchEventsResult where
  entries : List TimelineEntry
  total : Nat
  hasMore : Bool
  deriving DecidableEq

/-- What the search takes from elsewhere. -/
structure SearchEnv where
  /-- `str::to_lowercase`. -/
  toLowercase : String → String
  /-- `serde_json::from_str`. -/
  fromJson : String → Option GameEvent
  formatSummary : GameEvent → String

/-! ## The predicate -/

/-- `LIKE`: `%` stands for any text, `_` for any character, and the case of ASCII letters does not
count. -/
def like : List Char → List Char → Bool
  | [], text => text.isEmpty
  | '%' :: pattern, text => text.tails.any (like pattern)
  | '_' :: pattern, text => text.head?.isSome && like pattern text.tail
  | c :: pattern, text =>
    text.head?.any (·.toLower = c.toLower) && like pattern text.tail

/-- `LOWER`. -/
def asciiLower (s : String) : String := String.ofList (s.toList.map Char.toLower)

structure SearchFilter where
  query : Option String
  typeFilter : Option String
  deriving DecidableEq

/-- An empty text is no condition. -/
def SearchFilter.normalised (f : SearchFilter) : SearchFilter :=
  ⟨f.query.filter (!·.isEmpty), f.typeFilter.filter (!·.isEmpty)⟩

namespace SearchEnv
variable (env : SearchEnv)

/-- The `WHERE` clause without the cursor. -/
def isMatch (f : SearchFilter) (r : LocalRow) : Bool :=
  (f.query.all fun q =>
    let pattern := '%' :: ((env.toLowercase q).toList ++ ['%'])
    like pattern (asciiLower r.eventType).toList || like pattern (asciiLower r.payload).toList) &&
  f.typeFilter.all (r.eventType = ·)

/-! ## The pages -/

/-- `ORDER BY timestamp DESC, id DESC`. -/
def searchOrder (rows : List LocalRow) : List LocalRow :=
  rows.insertionSort fun a b =>
    b.timestamp < a.timestamp ∨ (b.timestamp = a.timestamp ∧ b.id ≤ a.id)

def recentEventRow (r : LocalRow) : RecentEventRow where
  id := r.id
  eventType := r.eventType
  timestamp := r.timestamp
  payloadJson := r.payload
  rawLine := r.raw
  logSource := r.logSource
  sentAt := r.sentAt

def searchEventsPaged (f : SearchFilter) (beforeId : Option Int) (limit : Nat)
    (events : List LocalRow) : List RecentEventRow :=
  ((searchOrder (events.filter fun r =>
    env.isMatch f r && beforeId.all (r.id < ·))).take limit).map recentEventRow

def countMatchingEvents (f : SearchFilter) (events : List LocalRow) : Nat :=
  (events.filter (env.isMatch f)).length

def syncedFromSentAt (sentAt : Option String) : Bool :=
  sentAt.any fun s => !s.startsWith "__quarantined_"

def timelineEntry (r : RecentEventRow) : TimelineEntry where
  id := r.id
  timestamp := r.timestamp
  eventType := r.eventType
  summary :=
    match env.fromJson r.payloadJson with
    | some event => env.formatSummary event
    | none => r.eventType ++ " (unparseable payload)"
  rawLine := r.rawLine
  logSource := r.logSource
  synced := syncedFromSentAt r.sentAt

def searchEventsImpl (f : SearchFilter) (beforeId : Option Int) (limit : Nat)
    (events : List LocalRow) : SearchEventsResult :=
  let f := f.normalised
  let rows := env.searchEventsPaged f beforeId limit events
  let total := env.countMatchingEvents f events
  { entries := rows.map env.timelineEntry
    total := total
    hasMore := rows.length = limit && total > rows.length }

/-! ## What a reader of all pages should see -/

/-- The rows a search is about, in order. -/
def searchRows (f : SearchFilter) (events : List LocalRow) : List LocalRow :=
  searchOrder (events.filter (env.isMatch f.normalised))

def entry (r : LocalRow) : TimelineEntry := env.timelineEntry (recentEventRow r)

/-- The smallest id of a page. -/
def smallestId (page : SearchEventsResult) : Option Int := (page.entries.map (·.id)).min?

/-- The rows are seen once each, and `hasMore` says whether one is left. -/
def Enumerated (f : SearchFilter) (events : List LocalRow) (answers : List SearchEventsResult) :
    Prop :=
  (answers.flatMap (·.entries)).Perm
      ((events.filter (env.isMatch f.normalised)).map env.entry) ∧
    ∀ k a, answers[k]? = some a → (a.hasMore = true ↔
      ∃ r ∈ events.filter (env.isMatch f.normalised),
        env.entry r ∉ (answers.take (k + 1)).flatMap (·.entries))

/-- Behind each full page all ids are smaller than up to its end. -/
def IdsFall (limit : Nat) (rows : List LocalRow) : Prop :=
  ∀ k, ∀ x ∈ rows.take ((k + 1) * limit), ∀ y ∈ rows.drop ((k + 1) * limit), y.id < x.id

end SearchEnv

end StarStats
