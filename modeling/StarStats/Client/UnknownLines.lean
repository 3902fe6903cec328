import Mathlib.Data.List.Sort
import Mathlib.Data.String.Basic
import StarStats.Core.Wire

/-!
# The review queue of unknown lines (`starstats-core/src/unknown_lines.rs`, `storage.rs`)

`detectPii` finds the names and numbers of a line that a player may want to redact, by their byte
offsets. `cacheUnknownLine` keeps one row for each shape, `listUnknownLines` shows the rows. What is
stored as JSON is kept here as the value.
-/

namespace StarStats.UnknownLines

/-! ## Sensitive tokens -/

inductive PiiKind where
  | ownHandle
  | friendHandle
  | shardId
  | geid
  | ipPort
  deriving DecidableEq

structure PiiToken where
  kind : PiiKind
  start : Nat
  stop : Nat
  suggestedRedaction : String
  defaultRedact : Bool
  deriving DecidableEq

/-- What the regular expressions find in a line, from byte to byte. Of a shard it is the name. -/
structure PiiPatterns where
  geid : String → List (Nat × Nat)
  ipPort : String → List (Nat × Nat)
  shard : String → List (Nat × Nat)

/-- `match_indices`, at `offset` bytes into the line; of an occurrence just found `skip` characters
are left. -/
def matchIndices (needle : List Char) : Nat → Nat → List Char → List Nat
  | _, _, [] => []
  | offset, skip + 1, c :: cs => matchIndices needle (offset + c.utf8Size) skip cs
  | offset, 0, c :: cs =>
    if needle.isPrefixOf (c :: cs) then
      offset :: matchIndices needle (offset + c.utf8Size) (needle.length - 1) cs
    else matchIndices needle (offset + c.utf8Size) 0 cs

/-- The tokens of a name; an empty one has none. -/
def nameTokens (kind : PiiKind) (redaction : String) (redact : Bool) (line name : String) :
    List PiiToken :=
  if name.isEmpty then []
  else
    (matchIndices name.toList 0 0 line.toList).map fun i =>
      ⟨kind, i, i + name.utf8ByteSize, redaction, redact⟩

def patternTokens (kind : PiiKind) (redaction : String) (redact : Bool)
    (found : List (Nat × Nat)) : List PiiToken :=
  found.map fun m => ⟨kind, m.1, m.2, redaction, redact⟩

def detectPii (patterns : PiiPatterns) (ownHandle : String) (knownFriends : List String)
    (line : String) : List PiiToken :=
  (nameTokens .ownHandle "[HANDLE]" true line ownHandle ++
    knownFriends.flatMap (nameTokens .friendHandle "[FRIEND]" false line) ++
    patternTokens .geid "[GEID]" false (patterns.geid line) ++
    patternTokens .ipPort "[IPPORT]" false (patterns.ipPort line) ++
    patternTokens .shardId "[SHARD]" true (patterns.shard line)).insertionSort
      fun a b => a.start ≤ b.start

example : (detectPii ⟨fun _ => [], fun _ => [], fun _ => []⟩ "Ada" ["Bo"] "<é> Bo, AdaAda").map
    (fun t => (t.kind, t.start, t.stop)) =
      [(.friendHandle, 5, 7), (.ownHandle, 9, 12), (.ownHandle, 12, 15)] := by decide

/-! ## Lines -/

structure UnknownLine where
  id : String
  rawLine : String
  timestamp : Option String
  shellTag : Option String
  partialStructured : List (String × String)
  contextBefore : List String
  contextAfter : List String
  gameBuild : Option String
  channel : LogSource
  interestScore : UInt8
  shapeHash : String
  occurrenceCount : UInt32
  firstSeen : String
  lastSeen : String
  detectedPii : List PiiToken
  dismissed : Bool
  deriving DecidableEq

/-- A row of `unknown_lines`. -/
structure UnknownRow where
  id : String
  shapeHash : String
  rawExamples : List String
  partialStructured : List (String × String)
  shellTag : Option String
  contextBefore : List String
  contextAfter : List String
  gameBuild : Option String
  channel : LogSource
  interestScore : UInt8
  occurrenceCount : Nat
  firstSeen : String
  lastSeen : String
  detectedPii : List PiiToken
  dismissed : Bool
  submittedAt : Option String
  deriving DecidableEq

def rawExamplesCap : Nat := 5
def reviewListLimit : Nat := 200

/-- The samples with one more, without the oldest that are too many. -/
def pushSample (samples : List String) (line : String) : List String :=
  (samples ++ [line]).drop ((samples ++ [line]).length - rawExamplesCap)

/-- The row of a line whose shape is new. -/
def UnknownLine.row (line : UnknownLine) : UnknownRow where
  id := line.id
  shapeHash := line.shapeHash
  rawExamples := [line.rawLine]
  partialStructured := line.partialStructured
  shellTag := line.shellTag
  contextBefore := line.contextBefore
  contextAfter := line.contextAfter
  gameBuild := line.gameBuild
  channel := line.channel
  interestScore := line.interestScore
  occurrenceCount := line.occurrenceCount.toNat
  firstSeen := line.firstSeen
  lastSeen := line.lastSeen
  detectedPii := line.detectedPii
  dismissed := line.dismissed
  submittedAt := none

/-- The row of a shape that was seen before, with one more line of it. -/
def UnknownRow.seenAgain (r : UnknownRow) (line : UnknownLine) : UnknownRow :=
  { r with
    occurrenceCount := r.occurrenceCount + 1
    lastSeen := line.lastSeen
    rawExamples := pushSample r.rawExamples line.rawLine }

/-- `cache_unknown_line`; with an id that is taken it fails. -/
def cacheUnknownLine (rows : List UnknownRow) (line : UnknownLine) : List UnknownRow :=
  if rows.any (·.shapeHash = line.shapeHash) then
    rows.map fun r => if r.shapeHash = line.shapeHash then r.seenAgain line else r
  else if rows.any (·.id = line.id) then rows
  else rows ++ [line.row]

/-- `decode_unknown_line`: the line is the latest sample. -/
def decodeUnknownLine (r : UnknownRow) : UnknownLine where
  id := r.id
  rawLine := r.rawExamples.getLast?.getD ""
  timestamp := none
  shellTag := r.shellTag
  partialStructured := r.partialStructured
  contextBefore := r.contextBefore
  contextAfter := r.contextAfter
  gameBuild := r.gameBuild
  channel := r.channel
  interestScore := r.interestScore
  shapeHash := r.shapeHash
  occurrenceCount := UInt32.ofNat r.occurrenceCount
  firstSeen := r.firstSeen
  lastSeen := r.lastSeen
  detectedPii := r.detectedPii
  dismissed := r.dismissed

/-- `ORDER BY interest_score DESC, occurrence_count DESC, last_seen DESC`. -/
def reviewOrder (rows : List UnknownRow) : List UnknownRow :=
  rows.insertionSort fun a b =>
    b.interestScore < a.interestScore ∨ (b.interestScore = a.interestScore ∧
      (b.occurrenceCount < a.occurrenceCount ∨ (b.occurrenceCount = a.occurrenceCount ∧
        b.lastSeen ≤ a.lastSeen)))

def listUnknownLines (minInterest : UInt8) (rows : List UnknownRow) : List UnknownLine :=
  ((reviewOrder (rows.filter fun r =>
    !r.dismissed && r.submittedAt.isNone && minInterest ≤ r.interestScore)).take
      reviewListLimit).map decodeUnknownLine

/-! ## What a redaction cuts -/

section
variable (detect : String → List PiiToken)

/-- A captured line comes with its own tokens. -/
structure Captured where
  line : UnknownLine
  own : line.detectedPii = detect line.rawLine

/-- The tokens are those of the line they are shown with. -/
def Fits (line : UnknownLine) : Prop := line.detectedPii = detect line.rawLine

/-- The tokens of every line that is listed are its own. -/
def ListFits (rows : List UnknownRow) : Prop :=
  ∀ minInterest, ∀ line ∈ listUnknownLines minInterest rows, Fits detect line

/-- The same of all lines, listed or not. -/
def TableFits (rows : List UnknownRow) : Prop := ∀ r ∈ rows, Fits detect (decodeUnknownLine r)

/-- The line has the tokens that were stored with the first of its shape. -/
def SameTokens (rows : List UnknownRow) (captured : Captured detect) : Prop :=
  ∀ r ∈ rows, r.shapeHash = captured.line.shapeHash →
    r.detectedPii = captured.line.detectedPii

end

end StarStats.UnknownLines
