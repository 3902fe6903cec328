import StarStats.Core.Metadata

/-!
# The wire format (`starstats-core/src/wire.rs`)

An upload is an `IngestBatch` of `EventEnvelope`s.
-/

namespace StarStats

inductive LogSource where
  | live
  | ptu
  | eptu
  | hotfix
  | tech
  | other
  deriving DecidableEq

inductive LocationTier where
  | system
  | astronomicalObject
  | landingZone
  | spaceStation
  | landmark
  | flotilla
  | navalBase
  | anonymousPoi
  deriving DecidableEq

inductive ClassificationSource where
  | catalog
  | fuzzy
  | synthetic
  | heuristic
  | fallback
  deriving DecidableEq

structure ResolvedLocation where
  displayName : String
  slug : Option String
  system : Option String
  tier : LocationTier
  source : ClassificationSource
  deriving DecidableEq

structure EventEnvelope where
  idempotencyKey : String
  rawLine : String
  event : Option GameEvent
  source : LogSource
  sourceOffset : UInt64
  metadata : Option EventMetadata
  resolvedLocation : Option ResolvedLocation
  deriving DecidableEq

structure SourceRange where
  source : LogSource
  startOffset : UInt64
  endOffset : UInt64
  deriving DecidableEq

structure IngestBatch where
  schemaVersion : UInt16
  batchId : String
  gameBuild : Option String
  collectorVersion : Option String
  parserVersion : Option UInt32
  batchSequence : Option UInt64
  contentHash : Option String
  sourceRange : Option SourceRange
  claimedHandle : String
  events : List EventEnvelope
  deriving DecidableEq

/-- The newest schema the server speaks. -/
def currentSchemaVersion : UInt16 := 2

end StarStats
