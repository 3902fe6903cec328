import StarStats.Core.Classify
import StarStats.Core.LocationCatalog
import StarStats.Lib.Search

/-!
# Classifying a location (`starstats-core/src/location_classifier.rs`)

A location of the log is split into tokens, which name a station that has an alias, a pattern of
the engine that the wiki does not know, or a place of the catalogue.

`Checked` is `none` where the code slices a string or a list out of range and panics. A check of the
length before an index is a pattern. No system's key begins with another, so the order of the keys
does not matter.
-/

namespace StarStats

abbrev Checked (α : Type) := Option α

structure LocationClassification where
  displayName : String
  slug : Option String
  tier : LocationTier
  subtype : Option String
  system : Option String
  parentBody : Option String
  placement : Option Placement
  engineTag : Option String
  raw : String
  operator : Option String
  faction : Option String
  source : ClassificationSource
  deriving DecidableEq

namespace LocationClassifier

open Text (lower eqIgnoreAsciiCase)

/-! ## Strings and slices -/

/-- `str::to_ascii_uppercase` -/
def upper (s : String) : String := String.ofList (s.toList.map Char.toUpper)

def stripPrefix (p s : String) : Option String :=
  if p.toList.isPrefixOf s.toList then some (String.ofList (s.toList.drop p.toList.length))
  else none

/-- `s.split_at(i)` -/
def splitAt (s : String) (i : Nat) : Checked (String × String) :=
  (Text.splitAtByte s.toList i).map fun x => (String.ofList x.1, String.ofList x.2)

/-- `&s[i..]` -/
def sliceFrom (s : String) (i : Nat) : Checked String := (splitAt s i).map (·.2)

/-- `&l[i..]` -/
def tailFrom (l : List String) (i : Nat) : Checked (List String) :=
  if i ≤ l.length then some (l.drop i) else none

/-- `&l[..i]` -/
def frontTo (l : List String) (i : Nat) : Checked (List String) :=
  if i ≤ l.length then some (l.take i) else none

/-- `s.as_bytes()[i]` -/
def byteAt (s : String) (i : Nat) : Checked UInt8 := (s.toList.flatMap String.utf8EncodeChar)[i]?

/-- `s.find(c)`, in bytes. -/
def findChar (c : Char) : List Char → Option Nat
  | [] => none
  | d :: ds => if d = c then some 0 else (findChar c ds).map (d.utf8Size + ·)

/-- `s.split_once('-')` -/
def splitHyphen (s : String) : Option (String × String) :=
  (Text.splitOnce ['-'] s.toList).map fun x => (String.ofList x.1, String.ofList x.2)

/-- `str::parse` at `u32` -/
def parseU32 (s : String) : Option Nat := parseUnsigned (2 ^ 32) s

/-- What the standard library makes of the letters of Unicode, and the score of the catalogue. -/
structure Env (S : Type) where
  strToLowercase : String → String
  toUppercase : Char → List Char
  toLowercase : Char → List Char
  score : List Nat → S

/-! ## Tables -/

/-- `KNOWN_SYSTEMS` -/
def knownSystems : String → Option String
  | "stanton" => some "Stanton"
  | "pyro" => some "Pyro"
  | "nyx" => some "Nyx"
  | "castra" => some "Castra"
  | "terra" => some "Terra"
  | "sol" => some "Sol"
  | _ => none

def knownSystemKeys : List String := ["stanton", "pyro", "nyx", "castra", "terra", "sol"]

structure BodyShortCodeMeta where
  system : String
  bodyDisplay : String
  deriving DecidableEq

/-- `KNOWN_BODY_SHORT_CODES` -/
def knownBodyShortCodes : String → Option BodyShortCodeMeta
  | "hur" => some ⟨"Stanton", "Hurston"⟩
  | "cru" => some ⟨"Stanton", "Crusader"⟩
  | "arc" => some ⟨"Stanton", "ArcCorp"⟩
  | "mic" => some ⟨"Stanton", "microTech"⟩
  | "hurdyn" => some ⟨"Stanton", "Hurston"⟩
  | "shubin" => some ⟨"Stanton", "Shubin Outposts"⟩
  | "hdms" => some ⟨"Stanton", "HDMS Outposts"⟩
  | "rr" => some ⟨"Stanton", "Rest Stops"⟩
  | "stantonstar" => some ⟨"Stanton", "Stanton"⟩
  | "pyrostar" => some ⟨"Pyro", "Pyro"⟩
  | "nyxstar" => some ⟨"Nyx", "Nyx"⟩
  | "hurston" => some ⟨"Stanton", "Hurston"⟩
  | "crusader" => some ⟨"Stanton", "Crusader"⟩
  | "arccorp" => some ⟨"Stanton", "ArcCorp"⟩
  | "microtech" => some ⟨"Stanton", "microTech"⟩
  | "daymar" => some ⟨"Stanton", "Daymar"⟩
  | "yela" => some ⟨"Stanton", "Yela"⟩
  | "cellin" => some ⟨"Stanton", "Cellin"⟩
  | "aberdeen" => some ⟨"Stanton", "Aberdeen"⟩
  | "magda" => some ⟨"Stanton", "Magda"⟩
  | "ita" => some ⟨"Stanton", "Ita"⟩
  | "arial" => some ⟨"Stanton", "Arial"⟩
  | "ariel" => some ⟨"Stanton", "Arial"⟩
  | "wala" => some ⟨"Stanton", "Wala"⟩
  | "lyria" => some ⟨"Stanton", "Lyria"⟩
  | "calliope" => some ⟨"Stanton", "Calliope"⟩
  | "clio" => some ⟨"Stanton", "Clio"⟩
  | "euterpe" => some ⟨"Stanton", "Euterpe"⟩
  | "bloom" => some ⟨"Pyro", "Bloom"⟩
  | "monox" => some ⟨"Pyro", "Monox"⟩
  | "terminus" => some ⟨"Pyro", "Terminus"⟩
  | "p1" => some ⟨"Pyro", "Pyro I"⟩
  | "p2" => some ⟨"Pyro", "Monox"⟩
  | "p3" => some ⟨"Pyro", "Bloom"⟩
  | "p4" => some ⟨"Pyro", "Pyro IV"⟩
  | "p5" => some ⟨"Pyro", "Pyro V"⟩
  | "p6" => some ⟨"Pyro", "Terminus"⟩
  | "delamar" => some ⟨"Nyx", "Delamar"⟩
  | "area18" => some ⟨"Stanton", "Area18"⟩
  | "a18" => some ⟨"Stanton", "Area18"⟩
  | "lorville" => some ⟨"Stanton", "Lorville"⟩
  | "newbabbage" => some ⟨"Stanton", "New Babbage"⟩
  | "orison" => some ⟨"Stanton", "Orison"⟩
  | _ => none

def bodyShortCodeSystem (token : String) : Option String :=
  (knownBodyShortCodes (lower token)).map (·.system)

def skipSegments : List String :=
  ["OOC", "LOC", "PROC", "PAD", "NPC", "AI", "PU", "LANDINGAREA", "OBJECTCONTAINER", "NAVPOINT",
    "MISSION"]

/-! ## Tokens -/

/-- The loop of `split_system_index` over the systems. -/
def splitSystemIndexAt (seg : String) : List String → Checked (List String)
  | [] => some [seg]
  | sys :: keys =>
    match stripPrefix sys (lower seg) with
    | some tail =>
      if tail.toList.head?.any Char.isDigit then do
        let (head, _) ← splitAt seg sys.utf8ByteSize
        let tailRaw ← sliceFrom seg sys.utf8ByteSize
        return [head, tailRaw]
      else splitSystemIndexAt seg keys
    | none => splitSystemIndexAt seg keys

def splitSystemIndex (seg : String) : Checked (List String) :=
  splitSystemIndexAt seg knownSystemKeys

/-- The loop of `strip_and_split`. -/
def splitSegments : List String → Checked (List String)
  | [] => some []
  | seg :: segs =>
    let seg := Text.trim seg
    if seg.isEmpty || skipSegments.contains (upper seg) then splitSegments segs
    else do
      let tokens ← splitSystemIndex seg
      let rest ← splitSegments segs
      return tokens ++ rest

/-- Without a leading tag such as `[PROC]`. -/
def stripTag (trimmed : String) : Checked String :=
  if trimmed.toList.head? = some '[' then
    match findChar ']' trimmed.toList with
    | some close => sliceFrom trimmed (close + 1)
    | none => some trimmed
  else some trimmed

def stripAndSplit (raw : String) : Checked (List String) := do
  let trimmed ← stripTag (Text.trim raw)
  splitSegments ((Text.fields (· == '_') trimmed.toList).map String.ofList)

/-! ## Results -/

section
variable {S : Type} (env : Env S)

/-- The loop of `title_case_word`. -/
def titleCaseFrom (nextUpper : Bool) : List Char → List Char
  | [] => []
  | ch :: cs =>
    if ch = '-' then ch :: titleCaseFrom true cs
    else if nextUpper then env.toUppercase ch ++ titleCaseFrom false cs
    else env.toLowercase ch ++ titleCaseFrom false cs

def titleCaseWord (s : String) : String := String.ofList (titleCaseFrom env true s.toList)

def titleCaseSegments (parts : List String) : String :=
  " ".intercalate (parts.map (titleCaseWord env))

def classificationToTier (c : Option String) : Option LocationTier := do
  match env.strToLowercase (← c) with
  | "solar system" | "system" => some .system
  | "star" | "planet" | "moon" | "planetoid" | "asteroid belt" | "nebula" =>
    some .astronomicalObject
  | "landing zone" | "city" => some .landingZone
  | "space station" | "station" | "rest stop" | "outpost" => some .spaceStation
  | "settlement" => some .landmark
  | _ => none

def fromCatalog (hit : LocationCatalogEntry) (raw : String) (source : ClassificationSource) :
    LocationClassification where
  displayName := hit.displayName
  slug := some hit.slug
  tier := (hit.taxonomy.tier.or (classificationToTier env hit.classification)).getD .anonymousPoi
  subtype := hit.taxonomy.subtype
  system := hit.system
  parentBody := hit.parentBody
  placement := hit.taxonomy.placement
  engineTag := hit.engineTag
  raw
  operator := hit.taxonomy.operator
  faction := hit.taxonomy.faction
  source

end

/-- A classification that is not of the catalogue. -/
def uncatalogued (displayName : String) (tier : LocationTier) (subtype system : Option String)
    (raw : String) (source : ClassificationSource) : LocationClassification where
  displayName
  slug := none
  tier
  subtype
  system
  parentBody := none
  placement := none
  engineTag := none
  raw
  operator := none
  faction := none
  source

def fallback (display raw : String) : LocationClassification :=
  uncatalogued display .anonymousPoi none none raw .fallback

def synthetic (display subtype : String) (system : Option String) (raw : String) :
    LocationClassification :=
  uncatalogued display .anonymousPoi (some subtype) system raw .synthetic

/-- A synthetic match of a space station. -/
def syntheticStation (display subtype : String) (system : Option String) (raw : String) :
    LocationClassification :=
  uncatalogued display .spaceStation (some subtype) system raw .synthetic

/-! ## Station aliases -/

/-- `"ext" | "entry" | "comm"` -/
def isStationVerb (s : String) : Bool := ["ext", "entry", "comm"].contains (lower s)

def stantonSector (sector : String) : Option String :=
  match upper sector with
  | "S1" | "HUR" => some "HUR"
  | "S2" | "CRU" => some "CRU"
  | "S3" | "ARC" => some "ARC"
  | "S4" | "MIC" => some "MIC"
  | _ => none

def stantonSlot (slot : String) : Option String :=
  match upper slot with
  | "LEO" | "LEO1" => some "LEO"
  | "L1" => some "L1"
  | "L2" => some "L2"
  | "L3" => some "L3"
  | "L4" => some "L4"
  | "L5" => some "L5"
  | _ => none

def stantonStationSlug (sector slot : String) : Option String := do
  match ← stantonSector sector, ← stantonSlot slot with
  | "HUR", "LEO" => some "everus-harbor"
  | "CRU", "LEO" => some "seraphim-station"
  | "ARC", "LEO" => some "baijini-point"
  | "MIC", "LEO" => some "port-tressler"
  | "HUR", "L1" => some "hur-l1-green-glade-station"
  | "HUR", "L2" => some "hur-l2-faithful-dream-station"
  | "HUR", "L3" => some "hur-l3-thundering-express-station"
  | "HUR", "L4" => some "hur-l4-melodic-fields-station"
  | "HUR", "L5" => some "hur-l5-high-course-station"
  | "CRU", "L1" => some "cru-l1-ambitious-dream-station"
  | "CRU", "L4" => some "cru-l4-shallow-fields-station"
  | "CRU", "L5" => some "cru-l5-beautiful-glen-station"
  | "ARC", "L1" => some "arc-l1-wide-forest-station"
  | "ARC", "L2" => some "arc-l2-lively-pathway-station"
  | "ARC", "L3" => some "arc-l3-modern-express-station"
  | "ARC", "L4" => some "arc-l4-faint-glen-station"
  | "ARC", "L5" => some "arc-l5-yellow-core-station"
  | "MIC", "L1" => some "mic-l1-shallow-frontier-station"
  | "MIC", "L2" => some "mic-l2-long-forest-station"
  | "MIC", "L3" => some "mic-l3-endless-odyssey-station"
  | "MIC", "L4" => some "mic-l4-red-crossroads-station"
  | "MIC", "L5" => some "mic-l5-modern-icarus-station"
  | _, _ => none

def stationCatalogSlug (sector slot : String) : Option String :=
  (stantonStationSlug sector slot).or
    (match upper sector, upper slot with
      | "P3", "LEO" | "P3", "LEO1" => some "orbituary"
      | "P6", "LEO" | "P6", "LEO1" => some "ruin-station"
      | _, _ => none)

def pyroSectorCode : String → Option String
  | "1" => some "P1"
  | "2" => some "P2"
  | "3" => some "P3"
  | "4" => some "P4"
  | "5" => some "P5"
  | "6" => some "P6"
  | _ => none

def stationAliasParts : List String → Option (String × String)
  | [p₀, p₁, p₂] =>
    if eqIgnoreAsciiCase p₀ "rr" then some (p₁, p₂)
    else if eqIgnoreAsciiCase p₀ "rs" && isStationVerb p₁ then splitHyphen p₂
    else none
  | _ => none

def splitPyroStationSlug : List String → Option String
  | [p₀, p₁, p₂, p₃, p₄] =>
    if eqIgnoreAsciiCase p₀ "rs" && isStationVerb p₁ && eqIgnoreAsciiCase p₂ "pyro" then do
      stationCatalogSlug (← pyroSectorCode p₃) p₄
    else none
  | _ => none

def matchStationCatalogAlias {S : Type} (env : Env S) (parts : List String) (raw : String)
    (catalog : LocationCatalog) : Option LocationClassification := do
  let slug ← ((stationAliasParts parts).bind fun x => stationCatalogSlug x.1 x.2).or
    (splitPyroStationSlug parts)
  let hit ← catalog.lookupByToken slug
  return { fromCatalog env hit raw .catalog with
    tier := .spaceStation
    subtype := some "rest_stop" }

/-! ## Gateways -/

/-- The system that a gateway is named after. -/
def gatewayNamesake (key : String) : Option String :=
  (knownSystems key).or (if key = "magnus" then some "Magnus" else none)

/-- Two systems, of two tokens or of the halves of one. -/
def systemPair (first second : String) : Option (String × String) := do
  return (← knownSystems first, ← gatewayNamesake second)

/-- The token split at one of so many bytes. -/
def fusedPair (first : String) : List Nat → Checked (Option (String × String))
  | [] => some none
  | i :: is => do
    let (head, tail) ← splitAt first i
    match systemPair head tail with
    | some pair => return some pair
    | none => fusedPair first is

def knownSystemPair : List String → Checked (Option (String × String))
  | [] => some none
  | first :: rest =>
    let first := lower first
    match rest.head?.bind fun second => systemPair first (lower second) with
    | some pair => some (some pair)
    | none => fusedPair first (List.range' 1 (first.utf8ByteSize - 1))

def matchGateway (parts : List String) (raw : String) : Checked (Option LocationClassification) :=
  match parts.head? with
  | none => some none
  | some p₀ =>
    let start := if eqIgnoreAsciiCase p₀ "rr" then 1 else 0
    match parts[start]? with
    | none => some none
    | some jp =>
      if eqIgnoreAsciiCase jp "jp" then do
        let pair ← knownSystemPair (← tailFrom parts (start + 1))
        return pair.map fun x => syntheticStation (x.2 ++ " Gateway") "gateway" (some x.1) raw
      else some none

/-- The slugs under which a gateway may be catalogued. -/
def gatewaySlugs (dest : String) : List String := [dest ++ "-gateway", dest ++ "-gateway-2"]

/-- The slug finds a row of the system. -/
def inSystem (catalog : LocationCatalog) (system slug : String) : Bool :=
  (catalog.lookupBySlug slug).any fun e => e.system == some system

def stripSuffix (suf s : String) : Option String :=
  if suf.toList.isSuffixOf s.toList then
    some (String.ofList (s.toList.take (s.toList.length - suf.toList.length)))
  else none

def gatewaySlug (c : LocationClassification) (catalog : LocationCatalog) : Option String := do
  let dest := lower (← stripSuffix " Gateway" c.displayName)
  let system ← c.system
  (gatewaySlugs dest).find? (inSystem catalog system)

/-! ## Jump points -/

/-- The number of a token `jp<n>`. -/
def jpNumber (token : String) : Option Nat := (stripPrefix "jp" (lower token)).bind parseU32

/-- The loop over the tokens: where the first `jp<n>` stands, and its number. -/
def findJp : List String → Option (Nat × Nat)
  | [] => none
  | p :: ps =>
    match jpNumber p with
    | some n => some (0, n)
    | none => (findJp ps).map fun x => (x.1 + 1, x.2)

/-- `"rs" | "ext" | "entry" | "comm"` -/
def isEngineKeyword (s : String) : Bool := ["rs", "ext", "entry", "comm"].contains (lower s)

section
variable {S : Type} (env : Env S)

/-- Shape A, at a token. -/
def hyphenEndpoints (token : String) : Option (String × String) :=
  match splitHyphen token with
  | some (a, b) =>
    if a.isEmpty || b.isEmpty then none else some (titleCaseWord env a, titleCaseWord env b)
  | none => none

def jumpEndpoints (parts : List String) (jpPos : Nat) : Checked (Option (String × String)) := do
  match (← frontTo parts jpPos).findSome? (hyphenEndpoints env) with
  | some pair => return some pair
  | none =>
    if 2 ≤ jpPos then do
      let a ← parts[jpPos - 2]?
      let b ← parts[jpPos - 1]?
      if isEngineKeyword a || isEngineKeyword b then return none
      else return some (titleCaseWord env a, titleCaseWord env b)
    else return none

/-- Shape C. -/
def jumpOrigin (parts : List String) (jpPos : Nat) : Checked (Option String) :=
  if 1 ≤ jpPos then do
    let a ← parts[jpPos - 1]?
    if isEngineKeyword a then return none else return some (titleCaseWord env a)
  else some none

def matchJumpPoint (parts : List String) (raw : String) : Checked (Option LocationClassification) :=
  match findJp parts with
  | none => some none
  | some (jpPos, n) => do
    match ← jumpEndpoints env parts jpPos with
    | some (a, b) =>
      return some (synthetic (a ++ " ↔ " ++ b ++ " jump point #" ++ toString n) "jump_point"
        (some a) raw)
    | none =>
      match ← jumpOrigin env parts jpPos with
      | some o =>
        return some (synthetic (o ++ " jump point #" ++ toString n) "jump_point" (some o) raw)
      | none => return some (synthetic "Jump point" "jump_point" none raw)

/-! ## Patterns of one kind -/

def hasToken (parts : List String) (token : String) : Bool :=
  parts.any fun p => eqIgnoreAsciiCase p token

def matchNyxQvExtractionStation (parts : List String) (raw : String) :
    Option LocationClassification :=
  if hasToken parts "nyx" && hasToken parts "qvextractionstation" then
    some { syntheticStation "QV Breaker Station" "breaker_station" (some "Nyx") raw with
      parentBody := some "Nyx" }
  else none

/-- The text before the first hyphen. -/
def hyphenHead (s : String) : String := ((splitHyphen s).map (·.1)).getD s

def matchCommArray (parts : List String) (raw : String) : Option LocationClassification :=
  if Text.contains (lower raw) "comm_array" || Text.contains (lower raw) "commarray" then
    some (synthetic ("Comm array (" ++ parts.getLast?.getD "" ++ ")") "comm_array"
      (parts.findSome? fun p => bodyShortCodeSystem (hyphenHead p)) raw)
  else none

/-- A place that shows its tokens as its name. -/
def namedByTokens (subtype : String) (parts : List String) (raw : String) :
    LocationClassification :=
  synthetic (titleCaseSegments env parts) subtype none raw

def matchCrashSite (parts : List String) (raw : String) : Option LocationClassification :=
  if Text.contains (lower raw) "crash_site" || Text.contains (lower raw) "crashsite" then
    some (namedByTokens env "crash_site" parts raw)
  else none

def matchCave (parts : List String) (raw : String) : Option LocationClassification :=
  if hasToken parts "cave" || hasToken parts "caverns" || Text.contains (lower raw) "cave" then
    some (namedByTokens env "cave" parts raw)
  else none

def matchBunker (parts : List String) (raw : String) : Option LocationClassification :=
  if hasToken parts "bunker" then some (namedByTokens env "bunker" parts raw) else none

def matchDerelict (parts : List String) (raw : String) : Option LocationClassification :=
  if Text.contains (lower raw) "derelict" || Text.contains (lower raw) "salvage_yard" then
    some (namedByTokens env "derelict_ship" parts raw)
  else none

/-! ## Rest stops -/

/-- `"s1"` to `"s4"` -/
def sectorBody : String → Option String
  | "s1" => some "Hurston"
  | "s2" => some "Crusader"
  | "s3" => some "ArcCorp"
  | "s4" => some "microTech"
  | _ => none

/-- The body of the sector that stands behind `pyro`. -/
def pyroBody (rest : List String) : Option String := do
  let code ← pyroSectorCode (← rest.head?)
  return (← knownBodyShortCodes (lower code)).bodyDisplay

/-- The loop over the tail: the system and the body that are known so far. -/
def restStopContext (system parentBody : Option String) :
    List String → Option String × Option String
  | [] => (system, parentBody)
  | p :: rest =>
    let context := hyphenHead (lower p)
    match if system.isNone then knownSystems context else none with
    | some canon =>
      restStopContext (some canon) (if canon = "Pyro" then pyroBody rest else parentBody) rest
    | none =>
      match if system.isNone then sectorBody context else none with
      | some body => restStopContext (some "Stanton") (some body) rest
      | none =>
        match knownBodyShortCodes context with
        | some code =>
          restStopContext (system.or (some code.system)) (parentBody.or (some code.bodyDisplay))
            rest
        | none => restStopContext system parentBody rest

def restStopTail (parts : List String) : Checked (Option (List String)) :=
  match parts.findIdx? fun p => eqIgnoreAsciiCase p "rr" with
  | some rrIdx => (tailFrom parts (rrIdx + 1)).map some
  | none =>
    match parts with
    | p₀ :: p₁ :: _ :: _ =>
      if eqIgnoreAsciiCase p₀ "rs" && isStationVerb p₁ then (tailFrom parts 2).map some
      else some none
    | _ => some none

def matchRestStopEngine (parts : List String) (raw : String) :
    Checked (Option LocationClassification) := do
  match ← restStopTail parts with
  | none => return none
  | some tail =>
    let context := restStopContext none none tail
    let display :=
      if tail.isEmpty then "Rest Stop" else "Rest Stop (" ++ titleCaseSegments env tail ++ ")"
    return some { syntheticStation display "rest_stop" context.1 raw with
      parentBody := context.2 }

def matchRestStopGeneric (parts : List String) (raw : String) : Option LocationClassification :=
  if hasToken parts "reststop" || hasToken parts "rest_stop" then
    some (syntheticStation "Rest Stop" "rest_stop" none raw)
  else none

/-! ## Markers and nodes -/

def isDigitByte (b : UInt8) : Bool := 48 ≤ b && b ≤ 57

/-- What stands behind the `om` of a token. -/
def orbitalRest (low : String) : Checked (Option String) :=
  match (stripPrefix "om-" low).or (stripPrefix "om_" low) with
  | some rest => some (some rest)
  | none =>
    if (stripPrefix "om" low).isSome && 2 < low.utf8ByteSize then do
      if isDigitByte (← byteAt low 2) then (sliceFrom low 2).map some else return none
    else some none

/-- The loop over the tokens: a marker was seen, and its index. -/
def scanOrbital (sawOm : Bool) (omIndex : Option Nat) :
    List String → Checked (Bool × Option Nat)
  | [] => some (sawOm, omIndex)
  | p :: ps =>
    if lower p = "om" then scanOrbital true omIndex ps
    else do
      match (← orbitalRest (lower p)).bind parseU32 with
      | some n => scanOrbital true (some n) ps
      | none => scanOrbital sawOm omIndex ps

/-- A token that is a number from 1 to 99. -/
def bareIndex (token : String) : Option Nat :=
  (parseU32 token).filter fun n => 1 ≤ n && n ≤ 99

def matchOrbitalMarker (parts : List String) (raw : String) :
    Checked (Option LocationClassification) := do
  let (sawOm, omIndex) ← scanOrbital false none parts
  if sawOm then
    let omIndex := omIndex.or (parts.findSome? bareIndex)
    let bodyMeta := parts.findSome? fun p => knownBodyShortCodes (lower p)
    let display := match bodyMeta, omIndex with
      | some code, some n => code.bodyDisplay ++ " OM-" ++ toString n
      | some code, none => code.bodyDisplay ++ " orbital marker"
      | none, some n => "OM-" ++ toString n
      | none, none => "Orbital marker"
    return some { synthetic display "orbital_marker" (bodyMeta.map (·.system)) raw with
      parentBody := bodyMeta.map (·.bodyDisplay)
      placement := bodyMeta.map fun code => .orbitsBody code.bodyDisplay }
  else return none

def matchDynamicMarker (_parts : List String) (raw : String) : Option LocationClassification :=
  let low := lower raw
  if Text.contains low "navpoint_dynamic" || Text.contains low "dynamic_navpoint" then
    some (synthetic "Dynamic nav point" "nav_marker" none raw)
  else if Text.contains low "mission_qt" || Text.contains low "quantum_beacon" then
    some (synthetic "Mission marker" "mission_marker" none raw)
  else none

def systemHint (parts : List String) : Option String :=
  parts.findSome? fun p => (bodyShortCodeSystem p).or (knownSystems (lower p))

def matchProceduralNode (parts : List String) (raw : String) : Option LocationClassification := do
  let low := lower raw
  let (display, subtype) ←
    if Text.contains low "ab_mine" then some ("Asteroid mining node", "mining_node")
    else if Text.contains low "ab_collector" then some ("Gas collection node", "gas_node")
    else if Text.contains low "_cluster_" || (stripSuffix ".socpak" low).isSome then
      some ("Asteroid cluster", "asteroid_cluster")
    else if Text.contains low "racing_static" then some ("Race track", "race_track")
    else none
  return synthetic display subtype (systemHint parts) raw

/-! ## The resolution order -/

/-- `SYNTHETIC_MATCHERS` -/
def syntheticMatchers :
    List (List String → String → Checked (Option LocationClassification)) :=
  [matchGateway, matchJumpPoint env,
    fun parts raw => some (matchNyxQvExtractionStation parts raw),
    fun parts raw => some (matchCommArray parts raw),
    fun parts raw => some (matchCrashSite env parts raw),
    fun parts raw => some (matchCave env parts raw),
    fun parts raw => some (matchBunker env parts raw),
    fun parts raw => some (matchDerelict env parts raw),
    matchRestStopEngine env,
    fun parts raw => some (matchRestStopGeneric parts raw),
    matchOrbitalMarker,
    fun parts raw => some (matchDynamicMarker parts raw),
    fun parts raw => some (matchProceduralNode parts raw)]

/-- `find_map` over the matchers. -/
def firstMatch (parts : List String) (raw : String) :
    List (List String → String → Checked (Option LocationClassification)) →
    Checked (Option LocationClassification)
  | [] => some none
  | m :: ms => do
    match ← m parts raw with
    | some c => return some c
    | none => firstMatch parts raw ms

def systemOrBodyHeuristic (parts : List String) (raw : String) : Option LocationClassification :=
  ((parts.findSome? fun p => knownBodyShortCodes (lower p)).map fun code =>
      uncatalogued code.bodyDisplay .astronomicalObject none (some code.system) raw .heuristic).or
    ((parts.findSome? fun p => knownSystems (lower p)).map fun system =>
      uncatalogued (titleCaseSegments env parts) .anonymousPoi none (some system) raw .heuristic)

/-- Steps 2 to 6 of `classify`. -/
def classifyUnmatched [LinearOrder S] (parts : List String) (raw : String)
    (catalog : LocationCatalog) : LocationClassification :=
  let specific := parts.filter fun token => (knownSystems (lower token)).isNone
  let exact := (catalog.lookupByToken (String.join parts)).or
    (specific.findSome? catalog.lookupByToken)
  let fuzzy := catalog.fuzzyMatch env.score parts (systemHint parts)
  let deferred := parts.findSome? catalog.lookupByToken
  ((exact.map (fromCatalog env · raw .catalog)).or
    ((fuzzy.map (fromCatalog env · raw .fuzzy)).or
      ((deferred.map (fromCatalog env · raw .catalog)).or
        (systemOrBodyHeuristic env parts raw)))).getD
    (fallback (titleCaseSegments env parts) raw)

def classify [LinearOrder S] (raw : String) (catalog : LocationCatalog) :
    Checked LocationClassification := do
  let parts ← stripAndSplit raw
  if parts.isEmpty then return fallback raw raw
  else
    match matchStationCatalogAlias env parts raw catalog with
    | some c => return c
    | none =>
      match ← firstMatch parts raw (syntheticMatchers env) with
      | some c =>
        if c.subtype = some "gateway" then return { c with slug := gatewaySlug c catalog }
        else return c
      | none => return classifyUnmatched env parts raw catalog

end

end LocationClassifier

end StarStats
