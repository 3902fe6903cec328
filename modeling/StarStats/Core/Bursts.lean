import Mathlib.Data.List.Sort
import StarStats.Core.Events
import StarStats.Core.LogLine

/-!
# Bursts (`starstats-core/src/templates.rs`)

A burst is an anchor line and the members behind it, no two neighbours of which have more than
`maxMemberGap` other lines between them. `detectBursts` claims the lines of each burst, for the
first rule that finds it, and `buildLoadoutCategories` and `buildLoadoutItems` describe the items
of a restored loadout.
-/

namespace StarStats

inductive StepMatch where
  | eventName (name : String)
  | bodyStartsWith (start : String)
  | bodyContains (needle : String)
  | any
  deriving DecidableEq

def lineMatches (line : LogLine) (mat : StepMatch) (tags : List String) : Bool :=
  (match mat with
    | .eventName name => line.eventName == some name
    | .bodyStartsWith start => start.toList.isPrefixOf line.body.toList
    | .bodyContains needle => Text.contains line.body needle
    | .any => true) &&
  tags.all line.tags.contains

structure BurstRule where
  id : String
  anchor : StepMatch
  member : StepMatch
  tags : List String
  minBurstSize : Nat
  maxMemberGap : Nat
  deriving DecidableEq

/-- Its places are those of its lines in the window. -/
structure BurstHit where
  ruleId : String
  startIndex : Nat
  endIndex : Nat
  size : Nat
  memberIndices : List Nat
  deriving DecidableEq

namespace BurstRule

/-- The walk behind an anchor, with the next line at `j` and `gap` others before it: the members
and the place where it stops. -/
def walk (rule : BurstRule) (consumed : List Nat) (j gap : Nat) : List LogLine → List Nat × Nat
  | [] => ([], j)
  | line :: rest =>
    if j ∉ consumed ∧ lineMatches line rule.member rule.tags then
      let after := rule.walk consumed (j + 1) 0 rest
      (j :: after.1, after.2)
    else if rule.maxMemberGap < gap + 1 then ([], j)
    else rule.walk consumed (j + 1) (gap + 1) rest

/-- The scan of one rule, with the next line at `i`; nothing before `resume` is looked at. -/
def scan (rule : BurstRule) (consumed : List Nat) (resume i : Nat) : List LogLine → List BurstHit
  | [] => []
  | line :: rest =>
    if i < resume ∨ i ∈ consumed ∨ lineMatches line rule.anchor rule.tags = false then
      rule.scan consumed resume (i + 1) rest
    else
      let walked := rule.walk consumed (i + 1) 0 rest
      let members := i :: walked.1
      if rule.minBurstSize ≤ members.length then
        { ruleId := rule.id
          startIndex := i
          endIndex := members.getLastD 0
          size := members.length
          memberIndices := members } ::
          rule.scan (consumed ++ members) walked.2 (i + 1) rest
      else rule.scan consumed resume (i + 1) rest

end BurstRule

/-- The bursts of one rule after another. -/
def detectFrom (window : List LogLine) (consumed : List Nat) : List BurstRule → List BurstHit
  | [] => []
  | rule :: rules =>
    let hits := rule.scan consumed 0 0 window
    hits ++ detectFrom window (consumed ++ hits.flatMap (·.memberIndices)) rules

def detectBursts (window : List LogLine) (rules : List BurstRule) : List BurstHit :=
  (detectFrom window [] rules).insertionSort (·.startIndex ≤ ·.startIndex)

/-! ## What a burst is -/

namespace BurstRule

/-- The places of the lines that match, the first line being at `i`. -/
def positions (rule : BurstRule) (i : Nat) : List LogLine → List Nat
  | [] => []
  | line :: rest =>
    if lineMatches line rule.member rule.tags then i :: rule.positions (i + 1) rest
    else rule.positions (i + 1) rest

/-- Two neighbouring matches are not too far apart. -/
def linked (rule : BurstRule) (p q : Nat) : Bool := q ≤ p + rule.maxMemberGap + 1

/-- The runs of matches of a window that are long enough. -/
def bursts (rule : BurstRule) (window : List LogLine) : List (List Nat) :=
  ((rule.positions 0 window).splitBy rule.linked).filter (rule.minBurstSize ≤ ·.length)

/-- A burst has lines before the place and from it on. -/
def Across (rule : BurstRule) (window : List LogLine) (place : Nat) : Prop :=
  ∃ run ∈ rule.bursts window, (∃ p ∈ run, p < place) ∧ ∃ p ∈ run, place ≤ p

/-- The hit that a run is reported as. -/
def hit (rule : BurstRule) (run : List Nat) : BurstHit where
  ruleId := rule.id
  startIndex := run.headD 0
  endIndex := run.getLastD 0
  size := run.length
  memberIndices := run

/-- Any member may be the anchor. -/
def Uniform (rule : BurstRule) : Prop := rule.anchor = rule.member

/-- No line matches both rules. -/
def Apart (rule other : BurstRule) : Prop :=
  ∀ line, ¬ (lineMatches line rule.member rule.tags = true ∧
    lineMatches line other.member other.tags = true)

end BurstRule

/-! ## Loadouts -/

/-- A bucket, and what an item id starts with or contains to be in it. -/
structure LoadoutBucket where
  name : String
  starts : List String
  needles : List String

/-- In the order in which they are tried. -/
def loadoutBuckets : List LoadoutBucket :=
  [⟨"weapons", ["weapon_", "wpn_", "ksar_", "gmni_"],
      ["_rifle_", "_pistol_", "_ar_", "_lmg_", "_smg_", "_dmr_", "_sniper_", "_shotgun_",
        "_ballistic_", "_energy_", "_p4ar"]⟩,
    ⟨"armor", ["armor_", "arm_", "helmet_"],
      ["_helmet_", "_torso_", "_arms_", "_legs_", "_undersuit_", "_backpack_", "_chest_",
        "heavy_armor_", "medium_armor_", "light_armor_"]⟩,
    ⟨"attachments", ["att_"],
      ["_scope_", "_grip_", "_magazine_", "_sight_", "_barrel_", "_muzzle_", "_suppressor_",
        "_compensator_", "_underbarrel_"]⟩,
    ⟨"consumables", ["consum_"],
      ["_medpen_", "_grenade_", "_hempen_", "_adrenpen_", "_detrapen_", "_oxypen_", "_frag_",
        "_flashbang_", "_smoke_grenade_", "_emp_grenade_"]⟩]

section
variable (toLowercase : String → String)

def categoriseLoadoutItem (itemId : String) : String :=
  let lower := toLowercase itemId
  let bucket := loadoutBuckets.find? fun b =>
    b.starts.any (·.toList.isPrefixOf lower.toList) || b.needles.any (Text.contains lower)
  (bucket.map (·.name)).getD "unknown"

/-- One more in the category. -/
def countCategory (category : String) : List (String × UInt64) → List (String × UInt64)
  | [] => [(category, 1)]
  | (c, n) :: counts =>
    if c = category then (c, n + 1) :: counts else (c, n) :: countCategory category counts

def buildLoadoutCategories (itemClasses : List String) : Option (List (String × UInt64)) :=
  if itemClasses.isEmpty then none
  else
    let categories := itemClasses.map (categoriseLoadoutItem toLowercase)
    some (categories.foldl (fun counts category => countCategory category counts) [])

def buildLoadoutItems (pairs : List (String × String)) : Option (List Events.LoadoutItem) :=
  if pairs.isEmpty then none
  else
    some (pairs.map fun (itemClass, port) =>
      ⟨itemClass, port, categoriseLoadoutItem toLowercase itemClass⟩)

end

end StarStats
