import StarStats.Core.Bursts

/-!
# Bursts with a ceiling on time (`starstats-core/src/templates.rs` `detect_bursts_with_time_gap`)

The scan of `detectBursts`, where a member that is too far in time from the member before it ends
the burst. What is too far is `apart` here.
-/

namespace StarStats

/-- `max_member_gap_secs` apart, in whole seconds; `parseTs` is in nanoseconds. -/
def memberTimeGapExceeds (parseTs : String → Option Int) (maxSecs : Int) (prevTs curTs : String) :
    Bool :=
  match parseTs prevTs, parseTs curTs with
  | some a, some b => maxSecs < ((b - a).tdiv 1000000000).natAbs
  | _, _ => false

section
variable (apart : LogLine → LogLine → Bool)

namespace BurstRule

/-- The walk behind an anchor; `prev` is the last member so far. -/
def walkWithin (rule : BurstRule) (consumed : List Nat) (prev : LogLine) (j gap : Nat) :
    List LogLine → List Nat × Nat
  | [] => ([], j)
  | line :: rest =>
    if j ∉ consumed ∧ lineMatches line rule.member rule.tags then
      if apart prev line then ([], j)
      else
        let after := rule.walkWithin consumed line (j + 1) 0 rest
        (j :: after.1, after.2)
    else if rule.maxMemberGap < gap + 1 then ([], j)
    else rule.walkWithin consumed prev (j + 1) (gap + 1) rest

/-- The scan of one rule, with the next line at `i`; nothing before `resume` is looked at. -/
def scanWithin (rule : BurstRule) (consumed : List Nat) (resume i : Nat) :
    List LogLine → List BurstHit
  | [] => []
  | line :: rest =>
    if i < resume ∨ i ∈ consumed ∨ lineMatches line rule.anchor rule.tags = false then
      rule.scanWithin consumed resume (i + 1) rest
    else
      let walked := rule.walkWithin apart consumed line (i + 1) 0 rest
      let members := i :: walked.1
      if rule.minBurstSize ≤ members.length then
        { ruleId := rule.id
          startIndex := i
          endIndex := members.getLastD 0
          size := members.length
          memberIndices := members } ::
          rule.scanWithin (consumed ++ members) walked.2 (i + 1) rest
      else rule.scanWithin consumed resume (i + 1) rest

end BurstRule

/-- The bursts of one rule after another. -/
def detectWithin (window : List LogLine) (consumed : List Nat) : List BurstRule → List BurstHit
  | [] => []
  | rule :: rules =>
    let hits := rule.scanWithin apart consumed 0 0 window
    hits ++ detectWithin window (consumed ++ hits.flatMap (·.memberIndices)) rules

end

def detectBurstsWithTimeGap (parseTs : String → Option Int) (maxSecs : Int)
    (window : List LogLine) (rules : List BurstRule) : List BurstHit :=
  (detectWithin (fun prev line =>
    memberTimeGapExceeds parseTs maxSecs prev.timestamp line.timestamp) window [] rules).insertionSort
      (·.startIndex ≤ ·.startIndex)

/-- With and without a ceiling. -/
def detectBurstsInner (parseTs : String → Option Int) (window : List LogLine)
    (rules : List BurstRule) : Option Int → List BurstHit
  | none => detectBursts window rules
  | some maxSecs => detectBurstsWithTimeGap parseTs maxSecs window rules

/-! ## What a reported burst is -/

/-- Two neighbouring members of a burst. -/
def BurstHit.Neighbours (hit : BurstHit) (p q : Nat) : Prop :=
  ∃ before after, hit.memberIndices = before ++ p :: q :: after

/-- What every burst of a rule is, the times of its members apart. -/
structure BurstHit.Ok (window : List LogLine) (rule : BurstRule) (hit : BurstHit) : Prop where
  ruleId : hit.ruleId = rule.id
  increasing : hit.memberIndices.Pairwise (· < ·)
  inside : ∀ p ∈ hit.memberIndices, p < window.length
  first : hit.memberIndices.head? = some hit.startIndex
  last : hit.memberIndices.getLast? = some hit.endIndex
  size : hit.size = hit.memberIndices.length
  enough : rule.minBurstSize ≤ hit.size
  anchor : ∃ line, window[hit.startIndex]? = some line ∧
    lineMatches line rule.anchor rule.tags = true
  member : ∀ p ∈ hit.memberIndices.tail, ∃ line, window[p]? = some line ∧
    lineMatches line rule.member rule.tags = true
  near : ∀ p q, hit.Neighbours p q → q - p - 1 ≤ rule.maxMemberGap

/-- What lies in time between two neighbours of a burst, where both have a time. -/
def BurstHit.EachGap (parseTs : String → Option Int) (window : List LogLine) (hit : BurstHit)
    (good : Int → Prop) : Prop :=
  ∀ p q, hit.Neighbours p q → ∀ prev line s t, window[p]? = some prev → window[q]? = some line →
    parseTs prev.timestamp = some s → parseTs line.timestamp = some t → good (t - s)

end StarStats
