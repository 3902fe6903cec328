import StarStats.Core.Events
import StarStats.Core.LogLine
import StarStats.Lib.Regex

/-!
# Remote parser rules (`starstats-core/src/parser_defs.rs`)

Rules that the server publishes for lines the built-in classifier does not know. A rule has an
anchor, the event name of the shell or a keyword of the body, and an expression for the body.

`apply_remote_rules` reads the captures with `rule.regex.captures(line.body)?`, and the `?` returns
from the function: a rule whose anchor matches is the last one that is tried
(`applyRemoteRules_first_iff`).
-/

namespace StarStats

open Events (RemoteMatch)
open Regex (Captures)

inductive RuleMatchKind where
  | eventName
  | bodyKeyword
  deriving DecidableEq

structure CompiledRemoteRule where
  id : String
  eventName : String
  matchKind : RuleMatchKind
  regex : String → Option Captures
  fields : List String

/-- `BTreeMap::insert` -/
def insertField {V : Type} (k : String) (v : V) : List (String × V) → List (String × V)
  | [] => [(k, v)]
  | (k', v') :: m =>
    if k < k' then (k, v) :: (k', v') :: m
    else if k = k' then (k, v) :: m
    else (k', v') :: insertField k v m

namespace CompiledRemoteRule

def matchesAnchor (rule : CompiledRemoteRule) (line : LogLine) : Bool :=
  match rule.matchKind with
  | .eventName => line.eventName == some rule.eventName
  | .bodyKeyword => Text.contains line.body rule.eventName

/-- The event of a match. -/
def event (rule : CompiledRemoteRule) (line : LogLine) (caps : Captures) : GameEvent :=
  .remoteMatch
    { timestamp := line.timestamp
      ruleId := rule.id
      eventName := rule.eventName
      fields := rule.fields.foldl
        (fun fields f => ((caps.name f).map (insertField f · fields)).getD fields) [] }

/-- The event of a rule whose anchor and expression both match. -/
def matchLine (rule : CompiledRemoteRule) (line : LogLine) : Option GameEvent :=
  if rule.matchesAnchor line then (rule.regex line.body).map (rule.event line) else none

end CompiledRemoteRule

def applyRemoteRules (line : LogLine) : List CompiledRemoteRule → Option GameEvent
  | [] => none
  | rule :: rules =>
    if rule.matchesAnchor line then (rule.regex line.body).map (rule.event line)
    else applyRemoteRules line rules

/-- What a rule list says of a line, the first match. -/
def firstMatch (line : LogLine) (rules : List CompiledRemoteRule) : Option GameEvent :=
  rules.findSome? (·.matchLine line)

section
variable {line : LogLine} {rule : CompiledRemoteRule} {rules : List CompiledRemoteRule}

/-- A rule with another anchor is passed over. -/
theorem applyRemoteRules_skip (h : rule.matchesAnchor line = false) :
    applyRemoteRules line (rule :: rules) = applyRemoteRules line rules := by
  rw [applyRemoteRules, h, if_neg Bool.false_ne_true]

/-- A rule whose anchor matches decides alone. -/
theorem applyRemoteRules_stop (h : rule.matchesAnchor line = true) :
    applyRemoteRules line (rule :: rules) = rule.matchLine line := by
  rw [applyRemoteRules, CompiledRemoteRule.matchLine, if_pos h, if_pos h]

theorem matchLine_skip (h : rule.matchesAnchor line = false) : rule.matchLine line = none := by
  rw [CompiledRemoteRule.matchLine, h, if_neg Bool.false_ne_true]

theorem firstMatch_eq_none :
    firstMatch line rules = none ↔ ∀ rule ∈ rules, rule.matchLine line = none :=
  List.findSome?_eq_none_iff

end

/-- The first match is returned exactly when the first rule whose anchor matches also matches the
body, or no rule of the list matches. -/
theorem applyRemoteRules_first_iff (line : LogLine) (rules : List CompiledRemoteRule) :
    applyRemoteRules line rules = firstMatch line rules ↔
      (∃ rule ∈ rules.find? (·.matchesAnchor line), (rule.regex line.body).isSome = true) ∨
        ∀ rule ∈ rules, rule.matchLine line = none := by
  induction rules with
  | nil => exact iff_of_true rfl (.inr fun _ h => nomatch h)
  | cons rule rules ih =>
    cases hanchor : rule.matchesAnchor line with
    | false =>
      have hmiss := matchLine_skip hanchor
      rw [applyRemoteRules_skip hanchor, firstMatch, List.findSome?_cons, hmiss, List.find?_cons,
        hanchor, List.forall_mem_cons]
      simpa only [firstMatch, hmiss, true_and] using ih
    | true =>
      rw [applyRemoteRules_stop hanchor, firstMatch, List.findSome?_cons, List.find?_cons, hanchor,
        List.forall_mem_cons]
      cases hregex : rule.regex line.body with
      | some caps =>
        have hhit : rule.matchLine line = some (rule.event line caps) := by
          rw [CompiledRemoteRule.matchLine, if_pos hanchor, hregex, Option.map_some]
        rw [hhit]
        exact iff_of_true rfl (.inl ⟨rule, rfl, by rw [hregex]; rfl⟩)
      | none =>
        have hmiss : rule.matchLine line = none := by
          rw [CompiledRemoteRule.matchLine, if_pos hanchor, hregex, Option.map_none]
        rw [hmiss]
        constructor
        · intro h
          exact .inr ⟨rfl, firstMatch_eq_none.1 h.symm⟩
        · rintro (⟨rule', hrule', hsome⟩ | ⟨-, hall⟩)
          · obtain rfl := Option.some.inj hrule'
            rw [hregex] at hsome
            cases hsome
          · exact (firstMatch_eq_none.2 hall).symm

def deadLine : LogLine where
  timestamp := "2026-06-19T16:15:56.148Z"
  level := some "Notice"
  eventName := some "[ActorState] Dead"
  body := "Actor 'Pilot' ejected due to the interior being unstreamed."
  tags := ["Actor"]

/-- A rule for `[ActorState] Dead` whose expression is a text. -/
def deadRule (id text : String) : CompiledRemoteRule where
  id
  eventName := "[ActorState] Dead"
  matchKind := .eventName
  regex := (Regex.Pattern.text text.toList).captures
  fields := []

/-- A second rule for the same event name is never tried. -/
theorem applyRemoteRules_shadowed :
    applyRemoteRules deadLine [deadRule "vehicle" "destroyed vehicle",
        deadRule "unstreamed" "being unstreamed"] = none ∧
      (deadRule "unstreamed" "being unstreamed").matchLine deadLine =
        some (.remoteMatch
          ⟨"2026-06-19T16:15:56.148Z", "unstreamed", "[ActorState] Dead", []⟩) := by
  decide +kernel

end StarStats
