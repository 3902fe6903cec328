import StarStats.Lib.Text

/-!
# The shell of a log line (`starstats-core/src/parser.rs` `structural_parse`)

`<TIMESTAMP> [LEVEL] <EventName> body [Tag][Tag]`. The level, the event name and the tags may be
missing. The regular expressions of the source never have to look back here, so they are read from
left to right, and the tags from the end.
-/

namespace StarStats

structure LogLine where
  timestamp : String
  level : Option String
  eventName : Option String
  body : String
  tags : List String
  deriving DecidableEq

namespace LogLine

open Text (isWhitespace)

/-- `\[(?P<level>[A-Za-z]+)\]\s+` at the front, if it is there. -/
def level? (cs : List Char) : Option String × List Char :=
  match cs with
  | '[' :: inner =>
    match inner.takeWhile Char.isAlpha, inner.dropWhile Char.isAlpha with
    | name@(_ :: _), ']' :: c :: after =>
      if isWhitespace c then (some (String.ofList name), after.dropWhile isWhitespace)
      else (none, cs)
    | _, _ => (none, cs)
  | _ => (none, cs)

/-- The characters up to the `>` that ends an event name, and what follows it. Inside a nested
`<…>` every character but `>` may stand. -/
def eventEnd (nested : Bool) : List Char → Option (List Char × List Char)
  | [] => none
  | '>' :: cs =>
    if nested then (eventEnd false cs).map fun (name, after) => ('>' :: name, after)
    else some ([], cs)
  | c :: cs =>
    (eventEnd (nested || c == '<') cs).map fun (name, after) => (c :: name, after)

/-- `<(?P<event>(?:[^<>]|<[^>]*>)+)>` at the front, if it is there. -/
def event? (cs : List Char) : Option String × List Char :=
  match cs with
  | '<' :: inner =>
    match eventEnd false inner with
    | some (name@(_ :: _), after) => (some (String.ofList name), after)
    | _ => (none, cs)
  | _ => (none, cs)

def isTagChar (c : Char) : Bool := c.isAlphanum || c == '_'

/-- The tags at the front of a reversed text and what stands before them. Of the tag that is being
read `inside` has the characters so far, and `back` is the text with it. -/
def tagRun (tags : List String) (back : List Char) (inside : Option (List Char)) :
    List Char → List String × List Char
  | [] =>
    match inside with
    | none => (tags, [])
    | some _ => (tags, back)
  | c :: cs =>
    match inside with
    | none => if c = ']' then tagRun tags (c :: cs) (some []) cs else (tags, c :: cs)
    | some name =>
      if isTagChar c then tagRun tags back (some (c :: name)) cs
      else if c = '[' ∧ name ≠ [] then tagRun (String.ofList name :: tags) cs none cs
      else (tags, back)

/-- The body and the trailing tags. -/
def bodyAndTags (rest : List Char) : String × List String :=
  let run := tagRun [] [] none (rest.reverse.dropWhile isWhitespace)
  (Text.trim (String.ofList run.2.reverse), run.1)

end LogLine

open LogLine in
def structuralParse (line : String) : Option LogLine :=
  match line.toList.reverse.dropWhile (fun c => c == '\r' || c == '\n') |>.reverse with
  | '<' :: inner =>
    match inner.takeWhile (· != '>'), inner.dropWhile (· != '>') with
    | ts@(_ :: _), '>' :: c :: after =>
      if Text.isWhitespace c then
        let level := level? (after.dropWhile Text.isWhitespace)
        let event := event? level.2
        let rest := event.2.dropWhile Text.isWhitespace
        if rest.contains '\n' then none
        else
          let body := bodyAndTags rest
          some
            { timestamp := String.ofList ts
              level := level.1
              eventName := event.1
              body := body.1
              tags := body.2 }
      else none
    | _, _ => none
  | _ => none

example : structuralParse
    "<2026-05-01T18:46:15.085Z> [Notice] <Load <lambda_1>> Item 'x' [A] [Team_B][C]\r\n" =
      some ⟨"2026-05-01T18:46:15.085Z", some "Notice", some "Load <lambda_1>", "Item 'x' [A]",
        ["Team_B", "C"]⟩ := by decide +kernel

end StarStats
