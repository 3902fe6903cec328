import StarStats.Lib.Replace
import StarStats.Lib.Search

/-!
# Shapes of unknown lines (`starstats-core/src/unknown_lines.rs` `shape_of`, `coarse_shape_of`)

`shapeOf` replaces what varies in a line by placeholders, one kind after the other, and
`coarseShapeOf` goes on to the numbers and identifiers of the words that have no placeholder. Both
are defined on lists of characters; a token is split at byte offsets, as in the source.
-/

namespace StarStats

open Replace

/-- The classes of Unicode: `\d` and `\w` of a regular expression, and `char::is_alphanumeric`. -/
structure UnicodeClasses where
  digit : Char → Bool
  word : Char → Bool
  alphanumeric : Char → Bool
  digit_ascii : ∀ c, c.toNat < 128 → digit c = c.isDigit
  word_ascii : ∀ c, c.toNat < 128 → word c = (c.isAlphanum || c == '_')
  alphanumeric_ascii : ∀ c, c.toNat < 128 → alphanumeric c = c.isAlphanum
  word_of_digit : ∀ c, digit c = true → word c = true
  alphanumeric_of_digit : ∀ c, digit c = true → alphanumeric c = true

/-- `[0-9a-fA-F]` -/
def isAsciiHexDigit (c : Char) : Bool :=
  c.isDigit || ('a' ≤ c && c ≤ 'f') || ('A' ≤ c && c ≤ 'F')

/-- `[A-Za-z0-9_]` -/
def isNameChar (c : Char) : Bool := c.isAlphanum || c == '_'

namespace UnicodeClasses

variable (u : UnicodeClasses)

/-! ## The rules -/

/-- `\d{n}` -/
def digits (n : Nat) : Matcher := .times (.one u.digit) n

/-- `\d{1,n}` -/
def digitsUpTo (n : Nat) : Matcher := .seq (.one u.digit) (.upTo (.one u.digit) (n - 1))

/-- `TS_RE` -/
def tsRule : Rule where
  pattern := .inOrder [u.digits 4, .char '-', u.digits 2, .char '-', u.digits 2, .char 'T',
    u.digits 2, .char ':', u.digits 2, .char ':', u.digits 2,
    .opt (.seq (.char '.') (.plus (.one u.digit))), .opt (.char 'Z')]
  bounded := false
  replacement := "<TS>".toList

/-- `UUID_RE` -/
def uuidRule : Rule where
  pattern := .inOrder [.times (.one isAsciiHexDigit) 8, .char '-',
    .times (.one isAsciiHexDigit) 4, .char '-', .times (.one isAsciiHexDigit) 4, .char '-',
    .times (.one isAsciiHexDigit) 4, .char '-', .times (.one isAsciiHexDigit) 12]
  bounded := false
  replacement := "<UUID>".toList

/-- `GEID_RE` -/
def geidRule : Rule where
  pattern := .inOrder [.char '[', u.digits 5, .star (.one u.digit), .char ']']
  bounded := false
  replacement := "[<GEID>]".toList

/-- `IPPORT_RE` -/
def ipPortRule : Rule where
  pattern := .inOrder [u.digitsUpTo 3, .char '.', u.digitsUpTo 3, .char '.', u.digitsUpTo 3,
    .char '.', u.digitsUpTo 3, .opt (.seq (.char ':') (u.digitsUpTo 5))]
  bounded := true
  replacement := "<IPPORT>".toList

/-- `QUOTED_RE` -/
def quotedRule : Rule := quoteRule '"' "<STR>".toList

/-- `SQUOTED_RE` -/
def squotedRule : Rule := quoteRule '\'' "<STR>".toList

/-- `BRACKET_COMPOUND_RE` -/
def bracketCompoundRule : Rule where
  pattern := .inOrder [.char '[', .star (.one isNameChar), .one u.digit, .star (.one isNameChar),
    .plus (.seq (.char ':') (.plus (.one isNameChar))), .char ']']
  bounded := false
  replacement := "[<ID>]".toList

/-- `BRACKET_INT_RE` -/
def bracketIntRule : Rule where
  pattern := .inOrder [.char '[', .plus (.one u.digit), .char ']']
  bounded := false
  replacement := "[<N>]".toList

/-- `shape_of`, on the characters. -/
def shapeText (line : List Char) : List Char :=
  let s := u.tsRule.replaceAll u.word line
  let s := uuidRule.replaceAll u.word s
  let s := u.geidRule.replaceAll u.word s
  let s := u.ipPortRule.replaceAll u.word s
  let s := quotedRule.replaceAll u.word s
  let s := squotedRule.replaceAll u.word s
  let s := u.bracketCompoundRule.replaceAll u.word s
  u.bracketIntRule.replaceAll u.word s

def shapeOf (line : String) : String := String.ofList (u.shapeText line.toList)

/-! ## Coarse shapes -/

/-- The characters of a token that are looked at. -/
def isCoreChar (c : Char) : Bool := u.alphanumeric c || c == '_'

/-- The characters of a placeholder. -/
def isDelimiter (c : Char) : Bool := c ∈ ['<', '>', '[', ']', '"']

/-- `str::find`, in bytes. -/
def findByte (p : Char → Bool) : List Char → Option Nat
  | [] => none
  | c :: cs => if p c then some 0 else (findByte p cs).map (c.utf8Size + ·)

/-- `char_indices`, from a byte on. -/
def charIndices : Nat → List Char → List (Nat × Char)
  | _, [] => []
  | i, c :: cs => (i, c) :: charIndices (i + c.utf8Size) cs

/-- `split("::")` -/
def splitNamespaces : List Char → List (List Char)
  | [] => [[]]
  | ':' :: ':' :: cs => [] :: splitNamespaces cs
  | c :: cs =>
    match splitNamespaces cs with
    | [] => [[c]]
    | part :: parts => (c :: part) :: parts

def classifyCore (core : List Char) : List Char :=
  let isNumber := !core.isEmpty && core.all (fun c => c.isDigit || c == '.') &&
    core.any Char.isDigit
  if isNumber then "<NUM>".toList
  else
    let hasUnderscore := core.contains '_'
    let hasLetter := core.any Char.isAlpha
    let hasDigit := core.any Char.isDigit
    let innerUpper := (core.drop 1).any Char.isUpper
    let allCaps := 2 ≤ Text.byteLength core && core.all fun c => c.isUpper || c == '_'
    if hasLetter && (hasUnderscore || hasDigit || innerUpper || allCaps) then "<SYM>".toList
    else core

def classifyNamespaced (core : List Char) : List Char :=
  [':', ':'].intercalate ((splitNamespaces core).map classifyCore)

/-- `coarse_token`; nothing when it panics: at a split inside a character, at a difference below
zero, or when nothing is found from the end. -/
def coarseToken (tok : List Char) : Option (List Char) :=
  if tok.any isDelimiter then some tok
  else
    match findByte u.isCoreChar tok with
    | none => some tok
    | some start => do
      let last ← (charIndices 0 tok).reverse.find? fun x => u.isCoreChar x.2
      let stop := last.1 + last.2.utf8Size
      let (front, rest) ← Text.splitAtByte tok start
      if stop < start then none
      let (core, back) ← Text.splitAtByte rest (stop - start)
      return front ++ classifyNamespaced core ++ back

/-- `coarse_shape_of`, on the characters. -/
def coarseText (line : List Char) : Option (List Char) :=
  ((Text.fields (· == ' ') (u.shapeText line)).mapM u.coarseToken).map [' '].intercalate

def coarseShapeOf (line : String) : Option String := (u.coarseText line.toList).map String.ofList

/-- The classes as ASCII text sees them. -/
def ascii : UnicodeClasses where
  digit := Char.isDigit
  word := isNameChar
  alphanumeric := Char.isAlphanum
  digit_ascii := fun c (_ : 128 > c.toNat) => rfl
  word_ascii _ _ := rfl
  alphanumeric_ascii _ _ := rfl
  word_of_digit c h := by simp [isNameChar, Char.isAlphanum, h]
  alphanumeric_of_digit c h := by simp [Char.isAlphanum, h]

example : ascii.shapeOf "Item[0] for 'Bo' \"x\" 1.2.3.4:80 [12345] [9:a]" =
    "Item[<N>] for '<STR>' \"<STR>\" <IPPORT> [<GEID>] [<ID>]" := by decide +kernel

example : ascii.coarseShapeOf "Notice CEntity::Kill AEGS_Gladius 42 [12345]" =
    some "Notice <SYM>::Kill <SYM> <NUM> [<GEID>]" := by decide +kernel

end UnicodeClasses

end StarStats
