import StarStats.Core.Classify

/-!
# Requests at a shop (`parser.rs` `SHOP_BUY_RE`, `COMMODITY_BUY_RE`, `COMMODITY_SELL_RE`)

The engine logs a request as a function call, `SendShopBuyRequest(shopId=…, item=…, quantity=…)`.
Its expression has one optional group for each field, and each group looks behind what the one
before it has taken.
-/

namespace StarStats

open Regex Regex.Pattern

/-- `\d`: the decimal digits of Unicode. -/
structure DecimalDigits where
  accepts : Char → Bool
  ascii : ∀ c : Char, c.toNat < 128 → accepts c = c.isDigit

/-- `[A-Za-z0-9_]` -/
def isWordChar (c : Char) : Bool := c.isAlphanum || c == '_'

/-- A group `(?:.*?key=(?P<name>[…]+))?`, which may have several keys. -/
structure Slot where
  name : String
  keys : List (List Char)
  key : Pattern
  accepts : Char → Bool
  key_keys : Keys key
  words_key : key.words = keys.map (· ++ ['='])
  accepts_comma : accepts ',' = false
  accepts_close : accepts ')' = false

def Slot.pattern (g : Slot) : Pattern :=
  opt (seq (run (· != '\n') 0 false) (keyed g.key g.name g.accepts))

def slotChain : List Slot → Pattern
  | [] => text []
  | g :: gs => seq g.pattern (slotChain gs)

def shopSlot : Slot where
  name := "shop"
  keys := ["shopId".toList]
  key := text "shopId=".toList
  accepts c := isWordChar c || c == '-'
  key_keys := ⟨rfl, by decide⟩
  words_key := by decide
  accepts_comma := rfl
  accepts_close := rfl

/-- `item(?:Class)?=` -/
def itemSlot : Slot where
  name := "item"
  keys := ["itemClass".toList, "item".toList]
  key := seq (text "item".toList) (seq (opt (text "Class".toList)) (text "=".toList))
  accepts := isWordChar
  key_keys := ⟨rfl, by decide⟩
  words_key := by decide
  accepts_comma := rfl
  accepts_close := rfl

def quantitySlot (d : DecimalDigits) : Slot where
  name := "qty"
  keys := ["quantity".toList]
  key := text "quantity=".toList
  accepts := d.accepts
  key_keys := ⟨rfl, by decide⟩
  words_key := by decide
  accepts_comma := d.ascii ',' (by decide)
  accepts_close := d.ascii ')' (by decide)

def commoditySlot : Slot where
  name := "commodity"
  keys := ["commodity".toList]
  key := text "commodity=".toList
  accepts := isWordChar
  key_keys := ⟨rfl, by decide⟩
  words_key := by decide
  accepts_comma := rfl
  accepts_close := rfl

/-- `(?:quantity|amount)=` -/
def amountSlot : Slot where
  name := "qty"
  keys := ["quantity".toList, "amount".toList]
  key := seq (alt (text "quantity".toList) (text "amount".toList)) (text "=".toList)
  accepts c := c.isDigit || c == '.'
  key_keys := ⟨rfl, by decide⟩
  words_key := by decide
  accepts_comma := rfl
  accepts_close := rfl

/-- `Send(?:Standard)?(?:Item|Shop)?BuyRequest` -/
def shopBuyAnchor : Pattern :=
  seq (text "Send".toList) (seq (opt (text "Standard".toList))
    (seq (opt (alt (text "Item".toList) (text "Shop".toList))) (text "BuyRequest".toList)))

/-- A request: what the call is named, what is looked for before it, the expression, and the fields,
the number last. -/
structure Request where
  marker : List Char
  earlier : List String
  anchor : Pattern
  texts : List Slot
  number : Slot

namespace Request

def slots (r : Request) : List Slot := r.texts ++ [r.number]

def keys (r : Request) : List (List Char) := r.slots.flatMap (·.keys)

def pattern (r : Request) : Pattern := seq r.anchor (slotChain r.slots)

end Request

/-- `SHOP_BUY_RE` -/
def sendShopBuy (d : DecimalDigits) : Request where
  marker := "SendShopBuyRequest".toList
  earlier := ["[STOWING ON UNREGISTER]", "CreateMissionObjectiveMarker"]
  anchor := shopBuyAnchor
  texts := [shopSlot, itemSlot]
  number := quantitySlot d

/-- `COMMODITY_BUY_RE` -/
def sendCommodityBuy : Request where
  marker := "SendCommodityBuyRequest".toList
  earlier := ["[STOWING ON UNREGISTER]", "CreateMissionObjectiveMarker", "SendShopBuyRequest",
    "SendStandardItemBuyRequest", "SendStandardShopBuyRequest", "ShopFlowResponse"]
  anchor := text "SendCommodityBuyRequest".toList
  texts := [commoditySlot]
  number := amountSlot

/-- `COMMODITY_SELL_RE` -/
def sendCommoditySell : Request where
  marker := "SendCommoditySellRequest".toList
  earlier := sendCommodityBuy.earlier ++ ["SendCommodityBuyRequest"]
  anchor := text "SendCommoditySellRequest".toList
  texts := [commoditySlot]
  number := amountSlot

/-- The classifier with the three expressions. -/
def ClassifyEnv.withRequests (env : ClassifyEnv) (d : DecimalDigits) : ClassifyEnv :=
  { env with
    shopBuyRe := (sendShopBuy d).pattern.captures
    commodityBuyRe := sendCommodityBuy.pattern.captures
    commoditySellRe := sendCommoditySell.pattern.captures }

/-! ## Bodies -/

structure Arg where
  key : List Char
  value : List Char
  deriving DecidableEq

def Arg.text (a : Arg) : List Char := a.key ++ '=' :: a.value

/-- What stands behind the value of an argument. -/
def moreText (after : List Char) : List Arg → List Char
  | [] => ')' :: after
  | a :: as => ',' :: ' ' :: (a.text ++ moreText after as)

/-- What stands behind the opening parenthesis. -/
def argsText (after : List Char) : List Arg → List Char
  | [] => ')' :: after
  | a :: as => a.text ++ moreText after as

/-- No recognised key occurs in the text. -/
def Request.Free (r : Request) (s : List Char) : Prop := ∀ k ∈ r.keys, ¬ k <:+: s

/-- At most one of the arguments is one of the group. -/
def Slot.Once (g : Slot) (args : List Arg) : Prop :=
  args.Pairwise fun a b => a.key ∈ g.keys → b.key ∉ g.keys

/-- Keys and values in which a recognised key occurs as a key only, and at most once. -/
structure Request.Args (r : Request) (args : List Arg) : Prop where
  key : ∀ a ∈ args, a.key ∈ r.keys ∨ r.Free a.key
  key_eq : ∀ a ∈ args, '=' ∉ a.key
  value : ∀ a ∈ args, r.Free a.value
  once : ∀ g ∈ r.slots, g.Once args

/-- A body with a request and nothing else that is looked for before it. -/
structure RequestBody (r : Request) where
  before : List Char
  args : List Arg
  after : List Char
  before_free : r.Free before
  after_free : r.Free after
  args_ok : r.Args args
  line : '\n' ∉ before ++ r.marker ++ '(' :: argsText after args
  first : ∀ m ∈ r.earlier, ¬ m.toList <:+: before ++ r.marker ++ '(' :: argsText after args

def RequestBody.text {r : Request} (b : RequestBody r) : List Char :=
  b.before ++ r.marker ++ '(' :: argsText b.after b.args

end StarStats
