import Mathlib.Algebra.Order.Ring.Unbundled.Rat
import Mathlib.Algebra.Ring.Rat
import Mathlib.Data.List.Dedup
import Mathlib.Data.List.MinMax
import Mathlib.Data.List.Sort
import Mathlib.Data.Prod.Lex
import Mathlib.Data.String.Basic
import Mathlib.Order.OrderDual
import StarStats.Core.Wire
import StarStats.Lib.Search

/-!
# The location catalogue (`starstats-core/src/location_catalog.rs`)

The catalogue holds the places of the wiki and finds one by a key of it, or by the words that a
text shares with a place's name. The words that few names have count most, and the places of a word
are listed in an index, which leaves out the common words.

A `HashMap` is a function to its values, and a count is a natural number. The sum of the weights is
a function of the frequencies of the shared words, in the order of the words.
-/

namespace StarStats

inductive Placement where
  | onBody (body : String)
  | orbitsBody (body : String)
  | lagrangePoint (lagrange : UInt8) (body : String)
  | sunwardFrom (body : String)
  | angleFrom (degrees : Int16) (body : String)
  deriving DecidableEq

structure LocationTaxonomy where
  tier : Option LocationTier
  subtype : Option String
  placement : Option Placement
  operator : Option String
  faction : Option String
  deriving DecidableEq

structure LocationCatalogEntry where
  slug : String
  displayName : String
  system : Option String
  parentBody : Option String
  engineTag : Option String
  classification : Option String
  taxonomy : LocationTaxonomy
  deriving DecidableEq

def LocationCatalogEntry.isPresent (e : LocationCatalogEntry) : Bool :=
  !e.slug.isEmpty && !e.displayName.isEmpty

/-! ## Words -/

inductive CharKind where
  | upper
  | lower
  | digit
  | other
  deriving DecidableEq

def charKind (c : Char) : CharKind :=
  if c.isDigit then .digit else if c.isUpper then .upper else if c.isLower then .lower else .other

/-- A word ends between the two. -/
def isBoundary : Option CharKind → CharKind → Bool
  | _, .other => true
  | some .other, _ => true
  | some .lower, .upper => true
  | some .digit, .upper => true
  | some .lower, .digit => true
  | some .upper, .digit => true
  | some .digit, .lower => true
  | _, _ => false

/-- The loop of `content_tokens`: the words that are complete, the one that is being read, and the
kind of the last character. -/
def tokensFrom (tokens : List (List Char)) (cur : List Char) (prev : Option CharKind) :
    List Char → List (List Char)
  | [] => if cur.isEmpty then tokens else tokens ++ [cur]
  | c :: cs =>
    let k := charKind c
    let ends := isBoundary prev k && !cur.isEmpty
    let tokens := if ends then tokens ++ [cur] else tokens
    let cur := if ends then [] else cur
    tokensFrom tokens (if k = .other then cur else cur ++ [c.toLower]) (some k) cs

def systemTokens : List String := ["stanton", "pyro", "nyx", "castra", "terra", "sol"]

def allDigits (s : String) : Bool := s.toList.all Char.isDigit

def contentTokens (s : String) : List String :=
  ((tokensFrom [] [] none s.toList).map String.ofList).filter fun t =>
    (3 ≤ t.utf8ByteSize || allDigits t) && !systemTokens.contains t

/-- The words of a name, sorted, each once. -/
def nameTokens (displayName : String) : List String :=
  ((contentTokens displayName).insertionSort (· ≤ ·)).dedup

/-- `"New Babbage"`, `"NewBabbage"` and `"new-babbage"` have one key. -/
def normalizeName (name : String) : String :=
  String.ofList ((name.toList.filter Char.isAlphanum).map Char.toLower)

/-! ## The catalogue -/

structure LocationCatalog where
  entries : List LocationCatalogEntry
  byEngineTag : String → Option LocationCatalogEntry
  bySlug : String → Option LocationCatalogEntry
  byNormalizedName : String → Option LocationCatalogEntry
  entryTokens : List (List String)
  nameTokenDf : String → Option Nat
  nameTokenIndex : String → Option (List Nat)

def maxIndexDf : Nat := 40

def fuzzyAnchorDf : Nat := 4

def affiliationNoise : List String :=
  ["hydro", "dynamics", "corp", "corporation", "industries", "industrial", "manufacturing",
    "security", "logistics", "aerospace"]

namespace LocationCatalog

def empty : LocationCatalog :=
  ⟨[], fun _ => none, fun _ => none, fun _ => none, [], fun _ => none, fun _ => none⟩

/-- One more name has the word. -/
def countToken (df : String → Option Nat) (tok : String) : String → Option Nat :=
  Function.update df tok (some ((df tok).getD 0 + 1))

/-- The first pass, for an entry. -/
def add (c : LocationCatalog) (entry : LocationCatalogEntry) : LocationCatalog :=
  if entry.isPresent then
    let toks := nameTokens entry.displayName
    { c with
      byEngineTag := match entry.engineTag with
        | some tag => Function.update c.byEngineTag (Text.lower tag) (some entry)
        | none => c.byEngineTag
      bySlug := Function.update c.bySlug (Text.lower entry.slug) (some entry)
      byNormalizedName :=
        Function.update c.byNormalizedName (normalizeName entry.displayName) (some entry)
      nameTokenDf := toks.foldl countToken c.nameTokenDf
      entryTokens := c.entryTokens ++ [toks]
      entries := c.entries ++ [entry] }
  else c

/-- The second pass, for a word of the entry `idx`. -/
def indexToken (df : String → Option Nat) (idx : Nat) (index : String → Option (List Nat))
    (tok : String) : String → Option (List Nat) :=
  if (df tok).getD 0 ≤ maxIndexDf then
    Function.update index tok (some ((index tok).getD [] ++ [idx]))
  else index

/-- The second pass. -/
def buildIndex (c : LocationCatalog) : LocationCatalog :=
  { c with
    nameTokenIndex := c.entryTokens.zipIdx.foldl
      (fun index x => x.1.foldl (indexToken c.nameTokenDf x.2) index) c.nameTokenIndex }

def fromEntries (entries : List LocationCatalogEntry) : LocationCatalog :=
  (entries.foldl add empty).buildIndex

def lookupByEngineTag (c : LocationCatalog) (tag : String) : Option LocationCatalogEntry :=
  c.byEngineTag (Text.lower tag)

def lookupBySlug (c : LocationCatalog) (slug : String) : Option LocationCatalogEntry :=
  c.bySlug (Text.lower slug)

def lookupByName (c : LocationCatalog) (name : String) : Option LocationCatalogEntry :=
  c.byNormalizedName (normalizeName name)

def lookupByToken (c : LocationCatalog) (token : String) : Option LocationCatalogEntry :=
  (c.lookupByEngineTag token).or ((c.lookupBySlug token).or (c.lookupByName token))

/-! ## The fuzzy match -/

/-- The words of a query, each once, in the order in which they come. -/
def queryTokens (tokens : List String) : List String :=
  tokens.foldl (fun query t => (contentTokens t).foldl
    (fun query tok => if query.contains tok then query else query ++ [tok]) query) []

/-- A word that licenses a match. -/
def isAnchor (df : Nat) (tok : String) : Bool :=
  df ≤ fuzzyAnchorDf && 3 ≤ tok.utf8ByteSize && !allDigits tok && !affiliationNoise.contains tok

/-- `catalog.name_token_df.get(tok).copied().unwrap_or(1).max(1)` -/
def dfOf (c : LocationCatalog) (tok : String) : Nat := max ((c.nameTokenDf tok).getD 1) 1

structure Scored (S : Type) where
  entry : LocationCatalogEntry
  score : S
  shared : Nat

variable {S : Type} [LinearOrder S] (score : List Nat → S)

/-- The other system, when both are known. -/
def otherSystem (systemHint : Option String) (entry : LocationCatalogEntry) : Bool :=
  match systemHint, entry.system with
  | some hint, some sys => !Text.eqIgnoreAsciiCase hint sys
  | _, _ => false

/-- The score of the entry at an index, unless a guard refuses it. -/
def scoreAt (c : LocationCatalog) (query : List String) (systemHint : Option String) (i : Nat) :
    Option (Scored S) :=
  match c.entries[i]?, c.entryTokens[i]? with
  | some entry, some toks =>
    if otherSystem systemHint entry then none
    else
      let shared := toks.filter query.contains
      if shared.any fun tok => isAnchor (c.dfOf tok) tok then
        some ⟨entry, score (shared.map c.dfOf), shared.length⟩
      else none
  | _, _ => none

def Scored.better (s b : Scored S) : Bool :=
  decide (b.score < s.score) || (decide (s.score = b.score) && decide (b.shared < s.shared)) ||
    (decide (s.score = b.score) && decide (s.shared = b.shared) &&
      decide (s.entry.slug < b.entry.slug))

/-- The better of what is best so far and the next one. -/
def keepBest (best : Option (Scored S)) (s : Scored S) : Option (Scored S) :=
  match best with
  | none => some s
  | some b => if s.better b then some s else some b

/-- Entries that share a word of the index with the query. -/
def candidates (c : LocationCatalog) (query : List String) : List Nat :=
  ((query.flatMap fun tok => (c.nameTokenIndex tok).getD []).insertionSort (· ≤ ·)).dedup

def fuzzyMatch (c : LocationCatalog) (tokens : List String) (systemHint : Option String) :
    Option LocationCatalogEntry :=
  let query := queryTokens tokens
  if query.isEmpty then none
  else
    ((c.candidates query).foldl
      (fun best i => match c.scoreAt score query systemHint i with
        | none => best
        | some s => keepBest best s) none).map (·.entry)

/-! ## What the catalogue holds -/

/-- How many names have the word. -/
def docFreq (entries : List LocationCatalogEntry) (tok : String) : Nat :=
  entries.countP fun e => e.isPresent && (nameTokens e.displayName).contains tok

section
variable {entries : List LocationCatalogEntry} {c : LocationCatalog}

theorem getD_foldl_countToken {toks : List String} (hnodup : toks.Nodup) (df : String → Option Nat)
    (tok : String) :
    ((toks.foldl countToken df) tok).getD 0 =
      (df tok).getD 0 + if toks.contains tok then 1 else 0 := by
  induction toks generalizing df with
  | nil => rfl
  | cons t toks ih =>
    obtain ⟨hnot, hnodup⟩ := List.nodup_cons.1 hnodup
    rw [List.foldl_cons, ih hnodup, countToken]
    by_cases heq : tok = t
    · subst heq
      rw [Function.update_self]
      simp [hnot]
    · rw [Function.update_of_ne heq]
      simp [heq]

theorem nodup_nameTokens (displayName : String) : (nameTokens displayName).Nodup :=
  List.nodup_dedup _

theorem add_of_not_present {e : LocationCatalogEntry} (h : e.isPresent = false) :
    c.add e = c := by
  rw [add, h, if_neg Bool.false_ne_true]

theorem foldl_add (l : List LocationCatalogEntry) (c : LocationCatalog) :
    (l.foldl add c).entries = c.entries ++ l.filter (·.isPresent) ∧
    (l.foldl add c).entryTokens =
      c.entryTokens ++ (l.filter (·.isPresent)).map (nameTokens ·.displayName) ∧
    (l.foldl add c).nameTokenIndex = c.nameTokenIndex ∧
    ∀ tok, ((l.foldl add c).nameTokenDf tok).getD 0 =
      (c.nameTokenDf tok).getD 0 + docFreq l tok := by
  induction l generalizing c with
  | nil => simp [docFreq]
  | cons e l ih =>
    obtain ⟨hentries, htokens, hindex, hdf⟩ := ih (c.add e)
    rw [List.foldl_cons, hentries, htokens, hindex]
    cases he : e.isPresent with
    | false =>
      rw [add_of_not_present he] at hdf ⊢
      refine ⟨by simp [he], by simp [he], rfl, fun tok => ?_⟩
      rw [hdf]
      simp [docFreq, he]
    | true =>
      refine ⟨by simp [add, he], by simp [add, he], by simp [add, he], fun tok => ?_⟩
      rw [hdf]
      simp only [add, he, if_true, getD_foldl_countToken (nodup_nameTokens _), docFreq,
        List.countP_cons, Bool.true_and]
      omega

theorem fromEntries_entries : (fromEntries entries).entries = entries.filter (·.isPresent) :=
  (foldl_add entries empty).1

theorem fromEntries_entryTokens : (fromEntries entries).entryTokens =
    (fromEntries entries).entries.map (nameTokens ·.displayName) := by
  rw [fromEntries_entries]
  exact (foldl_add entries empty).2.1

theorem fromEntries_nameTokenDf (tok : String) :
    ((fromEntries entries).nameTokenDf tok).getD 0 = docFreq entries tok := by
  have hdf := (foldl_add entries empty).2.2.2 tok
  rwa [show (empty.nameTokenDf tok).getD 0 = 0 from rfl, Nat.zero_add] at hdf

/-- The frequency of a word that some name has. -/
theorem dfOf_eq {tok : String} (h : 0 < docFreq entries tok) :
    (fromEntries entries).dfOf tok = docFreq entries tok := by
  have hdf := @fromEntries_nameTokenDf entries tok
  rw [dfOf]
  cases hget : (fromEntries entries).nameTokenDf tok with
  | none =>
    rw [hget] at hdf
    exact absurd hdf (by simp; omega)
  | some n =>
    rw [hget] at hdf
    simp only [Option.getD_some] at hdf ⊢
    omega

theorem docFreq_pos {e : LocationCatalogEntry} (he : e ∈ entries.filter (·.isPresent))
    {tok : String} (htok : tok ∈ nameTokens e.displayName) : 0 < docFreq entries tok := by
  obtain ⟨hmem, hpresent⟩ := List.mem_filter.1 he
  exact List.countP_pos_iff.2 ⟨e, hmem, by simp [hpresent, htok]⟩

/-! ## The index -/

theorem mem_foldl_indexToken {df : String → Option Nat} {idx i : Nat} {tok : String}
    (toks : List String) (index : String → Option (List Nat)) :
    i ∈ ((toks.foldl (indexToken df idx) index) tok).getD [] ↔
      i ∈ (index tok).getD [] ∨ i = idx ∧ tok ∈ toks ∧ (df tok).getD 0 ≤ maxIndexDf := by
  induction toks generalizing index with
  | nil => simp
  | cons t toks ih =>
    rw [List.foldl_cons, ih, indexToken]
    split
    case isTrue hle =>
      by_cases heq : tok = t
      · subst heq
        rw [Function.update_self]
        simp [hle]
        tauto
      · rw [Function.update_of_ne heq]
        simp [heq]
    case isFalse hgt =>
      by_cases heq : tok = t
      · subst heq
        simp [hgt]
      · simp [heq]

theorem mem_index {df : String → Option Nat} {i : Nat} {tok : String}
    (l : List (List String × Nat)) (index : String → Option (List Nat)) :
    i ∈ ((l.foldl (fun index x => x.1.foldl (indexToken df x.2) index) index) tok).getD [] ↔
      i ∈ (index tok).getD [] ∨
        (∃ toks, (toks, i) ∈ l ∧ tok ∈ toks) ∧ (df tok).getD 0 ≤ maxIndexDf := by
  induction l generalizing index with
  | nil => simp
  | cons x l ih =>
    rw [List.foldl_cons, ih, mem_foldl_indexToken]
    constructor
    · rintro ((h | ⟨rfl, htok, hle⟩) | ⟨⟨toks, hmem, htok⟩, hle⟩)
      · exact .inl h
      · exact .inr ⟨⟨x.1, List.mem_cons_self, htok⟩, hle⟩
      · exact .inr ⟨⟨toks, List.mem_cons_of_mem _ hmem, htok⟩, hle⟩
    · rintro (h | ⟨⟨toks, hmem, htok⟩, hle⟩)
      · exact .inl (.inl h)
      · rcases List.mem_cons.1 hmem with rfl | hmem
        · exact .inl (.inr ⟨rfl, htok, hle⟩)
        · exact .inr ⟨⟨toks, hmem, htok⟩, hle⟩

/-- The index lists the entries of a word, unless the word is common. -/
theorem mem_nameTokenIndex {i : Nat} {tok : String} :
    i ∈ ((fromEntries entries).nameTokenIndex tok).getD [] ↔
      (∃ e, (fromEntries entries).entries[i]? = some e ∧ tok ∈ nameTokens e.displayName) ∧
        docFreq entries tok ≤ maxIndexDf := by
  have hempty : (entries.foldl add empty).nameTokenIndex tok = none := by
    rw [(foldl_add entries empty).2.2.1]
    rfl
  have hplace : ∀ toks, (toks, i) ∈ (fromEntries entries).entryTokens.zipIdx ↔
      ∃ e, (fromEntries entries).entries[i]? = some e ∧ nameTokens e.displayName = toks := by
    intro toks
    rw [List.mem_zipIdx_iff_getElem?, fromEntries_entryTokens, List.getElem?_map,
      Option.map_eq_some_iff]
  have hindex := @mem_index (fromEntries entries).nameTokenDf i tok
    (fromEntries entries).entryTokens.zipIdx (entries.foldl add empty).nameTokenIndex
  rw [fromEntries_nameTokenDf, hempty] at hindex
  refine hindex.trans ?_
  simp only [Option.getD_none, List.not_mem_nil, false_or, hplace]
  refine and_congr_left fun _ => ⟨?_, ?_⟩
  · rintro ⟨toks, ⟨e, he, rfl⟩, htok⟩
    exact ⟨e, he, htok⟩
  · rintro ⟨e, he, htok⟩
    exact ⟨_, ⟨e, he, rfl⟩, htok⟩

end

/-! ## The query -/

theorem mem_addTokens {toks query : List String} {tok : String} :
    tok ∈ toks.foldl (fun query tok => if query.contains tok then query else query ++ [tok]) query ↔
      tok ∈ query ∨ tok ∈ toks := by
  induction toks generalizing query with
  | nil => simp
  | cons t toks ih =>
    rw [List.foldl_cons, ih, List.mem_cons]
    split
    case isTrue hmem =>
      have ht : t ∈ query := by simpa using hmem
      constructor
      · exact Or.imp_right .inr
      · rintro (h | rfl | h)
        · exact .inl h
        · exact .inl ht
        · exact .inr h
    case isFalse => rw [List.mem_append, List.mem_singleton, or_assoc]

theorem mem_queryTokens {tokens : List String} {tok : String} :
    tok ∈ queryTokens tokens ↔ ∃ t ∈ tokens, tok ∈ contentTokens t := by
  have hfold : ∀ query : List String, tok ∈ tokens.foldl (fun query t => (contentTokens t).foldl
      (fun query tok => if query.contains tok then query else query ++ [tok]) query) query ↔
        tok ∈ query ∨ ∃ t ∈ tokens, tok ∈ contentTokens t := by
    induction tokens with
    | nil => simp
    | cons t tokens ih =>
      intro query
      rw [List.foldl_cons, ih, mem_addTokens, or_assoc, List.exists_mem_cons_iff]
  rw [queryTokens, hfold]
  simp

/-! ## An exhaustive search -/

/-- The words of the query. -/
def queryWords (tokens : List String) : List String := tokens.flatMap contentTokens

/-- The words that a place shares with the query. -/
def sharedTokens (tokens : List String) (e : LocationCatalogEntry) : List String :=
  (nameTokens e.displayName).filter (queryWords tokens).contains

/-- A place that may be found: it declares no other system, and shares a rare word of its own. -/
structure Eligible (entries : List LocationCatalogEntry) (tokens : List String)
    (systemHint : Option String) (e : LocationCatalogEntry) : Prop where
  mem : e ∈ entries
  present : e.isPresent = true
  system : ∀ hint ∈ systemHint, ∀ sys ∈ e.system, Text.lower hint = Text.lower sys
  anchor : ∃ tok ∈ sharedTokens tokens e, 3 ≤ tok.length ∧ allDigits tok = false ∧
    tok ∉ affiliationNoise ∧ docFreq entries tok ≤ fuzzyAnchorDf

/-- The sum for a place. -/
def scoreOf (entries : List LocationCatalogEntry) (tokens : List String)
    (e : LocationCatalogEntry) : S := score ((sharedTokens tokens e).map (docFreq entries))

/-- By the score, then the number of shared words, then the smaller slug. -/
def Beats (entries : List LocationCatalogEntry) (tokens : List String)
    (e e' : LocationCatalogEntry) : Prop :=
  scoreOf score entries tokens e' < scoreOf score entries tokens e ∨
  scoreOf score entries tokens e = scoreOf score entries tokens e' ∧
    ((sharedTokens tokens e').length < (sharedTokens tokens e).length ∨
      (sharedTokens tokens e).length = (sharedTokens tokens e').length ∧ e.slug < e'.slug)

/-- What the running comparison compares. -/
def Scored.key (s : Scored S) : S ×ₗ ℕ ×ₗ Stringᵒᵈ :=
  toLex (s.score, toLex (s.shared, OrderDual.toDual s.entry.slug))

theorem Scored.better_iff {s b : Scored S} : s.better b = true ↔ b.key < s.key := by
  simp only [better, key, Bool.or_eq_true, Bool.and_eq_true, decide_eq_true_eq,
    Prod.Lex.toLex_lt_toLex, OrderDual.toDual_lt_toDual]
  constructor
  · rintro ((h | ⟨hs, h⟩) | ⟨⟨hs, hn⟩, h⟩)
    · exact .inl h
    · exact .inr ⟨hs.symm, .inl h⟩
    · exact .inr ⟨hs.symm, .inr ⟨hn.symm, h⟩⟩
  · rintro (h | ⟨hs, h | ⟨hn, h⟩⟩)
    · exact .inl (.inl h)
    · exact .inl (.inr ⟨hs.symm, h⟩)
    · exact .inr ⟨⟨hs.symm, hn.symm⟩, h⟩

theorem foldl_keepBest (l : List (Scored S)) : l.foldl keepBest none = l.argmax Scored.key := by
  have hstep : ∀ (best : Option (Scored S)) (s : Scored S),
      keepBest best s = List.argAux (fun b c => c.key < b.key) best s := by
    intro best s
    cases best with
    | none => rfl
    | some b => simp [keepBest, List.argAux, Scored.better_iff]
  rw [List.argmax]
  congr 1
  funext best s
  exact hstep best s

theorem fuzzyMatch_eq_argmax (c : LocationCatalog) (tokens : List String)
    (systemHint : Option String) : c.fuzzyMatch score tokens systemHint =
      (((c.candidates (queryTokens tokens)).filterMap
        (c.scoreAt score (queryTokens tokens) systemHint)).argmax Scored.key).map (·.entry) := by
  rw [fuzzyMatch]
  split
  case isTrue hempty =>
    have hnil : queryTokens tokens = [] := List.isEmpty_iff.1 hempty
    rw [hnil]
    rfl
  case isFalse =>
    rw [← foldl_keepBest, List.foldl_filterMap]
    congr 2
    funext best i
    cases c.scoreAt score (queryTokens tokens) systemHint i <;> rfl

/-! ## Words are ASCII -/

def Ascii (l : List Char) : Prop := ∀ c ∈ l, c.toNat < 128

theorem utf8ByteSize_of_ascii {l : List Char} (h : Ascii l) :
    (String.ofList l).utf8ByteSize = (String.ofList l).length := by
  have hone : ∀ c ∈ l, c.utf8Size = 1 := fun c hc =>
    Char.utf8Size_eq_one_iff.2 (UInt32.le_iff_toNat_le.2 (Nat.le_of_lt_succ (h c hc)))
  rw [← Text.byteLength_toList, String.toList_ofList, Text.byteLength_ascii hone,
    String.length_ofList]

theorem toNat_of_charKind {c : Char} (h : charKind c ≠ .other) : c.toNat ≤ 122 := by
  rw [charKind] at h
  split at h
  case isTrue hdigit => exact (Char.isDigit_iff_toNat.1 hdigit).2.trans (by decide)
  case isFalse =>
    split at h
    case isTrue hupper =>
      have hle : c.toNat ≤ 'Z'.toNat := UInt32.le_iff_toNat_le.1 (of_decide_eq_true hupper).2
      exact hle.trans (by decide)
    case isFalse =>
      split at h
      case isTrue hlower =>
        exact UInt32.le_iff_toNat_le.1 (of_decide_eq_true (Bool.and_eq_true_iff.1 hlower).2)
      case isFalse => exact absurd rfl h

theorem toLower_ascii {c : Char} (h : charKind c ≠ .other) : c.toLower.toNat < 128 := by
  have hle := toNat_of_charKind h
  by_cases hup : 65 ≤ c.toNat ∧ c.toNat ≤ 90
  case pos =>
    rw [Text.toNat_toLower hup]
    omega
  case neg =>
    rw [Text.toLower_of_not_upper hup]
    omega

theorem ascii_of_mem_tokensFrom {cs cur : List Char} {tokens : List (List Char)}
    {prev : Option CharKind} (htokens : ∀ t ∈ tokens, Ascii t) (hcur : Ascii cur) :
    ∀ t ∈ tokensFrom tokens cur prev cs, Ascii t := by
  induction cs generalizing tokens cur prev with
  | nil =>
    rw [tokensFrom]
    split
    · exact htokens
    · exact List.forall_mem_append.2 ⟨htokens, List.forall_mem_singleton.2 hcur⟩
  | cons c cs ih =>
    rw [tokensFrom]
    refine ih ?_ ?_
    · split
      · exact List.forall_mem_append.2 ⟨htokens, List.forall_mem_singleton.2 hcur⟩
      · exact htokens
    · have hnext : ∀ {l : List Char}, Ascii l →
          Ascii (if charKind c = .other then l else l ++ [c.toLower]) := by
        intro l hl
        split
        case isTrue => exact hl
        case isFalse hkind =>
          exact List.forall_mem_append.2 ⟨hl, List.forall_mem_singleton.2 (toLower_ascii hkind)⟩
      refine hnext ?_
      split
      · exact fun _ h => absurd h List.not_mem_nil
      · exact hcur

theorem length_of_mem_contentTokens {s tok : String} (h : tok ∈ contentTokens s) :
    tok.utf8ByteSize = tok.length := by
  obtain ⟨l, hl, rfl⟩ := List.mem_map.1 (List.mem_filter.1 h).1
  exact utf8ByteSize_of_ascii (ascii_of_mem_tokensFrom
    (fun _ h => absurd h List.not_mem_nil) (fun _ h => absurd h List.not_mem_nil) l hl)

theorem mem_nameTokens {displayName tok : String} :
    tok ∈ nameTokens displayName ↔ tok ∈ contentTokens displayName := by
  rw [nameTokens, List.mem_dedup, List.mem_insertionSort]

/-! ## The match is the exhaustive one -/

section
variable {entries : List LocationCatalogEntry} {tokens : List String} {systemHint : Option String}
  {e e' : LocationCatalogEntry}

theorem contains_queryTokens (tok : String) :
    (queryTokens tokens).contains tok = (queryWords tokens).contains tok := by
  rw [Bool.eq_iff_iff, List.contains_iff_mem, List.contains_iff_mem, mem_queryTokens, queryWords,
    List.mem_flatMap]

theorem sharedTokens_eq : (nameTokens e.displayName).filter (queryTokens tokens).contains =
    sharedTokens tokens e := List.filter_congr fun tok _ => contains_queryTokens tok

theorem mem_sharedTokens {tok : String} : tok ∈ sharedTokens tokens e ↔
    tok ∈ nameTokens e.displayName ∧ tok ∈ queryTokens tokens := by
  rw [← sharedTokens_eq, List.mem_filter, List.contains_iff_mem]

theorem otherSystem_eq_false : otherSystem systemHint e = false ↔
    ∀ hint ∈ systemHint, ∀ sys ∈ e.system, Text.lower hint = Text.lower sys := by
  cases systemHint with
  | none => simp [otherSystem]
  | some hint =>
    cases hsys : e.system with
    | none => simp [otherSystem, hsys]
    | some sys => simp [otherSystem, hsys, Text.eqIgnoreAsciiCase_iff]

/-- What is made of an entry of the catalogue. -/
def scored (entries : List LocationCatalogEntry) (tokens : List String)
    (e : LocationCatalogEntry) : Scored S :=
  ⟨e, scoreOf score entries tokens e, (sharedTokens tokens e).length⟩

theorem isAnchor_iff {tok : String} (h : tok ∈ nameTokens e.displayName) (df : Nat) :
    isAnchor df tok = true ↔ 3 ≤ tok.length ∧ allDigits tok = false ∧ tok ∉ affiliationNoise ∧
      df ≤ fuzzyAnchorDf := by
  rw [isAnchor, length_of_mem_contentTokens (mem_nameTokens.1 h)]
  have hnoise : affiliationNoise.contains tok = false ↔ tok ∉ affiliationNoise := by
    rw [← Bool.not_eq_true, List.contains_iff_mem]
  simp only [Bool.and_eq_true, decide_eq_true_eq, Bool.not_eq_true', hnoise]
  tauto

omit [LinearOrder S] in
theorem scoreAt_eq_some {i : Nat} {s : Scored S} :
    (fromEntries entries).scoreAt score (queryTokens tokens) systemHint i = some s ↔
      ∃ e, (fromEntries entries).entries[i]? = some e ∧ Eligible entries tokens systemHint e ∧
        s = scored score entries tokens e := by
  rw [scoreAt, fromEntries_entryTokens, List.getElem?_map]
  cases hget : (fromEntries entries).entries[i]? with
  | none => simp
  | some e =>
    have he : e ∈ entries.filter (·.isPresent) := by
      rw [← fromEntries_entries]
      exact List.mem_of_getElem? hget
    have hdf : ∀ tok ∈ sharedTokens tokens e,
        (fromEntries entries).dfOf tok = docFreq entries tok := fun tok htok =>
      dfOf_eq (docFreq_pos he (mem_sharedTokens.1 htok).1)
    have hanchor : ((sharedTokens tokens e).any fun tok =>
        isAnchor ((fromEntries entries).dfOf tok) tok) = true ↔
          ∃ tok ∈ sharedTokens tokens e, 3 ≤ tok.length ∧ allDigits tok = false ∧
            tok ∉ affiliationNoise ∧ docFreq entries tok ≤ fuzzyAnchorDf := by
      rw [List.any_eq_true]
      refine exists_congr fun tok => and_congr_right fun htok => ?_
      rw [hdf tok htok, isAnchor_iff (mem_sharedTokens.1 htok).1]
    have heligible : Eligible entries tokens systemHint e ↔ otherSystem systemHint e = false ∧
        ((sharedTokens tokens e).any fun tok =>
          isAnchor ((fromEntries entries).dfOf tok) tok) = true := by
      rw [otherSystem_eq_false, hanchor]
      exact ⟨fun h => ⟨h.system, h.anchor⟩,
        fun h => ⟨(List.mem_filter.1 he).1, (List.mem_filter.1 he).2, h.1, h.2⟩⟩
    have hscored : scored score entries tokens e =
        ⟨e, score ((sharedTokens tokens e).map (fromEntries entries).dfOf),
          (sharedTokens tokens e).length⟩ := by
      rw [scored, scoreOf, List.map_congr_left hdf]
    simp only [Option.map_some, Option.some.injEq, exists_eq_left', sharedTokens_eq, hscored]
    rw [heligible]
    cases otherSystem systemHint e with
    | true => exact iff_of_false nofun fun h => absurd h.1.1 (by decide)
    | false =>
      rw [if_neg Bool.false_ne_true]
      generalize (sharedTokens tokens e).any _ = hasAnchor
      cases hasAnchor with
      | true =>
        exact ⟨fun h => ⟨⟨rfl, rfl⟩, (Option.some.inj h).symm⟩, fun h => congrArg some h.2.symm⟩
      | false => exact iff_of_false nofun fun h => absurd h.1.2 (by decide)

theorem mem_candidates {i : Nat} : i ∈ (fromEntries entries).candidates (queryTokens tokens) ↔
    ∃ e, (fromEntries entries).entries[i]? = some e ∧
      ∃ tok ∈ sharedTokens tokens e, docFreq entries tok ≤ maxIndexDf := by
  rw [candidates, List.mem_dedup, List.mem_insertionSort, List.mem_flatMap]
  simp only [mem_nameTokenIndex, mem_sharedTokens]
  constructor
  · rintro ⟨tok, hquery, ⟨e, he, htok⟩, hle⟩
    exact ⟨e, he, tok, ⟨htok, hquery⟩, hle⟩
  · rintro ⟨e, he, tok, ⟨htok, hquery⟩, hle⟩
    exact ⟨tok, hquery, ⟨e, he, htok⟩, hle⟩

omit [LinearOrder S] in
/-- The index misses nothing: an anchor is rarer than the words that it leaves out. -/
theorem mem_scored {s : Scored S} :
    s ∈ ((fromEntries entries).candidates (queryTokens tokens)).filterMap
        ((fromEntries entries).scoreAt score (queryTokens tokens) systemHint) ↔
      ∃ e, Eligible entries tokens systemHint e ∧ s = scored score entries tokens e := by
  rw [List.mem_filterMap]
  simp only [scoreAt_eq_some]
  constructor
  · rintro ⟨i, -, e, -, he, hs⟩
    exact ⟨e, he, hs⟩
  · rintro ⟨e, he, hs⟩
    have hmem : e ∈ (fromEntries entries).entries := by
      rw [fromEntries_entries]
      exact List.mem_filter.2 ⟨he.mem, he.present⟩
    obtain ⟨i, hi⟩ := List.mem_iff_getElem?.1 hmem
    obtain ⟨tok, htok, -, -, -, hdf⟩ := he.anchor
    have hle : docFreq entries tok ≤ maxIndexDf := hdf.trans (by decide)
    exact ⟨i, mem_candidates.2 ⟨e, hi, tok, htok, hle⟩, e, hi, he, hs⟩

theorem beats_iff : Beats score entries tokens e e' ↔
    (scored score entries tokens e').key < (scored score entries tokens e).key := by
  simp only [Beats, scored, Scored.key, Prod.Lex.toLex_lt_toLex, OrderDual.toDual_lt_toDual]
  constructor
  · rintro (h | ⟨hs, h | ⟨hn, h⟩⟩)
    · exact .inl h
    · exact .inr ⟨hs.symm, .inl h⟩
    · exact .inr ⟨hs.symm, .inr ⟨hn.symm, h⟩⟩
  · rintro (h | ⟨hs, h | ⟨hn, h⟩⟩)
    · exact .inl h
    · exact .inr ⟨hs.symm, .inl h⟩
    · exact .inr ⟨hs.symm, .inr ⟨hn.symm, h⟩⟩

/-- Of two places one beats the other. -/
theorem beats_of_ne (hslugs : (entries.map (·.slug)).Nodup) (he : e ∈ entries) (he' : e' ∈ entries)
    (hne : e' ≠ e)
    (hle : (scored score entries tokens e').key ≤ (scored score entries tokens e).key) :
    Beats score entries tokens e e' := by
  rw [beats_iff]
  refine lt_of_le_of_ne hle fun heq => hne ?_
  have hslug : e'.slug = e.slug := by
    have h := congrArg (fun k => (ofLex (ofLex k).2).2) heq
    exact h
  exact List.inj_on_of_nodup_map hslugs he' he hslug

theorem fuzzyMatch_eq_none : (fromEntries entries).fuzzyMatch score tokens systemHint = none ↔
    ∀ e, ¬ Eligible entries tokens systemHint e := by
  rw [fuzzyMatch_eq_argmax, Option.map_eq_none_iff, List.argmax_eq_none,
    List.eq_nil_iff_forall_not_mem]
  simp only [mem_scored, not_exists, not_and]
  exact ⟨fun h e he => h _ e he rfl, fun h s e he _ => h e he⟩

theorem fuzzyMatch_eq_some (hslugs : (entries.map (·.slug)).Nodup) :
    (fromEntries entries).fuzzyMatch score tokens systemHint = some e ↔
      Eligible entries tokens systemHint e ∧
        ∀ e', Eligible entries tokens systemHint e' → e' ≠ e → Beats score entries tokens e e' := by
  rw [fuzzyMatch_eq_argmax, Option.map_eq_some_iff]
  constructor
  · rintro ⟨s, hs, rfl⟩
    obtain ⟨e, he, rfl⟩ := (mem_scored score).1 (List.argmax_mem hs)
    refine ⟨he, fun e' he' hne => beats_of_ne score hslugs he.mem he'.mem hne ?_⟩
    exact List.le_of_mem_argmax ((mem_scored score).2 ⟨e', he', rfl⟩) hs
  · rintro ⟨he, hbest⟩
    cases hmax : (((fromEntries entries).candidates (queryTokens tokens)).filterMap
        ((fromEntries entries).scoreAt score (queryTokens tokens) systemHint)).argmax
          Scored.key with
    | none =>
      rw [List.argmax_eq_none, List.eq_nil_iff_forall_not_mem] at hmax
      exact absurd ((mem_scored score).2 ⟨e, he, rfl⟩) (hmax _)
    | some s =>
      obtain ⟨e', he', rfl⟩ := (mem_scored score).1 (List.argmax_mem hmax)
      refine ⟨_, rfl, ?_⟩
      by_contra hne
      have hlt := (beats_iff score).1 (hbest e' he' hne)
      exact absurd (List.le_of_mem_argmax ((mem_scored score).2 ⟨e, he, rfl⟩) hmax) (not_le.2 hlt)

/-! ## The order of entries and tokens -/

theorem docFreq_perm {entries' : List LocationCatalogEntry} (h : entries'.Perm entries)
    (tok : String) : docFreq entries' tok = docFreq entries tok := h.countP_eq _

theorem sharedTokens_perm {tokens' : List String} (h : tokens'.Perm tokens)
    (e : LocationCatalogEntry) : sharedTokens tokens' e = sharedTokens tokens e := by
  refine List.filter_congr fun tok _ => ?_
  rw [Bool.eq_iff_iff, List.contains_iff_mem, List.contains_iff_mem, queryWords, queryWords]
  exact (h.flatMap_right contentTokens).mem_iff

theorem eligible_perm {entries' : List LocationCatalogEntry} {tokens' : List String}
    (hentries : entries'.Perm entries) (htokens : tokens'.Perm tokens) :
    Eligible entries' tokens' systemHint e ↔ Eligible entries tokens systemHint e := by
  have hdf : docFreq entries' = docFreq entries := funext (docFreq_perm hentries)
  constructor
  · rintro ⟨hmem, hpresent, hsystem, hanchor⟩
    rw [sharedTokens_perm htokens, hdf] at hanchor
    exact ⟨hentries.mem_iff.1 hmem, hpresent, hsystem, hanchor⟩
  · rintro ⟨hmem, hpresent, hsystem, hanchor⟩
    rw [← sharedTokens_perm htokens, ← hdf] at hanchor
    exact ⟨hentries.mem_iff.2 hmem, hpresent, hsystem, hanchor⟩

theorem beats_perm {entries' : List LocationCatalogEntry} {tokens' : List String}
    (hentries : entries'.Perm entries) (htokens : tokens'.Perm tokens) :
    Beats score entries' tokens' e e' ↔ Beats score entries tokens e e' := by
  have hdf : docFreq entries' = docFreq entries := funext (docFreq_perm hentries)
  rw [Beats, Beats, scoreOf, scoreOf, scoreOf, scoreOf, hdf, sharedTokens_perm htokens,
    sharedTokens_perm htokens]

end

/-- The indexed match is the exhaustive search, in whatever order the entries and the tokens
come. -/
theorem fuzzyMatch_exhaustive (entries : List LocationCatalogEntry) (tokens : List String)
    (systemHint : Option String) (hslugs : (entries.map (·.slug)).Nodup) :
    (∀ e, (fromEntries entries).fuzzyMatch score tokens systemHint = some e ↔
      Eligible entries tokens systemHint e ∧
        ∀ e', Eligible entries tokens systemHint e' → e' ≠ e → Beats score entries tokens e e') ∧
    ((fromEntries entries).fuzzyMatch score tokens systemHint = none ↔
      ∀ e, ¬ Eligible entries tokens systemHint e) ∧
    ∀ entries' tokens', entries'.Perm entries → tokens'.Perm tokens →
      (fromEntries entries').fuzzyMatch score tokens' systemHint =
        (fromEntries entries).fuzzyMatch score tokens systemHint := by
  refine ⟨fun e => fuzzyMatch_eq_some score hslugs, fuzzyMatch_eq_none score, ?_⟩
  intro entries' tokens' hentries htokens
  have hslugs' : (entries'.map (·.slug)).Nodup := (hentries.map _).nodup_iff.2 hslugs
  ext e
  rw [fuzzyMatch_eq_some score hslugs, fuzzyMatch_eq_some score hslugs',
    eligible_perm hentries htokens]
  exact and_congr_right fun _ => forall_congr' fun e' =>
    imp_congr (eligible_perm hentries htokens)
      (imp_congr_right fun _ => beats_perm score hentries htokens)

/-! ## Two outposts -/

def outpost (slug displayName : String) : LocationCatalogEntry where
  slug
  displayName
  system := some "Stanton"
  parentBody := none
  engineTag := none
  classification := none
  taxonomy := ⟨none, none, none, none, none⟩

def kaltag : LocationCatalogEntry := outpost "kaltag" "Rayari Kaltag"

def deltana : LocationCatalogEntry := outpost "deltana" "Rayari Deltana"

/-- The sum of the weights, without rounding. -/
def weightSum (dfs : List Nat) : ℚ := (dfs.map fun df => (1 : ℚ) / df).sum

/-- Both have the one word, and one of them the other. -/
theorem fuzzyMatch_exhaustive_kaltag :
    Eligible [deltana, kaltag] ["Rayari", "Kaltag"] (some "STANTON") deltana ∧
      (fromEntries [deltana, kaltag]).fuzzyMatch weightSum ["Rayari", "Kaltag"] (some "STANTON") =
        some kaltag := by
  have hmem : ∀ e ∈ [deltana, kaltag], e.isPresent = true ∧
      ∀ hint ∈ some "STANTON", ∀ sys ∈ e.system, Text.lower hint = Text.lower sys := by
    decide
  have hanchor : ∀ e ∈ [deltana, kaltag], "rayari" ∈ sharedTokens ["Rayari", "Kaltag"] e := by
    decide
  have heligible : ∀ e ∈ [deltana, kaltag],
      Eligible [deltana, kaltag] ["Rayari", "Kaltag"] (some "STANTON") e := fun e he =>
    ⟨he, (hmem e he).1, (hmem e he).2, "rayari", hanchor e he, by decide, by decide, by decide,
      by decide⟩
  refine ⟨heligible _ (.head _), ((fuzzyMatch_exhaustive weightSum [deltana, kaltag]
    ["Rayari", "Kaltag"] (some "STANTON") (by decide)).1 kaltag).2
      ⟨heligible _ (.tail _ (.head _)), fun e' he' hne => ?_⟩⟩
  obtain rfl | rfl := List.mem_pair.1 he'.mem
  · have hdeltana : (sharedTokens ["Rayari", "Kaltag"] deltana).map
        (docFreq [deltana, kaltag]) = [2] := by decide
    have hkaltag : (sharedTokens ["Rayari", "Kaltag"] kaltag).map
        (docFreq [deltana, kaltag]) = [1, 2] := by decide
    left
    rw [scoreOf, scoreOf, hdeltana, hkaltag]
    simp [weightSum]
  · exact absurd rfl hne

end LocationCatalog

end StarStats
