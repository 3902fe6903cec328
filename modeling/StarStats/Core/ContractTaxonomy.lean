import StarStats.Lib.Search

/-!
# The contract taxonomy (`starstats-core/src/contract_taxonomy.rs`)

A free-text label becomes a category. `normalise` leaves the words of the label, in lower case and
with one space between them, so the `,`, `&` and `/` of a compound label are gone before
`match_category` looks for its parts: it tries leading runs of the words, then single words.
`matchCategory_part_iff` says when that finds the category of the first part that has one.
-/

namespace StarStats

inductive ContractCategory where
  | bountyHunter
  | mercenary
  | hauling
  | delivery
  | salvage
  | mining
  | collection
  | investigation
  | maintenance
  | training
  | other
  deriving DecidableEq

/-- `char::is_alphanumeric` and `char::to_lowercase`. -/
structure CharTable where
  isAlphanumeric : Char → Bool
  toLowercase : Char → List Char
  not_alphanumeric : ∀ c ∈ [' ', ',', '&', '/'], isAlphanumeric c = false
  toLowercase_ne_nil : ∀ c, toLowercase c ≠ []
  space_notMem : ∀ c, isAlphanumeric c = true → ' ' ∉ toLowercase c

namespace ContractTaxonomy

/-- The alias table. -/
def «alias» : String → Option ContractCategory
  | "bounty hunting" | "bounty" | "bounty hunter" | "apprehension" => some .bountyHunter
  | "mercenary" | "combat" | "extermination" | "arena combat" | "defend location"
  | "defence" | "defense" | "escort" | "elimination" => some .mercenary
  | "hauling" | "cargo hauling" | "cargo haul" | "cargo" | "cargo recovery"
  | "cargo retrieval" | "freight" | "logistics" => some .hauling
  | "delivery" | "deliveries" | "cargo delivery" | "courier" | "transport"
  | "transportation" => some .delivery
  | "salvage" | "reclamation" | "wreck recovery" => some .salvage
  | "mining" | "extraction" | "prospecting" => some .mining
  | "retrieval" | "collection" | "gathering" | "acquisition" | "fetch" => some .collection
  | "investigation" | "recon" | "reconnaissance" | "search and rescue" | "scanning" =>
    some .investigation
  | "refueling" | "refuelling" | "repair" | "maintenance" | "servicing" | "rearm" =>
    some .maintenance
  | "certification" | "training" | "combat training" | "combat simulation" | "tutorial"
  | "flight school" => some .training
  | _ => none

variable (t : CharTable)

/-- The loop of `normalise`: what is written, and whether a space is due. -/
def normaliseFrom (out : List Char) (pendingSpace : Bool) : List Char → List Char
  | [] => out
  | ch :: rest =>
    if t.isAlphanumeric ch then
      let out := if pendingSpace && !out.isEmpty then out ++ [' '] else out
      normaliseFrom (out ++ t.toLowercase ch) false rest
    else normaliseFrom out true rest

def normalise (s : String) : String := String.ofList (normaliseFrom t [] false s.toList)

/-- `n.split(' ').filter(|w| !w.is_empty())` -/
def splitWords (n : String) : List (List Char) :=
  (Text.fields (· == ' ') n.toList).filter (!·.isEmpty)

/-- `words.join(" ")` -/
def joinWords : List (List Char) → List Char
  | [] => []
  | w :: ws => w ++ ws.flatMap (' ' :: ·)

/-- The words, joined again, as an alias. -/
def aliasOf (ws : List (List Char)) : Option ContractCategory :=
  «alias» (String.ofList (joinWords ws))

/-- The longest alias among the leading runs of at most so many words. -/
def longestRun (words : List (List Char)) : Nat → Option ContractCategory
  | 0 => none
  | len + 1 => aliasOf (words.take (len + 1)) <|> longestRun words len

def matchCategory (raw : String) : Option ContractCategory :=
  let n := normalise t raw
  if n.isEmpty then none
  else match «alias» n with
    | some c => some c
    | none =>
      let words := splitWords n
      longestRun words (words.length - 1) <|> words.findSome? fun w => «alias» (String.ofList w)

def classify (contractType gameplayLoop : Option String) : ContractCategory :=
  match contractType.bind (matchCategory t) with
  | some c => c
  | none => (gameplayLoop.bind (matchCategory t)).getD .other

/-! ## The words of a label -/

/-- The parts of a compound label. -/
def labelParts (raw : List Char) : List (List Char) :=
  Text.fields (fun c => c == ',' || c == '&' || c == '/') raw

/-- Runs of alphanumeric characters, the empty ones left out, in lower case. -/
def lowerWords (runs : List (List Char)) : List (List Char) :=
  (runs.filter (!·.isEmpty)).map (·.flatMap t.toLowercase)

def wordsOf (raw : List Char) : List (List Char) :=
  lowerWords t (Text.fields (!t.isAlphanumeric ·) raw)

variable {t}

@[simp] theorem lowerWords_nil_cons (runs : List (List Char)) :
    lowerWords t ([] :: runs) = lowerWords t runs := rfl

theorem lowerWords_cons {w : List Char} (h : w ≠ []) (runs : List (List Char)) :
    lowerWords t (w :: runs) = w.flatMap t.toLowercase :: lowerWords t runs := by
  simp [lowerWords, h]

theorem lowerWords_flatMap {α : Type} (f : α → List (List Char)) (l : List α) :
    lowerWords t (l.flatMap f) = l.flatMap fun a => lowerWords t (f a) := by
  rw [lowerWords, List.filter_flatMap, List.map_flatMap]
  rfl

theorem flatMap_toLowercase_ne_nil {w : List Char} (h : w ≠ []) : w.flatMap t.toLowercase ≠ [] := by
  obtain ⟨c, cs, rfl⟩ := List.exists_cons_of_ne_nil h
  rw [List.flatMap_cons]
  exact List.append_ne_nil_of_left_ne_nil (t.toLowercase_ne_nil c) _

theorem ne_nil_of_mem_wordsOf {raw w : List Char} (h : w ∈ wordsOf t raw) : w ≠ [] := by
  obtain ⟨v, hv, rfl⟩ := List.mem_map.1 h
  have hne : v ≠ [] := by simpa using (List.mem_filter.1 hv).2
  exact flatMap_toLowercase_ne_nil hne

theorem space_notMem_wordsOf {raw w : List Char} (h : w ∈ wordsOf t raw) : ' ' ∉ w := by
  obtain ⟨v, hv, rfl⟩ := List.mem_map.1 h
  intro hmem
  obtain ⟨c, hc, hspace⟩ := List.mem_flatMap.1 hmem
  have halnum := Text.not_sep_of_mem_fields (List.mem_filter.1 hv).1 hc
  exact t.space_notMem c (by simpa using halnum) hspace

theorem wordsOf_cons_stop {c : Char} (h : t.isAlphanumeric c = false) (cs : List Char) :
    wordsOf t (c :: cs) = wordsOf t cs := by
  rw [wordsOf, Text.fields_cons_of_sep (by rw [h]; rfl), lowerWords_nil_cons]
  rfl

/-- The words of the parts are those of the label. -/
theorem flatMap_labelParts (raw : List Char) :
    (labelParts raw).flatMap (wordsOf t) = wordsOf t raw := by
  have hsep : ∀ c, (c == ',' || c == '&' || c == '/') = true → (!t.isAlphanumeric c) = true := by
    intro c hc
    have hmem : c ∈ [' ', ',', '&', '/'] := by
      simp only [Bool.or_eq_true, beq_iff_eq] at hc
      rcases hc with (rfl | rfl) | rfl <;> decide
    rw [t.not_alphanumeric c hmem]
    rfl
  rw [wordsOf, ← Text.fields_flatMap hsep raw, lowerWords_flatMap]
  rfl

/-- The loop with something written: the word being written goes on, unless a space is due. -/
theorem normaliseFrom_of_ne_nil {out : List Char} (hout : out ≠ []) (cs : List Char) :
    normaliseFrom t out true cs = out ++ (wordsOf t cs).flatMap (' ' :: ·) ∧
      ∀ w ws, Text.fields (!t.isAlphanumeric ·) cs = w :: ws →
        normaliseFrom t out false cs =
          out ++ w.flatMap t.toLowercase ++ (lowerWords t ws).flatMap (' ' :: ·) := by
  induction cs generalizing out with
  | nil => simp [normaliseFrom, wordsOf, lowerWords, Text.fields]
  | cons c cs ih =>
    obtain ⟨w, ws, hfields⟩ := Text.exists_fields_eq_cons (!t.isAlphanumeric ·) cs
    cases halnum : t.isAlphanumeric c with
    | true =>
      have hne : ∀ o : List Char, o ++ t.toLowercase c ≠ [] := fun o =>
        List.append_ne_nil_of_right_ne_nil _ (t.toLowercase_ne_nil c)
      have hcons := Text.fields_cons_of_not (c := c) (by rw [halnum]; rfl) hfields
      constructor
      · have hwrite := (ih (hne (out ++ [' ']))).2 w ws hfields
        rw [wordsOf, hcons, lowerWords_cons (List.cons_ne_nil _ _)]
        simpa [normaliseFrom, halnum, hout] using hwrite
      · intro w' ws' heq
        obtain ⟨rfl, rfl⟩ := List.cons.inj (hcons.symm.trans heq)
        simp [normaliseFrom, halnum, (ih (hne out)).2 w ws hfields]
    | false =>
      have hstop : ∀ pending, normaliseFrom t out pending (c :: cs) =
          normaliseFrom t out true cs := fun pending => by
        rw [normaliseFrom, halnum, if_neg Bool.false_ne_true]
      constructor
      · rw [wordsOf_cons_stop halnum, ← (ih hout).1, hstop]
      · intro w' ws' heq
        rw [Text.fields_cons_of_sep (by rw [halnum]; rfl)] at heq
        obtain ⟨rfl, rfl⟩ := List.cons.inj heq
        rw [hstop, (ih hout).1]
        simp [wordsOf]

theorem normaliseFrom_nil (pending : Bool) (cs : List Char) :
    normaliseFrom t [] pending cs = joinWords (wordsOf t cs) := by
  induction cs generalizing pending with
  | nil => rfl
  | cons c cs ih =>
    obtain ⟨w, ws, hfields⟩ := Text.exists_fields_eq_cons (!t.isAlphanumeric ·) cs
    cases halnum : t.isAlphanumeric c with
    | true =>
      have hcons := Text.fields_cons_of_not (c := c) (by rw [halnum]; rfl) hfields
      rw [wordsOf, hcons, lowerWords_cons (List.cons_ne_nil _ _)]
      have hwrite := (normaliseFrom_of_ne_nil (t.toLowercase_ne_nil c) cs).2 w ws hfields
      simpa [normaliseFrom, halnum, joinWords] using hwrite
    | false =>
      rw [wordsOf_cons_stop halnum, ← ih true, normaliseFrom, halnum, if_neg Bool.false_ne_true]

/-- Joined words are read back. -/
theorem fields_joinWords {w : List Char} {ws : List (List Char)} (h : ∀ v ∈ w :: ws, ' ' ∉ v) :
    Text.fields (· == ' ') (joinWords (w :: ws)) = w :: ws := by
  have hnone : ∀ {v : List Char}, ' ' ∉ v → ∀ c ∈ v, (c == ' ') = false := fun hv c hc =>
    beq_false_of_ne fun heq => hv (heq ▸ hc)
  induction ws generalizing w with
  | nil =>
    rw [joinWords, List.flatMap_nil, List.append_nil]
    exact Text.fields_of_none (hnone (h w List.mem_cons_self))
  | cons v vs ih =>
    have hjoin : joinWords (w :: v :: vs) = w ++ ' ' :: joinWords (v :: vs) := by
      simp [joinWords]
    rw [hjoin, Text.fields_append (hnone (h w List.mem_cons_self)) rfl,
      ih fun u hu => h u (List.mem_cons_of_mem _ hu)]

/-- `normalise` leaves the words of the label. -/
theorem splitWords_normalise (raw : String) :
    splitWords (normalise t raw) = wordsOf t raw.toList := by
  rw [splitWords, normalise, String.toList_ofList, normaliseFrom_nil]
  cases hws : wordsOf t raw.toList with
  | nil => rfl
  | cons w ws =>
    have hmem : ∀ v ∈ w :: ws, v ∈ wordsOf t raw.toList := fun v hv => hws ▸ hv
    rw [fields_joinWords fun v hv => space_notMem_wordsOf (hmem v hv)]
    refine List.filter_eq_self.2 fun v hv => ?_
    simpa using ne_nil_of_mem_wordsOf (hmem v hv)

theorem normalise_eq (raw : String) :
    normalise t raw = String.ofList (joinWords (wordsOf t raw.toList)) := by
  rw [normalise, normaliseFrom_nil]

/-! ## The category of a label -/

/-- `n` is the length of the longest leading run, shorter than the label, that is an alias. -/
structure LongestRun (words : List (List Char)) (n : Nat) (c : ContractCategory) : Prop where
  pos : 0 < n
  lt : n < words.length
  found : aliasOf (words.take n) = some c
  longest : ∀ m, n < m → m < words.length → aliasOf (words.take m) = none

/-- The words lead with the category: it is that of the longest run, or there is no run and it is
that of the first word that is an alias. -/
def Leads (words : List (List Char)) (c : ContractCategory) : Prop :=
  (∃ n, LongestRun words n c) ∨
    (∀ n, 0 < n → n < words.length → aliasOf (words.take n) = none) ∧
      ∃ before w after, words = before ++ w :: after ∧ «alias» (String.ofList w) = some c ∧
        ∀ v ∈ before, «alias» (String.ofList v) = none

theorem longestRun_eq_none {words : List (List Char)} {k : Nat} :
    longestRun words k = none ↔ ∀ n, 0 < n → n ≤ k → aliasOf (words.take n) = none := by
  induction k with
  | zero => exact iff_of_true rfl fun n h h' => absurd h (by omega)
  | succ k ih =>
    rw [longestRun, Option.orElse_eq_orElse, Option.orElse_eq_or, Option.or_eq_none_iff, ih]
    constructor
    · rintro ⟨hlast, hrest⟩ n hpos hle
      rcases Nat.le_succ_iff.1 hle with hle | rfl
      · exact hrest n hpos hle
      · exact hlast
    · exact fun h => ⟨h (k + 1) (by omega) (by omega), fun n hpos hle => h n hpos (by omega)⟩

theorem longestRun_eq_some {words : List (List Char)} {k : Nat} {c : ContractCategory} :
    longestRun words k = some c ↔ ∃ n, 0 < n ∧ n ≤ k ∧ aliasOf (words.take n) = some c ∧
      ∀ m, n < m → m ≤ k → aliasOf (words.take m) = none := by
  induction k with
  | zero =>
    refine iff_of_false (by simp [longestRun]) ?_
    rintro ⟨n, hpos, hle, -⟩
    omega
  | succ k ih =>
    rw [longestRun, Option.orElse_eq_orElse, Option.orElse_eq_or, Option.or_eq_some_iff, ih]
    constructor
    · rintro (hlast | ⟨hlast, n, hpos, hle, hfound, hlong⟩)
      · exact ⟨k + 1, by omega, le_refl _, hlast, fun m hm hm' => absurd hm (by omega)⟩
      · refine ⟨n, hpos, by omega, hfound, fun m hm hm' => ?_⟩
        rcases Nat.le_succ_iff.1 hm' with hm' | rfl
        · exact hlong m hm hm'
        · exact hlast
    · rintro ⟨n, hpos, hle, hfound, hlong⟩
      rcases Nat.le_succ_iff.1 hle with hle | rfl
      · exact .inr ⟨hlong (k + 1) (by omega) (le_refl _), n, hpos, hle, hfound,
          fun m hm hm' => hlong m hm (by omega)⟩
      · exact .inl hfound

theorem longestRun_iff {words : List (List Char)} {c : ContractCategory} :
    longestRun words (words.length - 1) = some c ↔ ∃ n, LongestRun words n c := by
  rw [longestRun_eq_some]
  constructor
  · rintro ⟨n, hpos, hle, hfound, hlong⟩
    exact ⟨n, hpos, by omega, hfound, fun m hm hm' => hlong m hm (by omega)⟩
  · rintro ⟨n, hpos, hlt, hfound, hlong⟩
    exact ⟨n, hpos, by omega, hfound, fun m hm hm' => hlong m hm (by omega)⟩

/-- No alias is empty. -/
theorem matchCategory_of_not_whole {raw : String} (hwhole : «alias» (normalise t raw) = none) :
    matchCategory t raw =
      (longestRun (wordsOf t raw.toList) ((wordsOf t raw.toList).length - 1)).or
        ((wordsOf t raw.toList).findSome? fun w => «alias» (String.ofList w)) := by
  rw [matchCategory, hwhole, splitWords_normalise]
  split
  case isTrue hempty =>
    have hwords : wordsOf t raw.toList = [] := by
      rw [← splitWords_normalise, String.isEmpty_iff.1 hempty]
      rfl
    rw [hwords]
    rfl
  case isFalse => rw [Option.orElse_eq_orElse, Option.orElse_eq_or]

theorem matchCategory_iff_leads {raw : String} {c : ContractCategory}
    (hwhole : «alias» (normalise t raw) = none) :
    matchCategory t raw = some c ↔ Leads (wordsOf t raw.toList) c := by
  rw [matchCategory_of_not_whole hwhole, Option.or_eq_some_iff, longestRun_iff,
    longestRun_eq_none, List.findSome?_eq_some_iff, Leads]
  refine or_congr_right (and_congr_left' ?_)
  exact ⟨fun h n hpos hlt => h n hpos (by omega), fun h n hpos hle => h n hpos (by omega)⟩

/-- `part` is the first part of the label whose own text is an alias. -/
structure LeadingPart (t : CharTable) (raw : String) (before : List (List Char)) (part : List Char)
    (after : List (List Char)) (c : ContractCategory) : Prop where
  parts : labelParts raw.toList = before ++ part :: after
  first : ∀ p ∈ before, «alias» (normalise t (String.ofList p)) = none
  found : «alias» (normalise t (String.ofList part)) = some c

namespace LeadingPart

variable {raw : String} {before after : List (List Char)} {part : List Char} {c : ContractCategory}

theorem words (h : LeadingPart t raw before part after c) : wordsOf t raw.toList =
    before.flatMap (wordsOf t) ++ (wordsOf t part ++ after.flatMap (wordsOf t)) := by
  rw [← flatMap_labelParts, h.parts, List.flatMap_append, List.flatMap_cons]

theorem aliasOf_words (h : LeadingPart t raw before part after c) :
    aliasOf (wordsOf t part) = some c := by
  rw [aliasOf, ← h.found, normalise_eq, String.toList_ofList]

/-- A part that no word stands before is itself a leading run. -/
theorem exists_run (h : LeadingPart t raw before part after c)
    (hwhole : «alias» (normalise t raw) = none) (hnil : before.flatMap (wordsOf t) = []) :
    0 < (wordsOf t part).length ∧ (wordsOf t part).length < (wordsOf t raw.toList).length ∧
      aliasOf ((wordsOf t raw.toList).take (wordsOf t part).length) = some c := by
  have hwords := h.words
  rw [hnil, List.nil_append] at hwords
  refine ⟨List.length_pos_iff.2 fun hempty => ?_, ?_, ?_⟩
  · have hfound := h.aliasOf_words
    rw [hempty] at hfound
    cases hfound
  · rw [hwords, List.length_append, Nat.lt_add_right_iff_pos]
    refine List.length_pos_iff.2 fun hempty => ?_
    rw [hempty, List.append_nil] at hwords
    rw [normalise_eq, hwords] at hwhole
    have hfound := h.aliasOf_words
    rw [aliasOf, hwhole] at hfound
    cases hfound
  · rw [hwords, List.take_left, h.aliasOf_words]

end LeadingPart

/-- The code finds the category of the first part that has one: with no word before the part, iff
the longest run that joins the part to words after it has that category too; behind other words,
iff the words of the whole label lead with it. -/
theorem matchCategory_part_iff {raw : String} {before after : List (List Char)} {part : List Char}
    {c : ContractCategory} (hwhole : «alias» (normalise t raw) = none)
    (hpart : LeadingPart t raw before part after c) :
    matchCategory t raw = some c ↔
      (before.flatMap (wordsOf t) = [] → ∀ n d, (wordsOf t part).length < n →
        LongestRun (wordsOf t raw.toList) n d → d = c) ∧
      (before.flatMap (wordsOf t) ≠ [] → Leads (wordsOf t raw.toList) c) := by
  by_cases hnil : before.flatMap (wordsOf t) = []
  case neg =>
    rw [matchCategory_iff_leads hwhole]
    exact ⟨fun h => ⟨fun h' => absurd h' hnil, fun _ => h⟩, fun h => h.2 hnil⟩
  case pos =>
    obtain ⟨hpos, hlt, hfound⟩ := hpart.exists_run hwhole hnil
    rw [matchCategory_of_not_whole hwhole]
    constructor
    · refine fun hmatch => ⟨fun _ n d hn hrun => ?_, fun hne => absurd hnil hne⟩
      rw [longestRun_iff.2 ⟨n, hrun⟩] at hmatch
      exact Option.some.inj hmatch
    · rintro ⟨hjoin, -⟩
      cases hlong : longestRun (wordsOf t raw.toList) ((wordsOf t raw.toList).length - 1) with
      | none =>
        rw [longestRun_eq_none.1 hlong _ hpos (by omega)] at hfound
        cases hfound
      | some d =>
        obtain ⟨n, hrun⟩ := longestRun_iff.1 hlong
        rw [Option.some_or]
        rcases Nat.lt_trichotomy (wordsOf t part).length n with hn | rfl | hn
        · rw [hjoin hnil n d hn hrun]
        · exact hrun.found.symm.trans hfound
        · rw [hrun.longest _ hn hlt] at hfound
          cases hfound

/-! ## ASCII labels -/

theorem toLower_ne_space {c : Char} (h : c.isAlphanum = true) : ' ' ≠ c.toLower := by
  intro heq
  by_cases hup : 65 ≤ c.toNat ∧ c.toNat ≤ 90
  case pos =>
    have hval := Text.toNat_toLower hup
    rw [← heq, show ' '.toNat = 32 from rfl] at hval
    omega
  case neg =>
    rw [Text.toLower_of_not_upper hup] at heq
    rw [← heq] at h
    cases h

def ascii : CharTable where
  isAlphanumeric := Char.isAlphanum
  toLowercase c := [c.toLower]
  not_alphanumeric c hc := by
    simp only [List.mem_cons, List.not_mem_nil, or_false] at hc
    rcases hc with rfl | rfl | rfl | rfl <;> rfl
  toLowercase_ne_nil c := List.cons_ne_nil _ _
  space_notMem c h hmem := toLower_ne_space h (List.mem_singleton.1 hmem)

theorem matchCategory_part_leading :
    matchCategory ascii "Mining, Delivery & Salvage" = some .mining := by
  have hleading : LeadingPart ascii "Mining, Delivery & Salvage" [] "Mining".toList
      [" Delivery ".toList, " Salvage".toList] .mining :=
    ⟨by decide +kernel, by simp, by decide +kernel⟩
  refine (matchCategory_part_iff (by decide +kernel) hleading).2 ?_
  refine ⟨fun _ n d hpast hrun => ?_, fun hne => absurd rfl hne⟩
  have hpart : (wordsOf ascii "Mining".toList).length = 1 := by decide +kernel
  have hwords : (wordsOf ascii "Mining, Delivery & Salvage".toList).length = 3 := by decide +kernel
  have htwo : aliasOf ((wordsOf ascii "Mining, Delivery & Salvage".toList).take 2) = none := by
    decide +kernel
  obtain rfl : n = 2 := by
    have hlt := hrun.lt
    omega
  cases htwo.symm.trans hrun.found

/-- The word `combat` of a later part shadows the alias `combat training`. -/
theorem matchCategory_shadows : ¬ ∀ (t : CharTable) (raw : String) before part after c,
    «alias» (normalise t raw) = none → LeadingPart t raw before part after c →
      matchCategory t raw = some c := by
  intro h
  have hmatch := h ascii "Personal, Combat Training" ["Personal".toList]
    " Combat Training".toList [] .training (by decide +kernel)
    ⟨by decide +kernel, by decide +kernel, by decide +kernel⟩
  exact absurd hmatch (by decide +kernel)

end ContractTaxonomy

end StarStats
