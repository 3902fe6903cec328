import Mathlib.Data.List.Basic
import StarStats.Lib.Text

/-!
# Regular expressions

A search prefers the leftmost match and, of the matches at one place, the one that a backtracking
matcher comes to first. `Pattern.results` lists the ways a pattern matches at the front of a text in
that order, and `Pattern.search` takes the first way at the first place that has one. Only single
characters are repeated.
-/

namespace Regex

/-- The texts of the groups that took part in a match. -/
abbrev Captures := List (String × String)

/-- `c.name("…")`. -/
def Captures.name (c : Captures) (group : String) : Option String := c.lookup group

/-- `c["…"]`, of a group that takes part in every match. -/
def Captures.text (c : Captures) (group : String) : String := (c.name group).getD ""

inductive Pattern where
  | text (cs : List Char)
  /-- At least so many characters of a class, as many or as few as possible. -/
  | run (accepts : Char → Bool) (least : Nat) (greedy : Bool)
  | seq (first second : Pattern)
  /-- `(?:…|…)` -/
  | alt (first second : Pattern)
  /-- `(?:…)?` -/
  | opt (inner : Pattern)
  | group (name : String) (inner : Pattern)

/-- One way to match: the groups, and what is taken from the text and left of it. -/
structure Way where
  captures : Captures
  taken : List Char
  rest : List Char
  deriving DecidableEq

/-- The way that takes nothing. -/
def Way.nothing (s : List Char) : Way := ⟨[], [], s⟩

/-- One way after another. -/
def Way.andThen (w w' : Way) : Way := ⟨w.captures ++ w'.captures, w.taken ++ w'.taken, w'.rest⟩

/-- The ways to take characters of a class from the front. -/
def splits (accepts : Char → Bool) (greedy : Bool) : List Char → List (List Char × List Char)
  | [] => [([], [])]
  | c :: cs =>
    let longer := if accepts c then (splits accepts greedy cs).map fun x => (c :: x.1, x.2) else []
    if greedy then longer ++ [([], c :: cs)] else ([], c :: cs) :: longer

namespace Pattern

def results : Pattern → List Char → List Way
  | text cs, s => if cs.isPrefixOf s then [⟨[], cs, s.drop cs.length⟩] else []
  | run accepts least greedy, s =>
    ((splits accepts greedy s).filter (least ≤ ·.1.length)).map fun x => ⟨[], x.1, x.2⟩
  | seq p q, s => (p.results s).flatMap fun w => (q.results w.rest).map w.andThen
  | alt p q, s => p.results s ++ q.results s
  | opt p, s => p.results s ++ [.nothing s]
  | group name p, s =>
    (p.results s).map fun w => { w with captures := (name, String.ofList w.taken) :: w.captures }

/-- The preferred way. -/
def first (p : Pattern) (s : List Char) : Option Way := (p.results s).head?

/-- The groups of the leftmost match. -/
def search (p : Pattern) : List Char → Option Captures
  | [] => (p.first []).map (·.captures)
  | c :: cs =>
    match p.first (c :: cs) with
    | some w => some w.captures
    | none => p.search cs

def captures (p : Pattern) (s : String) : Option Captures := p.search s.toList

/-! ## The preferred way -/

theorem first_text (cs s : List Char) :
    (text cs).first s = if cs.isPrefixOf s then some ⟨[], cs, s.drop cs.length⟩ else none := by
  unfold first
  rw [results]
  split <;> rfl

theorem first_seq (p q : Pattern) (s : List Char) :
    (seq p q).first s = (p.results s).findSome? fun w => (q.first w.rest).map w.andThen := by
  rw [first, results, List.head?_flatMap]
  simp only [List.head?_map]
  rfl

/-- What is in front of something that always matches is matched in its preferred way. -/
theorem first_seq_of_total {p q : Pattern} (h : ∀ s, (q.first s).isSome = true) (s : List Char) :
    (seq p q).first s = (p.first s).bind fun w => (q.first w.rest).map w.andThen := by
  rw [first_seq, first]
  cases p.results s with
  | nil => rfl
  | cons w ws =>
    obtain ⟨w', hw'⟩ := Option.isSome_iff_exists.1 (h w.rest)
    rw [List.findSome?_cons, hw']
    simp [hw']

theorem first_opt (p : Pattern) (s : List Char) :
    (opt p).first s = some ((p.first s).getD (.nothing s)) := by
  rw [first, results, first]
  cases p.results s <;> rfl

/-- A pattern that matches everywhere is found at the front. -/
theorem search_of_first {p : Pattern} {s : List Char} {w : Way} (h : p.first s = some w) :
    p.search s = some w.captures := by
  cases s <;> simp [search, h]

end Pattern

/-! ## Repeated characters -/

theorem mem_splits {accepts : Char → Bool} {greedy : Bool} {s : List Char}
    {x : List Char × List Char} :
    x ∈ splits accepts greedy s ↔ s = x.1 ++ x.2 ∧ ∀ c ∈ x.1, accepts c = true := by
  induction s generalizing x with
  | nil =>
    obtain ⟨front, back⟩ := x
    simp only [splits, List.mem_singleton, Prod.mk.injEq, List.nil_eq_append_iff]
    constructor
    · rintro ⟨rfl, rfl⟩
      exact ⟨⟨rfl, rfl⟩, by simp⟩
    · exact fun h => h.1
  | cons c cs ih =>
    have hlonger : x ∈ (if accepts c then (splits accepts greedy cs).map fun y => (c :: y.1, y.2)
          else []) ↔
        ∃ front, x.1 = c :: front ∧ accepts c = true ∧ cs = front ++ x.2 ∧
          ∀ d ∈ front, accepts d = true := by
      split
      case isTrue hc =>
        rw [List.mem_map]
        constructor
        · rintro ⟨y, hy, rfl⟩
          exact ⟨y.1, rfl, hc, (ih.1 hy).1, (ih.1 hy).2⟩
        · rintro ⟨front, hfront, -, hcs, hall⟩
          exact ⟨(front, x.2), ih.2 ⟨hcs, hall⟩, Prod.ext hfront.symm rfl⟩
      case isFalse hc =>
        refine iff_of_false List.not_mem_nil ?_
        rintro ⟨front, -, hc', -⟩
        exact hc hc'
    have hsplit : x ∈ splits accepts greedy (c :: cs) ↔ x = ([], c :: cs) ∨
        ∃ front, x.1 = c :: front ∧ accepts c = true ∧ cs = front ++ x.2 ∧
          ∀ d ∈ front, accepts d = true := by
      rw [← hlonger, splits]
      cases greedy <;> simp [or_comm]
    rw [hsplit]
    obtain ⟨front, back⟩ := x
    cases front with
    | nil =>
      simp only [Prod.mk.injEq, true_and, List.nil_append, List.not_mem_nil, false_implies,
        implies_true, and_true, reduceCtorEq, false_and, exists_false, or_false]
      exact eq_comm
    | cons d front =>
      constructor
      · rintro (h | ⟨front', heq, hc, rfl, hall⟩)
        · simp at h
        · obtain ⟨rfl, rfl⟩ := List.cons.inj heq
          exact ⟨rfl, by simpa using ⟨hc, hall⟩⟩
      · rintro ⟨heq, hall⟩
        obtain ⟨rfl, rfl⟩ := List.cons.inj heq
        exact .inr ⟨front, rfl, hall c List.mem_cons_self, rfl,
          fun d hd => hall d (List.mem_cons_of_mem _ hd)⟩

theorem findSome?_eq_of_unique {α β : Type} {l : List α} {f : α → Option β} {a : α} (ha : a ∈ l)
    (h : ∀ b ∈ l, f b ≠ none → b = a) : l.findSome? f = f a := by
  induction l with
  | nil => cases ha
  | cons b l ih =>
    rw [List.findSome?_cons]
    cases hb : f b with
    | some y =>
      rw [← h b List.mem_cons_self (by simp [hb]), hb]
    | none =>
      rcases List.mem_cons.1 ha with rfl | ha
      · rw [hb]
        dsimp only
        rw [List.findSome?_eq_none_iff]
        intro c hc
        by_contra hne
        exact hne (h c (List.mem_cons_of_mem _ hc) hne ▸ hb)
      · exact ih ha fun c hc => h c (List.mem_cons_of_mem _ hc)

/-! ## A field in brackets -/

/-- `key[x]` -/
def fieldText (key x : List Char) : List Char := key ++ '[' :: (x ++ [']'])

/-- A field stands nowhere but where its key does. -/
theorem fieldText_place {key body a x b : List Char} {n : Nat}
    (honly : ∀ k < body.length + 1, key.isPrefixOf (body.drop k) = true → k = n)
    (h : body = a ++ (fieldText key x ++ b)) : a = body.take n := by
  have hlen : a.length < body.length + 1 := by
    rw [h, List.length_append]
    omega
  have hkey : key.isPrefixOf (body.drop a.length) = true := by
    rw [h, List.drop_left, List.isPrefixOf_iff_prefix, fieldText, List.append_assoc]
    exact List.prefix_append _ _
  rw [← honly a.length hlen hkey, h, List.take_left]

/-- The value of a field: characters of a class, and at least one. -/
def FieldValue (accepts : Char → Bool) (x : List Char) : Prop :=
  x ≠ [] ∧ ∀ c ∈ x, accepts c = true

namespace Pattern

/-- `key\[(?P<name>[…]+)\]` -/
def field (key : List Char) (name : String) (accepts : Char → Bool) : Pattern :=
  seq (text (key ++ ['['])) (seq (group name (run accepts 1 true)) (text [']']))

theorem first_seq_text (cs : List Char) (q : Pattern) (s : List Char) :
    (seq (text cs) q).first s =
      if cs.isPrefixOf s then
        (q.first (s.drop cs.length)).map (Way.andThen ⟨[], cs, s.drop cs.length⟩)
      else none := by
  rw [first_seq, results]
  split
  · rw [List.findSome?_cons]
    cases q.first (s.drop cs.length) <;> rfl
  · rfl

/-- The one value that a closing bracket follows. -/
theorem first_value {accepts : Char → Bool} {name : String} {x r : List Char}
    (hclose : accepts ']' = false) (hx : FieldValue accepts x) :
    (seq (group name (run accepts 1 true)) (text [']'])).first (x ++ ']' :: r) =
      some ⟨[(name, String.ofList x)], x ++ [']'], r⟩ := by
  have hno : ∀ y : List Char, (∀ c ∈ y, accepts c = true) → ']' ∉ y := by
    intro y hy hmem
    rw [hy _ hmem] at hclose
    cases hclose
  have hmem : (⟨[(name, String.ofList x)], x, ']' :: r⟩ : Way) ∈
      (group name (run accepts 1 true)).results (x ++ ']' :: r) := by
    simp only [results, List.map_map, List.mem_map, List.mem_filter, decide_eq_true_eq]
    refine ⟨(x, ']' :: r), ⟨mem_splits.2 ⟨rfl, hx.2⟩, ?_⟩, rfl⟩
    exact List.length_pos_iff.2 hx.1
  rw [first_seq, findSome?_eq_of_unique hmem]
  · rw [first_text]
    rfl
  · intro w hw hne
    simp only [results, List.map_map, List.mem_map, List.mem_filter] at hw
    obtain ⟨y, ⟨hy, -⟩, rfl⟩ := hw
    obtain ⟨heq, hall⟩ := mem_splits.1 hy
    have hrest : ∃ r', y.2 = ']' :: r' := by
      by_contra hcon
      refine hne ?_
      rw [first_text, if_neg]
      · rfl
      · cases hy2 : y.2 with
        | nil => simp [Function.comp, hy2]
        | cons c cs =>
          have hc : ']' ≠ c := fun hc => hcon ⟨cs, hc ▸ hy2⟩
          simpa [Function.comp, hy2, List.isPrefixOf] using hc
    obtain ⟨r', hr'⟩ := hrest
    rw [hr'] at heq
    obtain ⟨hxy, hrr⟩ := Text.split_unique (hno x hx.2) (hno y.1 hall) heq
    simp [Function.comp, ← hxy, hr', hrr]

theorem first_field {key : List Char} {accepts : Char → Bool} {name : String} {x r : List Char}
    (hclose : accepts ']' = false) (hx : FieldValue accepts x) :
    (field key name accepts).first (fieldText key x ++ r) =
      some ⟨[(name, String.ofList x)], fieldText key x, r⟩ := by
  have heq : fieldText key x ++ r = (key ++ ['[']) ++ (x ++ ']' :: r) := by
    simp [fieldText]
  rw [field, first_seq_text, heq, List.drop_left, if_pos (List.isPrefixOf_iff_prefix.2
    (List.prefix_append _ _)), first_value hclose hx]
  simp [Way.andThen, fieldText]

theorem field_of_first {key : List Char} {accepts : Char → Bool} {name : String} {s : List Char}
    {w : Way} (h : (field key name accepts).first s = some w) :
    ∃ x r, FieldValue accepts x ∧ s = fieldText key x ++ r := by
  rw [field, first_seq_text] at h
  split at h
  case isFalse => cases h
  case isTrue hkey =>
    obtain ⟨t, rfl⟩ := List.isPrefixOf_iff_prefix.1 hkey
    rw [List.drop_left] at h
    obtain ⟨w', hw', -⟩ := Option.map_eq_some_iff.1 h
    rw [first_seq] at hw'
    obtain ⟨v, hv, hlast⟩ := List.exists_of_findSome?_eq_some hw'
    simp only [results, List.map_map, List.mem_map, List.mem_filter, decide_eq_true_eq] at hv
    obtain ⟨y, ⟨hy, hlen⟩, rfl⟩ := hv
    obtain ⟨heq, hall⟩ := mem_splits.1 hy
    obtain ⟨z, hz, -⟩ := Option.map_eq_some_iff.1 hlast
    rw [first_text] at hz
    split at hz
    case isFalse => cases hz
    case isTrue hbr =>
      obtain ⟨r, hr⟩ := List.isPrefixOf_iff_prefix.1 hbr
      refine ⟨y.1, r, ⟨List.length_pos_iff.1 hlen, hall⟩, ?_⟩
      have hy2 : y.2 = ']' :: r := hr.symm
      rw [heq, hy2]
      simp [fieldText]

/-- A lazy run and the one field behind it. -/
theorem first_lazy_field {accepts skips : Char → Bool} {key : List Char} {name : String}
    {a x r : List Char} (hclose : accepts ']' = false) (hx : FieldValue accepts x)
    (hskip : ∀ c ∈ a, skips c = true)
    (honce : ∀ b y t, FieldValue accepts y →
      a ++ (fieldText key x ++ r) = b ++ (fieldText key y ++ t) → b = a) :
    (seq (run skips 0 false) (field key name accepts)).first (a ++ (fieldText key x ++ r)) =
      some ⟨[(name, String.ofList x)], a ++ fieldText key x, r⟩ := by
  have hmem : (⟨[], a, fieldText key x ++ r⟩ : Way) ∈
      (run skips 0 false).results (a ++ (fieldText key x ++ r)) := by
    simp only [results, List.mem_map, List.mem_filter]
    exact ⟨(a, fieldText key x ++ r), ⟨mem_splits.2 ⟨rfl, hskip⟩, by simp⟩, rfl⟩
  rw [first_seq, findSome?_eq_of_unique hmem]
  · dsimp only
    rw [first_field hclose hx]
    rfl
  · intro w hw hne
    simp only [results, List.mem_map, List.mem_filter] at hw
    obtain ⟨y, ⟨hy, -⟩, rfl⟩ := hw
    obtain ⟨heq, -⟩ := mem_splits.1 hy
    obtain ⟨v, hv⟩ := Option.ne_none_iff_exists'.1 hne
    obtain ⟨v', hv', -⟩ := Option.map_eq_some_iff.1 hv
    obtain ⟨z, t, hz, hy2⟩ := field_of_first hv'
    have hy1 : y.1 = a := honce y.1 z t hz (heq.trans (by rw [← hy2]))
    have hsame : y.2 = fieldText key x ++ r := by
      rw [hy1] at heq
      exact (List.append_cancel_left heq).symm
    rw [hy1, hsame]

theorem captures_of_lazy_field {accepts skips : Char → Bool} {key : List Char} {name : String}
    {s : List Char} {w : Way} (hclose : accepts ']' = false)
    (h : (seq (run skips 0 false) (field key name accepts)).first s = some w) :
    ∃ x, w.captures = [(name, String.ofList x)] := by
  rw [first_seq] at h
  obtain ⟨v, hv, hmap⟩ := List.exists_of_findSome?_eq_some h
  simp only [results, List.mem_map, List.mem_filter] at hv
  obtain ⟨y, -, rfl⟩ := hv
  obtain ⟨v', hv', rfl⟩ := Option.map_eq_some_iff.1 hmap
  obtain ⟨x, r, hx, hs⟩ := field_of_first hv'
  dsimp only at hs
  rw [hs, first_field hclose hx] at hv'
  obtain rfl := Option.some.inj hv'
  exact ⟨x, rfl⟩

/-- A lazy run and no field that it reaches. -/
theorem first_lazy_field_none {accepts skips : Char → Bool} {key : List Char} {name : String}
    {s : List Char}
    (h : ∀ b y t, FieldValue accepts y → s = b ++ (fieldText key y ++ t) →
      ¬ ∀ c ∈ b, skips c = true) :
    (seq (run skips 0 false) (field key name accepts)).first s = none := by
  rw [first_seq, List.findSome?_eq_none_iff]
  intro w hw
  simp only [results, List.mem_map, List.mem_filter] at hw
  obtain ⟨y, ⟨hy, -⟩, rfl⟩ := hw
  obtain ⟨heq, hall⟩ := mem_splits.1 hy
  cases hfirst : (field key name accepts).first y.2 with
  | none => rfl
  | some v =>
    obtain ⟨z, t, hz, hy2⟩ := field_of_first hfirst
    exact absurd hall (h y.1 z t hz (by rw [← hy2]; exact heq))

/-! ## What a way takes -/

/-- Only texts are matched, and nothing is captured. -/
def plain : Pattern → Bool
  | text _ => true
  | run _ _ _ => false
  | seq p q => p.plain && q.plain
  | alt p q => p.plain && q.plain
  | opt p => p.plain
  | group _ _ => false

/-- The texts that a plain pattern matches. -/
def words : Pattern → List (List Char)
  | text cs => [cs]
  | run _ _ _ => []
  | seq p q => p.words.flatMap fun u => q.words.map (u ++ ·)
  | alt p q => p.words ++ q.words
  | opt p => p.words ++ [[]]
  | group _ p => p.words

theorem mem_results_of_plain {p : Pattern} (hplain : p.plain = true) {s : List Char} {w : Way} :
    w ∈ p.results s ↔ w.captures = [] ∧ w.taken ∈ p.words ∧ w.taken ++ w.rest = s := by
  have hnothing : ∀ {s : List Char} {w : Way}, w.captures = [] → w.taken = [] →
      w.taken ++ w.rest = s → w = Way.nothing s := by
    rintro s ⟨captures, taken, rest⟩ rfl rfl rfl
    rfl
  induction p generalizing s w with
  | text cs =>
    have hmatch : w ∈ (text cs).results s ↔ w = ⟨[], cs, s.drop cs.length⟩ ∧ cs <+: s := by
      rw [results, ← List.isPrefixOf_iff_prefix]
      split <;> simp [*]
    rw [hmatch, words, List.mem_singleton]
    constructor
    · rintro ⟨rfl, t, rfl⟩
      exact ⟨rfl, rfl, by rw [List.drop_left]⟩
    · obtain ⟨captures, taken, rest⟩ := w
      rintro ⟨rfl, rfl, rfl⟩
      exact ⟨by rw [List.drop_left], List.prefix_append _ _⟩
  | run => cases hplain
  | seq p q ihp ihq =>
    rw [plain, Bool.and_eq_true] at hplain
    simp only [results, words, List.mem_flatMap, List.mem_map]
    constructor
    · rintro ⟨v, hv, u, hu, rfl⟩
      obtain ⟨hvcap, hvmem, rfl⟩ := (ihp hplain.1).1 hv
      obtain ⟨hucap, humem, hrest⟩ := (ihq hplain.2).1 hu
      refine ⟨?_, ⟨v.taken, hvmem, u.taken, humem, rfl⟩, ?_⟩
      · rw [Way.andThen, hvcap, hucap]
        rfl
      · rw [← hrest, Way.andThen, List.append_assoc]
    · obtain ⟨captures, taken, rest⟩ := w
      rintro ⟨rfl, ⟨u, hu, v, hv, rfl⟩, rfl⟩
      exact ⟨⟨[], u, v ++ rest⟩, (ihp hplain.1).2 ⟨rfl, hu, by rw [List.append_assoc]⟩,
        ⟨[], v, rest⟩, (ihq hplain.2).2 ⟨rfl, hv, rfl⟩, rfl⟩
  | alt p q ihp ihq =>
    rw [plain, Bool.and_eq_true] at hplain
    rw [results, List.mem_append, words, List.mem_append]
    constructor
    · rintro (h | h)
      · obtain ⟨hcap, hmem, happ⟩ := (ihp hplain.1).1 h
        exact ⟨hcap, .inl hmem, happ⟩
      · obtain ⟨hcap, hmem, happ⟩ := (ihq hplain.2).1 h
        exact ⟨hcap, .inr hmem, happ⟩
    · rintro ⟨hcap, hmem | hmem, happ⟩
      · exact .inl ((ihp hplain.1).2 ⟨hcap, hmem, happ⟩)
      · exact .inr ((ihq hplain.2).2 ⟨hcap, hmem, happ⟩)
  | opt p ih =>
    rw [results, List.mem_append, words, List.mem_append, List.mem_singleton, List.mem_singleton]
    constructor
    · rintro (h | rfl)
      · obtain ⟨hcap, hmem, happ⟩ := (ih hplain).1 h
        exact ⟨hcap, .inl hmem, happ⟩
      · exact ⟨rfl, .inr rfl, rfl⟩
    · rintro ⟨hcap, hmem | hmem, happ⟩
      · exact .inl ((ih hplain).2 ⟨hcap, hmem, happ⟩)
      · exact .inr (hnothing hcap hmem happ)
  | group => cases hplain

theorem mem_of_first {p : Pattern} {s : List Char} {w : Way} (h : p.first s = some w) :
    w ∈ p.results s := List.mem_of_mem_head? h

/-- The search stops at the first place where `p` matches, and that is not behind a place where it
does. -/
theorem search_seq_of_total {p q : Pattern} (htotal : ∀ s, (q.first s).isSome = true)
    (pre : List Char) {s : List Char} (hp : (p.first s).isSome = true) :
    ∃ b t w, pre ++ s = b ++ t ∧ b.length ≤ pre.length ∧ p.first t = some w ∧
      (seq p q).search (pre ++ s) =
        (q.first w.rest).map fun w' => w.captures ++ w'.captures := by
  have hfirst : ∀ {t : List Char} {w : Way}, p.first t = some w → (seq p q).search t =
      (q.first w.rest).map fun w' => w.captures ++ w'.captures := by
    intro t w hw
    obtain ⟨w', hw'⟩ := Option.isSome_iff_exists.1 (htotal w.rest)
    have hseq : (seq p q).first t = some (w.andThen w') := by
      rw [first_seq_of_total htotal, hw, Option.bind_some, hw', Option.map_some]
    rw [search_of_first hseq, hw', Option.map_some, Way.andThen]
  induction pre with
  | nil =>
    obtain ⟨w, hw⟩ := Option.isSome_iff_exists.1 hp
    exact ⟨[], s, w, rfl, Nat.le_refl _, hw, hfirst hw⟩
  | cons c pre ih =>
    cases hw : p.first (c :: pre ++ s) with
    | some w => exact ⟨[], c :: pre ++ s, w, rfl, Nat.zero_le _, hw, hfirst hw⟩
    | none =>
      obtain ⟨b, t, w, heq, hlen, hw', hsearch⟩ := ih
      refine ⟨c :: b, t, w, congrArg (c :: ·) heq, Nat.succ_le_succ hlen, hw', ?_⟩
      have hnone : (seq p q).first (c :: (pre ++ s)) = none := by
        rw [first_seq_of_total htotal, ← List.cons_append, hw]
        rfl
      rw [List.cons_append, search, hnone]
      exact hsearch

/-! ## A value behind a key -/

/-- As many characters of a class as there are, and at least one. -/
theorem first_run_greedy (accepts : Char → Bool) (s : List Char) :
    (run accepts 1 true).first s =
      if s.takeWhile accepts = [] then none
      else some ⟨[], s.takeWhile accepts, s.dropWhile accepts⟩ := by
  have hhead : (splits accepts true s).head? = some (s.takeWhile accepts, s.dropWhile accepts) := by
    induction s with
    | nil => rfl
    | cons c cs ih =>
      cases hc : accepts c with
      | false => simp [splits, hc]
      | true =>
        rw [splits, if_pos rfl, if_pos hc, List.head?_append, List.head?_map, ih,
          List.takeWhile_cons_of_pos hc, List.dropWhile_cons_of_pos hc]
        rfl
  rw [first, results]
  split
  case isTrue hnil =>
    have hstop : ∀ x ∈ splits accepts true s, x.1 = [] := by
      intro x hx
      obtain ⟨hs, hall⟩ := mem_splits.1 hx
      rw [hs, List.takeWhile_append_of_pos hall] at hnil
      exact (List.append_eq_nil_iff.1 hnil).1
    rw [List.filter_eq_nil_iff.2 fun x hx => by simp [hstop x hx]]
    rfl
  case isFalse hne =>
    obtain ⟨l, hl⟩ := List.head?_eq_some_iff.1 hhead
    have hlen : 1 ≤ (s.takeWhile accepts).length := List.length_pos_iff.2 hne
    simp only [hl, List.filter_cons, hlen, decide_true, if_true]
    rfl

/-- A plain pattern, of the texts of which none begins with another. -/
structure Keys (key : Pattern) : Prop where
  plain : key.plain = true
  eq_of_prefix : ∀ k ∈ key.words, ∀ k' ∈ key.words, k <+: k' → k = k'

/-- A key and what stands behind it. -/
def keyed (key : Pattern) (name : String) (accepts : Char → Bool) : Pattern :=
  seq key (group name (run accepts 1 true))

theorem first_group (name : String) (p : Pattern) (s : List Char) : (group name p).first s =
    (p.first s).map fun w =>
      { w with captures := (name, String.ofList w.taken) :: w.captures } := by
  rw [first, results, List.head?_map]
  rfl

section
variable {key : Pattern} {name : String} {accepts : Char → Bool}

theorem first_keyed (hkey : Keys key) {k s : List Char} (hk : k ∈ key.words)
    (hs : s.takeWhile accepts ≠ []) : (keyed key name accepts).first (k ++ s) =
      some ⟨[(name, String.ofList (s.takeWhile accepts))], k ++ s.takeWhile accepts,
        s.dropWhile accepts⟩ := by
  have hmem : (⟨[], k, s⟩ : Way) ∈ key.results (k ++ s) :=
    (mem_results_of_plain hkey.plain).2 ⟨rfl, hk, rfl⟩
  rw [keyed, first_seq, findSome?_eq_of_unique hmem]
  · rw [first_group, first_run_greedy, if_neg hs]
    rfl
  · intro w hw _
    obtain ⟨hcap, htaken, happ⟩ := (mem_results_of_plain hkey.plain).1 hw
    have hsame : w.taken = k := by
      rcases List.prefix_or_prefix_of_prefix ⟨w.rest, happ⟩ ⟨s, rfl⟩ with h | h
      · exact hkey.eq_of_prefix _ htaken _ hk h
      · exact (hkey.eq_of_prefix _ hk _ htaken h).symm
    have hrest : w.rest = s := by
      rw [hsame] at happ
      exact List.append_cancel_left happ
    cases w
    subst hcap hsame hrest
    rfl

theorem keyed_of_first (hkey : Keys key) {s : List Char} {w : Way}
    (h : (keyed key name accepts).first s = some w) :
    ∃ k ∈ key.words, ∃ t, s = k ++ t ∧ t.takeWhile accepts ≠ [] := by
  rw [keyed, first_seq] at h
  obtain ⟨v, hv, hmap⟩ := List.exists_of_findSome?_eq_some h
  obtain ⟨-, htaken, rfl⟩ := (mem_results_of_plain hkey.plain).1 hv
  refine ⟨v.taken, htaken, v.rest, rfl, fun hnil => ?_⟩
  rw [first_group, first_run_greedy, if_pos hnil] at hmap
  cases hmap

/-- A lazy run and the one value that it reaches. -/
theorem first_lazy_keyed {skips : Char → Bool} (name : String) (hkey : Keys key)
    {a k s : List Char}
    (hk : k ∈ key.words) (hs : s.takeWhile accepts ≠ []) (hskip : ∀ c ∈ a, skips c = true)
    (honce : ∀ b, ∀ k' ∈ key.words, ∀ t, t.takeWhile accepts ≠ [] → a ++ (k ++ s) = b ++ (k' ++ t) →
      b = a) :
    (seq (run skips 0 false) (keyed key name accepts)).first (a ++ (k ++ s)) =
      some ⟨[(name, String.ofList (s.takeWhile accepts))], a ++ (k ++ s.takeWhile accepts),
        s.dropWhile accepts⟩ := by
  have hmem : (⟨[], a, k ++ s⟩ : Way) ∈ (run skips 0 false).results (a ++ (k ++ s)) := by
    simp only [results, List.mem_map, List.mem_filter]
    exact ⟨(a, k ++ s), ⟨mem_splits.2 ⟨rfl, hskip⟩, by simp⟩, rfl⟩
  rw [first_seq, findSome?_eq_of_unique hmem]
  · dsimp only
    rw [first_keyed hkey hk hs]
    rfl
  · intro w hw hne
    simp only [results, List.mem_map, List.mem_filter] at hw
    obtain ⟨y, ⟨hy, -⟩, rfl⟩ := hw
    obtain ⟨heq, -⟩ := mem_splits.1 hy
    obtain ⟨v, hv⟩ := Option.ne_none_iff_exists'.1 hne
    obtain ⟨v', hv', -⟩ := Option.map_eq_some_iff.1 hv
    obtain ⟨k', hk', t, hy2, ht⟩ := keyed_of_first hkey hv'
    have hy1 : y.1 = a := honce y.1 k' hk' t ht (heq.trans (by rw [← hy2]))
    have hsame : y.2 = k ++ s := by
      rw [hy1] at heq
      exact (List.append_cancel_left heq).symm
    rw [hy1, hsame]

/-- A lazy run and no value. -/
theorem first_lazy_keyed_none {skips : Char → Bool} (hkey : Keys key) {s : List Char}
    (hnone : ∀ b, ∀ k ∈ key.words, ∀ t, t.takeWhile accepts ≠ [] → s ≠ b ++ (k ++ t)) :
    (seq (run skips 0 false) (keyed key name accepts)).first s = none := by
  rw [first_seq, List.findSome?_eq_none_iff]
  intro w hw
  simp only [results, List.mem_map, List.mem_filter] at hw
  obtain ⟨y, ⟨hy, -⟩, rfl⟩ := hw
  obtain ⟨heq, -⟩ := mem_splits.1 hy
  cases hfirst : (keyed key name accepts).first y.2 with
  | none => rfl
  | some v =>
    obtain ⟨k, hk, t, hy2, ht⟩ := keyed_of_first hkey hfirst
    exact absurd (heq.trans (by rw [← hy2])) (hnone y.1 k hk t ht)

end

end Pattern

end Regex
