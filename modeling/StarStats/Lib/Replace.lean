import Mathlib.Computability.Language
import Mathlib.Data.List.Basic
import StarStats.Lib.Text

/-!
# Replacing every match

`Matcher` lists the ways to match at the front of a text, the preferred one first; `Spells` says
which language it is that a matcher takes its texts from. `Rule.replaceAll` goes through a text and
replaces the leftmost matches that do not overlap, and `Edited` is what it and similar rewritings do
to a text, from left to right.

* `Rule.free_of_edited`: where no match starts at a place that is kept, and none can reach into what
  is put in, none is left after the rewriting.
* `Paired.edited`: a text whose quotes are used up stays one.
-/

namespace Replace

open Computability

/-! ## Matchers -/

/-- What is taken from the front, and what is left. -/
abbrev Matcher := List Char → List (List Char × List Char)

namespace Matcher

/-- One character of a class. -/
def one (accepts : Char → Bool) : Matcher
  | c :: cs => if accepts c then [([c], cs)] else []
  | [] => []

def nothing : Matcher := fun s => [([], s)]

def seq (p q : Matcher) : Matcher := fun s =>
  (p s).flatMap fun x => (q x.2).map fun y => (x.1 ++ y.1, y.2)

/-- `p?` -/
def opt (p : Matcher) : Matcher := fun s => p s ++ [([], s)]

/-- The character itself. -/
def char (c : Char) : Matcher := one (· == c)

def inOrder (ps : List Matcher) : Matcher := ps.foldr seq nothing

/-- `p{n}` -/
def times (p : Matcher) : Nat → Matcher
  | 0 => nothing
  | n + 1 => seq p (times p n)

/-- `p{0,n}` -/
def upTo (p : Matcher) : Nat → Matcher
  | 0 => nothing
  | n + 1 => opt (seq p (upTo p n))

/-- `p*`, of a matcher that always takes something. -/
def star (p : Matcher) : Matcher := fun s => upTo p s.length s

/-- `p+` -/
def plus (p : Matcher) : Matcher := seq p (star p)

end Matcher

/-- The matcher takes from the front what is in the language. -/
def Spells (p : Matcher) (l : Language Char) : Prop :=
  ∀ s t r, (t, r) ∈ p s ↔ s = t ++ r ∧ t ∈ l

section
variable {p q : Matcher} {l m : Language Char}

/-- The texts of one character of a class. -/
def letter (accepts : Char → Bool) : Language Char := {t | ∃ c, accepts c = true ∧ t = [c]}

theorem mem_letter {accepts : Char → Bool} {t : List Char} :
    t ∈ letter accepts ↔ ∃ c, accepts c = true ∧ t = [c] := Iff.rfl

theorem spells_one (accepts : Char → Bool) : Spells (.one accepts) (letter accepts) := by
  intro s t r
  cases s with
  | nil =>
    rw [mem_letter]
    refine iff_of_false List.not_mem_nil ?_
    rintro ⟨heq, c, -, rfl⟩
    cases heq
  | cons c cs =>
    rw [Matcher.one, mem_letter]
    constructor
    · intro h
      split at h
      case isTrue hc =>
        obtain ⟨rfl, rfl⟩ := Prod.mk.inj (List.mem_singleton.1 h)
        exact ⟨rfl, c, hc, rfl⟩
      case isFalse => cases h
    · rintro ⟨heq, d, hd, rfl⟩
      obtain ⟨rfl, rfl⟩ := List.cons.inj heq
      rw [if_pos hd]
      exact List.mem_singleton_self _

theorem spells_nothing : Spells .nothing 1 := by
  intro s t r
  rw [Matcher.nothing, List.mem_singleton, Prod.mk.injEq, Language.mem_one]
  constructor
  · rintro ⟨rfl, rfl⟩
    exact ⟨rfl, rfl⟩
  · rintro ⟨rfl, rfl⟩
    exact ⟨rfl, rfl⟩

theorem Spells.seq (hp : Spells p l) (hq : Spells q m) : Spells (.seq p q) (l * m) := by
  intro s t r
  simp only [Matcher.seq, List.mem_flatMap, List.mem_map, Language.mem_mul, Prod.mk.injEq]
  constructor
  · rintro ⟨⟨a, u⟩, ha, ⟨b, v⟩, hb, rfl, rfl⟩
    obtain ⟨rfl, hal⟩ := (hp _ _ _).1 ha
    obtain ⟨rfl, hbm⟩ := (hq _ _ _).1 hb
    exact ⟨(List.append_assoc _ _ _).symm, a, hal, b, hbm, rfl⟩
  · rintro ⟨rfl, a, ha, b, hb, rfl⟩
    exact ⟨(a, b ++ r), (hp _ _ _).2 ⟨List.append_assoc _ _ _, ha⟩, (b, r),
      (hq _ _ _).2 ⟨rfl, hb⟩, rfl, rfl⟩

theorem Spells.opt (hp : Spells p l) : Spells (.opt p) (l + 1) := by
  intro s t r
  rw [Matcher.opt, List.mem_append, hp s t r, ← Matcher.nothing, spells_nothing s t r,
    Language.mem_add, and_or_left]

theorem spells_char (c : Char) : Spells (.char c) (letter (· == c)) := spells_one _

theorem spells_inOrder {ps : List Matcher} {ls : List (Language Char)}
    (h : List.Forall₂ Spells ps ls) : Spells (.inOrder ps) ls.prod := by
  induction h with
  | nil => exact spells_nothing
  | cons hp _ ih =>
    rw [List.prod_cons]
    exact hp.seq ih

theorem Spells.times (hp : Spells p l) (n : Nat) : Spells (.times p n) (l ^ n) := by
  induction n with
  | zero => exact spells_nothing
  | succ n ih =>
    rw [pow_succ']
    exact hp.seq ih

/-- At most `n` texts of the language. -/
def atMost (l : Language Char) : Nat → Language Char
  | 0 => 1
  | n + 1 => l * atMost l n + 1

theorem Spells.upTo (hp : Spells p l) (n : Nat) : Spells (.upTo p n) (atMost l n) := by
  induction n with
  | zero => exact spells_nothing
  | succ n ih => exact (hp.seq ih).opt

theorem mem_atMost {n : Nat} {t : List Char} :
    t ∈ atMost l n ↔ ∃ ws : List (List Char), t = ws.flatten ∧ ws.length ≤ n ∧ ∀ w ∈ ws, w ∈ l := by
  induction n generalizing t with
  | zero =>
    rw [atMost, Language.mem_one]
    constructor
    · rintro rfl
      exact ⟨[], rfl, Nat.le_refl _, by simp⟩
    · rintro ⟨ws, rfl, hlen, -⟩
      rw [List.length_eq_zero_iff.1 (Nat.le_zero.1 hlen)]
      rfl
  | succ n ih =>
    rw [atMost, Language.mem_add, Language.mem_one, Language.mem_mul]
    constructor
    · rintro (⟨a, ha, b, hb, rfl⟩ | rfl)
      · obtain ⟨ws, rfl, hlen, hall⟩ := ih.1 hb
        exact ⟨a :: ws, rfl, Nat.succ_le_succ hlen, List.forall_mem_cons.2 ⟨ha, hall⟩⟩
      · exact ⟨[], rfl, Nat.zero_le _, by simp⟩
    · rintro ⟨ws, rfl, hlen, hall⟩
      cases ws with
      | nil => exact .inr rfl
      | cons a ws =>
        rw [List.forall_mem_cons] at hall
        exact .inl ⟨a, hall.1, ws.flatten, ih.2 ⟨ws, rfl, Nat.le_of_succ_le_succ hlen, hall.2⟩, rfl⟩

theorem Spells.star (hp : Spells p l) (hne : ∀ t ∈ l, t ≠ []) : Spells (.star p) l∗ := by
  intro s t r
  rw [Matcher.star, hp.upTo s.length s t r, mem_atMost, Language.mem_kstar]
  constructor
  · rintro ⟨rfl, ws, rfl, -, hall⟩
    exact ⟨rfl, ws, rfl, hall⟩
  · rintro ⟨rfl, ws, rfl, hall⟩
    refine ⟨rfl, ws, rfl, ?_, hall⟩
    have hlen : ws.length ≤ ws.flatten.length := by
      clear hp
      induction ws with
      | nil => exact Nat.le_refl _
      | cons w ws ih =>
        rw [List.forall_mem_cons] at hall
        have hw := List.length_pos_iff.2 (hne w hall.1)
        have := ih hall.2
        rw [List.flatten_cons, List.length_append, List.length_cons]
        omega
    rw [List.length_append]
    omega

theorem Spells.plus (hp : Spells p l) (hne : ∀ t ∈ l, t ≠ []) : Spells (.plus p) (l * l∗) :=
  hp.seq (hp.star hne)

/-! ## How the texts of a language look -/

/-- Every character of every text. -/
def Over (P : Char → Prop) (l : Language Char) : Prop := ∀ t ∈ l, ∀ c ∈ t, P c

/-- No text is empty, and the first character of each. -/
def Heads (P : Char → Prop) (l : Language Char) : Prop := ∀ t ∈ l, ∃ c u, t = c :: u ∧ P c

/-- No text is empty, and the last character of each. -/
def Lasts (P : Char → Prop) (l : Language Char) : Prop := ∀ t ∈ l, ∃ v c, t = v ++ [c] ∧ P c

/-- The first two characters of every text. -/
def Pairs (R : Char → Char → Prop) (l : Language Char) : Prop :=
  ∀ t ∈ l, ∃ c d u, t = c :: d :: u ∧ R c d

variable {P Q : Char → Prop} {R : Char → Char → Prop} {accepts : Char → Bool}

theorem over_letter (h : ∀ c, accepts c = true → P c) : Over P (letter accepts) := by
  rintro _ ⟨c, hc, rfl⟩ d hd
  exact List.mem_singleton.1 hd ▸ h c hc

theorem over_one : Over P 1 := by
  intro t ht c hc
  rw [(Language.mem_one _).1 ht] at hc
  cases hc

theorem Over.mul (hl : Over P l) (hm : Over P m) : Over P (l * m) := by
  rintro _ ⟨a, ha, b, hb, rfl⟩ c hc
  exact (List.mem_append.1 hc).elim (hl a ha c) (hm b hb c)

theorem Over.add (hl : Over P l) (hm : Over P m) : Over P (l + m) := by
  intro t ht
  exact ((Language.mem_add _ _ _).1 ht).elim (hl t) (hm t)

theorem Over.pow (hl : Over P l) (n : Nat) : Over P (l ^ n) := by
  induction n with
  | zero => exact over_one
  | succ n ih =>
    rw [pow_succ]
    exact ih.mul hl

theorem Over.atMost (hl : Over P l) (n : Nat) : Over P (atMost l n) := by
  induction n with
  | zero => exact over_one
  | succ n ih => exact (hl.mul ih).add over_one

theorem Over.kstar (hl : Over P l) : Over P l∗ := by
  intro t ht c hc
  obtain ⟨ws, rfl, hall⟩ := Language.mem_kstar.1 ht
  obtain ⟨w, hw, hcw⟩ := List.mem_flatten.1 hc
  exact hl w (hall w hw) c hcw

theorem over_prod {ls : List (Language Char)} (h : ∀ l ∈ ls, Over P l) : Over P ls.prod := by
  induction ls with
  | nil => exact over_one
  | cons l ls ih =>
    rw [List.forall_mem_cons] at h
    rw [List.prod_cons]
    exact h.1.mul (ih h.2)

theorem heads_letter (h : ∀ c, accepts c = true → P c) : Heads P (letter accepts) := by
  rintro _ ⟨c, hc, rfl⟩
  exact ⟨c, [], rfl, h c hc⟩

theorem Heads.imp (h : ∀ c, P c → Q c) (hl : Heads P l) : Heads Q l := fun t ht =>
  have ⟨c, u, heq, hc⟩ := hl t ht
  ⟨c, u, heq, h c hc⟩

theorem Lasts.imp (h : ∀ c, P c → Q c) (hl : Lasts P l) : Lasts Q l := fun t ht =>
  have ⟨v, c, heq, hc⟩ := hl t ht
  ⟨v, c, heq, h c hc⟩

theorem Heads.mul (hl : Heads P l) : Heads P (l * m) := by
  rintro _ ⟨a, ha, b, -, rfl⟩
  obtain ⟨c, u, rfl, hc⟩ := hl a ha
  exact ⟨c, u ++ b, rfl, hc⟩

/-- A first factor that can be left out. -/
theorem Heads.mul_of_over (hl : Over P l) (hm : Heads P m) : Heads P (l * m) := by
  rintro _ ⟨a, ha, b, hb, rfl⟩
  cases a with
  | nil => exact hm b hb
  | cons c a => exact ⟨c, a ++ b, rfl, hl _ ha c List.mem_cons_self⟩

theorem Heads.lasts (hl : Heads Q l) (hover : Over P l) : Lasts P l := by
  intro t ht
  obtain ⟨c, u, rfl, -⟩ := hl t ht
  have hsplit := List.dropLast_concat_getLast (List.cons_ne_nil c u)
  exact ⟨_, _, hsplit.symm, hover _ ht _ (List.getLast_mem _)⟩

theorem lasts_letter (h : ∀ c, accepts c = true → P c) : Lasts P (letter accepts) :=
  (heads_letter h).lasts (over_letter h)

theorem Lasts.mul (hm : Lasts P m) : Lasts P (l * m) := by
  rintro _ ⟨a, -, b, hb, rfl⟩
  obtain ⟨v, c, rfl, hc⟩ := hm b hb
  exact ⟨a ++ v, c, List.append_assoc _ _ _ |>.symm, hc⟩

theorem Lasts.mul_opt (hl : Lasts P l) (hm : Lasts P m) : Lasts P (l * (m + 1)) := by
  rintro _ ⟨a, ha, b, hb, rfl⟩
  rcases (Language.mem_add _ _ _).1 hb with hb | hb
  · exact hm.mul _ ⟨a, ha, b, hb, rfl⟩
  · obtain ⟨v, c, rfl, hc⟩ := hl a ha
    rw [(Language.mem_one _).1 hb]
    exact ⟨v, c, List.append_nil _, hc⟩

theorem pairs_of_heads (hl : ∀ c, accepts c = true → P c) (hm : Heads Q m)
    (h : ∀ c d, P c → Q d → R c d) : Pairs R (letter accepts * m) := by
  rintro _ ⟨_, ⟨c, hc, rfl⟩, b, hb, rfl⟩
  obtain ⟨d, u, rfl, hd⟩ := hm b hb
  exact ⟨c, d, u, rfl, h c d (hl c hc) hd⟩

theorem pairs_pow (hl : ∀ c, accepts c = true → P c) (h : ∀ c d, P c → P d → R c d) (n : Nat) :
    Pairs R (letter accepts ^ (n + 2)) := by
  rw [pow_succ', pow_succ']
  exact pairs_of_heads hl (heads_letter hl).mul h

theorem Pairs.mul (hl : Pairs R l) : Pairs R (l * m) := by
  rintro _ ⟨a, ha, b, -, rfl⟩
  obtain ⟨c, d, u, rfl, hcd⟩ := hl a ha
  exact ⟨c, d, u ++ b, rfl, hcd⟩

end

/-! ## Rules -/

/-- `\b`: a word character on one side. -/
def boundary (isWord : Char → Bool) (a b : Option Char) : Bool := a.any isWord != b.any isWord

structure Rule where
  pattern : Matcher
  /-- With `\b` at both ends. -/
  bounded : Bool
  replacement : List Char

namespace Rule

section
variable (isWord : Char → Bool) (r : Rule)

/-- The match at the front of a text that stands behind `prev`. A match of nothing is none. -/
def find (prev : Option Char) (s : List Char) : Option (List Char × List Char) :=
  (r.pattern s).find? fun x => !x.1.isEmpty &&
    (!r.bounded || boundary isWord prev s.head? && boundary isWord x.1.getLast? x.2.head?)

/-- Of a match that was replaced `skip` characters are left. -/
def replaceFrom : Nat → Option Char → List Char → List Char
  | _, _, [] => []
  | skip + 1, _, c :: cs => replaceFrom skip (some c) cs
  | 0, prev, c :: cs =>
    match r.find isWord prev (c :: cs) with
    | some x => r.replacement ++ replaceFrom (x.1.length - 1) (some c) cs
    | none => c :: replaceFrom 0 (some c) cs

/-- `replace_all` -/
def replaceAll (s : List Char) : List Char := r.replaceFrom isWord 0 none s

/-- No match starts anywhere. -/
def Free : Option Char → List Char → Prop
  | _, [] => True
  | prev, c :: cs => r.find isWord prev (c :: cs) = none ∧ Free (some c) cs

end

section
variable {isWord : Char → Bool} {r : Rule} {l : Language Char}

theorem find_eq_some (hl : Spells r.pattern l) {prev : Option Char} {s t u : List Char}
    (h : r.find isWord prev s = some (t, u)) : s = t ++ u ∧ t ∈ l ∧ t ≠ [] ∧
      (r.bounded = true → boundary isWord prev s.head? = true ∧
        boundary isWord t.getLast? u.head? = true) := by
  obtain ⟨hs, ht⟩ := (hl s t u).1 (List.mem_of_find?_eq_some h)
  have hfits := List.find?_some h
  simp only [Bool.and_eq_true, Bool.or_eq_true, Bool.not_eq_true', List.isEmpty_eq_false_iff]
    at hfits
  refine ⟨hs, ht, hfits.1, fun hb => ?_⟩
  rcases hfits.2 with hnot | hfits
  · rw [hb] at hnot
    cases hnot
  · exact hfits

theorem find_eq_none (hl : Spells r.pattern l) {prev : Option Char} {s : List Char} :
    r.find isWord prev s = none ↔ ∀ t u, s = t ++ u → t ∈ l → t ≠ [] →
      r.bounded = true ∧ (boundary isWord prev s.head? = true →
        boundary isWord t.getLast? u.head? = false) := by
  rw [find, List.find?_eq_none]
  constructor
  · intro h t u hs ht hne
    have := h (t, u) ((hl s t u).2 ⟨hs, ht⟩)
    simpa [hne] using this
  · rintro h ⟨t, u⟩ hmem
    obtain ⟨hs, ht⟩ := (hl s t u).1 hmem
    by_cases hne : t = []
    · simp [hne]
    · simpa [hne] using h t u hs ht hne

theorem replaceFrom_of_free {prev : Option Char} {s : List Char} (h : r.Free isWord prev s) :
    r.replaceFrom isWord 0 prev s = s := by
  induction s generalizing prev with
  | nil => rfl
  | cons c cs ih => rw [replaceFrom, h.1, ih h.2]

theorem Free.append {prev : Option Char} {t s : List Char} (hne : t ≠ [])
    (h : r.Free isWord prev (t ++ s)) : r.Free isWord t.getLast? s := by
  induction t generalizing prev with
  | nil => exact absurd rfl hne
  | cons c t ih =>
    cases t with
    | nil => exact h.2
    | cons d t => exact ih (List.cons_ne_nil d t) h.2

theorem replaceFrom_skip {prev : Option Char} (t s : List Char) :
    r.replaceFrom isWord t.length prev (t ++ s) =
      r.replaceFrom isWord 0 (t.getLast?.or prev) s := by
  induction t generalizing prev with
  | nil => rfl
  | cons c t ih =>
    rw [List.length_cons, List.cons_append, replaceFrom, ih, List.getLast?_cons]
    cases t.getLast? <;> rfl

theorem replaceFrom_of_find (hl : Spells r.pattern l) {prev : Option Char} {s t u : List Char}
    (h : r.find isWord prev s = some (t, u)) :
    r.replaceFrom isWord 0 prev s =
      r.replacement ++ r.replaceFrom isWord 0 t.getLast? u := by
  obtain ⟨rfl, -, hne, -⟩ := find_eq_some hl h
  obtain ⟨c, t, rfl⟩ := List.exists_cons_of_ne_nil hne
  rw [List.cons_append] at h ⊢
  rw [replaceFrom, h]
  dsimp only
  rw [List.length_cons, Nat.add_sub_cancel, replaceFrom_skip, List.getLast?_cons]
  cases t.getLast? <;> rfl

end

end Rule

/-! ## Editing from left to right -/

/-- The second text is the first with stretches replaced. `Kept` is what holds of the places that
are kept, with the character in front of them and the text from there; `Swapped` is what holds of
the character in front of a stretch, the stretch, what is put in, and the text behind it. -/
inductive Edited (Kept : Option Char → List Char → Prop)
    (Swapped : Option Char → List Char → List Char → List Char → Prop) :
    Option Char → List Char → List Char → Prop
  | nil {prev : Option Char} : Edited Kept Swapped prev [] []
  | keep {prev : Option Char} {c : Char} {s s' : List Char} :
    Kept prev (c :: s) → Edited Kept Swapped (some c) s s' →
      Edited Kept Swapped prev (c :: s) (c :: s')
  | swap {prev : Option Char} {m x s s' : List Char} :
    m ≠ [] → Swapped prev m x s → Edited Kept Swapped m.getLast? s s' →
      Edited Kept Swapped prev (m ++ s) (x ++ s')

section
variable {Kept : Option Char → List Char → Prop}
  {Swapped : Option Char → List Char → List Char → List Char → Prop}

/-- No character is new that what is put in does not have. -/
theorem Edited.notMem_of_notMem {d : Char} {prev : Option Char} {s s' : List Char}
    (h : Edited Kept Swapped prev s s')
    (hswap : ∀ prev m x s, Swapped prev m x s → d ∉ m → d ∉ x) (hd : d ∉ s) : d ∉ s' := by
  induction h with
  | nil => exact hd
  | keep _ _ ih =>
    rw [List.mem_cons, not_or] at hd ⊢
    exact ⟨hd.1, ih hd.2⟩
  | swap _ hsw _ ih =>
    rw [List.mem_append, not_or] at hd ⊢
    exact ⟨hswap _ _ _ _ hsw hd.1, ih hd.2⟩

/-- In a text without a match every place that is kept has none. -/
theorem Edited.of_free {isWord : Char → Bool} {r : Rule} {prev : Option Char} {s s' : List Char}
    (h : Edited Kept Swapped prev s s') (hfree : r.Free isWord prev s) :
    Edited (fun prev s => r.find isWord prev s = none) Swapped prev s s' := by
  induction h with
  | nil => exact .nil
  | keep _ _ ih => exact .keep hfree.1 (ih hfree.2)
  | swap hne hswap _ ih => exact .swap hne hswap (ih (Rule.Free.append hne hfree))

/-- `replace_all` keeps what it finds no match at, and puts the replacement for a match. -/
theorem edited_replaceFrom {isWord : Char → Bool} {r : Rule} {l : Language Char}
    (hl : Spells r.pattern l) (prev : Option Char) (s : List Char) :
    Edited (fun prev s => r.find isWord prev s = none)
      (fun prev m x s => r.find isWord prev (m ++ s) = some (m, s) ∧ x = r.replacement)
      prev s (r.replaceFrom isWord 0 prev s) := by
  induction hn : s.length using Nat.strong_induction_on generalizing prev s with
  | _ n ih =>
    cases s with
    | nil => exact .nil
    | cons c cs =>
      cases hfind : r.find isWord prev (c :: cs) with
      | none =>
        rw [Rule.replaceFrom, hfind]
        exact .keep hfind (ih cs.length (hn ▸ Nat.lt_succ_self _) _ _ rfl)
      | some found =>
        obtain ⟨m, u⟩ := found
        obtain ⟨hs, -, hne, -⟩ := Rule.find_eq_some hl hfind
        rw [Rule.replaceFrom_of_find hl hfind, hs]
        rw [hs] at hfind hn
        refine .swap hne ⟨hfind, rfl⟩ (ih u.length ?_ _ _ rfl)
        have := List.length_pos_iff.2 hne
        rw [List.length_append] at hn
        omega

end

/-! ## Rules that find nothing again -/

/-- No pair of `opens` starts in the text, whatever follows it. -/
def Shut (opens : Char → Char → Prop) : List Char → Prop
  | [] => True
  | [c] => ∀ d, ¬ opens c d
  | c :: d :: cs => ¬ opens c d ∧ Shut opens (d :: cs)

theorem Shut.tail {opens : Char → Char → Prop} {c : Char} {s : List Char}
    (h : Shut opens (c :: s)) : Shut opens s := by
  cases s with
  | nil => trivial
  | cons d s => exact h.2

theorem Shut.not_opens {opens : Char → Char → Prop} {c d : Char} {s t u : List Char}
    (h : Shut opens (c :: s)) (hs : s ++ t = d :: u) : ¬ opens c d := by
  cases s with
  | nil => exact h d
  | cons e s => exact (List.cons.inj hs).1 ▸ h.1

section
variable (isWord : Char → Bool) (r : Rule) (stop : Char) (opens : Char → Char → Prop)
  (edge : Char → Prop)

/-- How the matches of a rule look: none has `stop`, each starts with a pair of `opens`, and with
`\b` at its ends it has an `edge` there. -/
structure Looks (l : Language Char) : Prop where
  spells : Spells r.pattern l
  stop_notMem : ∀ t ∈ l, stop ∉ t
  opens : ∀ t ∈ l, ∃ c d u, t = c :: d :: u ∧ opens c d
  head_edge : r.bounded = true → ∀ t ∈ l, ∀ c ∈ t.head?, edge c
  last_edge : r.bounded = true → ∀ t ∈ l, ∀ c ∈ t.getLast?, edge c

/-- What is put in cannot be a part of a match: it has a `stop`, in front of which it is as the
stretch that it stands for, no match starts in it, and to `\b` its ends are those of the stretch
unless no match can end there. -/
structure Inert (prev : Option Char) (m x s : List Char) : Prop where
  shape : ∃ front back, x = front ++ stop :: back ∧ front <+: m
  shut : Shut opens x
  no_edge : ∀ c ∈ x, ¬ edge c
  before : r.bounded = true →
    (∀ c ∈ prev, ¬ edge c) ∨ x.head?.any isWord = m.head?.any isWord
  behind : r.bounded = true →
    (∀ c ∈ s.head?, ¬ edge c) ∨ x.getLast?.any isWord = m.getLast?.any isWord

variable {isWord r stop opens edge} {l : Language Char} {Kept : Option Char → List Char → Prop}
  {Swapped : Option Char → List Char → List Char → List Char → Prop}

/-- What stands in front of every `stop` was there before. -/
theorem Edited.front (hswap : ∀ prev m x s, Swapped prev m x s →
      Inert isWord r stop opens edge prev m x s)
    {prev : Option Char} {s s' : List Char} (h : Edited Kept Swapped prev s s') {p u' : List Char}
    (hs' : s' = p ++ u') (hstop : stop ∉ p) :
    ∃ u, s = p ++ u ∧ (r.bounded = true → (∀ c ∈ p.getLast?.or prev, ¬ edge c) ∨
      u'.head?.any isWord = u.head?.any isWord) := by
  induction h generalizing p with
  | nil =>
    obtain ⟨rfl, rfl⟩ := List.nil_eq_append_iff.1 hs'
    exact ⟨[], rfl, fun _ => .inr rfl⟩
  | @keep prev c s s' _ _ ih =>
    cases p with
    | nil =>
      obtain rfl : u' = c :: s' := hs'.symm
      exact ⟨c :: s, rfl, fun _ => .inr rfl⟩
    | cons d p =>
      obtain ⟨rfl, hrest⟩ := List.cons.inj hs'
      obtain ⟨u, rfl, hnext⟩ := ih hrest fun hmem => hstop (List.mem_cons_of_mem _ hmem)
      refine ⟨u, rfl, ?_⟩
      rw [List.getLast?_cons]
      cases hlast : p.getLast? <;> rw [hlast] at hnext <;> exact hnext
  | @swap prev m x s s' hne hsw _ _ =>
    have hin := hswap _ _ _ _ hsw
    obtain ⟨front, back, hx, rest, hm⟩ := hin.shape
    cases p with
    | nil =>
      obtain rfl : u' = x ++ s' := hs'.symm
      refine ⟨m ++ s, rfl, fun hb => (hin.before hb).imp id fun heq => ?_⟩
      have hxne : x ≠ [] := by simp [hx]
      rw [List.head?_append_of_ne_nil _ hxne, List.head?_append_of_ne_nil _ hne, heq]
    | cons d p =>
      have hfront : d :: p <+: front := by
        rw [hx, List.append_assoc, List.append_eq_append_iff] at hs'
        rcases hs' with ⟨a, hp, hrest⟩ | ⟨a, hp, -⟩
        · cases a with
          | nil => exact ⟨[], by rw [hp, List.append_nil, List.append_nil]⟩
          | cons e a =>
            rw [← (List.cons.inj hrest).1] at hp
            exact absurd (hp ▸ List.mem_append_right _ List.mem_cons_self) hstop
        · exact ⟨a, hp.symm⟩
      obtain ⟨k, hk⟩ := hfront
      refine ⟨k ++ rest ++ s, by rw [← hm, ← hk]; simp only [List.append_assoc], fun _ => .inl ?_⟩
      intro c hc
      rw [List.getLast?_cons, Option.some_or] at hc
      have hmem : c ∈ d :: p := List.mem_of_getLast? (by rw [List.getLast?_cons]; exact hc)
      exact hin.no_edge c (by rw [hx, ← hk]; simp only [List.mem_append, hmem, true_or])

/-- No match starts in a text that is shut. -/
theorem Looks.free_append (hl : Looks r stop opens edge l) {x s' : List Char} {prev : Option Char}
    (hshut : Shut opens x) (h : r.Free isWord (x.getLast?.or prev) s') :
    r.Free isWord prev (x ++ s') := by
  induction x generalizing prev with
  | nil => exact h
  | cons c x ih =>
    refine ⟨(Rule.find_eq_none hl.spells).2 fun t u hs ht _ => ?_, ih hshut.tail ?_⟩
    · obtain ⟨a, b, v, rfl, hopens⟩ := hl.opens t ht
      obtain ⟨rfl, hrest⟩ := List.cons.inj hs
      exact absurd hopens (hshut.not_opens hrest)
    · rw [List.getLast?_cons] at h
      cases hlast : x.getLast? <;> rw [hlast] at h <;> exact h

/-- Where no match starts at a place that is kept, none is left. -/
theorem Looks.free_of_edited (hl : Looks r stop opens edge l)
    (hswap : ∀ prev m x s, Swapped prev m x s → Inert isWord r stop opens edge prev m x s)
    {prev prev' : Option Char} {s s' : List Char}
    (h : Edited (fun prev s => r.find isWord prev s = none) Swapped prev s s')
    (hprev : r.bounded = true →
      (∀ c ∈ s.head?, ¬ edge c) ∨ prev'.any isWord = prev.any isWord) :
    r.Free isWord prev' s' := by
  induction h generalizing prev' with
  | nil => trivial
  | @keep prev c s s' hkept htail ih =>
    refine ⟨?_, ih fun _ => .inr rfl⟩
    cases hfind : r.find isWord prev' (c :: s') with
    | none => rfl
    | some found =>
      exfalso
      obtain ⟨t, u'⟩ := found
      obtain ⟨hs', ht, hne, hfits⟩ := Rule.find_eq_some hl.spells hfind
      obtain ⟨u, hs, hnext⟩ := Edited.front hswap (.keep hkept htail) hs' (hl.stop_notMem t ht)
      obtain ⟨hb, hnot⟩ := (Rule.find_eq_none hl.spells).1 hkept t u hs ht hne
      obtain ⟨e, hlast⟩ := Option.isSome_iff_exists.1 (List.getLast?_isSome.2 hne)
      have hhead : t.head? = some c := by
        obtain ⟨d, t, rfl⟩ := List.exists_cons_of_ne_nil hne
        rw [(List.cons.inj hs).1]
        rfl
      have hleft : prev'.any isWord = prev.any isWord :=
        (hprev hb).resolve_left fun hno => hno c rfl (hl.head_edge hb t ht c hhead)
      have hright : u'.head?.any isWord = u.head?.any isWord := by
        refine (hnext hb).resolve_left fun hno => ?_
        exact hno e (by rw [hlast]; rfl) (hl.last_edge hb t ht e hlast)
      obtain ⟨hfront, hback⟩ := hfits hb
      have hno := hnot (by simpa [boundary, hleft] using hfront)
      simp only [boundary, ← hright] at hno
      rw [boundary, hno] at hback
      cases hback
  | @swap prev m x s s' hne hsw _ ih =>
    have hin := hswap _ _ _ _ hsw
    have hxne : x ≠ [] := by
      obtain ⟨front, back, hx, -⟩ := hin.shape
      simp [hx]
    obtain ⟨e, hlast⟩ := Option.isSome_iff_exists.1 (List.getLast?_isSome.2 hxne)
    refine hl.free_append hin.shut ?_
    rw [hlast, Option.some_or, ← hlast]
    exact ih hin.behind

end

section
variable {isWord : Char → Bool} {r r₀ : Rule} {stop : Char} {opens : Char → Char → Prop}
  {edge : Char → Prop} {l l₀ : Language Char}

/-- The replacement has a `stop`, in front of which it is as every match, and no match starts in
it. -/
structure Stamp (r : Rule) (stop : Char) (opens : Char → Char → Prop) (edge : Char → Prop)
    (l : Language Char) : Prop where
  spells : Spells r.pattern l
  shape : ∃ front back, r.replacement = front ++ stop :: back ∧ ∀ t ∈ l, front <+: t
  shut : Shut opens r.replacement
  no_edge : ∀ c ∈ r.replacement, ¬ edge c

/-- The replacement has the ends of every match. -/
def KeepsEnds (r : Rule) (l : Language Char) : Prop :=
  ∀ t ∈ l, r.replacement.head? = t.head? ∧ r.replacement.getLast? = t.getLast?

theorem keepsEnds_of {a b : Char} (ha : r.replacement.head? = some a)
    (hb : r.replacement.getLast? = some b) (hhead : Heads (· = a) l) (hlast : Lasts (· = b) l) :
    KeepsEnds r l := by
  intro t ht
  refine ⟨?_, ?_⟩
  · obtain ⟨c, v, rfl, rfl⟩ := hhead t ht
    exact ha
  · obtain ⟨v, c, rfl, rfl⟩ := hlast t ht
    rw [hb, List.getLast?_concat]

theorem Stamp.inert (hs : Stamp r₀ stop opens edge l₀)
    {prev : Option Char} {m s : List Char} (h : r₀.find isWord prev (m ++ s) = some (m, s))
    (hends : r.bounded = true →
      ((∀ c ∈ prev, ¬ edge c) ∨ r₀.replacement.head?.any isWord = m.head?.any isWord) ∧
      ((∀ c ∈ s.head?, ¬ edge c) ∨ r₀.replacement.getLast?.any isWord = m.getLast?.any isWord)) :
    Inert isWord r stop opens edge prev m r₀.replacement s := by
  obtain ⟨front, back, hx, hfront⟩ := hs.shape
  obtain ⟨-, hm, -⟩ := Rule.find_eq_some hs.spells h
  exact ⟨⟨front, back, hx, hfront m hm⟩, hs.shut, hs.no_edge, fun hb => (hends hb).1,
    fun hb => (hends hb).2⟩

/-- A rule finds nothing in what it has replaced. -/
theorem Looks.free_replaceAll_self (hl : Looks r stop opens edge l) (hs : Stamp r stop opens edge l)
    (hword : ∀ c, edge c → isWord c = true) (s : List Char) :
    r.Free isWord none (r.replaceAll isWord s) := by
  refine hl.free_of_edited ?_ (edited_replaceFrom hl.spells none s) fun _ => .inr rfl
  rintro prev m x u ⟨hfind, rfl⟩
  refine hs.inert hfind fun hb => ?_
  obtain ⟨-, hm, hne, hbound⟩ := Rule.find_eq_some hl.spells hfind
  obtain ⟨hbefore, hbehind⟩ := hbound hb
  obtain ⟨c, hhead⟩ : ∃ c, m.head? = some c := ⟨_, List.head?_eq_some_head hne⟩
  obtain ⟨e, hlast⟩ := Option.isSome_iff_exists.1 (List.getLast?_isSome.2 hne)
  have hc := hword c (hl.head_edge hb m hm c hhead)
  have he := hword e (hl.last_edge hb m hm e hlast)
  have hno {o : Option Char} (ho : o.any isWord = false) : ∀ d ∈ o, ¬ edge d := by
    rintro d rfl hd
    simp [hword d hd] at ho
  refine ⟨.inl (hno ?_), .inl (hno ?_)⟩
  · simpa [boundary, List.head?_append, hhead, hc] using hbefore
  · simpa [boundary, hlast, he] using hbehind

/-- A rule finds nothing in what another has replaced, where it found nothing before. -/
theorem Looks.free_replaceAll (hl : Looks r stop opens edge l) (hs : Stamp r₀ stop opens edge l₀)
    (hends : r.bounded = false ∨ KeepsEnds r₀ l₀) {s : List Char} (h : r.Free isWord none s) :
    r.Free isWord none (r₀.replaceAll isWord s) := by
  refine hl.free_of_edited ?_ ((edited_replaceFrom hs.spells none s).of_free h) fun _ => .inr rfl
  rintro prev m x u ⟨hfind, rfl⟩
  refine hs.inert hfind fun hb => ?_
  rcases hends with hno | hends
  · rw [hb] at hno
    cases hno
  · obtain ⟨-, hm, -⟩ := Rule.find_eq_some hs.spells hfind
    rw [(hends m hm).1, (hends m hm).2]
    exact ⟨.inr rfl, .inr rfl⟩

end

/-! ## Texts in quotes -/

/-- `q[^q]+q`, and `inner` in quotes for it. -/
def quoteRule (q : Char) (inner : List Char) : Rule where
  pattern := .seq (.one (· == q)) (.seq (.plus (.one (· != q))) (.one (· == q)))
  bounded := false
  replacement := q :: inner ++ [q]

/-- The texts in quotes. -/
def quoteLanguage (q : Char) : Language Char :=
  letter (· == q) * (letter (· != q) * (letter (· != q))∗ * letter (· == q))

/-- The quotes of the text are used up: one has another directly behind it or is the last, or two
stand around `inner`. -/
inductive Paired (q : Char) (inner : List Char) : List Char → Prop
  | none {s : List Char} : q ∉ s → Paired q inner s
  | last {s : List Char} : q ∉ s → Paired q inner (q :: s)
  | other {c : Char} {s : List Char} : c ≠ q → Paired q inner s → Paired q inner (c :: s)
  | again {s : List Char} : Paired q inner (q :: s) → Paired q inner (q :: q :: s)
  | pair {s : List Char} : Paired q inner s → Paired q inner (q :: inner ++ q :: s)

/-- The characters are next to each other in `q :: inner ++ [q]`, or both are the quote. -/
def Adjacent (q : Char) (inner : List Char) (c d : Char) : Prop :=
  [c, d] <:+: q :: inner ++ [q] ∨ c = q ∧ d = q

section
variable {isWord : Char → Bool} {q : Char} {inner : List Char}

theorem mem_quoteLanguage {t : List Char} :
    t ∈ quoteLanguage q ↔ ∃ body, body ≠ [] ∧ q ∉ body ∧ t = q :: body ++ [q] := by
  have hbody {body : List Char} : body ∈ letter (· != q) * (letter (· != q))∗ ↔
      body ≠ [] ∧ q ∉ body := by
    simp only [Language.mem_mul, mem_letter, Language.mem_kstar, bne_iff_ne, ne_eq]
    constructor
    · rintro ⟨_, ⟨c, hc, rfl⟩, _, ⟨ws, rfl, hall⟩, rfl⟩
      refine ⟨List.cons_ne_nil _ _, fun hmem => ?_⟩
      rcases List.mem_cons.1 hmem with heq | hmem
      · exact hc heq.symm
      · obtain ⟨w, hw, hq⟩ := List.mem_flatten.1 hmem
        obtain ⟨d, hd, rfl⟩ := hall w hw
        exact hd (List.mem_singleton.1 hq).symm
    · rintro ⟨hne, hq⟩
      obtain ⟨c, body, rfl⟩ := List.exists_cons_of_ne_nil hne
      rw [List.mem_cons, not_or] at hq
      refine ⟨[c], ⟨c, Ne.symm hq.1, rfl⟩, body, ⟨body.map fun d => [d], ?_, ?_⟩, rfl⟩
      · exact (List.flatMap_singleton' body).symm.trans List.flatMap_def
      · intro w hw
        obtain ⟨d, hd, rfl⟩ := List.mem_map.1 hw
        exact ⟨d, fun heq => hq.2 (heq ▸ hd), rfl⟩
  rw [quoteLanguage, Language.mem_mul]
  constructor
  · rintro ⟨_, ⟨c, hc, rfl⟩, _, ⟨body, hmem, _, ⟨d, hd, rfl⟩, rfl⟩, rfl⟩
    obtain rfl := eq_of_beq hc
    obtain rfl := eq_of_beq hd
    exact ⟨body, (hbody.1 hmem).1, (hbody.1 hmem).2, rfl⟩
  · rintro ⟨body, hne, hq, rfl⟩
    exact ⟨[q], ⟨q, beq_self_eq_true q, rfl⟩, _,
      Language.mem_mul.2 ⟨body, hbody.2 ⟨hne, hq⟩, [q], ⟨q, beq_self_eq_true q, rfl⟩, rfl⟩, rfl⟩

theorem spells_quote : Spells (quoteRule q inner).pattern (quoteLanguage q) :=
  (spells_one _).seq (((spells_one _).plus (by rintro _ ⟨c, -, rfl⟩; simp)).seq (spells_one _))

theorem heads_quote : Heads (· = q) (quoteLanguage q) :=
  (heads_letter fun _ h => eq_of_beq h).mul

theorem lasts_quote : Lasts (· = q) (quoteLanguage q) :=
  .mul (.mul (lasts_letter fun _ h => eq_of_beq h))

theorem find_quote_eq_some {prev : Option Char} {s t u : List Char}
    (h : (quoteRule q inner).find isWord prev s = some (t, u)) :
    s = t ++ u ∧ ∃ body, body ≠ [] ∧ q ∉ body ∧ t = q :: body ++ [q] := by
  obtain ⟨hs, ht, -⟩ := Rule.find_eq_some spells_quote h
  exact ⟨hs, mem_quoteLanguage.1 ht⟩

/-- A quote is found unless another is directly behind it or it is the last. -/
theorem find_quote_eq_none {prev : Option Char} {c : Char} {s : List Char} :
    (quoteRule q inner).find isWord prev (c :: s) = none ↔ c ≠ q ∨ s.head? = some q ∨ q ∉ s := by
  rw [Rule.find_eq_none spells_quote]
  constructor
  · intro h
    by_contra hcon
    rw [not_or, not_or, not_not, not_not] at hcon
    obtain ⟨rfl, hhead, hmem⟩ := hcon
    obtain ⟨body, u, rfl, hbody⟩ := List.eq_append_cons_of_mem hmem
    have hne : body ≠ [] := by
      rintro rfl
      exact hhead rfl
    have := h (c :: body ++ [c]) u (by simp) (mem_quoteLanguage.2 ⟨body, hne, hbody, rfl⟩) (by simp)
    cases this.1
  · rintro h t u hs ht -
    obtain ⟨body, hne, hbody, rfl⟩ := mem_quoteLanguage.1 ht
    obtain ⟨rfl, rfl⟩ := List.cons.inj hs
    exfalso
    rcases h with h | h | h
    · exact h rfl
    · obtain ⟨d, body, rfl⟩ := List.exists_cons_of_ne_nil hne
      obtain rfl := Option.some.inj h
      exact hbody List.mem_cons_self
    · exact h (by simp)

theorem find_quote {prev : Option Char} {body u : List Char} (hne : body ≠ []) (hbody : q ∉ body) :
    (quoteRule q inner).find isWord prev (q :: body ++ q :: u) = some (q :: body ++ [q], u) := by
  cases hfind : (quoteRule q inner).find isWord prev (q :: body ++ q :: u) with
  | none =>
    exfalso
    rcases find_quote_eq_none.1 hfind with h | h | h
    · exact h rfl
    · obtain ⟨d, body, rfl⟩ := List.exists_cons_of_ne_nil hne
      obtain rfl := Option.some.inj h
      exact hbody List.mem_cons_self
    · exact h (by simp)
  | some found =>
    obtain ⟨t, u'⟩ := found
    obtain ⟨hs, body', -, hbody', rfl⟩ := find_quote_eq_some hfind
    have htail : body ++ q :: u = body' ++ q :: u' := by simpa using (List.cons.inj hs).2
    obtain ⟨rfl, rfl⟩ := Text.split_unique hbody hbody' htail
    rfl

/-! ### Pairs -/

theorem isChain_adjacent : List.IsChain (Adjacent q inner) (q :: (inner ++ [q])) := by
  have hall : ∀ a w, q :: inner ++ [q] = a ++ w → List.IsChain (Adjacent q inner) w := by
    intro a w
    induction w generalizing a with
    | nil => exact fun _ => .nil
    | cons c w ih =>
      intro h
      cases w with
      | nil => exact .singleton c
      | cons d w =>
        refine .cons_cons (.inl ⟨a, w, ?_⟩) (ih (a ++ [c]) (by simp [h]))
        simp [h]
  exact hall [] _ rfl

theorem Paired.tail {c : Char} {s : List Char} (hc : c ≠ q) (h : Paired q inner (c :: s)) :
    Paired q inner s := by
  cases h with
  | none hq => exact .none fun hmem => hq (List.mem_cons_of_mem _ hmem)
  | last => exact absurd rfl hc
  | other _ h => exact h
  | again => exact absurd rfl hc
  | pair => exact absurd rfl hc

theorem Paired.append {x s : List Char} (hx : q ∉ x) (h : Paired q inner s) :
    Paired q inner (x ++ s) := by
  induction x with
  | nil => exact h
  | cons c x ih =>
    rw [List.mem_cons, not_or] at hx
    exact .other (Ne.symm hx.1) (ih hx.2)

/-- Every stretch in quotes is replaced by itself. -/
theorem Paired.replaceFrom (hinner : inner ≠ [] ∧ q ∉ inner) {prev : Option Char} {s : List Char}
    (h : Paired q inner s) : (quoteRule q inner).replaceFrom isWord 0 prev s = s := by
  have hfree {prev : Option Char} {s : List Char} (hq : q ∉ s) :
      (quoteRule q inner).replaceFrom isWord 0 prev s = s := by
    refine Rule.replaceFrom_of_free ?_
    induction s generalizing prev with
    | nil => trivial
    | cons c s ih =>
      rw [List.mem_cons, not_or] at hq
      exact ⟨find_quote_eq_none.2 (.inl (Ne.symm hq.1)), ih hq.2⟩
  induction h generalizing prev with
  | none hq => exact hfree hq
  | @last s hq => rw [Rule.replaceFrom, find_quote_eq_none.2 (.inr (.inr hq)), hfree hq]
  | @other c s hc _ ih => rw [Rule.replaceFrom, find_quote_eq_none.2 (.inl hc), ih]
  | @again s _ ih => rw [Rule.replaceFrom, find_quote_eq_none.2 (.inr (.inl rfl)), ih]
  | @pair s _ ih =>
    rw [Rule.replaceFrom_of_find spells_quote (find_quote hinner.1 hinner.2), ih]
    simp [quoteRule]

/-- What is outside the quotes that were replaced stays unpaired. -/
theorem paired_replaceFrom (prev : Option Char) (s : List Char) :
    Paired q inner ((quoteRule q inner).replaceFrom isWord 0 prev s) := by
  have hswap {m u : List Char} {prev : Option Char}
      (h : (quoteRule q inner).find isWord prev (m ++ u) = some (m, u)) : q ∈ m := by
    obtain ⟨-, body, -, -, rfl⟩ := find_quote_eq_some h
    exact List.mem_cons_self
  have hedit := @edited_replaceFrom isWord _ _ (@spells_quote q inner) prev s
  generalize (quoteRule q inner).replaceFrom isWord 0 prev s = s' at hedit
  induction hedit with
  | nil => exact .none List.not_mem_nil
  | @keep prev c s s' hkept htail ih =>
    by_cases hc : c = q
    · subst hc
      rcases find_quote_eq_none.1 hkept with h | h | h
      · exact absurd rfl h
      · cases htail with
        | nil => cases h
        | keep =>
          obtain rfl := Option.some.inj h
          exact .again ih
        | swap _ hsw =>
          rw [hsw.2] at ih ⊢
          exact .again ih
      · exact .last (htail.notMem_of_notMem (fun _ _ _ _ hsw hq => absurd (hswap hsw.1) hq) h)
    · exact .other hc ih
  | @swap prev m x s s' _ hsw _ ih =>
    rw [hsw.2]
    have heq : (quoteRule q inner).replacement ++ s' = q :: inner ++ q :: s' := by simp [quoteRule]
    exact heq ▸ .pair ih

/-- A text of characters that are next to each other in quotes is kept. -/
theorem Edited.keep_adjacent {Kept : Option Char → List Char → Prop}
    {Swapped : Option Char → List Char → List Char → List Char → Prop}
    (hswap : ∀ prev m x s, Swapped prev m x s → ∀ p ∈ prev, ∀ c ∈ m.head?, ¬ Adjacent q inner p c)
    {p : Char} {w t s' : List Char} (hw : List.IsChain (Adjacent q inner) (p :: w))
    (h : Edited Kept Swapped (some p) (w ++ t) s') :
    ∃ t' p', s' = w ++ t' ∧ Edited Kept Swapped (some p') t t' := by
  induction w generalizing p s' with
  | nil => exact ⟨s', p, rfl, h⟩
  | cons c w ih =>
    rw [List.isChain_cons_cons] at hw
    generalize hs : c :: w ++ t = s at h
    cases h with
    | nil => cases hs
    | keep _ htail =>
      obtain ⟨rfl, rfl⟩ := List.cons.inj hs
      obtain ⟨t', p', rfl, hrest⟩ := ih hw.2 htail
      exact ⟨t', p', rfl, hrest⟩
    | swap hne hsw _ =>
      obtain ⟨d, m, rfl⟩ := List.exists_cons_of_ne_nil hne
      obtain ⟨rfl, -⟩ := List.cons.inj hs
      exact absurd hw.1 (hswap _ _ _ _ hsw p rfl c rfl)

/-- What is put in has no quote, no stretch starts within a pair, and a text is still paired behind
a stretch. -/
structure Spares (q : Char) (inner : List Char) (prev : Option Char) (m x s : List Char) :
    Prop where
  notMem : q ∉ x
  head : ∀ p ∈ prev, ∀ c ∈ m.head?, ¬ Adjacent q inner p c
  behind : Paired q inner (m ++ s) → Paired q inner s

theorem Paired.edited {Kept : Option Char → List Char → Prop}
    {Swapped : Option Char → List Char → List Char → List Char → Prop}
    (hswap : ∀ prev m x s, Swapped prev m x s → Spares q inner prev m x s)
    {prev : Option Char} {s s' : List Char} (hs : Paired q inner s)
    (h : Edited Kept Swapped prev s s') : Paired q inner s' := by
  induction hn : s.length using Nat.strong_induction_on generalizing prev s s' with
  | _ n ih =>
    have hhead := fun prev m x s hsw => (hswap prev m x s hsw).head
    have hno := fun prev m x s hsw (_ : q ∉ m) => (hswap prev m x s hsw).notMem
    cases h with
    | nil => exact .none List.not_mem_nil
    | @keep _ c s s' _ htail =>
      have hlt : s.length < n := hn ▸ Nat.lt_succ_self _
      by_cases hc : c = q
      · subst hc
        generalize heq : c :: s = u at hs
        cases hs with
        | none hq => exact absurd (heq ▸ List.mem_cons_self) hq
        | last hq =>
          obtain ⟨-, rfl⟩ := List.cons.inj heq
          exact .last (htail.notMem_of_notMem hno hq)
        | other hne => exact absurd (List.cons.inj heq).1.symm hne
        | @again u hs =>
          obtain ⟨-, rfl⟩ := List.cons.inj heq
          obtain ⟨t', p', rfl, -⟩ := htail.keep_adjacent (w := [c]) (t := u) hhead
            (by simp [Adjacent])
          exact .again (ih _ hlt hs htail rfl)
        | @pair u hs =>
          obtain ⟨-, rfl⟩ := List.cons.inj heq
          have hsplit : inner.append (c :: u) = (inner ++ [c]) ++ u := by simp
          rw [hsplit] at htail hlt
          obtain ⟨t', p', rfl, hrest⟩ := htail.keep_adjacent hhead isChain_adjacent
          have hshort : u.length < n := by
            rw [List.length_append] at hlt
            omega
          have hpaired := ih _ hshort hs hrest rfl
          simpa using hpaired.pair
      · exact .other hc (ih _ hlt (hs.tail hc) htail rfl)
    | @swap _ m x s s' hne hsw htail =>
      have hsp := hswap _ _ _ _ hsw
      have hlt : s.length < n := by
        have := List.length_pos_iff.2 hne
        rw [List.length_append] at hn
        omega
      exact (ih _ hlt (hsp.behind hs) htail rfl).append hsp.notMem

/-- A stretch that ends with a character that no pair has. -/
theorem Paired.behind_last {e : Char} (hq : e ≠ q) (hinner : e ∉ inner) {a s : List Char}
    (h : Paired q inner (a ++ e :: s)) : Paired q inner s := by
  induction hn : a.length using Nat.strong_induction_on generalizing a with
  | _ n ih =>
    cases a with
    | nil => exact h.tail hq
    | cons c a =>
      have hlt : a.length < n := hn ▸ Nat.lt_succ_self _
      have hrest {w : List Char} (hw : q ∉ w) (heq : c :: a ++ e :: s = w ∨ a ++ e :: s = w) :
          Paired q inner s := by
        refine .none fun hmem => hw ?_
        rcases heq with rfl | rfl <;> simp [hmem]
      generalize heq : c :: a ++ e :: s = w at h
      cases h with
      | none hw => exact hrest hw (.inl heq)
      | last hw => exact hrest hw (.inr (List.cons.inj heq).2)
      | other _ h =>
        obtain rfl := (List.cons.inj heq).2
        exact ih _ hlt h rfl
      | again h =>
        rw [← (List.cons.inj heq).2] at h
        exact ih _ hlt h rfl
      | @pair w h =>
        have htail : a ++ e :: s = (inner ++ [q]) ++ w := by
          simpa using (List.cons.inj heq).2
        rcases List.append_eq_append_iff.1 htail with ⟨b, hb, hw⟩ | ⟨b, hb, hw⟩
        · cases b with
          | nil =>
            obtain rfl : e :: s = w := hw
            exact h.tail hq
          | cons d b =>
            have hmem : e ∈ inner ++ [q] := by
              rw [hb, (List.cons.inj hw).1]
              simp
            rcases List.mem_append.1 hmem with hmem | hmem
            · exact absurd hmem hinner
            · exact absurd (List.mem_singleton.1 hmem) hq
        · rw [hw] at h
          refine ih b.length ?_ h rfl
          rw [hb, List.length_append] at hlt
          omega

/-- A stretch without the first character of `inner`, whose quotes have no quote behind it. -/
theorem Paired.behind_plain {i : Char} {rest : List Char} (hinner : inner = i :: rest)
    {m s : List Char} (hi : i ∉ m) (hlast : m.getLast? = some q → ∀ c ∈ s.head?, c ≠ q ∧ c ≠ i)
    (h : Paired q inner (m ++ s)) : Paired q inner s := by
  induction m with
  | nil => exact h
  | cons c m ih =>
    rw [List.mem_cons, not_or] at hi
    rw [List.getLast?_cons] at hlast
    have hstep (h : Paired q inner (m ++ s)) : Paired q inner s := by
      cases hm : m.getLast? with
      | none =>
        rw [List.getLast?_eq_none_iff.1 hm] at h
        exact h
      | some d => exact ih hi.2 (by rw [hm] at hlast; exact hm ▸ hlast) h
    generalize heq : c :: m ++ s = w at h
    cases h with
    | none hw =>
      exact .none fun hmem => hw (heq ▸ by simp [hmem])
    | last hw =>
      rw [← (List.cons.inj heq).2] at hw
      exact .none fun hmem => hw (List.mem_append_right _ hmem)
    | other _ h =>
      rw [← (List.cons.inj heq).2] at h
      exact hstep h
    | again h =>
      rw [← (List.cons.inj heq).2] at h
      exact hstep h
    | @pair w h =>
      -- A pair that starts in the stretch goes on with `i` there or directly behind it.
      subst hinner
      obtain ⟨rfl, htail⟩ := List.cons.inj heq
      cases m with
      | nil =>
        obtain rfl : s = i :: rest ++ c :: w := htail
        exact absurd rfl (hlast rfl i rfl).2
      | cons e m => exact absurd (List.cons.inj htail).1 fun he => hi.2 (he ▸ List.mem_cons_self)

theorem Adjacent.snd {c d : Char} (h : Adjacent q inner c d) : d = q ∨ d ∈ inner := by
  rcases h with h | h
  · have hmem := h.subset (List.mem_cons_of_mem _ (List.mem_singleton_self d))
    simp only [List.cons_append, List.mem_cons, List.mem_append, List.not_mem_nil, or_false]
      at hmem
    tauto
  · exact .inl h.2

/-- A stretch whose ends no pair has. -/
theorem Spares.of_ends {prev : Option Char} {m x s : List Char} (hx : q ∉ x)
    (hhead : ∀ c ∈ m.head?, c ≠ q ∧ c ∉ inner)
    (hlast : ∃ a e, m = a ++ [e] ∧ e ≠ q ∧ e ∉ inner) : Spares q inner prev m x s := by
  obtain ⟨a, e, rfl, hq, hinner⟩ := hlast
  refine ⟨hx, fun p _ c hc hadj => ?_, fun h => Paired.behind_last hq hinner (by simpa using h)⟩
  exact hadj.snd.elim (hhead c hc).1 (hhead c hc).2

/-- A rule that leaves quotes alone. -/
theorem Paired.replaceAll {r : Rule} {l : Language Char} (hl : Spells r.pattern l)
    (hx : q ∉ r.replacement) (hhead : Heads (fun c => c ≠ q ∧ c ∉ inner) l)
    (hlast : Lasts (fun c => c ≠ q ∧ c ∉ inner) l) {s : List Char} (h : Paired q inner s) :
    Paired q inner (r.replaceAll isWord s) := by
  refine h.edited ?_ (edited_replaceFrom hl Option.none s)
  rintro prev m x u ⟨hfind, rfl⟩
  obtain ⟨-, hm, -⟩ := Rule.find_eq_some hl hfind
  refine .of_ends hx ?_ (hlast m hm)
  obtain ⟨c, v, rfl, hc⟩ := hhead m hm
  exact fun d hd => Option.some.inj hd ▸ hc

end

end Replace
