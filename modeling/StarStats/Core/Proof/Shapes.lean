import StarStats.Core.Shapes

/-!
# A shape is its own shape

* `Settled`: no rule has anything left to replace in the text, and its quotes are used up.
* `settled_shapeText`, `Settled.coarse`: what `shape_of` makes of a line is settled, and what
  `coarse_shape_of` makes of that is settled again.
* `coarseToken_cases`: a token is split between two characters.
-/

namespace StarStats

open Replace

namespace UnicodeClasses

variable (u : UnicodeClasses)

/-! ## What the rules match -/

section

open Computability

/-- The first two characters of a match. -/
def Opens (c d : Char) : Prop :=
  c = '[' ∧ (u.digit d = true ∨ isNameChar d = true) ∨
    (u.digit c = true ∨ isAsciiHexDigit c = true) ∧
      (u.digit d = true ∨ isAsciiHexDigit d = true ∨ d = '.')

/-- The character at an end of a match of `IPPORT_RE`. -/
def Edge (c : Char) : Prop := u.digit c = true

/-- No two ASCII characters of the text, and not its last one, can open a match. -/
def shutAscii : List Char → Bool
  | [] => true
  | [c] => c.toNat < 128 && c != '[' && !c.isDigit && !isAsciiHexDigit c
  | c :: d :: cs =>
    c.toNat < 128 && d.toNat < 128 && !(c == '[' && (d.isDigit || isNameChar d)) &&
      !((c.isDigit || isAsciiHexDigit c) && (d.isDigit || isAsciiHexDigit d || d == '.')) &&
      shutAscii (d :: cs)

theorem shut_of_ascii {x : List Char} (h : shutAscii x = true) : Shut u.Opens x := by
  fun_induction shutAscii x with
  | case1 => trivial
  | case2 c =>
    simp only [Bool.and_eq_true, decide_eq_true_eq, bne_iff_ne, Bool.not_eq_true'] at h
    rintro d (⟨rfl, -⟩ | ⟨hc | hc, -⟩)
    · exact h.1.1.2 rfl
    · rw [u.digit_ascii c h.1.1.1, h.1.2] at hc
      cases hc
    · rw [h.2] at hc
      cases hc
  | case3 c d cs ih =>
    simp only [Bool.and_eq_true, decide_eq_true_eq] at h
    refine ⟨?_, ih h.2⟩
    rw [Opens, u.digit_ascii c h.1.1.1.1, u.digit_ascii d h.1.1.1.2]
    have hname := h.1.1.2
    have hhex := h.1.2
    simp only [Bool.not_eq_true', Bool.and_eq_false_iff, Bool.or_eq_false_iff, beq_eq_false_iff_ne]
      at hname hhex
    grind

theorem not_edge_of_ascii {c : Char} (h : c.toNat < 128 ∧ c.isDigit = false) : ¬ u.Edge c := by
  rw [Edge, u.digit_ascii c h.1, h.2]
  exact Bool.false_ne_true

theorem digit_ne {c d : Char} (h : u.digit c = true) (hd : d.toNat < 128 ∧ d.isDigit = false) :
    c ≠ d := by
  rintro rfl
  exact u.not_edge_of_ascii hd h

theorem hexDigit_ne {c : Char} (h : isAsciiHexDigit c = true) : c ≠ '<' := by
  rintro rfl
  cases h

theorem nameChar_ne {c : Char} (h : isNameChar c = true) : c ≠ '<' := by
  rintro rfl
  cases h

theorem beq_ne {c d e : Char} (h : (c == d) = true) (hd : d ≠ e) : c ≠ e := eq_of_beq h ▸ hd

abbrev digitLetter : Language Char := letter u.digit

/-- `\d{1,n}` -/
abbrev octet (n : Nat) : Language Char := u.digitLetter * atMost u.digitLetter (n - 1)

def tsLanguage : Language Char :=
  [u.digitLetter ^ 4, letter (· == '-'), u.digitLetter ^ 2, letter (· == '-'), u.digitLetter ^ 2,
    letter (· == 'T'), u.digitLetter ^ 2, letter (· == ':'), u.digitLetter ^ 2,
    letter (· == ':'), u.digitLetter ^ 2,
    letter (· == '.') * (u.digitLetter * u.digitLetter∗) + 1, letter (· == 'Z') + 1].prod

def uuidLanguage : Language Char :=
  [letter isAsciiHexDigit ^ 8, letter (· == '-'), letter isAsciiHexDigit ^ 4, letter (· == '-'),
    letter isAsciiHexDigit ^ 4, letter (· == '-'), letter isAsciiHexDigit ^ 4, letter (· == '-'),
    letter isAsciiHexDigit ^ 12].prod

def geidLanguage : Language Char :=
  [letter (· == '['), u.digitLetter ^ 5, u.digitLetter∗, letter (· == ']')].prod

def ipPortLanguage : Language Char :=
  [u.octet 3, letter (· == '.'), u.octet 3, letter (· == '.'), u.octet 3, letter (· == '.'),
    u.octet 3, letter (· == ':') * u.octet 5 + 1].prod

def bracketCompoundLanguage : Language Char :=
  [letter (· == '['), (letter isNameChar)∗, u.digitLetter, (letter isNameChar)∗,
    letter (· == ':') * (letter isNameChar * (letter isNameChar)∗) *
      (letter (· == ':') * (letter isNameChar * (letter isNameChar)∗))∗, letter (· == ']')].prod

def bracketIntLanguage : Language Char :=
  [letter (· == '['), u.digitLetter * u.digitLetter∗, letter (· == ']')].prod

theorem ne_nil_of_letter {accepts : Char → Bool} : ∀ t ∈ letter accepts, t ≠ [] := by
  rintro _ ⟨c, -, rfl⟩
  exact List.cons_ne_nil _ _

theorem spells_digits (n : Nat) : Spells (u.digits n) (u.digitLetter ^ n) := (spells_one _).times n

theorem spells_digitsUpTo (n : Nat) : Spells (u.digitsUpTo n) (u.octet n) :=
  (spells_one _).seq ((spells_one _).upTo _)

theorem spells_digitRun : Spells (.plus (.one u.digit)) (u.digitLetter * u.digitLetter∗) :=
  (spells_one _).plus ne_nil_of_letter

theorem spells_ts : Spells u.tsRule.pattern u.tsLanguage :=
  spells_inOrder <| .cons (u.spells_digits 4) <| .cons (spells_char _) <|
    .cons (u.spells_digits 2) <| .cons (spells_char _) <| .cons (u.spells_digits 2) <|
    .cons (spells_char _) <| .cons (u.spells_digits 2) <| .cons (spells_char _) <|
    .cons (u.spells_digits 2) <| .cons (spells_char _) <| .cons (u.spells_digits 2) <|
    .cons ((spells_char _).seq u.spells_digitRun).opt <| .cons (spells_char _).opt .nil

theorem spells_uuid : Spells uuidRule.pattern uuidLanguage :=
  spells_inOrder <| .cons ((spells_one _).times 8) <| .cons (spells_char _) <|
    .cons ((spells_one _).times 4) <| .cons (spells_char _) <| .cons ((spells_one _).times 4) <|
    .cons (spells_char _) <| .cons ((spells_one _).times 4) <| .cons (spells_char _) <|
    .cons ((spells_one _).times 12) .nil

theorem spells_geid : Spells u.geidRule.pattern u.geidLanguage :=
  spells_inOrder <| .cons (spells_char _) <| .cons (u.spells_digits 5) <|
    .cons ((spells_one _).star ne_nil_of_letter) <| .cons (spells_char _) .nil

theorem spells_ipPort : Spells u.ipPortRule.pattern u.ipPortLanguage :=
  spells_inOrder <| .cons (u.spells_digitsUpTo 3) <| .cons (spells_char _) <|
    .cons (u.spells_digitsUpTo 3) <| .cons (spells_char _) <| .cons (u.spells_digitsUpTo 3) <|
    .cons (spells_char _) <| .cons (u.spells_digitsUpTo 3) <|
    .cons ((spells_char _).seq (u.spells_digitsUpTo 5)).opt .nil

theorem spells_bracketInt : Spells u.bracketIntRule.pattern u.bracketIntLanguage :=
  spells_inOrder <| .cons (spells_char _) <| .cons u.spells_digitRun <| .cons (spells_char _) .nil

theorem spells_bracketCompound :
    Spells u.bracketCompoundRule.pattern u.bracketCompoundLanguage := by
  have hstar := (spells_one isNameChar).star ne_nil_of_letter
  have hpart := (spells_char ':').seq ((spells_one isNameChar).plus ne_nil_of_letter)
  refine spells_inOrder <| .cons (spells_char _) <| .cons hstar <| .cons (spells_one _) <|
    .cons hstar <| .cons (hpart.plus ?_) <| .cons (spells_char _) .nil
  rintro _ ⟨_, ⟨c, -, rfl⟩, _, -, rfl⟩
  exact List.cons_ne_nil _ _

/-! ### No match has a placeholder's delimiter -/

theorem over_digit : Over (· ≠ '<') u.digitLetter :=
  over_letter fun _ h => u.digit_ne h (by decide)

theorem over_hexDigit : Over (· ≠ '<') (letter isAsciiHexDigit) :=
  over_letter fun _ h => hexDigit_ne h

theorem over_nameChar : Over (· ≠ '<') (letter isNameChar) := over_letter fun _ h => nameChar_ne h

theorem over_char {c : Char} (h : c ≠ '<') : Over (· ≠ '<') (letter (· == c)) :=
  over_letter fun _ hc => beq_ne hc h

theorem over_octet (n : Nat) : Over (· ≠ '<') (u.octet n) :=
  u.over_digit.mul (u.over_digit.atMost _)

theorem over_ts : Over (· ≠ '<') u.tsLanguage := by
  refine over_prod ?_
  have hdigit := u.over_digit
  simp only [List.forall_mem_cons, hdigit.pow, over_char (by decide : '-' ≠ '<'),
    over_char (by decide : 'T' ≠ '<'), over_char (by decide : ':' ≠ '<'), true_and]
  refine ⟨(((over_char (by decide)).mul (hdigit.mul hdigit.kstar)).add over_one),
    (over_char (by decide)).add over_one, List.forall_mem_nil _⟩

theorem over_uuid : Over (· ≠ '<') uuidLanguage := by
  refine over_prod ?_
  simp only [List.forall_mem_cons, over_hexDigit.pow, over_char (by decide : '-' ≠ '<'), true_and]
  exact List.forall_mem_nil _

theorem over_geid : Over (· ≠ '<') u.geidLanguage := by
  refine over_prod ?_
  simp only [List.forall_mem_cons]
  exact ⟨over_char (by decide), u.over_digit.pow 5, u.over_digit.kstar, over_char (by decide),
    List.forall_mem_nil _⟩

theorem over_ipPort : Over (· ≠ '<') u.ipPortLanguage := by
  refine over_prod ?_
  simp only [List.forall_mem_cons, u.over_octet, over_char (by decide : '.' ≠ '<'), true_and]
  exact ⟨((over_char (by decide)).mul (u.over_octet 5)).add over_one, List.forall_mem_nil _⟩

theorem over_bracketCompound : Over (· ≠ '<') u.bracketCompoundLanguage := by
  refine over_prod ?_
  have hname := over_nameChar
  have hpart : Over (· ≠ '<') (letter (· == ':') * (letter isNameChar * (letter isNameChar)∗)) :=
    (over_char (by decide)).mul (hname.mul hname.kstar)
  simp only [List.forall_mem_cons]
  exact ⟨over_char (by decide), hname.kstar, u.over_digit, hname.kstar, hpart.mul hpart.kstar,
    over_char (by decide), List.forall_mem_nil _⟩

theorem over_bracketInt : Over (· ≠ '<') u.bracketIntLanguage := by
  refine over_prod ?_
  simp only [List.forall_mem_cons]
  exact ⟨over_char (by decide), u.over_digit.mul u.over_digit.kstar, over_char (by decide),
    List.forall_mem_nil _⟩

/-! ### How the matches start -/

theorem heads_digit : Heads (fun c => u.digit c = true) u.digitLetter := heads_letter fun _ h => h

theorem pairs_ts : Pairs u.Opens u.tsLanguage := by
  rw [tsLanguage, List.prod_cons]
  exact (pairs_pow (fun _ h => h) (fun _ _ hc hd => .inr ⟨.inl hc, .inl hd⟩) 2).mul

theorem pairs_uuid : Pairs u.Opens uuidLanguage := by
  rw [uuidLanguage, List.prod_cons]
  exact (pairs_pow (fun _ h => h) (fun _ _ hc hd => .inr ⟨.inr hc, .inr (.inl hd)⟩) 6).mul

/-- A bracket, and what can stand behind it. -/
theorem pairs_bracket {l : Language Char}
    (h : Heads (fun d => u.digit d = true ∨ isNameChar d = true) l) :
    Pairs u.Opens (letter (· == '[') * l) :=
  pairs_of_heads (fun _ hc => eq_of_beq hc) h fun _ _ hc hd => .inl ⟨hc, hd⟩

theorem pairs_geid : Pairs u.Opens u.geidLanguage := by
  rw [geidLanguage, List.prod_cons, List.prod_cons, pow_succ']
  exact u.pairs_bracket (heads_letter fun _ h => .inl h).mul.mul

theorem pairs_bracketInt : Pairs u.Opens u.bracketIntLanguage := by
  rw [bracketIntLanguage, List.prod_cons, List.prod_cons]
  exact u.pairs_bracket (heads_letter fun _ h => .inl h).mul.mul

theorem pairs_bracketCompound : Pairs u.Opens u.bracketCompoundLanguage := by
  rw [bracketCompoundLanguage, List.prod_cons, List.prod_cons, List.prod_cons]
  exact u.pairs_bracket (.mul_of_over (over_letter fun _ h => .inr h).kstar
    (heads_letter fun _ h => .inl h).mul)

theorem pairs_ipPort : Pairs u.Opens u.ipPortLanguage := by
  rw [ipPortLanguage, List.prod_cons, List.prod_cons, mul_assoc]
  have htail : Heads (fun d => u.digit d = true ∨ isAsciiHexDigit d = true ∨ d = '.')
      (atMost u.digitLetter (3 - 1) * (letter (· == '.') * [u.octet 3, letter (· == '.'),
        u.octet 3, letter (· == '.'), u.octet 3, letter (· == ':') * u.octet 5 + 1].prod)) :=
    .mul_of_over ((over_letter fun _ h => .inl h).atMost _)
      (heads_letter fun _ h => .inr (.inr (eq_of_beq h))).mul
  exact pairs_of_heads (fun _ h => h) htail fun _ _ hc hd => .inr ⟨.inl hc, hd⟩

/-! ### The ends of `IPPORT_RE` -/

theorem heads_ipPort : Heads u.Edge u.ipPortLanguage := by
  rw [ipPortLanguage, List.prod_cons]
  exact u.heads_digit.mul.mul

theorem lasts_octet (n : Nat) : Lasts u.Edge (u.octet n) :=
  Heads.lasts u.heads_digit.mul
    ((over_letter fun _ h => h).mul ((over_letter fun _ h => h).atMost _))

theorem lasts_ipPort : Lasts u.Edge u.ipPortLanguage := by
  simp only [ipPortLanguage, List.prod_cons, List.prod_nil, mul_one]
  refine .mul (.mul (.mul (.mul (.mul (.mul ?_)))))
  exact (u.lasts_octet 3).mul_opt (u.lasts_octet 5).mul

theorem looks_ts : Looks u.tsRule '<' u.Opens u.Edge u.tsLanguage :=
  ⟨u.spells_ts, fun t ht h => u.over_ts t ht _ h rfl, u.pairs_ts, nofun, nofun⟩

theorem looks_uuid : Looks uuidRule '<' u.Opens u.Edge uuidLanguage :=
  ⟨spells_uuid, fun t ht h => over_uuid t ht _ h rfl, u.pairs_uuid, nofun, nofun⟩

theorem looks_geid : Looks u.geidRule '<' u.Opens u.Edge u.geidLanguage :=
  ⟨u.spells_geid, fun t ht h => u.over_geid t ht _ h rfl, u.pairs_geid, nofun, nofun⟩

theorem looks_bracketCompound :
    Looks u.bracketCompoundRule '<' u.Opens u.Edge u.bracketCompoundLanguage :=
  ⟨u.spells_bracketCompound, fun t ht h => u.over_bracketCompound t ht _ h rfl,
    u.pairs_bracketCompound, nofun, nofun⟩

theorem looks_bracketInt : Looks u.bracketIntRule '<' u.Opens u.Edge u.bracketIntLanguage :=
  ⟨u.spells_bracketInt, fun t ht h => u.over_bracketInt t ht _ h rfl, u.pairs_bracketInt, nofun,
    nofun⟩

theorem looks_ipPort : Looks u.ipPortRule '<' u.Opens u.Edge u.ipPortLanguage where
  spells := u.spells_ipPort
  stop_notMem t ht h := u.over_ipPort t ht _ h rfl
  opens := u.pairs_ipPort
  head_edge _ t ht := by
    obtain ⟨c, v, rfl, hc⟩ := u.heads_ipPort t ht
    exact fun d hd => Option.some.inj hd ▸ hc
  last_edge _ t ht := by
    obtain ⟨v, c, rfl, hc⟩ := u.lasts_ipPort t ht
    rw [List.getLast?_concat]
    exact fun d hd => Option.some.inj hd ▸ hc

/-! ### The placeholders -/

theorem ascii_of_all {x : List Char}
    (h : (x.all fun c => decide (c.toNat < 128) && !c.isDigit) = true) :
    ∀ c ∈ x, c.toNat < 128 ∧ c.isDigit = false := fun c hc => by
  simpa using List.all_eq_true.1 h c hc

theorem stamp_of {r : Rule} {l : Language Char} (x : List Char) {front back : List Char}
    (hl : Spells r.pattern l) (hfront : ∀ t ∈ l, front <+: t) (hx : r.replacement = x)
    (hshape : x = front ++ '<' :: back)
    (hascii : shutAscii x = true ∧ ∀ c ∈ x, c.toNat < 128 ∧ c.isDigit = false) :
    Stamp r '<' u.Opens u.Edge l := by
  subst hx
  exact ⟨hl, ⟨front, back, hshape, hfront⟩, u.shut_of_ascii hascii.1,
    fun c hc => u.not_edge_of_ascii (hascii.2 c hc)⟩

theorem prefix_of_heads {l : Language Char} {a : Char} (h : Heads (· = a) l) :
    ∀ t ∈ l, [a] <+: t := by
  intro t ht
  obtain ⟨c, v, rfl, rfl⟩ := h t ht
  exact ⟨v, rfl⟩

theorem heads_geid : Heads (· = '[') u.geidLanguage := by
  rw [geidLanguage, List.prod_cons]
  exact (heads_letter fun _ h => eq_of_beq h).mul

theorem heads_bracketCompound : Heads (· = '[') u.bracketCompoundLanguage := by
  rw [bracketCompoundLanguage, List.prod_cons]
  exact (heads_letter fun _ h => eq_of_beq h).mul

theorem heads_bracketInt : Heads (· = '[') u.bracketIntLanguage := by
  rw [bracketIntLanguage, List.prod_cons]
  exact (heads_letter fun _ h => eq_of_beq h).mul

theorem lasts_bracketCompound : Lasts (· = ']') u.bracketCompoundLanguage := by
  simp only [bracketCompoundLanguage, List.prod_cons, List.prod_nil, mul_one]
  exact .mul (.mul (.mul (.mul (.mul (lasts_letter fun _ h => eq_of_beq h)))))

theorem lasts_bracketInt : Lasts (· = ']') u.bracketIntLanguage := by
  simp only [bracketIntLanguage, List.prod_cons, List.prod_nil, mul_one]
  exact .mul (.mul (lasts_letter fun _ h => eq_of_beq h))

theorem stamp_ts : Stamp u.tsRule '<' u.Opens u.Edge u.tsLanguage :=
  u.stamp_of "<TS>".toList u.spells_ts (fun _ _ => List.nil_prefix)
    rfl rfl ⟨by decide, ascii_of_all (by decide)⟩

theorem stamp_uuid : Stamp uuidRule '<' u.Opens u.Edge uuidLanguage :=
  u.stamp_of "<UUID>".toList spells_uuid (fun _ _ => List.nil_prefix)
    rfl rfl ⟨by decide, ascii_of_all (by decide)⟩

theorem stamp_geid : Stamp u.geidRule '<' u.Opens u.Edge u.geidLanguage :=
  u.stamp_of "[<GEID>]".toList u.spells_geid (prefix_of_heads u.heads_geid)
    rfl rfl ⟨by decide, ascii_of_all (by decide)⟩

theorem stamp_ipPort : Stamp u.ipPortRule '<' u.Opens u.Edge u.ipPortLanguage :=
  u.stamp_of "<IPPORT>".toList u.spells_ipPort (fun _ _ => List.nil_prefix)
    rfl rfl ⟨by decide, ascii_of_all (by decide)⟩

theorem stamp_quoted : Stamp quotedRule '<' u.Opens u.Edge (quoteLanguage '"') :=
  u.stamp_of "\"<STR>\"".toList spells_quote (prefix_of_heads heads_quote)
    rfl rfl ⟨by decide, ascii_of_all (by decide)⟩

theorem stamp_squoted : Stamp squotedRule '<' u.Opens u.Edge (quoteLanguage '\'') :=
  u.stamp_of "'<STR>'".toList spells_quote (prefix_of_heads heads_quote)
    rfl rfl ⟨by decide, ascii_of_all (by decide)⟩

theorem stamp_bracketCompound :
    Stamp u.bracketCompoundRule '<' u.Opens u.Edge u.bracketCompoundLanguage :=
  u.stamp_of "[<ID>]".toList u.spells_bracketCompound (prefix_of_heads u.heads_bracketCompound)
    rfl rfl ⟨by decide, ascii_of_all (by decide)⟩

theorem stamp_bracketInt : Stamp u.bracketIntRule '<' u.Opens u.Edge u.bracketIntLanguage :=
  u.stamp_of "[<N>]".toList u.spells_bracketInt (prefix_of_heads u.heads_bracketInt)
    rfl rfl ⟨by decide, ascii_of_all (by decide)⟩

/-! ## Settled texts -/

/-- The rules that are not about quotes, the last one first. -/
def plainRules : List Rule :=
  [u.bracketIntRule, u.bracketCompoundRule, u.ipPortRule, u.geidRule, uuidRule, u.tsRule]

/-- No rule has anything to replace. -/
structure Settled (s : List Char) : Prop where
  free : ∀ r ∈ u.plainRules, r.Free u.word none s
  double : Paired '"' "<STR>".toList s
  single : Paired '\'' "<STR>".toList s

theorem exists_looks {r : Rule} (h : r ∈ u.plainRules) :
    ∃ l, Looks r '<' u.Opens u.Edge l := by
  simp only [plainRules, List.mem_cons, List.not_mem_nil, or_false] at h
  rcases h with rfl | rfl | rfl | rfl | rfl | rfl
  · exact ⟨_, u.looks_bracketInt⟩
  · exact ⟨_, u.looks_bracketCompound⟩
  · exact ⟨_, u.looks_ipPort⟩
  · exact ⟨_, u.looks_geid⟩
  · exact ⟨_, u.looks_uuid⟩
  · exact ⟨_, u.looks_ts⟩

theorem Settled.shapeText {s : List Char} (h : u.Settled s) : u.shapeText s = s := by
  have hplain {r : Rule} (hr : r ∈ u.plainRules) : r.replaceAll u.word s = s :=
    Rule.replaceFrom_of_free (h.free r hr)
  have hinner : "<STR>".toList ≠ [] ∧ '"' ∉ "<STR>".toList ∧ '\'' ∉ "<STR>".toList := by decide
  have hdouble : quotedRule.replaceAll u.word s = s := h.double.replaceFrom ⟨hinner.1, hinner.2.1⟩
  have hsingle : squotedRule.replaceAll u.word s = s := h.single.replaceFrom ⟨hinner.1, hinner.2.2⟩
  simp only [UnicodeClasses.shapeText, hdouble, hsingle,
    hplain (r := u.tsRule) (by simp [plainRules]), hplain (r := uuidRule) (by simp [plainRules]),
    hplain (r := u.geidRule) (by simp [plainRules]),
    hplain (r := u.ipPortRule) (by simp [plainRules]),
    hplain (r := u.bracketCompoundRule) (by simp [plainRules]),
    hplain (r := u.bracketIntRule) (by simp [plainRules])]

/-- A step of `shape_of`: the rules that have nothing to replace. -/
theorem free_step {r₀ : Rule} {l₀ : Language Char} {done : List Rule}
    (hdone : ∀ r ∈ done, r ∈ u.plainRules) (hs : Stamp r₀ '<' u.Opens u.Edge l₀)
    (hends : (∀ r ∈ done, r.bounded = false) ∨ KeepsEnds r₀ l₀) {s : List Char}
    (h : ∀ r ∈ done, r.Free u.word none s) :
    ∀ r ∈ done, r.Free u.word none (r₀.replaceAll u.word s) := by
  intro r hr
  obtain ⟨l, hl⟩ := u.exists_looks (hdone r hr)
  exact hl.free_replaceAll hs (hends.imp (fun hno => hno r hr) id) (h r hr)

theorem free_step_self {r₀ : Rule} {l₀ : Language Char} {done : List Rule}
    (hdone : ∀ r ∈ done, r ∈ u.plainRules) (hl : Looks r₀ '<' u.Opens u.Edge l₀)
    (hs : Stamp r₀ '<' u.Opens u.Edge l₀)
    (hends : (∀ r ∈ done, r.bounded = false) ∨ KeepsEnds r₀ l₀) {s : List Char}
    (h : ∀ r ∈ done, r.Free u.word none s) :
    ∀ r ∈ r₀ :: done, r.Free u.word none (r₀.replaceAll u.word s) :=
  List.forall_mem_cons.2
    ⟨hl.free_replaceAll_self hs u.word_of_digit s, u.free_step hdone hs hends h⟩

/-- The rules of brackets leave quotes alone. -/
theorem paired_brackets {q : Char} (hq : q = '"' ∨ q = '\'') {s : List Char}
    (h : Paired q "<STR>".toList s) :
    Paired q "<STR>".toList
      (u.bracketIntRule.replaceAll u.word (u.bracketCompoundRule.replaceAll u.word s)) := by
  have hopen : ∀ c, c = '[' → c ≠ q ∧ c ∉ "<STR>".toList := by
    rintro c rfl
    rcases hq with rfl | rfl <;> decide
  have hclose : ∀ c, c = ']' → c ≠ q ∧ c ∉ "<STR>".toList := by
    rintro c rfl
    rcases hq with rfl | rfl <;> decide
  have hnone : q ∉ "[<ID>]".toList ∧ q ∉ "[<N>]".toList := by rcases hq with rfl | rfl <;> decide
  exact (h.replaceAll u.spells_bracketCompound hnone.1 (u.heads_bracketCompound.imp hopen)
    (u.lasts_bracketCompound.imp hclose)).replaceAll u.spells_bracketInt hnone.2
      (u.heads_bracketInt.imp hopen) (u.lasts_bracketInt.imp hclose)

theorem settled_shapeText (line : List Char) : u.Settled (u.shapeText line) := by
  have hquoted : KeepsEnds quotedRule (quoteLanguage '"') :=
    keepsEnds_of rfl rfl heads_quote lasts_quote
  have hsquoted : KeepsEnds squotedRule (quoteLanguage '\'') :=
    keepsEnds_of rfl rfl heads_quote lasts_quote
  have hcompound : KeepsEnds u.bracketCompoundRule u.bracketCompoundLanguage :=
    keepsEnds_of rfl rfl u.heads_bracketCompound u.lasts_bracketCompound
  have hint : KeepsEnds u.bracketIntRule u.bracketIntLanguage :=
    keepsEnds_of rfl rfl u.heads_bracketInt u.lasts_bracketInt
  unfold shapeText
  extract_lets s₁ s₂ s₃ s₄ s₅ s₆ s₇
  have h₁ : ∀ r ∈ [u.tsRule], r.Free u.word none s₁ :=
    u.free_step_self (by simp) u.looks_ts u.stamp_ts (.inl (by simp)) (List.forall_mem_nil _)
  have h₂ : ∀ r ∈ [uuidRule, u.tsRule], r.Free u.word none s₂ :=
    u.free_step_self (by simp [plainRules]) u.looks_uuid u.stamp_uuid (.inl (by simp [tsRule])) h₁
  have h₃ : ∀ r ∈ [u.geidRule, uuidRule, u.tsRule], r.Free u.word none s₃ :=
    u.free_step_self (by simp [plainRules]) u.looks_geid u.stamp_geid
      (.inl (by simp [tsRule, uuidRule])) h₂
  have h₄ : ∀ r ∈ [u.ipPortRule, u.geidRule, uuidRule, u.tsRule], r.Free u.word none s₄ :=
    u.free_step_self (by simp [plainRules]) u.looks_ipPort u.stamp_ipPort
      (.inl (by simp [tsRule, uuidRule, geidRule])) h₃
  have h₅ : ∀ r ∈ [u.ipPortRule, u.geidRule, uuidRule, u.tsRule], r.Free u.word none s₅ :=
    u.free_step (by simp [plainRules]) u.stamp_quoted (.inr hquoted) h₄
  have h₆ : ∀ r ∈ [u.ipPortRule, u.geidRule, uuidRule, u.tsRule], r.Free u.word none s₆ :=
    u.free_step (by simp [plainRules]) u.stamp_squoted (.inr hsquoted) h₅
  have h₇ : ∀ r ∈ [u.bracketCompoundRule, u.ipPortRule, u.geidRule, uuidRule, u.tsRule],
      r.Free u.word none s₇ :=
    u.free_step_self (by simp [plainRules]) u.looks_bracketCompound u.stamp_bracketCompound
      (.inr hcompound) h₆
  have hdouble : Paired '"' "<STR>".toList s₆ :=
    Paired.replaceAll spells_quote (by decide) (heads_quote.imp fun _ hc => hc ▸ by decide)
      (lasts_quote.imp fun _ hc => hc ▸ by decide) (paired_replaceFrom none s₄)
  exact ⟨u.free_step_self (by simp [plainRules]) u.looks_bracketInt u.stamp_bracketInt
      (.inr hint) h₇,
    u.paired_brackets (.inl rfl) hdouble,
    u.paired_brackets (.inr rfl) (paired_replaceFrom none s₅)⟩

theorem shapeText_shapeText (line : List Char) :
    u.shapeText (u.shapeText line) = u.shapeText line := (u.settled_shapeText line).shapeText

end

/-! ## Tokens -/

theorem exists_first {p : Char → Bool} {s : List Char} (h : s.any p = true) :
    ∃ front c rest, s = front ++ c :: rest ∧ front.any p = false ∧ p c = true := by
  induction s with
  | nil => cases h
  | cons d s ih =>
    cases hd : p d with
    | true => exact ⟨[], d, s, rfl, rfl, hd⟩
    | false =>
      rw [List.any_cons, hd, Bool.false_or] at h
      obtain ⟨front, c, rest, rfl, hfront, hc⟩ := ih h
      exact ⟨d :: front, c, rest, rfl, by rw [List.any_cons, hd, hfront]; rfl, hc⟩

/-- The core of a token, from the first to the last character that is looked at. -/
structure IsCore (p : Char → Bool) (front core back : List Char) : Prop where
  front : front.any p = false
  back : back.any p = false
  head : ∃ c rest, core = c :: rest ∧ p c = true
  last : ∃ rest c, core = rest ++ [c] ∧ p c = true

theorem exists_core {p : Char → Bool} {s : List Char} (h : s.any p = true) :
    ∃ front core back, s = front ++ core ++ back ∧ IsCore p front core back := by
  obtain ⟨front, c, rest, rfl, hfront, hc⟩ := exists_first h
  have hrev : (c :: rest).reverse.any p = true := by
    rw [List.any_reverse, List.any_cons, hc]
    rfl
  obtain ⟨back, d, init, heq, hback, hd⟩ := exists_first hrev
  have hsplit : c :: rest = init.reverse ++ [d] ++ back.reverse := by
    rw [← List.reverse_reverse (c :: rest), heq]
    simp
  refine ⟨front, init.reverse ++ [d], back.reverse,
    by simp only [hsplit, List.append_assoc], hfront, by rw [List.any_reverse, hback], ?_,
    init.reverse, d, rfl, hd⟩
  cases hinit : init.reverse with
  | nil => exact ⟨d, [], rfl, hd⟩
  | cons e init' =>
    rw [hinit] at hsplit
    exact ⟨e, init' ++ [d], rfl, (List.cons.inj hsplit).1 ▸ hc⟩

theorem findByte_eq_none {p : Char → Bool} {s : List Char} :
    findByte p s = none ↔ s.any p = false := by
  induction s with
  | nil => exact iff_of_true rfl rfl
  | cons c s ih =>
    rw [findByte, List.any_cons]
    cases p c <;> simp [ih]

theorem findByte_append {p : Char → Bool} {front rest : List Char} {c : Char}
    (hfront : front.any p = false) (hc : p c = true) :
    findByte p (front ++ c :: rest) = some (Text.byteLength front) := by
  induction front with
  | nil => exact if_pos hc
  | cons d front ih =>
    rw [List.any_cons, Bool.or_eq_false_iff] at hfront
    rw [List.cons_append, findByte, hfront.1, if_neg Bool.false_ne_true, ih hfront.2]
    simp [Text.byteLength]

theorem charIndices_append (i : Nat) (a b : List Char) :
    charIndices i (a ++ b) = charIndices i a ++ charIndices (i + Text.byteLength a) b := by
  induction a generalizing i with
  | nil => rfl
  | cons c a ih =>
    rw [List.cons_append, charIndices, charIndices, ih]
    simp [Text.byteLength, Nat.add_assoc]

theorem charIndices_any {p : Char → Bool} {i : Nat} {s : List Char} (h : s.any p = false) :
    (charIndices i s).any (fun x => p x.2) = false := by
  induction s generalizing i with
  | nil => rfl
  | cons c s ih =>
    rw [List.any_cons, Bool.or_eq_false_iff] at h
    rw [charIndices, List.any_cons, h.1, ih h.2]
    rfl

/-- The last character that is looked at, and its place. -/
theorem find_charIndices {p : Char → Bool} {init back : List Char} {c : Char}
    (hback : back.any p = false) (hc : p c = true) :
    (charIndices 0 (init ++ [c] ++ back)).reverse.find? (fun x => p x.2) =
      some (Text.byteLength init, c) := by
  have hnone {i : Nat} : (charIndices i back).reverse.find? (fun x => p x.2) = none := by
    rw [List.find?_eq_none]
    intro x hx
    have := List.any_eq_false.1 (charIndices_any (i := i) hback) x (List.mem_reverse.1 hx)
    exact this
  rw [charIndices_append, charIndices_append, List.reverse_append, List.find?_append, hnone,
    Option.none_or, List.reverse_append, List.find?_append]
  simp [charIndices, hc]

/-- No split of a token is inside a character. -/
theorem coarseToken_cases (tok : List Char) :
    u.coarseToken tok = some tok ∧ (tok.any isDelimiter = true ∨ tok.any u.isCoreChar = false) ∨
      ∃ front core back, tok = front ++ core ++ back ∧ tok.any isDelimiter = false ∧
        IsCore u.isCoreChar front core back ∧
        u.coarseToken tok = some (front ++ classifyNamespaced core ++ back) := by
  by_cases hdelim : tok.any isDelimiter = true
  · exact .inl ⟨if_pos hdelim, .inl hdelim⟩
  · cases hany : tok.any u.isCoreChar with
    | false =>
      refine .inl ⟨?_, .inr rfl⟩
      rw [coarseToken, if_neg hdelim, findByte_eq_none.2 hany]
    | true =>
      obtain ⟨front, core, back, rfl, hcore⟩ := exists_core hany
      refine .inr ⟨front, core, back, rfl, Bool.eq_false_iff.2 hdelim, hcore, ?_⟩
      obtain ⟨c, rest, hhead, hc⟩ := hcore.head
      obtain ⟨init, d, hlast, hd⟩ := hcore.last
      have hstart : findByte u.isCoreChar (front ++ core ++ back) =
          some (Text.byteLength front) := by
        rw [hhead, List.append_assoc, List.cons_append]
        exact findByte_append hcore.front hc
      have hstop : (charIndices 0 (front ++ core ++ back)).reverse.find?
          (fun x => u.isCoreChar x.2) = some (Text.byteLength (front ++ init), d) := by
        rw [hlast, ← List.append_assoc front]
        exact find_charIndices hcore.back hd
      have hlength : Text.byteLength (front ++ init) + d.utf8Size =
          Text.byteLength front + Text.byteLength core := by
        rw [hlast]
        simp [Text.byteLength, Nat.add_assoc]
      have hfront : Text.splitAtByte (front ++ core ++ back) (Text.byteLength front) =
          some (front, core ++ back) := by
        rw [List.append_assoc, Text.splitAtByte_append]
      rw [coarseToken, if_neg hdelim, hstart]
      simp only [hstop, hfront, hlength, Option.bind_eq_bind, Option.bind_some,
        Nat.add_sub_cancel_left, Text.splitAtByte_append]
      rw [if_neg (by omega)]
      rfl

theorem coarseToken_isSome (tok : List Char) : (u.coarseToken tok).isSome := by
  rcases u.coarseToken_cases tok with ⟨h, -⟩ | ⟨_, _, _, -, -, -, h⟩ <;> rw [h] <;> rfl

/-! ### Segments -/

theorem splitNamespaces_ne_nil (s : List Char) : splitNamespaces s ≠ [] := by
  fun_induction splitNamespaces s with
  | case1 => exact List.cons_ne_nil _ _
  | case2 => exact List.cons_ne_nil _ _
  | case3 => exact List.cons_ne_nil _ _
  | case4 => exact List.cons_ne_nil _ _

theorem intercalate_splitNamespaces (s : List Char) :
    [':', ':'].intercalate (splitNamespaces s) = s := by
  fun_induction splitNamespaces s with
  | case1 => exact List.intercalate_singleton
  | case2 s ih =>
    rw [List.intercalate_cons_of_ne_nil (splitNamespaces_ne_nil s), ih]
    rfl
  | case3 c s _ hnil => exact absurd hnil (splitNamespaces_ne_nil s)
  | case4 c s _ part parts hparts ih => rw [List.intercalate_cons_cons_left, ← hparts, ih]

/-- A segment is kept, or is a number or an identifier. -/
theorem classifyCore_cases (m : List Char) : classifyCore m = m ∨
    m ≠ [] ∧ (classifyCore m = "<NUM>".toList ∨ classifyCore m = "<SYM>".toList) := by
  cases m with
  | nil => exact .inl rfl
  | cons c m =>
    have hne := List.cons_ne_nil c m
    unfold classifyCore
    dsimp only
    split
    · exact .inr ⟨hne, .inl rfl⟩
    · split
      · exact .inr ⟨hne, .inr rfl⟩
      · exact .inl rfl

/-- What a segment of a token stands between. -/
structure Coarsened (prev : Option Char) (m x s : List Char) : Prop where
  placeholder : x = "<NUM>".toList ∨ x = "<SYM>".toList
  plain : m.any isDelimiter = false
  before : ∀ c ∈ prev, u.alphanumeric c = false ∧ c ≠ '<' ∧ c ≠ '>'
  behind : ∀ c ∈ s.head?, u.alphanumeric c = false ∧ c ≠ '<'
  quote_before : prev = some '\'' → m.head? ≠ some '\''
  quote_behind : m.getLast? = some '\'' → s.head? ≠ some '\''

/-- What `coarse_token` does to a text. -/
abbrev CoarseEdited : Option Char → List Char → List Char → Prop :=
  Edited (fun _ _ => True) u.Coarsened

variable {u}

theorem CoarseEdited.keep_append {prev : Option Char} {s s' : List Char} (a : List Char)
    (h : u.CoarseEdited (a.getLast?.or prev) s s') : u.CoarseEdited prev (a ++ s) (a ++ s') := by
  induction a generalizing prev with
  | nil => exact h
  | cons c a ih =>
    refine .keep trivial (ih ?_)
    rw [List.getLast?_cons] at h
    cases hlast : a.getLast? <;> rw [hlast] at h <;> exact h

/-- A segment, in front of something that is no part of it. -/
theorem CoarseEdited.segment {prev : Option Char} {m s s' : List Char}
    (hplain : m.any isDelimiter = false)
    (hbefore : ∀ c ∈ prev, u.alphanumeric c = false ∧ c ≠ '<' ∧ c ≠ '>')
    (hbehind : ∀ c ∈ s.head?, u.alphanumeric c = false ∧ c ≠ '<')
    (hquote : prev = some '\'' → m.head? ≠ some '\'')
    (hquote' : m.getLast? = some '\'' → s.head? ≠ some '\'')
    (h : ∀ prev, u.CoarseEdited prev s s') :
    u.CoarseEdited prev (m ++ s) (classifyCore m ++ s') := by
  rcases classifyCore_cases m with hkept | ⟨hne, hx⟩
  · rw [hkept]
    exact .keep_append m (h _)
  · exact .swap hne ⟨hx, hplain, hbefore, hbehind, hquote, hquote'⟩ (h _)

theorem CoarseEdited.segments {parts : List (List Char)} {prev : Option Char} {s s' : List Char}
    (hplain : ([':', ':'].intercalate parts).any isDelimiter = false)
    (hbefore : ∀ c ∈ prev, u.alphanumeric c = false ∧ c ≠ '<' ∧ c ≠ '>')
    (hbehind : ∀ c ∈ s.head?, u.alphanumeric c = false ∧ c ≠ '<')
    (hquote : prev = some '\'' → ([':', ':'].intercalate parts).head? ≠ some '\'')
    (hquote' : ([':', ':'].intercalate parts).getLast? = some '\'' → s.head? ≠ some '\'')
    (h : ∀ prev, u.CoarseEdited prev s s') :
    u.CoarseEdited prev ([':', ':'].intercalate parts ++ s)
      ([':', ':'].intercalate (parts.map classifyCore) ++ s') := by
  have hcolon : u.alphanumeric ':' = false := u.alphanumeric_ascii ':' (by decide)
  induction parts generalizing prev with
  | nil => exact h prev
  | cons m parts ih =>
    cases parts with
    | nil =>
      simp only [List.map_cons, List.map_nil, List.intercalate_singleton] at *
      exact .segment hplain hbefore hbehind hquote hquote' h
    | cons n parts =>
      rw [List.map_cons, List.map_cons] at *
      rw [List.intercalate_cons_cons] at hplain hquote hquote' ⊢
      rw [List.intercalate_cons_cons, List.append_assoc, List.append_assoc, List.append_assoc,
        List.append_assoc]
      rw [List.any_append, List.any_append, Bool.or_eq_false_iff, Bool.or_eq_false_iff] at hplain
      refine .segment hplain.1.1 hbefore ?_ ?_ ?_ fun prev => .keep trivial (.keep trivial ?_)
      · exact fun c hc => Option.some.inj hc ▸ ⟨hcolon, by decide⟩
      · intro hprev hhead
        refine hquote hprev ?_
        rw [List.append_assoc, List.head?_append, hhead]
        rfl
      · exact fun _ => by simp
      · refine ih hplain.2 ?_ (fun hc => absurd (Option.some.inj hc) (by decide)) fun hlast => ?_
        · exact fun c hc => Option.some.inj hc ▸ ⟨hcolon, by decide, by decide⟩
        · refine hquote' ?_
          rw [List.getLast?_append, hlast]
          rfl

theorem CoarseEdited.core {core : List Char} {prev : Option Char} {s s' : List Char}
    (hplain : core.any isDelimiter = false)
    (hbefore : ∀ c ∈ prev, u.alphanumeric c = false ∧ c ≠ '<' ∧ c ≠ '>')
    (hbehind : ∀ c ∈ s.head?, u.alphanumeric c = false ∧ c ≠ '<')
    (hquote : core.head? ≠ some '\'') (hquote' : core.getLast? ≠ some '\'')
    (h : ∀ prev, u.CoarseEdited prev s s') :
    u.CoarseEdited prev (core ++ s) (classifyNamespaced core ++ s') := by
  have hsegments := @CoarseEdited.segments u (splitNamespaces core) prev s s'
  rw [intercalate_splitNamespaces] at hsegments
  exact hsegments hplain hbefore hbehind (fun _ => hquote) (fun hc => absurd hc hquote') h

/-- A token between blanks. -/
theorem CoarseEdited.token {tok tok' : List Char} (htok : u.coarseToken tok = some tok')
    {prev : Option Char} {s s' : List Char} (hprev : ∀ c ∈ prev, c = ' ')
    (hs : ∀ c ∈ s.head?, c = ' ') (h : ∀ prev, u.CoarseEdited prev s s') :
    u.CoarseEdited prev (tok ++ s) (tok' ++ s') := by
  rcases u.coarseToken_cases tok with ⟨heq, -⟩ | ⟨front, core, back, rfl, hplain, hcore, heq⟩
  · obtain rfl := Option.some.inj (heq.symm.trans htok)
    exact .keep_append tok (h _)
  · obtain rfl := Option.some.inj (heq.symm.trans htok)
    rw [List.any_append, List.any_append, Bool.or_eq_false_iff, Bool.or_eq_false_iff] at hplain
    -- Around the core there are blanks and characters of the token that are not looked at.
    have houter {c : Char} {part : List Char} (hpart : part.any u.isCoreChar = false)
        (hdelim : part.any isDelimiter = false) (hc : c ∈ part ∨ c = ' ') :
        u.alphanumeric c = false ∧ c ≠ '<' ∧ c ≠ '>' := by
      rcases hc with hc | rfl
      · have hno := List.any_eq_false.1 hpart c hc
        have hno' := List.any_eq_false.1 hdelim c hc
        refine ⟨(Bool.or_eq_false_iff.1 (Bool.eq_false_iff.2 hno)).1, ?_, ?_⟩ <;>
          rintro rfl <;> exact hno' (by decide)
      · exact ⟨u.alphanumeric_ascii ' ' (by decide), by decide, by decide⟩
    have hquote {c : Char} (hc : u.isCoreChar c = true) : c ≠ '\'' := by
      rintro rfl
      rw [isCoreChar, u.alphanumeric_ascii '\'' (by decide)] at hc
      cases hc
    obtain ⟨a, rest, hhead, ha⟩ := hcore.head
    obtain ⟨init, b, hlast, hb⟩ := hcore.last
    simp only [List.append_assoc]
    refine .keep_append front (.core hplain.1.2 ?_ ?_ ?_ ?_ fun prev => .keep_append back (h _))
    · intro c hc
      refine houter hcore.front hplain.1.1 ?_
      cases hfront : front.getLast? with
      | none => exact .inr (hprev c (by rw [hfront] at hc; exact hc))
      | some d =>
        rw [hfront] at hc
        exact .inl (List.mem_of_getLast? (hfront.trans hc))
    · intro c hc
      have hc' := houter hcore.back hplain.2 (c := c) ?_
      · exact ⟨hc'.1, hc'.2.1⟩
      · cases back with
        | nil => exact .inr (hs c hc)
        | cons d back => exact .inl (Option.some.inj hc ▸ List.mem_cons_self)
    · rw [hhead]
      exact fun heq => hquote ha (Option.some.inj heq)
    · rw [hlast, List.getLast?_concat]
      exact fun heq => hquote hb (Option.some.inj heq)

/-- The tokens of a line, each with what it becomes. -/
abbrev CoarseTokens (u : UnicodeClasses) : List (List Char) → List (List Char) → Prop :=
  List.Forall₂ fun tok tok' => u.coarseToken tok = some tok'

theorem mapM_eq_some {toks toks' : List (List Char)} :
    toks.mapM u.coarseToken = some toks' ↔ u.CoarseTokens toks toks' := by
  induction toks generalizing toks' with
  | nil =>
    rw [List.mapM_nil, Option.pure_def, Option.some.injEq, CoarseTokens, List.forall₂_nil_left_iff,
      eq_comm]
  | cons tok toks ih =>
    simp only [List.mapM_cons, Option.bind_eq_bind, Option.bind_eq_some_iff, Option.pure_def,
      Option.some.injEq, List.forall₂_cons_left_iff, ih]
    constructor
    · rintro ⟨tok', htok, rest', hrest, rfl⟩
      exact ⟨tok', rest', htok, hrest, rfl⟩
    · rintro ⟨tok', rest', htok, hrest, rfl⟩
      exact ⟨tok', htok, rest', hrest, rfl⟩

theorem CoarseTokens.exists_of_mem {toks toks' : List (List Char)} (h : u.CoarseTokens toks toks')
    {tok' : List Char} (hmem : tok' ∈ toks') : ∃ tok ∈ toks, u.coarseToken tok = some tok' := by
  induction h with
  | nil => cases hmem
  | cons htok _ ih =>
    rcases List.mem_cons.1 hmem with rfl | hmem
    · exact ⟨_, List.mem_cons_self, htok⟩
    · obtain ⟨tok, hin, heq⟩ := ih hmem
      exact ⟨tok, List.mem_cons_of_mem _ hin, heq⟩

theorem CoarseEdited.tokens {toks toks' : List (List Char)} (h : u.CoarseTokens toks toks')
    {prev : Option Char} (hprev : ∀ c ∈ prev, c = ' ') :
    u.CoarseEdited prev ([' '].intercalate toks) ([' '].intercalate toks') := by
  induction h generalizing prev with
  | nil => exact .nil
  | @cons tok tok' toks toks' htok hrest ih =>
    cases hrest with
    | nil =>
      rw [List.intercalate_singleton, List.intercalate_singleton, ← List.append_nil tok,
        ← List.append_nil tok']
      exact .token htok hprev nofun fun _ => .nil
    | cons =>
      rw [List.intercalate_cons_cons, List.intercalate_cons_cons, List.append_assoc,
        List.append_assoc]
      refine .token htok hprev (fun c hc => (Option.some.inj hc).symm) fun _ => .keep trivial ?_
      exact ih fun c hc => (Option.some.inj hc).symm

/-! ### Coarse texts are settled -/

theorem Coarsened.inert {r : Rule} {prev : Option Char} {m x s : List Char}
    (h : u.Coarsened prev m x s) : Inert u.word r '<' u.Opens u.Edge prev m x s := by
  have hx : (∃ back, x = '<' :: back) ∧ shutAscii x = true ∧
      ∀ c ∈ x, c.toNat < 128 ∧ c.isDigit = false := by
    rcases h.placeholder with rfl | rfl
    · exact ⟨⟨_, rfl⟩, by decide, ascii_of_all (by decide)⟩
    · exact ⟨⟨_, rfl⟩, by decide, ascii_of_all (by decide)⟩
  obtain ⟨⟨back, hback⟩, hshut, hascii⟩ := hx
  have hedge {c : Char} (hc : u.alphanumeric c = false) : ¬ u.Edge c := by
    intro hdigit
    rw [u.alphanumeric_of_digit c hdigit] at hc
    cases hc
  exact ⟨⟨[], back, hback, List.nil_prefix⟩, u.shut_of_ascii hshut,
    fun c hc => u.not_edge_of_ascii (hascii c hc),
    fun _ => .inl fun c hc => hedge (h.before c hc).1,
    fun _ => .inl fun c hc => hedge (h.behind c hc).1⟩

/-- Next to each other in quotes: where they start, behind a character of what they stand around,
or two quotes. -/
theorem adjacent_cases {q c d : Char} (h : Adjacent q "<STR>".toList c d) :
    d = '<' ∨ c ∈ ['<', 'S', 'T', 'R', '>'] ∨ c = q ∧ d = q := by
  rcases h with h | h
  · have hinner : "<STR>".toList = ['<', 'S', 'T', 'R', '>'] := rfl
    simp only [hinner, List.cons_append, List.nil_append, List.infix_cons_iff,
      List.cons_prefix_cons, List.nil_prefix, and_true, List.infix_nil, List.prefix_nil,
      List.cons_ne_nil, and_false, or_false] at h
    simp only [List.mem_cons, List.not_mem_nil, or_false]
    tauto
  · exact .inr (.inr h)

theorem Coarsened.spares {q : Char} (hq : q = '"' ∨ q = '\'') {prev : Option Char}
    {m x s : List Char} (h : u.Coarsened prev m x s) : Spares q "<STR>".toList prev m x s := by
  have hno {c : Char} (hc : isDelimiter c = true) : c ∉ m := fun hmem =>
    List.any_eq_false.1 h.plain c hmem hc
  refine ⟨?_, fun p hp c hc hadj => ?_, Paired.behind_plain rfl (hno rfl) fun hlast c hc => ?_⟩
  · rcases h.placeholder with rfl | rfl <;> rcases hq with rfl | rfl <;> decide
  · have hmem : c ∈ m := List.mem_of_head? hc
    rcases adjacent_cases hadj with rfl | hp' | ⟨rfl, rfl⟩
    · exact hno rfl hmem
    · obtain ⟨halnum, hopen, hclose⟩ := h.before p hp
      simp only [List.mem_cons, List.not_mem_nil, or_false] at hp'
      rcases hp' with rfl | rfl | rfl | rfl | rfl
      · exact hopen rfl
      · rw [u.alphanumeric_ascii 'S' (by decide)] at halnum
        cases halnum
      · rw [u.alphanumeric_ascii 'T' (by decide)] at halnum
        cases halnum
      · rw [u.alphanumeric_ascii 'R' (by decide)] at halnum
        cases halnum
      · exact hclose rfl
    · rcases hq with rfl | rfl
      · exact hno rfl hmem
      · exact h.quote_before hp hc
  · refine ⟨?_, (h.behind c hc).2⟩
    rcases hq with rfl | rfl
    · exact absurd (List.mem_of_getLast? hlast) (hno rfl)
    · rintro rfl
      exact h.quote_behind hlast hc

/-- The coarse tokens of a settled text make a settled text. -/
theorem Settled.coarse {s : List Char} (h : u.Settled s) {toks : List (List Char)}
    (htoks : u.CoarseTokens (Text.fields (· == ' ') s) toks) :
    u.Settled ([' '].intercalate toks) := by
  have hedit := @CoarseEdited.tokens u _ _ htoks none nofun
  rw [Text.intercalate_fields] at hedit
  refine ⟨fun r hr => ?_, ?_, ?_⟩
  · obtain ⟨l, hl⟩ := u.exists_looks hr
    exact hl.free_of_edited (fun _ _ _ _ hsw => hsw.inert) (hedit.of_free (h.free r hr))
      fun _ => .inr rfl
  · exact h.double.edited (fun _ _ _ _ hsw => hsw.spares (.inl rfl)) hedit
  · exact h.single.edited (fun _ _ _ _ hsw => hsw.spares (.inr rfl)) hedit

/-! ### Coarse tokens stay -/

/-- A name is kept, or has a placeholder. -/
theorem classifyNamespaced_cases (core : List Char) :
    classifyNamespaced core = core ∨ '<' ∈ classifyNamespaced core := by
  have hparts (parts : List (List Char)) : parts.map classifyCore = parts ∨
      '<' ∈ [':', ':'].intercalate (parts.map classifyCore) := by
    induction parts with
    | nil => exact .inl rfl
    | cons m parts ih =>
      have hmem {c : Char} {rest : List (List Char)} (hc : c ∈ classifyCore m) :
          c ∈ [':', ':'].intercalate (classifyCore m :: rest) := by
        cases rest with
        | nil => rwa [List.intercalate_singleton]
        | cons => simp [List.intercalate_cons_cons, hc]
      rcases classifyCore_cases m with hm | ⟨-, hx⟩
      · rcases ih with ih | ih
        · exact .inl (by rw [List.map_cons, hm, ih])
        · cases parts with
          | nil => cases ih
          | cons => exact .inr (by simpa [List.intercalate_cons_cons] using .inr ih)
      · refine .inr (hmem ?_)
        rcases hx with hx | hx <;> rw [hx] <;> decide
  rcases hparts (splitNamespaces core) with h | h
  · exact .inl (by rw [classifyNamespaced, h, intercalate_splitNamespaces])
  · exact .inr h

theorem coarseToken_idempotent {tok tok' : List Char} (h : u.coarseToken tok = some tok') :
    u.coarseToken tok' = some tok' := by
  rcases u.coarseToken_cases tok with ⟨heq, -⟩ | ⟨front, core, back, rfl, -, -, heq⟩
  · obtain rfl := Option.some.inj (heq.symm.trans h)
    exact heq
  · obtain rfl := Option.some.inj (heq.symm.trans h)
    rcases classifyNamespaced_cases core with hkept | hmem
    · rw [hkept] at heq ⊢
      exact heq
    · refine if_pos (List.any_eq_true.2 ⟨'<', ?_, rfl⟩)
      exact List.mem_append_left _ (List.mem_append_right _ hmem)

/-- A token has no blank, and what it becomes has none. -/
theorem blank_not_mem_coarseToken {tok tok' : List Char} (h : u.coarseToken tok = some tok')
    (hblank : ' ' ∉ tok) : ' ' ∉ tok' := by
  have hedit := @CoarseEdited.token u tok tok' h none [] [] nofun nofun fun _ => .nil
  rw [List.append_nil, List.append_nil] at hedit
  refine hedit.notMem_of_notMem (fun prev m x s hsw _ => ?_) hblank
  rcases hsw.placeholder with rfl | rfl <;> decide

theorem coarseText_eq_some {line out : List Char} : u.coarseText line = some out ↔
    ∃ toks, u.CoarseTokens (Text.fields (· == ' ') (u.shapeText line)) toks ∧
      [' '].intercalate toks = out := by
  simp only [coarseText, Option.map_eq_some_iff, mapM_eq_some]

theorem coarseText_isSome (line : List Char) : (u.coarseText line).isSome := by
  have hall (toks : List (List Char)) : ∃ toks', u.CoarseTokens toks toks' := by
    induction toks with
    | nil => exact ⟨[], .nil⟩
    | cons tok toks ih =>
      obtain ⟨toks', htoks⟩ := ih
      obtain ⟨tok', htok⟩ := Option.isSome_iff_exists.1 (u.coarseToken_isSome tok)
      exact ⟨tok' :: toks', .cons htok htoks⟩
  obtain ⟨toks, htoks⟩ := hall (Text.fields (· == ' ') (u.shapeText line))
  exact Option.isSome_iff_exists.2 ⟨_, coarseText_eq_some.2 ⟨toks, htoks, rfl⟩⟩

theorem coarseText_coarseText {line out : List Char} (h : u.coarseText line = some out) :
    u.coarseText out = some out := by
  obtain ⟨toks, htoks, rfl⟩ := coarseText_eq_some.1 h
  have hsettled := (u.settled_shapeText line).coarse htoks
  obtain ⟨part, parts, hparts⟩ := Text.exists_fields_eq_cons (· == ' ') (u.shapeText line)
  have hne : toks ≠ [] := by
    rintro rfl
    rw [hparts] at htoks
    cases htoks
  have hblank : ∀ tok ∈ toks, ' ' ∉ tok := by
    intro tok' htok'
    obtain ⟨tok, htok, heq⟩ := CoarseTokens.exists_of_mem htoks htok'
    refine blank_not_mem_coarseToken heq fun hmem => ?_
    cases Text.not_sep_of_mem_fields htok hmem
  refine coarseText_eq_some.2 ⟨toks, ?_, rfl⟩
  rw [hsettled.shapeText, Text.fields_intercalate hne hblank]
  exact List.forall₂_same.2 fun tok' htok' =>
    have ⟨_, _, heq⟩ := CoarseTokens.exists_of_mem htoks htok'
    coarseToken_idempotent heq

/-! ## Shapes -/

/-- Normalising a line once more changes nothing, and no token is split inside a character. -/
theorem shapes_idempotent (u : UnicodeClasses) (line : String) :
    u.shapeOf (u.shapeOf line) = u.shapeOf line ∧
      (∃ shape, u.coarseShapeOf line = some shape ∧ u.coarseShapeOf shape = some shape) ∧
      ∀ tok, (u.coarseToken tok).isSome := by
  refine ⟨?_, ?_, u.coarseToken_isSome⟩
  · rw [shapeOf, shapeOf, String.toList_ofList, shapeText_shapeText]
  · obtain ⟨out, hout⟩ := Option.isSome_iff_exists.1 (coarseText_isSome (u := u) line.toList)
    refine ⟨String.ofList out, by rw [coarseShapeOf, hout]; rfl, ?_⟩
    rw [coarseShapeOf, String.toList_ofList, coarseText_coarseText hout]
    rfl

theorem shapes_idempotent_item :
    ascii.shapeOf "Item[0] of 'Bo'" = "Item[<N>] of '<STR>'" ∧
      ascii.shapeOf (ascii.shapeOf "Item[0] of 'Bo'") = ascii.shapeOf "Item[0] of 'Bo'" :=
  ⟨by decide +kernel, (shapes_idempotent ascii "Item[0] of 'Bo'").1⟩

end UnicodeClasses

end StarStats
