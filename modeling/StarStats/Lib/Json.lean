import Mathlib.Data.List.Perm.Subperm
import Mathlib.Data.List.Sort
import Mathlib.Data.String.Basic
import Mathlib.Tactic.IntervalCases
import StarStats.Lib.Search

/-!
# JSON values and their compact text

A value whose integers and floats are kept apart. How a float is printed is a parameter
(`FloatText`). Object members are a list; `Value.Sorted` says that the keys ascend strictly at
every depth, as in an ordered map.

* `Value.text_cancel`: the text of a value determines the value, and where it ends.
* `Value.sortKeys_of_sorted`: sorting the keys of a sorted value changes nothing.
* `Value.sortKeys_eq_iff`: two values sort to the same when one is the other reordered.
* `utf8_injective`: the bytes of a text determine the text.
* `byteLength_quote`, `byteLength_object`: how many bytes a text has.
-/

namespace Json

/-! ## Numbers -/

/-- A character that can stand in a number. -/
def isNumeric (c : Char) : Bool :=
  c.isDigit || c = '-' || c = '+' || c = '.' || c = 'e' || c = 'E'

/-- An integer in decimal. -/
def decimal : Int → List Char
  | .ofNat n => Nat.toDigits 10 n
  | .negSucc n => '-' :: Nat.toDigits 10 (n + 1)

/-- How the floats are printed: never as an integer, and no two alike. -/
structure FloatText (F : Type) where
  text : F → List Char
  numeric : ∀ x, ∀ c ∈ text x, isNumeric c = true
  fractional : ∀ x, '.' ∈ text x ∨ 'e' ∈ text x
  injective : Function.Injective text

inductive Number (F : Type) where
  | int (n : Int)
  | float (x : F)

theorem isDigit_of_mem_toDigits {n : Nat} {c : Char} (h : c ∈ Nat.toDigits 10 n) :
    c.isDigit = true :=
  Nat.isDigit_of_mem_toDigits (by decide) (by decide) h

theorem toDigits_injective {m n : Nat} (h : Nat.toDigits 10 m = Nat.toDigits 10 n) : m = n := by
  rw [← @Nat.ofDigitChars_ten_toDigits m, h, Nat.ofDigitChars_ten_toDigits]

theorem decimal_chars {n : Int} {c : Char} (h : c ∈ decimal n) : c.isDigit = true ∨ c = '-' := by
  cases n with
  | ofNat n => exact .inl (isDigit_of_mem_toDigits h)
  | negSucc n =>
    rcases List.mem_cons.1 h with h | h
    · exact .inr h
    · exact .inl (isDigit_of_mem_toDigits h)

theorem decimal_numeric (n : Int) : ∀ c ∈ decimal n, isNumeric c = true := by
  intro c hc
  unfold isNumeric
  rcases decimal_chars hc with h | h
  · simp [h]
  · simp [h]

theorem decimal_ne_nil (n : Int) : decimal n ≠ [] := by
  cases n with
  | ofNat n => exact Nat.toDigits_ne_nil
  | negSucc n => simp [decimal]

theorem minus_not_mem_toDigits (n : Nat) : '-' ∉ Nat.toDigits 10 n := fun h =>
  absurd (isDigit_of_mem_toDigits h) (by decide)

theorem decimal_injective : Function.Injective decimal := by
  intro m n h
  cases m with
  | ofNat m =>
    cases n with
    | ofNat n => rw [toDigits_injective h]
    | negSucc n =>
      refine absurd ?_ (minus_not_mem_toDigits m)
      rw [show Nat.toDigits 10 m = _ from h]
      exact List.mem_cons_self
  | negSucc m =>
    cases n with
    | ofNat n =>
      refine absurd ?_ (minus_not_mem_toDigits n)
      rw [← show _ = Nat.toDigits 10 n from h]
      exact List.mem_cons_self
    | negSucc n =>
      have := toDigits_injective (List.cons.inj h).2
      congr 1
      omega

section
variable {F : Type} (ft : FloatText F)

def Number.text : Number F → List Char
  | int n => decimal n
  | float x => ft.text x

theorem Number.text_numeric (n : Number F) : ∀ c ∈ n.text ft, isNumeric c = true := by
  cases n with
  | int n => exact decimal_numeric n
  | float x => exact ft.numeric x

theorem Number.text_ne_nil (n : Number F) : n.text ft ≠ [] := by
  cases n with
  | int n => exact decimal_ne_nil n
  | float x =>
    intro h
    simp only [text] at h
    rcases ft.fractional x with hc | hc <;> simp [h] at hc

theorem decimal_ne_float (n : Int) (x : F) : decimal n ≠ ft.text x := by
  intro h
  have hdot : ∀ c ∈ ft.text x, c.isDigit = true ∨ c = '-' := fun c hc => decimal_chars (h ▸ hc)
  rcases ft.fractional x with hc | hc
  · exact absurd (hdot _ hc) (by decide)
  · exact absurd (hdot _ hc) (by decide)

theorem Number.text_injective : Function.Injective (Number.text ft) := by
  intro m n h
  cases m with
  | int m =>
    cases n with
    | int n => rw [decimal_injective h]
    | float y => exact absurd h (decimal_ne_float ft m y)
  | float x =>
    cases n with
    | int n => exact absurd h.symm (decimal_ne_float ft n x)
    | float y => rw [ft.injective h]

end

/-! ## Strings -/

def hexDigit (n : Nat) : Char := "0123456789abcdef".toList.getD n '0'

/-- A character between the quotation marks. -/
def escapeChar (c : Char) : List Char :=
  if c = '"' then ['\\', '"']
  else if c = '\\' then ['\\', '\\']
  else if c = '\x08' then ['\\', 'b']
  else if c = '\x0c' then ['\\', 'f']
  else if c = '\n' then ['\\', 'n']
  else if c = '\r' then ['\\', 'r']
  else if c = '\t' then ['\\', 't']
  else if c.toNat < 0x20 then ['\\', 'u', '0', '0', hexDigit (c.toNat / 16), hexDigit (c.toNat % 16)]
  else [c]

def quote (s : List Char) : List Char := '"' :: s.flatMap escapeChar ++ ['"']

/-- What an escaped character stands for, and the rest. -/
def unescapeChar : List Char → Option (Char × List Char)
  | '\\' :: 'u' :: '0' :: '0' :: h :: l :: rest =>
    let value := fun c => "0123456789abcdef".toList.idxOf c
    some (Char.ofNat (16 * value h + value l), rest)
  | '\\' :: 'b' :: rest => some ('\x08', rest)
  | '\\' :: 'f' :: rest => some ('\x0c', rest)
  | '\\' :: 'n' :: rest => some ('\n', rest)
  | '\\' :: 'r' :: rest => some ('\r', rest)
  | '\\' :: 't' :: rest => some ('\t', rest)
  | '\\' :: c :: rest => some (c, rest)
  | c :: rest => some (c, rest)
  | [] => none

theorem unescapeChar_escapeChar (c : Char) (rest : List Char) :
    unescapeChar (escapeChar c ++ rest) = some (c, rest) := by
  by_cases hc : c.toNat < 0x20
  · -- the control characters, one by one
    have hof : c = Char.ofNat c.toNat := (Char.ofNat_toNat c).symm
    generalize c.toNat = n at hc hof
    subst hof
    interval_cases n <;> rfl
  · unfold escapeChar
    have hb : c ≠ '\x08' ∧ c ≠ '\x0c' ∧ c ≠ '\n' ∧ c ≠ '\r' ∧ c ≠ '\t' := by
      refine ⟨?_, ?_, ?_, ?_, ?_⟩ <;> exact fun h => hc (by rw [h]; decide)
    by_cases hq : c = '"'
    · rw [if_pos hq, hq]
      rfl
    · by_cases hs : c = '\\'
      · rw [if_neg hq, if_pos hs, hs]
        rfl
      · rw [if_neg hq, if_neg hs, if_neg hb.1, if_neg hb.2.1, if_neg hb.2.2.1, if_neg hb.2.2.2.1,
          if_neg hb.2.2.2.2, if_neg hc]
        rw [List.singleton_append, unescapeChar.eq_def]
        split <;> simp_all

theorem escape_ne_quote (c : Char) (s r r' : List Char) :
    (c :: s).flatMap escapeChar ++ '"' :: r ≠ [].flatMap escapeChar ++ '"' :: r' := by
  intro h
  rw [List.flatMap_cons, List.append_assoc] at h
  have hc := congrArg unescapeChar h
  rw [unescapeChar_escapeChar] at hc
  have hq : unescapeChar ('"' :: r') = some ('"', r') := rfl
  simp only [List.flatMap_nil, List.nil_append, hq, Option.some.injEq, Prod.mk.injEq] at hc
  -- the only character read back as a quotation mark is escaped
  rw [hc.1] at h
  exact absurd (List.cons.inj h).1 (by decide)

/-- The text of a string determines it, and where it ends. -/
theorem quote_cancel : ∀ {s s' : List Char} {r r' : List Char},
    s.flatMap escapeChar ++ '"' :: r = s'.flatMap escapeChar ++ '"' :: r' → s = s' ∧ r = r'
  | [], [], _, _, h => ⟨rfl, (List.cons.inj h).2⟩
  | [], c :: s', r, r', h => absurd h.symm (escape_ne_quote c s' r' r)
  | c :: s, [], r, r', h => absurd h (escape_ne_quote c s r r')
  | c :: s, c' :: s', r, r', h => by
    rw [List.flatMap_cons, List.flatMap_cons, List.append_assoc, List.append_assoc] at h
    have hc := congrArg unescapeChar h
    rw [unescapeChar_escapeChar, unescapeChar_escapeChar] at hc
    simp only [Option.some.injEq, Prod.mk.injEq] at hc
    obtain ⟨rfl, hs⟩ := hc
    obtain ⟨rfl, hr⟩ := quote_cancel hs
    exact ⟨rfl, hr⟩

/-! ## Values -/

inductive Value (F : Type) where
  | null
  | bool (b : Bool)
  | number (n : Number F)
  | string (s : String)
  | array (elems : List (Value F))
  | object (members : List (String × Value F))

section
variable {F : Type} (ft : FloatText F)

/-- `"key":` -/
def keyText (k : String) : List Char := quote k.toList ++ [':']

mutual
/-- The compact text. -/
def Value.text : Value F → List Char
  | .null => ['n', 'u', 'l', 'l']
  | .bool true => ['t', 'r', 'u', 'e']
  | .bool false => ['f', 'a', 'l', 's', 'e']
  | .number n => n.text ft
  | .string s => quote s.toList
  | .array [] => ['[', ']']
  | .array (v :: vs) => '[' :: (v.text ++ elemsText vs)
  | .object [] => ['\x7b', '\x7d']
  | .object ((k, v) :: ms) => '\x7b' :: (keyText k ++ v.text ++ membersText ms)

/-- The elements after the first, and the bracket. -/
def elemsText : List (Value F) → List Char
  | [] => [']']
  | v :: vs => ',' :: (v.text ++ elemsText vs)

/-- The members after the first, and the brace. -/
def membersText : List (String × Value F) → List Char
  | [] => ['\x7d']
  | (k, v) :: ms => ',' :: (keyText k ++ v.text ++ membersText ms)
end

/-- What a value's first character says about it; `6` for no value. -/
def kindOf (c : Char) : Nat :=
  if c = 'n' then 0
  else if c = 't' ∨ c = 'f' then 1
  else if isNumeric c then 2
  else if c = '"' then 3
  else if c = '[' then 4
  else if c = '\x7b' then 5
  else 6

def Value.kind : Value F → Nat
  | .null => 0
  | .bool _ => 1
  | .number _ => 2
  | .string _ => 3
  | .array _ => 4
  | .object _ => 5

theorem kindOf_numeric {c : Char} (h : isNumeric c = true) : kindOf c = 2 := by
  unfold kindOf
  rw [if_neg (fun hc => by rw [hc] at h; exact absurd h (by decide)),
    if_neg (fun hc => by rcases hc with hc | hc <;> rw [hc] at h <;> exact absurd h (by decide)),
    if_pos h]

theorem Value.exists_text_cons (v : Value F) :
    ∃ c l, v.text ft = c :: l ∧ kindOf c = v.kind := by
  cases v with
  | null => exact ⟨_, _, by rw [text], rfl⟩
  | bool b => cases b <;> exact ⟨_, _, by rw [text], rfl⟩
  | number n =>
    obtain ⟨c, l, hl⟩ := List.exists_cons_of_ne_nil (n.text_ne_nil ft)
    exact ⟨c, l, by rw [text, hl], kindOf_numeric (n.text_numeric ft c (hl ▸ List.mem_cons_self))⟩
  | string s => exact ⟨_, _, by rw [text, quote, List.cons_append], rfl⟩
  | array elems => cases elems <;> exact ⟨_, _, by rw [text], rfl⟩
  | object members => rcases members with _ | ⟨⟨k, v⟩, ms⟩ <;> exact ⟨_, _, by rw [text], rfl⟩

theorem Value.kind_eq {v v' : Value F} {r r' : List Char}
    (h : v.text ft ++ r = v'.text ft ++ r') : v.kind = v'.kind := by
  obtain ⟨c, l, hv, hc⟩ := v.exists_text_cons ft
  obtain ⟨c', l', hv', hc'⟩ := v'.exists_text_cons ft
  rw [hv, hv', List.cons_append, List.cons_append] at h
  rw [← hc, ← hc', (List.cons.inj h).1]

theorem Value.eq_null {v : Value F} (h : v.kind = 0) : v = .null := by
  cases v <;> first | rfl | cases h

theorem Value.exists_bool {v : Value F} (h : v.kind = 1) : ∃ b, v = .bool b := by
  cases v <;> first | exact ⟨_, rfl⟩ | cases h

theorem Value.exists_number {v : Value F} (h : v.kind = 2) : ∃ n, v = .number n := by
  cases v <;> first | exact ⟨_, rfl⟩ | cases h

theorem Value.exists_string {v : Value F} (h : v.kind = 3) : ∃ s, v = .string s := by
  cases v <;> first | exact ⟨_, rfl⟩ | cases h

theorem Value.exists_array {v : Value F} (h : v.kind = 4) : ∃ vs, v = .array vs := by
  cases v <;> first | exact ⟨_, rfl⟩ | cases h

theorem Value.exists_object {v : Value F} (h : v.kind = 5) : ∃ ms, v = .object ms := by
  cases v <;> first | exact ⟨_, rfl⟩ | cases h

/-- No value starts with a character that starts none. -/
theorem Value.text_ne_cons (v : Value F) {c : Char} (hc : kindOf c = 6) (r r' : List Char) :
    v.text ft ++ r ≠ c :: r' := by
  intro h
  obtain ⟨c', l, hv, hk⟩ := v.exists_text_cons ft
  rw [hv, List.cons_append] at h
  rw [(List.cons.inj h).1, hc] at hk
  cases v <;> cases hk

/-- A text that starts with no numeric character. -/
def Stops (r : List Char) : Prop := ∀ c ∈ r.head?, isNumeric c = false

theorem span_cancel : ∀ {l l' r r' : List Char}, (∀ c ∈ l, isNumeric c = true) →
    (∀ c ∈ l', isNumeric c = true) → Stops r → Stops r' → l ++ r = l' ++ r' → l = l' ∧ r = r'
  | [], [], _, _, _, _, _, _, h => ⟨rfl, h⟩
  | [], c :: l', r, r', _, hl', hr, _, h => by
    have hc := hr c (by rw [show r = _ from h]; rfl)
    rw [hl' c List.mem_cons_self] at hc
    cases hc
  | c :: l, [], r, r', hl, _, _, hr', h => by
    have hc := hr' c (by rw [← show _ = r' from h]; rfl)
    rw [hl c List.mem_cons_self] at hc
    cases hc
  | c :: l, c' :: l', r, r', hl, hl', hr, hr', h => by
    obtain ⟨rfl, htail⟩ := List.cons.inj h
    obtain ⟨rfl, hr⟩ := span_cancel (fun c hc => hl c (.tail _ hc)) (fun c hc => hl' c (.tail _ hc))
      hr hr' htail
    exact ⟨rfl, hr⟩

theorem keyText_cancel {k k' : String} {r r' : List Char} (h : keyText k ++ r = keyText k' ++ r') :
    k = k' ∧ r = r' := by
  simp only [keyText, quote, List.append_assoc, List.cons_append, List.nil_append] at h
  obtain ⟨hk, hr⟩ := quote_cancel (List.cons.inj h).2
  exact ⟨String.toList_injective hk, (List.cons.inj hr).2⟩

theorem stops_elemsText (vs : List (Value F)) (r : List Char) : Stops (elemsText ft vs ++ r) := by
  cases vs <;> rw [elemsText] <;> intro c hc <;> cases hc <;> rfl

theorem stops_membersText (ms : List (String × Value F)) (r : List Char) :
    Stops (membersText ft ms ++ r) := by
  rcases ms with _ | ⟨⟨k, v⟩, ms⟩ <;> rw [membersText] <;> intro c hc <;> cases hc <;> rfl

mutual
/-- The text of a value determines it, and where it ends: a number ends where no numeric
character follows, any other value by itself. -/
theorem Value.text_cancel : ∀ (v v' : Value F) {r r' : List Char}, (v.kind = 2 → Stops r) →
    (v'.kind = 2 → Stops r') → v.text ft ++ r = v'.text ft ++ r' → v = v' ∧ r = r'
  | .null, v', r, r', _, _, h => by
    obtain rfl := Value.eq_null (Value.kind_eq ft h).symm
    simp only [Value.text] at h
    exact ⟨rfl, by simpa using h⟩
  | .bool b, v', r, r', _, _, h => by
    obtain ⟨b', rfl⟩ := Value.exists_bool (Value.kind_eq ft h).symm
    cases b <;> cases b' <;> simp only [Value.text] at h <;> simp_all
  | .number n, v', r, r', hr, hr', h => by
    obtain ⟨n', rfl⟩ := Value.exists_number (Value.kind_eq ft h).symm
    simp only [Value.text] at h
    obtain ⟨hn, hr⟩ := span_cancel (n.text_numeric ft) (n'.text_numeric ft) (hr rfl) (hr' rfl) h
    rw [Number.text_injective ft hn]
    exact ⟨rfl, hr⟩
  | .string s, v', r, r', _, _, h => by
    obtain ⟨s', rfl⟩ := Value.exists_string (Value.kind_eq ft h).symm
    simp only [Value.text, quote, List.append_assoc, List.cons_append, List.nil_append] at h
    obtain ⟨hs, hr⟩ := quote_cancel (List.cons.inj h).2
    rw [String.toList_injective hs]
    exact ⟨rfl, hr⟩
  | .array [], v', r, r', _, _, h => by
    obtain ⟨vs', rfl⟩ := Value.exists_array (Value.kind_eq ft h).symm
    cases vs' with
    | nil =>
      simp only [Value.text] at h
      exact ⟨rfl, by simpa using h⟩
    | cons v' vs' =>
      simp only [Value.text, List.cons_append, List.append_assoc] at h
      exact absurd (List.cons.inj h).2.symm (v'.text_ne_cons ft (by decide) _ _)
  | .array (v :: vs), v', r, r', _, _, h => by
    obtain ⟨vs', rfl⟩ := Value.exists_array (Value.kind_eq ft h).symm
    cases vs' with
    | nil =>
      simp only [Value.text, List.cons_append, List.append_assoc] at h
      exact absurd (List.cons.inj h).2 (v.text_ne_cons ft (by decide) _ _)
    | cons v' vs' =>
      simp only [Value.text, List.cons_append, List.append_assoc] at h
      obtain ⟨rfl, htail⟩ := Value.text_cancel v v' (fun _ => stops_elemsText ft vs r)
        (fun _ => stops_elemsText ft vs' r') (List.cons.inj h).2
      obtain ⟨rfl, hr⟩ := elemsText_cancel vs vs' htail
      exact ⟨rfl, hr⟩
  | .object [], v', r, r', _, _, h => by
    obtain ⟨ms', rfl⟩ := Value.exists_object (Value.kind_eq ft h).symm
    rcases ms' with _ | ⟨⟨k', v'⟩, ms'⟩
    · simp only [Value.text] at h
      exact ⟨rfl, by simpa using h⟩
    · simp only [Value.text, keyText, quote, List.cons_append] at h
      exact absurd (List.cons.inj (List.cons.inj h).2).1 (by decide)
  | .object ((k, v) :: ms), v', r, r', _, _, h => by
    obtain ⟨ms', rfl⟩ := Value.exists_object (Value.kind_eq ft h).symm
    rcases ms' with _ | ⟨⟨k', v'⟩, ms'⟩
    · simp only [Value.text, keyText, quote, List.cons_append] at h
      exact absurd (List.cons.inj (List.cons.inj h).2).1 (by decide)
    · simp only [Value.text, List.cons_append, List.append_assoc] at h
      obtain ⟨rfl, hval⟩ := keyText_cancel (List.cons.inj h).2
      obtain ⟨rfl, htail⟩ := Value.text_cancel v v' (fun _ => stops_membersText ft ms r)
        (fun _ => stops_membersText ft ms' r') hval
      obtain ⟨rfl, hr⟩ := membersText_cancel ms ms' htail
      exact ⟨rfl, hr⟩

theorem elemsText_cancel : ∀ (vs vs' : List (Value F)) {r r' : List Char},
    elemsText ft vs ++ r = elemsText ft vs' ++ r' → vs = vs' ∧ r = r'
  | [], [], r, r', h => by
    simp only [elemsText] at h
    exact ⟨rfl, by simpa using h⟩
  | [], v' :: vs', r, r', h => by
    simp only [elemsText, List.cons_append] at h
    exact absurd (List.cons.inj h).1 (by decide)
  | v :: vs, [], r, r', h => by
    simp only [elemsText, List.cons_append] at h
    exact absurd (List.cons.inj h).1 (by decide)
  | v :: vs, v' :: vs', r, r', h => by
    simp only [elemsText, List.cons_append, List.append_assoc] at h
    obtain ⟨rfl, htail⟩ := Value.text_cancel v v' (fun _ => stops_elemsText ft vs r)
      (fun _ => stops_elemsText ft vs' r') (List.cons.inj h).2
    obtain ⟨rfl, hr⟩ := elemsText_cancel vs vs' htail
    exact ⟨rfl, hr⟩

theorem membersText_cancel : ∀ (ms ms' : List (String × Value F)) {r r' : List Char},
    membersText ft ms ++ r = membersText ft ms' ++ r' → ms = ms' ∧ r = r'
  | [], [], r, r', h => by
    simp only [membersText] at h
    exact ⟨rfl, by simpa using h⟩
  | [], (k', v') :: ms', r, r', h => by
    simp only [membersText, List.cons_append] at h
    exact absurd (List.cons.inj h).1 (by decide)
  | (k, v) :: ms, [], r, r', h => by
    simp only [membersText, List.cons_append] at h
    exact absurd (List.cons.inj h).1 (by decide)
  | (k, v) :: ms, (k', v') :: ms', r, r', h => by
    simp only [membersText, List.cons_append, List.append_assoc] at h
    obtain ⟨rfl, hval⟩ := keyText_cancel (List.cons.inj h).2
    obtain ⟨rfl, htail⟩ := Value.text_cancel v v' (fun _ => stops_membersText ft ms r)
      (fun _ => stops_membersText ft ms' r') hval
    obtain ⟨rfl, hr⟩ := membersText_cancel ms ms' htail
    exact ⟨rfl, hr⟩
end

end

/-! ## Key order -/

section
variable {F : Type}

mutual
/-- The keys ascend strictly, at every depth. -/
def Value.Sorted : Value F → Prop
  | .array vs => elemsSorted vs
  | .object ms => (ms.map (·.1)).Pairwise (· < ·) ∧ membersSorted ms
  | _ => True

def elemsSorted : List (Value F) → Prop
  | [] => True
  | v :: vs => v.Sorted ∧ elemsSorted vs

def membersSorted : List (String × Value F) → Prop
  | [] => True
  | (_, v) :: ms => v.Sorted ∧ membersSorted ms
end

mutual
/-- The same value with its keys in ascending order at every depth. -/
def Value.sortKeys : Value F → Value F
  | .array vs => .array (sortElems vs)
  | .object ms => .object ((sortMembers ms).insertionSort fun a b => a.1 ≤ b.1)
  | v => v

def sortElems : List (Value F) → List (Value F)
  | [] => []
  | v :: vs => v.sortKeys :: sortElems vs

def sortMembers : List (String × Value F) → List (String × Value F)
  | [] => []
  | (k, v) :: ms => (k, v.sortKeys) :: sortMembers ms
end

mutual
theorem Value.sortKeys_of_sorted : ∀ {v : Value F}, v.Sorted → v.sortKeys = v
  | .null, _ => by rw [Value.sortKeys] <;> simp
  | .bool _, _ => by rw [Value.sortKeys] <;> simp
  | .number _, _ => by rw [Value.sortKeys] <;> simp
  | .string _, _ => by rw [Value.sortKeys] <;> simp
  | .array vs, h => by
    simp only [Value.Sorted] at h
    rw [Value.sortKeys, sortElems_of_sorted h]
  | .object ms, h => by
    simp only [Value.Sorted] at h
    rw [Value.sortKeys, sortMembers_of_sorted h.2, List.Pairwise.insertionSort_eq]
    exact (List.pairwise_map.1 h.1).imp fun hlt => le_of_lt hlt

theorem sortElems_of_sorted : ∀ {vs : List (Value F)}, elemsSorted vs → sortElems vs = vs
  | [], _ => by rw [sortElems]
  | v :: vs, h => by
    simp only [elemsSorted] at h
    rw [sortElems, Value.sortKeys_of_sorted h.1, sortElems_of_sorted h.2]

theorem sortMembers_of_sorted :
    ∀ {ms : List (String × Value F)}, membersSorted ms → sortMembers ms = ms
  | [], _ => by rw [sortMembers]
  | (k, v) :: ms, h => by
    simp only [membersSorted] at h
    rw [sortMembers, Value.sortKeys_of_sorted h.1, sortMembers_of_sorted h.2]
end

/-! ## Reordered members -/

mutual
/-- No key stands twice in an object, at any depth, as in a map. -/
def Value.DistinctKeys : Value F → Prop
  | .array vs => elemsDistinct vs
  | .object ms => (ms.map (·.1)).Nodup ∧ membersDistinct ms
  | _ => True

def elemsDistinct : List (Value F) → Prop
  | [] => True
  | v :: vs => v.DistinctKeys ∧ elemsDistinct vs

def membersDistinct : List (String × Value F) → Prop
  | [] => True
  | (_, v) :: ms => v.DistinctKeys ∧ membersDistinct ms
end

mutual
/-- The same value up to the order of the members of its objects, at every depth. -/
def Value.Reordered : Value F → Value F → Prop
  | .array vs, .array ws => elemsReordered vs ws
  | .object ms, .object ns => ms.length = ns.length ∧ membersReordered ms ns
  | v, w => v = w

def elemsReordered : List (Value F) → List (Value F) → Prop
  | [], [] => True
  | v :: vs, w :: ws => v.Reordered w ∧ elemsReordered vs ws
  | _, _ => False

/-- Every member of the one list is in the other, up to the order within its value. -/
def membersReordered : List (String × Value F) → List (String × Value F) → Prop
  | [], _ => True
  | (k, v) :: ms, ns => (∃ w, (k, w) ∈ ns ∧ v.Reordered w) ∧ membersReordered ms ns
end

/-- Lists without a key twice sort to one list by their keys when they have the same members. -/
theorem insertionSort_key_eq_iff {α : Type} {xs ys : List (String × α)}
    (hx : (xs.map (·.1)).Nodup) :
    xs.insertionSort (fun a b => a.1 ≤ b.1) = ys.insertionSort (fun a b => a.1 ≤ b.1) ↔
      xs.length = ys.length ∧ ∀ x ∈ xs, x ∈ ys := by
  have hperm : ∀ l : List (String × α), (l.insertionSort fun a b => a.1 ≤ b.1).Perm l :=
    fun l => List.perm_insertionSort _ l
  constructor
  · intro h
    have hxy : xs.Perm ys := (hperm xs).symm.trans (h ▸ hperm ys)
    exact ⟨hxy.length_eq, fun x hx => hxy.mem_iff.1 hx⟩
  · rintro ⟨hlen, hsub⟩
    have hxy : xs.Perm ys :=
      ((List.subperm_of_subset hx.of_map hsub).perm_of_length_le hlen.ge)
    have : Std.Total fun a b : String × α => a.1 ≤ b.1 := ⟨fun a b => le_total a.1 b.1⟩
    have : IsTrans (String × α) fun a b => a.1 ≤ b.1 := ⟨fun a b c => le_trans⟩
    refine List.Perm.eq_of_pairwise ?_ (List.pairwise_insertionSort _ xs)
      (List.pairwise_insertionSort _ ys) ((hperm xs).trans (hxy.trans (hperm ys).symm))
    intro a b ha hb hab hba
    have ha := (hperm xs).mem_iff.1 ha
    have hb := hxy.mem_iff.2 ((hperm ys).mem_iff.1 hb)
    exact List.inj_on_of_nodup_map hx ha hb (le_antisymm hab hba)

theorem keys_sortMembers : ∀ ms : List (String × Value F),
    (sortMembers ms).map (·.1) = ms.map (·.1)
  | [] => by rw [sortMembers]
  | (k, v) :: ms => by rw [sortMembers, List.map_cons, List.map_cons, keys_sortMembers ms]

theorem length_sortMembers (ms : List (String × Value F)) :
    (sortMembers ms).length = ms.length := by
  simpa using congrArg List.length (keys_sortMembers ms)

theorem mem_sortMembers {k : String} {v : Value F} : ∀ {ms : List (String × Value F)},
    (k, v) ∈ sortMembers ms ↔ ∃ w, (k, w) ∈ ms ∧ v = w.sortKeys
  | [] => by simp [sortMembers]
  | (k', v') :: ms => by
    rw [sortMembers, List.mem_cons, mem_sortMembers]
    grind

theorem distinctKeys_of_mem {k : String} {v : Value F} : ∀ {ms : List (String × Value F)},
    membersDistinct ms → (k, v) ∈ ms → v.DistinctKeys
  | (k', v') :: ms, h, hm => by
    simp only [membersDistinct] at h
    rcases List.mem_cons.1 hm with hm | hm
    · cases hm
      exact h.1
    · exact distinctKeys_of_mem h.2 hm

mutual
/-- Two values are the same once their keys are sorted when they are the same up to the order. -/
theorem Value.sortKeys_eq_iff : ∀ {v w : Value F}, v.DistinctKeys → w.DistinctKeys →
    (v.sortKeys = w.sortKeys ↔ v.Reordered w)
  | .null, w, _, _ => by cases w <;> simp [Value.sortKeys, Value.Reordered]
  | .bool _, w, _, _ => by cases w <;> simp [Value.sortKeys, Value.Reordered]
  | .number _, w, _, _ => by cases w <;> simp [Value.sortKeys, Value.Reordered]
  | .string _, w, _, _ => by cases w <;> simp [Value.sortKeys, Value.Reordered]
  | .array vs, w, hv, hw => by
    cases w with
    | array ws =>
      simp only [Value.DistinctKeys] at hv hw
      simp only [Value.sortKeys, Value.Reordered, Value.array.injEq]
      exact sortElems_eq_iff hv hw
    | _ => simp [Value.sortKeys, Value.Reordered]
  | .object ms, w, hv, hw => by
    cases w with
    | object ns =>
      simp only [Value.DistinctKeys] at hv hw
      simp only [Value.sortKeys, Value.Reordered, Value.object.injEq]
      rw [insertionSort_key_eq_iff (by rw [keys_sortMembers]; exact hv.1),
        sortMembers_subset_iff hv.2 hw.2, length_sortMembers, length_sortMembers]
    | _ => simp [Value.sortKeys, Value.Reordered]

theorem sortElems_eq_iff : ∀ {vs ws : List (Value F)}, elemsDistinct vs → elemsDistinct ws →
    (sortElems vs = sortElems ws ↔ elemsReordered vs ws)
  | [], [], _, _ => by simp [elemsReordered]
  | [], w :: ws, _, _ => by simp [sortElems, elemsReordered]
  | v :: vs, [], _, _ => by simp [sortElems, elemsReordered]
  | v :: vs, w :: ws, hv, hw => by
    simp only [elemsDistinct] at hv hw
    simp only [sortElems, elemsReordered, List.cons.injEq]
    rw [Value.sortKeys_eq_iff hv.1 hw.1, sortElems_eq_iff hv.2 hw.2]

theorem sortMembers_subset_iff : ∀ {ms ns : List (String × Value F)}, membersDistinct ms →
    membersDistinct ns → ((∀ x ∈ sortMembers ms, x ∈ sortMembers ns) ↔ membersReordered ms ns)
  | [], ns, _, _ => by simp [sortMembers, membersReordered]
  | (k, v) :: ms, ns, hm, hn => by
    simp only [membersDistinct] at hm
    have hmember : (k, v.sortKeys) ∈ sortMembers ns ↔ ∃ w, (k, w) ∈ ns ∧ v.Reordered w := by
      rw [mem_sortMembers]
      exact exists_congr fun w => and_congr_right fun hw =>
        Value.sortKeys_eq_iff hm.1 (distinctKeys_of_mem hn hw)
    simp only [sortMembers, membersReordered, List.forall_mem_cons]
    rw [hmember, sortMembers_subset_iff hm.2 hn]
end

end

/-! ## Bytes -/

def utf8 (l : List Char) : List UInt8 := l.flatMap String.utf8EncodeChar

theorem utf8_append (l l' : List Char) : utf8 (l ++ l') = utf8 l ++ utf8 l' := List.flatMap_append

theorem utf8_injective : Function.Injective utf8 := by
  intro l l' h
  apply String.ofList_injective
  apply String.toByteArray_inj.1
  show (utf8 l).toByteArray = (utf8 l').toByteArray
  rw [h]

/-! ## Sizes -/

open Text (byteLength)

theorem byteLength_cons (c : Char) (s : List Char) :
    byteLength (c :: s) = c.utf8Size + byteLength s := by
  simp [byteLength]

theorem byteLength_append (s t : List Char) :
    byteLength (s ++ t) = byteLength s + byteLength t := by
  simp [byteLength]

/-- The bytes that escaping a character adds. -/
def escapeCost (c : Char) : Nat :=
  if c = '"' ∨ c = '\\' ∨ c = '\x08' ∨ c = '\x0c' ∨ c = '\n' ∨ c = '\r' ∨ c = '\t' then 1
  else if c.toNat < 0x20 then 5
  else 0

def escapeCosts (s : List Char) : Nat := (s.map escapeCost).sum

theorem byteLength_escapeChar (c : Char) :
    byteLength (escapeChar c) = c.utf8Size + escapeCost c := by
  by_cases hc : c.toNat < 0x20
  · -- the control characters, one by one
    have hof : c = Char.ofNat c.toNat := (Char.ofNat_toNat c).symm
    generalize c.toNat = n at hc hof
    subst hof
    interval_cases n <;> rfl
  · have hb : c ≠ '\x08' ∧ c ≠ '\x0c' ∧ c ≠ '\n' ∧ c ≠ '\r' ∧ c ≠ '\t' := by
      refine ⟨?_, ?_, ?_, ?_, ?_⟩ <;> exact fun h => hc (by rw [h]; decide)
    by_cases hq : c = '"'
    · rw [hq]
      rfl
    · by_cases hs : c = '\\'
      · rw [hs]
        rfl
      · simp [escapeChar, escapeCost, byteLength, hq, hs, hb, hc]

theorem byteLength_escaped (s : List Char) :
    byteLength (s.flatMap escapeChar) = byteLength s + escapeCosts s := by
  induction s with
  | nil => rfl
  | cons c cs ih =>
    rw [List.flatMap_cons, byteLength_append, byteLength_escapeChar, ih, byteLength_cons]
    simp only [escapeCosts, List.map_cons, List.sum_cons]
    omega

/-- A string takes its own bytes, those that escaping adds, and two quotation marks. -/
theorem byteLength_quote (s : List Char) :
    byteLength (quote s) = byteLength s + escapeCosts s + 2 := by
  have hmark : '"'.utf8Size = 1 := rfl
  rw [quote, List.cons_append, byteLength_cons, byteLength_append, byteLength_escaped,
    byteLength_cons]
  simp only [hmark, byteLength, List.map_nil, List.sum_nil]
  omega

section
variable {F : Type} (ft : FloatText F)

/-- A member with its separator, or the brace behind it. -/
def memberBytes (m : String × Value F) : Nat :=
  byteLength (keyText m.1) + byteLength (m.2.text ft) + 1

theorem byteLength_membersText (ms : List (String × Value F)) :
    byteLength (membersText ft ms) = 1 + (ms.map (memberBytes ft)).sum := by
  induction ms with
  | nil => rfl
  | cons m ms ih =>
    have hcomma : ','.utf8Size = 1 := rfl
    rw [membersText, byteLength_cons, byteLength_append, byteLength_append, ih, List.map_cons,
      List.sum_cons, memberBytes, hcomma]
    omega

theorem byteLength_object {ms : List (String × Value F)} (h : ms ≠ []) :
    byteLength ((Value.object ms).text ft) = 1 + (ms.map (memberBytes ft)).sum := by
  cases ms with
  | nil => exact absurd rfl h
  | cons m ms =>
    have hbrace : '\x7b'.utf8Size = 1 := rfl
    rw [Value.text, byteLength_cons, byteLength_append, byteLength_append, byteLength_membersText,
      List.map_cons, List.sum_cons, memberBytes, hbrace]
    omega

end

end Json
