import Mathlib.Algebra.Group.Nat.Defs

/-!
# Text

Strings as lists of characters, so that the operations compute: ASCII case folding, case-blind
equality, trimming of Unicode white space, searching and splitting.
-/

namespace Text

/-- ASCII lower case. -/
def lower (s : String) : String := String.ofList (s.toList.map Char.toLower)

/-- Equal up to ASCII case. -/
def eqIgnoreAsciiCase (s t : String) : Bool := lower s == lower t

/-- The characters with the Unicode property `White_Space`. -/
def isWhitespace (c : Char) : Bool :=
  let n := c.toNat
  (9 ≤ n && n ≤ 13) || n == 0x20 || n == 0x85 || n == 0xA0 || n == 0x1680 ||
    (0x2000 ≤ n && n ≤ 0x200A) || n == 0x2028 || n == 0x2029 || n == 0x202F || n == 0x205F ||
    n == 0x3000

/-- Without the white space at both ends. -/
def trim (s : String) : String :=
  String.ofList ((s.toList.dropWhile isWhitespace).reverse.dropWhile isWhitespace).reverse

/-- What stands before the first `sep` and what follows it. -/
def splitOnce (sep : List Char) : List Char → Option (List Char × List Char)
  | [] => if sep.isEmpty then some ([], []) else none
  | c :: cs =>
    if sep.isPrefixOf (c :: cs) then some ([], (c :: cs).drop sep.length)
    else (splitOnce sep cs).map fun (before, after) => (c :: before, after)

/-- `needle` occurs in the text. -/
def contains (s needle : String) : Bool := (splitOnce needle.toList s.toList).isSome

/-- The parts between the separators. -/
def fields (isSep : Char → Bool) : List Char → List (List Char)
  | [] => [[]]
  | c :: cs =>
    if isSep c then [] :: fields isSep cs
    else match fields isSep cs with
      | [] => [[c]]
      | part :: parts => (c :: part) :: parts

theorem eqIgnoreAsciiCase_iff {s t : String} : eqIgnoreAsciiCase s t = true ↔ lower s = lower t := by
  simp [eqIgnoreAsciiCase]

theorem toNat_toLower {c : Char} (h : 65 ≤ c.toNat ∧ c.toNat ≤ 90) :
    c.toLower.toNat = c.toNat + 32 := by
  have hupper : c.val ≥ 'A'.val ∧ c.val ≤ 'Z'.val :=
    ⟨UInt32.le_iff_toNat_le.2 h.1, UInt32.le_iff_toNat_le.2 h.2⟩
  have hval : c.toLower.val = c.val + ('a'.val - 'A'.val) := congrArg Char.val (dif_pos hupper)
  have hshift : ('a'.val - 'A'.val).toNat = 32 := rfl
  show c.toLower.val.toNat = c.toNat + 32
  rw [hval, UInt32.toNat_add, hshift, Char.toNat_val]
  omega

theorem toLower_of_not_upper {c : Char} (h : ¬ (65 ≤ c.toNat ∧ c.toNat ≤ 90)) : c.toLower = c :=
  dif_neg fun hupper =>
    have hlow : 'A'.val.toNat ≤ c.val.toNat := UInt32.le_iff_toNat_le.1 hupper.1
    have hhigh : c.val.toNat ≤ 'Z'.val.toNat := UInt32.le_iff_toNat_le.1 hupper.2
    h ⟨hlow, hhigh⟩

theorem toNat_toUpper {c : Char} (h : 97 ≤ c.toNat ∧ c.toNat ≤ 122) :
    c.toUpper.toNat = c.toNat - 32 := by
  have hlower : 'a'.val ≤ c.val ∧ c.val ≤ 'z'.val :=
    ⟨UInt32.le_iff_toNat_le.2 h.1, UInt32.le_iff_toNat_le.2 h.2⟩
  have hval : c.toUpper.val = c.val + ('A'.val - 'a'.val) := by
    delta Char.toUpper
    rw [dif_pos hlower]
  have hshift : ('A'.val - 'a'.val).toNat = 4294967264 := by decide
  show c.toUpper.val.toNat = c.toNat - 32
  rw [hval, UInt32.toNat_add, hshift, Char.toNat_val]
  omega

theorem toUpper_of_not_lower {c : Char} (h : ¬ (97 ≤ c.toNat ∧ c.toNat ≤ 122)) : c.toUpper = c :=
  dif_neg fun hlower =>
    have hlow : 'a'.val.toNat ≤ c.val.toNat := UInt32.le_iff_toNat_le.1 hlower.1
    have hhigh : c.val.toNat ≤ 'z'.val.toNat := UInt32.le_iff_toNat_le.1 hlower.2
    h ⟨hlow, hhigh⟩

theorem toLower_toLower (c : Char) : c.toLower.toLower = c.toLower := by
  by_cases h : 65 ≤ c.toNat ∧ c.toNat ≤ 90
  case pos =>
    have hlow := toNat_toLower h
    exact toLower_of_not_upper (by omega)
  case neg =>
    rw [toLower_of_not_upper h]
    exact toLower_of_not_upper h

theorem toLower_toUpper (c : Char) : c.toUpper.toLower = c.toLower := by
  by_cases h : 97 ≤ c.toNat ∧ c.toNat ≤ 122
  case pos =>
    have hup := toNat_toUpper h
    have hback := @toNat_toLower c.toUpper (by omega)
    rw [@toLower_of_not_upper c (by omega)]
    exact Char.toNat_inj.1 (by omega)
  case neg => rw [toUpper_of_not_lower h]

@[simp] theorem lower_lower (s : String) : lower (lower s) = lower s := by
  have hcomp : Char.toLower ∘ Char.toLower = Char.toLower := funext toLower_toLower
  simp only [lower, String.toList_ofList, List.map_map, hcomp]

/-- What stands before the first separator, and what stands behind it. -/
theorem split_unique {α : Type} {sep : α} {before before' after after' : List α}
    (h : sep ∉ before) (h' : sep ∉ before')
    (heq : before ++ sep :: after = before' ++ sep :: after') :
    before = before' ∧ after = after' := by
  induction before generalizing before' with
  | nil =>
    cases before' with
    | nil => exact ⟨rfl, (List.cons.inj heq).2⟩
    | cons c cs => exact absurd (List.cons.inj heq).1 fun hc => h' (hc ▸ List.mem_cons_self)
  | cons c cs ih =>
    cases before' with
    | nil => exact absurd (List.cons.inj heq).1 fun hc => h (hc ▸ List.mem_cons_self)
    | cons d ds =>
      obtain ⟨rfl, hrest⟩ := List.cons.inj heq
      obtain ⟨rfl, rfl⟩ := ih (fun hm => h (List.mem_cons_of_mem _ hm))
        (fun hm => h' (List.mem_cons_of_mem _ hm)) hrest
      exact ⟨rfl, rfl⟩

/-! ## Fields -/

theorem fields_of_none {isSep : Char → Bool} {a : List Char} (h : ∀ c ∈ a, isSep c = false) :
    fields isSep a = [a] := by
  induction a with
  | nil => rfl
  | cons c cs ih =>
    rw [fields, h c List.mem_cons_self, if_neg Bool.false_ne_true,
      ih fun d hd => h d (List.mem_cons_of_mem _ hd)]

/-- The first field ends at the first separator. -/
theorem fields_append {isSep : Char → Bool} {a r : List Char} {sep : Char}
    (h : ∀ c ∈ a, isSep c = false) (hsep : isSep sep = true) :
    fields isSep (a ++ sep :: r) = a :: fields isSep r := by
  induction a with
  | nil => rw [List.nil_append, fields, hsep, if_pos rfl]
  | cons c cs ih =>
    rw [List.cons_append, fields, h c List.mem_cons_self, if_neg Bool.false_ne_true,
      ih fun d hd => h d (List.mem_cons_of_mem _ hd)]

theorem takeWhile_append_stop {p : Char → Bool} {a r : List Char} {stop : Char}
    (h : ∀ c ∈ a, p c = true) (hstop : p stop = false) : (a ++ stop :: r).takeWhile p = a := by
  rw [List.takeWhile_append_of_pos h, List.takeWhile_cons, hstop]
  simp

/-- A text with no white space at its ends. -/
theorem trim_of_ends {cs : List Char} (hhead : ∀ c ∈ cs.head?, isWhitespace c = false)
    (hlast : ∀ c ∈ cs.getLast?, isWhitespace c = false) :
    trim (String.ofList cs) = String.ofList cs := by
  have hkeep : ∀ {l : List Char}, (∀ c ∈ l.head?, isWhitespace c = false) →
      l.dropWhile isWhitespace = l := by
    intro l hl
    cases l with
    | nil => rfl
    | cons c l => rw [List.dropWhile_cons, hl c rfl, if_neg Bool.false_ne_true]
  have hback : ∀ c ∈ cs.reverse.head?, isWhitespace c = false := by
    rw [List.head?_reverse]
    exact hlast
  rw [trim, String.toList_ofList, hkeep hhead, hkeep hback, List.reverse_reverse]

/-! ## Decimal numbers -/

def decimalValue (digits : List Char) : Nat :=
  digits.foldl (fun n c => 10 * n + (c.toNat - '0'.toNat)) 0

/-- A number in so many digits. -/
def padded : Nat → Nat → List Char
  | 0, _ => []
  | k + 1, n => padded k (n / 10) ++ [(n % 10).digitChar]

theorem isDigit_of_mem_padded {k n : Nat} {c : Char} (h : c ∈ padded k n) : c.isDigit = true := by
  induction k generalizing n with
  | zero => cases h
  | succ k ih =>
    rcases List.mem_append.1 h with h | h
    · exact ih h
    · rw [List.mem_singleton.1 h, Nat.isDigit_digitChar]
      exact decide_eq_true (by omega)

theorem padded_ne_nil {k n : Nat} (h : 0 < k) : padded k n ≠ [] := by
  cases k with
  | zero => cases h
  | succ k => simp [padded]

theorem decimalValue_padded {k n : Nat} (h : n < 10 ^ k) : decimalValue (padded k n) = n := by
  induction k generalizing n with
  | zero =>
    rw [Nat.pow_zero] at h
    obtain rfl : n = 0 := by omega
    rfl
  | succ k ih =>
    have hfront : decimalValue (padded k (n / 10)) = n / 10 := ih (by omega)
    have hzero : '0'.toNat = 48 := rfl
    rw [decimalValue, padded, List.foldl_append]
    rw [decimalValue] at hfront
    rw [hfront, List.foldl_cons, List.foldl_nil, hzero,
      Nat.toNat_digitChar_sub_48_of_lt_ten (by omega)]
    omega

/-! ## Texts in order -/

theorem append_lt_append {a b s t : List Char} (h : a.length = b.length) :
    a ++ s < b ++ t ↔ a < b ∨ a = b ∧ s < t := by
  induction a generalizing b with
  | nil =>
    obtain rfl := List.length_eq_zero_iff.1 h.symm
    simp
  | cons c a ih =>
    cases b with
    | nil => cases h
    | cons d b =>
      have ih := ih (b := b) (by simpa using h)
      simp only [List.cons_append, List.cons_lt_cons_iff, ih, List.cons.injEq]
      constructor
      · rintro (hcd | ⟨rfl, hab | ⟨rfl, hst⟩⟩)
        · exact .inl (.inl hcd)
        · exact .inl (.inr ⟨rfl, hab⟩)
        · exact .inr ⟨⟨rfl, rfl⟩, hst⟩
      · rintro ((hcd | ⟨rfl, hab⟩) | ⟨⟨rfl, rfl⟩, hst⟩)
        · exact .inl hcd
        · exact .inr ⟨rfl, .inl hab⟩
        · exact .inr ⟨rfl, .inr ⟨rfl, hst⟩⟩

theorem length_padded (k n : Nat) : (padded k n).length = k := by
  induction k generalizing n with
  | zero => rfl
  | succ k ih => rw [padded, List.length_append, ih, List.length_singleton]

theorem padded_add (k j n : Nat) : padded (k + j) n = padded k (n / 10 ^ j) ++ padded j n := by
  induction j generalizing n with
  | zero => simp [padded]
  | succ j ih =>
    rw [← Nat.add_assoc, padded, ih, padded, Nat.div_div_eq_div_mul, Nat.pow_succ, Nat.mul_comm 10,
      List.append_assoc]

theorem padded_of_dvd {j n : Nat} (h : n % 10 ^ j = 0) : ∀ c ∈ padded j n, c = '0' := by
  induction j generalizing n with
  | zero => simp [padded]
  | succ j ih =>
    rw [Nat.pow_succ] at h
    have hlast : n % 10 = 0 := by
      rw [← Nat.mod_mul_left_mod n (10 ^ j) 10, h]
    have hfront : n / 10 % 10 ^ j = 0 := by
      rw [Nat.mul_comm] at h
      rw [← Nat.mod_mul_right_div_self, h, Nat.zero_div]
    intro c hc
    rcases List.mem_append.1 hc with hc | hc
    · exact ih hfront c hc
    · rw [List.mem_singleton.1 hc, hlast]
      rfl

theorem digitChar_lt {m n : Nat} (hn : n < 10) (h : m < n) : m.digitChar < n.digitChar := by
  have hall : ∀ n : Fin 10, ∀ m : Fin n.val, m.val.digitChar < n.val.digitChar := by decide
  exact hall ⟨n, hn⟩ ⟨m, h⟩

/-- Numbers of one width stand in order. -/
theorem padded_lt {k m n : Nat} (hn : n < 10 ^ k) (h : m < n) : padded k m < padded k n := by
  induction k generalizing m n with
  | zero =>
    rw [Nat.pow_zero] at hn
    omega
  | succ k ih =>
    rw [Nat.pow_succ] at hn
    rw [padded, padded, append_lt_append (by rw [length_padded, length_padded])]
    by_cases hdiv : m / 10 = n / 10
    · refine .inr ⟨by rw [hdiv], List.cons_lt_cons_iff.2 (.inl ?_)⟩
      exact digitChar_lt (Nat.mod_lt n (by decide)) (by omega)
    · exact .inl (ih (by omega) (by omega))

/-- Digits: nothing is before `0`. -/
def Digits (l : List Char) : Prop := ∀ c ∈ l, '0' ≤ c

theorem Digits.tail {c : Char} {l : List Char} (h : Digits (c :: l)) : Digits l :=
  fun d hd => h d (List.mem_cons_of_mem _ hd)

theorem not_lt_zeros {l l' : List Char} (hlen : l.length = l'.length) (hl : Digits l)
    (hzero : ∀ c ∈ l', c = '0') : ¬ l < l' := by
  induction l generalizing l' with
  | nil =>
    obtain rfl := List.length_eq_zero_iff.1 hlen.symm
    simp
  | cons a l ih =>
    cases l' with
    | nil => cases hlen
    | cons b l' =>
      obtain rfl := hzero b List.mem_cons_self
      rw [List.cons_lt_cons_iff]
      rintro (hlt | ⟨-, hlt⟩)
      · exact absurd hlt (Char.not_lt.2 (hl a List.mem_cons_self))
      · exact ih (by simpa using hlen) hl.tail (fun c hc => hzero c (List.mem_cons_of_mem _ hc)) hlt

/-- Digits stand in order also when zeros at their end are left out, if what follows them then is
before all digits. -/
theorem take_lt_take {l l' s s' : List Char} {stop : Char} {i j : Nat} (hstop : stop < '0')
    (hlen : l.length = l'.length) (hl : Digits l) (hl' : Digits l')
    (hi : ∀ c ∈ l.drop i, c = '0') (hj : ∀ c ∈ l'.drop j, c = '0') (h : l < l') :
    l.take i ++ stop :: s < l'.take j ++ stop :: s' := by
  induction l generalizing l' i j with
  | nil =>
    obtain rfl := List.length_eq_zero_iff.1 hlen.symm
    simp at h
  | cons a l ih =>
    cases l' with
    | nil => cases hlen
    | cons b l' =>
      have hb : stop < b := Std.lt_of_lt_of_le hstop (hl' b List.mem_cons_self)
      obtain ⟨j, rfl⟩ : ∃ j', j = j' + 1 := by
        refine Nat.exists_eq_succ_of_ne_zero ?_
        rintro rfl
        exact not_lt_zeros hlen hl hj h
      cases i with
      | zero =>
        rw [List.take_zero, List.nil_append, List.take_succ_cons, List.cons_append]
        exact List.cons_lt_cons_iff.2 (.inl hb)
      | succ i =>
        rw [List.take_succ_cons, List.take_succ_cons, List.cons_append, List.cons_append,
          List.cons_lt_cons_iff]
        rcases List.cons_lt_cons_iff.1 h with hlt | ⟨rfl, hlt⟩
        · exact .inl hlt
        · exact .inr ⟨rfl, ih (by simpa using hlen) hl.tail hl'.tail hi hj hlt⟩

end Text
