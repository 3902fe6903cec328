import Mathlib.Algebra.GroupWithZero.Nat
import Mathlib.Data.List.Infix
import Mathlib.Data.List.TakeWhile
import StarStats.Lib.Text

/-!
# Where a text occurs

* `Text.contains_iff`, `Text.splitOnce_append`: searching and splitting in terms of occurrences.
* `Text.infix_append_cons`: an occurrence does not reach over a character that it does not have.
* `Text.occurrence_append_cons`: the same with what stands before and behind the occurrence.
* `Text.splitAtByte_append`, `Text.splitAtByte_ascii`, `Text.exists_splitAtByte_none`: at which
  bytes a text can be split.
* `Text.splitFirst_eq_iff`: what stands before the first separator.
* `Text.fields_flatMap`: splitting the fields again at a finer separator.
-/

namespace Text

theorem splitOnce_isSome {sep s : List Char} : (splitOnce sep s).isSome = true ↔ sep <:+: s := by
  induction s with
  | nil => cases sep <;> simp [splitOnce]
  | cons c cs ih =>
    rw [splitOnce, List.infix_cons_iff, ← List.isPrefixOf_iff_prefix]
    split
    case isTrue h => exact iff_of_true rfl (.inl h)
    case isFalse h =>
      rw [Option.isSome_map, ih]
      exact ⟨.inr, fun hor => hor.resolve_left h⟩

theorem contains_iff {s needle : String} :
    contains s needle = true ↔ needle.toList <:+: s.toList := splitOnce_isSome

/-- The first separator is found behind a text that has no character of it. -/
theorem splitOnce_append {sep before after : List Char} (hsep : sep ≠ [])
    (h : ∀ c ∈ before, c ∉ sep) : splitOnce sep (before ++ sep ++ after) =
      some (before, after) := by
  obtain ⟨d, ds, rfl⟩ := List.exists_cons_of_ne_nil hsep
  induction before with
  | nil =>
    have hpre : (d :: ds).isPrefixOf (d :: (ds ++ after)) = true :=
      List.isPrefixOf_iff_prefix.2 ⟨after, rfl⟩
    simp [splitOnce, hpre]
  | cons c cs ih =>
    have hne : d ≠ c := fun heq => h c List.mem_cons_self (heq ▸ List.mem_cons_self)
    have hpre : (d :: ds).isPrefixOf (c :: (cs ++ (d :: ds) ++ after)) = false := by
      simp [List.isPrefixOf, hne]
    rw [List.append_assoc, List.cons_append, splitOnce, ← List.append_assoc, hpre,
      if_neg Bool.false_ne_true, ih fun c hc => h c (List.mem_cons_of_mem _ hc)]
    rfl

/-- What stands at the front of `u ++ c :: v` and does not have `c` ends in `u`. -/
theorem prefix_append_cons {α : Type} {p u v : List α} {c : α} (hc : c ∉ p)
    (h : p <+: u ++ c :: v) : p <+: u := by
  obtain ⟨t, ht⟩ := h
  rcases List.append_eq_append_iff.1 ht with ⟨r, rfl, -⟩ | ⟨r, rfl, hr⟩
  · exact ⟨r, rfl⟩
  · cases r with
    | nil => exact ⟨[], by simp⟩
    | cons d r =>
      obtain ⟨rfl, -⟩ := List.cons.inj hr
      exact absurd (by simp) hc

/-- No occurrence of a text reaches over a character that the text does not have. -/
theorem infix_append_cons {α : Type} {p u v : List α} {c : α} (hc : c ∉ p) :
    p <:+: u ++ c :: v ↔ p <:+: u ∨ p <:+: v := by
  constructor
  · intro h
    induction u with
    | nil =>
      rcases List.infix_cons_iff.1 h with h | h
      · exact .inl (prefix_append_cons hc (u := []) h).isInfix
      · exact .inr h
    | cons d u ih =>
      rcases List.infix_cons_iff.1 h with h | h
      · exact .inl (prefix_append_cons hc (u := d :: u) h).isInfix
      · exact (ih h).imp_left List.infix_cons
  · rintro (h | h)
    · exact h.trans (List.prefix_append _ _).isInfix
    · exact h.trans ((List.suffix_cons c v).trans (List.suffix_append _ _)).isInfix

/-- An occurrence of a text in `u ++ c :: v` stands in `u` or in `v`, if the text does not have
`c`. -/
theorem occurrence_append_cons {α : Type} {w u v b t : List α} {c : α} (hc : c ∉ w)
    (h : u ++ c :: v = b ++ (w ++ t)) :
    (∃ t', u = b ++ (w ++ t') ∧ t = t' ++ c :: v) ∨
      ∃ b', b = u ++ c :: b' ∧ v = b' ++ (w ++ t) := by
  rcases List.append_eq_append_iff.1 h with ⟨a, rfl, ha⟩ | ⟨a, rfl, ha⟩
  · cases a with
    | nil =>
      cases w with
      | nil => exact .inl ⟨[], by simp, by simpa using ha.symm⟩
      | cons d w =>
        obtain ⟨rfl, -⟩ := List.cons.inj ha
        exact absurd List.mem_cons_self hc
    | cons d a =>
      obtain ⟨rfl, hv⟩ := List.cons.inj ha
      exact .inr ⟨a, rfl, hv⟩
  · obtain ⟨t', rfl⟩ := prefix_append_cons hc (⟨t, ha⟩ : w <+: a ++ c :: v)
    refine .inl ⟨t', rfl, ?_⟩
    rw [List.append_assoc] at ha
    exact List.append_cancel_left ha

/-! ## Fields -/

theorem exists_fields_eq_cons (isSep : Char → Bool) (s : List Char) :
    ∃ part parts, fields isSep s = part :: parts := by
  cases s with
  | nil => exact ⟨_, _, rfl⟩
  | cons c cs =>
    rw [fields]
    split
    · exact ⟨_, _, rfl⟩
    · split <;> exact ⟨_, _, rfl⟩

/-- A character that is no separator belongs to the first field. -/
theorem fields_cons_of_not {isSep : Char → Bool} {c : Char} {cs part : List Char}
    {parts : List (List Char)} (hc : isSep c = false) (h : fields isSep cs = part :: parts) :
    fields isSep (c :: cs) = (c :: part) :: parts := by
  rw [fields, hc, if_neg Bool.false_ne_true, h]

theorem fields_cons_of_sep {isSep : Char → Bool} {c : Char} {cs : List Char} (hc : isSep c = true) :
    fields isSep (c :: cs) = [] :: fields isSep cs := by rw [fields, if_pos hc]

/-- No field has a separator. -/
theorem not_sep_of_mem_fields {isSep : Char → Bool} {s part : List Char}
    (h : part ∈ fields isSep s) {c : Char} (hc : c ∈ part) : isSep c = false := by
  induction s generalizing part with
  | nil =>
    rw [fields, List.mem_singleton] at h
    rw [h] at hc
    cases hc
  | cons d ds ih =>
    cases hd : isSep d with
    | true =>
      rw [fields_cons_of_sep hd] at h
      rcases List.mem_cons.1 h with rfl | h
      · cases hc
      · exact ih h hc
    | false =>
      obtain ⟨first, rest, hfields⟩ := exists_fields_eq_cons isSep ds
      rw [fields_cons_of_not hd hfields] at h
      rcases List.mem_cons.1 h with rfl | h
      · rcases List.mem_cons.1 hc with rfl | hc
        · exact hd
        · exact ih (hfields ▸ List.mem_cons_self) hc
      · exact ih (hfields ▸ List.mem_cons_of_mem _ h) hc

/-- The characters of the fields are the text's. -/
theorem mem_of_mem_fields {isSep : Char → Bool} {s part : List Char} (h : part ∈ fields isSep s)
    {c : Char} (hc : c ∈ part) : c ∈ s := by
  induction s generalizing part with
  | nil =>
    rw [fields, List.mem_singleton] at h
    exact h ▸ hc
  | cons d ds ih =>
    cases hd : isSep d with
    | true =>
      rw [fields_cons_of_sep hd] at h
      rcases List.mem_cons.1 h with rfl | h
      · cases hc
      · exact List.mem_cons_of_mem _ (ih h hc)
    | false =>
      obtain ⟨first, rest, hfields⟩ := exists_fields_eq_cons isSep ds
      rw [fields_cons_of_not hd hfields] at h
      rcases List.mem_cons.1 h with rfl | h
      · rcases List.mem_cons.1 hc with rfl | hc
        · exact List.mem_cons_self
        · exact List.mem_cons_of_mem _ (ih (hfields ▸ List.mem_cons_self) hc)
      · exact List.mem_cons_of_mem _ (ih (hfields ▸ List.mem_cons_of_mem _ h) hc)

theorem fields_of_not_sep {isSep : Char → Bool} {s : List Char} (h : ∀ c ∈ s, isSep c = false) :
    fields isSep s = [s] := by
  induction s with
  | nil => rfl
  | cons c cs ih =>
    exact fields_cons_of_not (h c List.mem_cons_self) (ih fun d hd => h d (List.mem_cons_of_mem _ hd))

theorem mem_field_of_mem (isSep : Char → Bool) {s : List Char} {c : Char} (hc : c ∈ s)
    (hsep : isSep c = false) : ∃ part ∈ fields isSep s, c ∈ part := by
  induction s with
  | nil => cases hc
  | cons d ds ih =>
    cases hd : isSep d with
    | true =>
      rw [fields_cons_of_sep hd]
      rcases List.mem_cons.1 hc with rfl | hc
      · rw [hsep] at hd
        cases hd
      · obtain ⟨part, hpart, hmem⟩ := ih hc
        exact ⟨part, List.mem_cons_of_mem _ hpart, hmem⟩
    | false =>
      obtain ⟨first, rest, hfields⟩ := exists_fields_eq_cons isSep ds
      rw [fields_cons_of_not hd hfields]
      rcases List.mem_cons.1 hc with rfl | hc
      · exact ⟨_, List.mem_cons_self, List.mem_cons_self⟩
      · obtain ⟨part, hpart, hmem⟩ := ih hc
        rw [hfields] at hpart
        rcases List.mem_cons.1 hpart with rfl | hpart
        · exact ⟨_, List.mem_cons_self, List.mem_cons_of_mem _ hmem⟩
        · exact ⟨part, List.mem_cons_of_mem _ hpart, hmem⟩

/-- `split(isSep).next().unwrap_or("")`. -/
def splitFirst (isSep : Char → Bool) (s : List Char) : List Char := (fields isSep s).headD []

theorem splitFirst_eq_takeWhile (isSep : Char → Bool) (s : List Char) :
    splitFirst isSep s = s.takeWhile (!isSep ·) := by
  induction s with
  | nil => rfl
  | cons c cs ih =>
    obtain ⟨part, parts, hparts⟩ := exists_fields_eq_cons isSep cs
    cases hc : isSep c with
    | true =>
      rw [splitFirst, fields_cons_of_sep hc]
      simp [hc]
    | false =>
      rw [splitFirst, hparts] at ih
      rw [splitFirst, fields_cons_of_not hc hparts]
      simp only [List.headD_cons] at ih ⊢
      simp [hc, ih]

/-- What stops at a separator is followed by one or by nothing. -/
theorem splitFirst_eq_iff {isSep : Char → Bool} {s h : List Char} :
    splitFirst isSep s = h ↔
      (∀ c ∈ h, isSep c = false) ∧ ∃ r, s = h ++ r ∧ ∀ c ∈ r.head?, isSep c = true := by
  rw [splitFirst_eq_takeWhile]
  constructor
  · rintro rfl
    refine ⟨fun c hc => by simpa using List.mem_takeWhile_imp hc, s.dropWhile (!isSep ·),
      (List.takeWhile_append_dropWhile).symm, fun c hc => ?_⟩
    have hne := List.ne_nil_of_mem (List.mem_of_mem_head? hc)
    have := List.head_dropWhile_not (!isSep ·) hne
    rw [List.head?_eq_some_head hne] at hc
    rw [← Option.some.inj hc]
    simpa using this
  · rintro ⟨hh, r, rfl, hr⟩
    rw [List.takeWhile_append_of_pos fun c hc => by simp [hh c hc]]
    cases r with
    | nil => simp
    | cons c r => simp [hr c rfl]

theorem splitFirst_append {isSep : Char → Bool} {h : List Char} (hh : ∀ c ∈ h, isSep c = false)
    (r : List Char) : splitFirst isSep (h ++ r) = h ++ splitFirst isSep r := by
  rw [splitFirst_eq_takeWhile, List.takeWhile_append_of_pos fun c hc => by simp [hh c hc],
    splitFirst_eq_takeWhile]

/-- Joining the fields gives the text back. -/
theorem intercalate_fields (sep : Char) (s : List Char) :
    [sep].intercalate (fields (· == sep) s) = s := by
  induction s with
  | nil => exact List.intercalate_singleton
  | cons c cs ih =>
    obtain ⟨part, parts, hparts⟩ := exists_fields_eq_cons (· == sep) cs
    cases hc : c == sep with
    | true =>
      have hne : fields (· == sep) cs ≠ [] := by simp [hparts]
      rw [@fields_cons_of_sep (· == sep) c cs hc, List.intercalate_cons_of_ne_nil hne, ih,
        eq_of_beq hc]
      rfl
    | false =>
      rw [@fields_cons_of_not (· == sep) c cs part parts hc hparts, List.intercalate_cons_cons_left,
        ← hparts, ih]

/-- The fields of joined texts are the texts. -/
theorem fields_intercalate {sep : Char} {parts : List (List Char)} (hne : parts ≠ [])
    (h : ∀ part ∈ parts, sep ∉ part) : fields (· == sep) ([sep].intercalate parts) = parts := by
  have hno {part : List Char} (hpart : sep ∉ part) : ∀ c ∈ part, (c == sep) = false := by
    intro c hc
    exact beq_eq_false_iff_ne.2 fun heq => hpart (heq ▸ hc)
  induction parts with
  | nil => exact absurd rfl hne
  | cons part parts ih =>
    rw [List.forall_mem_cons] at h
    cases parts with
    | nil => rw [List.intercalate_singleton, fields_of_not_sep (hno h.1)]
    | cons next parts =>
      rw [List.intercalate_cons_cons, List.append_assoc, List.singleton_append,
        fields_append (hno h.1) (beq_self_eq_true sep), ih (List.cons_ne_nil _ _) h.2]

/-- The fields of the fields, at a finer separator. -/
theorem fields_flatMap {isSep isBreak : Char → Bool} (h : ∀ c, isSep c = true → isBreak c = true)
    (s : List Char) : (fields isSep s).flatMap (fields isBreak) = fields isBreak s := by
  induction s with
  | nil => rfl
  | cons c cs ih =>
    obtain ⟨part, parts, hparts⟩ := exists_fields_eq_cons isSep cs
    obtain ⟨w, ws, hw⟩ := exists_fields_eq_cons isBreak part
    have hcs : fields isBreak cs = w :: (ws ++ parts.flatMap (fields isBreak)) := by
      rw [← ih, hparts, List.flatMap_cons, hw, List.cons_append]
    cases hsep : isSep c with
    | true =>
      rw [fields_cons_of_sep hsep, fields_cons_of_sep (h c hsep), List.flatMap_cons, ih]
      rfl
    | false =>
      rw [fields_cons_of_not hsep hparts, List.flatMap_cons]
      cases hbreak : isBreak c with
      | true => rw [fields_cons_of_sep hbreak, fields_cons_of_sep hbreak, hcs, hw]; rfl
      | false => rw [fields_cons_of_not hbreak hw, fields_cons_of_not hbreak hcs]; rfl

/-! ## Byte offsets -/

/-- The bytes of a text in UTF-8. -/
def byteLength (s : List Char) : Nat := (s.map Char.utf8Size).sum

theorem byteLength_toList (s : String) : byteLength s.toList = s.utf8ByteSize := by
  conv_rhs => rw [← String.ofList_toList (s := s), String.utf8ByteSize]
  simp [String.ofList, List.utf8Encode, List.length_flatMap, byteLength]

/-- `str::split_at`; there is nothing inside a character or past the end. -/
def splitAtByte : List Char → Nat → Option (List Char × List Char)
  | s, 0 => some ([], s)
  | [], _ + 1 => none
  | c :: cs, n + 1 =>
    if c.utf8Size ≤ n + 1 then
      (splitAtByte cs (n + 1 - c.utf8Size)).map fun x => (c :: x.1, x.2)
    else none

theorem splitAtByte_cons (c : Char) (cs : List Char) (n : Nat) :
    splitAtByte (c :: cs) (c.utf8Size + n) =
      (splitAtByte cs n).map fun x => (c :: x.1, x.2) := by
  have hpos := c.utf8Size_pos
  obtain ⟨k, hk⟩ : ∃ k, c.utf8Size + n = k + 1 := ⟨c.utf8Size + n - 1, by omega⟩
  rw [hk, splitAtByte, if_pos (by omega), show k + 1 - c.utf8Size = n by omega]

/-- A text can be split between two characters. -/
theorem splitAtByte_append (a b : List Char) :
    splitAtByte (a ++ b) (byteLength a) = some (a, b) := by
  induction a with
  | nil => cases b <;> rfl
  | cons c a ih =>
    rw [byteLength, List.map_cons, List.sum_cons, List.cons_append, splitAtByte_cons]
    exact congrArg (Option.map _) ih

theorem eq_of_splitAtByte {s a b : List Char} {n : Nat} (h : splitAtByte s n = some (a, b)) :
    s = a ++ b := by
  induction s generalizing n a with
  | nil =>
    cases n with
    | zero =>
      obtain ⟨rfl, rfl⟩ := Prod.mk.inj (Option.some.inj h)
      rfl
    | succ n => cases h
  | cons c cs ih =>
    cases n with
    | zero =>
      obtain ⟨rfl, rfl⟩ := Prod.mk.inj (Option.some.inj h)
      rfl
    | succ n =>
      rw [splitAtByte] at h
      split at h
      case isTrue =>
        obtain ⟨x, hx, heq⟩ := Option.map_eq_some_iff.1 h
        obtain ⟨rfl, rfl⟩ := Prod.mk.inj heq
        rw [ih hx]
        rfl
      case isFalse => cases h

theorem byteLength_ascii {s : List Char} (h : ∀ c ∈ s, c.utf8Size = 1) :
    byteLength s = s.length := by
  rw [byteLength, List.map_congr_left h]
  simp

/-- A text of characters of one byte can be split anywhere. -/
theorem splitAtByte_ascii {s : List Char} (h : ∀ c ∈ s, c.utf8Size = 1) {n : Nat}
    (hn : n ≤ s.length) : splitAtByte s n = some (s.take n, s.drop n) := by
  have hlen : byteLength (s.take n) = n := by
    rw [byteLength_ascii fun c hc => h c (List.mem_of_mem_take hc), List.length_take_of_le hn]
  have hsplit := splitAtByte_append (s.take n) (s.drop n)
  rwa [List.take_append_drop, hlen] at hsplit

/-- A text with a longer character cannot be split everywhere. -/
theorem exists_splitAtByte_none {s : List Char} (h : ∃ c ∈ s, c.utf8Size ≠ 1) :
    ∃ n, 0 < n ∧ n < byteLength s ∧ splitAtByte s n = none := by
  induction s with
  | nil =>
    obtain ⟨c, hc, -⟩ := h
    cases hc
  | cons c cs ih =>
    have hpos := c.utf8Size_pos
    have hlen : byteLength (c :: cs) = c.utf8Size + byteLength cs := List.sum_cons
    by_cases hc : c.utf8Size = 1
    case neg => exact ⟨1, by omega, by omega, by rw [splitAtByte, if_neg (by omega)]⟩
    case pos =>
      obtain ⟨d, hd, hne⟩ := h
      rcases List.mem_cons.1 hd with rfl | hd
      · exact absurd hc hne
      · obtain ⟨n, hn, hlt, hnone⟩ := ih ⟨d, hd, hne⟩
        exact ⟨c.utf8Size + n, by omega, by omega, by rw [splitAtByte_cons, hnone]; rfl⟩

end Text
