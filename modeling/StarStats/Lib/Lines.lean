import Mathlib.Data.List.Basic
import Mathlib.Data.List.Nodup

/-!
# Lines

A list cut after each separator. `split` gives the complete lines, each with its separator, and
the rest after the last; `line_induction` is the induction over them. `withStarts` puts beside each
line where it starts, and `mem_withStarts_split` says that these are the lines of the list, each
once (`withStarts_increasing`). `split_append` is for a list that was cut at the end of a line.
-/

namespace Lines

variable {α : Type*}

/-- The complete lines, and what follows the last of them. -/
def split [DecidableEq α] (sep : α) : List α → List (List α) × List α
  | [] => ([], [])
  | a :: as =>
    if a = sep then ([a] :: (split sep as).1, (split sep as).2)
    else
      match split sep as with
      | ([], tail) => ([], a :: tail)
      | (l :: ls, tail) => ((a :: l) :: ls, tail)

/-- Each line with the place of its first element, the first line starting at `n`. -/
def withStarts (n : Nat) : List (List α) → List (List α × Nat)
  | [] => []
  | l :: ls => (l, n) :: withStarts (n + l.length) ls

/-- Nothing of a line is at the end of the list. -/
def AtLineEnd (sep : α) (xs : List α) : Prop := xs = [] ∨ ∃ body, xs = body ++ [sep]

/-- `raw` is a complete line of `xs` and starts at `start`. -/
def IsLine (sep : α) (xs raw : List α) (start : Nat) : Prop :=
  ∃ before after, xs = before ++ (raw ++ after) ∧ before.length = start ∧ AtLineEnd sep before ∧
    ∃ body, raw = body ++ [sep] ∧ sep ∉ body

variable {sep : α}

theorem atLineEnd_flatten {ls : List (List α)} (h : ∀ l ∈ ls, ∃ body, l = body ++ [sep]) :
    AtLineEnd sep ls.flatten := by
  rcases List.eq_nil_or_concat ls with rfl | ⟨ms, m, rfl⟩
  · exact .inl rfl
  · obtain ⟨body, rfl⟩ := h m (by simp)
    exact .inr ⟨ms.flatten ++ body, by simp⟩

/-! ## Splitting -/

section
variable [DecidableEq α]

theorem split_tail {tail : List α} (h : sep ∉ tail) : split sep tail = ([], tail) := by
  induction tail with
  | nil => rfl
  | cons a as ih =>
    simp only [List.mem_cons, not_or] at h
    simp only [split, if_neg (Ne.symm h.1), ih h.2]

theorem split_line {body : List α} (h : sep ∉ body) (rest : List α) :
    split sep (body ++ sep :: rest) =
      ((body ++ [sep]) :: (split sep rest).1, (split sep rest).2) := by
  induction body with
  | nil => simp [split]
  | cons a as ih =>
    simp only [List.mem_cons, not_or] at h
    simp only [List.cons_append, split, if_neg (Ne.symm h.1), ih h.2]

theorem exists_line {xs : List α} (h : sep ∈ xs) :
    ∃ body rest, xs = body ++ sep :: rest ∧ sep ∉ body := by
  induction xs with
  | nil => cases h
  | cons a as ih =>
    by_cases ha : a = sep
    · subst ha
      exact ⟨[], as, rfl, by simp⟩
    · obtain ⟨body, rest, rfl, hbody⟩ := ih ((List.mem_cons.1 h).resolve_left (Ne.symm ha))
      exact ⟨a :: body, rest, rfl, by simp [Ne.symm ha, hbody]⟩

/-- Induction over the lines, from the last. -/
theorem line_induction (sep : α) {motive : List α → Prop} (tail : ∀ t, sep ∉ t → motive t)
    (line : ∀ body rest, sep ∉ body → motive rest → motive (body ++ sep :: rest))
    (xs : List α) : motive xs := by
  induction h : xs.length using Nat.strongRecOn generalizing xs with
  | _ n ih =>
    by_cases hsep : sep ∈ xs
    · obtain ⟨body, rest, rfl, hbody⟩ := exists_line hsep
      refine line body rest hbody (ih rest.length ?_ rest rfl)
      simp only [List.length_append, List.length_cons] at h
      omega
    · exact tail xs hsep

theorem split_join (sep : α) (xs : List α) :
    (split sep xs).1.flatten ++ (split sep xs).2 = xs := by
  induction xs using line_induction sep with
  | tail t h => simp [split_tail h]
  | line body rest h ih =>
    rw [split_line h, List.flatten_cons, List.append_assoc, ih]
    simp

theorem mem_split {xs l : List α} (hl : l ∈ (split sep xs).1) :
    ∃ body, l = body ++ [sep] ∧ sep ∉ body := by
  induction xs using line_induction sep with
  | tail t h => simp [split_tail h] at hl
  | line body rest h ih =>
    rw [split_line h] at hl
    rcases List.mem_cons.1 hl with rfl | hl
    · exact ⟨body, rfl, h⟩
    · exact ih hl

theorem not_mem_split_tail (sep : α) (xs : List α) : sep ∉ (split sep xs).2 := by
  induction xs using line_induction sep with
  | tail t h => rwa [split_tail h]
  | line body rest h ih => rwa [split_line h]

/-- Nothing is left over exactly at the end of a line. -/
theorem split_tail_eq_nil {xs : List α} : (split sep xs).2 = [] ↔ AtLineEnd sep xs := by
  constructor
  · intro h
    have hjoin := split_join sep xs
    rw [h, List.append_nil] at hjoin
    rcases List.eq_nil_or_concat (split sep xs).1 with hnil | ⟨ls, l, hls⟩
    · left
      rw [← hjoin, hnil, List.flatten_nil]
    · obtain ⟨body, rfl, -⟩ := @mem_split _ sep _ xs l (by rw [hls]; simp)
      right
      refine ⟨ls.flatten ++ body, ?_⟩
      rw [← hjoin, hls]
      simp
  · rintro (rfl | ⟨body, rfl⟩)
    · rfl
    · induction body using line_induction sep with
      | tail t h => rw [split_line h]; rfl
      | line body rest h ih =>
        rw [List.append_assoc, List.cons_append, split_line h]
        exact ih

/-- A list cut at the end of a line. -/
theorem split_append {xs : List α} (h : AtLineEnd sep xs) (ys : List α) :
    split sep (xs ++ ys) = ((split sep xs).1 ++ (split sep ys).1, (split sep ys).2) := by
  have htail := split_tail_eq_nil.2 h
  clear h
  induction xs using line_induction sep with
  | tail t ht =>
    rw [split_tail ht] at htail
    obtain rfl : t = [] := htail
    rfl
  | line body rest hb ih =>
    rw [split_line hb] at htail
    rw [List.append_assoc, List.cons_append, split_line hb, ih htail, split_line hb]
    rfl

end

/-! ## Where lines start -/

theorem withStarts_append (n : Nat) (ls ms : List (List α)) :
    withStarts n (ls ++ ms) = withStarts n ls ++ withStarts (n + ls.flatten.length) ms := by
  induction ls generalizing n with
  | nil => rfl
  | cons l ls ih =>
    simp only [List.cons_append, withStarts, ih, List.flatten_cons, List.length_append,
      Nat.add_assoc]

theorem mem_withStarts {n start : Nat} {raw : List α} {ls : List (List α)} :
    (raw, start) ∈ withStarts n ls ↔
      ∃ before after, ls = before ++ raw :: after ∧ start = n + before.flatten.length := by
  constructor
  · intro h
    induction ls generalizing n with
    | nil => cases h
    | cons l ls ih =>
      rcases List.mem_cons.1 h with heq | h
      · obtain ⟨rfl, rfl⟩ := Prod.ext_iff.1 heq
        exact ⟨[], ls, rfl, rfl⟩
      · obtain ⟨before, after, rfl, rfl⟩ := ih h
        refine ⟨l :: before, after, rfl, ?_⟩
        rw [List.flatten_cons, List.length_append, Nat.add_assoc]
  · rintro ⟨before, after, rfl, rfl⟩
    rw [withStarts_append]
    exact List.mem_append_right _ List.mem_cons_self

theorem withStarts_le {n : Nat} {ls : List (List α)} {x : List α × Nat}
    (h : x ∈ withStarts n ls) : n ≤ x.2 := by
  obtain ⟨before, after, -, hx⟩ := mem_withStarts.1 (show (x.1, x.2) ∈ withStarts n ls from h)
  omega

/-- Each line starts after those before it. -/
theorem withStarts_increasing {ls : List (List α)} (hne : ∀ l ∈ ls, l ≠ []) (n : Nat) :
    (withStarts n ls).Pairwise fun x y => x.2 < y.2 := by
  induction ls generalizing n with
  | nil => exact .nil
  | cons l ls ih =>
    obtain ⟨hl, hls⟩ := List.forall_mem_cons.1 hne
    refine List.pairwise_cons.2 ⟨?_, ih hls _⟩
    intro x hx
    have hlen := List.length_pos_of_ne_nil hl
    have hle := withStarts_le hx
    dsimp only
    omega

section
variable [DecidableEq α]

theorem split_ne_nil {xs l : List α} (hl : l ∈ (split sep xs).1) : l ≠ [] := by
  obtain ⟨body, rfl, -⟩ := mem_split hl
  simp

theorem length_split_flatten {xs : List α} (h : AtLineEnd sep xs) :
    (split sep xs).1.flatten.length = xs.length := by
  have hjoin := split_join sep xs
  rw [split_tail_eq_nil.2 h, List.append_nil] at hjoin
  rw [hjoin]

/-- The lines with their starts are the complete lines of the list. -/
theorem mem_withStarts_split {xs raw : List α} {start : Nat} :
    (raw, start) ∈ withStarts 0 (split sep xs).1 ↔ IsLine sep xs raw start := by
  constructor
  · intro h
    obtain ⟨before, after, hls, hstart⟩ := mem_withStarts.1 h
    have hraw : raw ∈ (split sep xs).1 := by rw [hls]; simp
    refine ⟨before.flatten, after.flatten ++ (split sep xs).2, ?_, by omega, ?_, mem_split hraw⟩
    · calc xs = (split sep xs).1.flatten ++ (split sep xs).2 := (split_join sep xs).symm
        _ = before.flatten ++ (raw ++ (after.flatten ++ (split sep xs).2)) := by
          rw [hls]
          simp
    · apply atLineEnd_flatten
      intro l hl
      obtain ⟨body, rfl, -⟩ := @mem_split _ sep _ xs l (by rw [hls]; simp [hl])
      exact ⟨body, rfl⟩
  · rintro ⟨before, after, rfl, rfl, hend, body, rfl, hbody⟩
    rw [split_append hend, List.append_assoc, List.singleton_append, split_line hbody]
    refine mem_withStarts.2 ⟨(split sep before).1, (split sep after).1, rfl, ?_⟩
    rw [length_split_flatten hend, Nat.zero_add]

/-- The lines before the end of a line, and those after it. -/
theorem withStarts_split_cut {xs : List α} {n : Nat} (hn : n ≤ xs.length)
    (h : AtLineEnd sep (xs.take n)) (k : Nat) :
    withStarts k (split sep xs).1 =
      withStarts k (split sep (xs.take n)).1 ++ withStarts (k + n) (split sep (xs.drop n)).1 := by
  conv_lhs => rw [← List.take_append_drop n xs]
  rw [split_append h, withStarts_append, length_split_flatten h, List.length_take,
    Nat.min_eq_left hn]

end

end Lines
