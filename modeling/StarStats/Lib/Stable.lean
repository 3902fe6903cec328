import Mathlib.Data.List.Sort

/-!
# Sorting by a preorder

A stable sort commutes with a filter (`filter_insertionSort`), and a sorted list is known from its
elements of each rank, in their order (`eq_of_filter_ties`). A fold does not notice the sort when
the elements that change places commute (`foldl_insertionSort`).
-/

namespace Stable

variable {α : Type*} {r : α → α → Prop} [DecidableRel r]

theorem filter_orderedInsert (htrans : ∀ a b c, r a b → r b c → r a c) (p : α → Bool) (a : α)
    {l : List α} (h : l.Pairwise r) :
    (l.orderedInsert r a).filter p =
      if p a then (l.filter p).orderedInsert r a else l.filter p := by
  induction l with
  | nil => cases hp : p a <;> simp [hp]
  | cons b l ih =>
    obtain ⟨hb, hl⟩ := List.pairwise_cons.1 h
    by_cases hab : r a b
    · -- everything in the list is behind the new element
      rw [List.orderedInsert_cons_of_le r l hab]
      cases hp : p a with
      | false => simp [hp]
      | true =>
        rw [List.filter_cons_of_pos hp, if_pos rfl]
        have hall : ∀ c ∈ (b :: l).filter p, r a c := by
          intro c hc
          rcases List.mem_cons.1 (List.mem_filter.1 hc).1 with rfl | hc
          · exact hab
          · exact htrans a b c hab (hb c hc)
        generalize (b :: l).filter p = rest at hall
        cases rest with
        | nil => rfl
        | cons c rest =>
          exact (List.orderedInsert_cons_of_le r rest (hall c List.mem_cons_self)).symm
    · rw [List.orderedInsert_of_not_le r l hab, List.filter_cons, ih hl]
      cases hp : p b with
      | false => simp [hp]
      | true =>
        cases hpa : p a with
        | false => simp [hp]
        | true => simp [hp, List.orderedInsert_of_not_le r _ hab]

/-- A stable sort commutes with a filter. -/
theorem filter_insertionSort (htrans : ∀ a b c, r a b → r b c → r a c) (htotal : ∀ a b, r a b ∨ r b a)
    (p : α → Bool) (l : List α) :
    (l.insertionSort r).filter p = (l.filter p).insertionSort r := by
  have : Std.Total r := ⟨htotal⟩
  have : IsTrans α r := ⟨htrans⟩
  induction l with
  | nil => rfl
  | cons a l ih =>
    rw [List.insertionSort_cons, filter_orderedInsert htrans p a (List.pairwise_insertionSort r l),
      ih, List.filter_cons]
    cases p a <;> rfl

/-- The first of the list is the first one that nothing has to stand before. -/
theorem head?_insertionSort (htrans : ∀ a b c, r a b → r b c → r a c)
    (htotal : ∀ a b, r a b ∨ r b a) (l : List α) :
    (l.insertionSort r).head? = l.find? fun a => l.all (r a ·) := by
  have hself : ∀ a, r a a := fun a => or_self_iff.1 (htotal a a)
  induction l with
  | nil => rfl
  | cons a l ih =>
    rw [List.insertionSort_cons]
    cases hsort : l.insertionSort r with
    | nil =>
      have hnil : l = [] := by
        rw [← List.length_eq_zero_iff, ← List.length_insertionSort r l, hsort, List.length_nil]
      subst hnil
      simp [hself]
    | cons b rest =>
      rw [hsort, List.head?_cons] at ih
      have hb : ∀ x ∈ l, r b x := by simpa using List.find?_some ih.symm
      by_cases hab : r a b
      · have hall : (a :: l).all (r a ·) = true := by
          simpa [hself] using fun x hx => htrans a b x hab (hb x hx)
        rw [List.orderedInsert_cons_of_le r rest hab, List.head?_cons,
          List.find?_cons_of_pos (p := fun y => (a :: l).all (r y ·)) hall]
      · have hba : r b a := (htotal a b).resolve_left hab
        have hnot : ¬ (a :: l).all (r a ·) = true := by
          simpa using fun _ => ⟨b, List.mem_of_find?_eq_some ih.symm, hab⟩
        rw [List.orderedInsert_of_not_le r rest hab, List.head?_cons, ih,
          List.find?_cons_of_neg (p := fun y => (a :: l).all (r y ·)) hnot]
        rw [← List.head?_filter, ← List.head?_filter]
        refine congrArg List.head? (List.filter_congr fun x hx => ?_)
        by_cases hx' : l.all (r x ·)
        · have hxb : r x b := by
            simpa using List.all_eq_true.1 hx' b (List.mem_of_find?_eq_some ih.symm)
          have hxa := htrans x b a hxb hba
          simp [hxa]
        · rw [Bool.not_eq_true] at hx'
          simp [hx']

/-- The elements that stand nowhere else in the order. -/
def ties (r : α → α → Prop) [DecidableRel r] (a b : α) : Bool := r a b && r b a

/-- A sorted list is known from its elements of each rank. -/
theorem eq_of_filter_ties (hrefl : ∀ a, r a a)
    {l l' : List α} (h : l.Pairwise r) (h' : l'.Pairwise r)
    (hties : ∀ a, l.filter (ties r a) = l'.filter (ties r a)) : l = l' := by
  have hself : ∀ a, ties r a a = true := fun a => by simp [ties, hrefl a]
  have hmem : ∀ a, a ∈ l ↔ a ∈ l' := by
    intro a
    have heq := congrArg (a ∈ ·) (hties a)
    simpa [hself a] using heq
  induction l generalizing l' with
  | nil =>
    cases l' with
    | nil => rfl
    | cons b l' => cases (hmem b).2 List.mem_cons_self
  | cons a l ih =>
    cases l' with
    | nil => cases (hmem a).1 List.mem_cons_self
    | cons b l' =>
      obtain ⟨ha, hl⟩ := List.pairwise_cons.1 h
      obtain ⟨hb, hl'⟩ := List.pairwise_cons.1 h'
      have hba : r b a := by
        rcases List.mem_cons.1 ((hmem a).1 List.mem_cons_self) with rfl | hin
        · exact hrefl a
        · exact hb a hin
      have hab : r a b := by
        rcases List.mem_cons.1 ((hmem b).2 List.mem_cons_self) with rfl | hin
        · exact hrefl b
        · exact ha b hin
      -- the heads are of one rank, and the first of it in either list
      have hheads := hties a
      rw [List.filter_cons_of_pos (hself a),
        List.filter_cons_of_pos (by simp [ties, hab, hba])] at hheads
      obtain ⟨rfl, -⟩ := List.cons_eq_cons.1 hheads
      have htails : ∀ c, l.filter (ties r c) = l'.filter (ties r c) := by
        intro c
        have heq := hties c
        rw [List.filter_cons, List.filter_cons] at heq
        split at heq
        · exact (List.cons_eq_cons.1 heq).2
        · exact heq
      rw [ih hl hl' htails fun c => by
        have heq := congrArg (c ∈ ·) (htails c)
        simpa [hself c] using heq]

section
variable {σ : Type*} {f : σ → α → σ}

/-- The fold may take an element first that the sort puts behind others. -/
theorem foldl_orderedInsert {a : α} {l : List α}
    (h : ∀ b ∈ l, ¬ r a b → ∀ s, f (f s a) b = f (f s b) a) (s : σ) :
    (l.orderedInsert r a).foldl f s = l.foldl f (f s a) := by
  induction l generalizing s with
  | nil => rfl
  | cons b l ih =>
    by_cases hab : r a b
    · rw [List.orderedInsert_cons_of_le r l hab, List.foldl_cons]
    · rw [List.orderedInsert_of_not_le r l hab, List.foldl_cons,
        ih fun c hc => h c (List.mem_cons_of_mem b hc), List.foldl_cons,
        h b List.mem_cons_self hab]

theorem foldl_insertionSort {l : List α}
    (h : l.Pairwise fun a b => ¬ r a b → ∀ s, f (f s a) b = f (f s b) a) (s : σ) :
    (l.insertionSort r).foldl f s = l.foldl f s := by
  induction l generalizing s with
  | nil => rfl
  | cons a l ih =>
    obtain ⟨ha, hl⟩ := List.pairwise_cons.1 h
    have hsorted : ∀ b ∈ l.insertionSort r, ¬ r a b → ∀ s, f (f s a) b = f (f s b) a :=
      fun b hb => ha b ((List.mem_insertionSort r).1 hb)
    rw [List.insertionSort_cons, foldl_orderedInsert hsorted, ih hl, List.foldl_cons]

end

end Stable
