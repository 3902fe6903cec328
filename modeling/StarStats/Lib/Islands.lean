import Mathlib.Data.List.Dedup
import Mathlib.Data.List.Nodup
import Mathlib.Data.List.TakeWhile
import Mathlib.Order.Basic
import StarStats.Lib.Sql

/-!
# Islands

A list is cut at its marked elements (`islands`), and an island can end early, at the first element
with another mark (`upTo`). `islands_of_number` and `upTo_of_first` are the two in SQL: a running
count of the marks that is grouped by, and the rank of the first mark in a group.
-/

namespace Islands

variable {α : Type*}

section
variable (start : α → Bool)

/-- The parts that begin at the marked elements. What stands before the first is in none. -/
def islands : List α → List (List α)
  | [] => []
  | x :: xs =>
    if start x then (x :: xs.takeWhile (!start ·)) :: islands xs else islands xs

/-- The running count of the marks. -/
def number (n : Nat) : List α → List (Nat × α)
  | [] => []
  | x :: xs =>
    let n := if start x then n + 1 else n
    (n, x) :: number n xs

/-- The elements with one count. -/
def numbered (k : Nat) (l : List (Nat × α)) : List α := (l.filter (·.1 = k)).map (·.2)

end

/-- Up to the first marked element, and with it. -/
def upTo (stop : α → Bool) : List α → List α
  | [] => []
  | x :: xs => if stop x then [x] else x :: upTo stop xs

variable {start stop : α → Bool} {l : List α}

/-! ## Parts -/

/-- An island stands between what is before it and the next mark. -/
theorem exists_of_mem_islands {p : List α} (h : p ∈ islands start l) :
    ∃ before x body behind, l = before ++ (x :: body) ++ behind ∧ p = x :: body ∧
      start x = true ∧ (∀ y ∈ body, start y = false) ∧ ∀ y ∈ behind.head?, start y = true := by
  induction l with
  | nil => cases h
  | cons z zs ih =>
    rw [islands] at h
    split at h
    case isTrue hz =>
      rcases List.mem_cons.1 h with rfl | h
      · refine ⟨[], z, _, zs.dropWhile (!start ·), ?_, rfl, hz, fun y hy => ?_, fun y hy => ?_⟩
        · rw [List.nil_append, List.cons_append, List.takeWhile_append_dropWhile]
        · simpa using List.mem_takeWhile_imp hy
        · have hnot := List.head?_dropWhile_not (!start ·) zs
          rw [Option.mem_def.1 hy] at hnot
          simpa using hnot
      · obtain ⟨before, x, body, behind, rfl, rest⟩ := ih h
        exact ⟨z :: before, x, body, behind, rfl, rest⟩
    case isFalse =>
      obtain ⟨before, x, body, behind, rfl, rest⟩ := ih h
      exact ⟨z :: before, x, body, behind, rfl, rest⟩

theorem upTo_of_none (h : ∀ x ∈ l, stop x = false) : upTo stop l = l := by
  induction l with
  | nil => rfl
  | cons x xs ih =>
    rw [upTo, h x List.mem_cons_self, ih fun y hy => h y (List.mem_cons_of_mem _ hy)]
    rfl

theorem upTo_sublist : (upTo stop l).Sublist l := by
  induction l with
  | nil => exact .slnil
  | cons x xs ih =>
    rw [upTo]
    split
    · exact (List.nil_sublist xs).cons_cons x
    · exact ih.cons_cons x

theorem filter_upTo : (upTo stop l).filter stop = (l.find? stop).toList := by
  induction l with
  | nil => rfl
  | cons x xs ih => cases hx : stop x <;> simp [upTo, hx, ih]

theorem exists_upTo (h : ∃ x ∈ l, stop x = true) :
    ∃ a x b, l = a ++ x :: b ∧ (∀ y ∈ a, stop y = false) ∧ stop x = true ∧
      upTo stop l = a ++ [x] := by
  induction l with
  | nil => simp at h
  | cons z zs ih =>
    cases hz : stop z with
    | true => exact ⟨[], z, zs, rfl, by simp, hz, by rw [upTo, hz]; rfl⟩
    | false =>
      have htail : ∃ x ∈ zs, stop x = true := by
        obtain ⟨x, hx, hstop⟩ := h
        rcases List.mem_cons.1 hx with rfl | hx
        · rw [hz] at hstop; cases hstop
        · exact ⟨x, hx, hstop⟩
      obtain ⟨a, x, b, rfl, ha, hx, heq⟩ := ih htail
      refine ⟨z :: a, x, b, rfl, ?_, hx, by rw [upTo, hz, heq]; rfl⟩
      intro y hy
      rcases List.mem_cons.1 hy with rfl | hy
      · exact hz
      · exact ha y hy

/-! ## Counting the marks -/

theorem le_of_mem_number {n : Nat} {p : Nat × α} (h : p ∈ number start n l) : n ≤ p.1 := by
  induction l generalizing n with
  | nil => cases h
  | cons x xs ih =>
    rcases List.mem_cons.1 h with rfl | h
    · dsimp only
      split <;> omega
    · have := ih h
      split at this <;> omega

theorem number_pairwise (n : Nat) : ((number start n l).map (·.1)).Pairwise (· ≤ ·) := by
  induction l generalizing n with
  | nil => exact .nil
  | cons x xs ih =>
    rw [number, List.map_cons, List.pairwise_cons]
    refine ⟨fun k hk => ?_, ih _⟩
    obtain ⟨p, hp, rfl⟩ := List.mem_map.1 hk
    exact le_of_mem_number hp

/-- The elements with the first count are those before the next mark. -/
theorem numbered_self (n : Nat) :
    numbered n (number start n l) = l.takeWhile (!start ·) := by
  induction l with
  | nil => rfl
  | cons x xs ih =>
    cases hx : start x with
    | true =>
      have hnone : (number start n (x :: xs)).filter (·.1 = n) = [] := by
        refine List.filter_eq_nil_iff.2 fun p hp => ?_
        have hle : n + 1 ≤ p.1 := by
          simp only [number, hx, if_true] at hp
          rcases List.mem_cons.1 hp with rfl | hp
          · exact Nat.le_refl _
          · exact le_of_mem_number hp
        simp only [decide_eq_true_eq]
        omega
      rw [numbered, hnone, List.takeWhile_cons_of_neg (by simp [hx])]
      rfl
    | false =>
      rw [List.takeWhile_cons_of_pos (by simp [hx]), ← ih]
      simp [number, numbered, hx]

theorem numbered_cons_of_ne {k n : Nat} (h : n ≠ k) (x : α) (ps : List (Nat × α)) :
    numbered k ((n, x) :: ps) = numbered k ps := by
  simp [numbered, h]

theorem numbered_cons_self (n : Nat) (x : α) (ps : List (Nat × α)) :
    numbered n ((n, x) :: ps) = x :: numbered n ps := by
  simp [numbered]

/-- In a rising list, those above what the least of them is above are the least and those above. -/
theorem dedup_filter_cons {ns : List Nat} {n m : Nat} (h : (m :: ns).Pairwise (· ≤ ·))
    (hm : n < m) :
    (m :: ns).dedup.filter (n < ·) = m :: ns.dedup.filter (m < ·) := by
  have hsorted : ∀ {ks : List Nat}, ks.Pairwise (· ≤ ·) → ks.dedup.Pairwise (· ≤ ·) :=
    fun hks => hks.sublist (List.dedup_sublist _)
  refine List.Perm.eq_of_pairwise (fun a b _ _ => Nat.le_antisymm) ((hsorted h).filter _) ?_ ?_
  · refine List.pairwise_cons.2 ⟨fun k hk => ?_, (hsorted (List.pairwise_cons.1 h).2).filter _⟩
    exact Nat.le_of_lt (by simpa using (List.mem_filter.1 hk).2)
  · refine (List.perm_ext_iff_of_nodup ((List.nodup_dedup _).filter _) ?_).2 fun k => ?_
    · refine List.nodup_cons.2 ⟨fun hk => ?_, (List.nodup_dedup _).filter _⟩
      simpa using (List.mem_filter.1 hk).2
    · have hle : k ∈ ns → m ≤ k := (List.pairwise_cons.1 h).1 k
      simp only [List.mem_filter, List.mem_dedup, List.mem_cons, decide_eq_true_eq]
      constructor
      · rintro ⟨rfl | hk, hlt⟩
        · exact .inl rfl
        · rcases Nat.eq_or_lt_of_le (hle hk) with rfl | hmk
          · exact .inl rfl
          · exact .inr ⟨hk, hmk⟩
      · rintro (rfl | ⟨hk, hmk⟩)
        · exact ⟨.inl rfl, hm⟩
        · exact ⟨.inr hk, hm.trans hmk⟩

/-- **Grouping by the running count** gives the islands. -/
theorem islands_of_number (n : Nat) :
    (((number start n l).map (·.1)).dedup.filter (n < ·)).map
      (numbered · (number start n l)) = islands start l := by
  induction l generalizing n with
  | nil => rfl
  | cons x xs ih =>
    have hsorted : ((number start n (x :: xs)).map (·.1)).Pairwise (· ≤ ·) := number_pairwise n
    cases hx : start x with
    | true =>
      simp only [number, hx, if_true, List.map_cons] at hsorted ⊢
      rw [dedup_filter_cons hsorted (Nat.lt_succ_self n), List.map_cons, numbered_cons_self,
        numbered_self, islands, hx, if_pos rfl, ← ih (n + 1)]
      congr 1
      refine List.map_congr_left fun k hk => ?_
      have hlt : n + 1 < k := by simpa using (List.mem_filter.1 hk).2
      exact numbered_cons_of_ne (Nat.ne_of_lt hlt) x _
    | false =>
      simp only [number, hx, Bool.false_eq_true, if_false, List.map_cons]
      rw [islands, hx, if_neg Bool.false_ne_true, ← ih n]
      have hdrop : (n :: (number start n xs).map (·.1)).dedup.filter (n < ·) =
          ((number start n xs).map (·.1)).dedup.filter (n < ·) := by
        by_cases hmem : n ∈ (number start n xs).map (·.1)
        · rw [List.dedup_cons_of_mem hmem]
        · rw [List.dedup_cons_of_notMem hmem, List.filter_cons_of_neg (by simp)]
      rw [hdrop]
      refine List.map_congr_left fun k hk => ?_
      have hlt : n < k := by simpa using (List.mem_filter.1 hk).2
      exact numbered_cons_of_ne (Nat.ne_of_lt hlt) x _

/-! ## The first mark -/

/-- The rank of the first marked element. -/
def firstRank (stop : α → Bool) (l : List (α × Nat)) : Option Nat :=
  Sql.minOf ((l.filter (stop ·.1)).map fun p => some p.2)

theorem le_of_firstRank {k n : Nat} (h : firstRank stop (l.zipIdx k) = some n) : k ≤ n := by
  have hmem := Sql.minOf_mem h
  obtain ⟨p, hp, heq⟩ := List.mem_map.1 hmem
  obtain rfl := Option.some.inj heq
  exact List.le_snd_of_mem_zipIdx (List.mem_filter.1 hp).1

/-- **Keeping the ranks up to the first mark**. -/
theorem upTo_of_first (k : Nat) :
    ((l.zipIdx k).filter fun p => (firstRank stop (l.zipIdx k)).all (p.2 ≤ ·)).map (·.1) =
      upTo stop l := by
  induction l generalizing k with
  | nil => rfl
  | cons x xs ih =>
    cases hx : stop x with
    | true =>
      have hfirst : firstRank stop ((x :: xs).zipIdx k) = some k := by
        have hcons : firstRank stop ((x :: xs).zipIdx k) =
            Sql.least (some k) (firstRank stop (xs.zipIdx (k + 1))) := by
          simp [firstRank, hx]
        rw [hcons]
        cases hrest : firstRank stop (xs.zipIdx (k + 1)) with
        | none => rfl
        | some n =>
          have hle := le_of_firstRank hrest
          rw [Sql.least_some_some, min_eq_left (by omega)]
      have hnone : (xs.zipIdx (k + 1)).filter (fun p => decide (p.2 ≤ k)) = [] := by
        refine List.filter_eq_nil_iff.2 fun p hp => ?_
        have hle := List.le_snd_of_mem_zipIdx hp
        simp only [decide_eq_true_eq]
        omega
      rw [hfirst, List.zipIdx_cons, upTo, hx, if_pos rfl]
      simp only [Option.all_some]
      rw [List.filter_cons_of_pos (by simp), hnone]
      rfl
    | false =>
      have hfirst : firstRank stop ((x :: xs).zipIdx k) = firstRank stop (xs.zipIdx (k + 1)) := by
        simp [firstRank, hx]
      have hkept : (firstRank stop (xs.zipIdx (k + 1))).all (k ≤ ·) = true := by
        cases hrest : firstRank stop (xs.zipIdx (k + 1)) with
        | none => rfl
        | some n =>
          have hle := le_of_firstRank hrest
          simp only [Option.all_some, decide_eq_true_eq]
          omega
      have hcons := List.filter_cons_of_pos (a := (x, k)) (l := xs.zipIdx (k + 1))
        (p := fun p => (firstRank stop (xs.zipIdx (k + 1))).all (p.2 ≤ ·)) hkept
      rw [hfirst, List.zipIdx_cons, hcons, List.map_cons, ih, upTo, hx]
      rfl

end Islands
