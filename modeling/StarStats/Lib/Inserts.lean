import Mathlib.Data.List.Basic
import Mathlib.Data.List.Induction
import Mathlib.Data.List.Pairwise

/-!
# First writer wins

A table that takes a row unless one that is there conflicts with it, as an `INSERT … ON CONFLICT DO
NOTHING` does. Two sequences of writes with the same rows leave the same rows behind when the rows
that conflict come in the same order in both (`mem_insertAll_congr`); rows that conflict with none
of another kind do not matter to it (`filter_insertAll`).
-/

namespace Inserts

variable {β : Type*} (conflict : β → β → Bool)

/-- The table after the write, and whether it took the row. -/
def insertNew (table : List β) (row : β) : List β × Bool :=
  if table.any (conflict row) then (table, false) else (table ++ [row], true)

def insertAll (table rows : List β) : List β :=
  rows.foldl (fun t row => (insertNew conflict t row).1) table

variable {conflict}

@[simp] theorem insertAll_nil (table : List β) : insertAll conflict table [] = table := rfl

@[simp] theorem insertAll_cons (table : List β) (row : β) (rows : List β) :
    insertAll conflict table (row :: rows) =
      insertAll conflict (insertNew conflict table row).1 rows := rfl

theorem insertAll_append (table rows more : List β) :
    insertAll conflict table (rows ++ more) =
      insertAll conflict (insertAll conflict table rows) more := by
  simp only [insertAll, List.foldl_append]

theorem insertNew_eq (table : List β) (row : β) :
    (insertNew conflict table row).1 =
      if ∃ x ∈ table, conflict row x then table else table ++ [row] := by
  simp only [insertNew, List.any_eq_true]
  split <;> rfl

theorem subset_insertNew (table : List β) (row : β) :
    table ⊆ (insertNew conflict table row).1 := by
  rw [insertNew_eq]
  split
  · exact List.Subset.refl _
  · exact List.subset_append_left _ _

theorem subset_insertAll (table rows : List β) : table ⊆ insertAll conflict table rows := by
  induction rows generalizing table with
  | nil => exact List.Subset.refl _
  | cons row rows ih => exact List.Subset.trans (subset_insertNew table row) (ih _)

/-- A row is there from the start, or its write met no conflict. -/
theorem mem_insertAll {table rows : List β} {x : β} :
    x ∈ insertAll conflict table rows ↔
      x ∈ table ∨ ∃ before after, rows = before ++ x :: after ∧
        ∀ y ∈ insertAll conflict table before, conflict x y = false := by
  constructor
  · intro h
    induction rows generalizing table with
    | nil => exact .inl h
    | cons row rows ih =>
      rcases ih h with h | ⟨before, after, rfl, hfree⟩
      · dsimp only at h
        rw [insertNew_eq] at h
        split at h
        case isTrue => exact .inl h
        case isFalse hno =>
          rcases List.mem_append.1 h with h | h
          · exact .inl h
          · obtain rfl := List.mem_singleton.1 h
            refine .inr ⟨[], rows, rfl, fun y hy => ?_⟩
            by_contra hc
            exact hno ⟨y, hy, by simpa using hc⟩
      · exact .inr ⟨row :: before, after, rfl, hfree⟩
  · rintro (h | ⟨before, after, rfl, hfree⟩)
    · exact subset_insertAll _ _ h
    · rw [insertAll_append, insertAll_cons]
      apply subset_insertAll
      rw [insertNew_eq, if_neg]
      · exact List.mem_append_right _ List.mem_cons_self
      · rintro ⟨y, hy, hc⟩
        rw [hfree y hy] at hc
        cases hc

/-- Without a write of it, a row can only have been there. -/
theorem mem_of_mem_insertAll_append {table before after : List β} {x : β}
    (h : x ∈ insertAll conflict table (before ++ after)) (hx : x ∉ after) :
    x ∈ insertAll conflict table before := by
  rw [insertAll_append] at h
  rcases mem_insertAll.1 h with h | ⟨b, a, rfl, -⟩
  · exact h
  · simp at hx

/-! ## The same writes again -/

theorem conflict_insertNew (hself : ∀ x, conflict x x = true) (table : List β) (row : β) :
    ∃ x ∈ (insertNew conflict table row).1, conflict row x = true := by
  rw [insertNew_eq]
  split
  case isTrue h => exact h
  case isFalse => exact ⟨row, by simp, hself row⟩

/-- Whatever is written meets a row of the table afterwards. -/
theorem conflict_insertAll (hself : ∀ x, conflict x x = true) {table rows : List β} {row : β}
    (h : row ∈ rows) : ∃ x ∈ insertAll conflict table rows, conflict row x = true := by
  obtain ⟨before, after, rfl⟩ := List.append_of_mem h
  rw [insertAll_append, insertAll_cons]
  obtain ⟨x, hx, hc⟩ := conflict_insertNew hself (insertAll conflict table before) row
  exact ⟨x, subset_insertAll _ _ hx, hc⟩

theorem prefix_insertAll (table rows : List β) : table <+: insertAll conflict table rows := by
  induction rows generalizing table with
  | nil => exact List.prefix_refl _
  | cons row rows ih =>
    refine List.IsPrefix.trans ?_ (ih _)
    show table <+: (insertNew conflict table row).1
    rw [insertNew_eq]
    split
    · exact List.prefix_refl _
    · exact List.prefix_append _ _

/-- Rows leave the table as it is when they all meet one of it. -/
theorem insertAll_eq_self {table rows : List β} :
    insertAll conflict table rows = table ↔ ∀ row ∈ rows, ∃ x ∈ table, conflict row x = true := by
  induction rows with
  | nil => simp
  | cons row rows ih =>
    rw [List.forall_mem_cons, insertAll_cons, insertNew_eq]
    split
    case isTrue hrow => rw [ih, and_iff_right hrow]
    case isFalse hrow =>
      refine iff_of_false (fun h => ?_) fun h => hrow h.1
      have hlen := (@prefix_insertAll β conflict (table ++ [row]) rows).length_le
      rw [h, List.length_append, List.length_singleton] at hlen
      omega

theorem mem_or_of_mem_insertAll {table rows : List β} {x : β}
    (h : x ∈ insertAll conflict table rows) : x ∈ table ∨ x ∈ rows := by
  refine (mem_insertAll.1 h).imp_right ?_
  rintro ⟨before, after, rfl, -⟩
  exact List.mem_append_right _ List.mem_cons_self

/-! ## The order of the writes -/

/-- The rows that conflict are written in the order of their ranks, which tell them apart. -/
structure Ranked (conflict : β → β → Bool) (rank : β → Nat) (rows : List β) : Prop where
  ordered : rows.Pairwise fun x y => conflict x y = true → rank x ≤ rank y
  apart : ∀ x ∈ rows, ∀ y ∈ rows, conflict x y = true → rank x = rank y → x = y

section
variable {rank : β → Nat} {table rows rows' : List β}

/-- A row that is written only behind one of no smaller rank was there before it. -/
theorem mem_before {before after : List β} {x y : β}
    (hranked : Ranked conflict rank (before ++ x :: after)) (hc : conflict x y = true)
    (hlt : rank y < rank x) (hy : y ∈ insertAll conflict table (before ++ x :: after)) :
    y ∈ insertAll conflict table before := by
  refine mem_of_mem_insertAll_append hy fun hmem => ?_
  rcases List.mem_cons.1 hmem with rfl | hmem
  · exact Nat.lt_irrefl _ hlt
  · have hle := (List.pairwise_cons.1 (List.pairwise_append.1 hranked.ordered).2.1).1 y hmem hc
    omega

theorem mem_insertAll_of_mem (hcomm : ∀ x y, conflict x y = conflict y x)
    (h : Ranked conflict rank rows) (h' : Ranked conflict rank rows')
    (hsame : ∀ x, x ∈ rows ↔ x ∈ rows') {x : β} (hx : x ∈ insertAll conflict table rows)
    (ih : ∀ y, rank y < rank x →
      (y ∈ insertAll conflict table rows' → y ∈ insertAll conflict table rows)) :
    x ∈ insertAll conflict table rows' := by
  rcases mem_insertAll.1 hx with hx | ⟨before, after, rfl, hfree⟩
  · exact subset_insertAll _ _ hx
  have hxrows : x ∈ rows' := (hsame x).1 (by simp)
  obtain ⟨before', after', rfl, hfirst⟩ := List.eq_append_cons_of_mem hxrows
  refine mem_insertAll.2 (.inr ⟨before', after', rfl, fun y hy => ?_⟩)
  by_contra hc
  rw [Bool.not_eq_false] at hc
  have hy' : y ∈ insertAll conflict table (before' ++ x :: after') := by
    rw [insertAll_append]
    exact subset_insertAll _ _ hy
  have hnot : y ∉ insertAll conflict table before := fun hb => by
    rw [hfree y hb] at hc
    cases hc
  rcases mem_insertAll.1 hy with hy | ⟨b, a, rfl, -⟩
  · exact hnot (subset_insertAll _ _ hy)
  · have hmem : y ∈ b ++ y :: a := by simp
    have hle : rank y ≤ rank x :=
      (List.pairwise_append.1 h'.ordered).2.2 y hmem x List.mem_cons_self (by rw [hcomm, hc])
    have hne : rank x ≠ rank y := fun heq =>
      hfirst (h'.apart x hxrows y (by simp) hc heq ▸ hmem)
    exact hnot (mem_before h hc (by omega) (ih y (by omega) hy'))

/-- The same rows in the same order of conflicts leave the same table behind. -/
theorem mem_insertAll_congr (hcomm : ∀ x y, conflict x y = conflict y x)
    (h : Ranked conflict rank rows) (h' : Ranked conflict rank rows')
    (hsame : ∀ x, x ∈ rows ↔ x ∈ rows') (x : β) :
    x ∈ insertAll conflict table rows ↔ x ∈ insertAll conflict table rows' := by
  induction hn : rank x using Nat.strongRecOn generalizing x with
  | _ n ih =>
    subst hn
    exact ⟨fun hx => mem_insertAll_of_mem hcomm h h' hsame hx fun y hy => (ih _ hy y rfl).2,
      fun hx => mem_insertAll_of_mem hcomm h' h (fun y => (hsame y).symm) hx
        fun y hy => (ih _ hy y rfl).1⟩

/-! ## Rows that are not the same -/

/-- A row that only one of two sequences writes shows in some table: in one that holds something
in the way of all its other rows. -/
theorem exists_table {x : β} (hself : conflict x x = true) (hx : x ∈ rows) (hx' : x ∉ rows')
    (block : β → β) (hblocks : ∀ y ∈ rows, y ≠ x → conflict y (block y) = true)
    (hfree : ∀ y ∈ rows, y ≠ x → conflict x (block y) = false) :
    ∃ table, x ∈ insertAll conflict table rows ∧ x ∉ insertAll conflict table rows' := by
  classical
  have htable : ∀ y ∈ (rows.filter (· ≠ x)).map block, conflict x y = false := by
    intro y hy
    obtain ⟨z, hz, rfl⟩ := List.mem_map.1 hy
    obtain ⟨hz, hne⟩ := List.mem_filter.1 hz
    exact hfree z hz (by simpa using hne)
  refine ⟨(rows.filter (· ≠ x)).map block, ?_, fun hmem => ?_⟩
  · obtain ⟨before, after, hrows, hnot⟩ := List.eq_append_cons_of_mem hx
    refine mem_insertAll.2 (.inr ⟨before, after, hrows, fun y hy => ?_⟩)
    rcases mem_insertAll.1 hy with hy | ⟨b, a, hbefore, hnone⟩
    · exact htable y hy
    · have hne : y ≠ x := by
        rintro rfl
        exact hnot (by simp [hbefore])
      have hy : y ∈ rows := by simp [hrows, hbefore]
      have hblock : block y ∈ (rows.filter (· ≠ x)).map block :=
        List.mem_map_of_mem (List.mem_filter.2 ⟨hy, by simpa using hne⟩)
      have hconflict := hnone _ (subset_insertAll _ b hblock)
      rw [hblocks y hy hne] at hconflict
      cases hconflict
  · rcases mem_insertAll.1 hmem with hmem | ⟨b, a, hrows, -⟩
    · rw [htable x hmem] at hself
      cases hself
    · exact hx' (by simp [hrows])

end

end Inserts
