import Mathlib.Data.List.Dedup
import Mathlib.Order.Lattice

/-!
# SQL aggregates

The aggregates over a nullable column: `LEAST`, `GREATEST`, `MIN` and `MAX` ignore `NULL`s and
are `NULL` when nothing is left (`minOf_eq_some`, `minOf_eq_none`). `groupBy` is `GROUP BY`, and
`groupBy_flatten` evaluates it on rows that already stand in groups; `groupBy_filter` moves a
condition on the key before it.
-/

namespace Sql

section Extremes
variable {τ : Type*} [LinearOrder τ]

/-- `LEAST`. -/
def least : Option τ → Option τ → Option τ := Option.merge min

/-- `GREATEST`. -/
def greatest : Option τ → Option τ → Option τ := Option.merge max

/-- `MIN` of a column. -/
def minOf (l : List (Option τ)) : Option τ := l.foldr least none

/-- `MAX` of a column. -/
def maxOf (l : List (Option τ)) : Option τ := l.foldr greatest none

@[simp] theorem least_none_left (a : Option τ) : least none a = a := Option.merge_none_left
@[simp] theorem least_none_right (a : Option τ) : least a none = a := Option.merge_none_right
@[simp] theorem least_some_some (a b : τ) : least (some a) (some b) = some (min a b) := rfl
@[simp] theorem greatest_none_left (a : Option τ) : greatest none a = a := Option.merge_none_left
@[simp] theorem greatest_none_right (a : Option τ) : greatest a none = a := Option.merge_none_right
@[simp] theorem greatest_some_some (a b : τ) : greatest (some a) (some b) = some (max a b) := rfl

theorem least_assoc (a b c : Option τ) : least (least a b) c = least a (least b c) := by
  cases a <;> cases b <;> cases c <;> simp [min_assoc]

theorem greatest_assoc (a b c : Option τ) :
    greatest (greatest a b) c = greatest a (greatest b c) := by
  cases a <;> cases b <;> cases c <;> simp [max_assoc]

@[simp] theorem minOf_nil : minOf ([] : List (Option τ)) = none := rfl
@[simp] theorem maxOf_nil : maxOf ([] : List (Option τ)) = none := rfl
@[simp] theorem minOf_cons (a : Option τ) (l : List (Option τ)) :
    minOf (a :: l) = least a (minOf l) := rfl
@[simp] theorem maxOf_cons (a : Option τ) (l : List (Option τ)) :
    maxOf (a :: l) = greatest a (maxOf l) := rfl

theorem minOf_append (l l' : List (Option τ)) : minOf (l ++ l') = least (minOf l) (minOf l') := by
  induction l with
  | nil => simp
  | cons a l ih => simp [ih, least_assoc]

theorem maxOf_append (l l' : List (Option τ)) :
    maxOf (l ++ l') = greatest (maxOf l) (maxOf l') := by
  induction l with
  | nil => simp
  | cons a l ih => simp [ih, greatest_assoc]

theorem minOf_eq_none {l : List (Option τ)} : minOf l = none ↔ ∀ a ∈ l, a = none := by
  induction l with
  | nil => simp
  | cons a l ih =>
    rw [minOf_cons, List.forall_mem_cons, ← ih]
    cases a <;> cases minOf l <;> simp

theorem maxOf_eq_none {l : List (Option τ)} : maxOf l = none ↔ ∀ a ∈ l, a = none := by
  induction l with
  | nil => simp
  | cons a l ih =>
    rw [maxOf_cons, List.forall_mem_cons, ← ih]
    cases a <;> cases maxOf l <;> simp

/-- `MIN` is a lower bound. -/
theorem minOf_le {l : List (Option τ)} {m x : τ} (h : minOf l = some m) (hx : some x ∈ l) :
    m ≤ x := by
  induction l generalizing m with
  | nil => cases hx
  | cons a l ih =>
    rw [minOf_cons] at h
    rcases List.mem_cons.1 hx with rfl | hx
    · cases hl : minOf l with
      | none => simp_all
      | some b =>
        rw [hl, least_some_some, Option.some.injEq] at h
        exact h ▸ min_le_left x b
    · cases hl : minOf l with
      | none => exact absurd (minOf_eq_none.1 hl _ hx) (by simp)
      | some b =>
        have hb := ih hl hx
        cases a with
        | none => simp_all
        | some a =>
          rw [hl, least_some_some, Option.some.injEq] at h
          exact h ▸ (min_le_right a b).trans hb

/-- `MIN` is one of the values. -/
theorem minOf_mem {l : List (Option τ)} {m : τ} (h : minOf l = some m) : some m ∈ l := by
  induction l generalizing m with
  | nil => cases h
  | cons a l ih =>
    rw [minOf_cons] at h
    cases hl : minOf l with
    | none => simp_all
    | some b =>
      cases a with
      | none => simp_all
      | some a =>
        rw [hl, least_some_some, Option.some.injEq] at h
        rcases le_total a b with hab | hab
        · rw [← h, min_eq_left hab]
          exact List.mem_cons_self
        · exact List.mem_cons_of_mem _ (ih (by rw [hl, ← h, min_eq_right hab]))

theorem minOf_cons_of_le {m : τ} {l : List (Option τ)} (h : ∀ x, some x ∈ l → m ≤ x) :
    minOf (some m :: l) = some m := by
  rw [minOf_cons]
  cases hl : minOf l with
  | none => rfl
  | some x => rw [least_some_some, min_eq_left (h x (minOf_mem hl))]

/-- `MAX` is an upper bound. -/
theorem le_maxOf {l : List (Option τ)} {m x : τ} (h : maxOf l = some m) (hx : some x ∈ l) :
    x ≤ m := minOf_le (τ := τᵒᵈ) h hx

/-- `MAX` is one of the values. -/
theorem maxOf_mem {l : List (Option τ)} {m : τ} (h : maxOf l = some m) : some m ∈ l :=
  minOf_mem (τ := τᵒᵈ) h

theorem minOf_perm {l l' : List (Option τ)} (h : l.Perm l') : minOf l = minOf l' := by
  have : Std.Commutative (least : Option τ → Option τ → Option τ) :=
    inferInstanceAs (Std.Commutative (Option.merge min))
  induction h with
  | nil => rfl
  | cons a _ ih => rw [minOf_cons, minOf_cons, ih]
  | swap a b l =>
    simp only [minOf_cons, ← least_assoc]
    rw [this.comm b a]
  | trans _ _ ih ih' => exact ih.trans ih'

theorem maxOf_perm {l l' : List (Option τ)} (h : l.Perm l') : maxOf l = maxOf l' :=
  minOf_perm (τ := τᵒᵈ) h

end Extremes

/-! ## Grouping -/

section Group
variable {α κ : Type*} [DecidableEq κ]

/-- `GROUP BY key`: each key that occurs, with its rows. -/
def groupBy (key : α → κ) (rows : List α) : List (κ × List α) :=
  (rows.map key).dedup.map fun k => (k, rows.filter fun r => key r = k)

theorem mem_groupBy (key : α → κ) {rows : List α} {r : α} (h : r ∈ rows) :
    (key r, rows.filter fun x => key x = key r) ∈ groupBy key rows :=
  List.mem_map_of_mem (f := fun k => (k, rows.filter fun x => key x = k))
    (List.mem_dedup.2 (List.mem_map_of_mem h))

/-- Rows that stand in groups of one key each, no two groups with the same key. -/
theorem groupBy_flatten (key : α → κ) (k : List α → κ) {G : List (List α)}
    (hne : ∀ g ∈ G, g ≠ []) (hk : ∀ g ∈ G, ∀ x ∈ g, key x = k g)
    (hG : G.Pairwise fun g g' => k g ≠ k g') :
    groupBy key G.flatten = G.map fun g => (k g, g) := by
  have hkeys : (G.flatten.map key).dedup = G.map k := by
    induction G with
    | nil => rfl
    | cons g G ih =>
      rw [List.pairwise_cons] at hG
      have ih := ih (fun g hg => hne g (.tail _ hg)) (fun g hg => hk g (.tail _ hg)) hG.2
      have hconst : g.map key = List.replicate g.length (k g) :=
        List.eq_replicate_iff.2 ⟨by simp, by simpa using hk g (.head _)⟩
      have hnot : k g ∉ G.flatten.map key := by
        simp only [List.mem_map, List.mem_flatten, not_exists, not_and]
        rintro x ⟨g', hg', hx⟩ h
        exact hG.1 g' hg' (h.symm.trans (hk g' (.tail _ hg') x hx))
      obtain ⟨n, hn⟩ := Nat.exists_eq_succ_of_ne_zero
        (List.length_pos_iff.2 (hne g (.head _))).ne'
      rw [List.flatten_cons, List.map_append, hconst, hn, List.map_cons, ← ih]
      clear hconst hn
      induction n with
      | zero => exact List.dedup_cons_of_notMem hnot
      | succ n ihn =>
        rw [List.replicate_succ, List.cons_append, List.dedup_cons_of_mem (by simp), ihn]
  have hrows : ∀ g ∈ G, (G.flatten.filter fun r => key r = k g) = g := by
    intro g hg
    obtain ⟨G₁, G₂, rfl⟩ := List.append_of_mem hg
    have hpair := List.pairwise_append.1 hG
    have hdrop : ∀ G' : List (List α), (∀ g' ∈ G', g' ∈ G₁ ++ g :: G₂ ∧ k g' ≠ k g) →
        (G'.flatten.filter fun r => key r = k g) = [] := by
      intro G' h
      rw [List.filter_eq_nil_iff]
      intro x hx
      obtain ⟨g', hg', hxg'⟩ := List.mem_flatten.1 hx
      simpa [hk g' (h g' hg').1 x hxg'] using (h g' hg').2
    have h₁ := hdrop G₁ fun g' hg' =>
      ⟨List.mem_append_left _ hg', hpair.2.2 g' hg' g (.head _)⟩
    have h₂ := hdrop G₂ fun g' hg' => ⟨List.mem_append_right _ (.tail _ hg'),
      (List.pairwise_cons.1 hpair.2.1 |>.1 g' hg').symm⟩
    have h₀ : (g.filter fun r => key r = k g) = g :=
      List.filter_eq_self.2 fun x hx => by simpa using hk g hg x hx
    rw [List.flatten_append, List.flatten_cons, List.filter_append, List.filter_append, h₁, h₀,
      h₂, List.append_nil, List.nil_append]
  rw [groupBy, hkeys, List.map_map]
  exact List.map_congr_left fun g hg => by simp only [Function.comp, hrows g hg]

theorem dedup_filter (p : κ → Bool) (l : List κ) : (l.filter p).dedup = l.dedup.filter p := by
  induction l with
  | nil => rfl
  | cons a l ih =>
    by_cases ha : a ∈ l
    · rw [List.dedup_cons_of_mem ha, ← ih]
      by_cases hp : p a
      · rw [List.filter_cons_of_pos hp, List.dedup_cons_of_mem (List.mem_filter.2 ⟨ha, hp⟩)]
      · rw [List.filter_cons_of_neg hp]
    · rw [List.dedup_cons_of_notMem ha]
      by_cases hp : p a
      · have hna : a ∉ l.filter p := fun h => ha (List.mem_filter.1 h).1
        rw [List.filter_cons_of_pos hp, List.filter_cons_of_pos hp,
          List.dedup_cons_of_notMem hna, ih]
      · rw [List.filter_cons_of_neg hp, List.filter_cons_of_neg hp, ih]

/-- A condition on the key selects groups. -/
theorem groupBy_filter (key : α → κ) (p : κ → Bool) (rows : List α) :
    groupBy key (rows.filter fun r => p (key r)) = (groupBy key rows).filter fun g => p g.1 := by
  have hkeys : ((rows.filter fun r => p (key r)).map key) = (rows.map key).filter p := by
    rw [List.filter_map]
    rfl
  rw [groupBy, groupBy, hkeys, dedup_filter, List.filter_map]
  refine List.map_congr_left fun k hk => ?_
  have hpk : p k = true := (List.mem_filter.1 hk).2
  rw [List.filter_filter]
  refine congrArg (Prod.mk k) (List.filter_congr fun r _ => ?_)
  by_cases hr : key r = k
  · simp [hr, hpk]
  · simp [hr]

end Group

end Sql
