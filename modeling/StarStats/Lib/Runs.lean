import Mathlib.Data.List.Nodup
import Mathlib.Data.List.Pairwise
import Mathlib.Data.List.SplitBy

/-!
# Runs

The runs of a list are what `List.splitBy` cuts it into: neighbours in a run are related, the ends
of neighbouring runs are not. A run is its first element and what follows it (`splitBy_cons`,
`exists_of_mem_splitBy`), and more elements behind the list only make what follows longer
(`follow_append`). Where two lists are joined, the long runs are those of both, unless a long run
goes across (`filter_splitBy_append`).
-/

namespace Runs

variable {α : Type*} {r : α → α → Bool}

/-- What follows `a` in its run. -/
def follow (r : α → α → Bool) (a : α) : List α → List α
  | [] => []
  | b :: l => if r a b then b :: follow r b l else []

/-- What comes after the run of `a`. -/
def behind (r : α → α → Bool) (a : α) : List α → List α
  | [] => []
  | b :: l => if r a b then behind r b l else b :: l

theorem follow_append_behind (a : α) (l : List α) : follow r a l ++ behind r a l = l := by
  induction l generalizing a with
  | nil => rfl
  | cons b l ih =>
    simp only [follow, behind]
    split
    · rw [List.cons_append, ih]
    · rfl

theorem isChain_follow (a : α) (l : List α) : (a :: follow r a l).IsChain fun x y => r x y := by
  induction l generalizing a with
  | nil => exact List.isChain_singleton a
  | cons b l ih =>
    simp only [follow]
    split
    case isTrue h => exact List.isChain_cons_cons.2 ⟨h, ih b⟩
    case isFalse => exact List.isChain_singleton a

theorem not_related_behind (a : α) (l : List α) :
    ∀ x ∈ (a :: follow r a l).getLast?, ∀ y ∈ (behind r a l).head?, r x y = false := by
  induction l generalizing a with
  | nil => simp [behind]
  | cons b l ih =>
    simp only [follow, behind]
    split
    case isTrue h =>
      intro x hx
      rw [List.getLast?_cons_cons] at hx
      exact ih b x hx
    case isFalse h => simpa using h

/-- The first run, and the runs behind it. -/
theorem splitBy_cons (a : α) (l : List α) :
    (a :: l).splitBy r = (a :: follow r a l) :: (behind r a l).splitBy r := by
  conv_lhs => rw [← follow_append_behind (r := r) a l, ← List.cons_append]
  rw [List.splitBy_append (not_related_behind a l),
    List.splitBy_of_isChain (List.cons_ne_nil _ _) (isChain_follow a l), List.singleton_append]

theorem length_behind (a : α) (l : List α) : (behind r a l).length < (a :: l).length := by
  have h := congrArg List.length (follow_append_behind (r := r) a l)
  simp only [List.length_append, List.length_cons] at h ⊢
  omega

/-- Behind an element whose run is short there are the same long runs, wherever they are looked
for. -/
theorem filter_splitBy_of_short {n : Nat} {a : α} {l : List α} (h : (follow r a l).length < n) :
    (l.splitBy r).filter (n ≤ ·.length) =
      ((behind r a l).splitBy r).filter (n ≤ ·.length) := by
  cases l with
  | nil => rfl
  | cons b l =>
    simp only [follow, behind] at h ⊢
    split
    case isTrue hr =>
      rw [if_pos hr] at h
      rw [splitBy_cons, List.filter_cons_of_neg]
      simpa using h
    case isFalse => rfl

/-- A run is an element of the list with what follows it. -/
theorem exists_of_mem_splitBy {l run : List α} (h : run ∈ l.splitBy r) :
    ∃ before a after, l = before ++ a :: after ∧ run = a :: follow r a after := by
  induction hn : l.length using Nat.strongRecOn generalizing l with
  | _ n ih =>
    subst hn
    cases l with
    | nil => cases h
    | cons a l =>
      rw [splitBy_cons] at h
      rcases List.mem_cons.1 h with rfl | h
      · exact ⟨[], a, l, rfl, rfl⟩
      · obtain ⟨before, b, after, hb, hrun⟩ := ih _ (length_behind a l) h rfl
        refine ⟨a :: (follow r a l ++ before), b, after, ?_, hrun⟩
        rw [List.cons_append, List.append_assoc, ← hb, follow_append_behind]

/-- Without repetition, an element is in one run. -/
theorem eq_of_mem_splitBy {l run run' : List α} (hnodup : l.Nodup) (hrun : run ∈ l.splitBy r)
    (hrun' : run' ∈ l.splitBy r) {x : α} (hx : x ∈ run) (hx' : x ∈ run') : run = run' := by
  rw [← List.flatten_splitBy r l] at hnodup
  have hdisjoint := (List.nodup_flatten.1 hnodup).2
  by_contra hne
  have : Std.Symm (@List.Disjoint α) := ⟨fun _ _ h a ha hb => h hb ha⟩
  exact hdisjoint.forall hrun hrun' hne hx hx'

section
variable {β : Type*} {q : β → β → Bool} {f : α → β}

theorem follow_map (hf : ∀ a b, q (f a) (f b) = r a b) (a : α) (l : List α) :
    follow q (f a) (l.map f) = (follow r a l).map f := by
  induction l generalizing a with
  | nil => rfl
  | cons b l ih =>
    simp only [List.map_cons, follow, hf]
    split
    · rw [ih, List.map_cons]
    · rfl

theorem behind_map (hf : ∀ a b, q (f a) (f b) = r a b) (a : α) (l : List α) :
    behind q (f a) (l.map f) = (behind r a l).map f := by
  induction l generalizing a with
  | nil => rfl
  | cons b l ih =>
    simp only [List.map_cons, behind, hf]
    split
    · rw [ih]
    · rfl

theorem splitBy_map (hf : ∀ a b, q (f a) (f b) = r a b) (l : List α) :
    (l.map f).splitBy q = (l.splitBy r).map (List.map f) := by
  induction hn : l.length using Nat.strongRecOn generalizing l with
  | _ n ih =>
    subst hn
    cases l with
    | nil => rfl
    | cons a l =>
      rw [List.map_cons, splitBy_cons, splitBy_cons, follow_map hf, behind_map hf,
        ih _ (length_behind a l) _ rfl]
      rfl

end

/-! ## Joining two lists -/

/-- A run that ends inside the first list. -/
theorem append_of_behind {a : α} {l : List α} (h : behind r a l ≠ []) (m : List α) :
    follow r a (l ++ m) = follow r a l ∧ behind r a (l ++ m) = behind r a l ++ m := by
  induction l generalizing a with
  | nil => exact absurd rfl h
  | cons b l ih =>
    simp only [List.cons_append, follow, behind] at h ⊢
    split
    case isTrue hr =>
      rw [if_pos hr] at h
      obtain ⟨hf, hb⟩ := ih h
      exact ⟨by rw [hf], hb⟩
    case isFalse => exact ⟨rfl, rfl⟩

/-- A run that reaches the end of the first list goes on from its last element. -/
theorem append_of_behind_nil {a : α} {l : List α} (h : behind r a l = []) (m : List α) :
    ∃ z, follow r a (l ++ m) = l ++ follow r z m ∧ behind r a (l ++ m) = behind r z m := by
  induction l generalizing a with
  | nil => exact ⟨a, rfl, rfl⟩
  | cons b l ih =>
    simp only [List.cons_append, follow, behind] at h ⊢
    split
    case isTrue hr =>
      rw [if_pos hr] at h
      obtain ⟨z, hf, hb⟩ := ih h
      exact ⟨z, by rw [hf], hb⟩
    case isFalse hr =>
      rw [if_neg hr] at h
      cases h

/-- More elements behind a list only make longer what follows. -/
theorem follow_append (a : α) (l m : List α) :
    ∃ more, follow r a (l ++ m) = follow r a l ++ more ∧ ∀ x ∈ more, x ∈ m := by
  by_cases h : behind r a l = []
  · obtain ⟨z, hf, -⟩ := append_of_behind_nil h m
    have hl := follow_append_behind (r := r) a l
    rw [h, List.append_nil] at hl
    refine ⟨follow r z m, by rw [hf, hl], fun x hx => ?_⟩
    rw [← follow_append_behind (r := r) z m]
    exact List.mem_append_left _ hx
  · exact ⟨[], by rw [(append_of_behind h m).1, List.append_nil], by simp⟩

/-- And its runs stay, but for what may follow the last. -/
theorem exists_run_append {l run : List α} (h : run ∈ l.splitBy r) (m : List α) :
    ∃ more, run ++ more ∈ (l ++ m).splitBy r ∧ ∀ x ∈ more, x ∈ m := by
  induction hn : l.length using Nat.strongRecOn generalizing l with
  | _ n ih =>
    subst hn
    cases l with
    | nil => cases h
    | cons a l =>
      rw [splitBy_cons] at h
      rw [List.cons_append, splitBy_cons]
      rcases List.mem_cons.1 h with rfl | h
      · obtain ⟨more, hmore, hsub⟩ := follow_append (r := r) a l m
        refine ⟨more, ?_, hsub⟩
        rw [hmore]
        exact List.mem_cons_self
      · have hbehind : behind r a l ≠ [] := fun hnil => by
          rw [hnil] at h
          cases h
        obtain ⟨more, hmore, hsub⟩ := ih _ (length_behind a l) h rfl
        refine ⟨more, List.mem_cons_of_mem _ ?_, hsub⟩
        rw [(append_of_behind hbehind m).2]
        exact hmore

/-- No run of at least `n` has elements of both lists, which `p` tells apart. -/
def NoneAcross (r : α → α → Bool) (p : α → Bool) (n : Nat) (l : List α) : Prop :=
  ∀ run ∈ l.splitBy r, n ≤ run.length → ¬ ((∃ x ∈ run, p x = true) ∧ ∃ y ∈ run, p y = false)

theorem filter_splitBy_append {p : α → Bool} {n : Nat} {l m : List α}
    (hl : ∀ x ∈ l, p x = true) (hm : ∀ y ∈ m, p y = false) (h : NoneAcross r p n (l ++ m)) :
    ((l ++ m).splitBy r).filter (n ≤ ·.length) =
      (l.splitBy r).filter (n ≤ ·.length) ++ (m.splitBy r).filter (n ≤ ·.length) := by
  induction hn : l.length using Nat.strongRecOn generalizing l with
  | _ k ih =>
    subst hn
    cases l with
    | nil => rfl
    | cons a l =>
      rw [NoneAcross, List.cons_append, splitBy_cons] at h
      rw [List.cons_append, splitBy_cons, splitBy_cons]
      by_cases hb : behind r a l = []
      · obtain ⟨z, hf, hbm⟩ := append_of_behind_nil hb m
        have hla := follow_append_behind (r := r) a l
        rw [hb, List.append_nil] at hla
        rw [hf, hbm] at h ⊢
        rw [hb, hla]
        cases m with
        | nil => simp [follow, behind]
        | cons b m =>
          rw [splitBy_cons b m]
          by_cases hz : r z b = true
          · -- the run goes across, so neither it nor its parts are long
            simp only [follow, behind, if_pos hz] at h ⊢
            have hshort : (a :: (l ++ b :: follow r b m)).length < n := by
              by_contra hc
              refine h _ List.mem_cons_self (by omega) ⟨⟨a, List.mem_cons_self, hl a
                List.mem_cons_self⟩, b, by simp, hm b List.mem_cons_self⟩
            simp only [List.length_cons, List.length_append] at hshort
            rw [List.filter_cons_of_neg, List.filter_cons_of_neg, List.filter_cons_of_neg]
            · rfl
            all_goals
              simp only [List.length_cons, List.length_append, decide_eq_true_eq]
              omega
          · simp only [follow, behind, if_neg hz, List.append_nil]
            rw [splitBy_cons, List.splitBy_nil, ← List.filter_append, List.singleton_append]
      · obtain ⟨hf, hbm⟩ := append_of_behind hb m
        rw [hf, hbm] at h ⊢
        have hbl : ∀ x ∈ behind r a l, p x = true := fun x hx => hl x (List.mem_cons_of_mem _ (by
          rw [← follow_append_behind (r := r) a l]
          exact List.mem_append_right _ hx))
        have hrest := ih _ (length_behind a l) hbl
          (fun run hrun => h run (List.mem_cons_of_mem _ hrun)) rfl
        rw [List.filter_cons, List.filter_cons, hrest]
        split <;> rfl

end Runs
