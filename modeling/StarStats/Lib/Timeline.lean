import Mathlib.Data.List.SplitBy
import Mathlib.Data.List.Sort
import Mathlib.Algebra.Order.Group.Defs
import Mathlib.Algebra.Order.Monoid.Unbundled.Basic
import Mathlib.Order.Lex

/-!
# Splitting a timeline at its idle gaps

`split t gap l` sorts `l` and cuts it wherever two neighbours are more than `gap` apart in the
time `t`. The elements are any linear order on which `t` is monotone, the times any linearly
ordered group.

* `split_perm`: the split depends on the elements only, not on the order they arrive in.
* `split_append`: two parts more than `gap` apart are split independently.
* `split_pairwise`: any two pieces are more than `gap` apart.
* `AgreeBelow`: what two timelines have in common below a time.
* `split_window` (**the rebuild window**): pieces that end before `w - gap` can be kept and
  everything from `f` on be split again, for any `f ≤ w` at or below the start of every other
  piece, provided nothing below `f` has changed.
-/

namespace Timeline

variable {α τ : Type*} [LinearOrder α] [AddCommGroup τ] [LinearOrder τ]

/-- Two neighbours at most `gap` apart. -/
def near (t : α → τ) (gap : τ) (a b : α) : Bool := decide (t b - t a ≤ gap)

omit [LinearOrder α] in
theorem near_eq_false {t : α → τ} {gap : τ} {a b : α} :
    near t gap a b = false ↔ gap < t b - t a := by
  rw [near, decide_eq_false_iff_not, not_le]

/-- The elements in order. -/
def sort (l : List α) : List α := l.insertionSort (· ≤ ·)

/-- The pieces of a timeline, cut where two neighbours are more than `gap` apart. -/
def split (t : α → τ) (gap : τ) (l : List α) : List (List α) := (sort l).splitBy (near t gap)

/-! ## Sorting -/

theorem sort_perm (l : List α) : (sort l).Perm l := l.perm_insertionSort _

theorem sort_pairwise (l : List α) : (sort l).Pairwise (· ≤ ·) := l.pairwise_insertionSort _

theorem sort_eq_of_perm {l l' : List α} (h : l.Perm l') : sort l = sort l' :=
  ((sort_perm l).trans (h.trans (sort_perm l').symm)).eq_of_pairwise' (sort_pairwise l)
    (sort_pairwise l')

theorem sort_append {l l' : List α} (h : ∀ a ∈ l, ∀ b ∈ l', a ≤ b) :
    sort (l ++ l') = sort l ++ sort l' := by
  have hp : (sort l ++ sort l').Perm (l ++ l') := (sort_perm l).append (sort_perm l')
  refine ((sort_perm _).trans hp.symm).eq_of_pairwise' (sort_pairwise _) ?_
  rw [List.pairwise_append]
  exact ⟨sort_pairwise l, sort_pairwise l', fun a ha b hb =>
    h a ((sort_perm l).mem_iff.1 ha) b ((sort_perm l').mem_iff.1 hb)⟩

/-! ## The pieces -/

@[simp] theorem split_nil (t : α → τ) (gap : τ) : split t gap [] = [] := rfl

theorem split_perm (t : α → τ) (gap : τ) {l l' : List α} (h : l.Perm l') :
    split t gap l = split t gap l' := by
  rw [split, split, sort_eq_of_perm h]

theorem flatten_split (t : α → τ) (gap : τ) (l : List α) : (split t gap l).flatten = sort l :=
  List.flatten_splitBy _ _

theorem mem_of_mem_split {t : α → τ} {gap : τ} {l g : List α} {x : α} (hg : g ∈ split t gap l)
    (hx : x ∈ g) : x ∈ l := by
  have : x ∈ (split t gap l).flatten := List.mem_flatten.2 ⟨g, hg, hx⟩
  rw [flatten_split] at this
  exact (sort_perm l).mem_iff.1 this

theorem exists_mem_split {t : α → τ} {gap : τ} {l : List α} {x : α} (hx : x ∈ l) :
    ∃ g ∈ split t gap l, x ∈ g := by
  have : x ∈ (split t gap l).flatten := by
    rw [flatten_split]
    exact (sort_perm l).mem_iff.2 hx
  exact List.mem_flatten.1 this

theorem ne_nil_of_mem_split {t : α → τ} {gap : τ} {l g : List α} (hg : g ∈ split t gap l) :
    g ≠ [] := List.ne_nil_of_mem_splitBy hg

/-- A piece is sorted. -/
theorem pairwise_of_mem_split {t : α → τ} {gap : τ} {l g : List α} (hg : g ∈ split t gap l) :
    g.Pairwise (· ≤ ·) := by
  have h := sort_pairwise l
  rw [← flatten_split t gap, List.pairwise_flatten] at h
  exact h.1 g hg

variable [IsOrderedAddMonoid τ] {t : α → τ} {gap : τ}

theorem lt_of_far (hgap : 0 ≤ gap) {x y : τ} (h : gap < y - x) : x < y :=
  sub_pos.1 (hgap.trans_lt h)

theorem le_of_far (ht : Monotone t) (hgap : 0 ≤ gap) {a b : α} (h : gap < t b - t a) : a ≤ b := by
  rcases le_total a b with hab | hab
  · exact hab
  · exact absurd (lt_of_far hgap h) (not_lt.2 (ht hab))

/-- Two parts more than `gap` apart are split independently. -/
theorem split_append (ht : Monotone t) (hgap : 0 ≤ gap) {l l' : List α}
    (h : ∀ a ∈ l, ∀ b ∈ l', gap < t b - t a) :
    split t gap (l ++ l') = split t gap l ++ split t gap l' := by
  rw [split, sort_append fun a ha b hb => le_of_far ht hgap (h a ha b hb)]
  refine List.splitBy_append fun x hx y hy => ?_
  have hx' := (sort_perm l).mem_iff.1 (List.mem_of_mem_getLast? hx)
  have hy' := (sort_perm l').mem_iff.1 (List.mem_of_mem_head? hy)
  exact near_eq_false.2 (h x hx' y hy')

/-- Sorted, non-empty pieces with a break after each are pairwise more than `gap` apart. -/
theorem pairwise_far_of_chain (ht : Monotone t) : ∀ {G : List (List α)},
    [] ∉ G → G.flatten.Pairwise (· ≤ ·) →
    G.IsChain (fun a b => ∃ ha hb, near t gap (a.getLast ha) (b.head hb) = false) →
    G.Pairwise fun g g' => ∀ x ∈ g, ∀ y ∈ g', gap < t y - t x
  | [], _, _, _ => .nil
  | [g], _, _, _ => List.pairwise_singleton _ _
  | g :: g' :: G, hn, hs, hc => by
    rw [List.isChain_cons_cons] at hc
    obtain ⟨⟨hg, hg', hbr⟩, hc'⟩ := hc
    have hs' := hs
    rw [List.flatten_cons, List.pairwise_append] at hs'
    obtain ⟨hsg, hsr, hcross⟩ := hs'
    refine .cons (fun p hp x hx y hy => ?_)
      (pairwise_far_of_chain ht (fun h => hn (.tail _ h)) hsr hc')
    -- everything after `g` is at or above the head of `g'`, everything in `g` at or below its last
    have hxl : x ≤ g.getLast hg := by
      rw [← List.dropLast_append_getLast hg, List.mem_append, List.mem_singleton] at hx
      rcases hx with hx | rfl
      · rw [← List.dropLast_append_getLast hg, List.pairwise_append] at hsg
        exact hsg.2.2 x hx _ (List.mem_singleton_self _)
      · exact le_rfl
    have hyh : g'.head hg' ≤ y := by
      obtain ⟨a, as, rfl⟩ := List.exists_cons_of_ne_nil hg'
      rcases List.mem_cons.1 hp with rfl | hp
      · rcases List.mem_cons.1 hy with rfl | hy
        · exact le_rfl
        · simp only [List.flatten_cons, List.cons_append, List.pairwise_cons] at hsr
          exact hsr.1 y (List.mem_append_left _ hy)
      · simp only [List.flatten_cons, List.cons_append, List.pairwise_cons] at hsr
        exact hsr.1 y (List.mem_append_right _ (List.mem_flatten.2 ⟨p, hp, hy⟩))
    exact (near_eq_false.1 hbr).trans_le (sub_le_sub (ht hyh) (ht hxl))

/-- Any two pieces are more than `gap` apart. -/
theorem split_pairwise (ht : Monotone t) (l : List α) :
    (split t gap l).Pairwise fun g g' => ∀ x ∈ g, ∀ y ∈ g', gap < t y - t x := by
  refine pairwise_far_of_chain ht (List.nil_notMem_splitBy _ _) ?_
    (List.isChain_getLast_head_splitBy _ _)
  rw [flatten_split]
  exact sort_pairwise l

/-- Of two different pieces one lies wholly more than `gap` before the other. -/
theorem far_or_far (ht : Monotone t) {l g g' : List α} (hg : g ∈ split t gap l)
    (hg' : g' ∈ split t gap l) (hne : g ≠ g') :
    (∀ x ∈ g, ∀ y ∈ g', gap < t y - t x) ∨ ∀ y ∈ g', ∀ x ∈ g, gap < t x - t y := by
  have h : (split t gap l).Pairwise fun g g' =>
      (∀ x ∈ g, ∀ y ∈ g', gap < t y - t x) ∨ ∀ y ∈ g', ∀ x ∈ g, gap < t x - t y :=
    (split_pairwise ht l).imp .inl
  have : Std.Symm fun g g' : List α =>
      (∀ x ∈ g, ∀ y ∈ g', gap < t y - t x) ∨ ∀ y ∈ g', ∀ x ∈ g, gap < t x - t y :=
    ⟨fun _ _ h => h.symm⟩
  exact h.forall hg hg' hne

/-! ## Agreement below a time -/

section Agree
variable {α τ : Type*} [LinearOrder τ] {t : α → τ} {f f' : τ} {l l' : List α}

/-- `l` and `l'` have the same elements below `f`. -/
def AgreeBelow (t : α → τ) (f : τ) (l l' : List α) : Prop :=
  (l.filter fun x => decide (t x < f)).Perm (l'.filter fun x => decide (t x < f))

theorem AgreeBelow.refl (t : α → τ) (f : τ) (l : List α) : AgreeBelow t f l l := List.Perm.refl _

theorem AgreeBelow.of_perm (h : l.Perm l') (t : α → τ) (f : τ) : AgreeBelow t f l l' := h.filter _

theorem AgreeBelow.mono (h : AgreeBelow t f l l') (hf : f' ≤ f) : AgreeBelow t f' l l' := by
  have hsub : ∀ m : List α, (m.filter fun x => decide (t x < f')) =
      (m.filter fun x => decide (t x < f)).filter fun x => decide (t x < f') := by
    intro m
    rw [List.filter_filter]
    refine List.filter_congr fun x _ => ?_
    by_cases hx : t x < f'
    · simp [hx, hx.trans_le hf]
    · simp [hx]
  rw [AgreeBelow, hsub l, hsub l']
  exact h.filter _

/-- Elements from `f` on do not count. -/
theorem AgreeBelow.append_right (h : AgreeBelow t f l l') {m : List α} (hm : ∀ x ∈ m, f ≤ t x) :
    AgreeBelow t f l (l' ++ m) := by
  have : (m.filter fun x => decide (t x < f)) = [] := by
    rw [List.filter_eq_nil_iff]
    intro x hx
    simpa using hm x hx
  rw [AgreeBelow, List.filter_append, this, List.append_nil]
  exact h

end Agree

/-! ## The rebuild window -/

section Window
variable (ht : Monotone t) (hgap : 0 ≤ gap) {l : List α} {w f : τ} (hfw : f ≤ w)
  (hlow : ∀ g ∈ split t gap l, (∃ x ∈ g, w - gap ≤ t x) → ∀ x ∈ g, f ≤ t x)
  (hatt : f = w ∨ ∃ g ∈ split t gap l, (∃ x ∈ g, w - gap ≤ t x) ∧ ∃ x ∈ g, t x = f)

omit [IsOrderedAddMonoid τ] in
include hlow in
/-- Below the window's start only pieces that end before `w - gap` have elements. -/
theorem lt_of_lt_start {a : α} (ha : a ∈ l) (haf : t a < f) : t a < w - gap := by
  have hmem : ∃ g ∈ split t gap l, a ∈ g := exists_mem_split ha
  obtain ⟨g, hg, hag⟩ := hmem
  by_contra h
  exact absurd (hlow g hg ⟨a, hag, not_lt.1 h⟩ a hag) (not_le.2 haf)

include ht hgap hlow hatt in
/-- The window starts more than `gap` after everything below it. -/
theorem far_of_lt_start {a : α} (ha : a ∈ l) (haf : t a < f) : gap < f - t a := by
  have haw := lt_of_lt_start hlow ha haf
  rcases hatt with rfl | ⟨g₀, hg₀, ⟨x, hx, hxw⟩, y, hy, rfl⟩
  · exact lt_sub_comm.1 haw
  · have hmem : ∃ g ∈ split t gap l, a ∈ g := exists_mem_split ha
    obtain ⟨g, hg, hag⟩ := hmem
    have hne : g ≠ g₀ := by
      rintro rfl
      exact absurd (hlow g hg ⟨x, hx, hxw⟩ a hag) (not_le.2 haf)
    rcases far_or_far ht hg hg₀ hne with h | h
    · exact h a hag y hy
    · exact absurd (hxw.trans (lt_of_far hgap (h x hx a hag)).le) (not_le.2 haw)

include ht hgap hfw hlow hatt in
/-- A piece with an element in the window has one at or after `w - gap`. -/
theorem exists_ge_of_start_le {g : List α} (hg : g ∈ split t gap l) {b : α} (hb : b ∈ g)
    (hfb : f ≤ t b) : ∃ x ∈ g, w - gap ≤ t x := by
  rcases hatt with rfl | ⟨g₀, hg₀, ⟨x, hx, hxw⟩, y, hy, rfl⟩
  · exact ⟨b, hb, (sub_le_self _ hgap).trans hfb⟩
  · by_cases hne : g = g₀
    · exact ⟨x, hne ▸ hx, hxw⟩
    rcases far_or_far ht hg hg₀ hne with h | h
    · exact absurd (lt_of_far hgap (h b hb y hy)) (not_lt.2 hfb)
    · exact ⟨b, hb, hxw.trans (lt_of_far hgap (h x hx b hb)).le⟩

include ht hgap hfw hlow hatt in
/-- The pieces that end before `w - gap` are the pieces of what lies below the window. -/
theorem filter_split_eq :
    (split t gap l).filter (fun g => g.all fun x => decide (t x < w - gap)) =
      split t gap (l.filter fun x => decide (t x < f)) := by
  have hsplit : split t gap l = split t gap (l.filter fun x => decide (t x < f)) ++
      split t gap (l.filter fun x => !decide (t x < f)) := by
    rw [← split_append ht hgap, split_perm t gap (List.filter_append_perm _ l)]
    intro a ha b hb
    simp only [List.mem_filter, decide_eq_true_eq, Bool.not_eq_true', decide_eq_false_iff_not,
      not_lt] at ha hb
    exact (far_of_lt_start ht hgap hlow hatt ha.1 ha.2).trans_le (sub_le_sub_right hb.2 _)
  have hkeep : (split t gap (l.filter fun x => decide (t x < f))).filter
      (fun g => g.all fun x => decide (t x < w - gap)) =
        split t gap (l.filter fun x => decide (t x < f)) := by
    rw [List.filter_eq_self]
    intro g hg
    simp only [List.all_eq_true, decide_eq_true_eq]
    intro x hx
    have := List.mem_filter.1 (mem_of_mem_split hg hx)
    exact lt_of_lt_start hlow this.1 (by simpa using this.2)
  have hdrop : (split t gap (l.filter fun x => !decide (t x < f))).filter
      (fun g => g.all fun x => decide (t x < w - gap)) = [] := by
    rw [List.filter_eq_nil_iff]
    intro g hg hall
    obtain ⟨b, hb⟩ := List.exists_mem_of_ne_nil g (ne_nil_of_mem_split hg)
    have hbf := (List.mem_filter.1 (mem_of_mem_split hg hb)).2
    simp only [Bool.not_eq_true', decide_eq_false_iff_not, not_lt] at hbf
    obtain ⟨x, hx, hxw⟩ := exists_ge_of_start_le ht hgap hfw hlow hatt
      (hsplit ▸ List.mem_append_right _ hg) hb hbf
    simp only [List.all_eq_true, decide_eq_true_eq] at hall
    exact absurd (hall x hx) (not_lt.2 hxw)
  rw [hsplit, List.filter_append, hkeep, hdrop, List.append_nil]

include ht hgap hfw hlow hatt in
/-- **The rebuild window.** Keep the pieces of `l` that end before `w - gap` and split what `l'`
has from `f` on: if `l` and `l'` agree below `f`, these are the pieces of `l'`. -/
theorem split_window {l' : List α}
    (hagree : AgreeBelow t f l l') :
    (split t gap l).filter (fun g => g.all fun x => decide (t x < w - gap)) ++
      split t gap (l'.filter fun x => decide (f ≤ t x)) = split t gap l' := by
  have hge : (l'.filter fun x => decide (f ≤ t x)) = l'.filter fun x => !decide (t x < f) := by
    refine List.filter_congr fun x _ => ?_
    simp only [← decide_not, not_lt]
  rw [filter_split_eq ht hgap hfw hlow hatt, split_perm t gap (show List.Perm _ _ from hagree), hge,
    ← split_append ht hgap, split_perm t gap (List.filter_append_perm _ l')]
  intro a ha b hb
  have ha' := List.mem_filter.1 (List.Perm.mem_iff hagree |>.2 ha)
  simp only [List.mem_filter, decide_eq_true_eq, Bool.not_eq_true', decide_eq_false_iff_not,
    not_lt] at ha' hb
  exact (far_of_lt_start ht hgap hlow hatt ha'.1 ha'.2).trans_le (sub_le_sub_right hb.2 _)

end Window

end Timeline
