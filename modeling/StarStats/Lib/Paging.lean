import Mathlib.Data.List.Nodup
import Mathlib.Data.List.Sort
import Mathlib.Order.Basic

/-!
# Paging by a cursor

A reader follows cursors from page to page (`Followed`). Each page is the beginning of the rows
whose keys are beyond the cursor, in an order that the keys need not respect. The pages have each
row once exactly when the cursor of every page stands between the rows up to its end and those
behind it (`Splits`): `followed_of_splits` and `splits_of_followed`.
-/

namespace Paging

/-! ## Readers -/

section
variable {κ π : Type*} (fetch : Option κ → π) (next : π → Option κ)

/-- The pages of a reader that goes on from a cursor until a page has none. -/
inductive Followed : Option κ → List π → Prop
  | last {c : Option κ} : next (fetch c) = none → Followed c [fetch c]
  | more {c : Option κ} {c' : κ} {pages : List π} : next (fetch c) = some c' →
      Followed (some c') pages → Followed c (fetch c :: pages)

variable {fetch next}

theorem Followed.unique {c : Option κ} {pages pages' : List π} (h : Followed fetch next c pages)
    (h' : Followed fetch next c pages') : pages = pages' := by
  induction h generalizing pages' with
  | last hnone =>
    cases h' with
    | last => rfl
    | more hsome => rw [hnone] at hsome; cases hsome
  | more hsome _ ih =>
    cases h' with
    | last hnone => rw [hnone] at hsome; cases hsome
    | more hsome' hrest =>
      obtain rfl := Option.some.inj (hsome.symm.trans hsome')
      rw [ih hrest]

/-- Two sources whose contents are the same, and whose cursors correspond, are read the same
way. -/
theorem Followed.transfer_map {ι ρ χ : Type*} {fetch' : Option ι → ρ} {next' : ρ → Option ι}
    {e : κ → ι} {read : π → χ} {read' : ρ → χ}
    (hnext : ∀ c, next' (fetch' (c.map e)) = (next (fetch c)).map e)
    (hread : ∀ c, read' (fetch' (c.map e)) = read (fetch c)) {c : Option κ} {pages : List π}
    (h : Followed fetch next c pages) :
    ∃ answers, Followed fetch' next' (c.map e) answers ∧ answers.map read' = pages.map read := by
  induction h with
  | @last c hnone =>
    refine ⟨[fetch' (c.map e)], .last (by rw [hnext, hnone]; rfl), ?_⟩
    rw [List.map_singleton, hread, List.map_singleton]
  | @more c c' pages hsome _ ih =>
    obtain ⟨answers, hanswers, heq⟩ := ih
    refine ⟨fetch' (c.map e) :: answers, .more (by rw [hnext, hsome]; rfl) hanswers, ?_⟩
    rw [List.map_cons, hread, heq, List.map_cons]

theorem Followed.transfer {ρ χ : Type*} {fetch' : Option κ → ρ} {next' : ρ → Option κ}
    {read : π → χ} {read' : ρ → χ} (hnext : ∀ c, next' (fetch' c) = next (fetch c))
    (hread : ∀ c, read' (fetch' c) = read (fetch c)) {c : Option κ} {pages : List π}
    (h : Followed fetch next c pages) :
    ∃ answers, Followed fetch' next' c answers ∧ answers.map read' = pages.map read := by
  have hmap : ∃ answers, Followed fetch' next' (c.map id) answers ∧
      answers.map read' = pages.map read :=
    h.transfer_map (by simpa using hnext) (by simpa using hread)
  rwa [Option.map_id_fun, id] at hmap

end

/-! ## Pages of rows -/

section
variable {β κ : Type*}

/-- How pages are cut: their size, the key of a row, and the cursor that a page leaves. -/
structure Scheme (β κ : Type*) where
  limit : Nat
  key : β → κ
  cursor : List β → Option κ

namespace Scheme

variable (s : Scheme β κ)

/-- The cursor is the key of a row of the page, and every full page has one. -/
structure Sound : Prop where
  limit_pos : 0 < s.limit
  key_of_cursor : ∀ {p c}, s.cursor p = some c → ∃ x ∈ p, s.key x = c
  full : ∀ {p}, p.length = s.limit → s.cursor p ≠ none

/-- The block of rows behind the first `k` full ones. -/
def block (rows : List β) (k : Nat) : List β := (rows.drop (k * s.limit)).take s.limit

variable {s} {rows : List β}

theorem cursor_nil (h : s.Sound) : s.cursor [] = none := by
  by_contra hne
  obtain ⟨c, hc⟩ := Option.ne_none_iff_exists'.1 hne
  obtain ⟨x, hx, -⟩ := h.key_of_cursor hc
  cases hx

theorem length_lt_of_last (h : s.Sound) {rest : List β}
    (hnone : s.cursor (rest.take s.limit) = none) : rest.length < s.limit := by
  by_contra hge
  exact h.full (by rw [List.length_take, Nat.min_eq_left (by omega)]) hnone

theorem block_succ (k : Nat) : s.block rows (k + 1) = s.block (rows.drop s.limit) k := by
  rw [block, block, List.drop_drop, Nat.succ_mul, Nat.add_comm]

theorem take_flatten (pages : List (List β))
    (hblocks : ∀ k p, pages[k]? = some p → p = s.block rows k) {n : Nat} (hn : n ≤ pages.length) : (pages.take n).flatten = rows.take (n * s.limit) := by
  induction n with
  | zero => simp
  | succ n ih =>
    obtain ⟨p, hp⟩ : ∃ p, pages[n]? = some p := ⟨_, List.getElem?_eq_getElem hn⟩
    rw [List.take_add_one, hp, Option.toList_some, List.flatten_append, List.flatten_singleton,
      ih (Nat.le_of_lt hn), hblocks n p hp, block, ← List.take_add, Nat.succ_mul]

/-- A reader that asks again after every full page, unless that one had all the rows, is wrong only
when the rows fill their pages. -/
theorem asks_again_iff (h : s.Sound) (hnodup : rows.Nodup) {pages : List (List β)}
    (hflat : pages.flatten = rows) (hblocks : ∀ k p, pages[k]? = some p → p = s.block rows k) :
    (∀ k p, pages[k]? = some p → ((p.length = s.limit ∧ p.length < rows.length) ↔
      ∃ x ∈ rows, x ∉ (pages.take (k + 1)).flatten)) ↔
      ¬ (s.limit ∣ rows.length ∧ s.limit < rows.length) := by
  have hpos := h.limit_pos
  have hlength : rows.length ≤ pages.length * s.limit := by
    have htake := take_flatten pages hblocks (Nat.le_refl _)
    rw [List.take_length, hflat] at htake
    have hlen := congrArg List.length htake
    rw [List.length_take] at hlen
    omega
  have hleft : ∀ k p, pages[k]? = some p →
      ((∃ x ∈ rows, x ∉ (pages.take (k + 1)).flatten) ↔ (k + 1) * s.limit < rows.length) := by
    intro k p hp
    rw [take_flatten pages hblocks (List.getElem?_eq_some_iff.1 hp).1]
    constructor
    · rintro ⟨x, hx, hnot⟩
      by_contra hge
      rw [List.take_of_length_le (not_lt.1 hge)] at hnot
      exact hnot hx
    · intro hlt
      obtain ⟨x, hx⟩ : ∃ x, x ∈ rows.drop ((k + 1) * s.limit) := by
        refine List.exists_mem_of_length_pos ?_
        rw [List.length_drop]
        omega
      refine ⟨x, List.mem_of_mem_drop hx, fun htake => ?_⟩
      rw [← List.take_append_drop ((k + 1) * s.limit) rows] at hnodup
      exact List.disjoint_of_nodup_append hnodup htake hx
  have hfull : ∀ k p, pages[k]? = some p →
      (p.length = s.limit ↔ (k + 1) * s.limit ≤ rows.length) := by
    intro k p hp
    rw [hblocks k p hp, block, List.length_take, List.length_drop, Nat.succ_mul]
    omega
  constructor
  · rintro hasks ⟨⟨m, hm⟩, hlt⟩
    obtain ⟨k, rfl⟩ : ∃ k, m = k + 1 := by
      refine Nat.exists_eq_succ_of_ne_zero ?_
      rintro rfl
      omega
    have hm : rows.length = (k + 1) * s.limit := by rw [hm, Nat.mul_comm]
    have hk : k < pages.length := by
      by_contra hge
      have hle := Nat.mul_le_mul_right s.limit (not_lt.1 hge)
      rw [Nat.succ_mul] at hm
      omega
    obtain ⟨p, hp⟩ : ∃ p, pages[k]? = some p := ⟨_, List.getElem?_eq_getElem hk⟩
    have hlen := (hfull k p hp).2 (Nat.le_of_eq hm.symm)
    have hmore := (hleft k p hp).1 ((hasks k p hp).1 ⟨hlen, by omega⟩)
    omega
  · intro hno k p hp
    rw [hleft k p hp]
    constructor
    · rintro ⟨hlen, hlt⟩
      have hle := (hfull k p hp).1 hlen
      refine Nat.lt_of_le_of_ne hle fun heq => hno ⟨⟨k + 1, ?_⟩, by omega⟩
      rw [← heq, Nat.mul_comm]
    · intro hlt
      have hlen := (hfull k p hp).2 (Nat.le_of_lt hlt)
      refine ⟨hlen, ?_⟩
      rw [Nat.succ_mul] at hlt
      omega

variable (s) [LinearOrder κ]

/-- The rows beyond a cursor. -/
def beyond (rows : List β) (c : Option κ) : List β :=
  rows.filter fun x => c.all (· < s.key x)

def page (rows : List β) (c : Option κ) : List β := (s.beyond rows c).take s.limit

/-- The cursor of each block is below the keys of just the rows behind the block. -/
def Splits (rows : List β) : Prop :=
  ∀ k c, s.cursor (s.block rows k) = some c →
    (rows.drop (k * s.limit)).filter (c < s.key ·) = rows.drop ((k + 1) * s.limit)

variable {s}

theorem beyond_none : s.beyond rows none = rows := List.filter_eq_self.2 fun _ _ => rfl

/-- A cursor of a page looks further than the one before. -/
theorem beyond_some (h : s.Sound) {c : Option κ} {c' : κ}
    (hc : s.cursor (s.page rows c) = some c') :
    s.beyond rows (some c') = (s.beyond rows c).filter (c' < s.key ·) := by
  obtain ⟨x, hx, rfl⟩ := h.key_of_cursor hc
  have hx := (List.mem_filter.1 (List.mem_of_mem_take hx)).2
  rw [beyond, beyond, List.filter_filter]
  refine List.filter_congr fun y _ => ?_
  cases c with
  | none => simp
  | some c =>
    simp only [Option.all_some, decide_eq_true_eq] at hx
    have himp : s.key x < s.key y → c < s.key y := hx.trans
    simpa using himp

/-- Behind a page there are fewer rows. -/
theorem length_beyond (h : s.Sound) {rest : List β} {c : κ}
    (hc : s.cursor (rest.take s.limit) = some c) :
    (rest.filter (c < s.key ·)).length < rest.length := by
  obtain ⟨x, hx, rfl⟩ := h.key_of_cursor hc
  refine List.length_filter_lt_length_iff_exists.2 ⟨x, List.mem_of_mem_take hx, ?_⟩
  simp

/-! ### The rows that are left -/

variable (s) in
/-- The pages of the rows that are left. -/
inductive Read : List β → List (List β) → Prop
  | last {rest : List β} : s.cursor (rest.take s.limit) = none → Read rest [rest.take s.limit]
  | more {rest : List β} {c : κ} {pages : List (List β)} :
      s.cursor (rest.take s.limit) = some c → Read (rest.filter (c < s.key ·)) pages →
      Read rest (rest.take s.limit :: pages)

theorem read_of_followed (h : s.Sound) {c : Option κ} {pages : List (List β)}
    (hf : Followed (s.page rows) s.cursor c pages) : s.Read (s.beyond rows c) pages := by
  induction hf with
  | last hnone => exact .last hnone
  | more hsome _ ih =>
    rw [beyond_some h hsome] at ih
    exact .more hsome ih

theorem followed_of_read (h : s.Sound) {rest : List β} {pages : List (List β)}
    (hr : s.Read rest pages) {c : Option κ} (hrest : rest = s.beyond rows c) :
    Followed (s.page rows) s.cursor c pages := by
  induction hr generalizing c with
  | last hnone =>
    subst hrest
    exact .last hnone
  | more hsome _ ih =>
    subst hrest
    exact .more hsome (ih (beyond_some h hsome).symm)

theorem exists_read (h : s.Sound) (rest : List β) : ∃ pages, s.Read rest pages := by
  induction hn : rest.length using Nat.strongRecOn generalizing rest with
  | _ n ih =>
    subst hn
    cases hc : s.cursor (rest.take s.limit) with
    | none => exact ⟨_, .last hc⟩
    | some c =>
      obtain ⟨pages, hpages⟩ := ih _ (length_beyond h hc) _ rfl
      exact ⟨_, .more hc hpages⟩

theorem subset_of_read {rest : List β} {pages : List (List β)} (hr : s.Read rest pages) :
    pages.flatten ⊆ rest := by
  induction hr with
  | last =>
    rw [List.flatten_singleton]
    exact fun _ hx => List.mem_of_mem_take hx
  | more _ _ ih =>
    rw [List.flatten_cons]
    intro x hx
    rcases List.mem_append.1 hx with hx | hx
    · exact List.mem_of_mem_take hx
    · exact (List.mem_filter.1 (ih hx)).1

theorem head_of_read (h : s.Sound) {x : β} {rest : List β} {pages : List (List β)}
    (hr : s.Read (x :: rest) pages) : x ∈ pages.flatten := by
  have htake : x ∈ (x :: rest).take s.limit := by
    obtain ⟨n, hn⟩ := Nat.exists_eq_succ_of_ne_zero (Nat.ne_of_gt h.limit_pos)
    rw [hn, List.take_succ_cons]
    exact List.mem_cons_self
  cases hr with
  | last => simpa using htake
  | more =>
    rw [List.flatten_cons]
    exact List.mem_append_left _ htake

/-! ### Each row once -/

theorem splits_cons {c : κ} (hc : s.cursor (rows.take s.limit) = some c)
    (hfirst : rows.filter (c < s.key ·) = rows.drop s.limit)
    (hrest : s.Splits (rows.drop s.limit)) : s.Splits rows := by
  intro k c' hc'
  cases k with
  | zero =>
    rw [block, Nat.zero_mul, List.drop_zero, hc] at hc'
    obtain rfl := Option.some.inj hc'
    rw [Nat.zero_mul, List.drop_zero, hfirst, Nat.zero_add, Nat.one_mul]
  | succ k =>
    have hdrop : ∀ j, (rows.drop s.limit).drop (j * s.limit) = rows.drop ((j + 1) * s.limit) := by
      intro j
      rw [List.drop_drop, Nat.succ_mul, Nat.add_comm]
    rw [block, ← hdrop] at hc'
    rw [← hdrop, ← hdrop (k + 1)]
    exact hrest k c' hc'

theorem Splits.drop (h : s.Splits rows) : s.Splits (rows.drop s.limit) := by
  have hdrop : ∀ j, (rows.drop s.limit).drop (j * s.limit) = rows.drop ((j + 1) * s.limit) := by
    intro j
    rw [List.drop_drop, Nat.succ_mul, Nat.add_comm]
  intro k c hc
  rw [block, hdrop] at hc
  rw [hdrop, hdrop]
  exact h (k + 1) c hc

/-- When the pages have the rows once each, nothing of a page is beyond its cursor, and everything
behind it is. -/
theorem splits_of_read (h : s.Sound) {pages : List (List β)} (hr : s.Read rows pages)
    (hnodup : rows.Nodup) (hperm : pages.flatten.Perm rows) : s.Splits rows := by
  induction hr with
  | @last rest hnone =>
    have hshort := length_lt_of_last h hnone
    intro k c hc
    cases k with
    | zero =>
      rw [block, Nat.zero_mul, List.drop_zero, hnone] at hc
      cases hc
    | succ k =>
      have hmul : s.limit ≤ (k + 1) * s.limit := Nat.le_mul_of_pos_left _ (Nat.succ_pos k)
      rw [block, List.drop_eq_nil_of_le (by omega), List.take_nil, cursor_nil h] at hc
      cases hc
  | @more rest c pages hsome hread ih =>
    rw [List.flatten_cons] at hperm
    have hsplit : rest.take s.limit ++ rest.drop s.limit = rest := List.take_append_drop _ _
    have hbehind : pages.flatten.Perm (rest.drop s.limit) := by
      rw [← List.perm_append_left_iff (rest.take s.limit), hsplit]
      exact hperm
    have hdisjoint := List.disjoint_of_nodup_append (hsplit.symm ▸ hnodup)
    have hall : (rest.drop s.limit).filter (c < s.key ·) = rest.drop s.limit :=
      List.filter_eq_self.2 fun x hx =>
        (List.mem_filter.1 (subset_of_read hread (hbehind.mem_iff.2 hx))).2
    have hrest : rest.filter (c < s.key ·) = rest.drop s.limit := by
      conv_lhs => rw [← hsplit, List.filter_append, hall]
      cases hpage : (rest.take s.limit).filter (c < s.key ·) with
      | nil => rfl
      | cons x xs =>
        -- such a row would come again, on the next page
        rw [← hsplit, List.filter_append, hpage, List.cons_append] at hread
        have hx : x ∈ (rest.take s.limit).filter (c < s.key ·) := by simp [hpage]
        exact absurd (hbehind.mem_iff.1 (head_of_read h hread))
          (hdisjoint (List.mem_filter.1 hx).1)
    rw [hrest] at ih
    exact splits_cons hsome hrest (ih (hnodup.sublist (List.drop_sublist _ _)) hbehind)

/-- Then the pages are the blocks. -/
theorem read_of_splits (h : s.Sound) {pages : List (List β)} (hr : s.Read rows pages)
    (hsplits : s.Splits rows) :
    pages.flatten = rows ∧ ∀ k p, pages[k]? = some p → p = s.block rows k := by
  induction hr with
  | @last rest hnone =>
    have hshort := length_lt_of_last h hnone
    refine ⟨?_, fun k p hp => ?_⟩
    · rw [List.flatten_singleton, List.take_of_length_le (by omega)]
    · obtain ⟨rfl, rfl⟩ : k = 0 ∧ p = rest.take s.limit := by
        cases k with
        | zero => exact ⟨rfl, (Option.some.inj hp).symm⟩
        | succ k => cases hp
      rw [block, Nat.zero_mul, List.drop_zero]
  | @more rest c pages hsome _ ih =>
    have hrest : rest.filter (c < s.key ·) = rest.drop s.limit := by
      have := hsplits 0 c (by rw [block, Nat.zero_mul, List.drop_zero]; exact hsome)
      rwa [Nat.zero_mul, List.drop_zero, Nat.zero_add, Nat.one_mul] at this
    rw [hrest] at ih
    obtain ⟨hflat, hpages⟩ := ih hsplits.drop
    refine ⟨?_, fun k p hp => ?_⟩
    · rw [List.flatten_cons, hflat, List.take_append_drop]
    · cases k with
      | zero =>
        obtain rfl : rest.take s.limit = p := Option.some.inj hp
        rw [block, Nat.zero_mul, List.drop_zero]
      | succ k =>
        rw [block_succ]
        exact hpages k p hp

/-- The pages of a reader, when each block splits the rows at its cursor. -/
theorem followed_of_splits (h : s.Sound) (hsplits : s.Splits rows) {pages : List (List β)}
    (hf : Followed (s.page rows) s.cursor none pages) :
    pages.flatten = rows ∧ ∀ k p, pages[k]? = some p → p = s.block rows k := by
  have hr := read_of_followed h hf
  rw [beyond_none] at hr
  exact read_of_splits h hr hsplits

/-- A reader comes to an end. -/
theorem exists_followed (h : s.Sound) (rows : List β) :
    ∃ pages, Followed (s.page rows) s.cursor none pages := by
  obtain ⟨pages, hr⟩ := exists_read h rows
  exact ⟨pages, followed_of_read h hr beyond_none.symm⟩

theorem subset_of_followed (h : s.Sound) {pages : List (List β)}
    (hf : Followed (s.page rows) s.cursor none pages) : pages.flatten ⊆ rows := by
  have hr := read_of_followed h hf
  rw [beyond_none] at hr
  exact subset_of_read hr

theorem splits_of_followed (h : s.Sound) (hnodup : rows.Nodup) {pages : List (List β)}
    (hf : Followed (s.page rows) s.cursor none pages) (hperm : pages.flatten.Perm rows) :
    s.Splits rows := by
  have hr := read_of_followed h hf
  rw [beyond_none] at hr
  exact splits_of_read h hr hnodup hperm

/-- What splitting means for the rows behind each cursor. -/
theorem splits_iff (h : s.Sound) (hnodup : rows.Nodup) :
    s.Splits rows ↔ ∀ k c, s.cursor (s.block rows k) = some c → ∀ x ∈ rows,
      (c < s.key x ↔ x ∈ rows.drop ((k + 1) * s.limit)) := by
  have hparts : ∀ k, rows.drop (k * s.limit) =
      s.block rows k ++ rows.drop ((k + 1) * s.limit) := by
    intro k
    rw [block, Nat.succ_mul, ← List.drop_drop, List.take_append_drop]
  constructor
  · intro hsplits k
    induction k with
    | zero =>
      intro c hc x hx
      have hdrop := hsplits 0 c hc
      rw [Nat.zero_mul, List.drop_zero] at hdrop
      rw [← hdrop, List.mem_filter]
      simp [hx]
    | succ k ih =>
      intro c hc x hx
      have hdrop := hsplits (k + 1) c hc
      rw [← hdrop, List.mem_filter]
      simp only [decide_eq_true_eq]
      refine ⟨fun hlt => ⟨?_, hlt⟩, fun hx => hx.2⟩
      -- the cursor is one of the rows behind the block before
      obtain ⟨y, hy, rfl⟩ := h.key_of_cursor hc
      have hy : y ∈ rows.drop ((k + 1) * s.limit) := List.mem_of_mem_take hy
      have hfull : (s.block rows k).length = s.limit := by
        have hlen := List.length_pos_of_mem hy
        rw [List.length_drop] at hlen
        rw [block, List.length_take, List.length_drop, Nat.min_eq_left]
        rw [Nat.succ_mul] at hlen
        omega
      obtain ⟨c', hc'⟩ := Option.ne_none_iff_exists'.1 (h.full hfull)
      exact (ih c' hc' x hx).1 (((ih c' hc' y (List.mem_of_mem_drop hy)).2 hy).trans hlt)
  · intro hiff k c hc
    have hnodup := hnodup.sublist (List.drop_sublist (k * s.limit) rows)
    rw [hparts k] at hnodup ⊢
    have hblock : (s.block rows k).filter (c < s.key ·) = [] := by
      refine List.filter_eq_nil_iff.2 fun x hx hlt => ?_
      have hmem : x ∈ rows := List.mem_of_mem_drop (List.mem_of_mem_take hx)
      exact List.disjoint_of_nodup_append hnodup hx
        ((hiff k c hc x hmem).1 (by simpa using hlt))
    have hrest : (rows.drop ((k + 1) * s.limit)).filter (c < s.key ·) =
        rows.drop ((k + 1) * s.limit) := by
      refine List.filter_eq_self.2 fun x hx => ?_
      simpa using (hiff k c hc x (List.mem_of_mem_drop hx)).2 hx
    rw [List.filter_append, hblock, hrest, List.nil_append]

/-- When the cursor is the largest key of a page, the keys have to rise from page to page. -/
theorem splits_iff_rises (h : s.Sound) (hnodup : rows.Nodup)
    (hmax : ∀ {p c}, s.cursor p = some c → ∀ x ∈ p, s.key x ≤ c) :
    s.Splits rows ↔ ∀ k, ∀ x ∈ rows.take ((k + 1) * s.limit),
      ∀ y ∈ rows.drop ((k + 1) * s.limit), s.key x < s.key y := by
  have hparts : ∀ k, rows.take ((k + 1) * s.limit) =
      rows.take (k * s.limit) ++ s.block rows k := by
    intro k
    rw [block, Nat.succ_mul, List.take_add]
  rw [splits_iff h hnodup]
  constructor
  · intro hsplits k x hx y hy
    have hfull : (s.block rows k).length = s.limit := by
      have hlen := List.length_pos_of_mem hy
      rw [List.length_drop] at hlen
      rw [block, List.length_take, List.length_drop, Nat.min_eq_left]
      rw [Nat.succ_mul] at hlen
      omega
    obtain ⟨c, hc⟩ := Option.ne_none_iff_exists'.1 (h.full hfull)
    have hcy := (hsplits k c hc y (List.mem_of_mem_drop hy)).2 hy
    have hxc : ¬ c < s.key x := fun hlt => by
      have hdrop := (hsplits k c hc x (List.mem_of_mem_take hx)).1 hlt
      rw [← List.take_append_drop ((k + 1) * s.limit) rows] at hnodup
      exact List.disjoint_of_nodup_append hnodup hx hdrop
    exact (not_lt.1 hxc).trans_lt hcy
  · intro hrises k c hc x hx
    obtain ⟨z, hz, rfl⟩ := h.key_of_cursor hc
    constructor
    · intro hlt
      rw [← List.take_append_drop ((k + 1) * s.limit) rows] at hx
      rcases List.mem_append.1 hx with hx | hx
      · rw [hparts] at hx
        rcases List.mem_append.1 hx with hx | hx
        · -- the cursor is behind this row's page, so its key is larger
          cases k with
          | zero => simp at hx
          | succ k =>
            exact absurd hlt (not_lt_of_gt (hrises k x hx z (List.mem_of_mem_take hz)))
        · exact absurd hlt (not_lt_of_ge (hmax hc x hx))
      · exact hx
    · intro hx
      refine hrises k z ?_ x hx
      rw [hparts]
      exact List.mem_append_right _ hz

end Scheme

/-! ## Rows in order -/

/-- Rows that are left out do not matter to the order of the others. -/
theorem insertionSort_filter {le : β → β → Prop} [DecidableRel le] [Std.Total le] [IsTrans β le]
    {rows : List β} (hanti : ∀ x ∈ rows, ∀ y ∈ rows, le x y → le y x → x = y) (p : β → Bool) :
    (rows.filter p).insertionSort le = (rows.insertionSort le).filter p := by
  have hmem : ∀ {x}, x ∈ (rows.filter p).insertionSort le → x ∈ rows := fun hx =>
    (List.mem_filter.1 ((List.mem_insertionSort le).1 hx)).1
  have hmem' : ∀ {x}, x ∈ (rows.insertionSort le).filter p → x ∈ rows := fun hx =>
    (List.mem_insertionSort le).1 (List.mem_filter.1 hx).1
  refine List.Perm.eq_of_pairwise (fun x y hx hy => hanti x (hmem hx) y (hmem' hy))
    (List.pairwise_insertionSort le _) ((List.pairwise_insertionSort le rows).sublist
      List.filter_sublist) ?_
  exact (List.perm_insertionSort le _).trans ((List.perm_insertionSort le rows).symm.filter p)

end

end Paging
