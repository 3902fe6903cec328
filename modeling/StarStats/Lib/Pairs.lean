import Mathlib.Data.List.Induction
import Mathlib.Data.List.Nodup

/-!
# Pairs in a flat list

`layout` writes a list of pairs out as one list. Cut into chunks of an even size it falls into
pairs again (`chunks_layout`), and dropping repeated elements drops repeated pairs, when pairs
that share an element are equal (`eraseDups_layout`); then no chunk has one half of a pair only
(`snd_mem_of_fst_mem`). Where only the second halves repeat, `not_torn_iff` says when a first half
comes in chunks without its second.
-/

namespace Pairs

variable {α : Type*}

def layout (ps : List (α × α)) : List α := ps.flatMap fun p => [p.1, p.2]

@[simp] theorem layout_nil : layout ([] : List (α × α)) = [] := rfl

@[simp] theorem layout_cons (p : α × α) (ps : List (α × α)) :
    layout (p :: ps) = p.1 :: p.2 :: layout ps := rfl

theorem mem_layout {a : α} {ps : List (α × α)} :
    a ∈ layout ps ↔ ∃ p ∈ ps, a = p.1 ∨ a = p.2 := by
  simp [layout]

theorem layout_append (ps qs : List (α × α)) : layout (ps ++ qs) = layout ps ++ layout qs :=
  List.flatMap_append

theorem layout_concat (ps : List (α × α)) (p : α × α) :
    layout (ps ++ [p]) = layout ps ++ [p.1] ++ [p.2] := by
  simp [layout]

/-! ## Chunks -/

/-- At most `k` chunks of `n` elements; the last may be shorter. -/
def chunksUpTo (n : Nat) : Nat → List α → List (List α)
  | 0, _ => []
  | k + 1, l => if l.isEmpty then [] else l.take n :: chunksUpTo n k (l.drop n)

/-- Chunks of `n` elements; the last may be shorter. -/
def chunks (n : Nat) (l : List α) : List (List α) := chunksUpTo n l.length l

theorem flatten_chunksUpTo {n : Nat} (hn : 0 < n) :
    ∀ {k : Nat} {l : List α}, l.length ≤ k → (chunksUpTo n k l).flatten = l
  | 0, l, h => by
    have hl : l = [] := List.length_eq_zero_iff.1 (Nat.le_zero.1 h)
    simp [chunksUpTo, hl]
  | k + 1, l, h => by
    unfold chunksUpTo
    by_cases hl : l.isEmpty
    · rw [if_pos hl, List.isEmpty_iff.1 hl]
      rfl
    · have hpos : 0 < l.length := by
        apply List.length_pos_iff.2
        simpa using hl
      have hdrop : (l.drop n).length ≤ k := by
        rw [List.length_drop]
        omega
      rw [if_neg hl, List.flatten_cons, flatten_chunksUpTo hn hdrop, List.take_append_drop]

theorem flatten_chunks {n : Nat} (hn : 0 < n) (l : List α) : (chunks n l).flatten = l :=
  flatten_chunksUpTo hn (Nat.le_refl _)

theorem flatten_take_chunksUpTo {n : Nat} : ∀ {j : Nat} {l : List α} (k : Nat), l.length ≤ j →
    0 < n → ((chunksUpTo n j l).take k).flatten = l.take (n * k)
  | 0, l, k, h, _ => by
    have hl : l = [] := List.length_eq_zero_iff.1 (Nat.le_zero.1 h)
    simp [chunksUpTo, hl]
  | j + 1, l, 0, _, _ => by simp
  | j + 1, [], k + 1, _, _ => by simp [chunksUpTo]
  | j + 1, a :: l, k + 1, h, hn => by
    have hdrop : ((a :: l).drop n).length ≤ j := by
      rw [List.length_drop]
      omega
    have hsplit : n * (k + 1) = n + n * k := by rw [Nat.mul_succ, Nat.add_comm]
    unfold chunksUpTo
    rw [if_neg (by simp), List.take_succ_cons, List.flatten_cons,
      flatten_take_chunksUpTo k hdrop hn, hsplit, List.take_add]

theorem lt_length_chunksUpTo {n : Nat} : ∀ {j : Nat} {l : List α} (k : Nat), l.length ≤ j →
    0 < n → (k < (chunksUpTo n j l).length ↔ n * k < l.length)
  | 0, l, k, h, _ => by
    have hl : l = [] := List.length_eq_zero_iff.1 (Nat.le_zero.1 h)
    simp [chunksUpTo, hl]
  | j + 1, [], k, _, _ => by simp [chunksUpTo]
  | j + 1, a :: l, 0, _, _ => by simp [chunksUpTo]
  | j + 1, a :: l, k + 1, h, hn => by
    have hdrop : ((a :: l).drop n).length ≤ j := by
      rw [List.length_drop]
      omega
    have ih := lt_length_chunksUpTo k hdrop hn
    rw [List.length_drop] at ih
    unfold chunksUpTo
    rw [if_neg (by simp), List.length_cons, Nat.succ_lt_succ_iff, ih, Nat.mul_succ]
    omega

/-- The first chunks are the first elements. -/
theorem flatten_take_chunks {n : Nat} (hn : 0 < n) (k : Nat) (l : List α) :
    ((chunks n l).take k).flatten = l.take (n * k) :=
  flatten_take_chunksUpTo k (Nat.le_refl _) hn

theorem lt_length_chunks {n : Nat} (hn : 0 < n) {k : Nat} {l : List α} :
    k < (chunks n l).length ↔ n * k < l.length :=
  lt_length_chunksUpTo k (Nat.le_refl _) hn

/-- What fits in one chunk is one chunk. -/
theorem eq_of_mem_chunks {n : Nat} {l c : List α} (h : l.length ≤ n) (hc : c ∈ chunks n l) :
    c = l := by
  cases l with
  | nil => simp [chunks, chunksUpTo] at hc
  | cons a l =>
    have hrest : chunksUpTo n l.length ([] : List α) = [] := by
      cases l.length <;> rfl
    simp only [chunks, List.length_cons, chunksUpTo, List.isEmpty_cons, Bool.false_eq_true,
      if_false, List.take_of_length_le h, List.drop_of_length_le h, hrest,
      List.mem_singleton] at hc
    exact hc

theorem take_layout : ∀ (m : Nat) (ps : List (α × α)),
    (layout ps).take (2 * m) = layout (ps.take m)
  | 0, ps => by simp
  | m + 1, [] => by simp
  | m + 1, p :: ps => by
    rw [show 2 * (m + 1) = 2 * m + 2 by omega]
    simp [take_layout m ps]

theorem drop_layout : ∀ (m : Nat) (ps : List (α × α)),
    (layout ps).drop (2 * m) = layout (ps.drop m)
  | 0, ps => by simp
  | m + 1, [] => by simp
  | m + 1, p :: ps => by
    rw [show 2 * (m + 1) = 2 * m + 2 by omega]
    simp [drop_layout m ps]

theorem chunksUpTo_layout (m : Nat) : ∀ (k : Nat) (ps : List (α × α)),
    chunksUpTo (2 * m) k (layout ps) = (chunksUpTo m k ps).map layout
  | 0, ps => rfl
  | k + 1, [] => by simp [chunksUpTo]
  | k + 1, p :: ps => by
    simp only [chunksUpTo, layout_cons, List.isEmpty_cons, Bool.false_eq_true, if_false,
      List.map_cons]
    rw [← layout_cons, take_layout, drop_layout, chunksUpTo_layout m k]

/-- Chunks of an even size hold whole pairs. -/
theorem chunks_layout {m : Nat} (hm : 0 < m) (ps : List (α × α)) :
    ∃ cs : List (List (α × α)), chunks (2 * m) (layout ps) = cs.map layout ∧ cs.flatten = ps := by
  refine ⟨chunksUpTo m (layout ps).length ps, chunksUpTo_layout m _ ps, ?_⟩
  apply flatten_chunksUpTo hm
  induction ps with
  | nil => simp
  | cons p ps ih =>
    simp only [layout_cons, List.length_cons]
    omega

/-! ## Repeated elements -/

/-- Elements of a pair occur in that pair only. -/
structure Apart (ps : List (α × α)) : Prop where
  fst : ∀ p ∈ ps, ∀ q ∈ ps, p.1 = q.1 → p = q
  snd : ∀ p ∈ ps, ∀ q ∈ ps, p.2 = q.2 → p = q
  cross : ∀ p ∈ ps, ∀ q ∈ ps, p.1 ≠ q.2

theorem Apart.mono {ps qs : List (α × α)} (h : Apart ps) (hsub : ∀ q ∈ qs, q ∈ ps) : Apart qs where
  fst p hp q hq := h.fst p (hsub p hp) q (hsub q hq)
  snd p hp q hq := h.snd p (hsub p hp) q (hsub q hq)
  cross p hp q hq := h.cross p (hsub p hp) q (hsub q hq)

section
variable [DecidableEq α]

/-- Without the elements of one pair the other pairs are left. -/
theorem filter_layout {p : α × α} : ∀ {ps : List (α × α)}, Apart (p :: ps) →
    ((layout ps).filter fun a => !a == p.1).filter (fun a => !a == p.2) =
      layout (ps.filter fun q => !q == p)
  | [], _ => rfl
  | q :: ps, h => by
    have hp : p ∈ p :: q :: ps := .head _
    have hq : q ∈ p :: q :: ps := .tail _ (.head _)
    have hrest : Apart (p :: ps) := h.mono fun x hx => by
      rcases List.mem_cons.1 hx with rfl | hx
      · exact hp
      · exact .tail _ (.tail _ hx)
    have ih := filter_layout hrest
    have h12 : q.1 ≠ p.2 := h.cross q hq p hp
    have h21 : q.2 ≠ p.1 := (h.cross p hp q hq).symm
    by_cases heq : q = p
    · subst heq
      simpa [h12, h21] using ih
    · have h1 : q.1 ≠ p.1 := fun he => heq (h.fst q hq p hp he)
      have h2 : q.2 ≠ p.2 := fun he => heq (h.snd q hq p hp he)
      simpa [heq, h1, h2, h12, h21] using ih

theorem eraseDups_layout_of_length : ∀ (n : Nat) {ps : List (α × α)}, ps.length ≤ n → Apart ps →
    (layout ps).eraseDups = layout ps.eraseDups
  | _, [], _, _ => rfl
  | n + 1, p :: ps, hn, h => by
    have hlen : (ps.filter fun q => !q == p).length ≤ n :=
      Nat.le_trans (List.length_filter_le _ _) (Nat.le_of_succ_le_succ hn)
    have hapart : Apart (ps.filter fun q => !q == p) :=
      h.mono fun q hq => .tail _ (List.mem_of_mem_filter hq)
    have hne : p.2 ≠ p.1 := (h.cross p (.head _) p (.head _)).symm
    have ih := eraseDups_layout_of_length n hlen hapart
    rw [← filter_layout h] at ih
    simp only [layout_cons, List.eraseDups_cons, List.filter_cons, hne, Bool.not_eq_true',
      beq_eq_false_iff_ne, ne_eq, not_false_eq_true, if_true, ih]

theorem eraseDups_layout {ps : List (α × α)} (h : Apart ps) :
    (layout ps).eraseDups = layout ps.eraseDups :=
  eraseDups_layout_of_length ps.length (Nat.le_refl _) h

/-- In chunks of an even size a pair is not torn apart. -/
theorem snd_mem_of_fst_mem {m : Nat} (hm : 0 < m) {ps : List (α × α)} (h : Apart ps) {c : List α}
    (hc : c ∈ chunks (2 * m) (layout ps).eraseDups) {p : α × α} (hp : p ∈ ps) (hfst : p.1 ∈ c) :
    p.2 ∈ c := by
  obtain ⟨cs, hcs, hflat⟩ := chunks_layout hm ps.eraseDups
  rw [eraseDups_layout h, hcs] at hc
  obtain ⟨c', hc', rfl⟩ := List.mem_map.1 hc
  obtain ⟨q, hq, heq⟩ := mem_layout.1 hfst
  have hqs : q ∈ ps := by
    rw [← List.mem_eraseDups, ← hflat]
    exact List.mem_flatten.2 ⟨c', hc', hq⟩
  obtain heq | heq := heq
  · rw [h.fst p hp q hqs heq]
    exact mem_layout.2 ⟨q, hq, .inr rfl⟩
  · exact absurd heq (h.cross p hp q hqs)

/-! ## Second halves that repeat -/

theorem eraseDups_concat (l : List α) (a : α) :
    (l ++ [a]).eraseDups = l.eraseDups ++ if a ∈ l then [] else [a] := by
  rw [List.eraseDups_append]
  by_cases h : a ∈ l <;> simp [List.removeAll, h, List.eraseDups_cons]

theorem nodup_eraseDups (l : List α) : l.eraseDups.Nodup := by
  induction l using List.reverseRecOn with
  | nil => exact List.nodup_nil
  | append_singleton l a ih =>
    rw [eraseDups_concat]
    split
    · rwa [List.append_nil]
    · rename_i h
      refine List.nodup_append.2 ⟨ih, List.nodup_singleton a, ?_⟩
      intro b hb c hc
      rw [List.mem_singleton.1 hc]
      rintro rfl
      exact h (List.mem_eraseDups.1 hb)

theorem length_eraseDups_map {β : Type*} [DecidableEq β] {f : α → β} (hf : f.Injective)
    (l : List α) : (l.map f).eraseDups.length = l.eraseDups.length := by
  induction l using List.reverseRecOn with
  | nil => rfl
  | append_singleton l a ih =>
    have hmem : f a ∈ l.map f ↔ a ∈ l := List.mem_map_of_injective hf
    rw [List.map_append, List.map_singleton, eraseDups_concat, eraseDups_concat,
      List.length_append, List.length_append, ih]
    by_cases h : a ∈ l <;> simp [hmem, h]

/-- Pairs with one first half are equal, and no first half is a second. -/
structure Directed (ps : List (α × α)) : Prop where
  fst : ∀ p ∈ ps, ∀ q ∈ ps, p.1 = q.1 → p = q
  cross : ∀ p ∈ ps, ∀ q ∈ ps, p.1 ≠ q.2

/-- Without repetitions, a multiple of `n` falls between the halves of a pair. -/
def Torn (n : Nat) (ps : List (α × α)) : Prop :=
  ∃ before p after, ps = before ++ p :: after ∧ p.1 ∉ layout before ∧ p.2 ∉ layout before ∧
    n ∣ (layout before).eraseDups.length + 1

theorem eraseDups_layout_concat (ps : List (α × α)) (p : α × α) :
    (layout (ps ++ [p])).eraseDups = (layout ps).eraseDups ++
      (if p.1 ∈ layout ps then [] else [p.1]) ++
      (if p.2 ∈ layout ps ++ [p.1] then [] else [p.2]) := by
  rw [layout_concat, eraseDups_concat, eraseDups_concat]

theorem initial_eraseDups_layout (before after : List (α × α)) :
    (layout before).eraseDups <+: (layout (before ++ after)).eraseDups := by
  rw [layout_append, List.eraseDups_append]
  exact List.prefix_append _ _

theorem length_eraseDups_layout {ps : List (α × α)} (h : ∀ p ∈ ps, ∀ q ∈ ps, p.1 ≠ q.2) :
    (layout ps).eraseDups.length =
      (ps.map (·.1)).eraseDups.length + (ps.map (·.2)).eraseDups.length := by
  induction ps using List.reverseRecOn with
  | nil => rfl
  | append_singleton ps p ih =>
    have hp : p ∈ ps ++ [p] := List.mem_append_right _ (.head _)
    have hleft : ∀ q ∈ ps, q ∈ ps ++ [p] := fun q hq => List.mem_append_left _ hq
    have h1 : p.1 ∈ layout ps ↔ p.1 ∈ ps.map (·.1) := by
      rw [mem_layout, List.mem_map]
      constructor
      · rintro ⟨q, hq, heq | heq⟩
        · exact ⟨q, hq, heq.symm⟩
        · exact absurd heq (h p hp q (hleft q hq))
      · rintro ⟨q, hq, heq⟩
        exact ⟨q, hq, .inl heq.symm⟩
    have h2 : p.2 ∈ layout ps ++ [p.1] ↔ p.2 ∈ ps.map (·.2) := by
      rw [List.mem_append, List.mem_singleton, mem_layout, List.mem_map]
      constructor
      · rintro (⟨q, hq, heq | heq⟩ | heq)
        · exact absurd heq.symm (h q (hleft q hq) p hp)
        · exact ⟨q, hq, heq.symm⟩
        · exact absurd heq.symm (h p hp p hp)
      · rintro ⟨q, hq, heq⟩
        exact .inl ⟨q, hq, .inr heq.symm⟩
    rw [eraseDups_layout_concat, List.map_append, List.map_append, List.map_singleton,
      List.map_singleton, eraseDups_concat, eraseDups_concat]
    simp only [List.length_append, ih fun q hq r hr => h q (hleft q hq) r (hleft r hr), h1, h2]
    omega

/-- An initial part of the distinct elements is that of some pairs, or ends within one. -/
theorem exists_cut {n : Nat} (ps : List (α × α)) (hn : n ≤ (layout ps).eraseDups.length) :
    ∃ before after, ps = before ++ after ∧ ((layout before).eraseDups.length = n ∨
      ∃ p after', after = p :: after' ∧ p.1 ∉ layout before ∧ p.2 ∉ layout before ∧
        (layout before).eraseDups.length + 1 = n) := by
  induction ps using List.reverseRecOn with
  | nil => exact ⟨[], [], rfl, .inl (Nat.le_zero.1 hn).symm⟩
  | append_singleton ps p ih =>
    by_cases hle : n ≤ (layout ps).eraseDups.length
    · obtain ⟨before, after, heq, hcut⟩ := ih hle
      refine ⟨before, after ++ [p], by rw [heq, List.append_assoc], hcut.imp_right ?_⟩
      rintro ⟨q, after', rfl, hrest⟩
      exact ⟨q, after' ++ [p], rfl, hrest⟩
    · by_cases hall : (layout (ps ++ [p])).eraseDups.length = n
      · exact ⟨ps ++ [p], [], (List.append_nil _).symm, .inl hall⟩
      · refine ⟨ps, [p], rfl, .inr ⟨p, [], rfl, ?_⟩⟩
        have hlen := congrArg List.length (eraseDups_layout_concat ps p)
        simp only [List.length_append, apply_ite List.length, List.length_nil,
          List.length_singleton] at hlen
        by_cases h1 : p.1 ∈ layout ps
        · rw [if_pos h1] at hlen
          split at hlen <;> omega
        · by_cases h2 : p.2 ∈ layout ps ++ [p.1]
          · rw [if_neg h1, if_pos h2] at hlen
            omega
          · rw [if_neg h1, if_neg h2] at hlen
            exact ⟨h1, fun h => h2 (List.mem_append_left _ h), by omega⟩

/-- Whole chunks are the elements of some pairs, when no pair is torn. -/
theorem exists_take {n k : Nat} {ps : List (α × α)} (h : ¬ Torn n ps)
    (hk : n * k ≤ (layout ps).eraseDups.length) :
    ∃ before after, ps = before ++ after ∧ (layout before).eraseDups.length = n * k ∧
      (layout ps).eraseDups.take (n * k) = (layout before).eraseDups := by
  obtain ⟨before, after, rfl, hlen | ⟨p, after', rfl, h1, h2, hlen⟩⟩ := exists_cut ps hk
  · refine ⟨before, after, rfl, hlen, ?_⟩
    rw [← hlen]
    exact (List.prefix_iff_eq_take.1 (initial_eraseDups_layout before after)).symm
  · exact absurd ⟨before, p, after', rfl, h1, h2, hlen ▸ Nat.dvd_mul_right n k⟩ h

/-- No pair is torn: first chunks with a first half have its second half. -/
theorem not_torn_iff {n : Nat} {ps : List (α × α)} (h : Directed ps) :
    ¬ Torn n ps ↔ ∀ k, ∀ p ∈ ps, p.1 ∈ (layout ps).eraseDups.take (n * k) →
      p.2 ∈ (layout ps).eraseDups.take (n * k) := by
  constructor
  · intro htorn k p hp hfst
    by_cases hk : n * k ≤ (layout ps).eraseDups.length
    · obtain ⟨before, after, heq, -, htake⟩ := exists_take htorn hk
      rw [htake, List.mem_eraseDups] at hfst ⊢
      obtain ⟨q, hq, hq1 | hq2⟩ := mem_layout.1 hfst
      · have hqs : q ∈ ps := heq ▸ List.mem_append_left _ hq
        rw [h.fst p hp q hqs hq1]
        exact mem_layout.2 ⟨q, hq, .inr rfl⟩
      · exact absurd hq2 (h.cross p hp q (heq ▸ List.mem_append_left _ hq))
    · rw [List.take_of_length_le (by omega), List.mem_eraseDups]
      exact mem_layout.2 ⟨p, hp, .inr rfl⟩
  · rintro hwhole ⟨before, p, after, rfl, h1, h2, k, hk⟩
    have hp : p ∈ before ++ p :: after := List.mem_append_right _ (.head _)
    have hne : p.2 ≠ p.1 := (h.cross p hp p hp).symm
    have htake : (layout (before ++ p :: after)).eraseDups.take (n * k) =
        (layout before).eraseDups ++ [p.1] := by
      have hinitial := initial_eraseDups_layout (before ++ [p]) after
      rw [eraseDups_layout_concat, if_neg h1, if_neg (by simp [h2, hne]),
        List.append_assoc _ [p] after] at hinitial
      obtain ⟨rest, hrest⟩ := hinitial
      rw [List.singleton_append] at hrest
      rw [← hk, ← hrest, List.append_assoc (_ ++ [p.1])]
      exact List.take_left' (by simp)
    have hsnd := hwhole k p hp (by rw [htake]; simp)
    rw [htake, List.mem_append, List.mem_eraseDups, List.mem_singleton] at hsnd
    exact hsnd.elim h2 hne

end

end Pairs
