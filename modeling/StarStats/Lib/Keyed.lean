import Mathlib.Data.List.Nodup
import Mathlib.Data.Bool.Basic

/-!
# Tables with a unique index

`Keyed key` is a list of rows no two of which have the same `key`. A row is found by its key
(`get`), changed in place by a function that keeps the key (`modify`, `map` for all rows), or added
where its key is new (`insert`, or `insertNew`, which does nothing where it is not). `get_modify`,
`get_insertNew` and `get_filter` say which row is found afterwards, `countP_modify` and
`countP_insert` how many rows meet a condition.
-/

structure Keyed {α κ : Type} (key : α → κ) where
  rows : List α
  unique : (rows.map key).Nodup
  deriving DecidableEq

namespace Keyed

variable {α κ : Type} [DecidableEq κ] {key : α → κ}

def empty : Keyed key := ⟨[], List.nodup_nil⟩

def get (t : Keyed key) (k : κ) : Option α := t.rows.find? (key · = k)

/-- The row of a key, changed; the key stays. -/
def modify (t : Keyed key) (k : κ) (f : α → α) (hf : ∀ a, key (f a) = key a) : Keyed key where
  rows := t.rows.map fun a => if key a = k then f a else a
  unique := by
    rw [List.map_map]
    refine cast (congrArg List.Nodup (List.map_congr_left fun a _ => ?_)) t.unique
    simp only [Function.comp]
    split
    · exact (hf a).symm
    · rfl

/-- A row with a new key. -/
def insert (t : Keyed key) (a : α) (h : t.get (key a) = none) : Keyed key where
  rows := t.rows ++ [a]
  unique := by
    rw [List.map_append, List.map_singleton]
    refine t.unique.append (List.nodup_singleton _) (List.disjoint_singleton.2 ?_)
    rw [List.mem_map]
    rintro ⟨b, hb, hkey⟩
    simpa [hkey] using List.find?_eq_none.1 h b hb

/-- A row, unless its key is there already. -/
def insertNew (t : Keyed key) (a : α) : Keyed key :=
  if h : t.get (key a) = none then t.insert a h else t

/-- Every row, changed; the key stays. -/
def map (t : Keyed key) (f : α → α) (hf : ∀ a, key (f a) = key a) : Keyed key where
  rows := t.rows.map f
  unique := by
    rw [List.map_map]
    refine cast (congrArg List.Nodup (List.map_congr_left fun a _ => ?_)) t.unique
    exact (hf a).symm

/-- The rows that meet a condition. -/
def filter (t : Keyed key) (p : α → Bool) : Keyed key where
  rows := t.rows.filter p
  unique := t.unique.sublist (List.filter_sublist.map key)

variable {t : Keyed key} {k k' : κ} {a b : α}

omit [DecidableEq κ] in
theorem eq_of_key (ha : a ∈ t.rows) (hb : b ∈ t.rows) (h : key a = key b) : a = b :=
  List.inj_on_of_nodup_map t.unique ha hb h

theorem get_eq_none : t.get k = none ↔ ∀ a ∈ t.rows, key a ≠ k := by
  simp [get]

theorem of_get (h : t.get k = some a) : a ∈ t.rows ∧ key a = k := by
  have hkey := List.find?_some h
  exact ⟨List.mem_of_find?_eq_some h, of_decide_eq_true hkey⟩

theorem get_eq_some : t.get k = some a ↔ a ∈ t.rows ∧ key a = k := by
  refine ⟨of_get, fun ⟨ha, hkey⟩ => ?_⟩
  cases hget : t.get k with
  | none => exact absurd hkey (get_eq_none.1 hget a ha)
  | some b =>
    obtain ⟨hb, hkb⟩ := of_get hget
    rw [eq_of_key hb ha (hkb.trans hkey.symm)]

/-! ## After a change -/

section
variable {f : α → α} {hf : ∀ a, key (f a) = key a}

theorem get_modify : (t.modify k f hf).get k' = if k' = k then (t.get k).map f else t.get k' := by
  have hkey (a : α) : key (if key a = k then f a else a) = key a := by
    split
    · exact hf a
    · rfl
  have hfind : (t.modify k f hf).get k' =
      (t.get k').map fun a => if key a = k then f a else a := by
    rw [get, modify, List.find?_map]
    congr 2
    funext a
    simp only [Function.comp, hkey]
  rw [hfind]
  split
  · rename_i h
    subst h
    cases hget : t.get k' with
    | none => rfl
    | some a => simp [(get_eq_some.1 hget).2]
  · rename_i h
    cases hget : t.get k' with
    | none => rfl
    | some a =>
      have hne : key a ≠ k := by
        rw [(get_eq_some.1 hget).2]
        exact h
      simp [hne]

theorem mem_modify : b ∈ (t.modify k f hf).rows ↔
    (b ∈ t.rows ∧ key b ≠ k) ∨ ∃ a, t.get k = some a ∧ b = f a := by
  constructor
  · intro h
    obtain ⟨a, ha, rfl⟩ := List.mem_map.1 h
    by_cases hk : key a = k
    · rw [if_pos hk]
      exact .inr ⟨a, get_eq_some.2 ⟨ha, hk⟩, rfl⟩
    · rw [if_neg hk]
      exact .inl ⟨ha, hk⟩
  · rintro (⟨hb, hne⟩ | ⟨a, ha, rfl⟩)
    · exact List.mem_map.2 ⟨b, hb, if_neg hne⟩
    · obtain ⟨ha, hk⟩ := get_eq_some.1 ha
      exact List.mem_map.2 ⟨a, ha, if_pos hk⟩

theorem map_eq_self {rows : List α} (h : ∀ x ∈ rows, key x ≠ k) :
    rows.map (fun x => if key x = k then f x else x) = rows := by
  have hid : ∀ x ∈ rows, (if key x = k then f x else x) = id x := fun x hx => if_neg (h x hx)
  rw [List.map_congr_left hid, List.map_id]

theorem countP_map (p : α → Bool) {rows : List α} (hunique : (rows.map key).Nodup) (ha : a ∈ rows)
    (hk : key a = k) :
    (rows.map fun x => if key x = k then f x else x).countP p + (p a).toNat =
      rows.countP p + (p (f a)).toNat := by
  induction rows with
  | nil => cases ha
  | cons x rows ih =>
    obtain ⟨hnew, hrest⟩ := List.nodup_cons.1 hunique
    rcases List.mem_cons.1 ha with rfl | hin
    · -- the rows after it have other keys
      have hother : ∀ x ∈ rows, key x ≠ k := by
        rintro x hx rfl
        exact hnew (List.mem_map.2 ⟨x, hx, hk.symm⟩)
      rw [List.map_cons, map_eq_self hother, if_pos hk, List.countP_cons, List.countP_cons]
      cases p a <;> cases p (f a) <;> simp
    · have hne : key x ≠ k := by
        rintro rfl
        exact hnew (List.mem_map.2 ⟨a, hin, hk⟩)
      have hcount := ih hrest hin
      rw [List.map_cons, if_neg hne, List.countP_cons, List.countP_cons]
      omega

/-- Only the changed row can be counted differently. -/
theorem countP_modify (hf : ∀ a, key (f a) = key a) (p : α → Bool) (h : t.get k = some a) :
    (t.modify k f hf).rows.countP p + (p a).toNat = t.rows.countP p + (p (f a)).toNat :=
  countP_map p t.unique (get_eq_some.1 h).1 (get_eq_some.1 h).2

theorem modify_of_none (h : t.get k = none) : (t.modify k f hf).rows = t.rows :=
  map_eq_self (get_eq_none.1 h)

end

theorem get_insert (h : t.get (key a) = none) :
    (t.insert a h).get k = if k = key a then some a else t.get k := by
  rw [get, insert, List.find?_append]
  split
  · rename_i hk
    subst hk
    rw [show t.rows.find? (key · = key a) = none from h]
    simp
  · rename_i hk
    have hlast : [a].find? (key · = k) = none := by
      simp [Ne.symm hk]
    rw [hlast, Option.or_none, get]

theorem get_insertNew :
    (t.insertNew a).get k = if k = key a then some ((t.get k).getD a) else t.get k := by
  unfold insertNew
  split
  · rename_i h
    rw [get_insert h]
    split
    · rename_i hk
      rw [hk, h, Option.getD_none]
    · rfl
  · rename_i h
    split
    · rename_i hk
      obtain ⟨b, hb⟩ := Option.ne_none_iff_exists'.1 h
      rw [hk, hb, Option.getD_some]
    · rfl

theorem eq_of_mem_insertNew (h : b ∈ (t.insertNew a).rows) : b ∈ t.rows ∨ b = a := by
  unfold insertNew at h
  split at h
  · exact (List.mem_append.1 h).imp_right List.mem_singleton.1
  · exact .inl h

theorem get_filter (p : α → Bool) : (t.filter p).get k = (t.get k).filter p := by
  cases hget : t.get k with
  | none =>
    rw [Option.filter_none, get_eq_none]
    intro a ha
    exact get_eq_none.1 hget a (List.mem_filter.1 ha).1
  | some a =>
    obtain ⟨ha, hk⟩ := of_get hget
    cases hp : p a with
    | true =>
      rw [Option.filter_some_pos hp, get_eq_some]
      exact ⟨List.mem_filter.2 ⟨ha, hp⟩, hk⟩
    | false =>
      rw [Option.filter_some_neg hp, get_eq_none]
      intro b hb hkb
      obtain ⟨hb, hpb⟩ := List.mem_filter.1 hb
      rw [eq_of_key hb ha (hkb.trans hk.symm), hp] at hpb
      cases hpb

theorem filter_key (t : Keyed key) (k : κ) :
    t.rows.filter (key · = k) = (t.get k).toList := by
  unfold get
  have hunique := t.unique
  generalize t.rows = rows at hunique
  induction rows with
  | nil => rfl
  | cons a rows ih =>
    obtain ⟨hnew, hrest⟩ := List.nodup_cons.1 hunique
    by_cases hk : key a = k
    · have hnone : rows.filter (key · = k) = [] := by
        refine List.filter_eq_nil_iff.2 fun b hb hkb => hnew ?_
        exact List.mem_map.2 ⟨b, hb, (of_decide_eq_true hkb).trans hk.symm⟩
      simp [hk, hnone]
    · simp [hk, ih hrest]

/-- The rows are that of a key and those of the others. -/
theorem rows_perm (t : Keyed key) (k : κ) :
    ((t.get k).toList ++ (t.filter (key · ≠ k)).rows).Perm t.rows := by
  rw [← filter_key]
  simpa [filter] using List.filter_append_perm (key · = k) t.rows

theorem countP_insert (p : α → Bool) (h : t.get (key a) = none) :
    (t.insert a h).rows.countP p = t.rows.countP p + (p a).toNat := by
  rw [insert, List.countP_append, List.countP_singleton]
  cases p a <;> rfl

end Keyed
