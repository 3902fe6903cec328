import Mathlib.Data.List.Nodup

/-!
# Relation tuples

A relationship store: a list of tuples `resource#relation@subject` over arbitrary objects and
relations. A permission is a union of `linked` terms, a direct one (`· = user`) or an arrow
through the subject. `linked_touch_of_ne` and `linked_erase_of_ne` are the frame rules: a write
of one relation leaves the terms over the others as they were. A `write` of several updates is
atomic and refused when it names one tuple twice; `mem_write` says what it leaves. `writeAll` sends
requests one after the other.
-/

namespace Tuples

variable {ο ρ : Type*}

structure Tuple (ο ρ : Type*) where
  resource : ο
  relation : ρ
  subject : ο
  deriving DecidableEq

variable [DecidableEq ο] [DecidableEq ρ]

/-- Create a tuple, or leave it where it exists. -/
def touch (t : Tuple ο ρ) (ts : List (Tuple ο ρ)) : List (Tuple ο ρ) :=
  if t ∈ ts then ts else ts ++ [t]

/-- Delete a tuple; one that does not exist is no error. -/
def erase (t : Tuple ο ρ) (ts : List (Tuple ο ρ)) : List (Tuple ο ρ) := ts.filter (· ≠ t)

/-- Some subject of `resource#relation` meets `p`. -/
def linked (ts : List (Tuple ο ρ)) (resource : ο) (relation : ρ) (p : ο → Bool) : Bool :=
  ts.any fun t => t.resource = resource && t.relation = relation && p t.subject

@[simp] theorem mem_touch {t u : Tuple ο ρ} {ts : List (Tuple ο ρ)} :
    u ∈ touch t ts ↔ u = t ∨ u ∈ ts := by
  unfold touch
  split
  · rename_i h
    constructor
    · exact .inr
    · rintro (rfl | hu)
      · exact h
      · exact hu
  · rw [List.mem_append, List.mem_singleton, or_comm]

@[simp] theorem mem_erase {t u : Tuple ο ρ} {ts : List (Tuple ο ρ)} :
    u ∈ erase t ts ↔ u ∈ ts ∧ u ≠ t := by
  simp [erase]

theorem linked_iff {ts : List (Tuple ο ρ)} {resource : ο} {relation : ρ} {p : ο → Bool} :
    linked ts resource relation p = true ↔
      ∃ subject, ⟨resource, relation, subject⟩ ∈ ts ∧ p subject = true := by
  simp only [linked, List.any_eq_true, Bool.and_eq_true, decide_eq_true_eq]
  constructor
  · rintro ⟨⟨_, _, subject⟩, ht, ⟨rfl, rfl⟩, hp⟩
    exact ⟨subject, ht, hp⟩
  · rintro ⟨subject, ht, hp⟩
    exact ⟨_, ht, ⟨rfl, rfl⟩, hp⟩

/-- A direct term is one tuple. -/
theorem linked_eq_iff {ts : List (Tuple ο ρ)} {resource subject : ο} {relation : ρ} :
    linked ts resource relation (· = subject) = true ↔ ⟨resource, relation, subject⟩ ∈ ts := by
  rw [linked_iff]
  constructor
  · rintro ⟨_, ht, hp⟩
    exact of_decide_eq_true hp ▸ ht
  · intro ht
    exact ⟨subject, ht, decide_eq_true rfl⟩

theorem linked_touch_of_ne {t : Tuple ο ρ} {ts : List (Tuple ο ρ)} {resource : ο} {relation : ρ}
    {p : ο → Bool} (h : relation ≠ t.relation) :
    linked (touch t ts) resource relation p = linked ts resource relation p := by
  rw [Bool.eq_iff_iff, linked_iff, linked_iff]
  refine exists_congr fun subject => and_congr_left fun _ => ?_
  rw [mem_touch, or_iff_right]
  intro he
  exact h (congrArg Tuple.relation he)

theorem linked_erase_of_ne {t : Tuple ο ρ} {ts : List (Tuple ο ρ)} {resource : ο} {relation : ρ}
    {p : ο → Bool} (h : relation ≠ t.relation) :
    linked (erase t ts) resource relation p = linked ts resource relation p := by
  rw [Bool.eq_iff_iff, linked_iff, linked_iff]
  refine exists_congr fun subject => and_congr_left fun _ => ?_
  rw [mem_erase, and_iff_left]
  intro he
  exact h (congrArg Tuple.relation he)

/-! ## Writes -/

inductive Update (ο ρ : Type*) where
  | delete (t : Tuple ο ρ)
  | touch (t : Tuple ο ρ)
  deriving DecidableEq

namespace Update

def tuple : Update ο ρ → Tuple ο ρ
  | delete t => t
  | touch t => t

def apply (ts : List (Tuple ο ρ)) : Update ο ρ → List (Tuple ο ρ)
  | delete t => erase t ts
  | touch t => Tuples.touch t ts

end Update

/-- All of the updates or none; a tuple may be in one of them only. -/
def write (us : List (Update ο ρ)) (ts : List (Tuple ο ρ)) : Option (List (Tuple ο ρ)) :=
  if (us.map Update.tuple).Nodup then some (us.foldl Update.apply ts) else none

/-- A tuple that is touched, or there, and not deleted is there afterwards. -/
theorem mem_foldl_apply_of_touch {u : Tuple ο ρ} : ∀ {us : List (Update ο ρ)}
    {ts : List (Tuple ο ρ)}, .touch u ∈ us ∨ u ∈ ts → .delete u ∉ us →
    u ∈ us.foldl Update.apply ts
  | [], _, h, _ => by simpa using h
  | v :: us, ts, h, hdelete => by
    obtain ⟨hv, hus⟩ := not_or.1 (mt List.mem_cons.2 hdelete)
    rw [List.foldl_cons]
    refine mem_foldl_apply_of_touch ?_ hus
    rcases h with h | h
    · rcases List.mem_cons.1 h with rfl | h
      · exact .inr (mem_touch.2 (.inl rfl))
      · exact .inl h
    · right
      cases v with
      | delete t => exact mem_erase.2 ⟨h, fun he => hv (congrArg _ he)⟩
      | touch t => exact mem_touch.2 (.inr h)

/-- A tuple that is deleted, or not there, and not touched is not there afterwards. -/
theorem not_mem_foldl_apply_of_delete {u : Tuple ο ρ} : ∀ {us : List (Update ο ρ)}
    {ts : List (Tuple ο ρ)}, .delete u ∈ us ∨ u ∉ ts → .touch u ∉ us →
    u ∉ us.foldl Update.apply ts
  | [], _, h, _ => by simpa using h
  | v :: us, ts, h, htouch => by
    obtain ⟨hv, hus⟩ := not_or.1 (mt List.mem_cons.2 htouch)
    rw [List.foldl_cons]
    refine not_mem_foldl_apply_of_delete ?_ hus
    rcases h with h | h
    · rcases List.mem_cons.1 h with rfl | h
      · exact .inr fun hmem => (mem_erase.1 hmem).2 rfl
      · exact .inl h
    · right
      cases v with
      | delete t => exact fun hmem => h (mem_erase.1 hmem).1
      | touch t =>
        intro hmem
        exact (mem_touch.1 hmem).elim (fun he => hv (congrArg _ he)) h

theorem mem_foldl_apply {u : Tuple ο ρ} {us : List (Update ο ρ)} {ts : List (Tuple ο ρ)}
    (h : (us.map Update.tuple).Nodup) :
    u ∈ us.foldl Update.apply ts ↔ .touch u ∈ us ∨ u ∈ ts ∧ .delete u ∉ us := by
  have hnot : ¬ (.touch u ∈ us ∧ .delete u ∈ us) := by
    rintro ⟨htouch, hdelete⟩
    cases List.inj_on_of_nodup_map h htouch hdelete rfl
  constructor
  · intro hmem
    by_contra hno
    obtain ⟨htouch, hrest⟩ := not_or.1 hno
    refine not_mem_foldl_apply_of_delete ?_ htouch hmem
    by_cases hdelete : .delete u ∈ us
    · exact .inl hdelete
    · exact .inr fun hu => hrest ⟨hu, hdelete⟩
  · rintro (htouch | ⟨hu, hdelete⟩)
    · exact mem_foldl_apply_of_touch (.inl htouch) fun hdelete => hnot ⟨htouch, hdelete⟩
    · exact mem_foldl_apply_of_touch (.inr hu) hdelete

theorem mem_write {u : Tuple ο ρ} {us : List (Update ο ρ)} {ts ts' : List (Tuple ο ρ)}
    (h : write us ts = some ts') : u ∈ ts' ↔ .touch u ∈ us ∨ u ∈ ts ∧ .delete u ∉ us := by
  unfold write at h
  split at h
  · rename_i hnodup
    rw [← Option.some.inj h, mem_foldl_apply hnodup]
  · cases h

/-- What a filter finds after updates that touch nothing it accepts. -/
theorem filter_foldl_apply {p : Tuple ο ρ → Bool} : ∀ {us : List (Update ο ρ)}
    {ts : List (Tuple ο ρ)}, (∀ t, .touch t ∈ us → p t = false) →
    (us.foldl Update.apply ts).filter p = (ts.filter p).filter (.delete · ∉ us)
  | [], ts, _ => by simp
  | .delete t :: us, ts, h => by
    rw [List.foldl_cons, filter_foldl_apply fun u hu => h u (.tail _ hu)]
    simp only [Update.apply, erase, List.filter_filter, List.mem_cons, Update.delete.injEq]
    exact List.filter_congr fun u _ => by
      by_cases hu : u = t <;> simp [hu]
  | .touch t :: us, ts, h => by
    rw [List.foldl_cons, filter_foldl_apply fun u hu => h u (.tail _ hu)]
    have hstep : (touch t ts).filter p = ts.filter p := by
      unfold touch
      split
      · rfl
      · simp [h t (.head _)]
    simp [Update.apply, hstep]

/-! ## Requests -/

/-- The writes one after the other, as far as the first that is refused or fails; `failing` fails.
With it, whether all of them are written. -/
def writeAll : Option Nat → List (List (Update ο ρ)) → List (Tuple ο ρ) → List (Tuple ο ρ) × Bool
  | _, [], ts => (ts, true)
  | failing, us :: uss, ts =>
    match if failing = some 0 then none else write us ts with
    | none => (ts, false)
    | some ts' => writeAll (failing.map (· - 1)) uss ts'

/-- No write is refused. -/
def Accepted (uss : List (List (Update ο ρ))) : Prop := ∀ us ∈ uss, (us.map Update.tuple).Nodup

theorem writeAll_none_eq_true : ∀ {uss : List (List (Update ο ρ))} {ts : List (Tuple ο ρ)},
    (writeAll none uss ts).2 = true ↔ Accepted uss
  | [], ts => by simp [writeAll, Accepted]
  | us :: uss, ts => by
    by_cases h : (us.map Update.tuple).Nodup
    · simp [writeAll, write, h, writeAll_none_eq_true, Accepted]
    · simp [writeAll, write, h, Accepted]

theorem writeAll_none : ∀ {uss : List (List (Update ο ρ))} {ts : List (Tuple ο ρ)}, Accepted uss →
    writeAll none uss ts = (uss.flatten.foldl Update.apply ts, true)
  | [], ts, _ => rfl
  | us :: uss, ts, h => by
    have hrest : Accepted uss := fun vs hvs => h vs (.tail _ hvs)
    simp [writeAll, write, h us (.head _), writeAll_none hrest]

theorem writeAll_some : ∀ {k : Nat} {uss : List (List (Update ο ρ))} {ts : List (Tuple ο ρ)},
    Accepted uss → writeAll (some k) uss ts =
      ((uss.take k).flatten.foldl Update.apply ts, decide (uss.length ≤ k))
  | k, [], ts, _ => by simp [writeAll]
  | 0, us :: uss, ts, _ => by simp [writeAll]
  | k + 1, us :: uss, ts, h => by
    have hrest : Accepted uss := fun vs hvs => h vs (.tail _ hvs)
    simp [writeAll, write, h us (.head _), writeAll_some hrest]

end Tuples
