import Mathlib.Data.List.Basic

/-!
# Calls under way

The calls of a system are a list of their states, by the order in which they began. A step pushes
a new one or sets the one at an index; `of_set` and `of_push` say which call is at an index
afterwards, `mem_set_of_ne` and `map_set` what stays. `Mutex` is the rule of one lock: only the
call that has it is `holding`.
-/

namespace Calls

variable {κ : Type*} {calls : List κ} {c d : κ} {i j : Nat}

theorem of_set (h : (calls.set i c)[j]? = some d) : j = i ∧ d = c ∨ j ≠ i ∧ calls[j]? = some d := by
  rw [List.getElem?_set] at h
  split at h
  · rename_i hij
    split at h
    · exact .inl ⟨hij.symm, (Option.some.inj h).symm⟩
    · cases h
  · rename_i hij
    exact .inr ⟨Ne.symm hij, h⟩

theorem of_push (h : (calls ++ [c])[j]? = some d) :
    j = calls.length ∧ d = c ∨ calls[j]? = some d := by
  rw [List.getElem?_append] at h
  split at h
  · exact .inr h
  · rename_i hlt
    rw [List.getElem?_singleton] at h
    split at h
    · rename_i hzero
      exact .inl ⟨by omega, (Option.some.inj h).symm⟩
    · cases h

theorem get_set_self (h : calls[i]? = some d) : (calls.set i c)[i]? = some c := by
  obtain ⟨hlt, -⟩ := List.getElem?_eq_some_iff.1 h
  rw [List.getElem?_set_self hlt]

theorem get_push (h : calls[j]? = some d) : (calls ++ [c])[j]? = some d := by
  obtain ⟨hlt, -⟩ := List.getElem?_eq_some_iff.1 h
  rw [List.getElem?_append_left hlt, h]

/-- A call other than the one that is set stays. -/
theorem mem_set_of_ne {old : κ} (h : calls[i]? = some old) (hd : d ∈ calls) (hne : d ≠ old) :
    d ∈ calls.set i c := by
  obtain ⟨j, hj⟩ := List.mem_iff_getElem?.1 hd
  apply List.mem_of_getElem? (i := j)
  rw [List.getElem?_set]
  split
  · rename_i hij
    subst hij
    rw [h] at hj
    exact absurd (Option.some.inj hj).symm hne
  · exact hj

/-- What is read off the calls stays when it is the same for the one that is set. -/
theorem map_set {β : Type*} {f : κ → β} {old : κ} (h : calls[i]? = some old) (hf : f c = f old) :
    (calls.set i c).map f = calls.map f := by
  obtain ⟨hlt, rfl⟩ := List.getElem?_eq_some_iff.1 h
  rw [List.map_set, hf, ← List.getElem_map f (h := by simpa using hlt), List.set_getElem_self]

/-! ## One lock -/

/-- Only the call that has the lock is holding. -/
def Mutex (holding : κ → Bool) (lock : Option Nat) (calls : List κ) : Prop :=
  ∀ (i : Nat) (c : κ), calls[i]? = some c → holding c = true → lock = some i

namespace Mutex

variable {holding : κ → Bool} {lock : Option Nat}

theorem push (h : Mutex holding lock calls) (hc : holding c = false) :
    Mutex holding lock (calls ++ [c]) := by
  intro j d hj hd
  rcases of_push hj with ⟨-, rfl⟩ | hj
  · rw [hc] at hd
    cases hd
  · exact h j d hj hd

/-- A call takes the free lock. -/
theorem take (h : Mutex holding none calls) : Mutex holding (some i) (calls.set i c) := by
  intro j d hj hd
  rcases of_set hj with ⟨rfl, -⟩ | ⟨-, hj⟩
  · rfl
  · cases h j d hj hd

/-- The call that has the lock goes on. -/
theorem keep (h : Mutex holding lock calls) (hi : calls[i]? = some c) (hc : holding c = true) :
    Mutex holding lock (calls.set i d) := by
  intro j e hj he
  rcases of_set hj with ⟨rfl, -⟩ | ⟨-, hj⟩
  · exact h j c hi hc
  · exact h j e hj he

/-- A call that does not hold the lock afterwards. -/
theorem idle (h : Mutex holding lock calls) (hd : holding d = false) :
    Mutex holding lock (calls.set i d) := by
  intro j e hj he
  rcases of_set hj with ⟨-, rfl⟩ | ⟨-, hj⟩
  · rw [hd] at he
    cases he
  · exact h j e hj he

/-- The call that has the lock gives it back. -/
theorem release (h : Mutex holding lock calls) (hi : calls[i]? = some c) (hc : holding c = true)
    (hd : holding d = false) : Mutex holding none (calls.set i d) := by
  intro j e hj he
  rcases of_set hj with ⟨-, rfl⟩ | ⟨hne, hj⟩
  · rw [hd] at he
    cases he
  · have hlock := h j e hj he
    rw [h i c hi hc] at hlock
    exact absurd (Option.some.inj hlock).symm hne

/-- While one call holds the lock, the others do not. -/
theorem not_holding (h : Mutex holding lock calls) (hi : calls[i]? = some c)
    (hc : holding c = true) (hj : calls[j]? = some d) (hne : j ≠ i) : holding d = false := by
  rw [Bool.eq_false_iff]
  intro hd
  have hlock := h i c hi hc
  rw [h j d hj hd] at hlock
  exact hne (Option.some.inj hlock)

end Mutex

end Calls
