import Mathlib.Data.List.Induction
import Mathlib.Data.List.Nodup
import Mathlib.Data.Set.Finite.Lemmas

/-!
# Greedy matching

Arrivals come one after another, and each takes an open slot that fits it, if there is one. What
such a run leaves behind is a maximal matching (`Matching`, `exists_matching`). When each arrival
takes one of the best slots and no two arrivals have the same favourite, each gets its favourite,
whatever the order they come in (`favourites`).
-/

namespace Greedy

variable {α β : Type*}

/-- An arrival takes an open slot that fits, or there is none. -/
def Step (fits : β → α → Prop) (slots : List (α × Option β)) (b : β)
    (slots' : List (α × Option β)) : Prop :=
  ((∀ a, (a, none) ∈ slots → ¬ fits b a) ∧ slots' = slots) ∨
    ∃ i a, slots[i]? = some (a, none) ∧ fits b a ∧ slots' = slots.set i (a, some b)

/-- The slots are taken by arrivals: `partner` has the place of the arrival that took a slot. -/
structure Matching (fits : β → α → Prop) (as : List α) (bs : List β)
    (slots : List (α × Option β)) (partner : Nat → Option Nat) : Prop where
  same : slots.map (·.1) = as
  /-- Who has taken a slot fits it. -/
  taken : ∀ i k, partner i = some k →
    ∃ a b, slots[i]? = some (a, some b) ∧ bs[k]? = some b ∧ fits b a
  free : ∀ i slot, slots[i]? = some slot → partner i = none → slot.2 = none
  /-- No arrival has taken two slots. -/
  once : ∀ i j k, partner i = some k → partner j = some k → i = j
  /-- When an arrival came away with nothing, the slots that fit it had been taken before. -/
  maximal : ∀ k b, bs[k]? = some b → (∀ i, partner i ≠ some k) →
    ∀ i a, as[i]? = some a → fits b a → ∃ k' < k, partner i = some k'

variable {fits : β → α → Prop} {as : List α} {bs : List β} {slots slots' : List (α × Option β)}
  {partner : Nat → Option Nat} {b : β}

theorem map_fst_set {i : Nat} {a : α} {o o' : Option β} (h : slots[i]? = some (a, o)) :
    (slots.set i (a, o')).map (·.1) = slots.map (·.1) := by
  have ha : (slots.map (·.1))[i]? = some a := by rw [List.getElem?_map, h]; rfl
  obtain ⟨hi, heq⟩ := List.getElem?_eq_some_iff.1 ha
  rw [List.map_set, ← heq, List.set_getElem_self]

theorem Matching.start (fits : β → α → Prop) (as : List α) :
    Matching fits as [] (as.map (·, none)) fun _ => none where
  same := by simp [Function.comp_def]
  taken _ _ h := by cases h
  free i slot h _ := by
    obtain ⟨a, -, rfl⟩ := List.mem_map.1 (List.mem_of_getElem? h)
    rfl
  once _ _ _ h := by cases h
  maximal k b h := by simp at h

theorem Matching.lt_length (h : Matching fits as bs slots partner) {i k : Nat}
    (hi : partner i = some k) : k < bs.length := by
  obtain ⟨a, b, -, hb, -⟩ := h.taken i k hi
  exact (List.getElem?_eq_some_iff.1 hb).1

theorem Matching.get_slot (h : Matching fits as bs slots partner) {i : Nat} {a : α}
    (hi : as[i]? = some a) : ∃ o, slots[i]? = some (a, o) := by
  rw [← h.same, List.getElem?_map] at hi
  obtain ⟨slot, hslot, rfl⟩ := Option.map_eq_some_iff.1 hi
  exact ⟨slot.2, hslot⟩

/-- An arrival that takes nothing. -/
theorem Matching.pass (h : Matching fits as bs slots partner)
    (hnone : ∀ a, (a, none) ∈ slots → ¬ fits b a) :
    Matching fits as (bs ++ [b]) slots partner where
  same := h.same
  taken i k hi := by
    obtain ⟨a, c, hslot, hc, hfits⟩ := h.taken i k hi
    exact ⟨a, c, hslot, by rwa [List.getElem?_append_left (h.lt_length hi)], hfits⟩
  free := h.free
  once := h.once
  maximal k c hc hno i a ha hfits := by
    rcases Nat.lt_or_ge k bs.length with hlt | hge
    · rw [List.getElem?_append_left hlt] at hc
      exact h.maximal k c hc hno i a ha hfits
    · -- the last arrival: no open slot fitted it
      rw [List.getElem?_append_right hge] at hc
      obtain ⟨hk, rfl⟩ : k = bs.length ∧ b = c := by
        rcases hd : k - bs.length with _ | d
        · rw [hd] at hc
          exact ⟨by omega, Option.some.inj hc⟩
        · rw [hd] at hc
          cases hc
      obtain ⟨o, ho⟩ := h.get_slot ha
      cases hp : partner i with
      | some k' => exact ⟨k', hk ▸ h.lt_length hp, rfl⟩
      | none =>
        obtain rfl : o = none := h.free i _ ho hp
        exact absurd hfits (hnone a (List.mem_of_getElem? ho))

/-- An arrival that takes a slot. -/
theorem Matching.take (h : Matching fits as bs slots partner) {i : Nat} {a : α}
    (hslot : slots[i]? = some (a, none)) (hfits : fits b a) :
    Matching fits as (bs ++ [b]) (slots.set i (a, some b))
      (Function.update partner i (some bs.length)) := by
  have hlt : i < slots.length := (List.getElem?_eq_some_iff.1 hslot).1
  have hopen : partner i = none := by
    cases hp : partner i with
    | none => rfl
    | some k =>
      obtain ⟨a', b', htaken, -⟩ := h.taken i k hp
      simp [hslot] at htaken
  have hother : ∀ {j k}, j ≠ i → Function.update partner i (some bs.length) j = some k →
      partner j = some k := fun hj hk => by rwa [Function.update_of_ne hj] at hk
  constructor
  case same => exact (map_fst_set hslot).trans h.same
  case taken =>
    intro j k hj
    by_cases hji : j = i
    · subst hji
      rw [Function.update_self] at hj
      obtain rfl := Option.some.inj hj
      exact ⟨a, b, by simp [hlt], by simp, hfits⟩
    · obtain ⟨c, d, hc, hd, hcd⟩ := h.taken j k (hother hji hj)
      refine ⟨c, d, by rwa [List.getElem?_set_ne (Ne.symm hji)], ?_, hcd⟩
      rwa [List.getElem?_append_left (h.lt_length (hother hji hj))]
  case free =>
    intro j slot hj hp
    have hji : j ≠ i := by
      rintro rfl
      simp at hp
    rw [Function.update_of_ne hji] at hp
    rw [List.getElem?_set_ne (Ne.symm hji)] at hj
    exact h.free j slot hj hp
  case once =>
    have hnew : ∀ {j k}, j ≠ i → Function.update partner i (some bs.length) j = some k →
        k ≠ bs.length := fun hj hk => Nat.ne_of_lt (h.lt_length (hother hj hk))
    intro j j' k hj hj'
    by_cases hji : j = i <;> by_cases hji' : j' = i
    · rw [hji, hji']
    · subst hji
      rw [Function.update_self] at hj
      exact absurd (Option.some.inj hj).symm (hnew hji' hj')
    · subst hji'
      rw [Function.update_self] at hj'
      exact absurd (Option.some.inj hj').symm (hnew hji hj)
    · exact h.once j j' k (hother hji hj) (hother hji' hj')
  case maximal =>
    intro k c hc hno j a' ha' hca'
    have hk : k < bs.length := by
      have hle := (List.getElem?_eq_some_iff.1 hc).1
      have hne : k ≠ bs.length := by
        rintro rfl
        exact hno i (by simp)
      rw [List.length_append, List.length_singleton] at hle
      omega
    rw [List.getElem?_append_left hk] at hc
    -- slot `i` was open before, so what `c` came too late for is another one
    have hbefore : ∀ j, partner j ≠ some k := by
      intro j hj
      refine hno j ?_
      rw [Function.update_of_ne, hj]
      rintro rfl
      simp [hopen] at hj
    obtain ⟨k', hk', hj⟩ := h.maximal k c hc hbefore j a' ha' hca'
    refine ⟨k', hk', ?_⟩
    rw [Function.update_of_ne, hj]
    rintro rfl
    simp [hopen] at hj

/-- A run leaves a maximal matching behind. -/
theorem exists_matching {step : List (α × Option β) → β → List (α × Option β)}
    (hstep : ∀ slots b, Step fits slots b (step slots b)) (as : List α) (bs : List β) :
    ∃ partner, Matching fits as bs (bs.foldl step (as.map (·, none))) partner := by
  induction bs using List.reverseRecOn with
  | nil => exact ⟨_, .start fits as⟩
  | append_singleton bs b ih =>
    obtain ⟨partner, h⟩ := ih
    rw [List.foldl_append, List.foldl_cons, List.foldl_nil]
    rcases hstep (bs.foldl step (as.map (·, none))) b with ⟨hnone, heq⟩ | ⟨i, a, hslot, hfits, heq⟩
    · rw [heq]
      exact ⟨partner, h.pass hnone⟩
    · rw [heq]
      exact ⟨_, h.take hslot hfits⟩

/-- A slot that is taken stays so. -/
theorem Step.keeps {c : β} {a : α} (h : Step fits slots c slots') (hmem : (a, some b) ∈ slots) :
    (a, some b) ∈ slots' := by
  rcases h with ⟨-, rfl⟩ | ⟨i, a', hslot, -, rfl⟩
  · exact hmem
  · obtain ⟨j, hj⟩ := List.mem_iff_getElem?.1 hmem
    have hne : i ≠ j := by
      rintro rfl
      simp [hslot] at hj
    exact List.mem_of_getElem? ((List.getElem?_set_ne hne).trans hj)

/-! ## Favourites -/

section
variable {ρ : Type*} [LinearOrder ρ]

/-- An arrival takes one of the best open slots that fit, or there is none. -/
def BestStep (fits : β → α → Prop) (rank : α → ρ) (slots : List (α × Option β)) (b : β)
    (slots' : List (α × Option β)) : Prop :=
  ((∀ a, (a, none) ∈ slots → ¬ fits b a) ∧ slots' = slots) ∨
    ∃ i a, slots[i]? = some (a, none) ∧ fits b a ∧
      (∀ a', (a', none) ∈ slots → fits b a' → rank a' ≤ rank a) ∧
      slots' = slots.set i (a, some b)

/-- The best slot of all that fit an arrival. -/
def Favourite (fits : β → α → Prop) (rank : α → ρ) (as : List α) (b : β) (a : α) : Prop :=
  a ∈ as ∧ fits b a ∧ ∀ a' ∈ as, fits b a' → rank a' ≤ rank a

instance [DecidableEq α] [∀ b a, Decidable (fits b a)] (rank : α → ρ) (as : List α) (b : β)
    (a : α) : Decidable (Favourite fits rank as b a) :=
  inferInstanceAs (Decidable (_ ∧ _))

variable {rank : α → ρ}

theorem BestStep.step (h : BestStep fits rank slots b slots') : Step fits slots b slots' := by
  rcases h with hnone | ⟨i, a, hslot, hfits, -, heq⟩
  · exact .inl hnone
  · exact .inr ⟨i, a, hslot, hfits, heq⟩

/-- An arrival that some slot fits has a favourite. -/
theorem exists_favourite {a : α} (ha : a ∈ as) (hfits : fits b a) :
    ∃ a', Favourite fits rank as b a' := by
  have hfinite : {x | x ∈ as ∧ fits b x}.Finite :=
    (List.finite_toSet as).subset fun x hx => hx.1
  obtain ⟨a', ha', hbest⟩ := Set.exists_max_image _ rank hfinite ⟨a, ha, hfits⟩
  exact ⟨a', ha'.1, ha'.2, fun x hx hxfits => hbest x ⟨hx, hxfits⟩⟩

theorem Favourite.unique (hranks : (as.map rank).Nodup) {a a' : α}
    (h : Favourite fits rank as b a) (h' : Favourite fits rank as b a') : a = a' :=
  List.inj_on_of_nodup_map hranks h.1 h'.1
    (le_antisymm (h'.2.2 a h.1 h.2.1) (h.2.2 a' h'.1 h'.2.1))

/-- The slots are taken by those whose favourites they are. -/
def TakenByFavourites (fits : β → α → Prop) (rank : α → ρ) (as : List α) (bs : List β)
    (slots : List (α × Option β)) : Prop :=
  slots.map (·.1) = as ∧
    ∀ slot ∈ slots, ∀ b, slot.2 = some b ↔ b ∈ bs ∧ Favourite fits rank as b slot.1

section
variable (h : TakenByFavourites fits rank as bs slots)
  (hapart : ∀ c ∈ bs, ∀ a, Favourite fits rank as c a → ¬ Favourite fits rank as b a)
include h hapart

/-- A favourite that is nobody else's is open. -/
theorem TakenByFavourites.isOpen {slot : α × Option β} (hslot : slot ∈ slots)
    (hfav : Favourite fits rank as b slot.1) : slot.2 = none := by
  cases ho : slot.2 with
  | none => rfl
  | some c =>
    obtain ⟨hc, hfav'⟩ := (h.2 slot hslot c).1 ho
    exact absurd hfav (hapart c hc slot.1 hfav')

/-- The best open slot is the favourite. -/
theorem TakenByFavourites.favourite {a : α} (hslot : (a, none) ∈ slots) (hfits : fits b a)
    (hbest : ∀ a', (a', none) ∈ slots → fits b a' → rank a' ≤ rank a) :
    Favourite fits rank as b a := by
  have ha : a ∈ as := h.1 ▸ List.mem_map_of_mem hslot
  obtain ⟨top, htop⟩ : ∃ top, Favourite fits rank as b top := exists_favourite ha hfits
  obtain ⟨slot, hmem, rfl⟩ := List.mem_map.1 (h.1 ▸ htop.1)
  have hfree := h.isOpen hapart hmem htop
  have hle := hbest slot.1 (by rw [← hfree]; exact hmem) htop.2.1
  exact ⟨ha, hfits, fun a' ha' hfits' => (htop.2.2 a' ha' hfits').trans hle⟩

theorem TakenByFavourites.pass (hnone : ∀ a, (a, none) ∈ slots → ¬ fits b a) :
    TakenByFavourites fits rank as (bs ++ [b]) slots := by
  refine ⟨h.1, fun slot hslot c => ?_⟩
  rw [h.2 slot hslot c, List.mem_append, List.mem_singleton]
  constructor
  · intro hc
    exact ⟨.inl hc.1, hc.2⟩
  · rintro ⟨hc | rfl, hfav⟩
    · exact ⟨hc, hfav⟩
    · have hfree := h.isOpen hapart hslot hfav
      exact absurd hfav.2.1 (hnone slot.1 (by rw [← hfree]; exact hslot))

theorem TakenByFavourites.take (hranks : (as.map rank).Nodup) {i : Nat} {a : α}
    (hslot : slots[i]? = some (a, none)) (hfav : Favourite fits rank as b a) :
    TakenByFavourites fits rank as (bs ++ [b]) (slots.set i (a, some b)) := by
  refine ⟨(map_fst_set hslot).trans h.1, fun slot hmem c => ?_⟩
  obtain ⟨j, hj⟩ := List.mem_iff_getElem?.1 hmem
  rw [List.mem_append, List.mem_singleton]
  by_cases hji : i = j
  · subst hji
    rw [List.getElem?_set_self (List.getElem?_eq_some_iff.1 hslot).1] at hj
    obtain rfl := Option.some.inj hj
    constructor
    · intro hc
      obtain rfl := Option.some.inj hc
      exact ⟨.inr rfl, hfav⟩
    · rintro ⟨hc | rfl, hfav'⟩
      · exact absurd hfav (hapart c hc a hfav')
      · rfl
  · rw [List.getElem?_set_ne hji] at hj
    rw [h.2 slot (List.mem_of_getElem? hj) c]
    constructor
    · intro hc
      exact ⟨.inl hc.1, hc.2⟩
    · rintro ⟨hc | rfl, hfav'⟩
      · exact ⟨hc, hfav'⟩
      · -- one slot stands at two places
        have hnodup : (slots.map (·.1)).Nodup := h.1 ▸ List.Nodup.of_map rank hranks
        have hi : i < (slots.map (·.1)).length := by
          rw [List.length_map]
          exact (List.getElem?_eq_some_iff.1 hslot).1
        refine absurd ((List.getElem?_inj hi hnodup).1 ?_) hji
        rw [List.getElem?_map, List.getElem?_map, hslot, hj, Option.map_some, Option.map_some,
          hfav.unique hranks hfav']

end

/-- Every arrival gets its favourite when no two have the same, whatever their order. -/
theorem favourites {step : List (α × Option β) → β → List (α × Option β)}
    (hstep : ∀ slots b, BestStep fits rank slots b (step slots b))
    (hranks : (as.map rank).Nodup) (hnodup : bs.Nodup)
    (hapart : ∀ b ∈ bs, ∀ c ∈ bs, ∀ a, Favourite fits rank as b a → Favourite fits rank as c a →
      b = c) :
    TakenByFavourites fits rank as bs (bs.foldl step (as.map (·, none))) := by
  induction bs using List.reverseRecOn with
  | nil => exact ⟨by simp [Function.comp_def], by simp⟩
  | append_singleton bs b ih =>
    rw [List.foldl_append, List.foldl_cons, List.foldl_nil]
    obtain ⟨hnodup, hnew⟩ : bs.Nodup ∧ b ∉ bs := by
      simpa [List.nodup_append, imp_not_comm] using hnodup
    have hin : ∀ c ∈ bs, c ∈ bs ++ [b] := fun c hc => List.mem_append_left _ hc
    have h := ih hnodup fun c hc d hd => hapart c (hin c hc) d (hin d hd)
    have hother : ∀ c ∈ bs, ∀ a, Favourite fits rank as c a → ¬ Favourite fits rank as b a :=
      fun c hc a hfav hfav' => hnew (hapart c (hin c hc) b (by simp) a hfav hfav' ▸ hc)
    rcases hstep (bs.foldl step (as.map (·, none))) b with
      ⟨hnone, heq⟩ | ⟨i, a, hslot, hfits, hbest, heq⟩
    · rw [heq]
      exact h.pass hother hnone
    · rw [heq]
      exact h.take hother hranks hslot
        (h.favourite hother (List.mem_of_getElem? hslot) hfits hbest)

/-- The slots are known from who comes, in any order. -/
theorem TakenByFavourites.mem_iff (h : TakenByFavourites fits rank as bs slots)
    (slot : α × Option β) :
    slot ∈ slots ↔ slot.1 ∈ as ∧
      ∀ b, slot.2 = some b ↔ b ∈ bs ∧ Favourite fits rank as b slot.1 := by
  constructor
  · intro hslot
    exact ⟨h.1 ▸ List.mem_map_of_mem hslot, h.2 slot hslot⟩
  · rintro ⟨ha, htaken⟩
    rw [← h.1] at ha
    obtain ⟨slot', hslot', heq⟩ := List.mem_map.1 ha
    have hsame : slot'.2 = slot.2 := by
      refine Option.ext fun b => ?_
      rw [h.2 slot' hslot' b, htaken b, heq]
    rwa [← Prod.ext heq hsame]

theorem TakenByFavourites.perm {as' : List α} {bs' : List β}
    (h : TakenByFavourites fits rank as bs slots) (h' : TakenByFavourites fits rank as' bs' slots')
    (hnodup : as.Nodup) (has : as'.Perm as) (hbs : bs'.Perm bs) : slots'.Perm slots := by
  have hslots : slots.Nodup := List.Nodup.of_map (·.1) (h.1 ▸ hnodup)
  have hslots' : slots'.Nodup := List.Nodup.of_map (·.1) (h'.1 ▸ has.nodup_iff.2 hnodup)
  refine (List.perm_ext_iff_of_nodup hslots' hslots).2 fun slot => ?_
  rw [h.mem_iff, h'.mem_iff, has.mem_iff]
  simp only [Favourite, has.mem_iff, hbs.mem_iff]

/-- Whoever comes first gets the favourite. -/
theorem mem_of_first {step : List (α × Option β) → β → List (α × Option β)}
    (hstep : ∀ slots b, BestStep fits rank slots b (step slots b)) (hranks : (as.map rank).Nodup)
    {a : α} (hfav : Favourite fits rank as b a) :
    (a, some b) ∈ (b :: bs).foldl step (as.map (·, none)) := by
  have hfree : ∀ {x}, x ∈ as → (x, none) ∈ as.map fun a => (a, (none : Option β)) :=
    fun hx => List.mem_map.2 ⟨_, hx, rfl⟩
  have hfirst : (a, some b) ∈ step (as.map (·, none)) b := by
    rcases hstep (as.map (·, none)) b with ⟨hnone, -⟩ | ⟨i, a', hslot, hfits, hbest, heq⟩
    · exact absurd hfav.2.1 (hnone a (hfree hfav.1))
    · have hfav' : Favourite fits rank as b a' := by
        obtain ⟨x, hx, hxeq⟩ := List.mem_map.1 (List.mem_of_getElem? hslot)
        obtain rfl := (Prod.ext_iff.1 hxeq).1
        exact ⟨hx, hfits, fun y hy hyfits => hbest y (hfree hy) hyfits⟩
      rw [heq, hfav.unique hranks hfav']
      exact List.mem_set (List.getElem?_eq_some_iff.1 hslot).1 _
  rw [List.foldl_cons]
  generalize step (as.map (·, none)) b = slots at hfirst
  induction bs generalizing slots with
  | nil => exact hfirst
  | cons c bs ih => exact ih _ ((hstep slots c).step.keeps hfirst)

end

end Greedy
