import Mathlib.Order.Bounds.Basic
import StarStats.Client.Backfill
import StarStats.Client.Proof.Cuts

/-!
# What a chunk holds back (`starstats-client/src/gamelog.rs` `carry_boundary`)

`carryBoundary_iff`: the cut of a full chunk is the last place in front of the carried lines that no
burst spans, exactly when no burst spans the first line of the first burst that reaches into these.
The ranges are looked at once, from left to right: one that was passed is not looked at again when
a later one lowers the cut into it.
-/

namespace StarStats

/-- A range has lines in front of the place and lines from it on. -/
def Spans (range : Nat × Nat) (place : Nat) : Prop := range.1 < place ∧ place ≤ range.2

instance (range : Nat × Nat) (place : Nat) : Decidable (Spans range place) :=
  inferInstanceAs (Decidable (_ ∧ _))

/-- The last place that leaves `maxCarry` lines behind it and that no burst spans. -/
def IsCarryCut (len : Nat) (burstRanges : List (Nat × Nat)) (maxCarry cut : Nat) : Prop :=
  IsGreatest {place | place ≤ len - maxCarry ∧ ∀ range ∈ burstRanges, ¬ Spans range place} cut

/-- Of the ranges that span the place, none begins before this one. -/
def FirstSpanning (burstRanges : List (Nat × Nat)) (place : Nat) (first : Nat × Nat) : Prop :=
  first ∈ burstRanges ∧ Spans first place ∧
    ∀ range ∈ burstRanges, Spans range place → first.1 ≤ range.1

section
variable {len maxCarry cut : Nat} {burstRanges : List (Nat × Nat)}

/-- How one range lowers the cut. -/
def lowered (cut : Nat) (range : Nat × Nat) : Nat := if cut ≤ range.2 then min cut range.1 else cut

theorem lowered_of_le {range : Nat × Nat} (h : cut ≤ range.1) : lowered cut range = cut := by
  unfold lowered
  split
  · exact Nat.min_eq_left h
  · rfl

theorem lowered_of_spans {range : Nat × Nat} (h : Spans range cut) :
    lowered cut range = range.1 := by
  rw [lowered, if_pos h.2]
  exact Nat.min_eq_right h.1.le

theorem lowered_of_not_spans {range : Nat × Nat} (h : ¬ Spans range cut) :
    lowered cut range = cut := by
  rcases Nat.lt_or_ge range.1 cut with hlt | hle
  · exact if_neg fun hlast => h ⟨hlt, hlast⟩
  · exact lowered_of_le hle

theorem foldl_lowered_of_le (h : ∀ range ∈ burstRanges, cut ≤ range.1) :
    burstRanges.foldl lowered cut = cut := by
  induction burstRanges with
  | nil => rfl
  | cons range ranges ih =>
    rw [List.foldl_cons, lowered_of_le (h range (by simp))]
    exact ih fun r hr => h r (by simp [hr])

/-- The first range that spans the place lowers the cut to its first line, and no other lowers
it. -/
theorem foldl_lowered (hsorted : burstRanges.Pairwise (·.1 ≤ ·.1)) :
    (burstRanges.foldl lowered cut = cut ∧ ∀ range ∈ burstRanges, ¬ Spans range cut) ∨
      ∃ first, FirstSpanning burstRanges cut first ∧ burstRanges.foldl lowered cut = first.1 := by
  induction burstRanges with
  | nil => exact .inl ⟨rfl, by simp⟩
  | cons range ranges ih =>
    obtain ⟨hhead, htail⟩ := List.pairwise_cons.1 hsorted
    rw [List.foldl_cons]
    by_cases hspans : Spans range cut
    · refine .inr ⟨range, ⟨by simp, hspans, fun r hr _ => ?_⟩, ?_⟩
      · rcases List.mem_cons.1 hr with rfl | hr
        · exact Nat.le_refl _
        · exact hhead r hr
      · rw [lowered_of_spans hspans]
        exact foldl_lowered_of_le hhead
    · rw [lowered_of_not_spans hspans]
      rcases ih htail with ⟨hfold, hnone⟩ | ⟨first, ⟨hmem, hfirst, hleast⟩, hfold⟩
      · exact .inl ⟨hfold, by simpa using ⟨hspans, fun a b => hnone (a, b)⟩⟩
      · refine .inr ⟨first, ⟨by simp [hmem], hfirst, fun r hr hr' => ?_⟩, hfold⟩
        rcases List.mem_cons.1 hr with rfl | hr
        · exact absurd hr' hspans
        · exact hleast r hr hr'

theorem carryBoundary_eq :
    carryBoundary len burstRanges maxCarry =
      burstRanges.foldl lowered (len - maxCarry) := by
  unfold carryBoundary
  split
  case isTrue h =>
    rw [Nat.sub_eq_zero_of_le h]
    exact (foldl_lowered_of_le fun _ _ => Nat.zero_le _).symm
  case isFalse => rfl

/-- A place up to which nothing is spanned is the cut. -/
theorem isCarryCut_of_none (h : ∀ range ∈ burstRanges, ¬ Spans range (len - maxCarry)) :
    IsCarryCut len burstRanges maxCarry (len - maxCarry) :=
  ⟨⟨Nat.le_refl _, h⟩, fun _ hplace => hplace.1⟩

/-- The first line of the first range that spans the start of the carried lines is the cut when no
range spans it. -/
theorem isCarryCut_first_iff {first : Nat × Nat}
    (h : FirstSpanning burstRanges (len - maxCarry) first) :
    IsCarryCut len burstRanges maxCarry first.1 ↔
      ∀ range ∈ burstRanges, ¬ Spans range first.1 := by
  obtain ⟨hmem, ⟨hlt, hle⟩, -⟩ := h
  constructor
  · intro hcut
    exact hcut.1.2
  · intro hnone
    refine ⟨⟨hlt.le, hnone⟩, fun place ⟨hplace, hspans⟩ => ?_⟩
    -- any later place in front of the carried lines is in this range
    by_contra hgt
    exact hspans first hmem ⟨by omega, by omega⟩

/-- The cut is where it is documented to be exactly when no range spans the first line of the first
range that reaches into the carried lines from before them. -/
theorem carryBoundary_iff (hsorted : burstRanges.Pairwise (·.1 ≤ ·.1)) :
    IsCarryCut len burstRanges maxCarry (carryBoundary len burstRanges maxCarry) ↔
      ∀ first, FirstSpanning burstRanges (len - maxCarry) first →
        ∀ range ∈ burstRanges, ¬ Spans range first.1 := by
  rw [carryBoundary_eq]
  rcases @foldl_lowered (len - maxCarry) _ hsorted with ⟨hfold, hnone⟩ | ⟨first, hfirst, hfold⟩
  · rw [hfold]
    exact iff_of_true (isCarryCut_of_none hnone)
      fun first hfirst => absurd hfirst.2.1 (hnone first hfirst.1)
  · rw [hfold, isCarryCut_first_iff hfirst]
    constructor
    · intro hnone other hother
      -- two first ranges begin at the same line
      have hsame : other.1 = first.1 :=
        Nat.le_antisymm (hother.2.2 first hfirst.1 hfirst.2.1)
          (hfirst.2.2 other hother.1 hother.2.1)
      rwa [hsame]
    · intro h
      exact h first hfirst

/-- A burst that ends far in front of the carried lines does not keep the cut from lying where the
next one, which reaches them, begins. -/
theorem carryBoundary_iff_thousand :
    IsCarryCut 1000 [(100, 150), (700, 900)] 256
      (carryBoundary 1000 [(100, 150), (700, 900)] 256) := by
  refine (carryBoundary_iff (by decide)).2 fun first hfirst => ?_
  have hmem := hfirst.1
  have hspans := hfirst.2.1
  simp only [List.mem_cons, List.not_mem_nil, or_false] at hmem
  rcases hmem with rfl | rfl
  · exact absurd hspans (by decide)
  · decide

end

/-- Two rules of which each lets one line of the other stand between its members. -/
def gappedRules : List BurstRule :=
  [eventBurst "doors" "Door" [] 2 1, eventBurst "lifts" "Lift" [] 2 1]

def interleavedLines : List (String × Nat) :=
  [("<2026-01-01T00:00:00Z> [Notice] <Door> a", 0), ("<2026-01-01T00:00:01Z> [Notice] <Lift> a", 41),
    ("<2026-01-01T00:00:02Z> [Notice] <Door> b", 82),
    ("<2026-01-01T00:00:03Z> [Notice] <Lift> b", 123)]

/-- The second burst lowers the cut into the first, which was passed before. -/
theorem carryBoundary_splits_burst :
    ¬ ∀ (buffer : List (String × Nat)) (rules : List BurstRule) (maxCarry : Nat),
      IsCarryCut buffer.length (burstBufferRanges buffer rules) maxCarry
        (carryBoundary buffer.length (burstBufferRanges buffer rules) maxCarry) := by
  intro h
  have hnone := (h interleavedLines gappedRules 1).1.2 (0, 2) (by decide +kernel)
  exact hnone (by decide +kernel)

end StarStats
