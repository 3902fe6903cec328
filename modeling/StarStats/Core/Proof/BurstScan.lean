import Mathlib.Data.List.Sort
import StarStats.Core.Proof.Bursts

/-!
# Where the scan for bursts goes on

Behind a burst the scan goes on where the walk has stopped, so an anchor among the lines that the
walk has passed over is never tried. `detectBursts_complete`: when no burst of a rule begins there,
the detection is the one that tries every line, and no burst is left unreported.
-/

namespace StarStats

namespace BurstRule

variable {rule : BurstRule} {consumed claimed : List Nat}

/-- The scan that tries every line. -/
def scanAll (rule : BurstRule) (consumed : List Nat) (i : Nat) : List LogLine → List BurstHit
  | [] => []
  | line :: rest =>
    if i ∈ consumed ∨ lineMatches line rule.anchor rule.tags = false then
      rule.scanAll consumed (i + 1) rest
    else
      let members := i :: (rule.walk consumed (i + 1) 0 rest).1
      if rule.minBurstSize ≤ members.length then
        rule.hit members :: rule.scanAll (consumed ++ members) (i + 1) rest
      else rule.scanAll consumed (i + 1) rest

/-- No burst begins among the lines that the walk of an earlier one has passed over. -/
def SkipFree (rule : BurstRule) (hits : List BurstHit) : Prop :=
  hits.Pairwise fun hit next => hit.endIndex + rule.maxMemberGap < next.startIndex

/-- From an unclaimed anchor a burst of unclaimed lines can be collected. -/
def Unreported (rule : BurstRule) (window : List LogLine) (claimed : List Nat) (i : Nat) : Prop :=
  i ∉ claimed ∧ (∃ line, window[i]? = some line ∧ lineMatches line rule.anchor rule.tags = true) ∧
    rule.minBurstSize ≤ (i :: (rule.walk claimed (i + 1) 0 (window.drop (i + 1))).1).length

/-! ## Walks -/

/-- The more lines are claimed, the fewer a walk collects. -/
theorem walk_subset (h : ∀ p ∈ consumed, p ∈ claimed) {gap gap' : Nat} (hgap : gap ≤ gap')
    (window : List LogLine) (j : Nat) :
    (rule.walk claimed j gap' window).1.Sublist (rule.walk consumed j gap window).1 := by
  induction window generalizing j gap gap' with
  | nil => exact .slnil
  | cons line rest ih =>
    simp only [walk]
    by_cases hm : j ∉ claimed ∧ lineMatches line rule.member rule.tags = true
    · rw [if_pos hm, if_pos ⟨fun hj => hm.1 (h j hj), hm.2⟩]
      exact (ih (Nat.le_refl 0) (j + 1)).cons_cons j
    · rw [if_neg hm]
      split
      · exact List.nil_sublist _
      · split
        · exact (ih (Nat.zero_le _) (j + 1)).cons j
        · split
          · omega
          · exact ih (Nat.succ_le_succ hgap) (j + 1)

/-- A walk stops as soon as the gap behind its last line is too long. -/
theorem walk_stop {window : List LogLine} {last gap : Nat} (hgap : gap ≤ rule.maxMemberGap) :
    (rule.walk consumed (last + gap + 1) gap window).2 ≤
      (last :: (rule.walk consumed (last + gap + 1) gap window).1).getLastD 0 +
        rule.maxMemberGap + 1 := by
  induction window generalizing last gap with
  | nil =>
    show last + gap + 1 ≤ last + rule.maxMemberGap + 1
    omega
  | cons line rest ih =>
    simp only [walk]
    split
    · have hrest := @ih (last + gap + 1) 0 (Nat.zero_le _)
      simpa only [List.getLastD_cons, Nat.add_zero] using hrest
    · split
      · show last + gap + 1 ≤ last + rule.maxMemberGap + 1
        omega
      · exact @ih last (gap + 1) (by omega)

/-! ## One rule -/

/-- Where no burst begins among the lines that are passed over, they need not be tried. -/
theorem scan_eq_scanAll {window : List LogLine} {resume i : Nat}
    (hresume : ∀ found ∈ rule.scanAll consumed i window, resume ≤ found.startIndex)
    (hfree : rule.SkipFree (rule.scanAll consumed i window)) :
    rule.scan consumed resume i window = rule.scanAll consumed i window := by
  induction window generalizing consumed resume i with
  | nil => rfl
  | cons line rest ih =>
    simp only [scan]
    simp only [scanAll] at hresume hfree ⊢
    by_cases hskip : i ∈ consumed ∨ lineMatches line rule.anchor rule.tags = false
    · rw [if_pos hskip] at hresume hfree ⊢
      rw [if_pos (.inr hskip)]
      exact ih hresume hfree
    · rw [if_neg hskip] at hresume hfree ⊢
      by_cases hlong : rule.minBurstSize ≤ (i :: (rule.walk consumed (i + 1) 0 rest).1).length
      · rw [if_pos hlong] at hresume hfree ⊢
        have hle : resume ≤ i := hresume _ List.mem_cons_self
        rw [if_neg (by simpa [hskip] using hle), if_pos hlong]
        obtain ⟨hnext, hfree⟩ := List.pairwise_cons.1 hfree
        refine congrArg _ (ih (fun found hfound => ?_) hfree)
        have hstop := @walk_stop rule consumed rest i 0 (Nat.zero_le _)
        exact hstop.trans (hnext found hfound)
      · rw [if_neg hlong] at hresume hfree ⊢
        have hrest := ih hresume hfree
        split <;> exact hrest

/-- The scan that tries every line leaves no burst of its rule. -/
theorem scanAll_complete {window : List LogLine} {i k : Nat} {line : LogLine}
    (hsub : ∀ p, p ∈ consumed ∨ (∃ found ∈ rule.scanAll consumed i window, p ∈ found.memberIndices) →
      p ∈ claimed)
    (hk : window[k]? = some line) (hanchor : lineMatches line rule.anchor rule.tags = true)
    (hfree : i + k ∉ claimed) :
    ((i + k) :: (rule.walk claimed (i + k + 1) 0 (window.drop (k + 1))).1).length <
      rule.minBurstSize := by
  induction window generalizing consumed i k with
  | nil => simp at hk
  | cons head rest ih =>
    simp only [scanAll] at hsub
    cases k with
    | zero =>
      obtain rfl : head = line := by simpa using hk
      have hnot : i ∉ consumed := fun hi => hfree (hsub i (.inl hi))
      rw [if_neg (by simp [hnot, hanchor])] at hsub
      split at hsub
      case isTrue hlong =>
        exact absurd (hsub i (.inr ⟨_, List.mem_cons_self, List.mem_cons_self⟩)) hfree
      case isFalse hshort =>
        have hless : (rule.walk claimed (i + 1) 0 rest).1.length ≤
            (rule.walk consumed (i + 1) 0 rest).1.length :=
          (walk_subset (fun p hp => hsub p (.inl hp)) (Nat.le_refl 0) rest (i + 1)).length_le
        simp only [List.length_cons, Nat.not_le] at hshort
        simp only [Nat.add_zero, List.drop_succ_cons, List.drop_zero, List.length_cons]
        omega
    | succ k =>
      rw [List.getElem?_cons_succ] at hk
      have hplace : i + (k + 1) = i + 1 + k := by omega
      rw [hplace] at hfree ⊢
      rw [List.drop_succ_cons]
      split at hsub
      · exact ih hsub hk hfree
      · split at hsub
        · refine @ih (consumed ++ i :: (rule.walk consumed (i + 1) 0 rest).1) _ _
            (fun p hp => hsub p ?_) hk hfree
          rcases hp with hp | ⟨found, hfound, hp⟩
          · rcases List.mem_append.1 hp with hp | hp
            · exact .inl hp
            · exact .inr ⟨_, List.mem_cons_self, hp⟩
          · exact .inr ⟨found, List.mem_cons_of_mem _ hfound, hp⟩
        · exact ih hsub hk hfree

end BurstRule

/-! ## One rule after another -/

/-- The detection that tries every line. -/
def detectAll (window : List LogLine) (consumed : List Nat) : List BurstRule → List BurstHit
  | [] => []
  | rule :: rules =>
    let hits := rule.scanAll consumed 0 window
    hits ++ detectAll window (consumed ++ hits.flatMap (·.memberIndices)) rules

/-- No rule has a burst that begins among the lines that its walk for an earlier one has passed
over. -/
def NoneSkipped (window : List LogLine) (consumed : List Nat) : List BurstRule → Prop
  | [] => True
  | rule :: rules =>
    let hits := rule.scanAll consumed 0 window
    rule.SkipFree hits ∧ NoneSkipped window (consumed ++ hits.flatMap (·.memberIndices)) rules

instance (rule : BurstRule) (hits : List BurstHit) : Decidable (rule.SkipFree hits) :=
  inferInstanceAs (Decidable (List.Pairwise _ hits))

instance decidableNoneSkipped (window : List LogLine) (consumed : List Nat) :
    (rules : List BurstRule) → Decidable (NoneSkipped window consumed rules)
  | [] => inferInstanceAs (Decidable True)
  | rule :: rules =>
    have := decidableNoneSkipped window
      (consumed ++ (rule.scanAll consumed 0 window).flatMap (·.memberIndices)) rules
    inferInstanceAs (Decidable (_ ∧ _))

section
variable {window : List LogLine} {consumed claimed : List Nat} {rules : List BurstRule}

theorem detectFrom_eq_detectAll (h : NoneSkipped window consumed rules) :
    detectFrom window consumed rules = detectAll window consumed rules := by
  induction rules generalizing consumed with
  | nil => rfl
  | cons rule rules ih =>
    obtain ⟨hfree, hrest⟩ := h
    have hscan := rule.scan_eq_scanAll (fun found _ => Nat.zero_le _) hfree
    rw [detectFrom, detectAll, hscan, ih hrest]

/-- The detection that tries every line leaves no burst of any rule. -/
theorem detectAll_complete
    (hsub : ∀ p, p ∈ consumed ∨ (∃ found ∈ detectAll window consumed rules,
      p ∈ found.memberIndices) → p ∈ claimed) :
    ∀ rule ∈ rules, ∀ i, ¬ rule.Unreported window claimed i := by
  induction rules generalizing consumed with
  | nil => simp
  | cons rule rules ih =>
    intro r hr i hi
    rcases List.mem_cons.1 hr with rfl | hr
    · obtain ⟨hfree, ⟨line, hline, hanchor⟩, hlong⟩ := hi
      have hscan : ∀ p, p ∈ consumed ∨
          (∃ found ∈ r.scanAll consumed 0 window, p ∈ found.memberIndices) → p ∈ claimed := by
        rintro p (hp | ⟨found, hfound, hp⟩)
        · exact hsub p (.inl hp)
        · exact hsub p (.inr ⟨found, List.mem_append_left _ hfound, hp⟩)
      have hshort := r.scanAll_complete hscan hline hanchor (by simpa using hfree)
      rw [Nat.zero_add] at hshort
      omega
    · refine @ih (consumed ++ (rule.scanAll consumed 0 window).flatMap (·.memberIndices))
        (fun p hp => hsub p ?_) r hr i hi
      rcases hp with hp | ⟨found, hfound, hp⟩
      · rcases List.mem_append.1 hp with hp | hp
        · exact .inl hp
        · obtain ⟨found, hfound, hp⟩ := List.mem_flatMap.1 hp
          exact .inr ⟨found, List.mem_append_left _ hfound, hp⟩
      · exact .inr ⟨found, List.mem_append_right _ hfound, hp⟩

/-- Where nothing is skipped, no burst is left unreported. -/
theorem detectBursts_complete (h : NoneSkipped window [] rules) :
    ∀ rule ∈ rules, ∀ i, ¬ rule.Unreported window
      ((detectBursts window rules).flatMap (·.memberIndices)) i := by
  refine @detectAll_complete window [] _ rules fun p hp => ?_
  rw [← detectFrom_eq_detectAll h] at hp
  obtain ⟨found, hfound, hp⟩ := hp.resolve_left List.not_mem_nil
  exact List.mem_flatMap.2 ⟨found, (List.mem_insertionSort _).2 hfound, hp⟩

end

/-! ### A skipped door -/

def doorLine (eventName : String) : LogLine where
  timestamp := "2026-05-01T18:46:10.000Z"
  level := some "Notice"
  eventName := some eventName
  body := ""
  tags := []

/-- A door is followed by its leaves. -/
def doorRule : BurstRule := ⟨"doors", .eventName "Door", .eventName "Leaf", [], 2, 1⟩

/-- The second door is far enough behind the first leaf. -/
theorem detectBursts_complete_doors :
    ¬ doorRule.Unreported (["Door", "Leaf", "Wall", "Wall", "Door", "Leaf"].map doorLine)
      ((detectBursts (["Door", "Leaf", "Wall", "Wall", "Door", "Leaf"].map doorLine)
        [doorRule]).flatMap (·.memberIndices)) 4 :=
  detectBursts_complete (by decide +kernel) doorRule List.mem_cons_self 4

/-- The walk from the first door passes over the second. -/
theorem detectBursts_not_complete :
    ¬ ∀ (window : List LogLine) (rules : List BurstRule), ∀ rule ∈ rules, ∀ i,
      ¬ rule.Unreported window ((detectBursts window rules).flatMap (·.memberIndices)) i := by
  intro h
  refine h (["Door", "Leaf", "Door", "Wall", "Leaf"].map doorLine) [doorRule] doorRule
    List.mem_cons_self 2 ⟨by decide +kernel, ⟨doorLine "Door", rfl, by decide +kernel⟩,
      by decide +kernel⟩

end StarStats
