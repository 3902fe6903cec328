import Mathlib.Data.List.Sort
import StarStats.Core.TimedBursts

/-!
# What the ceiling leaves as it was

Without timestamps the ceiling changes nothing (`detectBurstsWithTimeGap_eq`), and with them a
burst is still made of lines of the window (`mem_detectBurstsWithTimeGap`).
-/

namespace StarStats

namespace BurstRule

variable {apart : LogLine → LogLine → Bool} {rule : BurstRule}

/-! ## No ceiling -/

theorem walkWithin_eq (hnever : ∀ prev line, apart prev line = false) (consumed : List Nat)
    (prev : LogLine) (j gap : Nat) (window : List LogLine) :
    rule.walkWithin apart consumed prev j gap window = rule.walk consumed j gap window := by
  induction window generalizing prev j gap with
  | nil => rfl
  | cons line rest ih => simp only [walkWithin, walk, hnever, Bool.false_eq_true, if_false, ih]

theorem scanWithin_eq (hnever : ∀ prev line, apart prev line = false) (consumed : List Nat)
    (resume i : Nat) (window : List LogLine) :
    rule.scanWithin apart consumed resume i window = rule.scan consumed resume i window := by
  induction window generalizing consumed resume i with
  | nil => rfl
  | cons line rest ih => simp only [scanWithin, scan, walkWithin_eq hnever, ih]

/-! ## Places -/

theorem lt_of_mem_walkWithin {consumed : List Nat} {prev : LogLine} {j gap p : Nat}
    {window : List LogLine} (h : p ∈ (rule.walkWithin apart consumed prev j gap window).1) :
    p < j + window.length := by
  induction window generalizing prev j gap with
  | nil => cases h
  | cons line rest ih =>
    simp only [walkWithin, List.length_cons] at h ⊢
    split at h
    · split at h
      · cases h
      · rcases List.mem_cons.1 h with rfl | h
        · omega
        · have := ih h
          omega
    · split at h
      · cases h
      · have := ih h
        omega

/-- The places of a burst are those of an anchor and of lines behind it. -/
theorem mem_scanWithin {consumed : List Nat} {resume i : Nat} {window : List LogLine}
    {hit : BurstHit} (h : hit ∈ rule.scanWithin apart consumed resume i window) :
    hit.startIndex ∈ hit.memberIndices ∧ hit.endIndex ∈ hit.memberIndices ∧
      ∀ p ∈ hit.memberIndices, p < i + window.length := by
  induction window generalizing consumed resume i with
  | nil => cases h
  | cons line rest ih =>
    have hrest : ∀ {consumed resume}, hit ∈ rule.scanWithin apart consumed resume (i + 1) rest →
        hit.startIndex ∈ hit.memberIndices ∧ hit.endIndex ∈ hit.memberIndices ∧
          ∀ p ∈ hit.memberIndices, p < i + (line :: rest).length := by
      intro consumed resume h
      obtain ⟨hfirst, hlast, hbound⟩ := ih h
      refine ⟨hfirst, hlast, fun p hp => ?_⟩
      have := hbound p hp
      rw [List.length_cons]
      omega
    simp only [scanWithin] at h
    split at h
    · exact hrest h
    · split at h
      · rcases List.mem_cons.1 h with rfl | h
        · refine ⟨List.mem_cons_self, ?_, fun p hp => ?_⟩
          · rw [List.getLastD_eq_getLast?, List.getLast?_eq_getLast_of_ne_nil (List.cons_ne_nil _ _)]
            exact List.getLast_mem _
          · rw [List.length_cons]
            rcases List.mem_cons.1 hp with rfl | hp
            · omega
            · have := lt_of_mem_walkWithin hp
              omega
        · exact hrest h
      · exact hrest h

end BurstRule

theorem detectWithin_eq {apart : LogLine → LogLine → Bool}
    (hnever : ∀ prev line, apart prev line = false) (window : List LogLine) (consumed : List Nat)
    (rules : List BurstRule) :
    detectWithin apart window consumed rules = detectFrom window consumed rules := by
  induction rules generalizing consumed with
  | nil => rfl
  | cons rule rules ih => simp only [detectWithin, detectFrom, BurstRule.scanWithin_eq hnever, ih]

theorem mem_detectWithin {apart : LogLine → LogLine → Bool} {window : List LogLine}
    {consumed : List Nat} {rules : List BurstRule} {hit : BurstHit}
    (h : hit ∈ detectWithin apart window consumed rules) :
    hit.startIndex ∈ hit.memberIndices ∧ hit.endIndex ∈ hit.memberIndices ∧
      ∀ p ∈ hit.memberIndices, p < window.length := by
  induction rules generalizing consumed with
  | nil => cases h
  | cons rule rules ih =>
    simp only [detectWithin] at h
    rcases List.mem_append.1 h with h | h
    · simpa using BurstRule.mem_scanWithin h
    · exact ih h

/-- Where no timestamp can be read, no burst is cut. -/
theorem detectBurstsWithTimeGap_eq {parseTs : String → Option Int}
    (hnone : ∀ ts, parseTs ts = none) (maxSecs : Int) (window : List LogLine)
    (rules : List BurstRule) :
    detectBurstsWithTimeGap parseTs maxSecs window rules = detectBursts window rules := by
  rw [detectBurstsWithTimeGap, detectBursts, detectWithin_eq]
  intro prev line
  simp only [memberTimeGapExceeds, hnone]

theorem mem_detectBurstsWithTimeGap {parseTs : String → Option Int} {maxSecs : Int}
    {window : List LogLine} {rules : List BurstRule} {hit : BurstHit}
    (h : hit ∈ detectBurstsWithTimeGap parseTs maxSecs window rules) :
    hit.startIndex ∈ hit.memberIndices ∧ hit.endIndex ∈ hit.memberIndices ∧
      ∀ p ∈ hit.memberIndices, p < window.length :=
  mem_detectWithin ((List.mem_insertionSort _).1 h)

end StarStats
