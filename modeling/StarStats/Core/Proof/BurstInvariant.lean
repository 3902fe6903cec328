import Mathlib.Data.List.Chain
import Mathlib.Data.List.Lattice
import StarStats.Core.Proof.TimedBursts

/-!
# What every reported burst is

The walk behind an anchor links each member to the one before it (`linked_walkWithin`), so the scan
of a rule reports bursts of that rule on lines that no other has (`ok_scanWithin`), and so do all
rules together, with a ceiling and without (`detectBurstsInner_ok`). The ceiling is compared in
whole seconds: it is kept to the nanosecond where no neighbours are `JustOver` it
(`detectBurstsInner_exact_iff`).
-/

namespace StarStats

section
variable {apart : LogLine → LogLine → Bool} {window : List LogLine} {rule : BurstRule}

/-- `q` may follow `p` in a burst of the rule. -/
def Follows (apart : LogLine → LogLine → Bool) (window : List LogLine) (rule : BurstRule)
    (p q : Nat) : Prop :=
  p < q ∧ q - p - 1 ≤ rule.maxMemberGap ∧ ∃ prev line, window[p]? = some prev ∧
    window[q]? = some line ∧ lineMatches line rule.member rule.tags = true ∧
      apart prev line = false

/-- A burst of the rule on lines of its own. -/
structure OkWithin (apart : LogLine → LogLine → Bool) (window : List LogLine) (rule : BurstRule)
    (hit : BurstHit) : Prop extends hit.Ok window rule where
  follows : hit.memberIndices.IsChain (Follows apart window rule)

theorem window_of_drop {j : Nat} {line : LogLine} {rest : List LogLine}
    (h : window.drop j = line :: rest) : window[j]? = some line ∧ window.drop (j + 1) = rest := by
  constructor
  · have hget := congrArg (·[0]?) h
    simpa using hget
  · have htail := congrArg List.tail h
    simpa using htail

/-! ## The walk -/

theorem linked_walkWithin {consumed : List Nat} {prev : LogLine} {last j gap : Nat}
    {rest : List LogLine} (hj : j = last + gap + 1) (hgap : gap ≤ rule.maxMemberGap)
    (hlast : window[last]? = some prev) (hrest : window.drop j = rest) :
    (last :: (rule.walkWithin apart consumed prev j gap rest).1).IsChain
        (Follows apart window rule) ∧
      ∀ p ∈ (rule.walkWithin apart consumed prev j gap rest).1, p ∉ consumed := by
  induction rest generalizing prev last j gap with
  | nil => exact ⟨.singleton _, by simp [BurstRule.walkWithin]⟩
  | cons line rest ih =>
    obtain ⟨hline, hdrop⟩ := window_of_drop hrest
    unfold BurstRule.walkWithin
    split
    · rename_i hmember
      cases hapart : apart prev line with
      | true => exact ⟨.singleton _, by simp⟩
      | false =>
        obtain ⟨hchain, hfree⟩ := @ih line j (j + 1) 0 rfl (Nat.zero_le _) hline hdrop
        refine ⟨.cons_cons ⟨by omega, by omega, prev, line, hlast, hline, hmember.2, hapart⟩ hchain,
          fun p hp => ?_⟩
        rcases List.mem_cons.1 hp with rfl | hp
        · exact hmember.1
        · exact hfree p hp
    · split
      · exact ⟨.singleton _, by simp⟩
      · exact ih (by omega) (by omega) hlast hdrop

/-! ## The scan -/

theorem exists_follows_of_mem {a : Nat} {l : List Nat}
    (h : (a :: l).IsChain (Follows apart window rule)) {q : Nat} (hq : q ∈ l) : ∃ p, Follows apart window rule p q := by
  induction l generalizing a with
  | nil => cases hq
  | cons b l ih =>
    obtain ⟨hab, hrest⟩ := List.isChain_cons_cons.1 h
    rcases List.mem_cons.1 hq with rfl | hq
    · exact ⟨a, hab⟩
    · exact ih hrest hq

/-- An anchor and linked members behind it are a burst of the rule. -/
theorem okWithin_of_chain {i : Nat} {line : LogLine} {members : List Nat}
    (hline : window[i]? = some line) (hanchor : lineMatches line rule.anchor rule.tags = true)
    (hchain : (i :: members).IsChain (Follows apart window rule))
    (henough : rule.minBurstSize ≤ (i :: members).length) :
    OkWithin apart window rule
      { ruleId := rule.id
        startIndex := i
        endIndex := (i :: members).getLastD 0
        size := (i :: members).length
        memberIndices := i :: members } where
  ruleId := rfl
  increasing := List.isChain_iff_pairwise.1 (hchain.imp fun _ _ h => h.1)
  inside p hp := by
    rcases List.mem_cons.1 hp with rfl | hp
    · exact (List.getElem?_eq_some_iff.1 hline).1
    · obtain ⟨_, -, -, _, line, -, hget, -⟩ := exists_follows_of_mem hchain hp
      exact (List.getElem?_eq_some_iff.1 hget).1
  first := rfl
  last := by
    rw [List.getLast?_eq_getLast_of_ne_nil (List.cons_ne_nil _ _), List.getLastD_eq_getLast?,
      List.getLast?_eq_getLast_of_ne_nil (List.cons_ne_nil _ _)]
    rfl
  size := rfl
  enough := henough
  anchor := ⟨line, hline, hanchor⟩
  member p hp := by
    obtain ⟨_, -, -, _, line, -, hget, hmatch, -⟩ := exists_follows_of_mem hchain hp
    exact ⟨line, hget, hmatch⟩
  near p q hneighbours := by
    obtain ⟨before, after, heq⟩ := hneighbours
    dsimp only at heq
    rw [heq] at hchain
    exact (List.isChain_append_cons_cons.1 hchain).2.1.2.1
  follows := hchain

theorem ok_scanWithin {consumed : List Nat} {resume i : Nat} {rest : List LogLine}
    (hrest : window.drop i = rest) :
    (∀ hit ∈ rule.scanWithin apart consumed resume i rest, OkWithin apart window rule hit ∧
        ∀ p ∈ hit.memberIndices, p ∉ consumed) ∧
      (rule.scanWithin apart consumed resume i rest).Pairwise
        fun a b => a.memberIndices.Disjoint b.memberIndices := by
  induction rest generalizing consumed resume i with
  | nil => exact ⟨by simp [BurstRule.scanWithin], .nil⟩
  | cons line rest ih =>
    obtain ⟨hline, hdrop⟩ := window_of_drop hrest
    unfold BurstRule.scanWithin
    split
    · exact ih hdrop
    · rename_i hanchor
      simp only [not_or] at hanchor
      obtain ⟨hchain, hfree⟩ := @linked_walkWithin apart window rule consumed line i (i + 1) 0 rest
        rfl (Nat.zero_le _) hline hdrop
      dsimp only
      split
      · rename_i henough
        have hok := okWithin_of_chain hline (by simpa using hanchor.2.2) hchain henough
        obtain ⟨hlater, hdisjoint⟩ := ih hdrop
        refine ⟨fun hit hhit => ?_, List.pairwise_cons.2 ⟨fun hit hhit => ?_, hdisjoint⟩⟩
        · rcases List.mem_cons.1 hhit with rfl | hhit
          · refine ⟨hok, fun p hp => ?_⟩
            rcases List.mem_cons.1 hp with rfl | hp
            · exact hanchor.2.1
            · exact hfree p hp
          · obtain ⟨hhit, hnew⟩ := hlater hit hhit
            exact ⟨hhit, fun p hp hin => hnew p hp (List.mem_append_left _ hin)⟩
        · -- the lines of this burst are taken for the scan behind it
          exact fun p hp hin => (hlater hit hhit).2 p hin (List.mem_append_right _ hp)
      · exact ih hdrop

/-! ## All rules -/

theorem ok_detectWithin {consumed : List Nat} {rules : List BurstRule} :
    (∀ hit ∈ detectWithin apart window consumed rules,
        (∃ rule ∈ rules, OkWithin apart window rule hit) ∧
          ∀ p ∈ hit.memberIndices, p ∉ consumed) ∧
      (detectWithin apart window consumed rules).Pairwise
        fun a b => a.memberIndices.Disjoint b.memberIndices := by
  induction rules generalizing consumed with
  | nil => exact ⟨by simp [detectWithin], .nil⟩
  | cons rule rules ih =>
    unfold detectWithin
    obtain ⟨hhits, hapart⟩ := @ok_scanWithin apart window rule consumed 0 0 window rfl
    obtain ⟨hlater, hdisjoint⟩ := @ih (consumed ++
      (rule.scanWithin apart consumed 0 0 window).flatMap (·.memberIndices))
    refine ⟨fun hit hhit => ?_, List.pairwise_append.2 ⟨hapart, hdisjoint, fun a ha b hb => ?_⟩⟩
    · rcases List.mem_append.1 hhit with hhit | hhit
      · exact ⟨⟨rule, List.mem_cons_self, (hhits hit hhit).1⟩, (hhits hit hhit).2⟩
      · obtain ⟨⟨other, hother, hok⟩, hnew⟩ := hlater hit hhit
        exact ⟨⟨other, List.mem_cons_of_mem _ hother, hok⟩,
          fun p hp hin => hnew p hp (List.mem_append_left _ hin)⟩
    · exact fun p hp hin => (hlater b hb).2 p hin
        (List.mem_append_right _ (List.mem_flatMap.2 ⟨a, ha, hp⟩))

/-- The hits of all rules, in the order in which they start. -/
theorem ok_detectWithin_sorted {rules : List BurstRule} :
    (∀ hit ∈ (detectWithin apart window [] rules).insertionSort (·.startIndex ≤ ·.startIndex),
        ∃ rule ∈ rules, OkWithin apart window rule hit) ∧
      ((detectWithin apart window [] rules).insertionSort (·.startIndex ≤ ·.startIndex)).Pairwise
        (fun a b => a.memberIndices.Disjoint b.memberIndices) ∧
      ((detectWithin apart window [] rules).insertionSort (·.startIndex ≤ ·.startIndex)).Pairwise
        (·.startIndex ≤ ·.startIndex) := by
  obtain ⟨hhits, hdisjoint⟩ := @ok_detectWithin apart window [] rules
  have hperm := List.perm_insertionSort (fun a b : BurstHit => a.startIndex ≤ b.startIndex)
    (detectWithin apart window [] rules)
  have : Std.Total fun a b : BurstHit => a.startIndex ≤ b.startIndex :=
    ⟨fun a b => Nat.le_total _ _⟩
  have : IsTrans BurstHit fun a b => a.startIndex ≤ b.startIndex :=
    ⟨fun a b c hab hbc => Nat.le_trans hab hbc⟩
  exact ⟨fun hit hhit => (hhits hit (hperm.mem_iff.1 hhit)).1,
    (hperm.pairwise_iff fun h => List.Disjoint.symm h).2 hdisjoint, List.pairwise_insertionSort _ _⟩

end

/-- A member is too far from the one before it, if there is a ceiling. -/
def tooFar (parseTs : String → Option Int) (ceiling : Option Int) (prev line : LogLine) : Bool :=
  ceiling.any (memberTimeGapExceeds parseTs · prev.timestamp line.timestamp)

theorem detectBurstsInner_eq (parseTs : String → Option Int) (window : List LogLine)
    (rules : List BurstRule) (ceiling : Option Int) :
    detectBurstsInner parseTs window rules ceiling =
      (detectWithin (tooFar parseTs ceiling) window [] rules).insertionSort
        (·.startIndex ≤ ·.startIndex) := by
  cases ceiling with
  | none =>
    have hnever : ∀ prev line, tooFar parseTs none prev line = false := fun _ _ => rfl
    rw [detectWithin_eq hnever]
    rfl
  | some maxSecs => rfl

/-- Neighbours that follow each other are within the ceiling. -/
theorem OkWithin.eachGap {parseTs : String → Option Int} {window : List LogLine}
    {rule : BurstRule} {hit : BurstHit} {maxSecs : Int}
    (h : OkWithin (tooFar parseTs (some maxSecs)) window rule hit) :
    hit.EachGap parseTs window fun delta => (delta.tdiv 1000000000).natAbs ≤ maxSecs := by
  rintro p q ⟨before, after, heq⟩ prev line s t hprev hline hs ht
  have hchain := h.follows
  rw [heq] at hchain
  obtain ⟨-, -, prev', line', hprev', hline', -, hnear⟩ :=
    (List.isChain_append_cons_cons.1 hchain).2.1
  obtain rfl := Option.some.inj (hprev.symm.trans hprev')
  obtain rfl := Option.some.inj (hline.symm.trans hline')
  have hwithin : memberTimeGapExceeds parseTs maxSecs prev.timestamp line.timestamp = false := hnear
  unfold memberTimeGapExceeds at hwithin
  rw [hs, ht] at hwithin
  simpa using hwithin

/-- What every reported burst is, with a ceiling and without, in the order of the report. -/
theorem detectBurstsInner_ok (parseTs : String → Option Int) (window : List LogLine)
    (rules : List BurstRule) (ceiling : Option Int) :
    let hits := detectBurstsInner parseTs window rules ceiling
    (∀ hit ∈ hits, ∃ rule ∈ rules, hit.Ok window rule ∧ ∀ maxSecs, ceiling = some maxSecs →
        hit.EachGap parseTs window fun delta => (delta.tdiv 1000000000).natAbs ≤ maxSecs) ∧
      hits.Pairwise (fun a b => a.memberIndices.Disjoint b.memberIndices) ∧
      hits.Pairwise (·.startIndex ≤ ·.startIndex) := by
  dsimp only
  rw [detectBurstsInner_eq]
  obtain ⟨hhits, hdisjoint, hsorted⟩ := @ok_detectWithin_sorted (tooFar parseTs ceiling) window
    rules
  refine ⟨fun hit hhit => ?_, hdisjoint, hsorted⟩
  obtain ⟨rule, hrule, hok⟩ := hhits hit hhit
  refine ⟨rule, hrule, hok.toOk, ?_⟩
  rintro maxSecs rfl
  exact hok.eachGap

/-! ## To the nanosecond -/

/-- More than the ceiling, by less than a second. -/
def JustOver (maxSecs delta : Int) : Prop :=
  maxSecs * 1000000000 < delta.natAbs ∧ delta.natAbs < (maxSecs + 1) * 1000000000

theorem within_iff_not_justOver {maxSecs delta : Int}
    (h : (delta.tdiv 1000000000).natAbs ≤ maxSecs) :
    delta.natAbs ≤ maxSecs * 1000000000 ↔ ¬ JustOver maxSecs delta := by
  have hlt : delta.natAbs < (maxSecs + 1) * 1000000000 := by
    have hdiv : (delta.tdiv 1000000000).natAbs = delta.natAbs / 1000000000 :=
      Int.natAbs_tdiv delta 1000000000
    omega
  rw [JustOver, not_and_or, not_lt]
  exact (or_iff_left (not_not.2 hlt)).symm

/-- **Every reported burst keeps to the ceiling** exactly when no two neighbours of one are just
over it; so always in a window without two lines that far apart. -/
theorem detectBurstsInner_exact_iff (parseTs : String → Option Int) (window : List LogLine)
    (rules : List BurstRule) (ceiling : Option Int) :
    let hits := detectBurstsInner parseTs window rules ceiling
    let spaced := ∀ maxSecs, ceiling = some maxSecs → ∀ hit ∈ hits,
      hit.EachGap parseTs window fun delta => ¬ JustOver maxSecs delta
    (((∀ hit ∈ hits, ∃ rule ∈ rules, hit.Ok window rule ∧ ∀ maxSecs, ceiling = some maxSecs →
        hit.EachGap parseTs window fun delta => delta.natAbs ≤ maxSecs * 1000000000) ∧
      hits.Pairwise (fun a b => a.memberIndices.Disjoint b.memberIndices) ∧
      hits.Pairwise (·.startIndex ≤ ·.startIndex)) ↔ spaced) ∧
    ((∀ maxSecs, ceiling = some maxSecs → ∀ a ∈ window, ∀ b ∈ window, ∀ s t,
      parseTs a.timestamp = some s → parseTs b.timestamp = some t →
        ¬ JustOver maxSecs (t - s)) → spaced) := by
  intro hits spaced
  obtain ⟨hhits, hdisjoint, hsorted⟩ := detectBurstsInner_ok parseTs window rules ceiling
  refine ⟨⟨?_, ?_⟩, ?_⟩
  · rintro ⟨hexact, -, -⟩ maxSecs hceiling hit hhit p q hneighbours prev line s t hp hq hs ht
    obtain ⟨-, -, -, hwhole⟩ := hhits hit hhit
    obtain ⟨-, -, -, hgap⟩ := hexact hit hhit
    have hle := hwhole maxSecs hceiling p q hneighbours prev line s t hp hq hs ht
    exact (within_iff_not_justOver hle).1
      (hgap maxSecs hceiling p q hneighbours prev line s t hp hq hs ht)
  · refine fun hspaced => ⟨fun hit hhit => ?_, hdisjoint, hsorted⟩
    obtain ⟨rule, hrule, hok, hwhole⟩ := hhits hit hhit
    refine ⟨rule, hrule, hok, fun maxSecs hceiling p q hneighbours prev line s t hp hq hs ht => ?_⟩
    have hle := hwhole maxSecs hceiling p q hneighbours prev line s t hp hq hs ht
    exact (within_iff_not_justOver hle).2
      (hspaced maxSecs hceiling hit hhit p q hneighbours prev line s t hp hq hs ht)
  · intro hnone maxSecs hceiling hit hhit p q hneighbours prev line s t hp hq hs ht
    exact hnone maxSecs hceiling prev (List.mem_of_getElem? hp) line (List.mem_of_getElem? hq) s t
      hs ht

/-! ### Half a second more than the ceiling -/

def stowedAt (ts : String) : LogLine where
  timestamp := ts
  level := none
  eventName := some "VehicleStowed"
  body := ""
  tags := []

def stowedRule : BurstRule where
  id := "vehicle_stowed_burst"
  anchor := .eventName "VehicleStowed"
  member := .eventName "VehicleStowed"
  tags := []
  minBurstSize := 2
  maxMemberGap := 0

/-- Two instants, 120.5 seconds apart. -/
def overTwoMinutes (ts : String) : Option Int :=
  if ts = "2026-01-01T00:00:00Z" then some 1767225600000000000
  else if ts = "2026-01-01T00:02:00.500Z" then some 1767225720500000000
  else none

/-- A fraction of a second beyond the ceiling is not seen. -/
theorem detectBurstsInner_not_exact :
    ¬ ∀ (parseTs : String → Option Int) (window : List LogLine) (rules : List BurstRule)
      (maxSecs : Int), (∀ rule ∈ rules, 1 ≤ rule.minBurstSize) →
      ∀ hit ∈ detectBurstsInner parseTs window rules (some maxSecs),
        hit.EachGap parseTs window fun delta => delta.natAbs ≤ maxSecs * 1000000000 := by
  intro h
  have hgap := h overTwoMinutes
    [stowedAt "2026-01-01T00:00:00Z", stowedAt "2026-01-01T00:02:00.500Z"] [stowedRule] 120
    (by decide) ⟨"vehicle_stowed_burst", 0, 1, 2, [0, 1]⟩ (by decide) 0 1 ⟨[], [], rfl⟩ _ _ _ _ rfl
    rfl rfl rfl
  exact absurd hgap (by decide)

end StarStats
