import StarStats.Core.Bursts
import StarStats.Lib.Runs

/-!
# The bursts that are detected

For rules whose anchor is a member and of which no two match a line, the detection finds exactly
the long runs of matches of each rule (`mem_detectBursts`): what one rule has claimed, and where its
scan goes on, never matters to the others.
-/

namespace StarStats

open Runs (follow behind)

namespace BurstRule

variable {rule : BurstRule} {consumed : List Nat}

/-! ## Places -/

theorem le_of_mem_positions {window : List LogLine} {i p : Nat} (h : p ∈ rule.positions i window) :
    i ≤ p := by
  induction window generalizing i with
  | nil => cases h
  | cons line rest ih =>
    simp only [positions] at h
    split at h
    · rcases List.mem_cons.1 h with rfl | h
      · exact Nat.le_refl _
      · exact Nat.le_of_succ_le (ih h)
    · exact Nat.le_of_succ_le (ih h)

theorem mem_positions {window : List LogLine} {i p : Nat} :
    p ∈ rule.positions i window ↔
      ∃ k line, p = i + k ∧ window[k]? = some line ∧
        lineMatches line rule.member rule.tags = true := by
  induction window generalizing i with
  | nil => simp [positions]
  | cons line rest ih =>
    have hsplit : (∃ k l, p = i + k ∧ (line :: rest)[k]? = some l ∧
          lineMatches l rule.member rule.tags = true) ↔
        (p = i ∧ lineMatches line rule.member rule.tags = true) ∨
          p ∈ rule.positions (i + 1) rest := by
      rw [ih]
      constructor
      · rintro ⟨k, l, rfl, hl, hm⟩
        cases k with
        | zero =>
          obtain rfl : line = l := by simpa using hl
          exact .inl ⟨rfl, hm⟩
        | succ k => exact .inr ⟨k, l, by omega, by simpa using hl, hm⟩
      · rintro (⟨rfl, hm⟩ | ⟨k, l, rfl, hl, hm⟩)
        · exact ⟨0, line, rfl, rfl, hm⟩
        · exact ⟨k + 1, l, by omega, by simpa using hl, hm⟩
    rw [hsplit]
    simp only [positions]
    split
    case isTrue hm => simp [hm]
    case isFalse hm => simp [hm]

theorem mem_positions_zero {window : List LogLine} {p : Nat} :
    p ∈ rule.positions 0 window ↔
      ∃ line, window[p]? = some line ∧ lineMatches line rule.member rule.tags = true := by
  rw [mem_positions]
  constructor
  · rintro ⟨k, line, rfl, h⟩
    exact ⟨line, by simpa using h⟩
  · rintro ⟨line, h⟩
    exact ⟨p, line, by omega, h⟩

theorem positions_increasing (window : List LogLine) (i : Nat) :
    (rule.positions i window).Pairwise (· < ·) := by
  induction window generalizing i with
  | nil => exact .nil
  | cons line rest ih =>
    simp only [positions]
    split
    · exact List.pairwise_cons.2 ⟨fun p hp => le_of_mem_positions hp, ih _⟩
    · exact ih _

/-! ## The walk -/

theorem le_walk (window : List LogLine) (j gap : Nat) : j ≤ (rule.walk consumed j gap window).2 := by
  induction window generalizing j gap with
  | nil => exact Nat.le_refl _
  | cons line rest ih =>
    simp only [walk]
    split
    · exact Nat.le_of_succ_le (ih _ _)
    · split
      · exact Nat.le_refl _
      · exact Nat.le_of_succ_le (ih _ _)

theorem lt_walk {window : List LogLine} {j gap p : Nat} (h : p ∈ (rule.walk consumed j gap window).1) :
    p < (rule.walk consumed j gap window).2 := by
  induction window generalizing j gap with
  | nil => cases h
  | cons line rest ih =>
    simp only [walk] at h ⊢
    split at h
    case isTrue hm =>
      rw [if_pos hm]
      rcases List.mem_cons.1 h with rfl | h
      · exact le_walk rest _ _
      · exact ih h
    case isFalse hm =>
      rw [if_neg hm]
      split at h
      case isTrue => cases h
      case isFalse hgap =>
        rw [if_neg hgap]
        exact ih h

theorem lt_of_mem_walk {window : List LogLine} {j gap p : Nat}
    (h : p ∈ (rule.walk consumed j gap window).1) : p < j + window.length := by
  induction window generalizing j gap with
  | nil => cases h
  | cons line rest ih =>
    simp only [walk, List.length_cons] at h ⊢
    split at h
    case isTrue =>
      rcases List.mem_cons.1 h with rfl | h
      · omega
      · have := ih h
        omega
    case isFalse =>
      split at h
      case isTrue => cases h
      case isFalse =>
        have := ih h
        omega

/-- A burst of any rule is an anchor and the members that a walk finds behind it. -/
theorem exists_of_mem_scan {window : List LogLine} {resume i : Nat} {found : BurstHit}
    (h : found ∈ rule.scan consumed resume i window) :
    ∃ walked, found = rule.hit (found.startIndex :: walked) ∧
      ∀ p ∈ found.startIndex :: walked, p < i + window.length := by
  induction window generalizing consumed resume i with
  | nil => cases h
  | cons line rest ih =>
    have hlater : ∀ {consumed' resume'}, found ∈ rule.scan consumed' resume' (i + 1) rest →
        ∃ walked, found = rule.hit (found.startIndex :: walked) ∧
          ∀ p ∈ found.startIndex :: walked, p < i + (line :: rest).length := by
      intro consumed' resume' h
      obtain ⟨walked, hfound, hlt⟩ := ih h
      refine ⟨walked, hfound, fun p hp => ?_⟩
      have := hlt p hp
      rw [List.length_cons]
      omega
    rw [scan] at h
    split at h
    case isTrue => exact hlater h
    case isFalse =>
      dsimp only at h
      split at h
      case isTrue =>
        rcases List.mem_cons.1 h with rfl | h
        · refine ⟨_, rfl, List.forall_mem_cons.2 ⟨?_, fun p hp => ?_⟩⟩
          · show i < i + (rest.length + 1)
            omega
          · have := lt_of_mem_walk hp
            rw [List.length_cons]
            omega
        · exact hlater h
      case isFalse => exact hlater h

theorem follow_of_far {last : Nat} {ps : List Nat} (h : ∀ p ∈ ps, rule.linked last p = false) :
    follow rule.linked last ps = [] ∧ behind rule.linked last ps = ps := by
  cases ps with
  | nil => exact ⟨rfl, rfl⟩
  | cons p ps => simp [follow, behind, h p List.mem_cons_self]

/-- The walk collects what follows the anchor in its run and stops before the rest. -/
theorem walk_spec {window : List LogLine} {last j gap : Nat} (hj : j = last + gap + 1)
    (hgap : gap ≤ rule.maxMemberGap)
    (hfree : ∀ p ∈ rule.positions j window, p ∉ consumed) :
    (rule.walk consumed j gap window).1 = follow rule.linked last (rule.positions j window) ∧
      (rule.positions j window).filter ((rule.walk consumed j gap window).2 ≤ ·) =
        behind rule.linked last (rule.positions j window) := by
  induction window generalizing last j gap with
  | nil => exact ⟨rfl, rfl⟩
  | cons line rest ih =>
    by_cases hm : lineMatches line rule.member rule.tags = true
    · have hlinked : rule.linked last j = true := by
        simp only [linked, decide_eq_true_eq]
        omega
      simp only [positions, hm, if_true, List.forall_mem_cons] at hfree
      obtain ⟨hrun, hrest⟩ := @ih j (j + 1) 0 rfl (Nat.zero_le _) hfree.2
      have hpast : ¬ (rule.walk consumed (j + 1) 0 rest).2 ≤ j := Nat.not_le.2 (le_walk rest _ _)
      simp only [walk, positions, hm, hfree.1, not_false_eq_true, and_self, if_true, follow, behind,
        hlinked]
      rw [List.filter_cons_of_neg (by simpa using hpast), hrest, hrun]
      exact ⟨rfl, rfl⟩
    · simp only [positions, if_neg hm] at hfree ⊢
      rw [walk, if_neg fun h => hm h.2]
      split
      case isTrue hstop =>
        have hfar : ∀ p ∈ rule.positions (j + 1) rest, rule.linked last p = false := by
          intro p hp
          have := le_of_mem_positions hp
          simp only [linked, decide_eq_false_iff_not]
          omega
        obtain ⟨hrun, hrest⟩ := follow_of_far hfar
        rw [hrun, hrest, List.filter_eq_self]
        refine ⟨rfl, fun p hp => ?_⟩
        simpa using Nat.le_of_succ_le (le_of_mem_positions hp)
      case isFalse hgo => exact ih (by omega) (by omega) hfree

/-! ## The scan -/

/-- The scan of one rule reports its long runs, from `resume` on. -/
theorem scan_eq (huniform : rule.Uniform) {window : List LogLine} {resume i : Nat}
    (hfree : ∀ p ∈ rule.positions i window, resume ≤ p → p ∉ consumed) :
    rule.scan consumed resume i window =
      ((((rule.positions i window).filter (resume ≤ ·)).splitBy rule.linked).filter
        (rule.minBurstSize ≤ ·.length)).map rule.hit := by
  induction window generalizing resume i consumed with
  | nil => rfl
  | cons line rest ih =>
    by_cases hm : lineMatches line rule.member rule.tags = true
    · simp only [positions, hm, if_true, List.forall_mem_cons] at hfree ⊢
      by_cases hi : i < resume
      · rw [List.filter_cons_of_neg (by simpa using hi), scan, if_pos (.inl hi), ih hfree.2]
      · have hle : resume ≤ i := Nat.le_of_not_lt hi
        have hall : (rule.positions (i + 1) rest).filter (resume ≤ ·) =
            rule.positions (i + 1) rest := by
          rw [List.filter_eq_self]
          intro p hp
          have := le_of_mem_positions hp
          simp only [decide_eq_true_eq]
          omega
        have hwalk := @walk_spec rule consumed rest i (i + 1) 0 rfl (Nat.zero_le _)
          fun p hp => hfree.2 p hp (Nat.le_trans hle (Nat.le_of_succ_le (le_of_mem_positions hp)))
        rw [List.filter_cons_of_pos (by simpa using hle), hall, Runs.splitBy_cons, ← hwalk.1,
          ← hwalk.2]
        have hgo : ¬ (i < resume ∨ i ∈ consumed ∨ lineMatches line rule.anchor rule.tags = false) := by
          rw [huniform, hm]
          simp [hi, hfree.1 hle]
        rw [scan, if_neg hgo]
        dsimp only
        have hmember : ∀ p ∈ i :: (rule.walk consumed (i + 1) 0 rest).1,
            p < (rule.walk consumed (i + 1) 0 rest).2 :=
          List.forall_mem_cons.2 ⟨le_walk rest _ _, fun p hp => lt_walk hp⟩
        split
        case isTrue hlong =>
          rw [List.filter_cons_of_pos (by simpa using hlong), List.map_cons, ih]
          · rfl
          · intro p hp hle' hc
            rcases List.mem_append.1 hc with hc | hc
            · exact hfree.2 p hp (by have := le_of_mem_positions hp; omega) hc
            · have := hmember p hc
              omega
        case isFalse hshort =>
          rw [List.filter_cons_of_neg (by simpa using hshort), ih hfree.2, hall, hwalk.2,
            Runs.filter_splitBy_of_short]
          rw [hwalk.1, List.length_cons] at hshort
          omega
    · have hskip : i < resume ∨ i ∈ consumed ∨ lineMatches line rule.anchor rule.tags = false := by
        rw [huniform]
        simp [hm]
      simp only [positions, if_neg hm] at hfree ⊢
      rw [scan, if_pos hskip, ih hfree]

/-! ## Bursts -/

theorem mem_positions_of_mem_bursts {window : List LogLine} {run : List Nat} {p : Nat}
    (hrun : run ∈ rule.bursts window) (hp : p ∈ run) : p ∈ rule.positions 0 window := by
  rw [← List.flatten_splitBy rule.linked (rule.positions 0 window)]
  exact List.mem_flatten.2 ⟨run, (List.mem_filter.1 hrun).1, hp⟩

theorem Apart.disjoint {other : BurstRule} (h : rule.Apart other) {window : List LogLine} {p : Nat}
    (hp : p ∈ rule.positions 0 window) : p ∉ other.positions 0 window := by
  intro hp'
  obtain ⟨line, hline, hm⟩ := mem_positions_zero.1 hp
  obtain ⟨line', hline', hm'⟩ := mem_positions_zero.1 hp'
  obtain rfl : line = line' := Option.some.inj (hline.symm.trans hline')
  exact h line ⟨hm, hm'⟩

/-- A burst is one match with what follows it, and comes again in no other place. -/
theorem exists_of_mem_bursts {window : List LogLine} {run : List Nat}
    (h : run ∈ rule.bursts window) :
    ∃ before a after, rule.positions 0 window = before ++ a :: after ∧
      run = a :: follow rule.linked a after :=
  Runs.exists_of_mem_splitBy (List.mem_filter.1 h).1

theorem positions_nodup (window : List LogLine) : (rule.positions 0 window).Nodup :=
  (positions_increasing window 0).imp Nat.ne_of_lt

/-- A match is in one burst at most. -/
theorem bursts_eq_of_mem {window : List LogLine} {run run' : List Nat} {p : Nat}
    (hrun : run ∈ rule.bursts window) (hrun' : run' ∈ rule.bursts window) (hp : p ∈ run)
    (hp' : p ∈ run') : run = run' :=
  Runs.eq_of_mem_splitBy (positions_nodup window) (List.mem_filter.1 hrun).1
    (List.mem_filter.1 hrun').1 hp hp'

theorem ne_nil_of_mem_bursts {window : List LogLine} {run : List Nat}
    (hrun : run ∈ rule.bursts window) : run ≠ [] := by
  obtain ⟨before, a, after, -, rfl⟩ := exists_of_mem_bursts hrun
  exact List.cons_ne_nil _ _

theorem headD_mem {run : List Nat} (h : run ≠ []) : run.headD 0 ∈ run := by
  obtain ⟨a, l, rfl⟩ := List.exists_cons_of_ne_nil h
  exact List.mem_cons_self

/-- So a match starts one burst at most. -/
theorem bursts_unique {window : List LogLine} {run run' : List Nat}
    (hrun : run ∈ rule.bursts window) (hrun' : run' ∈ rule.bursts window)
    (h : run.headD 0 = run'.headD 0) : run = run' := by
  have hhead := headD_mem (ne_nil_of_mem_bursts hrun)
  have hhead' := headD_mem (ne_nil_of_mem_bursts hrun')
  exact bursts_eq_of_mem hrun hrun' hhead (h ▸ hhead')

/-! ## Joined windows -/

theorem positions_append (window more : List LogLine) (i : Nat) :
    rule.positions i (window ++ more) =
      rule.positions i window ++ rule.positions (i + window.length) more := by
  induction window generalizing i with
  | nil => rfl
  | cons line rest ih =>
    have hlen : i + (line :: rest).length = i + 1 + rest.length := by
      rw [List.length_cons]
      omega
    simp only [List.cons_append, positions, ih, hlen]
    split
    · rfl
    · rfl

theorem positions_add (window : List LogLine) (i d : Nat) :
    rule.positions (i + d) window = (rule.positions i window).map (· + d) := by
  induction window generalizing i with
  | nil => rfl
  | cons line rest ih =>
    have hstep : i + d + 1 = i + 1 + d := by omega
    simp only [positions, hstep, ih]
    split
    · rfl
    · rfl

theorem lt_of_mem_positions {window : List LogLine} {p : Nat} (h : p ∈ rule.positions 0 window) :
    p < window.length := by
  obtain ⟨line, hline, -⟩ := mem_positions_zero.1 h
  exact (List.getElem?_eq_some_iff.1 hline).1

theorem lt_of_mem_bursts {window : List LogLine} {run : List Nat} {p : Nat}
    (hrun : run ∈ rule.bursts window) (hp : p ∈ run) : p < window.length :=
  lt_of_mem_positions (mem_positions_of_mem_bursts hrun hp)

theorem noneAcross_of_not_across {window : List LogLine} {place : Nat}
    (h : ¬ rule.Across window place) :
    Runs.NoneAcross rule.linked (· < place) rule.minBurstSize (rule.positions 0 window) := by
  rintro run hrun hlen ⟨⟨p, hp, hlt⟩, q, hq, hge⟩
  exact h ⟨run, List.mem_filter.2 ⟨hrun, by simpa using hlen⟩, ⟨p, hp, by simpa using hlt⟩, q, hq,
    by simpa using hge⟩

theorem linked_add (d p q : Nat) : rule.linked (p + d) (q + d) = rule.linked p q := by
  simp only [linked, decide_eq_decide]
  omega

/-- A burst of a part is the beginning of the burst of the whole that starts there. -/
theorem bursts_within {before window after : List LogLine} {run run' : List Nat}
    (hrun : run ∈ rule.bursts (before ++ (window ++ after))) (hrun' : run' ∈ rule.bursts window)
    (h : run.headD 0 = run'.headD 0 + before.length) :
    ∃ more, run = run'.map (· + before.length) ++ more := by
  obtain ⟨front, a, rest, hpos, rfl⟩ := exists_of_mem_bursts hrun
  obtain ⟨front', b, rest', hpos', rfl⟩ := exists_of_mem_bursts hrun'
  obtain rfl : a = b + before.length := h
  have hnodup := @positions_nodup rule (before ++ (window ++ after))
  rw [hpos, List.nodup_middle, List.nodup_cons, List.mem_append, not_or] at hnodup
  have hshift : ∀ more, rule.positions (0 + before.length) more =
      (rule.positions 0 more).map (· + before.length) :=
    fun more => positions_add more 0 before.length
  rw [positions_append, hshift, positions_append, hpos', List.map_append, List.map_append,
    List.map_cons, List.append_assoc, List.cons_append, ← List.append_assoc] at hpos
  obtain ⟨-, -, hrest⟩ := (List.append_cons_inj_of_notMem hnodup.1.1 hnodup.1.2).1 hpos.symm
  obtain ⟨more, hmore, -⟩ := Runs.follow_append (r := rule.linked) (b + before.length)
    (rest'.map (· + before.length))
    ((rule.positions (0 + window.length) after).map (· + before.length))
  refine ⟨more, ?_⟩
  rw [hrest, hmore, Runs.follow_map fun p q => linked_add before.length p q]
  rfl

/-- A burst that has lines outside a part is longer than what is found of it there. -/
theorem length_ne_of_outside {before window after : List LogLine} {run run' : List Nat} {p : Nat}
    (hrun : run ∈ rule.bursts (before ++ (window ++ after))) (hrun' : run' ∈ rule.bursts window)
    (h : run.headD 0 = run'.headD 0 + before.length) (hp : p ∈ run)
    (hout : p < before.length ∨ before.length + window.length ≤ p) : run.length ≠ run'.length := by
  intro hlen
  obtain ⟨more, rfl⟩ := bursts_within hrun hrun' h
  obtain rfl : more = [] := by simpa using hlen
  rw [List.append_nil] at hp
  obtain ⟨q, hq, rfl⟩ := List.mem_map.1 hp
  have := lt_of_mem_bursts hrun' hq
  omega

/-- The bursts of two windows, when none goes across. -/
theorem bursts_append {window more : List LogLine}
    (h : ¬ rule.Across (window ++ more) window.length) :
    rule.bursts (window ++ more) =
      rule.bursts window ++ (rule.bursts more).map (List.map (· + window.length)) := by
  have hshift : rule.positions (0 + window.length) more =
      (rule.positions 0 more).map (· + window.length) := positions_add more 0 window.length
  have hnone := noneAcross_of_not_across h
  rw [positions_append, hshift] at hnone
  have hfirst : ∀ p ∈ rule.positions 0 window, decide (p < window.length) = true :=
    fun p hp => by simpa using lt_of_mem_positions hp
  have hsecond : ∀ p ∈ (rule.positions 0 more).map (· + window.length),
      decide (p < window.length) = false := by
    intro p hp
    obtain ⟨q, -, rfl⟩ := List.mem_map.1 hp
    simp
  rw [bursts, positions_append, hshift, Runs.filter_splitBy_append hfirst hsecond hnone,
    Runs.splitBy_map fun p q => linked_add window.length p q, List.filter_map]
  simp only [bursts, Function.comp_def, List.length_map]

/-- With more lines, a burst of the first may go on. -/
theorem exists_burst_append {window : List LogLine} {run : List Nat}
    (h : run ∈ rule.bursts window) (more : List LogLine) :
    ∃ later, run ++ later ∈ rule.bursts (window ++ more) ∧ ∀ q ∈ later, window.length ≤ q := by
  obtain ⟨hsplit, hlong⟩ := List.mem_filter.1 h
  obtain ⟨later, hrun, hlater⟩ := Runs.exists_run_append hsplit
    (rule.positions (0 + window.length) more)
  refine ⟨later, List.mem_filter.2 ⟨?_, ?_⟩, fun q hq => ?_⟩
  · rwa [positions_append]
  · simp only [decide_eq_true_eq, List.length_append] at hlong ⊢
    omega
  · have := le_of_mem_positions (hlater q hq)
    omega

/-- A burst among the first lines is one of them alone. -/
theorem mem_bursts_of_before {window more : List LogLine} {run : List Nat}
    (h : run ∈ rule.bursts (window ++ more)) (hbefore : ∀ p ∈ run, p < window.length) :
    run ∈ rule.bursts window := by
  have hhead := headD_mem (ne_nil_of_mem_bursts h)
  have hmatch : run.headD 0 ∈ rule.positions 0 window := by
    have hall := mem_positions_of_mem_bursts h hhead
    rw [positions_append] at hall
    refine (List.mem_append.1 hall).resolve_right fun hlater => ?_
    have := le_of_mem_positions hlater
    have := hbefore _ hhead
    omega
  rw [← List.flatten_splitBy rule.linked (rule.positions 0 window)] at hmatch
  obtain ⟨first, hfirst, hmem⟩ := List.mem_flatten.1 hmatch
  obtain ⟨later, hrun, hlater⟩ := Runs.exists_run_append hfirst
    (rule.positions (0 + window.length) more)
  obtain ⟨hsplit, hlong⟩ := List.mem_filter.1 h
  rw [← positions_append] at hrun
  obtain rfl : run = first ++ later := Runs.eq_of_mem_splitBy (positions_nodup _) hsplit hrun hhead
    (List.mem_append_left _ hmem)
  cases later with
  | nil =>
    rw [List.append_nil] at hlong ⊢
    exact List.mem_filter.2 ⟨hfirst, hlong⟩
  | cons q later =>
    have := le_of_mem_positions (hlater q List.mem_cons_self)
    have := hbefore q (by simp)
    omega

theorem Across.append {window more : List LogLine} {place : Nat}
    (h : ¬ rule.Across (window ++ more) window.length) (hmore : rule.Across more place) :
    rule.Across (window ++ more) (window.length + place) := by
  obtain ⟨run, hrun, ⟨p, hp, hlt⟩, q, hq, hge⟩ := hmore
  refine ⟨run.map (· + window.length), ?_, ⟨_, List.mem_map_of_mem hp, ?_⟩, _,
    List.mem_map_of_mem hq, ?_⟩
  · rw [bursts_append h]
    exact List.mem_append_right _ (List.mem_map_of_mem hrun)
  · omega
  · omega

end BurstRule

section
variable {window : List LogLine} {rules : List BurstRule}

theorem detectFrom_eq {consumed : List Nat} (huniform : ∀ rule ∈ rules, rule.Uniform)
    (hapart : rules.Pairwise BurstRule.Apart)
    (hfree : ∀ rule ∈ rules, ∀ p ∈ rule.positions 0 window, p ∉ consumed) :
    detectFrom window consumed rules =
      rules.flatMap fun rule => (rule.bursts window).map rule.hit := by
  induction rules generalizing consumed with
  | nil => rfl
  | cons rule rules ih =>
    obtain ⟨hrule, huniform⟩ := List.forall_mem_cons.1 huniform
    obtain ⟨hfirst, hfree⟩ := List.forall_mem_cons.1 hfree
    obtain ⟨hother, hapart⟩ := List.pairwise_cons.1 hapart
    have hscan : rule.scan consumed 0 0 window = (rule.bursts window).map rule.hit := by
      have hall : (rule.positions 0 window).filter (0 ≤ ·) = rule.positions 0 window :=
        List.filter_eq_self.2 fun p _ => by simp
      rw [BurstRule.scan_eq hrule fun p hp _ => hfirst p hp, hall]
      rfl
    rw [detectFrom, hscan, List.flatMap_cons, ih huniform hapart]
    intro other hmem p hp hc
    rcases List.mem_append.1 hc with hc | hc
    · exact hfree other hmem p hp hc
    · obtain ⟨hit, hhit, hpm⟩ := List.mem_flatMap.1 hc
      obtain ⟨run, hrun, rfl⟩ := List.mem_map.1 hhit
      exact (hother other hmem).disjoint (BurstRule.mem_positions_of_mem_bursts hrun hpm) hp

/-- The detection finds the long runs of each rule. -/
theorem mem_detectBursts (huniform : ∀ rule ∈ rules, rule.Uniform)
    (hapart : rules.Pairwise BurstRule.Apart) {hit : BurstHit} :
    hit ∈ detectBursts window rules ↔
      ∃ rule ∈ rules, ∃ run ∈ rule.bursts window, hit = rule.hit run := by
  rw [detectBursts, List.mem_insertionSort,
    detectFrom_eq huniform hapart fun _ _ _ _ => List.not_mem_nil]
  simp only [List.mem_flatMap, List.mem_map, eq_comm]

theorem exists_scan_of_mem_detectFrom {consumed : List Nat} {found : BurstHit}
    (h : found ∈ detectFrom window consumed rules) :
    ∃ rule ∈ rules, ∃ claimed, found ∈ rule.scan claimed 0 0 window := by
  induction rules generalizing consumed with
  | nil => cases h
  | cons rule rules ih =>
    rcases List.mem_append.1 h with h | h
    · exact ⟨rule, List.mem_cons_self, consumed, h⟩
    · obtain ⟨other, hother, claimed, hfound⟩ := ih h
      exact ⟨other, List.mem_cons_of_mem _ hother, claimed, hfound⟩

theorem detectBursts_sorted (window : List LogLine) (rules : List BurstRule) :
    (detectBursts window rules).Pairwise (·.startIndex ≤ ·.startIndex) := by
  have htotal : Std.Total fun a b : BurstHit => a.startIndex ≤ b.startIndex :=
    ⟨fun a b => Nat.le_total _ _⟩
  have htrans : IsTrans BurstHit fun a b => a.startIndex ≤ b.startIndex :=
    ⟨fun a b c => Nat.le_trans⟩
  exact List.pairwise_insertionSort _ _

end

end StarStats
