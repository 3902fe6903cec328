import StarStats.Client.Proof.Stored

/-!
# What joining the lines of a log keeps

`stitch_conserves`: the records are, in order, those of consecutive runs of at most three lines that
make up the whole log. A line on its own is kept as it is; several lines are one record when the
first has left a quote open and the last of them closes it.
-/

namespace StarStats

/-- The lines of a record, put together. -/
def recordText (first : String) (more : List (String × Nat)) : String :=
  more.foldl (fun merged line => merged ++ " " ++ continuationBody line.1) first

/-- The lines close the quote that a text has left open, and no fewer of them do. -/
structure Closes (first : String) (more : List (String × Nat)) : Prop where
  noStart : ∀ line ∈ more, looksLikeRecordStart line.1 = false
  closed : quoteCount (recordText first more) % 2 = 0
  early : ∀ k < more.length, quoteCount (recordText first (more.take k)) % 2 = 1

/-- The record of a run of lines. -/
inductive IsRecord : List (String × Nat) → String × Nat → Prop
  | alone (line) : IsRecord [line] line
  | joined (first : String × Nat) (more) : more ≠ [] → more.length < maxStitchLines →
      unterminated first.1 = true → Closes first.1 more →
      IsRecord (first :: more) (recordText first.1 more, first.2)

theorem quoteCount_append (a b : String) :
    quoteCount (a ++ b) = quoteCount a + quoteCount b := by
  rw [quoteCount, String.toList_append, List.count_append]
  rfl

theorem quoteCount_joint (first : String) (line : String × Nat) :
    quoteCount (first ++ " " ++ continuationBody line.1) =
      quoteCount first + quoteCount (continuationBody line.1) := by
  rw [quoteCount_append, quoteCount_append]
  rfl

/-- What the dry run commits to. -/
theorem continuations_spec {first : String} {left : Nat} {lines : List (String × Nat)}
    {bodies : List String} (h : continuations (quoteCount first) left lines = some bodies) :
    ∃ more rest, lines = more ++ rest ∧ bodies = more.map (continuationBody ·.1) ∧
      more.length ≤ left ∧ Closes first more := by
  by_cases heven : quoteCount first % 2 = 0
  · rw [continuations_of_even heven] at h
    obtain rfl := Option.some.inj h
    exact ⟨[], lines, rfl, rfl, Nat.zero_le _, ⟨by simp, heven, by simp⟩⟩
  · cases left with
    | zero => simp [continuations, heven] at h
    | succ left =>
      cases lines with
      | nil => simp [continuations, heven] at h
      | cons next rest =>
        rw [continuations, if_neg heven] at h
        split at h
        case isTrue => cases h
        case isFalse hstart =>
          obtain ⟨bodies, hbodies, rfl⟩ := Option.map_eq_some_iff.1 h
          rw [← quoteCount_joint] at hbodies
          obtain ⟨more, rest, rfl, rfl, hlen, hcloses⟩ := continuations_spec hbodies
          refine ⟨next :: more, rest, rfl, rfl, Nat.succ_le_succ hlen, ?_, hcloses.closed, ?_⟩
          · intro line hline
            rcases List.mem_cons.1 hline with rfl | hline
            · exact Bool.eq_false_iff.2 hstart
            · exact hcloses.noStart line hline
          · intro k hk
            cases k with
            | zero => exact Nat.mod_two_ne_zero.1 heven
            | succ k => exact hcloses.early k (Nat.lt_of_succ_lt_succ hk)
termination_by left

theorem foldl_bodies (first : String) (more : List (String × Nat)) :
    (more.map (continuationBody ·.1)).foldl (fun merged body => merged ++ " " ++ body) first =
      recordText first more := by
  rw [List.foldl_map]
  rfl

/-- Lines that are joined are a record. -/
theorem isRecord_of_joined {line : String × Nat} {rest : List (String × Nat)}
    {bodies : List String} (h : joined line.1 rest = some bodies) :
    ∃ more after, rest = more ++ after ∧ bodies = more.map (continuationBody ·.1) ∧
      IsRecord (line :: more) (recordText line.1 more, line.2) := by
  unfold joined at h
  split at h
  case isFalse => cases h
  case isTrue hopen =>
    obtain ⟨more, after, hrest, hbodies, hlen, hcloses⟩ := continuations_spec h
    refine ⟨more, after, hrest, hbodies,
      .joined line more ?_ (Nat.lt_succ_of_le hlen) hopen hcloses⟩
    -- the first line alone has an open quote
    rintro rfl
    simp only [unterminated, Bool.and_eq_true, beq_iff_eq] at hopen
    have heven : quoteCount line.1 % 2 = 0 := hcloses.closed
    omega

theorem stitchFrom_skip (skip : Nat) (lines : List (String × Nat)) :
    stitchFrom skip lines = stitchFrom 0 (lines.drop skip) := by
  induction skip generalizing lines with
  | zero => rfl
  | succ skip ih =>
    cases lines with
    | nil => rfl
    | cons line rest => exact ih rest

/-- The records are those of the runs that the log is made up of. -/
theorem exists_runs (lines : List (String × Nat)) :
    ∃ runs : List (List (String × Nat)), runs.flatten = lines ∧
      List.Forall₂ IsRecord runs (stitchMultilineRecords lines) := by
  induction hlen : lines.length using Nat.strong_induction_on generalizing lines with
  | _ n ih =>
    cases lines with
    | nil => exact ⟨[], rfl, .nil⟩
    | cons line rest =>
      rw [stitchMultilineRecords, stitchFrom]
      cases hjoined : joined line.1 rest with
      | none =>
        obtain ⟨runs, rfl, hruns⟩ := ih rest.length (by simp [← hlen]) rest rfl
        exact ⟨[line] :: runs, rfl, .cons (.alone line) hruns⟩
      | some bodies =>
        obtain ⟨more, after, rfl, rfl, hrecord⟩ := isRecord_of_joined hjoined
        have hlt : after.length < n := by
          rw [← hlen, List.length_cons, List.length_append]
          omega
        obtain ⟨runs, rfl, hruns⟩ := ih after.length hlt after rfl
        refine ⟨(line :: more) :: runs, rfl, ?_⟩
        dsimp only
        rw [foldl_bodies, List.length_map, stitchFrom_skip, List.drop_left]
        exact .cons hrecord hruns

/-- No line is lost or used twice, and the records are in the order of their first lines. -/
theorem stitch_conserves (lines : List (String × Nat)) :
    (∃ runs : List (List (String × Nat)), runs.flatten = lines ∧
      List.Forall₂ IsRecord runs (stitchMultilineRecords lines)) ∧
    (lines.Pairwise (·.2 < ·.2) → (stitchMultilineRecords lines).Pairwise (·.2 < ·.2)) := by
  refine ⟨exists_runs lines, fun h => ?_⟩
  have hoffsets : (lines.map (·.2)).Pairwise (· < ·) := List.pairwise_map.2 h
  exact List.pairwise_map.1 (hoffsets.sublist (IngestEnv.stitchFrom_offsets 0 lines))

end StarStats
