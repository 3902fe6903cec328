import StarStats.Client.UnknownLines
import StarStats.Lib.Trans

/-!
# Redactions of the review queue

`redactions_fit`: as long as every captured line has the tokens that were stored with the first of
its shape, the tokens of every listed line are its own; and with the first that has not, a row no
longer fits. A row keeps the tokens of its first line and shows its last.
-/

namespace StarStats.UnknownLines

variable {detect : String → List PiiToken} {rows : List UnknownRow}

/-! ## One call -/

theorem getLast?_pushSample (samples : List String) (line : String) :
    (pushSample samples line).getLast? = some line := by
  have hlen : (samples ++ [line]).length - rawExamplesCap < (samples ++ [line]).length := by
    simp only [List.length_append, List.length_singleton, rawExamplesCap]
    omega
  rw [pushSample, List.getLast?_drop, if_neg (by omega), List.getLast?_append]
  rfl

/-- A row whose shape is seen again shows the new line with the tokens it had. -/
theorem fits_seenAgain (r : UnknownRow) (line : UnknownLine) :
    Fits detect (decodeUnknownLine (r.seenAgain line)) ↔ r.detectedPii = detect line.rawLine := by
  simp only [Fits, decodeUnknownLine, UnknownRow.seenAgain, getLast?_pushSample, Option.getD_some]

theorem fits_row (captured : Captured detect) :
    Fits detect (decodeUnknownLine captured.line.row) := captured.own

theorem TableFits.cache {captured : Captured detect} (h : TableFits detect rows)
    (hsame : SameTokens detect rows captured) :
    TableFits detect (cacheUnknownLine rows captured.line) := by
  intro x hx
  rw [cacheUnknownLine] at hx
  split at hx
  case isTrue =>
    obtain ⟨r, hr, rfl⟩ := List.mem_map.1 hx
    split
    case isTrue hshape =>
      rw [fits_seenAgain, hsame r hr hshape]
      exact captured.own
    case isFalse => exact h r hr
  case isFalse =>
    split at hx
    case isTrue => exact h x hx
    case isFalse =>
      rcases List.mem_append.1 hx with hx | hx
      · exact h x hx
      · rw [List.mem_singleton.1 hx]
        exact fits_row captured

/-- A line with other tokens is shown with those of the first. -/
theorem not_tableFits_of_cache {captured : Captured detect}
    (hnot : ¬ SameTokens detect rows captured) :
    ¬ TableFits detect (cacheUnknownLine rows captured.line) := by
  simp only [SameTokens, not_forall] at hnot
  obtain ⟨r, hr, hshape, hne⟩ := hnot
  intro hfits
  have hany : rows.any (·.shapeHash = captured.line.shapeHash) = true :=
    List.any_eq_true.2 ⟨r, hr, by simpa using hshape⟩
  have hmem : r.seenAgain captured.line ∈ cacheUnknownLine rows captured.line := by
    rw [cacheUnknownLine, if_pos hany]
    exact List.mem_map.2 ⟨r, hr, by rw [if_pos hshape]⟩
  refine hne ?_
  rw [captured.own]
  exact (fits_seenAgain r captured.line).1 (hfits _ hmem)

/-! ## The list -/

theorem TableFits.list (h : TableFits detect rows) : ListFits detect rows := by
  intro minInterest line hline
  obtain ⟨r, hr, rfl⟩ := List.mem_map.1 hline
  have hr := (List.mem_insertionSort _).1 (List.mem_of_mem_take hr)
  exact h r (List.mem_of_mem_filter hr)

/-! ## Runs -/

def cacheStep (detect : String → List PiiToken) (rows : List UnknownRow)
    (captured : Captured detect) : Option (List UnknownRow) :=
  some (cacheUnknownLine rows captured.line)

/-- **When the offsets belong to the line that is shown**: in a run in which every line has the
tokens of the first of its shape. Of all rows, listed or not, only then. -/
theorem redactions_fit (patterns : PiiPatterns) (ownHandle : String) (knownFriends : List String)
    (calls : List (Captured (detectPii patterns ownHandle knownFriends))) :
    (Trans.AllSteps (cacheStep _) (SameTokens _) [] calls →
      Trans.AllStates (cacheStep _) (ListFits (detectPii patterns ownHandle knownFriends)) []
        calls) ∧
    (Trans.AllStates (cacheStep _) (TableFits (detectPii patterns ownHandle knownFriends)) []
        calls ↔
      Trans.AllSteps (cacheStep _) (SameTokens _) [] calls) := by
  have hiff : Trans.AllStates (cacheStep _)
      (TableFits (detectPii patterns ownHandle knownFriends)) [] calls ↔
      Trans.AllSteps (cacheStep _) (SameTokens _) [] calls := by
    refine Trans.allStates_iff (fun _ h => h) ?_ ?_ calls fun _ hr => absurd hr List.not_mem_nil
    · intro rows captured rows' h hstep hsame
      obtain rfl := Option.some.inj hstep
      exact h.cache hsame
    · intro rows captured rows' _ hstep hnot
      obtain rfl := Option.some.inj hstep
      exact not_tableFits_of_cache hnot
  exact ⟨fun h => (hiff.2 h).mono fun _ => TableFits.list, hiff⟩

/-! ### Two lines of one shape -/

def noPatterns : PiiPatterns := ⟨fun _ => [], fun _ => [], fun _ => []⟩

def capture (line : String) : Captured (detectPii noPatterns "ada" []) where
  line :=
    { id := line
      rawLine := line
      timestamp := none
      shellTag := some "X"
      partialStructured := []
      contextBefore := []
      contextAfter := []
      gameBuild := none
      channel := .live
      interestScore := 60
      shapeHash := "sh_0000000000000000"
      occurrenceCount := 1
      firstSeen := "t"
      lastSeen := "t"
      detectedPii := detectPii noPatterns "ada" [] line
      dismissed := false }
  own := rfl

/-- The name in quotes has the same length. -/
theorem redactions_fit_of_same_length :
    Trans.AllStates (cacheStep _) (ListFits (detectPii noPatterns "ada" [])) []
      [capture "<X> 'bo' ada", capture "<X> 'cy' ada"] := by
  refine (redactions_fit noPatterns "ada" [] _).1 fun _ hfirst => ⟨?_, fun _ _ => ⟨?_, trivial⟩⟩
  · exact fun r hr => absurd hr List.not_mem_nil
  · obtain rfl := Option.some.inj hfirst
    simp only [SameTokens]
    decide +kernel

/-- The handle is behind a longer name: the redaction stored with the first line cuts another text
from the second. -/
theorem redactions_not_fit :
    ¬ ∀ (patterns : PiiPatterns) (ownHandle : String) (knownFriends : List String)
      (calls : List (Captured (detectPii patterns ownHandle knownFriends))),
      Trans.AllStates (cacheStep _) (ListFits (detectPii patterns ownHandle knownFriends)) []
        calls := by
  intro h
  have hexec : Trans.exec (cacheStep _) Trans.always []
      [capture "<X> 'bo' ada", capture "<X> 'lancelot' ada"] =
      some ([capture "<X> 'bo' ada", capture "<X> 'lancelot' ada"].foldl
        (fun rows c => cacheUnknownLine rows c.line) []) := rfl
  have hfits := (h noPatterns "ada" [] _).of_exec hexec 0
  revert hfits
  simp only [Fits]
  decide +kernel

end StarStats.UnknownLines
