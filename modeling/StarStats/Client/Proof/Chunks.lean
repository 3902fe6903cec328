import Mathlib.Algebra.GroupWithZero.Nat
import StarStats.Client.Proof.Drain

/-!
# The chunks of a page

`chunkByBytes_greedy`: the chunks are the page cut in pieces, every piece stays under the cap or is
one row, and no piece has room for the row that the next one begins with.
-/

namespace StarStats

/-- The estimated size of a chunk. -/
def chunkBytes (chunk : List UnsentEvent) : Nat := (chunk.map estimatedEnvelopeBytes).sum

/-- A chunk under the cap, or one row. -/
def FitsCap (maxBytes : Nat) (chunk : List UnsentEvent) : Prop :=
  chunkBytes chunk ≤ maxBytes ∨ chunk.length = 1

/-- The first row of the next chunk has no room in this one. -/
def NoRoom (maxBytes : Nat) (chunk next : List UnsentEvent) : Prop :=
  ∀ e ∈ next.head?, maxBytes < chunkBytes chunk + estimatedEnvelopeBytes e

theorem chunkBytes_singleton (e : UnsentEvent) : chunkBytes [e] = estimatedEnvelopeBytes e := by
  simp [chunkBytes]

theorem chunkBytes_snoc (chunk : List UnsentEvent) (e : UnsentEvent) :
    chunkBytes (chunk ++ [e]) = chunkBytes chunk + estimatedEnvelopeBytes e := by
  simp [chunkBytes]

section
variable {maxBytes : Nat} {current : List UnsentEvent} {e : UnsentEvent}

/-- A row that the loop adds keeps the chunk under the cap, unless it is the first. -/
theorem FitsCap.snoc (h : ¬ (!current.isEmpty && maxBytes < chunkBytes current +
    estimatedEnvelopeBytes e) = true) : FitsCap maxBytes (current ++ [e]) := by
  cases current with
  | nil => exact .inr rfl
  | cons d ds =>
    left
    rw [chunkBytes_snoc]
    simpa using h

/-- The chunk that is being filled is the first of those to come, as far as it goes. -/
theorem chunkFrom_head (events : List UnsentEvent) (currentBytes : Nat) (hne : current ≠ []) :
    ∃ more rest, chunkFrom maxBytes current currentBytes events = (current ++ more) :: rest := by
  induction events generalizing current currentBytes with
  | nil => exact ⟨[], [], by simp [chunkFrom, hne]⟩
  | cons e es ih =>
    simp only [chunkFrom]
    split
    · exact ⟨[], _, by rw [List.append_nil]⟩
    · obtain ⟨more, rest, h⟩ :=
        @ih (current ++ [e]) (currentBytes + estimatedEnvelopeBytes e) (by simp)
      exact ⟨e :: more, rest, by rw [h, List.append_assoc, List.singleton_append]⟩

theorem chunkFrom_fitsCap (events : List UnsentEvent)
    (hfits : current = [] ∨ FitsCap maxBytes current) :
    ∀ chunk ∈ chunkFrom maxBytes current (chunkBytes current) events, FitsCap maxBytes chunk := by
  induction events generalizing current with
  | nil =>
    intro chunk hchunk
    simp only [chunkFrom] at hchunk
    split at hchunk
    · cases hchunk
    · rename_i hne
      rw [List.mem_singleton.1 hchunk]
      exact hfits.resolve_left fun hnil => hne (by rw [hnil]; rfl)
  | cons e es ih =>
    intro chunk hchunk
    simp only [chunkFrom] at hchunk
    split at hchunk
    case isTrue hover =>
      rcases List.mem_cons.1 hchunk with rfl | hchunk
      · refine hfits.resolve_left ?_
        rintro rfl
        simp at hover
      · exact @ih [e] (.inr (.inr rfl)) chunk (by rwa [chunkBytes_singleton])
    case isFalse hroom =>
      rw [← chunkBytes_snoc] at hchunk
      exact ih (.inr (.snoc hroom)) chunk hchunk

theorem chunkFrom_noRoom (events current : List UnsentEvent) :
    (chunkFrom maxBytes current (chunkBytes current) events).IsChain (NoRoom maxBytes) := by
  induction events generalizing current with
  | nil =>
    simp only [chunkFrom]
    split
    · exact .nil
    · exact .singleton current
  | cons e es ih =>
    simp only [chunkFrom]
    split
    case isTrue hover =>
      have hrest := ih [e]
      obtain ⟨more, rest, hhead⟩ :=
        @chunkFrom_head maxBytes [e] es (chunkBytes [e]) (List.cons_ne_nil e [])
      rw [← chunkBytes_singleton e]
      rw [hhead] at hrest ⊢
      refine .cons_cons ?_ hrest
      intro e' he'
      obtain rfl : e = e' := by simpa using he'
      simpa using (Bool.and_eq_true_iff.1 hover).2
    case isFalse =>
      rw [← chunkBytes_snoc]
      exact ih (current ++ [e])

end

/-- The chunks are the page in order, none is empty, each fits, and each is as long as it can be. -/
theorem chunkByBytes_greedy (events : List UnsentEvent) (maxBytes : Nat) :
    (chunkByBytes events maxBytes).flatten = events ∧
      (∀ chunk ∈ chunkByBytes events maxBytes, chunk ≠ []) ∧
      (∀ chunk ∈ chunkByBytes events maxBytes, FitsCap maxBytes chunk) ∧
      (chunkByBytes events maxBytes).IsChain (NoRoom maxBytes) :=
  ⟨chunkByBytes_flatten events maxBytes, chunkByBytes_ne_nil events maxBytes,
    @chunkFrom_fitsCap maxBytes [] events (.inl rfl), chunkFrom_noRoom events []⟩

end StarStats
