import Mathlib.Data.List.Pairwise
import StarStats.Client.Drain
import StarStats.Lib.Keyed

/-!
# What a drain does to its page

`drainLoop_rule` is the induction over a run of the loop, on the answers still to come: one case
for each way a turn ends. The stack, flattened, is what is left of the page (`drainLoop_covers`),
and the storage is the old one with the resolved posts marked (`drainLoop_rows`).
`drain_settles_page` puts them together.
-/

namespace StarStats

/-! ## Chunks -/

theorem chunkFrom_flatten {maxBytes : Nat} {events current : List UnsentEvent}
    {currentBytes : Nat} :
    (chunkFrom maxBytes current currentBytes events).flatten = current ++ events := by
  induction events generalizing current currentBytes with
  | nil =>
    simp only [chunkFrom]
    split
    · rename_i h
      simp [List.isEmpty_iff.1 h]
    · simp
  | cons e es ih =>
    simp only [chunkFrom]
    split
    · rw [List.flatten_cons, ih, List.singleton_append]
    · rw [ih, List.append_assoc, List.singleton_append]

theorem chunkFrom_ne_nil {maxBytes : Nat} {events current : List UnsentEvent}
    {currentBytes : Nat} :
    ∀ sub ∈ chunkFrom maxBytes current currentBytes events, sub ≠ [] := by
  induction events generalizing current currentBytes with
  | nil =>
    intro sub hsub
    simp only [chunkFrom] at hsub
    split at hsub
    · cases hsub
    · rename_i h
      rw [List.mem_singleton.1 hsub]
      simpa using h
  | cons e es ih =>
    intro sub hsub
    simp only [chunkFrom] at hsub
    split at hsub
    · rename_i h
      rcases List.mem_cons.1 hsub with rfl | hsub
      · rintro rfl
        simp at h
      · exact ih sub hsub
    · exact ih sub hsub

/-! ## The turns of the loop -/

section
variable {st : ClientStorage} {sub : List UnsentEvent} {rest : List (List UnsentEvent)}
  {quarantined : Nat} {answers : List (Except SendError IngestResponse)}

theorem drainLoop_bail {answer : Except SendError IngestResponse} {e : DrainError}
    (h : drainBail sub quarantined answer = some e) :
    drainLoop st (sub :: rest) quarantined (answer :: answers) =
      ⟨st, [⟨sub, answer⟩], sub :: rest, some (.error e)⟩ := by
  simp only [drainLoop, h]

/-- The count of a loop that is over does not matter. -/
theorem drainLoop_next (m : Nat) (n : Nat) :
    drainLoop st ((Drain.next rest n).getD ⟨[], m⟩).stack
      ((Drain.next rest n).getD ⟨[], m⟩).quarantined answers = drainLoop st rest n answers := by
  cases rest with
  | nil => cases answers <;> rfl
  | cons sub rest => rfl

/-- The storage after a 2xx. -/
def sentStorage (st : ClientStorage) (sub : List UnsentEvent) : ClientStorage :=
  (st.markSent (sub.map (·.id))).commitBatchSequence st.peekNextBatchSequence

theorem drainLoop_sent (response : IngestResponse) :
    drainLoop st (sub :: rest) quarantined (.ok response :: answers) =
      (drainLoop (sentStorage st sub) rest quarantined answers).posted ⟨sub, .ok response⟩ := by
  have hafter : afterSend .none st sub rest quarantined (.ok response) =
      ⟨sentStorage st sub, Drain.next rest quarantined⟩ := rfl
  simp only [drainLoop, drainBail, hafter, drainLoop_next]

theorem drainLoop_quarantine {e : UnsentEvent} (h : quarantined < maxQuarantinesPerDrain) :
    drainLoop st ([e] :: rest) quarantined (.error .badBatch :: answers) =
      (drainLoop (st.markQuarantined [e.id]) rest (quarantined + 1) answers).posted
        ⟨[e], .error .badBatch⟩ := by
  have hbail : drainBail [e] quarantined (.error .badBatch) = none := by
    simp [drainBail, h]
  have hafter : afterSend .none st [e] rest quarantined (.error .badBatch) =
      ⟨st.markQuarantined [e.id], Drain.next rest (quarantined + 1)⟩ := by
    simp [afterSend, ClientFaults.none, h]
  simp only [drainLoop, hbail, hafter, drainLoop_next]

theorem drainLoop_split (h : 2 ≤ sub.length) :
    drainLoop st (sub :: rest) quarantined (.error .badBatch :: answers) =
      (drainLoop st (sub.take (sub.length / 2) :: sub.drop (sub.length / 2) :: rest) quarantined
        answers).posted ⟨sub, .error .badBatch⟩ := by
  have hbail : drainBail sub quarantined (.error .badBatch) = none := by
    simp only [drainBail]
    rw [if_neg]
    omega
  have hafter : afterSend .none st sub rest quarantined (.error .badBatch) =
      ⟨st, some ⟨sub.take (sub.length / 2) :: sub.drop (sub.length / 2) :: rest, quarantined⟩⟩ := by
    match sub, h with
    | _ :: _ :: _, _ => rfl
  simp only [drainLoop, hbail, hafter]
  rfl

end

/-- Induction over a run of the loop on batches that are not empty. -/
theorem drainLoop_rule
    {motive : ClientStorage → List (List UnsentEvent) → Nat →
      List (Except SendError IngestResponse) → DrainRun → Prop}
    (finished : ∀ st quarantined answers,
      motive st [] quarantined answers ⟨st, [], [], some (.ok ())⟩)
    (waiting : ∀ st sub rest quarantined, (∀ b ∈ sub :: rest, b ≠ []) →
      motive st (sub :: rest) quarantined [] ⟨st, [], sub :: rest, none⟩)
    (bailed : ∀ st sub rest quarantined answer answers e,
      drainBail sub quarantined answer = some e →
      motive st (sub :: rest) quarantined (answer :: answers)
        ⟨st, [⟨sub, answer⟩], sub :: rest, some (.error e)⟩)
    (sent : ∀ st sub rest quarantined response answers run, sub ≠ [] →
      motive (sentStorage st sub) rest quarantined answers run →
      motive st (sub :: rest) quarantined (.ok response :: answers)
        (run.posted ⟨sub, .ok response⟩))
    (refused : ∀ st e rest quarantined answers run, quarantined < maxQuarantinesPerDrain →
      motive (st.markQuarantined [e.id]) rest (quarantined + 1) answers run →
      motive st ([e] :: rest) quarantined (.error .badBatch :: answers)
        (run.posted ⟨[e], .error .badBatch⟩))
    (split : ∀ st left right rest quarantined answers run, left ≠ [] → right ≠ [] →
      left.length = (left ++ right).length / 2 →
      motive st (left :: right :: rest) quarantined answers run →
      motive st ((left ++ right) :: rest) quarantined (.error .badBatch :: answers)
        (run.posted ⟨left ++ right, .error .badBatch⟩))
    (st : ClientStorage) (stack : List (List UnsentEvent)) (hstack : ∀ b ∈ stack, b ≠ [])
    (quarantined : Nat) (answers : List (Except SendError IngestResponse)) :
    motive st stack quarantined answers (drainLoop st stack quarantined answers) := by
  induction answers generalizing st stack quarantined with
  | nil =>
    cases stack with
    | nil => exact finished st quarantined []
    | cons sub rest => exact waiting st sub rest quarantined hstack
  | cons answer answers ih =>
    cases stack with
    | nil => exact finished st quarantined (answer :: answers)
    | cons sub rest =>
      obtain ⟨hsub, hrest⟩ := List.forall_mem_cons.1 hstack
      cases hbail : drainBail sub quarantined answer with
      | some e =>
        rw [drainLoop_bail hbail]
        exact bailed st sub rest quarantined answer answers e hbail
      | none =>
        match answer, hbail with
        | .ok response, _ =>
          rw [drainLoop_sent]
          exact sent st sub rest quarantined response answers _ hsub (ih _ rest hrest quarantined)
        | .error .badBatch, hbail =>
          by_cases hone : sub.length = 1
          · obtain ⟨e, rfl⟩ := List.length_eq_one_iff.1 hone
            have hcap : quarantined < maxQuarantinesPerDrain := by
              simpa [drainBail] using hbail
            rw [drainLoop_quarantine hcap]
            exact refused st e rest quarantined answers _ hcap (ih _ rest hrest _)
          · have hpos := List.length_pos_of_ne_nil hsub
            have hlen : 2 ≤ sub.length := by omega
            have hleft : sub.take (sub.length / 2) ≠ [] := by
              rw [← List.length_pos_iff, List.length_take]
              omega
            have hright : sub.drop (sub.length / 2) ≠ [] := by
              rw [← List.length_pos_iff, List.length_drop]
              omega
            rw [drainLoop_split hlen]
            have hhalf : (sub.take (sub.length / 2)).length =
                (sub.take (sub.length / 2) ++ sub.drop (sub.length / 2)).length / 2 := by
              rw [List.take_append_drop, List.length_take]
              omega
            have hrun := split st _ _ rest quarantined answers _ hleft hright hhalf
              (ih st _ (List.forall_mem_cons.2 ⟨hleft, List.forall_mem_cons.2 ⟨hright, hrest⟩⟩)
                quarantined)
            rwa [List.take_append_drop] at hrun

/-! ## Resolved posts -/

section
variable {quarantined : Nat} {p : Post} {posts : List Post}

theorem resolvedPosts_accepted (h : p.accepted = true) :
    resolvedPosts quarantined (p :: posts) = p :: resolvedPosts quarantined posts := by
  simp only [resolvedPosts, h, ↓reduceIte]

theorem resolvedPosts_refusedAlone (ha : p.accepted = false) (h : p.refusedAlone = true)
    (hcap : quarantined < maxQuarantinesPerDrain) :
    resolvedPosts quarantined (p :: posts) = p :: resolvedPosts (quarantined + 1) posts := by
  simp [resolvedPosts, ha, h, hcap]

theorem resolvedPosts_other (ha : p.accepted = false)
    (h : p.refusedAlone = true → maxQuarantinesPerDrain ≤ quarantined) :
    resolvedPosts quarantined (p :: posts) = resolvedPosts quarantined posts := by
  simp only [resolvedPosts, ha, Bool.false_eq_true, ↓reduceIte]
  rw [if_neg]
  intro hcond
  simp only [Bool.and_eq_true, decide_eq_true_eq] at hcond
  have := h hcond.1
  omega

theorem accepted_eq_false_of_refused (h : p.refused = true) : p.accepted = false := by
  unfold Post.refused at h
  unfold Post.accepted
  split at h
  · rename_i ha
    rw [ha]
  · cases h

theorem refused_of_refusedAlone (h : p.refusedAlone = true) : p.refused = true :=
  (Bool.and_eq_true_iff.1 h).1

/-- The cases of `resolvedPosts` on its next post. -/
theorem post_cases (quarantined : Nat) (p : Post) :
    p.accepted = true ∨
    p.accepted = false ∧ p.refusedAlone = true ∧ quarantined < maxQuarantinesPerDrain ∨
    p.accepted = false ∧ (p.refusedAlone = true → maxQuarantinesPerDrain ≤ quarantined) := by
  cases ha : p.accepted with
  | true => exact .inl rfl
  | false =>
    by_cases h : p.refusedAlone = true ∧ quarantined < maxQuarantinesPerDrain
    · exact .inr (.inl ⟨rfl, h⟩)
    · exact .inr (.inr ⟨rfl, fun halone => not_lt.1 fun hcap => h ⟨halone, hcap⟩⟩)

theorem resolvedPosts_bail {sub : List UnsentEvent} {answer : Except SendError IngestResponse}
    {e : DrainError} (h : drainBail sub quarantined answer = some e) :
    resolvedPosts quarantined [⟨sub, answer⟩] = [] := by
  match answer, h with
  | .error .auth, _ => rfl
  | .error .transient, _ => rfl
  | .error .badBatch, h =>
    rw [resolvedPosts_other rfl, resolvedPosts]
    intro halone
    have hone : sub.length = 1 := by simpa [Post.refusedAlone, Post.refused] using halone
    by_contra hcap
    simp [drainBail, hone, hcap] at h

/-- Every accepted post is resolved. -/
theorem mem_resolvedPosts_accepted (ha : p.accepted = true) :
    p ∈ resolvedPosts quarantined posts ↔ p ∈ posts := by
  induction posts generalizing quarantined with
  | nil => rfl
  | cons q posts ih =>
    have hne : q.accepted = false → p ≠ q := by
      rintro hq rfl
      rw [ha] at hq
      cases hq
    rcases post_cases quarantined q with hq | ⟨hq, halone, hcap⟩ | ⟨hq, hother⟩
    · rw [resolvedPosts_accepted hq, List.mem_cons, List.mem_cons, ih]
    · rw [resolvedPosts_refusedAlone hq halone hcap, List.mem_cons, List.mem_cons, ih]
    · rw [resolvedPosts_other hq hother, List.mem_cons, ih]
      simp [hne hq]

/-- A resolved post that was not accepted is a refusal of one row before the cap. -/
theorem mem_resolvedPosts_refused :
    (p ∈ resolvedPosts quarantined posts ∧ p.accepted = false) ↔
      p.refusedAlone = true ∧ ∃ earlier later, posts = earlier ++ p :: later ∧
        quarantined + earlier.countP (·.refusedAlone) < maxQuarantinesPerDrain := by
  induction posts generalizing quarantined with
  | nil => simp [resolvedPosts]
  | cons q posts ih =>
    -- the posts before `p` are none, or `q` and those of the rest
    have hsplit : (∃ earlier later, q :: posts = earlier ++ p :: later ∧
          quarantined + earlier.countP (·.refusedAlone) < maxQuarantinesPerDrain) ↔
        (p = q ∧ quarantined < maxQuarantinesPerDrain) ∨
          ∃ earlier later, posts = earlier ++ p :: later ∧
            quarantined + (q :: earlier).countP (·.refusedAlone) < maxQuarantinesPerDrain := by
      constructor
      · rintro ⟨earlier, later, heq, hlt⟩
        cases earlier with
        | nil =>
          obtain ⟨rfl, rfl⟩ := List.cons.inj heq
          exact .inl ⟨rfl, by simpa using hlt⟩
        | cons x earlier =>
          obtain ⟨rfl, rfl⟩ := List.cons.inj heq
          exact .inr ⟨earlier, later, rfl, hlt⟩
      · rintro (⟨rfl, hlt⟩ | ⟨earlier, later, rfl, hlt⟩)
        · exact ⟨[], posts, rfl, by simpa using hlt⟩
        · exact ⟨q :: earlier, later, rfl, hlt⟩
    rw [hsplit]
    rcases post_cases quarantined q with hq | ⟨hq, halone, hcap⟩ | ⟨hq, hother⟩
    · have hnot : q.refusedAlone = false := by
        by_contra h
        have := accepted_eq_false_of_refused (refused_of_refusedAlone (Bool.not_eq_false _ ▸ h))
        rw [hq] at this
        cases this
      rw [resolvedPosts_accepted hq]
      simp only [List.countP_cons, hnot, Bool.false_eq_true, ↓reduceIte, add_zero]
      constructor
      · rintro ⟨hmem, hp⟩
        rcases List.mem_cons.1 hmem with rfl | hmem
        · rw [hq] at hp
          cases hp
        · obtain ⟨h₁, h₂⟩ := ih.1 ⟨hmem, hp⟩
          exact ⟨h₁, .inr h₂⟩
      · rintro ⟨h₁, ⟨rfl, -⟩ | h₂⟩
        · rw [h₁] at hnot
          cases hnot
        · obtain ⟨hmem, hp⟩ := ih.2 ⟨h₁, h₂⟩
          exact ⟨List.mem_cons_of_mem _ hmem, hp⟩
    · rw [resolvedPosts_refusedAlone hq halone hcap]
      simp only [List.countP_cons, halone, ↓reduceIte]
      constructor
      · rintro ⟨hmem, hp⟩
        rcases List.mem_cons.1 hmem with rfl | hmem
        · exact ⟨halone, .inl ⟨rfl, hcap⟩⟩
        · obtain ⟨h₁, earlier, later, heq, hlt⟩ := ih.1 ⟨hmem, hp⟩
          exact ⟨h₁, .inr ⟨earlier, later, heq, by omega⟩⟩
      · rintro ⟨h₁, ⟨rfl, -⟩ | ⟨earlier, later, heq, hlt⟩⟩
        · exact ⟨List.mem_cons_self, hq⟩
        · obtain ⟨hmem, hp⟩ := (@ih (quarantined + 1)).2 ⟨h₁, earlier, later, heq, by omega⟩
          exact ⟨List.mem_cons_of_mem _ hmem, hp⟩
    · rw [resolvedPosts_other hq hother]
      constructor
      · intro h
        obtain ⟨h₁, earlier, later, heq, hlt⟩ := ih.1 h
        have hnot : q.refusedAlone = false := by
          by_contra hc
          have := hother (Bool.not_eq_false _ ▸ hc)
          omega
        refine ⟨h₁, .inr ⟨earlier, later, heq, ?_⟩⟩
        rw [List.countP_cons_of_neg (by simp [hnot])]
        exact hlt
      · rintro ⟨h₁, ⟨rfl, hlt⟩ | ⟨earlier, later, heq, hlt⟩⟩
        · have := hother h₁
          omega
        · rw [List.countP_cons] at hlt
          exact ih.2 ⟨h₁, earlier, later, heq, by omega⟩

/-- At most as many quarantined posts as the cap leaves. -/
theorem countP_resolvedPosts_le :
    (resolvedPosts quarantined posts).countP (!·.accepted) ≤
      maxQuarantinesPerDrain - quarantined := by
  induction posts generalizing quarantined with
  | nil => simp [resolvedPosts]
  | cons q posts ih =>
    rcases post_cases quarantined q with hq | ⟨hq, halone, hcap⟩ | ⟨hq, hother⟩
    · rw [resolvedPosts_accepted hq, List.countP_cons_of_neg (by simp [hq])]
      exact ih
    · rw [resolvedPosts_refusedAlone hq halone hcap, List.countP_cons_of_pos (by simp [hq])]
      have := @ih (quarantined + 1)
      omega
    · rw [resolvedPosts_other hq hother]
      exact ih

end

/-! ## The page and the storage over a run -/

section
variable {st : ClientStorage} {stack : List (List UnsentEvent)} {quarantined : Nat}
  {answers : List (Except SendError IngestResponse)}

theorem refusedAlone_single (e : UnsentEvent) :
    Post.refusedAlone ⟨[e], .error .badBatch⟩ = true := rfl

theorem not_refusedAlone_split {left right : List UnsentEvent} (hl : left ≠ []) (hr : right ≠ []) :
    Post.refusedAlone ⟨left ++ right, .error .badBatch⟩ = false := by
  have := List.length_pos_of_ne_nil hl
  have := List.length_pos_of_ne_nil hr
  simp only [Post.refusedAlone, Post.refused, Bool.true_and, beq_eq_false_iff_ne, ne_eq,
    List.length_append]
  omega

/-- The resolved batches and then the unresolved ones are the stack, in its order. -/
theorem drainLoop_covers (hstack : ∀ b ∈ stack, b ≠ []) :
    (resolvedPosts quarantined (drainLoop st stack quarantined answers).posts).flatMap (·.batch) ++
      (drainLoop st stack quarantined answers).unresolved.flatten = stack.flatten := by
  refine drainLoop_rule (motive := fun _ stack quarantined _ run =>
      (resolvedPosts quarantined run.posts).flatMap (·.batch) ++ run.unresolved.flatten =
        stack.flatten)
    ?_ ?_ ?_ ?_ ?_ ?_ st stack hstack quarantined answers
  · intro st quarantined answers
    rfl
  · intro st sub rest quarantined _
    rfl
  · intro st sub rest quarantined answer answers e h
    rw [resolvedPosts_bail h]
    rfl
  · intro st sub rest quarantined response answers run _ ih
    simp only [DrainRun.posted, resolvedPosts_accepted (p := ⟨sub, .ok response⟩) rfl,
      List.flatMap_cons, List.append_assoc, List.flatten_cons]
    rw [ih]
  · intro st e rest quarantined answers run hcap ih
    simp only [DrainRun.posted, resolvedPosts_refusedAlone rfl (refusedAlone_single e) hcap,
      List.flatMap_cons, List.append_assoc, List.flatten_cons]
    rw [ih]
  · intro st left right rest quarantined answers run hl hr _ ih
    have hother := not_refusedAlone_split hl hr
    simp only [DrainRun.posted]
    rw [resolvedPosts_other rfl (by simp [hother]), ih]
    simp

/-- A loop that ends well has resolved everything. -/
theorem drainLoop_ok (hstack : ∀ b ∈ stack, b ≠ [])
    (h : (drainLoop st stack quarantined answers).outcome = some (.ok ())) :
    (drainLoop st stack quarantined answers).unresolved = [] := by
  revert h
  refine drainLoop_rule (motive := fun _ _ _ _ run =>
      run.outcome = some (.ok ()) → run.unresolved = [])
    ?_ ?_ ?_ ?_ ?_ ?_ st stack hstack quarantined answers
  · intro st quarantined answers _
    rfl
  · intro st sub rest quarantined _ h
    cases h
  · intro st sub rest quarantined answer answers e _ h
    cases h
  · intro st sub rest quarantined response answers run _ ih
    exact ih
  · intro st e rest quarantined answers run _ ih
    exact ih
  · intro st left right rest quarantined answers run _ _ _ ih
    exact ih

theorem length_le_flatten : ∀ {stack : List (List UnsentEvent)}, (∀ b ∈ stack, b ≠ []) →
    stack.length ≤ stack.flatten.length
  | [], _ => Nat.zero_le _
  | sub :: rest, h => by
    obtain ⟨hsub, hrest⟩ := List.forall_mem_cons.1 h
    have hpos := List.length_pos_of_ne_nil hsub
    have ih := length_le_flatten hrest
    simp only [List.length_cons, List.flatten_cons, List.length_append]
    omega

/-- Each answer resolves a batch or makes one batch more: the loop ends after twice as many answers
as there are rows, less one for each batch. -/
theorem drainLoop_ends (hstack : ∀ b ∈ stack, b ≠ [])
    (hanswers : 2 * stack.flatten.length ≤ answers.length + stack.length) :
    (drainLoop st stack quarantined answers).outcome.isSome = true := by
  revert hanswers
  refine drainLoop_rule (motive := fun _ stack _ answers run =>
      2 * stack.flatten.length ≤ answers.length + stack.length → run.outcome.isSome = true)
    ?_ ?_ ?_ ?_ ?_ ?_ st stack hstack quarantined answers
  · intro st quarantined answers _
    rfl
  · intro st sub rest quarantined hne h
    have hle := length_le_flatten hne
    simp only [List.length_nil, List.length_cons] at h hle
    omega
  · intro st sub rest quarantined answer answers e _ _
    rfl
  · intro st sub rest quarantined response answers run hsub ih h
    have hpos := List.length_pos_of_ne_nil hsub
    simp only [List.length_cons, List.flatten_cons, List.length_append] at h
    exact ih (by omega)
  · intro st e rest quarantined answers run _ ih h
    simp only [List.length_cons, List.flatten_cons, List.length_append, List.length_nil] at h
    exact ih (by omega)
  · intro st left right rest quarantined answers run _ _ _ ih h
    simp only [List.length_cons, List.flatten_cons, List.length_append] at h ih
    exact ih (by omega)

/-- Answers after the end are not read. -/
theorem drainLoop_append (hstack : ∀ b ∈ stack, b ≠ [])
    (h : (drainLoop st stack quarantined answers).outcome.isSome = true)
    (more : List (Except SendError IngestResponse)) :
    drainLoop st stack quarantined (answers ++ more) =
      drainLoop st stack quarantined answers := by
  revert h
  refine drainLoop_rule (motive := fun st stack quarantined answers run =>
      run.outcome.isSome = true → drainLoop st stack quarantined (answers ++ more) = run)
    ?_ ?_ ?_ ?_ ?_ ?_ st stack hstack quarantined answers
  · intro st quarantined answers _
    cases h : answers ++ more <;> rfl
  · intro st sub rest quarantined _ h
    cases h
  · intro st sub rest quarantined answer answers e hbail _
    exact drainLoop_bail hbail
  · intro st sub rest quarantined response answers run _ ih h
    rw [List.cons_append, drainLoop_sent, ih h]
  · intro st e rest quarantined answers run hcap ih h
    rw [List.cons_append, drainLoop_quarantine hcap, ih h]
  · intro st left right rest quarantined answers run hl hr hhalf ih h
    have hlen : 2 ≤ (left ++ right).length := by
      have := List.length_pos_of_ne_nil hl
      have := List.length_pos_of_ne_nil hr
      rw [List.length_append]
      omega
    rw [List.cons_append, drainLoop_split hlen, ← hhalf, List.take_left, List.drop_left, ih h]

/-! ## Marks -/

/-- What the resolved post writes into `sent_at`. -/
def Post.mark (p : Post) : SentAt := if p.accepted then .sent else .quarantined

/-- The row after the resolved posts, each of which leaves a marked row alone. -/
def settleRow (posts : List Post) (r : ClientRow) : ClientRow :=
  if r.sentAt.isSome then r
  else
    match posts.find? fun p => (p.batch.map (·.id)).contains r.id with
    | some p => { r with sentAt := some p.mark }
    | none => r

theorem settleRow_id (posts : List Post) (r : ClientRow) : (settleRow posts r).id = r.id := by
  unfold settleRow
  split
  · rfl
  · split <;> rfl

/-- The first post's mark, then the others'. -/
theorem settleRow_cons (p : Post) (posts : List Post) (r : ClientRow) :
    settleRow (p :: posts) r = settleRow posts
      (if r.sentAt.isNone && (p.batch.map (·.id)).contains r.id then
        { r with sentAt := some p.mark } else r) := by
  cases hr : r.sentAt with
  | some m => simp [settleRow, hr]
  | none =>
    cases hp : (p.batch.map (·.id)).contains r.id with
    | true =>
      simp only [settleRow, hr, hp, List.find?_cons, Option.isSome_none, Option.isNone_none,
        Bool.true_and, Bool.false_eq_true, ↓reduceIte, Option.isSome_some]
    | false =>
      simp only [settleRow, hr, hp, List.find?_cons, Option.isSome_none, Option.isNone_none,
        Bool.true_and, Bool.false_eq_true, ↓reduceIte]

theorem rows_mark (st : ClientStorage) (p : Post) (posts : List Post) :
    (st.mark p.mark (p.batch.map (·.id))).rows.map (settleRow posts) =
      st.rows.map (settleRow (p :: posts)) := by
  simp only [ClientStorage.mark, List.map_map]
  apply List.map_congr_left
  intro r _
  exact (settleRow_cons p posts r).symm

/-- The storage after a run is the old one with the marks of the resolved posts. -/
theorem drainLoop_rows (hstack : ∀ b ∈ stack, b ≠ []) :
    (drainLoop st stack quarantined answers).storage.rows =
      st.rows.map (settleRow
        (resolvedPosts quarantined (drainLoop st stack quarantined answers).posts)) := by
  have hnone : ∀ st : ClientStorage, st.rows = st.rows.map (settleRow []) := by
    intro st
    have hid : settleRow [] = id := by
      funext r
      simp [settleRow]
    rw [hid, List.map_id]
  refine drainLoop_rule (motive := fun st _ quarantined _ run =>
      run.storage.rows = st.rows.map (settleRow (resolvedPosts quarantined run.posts)))
    ?_ ?_ ?_ ?_ ?_ ?_ st stack hstack quarantined answers
  · intro st quarantined answers
    exact hnone st
  · intro st sub rest quarantined _
    exact hnone st
  · intro st sub rest quarantined answer answers e h
    rw [resolvedPosts_bail h]
    exact hnone st
  · intro st sub rest quarantined response answers run _ ih
    simp only [DrainRun.posted, resolvedPosts_accepted (p := ⟨sub, .ok response⟩) rfl]
    rw [ih, ← rows_mark]
    rfl
  · intro st e rest quarantined answers run hcap ih
    simp only [DrainRun.posted, resolvedPosts_refusedAlone rfl (refusedAlone_single e) hcap]
    rw [ih, ← rows_mark]
    rfl
  · intro st left right rest quarantined answers run hl hr _ ih
    have hother := not_refusedAlone_split hl hr
    simp only [DrainRun.posted]
    rw [resolvedPosts_other rfl (by simp [hother]), ih]

end

/-! ## The page -/

theorem chunkByBytes_flatten (page : List UnsentEvent) (maxBatchBytes : Nat) :
    (chunkByBytes page maxBatchBytes).flatten = page := chunkFrom_flatten

theorem chunkByBytes_ne_nil (page : List UnsentEvent) (maxBatchBytes : Nat) :
    ∀ sub ∈ chunkByBytes page maxBatchBytes, sub ≠ [] := chunkFrom_ne_nil

/-- The rows with an id of their own. -/
theorem find_row {rows : List ClientRow} {r : ClientRow} (hkey : (rows.map (·.id)).Nodup)
    (hr : r ∈ rows) : rows.find? (·.id = r.id) = some r := by
  have hget : (⟨rows, hkey⟩ : Keyed fun r : ClientRow => r.id).get r.id = some r :=
    Keyed.get_eq_some.2 ⟨hr, rfl⟩
  exact hget

/-- Posts whose batches in a row make the beginning of a page of distinct rows. -/
structure Partition (page : List UnsentEvent) (posts : List Post) : Prop where
  distinct : (page.map (·.id)).Nodup
  ordered : posts.flatMap (·.batch) <+: page

namespace Partition

variable {page : List UnsentEvent} {posts : List Post} {p q : Post} {e f : UnsentEvent}

theorem mem_page (h : Partition page posts) (hp : p ∈ posts) (he : e ∈ p.batch) : e ∈ page :=
  h.ordered.subset (List.mem_flatMap.2 ⟨p, hp, he⟩)

/-- An id is that of one row. -/
theorem eq_of_id (h : Partition page posts) (he : e ∈ page) (hf : f ∈ page) (hid : e.id = f.id) :
    e = f := List.inj_on_of_nodup_map h.distinct he hf hid

/-- A row is in one post. -/
theorem eq_of_mem (h : Partition page posts) (hp : p ∈ posts) (hq : q ∈ posts)
    (hep : e ∈ p.batch) (heq : e ∈ q.batch) : p = q := by
  by_contra hne
  have hnodup : (posts.flatMap (·.batch)).Nodup :=
    List.Nodup.sublist h.ordered.sublist (List.Nodup.of_map _ h.distinct)
  have hsym : Std.Symm (fun p q : Post => List.Disjoint p.batch q.batch) :=
    ⟨fun _ _ hd => hd.symm⟩
  have hdisjoint := (List.nodup_flatMap.1 hnodup).2.forall hp hq hne
  exact hdisjoint hep heq

/-- The mark of a row of the page is that of the post it is in. -/
theorem settleRow_sentAt (h : Partition page posts) {r : ClientRow} {m : SentAt}
    (hr : r.toUnsentEvent ∈ page) (hunsent : r.sentAt = none) :
    (settleRow posts r).sentAt = some m ↔
      ∃ p ∈ posts, p.mark = m ∧ r.toUnsentEvent ∈ p.batch := by
  have hmem : ∀ p ∈ posts, (p.batch.map (·.id)).contains r.id = true →
      r.toUnsentEvent ∈ p.batch := by
    intro p hp hc
    obtain ⟨e, he, hid⟩ := List.mem_map.1 (List.contains_iff_mem.1 hc)
    rwa [← h.eq_of_id (h.mem_page hp he) hr hid]
  simp only [settleRow, hunsent, Option.isSome_none, Bool.false_eq_true, ↓reduceIte]
  split
  · rename_i p hfind
    have hp := List.mem_of_find?_eq_some hfind
    have hc : (p.batch.map (·.id)).contains r.id = true := by
      simpa using List.find?_some hfind
    have hin := hmem p hp hc
    simp only [Option.some.injEq]
    constructor
    · rintro rfl
      exact ⟨p, hp, rfl, hin⟩
    · rintro ⟨q, hq, rfl, hinq⟩
      rw [h.eq_of_mem hp hq hin hinq]
  · rename_i hfind
    rw [hunsent]
    constructor
    · intro hn
      cases hn
    · rintro ⟨q, hq, -, hinq⟩
      have hc := List.find?_eq_none.1 hfind q hq
      exact (hc (List.contains_iff_mem.2 (List.mem_map_of_mem hinq))).elim

/-- A row whose id is on no post stays. -/
theorem settleRow_of_not_mem {r : ClientRow}
    (h : ∀ p ∈ posts, ∀ e ∈ p.batch, e.id ≠ r.id) : settleRow posts r = r := by
  unfold settleRow
  split
  · rfl
  · split
    · rename_i p hfind
      have hc : (p.batch.map (·.id)).contains r.id = true := by
        simpa using List.find?_some hfind
      obtain ⟨e, he, hid⟩ := List.mem_map.1 (List.contains_iff_mem.1 hc)
      exact (h p (List.mem_of_find?_eq_some hfind) e he hid).elim
    · rfl

theorem settleRow_eq {r : ClientRow} {m : SentAt} (hunsent : r.sentAt = none)
    (h : (settleRow posts r).sentAt = some m) : settleRow posts r = { r with sentAt := some m } := by
  unfold settleRow at h ⊢
  simp only [hunsent, Option.isSome_none, Bool.false_eq_true, ↓reduceIte] at h ⊢
  split
  · rename_i p hfind
    rw [hfind] at h
    rw [← h]
  · rename_i hfind
    rw [hfind, hunsent] at h
    cases h

end Partition

/-! ## Sent and quarantined -/

section
variable {st : ClientStorage} {page : List UnsentEvent} {posts : List Post} {e : UnsentEvent}

theorem sentIn_iff :
    SentIn posts e ↔ ∃ p ∈ resolvedPosts 0 posts, p.mark = .sent ∧ e ∈ p.batch := by
  have hmark : ∀ p : Post, p.mark = .sent ↔ p.accepted = true := by
    intro p
    cases h : p.accepted <;> simp [Post.mark, h]
  constructor
  · rintro ⟨p, hp, ha, he⟩
    exact ⟨p, (mem_resolvedPosts_accepted ha).2 hp, (hmark p).2 ha, he⟩
  · rintro ⟨p, hp, hm, he⟩
    exact ⟨p, (mem_resolvedPosts_accepted ((hmark p).1 hm)).1 hp, (hmark p).1 hm, he⟩

theorem quarantinedIn_iff :
    QuarantinedIn posts e ↔
      ∃ p ∈ resolvedPosts 0 posts, p.mark = .quarantined ∧ e ∈ p.batch := by
  have hmark : ∀ p : Post, p.mark = .quarantined ↔ p.accepted = false := by
    intro p
    cases h : p.accepted <;> simp [Post.mark, h]
  constructor
  · rintro ⟨earlier, p, later, heq, hbatch, hrefused, hcap⟩
    have halone : p.refusedAlone = true := by simp [Post.refusedAlone, hrefused, hbatch]
    have hcap₀ : 0 + earlier.countP (·.refusedAlone) < maxQuarantinesPerDrain := by omega
    obtain ⟨hp, ha⟩ := mem_resolvedPosts_refused.2 ⟨halone, earlier, later, heq, hcap₀⟩
    exact ⟨p, hp, (hmark p).2 ha, by simp [hbatch]⟩
  · rintro ⟨p, hp, hm, he⟩
    obtain ⟨halone, earlier, later, heq, hcap⟩ :=
      mem_resolvedPosts_refused.1 ⟨hp, (hmark p).1 hm⟩
    obtain ⟨hrefused, hlen⟩ := Bool.and_eq_true_iff.1 halone
    obtain ⟨f, hf⟩ := List.length_eq_one_iff.1 (beq_iff_eq.1 hlen)
    rw [hf, List.mem_singleton] at he
    subst he
    exact ⟨earlier, p, later, heq, hf, hrefused, by omega⟩

theorem mem_of_resolved {p : Post} (h : p ∈ resolvedPosts 0 posts) :
    p ∈ posts ∧ (p.accepted = true ∨ p.refusedAlone = true) := by
  cases ha : p.accepted with
  | true => exact ⟨(mem_resolvedPosts_accepted ha).1 h, .inl rfl⟩
  | false =>
    obtain ⟨halone, earlier, later, rfl, -⟩ := mem_resolvedPosts_refused.1 ⟨h, ha⟩
    exact ⟨by simp, .inr halone⟩

theorem batch_of_refusedAlone {p : Post} (h : p.refusedAlone = true) : ∃ e, p.batch = [e] :=
  List.length_eq_one_iff.1 (beq_iff_eq.1 (Bool.and_eq_true_iff.1 h).2)

/-- The storage's answer about a row of the page. -/
theorem sentAtOf_iff {st' : ClientStorage} {m : SentAt} (hst : st.Holds page)
    (hpart : Partition page posts) (hrows : st'.rows = st.rows.map (settleRow posts))
    (he : e ∈ page) :
    st'.sentAtOf e.id = some m ↔ ∃ p ∈ posts, p.mark = m ∧ e ∈ p.batch := by
  obtain ⟨r, hr, rfl, hunsent⟩ := hst.unsent e he
  have hfind : st'.rows.find? (·.id = r.id) = some (settleRow posts r) := by
    rw [hrows, List.find?_map]
    have hcomp : (fun q : ClientRow => decide (q.id = r.id)) ∘ settleRow posts =
        fun q => decide (q.id = r.id) := by
      funext q
      simp only [Function.comp_apply, settleRow_id]
    rw [hcomp, find_row hst.key hr, Option.map_some]
  rw [ClientStorage.sentAtOf, hfind, Option.bind_some]
  exact hpart.settleRow_sentAt he hunsent

theorem length_flatMap_single {posts : List Post} (h : ∀ p ∈ posts, p.batch.length = 1) :
    (posts.flatMap (·.batch)).length = posts.length := by
  induction posts with
  | nil => rfl
  | cons p posts ih =>
    obtain ⟨hp, hposts⟩ := List.forall_mem_cons.1 h
    rw [List.flatMap_cons, List.length_append, ih hposts, hp, List.length_cons, Nat.add_comm]

/-- At most `maxQuarantinesPerDrain` rows of the page are in a refused post that resolved. -/
theorem quarantined_le {marked : List UnsentEvent} (hnodup : marked.Nodup)
    (hmarked : ∀ e ∈ marked, QuarantinedIn posts e) :
    marked.length ≤ maxQuarantinesPerDrain := by
  have halone : ∀ p ∈ (resolvedPosts 0 posts).filter (!·.accepted), p.batch.length = 1 := by
    intro p hp
    obtain ⟨hp, ha⟩ := List.mem_filter.1 hp
    have hrefused := (mem_resolvedPosts_refused.1 ⟨hp, by simpa using ha⟩).1
    obtain ⟨e, he⟩ := batch_of_refusedAlone hrefused
    rw [he, List.length_singleton]
  have hsubset : marked ⊆ ((resolvedPosts 0 posts).filter (!·.accepted)).flatMap (·.batch) := by
    intro e he
    obtain ⟨p, hp, hm, hin⟩ := quarantinedIn_iff.1 (hmarked e he)
    have ha : p.accepted = false := by
      by_contra hc
      rw [Post.mark, if_pos (Bool.not_eq_false _ ▸ hc)] at hm
      cases hm
    exact List.mem_flatMap.2 ⟨p, List.mem_filter.2 ⟨hp, by simp [ha]⟩, hin⟩
  calc marked.length
      ≤ (((resolvedPosts 0 posts).filter (!·.accepted)).flatMap (·.batch)).length :=
        (List.subperm_of_subset hnodup hsubset).length_le
    _ = (resolvedPosts 0 posts).countP (!·.accepted) := by
        rw [length_flatMap_single halone, List.countP_eq_length_filter]
    _ ≤ maxQuarantinesPerDrain := countP_resolvedPosts_le

/-- From the order of the resolved posts and the marks they wrote, the whole of `Settled`. -/
theorem settled_of_rows {run : DrainRun} (hst : st.Holds page)
    (hordered : (resolvedPosts 0 run.posts).flatMap (·.batch) <+: page)
    (hrows : run.storage.rows = st.rows.map (settleRow (resolvedPosts 0 run.posts))) :
    Settled st page run := by
  have hpart : Partition page (resolvedPosts 0 run.posts) := ⟨hst.distinct, hordered⟩
  have hsent : ∀ e ∈ page, run.storage.sentAtOf e.id = some .sent ↔ SentIn run.posts e := by
    intro e he
    rw [sentAtOf_iff hst hpart hrows he, sentIn_iff]
  have hquarantined : ∀ e ∈ page,
      run.storage.sentAtOf e.id = some .quarantined ↔ QuarantinedIn run.posts e := by
    intro e he
    rw [sentAtOf_iff hst hpart hrows he, quarantinedIn_iff]
  refine ⟨hsent, hquarantined, ?_, ?_, ?_, hordered⟩
  · rintro e he ⟨hs, hq⟩
    have h₁ := (hsent e he).2 hs
    rw [(hquarantined e he).2 hq] at h₁
    cases h₁
  · rw [hrows, List.forall₂_map_right_iff, List.forall₂_same]
    intro r hr
    by_cases hon : ∃ e ∈ page, e.id = r.id ∧ (SentIn run.posts e ∨ QuarantinedIn run.posts e)
    · obtain ⟨e, he, hid, hfate⟩ := hon
      -- the row of the page is this one, so it was unsent
      obtain ⟨r₀, hr₀, rfl, hunsent⟩ := hst.unsent e he
      obtain rfl := List.inj_on_of_nodup_map hst.key hr₀ hr hid
      refine .inl ⟨r₀.toUnsentEvent, he, rfl, ?_⟩
      rcases hfate with hs | hq
      · exact .inl ⟨hs, Partition.settleRow_eq hunsent
          ((hpart.settleRow_sentAt he hunsent).2 (sentIn_iff.1 hs))⟩
      · exact .inr ⟨hq, Partition.settleRow_eq hunsent
          ((hpart.settleRow_sentAt he hunsent).2 (quarantinedIn_iff.1 hq))⟩
    · refine .inr ⟨?_, Partition.settleRow_of_not_mem ?_⟩
      · intro e he hid
        exact ⟨fun hs => hon ⟨e, he, hid, .inl hs⟩, fun hq => hon ⟨e, he, hid, .inr hq⟩⟩
      · intro p hp e he hid
        refine hon ⟨e, hpart.mem_page hp he, hid, ?_⟩
        cases hm : p.mark with
        | sent => exact .inl (sentIn_iff.2 ⟨p, hp, hm, he⟩)
        | quarantined => exact .inr (quarantinedIn_iff.2 ⟨p, hp, hm, he⟩)
  · have hmarked : ∀ e ∈ page.filter fun e => run.storage.sentAtOf e.id = some .quarantined,
        QuarantinedIn run.posts e := by
      intro e he
      obtain ⟨he, hm⟩ := List.mem_filter.1 he
      exact (hquarantined e he).1 (of_decide_eq_true hm)
    exact quarantined_le ((List.Nodup.of_map _ hst.distinct).filter _) hmarked

end

/-! ## Poison -/

section
variable {st : ClientStorage} {poison : Finset UnsentEvent}

theorem not_refused_and_accepted {p : Post} (h : RefusesExactly poison p) :
    (∃ e ∈ p.batch, e ∈ poison) ∧ p.accepted = false ∧ p.answer = .error .badBatch ∨
      (∀ e ∈ p.batch, e ∉ poison) ∧ p.accepted = true := by
  unfold RefusesExactly at h
  split at h
  · rename_i hon
    refine .inl ⟨hon, ?_, h⟩
    rw [Post.accepted, h]
  · rename_i hon
    exact .inr ⟨fun e he hp => hon ⟨e, he, hp⟩, h⟩

/-- While the poison left fits under the cap, a server that refuses just the batches with poison in
them never makes the loop give up. -/
theorem drainLoop_poison {stack : List (List UnsentEvent)} (hstack : ∀ b ∈ stack, b ≠ [])
    {quarantined : Nat} {answers : List (Except SendError IngestResponse)}
    (hcap : (stack.flatten.filter (· ∈ poison)).length + quarantined ≤ maxQuarantinesPerDrain)
    (hserver : ∀ p ∈ (drainLoop st stack quarantined answers).posts, RefusesExactly poison p)
    (hended : (drainLoop st stack quarantined answers).outcome.isSome = true) :
    (drainLoop st stack quarantined answers).outcome = some (.ok ()) := by
  revert hcap hserver hended
  refine drainLoop_rule (motive := fun _ stack quarantined _ run =>
      (stack.flatten.filter (· ∈ poison)).length + quarantined ≤ maxQuarantinesPerDrain →
      (∀ p ∈ run.posts, RefusesExactly poison p) → run.outcome.isSome = true →
      run.outcome = some (.ok ()))
    ?_ ?_ ?_ ?_ ?_ ?_ st stack hstack quarantined answers
  · intro st quarantined answers _ _ _
    rfl
  · intro st sub rest quarantined _ _ _ hended
    cases hended
  · intro st sub rest quarantined answer answers e hbail hcap hserver _
    rcases not_refused_and_accepted (hserver _ List.mem_cons_self) with
      ⟨⟨x, hx, hpoison⟩, -, hanswer⟩ | ⟨-, ha⟩
    · dsimp only at hx hanswer
      subst hanswer
      have hfull : sub.length = 1 ∧ maxQuarantinesPerDrain ≤ quarantined := by
        by_contra hc
        simp [drainBail, hc] at hbail
      have hpos : 0 < ((sub :: rest).flatten.filter (· ∈ poison)).length := by
        apply List.length_pos_of_mem (a := x)
        simp [hx, hpoison]
      omega
    · cases answer with
      | ok response => cases hbail
      | error err => cases ha
  · intro st sub rest quarantined response answers run _ ih hcap hserver hended
    rw [List.flatten_cons, List.filter_append, List.length_append] at hcap
    exact ih (by omega) (fun p hp => hserver p (List.mem_cons_of_mem _ hp)) hended
  · intro st e rest quarantined answers run _ ih hcap hserver hended
    have hpoison : e ∈ poison := by
      rcases not_refused_and_accepted (hserver _ List.mem_cons_self) with
        ⟨⟨x, hx, hpoison⟩, -⟩ | ⟨-, ha⟩
      · rwa [← List.mem_singleton.1 hx]
      · cases ha
    rw [List.flatten_cons, List.filter_append, List.length_append,
      List.filter_cons_of_pos (by simpa using hpoison), List.length_cons] at hcap
    exact ih (by omega) (fun p hp => hserver p (List.mem_cons_of_mem _ hp)) hended
  · intro st left right rest quarantined answers run _ _ _ ih hcap hserver hended
    refine ih ?_ (fun p hp => hserver p (List.mem_cons_of_mem _ hp)) hended
    simpa using hcap

end

/-! ## A drain -/

section
variable {st : ClientStorage} {page : List UnsentEvent}

/-- When every row is in a resolved post, the poison is quarantined and the rest sent. -/
theorem poison_quarantined {poison : Finset UnsentEvent} {posts : List Post} {e : UnsentEvent}
    (hserver : ∀ p ∈ posts, RefusesExactly poison p)
    (he : e ∈ (resolvedPosts 0 posts).flatMap (·.batch)) :
    if e ∈ poison then QuarantinedIn posts e else SentIn posts e := by
  obtain ⟨p, hp, hin⟩ := List.mem_flatMap.1 he
  obtain ⟨hposts, halone⟩ := mem_of_resolved hp
  rcases not_refused_and_accepted (hserver p hposts) with ⟨⟨x, hx, hpoison⟩, ha, -⟩ | ⟨hno, ha⟩
  · have hbatch : ∃ f, p.batch = [f] := by
      rcases halone with hc | halone
      · rw [ha] at hc
        cases hc
      · exact batch_of_refusedAlone halone
    obtain ⟨f, hf⟩ := hbatch
    have hef : e = x := by
      rw [hf, List.mem_singleton] at hin hx
      rw [hin, hx]
    rw [if_pos (hef ▸ hpoison)]
    exact quarantinedIn_iff.2 ⟨p, hp, by simp [Post.mark, ha], hin⟩
  · rw [if_neg (hno e hin)]
    exact ⟨p, hposts, ha, hin⟩

/-- The loop ends, its page is settled in order, and a server that refuses just the batches with
one of at most ten rows has those rows quarantined and the others sent. -/
theorem drain_settles_page (hst : st.Holds page) (maxBatchBytes : Nat)
    (answers : List (Except SendError IngestResponse)) :
    (2 * page.length ≤ answers.length →
      (drainPage st page maxBatchBytes answers).outcome.isSome = true) ∧
    ((drainPage st page maxBatchBytes answers).outcome.isSome = true → ∀ more,
      drainPage st page maxBatchBytes (answers ++ more) = drainPage st page maxBatchBytes answers) ∧
    Settled st page (drainPage st page maxBatchBytes answers) ∧
    ∀ poison : Finset UnsentEvent, poison.card ≤ maxQuarantinesPerDrain →
      (∀ p ∈ (drainPage st page maxBatchBytes answers).posts, RefusesExactly poison p) →
      (drainPage st page maxBatchBytes answers).outcome.isSome = true →
      (drainPage st page maxBatchBytes answers).outcome = some (.ok ()) ∧
      ∀ e ∈ page, (drainPage st page maxBatchBytes answers).storage.sentAtOf e.id =
        some (if e ∈ poison then .quarantined else .sent) := by
  have hstack := chunkByBytes_ne_nil page maxBatchBytes
  have hpage := chunkByBytes_flatten page maxBatchBytes
  have hcovers := @drainLoop_covers st _ 0 answers hstack
  rw [hpage] at hcovers
  have hsettled : Settled st page (drainPage st page maxBatchBytes answers) :=
    settled_of_rows hst ⟨_, hcovers⟩ (drainLoop_rows hstack)
  refine ⟨?_, fun h more => drainLoop_append hstack h more, hsettled, ?_⟩
  · intro hanswers
    apply drainLoop_ends hstack
    rw [hpage]
    omega
  · intro poison hcard hserver hended
    have hcap : (page.filter (· ∈ poison)).length ≤ poison.card := by
      have hnodup := (List.Nodup.of_map _ hst.distinct).filter (· ∈ poison)
      rw [← List.toFinset_card_of_nodup hnodup]
      apply Finset.card_le_card
      intro e he
      simpa using (List.mem_filter.1 (List.mem_toFinset.1 he)).2
    have hok : (drainPage st page maxBatchBytes answers).outcome = some (.ok ()) := by
      apply drainLoop_poison hstack _ hserver hended
      rw [hpage]
      omega
    refine ⟨hok, ?_⟩
    intro e he
    have hall : e ∈ (resolvedPosts 0 (drainPage st page maxBatchBytes answers).posts).flatMap
        (·.batch) := by
      rw [drainLoop_ok hstack hok, List.flatten_nil, List.append_nil] at hcovers
      unfold drainPage
      rw [hcovers]
      exact he
    have hfate := poison_quarantined hserver hall
    split at hfate
    · rename_i hp
      rw [if_pos hp]
      exact (hsettled.quarantined e he).2 hfate
    · rename_i hp
      rw [if_neg hp]
      exact (hsettled.sent e he).2 hfate

end

/-! ## A page with one poisoned row -/

def plainRow (id : Int) : ClientRow := ⟨⟨id, "", "", "", "live", 0⟩, "quit", none⟩

def pairStorage : ClientStorage := ⟨[plainRow 1, plainRow 2], 0⟩

def pairPage : List UnsentEvent := pairStorage.rows.map (·.toUnsentEvent)

/-- The pair is refused, the first row accepted, the second refused. -/
def pairAnswers : List (Except SendError IngestResponse) :=
  [.error .badBatch, .ok ⟨"b", 1, 0, 0, none⟩, .error .badBatch]

theorem pairStorage_holds : pairStorage.Holds pairPage where
  key := by decide
  distinct := by decide
  unsent := by
    intro e he
    obtain ⟨r, hr, rfl⟩ := List.mem_map.1 he
    refine ⟨r, hr, rfl, ?_⟩
    revert r
    decide

theorem pairPosts : (drainPage pairStorage pairPage 5000 pairAnswers).posts =
    [⟨pairPage, .error .badBatch⟩, ⟨[(plainRow 1).toUnsentEvent], .ok ⟨"b", 1, 0, 0, none⟩⟩,
      ⟨[(plainRow 2).toUnsentEvent], .error .badBatch⟩] := by
  rfl

/-- The second row is the poison. -/
theorem drain_settles_page_pair :
    (drainPage pairStorage pairPage 5000 pairAnswers).outcome = some (.ok ()) ∧
      ∀ e ∈ pairPage, (drainPage pairStorage pairPage 5000 pairAnswers).storage.sentAtOf e.id =
        some (if e ∈ ({(plainRow 2).toUnsentEvent} : Finset UnsentEvent) then .quarantined
          else .sent) := by
  refine (drain_settles_page pairStorage_holds 5000 pairAnswers).2.2.2
    {(plainRow 2).toUnsentEvent} (by decide) ?_ rfl
  rw [pairPosts]
  intro p hp
  simp only [List.mem_cons, List.not_mem_nil, or_false] at hp
  rcases hp with rfl | rfl | rfl
  · rw [RefusesExactly, if_pos (by decide)]
  · rw [RefusesExactly, if_neg (by decide)]
    rfl
  · rw [RefusesExactly, if_pos (by decide)]

end StarStats
