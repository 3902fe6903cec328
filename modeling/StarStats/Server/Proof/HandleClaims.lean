import StarStats.Server.HandleClaims

/-!
# Who may hold a held handle

`Inv` is kept by every step that meets `NoneBetween`: a claim past its check has no reservation of
another account against it, and a written one has the key to itself. Only a commit that adds a
reservation can break the former, for a claim that was checked before (`held_handle_claimed`).
-/

namespace StarStats.HandleClaims

open Text (lower)

/-! ## Claims -/

/-- The claim has passed its reservation check. -/
def Claim.Past (c : Claim) : Prop := c.phase = .checked ∨ c.phase = .written

/-- No handle of another account is held against the claim. -/
def Cleared (s : State) (c : Claim) : Prop :=
  ∀ r ∈ s.renames, s.now < r.reservedUntil → lower r.oldHandle = lower c.handle →
    r.userId = c.userId

/-- The claim's key in the unique index is no one else's. -/
structure Sole (s : State) (c : Claim) : Prop where
  users : ∀ u ∈ s.users, lower u.claimedHandle = lower c.handle → u.id = c.userId
  claims : ∀ c' ∈ s.claims, c'.phase = .written → lower c'.handle = lower c.handle →
    c'.userId = c.userId

structure Inv (s : State) : Prop where
  safe : HeldSafe s
  unique : ∀ u ∈ s.users, ∀ v ∈ s.users, lower u.claimedHandle = lower v.claimedHandle → u.id = v.id
  keyed : ∀ c ∈ s.claims, ∀ c' ∈ s.claims, c.userId = c'.userId → c = c'
  /-- The row lock keeps the row as the rename read it. -/
  row : ∀ c ∈ s.claims, ∀ u kind t, c.source = .rename u kind t →
    u ∈ s.users ∧ u.id = c.userId ∧ t ≤ s.now
  cleared : ∀ c ∈ s.claims, c.Past → Cleared s c
  sole : ∀ c ∈ s.claims, c.phase = .written → Sole s c

section
variable {s : State} {userId : Uuid} {c c' : Claim}

theorem claim?_mem (h : s.claim? userId = some c) : c ∈ s.claims ∧ c.userId = userId :=
  ⟨List.mem_of_find?_eq_some h, by simpa using List.find?_some h⟩

theorem ne_of_claim?_none (h : ¬ (s.claim? userId).isSome) (hc : c ∈ s.claims) :
    c.userId ≠ userId := by
  simp only [State.claim?, List.find?_isSome, decide_eq_true_eq, not_exists, not_and] at h
  exact h c hc

theorem mem_close (h : c ∈ (s.close userId).claims) : c ∈ s.claims ∧ c.userId ≠ userId := by
  simpa [State.close] using h

theorem mem_setPhase {phase : Phase} (h : c ∈ (s.setPhase userId phase).claims) :
    ∃ c₀ ∈ s.claims, c = if c₀.userId = userId then { c₀ with phase := phase } else c₀ := by
  obtain ⟨c₀, h₀, rfl⟩ := List.mem_map.1 h
  exact ⟨c₀, h₀, rfl⟩

/-! ## Statements that end or add a claim -/

theorem inv_close (hs : Inv s) : Inv (s.close userId) where
  safe := hs.safe
  unique := hs.unique
  keyed := by
    intro c hc c' hc'
    exact hs.keyed c (mem_close hc).1 c' (mem_close hc').1
  row := by
    intro c hc
    exact hs.row c (mem_close hc).1
  cleared := by
    intro c hc
    exact hs.cleared c (mem_close hc).1
  sole := by
    intro c hc hw
    obtain ⟨husers, hclaims⟩ := hs.sole c (mem_close hc).1 hw
    exact ⟨husers, fun c' hc' => hclaims c' (mem_close hc').1⟩

theorem inv_add (hs : Inv s) (hnew : ∀ c' ∈ s.claims, c'.userId ≠ c.userId)
    (hphase : c.phase ≠ .written) (hcleared : c.Past → Cleared s c)
    (hrow : ∀ u kind t, c.source = .rename u kind t → u ∈ s.users ∧ u.id = c.userId ∧ t ≤ s.now) :
    Inv { s with claims := s.claims ++ [c] } where
  safe := hs.safe
  unique := hs.unique
  keyed := by
    intro c₁ h₁ c₂ h₂ heq
    rcases List.mem_append.1 h₁ with h₁ | h₁
    · rcases List.mem_append.1 h₂ with h₂ | h₂
      · exact hs.keyed c₁ h₁ c₂ h₂ heq
      · rw [List.mem_singleton.1 h₂] at heq
        exact absurd heq (hnew c₁ h₁)
    · rw [List.mem_singleton.1 h₁] at heq ⊢
      rcases List.mem_append.1 h₂ with h₂ | h₂
      · exact absurd heq.symm (hnew c₂ h₂)
      · exact (List.mem_singleton.1 h₂).symm
  row := by
    intro c₁ h₁
    rcases List.mem_append.1 h₁ with h₁ | h₁
    · exact hs.row c₁ h₁
    · rw [List.mem_singleton.1 h₁]
      exact hrow
  cleared := by
    intro c₁ h₁
    rcases List.mem_append.1 h₁ with h₁ | h₁
    · exact hs.cleared c₁ h₁
    · rw [List.mem_singleton.1 h₁]
      exact hcleared
  sole := by
    intro c₁ h₁ hw
    rcases List.mem_append.1 h₁ with h₁ | h₁
    · obtain ⟨husers, hclaims⟩ := hs.sole c₁ h₁ hw
      refine ⟨husers, fun c₂ h₂ hw₂ => ?_⟩
      rcases List.mem_append.1 h₂ with h₂ | h₂
      · exact hclaims c₂ h₂ hw₂
      · rw [List.mem_singleton.1 h₂] at hw₂
        exact absurd hw₂ hphase
    · rw [List.mem_singleton.1 h₁] at hw
      exact absurd hw hphase

/-- A statement moves its claim on; one past the check is clear, one that writes is alone. -/
theorem inv_setPhase {phase : Phase} (hs : Inv s) (hc : c ∈ s.claims) (hu : c.userId = userId)
    (hcleared : phase = .checked ∨ phase = .written → Cleared s c)
    (hsole : phase = .written → Sole s c) : Inv (s.setPhase userId phase) where
  safe := hs.safe
  unique := hs.unique
  keyed := by
    intro c₁ h₁ c₂ h₂ heq
    obtain ⟨d₁, hd₁, rfl⟩ := mem_setPhase h₁
    obtain ⟨d₂, hd₂, rfl⟩ := mem_setPhase h₂
    have hid : ∀ d : Claim, (if d.userId = userId then { d with phase := phase } else d).userId =
        d.userId := by
      intro d
      split <;> rfl
    rw [hid, hid] at heq
    rw [hs.keyed d₁ hd₁ d₂ hd₂ heq]
  row := by
    intro c₁ h₁ u kind t hsrc
    obtain ⟨d, hd, rfl⟩ := mem_setPhase h₁
    by_cases hdu : d.userId = userId
    · rw [if_pos hdu] at hsrc ⊢
      exact hs.row d hd u kind t hsrc
    · rw [if_neg hdu] at hsrc ⊢
      exact hs.row d hd u kind t hsrc
  cleared := by
    intro c₁ h₁ hpast
    obtain ⟨d, hd, rfl⟩ := mem_setPhase h₁
    by_cases hdu : d.userId = userId
    · obtain rfl := hs.keyed d hd c hc (hdu.trans hu.symm)
      rw [if_pos hdu] at hpast ⊢
      exact hcleared hpast
    · rw [if_neg hdu] at hpast ⊢
      exact hs.cleared d hd hpast
  sole := by
    intro c₁ h₁ hw
    obtain ⟨d, hd, rfl⟩ := mem_setPhase h₁
    by_cases hdu : d.userId = userId
    · obtain rfl := hs.keyed d hd c hc (hdu.trans hu.symm)
      rw [if_pos hdu] at hw ⊢
      obtain ⟨husers, hclaims⟩ := hsole hw
      refine ⟨husers, fun c₂ h₂ hw₂ heq => ?_⟩
      obtain ⟨e, he, rfl⟩ := mem_setPhase h₂
      by_cases heu : e.userId = userId
      · rw [if_pos heu]
        exact heu.trans hdu.symm
      · rw [if_neg heu] at hw₂ heq ⊢
        exact hclaims e he hw₂ heq
    · rw [if_neg hdu] at hw ⊢
      obtain ⟨husers, hclaims⟩ := hs.sole d hd hw
      refine ⟨husers, fun c₂ h₂ hw₂ heq => ?_⟩
      obtain ⟨e, he, rfl⟩ := mem_setPhase h₂
      by_cases heu : e.userId = userId
      · obtain rfl := hs.keyed e he c hc (heu.trans hu.symm)
        rw [if_pos heu] at hw₂ heq ⊢
        exact ((hsole hw₂).claims d hd hw heq.symm).symm
      · rw [if_neg heu] at hw₂ heq ⊢
        exact hclaims e he hw₂ heq

/-! ## The checks -/

theorem cleared_of_not_held {handle : String} (h : handleHeld s.renames handle s.now = false)
    (source : Source) (phase : Phase) : Cleared s ⟨userId, handle, source, phase⟩ := by
  intro r hr hlive heq
  simp only [handleHeld, List.any_eq_false, Bool.and_eq_true, beq_iff_eq, decide_eq_true_eq,
    not_and] at h
  exact absurd hlive (h r hr heq)

theorem cleared_of_not_reserved {t : Timestamp} (ht : t ≤ s.now)
    (h : handleReserved s.renames c.userId c.handle t = false) : Cleared s c := by
  intro r hr hlive heq
  simp only [handleReserved, List.any_eq_false, Bool.and_eq_true, beq_iff_eq, decide_eq_true_eq,
    bne_iff_ne, ne_eq, not_and, not_not] at h
  exact h r hr ⟨heq, lt_of_le_of_lt ht hlive⟩

/-- A change of case only needs no check: the account holds the handle already. -/
theorem cleared_of_own {u : Account} (hs : Inv s) (hu : u ∈ s.users) (hid : u.id = c.userId)
    (hcase : lower u.claimedHandle = lower c.handle) : Cleared s c := by
  intro r hr hlive heq
  rw [← hid]
  exact (hs.safe r hr hlive u hu (hcase.trans heq.symm)).symm

theorem sole_of_write (htaken : handleTaken s.users c.userId c.handle = false)
    (hwaits : s.waits c = false) : Sole s c := by
  constructor
  · intro u hu heq
    simp only [handleTaken, List.any_eq_false, Bool.and_eq_true, beq_iff_eq, bne_iff_ne, ne_eq,
      not_and, not_not] at htaken
    exact htaken u hu heq
  · intro c' hc' hw heq
    simp only [State.waits, List.any_eq_false, Bool.and_eq_true, beq_iff_eq, bne_iff_ne, ne_eq,
      Bool.or_eq_true, not_and, not_or] at hwaits
    by_contra hne
    exact (hwaits c' hc' ⟨hne, hw⟩).1 heq

/-! ## Commits -/

theorem inv_commit_signUp {handle : String} (hs : Inv s)
    (hget : s.claim? userId = some ⟨userId, handle, .signUp, .written⟩) :
    Inv { s.close userId with users := s.users ++ [.created userId handle s.now] } := by
  obtain ⟨hc, -⟩ := claim?_mem hget
  obtain ⟨husers, hclaims⟩ := hs.sole _ hc rfl
  have hclose : Inv (s.close userId) := inv_close hs
  constructor
  · intro r hr hlive u hu heq
    rcases List.mem_append.1 hu with hu | hu
    · exact hs.safe r hr hlive u hu heq
    · rw [List.mem_singleton.1 hu] at heq ⊢
      exact (hs.cleared _ hc (.inr rfl) r hr hlive heq.symm).symm
  · intro u hu v hv heq
    rcases List.mem_append.1 hu with hu | hu
    · rcases List.mem_append.1 hv with hv | hv
      · exact hs.unique u hu v hv heq
      · rw [List.mem_singleton.1 hv] at heq ⊢
        exact husers u hu heq
    · rw [List.mem_singleton.1 hu] at heq ⊢
      rcases List.mem_append.1 hv with hv | hv
      · exact (husers v hv heq.symm).symm
      · rw [List.mem_singleton.1 hv]
  · exact hclose.keyed
  · intro c hc u kind t hsrc
    obtain ⟨hu, hrest⟩ := hclose.row c hc u kind t hsrc
    exact ⟨List.mem_append_left _ hu, hrest⟩
  · exact hclose.cleared
  · intro c' hc' hw
    obtain ⟨hmem, hne⟩ := mem_close hc'
    refine ⟨fun u hu heq => ?_, (hclose.sole c' hc' hw).claims⟩
    rcases List.mem_append.1 hu with hu | hu
    · exact (hs.sole c' hmem hw).users u hu heq
    · rw [List.mem_singleton.1 hu] at heq ⊢
      exact absurd (hclaims c' hmem hw heq.symm) hne

theorem inv_commit_rename {id : Uuid} {handle : String} {u : Account} {kind : RenameKind}
    {t : Timestamp} (hs : Inv s)
    (hget : s.claim? userId = some ⟨userId, handle, .rename u kind t, .written⟩)
    (hok : NoneBetween s (.commit userId id)) :
    Inv { s.close userId with
      users := s.users.map fun v => if v.id = userId then u.renamed handle t else v
      renames := s.renames ++ [u.renameRecord id handle kind t] } := by
  obtain ⟨hc, -⟩ := claim?_mem hget
  obtain ⟨husers, hclaims⟩ := hs.sole _ hc rfl
  obtain ⟨hu, hid, ht⟩ := hs.row _ hc u kind t rfl
  have hclose : Inv (s.close userId) := inv_close hs
  -- an account after the commit is the renamed one or an old one of another key
  have hcases : ∀ v ∈ s.users.map (fun v => if v.id = userId then u.renamed handle t else v),
      v = u.renamed handle t ∨ v ∈ s.users ∧ v.id ≠ userId := by
    intro v hv
    obtain ⟨w, hw, rfl⟩ := List.mem_map.1 hv
    by_cases hwid : w.id = userId
    · exact .inl (if_pos hwid)
    · rw [if_neg hwid]
      exact .inr ⟨hw, hwid⟩
  constructor
  · intro r hr hlive v hv heq
    rcases List.mem_append.1 hr with hr | hr
    · rcases hcases v hv with rfl | ⟨hv, -⟩
      · exact hid.trans (hs.cleared _ hc (.inr rfl) r hr hlive heq.symm).symm
      · exact hs.safe r hr hlive v hv heq
    · rw [List.mem_singleton.1 hr] at heq ⊢
      rcases hcases v hv with rfl | ⟨hv, -⟩
      · rfl
      · exact hs.unique v hv u hu heq
  · intro v hv w hw heq
    rcases hcases v hv with rfl | ⟨hv, hvid⟩
    · rcases hcases w hw with rfl | ⟨hw, hwid⟩
      · rfl
      · exact hid.trans (husers w hw heq.symm).symm
    · rcases hcases w hw with rfl | ⟨hw, hwid⟩
      · exact (husers v hv heq).trans hid.symm
      · exact hs.unique v hv w hw heq
  · exact hclose.keyed
  · intro c' hc' w kind' t' hsrc
    obtain ⟨hmem, hne⟩ := mem_close hc'
    obtain ⟨hw, hwid, ht'⟩ := hs.row c' hmem w kind' t' hsrc
    refine ⟨List.mem_map.2 ⟨w, hw, if_neg ?_⟩, hwid, ht'⟩
    rw [hwid]
    exact hne
  · intro c' hc' hpast r hr hlive heq
    obtain ⟨hmem, hne⟩ := mem_close hc'
    rcases List.mem_append.1 hr with hr | hr
    · exact hs.cleared c' hmem hpast r hr hlive heq
    · rw [List.mem_singleton.1 hr] at heq ⊢
      rcases hpast with hchecked | hwritten
      · exact absurd heq.symm (hok _ hc rfl u.claimedHandle rfl c' hmem hne hchecked)
      · exact (hs.sole c' hmem hwritten).users u hu heq
  · intro c' hc' hw
    obtain ⟨hmem, hne⟩ := mem_close hc'
    refine ⟨fun v hv heq => ?_, (hclose.sole c' hc' hw).claims⟩
    rcases hcases v hv with rfl | ⟨hv, -⟩
    · exact absurd (hclaims c' hmem hw heq.symm) hne
    · exact (hs.sole c' hmem hw).users v hv heq

/-! ## All steps -/

theorem inv_wait (hs : Inv s) (d : Nat) : Inv { s with now := s.now + d } := by
  have hle : s.now ≤ s.now + (d : Int) := Int.le_add_of_nonneg_right (Int.natCast_nonneg d)
  refine { hs with safe := ?_, row := ?_, cleared := ?_, sole := ?_ }
  · intro r hr hlive
    exact hs.safe r hr (lt_of_le_of_lt hle hlive)
  · intro c hc u kind t hsrc
    obtain ⟨hu, hid, ht⟩ := hs.row c hc u kind t hsrc
    exact ⟨hu, hid, ht.trans hle⟩
  · intro c hc hpast r hr hlive
    exact hs.cleared c hc hpast r hr (lt_of_le_of_lt hle hlive)
  · intro c hc hw
    obtain ⟨husers, hclaims⟩ := hs.sole c hc hw
    exact ⟨husers, hclaims⟩

theorem inv_signUp {handle : String} {s' : State} (hs : Inv s)
    (h : step s (.signUp userId handle) = some s') : Inv s' := by
  simp only [step] at h
  split at h
  · cases h
  · rename_i hfresh
    rw [not_or] at hfresh
    split at h
    · cases h
      exact hs
    · rename_i hheld
      cases h
      apply inv_add hs
      · intro c' hc'
        exact ne_of_claim?_none hfresh.2 hc'
      · exact Phase.noConfusion
      · intro _
        exact cleared_of_not_held (by simpa using hheld) _ _
      · intro u kind t hsrc
        cases hsrc

theorem inv_lock {newHandle : String} {t : Timestamp} {s' : State} (hs : Inv s)
    (h : step s (.lock userId newHandle t) = some s') : Inv s' := by
  simp only [step] at h
  split at h
  · cases h
  · rename_i hfree
    rw [not_or] at hfree
    split at h
    · cases h
      exact hs
    · rename_i u hfind
      have hu : u ∈ s.users := List.mem_of_find?_eq_some hfind
      have hid : u.id = userId := by simpa using List.find?_some hfind
      split at h
      · cases h
        exact hs
      · cases h
        apply inv_add hs
        · intro c' hc'
          exact ne_of_claim?_none hfree.1 hc'
        · show (if _ then _ else _) ≠ Phase.written
          split <;> exact Phase.noConfusion
        · intro hpast
          by_cases hcase : Text.eqIgnoreAsciiCase u.claimedHandle newHandle = true
          · exact cleared_of_own hs hu hid (Text.eqIgnoreAsciiCase_iff.1 hcase)
          · simp [Claim.Past, hcase] at hpast
        · intro w kind' t' hsrc
          cases hsrc
          exact ⟨hu, hid, not_lt.1 hfree.2⟩

theorem inv_checkTaken {s' : State} (hs : Inv s) (h : step s (.checkTaken userId) = some s') :
    Inv s' := by
  simp only [step] at h
  split at h
  · rename_i hget
    obtain ⟨hc, hcu⟩ := claim?_mem hget
    cases h
    split
    · exact inv_close hs
    · refine inv_setPhase hs hc hcu (fun hp => ?_) fun hp => ?_
      · rcases hp with hp | hp <;> cases hp
      · cases hp
  · cases h

theorem inv_checkReserved {s' : State} (hs : Inv s)
    (h : step s (.checkReserved userId) = some s') : Inv s' := by
  simp only [step] at h
  split at h
  · rename_i hget
    obtain ⟨hc, hcu⟩ := claim?_mem hget
    cases h
    split
    · exact inv_close hs
    · rename_i hres
      obtain ⟨-, -, ht⟩ := hs.row _ hc _ _ _ rfl
      refine inv_setPhase hs hc hcu (fun _ => ?_) fun hp => ?_
      · subst hcu
        exact cleared_of_not_reserved ht (by simpa using hres)
      · cases hp
  · cases h

theorem inv_write {s' : State} (hs : Inv s) (h : step s (.write userId) = some s') : Inv s' := by
  simp only [step] at h
  split at h
  · rename_i c hget
    obtain ⟨hc, rfl⟩ := claim?_mem hget
    split at h
    · cases h
    · rename_i hready
      rw [not_or, not_not] at hready
      cases h
      split
      · exact inv_close hs
      · rename_i htaken
        refine inv_setPhase hs hc rfl (fun _ => hs.cleared c hc (.inl hready.1)) fun _ => ?_
        exact sole_of_write (by simpa using htaken) (by simpa using hready.2)
  · cases h

theorem inv_commit {id : Uuid} {s' : State} (hs : Inv s) (hok : NoneBetween s (.commit userId id))
    (h : step s (.commit userId id) = some s') : Inv s' := by
  simp only [step] at h
  split at h
  · rename_i hget
    obtain ⟨-, hcu⟩ := claim?_mem hget
    cases h
    subst hcu
    exact inv_commit_signUp hs hget
  · rename_i hget
    obtain ⟨-, hcu⟩ := claim?_mem hget
    cases h
    subst hcu
    exact inv_commit_rename hs hget hok
  · cases h

theorem inv_step {a : Action} {s' : State} (hs : Inv s) (hok : NoneBetween s a)
    (h : step s a = some s') : Inv s' := by
  cases a with
  | wait d =>
    cases h
    exact inv_wait hs d
  | signUp userId handle => exact inv_signUp hs h
  | lock userId newHandle t => exact inv_lock hs h
  | checkTaken userId => exact inv_checkTaken hs h
  | checkReserved userId => exact inv_checkReserved hs h
  | write userId => exact inv_write hs h
  | commit userId id => exact inv_commit hs hok h
  | rollback userId =>
    simp only [step] at h
    split at h
    · cases h
      exact inv_close hs
    · cases h

end

theorem inv_start (now : Timestamp) : Inv (.start now) := by
  refine ⟨?_, ?_, ?_, ?_, ?_, ?_⟩ <;> intro x hx <;> cases hx

/-- **A held handle stays held**, in every committed state that is reached by steps that meet
`NoneBetween`. -/
theorem held_safe {now : Timestamp} {s : State}
    (h : Trans.Reach step NoneBetween (.start now) s) : HeldSafe s := by
  have hs := h.inv (inv_start now) fun _ _ _ hs hok hstep => inv_step hs hok hstep
  exact hs.safe

/-! ## Concrete runs -/

/-- Alice signs up. -/
def aliceJoins : List Action := [.signUp "u1" "alice", .write "u1", .commit "u1" "-"]

/-- Alice becomes alicia, up to the commit. -/
def aliceRenames : List Action :=
  [.lock "u1" "alicia" 0, .checkTaken "u1", .checkReserved "u1", .write "u1"]

/-- One after the other: the second sign-up is refused. -/
def inTurn : List Action :=
  aliceJoins ++ aliceRenames ++ [Action.commit "u1" "r1", .signUp "u2" "alice"]

/-- The second sign-up has read its condition when the rename commits. -/
def between : List Action :=
  aliceJoins ++ aliceRenames ++
    [Action.signUp "u2" "alice", .commit "u1" "r1", .write "u2", .commit "u2" "-"]

theorem held_safe_inTurn :
    ∃ s, Trans.Reach step NoneBetween (.start 0) s ∧
      s.users.map (·.claimedHandle) = ["alicia"] ∧ HeldSafe s := by
  have hrun : (Trans.exec step NoneBetween (.start 0) inTurn).map
      (·.users.map (·.claimedHandle)) = some ["alicia"] := by
    decide +kernel
  obtain ⟨s, hreach, hs⟩ := Trans.reach_of_map_exec _ hrun
  exact ⟨s, hreach, hs, held_safe hreach⟩

theorem held_handle_claimed :
    ¬ ∀ (now : Timestamp) (s : State), Trans.Reach step Trans.always (.start now) s →
      HeldSafe s := by
  intro h
  let r : HandleRename := ⟨"r1", "u1", "alice", "alicia", false, true, 0, reservation, none⟩
  have hrun : (Trans.exec step Trans.always (.start 0) between).map
      (fun s => (s.now, s.renames, s.users[1]?)) =
      some (0, [r], some (.created "u2" "alice" 0)) := by
    decide +kernel
  obtain ⟨s, hreach, hs⟩ := Trans.reach_of_map_exec _ hrun
  simp only [Prod.mk.injEq] at hs
  obtain ⟨hnow, hrenames, huser⟩ := hs
  have hsafe := h 0 s hreach r (hrenames ▸ List.mem_singleton_self r)
  rw [hnow] at hsafe
  have heq := hsafe (by decide) _ (List.mem_of_getElem? huser) rfl
  exact absurd heq (by decide)

end StarStats.HandleClaims
