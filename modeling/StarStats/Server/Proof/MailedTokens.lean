import StarStats.Lib.Calls
import StarStats.Server.MailedTokens

/-!
# What a mailed token proves

`Known` is what the account and the calls know of a token: an address that is read was staged with
the token that was presented. So the address that a commit takes is the one the token was mailed
to exactly when nothing else has been staged since it was read. A reset token is presented before
it is replaced or not at all, and what has set the password has left the row (`Inv.consumed`): a
call that still finds its token there is the first. `proves_of_unraced`: both laws, each without
its race.
-/

namespace StarStats

namespace MailedTokens

variable {f : Folding} {s s' : State} {act : Action}

/-! ## What is known of a token -/

/-- The address was staged with the token, until `expiresAt`. -/
def State.StagedWith (s : State) (token : String) (pendingEmail : Option String)
    (expiresAt : Timestamp) : Prop :=
  ∃ m ∈ s.staged, m.token = token ∧ pendingEmail = some m.email ∧ m.expiresAt = expiresAt

def Known (s : State) : Phase → Prop
  | .checkPending token pendingEmail expiresAt =>
    ∃ exp, expiresAt = some exp ∧ s.StagedWith token pendingEmail exp
  | .commitPending token pendingEmail checkedAt =>
    ∃ exp, checkedAt ≤ exp ∧ s.StagedWith token pendingEmail exp
  | .checkReset token _ _ | .completeReset token _ => token ∈ s.presented
  | _ => True

/-- What was staged and presented stays so. -/
theorem Known.mono {phase : Phase} (h : Known s phase) (hstaged : s.staged ⊆ s'.staged)
    (hpresented : s.presented ⊆ s'.presented) : Known s' phase := by
  have hwith {token : String} {e : Option String} {exp : Timestamp}
      (hs : s.StagedWith token e exp) : s'.StagedWith token e exp := by
    obtain ⟨m, hm, hrest⟩ := hs
    exact ⟨m, hstaged hm, hrest⟩
  cases phase with
  | checkPending token e expiresAt =>
    obtain ⟨exp, hexp, hs⟩ := h
    exact ⟨exp, hexp, hwith hs⟩
  | commitPending token e checkedAt =>
    obtain ⟨exp, hle, hs⟩ := h
    exact ⟨exp, hle, hwith hs⟩
  | checkReset token newPassword expiresAt => exact hpresented h
  | completeReset token phc => exact hpresented h
  | _ => trivial

theorem known_entry (r : Request) : Known s (r.entry f) := by
  cases r with
  | emailChangeStart newEmail =>
    simp only [Request.entry]
    split <;> trivial
  | emailChangeVerify token =>
    simp only [Request.entry]
    split <;> trivial
  | passwordResetStart email =>
    simp only [Request.entry]
    split <;> trivial
  | passwordResetComplete token newPassword =>
    simp only [Request.entry]
    split
    · trivial
    · split <;> trivial

theorem known_storeFailed {phase phase' : Phase} (h : phase.storeFailed = some phase') :
    Known s phase' := by
  cases phase with
  | checkPending | checkReset | done => cases h
  | _ =>
    cases h
    trivial

/-- What has not expired has an expiry, now or later. -/
theorem of_not_expired {expiresAt : Option Timestamp} {now : Timestamp}
    (h : expired expiresAt now = false) : ∃ exp, expiresAt = some exp ∧ now ≤ exp := by
  cases expiresAt with
  | none => cases h
  | some exp => exact ⟨exp, rfl, Int.not_lt.1 (of_decide_eq_false h)⟩

structure Inv (s : State) : Prop where
  known : ∀ phase ∈ s.calls, Known s phase
  /-- The pending token is the one that the pending address was staged with. -/
  pending : ∀ t, s.account.pendingEmailToken = some t → ∃ exp,
    s.account.pendingEmailExpiresAt = some exp ∧ s.StagedWith t s.account.pendingEmail exp
  stagedOnce : (s.staged.map (·.token)).Nodup
  /-- The current reset token was not replaced. -/
  current : ∀ t, s.account.passwordResetToken = some t → t ∈ s.issued ∧ t ∉ s.replaced
  issued : s.presented ⊆ s.issued ∧ s.replaced ⊆ s.issued
  /-- What was replaced is not presented. -/
  apart : ∀ t ∈ s.replaced, t ∉ s.presented
  resets : s.resets ⊆ s.presented
  /-- What has set the password is no longer in the row. -/
  consumed : ∀ t ∈ s.resets, s.account.passwordResetToken ≠ some t

theorem inv_start (email phc : String) (now : Timestamp) : Inv (.start email phc now) where
  known := fun _ h => by cases h
  pending := fun _ h => by cases h
  stagedOnce := List.nodup_nil
  current := fun _ h => by cases h
  issued := ⟨List.nil_subset _, List.nil_subset _⟩
  apart := fun _ h => by cases h
  resets := List.nil_subset _
  consumed := fun _ h => by cases h

/-- A reset token that was replaced before it was presented sets no password. -/
theorem Inv.replaced (hs : Inv s) : ∀ t ∈ s.replaced, t ∉ s.resets :=
  fun t ht hreset => hs.apart t ht (hs.resets hreset)

/-! ## What a step is -/

inductive Effect (f : Folding) (s : State) : Action → State → Prop
  /-- Only the clock and the calls change. -/
  | kept (act : Action) (now : Timestamp) (calls : List Phase)
    (hknown : ∀ phase ∈ calls, Known s phase) (hread : CommitsRead s act) :
    Effect f s act { s with now := now, calls := calls }
  | staged (i : Nat) (newEmail token : String) (drawnAt : Timestamp)
    (hphase : s.calls[i]? = some (.setPending newEmail))
    (hfresh : token ∉ s.staged.map (·.token)) :
    Effect f s (.setPending i token drawnAt)
      { s.go i (.done (.ok (.staged newEmail))) with
        account := s.account.setPendingEmail f newEmail token (drawnAt + emailChangeTtl)
        staged := s.staged ++ [⟨f.sqlLower newEmail, token, drawnAt + emailChangeTtl⟩] }
  | committed (i : Nat) (token : String) (pendingEmail : Option String) (checkedAt : Timestamp)
    (hphase : s.calls[i]? = some (.commitPending token pendingEmail checkedAt)) :
    Effect f s (.commitPending i false)
      { s.go i (.done (.ok (.changed (pendingEmail.getD "")))) with
        account := s.account.commitPendingEmail s.now
        commits := s.commits ++ s.account.pendingEmail.toList.map fun e => ⟨e, token, checkedAt⟩ }
  | issued (i : Nat) (token : String) (drawnAt : Timestamp)
    (hphase : s.calls[i]? = some .setReset) (hfresh : token ∉ s.issued) :
    Effect f s (.setReset i token drawnAt)
      { s.go i (.done (.ok .sent)) with
        account := s.account.setPasswordResetToken token (drawnAt + passwordResetTtl)
        issued := s.issued ++ [token]
        replaced := s.replaced ++ s.replacing }
  | presented (i : Nat) (token newPassword : String)
    (hphase : s.calls[i]? = some (.findReset token newPassword))
    (hcurrent : s.account.passwordResetToken = some token) :
    Effect f s (.findReset i)
      { s.go i (.checkReset token newPassword s.account.passwordResetExpiresAt) with
        presented := s.presented ++ [token] }
  | completed (i : Nat) (token phc : String)
    (hphase : s.calls[i]? = some (.completeReset token phc)) :
    Effect f s (.completeReset i)
      { s.go i (.done (.ok .reset)) with
        account := s.account.completePasswordReset phc s.now
        resets := s.resets ++ [token] }

theorem known_set (hs : Inv s) {i : Nat} {phase : Phase} (h : Known s phase) :
    ∀ p ∈ s.calls.set i phase, Known s p := by
  intro p hp
  rcases List.mem_or_eq_of_mem_set hp with hp | rfl
  · exact hs.known p hp
  · exact h

/-- A call that goes on. -/
theorem effect_go (hs : Inv s) (hread : CommitsRead s act) {i : Nat} {phase : Phase}
    (h : Known s phase) : Effect f s act (s.go i phase) :=
  .kept act s.now (s.calls.set i phase) (known_set hs h) hread

theorem effect_findPending (hs : Inv s) {i : Nat} (h : step f s (.findPending i) = some s') :
    Effect f s (.findPending i) s' := by
  simp only [step] at h
  split at h
  · rename_i token hphase
    cases h
    apply effect_go hs (by trivial)
    split
    · rename_i htoken
      exact hs.pending token htoken
    · trivial
  · cases h

theorem effect_checkPending (hs : Inv s) {i : Nat} (h : step f s (.checkPending i) = some s') :
    Effect f s (.checkPending i) s' := by
  simp only [step] at h
  split at h
  · rename_i token pendingEmail expiresAt hphase
    cases h
    obtain ⟨exp, rfl, hstaged⟩ := hs.known _ (List.mem_of_getElem? hphase)
    apply effect_go hs (by trivial)
    split
    · trivial
    · rename_i hvalid
      obtain ⟨e, he, hle⟩ := of_not_expired (Bool.eq_false_iff.2 hvalid)
      cases he
      exact ⟨exp, hle, hstaged⟩
  · cases h

theorem effect_commitPending (hs : Inv s) {i : Nat} {taken : Bool}
    (h : step f s (.commitPending i taken) = some s') : Effect f s (.commitPending i taken) s' := by
  simp only [step] at h
  split at h
  · rename_i token pendingEmail checkedAt hphase
    split at h
    · rename_i htaken
      cases h
      have hread : CommitsRead s (.commitPending i taken) := by
        intro hfalse
        rw [htaken] at hfalse
        cases hfalse
      exact effect_go hs hread trivial
    · rename_i htaken
      cases h
      rw [Bool.eq_false_iff.2 htaken]
      exact .committed i token pendingEmail checkedAt hphase
  · cases h

theorem effect_findReset (hs : Inv s) {i : Nat} (h : step f s (.findReset i) = some s') :
    Effect f s (.findReset i) s' := by
  simp only [step] at h
  split at h
  · rename_i token newPassword hphase
    split at h
    · rename_i hcurrent
      cases h
      exact .presented i token newPassword hphase hcurrent
    · cases h
      exact effect_go hs (by trivial) trivial
  · cases h

theorem effect_checkReset (hs : Inv s) {i : Nat} {phc : Option String}
    (h : step f s (.checkReset i phc) = some s') : Effect f s (.checkReset i phc) s' := by
  simp only [step] at h
  split at h
  · rename_i token newPassword expiresAt hphase
    cases h
    have hpresented : token ∈ s.presented := hs.known _ (List.mem_of_getElem? hphase)
    apply effect_go hs (by trivial)
    split
    · trivial
    · split
      · exact hpresented
      · trivial
  · cases h

theorem effect_of_step (hs : Inv s) (h : step f s act = some s') : Effect f s act s' := by
  cases act with
  | wait d =>
    cases h
    exact .kept _ (s.now + d) s.calls hs.known trivial
  | request r =>
    cases h
    refine .kept _ s.now (s.calls ++ [r.entry f]) (fun phase hphase => ?_) trivial
    rcases List.mem_append.1 hphase with hphase | hphase
    · exact hs.known phase hphase
    · rw [List.mem_singleton.1 hphase]
      exact known_entry r
  | findByEmail i other =>
    simp only [step] at h
    split at h
    · cases h
      apply effect_go hs (by trivial)
      split <;> trivial
    · cases h
  | setPending i token drawnAt =>
    simp only [step] at h
    split at h
    · rename_i newEmail hphase
      split at h
      · rename_i hdraw
        cases h
        exact .staged i newEmail token drawnAt hphase hdraw.1
      · cases h
    · cases h
  | findPending i => exact effect_findPending hs h
  | checkPending i => exact effect_checkPending hs h
  | commitPending i taken => exact effect_commitPending hs h
  | findForReset i =>
    simp only [step] at h
    split at h
    · cases h
      apply effect_go hs (by trivial)
      split <;> trivial
    · cases h
  | setReset i token drawnAt =>
    simp only [step] at h
    split at h
    · rename_i hphase
      split at h
      · rename_i hdraw
        cases h
        exact .issued i token drawnAt hphase hdraw.1
      · cases h
    · cases h
  | findReset i => exact effect_findReset hs h
  | checkReset i phc => exact effect_checkReset hs h
  | completeReset i =>
    simp only [step] at h
    split at h
    · rename_i token phc hphase
      cases h
      exact .completed i token phc hphase
    · cases h
  | storeFails i =>
    simp only [step] at h
    split at h
    · rename_i phase hphase
      obtain ⟨phase', hphase', rfl⟩ := Option.map_eq_some_iff.1 h
      exact effect_go hs (by trivial) (known_storeFailed hphase')
    · cases h

/-! ## The invariant -/

theorem known_after (hs : Inv s) {i : Nat} {phase : Phase} (hcalls : s'.calls = s.calls.set i phase)
    (hstaged : s.staged ⊆ s'.staged) (hpresented : s.presented ⊆ s'.presented)
    (h : Known s' phase) : ∀ p ∈ s'.calls, Known s' p := by
  intro p hp
  rw [hcalls] at hp
  rcases List.mem_or_eq_of_mem_set hp with hp | rfl
  · exact (hs.known p hp).mono hstaged hpresented
  · exact h

theorem mem_replacing {t : String} :
    t ∈ s.replacing ↔ s.account.passwordResetToken = some t ∧ t ∉ s.presented := by
  simp only [State.replacing, List.mem_filter, Option.mem_toList, decide_eq_true_eq]

/-- The commit keeps the reset token, and what is pending or nothing. -/
theorem commitPendingEmail_cases (a : Account) (now : Timestamp) :
    (a.commitPendingEmail now).passwordResetToken = a.passwordResetToken ∧
      ((a.commitPendingEmail now).pendingEmailToken = none ∨ a.commitPendingEmail now = a) := by
  unfold Account.commitPendingEmail
  split
  · exact ⟨rfl, .inl rfl⟩
  · exact ⟨rfl, .inr rfl⟩

theorem inv_step (hs : Inv s) (h : step f s act = some s') : Inv s' := by
  cases effect_of_step hs h with
  | kept _ now calls hknown hread =>
    exact ⟨hknown, hs.pending, hs.stagedOnce, hs.current, hs.issued, hs.apart, hs.resets,
      hs.consumed⟩
  | staged i newEmail token drawnAt hphase hfresh =>
    have hstaged : s.staged ⊆
        s.staged ++ [⟨f.sqlLower newEmail, token, drawnAt + emailChangeTtl⟩] :=
      List.subset_append_left ..
    refine ⟨known_after hs rfl hstaged (List.Subset.refl _) trivial, ?_, ?_, hs.current, hs.issued,
      hs.apart, hs.resets, hs.consumed⟩
    · intro t ht
      cases ht
      exact ⟨_, rfl, _, List.mem_append_right _ (List.mem_singleton_self _), rfl, rfl, rfl⟩
    · rw [List.map_append]
      exact hs.stagedOnce.append (List.nodup_singleton _) (List.disjoint_singleton.2 hfresh)
  | committed i token pendingEmail checkedAt hphase =>
    obtain ⟨hreset, hpending⟩ := commitPendingEmail_cases s.account s.now
    refine ⟨known_after hs rfl (List.Subset.refl _) (List.Subset.refl _) trivial, ?_,
      hs.stagedOnce, ?_, hs.issued, hs.apart, hs.resets, ?_⟩
    · intro t ht
      rcases hpending with hnone | hsame
      · rw [hnone] at ht
        cases ht
      · simp only [hsame] at ht ⊢
        exact hs.pending t ht
    · intro t ht
      rw [hreset] at ht
      exact hs.current t ht
    · intro t ht
      rw [hreset]
      exact hs.consumed t ht
  | issued i token drawnAt hphase hfresh =>
    refine ⟨known_after hs rfl (List.Subset.refl _) (List.Subset.refl _) trivial, hs.pending,
      hs.stagedOnce, ?_, ⟨?_, ?_⟩, ?_, hs.resets, ?_⟩
    · intro t ht
      cases ht
      refine ⟨List.mem_append_right _ (List.mem_singleton_self _), fun hreplaced => ?_⟩
      rcases List.mem_append.1 hreplaced with hold | hnow
      · exact hfresh (hs.issued.2 hold)
      · exact hfresh (hs.current _ (mem_replacing.1 hnow).1).1
    · exact List.subset_append_of_subset_left _ hs.issued.1
    · intro t ht
      apply List.mem_append_left
      rcases List.mem_append.1 ht with hold | hnow
      · exact hs.issued.2 hold
      · exact (hs.current t (mem_replacing.1 hnow).1).1
    · intro t ht
      rcases List.mem_append.1 ht with hold | hnow
      · exact hs.apart t hold
      · exact (mem_replacing.1 hnow).2
    · rintro t ht heq
      cases heq
      exact hfresh (hs.issued.1 (hs.resets ht))
  | presented i token newPassword hphase hcurrent =>
    have hpresented := List.subset_append_left s.presented [token]
    have hlast := List.mem_append_right s.presented (List.mem_singleton_self token)
    refine ⟨known_after hs rfl (List.Subset.refl _) hpresented hlast, hs.pending, hs.stagedOnce,
      hs.current, ⟨?_, hs.issued.2⟩, ?_, List.Subset.trans hs.resets hpresented, hs.consumed⟩
    · intro t ht
      rcases List.mem_append.1 ht with hold | hnew
      · exact hs.issued.1 hold
      · rw [List.mem_singleton.1 hnew]
        exact (hs.current token hcurrent).1
    · intro t ht hmem
      rcases List.mem_append.1 hmem with hold | hnew
      · exact hs.apart t ht hold
      · rw [List.mem_singleton.1 hnew] at ht
        exact (hs.current token hcurrent).2 ht
  | completed i token phc hphase =>
    have hknown : token ∈ s.presented := hs.known _ (List.mem_of_getElem? hphase)
    refine ⟨known_after hs rfl (List.Subset.refl _) (List.Subset.refl _) trivial, hs.pending,
      hs.stagedOnce, ?_, hs.issued, hs.apart, ?_, nofun⟩
    · intro t ht
      cases ht
    · intro t ht
      rcases List.mem_append.1 ht with hold | hnew
      · exact hs.resets hold
      · rw [List.mem_singleton.1 hnew]
        exact hknown

/-! ## The two races -/

/-- The commits after one: what is pending, by the token of the call. -/
theorem mem_commits {commits : List Commit} {pendingEmail : Option String} {token : String}
    {checkedAt : Timestamp} {c : Commit} :
    c ∈ commits ++ pendingEmail.toList.map (fun e => ⟨e, token, checkedAt⟩) ↔
      c ∈ commits ∨ pendingEmail = some c.email ∧ c.token = token ∧ c.checkedAt = checkedAt := by
  rw [List.mem_append, List.mem_map]
  refine or_congr_right ⟨?_, ?_⟩
  · rintro ⟨e, he, rfl⟩
    exact ⟨Option.mem_toList.1 he, rfl, rfl⟩
  · rintro ⟨hemail, rfl, rfl⟩
    exact ⟨c.email, Option.mem_toList.2 hemail, rfl⟩

/-- A commit takes the address that its token was mailed to exactly when that one, or nothing, is
staged. -/
theorem mailed_commit_iff (hs : Inv s) (hmailed : Mailed s) {i : Nat}
    (h : step f s (.commitPending i false) = some s') :
    Mailed s' ↔ CommitsRead s (.commitPending i false) := by
  cases effect_of_step hs h with
  | kept _ now calls hknown hread => exact iff_of_true hmailed hread
  | committed i token pendingEmail checkedAt hphase =>
    obtain ⟨exp, hle, m, hm, rfl, rfl, rfl⟩ := hs.known _ (List.mem_of_getElem? hphase)
    have hread : CommitsRead s (.commitPending i false) ↔
        s.account.pendingEmail = none ∨ s.account.pendingEmail = some m.email := by
      simp [CommitsRead, hphase, Phase.committing]
    rw [hread]
    constructor
    · intro hafter
      cases hpending : s.account.pendingEmail with
      | none => exact .inl rfl
      | some e =>
        obtain ⟨m', hm', hemail, htoken, -⟩ := hafter ⟨e, m.token, checkedAt⟩
          (mem_commits.2 (.inr ⟨hpending, rfl, rfl⟩))
        -- the token was staged once
        have hsame : m' = m := List.inj_on_of_nodup_map hs.stagedOnce hm' hm htoken
        rw [hsame] at hemail
        exact .inr (congrArg some hemail.symm)
    · intro hstill c hc
      rcases mem_commits.1 hc with hold | ⟨hemail, htoken, hat⟩
      · exact hmailed c hold
      · rcases hstill with hnone | hsame
        · rw [hnone] at hemail
          cases hemail
        · rw [hsame] at hemail
          exact ⟨m, hm, Option.some.inj hemail, htoken.symm, hat ▸ hle⟩

theorem mailed_step (hs : Inv s) (hmailed : Mailed s) (hok : CommitsRead s act)
    (h : step f s act = some s') : Mailed s' := by
  cases effect_of_step hs h with
  | committed => exact (mailed_commit_iff hs hmailed h).2 hok
  | staged =>
    intro c hc
    obtain ⟨m, hm, hrest⟩ := hmailed c hc
    exact ⟨m, List.mem_append_left _ hm, hrest⟩
  | _ => exact hmailed

/-- A commit of what its call has not read breaks the law. -/
theorem commitsRead_of_mailed (hs : Inv s) (hmailed : Mailed s) (h : step f s act = some s')
    (hafter : Mailed s') : CommitsRead s act := by
  cases act with
  | commitPending i taken =>
    cases taken with
    | true =>
      intro hfalse
      cases hfalse
    | false => exact (mailed_commit_iff hs hmailed h).1 hafter
  | _ => trivial

/-- The write of a reset consumes its token, so a token that is still in the row has set no
password. -/
theorem once_step (hs : Inv s) (honce : s.resets.Nodup) (hok : StillStaged s act)
    (h : step f s act = some s') : s'.resets.Nodup := by
  cases effect_of_step hs h with
  | completed i token phc hphase =>
    have hrow : s.account.passwordResetToken = some token :=
      hok (.completeReset token phc) hphase token rfl
    have hfirst : token ∉ s.resets := fun hmem => hs.consumed token hmem hrow
    exact honce.append (List.nodup_singleton _) (List.disjoint_singleton.2 hfirst)
  | _ => exact honce

theorem mailed_start (email phc : String) (now : Timestamp) : Mailed (.start email phc now) :=
  fun _ h => (List.not_mem_nil h).elim

/-- **A mailed token proves what it was mailed for**: in exactly the runs where no other address
is staged between a verification's lookup and its commit, an address becomes the account's by its
own token; where each reset still finds its token in the row, a token sets the password once; and
in every run a token that was replaced before it was presented never does. -/
theorem proves_of_unraced (f : Folding) (email phc : String) (now : Timestamp) :
    (∀ as, Trans.AllStates (step f) Mailed (.start email phc now) as ↔
      Trans.AllSteps (step f) CommitsRead (.start email phc now) as) ∧
    (∀ s, Trans.Reach (step f) StillStaged (.start email phc now) s → ResetOnce s) ∧
    ∀ s, Trans.Reach (step f) Trans.always (.start email phc now) s →
      ∀ t ∈ s.replaced, t ∉ s.resets := by
  have hstart : Inv (.start email phc now) := inv_start email phc now
  refine ⟨fun as => ?_, fun s h => ?_, fun s h => ?_⟩
  · exact Trans.allStates_iff (I := fun s => Inv s ∧ Mailed s) (fun _ hs => hs.2)
      (fun _ _ _ hs h hok => ⟨inv_step hs.1 h, mailed_step hs.1 hs.2 hok h⟩)
      (fun _ _ _ hs h hraced hafter => hraced (commitsRead_of_mailed hs.1 hs.2 h hafter)) as
      ⟨hstart, mailed_start email phc now⟩
  · have hs : Inv s ∧ s.resets.Nodup := h.inv (I := fun s => Inv s ∧ s.resets.Nodup)
      ⟨hstart, List.nodup_nil⟩
      fun _ _ _ hs hok hstep => ⟨inv_step hs.1 hstep, once_step hs.1 hs.2 hok hstep⟩
    exact ⟨hs.2, hs.1.replaced⟩
  · have hs : Inv s := h.inv hstart fun _ _ _ hs _ hstep => inv_step hs hstep
    exact hs.replaced

/-! ## Runs -/

def asciiFolding : Folding := ⟨Text.lower, Text.lower⟩

/-- Ann takes a new address, and of two reset tokens she uses the second. -/
def verifiedAndReset : List Action :=
  [.request (.emailChangeStart "new@x"), .findByEmail 0 false, .setPending 0 "t" 0,
    .request (.emailChangeVerify "t"), .findPending 1, .checkPending 1, .commitPending 1 false,
    .request (.passwordResetStart "new@x"), .findForReset 2, .setReset 2 "r" 0,
    .request (.passwordResetStart "new@x"), .findForReset 3, .setReset 3 "u" 0,
    .request (.passwordResetComplete "u" "correct horse"), .findReset 4, .checkReset 4 (some "p"),
    .completeReset 4]

theorem proves_of_unraced_ann :
    ∃ s, Trans.Reach (step asciiFolding) StillStaged (.start "ann@x" "phc" 0) s ∧
      (s.account.email = "new@x" ∧ s.replaced = ["r"] ∧ s.resets = ["u"]) ∧
      Mailed s ∧ ResetOnce s := by
  have hread : (Trans.exec (step asciiFolding) CommitsRead (.start "ann@x" "phc" 0)
      verifiedAndReset).isSome = true := by decide
  have hrun : (Trans.exec (step asciiFolding) StillStaged (.start "ann@x" "phc" 0)
      verifiedAndReset).map (fun s => (s.account.email, s.replaced, s.resets)) =
      some ("new@x", ["r"], ["u"]) := by decide
  obtain ⟨s, hs, hend⟩ := Option.map_eq_some_iff.1 hrun
  simp only [Prod.mk.injEq] at hend
  have hreach := Trans.reach_of_exec _ hs
  obtain ⟨hmailed, honce, -⟩ := proves_of_unraced asciiFolding "ann@x" "phc" 0
  have hall := (hmailed verifiedAndReset).2 (Trans.allSteps_of_exec _ hread)
  have hplain : Trans.exec (step asciiFolding) Trans.always (.start "ann@x" "phc" 0)
      verifiedAndReset = Trans.exec (step asciiFolding) StillStaged (.start "ann@x" "phc" 0)
        verifiedAndReset := by decide
  exact ⟨s, hreach, hend, hall.of_exec (hplain.trans hs), honce s hreach⟩

/-- Ann verifies the address that was mailed to her while a change to Bea's is staged. -/
def restagedBeforeCommit : List Action :=
  [.request (.emailChangeStart "new@x"), .findByEmail 0 false, .setPending 0 "t" 0,
    .request (.emailChangeVerify "t"), .findPending 1, .checkPending 1,
    .request (.emailChangeStart "bea@x"), .findByEmail 2 false, .setPending 2 "u" 0,
    .commitPending 1 false]

/-- Two resets with one token. -/
def resetTwice : List Action :=
  [.request (.passwordResetStart "ann@x"), .findForReset 0, .setReset 0 "t" 0,
    .request (.passwordResetComplete "t" "correct horse"),
    .request (.passwordResetComplete "t" "battery staple"), .findReset 1, .findReset 2,
    .checkReset 1 (some "p"), .checkReset 2 (some "q"), .completeReset 1, .completeReset 2]

theorem races_break_both :
    (¬ ∀ as, Trans.AllStates (step asciiFolding) Mailed (.start "ann@x" "phc" 0) as) ∧
    ¬ ∀ as, Trans.AllStates (step asciiFolding) ResetOnce (.start "ann@x" "phc" 0) as := by
  constructor
  · intro h
    have hrun : (Trans.exec (step asciiFolding) Trans.always (.start "ann@x" "phc" 0)
        restagedBeforeCommit).map (fun s => (s.staged.map fun m => (m.email, m.token),
          s.commits.map fun c => (c.email, c.token))) =
        some ([("new@x", "t"), ("bea@x", "u")], [("bea@x", "t")]) := by decide +kernel
    obtain ⟨s, hs, hend⟩ := Option.map_eq_some_iff.1 hrun
    obtain ⟨hstaged, hcommits⟩ := Prod.mk.inj hend
    have hmailed := Trans.AllStates.of_exec (h restagedBeforeCommit) hs
    obtain ⟨c, hc, hpair⟩ := List.mem_map.1
      (hcommits ▸ List.mem_singleton_self _ : ("bea@x", "t") ∈ s.commits.map fun c =>
        (c.email, c.token))
    obtain ⟨m, hm, hemail, htoken, -⟩ := hmailed c hc
    have hin : (m.email, m.token) ∈ [("new@x", "t"), ("bea@x", "u")] :=
      hstaged ▸ List.mem_map.2 ⟨m, hm, rfl⟩
    rw [hemail, htoken, hpair] at hin
    simp at hin
  · intro h
    have hrun : (Trans.exec (step asciiFolding) Trans.always (.start "ann@x" "phc" 0)
        resetTwice).map (·.resets) = some ["t", "t"] := by decide +kernel
    obtain ⟨s, hs, hresets⟩ := Option.map_eq_some_iff.1 hrun
    have honce := (Trans.AllStates.of_exec (h resetTwice) hs).once
    rw [hresets] at honce
    simp at honce

end MailedTokens

end StarStats
