import StarStats.Server.Totp
import Mathlib.Data.List.Perm.Basic

/-!
# How many wrong codes are compared

`Inv`: the failures that count and the requests under way are at most `totpMaxFails` together, and
every wrong code is among them. Steps that meet `Counted` keep it (`inv_step`); without that, a
request that `is_locked` let through is counted too late (`seven_codes_compared`).
-/

namespace StarStats.Totp

/-- The request compared a wrong code and has not recorded it. -/
def Phase.isWrong : Phase → Bool
  | .compared _ false => true
  | _ => false

/-- The wrong codes that are not recorded yet. -/
def State.pending (s : State) : Nat := s.requests.countP Phase.isWrong

structure Inv (userId : Uuid) (s : State) : Prop where
  bound : s.liveFails userId + s.requests.length ≤ totpMaxFails
  counted : s.wrong ≤ s.liveFails userId + s.pending

/-! ## Requests -/

theorem countP_eraseIdx {α : Type} {l : List α} {i : Nat} {a : α} (h : l[i]? = some a)
    (p : α → Bool) : l.countP p = (l.eraseIdx i).countP p + if p a then 1 else 0 := by
  obtain ⟨hi, rfl⟩ := List.getElem?_eq_some_iff.1 h
  rw [← (List.getElem_cons_eraseIdx_perm hi).countP_eq p, List.countP_cons]

theorem length_eraseIdx_of_getElem? {α : Type} {l : List α} {i : Nat} {a : α}
    (h : l[i]? = some a) : (l.eraseIdx i).length + 1 = l.length := by
  obtain ⟨hi, -⟩ := List.getElem?_eq_some_iff.1 h
  exact List.length_eraseIdx_add_one hi

section
variable {userId : Uuid}

/-! ## The limiter -/

/-- As time passes a window stays closed. -/
theorem isLive_anti {e : AttemptState} {now : Timestamp} {d : Nat}
    (h : e.isLive (now + d) = true) : e.isLive now = true := by
  simp only [AttemptState.isLive, decide_eq_true_eq] at h ⊢
  have hle : now ≤ now + (d : Int) := Int.le_add_of_nonneg_right (Int.natCast_nonneg d)
  exact Int.lt_of_le_of_lt (Int.sub_le_sub_right hle e.windowStart) h

theorem openAttempt_fails {env : VerifyEnv} {auth : AuthenticatedUser} (s : State)
    (hu : env.parseUuid auth.sub = some userId) :
    { s with limiter := (openAttempt env s.now s.limiter auth).2 }.liveFails userId =
      s.liveFails userId := by
  unfold openAttempt
  split
  · rfl
  · simp only [hu, State.liveFails, if_pos, isLocked]
    cases h : s.limiter userId with
    | none => rfl
    | some e =>
      dsimp only
      by_cases hl : e.isLive s.now = true
      · simp [hl]
      · simp [hl]

/-- A request that is let through finds fewer failures than the limit. -/
theorem openAttempt_ok {env : VerifyEnv} {auth : AuthenticatedUser} {s : State} {u : Uuid}
    (hu : env.parseUuid auth.sub = some userId)
    (h : (openAttempt env s.now s.limiter auth).1 = .ok u) :
    s.liveFails userId < totpMaxFails := by
  unfold openAttempt at h
  split at h
  · cases h
  · simp only [hu] at h
    split at h
    · cases h
    · rename_i hlock
      unfold State.liveFails
      simp only [isLocked] at hlock
      cases he : s.limiter userId with
      | none => exact Nat.zero_lt_succ 4
      | some e =>
        rw [he] at hlock
        dsimp only at hlock ⊢
        by_cases hl : e.isLive s.now = true
        · simpa [hl] using hlock
        · simp [hl, totpMaxFails]

theorem closeAttempt_matched (userId : Uuid) (env : VerifyEnv) (s : State) (handle : String) :
    { s with limiter := (closeAttempt env s.now s.limiter userId handle true).2 }.liveFails userId =
      0 := by
  simp [closeAttempt, State.liveFails, recordSuccess]

theorem isLive_self (n : Nat) (now : Timestamp) : (AttemptState.mk n now).isLive now = true := by
  simp [AttemptState.isLive, totpLockoutWindow]

theorem closeAttempt_failed (userId : Uuid) (env : VerifyEnv) (s : State) (handle : String) :
    { s with limiter := (closeAttempt env s.now s.limiter userId handle false).2 }.liveFails userId =
      s.liveFails userId + 1 := by
  simp only [closeAttempt, State.liveFails, recordFailure, Bool.false_eq_true, if_false, if_pos]
  cases he : s.limiter userId with
  | none => simp [isLive_self]
  | some e =>
    by_cases hl : e.isLive s.now = true
    · have hl' : (AttemptState.mk (e.fails + 1) e.windowStart).isLive s.now = true := hl
      simp [hl, hl']
    · simp [hl, isLive_self]

/-! ## One step -/

theorem inv_wait {s : State} {d : Nat} {s' : State} (hs : Inv userId s)
    (h : step userId s (.wait d) = some s') : Inv userId s' := by
  obtain ⟨hb, hc⟩ := hs
  cases h
  cases he : s.limiter userId with
  | none =>
    simp only [State.liveFails, State.pending, he] at hb hc
    constructor
    · simpa [State.liveFails, he] using hb
    · simpa [State.liveFails, State.windowOpen, State.pending, he] using hc
  | some e =>
    simp only [State.liveFails, State.pending, he] at hb hc
    by_cases hl' : e.isLive (s.now + d) = true
    · have hl := isLive_anti hl'
      simp only [hl, if_true] at hb hc
      constructor
      · simpa [State.liveFails, he, hl'] using hb
      · simpa [State.liveFails, State.windowOpen, State.pending, he, hl, hl'] using hc
    · by_cases hl : e.isLive s.now = true
      · simp only [hl, if_true] at hb
        constructor
        · simp only [State.liveFails, he, hl']
          simp only [Bool.false_eq_true, if_false]
          omega
        · simp [State.windowOpen, he, hl, hl']
      · simp only [hl] at hb hc
        constructor
        · simpa [State.liveFails, he, hl'] using hb
        · simpa [State.liveFails, State.windowOpen, State.pending, he, hl, hl'] using hc

theorem inv_begin {s : State} {env : VerifyEnv} {auth : AuthenticatedUser} {s' : State}
    (hs : Inv userId s) (hok : Counted userId s (.begin env auth))
    (h : step userId s (.begin env auth) = some s') : Inv userId s' := by
  obtain ⟨hb, hc⟩ := hs
  simp only [step] at h
  split at h
  · cases h
  · rename_i hu
    rw [not_not] at hu
    have hfails := openAttempt_fails s hu
    split at h
    · rename_i r limiter hopen
      rw [hopen] at hfails
      cases h
      exact ⟨hfails ▸ hb, hfails ▸ hc⟩
    · rename_i u limiter hopen
      have hlt := openAttempt_ok (s := s) hu (congrArg Prod.fst hopen)
      rw [hopen] at hfails
      have hroom : s.liveFails userId + s.requests.length < totpMaxFails := by
        rcases hok with hge | hroom
        · omega
        · exact hroom
      cases h
      constructor
      · change State.liveFails userId { s with limiter := limiter } + _ ≤ _
        rw [hfails, List.length_append]
        exact hroom
      · change s.wrong ≤ State.liveFails userId { s with limiter := limiter } + _
        rw [hfails]
        simpa [State.pending, Phase.isWrong] using hc

theorem inv_check {s : State} {i : Nat} {env : VerifyEnv} {code : String} {s' : State}
    (hs : Inv userId s) (h : step userId s (.check i env code) = some s') : Inv userId s' := by
  obtain ⟨hb, hc⟩ := hs
  simp only [step] at h
  split at h
  · rename_i hreq
    split at h
    · cases h
      have hlen := length_eraseIdx_of_getElem? hreq
      have hcount := countP_eraseIdx hreq Phase.isWrong
      simp only [Phase.isWrong, Bool.false_eq_true, if_false, Nat.add_zero] at hcount
      constructor
      · show s.liveFails userId + (s.requests.eraseIdx i).length ≤ _
        omega
      · show s.wrong ≤ s.liveFails userId + (s.requests.eraseIdx i).countP Phase.isWrong
        exact hcount ▸ hc
    · rename_i handle matched _
      cases h
      obtain ⟨hi, hget⟩ := List.getElem?_eq_some_iff.1 hreq
      have hset := List.countP_set (p := Phase.isWrong) (a := .compared handle matched) hi
      rw [hget] at hset
      constructor
      · show s.liveFails userId + (s.requests.set i _).length ≤ _
        rw [List.length_set]
        exact hb
      · show (if matched then s.wrong else s.wrong + 1) ≤
          s.liveFails userId + (s.requests.set i (.compared handle matched)).countP Phase.isWrong
        unfold State.pending at hc
        cases matched with
        | true =>
          simp only [Phase.isWrong, Bool.false_eq_true, if_false] at hset
          simp only [if_true]
          omega
        | false =>
          simp only [Phase.isWrong, Bool.false_eq_true, if_false, if_true] at hset
          simp only [Bool.false_eq_true, if_false]
          omega
  · cases h

theorem inv_record {s : State} {i : Nat} {env : VerifyEnv} {s' : State} (hs : Inv userId s)
    (h : step userId s (.record i env) = some s') : Inv userId s' := by
  obtain ⟨hb, hc⟩ := hs
  simp only [step] at h
  split at h
  · rename_i handle matched hreq
    cases h
    have hlen := length_eraseIdx_of_getElem? hreq
    have hcount := countP_eraseIdx hreq Phase.isWrong
    cases matched with
    | true =>
      have hfails := closeAttempt_matched userId env s handle
      constructor
      · show State.liveFails userId { s with limiter := _ } + (s.requests.eraseIdx i).length ≤ _
        rw [hfails]
        omega
      · exact Nat.zero_le _
    | false =>
      have hfails := closeAttempt_failed userId env s handle
      simp only [Phase.isWrong, if_true] at hcount
      unfold State.pending at hc
      constructor
      · show State.liveFails userId { s with limiter := _ } + (s.requests.eraseIdx i).length ≤ _
        rw [hfails]
        omega
      · show s.wrong ≤ State.liveFails userId { s with limiter := _ } +
          (s.requests.eraseIdx i).countP Phase.isWrong
        rw [hfails]
        omega
  · cases h

theorem inv_step {s : State} {a : Action} {s' : State} (hs : Inv userId s)
    (hok : Counted userId s a) (h : step userId s a = some s') : Inv userId s' := by
  cases a with
  | wait d => exact inv_wait hs h
  | begin env auth => exact inv_begin hs hok h
  | check i env code => exact inv_check hs h
  | record i env => exact inv_record hs h

end

theorem inv_start (userId : Uuid) (now : Timestamp) : Inv userId (.start now) :=
  ⟨Nat.zero_le _, Nat.zero_le _⟩

/-- **The limit.** When no request is let through that could be one too many with those under way,
at most `totpMaxFails` wrong codes are compared in a window. -/
theorem wrong_le_max (userId : Uuid) {now : Timestamp} {s : State}
    (h : Trans.Reach (step userId) (Counted userId) (.start now) s) : s.wrong ≤ totpMaxFails := by
  obtain ⟨hb, hc⟩ := h.inv (inv_start userId now) fun _ _ _ hs hok hstep => inv_step hs hok hstep
  have hpending : s.pending ≤ s.requests.length := List.countP_le_length
  omega

/-! ## Concrete runs -/

/-- A user whose codes never match. -/
def guesserEnv : VerifyEnv where
  parseUuid := some
  findById _ := .ok (some ("alice", true))
  decryptUserSecret _ := .ok (some [])
  verifyNow _ _ := false
  redeem _ _ := .ok false
  signUser _ _ := none

def interim : AuthenticatedUser := ⟨"u1", "alice", .loginInterim, none⟩

/-- Guesses one after the other. -/
def guesses (n : Nat) : List Action :=
  (List.range n).flatMap fun _ =>
    [.begin guesserEnv interim, .check 0 guesserEnv "000000", .record 0 guesserEnv]

instance (userId : Uuid) : DecidableRel (Counted userId)
  | _, .wait _ => .isTrue trivial
  | _, .begin _ _ => inferInstanceAs (Decidable (_ ∨ _))
  | _, .check _ _ _ => .isTrue trivial
  | _, .record _ _ => .isTrue trivial

theorem wrong_le_max_guesses : ∃ s, Trans.Reach (step "u1") (Counted "u1") (.start 0) s ∧
    s.wrong = 5 ∧ s.wrong ≤ totpMaxFails := by
  have hrun : (Trans.exec (step "u1") (Counted "u1") (.start 0) (guesses 5)).map (·.wrong) =
      some 5 := by
    decide +kernel
  obtain ⟨s, hreach, hs⟩ := Trans.reach_of_map_exec _ hrun
  exact ⟨s, hreach, hs, wrong_le_max "u1" hreach⟩

/-- Seven requests pass `is_locked`; the first is compared and recorded, then the others. -/
def burst : List Action :=
  List.replicate 7 (Action.begin guesserEnv interim) ++ [Action.check 0 guesserEnv "000000",
    .record 0 guesserEnv] ++ (List.range 6).map fun i => Action.check i guesserEnv "000000"

theorem seven_codes_compared :
    ¬ ∀ (userId : Uuid) (now : Timestamp) (s : State),
      Trans.Reach (step userId) Trans.always (.start now) s → s.wrong ≤ totpMaxFails := by
  intro h
  have hrun : (Trans.exec (step "u1") Trans.always (.start 0) burst).map (·.wrong) = some 7 := by
    decide +kernel
  obtain ⟨s, hreach, hs⟩ := Trans.reach_of_map_exec _ hrun
  have hle := h "u1" 0 s hreach
  rw [hs] at hle
  exact absurd hle (by decide)

end StarStats.Totp
