import StarStats.Server.Waitlist

/-!
# The cap of the waitlist

`Effect` is what a step can be. The advisory lock keeps the signups apart (`mutex_step`), so that
only `admit_batch` can take a place between the count of a signup and its commit.
`capHeld_of_leavesRoom`: automatic admissions keep the cap in every run in which it leaves that
place alone.
-/

namespace StarStats

namespace Waitlist

variable {s s' : State} {act : Action}

/-! ## What a step is -/

inductive Effect (s : State) : Action → State → Prop
  | began (email : String) (source : Option String) (now : Timestamp) :
    Effect s (.signup email source now)
      { s with calls := s.calls ++ [⟨email, source, now, .lock⟩] }
  | locked (i : Nat) (id : Uuid) (token : String) (c : Call) (hc : s.calls[i]? = some c)
    (hphase : c.phase = .lock) (hfree : s.lock = none) :
    Effect s (.next i id token)
      { s with lock := some i, calls := s.calls.set i { c with phase := .lookup } }
  | went (i : Nat) (id : Uuid) (token : String) (c : Call) (hc : s.calls[i]? = some c)
    (hholding : c.phase.holding = true) (hopen : ∀ new outcome, c.phase ≠ .commit new outcome)
    (hfresh : s.table.signups.get id = none) :
    Effect s (.next i id token)
      { s with
        calls := s.calls.set i { c with phase := signupStep s.cap s.table c id token c.phase } }
  | committed (i : Nat) (id : Uuid) (token : String) (c : Call) (new : Option Row)
    (outcome : SignupOutcome) (hc : s.calls[i]? = some c)
    (hphase : c.phase = .commit new outcome) :
    Effect s (.next i id token) (s.commit i c new outcome)
  | failed (i : Nat) (c : Call) (hc : s.calls[i]? = some c) :
    Effect s (.fail i)
      { s with
        lock := if s.lock = some i then none else s.lock
        calls := s.calls.set i { c with phase := .failed } }
  | invited (id : Uuid) (token : String) (now : Timestamp) :
    Effect s (.admitId id token now) { s with table := s.table.admitId id token now }
  | deleted (ids : List Uuid) :
    Effect s (.deleteBatch ids) { s with table := s.table.deleteBatch ids }

theorem effect_of_step (h : step s act = some s') : Effect s act s' := by
  cases act with
  | signup email source now =>
    cases h
    exact .began email source now
  | next i id token =>
    cases hc : s.calls[i]? with
    | none => simp [step, hc] at h
    | some c =>
      have hwent (hholding : c.phase.holding = true)
          (hopen : ∀ new outcome, c.phase ≠ .commit new outcome)
          (h' : (if s.table.signups.get id = none then
            some { s with
              calls := s.calls.set i
                { c with phase := signupStep s.cap s.table c id token c.phase } }
            else none) = some s') : Effect s (.next i id token) s' := by
        split at h'
        · rename_i hfresh
          cases h'
          exact .went i id token c hc hholding hopen hfresh
        · cases h'
      simp only [step, hc] at h
      cases hphase : c.phase with
      | lock =>
        simp only [hphase] at h
        split at h
        · rename_i hfree
          cases h
          exact .locked i id token c hc hphase hfree
        · cases h
      | commit new outcome =>
        simp only [hphase] at h
        cases h
        exact .committed i id token c new outcome hc hphase
      | committed outcome => simp [hphase] at h
      | failed => simp [hphase] at h
      | _ =>
        apply hwent
        · rw [hphase]
          rfl
        · rw [hphase]
          simp
        · simp only [hphase] at h ⊢
          exact h
  | fail i =>
    cases hc : s.calls[i]? with
    | none => simp [step, hc] at h
    | some c =>
      simp only [step, hc] at h
      split at h
      · cases h
      · cases h
        exact .failed i c hc
  | admitId id token now =>
    cases h
    exact .invited id token now
  | deleteBatch ids =>
    cases h
    exact .deleted ids

section
variable (cap k : Int) (t : Table) (c : Call) (id : Uuid) (token : String)

theorem lookup_cases :
    (∃ r, t.find c.email = some r ∧ r.isAdmitted = true ∧
      signupStep cap t c id token .lookup = .commit none .alreadyAdmitted) ∨
    (∃ r, t.find c.email = some r ∧ r.isQueued = true ∧
      signupStep cap t c id token .lookup = .locate r.id) ∨
    (t.find c.email = none ∧ signupStep cap t c id token .lookup = .readCap) := by
  cases hfind : t.find c.email with
  | none => exact .inr (.inr ⟨rfl, by simp only [signupStep, hfind]⟩)
  | some r =>
    cases hr : r.admittedAt with
    | none =>
      refine .inr (.inl ⟨r, rfl, ?_, ?_⟩)
      · rw [Row.isQueued, hr]
        rfl
      · simp [signupStep, hfind, hr]
    | some admittedAt =>
      refine .inl ⟨r, rfl, ?_, ?_⟩
      · rw [Row.isAdmitted, hr]
        rfl
      · simp [signupStep, hfind, hr]

theorem insert_cases (n : Nat) :
    ((n : Int) < k ∧ signupStep cap t c id token (.insert k n) =
      .commit (some (c.row id (some token))) (.admitted token)) ∨
    (k ≤ n ∧ signupStep cap t c id token (.insert k n) = .position (c.row id none)) := by
  by_cases hlt : (n : Int) < k
  · exact .inl ⟨hlt, if_pos hlt⟩
  · exact .inr ⟨Int.not_lt.1 hlt, if_neg hlt⟩

end

/-! ## The lock -/

/-- Only the call that has the lock is between the lock and its end. -/
def Mutex (s : State) : Prop :=
  ∀ (i : Nat) (c : Call), s.calls[i]? = some c → c.phase.holding = true → s.lock = some i

theorem mutex_step (hs : Mutex s) (h : step s act = some s') : Mutex s' := by
  intro j d hj hd
  cases effect_of_step h with
  | began email source now =>
    rcases Calls.of_push hj with ⟨-, rfl⟩ | hj
    · cases hd
    · exact hs j d hj hd
  | locked i id token c hc hphase hfree =>
    rcases Calls.of_set hj with ⟨rfl, rfl⟩ | ⟨-, hj⟩
    · rfl
    · rw [hs j d hj hd] at hfree
      cases hfree
  | went i id token c hc hholding hopen hfresh =>
    rcases Calls.of_set hj with ⟨rfl, rfl⟩ | ⟨-, hj⟩
    · exact hs j c hc hholding
    · exact hs j d hj hd
  | committed i id token c new outcome hc hphase =>
    rcases Calls.of_set hj with ⟨rfl, rfl⟩ | ⟨hne, hj⟩
    · cases hd
    · have hi := hs i c hc (by rw [hphase]; rfl)
      rw [hs j d hj hd] at hi
      exact absurd (Option.some.inj hi) hne
  | failed i c hc =>
    rcases Calls.of_set hj with ⟨rfl, rfl⟩ | ⟨hne, hj⟩
    · cases hd
    · have hlock := hs j d hj hd
      show (if s.lock = some i then none else s.lock) = some j
      rw [if_neg]
      · exact hlock
      · rw [hlock]
        exact fun heq => hne (Option.some.inj heq)
  | invited => exact hs j d hj hd
  | deleted => exact hs j d hj hd

/-- While a signup holds the lock, the others wait for it or have ended. -/
theorem not_holding_of_ne (hs : Mutex s) {i j : Nat} {c d : Call} (hi : s.calls[i]? = some c)
    (hc : c.phase.holding = true) (hj : s.calls[j]? = some d) (hne : j ≠ i) :
    d.phase.holding = false := by
  rw [Bool.eq_false_iff]
  intro hd
  have hlock := hs i c hi hc
  rw [hs j d hj hd] at hlock
  exact hne (Option.some.inj hlock)

/-! ## The admitted rows -/

section
variable {t : Table} {id : Uuid} {token : String} {now : Timestamp}

theorem admitted_deleteBatch (t : Table) (ids : List Uuid) :
    (t.deleteBatch ids).admitted ≤ t.admitted :=
  List.filter_sublist.countP_le

/-- An admitted id counts once, and only if it was queued. -/
theorem admitted_admitId :
    (t.admitId id token now).admitted =
      t.admitted + ((t.signups.get id).any (·.isQueued)).toNat := by
  cases hget : t.signups.get id with
  | none =>
    have hrows : (t.signups.modify id (Table.invited token now) (Table.id_invited token now)).rows =
        t.signups.rows := Keyed.modify_of_none hget
    exact congrArg (List.countP Row.isAdmitted) hrows
  | some r =>
    have hcount : (t.admitId id token now).admitted + _ = t.admitted + _ :=
      Keyed.countP_modify (Table.id_invited token now) Row.isAdmitted hget
    cases hr : r.admittedAt <;>
      simp_all [Row.isAdmitted, Row.isQueued, Table.invited]

end

/-! ## The place of a signup that admits itself -/

/-- What a signup has read of the cap is the cap, and if it is to admit itself there is room. -/
def Room (cap : Int) (t : Table) : Phase → Prop
  | .count k => k = cap
  | .insert k n => k = cap ∧ ((n : Int) < cap → (t.admitted : Int) < cap)
  | .commit _ (.admitted _) => (t.admitted : Int) < cap
  | _ => True

section
variable {cap : Int} {t t' : Table} {phase : Phase}

theorem Room.of_not_holding (h : phase.holding = false) : Room cap t phase := by
  cases phase with
  | lock | committed | failed => trivial
  | _ => cases h

theorem Room.signupStep {c : Call} {id : Uuid} {token : String} (h : Room cap t phase) :
    Room cap t (signupStep cap t c id token phase) := by
  cases phase with
  | lookup =>
    rcases lookup_cases cap t c id token with ⟨r, -, -, heq⟩ | ⟨r, -, -, heq⟩ | ⟨-, heq⟩ <;>
      rw [heq] <;> trivial
  | readCap => rfl
  | count k => exact ⟨h, fun hlt => hlt⟩
  | insert k n =>
    obtain ⟨rfl, hroom⟩ := h
    rcases insert_cases k k t c id token n with ⟨hlt, heq⟩ | ⟨-, heq⟩
    · rw [heq]
      exact hroom hlt
    · rw [heq]
      trivial
  | _ => trivial

/-- Another table has room if it has for those that are to admit themselves. -/
theorem Room.of_admitting (h : Room cap t phase)
    (hlt : phase.admitting = true → (t'.admitted : Int) < cap) : Room cap t' phase := by
  cases phase with
  | count k => exact h
  | insert k n =>
    refine ⟨h.1, fun hn => hlt ?_⟩
    rw [h.1]
    exact decide_eq_true hn
  | commit new outcome =>
    cases outcome with
    | «admitted» => exact hlt rfl
    | _ => trivial
  | _ => trivial

theorem Room.lt_of_admitting (h : Room cap t phase) (hphase : phase.admitting = true) :
    (t.admitted : Int) < cap := by
  cases phase with
  | insert k n =>
    obtain ⟨rfl, hroom⟩ := h
    exact hroom (of_decide_eq_true hphase)
  | commit new outcome =>
    cases outcome with
    | «admitted» => exact h
    | _ => cases hphase
  | _ => cases hphase

end

structure Inv (s : State) : Prop where
  mutex : Mutex s
  room : ∀ (i : Nat) (c : Call), s.calls[i]? = some c → Room s.cap s.table c.phase
  held : CapHeld s

theorem inv_start (cap : Int) (table : Table) : Inv (.start cap table) where
  mutex := fun _ _ hc => by cases hc
  room := fun _ _ hc => by cases hc
  held := fun _ hn => by cases hn

/-- An admission that commits had room. -/
theorem capHeld_commit {i : Nat} {c : Call} {new : Option Row} {outcome : SignupOutcome}
    (hs : CapHeld s) (hroom : Room s.cap s.table (.commit new outcome)) :
    CapHeld (s.commit i c new outcome) := by
  cases outcome with
  | «admitted» token =>
    intro n hn
    rcases List.mem_cons.1 hn with rfl | hn
    · exact hroom
    · exact hs n hn
  | _ => exact hs

theorem inv_step (hs : Inv s) (hok : LeavesRoom s act) (h : step s act = some s') : Inv s' := by
  have hmutex := mutex_step hs.mutex h
  cases effect_of_step h with
  | began email source now =>
    refine ⟨hmutex, fun j d hj => ?_, hs.held⟩
    rcases Calls.of_push hj with ⟨-, rfl⟩ | hj
    · trivial
    · exact hs.room j d hj
  | locked i id token c hc hphase hfree =>
    refine ⟨hmutex, fun j d hj => ?_, hs.held⟩
    rcases Calls.of_set hj with ⟨-, rfl⟩ | ⟨-, hj⟩
    · trivial
    · exact hs.room j d hj
  | went i id token c hc hholding hopen hfresh =>
    refine ⟨hmutex, fun j d hj => ?_, hs.held⟩
    rcases Calls.of_set hj with ⟨-, rfl⟩ | ⟨-, hj⟩
    · exact (hs.room i c hc).signupStep
    · exact hs.room j d hj
  | committed i id token c new outcome hc hphase =>
    have hroom := hs.room i c hc
    rw [hphase] at hroom
    refine ⟨hmutex, fun j d hj => ?_, capHeld_commit hs.held hroom⟩
    rcases Calls.of_set hj with ⟨-, rfl⟩ | ⟨hne, hj⟩
    · trivial
    · have hi : c.phase.holding = true := by rw [hphase]; rfl
      exact .of_not_holding (not_holding_of_ne hs.mutex hc hi hj hne)
  | failed i c hc =>
    refine ⟨hmutex, fun j d hj => ?_, hs.held⟩
    rcases Calls.of_set hj with ⟨-, rfl⟩ | ⟨-, hj⟩
    · trivial
    · exact hs.room j d hj
  | invited id token now =>
    refine ⟨hmutex, fun j d hj => (hs.room j d hj).of_admitting fun hd => ?_, hs.held⟩
    have hlt := (hs.room j d hj).lt_of_admitting hd
    have hlast := hok ⟨d, List.mem_of_getElem? hj, hd⟩
    show ((s.table.admitId id token now).admitted : Int) < s.cap
    rw [admitted_admitId]
    cases hqueued : (s.table.signups.get id).any (·.isQueued) with
    | false => simpa using hlt
    | true => simpa using hlast hqueued
  | deleted ids =>
    refine ⟨hmutex, fun j d hj => (hs.room j d hj).of_admitting fun hd => ?_, hs.held⟩
    have hlt := (hs.room j d hj).lt_of_admitting hd
    have hle := admitted_deleteBatch s.table ids
    show ((s.table.deleteBatch ids).admitted : Int) < s.cap
    omega

/-- **Automatic admission keeps the cap** in every run in which `admit_batch` leaves the last place
to a signup that has counted. -/
theorem capHeld_of_leavesRoom {cap : Int} {table : Table}
    (h : Trans.Reach step LeavesRoom (.start cap table) s) : CapHeld s :=
  (h.inv (inv_start cap table) fun _ _ _ hs hok hstep => inv_step hs hok hstep).held

/-! ## Two runs -/

/-- Bea is in the queue. -/
def beaQueued : Table :=
  ⟨⟨[⟨"b", "bea@x", none, 0, none, none, none⟩], by simp⟩, by simp⟩

/-- Ann signs up, and Bea is admitted by hand after Ann's signup has counted. -/
def admitAfterCount : List Action :=
  [.signup "ann@x" none 1, .next 0 "a" "t", .next 0 "a" "t", .next 0 "a" "t", .next 0 "a" "t",
    .admitId "b" "u" 2, .next 0 "a" "t", .next 0 "a" "t"]

theorem capHeld_of_leavesRoom_ann : ∃ s, Trans.Reach step LeavesRoom (.start 3 beaQueued) s ∧
    s.admissions = [1] ∧ CapHeld s := by
  have hrun : (Trans.exec step LeavesRoom (.start 3 beaQueued) admitAfterCount).map
      (·.admissions) = some [1] := by decide +kernel
  obtain ⟨s, hreach, hadmissions⟩ := Trans.reach_of_map_exec admitAfterCount hrun
  exact ⟨s, hreach, hadmissions, capHeld_of_leavesRoom hreach⟩

/-- With one place, both get it. -/
theorem batch_takes_counted_place : ¬ ∀ (cap : Int) (table : Table) (s : State),
    Trans.Reach step Trans.always (.start cap table) s → CapHeld s := by
  intro h
  have hrun : (Trans.exec step Trans.always (.start 1 beaQueued) admitAfterCount).map
      (fun s => (s.cap, s.admissions)) = some (1, [1]) := by decide +kernel
  obtain ⟨s, hreach, hend⟩ := Trans.reach_of_map_exec admitAfterCount hrun
  obtain ⟨hcap, hadmissions⟩ := Prod.mk.inj hend
  have hlt := h 1 beaQueued s hreach 1 (hadmissions ▸ List.mem_singleton_self 1)
  rw [hcap] at hlt
  omega

end Waitlist

end StarStats
