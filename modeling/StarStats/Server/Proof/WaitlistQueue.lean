import StarStats.Server.Proof.Waitlist

/-!
# The positions in the queue

A position counts the queued rows that were created before (`Table.place`), and a row is created
when its transaction starts, before the lock. Where a signup that commits started after every
queued row (`InOrder`), its place is the last (`place_eq_iff`) and the other places stay as they
are (`place_push`). `fair_iff_inOrder`: against a full cap the positions of a run are fair exactly
when the signups commit in the order in which they started; `late_lock_repeats_position` has two
signups that get the lock the other way round.
-/

namespace StarStats

namespace Waitlist

variable {s s' : State} {act : Action}

/-! ## Places -/

/-- The place in the queue of a row created at `since`. -/
def Table.place (t : Table) (since : Timestamp) : Nat :=
  t.rows.countP (fun q => q.isQueued && decide (q.createdAt < since)) + 1

section
variable {t : Table} {r : Row} {since : Timestamp}

theorem place_eq_iff :
    t.place since = t.queued + 1 ↔ ∀ q ∈ t.rows, q.isQueued = true → q.createdAt < since := by
  have hplace : t.place since =
      (t.rows.filter (·.isQueued)).countP (fun q => decide (q.createdAt < since)) + 1 := by
    rw [List.countP_filter]
    simp only [Table.place, Bool.and_comm]
  have hqueued : t.queued = (t.rows.filter (·.isQueued)).length := List.countP_eq_length_filter
  rw [hplace, hqueued, Nat.add_right_cancel_iff, List.countP_eq_length]
  simp [List.mem_filter, and_imp]

theorem rows_insert (hid : t.signups.get r.id = none) (hemail : r.email ∉ t.rows.map (·.email)) :
    (t.insert r).rows = t.rows ++ [r] := by
  rw [Table.insert, dif_pos ⟨hid, hemail⟩]
  rfl

/-- A row that comes later takes no place. -/
theorem place_push {t' : Table} (hrows : t'.rows = t.rows ++ [r]) (h : ¬ r.createdAt < since) :
    t'.place since = t.place since := by
  simp [Table.place, hrows, h]

theorem positionOf_mem (h : r ∈ t.rows) : positionOf r.id t.rows = t.place r.createdAt := by
  have hfind : t.rows.find? (·.id = r.id) = some r := Keyed.get_eq_some.2 ⟨h, rfl⟩
  rw [positionOf, hfind]
  rfl

theorem positionOf_new (h : t.signups.get r.id = none) :
    positionOf r.id (t.rows ++ [r]) = t.place r.createdAt := by
  have hfind : (t.rows ++ [r]).find? (·.id = r.id) = some r := by
    rw [List.find?_append, show t.rows.find? (·.id = r.id) = none from h]
    simp
  rw [positionOf, hfind]
  simp [Table.place]

theorem find_eq_none {email : String} : t.find email = none ↔ email ∉ t.rows.map (·.email) := by
  simp [Table.find]

theorem of_find {email : String} (h : t.find email = some r) : r ∈ t.rows ∧ r.email = email := by
  have hemail := List.find?_some h
  exact ⟨List.mem_of_find?_eq_some h, of_decide_eq_true hemail⟩

theorem eq_of_email {q : Row} (hr : r ∈ t.rows) (hq : q ∈ t.rows) (h : r.email = q.email) : r = q :=
  List.inj_on_of_nodup_map t.emails hr hq h

end

/-! ## What a signup has seen -/

/-- A queued row that a signup for `email` has inserted and not committed. -/
structure New (t : Table) (email : String) (startedAt : Timestamp) (r : Row) : Prop where
  id : t.signups.get r.id = none
  sameEmail : r.email = email
  fresh : email ∉ t.rows.map (·.email)
  queued : r.isQueued = true
  createdAt : r.createdAt = startedAt

/-- `position` is the place of the row of `email` in the queue. -/
def Placed (t : Table) (email : String) (position : Nat) : Prop :=
  ∃ r ∈ t.rows, r.email = email ∧ r.isQueued = true ∧ position = t.place r.createdAt

/-- What a signup has read is what it would read now. -/
def Seen (cap : Int) (t : Table) (email : String) (startedAt : Timestamp) : Phase → Prop
  | .locate id => ∃ r ∈ t.rows, r.email = email ∧ r.isQueued = true ∧ r.id = id
  | .readCap => email ∉ t.rows.map (·.email)
  | .count k => k = cap ∧ email ∉ t.rows.map (·.email)
  | .insert k n => k = cap ∧ n = t.admitted ∧ email ∉ t.rows.map (·.email)
  | .position new => New t email startedAt new
  | .commit (some new) outcome => New t email startedAt new ∧ outcome = .queued (t.place startedAt)
  | .commit none outcome =>
    outcome = .alreadyAdmitted ∨
      ∃ position, Placed t email position ∧ outcome = .alreadyQueued position
  | _ => True

section
variable {cap : Int} {t : Table} {phase : Phase}

theorem Seen.of_not_holding {email : String} {startedAt : Timestamp}
    (h : phase.holding = false) : Seen cap t email startedAt phase := by
  cases phase with
  | lock | committed | failed => trivial
  | _ => cases h

theorem Seen.signupStep {c : Call} {id : Uuid} {token : String}
    (h : Seen cap t c.email c.startedAt phase) (hfull : cap ≤ t.admitted)
    (hid : t.signups.get id = none) :
    Seen cap t c.email c.startedAt (signupStep cap t c id token phase) := by
  cases phase with
  | lookup =>
    rcases lookup_cases cap t c id token with ⟨r, -, -, heq⟩ | ⟨r, hfind, hqueued, heq⟩ |
      ⟨hfind, heq⟩ <;> rw [heq]
    · exact .inl rfl
    · obtain ⟨hr, hemail⟩ := of_find hfind
      exact ⟨r, hr, hemail, hqueued, rfl⟩
    · exact find_eq_none.1 hfind
  | locate rowId =>
    obtain ⟨r, hr, hemail, hqueued, rfl⟩ := h
    exact .inr ⟨_, ⟨r, hr, hemail, hqueued, positionOf_mem hr⟩, rfl⟩
  | readCap => exact ⟨rfl, h⟩
  | count k => exact ⟨h.1, rfl, h.2⟩
  | insert k n =>
    obtain ⟨rfl, rfl, hfresh⟩ := h
    rcases insert_cases k k t c id token t.admitted with ⟨hlt, -⟩ | ⟨-, heq⟩
    · omega
    · rw [heq]
      exact ⟨hid, rfl, hfresh, rfl, rfl⟩
  | position new => exact ⟨h, by rw [positionOf_new h.id, h.createdAt]⟩
  | _ => exact h

end

/-! ## The invariant -/

structure QueueInv (s : State) : Prop where
  mutex : Mutex s
  full : s.cap ≤ s.table.admitted
  seen : ∀ (i : Nat) (c : Call), s.calls[i]? = some c →
    Seen s.cap s.table c.email c.startedAt c.phase
  fair : Fair s
  placed : ∀ r ∈ s.reports, Placed s.table r.email r.position
  counted : ∀ r ∈ s.reports, ∀ n, r.queuedBefore = some n → n < s.table.queued

theorem queueInv_start {cap : Int} {table : Table} (hfull : cap ≤ table.admitted) :
    QueueInv (.start cap table) where
  mutex := fun _ _ hc => by cases hc
  full := hfull
  seen := fun _ _ hc => by cases hc
  fair := ⟨fun _ hr => (by cases hr), .nil, .nil⟩
  placed := fun _ hr => by cases hr
  counted := fun _ hr => by cases hr

/-- A report of a row that is queued already. -/
theorem fair_again {i : Nat} {c : Call} {position : Nat} (hs : QueueInv s)
    (hplaced : Placed s.table c.email position) :
    Fair (s.commit i c none (.alreadyQueued position)) where
  position := fun r hr n hn => by
    rcases List.mem_append.1 hr with hr | hr
    · exact hs.fair.position r hr n hn
    · rw [List.mem_singleton.1 hr] at hn
      cases hn
  increasing := by
    show ((s.reports ++ [Report.mk c.email position none]).filter _).Pairwise _
    rw [List.filter_append]
    simpa using hs.fair.increasing
  again := by
    refine List.pairwise_append.2 ⟨hs.fair.again, List.pairwise_singleton _ _, ?_⟩
    intro r hr r' hr' hemail
    rw [List.mem_singleton.1 hr'] at hemail ⊢
    -- both are the place of the one row with the email
    obtain ⟨q, hq, hqemail, -, hplace⟩ := hs.placed r hr
    obtain ⟨q', hq', hqemail', -, hplace'⟩ := hplaced
    have hrow : q' = q := eq_of_email hq' hq (hqemail'.trans (hemail.trans hqemail.symm))
    rw [hplace, hplace', hrow]

/-- A report of a new row that started after the queued ones. -/
theorem fair_new {i : Nat} {c : Call} {new : Row} (hs : QueueInv s)
    (hnew : New s.table c.email c.startedAt new)
    (hlast : s.table.place c.startedAt = s.table.queued + 1) :
    Fair (s.commit i c (some new) (.queued (s.table.place c.startedAt))) where
  position := fun r hr n hn => by
    rcases List.mem_append.1 hr with hr | hr
    · exact hs.fair.position r hr n hn
    · rw [List.mem_singleton.1 hr] at hn ⊢
      cases hn
      exact hlast
  increasing := by
    show ((s.reports ++ [Report.mk c.email _ (some s.table.queued)]).filter _).Pairwise _
    rw [List.filter_append]
    refine List.pairwise_append.2 ⟨hs.fair.increasing, List.pairwise_singleton _ _, ?_⟩
    intro r hr r' hr'
    obtain ⟨hr, hsome⟩ := List.mem_filter.1 hr
    obtain ⟨n, hn⟩ := Option.isSome_iff_exists.1 hsome
    rw [List.mem_singleton.1 hr', hs.fair.position r hr n hn]
    have hlt := hs.counted r hr n hn
    show n + 1 < s.table.place c.startedAt
    omega
  again := by
    refine List.pairwise_append.2 ⟨hs.fair.again, List.pairwise_singleton _ _, ?_⟩
    intro r hr r' hr' hemail
    rw [List.mem_singleton.1 hr'] at hemail
    obtain ⟨q, hq, hqemail, -⟩ := hs.placed r hr
    exact absurd (List.mem_map.2 ⟨q, hq, hqemail.trans hemail.symm⟩) hnew.fresh

theorem queueInv_new {i : Nat} {c : Call} {new : Row} (hs : QueueInv s)
    (hnew : New s.table c.email c.startedAt new)
    (horder : ∀ q ∈ s.table.rows, q.isQueued = true → q.createdAt < c.startedAt)
    (hmutex : Mutex (s.commit i c (some new) (.queued (s.table.place c.startedAt))))
    (hseen : ∀ (j : Nat) (d : Call),
      (s.commit i c (some new) (.queued (s.table.place c.startedAt))).calls[j]? = some d →
      Seen s.cap (s.table.insert new) d.email d.startedAt d.phase) :
    QueueInv (s.commit i c (some new) (.queued (s.table.place c.startedAt))) := by
  have hrows : (s.table.insert new).rows = s.table.rows ++ [new] :=
    rows_insert hnew.id (hnew.sameEmail ▸ hnew.fresh)
  have hlast := place_eq_iff.2 horder
  have hqueued : (s.table.insert new).queued = s.table.queued + 1 := by
    simp [Table.queued, hrows, hnew.queued]
  refine ⟨hmutex, ?_, hseen, fair_new hs hnew hlast, ?_, ?_⟩
  · have hle : s.table.admitted ≤ (s.table.insert new).admitted := by
      simp [Table.admitted, hrows]
    have hfull := hs.full
    show s.cap ≤ (s.table.insert new).admitted
    omega
  · intro r hr
    show Placed (s.table.insert new) r.email r.position
    rcases List.mem_append.1 hr with hr | hr
    · -- the new row is behind all others
      obtain ⟨q, hq, hemail, hqqueued, hplace⟩ := hs.placed r hr
      have hlt := horder q hq hqqueued
      have hbehind : ¬ new.createdAt < q.createdAt := by
        rw [hnew.createdAt]
        exact lt_asymm hlt
      refine ⟨q, ?_, hemail, hqqueued, ?_⟩
      · rw [hrows]
        exact List.mem_append_left _ hq
      · rw [hplace, place_push hrows hbehind]
    · rw [List.mem_singleton.1 hr]
      refine ⟨new, ?_, hnew.sameEmail, hnew.queued, ?_⟩
      · rw [hrows]
        exact List.mem_append_right _ (List.mem_singleton_self new)
      · rw [place_push hrows (lt_irrefl _), hnew.createdAt]
  · intro r hr n hn
    show n < (s.table.insert new).queued
    rw [hqueued]
    rcases List.mem_append.1 hr with hr | hr
    · have hlt := hs.counted r hr n hn
      omega
    · rw [List.mem_singleton.1 hr] at hn
      cases hn
      exact Nat.lt_succ_self _

/-- A step that leaves the table and the reports. -/
theorem QueueInv.of_same {calls : List Call} {lock : Option Nat} (hs : QueueInv s)
    (hmutex : Mutex { s with lock := lock, calls := calls })
    (hseen : ∀ (j : Nat) (d : Call), calls[j]? = some d →
      Seen s.cap s.table d.email d.startedAt d.phase) :
    QueueInv { s with lock := lock, calls := calls } :=
  ⟨hmutex, hs.full, hseen, ⟨hs.fair.position, hs.fair.increasing, hs.fair.again⟩, hs.placed,
    hs.counted⟩

theorem seen_set {i : Nat} {c : Call} {phase : Phase} (hs : QueueInv s)
    (hphase : Seen s.cap s.table c.email c.startedAt phase) (j : Nat) (d : Call)
    (hj : (s.calls.set i { c with phase := phase })[j]? = some d) :
    Seen s.cap s.table d.email d.startedAt d.phase := by
  rcases Calls.of_set hj with ⟨-, rfl⟩ | ⟨-, hj⟩
  · exact hphase
  · exact hs.seen j d hj

/-- After a commit nobody holds the lock. -/
theorem seen_commit {i : Nat} {c : Call} {new : Option Row} {outcome : SignupOutcome}
    (hs : QueueInv s) (hc : s.calls[i]? = some c) (hphase : c.phase = .commit new outcome)
    (t : Table) (j : Nat) (d : Call) (hj : (s.commit i c new outcome).calls[j]? = some d) :
    Seen s.cap t d.email d.startedAt d.phase := by
  rcases Calls.of_set hj with ⟨-, rfl⟩ | ⟨hne, hj⟩
  · trivial
  · have hi : c.phase.holding = true := by rw [hphase]; rfl
    exact .of_not_holding (not_holding_of_ne hs.mutex hc hi hj hne)

theorem step_of_signupsStep (h : signupsStep s act = some s') : step s act = some s' := by
  cases act with
  | admitId | deleteBatch => cases h
  | _ => exact h

theorem queueInv_step (hs : QueueInv s) (h : signupsStep s act = some s') (hok : InOrder s act) :
    QueueInv s' := by
  have hstep := step_of_signupsStep h
  have hmutex := mutex_step hs.mutex hstep
  cases effect_of_step hstep with
  | began email source now =>
    refine hs.of_same hmutex fun j d hj => ?_
    rcases Calls.of_push hj with ⟨-, rfl⟩ | hj
    · trivial
    · exact hs.seen j d hj
  | locked i id token c hc hphase hfree => exact hs.of_same hmutex (seen_set hs trivial)
  | went i id token c hc hholding hopen hfresh =>
    exact hs.of_same hmutex (seen_set hs ((hs.seen i c hc).signupStep hs.full hfresh))
  | committed i id token c new outcome hc hphase =>
    have hseen := seen_commit hs hc hphase
    have hcall := hs.seen i c hc
    rw [hphase] at hcall
    cases new with
    | none =>
      rcases hcall with rfl | ⟨position, hplaced, rfl⟩
      · exact hs.of_same hmutex (hseen s.table)
      · refine ⟨hmutex, hs.full, hseen s.table, fair_again hs hplaced, fun r hr => ?_,
          fun r hr n hn => ?_⟩
        · rcases List.mem_append.1 hr with hr | hr
          · exact hs.placed r hr
          · rw [List.mem_singleton.1 hr]
            exact hplaced
        · rcases List.mem_append.1 hr with hr | hr
          · exact hs.counted r hr n hn
          · rw [List.mem_singleton.1 hr] at hn
            cases hn
    | some new =>
      obtain ⟨hnew, rfl⟩ := hcall
      have horder := hok c hc (by rw [hphase]; rfl)
      exact queueInv_new hs hnew horder hmutex (hseen (s.table.insert new))
  | failed i c hc => exact hs.of_same hmutex (seen_set hs trivial)
  | invited | deleted => cases h

theorem of_joining {phase : Phase} (h : phase.joining = true) :
    ∃ r position, phase = .commit (some r) (.queued position) := by
  cases phase with
  | commit new outcome =>
    cases new with
    | none => cases h
    | some r =>
      cases outcome with
      | queued position => exact ⟨r, position, rfl⟩
      | _ => cases h
  | _ => cases h

/-- A signup that commits after one that started later reports a place that was there before. -/
theorem not_fair_of_not_inOrder (hs : QueueInv s) (h : signupsStep s act = some s')
    (hok : ¬ InOrder s act) : ¬ Fair s' := by
  intro hfair
  apply hok
  cases act with
  | next i id token =>
    intro c hc hjoining
    obtain ⟨r, position, hphase⟩ := of_joining hjoining
    have hstep := step_of_signupsStep h
    simp only [step, Option.mem_def.1 hc, hphase, Option.some.injEq] at hstep
    subst hstep
    have hcall := hs.seen i c hc
    rw [hphase] at hcall
    obtain ⟨-, hposition⟩ := hcall
    cases hposition
    have hreport := hfair.position ⟨c.email, _, some s.table.queued⟩
      (List.mem_append_right _ (List.mem_singleton_self _)) _ rfl
    exact place_eq_iff.1 hreport
  | _ => trivial

/-- **The reported positions are fair** in a run of signups against a full cap exactly when each
signup that joins the queue started after the queued rows were created. -/
theorem fair_iff_inOrder {cap : Int} {table : Table} (hfull : cap ≤ table.admitted)
    (as : List Action) :
    Trans.AllStates signupsStep Fair (.start cap table) as ↔
      Trans.AllSteps signupsStep InOrder (.start cap table) as :=
  Trans.allStates_iff (fun _ hs => hs.fair) (fun _ _ _ hs h hok => queueInv_step hs h hok)
    (fun _ _ _ hs h hok => not_fair_of_not_inOrder hs h hok) as (queueInv_start hfull)

/-! ## Two runs -/

/-- The one place is Bea's. -/
def beaIn : Table :=
  ⟨⟨[⟨"b", "bea@x", none, 0, some 0, some "t", some 0⟩], by simp⟩, by simp⟩

def nexts (call : Nat) (id : Uuid) (n : Nat) : List Action := List.replicate n (.next call id "t")

/-- Ann and Cal join in the order in which they started, and Ann asks again. -/
def annFirst : List Action :=
  [Action.signup "ann@x" none 1, .signup "cal@x" none 2] ++ nexts 0 "a" 7 ++ nexts 1 "c" 7 ++
    [Action.signup "ann@x" none 3] ++ nexts 2 "d" 4

/-- Cal gets the lock first. -/
def calFirst : List Action :=
  [Action.signup "ann@x" none 1, .signup "cal@x" none 2] ++ nexts 1 "c" 7 ++ nexts 0 "a" 7

theorem fair_iff_inOrder_ann :
    (Trans.exec signupsStep InOrder (.start 1 beaIn) annFirst).map
        (fun s => s.reports.map (·.position)) = some [1, 2, 1] ∧
      Trans.AllStates signupsStep Fair (.start 1 beaIn) annFirst := by
  have hrun : (Trans.exec signupsStep InOrder (.start 1 beaIn) annFirst).map
      (fun s => s.reports.map (·.position)) = some [1, 2, 1] := by decide +kernel
  have hsteps : Trans.AllSteps signupsStep InOrder (.start 1 beaIn) annFirst := by
    apply Trans.allSteps_of_exec
    obtain ⟨s, hs, -⟩ := Option.map_eq_some_iff.1 hrun
    rw [hs]
    rfl
  exact ⟨hrun, (fair_iff_inOrder (by decide) annFirst).2 hsteps⟩

/-- Ann is told the position that Cal has. -/
theorem late_lock_repeats_position : ¬ ∀ (cap : Int) (table : Table) (as : List Action),
    cap ≤ table.admitted → Trans.AllStates signupsStep Fair (.start cap table) as := by
  intro h
  have hrun : (Trans.exec signupsStep Trans.always (.start 1 beaIn) calFirst).map (·.reports) =
      some [⟨"cal@x", 1, some 0⟩, ⟨"ann@x", 1, some 1⟩] := by decide +kernel
  obtain ⟨s, hs, hreports⟩ := Option.map_eq_some_iff.1 hrun
  have hfair := (h 1 beaIn calFirst (by decide)).of_exec hs
  have hposition := hfair.position ⟨"ann@x", 1, some 1⟩ (by simp [hreports]) 1 rfl
  cases hposition

end Waitlist

end StarStats
