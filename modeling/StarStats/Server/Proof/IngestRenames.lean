import StarStats.Server.IngestRenames
import StarStats.Server.Proof.Repo

/-!
# Which runs strand no event

`stored_iff`: along every run each accepted event is under the account's current handle exactly
when no rename overtakes an insert. `Stored` is its own invariant; `step_cases` says what a step
does to the rows and to the handle.
-/

namespace StarStats.IngestRenames

open Text (lower)

variable {parseEventTimestamp : String → Option Timestamp}

/-! ## Rewriting rows -/

/-- A row under the old handle in lower case is then under the new one in lower case. -/
theorem renameEvent_of_lower {oldHandle newHandle : String} {r : EventRow}
    (h : r.claimedHandle = lower oldHandle) :
    (renameEvent oldHandle newHandle r).claimedHandle = lower newHandle := by
  simp [renameEvent, respell, h]

theorem mem_renameEvents {oldHandle newHandle : String} {seen : Nat} {events : List OwnedEvent}
    {e : OwnedEvent} (h : e ∈ renameEvents oldHandle newHandle seen events) :
    (∃ e₀ ∈ events.take seen, e = { e₀ with row := renameEvent oldHandle newHandle e₀.row }) ∨
      e ∈ events.drop seen := by
  rcases List.mem_append.1 h with h | h
  · obtain ⟨e₀, h₀, rfl⟩ := List.mem_map.1 h
    exact .inl ⟨e₀, h₀, rfl⟩
  · exact .inr h

/-! ## One step -/

/-- The rows that a request inserts are under the handle it carries. -/
theorem inserts_handle {s : State} {now : Timestamp} {adm : Admitted} {r : EventRow}
    (h : r ∈ s.inserts parseEventTimestamp now adm) : r.claimedHandle = adm.canonicalHandle := by
  have hmem := mem_insertNew h
  obtain ⟨e, -, he⟩ := List.mem_map.1 hmem
  rw [← he]
  rfl

/-- What a step does to the rows and to the account. -/
theorem step_cases {s s' : State} {a : Action} (h : step parseEventTimestamp s a = some s') :
    (s'.events = s.events ∧ s'.account = s.account ∧ NotOvertaken parseEventTimestamp s a) ∨
    (∃ i now adm, a = .insert i now false ∧ s.admitted[i]? = some adm ∧
      s'.events = s.events ++ (s.inserts parseEventTimestamp now adm).map (⟨·, true⟩) ∧
      s'.account = s.account) ∨
    (∃ id tx, a = .commit id ∧ s.running = some tx ∧
      s'.events = renameEvents s.account.claimedHandle tx.newHandle tx.seen s.events ∧
      s'.account = s.account.renamed tx.newHandle tx.now) := by
  cases a with
  | extract env bearer batch =>
    simp only [step] at h
    split at h
    · cases h
      exact .inl ⟨rfl, rfl, trivial⟩
    · split at h
      · cases h
        exact .inl ⟨rfl, rfl, trivial⟩
      · cases h
  | check env i =>
    obtain ⟨req, -, rfl⟩ := Option.map_eq_some_iff.1 h
    left
    dsimp only
    split <;> exact ⟨rfl, rfl, trivial⟩
  | insert i now fails =>
    simp only [step] at h
    split at h
    · cases h
    · rename_i adm hadm
      cases fails with
      | true =>
        cases h
        exact .inl ⟨rfl, rfl, fun _ _ => .inl rfl⟩
      | false =>
        split at h
        · rename_i hf
          cases hf
        · split at h
          · cases h
          · cases h
            exact .inr (.inl ⟨i, now, adm, rfl, hadm, rfl, rfl⟩)
  | updateEvents newHandle now =>
    simp only [step] at h
    split at h
    · cases h
      exact .inl ⟨rfl, rfl, trivial⟩
    · cases h
  | commit id =>
    obtain ⟨tx, htx, rfl⟩ := Option.map_eq_some_iff.1 h
    exact .inr (.inr ⟨id, tx, rfl, htx, rfl, rfl⟩)
  | rollback =>
    obtain ⟨tx, htx, rfl⟩ := Option.map_eq_some_iff.1 h
    exact .inl ⟨rfl, rfl, trivial⟩
  | record i =>
    obtain ⟨r, hr, rfl⟩ := Option.map_eq_some_iff.1 h
    exact .inl ⟨rfl, rfl, trivial⟩

theorem stored_step {s s' : State} {a : Action} (hs : Stored s)
    (h : step parseEventTimestamp s a = some s') (hok : NotOvertaken parseEventTimestamp s a) :
    Stored s' := by
  rcases step_cases h with ⟨he, ha, -⟩ | ⟨i, now, adm, rfl, hadm, he, ha⟩ |
    ⟨id, tx, rfl, htx, he, ha⟩
  · unfold Stored
    rw [he, ha]
    exact hs
  · intro e hmem hown
    rw [he] at hmem
    rw [ha]
    rcases List.mem_append.1 hmem with hmem | hmem
    · exact hs e hmem hown
    · obtain ⟨r, hr, rfl⟩ := List.mem_map.1 hmem
      show r.claimedHandle = _
      rw [inserts_handle hr]
      rcases hok adm hadm with hf | hnil | hcur
      · cases hf
      · rw [hnil] at hr
        cases hr
      · exact hcur
  · intro e hmem hown
    rw [he] at hmem
    rw [ha]
    show _ = lower tx.newHandle
    rcases mem_renameEvents hmem with ⟨e₀, h₀, rfl⟩ | hlate
    · exact renameEvent_of_lower (hs e₀ (List.mem_of_mem_take h₀) hown)
    · rcases hok tx htx with hcase | hnone
      · rw [hs e (List.mem_of_mem_drop hlate) hown, hcase]
      · rw [hnone e hlate] at hown
        cases hown

/-- A step that is overtaken strands an event. -/
theorem not_stored_step {s s' : State} {a : Action} (hs : Stored s)
    (h : step parseEventTimestamp s a = some s') (hok : ¬ NotOvertaken parseEventTimestamp s a) :
    ¬ Stored s' := by
  intro hs'
  apply hok
  rcases step_cases h with ⟨-, -, hok⟩ | ⟨i, now, adm, rfl, hadm, he, ha⟩ |
    ⟨id, tx, rfl, htx, he, ha⟩
  · exact hok
  · intro adm' hadm'
    obtain rfl : adm = adm' := Option.some.inj (hadm.symm.trans hadm')
    cases hins : s.inserts parseEventTimestamp now adm with
    | nil => exact .inr (.inl rfl)
    | cons r rs =>
      have hr : r ∈ s.inserts parseEventTimestamp now adm := hins ▸ List.mem_cons_self
      have hmem : (⟨r, true⟩ : OwnedEvent) ∈ s'.events := by
        rw [he]
        exact List.mem_append_right _ (List.mem_map_of_mem hr)
      have hst : r.claimedHandle = lower s'.account.claimedHandle := hs' _ hmem rfl
      rw [inserts_handle hr, ha] at hst
      exact .inr (.inr hst)
  · intro tx' htx'
    obtain rfl : tx = tx' := Option.some.inj (htx.symm.trans htx')
    by_cases hcase : lower tx.newHandle = lower s.account.claimedHandle
    · exact .inl hcase
    · right
      intro e hlate
      by_contra hown
      rw [Bool.not_eq_false] at hown
      have hold := hs e (List.mem_of_mem_drop hlate) hown
      have hmem : e ∈ s'.events := by
        rw [he]
        exact List.mem_append_right _ hlate
      have hnew : e.row.claimedHandle = lower s'.account.claimedHandle := hs' e hmem hown
      rw [ha] at hnew
      exact hcase (hnew.symm.trans hold)

/-- **Which runs strand no event.** From an account without events yet, the accepted events are
under the account's current handle in every state of a run exactly when no step of it is
overtaken by a rename. -/
theorem stored_iff (parseEventTimestamp : String → Option Timestamp) (account : Account)
    (others : List EventRow) (index : HandleIndex) (as : List Action) :
    Trans.AllStates (step parseEventTimestamp) Stored (.start account others index) as ↔
      Trans.AllSteps (step parseEventTimestamp) (NotOvertaken parseEventTimestamp)
        (.start account others index) as := by
  have hstart : Stored (.start account others index) := by
    intro e he hown
    obtain ⟨r, -, rfl⟩ := List.mem_map.1 he
    cases hown
  exact Trans.allStates_iff (fun _ h => h) (fun _ _ _ => stored_step)
    (fun _ _ _ => not_stored_step) as hstart

/-! ## A stranded event -/

def alice : Account := ⟨"u1", "alice", none, none, none, none, none, 0⟩

/-- A web token of alice's, issued before the rename. -/
def aliceEnv : AuthEnv where
  verify _ := .ok ⟨"u1", 0, "alice", .user, none⟩
  parseUuid := some
  handleIndex := none
  deviceAuthStatus _ := .ok .active
  restrictions := some fun _ => .ok none
  syncEnabledFor _ _ := .ok (some true)
  signDevice _ _ _ := none

def aliceBatch : IngestBatch where
  schemaVersion := 1
  batchId := "b1"
  gameBuild := none
  collectorVersion := none
  parserVersion := none
  batchSequence := none
  contentHash := none
  sourceRange := none
  claimedHandle := "alice"
  events :=
    [{ idempotencyKey := "k1"
       rawLine := "line"
       event := some (.joinPu ⟨"2026-06-03T00:00:00.000Z", "1.2.3.4", 64300, "pub_euw1b", "1"⟩)
       source := .live
       sourceOffset := 0
       metadata := none
       resolvedLocation := none }]

/-- The request is extracted and checked, alice becomes bob, the request inserts. -/
def overtaken : List Action :=
  [.extract aliceEnv (some "token") aliceBatch, .check aliceEnv 0, .updateEvents "bob" 1000000,
    .commit "r1", .record 0, .insert 0 2000000 false]

theorem rename_strands_event :
    ¬ ∀ (parseEventTimestamp : String → Option Timestamp) (account : Account)
      (others : List EventRow) (index : HandleIndex) (s : State),
      Trans.Reach (step parseEventTimestamp) Trans.always (.start account others index) s →
        s.Idle → Stored s := by
  intro h
  have hrun : (Trans.exec (step fun _ => none) Trans.always (.start alice [] .empty) overtaken).map
      (fun s => ((s.running.isNone, s.unrecorded.length, s.extracted.length, s.admitted.length),
        lower s.account.claimedHandle, s.events.map fun e => (e.own, e.row.claimedHandle))) =
      some ((true, 0, 0, 0), "bob", [(true, "alice")]) := by
    decide +kernel
  obtain ⟨s, hreach, hs⟩ := Trans.reach_of_map_exec _ hrun
  simp only [Prod.mk.injEq, List.length_eq_zero_iff, Option.isNone_iff_eq_none] at hs
  obtain ⟨hidle, hhandle, hevents⟩ := hs
  have hstored := h _ _ _ _ s hreach hidle
  cases he : s.events with
  | nil =>
    rw [he] at hevents
    cases hevents
  | cons e es =>
    rw [he] at hevents
    simp only [List.map_cons, List.cons.injEq, Prod.mk.injEq] at hevents
    have heq := hstored e (he ▸ List.mem_cons_self) hevents.1.1
    rw [hevents.1.2, hhandle] at heq
    exact absurd heq (by decide)

end StarStats.IngestRenames
