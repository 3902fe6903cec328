import StarStats.Server.IndexRefresh
import StarStats.Server.Proof.HandleRenames

/-!
# What the index keeps

`Inv` holds in every run whose steps meet `UpToDate`: renames of an account are a cooldown apart,
the snapshot of a refresh has what was recorded before it was read, and the index has the entry of
every recorded rename that is its account's latest. A refresh whose snapshot was taken before a
rename was recorded forgets it (`refresh_forgets_recorded`).
-/

namespace StarStats

namespace IndexRefresh

theorem honours_of_entryOf {index : HandleIndex} {r : HandleRename} (h : index.EntryOf r) :
    Honours index r := by
  obtain ⟨acct, hget, hcur, hat⟩ := h
  constructor
  · rw [hget, Option.map_some, hcur]
  · intro handle issuedAt hne hle
    simp only [HandleIndex.resolve, hget, hcur, hat, hne, Bool.false_eq_true, if_false, if_pos hle]

/-! ## The invariant -/

structure Inv (s : State) : Prop where
  ids : ∀ v u, s.accounts v = some u → u.id = v
  /-- The account's row has the time of its last rename. -/
  dated : ∀ r ∈ s.store, ∃ u last, s.accounts r.userId = some u ∧
    u.lastHandleChangeAt = some last ∧ r.renamedAt ≤ last
  spaced : Spaced s.store
  unrecorded : ∀ r ∈ s.unrecorded, r ∈ s.store
  known : ∀ r ∈ s.known, r ∈ s.store
  recorded : ∀ r ∈ s.recorded, r ∈ s.known
  snapshot : ∀ l, s.snapshot = some l →
    (∀ r ∈ l, r ∈ s.store) ∧ l.Pairwise (·.renamedAt ≤ ·.renamedAt)
  /-- The snapshot has what was recorded before it was read. -/
  read : ∀ l, s.snapshot = some l → ∀ r ∈ s.recorded, s.now - reservation ≤ r.renamedAt →
    r ∈ l ∨ r ∈ s.since
  kept : ∀ r ∈ s.recorded, Latest r s.known → s.now - reservation ≤ r.renamedAt →
    s.index.EntryOf r

/-- A rename that no other of its account is later than is the account's last. -/
theorem Inv.eq_of_latest {s : State} (hs : Inv s) {l : List HandleRename} {r x : HandleRename}
    (hl : ∀ r ∈ l, r ∈ s.store) (hr : r ∈ s.store) (hlatest : Latest r l) (hx : x ∈ l)
    (hu : x.userId = r.userId) (hle : r.renamedAt ≤ x.renamedAt) : x = r :=
  hs.spaced.eq_of_renamedAt_eq (hl x hx) hr hu (le_antisymm (hlatest x hx hu) hle)

theorem Latest.left {r : HandleRename} {l l' : List HandleRename} (h : Latest r (l ++ l')) :
    Latest r l := fun x hx => h x (List.mem_append_left _ hx)

theorem Latest.right {r : HandleRename} {l l' : List HandleRename} (h : Latest r (l ++ l')) :
    Latest r l' := fun x hx => h x (List.mem_append_right _ hx)

theorem inv_start (accounts : List Account) (now : Timestamp) : Inv (.start accounts now) where
  ids := by
    intro v u h
    simpa using List.find?_some h
  dated := by
    intro r hr
    cases hr
  spaced := .nil
  unrecorded := by
    intro r hr
    cases hr
  known := by
    intro r hr
    cases hr
  recorded := by
    intro r hr
    cases hr
  snapshot := by
    intro l hl
    cases hl
  read := by
    intro l hl
    cases hl
  kept := by
    intro r hr
    cases hr

/-! ## The steps -/

/-- The reservation of a rename that is in the window now was in it before. -/
theorem le_of_window {now : Timestamp} {d : Nat} {at' : Timestamp}
    (h : now + d - reservation ≤ at') : now - reservation ≤ at' := by
  refine le_trans ?_ h
  exact Int.sub_le_sub_right (Int.le_add_of_nonneg_right (Int.natCast_nonneg d)) reservation

theorem inv_wait {s : State} (hs : Inv s) (d : Nat) : Inv { s with now := s.now + d } where
  ids := hs.ids
  dated := hs.dated
  spaced := hs.spaced
  unrecorded := hs.unrecorded
  known := hs.known
  recorded := hs.recorded
  snapshot := hs.snapshot
  read := by
    intro l hl r hr hwin
    exact hs.read l hl r hr (le_of_window hwin)
  kept := by
    intro r hr hlatest hwin
    exact hs.kept r hr hlatest (le_of_window hwin)

/-- A rename that is accepted comes a cooldown behind the account's earlier ones. -/
theorem Inv.cooldown {s : State} (hs : Inv s) {u : Account} {newHandle : String}
    {startedAt : Timestamp} {kind : RenameKind} {r : HandleRename} (hr : r ∈ s.store)
    (hu : s.accounts r.userId = some u)
    (hkind : evaluateRename u.renameSubject newHandle startedAt = .ok kind) :
    r.renamedAt + renameCooldown ≤ startedAt := by
  obtain ⟨w, last, hw, hlast, hle⟩ := hs.dated r hr
  rw [hu] at hw
  cases hw
  exact Int.le_trans (Int.add_le_add_right hle renameCooldown) (cooldown_of_evaluate hkind hlast)

theorem inv_commit {s s' : State} {userId id : Uuid} {newHandle : String} {startedAt : Timestamp}
    {here : Bool} (hs : Inv s)
    (h : step s (.commit userId id newHandle startedAt here) = some s') : Inv s' := by
  simp only [step] at h
  split at h
  · cases h
  · rename_i u hu
    split at h
    · cases h
    · rename_i kind hkind
      cases h
      have hid : u.id = userId := hs.ids userId u hu
      have hcool : ∀ r ∈ s.store, r.userId = userId → r.renamedAt + renameCooldown ≤ startedAt :=
        fun r hr hru => hs.cooldown hr (hru ▸ hu) hkind
      refine { hs with
        ids := ?_, dated := ?_, spaced := ?_, unrecorded := ?_, known := ?_, snapshot := ?_ }
      · intro v w hw
        dsimp only at hw
        split at hw
        · rename_i hv
          cases hw
          exact hid.trans hv.symm
        · exact hs.ids v w hw
      · intro r hr
        rcases List.mem_append.1 hr with hr | hr
        · by_cases hru : r.userId = userId
          · refine ⟨_, startedAt, if_pos hru, rfl, ?_⟩
            have hpos : (0 : Int) ≤ renameCooldown := by decide
            exact Int.le_trans (Int.le_add_of_nonneg_right hpos) (hcool r hr hru)
          · obtain ⟨w, last, hw, hlast, hle⟩ := hs.dated r hr
            exact ⟨w, last, (if_neg hru).trans hw, hlast, hle⟩
        · rw [List.mem_singleton.1 hr]
          exact ⟨_, startedAt, if_pos hid, rfl, le_refl _⟩
      · refine List.pairwise_append.2 ⟨hs.spaced, List.pairwise_singleton .., ?_⟩
        intro r hr r' hr' hru
        rw [List.mem_singleton.1 hr'] at hru ⊢
        exact hcool r hr (hru.trans hid)
      · intro r hr
        dsimp only at hr
        split at hr
        · rcases List.mem_append.1 hr with hr | hr
          · exact List.mem_append_left _ (hs.unrecorded r hr)
          · exact List.mem_append_right _ hr
        · exact List.mem_append_left _ (hs.unrecorded r hr)
      · intro r hr
        exact List.mem_append_left _ (hs.known r hr)
      · intro l hl
        obtain ⟨hsub, hsorted⟩ := hs.snapshot l hl
        exact ⟨fun r hr => List.mem_append_left _ (hsub r hr), hsorted⟩

theorem inv_record {s s' : State} {i : Nat} (hs : Inv s) (hok : UpToDate s (.record i))
    (h : step s (.record i) = some s') : Inv s' := by
  obtain ⟨r, hget, rfl⟩ := Option.map_eq_some_iff.1 h
  have hr : r ∈ s.store := hs.unrecorded r (List.mem_of_getElem? hget)
  have hlatest : Latest r s.known := hok r hget
  refine { hs with unrecorded := ?_, known := ?_, recorded := ?_, read := ?_, kept := ?_ }
  · intro x hx
    exact hs.unrecorded x (List.mem_of_mem_eraseIdx hx)
  · intro x hx
    rcases List.mem_append.1 hx with hx | hx
    · exact hs.known x hx
    · rw [List.mem_singleton.1 hx]
      exact hr
  · intro x hx
    rcases List.mem_append.1 hx with hx | hx
    · exact List.mem_append_left _ (hs.recorded x hx)
    · exact List.mem_append_right _ hx
  · intro l hl x hx hwin
    rcases List.mem_append.1 hx with hx | hx
    · exact (hs.read l hl x hx hwin).imp_right (List.mem_append_left _)
    · exact .inr (List.mem_append_right _ hx)
  · intro x hx hlatest' hwin
    -- of `r` and another recorded rename of its account only the later one is still owed
    by_cases hu : x.userId = r.userId
    · have hle : r.renamedAt ≤ x.renamedAt := hlatest'.right r List.mem_cons_self hu.symm
      have hxr : x = r := by
        rcases List.mem_append.1 hx with hx | hx
        · exact hs.eq_of_latest hs.known hr hlatest (hs.recorded x hx) hu hle
        · exact List.mem_singleton.1 hx
      rw [hxr]
      exact s.index.entryOf_apply r
    · have hx' : x ∈ s.recorded := by
        rcases List.mem_append.1 hx with hx | hx
        · exact hx
        · exact absurd (congrArg HandleRename.userId (List.mem_singleton.1 hx)) hu
      exact (hs.kept x hx' hlatest'.left hwin).apply_other (Ne.symm hu)

theorem inv_recent {s s' : State} (hs : Inv s) (h : step s .recent = some s') : Inv s' := by
  simp only [step] at h
  split at h
  · cases h
  · cases h
    refine { hs with snapshot := ?_, read := ?_ }
    · intro l hl
      cases hl
      exact ⟨fun r hr => (mem_recentRenames.1 hr).1, recentRenames_sorted _ _⟩
    · intro l hl r hr hwin
      cases hl
      -- a recorded rename was committed before, so the read finds it
      have hstore : r ∈ s.store := hs.known r (hs.recorded r hr)
      exact .inl (mem_recentRenames.2 ⟨hstore, hwin⟩)

theorem inv_replaceAll {s s' : State} (hs : Inv s) (hok : UpToDate s .replaceAll)
    (h : step s .replaceAll = some s') : Inv s' := by
  obtain ⟨l, hl, rfl⟩ := Option.map_eq_some_iff.1 h
  obtain ⟨hsub, hsorted⟩ := hs.snapshot l hl
  refine { hs with known := ?_, recorded := ?_, snapshot := ?_, read := ?_, kept := ?_ }
  · intro r hr
    rcases List.mem_append.1 hr with hr | hr
    · exact hs.known r hr
    · exact hsub r hr
  · intro r hr
    exact List.mem_append_left _ (hs.recorded r hr)
  · intro l' hl'
    cases hl'
  · intro l' hl'
    cases hl'
  · intro r hr hlatest hwin
    have hmem : r ∈ l := by
      rcases hs.read l hl r hr hwin with hmem | hsince
      · exact hmem
      · exact hok l hl r hsince hlatest hwin
    apply HandleIndex.entryOf_foldl l hmem hsorted
    intro x hx hu hle
    exact hs.eq_of_latest hsub (hs.known r (hs.recorded r hr)) hlatest.right hx hu hle

theorem inv_step {s s' : State} {a : Action} (hs : Inv s) (hok : UpToDate s a)
    (h : step s a = some s') : Inv s' := by
  cases a with
  | wait d =>
    cases h
    exact inv_wait hs d
  | commit userId id newHandle startedAt here => exact inv_commit hs h
  | record i => exact inv_record hs hok h
  | recent => exact inv_recent hs h
  | replaceAll => exact inv_replaceAll hs hok h

/-- **The index keeps what was recorded**, in every state that is reached by steps that meet
`UpToDate`. -/
theorem index_keeps_recorded {accounts : List Account} {now : Timestamp} {s : State}
    (h : Trans.Reach step UpToDate (.start accounts now) s) : Kept s := by
  have hs := h.inv (inv_start accounts now) fun _ _ _ hs hok hstep => inv_step hs hok hstep
  intro r hr hlatest hwin
  exact honours_of_entryOf (hs.kept r hr hlatest hwin)

/-! ## Concrete runs -/

def alice : Account := ⟨"u1", "alice", none, none, none, none, none, 0⟩

/-- The refresh reads the store before alice becomes bob, and the index is replaced after the
rename was recorded. -/
def overlapping : List Action :=
  [.recent, .commit "u1" "r1" "bob" 0 true, .record 0, .replaceAll]

/-- The rename is recorded during a refresh that read it, and a second refresh follows. -/
def inTurn : List Action :=
  [.commit "u1" "r1" "bob" 0 true, .recent, .record 0, .replaceAll, .recent, .wait 60, .replaceAll]

theorem index_keeps_recorded_inTurn :
    ∃ s, Trans.Reach step UpToDate (.start [alice] 0) s ∧
      s.recorded.map (·.newHandle) = ["bob"] ∧ Kept s := by
  have hrun : (Trans.exec step UpToDate (.start [alice] 0) inTurn).map
      (·.recorded.map (·.newHandle)) = some ["bob"] := by
    decide +kernel
  obtain ⟨s, hreach, hs⟩ := Trans.reach_of_map_exec _ hrun
  exact ⟨s, hreach, hs, index_keeps_recorded hreach⟩

theorem refresh_forgets_recorded :
    ¬ ∀ (accounts : List Account) (now : Timestamp) (s : State),
      Trans.Reach step Trans.always (.start accounts now) s → Kept s := by
  intro h
  let r : HandleRename := ⟨"r1", "u1", "alice", "bob", false, true, 0, reservation, none⟩
  have hrun : (Trans.exec step Trans.always (.start [alice] 0) overlapping).map
      (fun s => ((s.now, s.recorded), s.known, (s.index "u1").isNone)) =
      some ((0, [r]), [r], true) := by
    decide +kernel
  obtain ⟨s, hreach, hs⟩ := Trans.reach_of_map_exec _ hrun
  simp only [Prod.mk.injEq, Option.isNone_iff_eq_none] at hs
  obtain ⟨⟨hnow, hrec⟩, hknown, hnone⟩ := hs
  have hkept := h [alice] 0 s hreach r
  rw [hnow, hrec, hknown] at hkept
  have hget := (hkept (by decide) (by decide) (by decide)).get
  change (s.index "u1").map _ = _ at hget
  rw [hnone] at hget
  cases hget

end IndexRefresh

end StarStats
