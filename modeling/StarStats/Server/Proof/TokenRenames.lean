import StarStats.Server.TokenRenames
import StarStats.Server.Proof.HandleRenames

/-!
# Which tokens act as the account's handle

`Inv` is kept by every step that meets `Timely`: an accepted token names its account's handle or is
covered by the account's last rename, and a covered token is swapped for as long as it is accepted
(`actsAs_of_covers`). A device token that is not covered outlives the rename in the index and acts
as the old handle (`device_token_outlives_rename`).
-/

namespace StarStats.TokenRenames

open Text (lower)

/-! ## Times -/

theorem le_of_unixSeconds_le {t : Timestamp} {n : Nat} (h : unixSeconds t ≤ n) :
    t ≤ ((n + 1 : Nat) : Int) * 1000000 - 1 := by
  have key : ∀ x : Int, (x / 1000000).toNat ≤ n → x ≤ ((n + 1 : Nat) : Int) * 1000000 - 1 := by
    intro x hx
    omega
  exact key t h

theorem unixSeconds_mono {t t' : Timestamp} (h : t ≤ t') : unixSeconds t ≤ unixSeconds t' := by
  have key : ∀ x y : Int, x ≤ y → (x / 1000000).toNat ≤ (y / 1000000).toNat := by
    intro x y hxy
    omega
  exact key t t' h

/-- A token that is accepted later is accepted now. -/
theorem notExpired_anti {t t' : Timestamp} {c : Claims} (hle : t ≤ t')
    (h : notExpired t' c = true) : notExpired t c = true := by
  simp only [notExpired, decide_eq_true_eq] at h ⊢
  exact (unixSeconds_mono hle).trans h

theorem Covers.mono {t t' : Timestamp} {c : Claims} (h : Covers t c) (hle : t ≤ t') :
    Covers t' c :=
  ⟨h.1.trans (unixSeconds_mono hle), h.2.trans (Int.add_le_add_right hle reservation)⟩

/-- As long as the token is accepted, the rename is in the index. -/
theorem Covers.recent {t now : Timestamp} {c : Claims} (h : Covers t c)
    (hc : notExpired now c = true) : now - reservation ≤ t := by
  simp only [notExpired, decide_eq_true_eq] at hc
  have hnow := (le_of_unixSeconds_le hc).trans h.2
  exact Int.sub_right_le_of_le_add hnow

/-! ## The invariant -/

/-- The rename is the account's last. -/
structure LastOf (renames : List HandleRename) (u : Account) (r : HandleRename) : Prop where
  mem : r ∈ renames
  user : r.userId = u.id
  last : u.lastHandleChangeAt = some r.renamedAt

/-- The token names the account's handle, or the account's last rename covers it. -/
def Names (renames : List HandleRename) (u : Account) (c : Claims) : Prop :=
  lower c.preferredUsername = lower u.claimedHandle ∨ ∃ r, LastOf renames u r ∧ Covers r.renamedAt c

structure Inv (s : State) : Prop where
  ids : ∀ u ∈ s.users, ∀ v ∈ s.users, u.id = v.id → u = v
  unique : ∀ u ∈ s.users, ∀ v ∈ s.users, lower u.claimedHandle = lower v.claimedHandle → u.id = v.id
  spaced : Spaced s.renames
  /-- A rename is of an account whose row has its time or a later one. -/
  dated : ∀ r ∈ s.renames, ∃ u ∈ s.users, u.id = r.userId ∧
    ∃ t, u.lastHandleChangeAt = some t ∧ r.renamedAt ≤ t
  /-- The row's time is that of a rename, and the last rename made the handle. -/
  last : ∀ u ∈ s.users, ∀ t, u.lastHandleChangeAt = some t → ∃ r, LastOf s.renames u r
  current : ∀ u ∈ s.users, ∀ r, LastOf s.renames u r → r.newHandle = u.claimedHandle
  minting : ∀ m ∈ s.minting, ∃ u ∈ s.users, u.id = m.userId
  tokens : ∀ c ∈ s.tokens, notExpired s.now c = true → ∃ u ∈ s.users, u.id = c.sub ∧
    Names s.renames u c

/-! ## The index -/

section
variable {s : State} {u : Account} {c : Claims}

/-- No rename of the account is later than its last. -/
theorem Inv.eq_of_last (hs : Inv s) (hu : u ∈ s.users) {r x : HandleRename}
    (hr : LastOf s.renames u r) (hx : x ∈ s.renames) (hxu : x.userId = r.userId)
    (hle : r.renamedAt ≤ x.renamedAt) : x = r := by
  obtain ⟨v, hv, hvid, t, ht, hxt⟩ := hs.dated x hx
  obtain rfl := hs.ids u hu v hv (hr.user.symm.trans (hxu.symm.trans hvid.symm))
  rw [hr.last] at ht
  have hge : x.renamedAt ≤ r.renamedAt := (Option.some.inj ht) ▸ hxt
  exact hs.spaced.eq_of_renamedAt_eq hx hr.mem hxu (le_antisymm hge hle)

/-- The account's last rename makes its entry, while it is recent. -/
theorem Inv.entryOf_last (hs : Inv s) (hu : u ∈ s.users) {r : HandleRename}
    (hr : LastOf s.renames u r) (hrec : s.now - reservation ≤ r.renamedAt) : s.index.EntryOf r := by
  refine HandleIndex.entryOf_foldl _ (mem_recentRenames.2 ⟨hr.mem, hrec⟩)
    (recentRenames_sorted _ _) ?_
  intro x hx hxu hle
  exact hs.eq_of_last hu hr (mem_recentRenames.1 hx).1 hxu hle

/-- The account's entry, if there is one, has its handle. -/
theorem Inv.index_current (hs : Inv s) (hu : u ∈ s.users) {acct : RenamedAccount}
    (h : s.index u.id = some acct) : acct.currentHandle = u.claimedHandle := by
  by_cases hex : ∃ r ∈ recentRenames (s.now - reservation) s.renames, r.userId = u.id
  · obtain ⟨x, hx, hxu⟩ := hex
    obtain ⟨hxmem, hxrec⟩ := mem_recentRenames.1 hx
    obtain ⟨v, hv, hvid, t, ht, hxt⟩ := hs.dated x hxmem
    obtain rfl := hs.ids u hu v hv (hxu.symm.trans hvid.symm)
    obtain ⟨r, hr⟩ := hs.last u hu t ht
    have hrt : r.renamedAt = t := Option.some.inj (hr.last.symm.trans ht)
    obtain ⟨acct', hget, hcur, -⟩ := hs.entryOf_last hu hr (hxrec.trans (hrt ▸ hxt))
    rw [hr.user, h] at hget
    rw [Option.some.inj hget, hcur]
    exact hs.current u hu r hr
  · have hnone : s.index u.id = none :=
      HandleIndex.foldl_apply_of_forall_ne fun r hr hru => hex ⟨r, hr, hru⟩
    rw [hnone] at h
    cases h

/-- A token that names the account's handle, or is covered, acts as that handle. -/
theorem Inv.actsAs_of_names (hs : Inv s) (hu : u ∈ s.users) (hid : u.id = c.sub)
    (hc : notExpired s.now c = true) (hn : Names s.renames u c) :
    lower (actsAs s.index c) = lower u.claimedHandle := by
  unfold actsAs HandleIndex.resolve
  rw [← hid]
  cases hget : s.index u.id with
  | none =>
    rcases hn with hn | ⟨r, hr, hcov⟩
    · exact hn
    · obtain ⟨acct, hsome, -⟩ := hs.entryOf_last hu hr (hcov.recent hc)
      rw [hr.user, hget] at hsome
      cases hsome
  | some acct =>
    have hcur := hs.index_current hu hget
    dsimp only
    by_cases heq : Text.eqIgnoreAsciiCase acct.currentHandle c.preferredUsername = true
    · rw [if_pos heq, ← hcur]
      exact (Text.eqIgnoreAsciiCase_iff.1 heq).symm
    · rw [if_neg heq]
      rcases hn with hn | ⟨r, hr, hcov⟩
      · rw [hcur, Text.eqIgnoreAsciiCase_iff] at heq
        exact absurd hn.symm heq
      · obtain ⟨acct', hsome, -, hat⟩ := hs.entryOf_last hu hr (hcov.recent hc)
        rw [hr.user, hget] at hsome
        obtain rfl := Option.some.inj hsome
        have hiat : c.iat ≤ (acct.lastRenamedAt / 1000000).toNat := hat ▸ hcov.1
        rw [if_pos hiat, Option.getD_some, hcur]

theorem Inv.tokensRight (hs : Inv s) : TokensRight s := by
  intro c hc hexp
  obtain ⟨u, hu, hid, hn⟩ := hs.tokens c hc hexp
  have hacts := hs.actsAs_of_names hu hid hexp hn
  refine ⟨⟨u, hu, hid, hacts⟩, fun v hv hne heq => hne ?_⟩
  rw [← hid]
  exact hs.unique v hv u hu (heq.trans hacts)

/-! ## The steps -/

/-- An account that a step leaves as it is keeps its last rename. -/
theorem lastOf_append {renames : List HandleRename} {r x : HandleRename} (hne : x.userId ≠ u.id) :
    LastOf (renames ++ [x]) u r ↔ LastOf renames u r := by
  constructor
  · intro h
    refine ⟨?_, h.user, h.last⟩
    rcases List.mem_append.1 h.mem with hr | hr
    · exact hr
    · exact absurd (List.mem_singleton.1 hr ▸ h.user) hne
  · intro h
    exact ⟨List.mem_append_left _ h.mem, h.user, h.last⟩

theorem names_append {renames : List HandleRename} {x : HandleRename} (hne : x.userId ≠ u.id)
    (h : Names renames u c) : Names (renames ++ [x]) u c := by
  rcases h with h | ⟨r, hr, hcov⟩
  · exact .inl h
  · exact .inr ⟨r, (lastOf_append hne).2 hr, hcov⟩

theorem inv_wait (hs : Inv s) (d : Nat) : Inv { s with now := s.now + d } := by
  refine { hs with tokens := ?_ }
  intro c hc hexp
  have hle : s.now ≤ s.now + (d : Int) := Int.le_add_of_nonneg_right (Int.natCast_nonneg d)
  exact hs.tokens c hc (notExpired_anti hle hexp)

theorem inv_signUp {userId : Uuid} {handle : String} {s' : State} (hs : Inv s)
    (h : step s (.signUp userId handle) = some s') : Inv s' := by
  simp only [step] at h
  split at h
  · cases h
  · rename_i hfresh
    have hnew : ∀ u ∈ s.users, u.id ≠ userId := by simpa using hfresh
    split at h
    · cases h
      exact hs
    · rename_i hfree
      cases h
      have huntaken : ∀ u ∈ s.users, lower u.claimedHandle ≠ lower handle := by
        intro u hu heq
        simp only [Bool.or_eq_true, not_or, handleTaken, List.any_eq_true, Bool.and_eq_true,
          beq_iff_eq, bne_iff_ne, not_exists, not_and] at hfree
        exact hfree.2 u hu heq (hnew u hu)
      have hnone : ∀ r, ¬ LastOf s.renames (.created userId handle s.now) r := fun r hr => by
        cases hr.last
      constructor
      · intro u hu v hv heq
        rcases List.mem_append.1 hu with hu | hu
        · rcases List.mem_append.1 hv with hv | hv
          · exact hs.ids u hu v hv heq
          · rw [List.mem_singleton.1 hv] at heq
            exact absurd heq (hnew u hu)
        · rw [List.mem_singleton.1 hu] at heq ⊢
          rcases List.mem_append.1 hv with hv | hv
          · exact absurd heq.symm (hnew v hv)
          · exact (List.mem_singleton.1 hv).symm
      · intro u hu v hv heq
        rcases List.mem_append.1 hu with hu | hu
        · rcases List.mem_append.1 hv with hv | hv
          · exact hs.unique u hu v hv heq
          · rw [List.mem_singleton.1 hv] at heq
            exact absurd heq (huntaken u hu)
        · rw [List.mem_singleton.1 hu] at heq ⊢
          rcases List.mem_append.1 hv with hv | hv
          · exact absurd heq.symm (huntaken v hv)
          · rw [List.mem_singleton.1 hv]
      · exact hs.spaced
      · intro r hr
        obtain ⟨u, hu, hrest⟩ := hs.dated r hr
        exact ⟨u, List.mem_append_left _ hu, hrest⟩
      · intro u hu t ht
        rcases List.mem_append.1 hu with hu | hu
        · exact hs.last u hu t ht
        · rw [List.mem_singleton.1 hu] at ht
          cases ht
      · intro u hu r hr
        rcases List.mem_append.1 hu with hu | hu
        · exact hs.current u hu r hr
        · rw [List.mem_singleton.1 hu] at hr
          exact absurd hr (hnone r)
      · intro m hm
        obtain ⟨u, hu, hid⟩ := hs.minting m hm
        exact ⟨u, List.mem_append_left _ hu, hid⟩
      · intro c hc hexp
        obtain ⟨u, hu, hrest⟩ := hs.tokens c hc hexp
        exact ⟨u, List.mem_append_left _ hu, hrest⟩

theorem inv_read {userId : Uuid} {tokenType : TokenType} {deviceId : Option Uuid} {s' : State}
    (hs : Inv s) (h : step s (.read userId tokenType deviceId) = some s') : Inv s' := by
  obtain ⟨u, hfind, rfl⟩ := Option.map_eq_some_iff.1 h
  refine { hs with minting := ?_ }
  intro m hm
  rcases List.mem_append.1 hm with hm | hm
  · exact hs.minting m hm
  · rw [List.mem_singleton.1 hm]
    exact ⟨u, List.mem_of_find?_eq_some hfind, by simpa using List.find?_some hfind⟩

theorem inv_sign {i : Nat} {s' : State} (hs : Inv s) (hok : Timely s (.sign i))
    (h : step s (.sign i) = some s') : Inv s' := by
  obtain ⟨m, hget, rfl⟩ := Option.map_eq_some_iff.1 h
  refine { hs with minting := ?_, tokens := ?_ }
  · intro m' hm'
    exact hs.minting m' (List.mem_of_mem_eraseIdx hm')
  · intro c hc hexp
    rcases List.mem_append.1 hc with hc | hc
    · exact hs.tokens c hc hexp
    · rw [List.mem_singleton.1 hc]
      obtain ⟨u, hu, hid⟩ := hs.minting m (List.mem_of_getElem? hget)
      refine ⟨u, hu, hid, ?_⟩
      rcases hok m hget u hu hid with heq | ⟨t, ht, hcov⟩
      · exact .inl heq
      · obtain ⟨r, hr⟩ := hs.last u hu t ht
        have hrt : r.renamedAt = t := Option.some.inj (hr.last.symm.trans ht)
        exact .inr ⟨r, hr, hrt ▸ hcov⟩

/-! ## The commit of a rename -/

section
variable {id : Uuid} {newHandle : String} {kind : RenameKind} {t : Timestamp}

/-- The users after the rename of `u`. -/
theorem mem_renamed {v : Account}
    (hv : v ∈ s.users.map fun v => if v.id = u.id then u.renamed newHandle t else v) :
    v = u.renamed newHandle t ∨ v ∈ s.users ∧ v.id ≠ u.id := by
  obtain ⟨w, hw, rfl⟩ := List.mem_map.1 hv
  by_cases hid : w.id = u.id
  · exact .inl (if_pos hid)
  · rw [if_neg hid]
    exact .inr ⟨hw, hid⟩

/-- Every account is still there, renamed or not. -/
theorem exists_mem_renamed {v : Account} (hv : v ∈ s.users) :
    ∃ w ∈ s.users.map (fun v => if v.id = u.id then u.renamed newHandle t else v), w.id = v.id ∧
      (v.id ≠ u.id → w = v) ∧ (v.id = u.id → w = u.renamed newHandle t) := by
  refine ⟨_, List.mem_map_of_mem hv, ?_⟩
  by_cases hid : v.id = u.id
  · rw [if_pos hid]
    exact ⟨hid.symm, fun hne => absurd hid hne, fun _ => rfl⟩
  · rw [if_neg hid]
    exact ⟨rfl, fun _ => rfl, fun heq => absurd heq hid⟩

/-- The earlier renames of the account are a cooldown before this one. -/
theorem Inv.cooldown (hs : Inv s) (hu : u ∈ s.users)
    (hkind : evaluateRename u.renameSubject newHandle t = .ok kind) {r : HandleRename}
    (hr : r ∈ s.renames) (hru : r.userId = u.id) : r.renamedAt + renameCooldown ≤ t := by
  obtain ⟨v, hv, hvid, last, hlast, hle⟩ := hs.dated r hr
  obtain rfl := hs.ids u hu v hv (hru.symm.trans hvid.symm)
  exact Int.le_trans (Int.add_le_add_right hle renameCooldown) (cooldown_of_evaluate hkind hlast)

theorem Inv.before (hs : Inv s) (hu : u ∈ s.users)
    (hkind : evaluateRename u.renameSubject newHandle t = .ok kind) {r : HandleRename}
    (hr : r ∈ s.renames) (hru : r.userId = u.id) : r.renamedAt < t := by
  have hpos : (0 : Int) < renameCooldown := by decide
  exact Int.lt_of_lt_of_le (Int.lt_add_of_pos_right _ hpos) (hs.cooldown hu hkind hr hru)

/-- This rename is then the account's last. -/
theorem Inv.lastOf_renamed (hs : Inv s) (hu : u ∈ s.users)
    (hkind : evaluateRename u.renameSubject newHandle t = .ok kind) {r : HandleRename}
    (hr : LastOf (s.renames ++ [u.renameRecord id newHandle kind t]) (u.renamed newHandle t) r) :
    r = u.renameRecord id newHandle kind t := by
  rcases List.mem_append.1 hr.mem with hmem | hmem
  · have hlt := hs.before hu hkind hmem hr.user
    have ht : t = r.renamedAt := Option.some.inj hr.last
    exact absurd ht (ne_of_gt hlt)
  · exact List.mem_singleton.1 hmem

theorem lastOf_renameRecord {renames : List HandleRename} :
    LastOf (renames ++ [u.renameRecord id newHandle kind t]) (u.renamed newHandle t)
      (u.renameRecord id newHandle kind t) :=
  ⟨List.mem_append_right _ List.mem_cons_self, rfl, rfl⟩

/-- A rename that is not refused takes no one's handle. -/
theorem Inv.not_taken (hs : Inv s) (hu : u ∈ s.users) (hfree : refused s u newHandle t = false)
    {v : Account} (hv : v ∈ s.users) (heq : lower v.claimedHandle = lower newHandle) :
    v.id = u.id := by
  simp only [refused, Bool.and_eq_false_iff, Bool.not_eq_false', Bool.or_eq_false_iff] at hfree
  rcases hfree with hcase | ⟨htaken, -⟩
  · exact hs.unique v hv u hu (heq.trans (Text.eqIgnoreAsciiCase_iff.1 hcase).symm)
  · simp only [handleTaken, List.any_eq_false, Bool.and_eq_true, beq_iff_eq, bne_iff_ne, ne_eq,
      not_and, not_not] at htaken
    exact htaken v hv heq

/-- A token of the account is right after the rename. -/
theorem Inv.names_renamed (hs : Inv s) (hu : u ∈ s.users)
    (hkind : evaluateRename u.renameSubject newHandle t = .ok kind)
    (hcov : lower c.preferredUsername = lower u.claimedHandle →
      lower c.preferredUsername ≠ lower newHandle → Covers t c) (hn : Names s.renames u c) :
    Names (s.renames ++ [u.renameRecord id newHandle kind t]) (u.renamed newHandle t) c := by
  by_cases hnew : lower c.preferredUsername = lower newHandle
  · exact .inl hnew
  · refine .inr ⟨_, lastOf_renameRecord, ?_⟩
    rcases hn with hold | ⟨r, hr, hcovr⟩
    · exact hcov hold hnew
    · exact hcovr.mono (le_of_lt (hs.before hu hkind hr.mem hr.user))

theorem inv_renamed (hs : Inv s) (hu : u ∈ s.users)
    (hkind : evaluateRename u.renameSubject newHandle t = .ok kind)
    (hfree : refused s u newHandle t = false)
    (hcov : ∀ c ∈ s.tokens, c.sub = u.id → notExpired s.now c = true →
      lower c.preferredUsername = lower u.claimedHandle →
      lower c.preferredUsername ≠ lower newHandle → Covers t c) :
    Inv { s with
      users := s.users.map fun v => if v.id = u.id then u.renamed newHandle t else v
      renames := s.renames ++ [u.renameRecord id newHandle kind t] } := by
  constructor
  · intro v hv w hw heq
    rcases mem_renamed hv with rfl | ⟨hv, hvid⟩
    · rcases mem_renamed hw with rfl | ⟨hw, hwid⟩
      · rfl
      · exact absurd heq.symm hwid
    · rcases mem_renamed hw with rfl | ⟨hw, hwid⟩
      · exact absurd heq hvid
      · exact hs.ids v hv w hw heq
  · intro v hv w hw heq
    rcases mem_renamed hv with rfl | ⟨hv, hvid⟩
    · rcases mem_renamed hw with rfl | ⟨hw, hwid⟩
      · rfl
      · exact (hs.not_taken hu hfree hw heq.symm).symm
    · rcases mem_renamed hw with rfl | ⟨hw, hwid⟩
      · exact hs.not_taken hu hfree hv heq
      · exact hs.unique v hv w hw heq
  · refine List.pairwise_append.2 ⟨hs.spaced, List.pairwise_singleton .., ?_⟩
    intro r hr r' hr' hru
    rw [List.mem_singleton.1 hr'] at hru ⊢
    exact hs.cooldown hu hkind hr hru
  · intro r hr
    rcases List.mem_append.1 hr with hr | hr
    · obtain ⟨v, hv, hvid, last, hlast, hle⟩ := hs.dated r hr
      obtain ⟨w, hw, hwid, hother, hself⟩ := exists_mem_renamed hv
      refine ⟨w, hw, hwid.trans hvid, ?_⟩
      by_cases hvu : v.id = u.id
      · rw [hself hvu]
        exact ⟨t, rfl, le_of_lt (hs.before hu hkind hr (hvid.symm.trans hvu))⟩
      · rw [hother hvu]
        exact ⟨last, hlast, hle⟩
    · rw [List.mem_singleton.1 hr]
      obtain ⟨w, hw, hwid, -, hself⟩ := exists_mem_renamed hu
      rw [hself rfl] at hw hwid
      exact ⟨_, hw, rfl, t, rfl, le_refl t⟩
  · intro v hv last hlast
    rcases mem_renamed hv with rfl | ⟨hv, hvid⟩
    · exact ⟨_, lastOf_renameRecord⟩
    · obtain ⟨r, hr⟩ := hs.last v hv last hlast
      exact ⟨r, (lastOf_append hvid.symm).2 hr⟩
  · intro v hv r hr
    rcases mem_renamed hv with rfl | ⟨hv, hvid⟩
    · rw [hs.lastOf_renamed hu hkind hr]
      rfl
    · exact hs.current v hv r ((lastOf_append hvid.symm).1 hr)
  · intro m hm
    obtain ⟨v, hv, hvid⟩ := hs.minting m hm
    obtain ⟨w, hw, hwid, -⟩ := exists_mem_renamed hv
    exact ⟨w, hw, hwid.trans hvid⟩
  · intro c hc hexp
    obtain ⟨v, hv, hvid, hn⟩ := hs.tokens c hc hexp
    obtain ⟨w, hw, hwid, hother, hself⟩ := exists_mem_renamed hv
    refine ⟨w, hw, hwid.trans hvid, ?_⟩
    by_cases hvu : v.id = u.id
    · obtain rfl := hs.ids v hv u hu hvu
      rw [hself rfl]
      exact hs.names_renamed hu hkind (hcov c hc hvid.symm hexp) hn
    · rw [hother hvu]
      exact names_append (Ne.symm hvu) hn

end

theorem inv_commitRename {i : Nat} {id : Uuid} {s' : State} (hs : Inv s)
    (hok : Timely s (.commitRename i id)) (h : step s (.commitRename i id) = some s') : Inv s' := by
  simp only [step] at h
  split at h
  · cases h
  · rename_i rn hget
    have hrest : Inv { s with underway := s.underway.eraseIdx i } := { hs with }
    split at h
    · cases h
      exact hrest
    · rename_i u hfind
      have hu : u ∈ s.users := List.mem_of_find?_eq_some hfind
      have hid : u.id = rn.userId := by simpa using List.find?_some hfind
      split at h
      · cases h
        exact hrest
      · rename_i kind hkind
        split at h
        · cases h
          exact hrest
        · rename_i hfree
          cases h
          have hfree' : refused s u rn.newHandle rn.startedAt = false := by simpa using hfree
          exact inv_renamed hrest hu hkind hfree' (hok rn hget u hu hid)

theorem inv_step {a : Action} {s' : State} (hs : Inv s) (hok : Timely s a)
    (h : step s a = some s') : Inv s' := by
  cases a with
  | wait d =>
    cases h
    exact inv_wait hs d
  | signUp userId handle => exact inv_signUp hs h
  | read userId tokenType deviceId => exact inv_read hs h
  | sign i => exact inv_sign hs hok h
  | startRename userId newHandle =>
    cases h
    exact { hs with }
  | commitRename i id => exact inv_commitRename hs hok h

end

theorem inv_start (now : Timestamp) : Inv (.start now) := by
  constructor
  case spaced => exact .nil
  all_goals intro x hx; cases hx

/-- **Every accepted token acts as its account**, in every state that is reached by steps that
meet `Timely`. -/
theorem tokens_right {now : Timestamp} {s : State}
    (h : Trans.Reach step Timely (.start now) s) : TokensRight s := by
  have hs := h.inv (inv_start now) fun _ _ _ hs hok hstep => inv_step hs hok hstep
  exact hs.tokensRight

/-! ## Concrete runs -/

/-- Alice signs up and a device token is signed; `pause` later she becomes bob. -/
def deviceThenRename (pause : Nat) : List Action :=
  [.signUp "u1" "alice", .read "u1" .device (some "d1"), .sign 0, .wait pause,
    .startRename "u1" "bob", .commitRename 0 "r1"]

theorem tokens_right_hour_later :
    ∃ s, Trans.Reach step Timely (.start 0) s ∧ s.users.map (·.claimedHandle) = ["bob"] ∧
      s.tokens.map (actsAs s.index) = ["bob"] ∧ TokensRight s := by
  have hrun : (Trans.exec step Timely (.start 0) (deviceThenRename 3600000000)).map
      (fun s => (s.users.map (·.claimedHandle), s.tokens.map (actsAs s.index))) =
      some (["bob"], ["bob"]) := by
    decide +kernel
  obtain ⟨s, hreach, hs⟩ := Trans.reach_of_map_exec _ hrun
  simp only [Prod.mk.injEq] at hs
  exact ⟨s, hreach, hs.1, hs.2, tokens_right hreach⟩

/-- Alice becomes bob a second after the token was signed. When 90 days and half a minute are
over, another account signs up as alice. -/
def outlived : List Action :=
  deviceThenRename 1000000 ++ [Action.wait 7776029000000, .signUp "u2" "alice"]

theorem device_token_outlives_rename :
    ¬ ∀ (now : Timestamp) (s : State), Trans.Reach step Trans.always (.start now) s →
      TokensRight s := by
  intro h
  let c : Claims := ⟨"u1", 0, "alice", .device, some "d1"⟩
  have hrun : (Trans.exec step Trans.always (.start 0) outlived).map
      (fun s => ((s.tokens, notExpired s.now c), actsAs s.index c, s.users[1]?)) =
      some (([c], true), "alice", some (.created "u2" "alice" 7776030000000)) := by
    decide +kernel
  obtain ⟨s, hreach, hs⟩ := Trans.reach_of_map_exec _ hrun
  simp only [Prod.mk.injEq] at hs
  obtain ⟨⟨htokens, hexp⟩, hacts, huser⟩ := hs
  have hright := h 0 s hreach c (htokens ▸ List.mem_singleton_self c) hexp
  rw [hacts] at hright
  exact hright.2 _ (List.mem_of_getElem? huser) (by decide) rfl

end StarStats.TokenRenames
