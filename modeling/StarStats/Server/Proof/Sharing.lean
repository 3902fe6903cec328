import StarStats.Server.ShareHistory

/-!
# Runs of one share: what each request does

`addShare_cases`, `deleteShare_cases` and `checkViewWithExpiry_cases` say once what a request can
do to the two stores of a share.
-/

namespace StarStats

open Text (lower)

/-! ## The stores -/

namespace ShareTable

theorem find_put (shares : ShareTable) (owner recipient o r : String) (row : Option ShareMeta) :
    (shares.put owner recipient row).find o r =
      if lower o = lower owner ∧ lower r = lower recipient then row else shares.find o r := rfl

theorem find_put_self {shares : ShareTable} {owner recipient r : String} {row : Option ShareMeta}
    (h : lower r = lower recipient) : (shares.put owner recipient row).find owner r = row := by
  rw [find_put, if_pos ⟨rfl, h⟩]

theorem find_put_of_ne {shares : ShareTable} {owner recipient o r : String}
    {row : Option ShareMeta} (h : lower r ≠ lower recipient) :
    (shares.put owner recipient row).find o r = shares.find o r := by
  rw [find_put, if_neg fun hk => h hk.2]

/-- A grant leaves a row with the grant's expiry and scope. -/
theorem find_upsert (shares : ShareTable) (now : Timestamp) (owner : String)
    (expiresAt : Option Timestamp) (note : Option String) (scope : Option ShareScope)
    {recipient r : String} (h : lower r = lower recipient) :
    ∃ row, (shares.upsert now owner recipient expiresAt note scope).find owner r = some row ∧
      row.expiresAt = expiresAt ∧ row.scope = scope := by
  refine ⟨_, find_put_self h, ?_⟩
  split <;> exact ⟨rfl, rfl⟩

theorem find_congr {shares : ShareTable} {owner v w : String} (h : lower v = lower w) :
    shares.find owner v = shares.find owner w := by
  unfold find
  rw [h]

end ShareTable

theorem mem_writeShareWithUser {owner recipient : String} {rels : List Relationship}
    {t : Relationship} :
    t ∈ writeShareWithUser owner recipient rels ↔ t = shareTuple owner recipient ∨ t ∈ rels :=
  Tuples.mem_touch

theorem mem_deleteShareWithUser {owner recipient : String} {rels : List Relationship}
    {t : Relationship} :
    t ∈ deleteShareWithUser owner recipient rels ↔ t ∈ rels ∧ t ≠ shareTuple owner recipient :=
  Tuples.mem_erase

theorem shareTuple_inj {owner o v w : String} (h : shareTuple owner v = shareTuple o w) : v = w := by
  simp only [shareTuple, userRef, Tuples.Tuple.mk.injEq, ObjectRef.mk.injEq] at h
  exact h.2.2.2

/-- The other terms of `view` do not read the shares. -/
theorem viewWithoutShare_congr {rels rels' : List Relationship}
    (h : ∀ resource relation p, relation ≠ .shareWithUser →
      Tuples.linked rels' resource relation p = Tuples.linked rels resource relation p)
    (record user : ObjectRef) :
    viewWithoutShare rels' record user = viewWithoutShare rels record user := by
  unfold viewWithoutShare organizationView organizationViewAllMemberStats
  simp [h]

theorem viewWithoutShare_write (owner recipient : String) (rels : List Relationship)
    (record user : ObjectRef) :
    viewWithoutShare (writeShareWithUser owner recipient rels) record user =
      viewWithoutShare rels record user :=
  viewWithoutShare_congr (fun _ _ _ h => Tuples.linked_touch_of_ne h) record user

theorem viewWithoutShare_delete (owner recipient : String) (rels : List Relationship)
    (record user : ObjectRef) :
    viewWithoutShare (deleteShareWithUser owner recipient rels) record user =
      viewWithoutShare rels record user :=
  viewWithoutShare_congr (fun _ _ _ h => Tuples.linked_erase_of_ne h) record user

section Erase
variable {relationshipFails rowFails : Bool} {owner recipient : String} {store : ShareStore}

theorem eraseShare_subset {t : Relationship}
    (h : t ∈ (eraseShare relationshipFails rowFails owner recipient store).relationships) :
    t ∈ store.relationships := by
  unfold eraseShare at h
  simp only at h
  split at h
  · exact h
  · exact (mem_deleteShareWithUser.1 h).1

theorem shareTuple_notMem_eraseShare : shareTuple owner recipient ∉
    (eraseShare false rowFails owner recipient store).relationships := by
  simp [eraseShare, mem_deleteShareWithUser]

/-- A row that is left was there. -/
theorem find_of_eraseShare {o r : String} {row : ShareMeta}
    (h : (eraseShare relationshipFails rowFails owner recipient store).shares.find o r =
      some row) : store.shares.find o r = some row := by
  unfold eraseShare ShareTable.delete at h
  simp only at h
  split at h
  · exact h
  · rw [ShareTable.find_put] at h
    split at h
    · cases h
    · exact h

theorem viewWithoutShare_eraseShare (record user : ObjectRef) :
    viewWithoutShare (eraseShare relationshipFails rowFails owner recipient store).relationships
      record user = viewWithoutShare store.relationships record user := by
  unfold eraseShare
  simp only
  split
  · rfl
  · exact viewWithoutShare_delete _ _ _ _ _

end Erase

/-- Without another path, the permission is the share. -/
theorem checkView_iff {rels : List Relationship} {owner viewer : String}
    (h : viewWithoutShare rels (statsRecord owner) (userRef viewer) = false) :
    checkView rels owner viewer = true ↔ shareTuple owner viewer ∈ rels := by
  unfold checkView statsRecordView
  rw [h, Bool.or_false, Tuples.linked_eq_iff]
  rfl

/-! ## The requests -/

theorem SharingEnv.findByHandle_congr {env : SharingEnv} {v w : String} (h : lower v = lower w) :
    env.findByHandle v = env.findByHandle w := by
  unfold findByHandle
  rw [h]

theorem SharingEnv.lower_of_findByHandle {env : SharingEnv} {v : String} {u : User}
    (h : env.findByHandle v = some u) : lower u.claimedHandle = lower v := by
  simpa using List.find?_some h

theorem AuthEnv.authenticate_of_requireUnrestricted {env : AuthEnv} {capability : Capability}
    {bearer : Option String} {user : AuthenticatedUser}
    (h : env.requireUnrestricted capability bearer = .ok user) :
    env.authenticate bearer = .ok user := by
  unfold requireUnrestricted at h
  cases ha : env.authenticate bearer with
  | error e => simp [ha] at h
  | ok u =>
    simp only [ha] at h
    split at h
    · cases h
    · cases h
    · split at h
      · cases h
      · cases h
        rfl
      · split at h
        · cases h
        · cases h
          rfl

theorem checkGrant_ok {env : SharingEnv} {faults : AddFaults} {now : Timestamp}
    {req : ShareRequest} {grant : Grant} (h : checkGrant env faults now req = .ok grant) :
    env.findByHandle (Text.trim req.recipientHandle) = some grant.recipient ∧
      normalScope req.scope = .ok grant.scope := by
  unfold checkGrant at h
  split at h
  · cases h
  · simp only at h
    split at h
    · cases h
    · split at h
      · cases h
      · rename_i hscope
        split at h
        · cases h
        · split at h
          · cases h
          · rename_i hfind
            split at h
            · cases h
              exact ⟨hfind, hscope⟩
            · cases h

/-- A grant is refused and changes nothing, or is written for the account found. -/
theorem addShare_cases (env : SharingEnv) (faults : AddFaults) (now : Timestamp)
    (bearer : Option String) (req : ShareRequest) (store : ShareStore) :
    (∃ r, (addShare env faults now bearer req store).reply = .error r ∧
      (addShare env faults now bearer req store).store = store) ∨
    ∃ user grant, env.authenticate bearer = .ok user ∧
      env.findByHandle (Text.trim req.recipientHandle) = some grant.recipient ∧
      normalScope req.scope = .ok grant.scope ∧
      (addShare env faults now bearer req store).reply = .ok grant.recipient.claimedHandle ∧
      (addShare env faults now bearer req store).store =
        writeGrant faults now user.preferredUsername req.expiresAt grant store := by
  unfold addShare
  split
  · exact .inl ⟨_, rfl, rfl⟩
  · rename_i user huser
    split
    · exact .inl ⟨_, rfl, rfl⟩
    · simp only
      split
      · exact .inl ⟨_, rfl, rfl⟩
      · split
        · exact .inl ⟨_, rfl, rfl⟩
        · split
          · exact .inl ⟨_, rfl, rfl⟩
          · split
            · exact .inl ⟨_, rfl, rfl⟩
            · rename_i grant hgrant
              split
              · exact .inl ⟨_, rfl, rfl⟩
              · obtain ⟨hfind, hscope⟩ := checkGrant_ok hgrant
                exact .inr ⟨user, grant, AuthEnv.authenticate_of_requireUnrestricted huser,
                  hfind, hscope, rfl, rfl⟩

/-- A revocation that is not carried out changes nothing. -/
theorem deleteShare_cases (env : SharingEnv) (faults : DeleteFaults) {bearer : Option String}
    {user : AuthenticatedUser} (huser : env.authenticate bearer = .ok user) (handle : String)
    (store : ShareStore) :
    ((validateHandle (Text.trim handle) && env.spicedbConfigured && !faults.deleteShare) = false ∧
      (∃ r, (deleteShare env faults bearer handle store).reply = .error r) ∧
      (deleteShare env faults bearer handle store).store = store) ∨
    ((validateHandle (Text.trim handle) && env.spicedbConfigured && !faults.deleteShare) = true ∧
      (deleteShare env faults bearer handle store).reply = .ok () ∧
      (deleteShare env faults bearer handle store).store =
        eraseShare false faults.deleteMeta user.preferredUsername (Text.trim handle) store) := by
  unfold deleteShare
  simp only [huser]
  cases hv : validateHandle (Text.trim handle) with
  | false => exact .inl ⟨by simp, ⟨_, rfl⟩, rfl⟩
  | true =>
    cases hs : env.spicedbConfigured with
    | false => exact .inl ⟨by simp, ⟨_, rfl⟩, rfl⟩
    | true =>
      cases hd : faults.deleteShare with
      | true => exact .inl ⟨by simp, ⟨_, rfl⟩, rfl⟩
      | false => exact .inr ⟨by simp, rfl, rfl⟩

/-- A read leaves the share alone, or finds it lapsed and revokes it. Who is let in is not blocked
and was seen by the first check, or by the one after the revoke. -/
theorem checkViewWithExpiry_cases (env : SharingEnv) (faults : ReadFaults) (now : Timestamp)
    (owner viewer : String) (seen : List Relationship) (store : ShareStore) :
    ((checkViewWithExpiry env faults now owner viewer seen store).store = store ∧
      ((checkViewWithExpiry env faults now owner viewer seen store).reply = .ok true →
        env.asks faults owner viewer = true ∧
        checkView seen owner viewer = true ∧
        (faults.find = true ∨
          store.shares.lapsed now owner viewer = false))) ∨
    (env.asks faults owner viewer = true ∧
      checkView seen owner viewer = true ∧
      store.shares.lapsed now owner viewer = true ∧
      (checkViewWithExpiry env faults now owner viewer seen store).store =
        eraseShare faults.deleteShare faults.deleteMeta owner viewer store ∧
      ((checkViewWithExpiry env faults now owner viewer seen store).reply = .ok true →
        checkView (eraseShare faults.deleteShare faults.deleteMeta owner viewer
          store).relationships owner viewer = true)) := by
  unfold checkViewWithExpiry SharingEnv.asks ShareTable.lapsed
  cases hb : faults.isBlocked with
  | true => exact .inl ⟨rfl, by simp⟩
  | false =>
    cases hblock : env.isBlocked owner viewer with
    | true => exact .inl ⟨rfl, by simp⟩
    | false =>
      cases hc : faults.checkView with
      | true => exact .inl ⟨rfl, by simp⟩
      | false =>
        cases hview : checkView seen owner viewer with
        | false => exact .inl ⟨rfl, by simp⟩
        | true =>
          cases hfind : faults.find with
          | true => exact .inl ⟨rfl, fun _ => by simp⟩
          | false =>
            cases hexp : (store.shares.find owner viewer).bind (·.expiresAt) with
            | none => exact .inl ⟨rfl, fun _ => by simp⟩
            | some e =>
              by_cases hlt : now < e
              · have hlive : (some e).any (· ≤ now) = false := by simpa using hlt
                simp only [Bool.not_true, Bool.false_eq_true, if_false, hlt, if_true]
                exact .inl ⟨trivial, fun _ => ⟨rfl, trivial, .inr hlive⟩⟩
              · have hlapsed : (some e).any (· ≤ now) = true := by simpa using hlt
                simp only [Bool.not_true, Bool.false_eq_true, if_false, hlt]
                refine .inr ⟨rfl, trivial, hlapsed, trivial, fun hreply => ?_⟩
                split at hreply
                · cases hreply
                · exact Except.ok.inj hreply

theorem checkViewWithExpiry_of_blocked {env : SharingEnv} {owner viewer : String}
    (h : env.isBlocked owner viewer = true) (faults : ReadFaults) (now : Timestamp)
    (seen : List Relationship) (store : ShareStore) :
    (checkViewWithExpiry env faults now owner viewer seen store).reply ≠ .ok true := by
  unfold checkViewWithExpiry
  rw [if_pos h]
  split <;> simp

theorem checkView_of_share {owner viewer : String} {rels : List Relationship}
    (h : shareTuple owner viewer ∈ rels) : checkView rels owner viewer = true := by
  unfold checkView statsRecordView
  rw [Bool.or_eq_true, Tuples.linked_eq_iff]
  exact .inl h

/-- The relationship alone lets a read through when the lazy revoke cannot delete it. -/
theorem checkViewWithExpiry_of_share {env : SharingEnv} {owner viewer : String}
    (h : env.isBlocked owner viewer = false) {store : ShareStore}
    (hmem : shareTuple owner viewer ∈ store.relationships) (now : Timestamp) :
    (checkViewWithExpiry env { ReadFaults.none with deleteShare := true } now owner viewer
      store.relationships store).reply = .ok true := by
  unfold checkViewWithExpiry
  simp only [ReadFaults.none, h, checkView_of_share hmem, eraseShare, Bool.not_true,
    Bool.false_eq_true, if_false, if_true]
  split
  · rfl
  · split <;> rfl

/-- A snapshot with the relationship lets a read through that does not find the share lapsed. -/
theorem checkViewWithExpiry_of_seen {env : SharingEnv} {faults : ReadFaults} {now : Timestamp}
    {owner viewer : String} {seen : List Relationship} {store : ShareStore}
    (hasks : env.asks faults owner viewer = true)
    (hmem : shareTuple owner viewer ∈ seen)
    (hlive : faults.find = true ∨
      store.shares.lapsed now owner viewer = false) :
    (checkViewWithExpiry env faults now owner viewer seen store).reply = .ok true := by
  simp only [SharingEnv.asks, Bool.and_eq_true, Bool.not_eq_true'] at hasks
  obtain ⟨⟨hb, hblock⟩, hc⟩ := hasks
  unfold checkViewWithExpiry
  simp only [hb, hblock, hc, checkView_of_share hmem, Bool.not_true, Bool.false_eq_true, if_false]
  rcases hlive with hfind | hlive
  · rw [if_pos hfind]
  · split
    · rfl
    · split
      · rfl
      · rename_i e he
        rw [ShareTable.lapsed, he, Option.any_some, decide_eq_false_iff_not, Int.not_le] at hlive
        rw [if_pos hlive]

namespace SharePair
variable {p : SharePair}

theorem mem_snapshots_leave {s : ShareState} {store : ShareStore} {history : List ShareEvent}
    {rels : List Relationship} :
    rels ∈ (s.leave store history).snapshots ↔ rels = store.relationships ∨ rels ∈ s.snapshots :=
  List.mem_cons

/-- A request that leaves the other terms of `view` as they are gives no access by them. -/
theorem noOther_leave {s : ShareState} {store : ShareStore} {history : List ShareEvent}
    {v : String} (h : ∀ rels ∈ s.snapshots,
      viewWithoutShare rels (statsRecord p.ownerHandle) (userRef v) = false)
    (hstore : viewWithoutShare store.relationships (statsRecord p.ownerHandle) (userRef v) =
      viewWithoutShare s.store.relationships (statsRecord p.ownerHandle) (userRef v)) :
    ∀ rels ∈ (s.leave store history).snapshots,
      viewWithoutShare rels (statsRecord p.ownerHandle) (userRef v) = false := by
  intro rels hrels
  rcases mem_snapshots_leave.1 hrels with rfl | hrels
  · exact hstore.trans (h _ List.mem_cons_self)
  · exact h rels hrels

theorem names_iff {handle : String} :
    p.names handle = true ↔ lower handle = lower p.recipientHandle := Text.eqIgnoreAsciiCase_iff

/-- A grant to another account does not share with the recipient. -/
theorem mem_of_mem_writeShareWithUser {rels : List Relationship} {handle v : String}
    (hnames : ¬ p.names handle = true) (hv : p.names v = true)
    (hmem : shareTuple p.ownerHandle v ∈ writeShareWithUser p.ownerHandle handle rels) :
    shareTuple p.ownerHandle v ∈ rels := by
  rcases mem_writeShareWithUser.1 hmem with heq | hold
  · exact absurd (shareTuple_inj heq ▸ hv) hnames
  · exact hold

/-- Every spelling of the recipient's handle finds the one account. -/
theorem eq_recipient {v : String} {u : User} (h : p.env.findByHandle v = some u)
    (hu : p.names u.claimedHandle) : u = p.recipient := by
  have hlower : lower v = lower p.recipientHandle :=
    (SharingEnv.lower_of_findByHandle h).symm.trans (names_iff.1 hu)
  rw [SharingEnv.findByHandle_congr hlower] at h
  exact Option.some.inj (h.symm.trans p.registered)

/-- What a request of a run does: nothing, a grant to some account, a revocation carried out, or
a read. -/
theorem step_add_cases {s s' : ShareState} {req : ShareRequest} {faults : AddFaults}
    (h : p.step s (.add req faults) = some s') :
    s' = s.leave s.store s.history ∨ ∃ grant : Grant,
      p.env.findByHandle (Text.trim req.recipientHandle) = some grant.recipient ∧
      s' = s.leave (writeGrant faults s.now p.ownerHandle req.expiresAt grant s.store)
        (.granted grant.recipient.claimedHandle req.expiresAt :: s.history) := by
  simp only [step, Option.some.injEq] at h
  subst h
  rcases addShare_cases p.env faults s.now p.bearer req s.store with
    ⟨r, hreply, hstore⟩ | ⟨user, grant, huser, hfind, -, hreply, hstore⟩
  · left
    simp only [hreply, hstore]
  · right
    have hown : user = p.owner := by
      rw [p.authenticated] at huser
      exact (Except.ok.inj huser).symm
    refine ⟨grant, hfind, ?_⟩
    simp only [hreply, hstore, hown]
    rfl

/-- A read leaves the stores alone, or finds the share lapsed and revokes it. -/
theorem step_read_cases {s s' : ShareState} {faults : ReadFaults} {age : Nat}
    (h : p.step s (.read faults age) = some s') :
    ∃ seen reply, s.snapshots[age]? = some seen ∧
      ((s' = s.leave s.store (.read s.now reply :: s.history) ∧
        (reply = .ok true → p.asks faults = true ∧
          checkView seen p.ownerHandle p.recipientHandle = true ∧
          (faults.find = true ∨ p.lapsed s = false))) ∨
      (s' = s.leave (eraseShare faults.deleteShare faults.deleteMeta p.ownerHandle
          p.recipientHandle s.store) (.read s.now reply :: s.history) ∧
        p.asks faults = true ∧ checkView seen p.ownerHandle p.recipientHandle = true ∧
        p.lapsed s = true ∧
        (reply = .ok true → checkView (eraseShare faults.deleteShare faults.deleteMeta
          p.ownerHandle p.recipientHandle s.store).relationships p.ownerHandle
            p.recipientHandle = true))) := by
  obtain ⟨seen, hseen, rfl⟩ := Option.map_eq_some_iff.1 h
  refine ⟨seen, (checkViewWithExpiry p.env faults s.now p.ownerHandle p.recipientHandle seen
    s.store).reply, hseen, ?_⟩
  rcases checkViewWithExpiry_cases p.env faults s.now p.ownerHandle p.recipientHandle seen
      s.store with ⟨hstore, htrue⟩ | ⟨hasks, hview, hlapsed, hstore, htrue⟩
  · exact .inl ⟨congrArg₂ s.leave hstore rfl, htrue⟩
  · exact .inr ⟨congrArg₂ s.leave hstore rfl, hasks, hview, hlapsed, htrue⟩

/-! ## Expiry -/

/-- While the relationship stands there is a row, and while a snapshot has it the row carries the
expiry of the latest grant. -/
structure ExpiryInv (p : SharePair) (s : ShareState) : Prop where
  noOther : ∀ rels ∈ s.snapshots,
    viewWithoutShare rels (statsRecord p.ownerHandle) (userRef p.recipientHandle) = false
  row : shareTuple p.ownerHandle p.recipientHandle ∈ s.store.relationships →
    s.store.shares.find p.ownerHandle p.recipientHandle ≠ none
  recorded : ∀ rels ∈ s.snapshots, shareTuple p.ownerHandle p.recipientHandle ∈ rels →
    ∀ row, s.store.shares.find p.ownerHandle p.recipientHandle = some row →
      p.latestGrant s.history = some row.expiresAt
  sound : p.NoExpiredRead s.history

theorem Fresh.expiryInv {s : ShareState} (h : p.Fresh s) : ExpiryInv p s where
  noOther rels hrels := h.noOther rels hrels _ (names_iff.2 rfl)
  row hmem := absurd hmem (h.noShare _ List.mem_cons_self _ (names_iff.2 rfl))
  recorded rels hrels hmem := absurd hmem (h.noShare rels hrels _ (names_iff.2 rfl))
  sound := by rw [h.history]; trivial

/-- A request that keeps the stores keeps the invariant. -/
theorem ExpiryInv.leave {s : ShareState} (h : ExpiryInv p s) {history : List ShareEvent}
    (hlatest : p.latestGrant history = p.latestGrant s.history) (hsound : p.NoExpiredRead history) :
    ExpiryInv p (s.leave s.store history) where
  noOther := noOther_leave h.noOther rfl
  row := h.row
  recorded rels hrels hmem row hrow := by
    refine hlatest.trans ?_
    rcases mem_snapshots_leave.1 hrels with rfl | hrels
    · exact h.recorded _ List.mem_cons_self hmem row hrow
    · exact h.recorded rels hrels hmem row hrow
  sound := hsound

/-- A grant to the recipient renews the row; one to another account touches neither store's
entry of the share. -/
theorem ExpiryInv.grant {s : ShareState} (h : ExpiryInv p s) {faults : AddFaults}
    (hup : faults.upsert = false) (grant : Grant) (expiresAt : Option Timestamp) :
    ExpiryInv p
      (s.leave (writeGrant faults s.now p.ownerHandle expiresAt grant s.store)
        (.granted grant.recipient.claimedHandle expiresAt :: s.history)) := by
  have hshares : (writeGrant faults s.now p.ownerHandle expiresAt grant s.store).shares =
      s.store.shares.upsert s.now p.ownerHandle grant.recipient.claimedHandle expiresAt grant.note
        grant.scope := by
    simp only [writeGrant, hup, Bool.false_eq_true, if_false]
  have hother : ∀ rels ∈ (s.leave (writeGrant faults s.now p.ownerHandle expiresAt grant
      s.store) (.granted grant.recipient.claimedHandle expiresAt :: s.history)).snapshots,
      viewWithoutShare rels (statsRecord p.ownerHandle) (userRef p.recipientHandle) = false :=
    noOther_leave h.noOther (viewWithoutShare_write _ _ _ _ _)
  by_cases hnames : p.names grant.recipient.claimedHandle = true
  · obtain ⟨row, hrow, hexp, -⟩ := s.store.shares.find_upsert s.now p.ownerHandle expiresAt
      grant.note grant.scope (names_iff.1 hnames).symm
    have hfind : (writeGrant faults s.now p.ownerHandle expiresAt grant s.store).shares.find
        p.ownerHandle p.recipientHandle = some row := by rw [hshares, hrow]
    refine ⟨hother, fun _ hnone => ?_, fun _ _ _ row' hrow' => ?_, h.sound⟩
    · cases hfind.symm.trans hnone
    · obtain rfl : row = row' := Option.some.inj (hfind.symm.trans hrow')
      simp [latestGrant, hnames, hexp]
  · have hsame : (writeGrant faults s.now p.ownerHandle expiresAt grant s.store).shares.find
        p.ownerHandle p.recipientHandle = s.store.shares.find p.ownerHandle p.recipientHandle := by
      rw [hshares]
      exact ShareTable.find_put_of_ne fun hk => hnames (names_iff.2 hk.symm)
    have hold {rels : List Relationship}
        (hmem : shareTuple p.ownerHandle p.recipientHandle ∈
          writeShareWithUser p.ownerHandle grant.recipient.claimedHandle rels) :
        shareTuple p.ownerHandle p.recipientHandle ∈ rels :=
      mem_of_mem_writeShareWithUser hnames (names_iff.2 rfl) hmem
    refine ⟨hother, fun hmem hnone => h.row (hold hmem) (hsame.symm.trans hnone),
      fun rels hrels hmem row hrow => ?_, h.sound⟩
    · have hlatest : p.latestGrant s.history = some row.expiresAt := by
        have hrow : s.store.shares.find p.ownerHandle p.recipientHandle = some row :=
          hsame.symm.trans hrow
        rcases mem_snapshots_leave.1 hrels with rfl | hrels
        · exact h.recorded _ List.mem_cons_self (hold hmem) row hrow
        · exact h.recorded rels hrels hmem row hrow
      simpa [latestGrant, hnames] using hlatest

theorem ExpiryInv.read {s s' : ShareState} {age : Nat} (h : ExpiryInv p s) {faults : ReadFaults}
    (hfind : faults.find = false) (hok : p.keepsExpiry s (.read faults age))
    (hstep : p.step s (.read faults age) = some s') : ExpiryInv p s' := by
  obtain ⟨seen, reply, hseen, ⟨rfl, htrue⟩ | ⟨rfl, hasks, hview, hlapsed, htrue⟩⟩ :=
    step_read_cases hstep
  · refine h.leave rfl ⟨fun hreply e hlatest => ?_, h.sound⟩
    obtain ⟨hasks, hview, hlive⟩ := htrue hreply
    have hmem := List.mem_of_getElem? hseen
    have hshare := (checkView_iff (h.noOther seen hmem)).1 hview
    obtain ⟨row, hrow⟩ := Option.isSome_iff_exists.1 (hok hasks seen hseen hshare).1
    have hexp : row.expiresAt = some e :=
      Option.some.inj ((h.recorded seen hmem hshare row hrow).symm.trans hlatest)
    have hlive := hlive.resolve_left (by simp [hfind])
    rw [lapsed, ShareTable.lapsed, hrow, Option.bind_some, hexp, Option.any_some,
      decide_eq_false_iff_not, Int.not_le] at hlive
    exact le_of_lt hlive
  · have hshare := (checkView_iff (h.noOther seen (List.mem_of_getElem? hseen))).1 hview
    rw [(hok hasks seen hseen hshare).2 hlapsed] at htrue ⊢
    have hgone := @shareTuple_notMem_eraseShare faults.deleteMeta p.ownerHandle p.recipientHandle
      s.store
    have hother := (@viewWithoutShare_eraseShare false faults.deleteMeta p.ownerHandle
      p.recipientHandle s.store _ _).trans (h.noOther _ List.mem_cons_self)
    refine ⟨noOther_leave h.noOther (viewWithoutShare_eraseShare _ _), fun hin => absurd hin hgone,
      fun rels hrels hin row hrow => ?_, fun hreply => ?_, h.sound⟩
    · rcases mem_snapshots_leave.1 hrels with rfl | hrels
      · exact absurd hin hgone
      · exact h.recorded rels hrels hin row (find_of_eraseShare hrow)
    · exact absurd ((checkView_iff hother).1 (htrue hreply)) hgone

theorem ExpiryInv.step {s s' : ShareState} {a : ShareAction} (h : ExpiryInv p s)
    (hok : sharing s a ∧ p.keepsExpiry s a) (hstep : p.step s a = some s') :
    ExpiryInv p s' := by
  cases a with
  | add req faults =>
    rcases step_add_cases hstep with rfl | ⟨grant, -, rfl⟩
    · exact h.leave rfl h.sound
    · exact h.grant hok.1 grant req.expiresAt
  | delete handle faults => exact hok.1.elim
  | read faults age => exact h.read hok.1 hok.2 hstep
  | advance micros =>
    simp only [SharePair.step, Option.some.injEq] at hstep
    subst hstep
    exact ⟨h.noOther, h.row, h.recorded, h.sound⟩

/-- **An expired share does not grant**, in a run where every read whose first check sees the
relationship finds the row, and deletes the relationship once that has lapsed. -/
theorem no_expired_read (p : SharePair) {s₀ s : ShareState} (h₀ : p.Fresh s₀)
    (hrun : Trans.Reach p.step (fun s a => sharing s a ∧ p.keepsExpiry s a) s₀ s) :
    p.NoExpiredRead s.history := by
  have hinv : ExpiryInv p s := hrun.inv h₀.expiryInv fun _ _ _ h hok hstep => h.step hok hstep
  exact hinv.sound

/-! ### Alice and Bob -/

/-- Accounts `Alice` and `Bob`; every token is Alice's. -/
def aliceEnv : SharingEnv where
  verify _ := .ok ⟨"alice", 0, "Alice", .user, none⟩
  parseUuid := some
  handleIndex := none
  deviceAuthStatus _ := .ok .active
  restrictions := some fun _ => .ok none
  syncEnabledFor _ _ := .ok none
  signDevice _ _ _ := none
  users := [⟨"alice", "Alice", some 0, none⟩, ⟨"bob", "Bob", none, none⟩]
  blocks _ _ := false
  spicedbConfigured := true
  toRfc3339 _ := ""

def aliceAndBob : SharePair where
  env := aliceEnv
  bearer := some "token"
  owner := ⟨"alice", "Alice", .user, none⟩
  recipient := ⟨"bob", "Bob", none, none⟩
  authenticated := rfl
  registered := by decide
  distinct := by decide

def noRows : ShareTable := fun _ _ => none

/-- No relationships, and the given rows. -/
def stateWith (shares : ShareTable) : ShareState := ⟨0, ⟨[], shares⟩, [], []⟩

theorem fresh_stateWith (shares : ShareTable) : aliceAndBob.Fresh (stateWith shares) where
  history := rfl
  noShare rels hrels _ _ := by
    rw [List.mem_singleton.1 hrels]
    exact List.not_mem_nil
  noOther rels hrels _ _ := by
    rw [List.mem_singleton.1 hrels]
    rfl

def shareWithBob (expiresAt : Option Timestamp) : ShareAction :=
  .add ⟨"Bob", expiresAt, none, none⟩ .none

/-- Bob reads in time. At 20 a read revokes the share and leaves the row; the next one sees the
relationship as it was, finds the row, and asks again. -/
theorem no_expired_read_bob :
    ∃ s : ShareState,
      s.history = [.read 20 (.ok false), .read 20 (.ok false), .read 5 (.ok true),
        .granted "Bob" (some 10)] ∧
      aliceAndBob.NoExpiredRead s.history := by
  have hrun : (Trans.exec aliceAndBob.step
      (fun s a => sharing s a ∧ aliceAndBob.keepsExpiry s a) (stateWith noRows)
      [shareWithBob (some 10), .advance 5, .read .none 0, .advance 15,
        .read ⟨false, false, false, false, true, false⟩ 0, .read .none 1]).map (·.history) =
      some [.read 20 (.ok false), .read 20 (.ok false), .read 5 (.ok true),
        .granted "Bob" (some 10)] := by decide +kernel
  obtain ⟨s, hreach, hhist⟩ := Trans.reach_of_map_exec _ hrun
  exact ⟨s, hhist, no_expired_read aliceAndBob (fresh_stateWith noRows) hreach⟩

/-- The share ran out at 10. In the first run the read at 20 cannot delete the relationship,
deletes the row, and asks the relationship again; the read at 40, in which nothing fails, finds no
expiry. In the second nothing fails: the read at 20 revokes the share, and the next one sees the
relationship as it was before. -/
theorem expired_share_grants :
    aliceAndBob.Fresh (stateWith noRows) ∧
    (∃ s, Trans.Reach aliceAndBob.step sharing (stateWith noRows) s ∧
      s.history = [.read 40 (.ok true), .read 20 (.ok true), .granted "Bob" (some 10)] ∧
      ¬ aliceAndBob.NoExpiredRead s.history) ∧
    ∃ s, Trans.Reach aliceAndBob.step sharing (stateWith noRows) s ∧
      s.history = [.read 20 (.ok true), .read 20 (.ok false), .granted "Bob" (some 10)] ∧
      ¬ aliceAndBob.NoExpiredRead s.history := by
  refine ⟨fresh_stateWith _, ?_, ?_⟩
  · have hrun : (Trans.exec aliceAndBob.step sharing (stateWith noRows)
        [shareWithBob (some 10), .advance 20, .read ⟨false, false, false, true, false, false⟩ 0,
          .advance 20, .read .none 0]).map (·.history) =
        some [.read 40 (.ok true), .read 20 (.ok true), .granted "Bob" (some 10)] := by
      decide +kernel
    obtain ⟨s, hreach, hhist⟩ := Trans.reach_of_map_exec _ hrun
    refine ⟨s, hreach, hhist, fun h => ?_⟩
    rw [hhist] at h
    have hle : (40 : Timestamp) ≤ 10 := h.1 rfl 10 (by decide +kernel)
    exact absurd hle (by decide)
  · have hrun : (Trans.exec aliceAndBob.step sharing (stateWith noRows)
        [shareWithBob (some 10), .advance 20, .read .none 0, .read .none 1]).map (·.history) =
        some [.read 20 (.ok true), .read 20 (.ok false), .granted "Bob" (some 10)] := by
      decide +kernel
    obtain ⟨s, hreach, hhist⟩ := Trans.reach_of_map_exec _ hrun
    refine ⟨s, hreach, hhist, fun h => ?_⟩
    rw [hhist] at h
    have hle : (20 : Timestamp) ≤ 10 := h.1 rfl 10 (by decide +kernel)
    exact absurd hle (by decide)

/-! ## Revocation -/

theorem isBlocked_congr {v : String} (h : p.names v) :
    p.env.isBlocked p.ownerHandle v = p.env.isBlocked p.ownerHandle p.recipientHandle := by
  unfold SharingEnv.isBlocked
  rw [names_iff.1 h]

/-- The relationship has one spelling; a revoked share has neither it nor a row that opens the
timeline. -/
structure RevokeInv (p : SharePair) (s : ShareState) : Prop where
  noOther : ∀ rels ∈ s.snapshots, ∀ v, p.names v →
    viewWithoutShare rels (statsRecord p.ownerHandle) (userRef v) = false
  spelling : ∀ v, p.names v → shareTuple p.ownerHandle v ∈ s.store.relationships →
    v = p.recipientHandle
  noShare : p.isRevoked s.history → p.env.isBlocked p.ownerHandle p.recipientHandle = false →
    shareTuple p.ownerHandle p.recipientHandle ∉ s.store.relationships
  noRow : p.isRevoked s.history → p.opensTimeline s = false
  sound : p.NoRevokedRead s.history

theorem Fresh.revokeInv {s : ShareState} (h : p.Fresh s) : RevokeInv p s where
  noOther := h.noOther
  spelling v hv hmem := absurd hmem (h.noShare _ List.mem_cons_self v hv)
  noShare hrev := by simp [h.history, isRevoked] at hrev
  noRow hrev := by simp [h.history, isRevoked] at hrev
  sound := by rw [h.history]; trivial

/-- Stores without another path to the record come on top of the snapshots. -/
theorem RevokeInv.noOther_leave {s : ShareState} (h : RevokeInv p s) {store : ShareStore}
    {history : List ShareEvent}
    (hstore : ∀ v, viewWithoutShare store.relationships (statsRecord p.ownerHandle) (userRef v) =
      viewWithoutShare s.store.relationships (statsRecord p.ownerHandle) (userRef v)) :
    ∀ rels ∈ (s.leave store history).snapshots, ∀ v, p.names v →
      viewWithoutShare rels (statsRecord p.ownerHandle) (userRef v) = false := by
  intro rels hrels v hv
  exact SharePair.noOther_leave (fun rels hrels => h.noOther rels hrels v hv) (hstore v) rels hrels

/-- The timeline gate asks the one row. -/
theorem callerMayViewTimeline_eq {v : String} (hv : p.names v) (s : ShareState) :
    callerMayViewTimeline s.now s.store.shares p.ownerHandle v = p.opensTimeline s := by
  have hself : Text.eqIgnoreAsciiCase v p.ownerHandle = false := by
    have hd := p.distinct
    unfold Text.eqIgnoreAsciiCase at hd ⊢
    rw [names_iff.1 hv]
    exact hd
  unfold callerMayViewTimeline opensTimeline
  rw [hself, ShareTable.find_congr (names_iff.1 hv)]
  cases s.store.shares.find p.ownerHandle p.recipientHandle with
  | none => rfl
  | some row =>
    cases hact : row.active s.now with
    | false => simp [Option.filter, hact]
    | true => simp [Option.filter, hact]

theorem RevokeInv.effective {s : ShareState} (h : RevokeInv p s) : p.RevokedIsEffective s := by
  refine ⟨h.sound, fun hrev v hv => ⟨fun faults hreply => ?_, ?_⟩⟩
  · have hother := h.noOther _ List.mem_cons_self v hv
    cases hblock : p.env.isBlocked p.ownerHandle p.recipientHandle with
    | true =>
      exact checkViewWithExpiry_of_blocked ((isBlocked_congr hv).trans hblock) faults s.now _
        s.store hreply
    | false =>
      have hgone : shareTuple p.ownerHandle v ∉ s.store.relationships := by
        intro hmem
        exact h.noShare hrev hblock (h.spelling v hv hmem ▸ hmem)
      rcases checkViewWithExpiry_cases p.env faults s.now p.ownerHandle v s.store.relationships
          s.store with ⟨-, htrue⟩ | ⟨-, hview, -⟩
      · exact hgone ((checkView_iff hother).1 (htrue hreply).2.1)
      · exact hgone ((checkView_iff hother).1 hview)
  · rw [callerMayViewTimeline_eq hv]
    exact h.noRow hrev

/-- What a grant writes into `share_metadata` is the recipient's row, or none of its concern. -/
theorem opensTimeline_grant_of_ne {s : ShareState} {faults : AddFaults} {grant : Grant}
    {expiresAt : Option Timestamp} (history : List ShareEvent)
    (hne : ¬ p.names grant.recipient.claimedHandle = true) :
    p.opensTimeline
      (s.leave (writeGrant faults s.now p.ownerHandle expiresAt grant s.store) history) =
        p.opensTimeline s := by
  unfold opensTimeline writeGrant ShareState.leave
  simp only
  split
  · rfl
  · unfold ShareTable.upsert
    rw [ShareTable.find_put_of_ne fun hk => hne (names_iff.2 hk.symm)]

theorem RevokeInv.grant {s : ShareState} (h : RevokeInv p s) {v : String} (faults : AddFaults)
    {grant : Grant} (expiresAt : Option Timestamp)
    (hfind : p.env.findByHandle v = some grant.recipient) :
    RevokeInv p
      (s.leave (writeGrant faults s.now p.ownerHandle expiresAt grant s.store)
        (.granted grant.recipient.claimedHandle expiresAt :: s.history)) := by
  have hother := @RevokeInv.noOther_leave p s h
    (writeGrant faults s.now p.ownerHandle expiresAt grant s.store)
    (.granted grant.recipient.claimedHandle expiresAt :: s.history)
    fun w => viewWithoutShare_write _ _ _ _ _
  by_cases hnames : p.names grant.recipient.claimedHandle = true
  · have hrec : grant.recipient.claimedHandle = p.recipientHandle :=
      congrArg User.claimedHandle (eq_recipient hfind hnames)
    have hnot : p.isRevoked (.granted grant.recipient.claimedHandle expiresAt :: s.history) =
        false := by
      simp [isRevoked, hnames]
    refine ⟨hother, fun w hw hmem => ?_, fun hrev => ?_, fun hrev => ?_, h.sound⟩
    · rcases mem_writeShareWithUser.1 hmem with heq | hold
      · exact (shareTuple_inj heq).trans hrec
      · exact h.spelling w hw hold
    · simp [hnot] at hrev
    · simp [hnot] at hrev
  · have hold : ∀ w, p.names w →
        shareTuple p.ownerHandle w ∈
          (writeGrant faults s.now p.ownerHandle expiresAt grant s.store).relationships →
        shareTuple p.ownerHandle w ∈ s.store.relationships :=
      fun w hw hmem => mem_of_mem_writeShareWithUser hnames hw hmem
    have hsame : p.isRevoked (.granted grant.recipient.claimedHandle expiresAt :: s.history) =
        p.isRevoked s.history := by
      simp [isRevoked, hnames]
    refine ⟨hother, fun w hw hmem => h.spelling w hw (hold w hw hmem), fun hrev hblock hmem => ?_,
      fun hrev => ?_, h.sound⟩
    · exact h.noShare (hsame ▸ hrev) hblock (hold _ (names_iff.2 rfl) hmem)
    · rw [opensTimeline_grant_of_ne _ hnames]
      exact h.noRow (hsame ▸ hrev)

theorem step_delete_cases {s s' : ShareState} {handle : String} {faults : DeleteFaults}
    (h : p.step s (.delete handle faults) = some s') :
    ((validateHandle (Text.trim handle) && p.env.spicedbConfigured && !faults.deleteShare) = false ∧
      s' = s.leave s.store s.history) ∨
    ((validateHandle (Text.trim handle) && p.env.spicedbConfigured && !faults.deleteShare) = true ∧
      s' = s.leave (eraseShare false faults.deleteMeta p.ownerHandle (Text.trim handle) s.store)
        (.revoked (Text.trim handle) :: s.history)) := by
  simp only [SharePair.step, Option.some.injEq] at h
  subst h
  rcases deleteShare_cases p.env faults p.authenticated handle s.store with
    ⟨hno, ⟨r, hreply⟩, hstore⟩ | ⟨hyes, hreply, hstore⟩
  · refine .inl ⟨hno, ?_⟩
    simp only [hreply, hstore]
  · refine .inr ⟨hyes, ?_⟩
    simp only [hreply, hstore]
    rfl

/-- Deleting entries opens no timeline. -/
theorem opensTimeline_erase {s : ShareState} {relationshipFails rowFails : Bool} {v : String}
    {history : List ShareEvent} (h : p.opensTimeline s = false) :
    p.opensTimeline
      (s.leave (eraseShare relationshipFails rowFails p.ownerHandle v s.store) history) =
        false := by
  unfold opensTimeline at h ⊢
  unfold ShareState.leave eraseShare ShareTable.delete
  simp only
  split
  · exact h
  · rw [ShareTable.find_put]
    split
    · rfl
    · exact h

/-- A request that keeps the stores keeps the invariant. -/
theorem RevokeInv.leave {s : ShareState} (h : RevokeInv p s) {history : List ShareEvent}
    (hrevoked : p.isRevoked history = p.isRevoked s.history) (hsound : p.NoRevokedRead history) :
    RevokeInv p (s.leave s.store history) :=
  ⟨h.noOther_leave fun _ => rfl, h.spelling, fun hrev => h.noShare (hrevoked.symm.trans hrev),
    fun hrev => h.noRow (hrevoked.symm.trans hrev), hsound⟩

theorem RevokeInv.delete {s s' : ShareState} (h : RevokeInv p s) {handle : String}
    {faults : DeleteFaults} (hok : p.revokesBoth s (.delete handle faults))
    (hstep : p.step s (.delete handle faults) = some s') : RevokeInv p s' := by
  rcases step_delete_cases hstep with ⟨-, rfl⟩ | ⟨hyes, rfl⟩
  · exact h.leave rfl h.sound
  · refine ⟨h.noOther_leave fun v => viewWithoutShare_eraseShare _ _,
      fun v hv hmem => h.spelling v hv (eraseShare_subset hmem), fun hrev hblock hmem => ?_,
      fun hrev => ?_, h.sound⟩
    · by_cases hnames : p.names (Text.trim handle) = true
      · have hspell := (hok (by simp only [isRevocation, hyes, hnames, Bool.and_self])).1
          (eraseShare_subset hmem) hblock
        have hgone := @shareTuple_notMem_eraseShare faults.deleteMeta p.ownerHandle
          (Text.trim handle) s.store
        rw [← hspell] at hmem
        exact hgone hmem
      · have hrev : p.isRevoked s.history = true := by simpa [isRevoked, hnames] using hrev
        exact h.noShare hrev hblock (eraseShare_subset hmem)
    · by_cases hnames : p.names (Text.trim handle) = true
      · cases hopen : p.opensTimeline s with
        | false => exact opensTimeline_erase hopen
        | true =>
          have hmeta := (hok (by simp only [isRevocation, hyes, hnames, Bool.and_self])).2 hopen
          simp only [opensTimeline, ShareState.leave, eraseShare, hmeta, Bool.false_eq_true,
            if_false]
          rw [ShareTable.delete, ShareTable.find_put_self (names_iff.1 hnames).symm]
          rfl
      · have hrev : p.isRevoked s.history = true := by simpa [isRevoked, hnames] using hrev
        exact opensTimeline_erase (h.noRow hrev)

theorem RevokeInv.read {s s' : ShareState} {age : Nat} (h : RevokeInv p s) {faults : ReadFaults}
    (hok : p.revokesBoth s (.read faults age)) (hstep : p.step s (.read faults age) = some s') :
    RevokeInv p s' := by
  have hnotOf {reply : Except Unit Bool} (hno : reply = .ok true → p.isRevoked s.history ≠ true) :
      reply = .ok true → p.isRevoked s.history = false :=
    fun hreply => Bool.eq_false_iff.2 (hno hreply)
  obtain ⟨seen, reply, hseen, ⟨rfl, htrue⟩ | ⟨rfl, hasks, -, -, htrue⟩⟩ := step_read_cases hstep
  · refine h.leave rfl ⟨hnotOf fun hreply hrev => ?_, h.sound⟩
    obtain ⟨hasks, hview, hlive⟩ := htrue hreply
    have hlive : (faults.find || !p.lapsed s) = true := by
      simpa only [Bool.or_eq_true, Bool.not_eq_true'] using hlive
    have hother := h.noOther seen (List.mem_of_getElem? hseen) _ (names_iff.2 rfl)
    exact hok hrev hasks hlive seen hseen ((checkView_iff hother).1 hview)
  · have hother := (@viewWithoutShare_eraseShare faults.deleteShare faults.deleteMeta
      p.ownerHandle p.recipientHandle s.store _ _).trans
        (h.noOther _ List.mem_cons_self _ (names_iff.2 rfl))
    have hblock : p.env.isBlocked p.ownerHandle p.recipientHandle = false := by
      simp only [asks, SharingEnv.asks, Bool.and_eq_true, Bool.not_eq_true'] at hasks
      exact hasks.1.2
    exact
      { noOther := h.noOther_leave fun v => viewWithoutShare_eraseShare _ _
        spelling := fun v hv hmem => h.spelling v hv (eraseShare_subset hmem)
        noShare := fun hrev hblock hmem => h.noShare hrev hblock (eraseShare_subset hmem)
        noRow := fun hrev => opensTimeline_erase (h.noRow hrev)
        sound := ⟨hnotOf fun hreply hrev => h.noShare hrev hblock
          (eraseShare_subset ((checkView_iff hother).1 (htrue hreply))), h.sound⟩ }

/-- A row that is inactive stays so. -/
theorem RevokeInv.advance {s : ShareState} (h : RevokeInv p s) (micros : Nat) :
    RevokeInv p { s with now := s.now + micros } := by
  refine ⟨h.noOther, h.spelling, h.noShare, fun hrev => ?_, h.sound⟩
  have hclosed := h.noRow hrev
  unfold opensTimeline at hclosed ⊢
  simp only
  cases hrow : s.store.shares.find p.ownerHandle p.recipientHandle with
  | none => rfl
  | some row =>
    rw [hrow] at hclosed
    simp only [Option.any_some, Bool.and_eq_false_iff] at hclosed ⊢
    rcases hclosed with hpast | hflag
    · left
      unfold ShareMeta.active at hpast ⊢
      cases hexp : row.expiresAt with
      | none => simp [hexp] at hpast
      | some t =>
        simp only [hexp, decide_eq_false_iff_not, Int.not_lt] at hpast ⊢
        exact hpast.trans (Int.le_add_of_nonneg_right (Int.natCast_nonneg micros))
    · exact .inr hflag

theorem RevokeInv.step {s : ShareState} {a : ShareAction} {s' : ShareState} (h : RevokeInv p s)
    (hstep : p.step s a = some s') (hok : p.revokesBoth s a) : RevokeInv p s' := by
  cases a with
  | add req faults =>
    rcases step_add_cases hstep with rfl | ⟨grant, hfind, rfl⟩
    · exact h.leave rfl h.sound
    · exact h.grant faults req.expiresAt hfind
  | delete handle faults => exact h.delete hok hstep
  | read faults age => exact h.read hok hstep
  | advance micros =>
    simp only [SharePair.step, Option.some.injEq] at hstep
    subst hstep
    exact h.advance micros

/-- A revocation that misses the relationship or the row leaves the recipient in, and a read that
sees the relationship as it was lets the recipient in. -/
theorem not_effective_of_not_revokesBoth {s s' : ShareState} {a : ShareAction}
    (hstep : p.step s a = some s') (hbad : ¬ p.revokesBoth s a) : ¬ p.RevokedIsEffective s' := by
  cases a with
  | add req faults => exact absurd trivial hbad
  | read faults age =>
    simp only [revokesBoth, Classical.not_imp, not_forall, not_not] at hbad
    obtain ⟨hrev, hasks, hlive, seen, hseen, hmem⟩ := hbad
    obtain ⟨seen', hseen', rfl⟩ := Option.map_eq_some_iff.1 hstep
    obtain rfl : seen = seen' := Option.some.inj (hseen.symm.trans hseen')
    have hlive : faults.find = true ∨
        s.store.shares.lapsed s.now p.ownerHandle p.recipientHandle = false := by
      simpa only [Bool.or_eq_true, Bool.not_eq_true', lapsed] using hlive
    have hreply := checkViewWithExpiry_of_seen hasks hmem hlive
    intro heff
    exact absurd hrev (Bool.eq_false_iff.1 (heff.1.1 hreply))
  | advance micros => exact absurd trivial hbad
  | delete handle faults =>
    simp only [revokesBoth, Classical.not_imp, not_and_or, isRevocation, Bool.and_eq_true] at hbad
    obtain ⟨⟨hyes, hnames⟩, hbad⟩ := hbad
    rcases step_delete_cases hstep with ⟨hno, -⟩ | ⟨-, rfl⟩
    · simp_all
    · intro heff
      have hrev : p.isRevoked (.revoked (Text.trim handle) :: s.history) = true := by
        simp [isRevoked, hnames]
      obtain ⟨hgate, hrow⟩ := heff.2 hrev p.recipientHandle (names_iff.2 rfl)
      rcases hbad with ⟨hmem, hblock, hspell⟩ | ⟨hopen, hmeta⟩
      · -- the relationship stands under its own spelling
        have hkept : shareTuple p.ownerHandle p.recipientHandle ∈
            (eraseShare false faults.deleteMeta p.ownerHandle (Text.trim handle)
              s.store).relationships := by
          simp only [eraseShare, Bool.false_eq_true, if_false, mem_deleteShareWithUser]
          exact ⟨hmem, fun heq => hspell (shareTuple_inj heq).symm⟩
        exact hgate _ (checkViewWithExpiry_of_share hblock hkept s.now)
      · rw [callerMayViewTimeline_eq (names_iff.2 rfl)] at hrow
        simp_all [opensTimeline, ShareState.leave, eraseShare]

/-- **When a revocation is effective**: a run keeps every revoked share shut exactly when each of
its revocations names the relationship as it is spelled and deletes a row that opens the timeline,
and no read is let in by a relationship that its first check still sees. -/
theorem revocation_effective_iff (p : SharePair) {s₀ : ShareState} (h₀ : p.Fresh s₀)
    (as : List ShareAction) :
    Trans.AllStates p.step p.RevokedIsEffective s₀ as ↔
      Trans.AllSteps p.step p.revokesBoth s₀ as := by
  apply Trans.allStates_iff (I := RevokeInv p)
  · exact fun _ h => h.effective
  · exact fun _ _ _ h hstep hok => h.step hstep hok
  · exact fun _ _ _ _ hstep hbad => not_effective_of_not_revokesBoth hstep hbad
  · exact h₀.revokeInv

/-- Bob reads, is revoked, and reads again. -/
theorem revocation_effective_bob :
    Trans.AllStates aliceAndBob.step aliceAndBob.RevokedIsEffective (stateWith noRows)
      [shareWithBob none, .read .none 0, .delete "Bob" .none, .read .none 0] := by
  refine (revocation_effective_iff aliceAndBob (fresh_stateWith _) _).2 ?_
  exact Trans.allSteps_of_exec _ (by decide +kernel)

/-- A row that opens Alice's timeline to Bob. -/
def timelineRow : ShareTable := fun owner recipient =>
  if owner = "alice" ∧ recipient = "bob" then some ⟨"Alice", "Bob", none, none, none, 0, true⟩
  else none

/-- Revoked as `bob`, the relationship with `Bob` stands; with the row left behind, the timeline
stays open; after a revocation that does all it should, a read sees the relationship as it was. -/
theorem revoked_share_grants :
    (aliceAndBob.Fresh (stateWith noRows) ∧
      ¬ Trans.AllStates aliceAndBob.step aliceAndBob.RevokedIsEffective
        (stateWith noRows) [shareWithBob none, .delete "bob" .none]) ∧
    (aliceAndBob.Fresh (stateWith timelineRow) ∧
      ¬ Trans.AllStates aliceAndBob.step aliceAndBob.RevokedIsEffective
        (stateWith timelineRow) [shareWithBob none, .delete "Bob" ⟨false, true⟩]) ∧
    ¬ Trans.AllStates aliceAndBob.step aliceAndBob.RevokedIsEffective
      (stateWith noRows) [shareWithBob none, .delete "Bob" .none, .read .none 1] := by
  refine ⟨⟨fresh_stateWith _, fun hall => ?_⟩, ⟨fresh_stateWith _, fun hall => ?_⟩, fun hall => ?_⟩
  · have hrun : (Trans.exec aliceAndBob.step Trans.always (stateWith noRows)
        [shareWithBob none, .delete "bob" .none]).map (fun s => (aliceAndBob.isRevoked s.history,
          (checkViewWithExpiry aliceEnv .none s.now "Alice" "Bob" s.store.relationships
            s.store).reply)) =
        some (true, .ok true) := by decide +kernel
    obtain ⟨s, hs, hobs⟩ := Option.map_eq_some_iff.1 hrun
    simp only [Prod.mk.injEq] at hobs
    exact ((hall.of_exec hs).2 hobs.1 "Bob" (by decide +kernel)).1 .none hobs.2
  · have hrun : (Trans.exec aliceAndBob.step Trans.always (stateWith timelineRow)
        [shareWithBob none, .delete "Bob" ⟨false, true⟩]).map (fun s =>
          (aliceAndBob.isRevoked s.history,
            callerMayViewTimeline s.now s.store.shares "Alice" "Bob")) =
        some (true, true) := by decide +kernel
    obtain ⟨s, hs, hobs⟩ := Option.map_eq_some_iff.1 hrun
    simp only [Prod.mk.injEq] at hobs
    have hshut := ((hall.of_exec hs).2 hobs.1 "Bob" (by decide +kernel)).2
    exact absurd (hobs.2.symm.trans hshut) (by decide)
  · have hrun : (Trans.exec aliceAndBob.step Trans.always (stateWith noRows)
        [shareWithBob none, .delete "Bob" .none, .read .none 1]).map (·.history) =
        some [.read 0 (.ok true), .revoked "Bob", .granted "Bob" none] := by decide +kernel
    obtain ⟨s, hs, hhist⟩ := Option.map_eq_some_iff.1 hrun
    have hsound := (hall.of_exec hs).1
    rw [hhist] at hsound
    exact absurd (hsound.1 rfl) (by decide +kernel)

end SharePair

end StarStats
