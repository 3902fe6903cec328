import StarStats.Server.Blocks
import StarStats.Server.Proof.Social

/-!
# A block and the requests under way

`Apart` says what the block has cleared so far and that it is still gone. A call that adds the
friendship, or writes its tuples, after the block has cleared them breaks it for good
(`not_apart_of_late`, `not_apart_step`); every other step keeps it (`apart_step`). So the two are
apart at the end exactly when every call was in time (`ended_iff_in_time`). A call that runs alone
is the handler of `Social` (`sendStep_alone`, `acceptStep_alone`).
-/

namespace StarStats

open Text (lower)

namespace Blocks

variable {env : SocialEnv} {a b me them : SocialUser} {now : Timestamp} {id : Uuid}

/-! ## What a call writes -/

/-- What a call does to the blocks, the friendships and the tuples. -/
structure Writes (a b : SocialUser) (c : Call) (s s' : Stores) : Prop where
  blocks : s'.social.blocks = s.social.blocks
  friendships : ∀ x y, areFriends x y s'.social.friendships =
    (areFriends x y s.social.friendships ||
      (c.befriends a b).any fun p => (Friendship.ofPair p.1 p.2 0).between x y)
  rels : ∀ x y, friendTuple x y ∈ s'.rels ↔ friendTuple x y ∈ s.rels ∨
    ∃ p, c.shares a b = some p ∧ p.1 ≠ p.2 ∧ (x = p.1 ∧ y = p.2 ∨ x = p.2 ∧ y = p.1)

section
variable {c : Call} {s s' : Stores}

theorem writes_nothing (hblocks : s'.social.blocks = s.social.blocks)
    (hfriendships : s'.social.friendships = s.social.friendships) (hrels : s'.rels = s.rels)
    (hbefriends : c.befriends a b = none) (hshares : c.shares a b = none) : Writes a b c s s' where
  blocks := hblocks
  friendships x y := by rw [hfriendships, hbefriends, Option.any_none, Bool.or_false]
  rels x y := by simp [hrels, hshares]

theorem writes_friendship {p : String × String} (hbefriends : c.befriends a b = some p)
    (hshares : c.shares a b = none) : Writes a b c s { s with
      social := { s.social with
        friendships := addFriendship p.1 p.2 now s.social.friendships } } where
  blocks := rfl
  friendships x y := by rw [areFriends_addFriendship, hbefriends, Option.any_some]
  rels x y := by simp [hshares]

theorem writes_tuples {p : String × String} (hbefriends : c.befriends a b = none)
    (hshares : c.shares a b = some p) :
    Writes a b c s { s with rels := applyFriends p.1 p.2 true s.rels } where
  blocks := rfl
  friendships x y := by rw [hbefriends, Option.any_none, Bool.or_false]
  rels x y := by
    rw [mem_writeFriends, hshares]
    simp only [Option.some.injEq, exists_eq_left']

end

theorem sendStep_writes (byB : Bool) (phase : SendPhase) (s : Stores)
    (hme : (me, them) = if byB then (b, a) else (a, b)) :
    Writes a b (.send byB phase) s (sendStep env me them now id (phase, s)).2 := by
  cases phase with
  | addFriendship =>
    apply writes_friendship (p := (me.claimedHandle, them.claimedHandle))
    · cases byB <;> cases hme <;> rfl
    · rfl
  | writeTuples =>
    apply writes_tuples (p := (me.claimedHandle, them.claimedHandle))
    · rfl
    · cases byB <;> cases hme <;> rfl
  | _ =>
    simp only [sendStep]
    (try split) <;> exact writes_nothing rfl rfl rfl rfl rfl

theorem acceptStep_writes (byB : Bool) (phase : AcceptPhase) (s : Stores) :
    Writes a b (.accept byB phase) s (acceptStep me now (phase, s)).2 := by
  cases phase with
  | addFriendship r =>
    exact writes_friendship (p := (r.requesterHandle, r.recipientHandle)) rfl rfl
  | writeTuples r =>
    exact writes_tuples (p := (r.requesterHandle, r.recipientHandle)) rfl rfl
  | _ =>
    simp only [acceptStep]
    (repeat' split) <;> exact writes_nothing rfl rfl rfl rfl rfl

theorem callStep_writes (c : Call) (s : Stores) :
    Writes a b c s (callStep env a b now id c s).2 := by
  cases c with
  | send byB phase =>
    cases byB with
    | true => exact sendStep_writes true phase s rfl
    | false => exact sendStep_writes false phase s rfl
  | accept byB phase => exact acceptStep_writes byB phase s

/-! ## A call that runs alone -/

/-- `send_request` without another call between is the handler. -/
theorem sendStep_alone (s : Stores) :
    ((sendStep env me them now id)^[9] (.areFriends, s)).1 =
        .done (sendBetween env now me them id s.social).1 ∧
      ((sendStep env me them now id)^[9] (.areFriends, s)).2.social =
        (sendBetween env now me them id s.social).2 := by
  simp only [Function.iterate_succ_apply, Function.iterate_zero_apply]
  cases hfriends : areFriends me.claimedHandle them.claimedHandle s.social.friendships with
  | true => simp [sendStep, sendBetween, hfriends]
  | false =>
  cases hmine : isBlocked me.claimedHandle them.claimedHandle s.social.blocks with
  | true => simp [sendStep, sendBetween, hfriends, hmine]
  | false =>
  by_cases hlimit : requestRateLimitPerWindow ≤
      s.social.requests.countRecent me.claimedHandle (now - requestRateLimitWindow)
  · simp [sendStep, sendBetween, hfriends, hmine, hlimit]
  cases hpolicy : policyRefusal env me them (s.social.getPolicy them.claimedHandle) with
  | some r => simp [sendStep, sendBetween, hfriends, hmine, hlimit, hpolicy]
  | none =>
  cases htheirs : isBlocked them.claimedHandle me.claimedHandle s.social.blocks with
  | true =>
    cases hnew : s.social.requests.create id me.claimedHandle them.claimedHandle now <;>
      simp [sendStep, sendBetween, createFriendRequest, hfriends, hmine, hlimit, hpolicy, htheirs,
        hnew]
  | false =>
  cases hreverse : s.social.requests.findPending them.claimedHandle me.claimedHandle with
  | none =>
    cases hnew : s.social.requests.create id me.claimedHandle them.claimedHandle now <;>
      simp [sendStep, sendBetween, createFriendRequest, hfriends, hmine, hlimit, hpolicy, htheirs,
        hreverse, hnew]
  | some reverse =>
    cases hresolve : s.social.requests.resolve reverse.id .accepted now <;>
      simp [sendStep, sendBetween, hfriends, hmine, hlimit, hpolicy, htheirs, hreverse, hresolve]

/-- `accept_request` without another call between is the handler. -/
theorem acceptStep_alone {auth : AuthenticatedUser} (s : Stores)
    (hcaller : socialCaller env auth s.social.users = .ok me) :
    ((acceptStep me now)^[5] (.get id, s)).1 = .done (acceptRequest env auth now id s.social).1 ∧
      ((acceptStep me now)^[5] (.get id, s)).2.social =
        (acceptRequest env auth now id s.social).2 := by
  simp only [Function.iterate_succ_apply, Function.iterate_zero_apply, acceptRequest, hcaller,
    requestFor]
  cases hget : s.social.requests.get id with
  | none => simp [acceptStep, hget]
  | some r =>
  cases hside : Text.eqIgnoreAsciiCase r.recipientHandle me.claimedHandle with
  | false => simp [acceptStep, hget, hside]
  | true =>
  cases hblocked : isBlocked me.claimedHandle r.requesterHandle s.social.blocks with
  | true => simp [acceptStep, hget, hside, hblocked]
  | false =>
    cases hresolve : s.social.requests.resolve r.id .accepted now <;>
      simp [acceptStep, hget, hside, hblocked, hresolve]

/-! ## What the block has cleared -/

/-- What the block has cleared is gone. -/
structure Apart (a b : SocialUser) (s : State) : Prop where
  friendship : s.block.removed = true →
    areFriends b.claimedHandle a.claimedHandle s.stores.social.friendships = false
  tuples : s.block.unshared = true →
    friendTuple a.claimedHandle b.claimedHandle ∉ s.stores.rels ∧
      friendTuple b.claimedHandle a.claimedHandle ∉ s.stores.rels

/-- The row of the block is there once it is written. -/
def Blocked (a b : SocialUser) (s : State) : Prop :=
  s.block ≠ .block → isBlocked b.claimedHandle a.claimedHandle s.stores.social.blocks = true

/-- What a step is. -/
inductive Effect (env : SocialEnv) (a b : SocialUser) (s : State) : Action → State → Prop
  | began (act : Action) (calls : List Call) (hact : ∀ i now id, act ≠ .next i now id) :
    Effect env a b s act { s with calls := calls }
  | blocked (now : Timestamp) (hdone : s.block ≠ .done) :
    Effect env a b s (.block now)
      { s with
        block := (blockStep b.claimedHandle a.claimedHandle now (s.block, s.stores)).1
        stores := (blockStep b.claimedHandle a.claimedHandle now (s.block, s.stores)).2 }
  | went (i : Nat) (now : Timestamp) (id : Uuid) (c : Call) (hc : s.calls[i]? = some c)
    (hopen : c.finished = false) (stores : Stores) (calls : List Call)
    (hwrites : Writes a b c s.stores stores) :
    Effect env a b s (.next i now id) { s with stores := stores, calls := calls }

theorem effect_of_step {s s' : State} {act : Action} (h : step env a b s act = some s') :
    Effect env a b s act s' := by
  cases act with
  | send byB =>
    cases h
    exact .began _ _ (by simp)
  | accept byB id =>
    cases h
    exact .began _ _ (by simp)
  | block now =>
    simp only [step] at h
    split at h
    · cases h
    · rename_i hdone
      cases h
      exact .blocked now hdone
  | next i now id =>
    simp only [step] at h
    split at h
    · cases h
    · rename_i c hc
      split at h
      · cases h
      · rename_i hopen
        cases h
        exact .went i now id c hc (by simpa using hopen) _ _ (callStep_writes c s.stores)

theorem blocked_step {s s' : State} {act : Action} (h : step env a b s act = some s')
    (hs : Blocked a b s) : Blocked a b s' := by
  cases effect_of_step h with
  | began => exact hs
  | blocked now hdone =>
    intro _
    cases hphase : s.block with
    | block => exact isBlocked_block _ _ _
    | done => exact absurd hphase hdone
    | _ => exact hs (by simp [hphase])
  | went i now id c hc hopen stores calls hwrites =>
    intro hphase
    rw [hwrites.blocks]
    exact hs hphase

theorem apart_step (hne : a.claimedHandle ≠ b.claimedHandle) {s s' : State} {act : Action}
    (hs : Apart a b s) (h : step env a b s act = some s') (hok : InTime a b s act) :
    Apart a b s' := by
  cases effect_of_step h with
  | began => exact ⟨hs.friendship, hs.tuples⟩
  | blocked now hdone =>
    obtain ⟨hfriendship, htuples⟩ := hs
    cases hphase : s.block with
    | block =>
      exact ⟨by simp [blockStep, BlockPhase.removed], by simp [blockStep, BlockPhase.unshared]⟩
    | removeFriendship =>
      exact ⟨fun _ => areFriends_removeFriendship _ _ _,
        by simp [blockStep, BlockPhase.unshared]⟩
    | deleteTuples =>
      rw [hphase] at hfriendship
      refine ⟨fun _ => hfriendship rfl, fun _ => ?_⟩
      simp [blockStep, mem_deleteFriends hne.symm]
    | cancelPending =>
      rw [hphase] at hfriendship htuples
      exact ⟨fun _ => hfriendship rfl, fun _ => htuples rfl⟩
    | done => exact absurd hphase hdone
  | went i now id c hc hopen stores calls hwrites =>
    obtain ⟨hbefriends, hshares⟩ := hok c hc hopen
    constructor
    · intro hremoved
      rw [hwrites.friendships, hs.friendship hremoved]
      exact hbefriends hremoved
    · intro hunshared
      have hnone := hshares hunshared
      obtain ⟨hab, hba⟩ := hs.tuples hunshared
      simp only [hwrites.rels]
      constructor
      · rintro (hmem | ⟨p, hp, -, ⟨h₁, h₂⟩ | ⟨h₁, h₂⟩⟩)
        · exact hab hmem
        · simp [hp, sharesBoth, Prod.ext_iff, h₁, h₂] at hnone
        · simp [hp, sharesBoth, Prod.ext_iff, h₁, h₂] at hnone
      · rintro (hmem | ⟨p, hp, -, ⟨h₁, h₂⟩ | ⟨h₁, h₂⟩⟩)
        · exact hba hmem
        · simp [hp, sharesBoth, Prod.ext_iff, h₁, h₂] at hnone
        · simp [hp, sharesBoth, Prod.ext_iff, h₁, h₂] at hnone

theorem not_apart_iff {s : State} : ¬ Apart a b s ↔
    (s.block.removed = true ∧
      areFriends b.claimedHandle a.claimedHandle s.stores.social.friendships = true) ∨
    (s.block.unshared = true ∧
      (friendTuple a.claimedHandle b.claimedHandle ∈ s.stores.rels ∨
        friendTuple b.claimedHandle a.claimedHandle ∈ s.stores.rels)) := by
  constructor
  · intro h
    by_contra hnot
    simp only [not_or, not_and, Bool.not_eq_true] at hnot
    exact h ⟨hnot.1, hnot.2⟩
  · rintro (⟨hremoved, hfriends⟩ | ⟨hunshared, hmem⟩) hs
    · rw [hs.friendship hremoved] at hfriends
      cases hfriends
    · rcases hmem with hmem | hmem
      · exact (hs.tuples hunshared).1 hmem
      · exact (hs.tuples hunshared).2 hmem

/-- A late write brings back what the block has cleared. -/
theorem not_apart_of_late (hne : a.claimedHandle ≠ b.claimedHandle) {s s' : State} {act : Action}
    (h : step env a b s act = some s') (hlate : ¬ InTime a b s act) : ¬ Apart a b s' := by
  cases effect_of_step h with
  | began act calls hact =>
    cases act with
    | next i now id => exact absurd rfl (hact i now id)
    | _ => exact absurd trivial hlate
  | blocked => exact absurd trivial hlate
  | went i now id c hc hopen stores calls hwrites =>
    rw [not_apart_iff]
    by_contra hnot
    apply hlate
    intro c' hc' _
    rw [hc] at hc'
    obtain rfl := Option.some.inj hc'
    simp only [not_or, not_and, hwrites.friendships, hwrites.rels] at hnot
    refine ⟨fun hremoved => ?_, fun hunshared => ?_⟩
    · have hfriends := hnot.1 hremoved
      simp only [Bool.not_eq_true, Bool.or_eq_false_iff] at hfriends
      exact hfriends.2
    · cases hshares : c.shares a b with
      | none => rfl
      | some p =>
        rw [Option.any_some, sharesBoth, Bool.or_eq_false_iff, decide_eq_false_iff_not,
          decide_eq_false_iff_not]
        constructor
        · rintro rfl
          exact (hnot.2 hunshared).1.2 ⟨_, hshares, hne, .inl ⟨rfl, rfl⟩⟩
        · rintro rfl
          exact (hnot.2 hunshared).2.2 ⟨_, hshares, hne.symm, .inl ⟨rfl, rfl⟩⟩

/-- And nothing takes it away again. -/
theorem not_apart_step {s s' : State} {act : Action} (hs : ¬ Apart a b s)
    (h : step env a b s act = some s') : ¬ Apart a b s' := by
  rw [not_apart_iff] at hs ⊢
  cases effect_of_step h with
  | began => exact hs
  | blocked now hdone =>
    cases hphase : s.block with
    | deleteTuples =>
      simp only [hphase, BlockPhase.removed, BlockPhase.unshared, Bool.false_eq_true, false_and,
        or_false] at hs
      exact .inl ⟨rfl, hs.2⟩
    | cancelPending =>
      rw [hphase] at hs
      exact hs
    | done => exact absurd hphase hdone
    | _ => simp [hphase, BlockPhase.removed, BlockPhase.unshared] at hs
  | went i now id c hc hopen stores calls hwrites =>
    simp only [hwrites.friendships, hwrites.rels]
    rcases hs with ⟨hremoved, hfriends⟩ | ⟨hunshared, hmem⟩
    · exact .inl ⟨hremoved, by rw [hfriends, Bool.true_or]⟩
    · exact .inr ⟨hunshared, hmem.imp .inl .inl⟩

/-! ## Whole runs -/

theorem noneListed_of_blocked {t : SocialTables} {x y : String}
    (h : isBlocked y x t.blocks = true) :
    ∀ r ∈ t.listIncoming y, lower r.requesterHandle ≠ lower x := by
  intro r hr heq
  have hmem := (List.perm_insertionSort _ _).mem_iff.1 (List.mem_of_mem_take hr)
  simp only [List.mem_filter, Bool.and_eq_true, Bool.not_eq_true'] at hmem
  have hfree := hmem.2.2
  unfold isBlocked at h hfree
  rw [heq, h] at hfree
  cases hfree

/-- **Which runs leave the two apart.** When the block of `a` by `b` and every call have returned,
there is no friendship and no friend tuple of the two, and no request of `a` is listed to `b`,
exactly when no call added the friendship after the block had removed it or wrote its tuples after
the block had deleted them. -/
theorem ended_iff_in_time (hne : a.claimedHandle ≠ b.claimedHandle) (stores : Stores)
    (as : List Action) (s : State)
    (hrun : Trans.exec (step env a b) Trans.always (.start stores) as = some s)
    (hdone : s.finished = true) :
    Ended a b s ↔ Trans.AllSteps (step env a b) (InTime a b) (.start stores) as := by
  have hstart : Apart a b (.start stores) :=
    ⟨by simp [State.start, BlockPhase.removed], by simp [State.start, BlockPhase.unshared]⟩
  have hphase : s.block = .done := by
    simp only [State.finished, Bool.and_eq_true, decide_eq_true_eq] at hdone
    exact hdone.1
  have hblocked : Blocked a b s := by
    have hreach : Trans.Reach (step env a b) Trans.always (.start stores) s :=
      Trans.reach_of_exec as hrun
    exact hreach.inv (fun h => absurd rfl h) fun _ _ _ hs _ h => blocked_step h hs
  rw [← Trans.last_iff (fun _ _ _ hs h hok => apart_step hne hs h hok)
    (fun _ _ _ h hlate => not_apart_of_late hne h hlate)
    (fun _ _ _ hs h => not_apart_step hs h) as hstart hrun]
  constructor
  · intro h
    exact ⟨fun _ => h.noFriendship, fun _ => h.noTuples⟩
  · intro h
    refine ⟨h.friendship (by simp [hphase, BlockPhase.removed]),
      h.tuples (by simp [hphase, BlockPhase.unshared]), ?_⟩
    exact noneListed_of_blocked (hblocked (by simp [hphase]))

/-! ### Two users -/

def alice : SocialUser := ⟨"u1", "Alice", none, none, none⟩

def bob : SocialUser := ⟨"u2", "Bob", none, none, none⟩

def idEnv : SocialEnv := ⟨some, fun _ => .ok none, none⟩

/-- Bob has asked Alice. -/
def asked : Stores :=
  ⟨⟨[alice, bob], ⟨[⟨"r1", "Bob", "Alice", .pending, 0, none⟩], by decide⟩, [], []⟩, []⟩

/-- Alice accepts first, and Bob then blocks her. -/
def acceptThenBlock : List Action :=
  [.accept false "r1", .next 0 1 "", .next 0 2 "", .next 0 3 "", .next 0 4 "", .next 0 5 "",
    .block 6, .block 7, .block 8, .block 9]

/-- Bob's block is at its friend tuples when Alice accepts. -/
def acceptInBlock : List Action :=
  [.block 1, .block 2, .block 3, .accept false "r1", .next 0 4 "", .next 0 5 "", .next 0 6 "",
    .next 0 7 "", .next 0 8 "", .block 9]

/-- Bob's block is behind it all. -/
theorem ended_in_time_accept : ∃ s,
    Trans.exec (step idEnv alice bob) Trans.always (.start asked) acceptThenBlock = some s ∧
      Ended alice bob s := by
  have hrun : (Trans.exec (step idEnv alice bob) Trans.always (.start asked)
      acceptThenBlock).map State.finished = some true := by decide
  obtain ⟨s, hs, hdone⟩ := Option.map_eq_some_iff.1 hrun
  refine ⟨s, hs, (ended_iff_in_time (by decide) asked acceptThenBlock s hs hdone).2 ?_⟩
  exact Trans.allSteps_of_exec acceptThenBlock (by decide)

/-- A friendship accepted while the block is under way outlives it. -/
theorem accept_outlives_block : ¬ ∀ (env : SocialEnv) (a b : SocialUser) (stores : Stores)
    (as : List Action) (s : State), a.claimedHandle ≠ b.claimedHandle →
    Trans.exec (step env a b) Trans.always (.start stores) as = some s → s.finished = true →
    Ended a b s := by
  intro h
  have hrun : (Trans.exec (step idEnv alice bob) Trans.always (.start asked) acceptInBlock).map
      (fun s => (s.finished, areFriends "Bob" "Alice" s.stores.social.friendships)) =
      some (true, true) := by decide +kernel
  obtain ⟨s, hs, heq⟩ := Option.map_eq_some_iff.1 hrun
  obtain ⟨hdone, hfriends⟩ := Prod.mk.inj heq
  have hnone := (h idEnv alice bob asked acceptInBlock s (by decide) hs hdone).noFriendship
  exact absurd (hfriends.symm.trans hnone) (by decide)

end Blocks

end StarStats
