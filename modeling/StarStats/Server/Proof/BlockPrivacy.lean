import StarStats.Server.Proof.Social

/-!
# A block does not show

`block_does_not_show`: what a sender is answered is the same with and without a row in which the
other has blocked him, call by call, for the tables stay the same but for that row
(`senderRun_withBlocks`). `SameView` is what the other's answers depend on: no call of a blocked
sender changes it (`sameView_sender`), and the other's own calls keep it (`SameView.run`), so that
the sender's calls can be left out (`recipientRun_ofRecipient`).
-/

namespace StarStats

open Text (lower)

namespace BlockPrivacy

variable {env : SocialEnv} {auth : AuthenticatedUser} {now : Timestamp} {s : SocialTables}
  {me them : SocialUser} {id : Uuid} {a b : String} {bs : List (String × String)}

/-! ## The sender -/

/-- The tables with other blocks. -/
abbrev withBlocks (s : SocialTables) (bs : List (String × String)) : SocialTables :=
  { s with blocks := bs }

/-- `bs` has one more row: `b` has blocked `a`. -/
def OneMore (s : SocialTables) (b a : String) (bs : List (String × String)) : Prop :=
  ∀ x y, isBlocked x y bs =
    (isBlocked x y s.blocks || (lower x == lower b && lower y == lower a))

/-- The answer is the same, and the tables again differ in the blocks only. -/
structure Alike {α : Type} (s : SocialTables) (bs : List (String × String)) (b a : String)
    (f : SocialTables → α × SocialTables) : Prop where
  eq : f (withBlocks s bs) = ((f s).1, withBlocks (f s).2 bs)
  blocks : (f s).2.blocks = s.blocks
  users : (f s).2.users = s.users
  pending : (f s).2.requests.NonePending b a

theorem alike_iff {α : Type} (f : SocialTables → α × SocialTables) : Alike s bs b a f ↔
    f (withBlocks s bs) = ((f s).1, withBlocks (f s).2 bs) ∧ (f s).2.blocks = s.blocks ∧
      (f s).2.users = s.users ∧ (f s).2.requests.NonePending b a :=
  ⟨fun h => ⟨h.eq, h.blocks, h.users, h.pending⟩, fun h => ⟨h.1, h.2.1, h.2.2.1, h.2.2.2⟩⟩

theorem alike_refused {α : Type} {f : SocialTables → α × SocialTables} (answer : α)
    (hpending : s.requests.NonePending b a) (h : f s = (answer, s))
    (h' : f (withBlocks s bs) = (answer, withBlocks s bs)) : Alike s bs b a f := by
  constructor <;> simp only [h, h']
  exact hpending

theorem alike_create (hab : lower a ≠ lower b) (hpending : s.requests.NonePending b a)
    (theirs : String) : Alike s bs b a (createFriendRequest now a theirs id) := by
  cases hcreate : s.requests.create id a theirs now with
  | error e =>
    exact alike_refused (.error (socialErr e)) hpending
      (by simp only [createFriendRequest, hcreate]) (by simp only [createFriendRequest, hcreate])
  | ok p =>
    obtain ⟨r, requests⟩ := p
    constructor <;> simp only [createFriendRequest, hcreate]
    exact hpending.create hab hcreate

@[simp] theorem getPolicy_withBlocks (handle : String) :
    (withBlocks s bs).getPolicy handle = s.getPolicy handle := rfl

/-- Past the checks that read no block of the other side. -/
theorem alike_passed (hme : me.claimedHandle = a) (hab : lower a ≠ lower b)
    (hbs : OneMore s b a bs) (hpending : s.requests.NonePending b a)
    (hfriends : areFriends me.claimedHandle them.claimedHandle s.friendships = false)
    (hmine : isBlocked me.claimedHandle them.claimedHandle s.blocks = false)
    (hmine' : isBlocked me.claimedHandle them.claimedHandle bs = false)
    (hlimit : ¬ requestRateLimitPerWindow ≤
      s.requests.countRecent me.claimedHandle (now - requestRateLimitWindow))
    (hpolicy : policyRefusal env me them (s.getPolicy them.claimedHandle) = none) :
    Alike s bs b a (sendBetween env now me them id) := by
  subst hme
  have hcreate : Alike s bs b me.claimedHandle
      (createFriendRequest now me.claimedHandle them.claimedHandle id) :=
    alike_create hab hpending them.claimedHandle
  by_cases hthem : lower them.claimedHandle = lower b
  · -- blocked or not, there is no request the other way
    have hnone : s.requests.findPending them.claimedHandle me.claimedHandle = none :=
      RequestTable.findPending_eq_none.2 (hpending.congr hthem rfl)
    have hblocked : isBlocked them.claimedHandle me.claimedHandle bs = true := by
      rw [hbs]
      simp [hthem]
    have hs : sendBetween env now me them id s =
        createFriendRequest now me.claimedHandle them.claimedHandle id s := by
      simp [sendBetween, hfriends, hmine, hlimit, hpolicy, hnone]
    have hs' : sendBetween env now me them id (withBlocks s bs) =
        createFriendRequest now me.claimedHandle them.claimedHandle id (withBlocks s bs) := by
      simp [sendBetween, hfriends, hmine', hlimit, hpolicy, hblocked]
    constructor
    · rw [hs, hs']
      exact hcreate.eq
    · rw [hs]
      exact hcreate.blocks
    · rw [hs]
      exact hcreate.users
    · rw [hs]
      exact hcreate.pending
  · have hsame : isBlocked them.claimedHandle me.claimedHandle bs =
        isBlocked them.claimedHandle me.claimedHandle s.blocks := by
      rw [hbs]
      simp [hthem]
    rw [alike_iff]
    simp only [sendBetween, hfriends, hmine, hmine', hlimit, hpolicy, getPolicy_withBlocks, hsame,
      Bool.false_eq_true, if_false]
    split
    · exact (alike_iff _).1 hcreate
    · split
      · exact (alike_iff _).1 hcreate
      · rename_i reverse _
        split
        · exact ⟨rfl, rfl, rfl, hpending⟩
        · rename_i r requests hresolve
          obtain ⟨-, rfl⟩ := RequestTable.resolve_eq_ok hresolve
          exact ⟨rfl, rfl, rfl, hpending.setStatus _ (by decide)⟩

theorem alike_sendBetween (hme : me.claimedHandle = a) (hab : lower a ≠ lower b)
    (hbs : OneMore s b a bs) (hpending : s.requests.NonePending b a) :
    Alike s bs b a (sendBetween env now me them id) := by
  have hsame : isBlocked me.claimedHandle them.claimedHandle bs =
      isBlocked me.claimedHandle them.claimedHandle s.blocks := by
    rw [hbs, hme]
    simp [hab]
  cases hfriends : areFriends me.claimedHandle them.claimedHandle s.friendships with
  | true =>
    exact alike_refused (.error (refuse 409 "already_friends" none)) hpending
      (by simp only [sendBetween, hfriends, if_true])
      (by simp only [sendBetween, hfriends, if_true])
  | false =>
    cases hmine : isBlocked me.claimedHandle them.claimedHandle s.blocks with
    | true =>
      exact alike_refused (.error (refuse 409 "you_blocked_user" none)) hpending
        (by simp [sendBetween, hfriends, hmine])
        (by simp [sendBetween, hfriends, hsame, hmine])
    | false =>
      rw [hmine] at hsame
      by_cases hlimit : requestRateLimitPerWindow ≤
          s.requests.countRecent me.claimedHandle (now - requestRateLimitWindow)
      · exact alike_refused (.error (refuse 429 "rate_limited" none)) hpending
          (by simp [sendBetween, hfriends, hmine, hlimit])
          (by simp [sendBetween, hfriends, hsame, hlimit])
      · cases hpolicy : policyRefusal env me them (s.getPolicy them.claimedHandle) with
        | some r =>
          exact alike_refused (.error r) hpending
            (by simp [sendBetween, hfriends, hmine, hlimit, hpolicy])
            (by simp [sendBetween, hfriends, hsame, hlimit, hpolicy])
        | none => exact alike_passed hme hab hbs hpending hfriends hmine hsame hlimit hpolicy

theorem alike_send (hcaller : socialCaller env auth s.users = .ok me)
    (hme : me.claimedHandle = a) (hab : lower a ≠ lower b) (hbs : OneMore s b a bs)
    (hpending : s.requests.NonePending b a) (handle : String) :
    Alike s bs b a (sendRequest env auth now handle id) := by
  have htarget : socialTarget handle (withBlocks s bs) = socialTarget handle s := rfl
  cases hthem : socialTarget handle s with
  | error r =>
    exact alike_refused (.error r) hpending (by simp only [sendRequest, hcaller, hthem])
      (by simp only [sendRequest, hcaller, htarget, hthem])
  | ok them =>
    by_cases hself : them.id = me.id
    · exact alike_refused (.error (refuse 400 "cannot_friend_self" none)) hpending
        (by simp only [sendRequest, hcaller, hthem, hself, if_true])
        (by simp only [sendRequest, hcaller, htarget, hthem, hself, if_true])
    · rw [alike_iff]
      simp only [sendRequest, hcaller, htarget, hthem, hself, if_false]
      exact (alike_iff _).1 (alike_sendBetween hme hab hbs hpending)

theorem alike_cancel (hcaller : socialCaller env auth s.users = .ok me)
    (hpending : s.requests.NonePending b a) :
    Alike s bs b a (cancelRequest env auth now id) := by
  have hfor : requestFor id me false (withBlocks s bs) = requestFor id me false s := by
    simp only [requestFor, Bool.false_and]
  cases hreq : requestFor id me false s with
  | error r =>
    exact alike_refused (.error r) hpending
      (by simp only [cancelRequest, resolveQuietly, hcaller, hreq])
      (by simp only [cancelRequest, resolveQuietly, hcaller, hfor, hreq])
  | ok r =>
    cases hresolve : s.requests.resolve r.id .cancelled now with
    | error e =>
      exact alike_refused (.error (socialErr e)) hpending
        (by simp only [cancelRequest, resolveQuietly, hcaller, hreq, hresolve])
        (by simp only [cancelRequest, resolveQuietly, hcaller, hfor, hreq, hresolve])
    | ok p =>
      obtain ⟨-, hrequests⟩ := RequestTable.resolve_eq_ok hresolve
      constructor <;>
        simp only [cancelRequest, resolveQuietly, hcaller, hfor, hreq, hresolve]
      rw [hrequests]
      exact hpending.setStatus _ (by decide)

/-- The sender's own list has no block of the other side in it. -/
theorem listFriends_withBlocks (hcaller : socialCaller env auth s.users = .ok me)
    (hme : me.claimedHandle = a) (hab : lower a ≠ lower b) (hbs : OneMore s b a bs) :
    listFriends env auth (withBlocks s bs) = listFriends env auth s := by
  have hsame : ∀ handle, isBlocked a handle bs = isBlocked a handle s.blocks := by
    intro handle
    rw [hbs]
    simp [hab]
  subst hme
  simp only [listFriends, hcaller, SocialTables.listIncoming, hsame]
  rfl

theorem alike_run (hcaller : socialCaller env auth s.users = .ok me)
    (hme : me.claimedHandle = a) (hab : lower a ≠ lower b) (hbs : OneMore s b a bs)
    (hpending : s.requests.NonePending b a) (call : SenderCall) :
    Alike s bs b a (fun s => call.run env auth now s) := by
  cases call with
  | send handle id =>
    obtain ⟨heq, hblocks, husers, hnone⟩ : Alike s bs b a (sendRequest env auth now handle id) :=
      alike_send hcaller hme hab hbs hpending handle
    exact ⟨by simp only [SenderCall.run, heq], hblocks, husers, hnone⟩
  | cancel id =>
    obtain ⟨heq, hblocks, husers, hnone⟩ : Alike s bs b a (cancelRequest env auth now id) :=
      alike_cancel hcaller hpending
    exact ⟨by simp only [SenderCall.run, heq], hblocks, husers, hnone⟩
  | list =>
    refine ⟨?_, rfl, rfl, hpending⟩
    simp only [SenderCall.run, listFriends_withBlocks hcaller hme hab hbs]

/-- The sender is answered the same, whatever he calls. -/
theorem senderRun_withBlocks (hme : me.claimedHandle = a) (hab : lower a ≠ lower b) :
    ∀ (calls : List (Timestamp × SenderCall)) (s : SocialTables),
      socialCaller env auth s.users = .ok me → OneMore s b a bs → s.requests.NonePending b a →
      (senderRun env auth calls (withBlocks s bs)).1 = (senderRun env auth calls s).1
  | [], _, _, _, _ => rfl
  | (now, call) :: calls, s, hcaller, hbs, hpending => by
    obtain ⟨heq, hblocks, husers, hnone⟩ :
        Alike s bs b a (fun s => call.run env auth now s) :=
      alike_run hcaller hme hab hbs hpending call
    simp only [senderRun, heq]
    congr 1
    apply senderRun_withBlocks hme hab calls
    · rw [husers]
      exact hcaller
    · unfold OneMore
      rw [hblocks]
      exact hbs
    · exact hnone

/-! ## The other side -/

/-- A request that `b` sees: one that he sent, or one to him from someone he has not blocked. -/
def sees (b : String) (blocks : List (String × String)) (r : FriendRequest) : Bool :=
  lower r.requesterHandle == lower b ||
    lower r.recipientHandle == lower b && !isBlocked b r.requesterHandle blocks

/-- What the answers to `b` depend on. -/
structure SameView (b : String) (s s' : SocialTables) : Prop where
  users : s'.users = s.users
  blocks : s'.blocks = s.blocks
  friendships : s'.friendships.filter (·.names b) = s.friendships.filter (·.names b)
  requests : s'.requests.rows.filter (sees b s.blocks) = s.requests.rows.filter (sees b s.blocks)

theorem SameView.refl (b : String) (s : SocialTables) : SameView b s s := ⟨rfl, rfl, rfl, rfl⟩

theorem SameView.trans {s₁ s₂ s₃ : SocialTables} (h : SameView b s₁ s₂) (h' : SameView b s₂ s₃) :
    SameView b s₁ s₃ where
  users := h'.users.trans h.users
  blocks := h'.blocks.trans h.blocks
  friendships := h'.friendships.trans h.friendships
  requests := by
    have hrequests := h'.requests
    rw [h.blocks] at hrequests
    exact hrequests.trans h.requests

/-- A filter that asks for more than `sees`. -/
theorem filter_of_sees {rows rows' : List FriendRequest} {blocks : List (String × String)}
    (h : rows'.filter (sees b blocks) = rows.filter (sees b blocks)) (p : FriendRequest → Bool)
    (hp : ∀ r, p r = true → sees b blocks r = true) : rows'.filter p = rows.filter p := by
  have hboth (rows : List FriendRequest) :
      rows.filter p = (rows.filter (sees b blocks)).filter p := by
    rw [List.filter_filter]
    apply List.filter_congr
    intro r _
    cases hr : p r with
    | true => simp [hp r hr]
    | false => simp
  rw [hboth rows', hboth rows, h]

theorem SameView.listFriends {s' : SocialTables} (h : SameView b s s')
    (hcaller : socialCaller env auth s.users = .ok me) (hme : me.claimedHandle = b) :
    listFriends env auth s' = listFriends env auth s := by
  subst hme
  have huser : s'.user? = s.user? := by
    unfold SocialTables.user?
    rw [h.users]
  have hfriends : s'.listFriends me.claimedHandle = s.listFriends me.claimedHandle := by
    have hfriend : s'.friendOf = s.friendOf := by
      unfold SocialTables.friendOf
      rw [huser]
    unfold SocialTables.listFriends
    rw [h.friendships, hfriend]
  have hincoming : s'.listIncoming me.claimedHandle = s.listIncoming me.claimedHandle := by
    unfold SocialTables.listIncoming
    rw [h.blocks, filter_of_sees h.requests]
    intro r hr
    simp only [Bool.and_eq_true, Bool.not_eq_true'] at hr
    simp [sees, hr.1.1, hr.2]
  have houtgoing : s'.listOutgoing me.claimedHandle = s.listOutgoing me.claimedHandle := by
    unfold SocialTables.listOutgoing
    rw [filter_of_sees h.requests]
    intro r hr
    simp only [Bool.and_eq_true] at hr
    simp [sees, hr.1]
  simp only [StarStats.listFriends, h.users, hcaller, hfriends, hincoming, houtgoing,
    SocialTables.getPolicy, SocialTables.getDiscoverable, huser]

/-- A row of a blocked sender, or between others, is not seen. -/
theorem sees_eq_false {r : FriendRequest} {blocks : List (String × String)}
    (hblocked : isBlocked b a blocks = true) (hab : lower a ≠ lower b)
    (hr : lower r.requesterHandle = lower a ∨
      lower r.requesterHandle ≠ lower b ∧ lower r.recipientHandle = lower a) :
    sees b blocks r = false := by
  rcases hr with hr | ⟨hne, hr⟩
  · have hsame : isBlocked b r.requesterHandle blocks = true := by
      unfold isBlocked at hblocked ⊢
      rw [hr]
      exact hblocked
    simp [sees, hr, hab, hsame]
  · simp [sees, hne, hr, hab]

/-! ### The sender's calls do not show -/

/-- An update of the status does not change who sees a row. -/
theorem filter_setStatus {t : RequestTable} {blocks : List (String × String)}
    {p : FriendRequest → Bool} {status : FriendRequestStatus} :
    (t.setStatus p status now).rows.filter (sees b blocks) =
      (t.rows.filter (sees b blocks)).map fun r =>
        if p r then { r with status := status, respondedAt := some now } else r := by
  rw [RequestTable.setStatus, List.filter_map]
  refine congrArg (List.map _) (List.filter_congr fun r _ => ?_)
  simp only [Function.comp]
  split <;> rfl

theorem filter_setStatus_of_unseen {t : RequestTable} {blocks : List (String × String)}
    {p : FriendRequest → Bool} {status : FriendRequestStatus}
    (h : ∀ r ∈ t.rows, p r = true → sees b blocks r = false) :
    (t.setStatus p status now).rows.filter (sees b blocks) = t.rows.filter (sees b blocks) := by
  rw [filter_setStatus]
  conv_rhs => rw [← List.map_id (t.rows.filter (sees b blocks))]
  apply List.map_congr_left
  intro r hr
  rw [List.mem_filter] at hr
  apply if_neg
  intro hp
  rw [h r hr.1 hp] at hr
  exact absurd hr.2 (by decide)

theorem sameView_create (hblocked : isBlocked b a s.blocks = true) (hab : lower a ≠ lower b)
    (theirs : String) : SameView b s (createFriendRequest now a theirs id s).2 := by
  unfold createFriendRequest
  split
  · exact .refl b s
  · rename_i r requests hcreate
    obtain ⟨hr, hrows⟩ := RequestTable.create_eq_ok hcreate
    have hunseen : sees b s.blocks r = false := by
      apply sees_eq_false hblocked hab
      rw [hr]
      exact .inl rfl
    refine ⟨rfl, rfl, rfl, ?_⟩
    simp only [hrows, List.filter_append]
    rw [List.filter_singleton, hunseen]
    exact List.append_nil _

/-- Resolving a request that is not seen. -/
theorem sameView_resolve {r r' : FriendRequest} {requests : RequestTable}
    {status : FriendRequestStatus} (hr : r ∈ s.requests.rows) (hsees : sees b s.blocks r = false)
    (hresolve : s.requests.resolve r.id status now = .ok (r', requests)) :
    SameView b s { s with requests := requests } := by
  obtain ⟨-, rfl⟩ := RequestTable.resolve_eq_ok hresolve
  refine ⟨rfl, rfl, rfl, filter_setStatus_of_unseen fun x hx hp => ?_⟩
  simp only [Bool.and_eq_true, decide_eq_true_eq] at hp
  have hsame : x = r := s.requests.eq_of_id hx hr hp.1
  rw [hsame]
  exact hsees

theorem sameView_sendBetween (hme : me.claimedHandle = a) (hab : lower a ≠ lower b)
    (hblocked : isBlocked b a s.blocks = true) :
    SameView b s (sendBetween env now me them id s).2 := by
  subst hme
  have hcreate :
      SameView b s (createFriendRequest now me.claimedHandle them.claimedHandle id s).2 :=
    sameView_create hblocked hab them.claimedHandle
  simp only [sendBetween]
  split
  · exact .refl b s
  split
  · exact .refl b s
  split
  · exact .refl b s
  split
  · exact .refl b s
  split
  · exact hcreate
  rename_i hthem
  split
  · exact hcreate
  rename_i reverse hreverse
  split
  · exact .refl b s
  rename_i r requests hresolve
  -- the other has not blocked the sender, so he is not `b`
  have hne : lower them.claimedHandle ≠ lower b := by
    intro heq
    apply hthem
    unfold isBlocked at hblocked ⊢
    rw [heq]
    exact hblocked
  obtain ⟨hmem, hpending, hgoes⟩ := RequestTable.findPending_eq_some hreverse
  have hsees : sees b s.blocks reverse = false := by
    apply sees_eq_false hblocked hab
    rw [hgoes.1, hgoes.2]
    exact .inr ⟨hne, rfl⟩
  have hview := sameView_resolve hmem hsees hresolve
  refine ⟨rfl, rfl, ?_, hview.requests⟩
  exact filter_addFriendship_of_other fun f hf => Friendship.names_of_between hf ⟨hab, hne⟩

theorem sameView_sender (hcaller : socialCaller env auth s.users = .ok me)
    (hme : me.claimedHandle = a) (hab : lower a ≠ lower b)
    (hblocked : isBlocked b a s.blocks = true) (call : SenderCall) :
    SameView b s (call.run env auth now s).2 := by
  cases call with
  | send handle id =>
    simp only [SenderCall.run, sendRequest, hcaller]
    split
    · exact .refl b s
    split
    · exact .refl b s
    exact sameView_sendBetween hme hab hblocked
  | cancel id =>
    simp only [SenderCall.run, cancelRequest, resolveQuietly, hcaller]
    split
    · exact .refl b s
    rename_i r hfor
    split
    · exact .refl b s
    rename_i hresolve
    obtain ⟨hget, hside⟩ := requestFor_sender hfor
    refine sameView_resolve (RequestTable.get_eq_some.1 hget).1 ?_ hresolve
    exact sees_eq_false hblocked hab (.inl (by rw [hside, hme]))
  | list => exact .refl b s

/-! ### The other's own calls -/

theorem SameView.symm {s' : SocialTables} (h : SameView b s s') : SameView b s' s where
  users := h.users.symm
  blocks := h.blocks.symm
  friendships := h.friendships.symm
  requests := by
    rw [h.blocks]
    exact h.requests.symm

theorem SameView.get {s' : SocialTables} {r : FriendRequest} (h : SameView b s s')
    (hsees : sees b s.blocks r = true) (hget : s.requests.get id = some r) :
    s'.requests.get id = some r := by
  rw [RequestTable.get_eq_some] at hget ⊢
  have hmem : r ∈ s.requests.rows.filter (sees b s.blocks) := List.mem_filter.2 ⟨hget.1, hsees⟩
  rw [← h.requests] at hmem
  exact ⟨(List.mem_filter.1 hmem).1, hget.2⟩

theorem SameView.requestFor_ok {s' : SocialTables} {r : FriendRequest} (h : SameView b s s')
    (hme : me.claimedHandle = b) (hfor : requestFor id me true s = .ok r) :
    requestFor id me true s' = .ok r := by
  subst hme
  obtain ⟨hget, hside, hfree⟩ := requestFor_eq_ok.1 hfor
  rw [requestFor_eq_ok, h.blocks]
  exact ⟨h.get (by simp [sees, hside, hfree]) hget, hside, hfree⟩

theorem SameView.requestFor {s' : SocialTables} (h : SameView b s s')
    (hme : me.claimedHandle = b) : requestFor id me true s' = requestFor id me true s := by
  cases hfor : StarStats.requestFor id me true s with
  | ok r => exact h.requestFor_ok hme hfor
  | error e =>
    cases hfor' : StarStats.requestFor id me true s' with
    | ok r =>
      rw [h.symm.requestFor_ok hme hfor'] at hfor
      cases hfor
    | error e' => rw [requestFor_eq_error hfor, requestFor_eq_error hfor']

theorem SameView.setStatus {s' : SocialTables} (h : SameView b s s') (p : FriendRequest → Bool)
    (status : FriendRequestStatus) :
    SameView b { s with requests := s.requests.setStatus p status now }
      { s' with requests := s'.requests.setStatus p status now } := by
  refine ⟨h.users, h.blocks, h.friendships, ?_⟩
  simp only [filter_setStatus]
  rw [h.requests]

/-- The answer and the view after resolving a request that is seen. -/
theorem SameView.resolve {s' : SocialTables} {r : FriendRequest} (h : SameView b s s')
    (hme : me.claimedHandle = b) (hfor : StarStats.requestFor id me true s = .ok r)
    (status : FriendRequestStatus) (now : Timestamp) :
    (∃ e, s.requests.resolve r.id status now = .error e ∧
      s'.requests.resolve r.id status now = .error e) ∨
    ∃ requests requests',
      s.requests.resolve r.id status now =
        .ok ({ r with status := status, respondedAt := some now }, requests) ∧
      s'.requests.resolve r.id status now =
        .ok ({ r with status := status, respondedAt := some now }, requests') ∧
      SameView b { s with requests := requests } { s' with requests := requests' } := by
  have hr := (RequestTable.get_eq_some.1 (requestFor_eq_ok.1 hfor).1).1
  have hr' := (RequestTable.get_eq_some.1 (requestFor_eq_ok.1 (h.requestFor_ok hme hfor)).1).1
  rw [RequestTable.resolve_of_mem hr, RequestTable.resolve_of_mem hr']
  cases hpending : r.isPending with
  | true => exact .inr ⟨_, _, rfl, rfl, h.setStatus _ status⟩
  | false => exact .inl ⟨.notPending, rfl, rfl⟩

theorem SameView.run {s' : SocialTables} (h : SameView b s s')
    (hcaller : socialCaller env auth s.users = .ok me) (hme : me.claimedHandle = b)
    (now : Timestamp) (call : RecipientCall) :
    (call.run env auth now s').1 = (call.run env auth now s).1 ∧
      SameView b (call.run env auth now s).2 (call.run env auth now s').2 := by
  have hcaller' : socialCaller env auth s'.users = .ok me := by
    rw [h.users]
    exact hcaller
  cases call with
  | accept id =>
    simp only [RecipientCall.run, acceptRequest, hcaller, hcaller', h.requestFor hme]
    cases hfor : StarStats.requestFor id me true s with
    | error e => exact ⟨rfl, h⟩
    | ok r =>
      rcases h.resolve hme hfor .accepted now with ⟨e, he, he'⟩ | ⟨t, t', ht, ht', hview⟩
      · simp only [he, he']
        exact ⟨trivial, h⟩
      · simp only [ht, ht']
        refine ⟨trivial, h.users, h.blocks, ?_, hview.requests⟩
        have hside := (requestFor_eq_ok.1 hfor).2.1
        have hnames : ∀ f : Friendship,
            f.between r.requesterHandle r.recipientHandle = true → f.names b = true := by
          intro f hf
          rw [← hme]
          rcases Friendship.between_iff hf with ⟨-, hf⟩ | ⟨hf, -⟩ <;>
            simp [Friendship.names, hf, hside]
        rw [filter_addFriendship hnames, filter_addFriendship hnames, h.friendships]
  | decline id =>
    simp only [RecipientCall.run, declineRequest, resolveQuietly, hcaller, hcaller',
      h.requestFor hme]
    cases hfor : StarStats.requestFor id me true s with
    | error e => exact ⟨rfl, h⟩
    | ok r =>
      rcases h.resolve hme hfor .declined now with ⟨e, he, he'⟩ | ⟨t, t', ht, ht', hview⟩
      · simp only [he, he']
        exact ⟨trivial, h⟩
      · simp only [ht, ht']
        exact ⟨trivial, hview⟩
  | list =>
    simp only [RecipientCall.run, h.listFriends hcaller hme]
    exact ⟨trivial, h⟩

theorem run_users (call : RecipientCall) : (call.run env auth now s).2.users = s.users := by
  cases call <;> simp only [RecipientCall.run, acceptRequest, declineRequest, resolveQuietly] <;>
    (repeat' split) <;> rfl

theorem run_blocks (call : RecipientCall) : (call.run env auth now s).2.blocks = s.blocks := by
  cases call <;> simp only [RecipientCall.run, acceptRequest, declineRequest, resolveQuietly] <;>
    (repeat' split) <;> rfl

/-- The calls that are the recipient's. -/
def ofRecipient (calls : List (Timestamp × (SenderCall ⊕ RecipientCall))) :
    List (Timestamp × (SenderCall ⊕ RecipientCall)) :=
  calls.filter (·.2.isRight)

/-- What a blocked sender calls makes no difference to the other's answers. -/
theorem recipientRun_ofRecipient {sender recipient : AuthenticatedUser} {other : SocialUser}
    (hme : me.claimedHandle = a) (hother : other.claimedHandle = b) (hab : lower a ≠ lower b) :
    ∀ (calls : List (Timestamp × (SenderCall ⊕ RecipientCall))) (s s' : SocialTables),
      socialCaller env sender s.users = .ok me → socialCaller env recipient s.users = .ok other →
      isBlocked b a s.blocks = true → SameView b s s' →
      recipientRun env sender recipient calls s' =
        recipientRun env sender recipient (ofRecipient calls) s
  | [], _, _, _, _, _, _ => rfl
  | (now, .inl call) :: calls, s, s', hsender, hrecipient, hblocked, hview => by
    have hstep : SameView b s' (call.run env sender now s').2 := by
      apply sameView_sender _ hme hab
      · rw [hview.blocks]
        exact hblocked
      · rw [hview.users]
        exact hsender
    exact recipientRun_ofRecipient hme hother hab calls s _ hsender hrecipient hblocked
      (hview.trans hstep)
  | (now, .inr call) :: calls, s, s', hsender, hrecipient, hblocked, hview => by
    obtain ⟨hanswer, hview'⟩ := hview.run hrecipient hother now call
    have hrest := recipientRun_ofRecipient hme hother hab calls _ _
      (by rw [run_users]; exact hsender) (by rw [run_users]; exact hrecipient)
      (by rw [run_blocks]; exact hblocked) hview'
    have hcons : ofRecipient ((now, .inr call) :: calls) = (now, .inr call) :: ofRecipient calls :=
      rfl
    rw [hcons]
    simp only [recipientRun, hanswer, hrest]

/-! ## Both sides -/

theorem oneMore_of_row {l r : List (String × String)} {row : String × String}
    (hblocks : s.blocks = l ++ r) (hrow : lower row.1 = lower b ∧ lower row.2 = lower a) :
    OneMore s b a (l ++ row :: r) := by
  intro x y
  simp only [isBlocked, hblocks, List.any_append, List.any_cons, hrow.1, hrow.2]
  rw [Bool.beq_comm (a := lower b), Bool.beq_comm (a := lower a)]
  cases l.any fun row => lower row.1 == lower x && lower row.2 == lower y <;>
    simp [Bool.or_comm]

/-- **A block does not show.** Of two states that differ in a row in which `other` has blocked
`me`, with no request of `other` to `me` pending, the sender `me` cannot tell one from the other;
and in the state with the row, the answers to `other` are those without the sender's calls. -/
theorem block_does_not_show (sender recipient : AuthenticatedUser) (other : SocialUser)
    (l r : List (String × String)) (row : String × String)
    (hsender : socialCaller env sender s.users = .ok me)
    (hrecipient : socialCaller env recipient s.users = .ok other)
    (hne : lower me.claimedHandle ≠ lower other.claimedHandle)
    (hblocks : s.blocks = l ++ r)
    (hrow : lower row.1 = lower other.claimedHandle ∧ lower row.2 = lower me.claimedHandle)
    (hpending : s.requests.findPending other.claimedHandle me.claimedHandle = none) :
    (∀ calls, (senderRun env sender calls { s with blocks := l ++ row :: r }).1 =
      (senderRun env sender calls s).1) ∧
    (∀ calls, recipientRun env sender recipient calls { s with blocks := l ++ row :: r } =
      recipientRun env sender recipient (ofRecipient calls)
        { s with blocks := l ++ row :: r }) := by
  have hmore : OneMore s other.claimedHandle me.claimedHandle (l ++ row :: r) :=
    oneMore_of_row hblocks hrow
  refine ⟨fun calls => ?_, fun calls => ?_⟩
  · exact senderRun_withBlocks rfl hne calls s hsender hmore
      (RequestTable.findPending_eq_none.1 hpending)
  · have hblocked : isBlocked other.claimedHandle me.claimedHandle (l ++ row :: r) = true := by
      rw [hmore]
      simp
    exact recipientRun_ofRecipient rfl rfl hne calls _ _ hsender hrecipient hblocked (.refl _ _)

/-! ### Two users -/

def alice : SocialUser := ⟨"u1", "Alice", none, none, none⟩

def bob : SocialUser := ⟨"u2", "Bob", none, none, none⟩

def idEnv : SocialEnv := ⟨some, fun _ => .ok none, none⟩

def twoUsers : SocialTables := ⟨[alice, bob], ⟨[], by decide⟩, [], []⟩

def aliceToken : AuthenticatedUser := ⟨"u1", "Alice", .user, none⟩

def bobToken : AuthenticatedUser := ⟨"u2", "Bob", .user, none⟩

/-- Alice sends, sends again, cancels and lists; Bob lists and accepts what she sent. -/
theorem block_does_not_show_alice :
    let calls : List (Timestamp × SenderCall) :=
      [(1, .send "bob" "r1"), (2, .send "bob" "r2"), (3, .cancel "r1"), (4, .list)]
    let both : List (Timestamp × (SenderCall ⊕ RecipientCall)) :=
      [(1, .inl (.send "bob" "r1")), (2, .inr .list), (3, .inr (.accept "r1"))]
    let blocked := { twoUsers with blocks := [] ++ ("bob", "alice") :: [] }
    (senderRun idEnv aliceToken calls blocked).1 = (senderRun idEnv aliceToken calls twoUsers).1 ∧
      recipientRun idEnv aliceToken bobToken both blocked =
        recipientRun idEnv aliceToken bobToken (ofRecipient both) blocked := by
  have h := block_does_not_show aliceToken bobToken bob [] [] ("bob", "alice")
    (show socialCaller idEnv aliceToken twoUsers.users = .ok alice from rfl) rfl (by decide) rfl
    (by decide) rfl
  exact ⟨h.1 _, h.2 _⟩

end BlockPrivacy

end StarStats
