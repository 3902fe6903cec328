import StarStats.Server.Social
import StarStats.Server.Spicedb

/-!
# The statements of the social store, and the friend tuples

What each statement of `friend_requests` does when it succeeds (`create_eq_ok`, `resolve_eq_ok`,
`resolve_of_mem`), which rows a friendship touches (`between_iff`, `filter_addFriendship`), what
the friend tuples are after a write (`mem_writeFriendship`), and the request that an answer is
about (`requestFor_eq_ok`).
-/

namespace StarStats

open Text (lower)

/-! ## Requests -/

theorem FriendRequest.goes_congr (r : FriendRequest) {x y a b : String} (hx : lower x = lower a)
    (hy : lower y = lower b) : r.goes x y = r.goes a b := by
  simp [FriendRequest.goes, hx, hy]

namespace RequestTable

variable {t t' : RequestTable} {a b : String} {id : Uuid} {now : Timestamp}
  {status : FriendRequestStatus} {r : FriendRequest}

/-- No request of `a` to `b` is pending. -/
def NonePending (t : RequestTable) (a b : String) : Prop :=
  ∀ r ∈ t.rows, r.isPending = true → r.goes a b = false

theorem findPending_eq_none : t.findPending a b = none ↔ t.NonePending a b := by
  simp [findPending, NonePending]

theorem NonePending.congr {x y : String} (h : t.NonePending a b) (hx : lower x = lower a)
    (hy : lower y = lower b) : t.NonePending x y := by
  intro r hr hpending
  rw [r.goes_congr hx hy]
  exact h r hr hpending

theorem mem_setStatus {p : FriendRequest → Bool} {r' : FriendRequest}
    (h : r' ∈ (t.setStatus p status now).rows) : ∃ r ∈ t.rows,
      r' = if p r then { r with status := status, respondedAt := some now } else r := by
  obtain ⟨r, hr, rfl⟩ := List.mem_map.1 h
  exact ⟨r, hr, rfl⟩

theorem NonePending.setStatus (h : t.NonePending a b) (p : FriendRequest → Bool)
    (hstatus : status ≠ .pending) : (t.setStatus p status now).NonePending a b := by
  intro r' hr' hpending
  obtain ⟨r, hr, rfl⟩ := mem_setStatus hr'
  split at hpending
  · simp [FriendRequest.isPending, hstatus] at hpending
  · rename_i hp
    rw [if_neg hp]
    exact h r hr hpending

/-- What `create_request` does when it succeeds. -/
theorem create_eq_ok {requester recipient : String}
    (h : t.create id requester recipient now = .ok (r, t')) :
    r = ⟨id, requester, recipient, .pending, now, none⟩ ∧ t'.rows = t.rows ++ [r] := by
  unfold create at h
  split at h
  · cases h
  · cases h
    exact ⟨rfl, rfl⟩

theorem NonePending.create {requester recipient : String} (h : t.NonePending a b)
    (hne : lower requester ≠ lower a) (hok : t.create id requester recipient now = .ok (r, t')) :
    t'.NonePending a b := by
  obtain ⟨rfl, hrows⟩ := create_eq_ok hok
  intro r' hr' hpending
  rw [hrows] at hr'
  rcases List.mem_append.1 hr' with hr' | hr'
  · exact h r' hr' hpending
  · rw [List.mem_singleton.1 hr']
    simp [FriendRequest.goes, hne]

/-- What `resolve_request` does when it succeeds. -/
theorem resolve_eq_ok {to_ : FriendRequestStatus} (h : t.resolve id to_ now = .ok (r, t')) :
    (∃ r₀ ∈ t.rows, r₀.id = id ∧ r = { r₀ with status := to_, respondedAt := some now }) ∧
      t' = t.setStatus (fun r => r.id = id && r.isPending) to_ now := by
  unfold resolve at h
  split at h
  · rename_i r₀ hfind
    cases h
    have hid := List.find?_some hfind
    simp only [Bool.and_eq_true, decide_eq_true_eq] at hid
    exact ⟨⟨r₀, List.mem_of_find?_eq_some hfind, hid.1, rfl⟩, rfl⟩
  · split at h <;> cases h

theorem findPending_eq_some (h : t.findPending a b = some r) : r ∈ t.rows ∧ r.isPending = true ∧
    lower r.requesterHandle = lower a ∧ lower r.recipientHandle = lower b := by
  have hr := List.find?_some h
  simp only [FriendRequest.goes, Bool.and_eq_true, beq_iff_eq] at hr
  exact ⟨List.mem_of_find?_eq_some h, hr⟩

theorem eq_of_id (t : RequestTable) {r r' : FriendRequest} (hr : r ∈ t.rows) (hr' : r' ∈ t.rows)
    (h : r.id = r'.id) : r = r' :=
  List.inj_on_of_nodup_map t.keyed hr hr' h

theorem get_eq_some : t.get id = some r ↔ r ∈ t.rows ∧ r.id = id := by
  constructor
  · intro h
    exact ⟨List.mem_of_find?_eq_some h, by simpa using List.find?_some h⟩
  · rintro ⟨hr, rfl⟩
    cases hget : t.get r.id with
    | none => simpa using List.find?_eq_none.1 hget r hr
    | some r' =>
      have hid : r'.id = r.id := by simpa using List.find?_some hget
      rw [t.eq_of_id (List.mem_of_find?_eq_some hget) hr hid]

/-- `resolve_request` of a row of the table. -/
theorem resolve_of_mem (hr : r ∈ t.rows) : t.resolve r.id status now =
    if r.isPending then
      .ok ({ r with status := status, respondedAt := some now },
        t.setStatus (fun x => x.id = r.id && x.isPending) status now)
    else .error .notPending := by
  unfold resolve
  split
  · rename_i r' hfind
    have hid := List.find?_some hfind
    simp only [Bool.and_eq_true, decide_eq_true_eq] at hid
    obtain rfl := t.eq_of_id (List.mem_of_find?_eq_some hfind) hr hid.1
    rw [if_pos hid.2]
  · rename_i hfind
    have hpending := List.find?_eq_none.1 hfind r hr
    simp only [decide_true, Bool.true_and] at hpending
    rw [if_neg hpending, if_pos]
    exact List.any_eq_true.2 ⟨r, hr, by simp⟩

end RequestTable

/-! ## Friendships -/

theorem Friendship.between_iff {f : Friendship} {x y : String} (h : f.between x y = true) :
    lower f.handleA = lower x ∧ lower f.handleB = lower y ∨
      lower f.handleA = lower y ∧ lower f.handleB = lower x := by
  simp only [between, orderedPair, Bool.and_eq_true, beq_iff_eq] at h
  split at h
  · exact .inl h
  · exact .inr h

theorem Friendship.between_ofPair (x y : String) (now : Timestamp) :
    (ofPair x y now).between x y = true := by
  simp [between, ofPair]

/-- The row of two others. -/
theorem Friendship.names_of_between {f : Friendship} {x y b : String}
    (h : f.between x y = true) (hne : lower x ≠ lower b ∧ lower y ≠ lower b) :
    f.names b = false := by
  rcases between_iff h with ⟨hx, hy⟩ | ⟨hy, hx⟩ <;> simp [names, hx, hy, hne.1, hne.2]

theorem filter_addFriendship_of_other {x y : String} {now : Timestamp}
    {friendships : List Friendship} {p : Friendship → Bool}
    (h : ∀ f : Friendship, f.between x y = true → p f = false) :
    (addFriendship x y now friendships).filter p = friendships.filter p := by
  unfold addFriendship
  split
  · rfl
  · have hnew := h _ (Friendship.between_ofPair x y now)
    simp only [List.filter_append, List.filter_cons, hnew, Bool.false_eq_true, if_false,
      List.filter_nil, List.append_nil]

/-- The rows that name someone of the pair are all that adding the pair looks at. -/
theorem filter_addFriendship {x y : String} {now : Timestamp} {friendships : List Friendship}
    {p : Friendship → Bool} (h : ∀ f : Friendship, f.between x y = true → p f = true) :
    (addFriendship x y now friendships).filter p =
      addFriendship x y now (friendships.filter p) := by
  have hboth : (fun f : Friendship => p f && f.between x y) = (·.between x y) := by
    funext f
    cases hf : f.between x y with
    | true => simp [h f hf]
    | false => simp
  unfold addFriendship
  rw [List.any_filter, hboth]
  split
  · rfl
  · have hnew := h _ (Friendship.between_ofPair x y now)
    simp only [List.filter_append, List.filter_cons, hnew, if_true, List.filter_nil]

/-! ## Friends and blocks -/

theorem areFriends_addFriendship {x y c d : String} {now : Timestamp} {fs : List Friendship} :
    areFriends c d (addFriendship x y now fs) =
      (areFriends c d fs || (Friendship.ofPair x y 0).between c d) := by
  have hnew : (Friendship.ofPair x y now).between c d = (Friendship.ofPair x y 0).between c d := rfl
  unfold addFriendship
  split
  · rename_i hany
    cases hboth : (Friendship.ofPair x y 0).between c d with
    | false => rw [Bool.or_false]
    | true =>
      -- the row that is there already is that of the pair
      obtain ⟨f, hf, hxy⟩ := List.any_eq_true.1 hany
      rw [Bool.or_true]
      apply List.any_eq_true.2 ⟨f, hf, ?_⟩
      simp only [Friendship.between, Friendship.ofPair, Bool.and_eq_true, beq_iff_eq] at hxy hboth ⊢
      exact ⟨hxy.1.trans hboth.1, hxy.2.trans hboth.2⟩
  · rw [areFriends, List.any_append, List.any_cons, List.any_nil, Bool.or_false, hnew]
    rfl

theorem areFriends_removeFriendship (c d : String) (fs : List Friendship) :
    areFriends c d (removeFriendship c d fs) = false := by
  simp [areFriends, removeFriendship]

theorem isBlocked_block (c d : String) (blocks : List (String × String)) :
    isBlocked c d (block c d blocks) = true := by
  unfold block
  split
  · assumption
  · simp [isBlocked]

/-! ## Friend tuples -/

section
variable {x y c d : String} {rels rels' : List Relationship}

theorem friendTuple_inj : friendTuple x y = friendTuple c d ↔ x = c ∧ y = d := by
  simp [friendTuple, userRef]

theorem mem_writeFriendship (h : writeFriendship x y rels = some rels') :
    friendTuple c d ∈ rels' ↔ friendTuple c d ∈ rels ∨ (c = x ∧ d = y ∨ c = y ∧ d = x) := by
  rw [Tuples.mem_write h]
  simp [friendTuple_inj, or_comm]

theorem mem_deleteFriendship (h : deleteFriendship x y rels = some rels') :
    friendTuple c d ∈ rels' ↔ friendTuple c d ∈ rels ∧ ¬ (c = x ∧ d = y ∨ c = y ∧ d = x) := by
  rw [Tuples.mem_write h]
  simp [friendTuple_inj]

/-- A write that names one tuple twice is refused. -/
theorem writeFriendship_isSome : (writeFriendship x y rels).isSome = true ↔ x ≠ y := by
  simp only [writeFriendship, Tuples.write, Tuples.Update.tuple, List.map_cons, List.map_nil,
    List.nodup_cons, List.mem_singleton, friendTuple_inj, List.not_mem_nil, Option.isSome_ite]
  grind

theorem deleteFriendship_isSome : (deleteFriendship x y rels).isSome = true ↔ x ≠ y := by
  simp only [deleteFriendship, Tuples.write, Tuples.Update.tuple, List.map_cons, List.map_nil,
    List.nodup_cons, List.mem_singleton, friendTuple_inj, List.not_mem_nil, Option.isSome_ite]
  grind

theorem mem_writeFriends : friendTuple c d ∈ applyFriends x y true rels ↔
    friendTuple c d ∈ rels ∨ x ≠ y ∧ (c = x ∧ d = y ∨ c = y ∧ d = x) := by
  rw [← @writeFriendship_isSome x y rels, applyFriends, if_pos rfl]
  cases hwrite : writeFriendship x y rels with
  | none => simp
  | some rels' =>
    rw [Option.getD_some, mem_writeFriendship hwrite]
    simp

theorem mem_deleteFriends (hne : x ≠ y) : friendTuple c d ∈ applyFriends x y false rels ↔
    friendTuple c d ∈ rels ∧ ¬ (c = x ∧ d = y ∨ c = y ∧ d = x) := by
  obtain ⟨rels', hdelete⟩ :=
    Option.isSome_iff_exists.1 ((@deleteFriendship_isSome x y rels).2 hne)
  rw [applyFriends, if_neg Bool.false_ne_true, hdelete, Option.getD_some,
    mem_deleteFriendship hdelete]

end

/-! ## The request that an answer is about -/

theorem requestFor_sender {me : SocialUser} {id : Uuid} {s : SocialTables} {r : FriendRequest}
    (h : requestFor id me false s = .ok r) :
    s.requests.get id = some r ∧ lower r.requesterHandle = lower me.claimedHandle := by
  unfold requestFor at h
  split at h
  · cases h
  · rename_i r' hget
    simp only [Bool.false_eq_true, if_false, Bool.false_and] at h
    split at h
    · cases h
    · rename_i hside
      cases h
      exact ⟨hget, by simpa [Text.eqIgnoreAsciiCase] using hside⟩

theorem requestFor_eq_ok {me : SocialUser} {id : Uuid} {s : SocialTables} {r : FriendRequest} :
    requestFor id me true s = .ok r ↔ s.requests.get id = some r ∧
      lower r.recipientHandle = lower me.claimedHandle ∧
      isBlocked me.claimedHandle r.requesterHandle s.blocks = false := by
  unfold requestFor
  cases hget : s.requests.get id with
  | none => simp
  | some r' =>
    simp only [if_true, Bool.true_and, Text.eqIgnoreAsciiCase]
    by_cases hside : lower r'.recipientHandle = lower me.claimedHandle
    · cases hblocked : isBlocked me.claimedHandle r'.requesterHandle s.blocks with
      | true =>
        simp only [hside, BEq.rfl, Bool.not_true, Bool.false_eq_true, if_false, if_true]
        refine ⟨fun h => ?_, fun h => ?_⟩
        · cases h
        · obtain ⟨heq, -, hfree⟩ := h
          cases heq
          rw [hblocked] at hfree
          cases hfree
      | false =>
        simp only [hside, BEq.rfl, Bool.not_true, Bool.false_eq_true, if_false]
        refine ⟨fun h => ?_, fun h => ?_⟩
        · cases h
          exact ⟨rfl, hside, hblocked⟩
        · rw [Option.some.inj h.1]
    · have hne : (lower r'.recipientHandle == lower me.claimedHandle) = false := by
        simpa using hside
      simp only [hne, Bool.not_false, if_true]
      refine ⟨fun h => ?_, fun h => ?_⟩
      · cases h
      · obtain ⟨heq, hsame, -⟩ := h
        cases heq
        exact absurd hsame hside

theorem requestFor_eq_error {me : SocialUser} {id : Uuid} {s : SocialTables} {e : Refusal}
    {side : Bool} (h : requestFor id me side s = .error e) :
    e = refuse 404 "request_not_found" none := by
  unfold requestFor at h
  cases hget : s.requests.get id with
  | none =>
    rw [hget] at h
    exact (Except.error.inj h).symm
  | some r =>
    simp only [hget] at h
    rcases Bool.eq_false_or_eq_true (!Text.eqIgnoreAsciiCase
      (if side then r.recipientHandle else r.requesterHandle) me.claimedHandle) with hside | hside
    · rw [if_pos hside] at h
      exact (Except.error.inj h).symm
    · simp only [hside, Bool.false_eq_true, if_false] at h
      split at h
      · exact (Except.error.inj h).symm
      · cases h

end StarStats
