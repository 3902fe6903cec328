import StarStats.Server.LfgRaces
import StarStats.Server.Proof.Lfg

/-!
# The rules of the board under overlapping calls

`Inv` are the rules with what carries them: a player that is banned has the status `removed`.
`Call.Holds` is what the checks of a call have found, and a store call of another leaves it so or
overtakes the call (`Call.Holds.of_not_overtaken`). A call that runs alone is the handler of `Lfg`
(`createStep_alone`, `joinStep_alone`, `leaveStep_alone`, `respondStep_alone`). `kept_of_inTurn`:
the rules hold in every run in which no call is overtaken before its write;
`racing_calls_break_rules` has a run against each rule where one is.
-/

namespace StarStats

open Text (lower)

namespace LfgRaces

/-! ## A call that runs alone -/

section
variable {new : NewLfgPost} {now : Timestamp} {id post : Uuid} {me handle action : String}
  {blocked : Bool} {t : LfgTables} {status : MemberStatus}

theorem createStep_alone :
    (createStep new now now id)^[3] (.openPost, t.posts) =
      (.done (createPost new id now t).1, (createPost new id now t).2.posts) := by
  simp only [Function.iterate_succ_apply, Function.iterate_zero_apply, createPost]
  by_cases hopen : (openPostForHost new.hostHandle now t.posts).isSome = true
  · simp [createStep, hopen]
  by_cases hlimit : postsPerDay ≤ countPostsSince new.hostHandle (now - lfgDay) t.posts
  · simp [createStep, hopen, hlimit]
  · simp [createStep, hopen, hlimit]

theorem joinStep_alone :
    (joinStep me post blocked now t.posts)^[4] (.getPost, t.members) =
      (.done (joinPost true blocked me post now t).1,
        (joinPost true blocked me post now t).2.members) := by
  simp only [Function.iterate_succ_apply, Function.iterate_zero_apply, joinPost, Bool.not_true,
    Bool.false_eq_true, if_false, joinStep]
  cases hrefusal : joinRefusal me blocked now (crewCount post t.members) (t.posts.get post) with
  | some r => rfl
  | none =>
    cases herror : joinError (lfgMember post me t.members) with
    | some e => simp [herror]
    | none =>
      rcases hupsert : upsertRequest post me now t.members with ⟨_ | m, members⟩ <;>
        simp [herror, hupsert]

theorem leaveStep_alone :
    (leaveStep me post now)^[2] (.member, t.members) =
      (.done (leavePost me post now t).1, (leavePost me post now t).2.members) := by
  simp only [Function.iterate_succ_apply, Function.iterate_zero_apply, leavePost, leaveStep]
  cases canLeave (lfgMember post me t.members) <;> rfl

theorem respondStep_alone (hstatus : respondStatus action = some status) :
    (respondStep me post handle status now t.posts)^[3] (.getPost, t.members) =
      (.done (respond me post handle action now t).1,
        (respond me post handle action now t).2.members) := by
  simp only [Function.iterate_succ_apply, Function.iterate_zero_apply, respond, respondCheck,
    hstatus]
  cases hpost : t.posts.get post with
  | none => simp [respondStep, hpost]
  | some p =>
    cases hhost : Text.eqIgnoreAsciiCase p.hostHandle me with
    | false => simp [respondStep, hpost, hhost]
    | true =>
      cases hmember : lfgMember post handle t.members with
      | none => simp [respondStep, hpost, hhost, hmember]
      | some current =>
        cases haccept : (if status = .accepted then
            acceptRefusal p (crewCount post t.members) current now else none) with
        | some r => simp [respondStep, hpost, hhost, hmember, haccept]
        | none =>
          rcases hset : setMemberStatus post current.handle status now t.members with
            ⟨_ | updated, members⟩ <;>
            simp [respondStep, hpost, hhost, hmember, haccept, hset]

end

/-! ## The crew of a post -/

section
variable {members : LfgMembers} {post q : Uuid} {handle : String} {now : Timestamp}
  {status : MemberStatus} {m : LfgMember}

theorem crewCount_setMemberStatus (h : lfgMember post handle members = some m) :
    crewCount q (setMemberStatus post handle status now members).2 +
        (decide (m.postId = q) && decide (m.status = .accepted)).toNat =
      crewCount q members + (decide (m.postId = q) && decide (status = .accepted)).toNat := by
  have hget : members.get (post, lower handle) = some m := h
  exact Keyed.countP_modify (LfgMember.key_answered status now)
    (fun m => decide (m.postId = q) && decide (m.status = .accepted)) hget

theorem crewCount_of_no_member (h : lfgMember post handle members = none) :
    crewCount q (setMemberStatus post handle status now members).2 = crewCount q members := by
  have hget : members.get (post, lower handle) = none := h
  rw [crewCount, setMemberStatus, Keyed.modify_of_none hget]
  rfl

/-- Only an accept adds to a crew. -/
theorem crewCount_setMemberStatus_le (hstatus : status ≠ .accepted) :
    crewCount q (setMemberStatus post handle status now members).2 ≤ crewCount q members := by
  cases hmember : lfgMember post handle members with
  | none => exact (crewCount_of_no_member hmember).le
  | some m =>
    have hcount : crewCount q (setMemberStatus post handle status now members).2 + _ = _ :=
      crewCount_setMemberStatus hmember
    simp only [hstatus, decide_false, Bool.and_false, Bool.toNat_false] at hcount
    omega

/-- An accept adds one at most, to the post, and none if the player is aboard. -/
theorem crewCount_accept (members : LfgMembers) (post q : Uuid) (handle : String)
    (now : Timestamp) :
    crewCount q (setMemberStatus post handle .accepted now members).2 ≤ crewCount q members ∨
      q = post ∧ crewCount q (setMemberStatus post handle .accepted now members).2 =
        crewCount q members + 1 := by
  cases hmember : lfgMember post handle members with
  | none => exact .inl (crewCount_of_no_member hmember).le
  | some m =>
    have hcount : crewCount q (setMemberStatus post handle .accepted now members).2 + _ = _ :=
      crewCount_setMemberStatus hmember
    by_cases hq : m.postId = q
    · have hpost : post = m.postId := (congrArg Prod.fst (key_of_lfgMember hmember)).symm
      by_cases hstatus : m.status = .accepted
      · simp only [hq, hstatus, decide_true, Bool.and_true, Bool.toNat_true] at hcount
        exact .inl (by omega)
      · simp only [hq, hstatus, decide_true, decide_false, Bool.and_false, Bool.and_true,
          Bool.toNat_true, Bool.toNat_false] at hcount
        exact .inr ⟨hq.symm.trans hpost.symm, by omega⟩
    · simp only [hq, decide_false, Bool.false_and, Bool.toNat_false] at hcount
      exact .inl (by omega)

theorem crewCount_upsertRequest :
    crewCount q (upsertRequest post handle now members).2 = crewCount q members := by
  rcases upsertRequest_cases post handle now members with ⟨hnew, heq⟩ | ⟨m, hm, hstatus, heq⟩ |
    ⟨heq, -⟩
  · rw [heq, crewCount, Keyed.countP_insert]
    simp [crewCount]
  · have hget : members.get (post, lower handle) = some m := hm
    have hcount : (members.modify (post, lower handle) (LfgMember.renewed now)
        (LfgMember.key_renewed now)).rows.countP _ + _ = _ :=
      Keyed.countP_modify (LfgMember.key_renewed now)
        (fun m => decide (m.postId = q) && decide (m.status = .accepted)) hget
    have hno : m.status ≠ .accepted := by
      rcases hstatus with h | h <;> simp [h]
    simp only [hno, LfgMember.renewed, decide_false, Bool.and_false, Bool.toNat_false, reduceCtorEq,
      Nat.add_zero] at hcount
    rw [heq]
    exact hcount
  · rw [heq]

end

/-! ## The invariant -/

def NoneOpen (posts : LfgPosts) (clock : Timestamp) (host : String) : Prop :=
  ∀ p ∈ posts.rows, lower p.hostHandle = lower host → p.isOpen clock = false

def NotRemoved (members : LfgMembers) (k : Uuid × String) : Prop :=
  ∀ m, members.get k = some m → m.status ≠ .removed

/-- The post has `slots` slots and fewer in its crew. -/
def HasRoom (posts : LfgPosts) (members : LfgMembers) (post : Uuid) (slots : Nat) : Prop :=
  (∃ p, posts.get post = some p ∧ p.crewSlots = slots) ∧ crewCount post members < slots

/-- What `respond` has counted still holds. -/
def RespondPhase.Holds (s : State) (post : Uuid) : RespondPhase → Prop
  | .member p crew => crew < p.crewSlots → HasRoom s.posts s.members post p.crewSlots
  | .write _ => ∃ slots, HasRoom s.posts s.members post slots
  | _ => True

/-- What a call has checked still holds. -/
def Call.Holds (s : State) : Call → Prop
  | .create new now phase =>
    now ≤ s.clock ∧ (phase.checked = true → NoneOpen s.posts s.clock new.hostHandle)
  | .join .. => True
  | .leave me post phase => phase = .write → NotRemoved s.members (post, lower me)
  | .respond _ post _ status phase => status = .accepted → phase.Holds s post

structure Inv (s : State) : Prop where
  slots : ∀ p ∈ s.posts.rows, crewCount p.id s.members ≤ p.crewSlots
  removed : ∀ k ∈ s.banned, ∃ m, s.members.get k = some m ∧ m.status = .removed
  one : ∀ p ∈ s.posts.rows, ∀ q ∈ s.posts.rows, lower p.hostHandle = lower q.hostHandle →
    p.isOpen s.clock = true → q.isOpen s.clock = true → p = q

variable {s : State}

theorem Inv.kept (hs : Inv s) : Kept s where
  slots := hs.slots
  removed k hk m hm := by
    obtain ⟨m', hm', hstatus⟩ := hs.removed k hk
    rw [hm] at hm'
    obtain rfl := Option.some.inj hm'
    simp [hstatus]
  one := hs.one

theorem inv_start : Inv .start := by
  constructor <;> simp [State.start, Keyed.empty]

/-- The calls are no part of the rules. -/
theorem Inv.withCalls (hs : Inv s) (calls : List Call) : Inv { s with calls := calls } :=
  ⟨hs.slots, hs.removed, hs.one⟩

/-! ## Posts -/

theorem isOpen_of_le {p : LfgPost} {now now' : Timestamp} (hle : now ≤ now')
    (h : p.isOpen now' = true) : p.isOpen now = true := by
  simp only [LfgPost.isOpen, Bool.and_eq_true, decide_eq_true_eq] at h ⊢
  exact ⟨h.1, lt_of_le_of_lt hle h.2⟩

theorem inv_tick (hs : Inv s) {now : Timestamp} (hle : s.clock ≤ now) :
    Inv { s with clock := now } where
  slots := hs.slots
  removed := hs.removed
  one p hp q hq hhost hopen hopen' :=
    hs.one p hp q hq hhost (isOpen_of_le hle hopen) (isOpen_of_le hle hopen')

theorem isOpen_closed {p : LfgPost} {now now' : Timestamp} (h : (p.closed now).isOpen now' = true) :
    p.closed now = p := by
  unfold LfgPost.closed at h ⊢
  split
  · rename_i hopen
    rw [if_pos hopen] at h
    simp [LfgPost.isOpen] at h
  · rfl

theorem hostHandle_closed (now : Timestamp) (p : LfgPost) :
    (p.closed now).hostHandle = p.hostHandle ∧ (p.closed now).crewSlots = p.crewSlots := by
  unfold LfgPost.closed
  split <;> exact ⟨rfl, rfl⟩

theorem mem_closePost {post : Uuid} {now : Timestamp} {posts : LfgPosts} {p : LfgPost} :
    p ∈ (closePost post now posts).rows ↔
      (p ∈ posts.rows ∧ p.id ≠ post) ∨ ∃ q, posts.get post = some q ∧ p = q.closed now := by
  rw [closePost, Keyed.mem_modify]

theorem inv_close (hs : Inv s) (post : Uuid) :
    Inv { s with posts := closePost post s.clock s.posts } where
  slots p hp := by
    rcases mem_closePost.1 hp with ⟨hp, -⟩ | ⟨p, hget, rfl⟩
    · exact hs.slots p hp
    · rw [LfgPost.id_closed, (hostHandle_closed _ _).2]
      exact hs.slots p (Keyed.get_eq_some.1 hget).1
  removed := hs.removed
  one p hp q hq hhost hopen hopen' := by
    have hold : ∀ p ∈ (closePost post s.clock s.posts).rows, p.isOpen s.clock = true →
        p ∈ s.posts.rows := by
      intro p hp hopen
      rcases mem_closePost.1 hp with ⟨hp, -⟩ | ⟨p, hget, rfl⟩
      · exact hp
      · rw [isOpen_closed hopen]
        exact (Keyed.get_eq_some.1 hget).1
    exact hs.one p (hold p hp hopen) q (hold q hq hopen') hhost hopen hopen'

/-- A host without an open post. -/
theorem openPostForHost_eq_none {host : String} {now : Timestamp} {posts : LfgPosts}
    (h : (openPostForHost host now posts).isNone = true) {p : LfgPost} (hp : p ∈ posts.rows)
    (hhost : lower p.hostHandle = lower host) : p.isOpen now = false := by
  rw [Option.isNone_iff_eq_none, openPostForHost, List.head?_eq_none_iff] at h
  have hmem : p ∉ posts.rows.filter fun p =>
      lower p.hostHandle == lower host && p.isOpen now := by
    rw [← (List.perm_insertionSort (fun p q => q.createdAt ≤ p.createdAt) _).mem_iff, h]
    exact List.not_mem_nil
  simpa [hp, hhost] using hmem

theorem inv_insert (hs : Inv s) {new : NewLfgPost} {now : Timestamp} {id : Uuid}
    (hfresh : s.fresh id = true) (hnone : NoneOpen s.posts s.clock new.hostHandle) :
    Inv { s with posts := s.posts.insertNew (new.row id now s.clock) } := by
  simp only [State.fresh, Bool.and_eq_true, Option.isNone_iff_eq_none, List.all_eq_true,
    decide_eq_true_eq] at hfresh
  have hrows : (s.posts.insertNew (new.row id now s.clock)).rows =
      s.posts.rows ++ [new.row id now s.clock] := by
    have hnew : s.posts.get (new.row id now s.clock).id = none := hfresh.1
    rw [Keyed.insertNew, dif_pos hnew]
    rfl
  -- another post of the host is not open
  have hother : ∀ p ∈ s.posts.rows, lower p.hostHandle = lower new.hostHandle →
      p.isOpen s.clock = true → False := by
    intro p hp hhost hopen
    rw [hnone p hp hhost] at hopen
    cases hopen
  refine ⟨fun p hp => ?_, hs.removed, fun p hp q hq hhost hopen hopen' => ?_⟩
  · rw [hrows, List.mem_append, List.mem_singleton] at hp
    rcases hp with hp | rfl
    · exact hs.slots p hp
    · have hzero : crewCount id s.members = 0 := by
        rw [crewCount, List.countP_eq_zero]
        intro m hm
        simp [hfresh.2 m hm]
      rw [show (new.row id now s.clock).id = id from rfl, hzero]
      exact Nat.zero_le _
  · rw [hrows, List.mem_append, List.mem_singleton] at hp hq
    rcases hp with hp | rfl
    · rcases hq with hq | rfl
      · exact hs.one p hp q hq hhost hopen hopen'
      · exact (hother p hp hhost hopen).elim
    · rcases hq with hq | rfl
      · exact (hother q hq hhost.symm hopen').elim
      · rfl

/-! ## Members -/

theorem inv_upsertRequest (hs : Inv s) (post : Uuid) (me : String) :
    Inv { s with members := (upsertRequest post me s.clock s.members).2 } where
  slots p hp := by
    rw [crewCount_upsertRequest]
    exact hs.slots p hp
  removed k hk := by
    obtain ⟨m, hm, hstatus⟩ := hs.removed k hk
    have hsome : ((upsertRequest post me s.clock s.members).2.get k).isSome = true :=
      isSome_upsertRequest (by rw [hm]; rfl)
    obtain ⟨m', hm'⟩ := Option.isSome_iff_exists.1 hsome
    refine ⟨m', hm', ?_⟩
    rcases get_upsertRequest hm' with hold | ⟨-, -, hagain⟩
    · rw [hm] at hold
      rw [← Option.some.inj hold]
      exact hstatus
    · -- someone who was removed cannot ask again
      rcases hagain m hm with h | h <;> rw [hstatus] at h <;> cases h
  one := hs.one

/-- A leave of someone who is not removed. -/
theorem inv_left (hs : Inv s) {post : Uuid} {me : String}
    (hnot : NotRemoved s.members (post, lower me)) :
    Inv { s with members := (setMemberStatus post me .left s.clock s.members).2 } where
  slots p hp := (crewCount_setMemberStatus_le (by decide)).trans (hs.slots p hp)
  removed k hk := by
    obtain ⟨m, hm, hstatus⟩ := hs.removed k hk
    refine ⟨m, ?_, hstatus⟩
    rw [get_setMemberStatus, if_neg]
    · exact hm
    · rintro rfl
      exact hnot m hm hstatus
  one := hs.one

/-- The host's answer, with what it does to `banned`. -/
theorem inv_answered (hs : Inv s) {post : Uuid} {handle : String} {status : MemberStatus}
    {m : LfgMember}
    (hfst : (setMemberStatus post handle status s.clock s.members).1 = some m)
    (hroom : status = .accepted → ∃ slots, HasRoom s.posts s.members post slots) :
    Inv { s with
      members := (setMemberStatus post handle status s.clock s.members).2
      banned := bannedAfter (.done (.ok m)) s.banned } := by
  obtain ⟨m₀, hm₀, rfl⟩ : ∃ m₀, s.members.get (post, lower handle) = some m₀ ∧
      m₀.answered status s.clock = m := by
    rw [setMemberStatus, Keyed.get_modify, if_pos rfl] at hfst
    exact Option.map_eq_some_iff.1 hfst
  have hkey : m₀.key = (post, lower handle) := (Keyed.get_eq_some.1 hm₀).2
  refine ⟨fun p hp => ?_, fun k hk => ?_, hs.one⟩
  · by_cases hstatus : status = .accepted
    · subst hstatus
      rcases crewCount_accept s.members post p.id handle s.clock with
        hle | ⟨hq, hcount⟩
      · exact hle.trans (hs.slots p hp)
      · obtain ⟨slots, ⟨q, hget, rfl⟩, hlt⟩ := hroom rfl
        rw [← hq, Keyed.get_eq_some.2 ⟨hp, rfl⟩] at hget
        obtain rfl := Option.some.inj hget
        rw [hcount, hq]
        exact hlt
    · exact (crewCount_setMemberStatus_le hstatus).trans (hs.slots p hp)
  · rw [get_setMemberStatus]
    simp only [bannedAfter, LfgMember.key_answered, hkey] at hk
    split at hk
    · rename_i hremoved
      by_cases hself : k = (post, lower handle)
      · rw [if_pos hself, hself, hm₀]
        exact ⟨_, rfl, hremoved⟩
      · rw [if_neg hself]
        exact hs.removed k ((List.mem_cons.1 hk).resolve_left hself)
    · obtain ⟨hk, hne⟩ := List.mem_filter.1 hk
      rw [if_neg (of_decide_eq_true hne)]
      exact hs.removed k hk

/-! ## What a store call writes -/

section
variable {new : NewLfgPost} {now clock : Timestamp} {id post : Uuid} {me handle : String}
  {blocked : Bool} {status : MemberStatus} {posts : LfgPosts} {members : LfgMembers}

theorem createStep_posts (phase : CreatePhase) :
    (createStep new now clock id (phase, posts)).2 = posts ∨
      phase = .insert ∧ (createStep new now clock id (phase, posts)).2 =
        posts.insertNew (new.row id now clock) := by
  cases phase with
  | openPost =>
    simp only [createStep]
    split <;> exact .inl rfl
  | countPosts =>
    simp only [createStep]
    split <;> exact .inl rfl
  | insert => exact .inr ⟨rfl, rfl⟩
  | done answer => exact .inl rfl

theorem joinStep_members (phase : JoinPhase) :
    (joinStep me post blocked clock posts (phase, members)).2 = members ∨
      (joinStep me post blocked clock posts (phase, members)).2 =
        (upsertRequest post me clock members).2 := by
  cases phase with
  | getPost => exact .inl rfl
  | visible p crew =>
    simp only [joinStep]
    split <;> exact .inl rfl
  | member =>
    simp only [joinStep]
    split <;> exact .inl rfl
  | upsert =>
    right
    rcases hupsert : upsertRequest post me clock members with ⟨_ | m, members'⟩ <;>
      simp [joinStep, hupsert]
  | done answer => exact .inl rfl

theorem leaveStep_members (phase : LeavePhase) :
    (leaveStep me post clock (phase, members)).2 = members ∨
      phase = .write ∧ (leaveStep me post clock (phase, members)).2 =
        (setMemberStatus post me .left clock members).2 := by
  cases phase with
  | member =>
    simp only [leaveStep]
    split <;> exact .inl rfl
  | write => exact .inr ⟨rfl, rfl⟩
  | done answer => exact .inl rfl

theorem respondStep_members (phase : RespondPhase) :
    (respondStep me post handle status clock posts (phase, members)).2 = members ∨
      ∃ current, phase = .write current ∧
        (respondStep me post handle status clock posts (phase, members)).2 =
          (setMemberStatus post current.handle status clock members).2 := by
  cases phase with
  | getPost =>
    simp only [respondStep]
    split
    · exact .inl rfl
    · split <;> exact .inl rfl
  | member p crew =>
    simp only [respondStep]
    split
    · exact .inl rfl
    · split <;> exact .inl rfl
  | write current =>
    refine .inr ⟨current, rfl, ?_⟩
    rcases hset : setMemberStatus post current.handle status clock members with
      ⟨_ | updated, members'⟩ <;> simp [respondStep, hset]
  | done answer => exact .inl rfl

end

/-! ## The store calls -/

theorem inv_createStep (hs : Inv s) {new : NewLfgPost} {now : Timestamp} {id : Uuid}
    {phase : CreatePhase} (hfresh : s.fresh id = true)
    (hnone : phase = .insert → NoneOpen s.posts s.clock new.hostHandle) :
    Inv { s with posts := (createStep new now s.clock id (phase, s.posts)).2 } := by
  rcases createStep_posts phase with heq | ⟨hphase, heq⟩
  · rw [heq]
    exact hs
  · rw [heq]
    exact inv_insert hs hfresh (hnone hphase)

theorem inv_joinStep (hs : Inv s) {me : String} {post : Uuid} {blocked : Bool}
    (phase : JoinPhase) :
    Inv { s with members := (joinStep me post blocked s.clock s.posts (phase, s.members)).2 } := by
  rcases joinStep_members phase with heq | heq
  · rw [heq]
    exact hs
  · rw [heq]
    exact inv_upsertRequest hs post me

theorem inv_leaveStep (hs : Inv s) {me : String} {post : Uuid} {phase : LeavePhase}
    (hnot : phase = .write → NotRemoved s.members (post, lower me)) :
    Inv { s with members := (leaveStep me post s.clock (phase, s.members)).2 } := by
  rcases leaveStep_members phase with heq | ⟨hphase, heq⟩
  · rw [heq]
    exact hs
  · rw [heq]
    exact inv_left hs (hnot hphase)

/-- An answer to nobody writes nothing. -/
theorem setMemberStatus_of_none {post : Uuid} {handle : String} {status : MemberStatus}
    {now : Timestamp} {members members' : LfgMembers}
    (h : setMemberStatus post handle status now members = (none, members')) :
    members' = members := by
  have hfst := congrArg Prod.fst h
  have hsnd := congrArg (fun r => r.2.rows) h
  rw [setMemberStatus, Keyed.get_modify, if_pos rfl] at hfst
  simp only [setMemberStatus] at hsnd
  rw [Keyed.modify_of_none (Option.map_eq_none_iff.1 hfst)] at hsnd
  obtain ⟨rows, hunique⟩ := members
  obtain ⟨rows', hunique'⟩ := members'
  simp only at hsnd
  subst hsnd
  rfl

theorem inv_respondStep (hs : Inv s) {me : String} {post : Uuid} {handle : String}
    {status : MemberStatus} {phase : RespondPhase}
    (hopen : (Call.respond me post handle status phase).finished = false)
    (hroom : ∀ current, phase = .write current → status = .accepted →
      ∃ slots, HasRoom s.posts s.members post slots) :
    let r := respondStep me post handle status s.clock s.posts (phase, s.members)
    Inv { s with members := r.2, banned := bannedAfter r.1 s.banned } := by
  cases phase with
  | getPost =>
    simp only [respondStep]
    split
    · exact hs
    · split <;> exact hs
  | member p crew =>
    simp only [respondStep]
    split
    · exact hs
    · split <;> exact hs
  | write current =>
    simp only [respondStep]
    rcases hset : setMemberStatus post current.handle status s.clock s.members with
      ⟨_ | updated, members⟩
    · rw [setMemberStatus_of_none hset]
      exact hs
    · have hinv := inv_answered hs (congrArg Prod.fst hset) (hroom current rfl)
      rw [hset] at hinv
      exact hinv
  | done answer => cases hopen

theorem inv_callStep (hs : Inv s) {i : Nat} {id : Uuid} {blocked : Bool} {c : Call}
    (hfresh : s.fresh id = true) (hopen : c.finished = false)
    (hholds : c.atWrite = true → c.Holds s) : Inv (callStep s i id blocked c) := by
  cases c with
  | create new now phase =>
    refine (inv_createStep hs hfresh ?_).withCalls _
    rintro rfl
    exact (hholds rfl).2 rfl
  | join me post phase => exact (inv_joinStep hs phase).withCalls _
  | leave me post phase =>
    refine (inv_leaveStep hs ?_).withCalls _
    rintro rfl
    exact hholds rfl rfl
  | respond me post handle status phase =>
    refine (inv_respondStep hs hopen ?_).withCalls _
    rintro current rfl hstatus
    exact hholds rfl hstatus

/-! ## What a call has checked -/

section
variable {members : LfgMembers} {post : Uuid} {handle : String} {clock : Timestamp}
  {status : MemberStatus} {k : Uuid × String} {slots : Nat}

theorem NotRemoved.setMemberStatus (h : NotRemoved members k)
    (hne : status = .removed → k ≠ (post, lower handle)) :
    NotRemoved (setMemberStatus post handle status clock members).2 k := by
  intro m hm
  rw [get_setMemberStatus] at hm
  split at hm
  · rename_i hk
    obtain ⟨m₀, -, rfl⟩ := Option.map_eq_some_iff.1 hm
    exact fun hstatus => hne hstatus hk
  · exact h m hm

theorem NotRemoved.upsertRequest (h : NotRemoved members k) :
    NotRemoved (upsertRequest post handle clock members).2 k := by
  intro m hm
  rcases get_upsertRequest hm with hold | ⟨-, hstatus, -⟩
  · exact h m hold
  · simp [hstatus]

theorem HasRoom.mono {posts : LfgPosts} {members' : LfgMembers}
    (h : HasRoom posts members post slots)
    (hle : crewCount post members' ≤ crewCount post members) :
    HasRoom posts members' post slots :=
  ⟨h.1, hle.trans_lt h.2⟩

end

section
variable {i : Nat} {id : Uuid} {blocked : Bool} {c : Call}

/-- Only a new post of the host undoes it. -/
theorem noneOpen_callStep {new : NewLfgPost} {now : Timestamp} {phase : CreatePhase}
    (h : NoneOpen s.posts s.clock new.hostHandle) (hphase : phase.checked = true)
    (hover : c.overtakes (callStep s i id blocked c) (.create new now phase) = false) :
    NoneOpen (callStep s i id blocked c).posts s.clock new.hostHandle := by
  cases c with
  | create new' now' phase' =>
    have hposts : (createStep new' now' s.clock id (phase', s.posts)).2 = s.posts ∨ _ :=
      createStep_posts phase'
    rcases hposts with heq | ⟨rfl, heq⟩
    · simp only [callStep, heq]
      exact h
    · simp only [callStep, heq]
      intro p hp hhost
      rcases Keyed.eq_of_mem_insertNew hp with hp | rfl
      · exact h p hp hhost
      · have hne : lower new'.hostHandle ≠ lower new.hostHandle := by
          simpa [Call.overtakes, hphase] using hover
        exact absurd hhost hne
  | join me post phase' => exact h
  | leave me post phase' => exact h
  | respond me post handle status phase' => exact h

/-- Only the removal of the player undoes it. -/
theorem notRemoved_callStep {me : String} {post : Uuid}
    (h : NotRemoved s.members (post, lower me))
    (hover : c.overtakes (callStep s i id blocked c) (.leave me post .write) = false) :
    NotRemoved (callStep s i id blocked c).members (post, lower me) := by
  cases c with
  | create new now phase => exact h
  | join me' post' phase =>
    simp only [callStep]
    rcases joinStep_members phase with heq | heq
    · rw [heq]
      exact h
    · rw [heq]
      exact h.upsertRequest
  | leave me' post' phase =>
    simp only [callStep]
    rcases leaveStep_members phase with heq | ⟨-, heq⟩
    · rw [heq]
      exact h
    · rw [heq]
      exact h.setMemberStatus nofun
  | respond me' post' handle status phase =>
    simp only [callStep]
    rcases respondStep_members phase with heq | ⟨current, rfl, heq⟩
    · rw [heq]
      exact h
    · rw [heq]
      refine h.setMemberStatus ?_
      rintro rfl hkey
      simp [Call.overtakes, hkey] at hover

/-- Only the accept that completes the crew undoes it. -/
theorem hasRoom_callStep {me post : String} {handle : String} {phase : RespondPhase} {slots : Nat}
    (h : HasRoom s.posts s.members post slots) (hphase : phase.counted = true)
    (hover : c.overtakes (callStep s i id blocked c) (.respond me post handle .accepted phase) =
      false) :
    HasRoom (callStep s i id blocked c).posts (callStep s i id blocked c).members post slots := by
  cases c with
  | create new now phase' =>
    obtain ⟨⟨p, hget, hslots⟩, hlt⟩ := h
    refine ⟨?_, hlt⟩
    simp only [callStep]
    rcases createStep_posts phase' with heq | ⟨-, heq⟩
    · rw [heq]
      exact ⟨p, hget, hslots⟩
    · rw [heq, Keyed.get_insertNew, hget]
      refine ⟨p, ?_, hslots⟩
      split <;> rfl
  | join me' post' phase' =>
    simp only [callStep]
    rcases joinStep_members phase' with heq | heq
    · rw [heq]
      exact h
    · rw [heq]
      exact h.mono crewCount_upsertRequest.le
  | leave me' post' phase' =>
    simp only [callStep]
    rcases leaveStep_members phase' with heq | ⟨-, heq⟩
    · rw [heq]
      exact h
    · rw [heq]
      exact h.mono (crewCount_setMemberStatus_le (by decide))
  | respond me' post' handle' status phase' =>
    simp only [callStep] at hover ⊢
    rcases respondStep_members phase' with heq | ⟨current, rfl, heq⟩
    · rw [heq]
      exact h
    · rw [heq]
      by_cases hstatus : status = .accepted
      · subst hstatus
        rcases crewCount_accept s.members post' post current.handle s.clock with
          hle | ⟨rfl, -⟩
        · exact h.mono hle
        · obtain ⟨⟨p, hget, hslots⟩, -⟩ := h
          refine ⟨⟨p, hget, hslots⟩, ?_⟩
          have hfull : ¬ p.crewSlots ≤ crewCount post
              (setMemberStatus post current.handle .accepted s.clock s.members).2 := by
            simpa [Call.overtakes, State.full, hphase, hget, heq] using hover
          rw [← hslots]
          exact Nat.lt_of_not_le hfull
      · exact h.mono (crewCount_setMemberStatus_le hstatus)

@[simp] theorem clock_callStep : (callStep s i id blocked c).clock = s.clock := by
  cases c <;> rfl

theorem Call.Holds.of_not_overtaken {d : Call} (h : d.Holds s)
    (hover : c.overtakes (callStep s i id blocked c) d = false) :
    d.Holds (callStep s i id blocked c) := by
  cases d with
  | create new now phase =>
    refine ⟨by rw [clock_callStep]; exact h.1, fun hphase => ?_⟩
    rw [clock_callStep]
    exact noneOpen_callStep (h.2 hphase) hphase hover
  | join me post phase => trivial
  | leave me post phase =>
    rintro rfl
    exact notRemoved_callStep (h rfl) hover
  | respond me post handle status phase =>
    rintro rfl
    cases phase with
    | getPost => trivial
    | member p crew => exact fun hlt => hasRoom_callStep (h rfl hlt) rfl hover
    | write current =>
      obtain ⟨slots, hroom⟩ := h rfl
      exact ⟨slots, hasRoom_callStep hroom rfl hover⟩
    | done answer => trivial

/-! ### The checks themselves -/

theorem holds_createStep {new : NewLfgPost} {now : Timestamp} {phase : CreatePhase}
    (h : (Call.create new now phase).Holds s) :
    let r := createStep new now s.clock id (phase, s.posts)
    (Call.create new now r.1).Holds { s with posts := r.2 } := by
  refine ⟨h.1, fun hphase => ?_⟩
  cases phase with
  | openPost =>
    simp only [createStep] at hphase ⊢
    split at hphase
    · cases hphase
    · rename_i hnone
      rw [if_neg hnone]
      intro p hp hhost
      have hclosed : p.isOpen now = false :=
        openPostForHost_eq_none (by simpa using hnone) hp hhost
      rw [Bool.eq_false_iff] at hclosed ⊢
      exact fun hopen => hclosed (isOpen_of_le h.1 hopen)
  | countPosts =>
    simp only [createStep] at hphase ⊢
    split at hphase
    · cases hphase
    · rename_i hlimit
      rw [if_neg hlimit]
      exact h.2 rfl
  | insert => cases hphase
  | done answer => cases hphase

theorem holds_leaveStep {me : String} {post : Uuid} {phase : LeavePhase} :
    let r := leaveStep me post s.clock (phase, s.members)
    (Call.leave me post r.1).Holds { s with members := r.2 } := by
  intro r hphase
  cases phase with
  | member =>
    simp only [r, leaveStep] at hphase ⊢
    split at hphase
    · cases hphase
    · rename_i hcan
      rw [if_neg hcan]
      intro m hm hremoved
      rw [show lfgMember post me s.members = some m from hm] at hcan
      simp [canLeave, hremoved] at hcan
  | write => cases hphase
  | done answer => cases hphase

theorem lt_of_acceptRefusal {p : LfgPost} {crew : Nat} {current : LfgMember} {now : Timestamp}
    (h : acceptRefusal p crew current now = none) : crew < p.crewSlots := by
  unfold acceptRefusal at h
  split at h
  · cases h
  · split at h
    · cases h
    · split at h
      · cases h
      · exact Nat.lt_of_not_le ‹_›

theorem holds_respondStep {me handle : String} {post : Uuid} {status : MemberStatus}
    {phase : RespondPhase} (h : (Call.respond me post handle status phase).Holds s) :
    let r := respondStep me post handle status s.clock s.posts (phase, s.members)
    (Call.respond me post handle status r.1).Holds { s with members := r.2 } := by
  intro r hstatus
  subst hstatus
  cases phase with
  | getPost =>
    simp only [r, respondStep]
    cases hpost : s.posts.get post with
    | none => trivial
    | some p =>
      dsimp only
      split
      · trivial
      · exact fun hlt => ⟨⟨p, hpost, rfl⟩, hlt⟩
  | member p crew =>
    simp only [r, respondStep]
    cases hmember : lfgMember post handle s.members with
    | none => trivial
    | some current =>
      dsimp only
      cases hrefusal : acceptRefusal p crew current s.clock with
      | some refusal => trivial
      | none => exact ⟨p.crewSlots, h rfl (lt_of_acceptRefusal hrefusal)⟩
  | write current =>
    simp only [r, respondStep]
    split <;> trivial
  | done answer => trivial

/-- The call at `i` after its store call. -/
theorem calls_callStep (c : Call) (i : Nat) (id : Uuid) (blocked : Bool) :
    ∃ c', (callStep s i id blocked c).calls = s.calls.set i c' ∧
      (c.Holds s → c'.Holds (callStep s i id blocked c)) := by
  cases c with
  | create new now phase => exact ⟨_, rfl, fun h => holds_createStep h⟩
  | join me post phase => exact ⟨_, rfl, fun _ => trivial⟩
  | leave me post phase => exact ⟨_, rfl, fun _ => holds_leaveStep⟩
  | respond me post handle status phase => exact ⟨_, rfl, fun h => holds_respondStep h⟩

/-! ### The clock and `close_post` -/

theorem Call.Holds.tick {d : Call} (h : d.Holds s) {now : Timestamp} (hle : s.clock ≤ now) :
    d.Holds { s with clock := now } := by
  cases d with
  | create new began phase =>
    refine ⟨h.1.trans hle, fun hphase p hp hhost => ?_⟩
    have hclosed := h.2 hphase p hp hhost
    rw [Bool.eq_false_iff] at hclosed ⊢
    exact fun hopen => hclosed (isOpen_of_le hle hopen)
  | join me post phase => trivial
  | leave me post phase => exact h
  | respond me post handle status phase => exact h

theorem noneOpen_close {posts : LfgPosts} {clock : Timestamp} {host : String}
    (h : NoneOpen posts clock host) (post : Uuid) :
    NoneOpen (closePost post clock posts) clock host := by
  intro p hp hhost
  rcases mem_closePost.1 hp with ⟨hp, -⟩ | ⟨q, hget, rfl⟩
  · exact h p hp hhost
  · rw [Bool.eq_false_iff]
    intro hopen
    have heq : q.closed clock = q := isOpen_closed hopen
    rw [heq] at hopen hhost
    rw [h q (Keyed.get_eq_some.1 hget).1 hhost] at hopen
    cases hopen

theorem hasRoom_close {posts : LfgPosts} {members : LfgMembers} {post closed : Uuid}
    {clock : Timestamp} {slots : Nat} (h : HasRoom posts members post slots) :
    HasRoom (closePost closed clock posts) members post slots := by
  obtain ⟨⟨p, hget, hslots⟩, hlt⟩ := h
  refine ⟨?_, hlt⟩
  rw [closePost, Keyed.get_modify]
  split
  · rename_i hpost
    rw [← hpost, hget]
    exact ⟨_, rfl, (hostHandle_closed clock p).2.trans hslots⟩
  · exact ⟨p, hget, hslots⟩

theorem Call.Holds.close {d : Call} (h : d.Holds s) (post : Uuid) :
    d.Holds { s with posts := closePost post s.clock s.posts } := by
  cases d with
  | create new now phase => exact ⟨h.1, fun hphase => noneOpen_close (h.2 hphase) post⟩
  | join me post' phase => trivial
  | leave me post' phase => exact h
  | respond me post' handle status phase =>
    intro hstatus
    cases phase with
    | getPost => trivial
    | member p crew => exact fun hlt => hasRoom_close (h hstatus hlt)
    | write current =>
      obtain ⟨slots, hroom⟩ := h hstatus
      exact ⟨slots, hasRoom_close hroom⟩
    | done answer => trivial

end

/-! ## Whole runs -/

/-- The rules hold, and so does what a call has checked, unless it was overtaken. -/
structure Sound (s : State) : Prop where
  inv : Inv s
  holds : ∀ j d, s.calls[j]? = some d → j ∉ s.overtaken → d.Holds s

theorem sound_start : Sound .start where
  inv := inv_start
  holds j d hd := by
    cases hd

/-- A call that begins has checked nothing. -/
theorem Sound.begin (hs : Sound s) {c : Call} (hc : c.Holds s) :
    Sound { s with calls := s.calls ++ [c] } where
  inv := hs.inv.withCalls _
  holds j d hd hj := by
    rcases lt_or_ge j s.calls.length with hlt | hge
    · exact hs.holds j d ((List.getElem?_append_left hlt).symm.trans hd) hj
    · have hlast : d ∈ [c] :=
        List.mem_of_getElem? ((List.getElem?_append_right hge).symm.trans hd)
      rw [List.mem_singleton.1 hlast]
      exact hc

theorem sound_next (hs : Sound s) {i : Nat} {id : Uuid} {blocked : Bool} {c : Call}
    (hc : s.calls[i]? = some c) (hfresh : s.fresh id = true) (hopen : c.finished = false)
    (hok : c.atWrite = true → i ∉ s.overtaken) :
    Sound { callStep s i id blocked c with
      overtaken := s.overtaken ++ (callStep s i id blocked c).overtakenBy i c } where
  inv := by
    have hinv : Inv (callStep s i id blocked c) := inv_callStep hs.inv hfresh hopen
      fun hwrite => hs.holds i c hc (hok hwrite)
    exact ⟨hinv.slots, hinv.removed, hinv.one⟩
  holds j d hd hj := by
    obtain ⟨c', hcalls, hself⟩ := calls_callStep (s := s) c i id blocked
    obtain ⟨hjs, hnot⟩ := not_or.1 (mt List.mem_append.2 hj)
    by_cases hji : j = i
    · subst hji
      have hdc : d = c' := by
        have hd' : (s.calls.set j c')[j]? = some d := hcalls ▸ hd
        rw [List.getElem?_set_self (List.getElem?_eq_some_iff.1 hc).1] at hd'
        exact (Option.some.inj hd').symm
      subst hdc
      exact hself (hs.holds j c hc hjs)
    · have hold : s.calls[j]? = some d := by
        have hd' : (s.calls.set i c')[j]? = some d := hcalls ▸ hd
        rwa [List.getElem?_set_ne (Ne.symm hji)] at hd'
      have hover : c.overtakes (callStep s i id blocked c) d = false := by
        rw [Bool.eq_false_iff]
        intro hover
        refine hnot (List.mem_filter.2 ⟨List.mem_range.2 (List.getElem?_eq_some_iff.1 hd).1, ?_⟩)
        rw [show (callStep s i id blocked c).calls[j]? = some d from hd]
        simp [hji, hover]
      exact (hs.holds j d hold hjs).of_not_overtaken hover

theorem sound_step {s' : State} {act : Action} (hs : Sound s) (hok : InTurn s act)
    (h : step s act = some s') : Sound s' := by
  cases act with
  | tick now =>
    simp only [step] at h
    split at h
    · rename_i hle
      cases h
      exact ⟨inv_tick hs.inv hle, fun j d hd hj => (hs.holds j d hd hj).tick hle⟩
    · cases h
  | create new =>
    cases h
    exact hs.begin ⟨le_refl _, nofun⟩
  | join me post =>
    cases h
    exact hs.begin trivial
  | leave me post =>
    cases h
    exact hs.begin nofun
  | respond me post handle action =>
    simp only [step] at h
    split at h
    · cases h
    · cases h
      exact hs.begin fun _ => trivial
  | close post =>
    cases h
    exact ⟨inv_close hs.inv post, fun j d hd hj => (hs.holds j d hd hj).close post⟩
  | next i id blocked =>
    simp only [step] at h
    split at h
    · cases h
    · rename_i c hc
      split at h
      · cases h
      · rename_i hguard
        cases h
        simp only [Bool.or_eq_true, Bool.not_eq_true', not_or, Bool.not_eq_true,
          Bool.not_eq_false] at hguard
        refine sound_next hs hc hguard.2 hguard.1 fun hwrite => hok ?_
        simpa [hc] using hwrite

/-- **The rules of the board hold** in every run in which no write is overtaken: the check of each
is still the last word on the host's posts, the leaver's removal or the last slot. -/
theorem kept_of_inTurn {s : State} (h : Trans.Reach step InTurn .start s) : Kept s := by
  have hsound : Sound s := h.inv sound_start fun _ _ _ hs hok hstep => sound_step hs hok hstep
  exact hsound.inv.kept

/-! ### Hana's post -/

def hanasPost : NewLfgPost := ⟨"Hana", .mining, 1, 120, by decide, by decide⟩

def nexts (i n : Nat) : List Action := List.replicate n (.next i "x" false)

/-- Hana posts, and Ann and Ben ask to join. -/
def asking : List Action :=
  [Action.create hanasPost] ++ nexts 0 2 ++ [Action.next 0 "p1" false, .join "Ann" "p1"] ++
    nexts 1 4 ++ [Action.join "Ben" "p1"] ++ nexts 2 4

/-- Hana accepts Ann while Ben leaves, and then looks for an open post in vain. -/
def acceptAndLeave : List Action :=
  asking ++ [Action.respond "Hana" "p1" "Ann" "accept", .leave "Ben" "p1"] ++ nexts 3 2 ++
    nexts 4 1 ++ nexts 3 1 ++ nexts 4 1 ++ [Action.create hanasPost] ++ nexts 5 1

theorem kept_of_inTurn_hana : ∃ s, Trans.Reach step InTurn .start s ∧
    s.members.rows.map (·.status) = [.accepted, .left] ∧ s.posts.rows.length = 1 ∧ Kept s := by
  have hrun : (Trans.exec step InTurn .start acceptAndLeave).map
      (fun s => (s.members.rows.map (·.status), s.posts.rows.length)) =
      some ([.accepted, .left], 1) := by decide +kernel
  obtain ⟨s, hreach, hs⟩ := Trans.reach_of_map_exec acceptAndLeave hrun
  exact ⟨s, hreach, congrArg Prod.fst hs, congrArg Prod.snd hs, kept_of_inTurn hreach⟩

/-- Both requests are checked for the one slot before either is accepted. -/
def twoAccepts : List Action :=
  asking ++ [Action.respond "Hana" "p1" "Ann" "accept", .respond "Hana" "p1" "Ben" "accept"] ++
    nexts 3 2 ++ nexts 4 2 ++ nexts 3 1 ++ nexts 4 1

/-- Ann's leave overwrites her removal, and she asks again. -/
def leaveInRemoval : List Action :=
  asking ++ [Action.leave "Ann" "p1"] ++ nexts 3 1 ++ [Action.respond "Hana" "p1" "Ann" "remove"] ++
    nexts 4 3 ++ nexts 3 1 ++ [Action.join "Ann" "p1"] ++ nexts 5 4

/-- Both calls look for an open post before either inserts one. -/
def twoCreates : List Action :=
  [Action.create hanasPost, .create hanasPost] ++ nexts 0 2 ++ nexts 1 2 ++
    [Action.next 0 "p1" false, .next 1 "p2" false]

/-- Each rule is broken by two calls that overlap. -/
theorem racing_calls_break_rules :
    (¬ ∀ s, Trans.Reach step Trans.always .start s →
      ∀ p ∈ s.posts.rows, crewCount p.id s.members ≤ p.crewSlots) ∧
    (¬ ∀ s, Trans.Reach step Trans.always .start s → ∀ k ∈ s.banned, ∀ m,
      s.members.get k = some m → m.status ≠ .requested ∧ m.status ≠ .accepted) ∧
    (¬ ∀ s, Trans.Reach step Trans.always .start s → ∀ p ∈ s.posts.rows, ∀ q ∈ s.posts.rows,
      lower p.hostHandle = lower q.hostHandle → p.isOpen s.clock = true →
      q.isOpen s.clock = true → p = q) := by
  refine ⟨fun h => ?_, fun h => ?_, fun h => ?_⟩
  · have hrun : (Trans.exec step Trans.always .start twoAccepts).map (fun s =>
        s.posts.rows.all fun p => decide (crewCount p.id s.members ≤ p.crewSlots)) =
        some false := by decide +kernel
    obtain ⟨s, hreach, hbroken⟩ := Trans.reach_of_map_exec twoAccepts hrun
    have hall := List.all_eq_true.2 fun p hp => decide_eq_true (h s hreach p hp)
    exact absurd (hall.symm.trans hbroken) (by decide)
  · have hrun : (Trans.exec step Trans.always .start leaveInRemoval).map (fun s =>
        s.banned.all fun k => (s.members.get k).all fun m =>
          decide (m.status ≠ .requested ∧ m.status ≠ .accepted)) = some false := by decide +kernel
    obtain ⟨s, hreach, hbroken⟩ := Trans.reach_of_map_exec leaveInRemoval hrun
    have hall : (s.banned.all fun k => (s.members.get k).all fun m =>
        decide (m.status ≠ .requested ∧ m.status ≠ .accepted)) = true := by
      rw [List.all_eq_true]
      intro k hk
      cases hm : s.members.get k with
      | none => rfl
      | some m => exact decide_eq_true (h s hreach k hk m hm)
    exact absurd (hall.symm.trans hbroken) (by decide)
  · have hrun : (Trans.exec step Trans.always .start twoCreates).map (fun s =>
        s.posts.rows.all fun p => s.posts.rows.all fun q =>
          decide (lower p.hostHandle = lower q.hostHandle → p.isOpen s.clock = true →
            q.isOpen s.clock = true → p = q)) = some false := by decide +kernel
    obtain ⟨s, hreach, hbroken⟩ := Trans.reach_of_map_exec twoCreates hrun
    have hall := List.all_eq_true.2 fun p hp =>
      List.all_eq_true.2 fun q hq => decide_eq_true (h s hreach p hp q hq)
    exact absurd (hall.symm.trans hbroken) (by decide)

end LfgRaces

end StarStats
