import StarStats.Server.CrewHistory
import StarStats.Server.Proof.Lfg

/-!
# Crew history is who flew together

`Inv` is the statement about the history in lower case, with who is on record with the host. Asking,
leaving and declining keep it (`inv_quiet`); an accept and a removal keep it where they are `Plain`
(`inv_accepted`, `inv_removed`) and break the statement where they are not (`not_exact_of_accepted`,
`not_exact_of_removed`). `history_exact_iff_plain` is the outcome for whole sequences of calls.
-/

namespace StarStats

open Text (lower)

namespace CrewHistory

/-! ## The invariant -/

/-- `InCrew` of a handle in lower case. -/
def Crew (flown : List (Uuid × String)) (p : LfgPost) (x : String) : Prop :=
  x = lower p.hostHandle ∨ (p.id, x) ∈ flown

/-- `Aboard` of a handle in lower case. -/
def On (members : LfgMembers) (p : LfgPost) (x : String) : Prop :=
  x = lower p.hostHandle ∨ ∃ m, members.get (p.id, x) = some m ∧ m.status = .accepted

structure Inv (s : State) : Prop where
  only : ∀ p ∈ s.tables.posts.rows, ∀ x y, Recorded s.tables.history p.id x y →
    Crew s.flown p x ∧ Crew s.flown p y
  all : ∀ p ∈ s.tables.posts.rows, ∀ x y, x ≠ y → On s.tables.members p x →
    On s.tables.members p y → Recorded s.tables.history p.id x y
  /-- Who has flown is on record with the host. -/
  host : ∀ p ∈ s.tables.posts.rows, ∀ x, (p.id, x) ∈ s.flown →
    Recorded s.tables.history p.id x (lower p.hostHandle)
  accepted : ∀ k m, s.tables.members.get k = some m → m.status = .accepted → k ∈ s.flown
  known : ∀ k ∈ s.flown, (s.tables.members.get k).isSome = true
  /-- The host is no member. -/
  notHost : ∀ p ∈ s.tables.posts.rows, s.tables.members.get (p.id, lower p.hostHandle) = none

variable {s : State}

theorem Inv.exact (hs : Inv s) : Exact s :=
  ⟨fun p hp _ _ h => hs.only p hp _ _ h, fun p hp _ _ hne ha hb => hs.all p hp _ _ hne ha hb⟩

theorem inv_start (posts : LfgPosts) : Inv (.start posts) := by
  constructor
  · intro p _ x y h
    cases h
  · intro p _ x y hne hx hy
    rcases hx with rfl | ⟨m, hm, -⟩
    · rcases hy with rfl | ⟨m, hm, -⟩
      · exact absurd rfl hne
      · cases hm
    · cases hm
  · intro p _ x h
    cases h
  · intro k m h
    cases h
  · intro k h
    cases h
  · intro p _
    rfl

/-- A change of the members by which nobody comes aboard, is lost, or takes the host's handle. -/
theorem inv_quiet (hs : Inv s) {members : LfgMembers}
    (haboard : ∀ k m, members.get k = some m → m.status = .accepted →
      s.tables.members.get k = some m)
    (hkept : ∀ k, (s.tables.members.get k).isSome = true → (members.get k).isSome = true)
    (hhost : ∀ p ∈ s.tables.posts.rows, members.get (p.id, lower p.hostHandle) = none) :
    Inv { s with tables := { s.tables with members := members } } where
  only := hs.only
  all p hp x y hne hx hy := by
    have hon : ∀ z, On members p z → On s.tables.members p z := by
      rintro z (hz | ⟨m, hm, hstatus⟩)
      · exact .inl hz
      · exact .inr ⟨m, haboard _ m hm hstatus, hstatus⟩
    exact hs.all p hp x y hne (hon x hx) (hon y hy)
  host := hs.host
  accepted k m hm hstatus := hs.accepted k m (haboard k m hm hstatus) hstatus
  known k hk := hkept k (hs.known k hk)
  notHost := hhost

/-! ## Asking and leaving -/

/-- Setting a status other than `accepted`. -/
theorem inv_setMemberStatus (hs : Inv s) {post : Uuid} {handle : String} {status : MemberStatus}
    {now : Timestamp} (hstatus : status ≠ .accepted) :
    Inv { s with
      tables := { s.tables with
        members := (setMemberStatus post handle status now s.tables.members).2 } } := by
  apply inv_quiet hs
  · intro k m hm haccepted
    rw [get_setMemberStatus] at hm
    split at hm
    · obtain ⟨m₀, -, rfl⟩ := Option.map_eq_some_iff.1 hm
      exact absurd haccepted hstatus
    · exact hm
  · intro k hk
    rw [get_setMemberStatus]
    split
    · rw [Option.isSome_map]
      exact hk
    · exact hk
  · intro p hp
    rw [get_setMemberStatus, hs.notHost p hp]
    split <;> rfl

theorem inv_upsertRequest (hs : Inv s) {post : Uuid} {handle : String} {now : Timestamp}
    (hhost : ∀ p ∈ s.tables.posts.rows, p.id = post → lower p.hostHandle ≠ lower handle) :
    Inv { s with
      tables := { s.tables with
        members := (upsertRequest post handle now s.tables.members).2 } } := by
  apply inv_quiet hs
  · intro k m hm haccepted
    rcases get_upsertRequest hm with hm | ⟨-, hrequested, -⟩
    · exact hm
    · rw [hrequested] at haccepted
      cases haccepted
  · intro k hk
    exact isSome_upsertRequest hk
  · intro p hp
    cases hget : (upsertRequest post handle now s.tables.members).2.get
        (p.id, lower p.hostHandle) with
    | none => rfl
    | some m =>
      rcases get_upsertRequest hget with hm | ⟨hk, -⟩
      · rw [hs.notHost p hp] at hm
        cases hm
      · obtain ⟨hid, hlower⟩ := Prod.mk.inj hk
        exact absurd hlower (hhost p hp hid)

theorem inv_join (hs : Inv s) {verified blocked : Bool} {me : String} {post : Uuid}
    {now : Timestamp} :
    Inv { s with tables := (joinPost verified blocked me post now s.tables).2 } := by
  unfold joinPost
  split
  · exact hs
  split
  · exact hs
  rename_i hopen
  split
  · exact hs
  have hhost : ∀ p ∈ s.tables.posts.rows, p.id = post → lower p.hostHandle ≠ lower me := by
    rintro p hp rfl heq
    have hget : s.tables.posts.get p.id = some p := Keyed.get_eq_some.2 ⟨hp, rfl⟩
    simp only [joinRefusal, hget, Text.eqIgnoreAsciiCase, heq, BEq.rfl, if_true] at hopen
    grind
  have hinv : Inv { s with
      tables := { s.tables with members := (upsertRequest post me now s.tables.members).2 } } :=
    inv_upsertRequest hs hhost
  split
  · rename_i m members heq
    rw [heq] at hinv
    exact hinv
  · rename_i members heq
    rw [heq] at hinv
    exact hinv

theorem inv_leave (hs : Inv s) {me : String} {post : Uuid} {now : Timestamp} :
    Inv { s with tables := (leavePost me post now s.tables).2 } := by
  unfold leavePost
  split
  · exact hs
  · exact inv_setMemberStatus hs (by decide)

/-! ## The host's answers -/

/-- What `respond` does once its checks have passed. -/
theorem respond_eq {me : String} {post : Uuid} {handle action : String} {now : Timestamp}
    {t : LfgTables} {status : MemberStatus} {p : LfgPost} {m : LfgMember}
    (h : respondCheck me post handle action now t = .ok (status, p, m)) :
    StarStats.respond me post handle action now t =
      (.ok (m.answered status now),
        { t with
          members := (setMemberStatus post m.handle status now t.members).2
          history := recordCrewChange p m.status (m.answered status now) now
            (setMemberStatus post m.handle status now t.members).2 t.history }) := by
  have hmember := (respondCheck_ok h).2.1
  have hfst : (setMemberStatus post m.handle status now t.members).1 =
      some (m.answered status now) := by
    apply fst_setMemberStatus
    rw [lfgMember, lower_of_lfgMember hmember]
    exact hmember
  rw [StarStats.respond, h]
  simp only
  generalize setMemberStatus post m.handle status now t.members = r at hfst ⊢
  obtain ⟨updated, members⟩ := r
  simp only at hfst
  subst hfst
  rfl

section
variable {post : Uuid} {p : LfgPost} {m : LfgMember} {now : Timestamp}

/-- Who is put on record with a player that is accepted. -/
def crewWith (p : LfgPost) (m : LfgMember) (members : LfgMembers) : List String :=
  p.hostHandle :: (((lfgMembers p.id members).filter
    fun x => x.status = .accepted || x.status = .left).filter
    fun x => !Text.eqIgnoreAsciiCase x.handle m.handle).map (·.handle)

theorem mem_crewWith {members : LfgMembers} {o : String} : o ∈ crewWith p m members ↔
    o = p.hostHandle ∨ ∃ x ∈ members.rows, x.postId = p.id ∧
      (x.status = .accepted ∨ x.status = .left) ∧ lower x.handle ≠ lower m.handle ∧
      x.handle = o := by
  simp only [crewWith, List.mem_cons, List.mem_map, List.mem_filter, lfgMembers,
    (List.perm_insertionSort _ _).mem_iff, Bool.or_eq_true, decide_eq_true_eq,
    Text.eqIgnoreAsciiCase, Bool.not_eq_true', beq_eq_false_iff_ne, and_assoc]

/-- The tables and `flown` after an accept. -/
def afterAccept (s : State) (p : LfgPost) (m : LfgMember) (now : Timestamp) : State :=
  ⟨{ s.tables with
      members := (setMemberStatus p.id m.handle .accepted now s.tables.members).2
      history := (crewWith p m (setMemberStatus p.id m.handle .accepted now s.tables.members).2).foldl
        (fun h o => recordCrew p.id p.activity m.handle o now h) s.tables.history },
    m.key :: s.flown⟩

theorem get_answered {status : MemberStatus} (hm : s.tables.members.get m.key = some m)
    (hid : m.postId = p.id) (k : Uuid × String) :
    (setMemberStatus p.id m.handle status now s.tables.members).2.get k =
      if k = m.key then some (m.answered status now) else s.tables.members.get k := by
  rw [get_setMemberStatus, ← hid]
  have hkey : (m.postId, lower m.handle) = m.key := rfl
  rw [hkey]
  split
  · rename_i hk
    rw [hk, hm, Option.map_some]
  · rfl

theorem ne_host_of_member (hs : Inv s) (hp : p ∈ s.tables.posts.rows) {x : LfgMember}
    (hx : s.tables.members.get x.key = some x) (hid : x.postId = p.id) :
    lower x.handle ≠ lower p.hostHandle := by
  intro heq
  have hnone := hs.notHost p hp
  rw [← heq, ← hid] at hnone
  exact absurd (hx.symm.trans hnone) (by simp)

/-- The row of another member is the one from before. -/
theorem mem_of_mem_answered {status : MemberStatus} (hm : s.tables.members.get m.key = some m)
    (hid : m.postId = p.id) {x : LfgMember}
    (hx : x ∈ (setMemberStatus p.id m.handle status now s.tables.members).2.rows)
    (hne : lower x.handle ≠ lower m.handle) : x ∈ s.tables.members.rows := by
  have hget := Keyed.get_eq_some.2 ⟨hx, rfl⟩
  rw [get_answered hm hid, if_neg] at hget
  · exact (Keyed.get_eq_some.1 hget).1
  · intro hkey
    exact hne (congrArg Prod.snd hkey)

theorem inv_accepted (hs : Inv s) (hp : p ∈ s.tables.posts.rows)
    (hm : s.tables.members.get m.key = some m) (hid : m.postId = p.id)
    (hleft : ∀ x ∈ s.tables.members.rows, x.postId = p.id → x.status = .left →
      lower x.handle ≠ lower m.handle → x.key ∈ s.flown) : Inv (afterAccept s p m now) := by
  have hkey : m.key = (p.id, lower m.handle) := by rw [← hid]; rfl
  have hsame : ∀ q ∈ s.tables.posts.rows, q.id = p.id → q = p :=
    fun q hq h => Keyed.eq_of_key hq hp h
  have hget (k : Uuid × String) : (afterAccept s p m now).tables.members.get k =
      if k = m.key then some (m.answered .accepted now) else s.tables.members.get k :=
    get_answered hm hid k
  constructor
  · intro q hq x y h
    have hmono : ∀ z, Crew s.flown q z → Crew (m.key :: s.flown) q z :=
      fun z hz => hz.imp_right (.tail _)
    rcases recorded_foldl.1 h with h | ⟨hqp, o, ho, hxy⟩
    · obtain ⟨hx, hy⟩ := hs.only q hq x y h
      exact ⟨hmono x hx, hmono y hy⟩
    · obtain rfl := hsame q hq hqp
      have hself : Crew (m.key :: s.flown) q (lower m.handle) := .inr (hkey ▸ .head _)
      have hother : Crew (m.key :: s.flown) q (lower o) := by
        rcases mem_crewWith.1 ho with rfl | ⟨x, hx, hxid, hstatus, hne, rfl⟩
        · exact .inl rfl
        · have hold := mem_of_mem_answered hm hid hx hne
          have hxkey : x.key = (q.id, lower x.handle) := by rw [← hxid]; rfl
          right
          rw [← hxkey]
          rcases hstatus with hstatus | hstatus
          · exact .tail _ (hs.accepted _ x (Keyed.get_eq_some.2 ⟨hold, rfl⟩) hstatus)
          · exact .tail _ (hleft x hold hxid hstatus hne)
      rcases hxy with ⟨rfl, rfl⟩ | ⟨rfl, rfl⟩
      · exact ⟨hself, hother⟩
      · exact ⟨hother, hself⟩
  · intro q hq x y hne hx hy
    -- the one who is accepted now, or who was aboard before
    have hon : ∀ z, On (afterAccept s p m now).tables.members q z →
        (q = p ∧ z = lower m.handle) ∨ On s.tables.members q z := by
      rintro z (hz | ⟨x, hx, hstatus⟩)
      · exact .inr (.inl hz)
      · rw [hget] at hx
        split at hx
        · rename_i hk
          obtain ⟨hqp, hz⟩ := Prod.mk.inj (hk.trans hkey)
          exact .inl ⟨hsame q hq hqp, hz⟩
        · exact .inr (.inr ⟨x, hx, hstatus⟩)
    have hwith : ∀ z, q = p → z ≠ lower m.handle → On s.tables.members q z →
        ∃ o ∈ crewWith p m (afterAccept s p m now).tables.members, lower o = z := by
      rintro z rfl hz (rfl | ⟨x, hx, hstatus⟩)
      · exact ⟨_, mem_crewWith.2 (.inl rfl), rfl⟩
      · have hx' : (afterAccept s q m now).tables.members.get (q.id, z) = some x := by
          rw [hget, if_neg]
          · exact hx
          · intro hk
            exact hz (Prod.mk.inj (hk.trans hkey)).2
        obtain ⟨hmem, hxkey⟩ := Keyed.get_eq_some.1 hx'
        obtain ⟨hxid, hlower⟩ := Prod.mk.inj hxkey
        exact ⟨x.handle, mem_crewWith.2 (.inr ⟨x, hmem, hxid, .inl hstatus, hlower ▸ hz, rfl⟩),
          hlower⟩
    refine recorded_foldl.2 ?_
    rcases hon x hx with ⟨hq', rfl⟩ | hx
    · rcases hon y hy with ⟨-, rfl⟩ | hy
      · exact absurd rfl hne
      · obtain ⟨o, ho, rfl⟩ := hwith y hq' hne.symm hy
        exact .inr ⟨congrArg LfgPost.id hq', o, ho, .inl ⟨rfl, rfl⟩⟩
    · rcases hon y hy with ⟨hq', rfl⟩ | hy
      · obtain ⟨o, ho, rfl⟩ := hwith x hq' hne hx
        exact .inr ⟨congrArg LfgPost.id hq', o, ho, .inr ⟨rfl, rfl⟩⟩
      · exact .inl (hs.all q hq x y hne hx hy)
  · intro q hq x hx
    refine recorded_foldl.2 ?_
    rcases List.mem_cons.1 hx with hx | hx
    · obtain ⟨hqp, rfl⟩ := Prod.mk.inj (hx.trans hkey)
      obtain rfl := hsame q hq hqp
      exact .inr ⟨rfl, q.hostHandle, mem_crewWith.2 (.inl rfl), .inl ⟨rfl, rfl⟩⟩
    · exact .inl (hs.host q hq x hx)
  · intro k x hx hstatus
    rw [hget] at hx
    split at hx
    · rename_i hk
      exact hk ▸ .head _
    · exact .tail _ (hs.accepted k x hx hstatus)
  · intro k hk
    rw [hget]
    split
    · rfl
    · rename_i hne
      exact hs.known k ((List.mem_cons.1 hk).resolve_left hne)
  · intro q hq
    rw [hget, if_neg]
    · exact hs.notHost q hq
    · intro hk
      have hnone := hs.notHost q hq
      rw [hk, hm] at hnone
      cases hnone

/-- A player who only withdrew a request is put on record. -/
theorem not_exact_of_accepted (hs : Inv s) (hp : p ∈ s.tables.posts.rows)
    (hm : s.tables.members.get m.key = some m) (hid : m.postId = p.id) {x : LfgMember}
    (hx : x ∈ s.tables.members.rows) (hxid : x.postId = p.id) (hstatus : x.status = .left)
    (hne : lower x.handle ≠ lower m.handle) (hnot : x.key ∉ s.flown) :
    ¬ Exact (afterAccept s p m now) := by
  intro hexact
  have hxget : s.tables.members.get x.key = some x := Keyed.get_eq_some.2 ⟨hx, rfl⟩
  have hxnew : x ∈ (afterAccept s p m now).tables.members.rows := by
    have hget : (afterAccept s p m now).tables.members.get x.key = some x := by
      rw [afterAccept, get_answered hm hid, if_neg]
      · exact hxget
      · intro hk
        exact hne (congrArg Prod.snd hk)
    exact (Keyed.get_eq_some.1 hget).1
  have hrecorded : Recorded (afterAccept s p m now).tables.history p.id (lower m.handle)
      (lower x.handle) := by
    refine recorded_foldl.2 (.inr ⟨rfl, x.handle, ?_, .inl ⟨rfl, rfl⟩⟩)
    exact mem_crewWith.2 (.inr ⟨x, hxnew, hxid, .inr hstatus, hne, rfl⟩)
  rcases (hexact.only p hp _ _ hrecorded).2 with hhost | hflown
  · exact ne_host_of_member hs hp hxget hxid hhost
  · rcases List.mem_cons.1 hflown with hk | hk
    · exact hne (congrArg Prod.snd hk)
    · rw [← hxid] at hk
      exact hnot hk

/-- The tables and `flown` after a removal. -/
def afterRemove (s : State) (p : LfgPost) (m : LfgMember) (now : Timestamp) : State :=
  ⟨{ s.tables with
      members := (setMemberStatus p.id m.handle .removed now s.tables.members).2
      history := if m.status = .accepted then forgetCrew p.id m.handle s.tables.history
        else s.tables.history },
    s.flown.filter (· ≠ m.key)⟩

theorem recorded_afterRemove {q : Uuid} {x y : String} :
    Recorded (afterRemove s p m now).tables.history q x y ↔
      Recorded s.tables.history q x y ∧
        (m.status = .accepted → ¬ (q = p.id ∧ (x = lower m.handle ∨ y = lower m.handle))) := by
  simp only [afterRemove]
  split
  · rename_i hstatus
    rw [recorded_forgetCrew]
    simp [hstatus]
  · rename_i hstatus
    simp [hstatus]

theorem inv_removed (hs : Inv s) (hp : p ∈ s.tables.posts.rows)
    (hm : s.tables.members.get m.key = some m) (hid : m.postId = p.id)
    (hplain : m.status ≠ .accepted → m.key ∉ s.flown) : Inv (afterRemove s p m now) := by
  have hkey : m.key = (p.id, lower m.handle) := by rw [← hid]; rfl
  have hget (k : Uuid × String) : (afterRemove s p m now).tables.members.get k =
      if k = m.key then some (m.answered .removed now) else s.tables.members.get k :=
    get_answered hm hid k
  have hhost := ne_host_of_member hs hp hm hid
  constructor
  · intro q hq x y h
    obtain ⟨h, hforgot⟩ := recorded_afterRemove.1 h
    have hcrew : ∀ z, (z = x ∨ z = y) → Crew s.flown q z →
        Crew (afterRemove s p m now).flown q z := by
      rintro z hz (hz' | hz')
      · exact .inl hz'
      · refine .inr (List.mem_filter.2 ⟨hz', decide_eq_true fun hk => ?_⟩)
        by_cases hstatus : m.status = .accepted
        · obtain ⟨hqp, rfl⟩ := Prod.mk.inj (hk.trans hkey)
          exact hforgot hstatus ⟨hqp, hz.imp Eq.symm Eq.symm⟩
        · exact hplain hstatus (hk ▸ hz')
    obtain ⟨hx, hy⟩ := hs.only q hq x y h
    exact ⟨hcrew x (.inl rfl) hx, hcrew y (.inr rfl) hy⟩
  · intro q hq x y hne hx hy
    have hon : ∀ z, On (afterRemove s p m now).tables.members q z →
        On s.tables.members q z ∧ ¬ (q.id = p.id ∧ z = lower m.handle) := by
      rintro z (rfl | ⟨x, hx, hstatus⟩)
      · refine ⟨.inl rfl, fun hgone => ?_⟩
        obtain ⟨hqp, hz⟩ := hgone
        obtain rfl := Keyed.eq_of_key hq hp hqp
        exact hhost hz.symm
      · rw [hget] at hx
        split at hx
        · obtain rfl := Option.some.inj hx
          cases hstatus
        · rename_i hk
          refine ⟨.inr ⟨x, hx, hstatus⟩, fun hgone => hk ?_⟩
          rw [hgone.1, hgone.2, hkey]
    obtain ⟨hx, hx'⟩ := hon x hx
    obtain ⟨hy, hy'⟩ := hon y hy
    refine recorded_afterRemove.2 ⟨hs.all q hq x y hne hx hy, fun _ hgone => ?_⟩
    obtain ⟨hqp, hxy | hxy⟩ := hgone
    · exact hx' ⟨hqp, hxy⟩
    · exact hy' ⟨hqp, hxy⟩
  · intro q hq x hx
    obtain ⟨hx, hne⟩ := List.mem_filter.1 hx
    refine recorded_afterRemove.2 ⟨hs.host q hq x hx, fun _ hgone => ?_⟩
    obtain ⟨hqp, rfl | hxy⟩ := hgone
    · rw [hqp, ← hkey] at hne
      simp at hne
    · obtain rfl := Keyed.eq_of_key hq hp hqp
      exact hhost hxy.symm
  · intro k x hx hstatus
    rw [hget] at hx
    split at hx
    · obtain rfl := Option.some.inj hx
      cases hstatus
    · rename_i hne
      exact List.mem_filter.2 ⟨hs.accepted k x hx hstatus, decide_eq_true hne⟩
  · intro k hk
    rw [hget]
    split
    · rfl
    · exact hs.known k (List.mem_filter.1 hk).1
  · intro q hq
    rw [hget, if_neg]
    · exact hs.notHost q hq
    · intro hk
      have hnone := hs.notHost q hq
      rw [hk, hm] at hnone
      cases hnone

/-- A player who was accepted and is no longer keeps their history when they are removed. -/
theorem not_exact_of_removed (hs : Inv s) (hp : p ∈ s.tables.posts.rows)
    (hm : s.tables.members.get m.key = some m) (hid : m.postId = p.id)
    (hstatus : m.status ≠ .accepted) (hflown : m.key ∈ s.flown) :
    ¬ Exact (afterRemove s p m now) := by
  intro hexact
  have hkey : m.key = (p.id, lower m.handle) := by rw [← hid]; rfl
  have hrecorded : Recorded (afterRemove s p m now).tables.history p.id (lower m.handle)
      (lower p.hostHandle) :=
    recorded_afterRemove.2 ⟨hs.host p hp _ (hkey ▸ hflown), fun h => absurd h hstatus⟩
  rcases (hexact.only p hp _ _ hrecorded).1 with hhost | hmem
  · exact ne_host_of_member hs hp hm hid hhost
  · rw [← hkey] at hmem
    simp [afterRemove] at hmem

end

/-! ## Whole sequences of calls -/

/-- The member that `respond` has found, as a row of the table. -/
theorem found_of_check {me : String} {post : Uuid} {handle action : String} {now : Timestamp}
    {status : MemberStatus} {p : LfgPost} {m : LfgMember}
    (h : respondCheck me post handle action now s.tables = .ok (status, p, m)) :
    p ∈ s.tables.posts.rows ∧ p.id = post ∧ s.tables.members.get m.key = some m ∧
      m.postId = p.id := by
  obtain ⟨hpost, hmember, -, -⟩ := respondCheck_ok h
  obtain ⟨hp, hid⟩ := Keyed.get_eq_some.1 hpost
  have hkey := key_of_lfgMember hmember
  refine ⟨hp, hid, ?_, ?_⟩
  · rw [hkey]
    exact hmember
  · rw [hid]
    exact congrArg Prod.fst hkey

/-- What a call of `respond` comes to. -/
theorem respond_cases {me : String} {post : Uuid} {handle action : String} {now : Timestamp}
    {s' : State} (h : step s (.respond me post handle action now) = some s') :
    (∃ e, respondCheck me post handle action now s.tables = .error e ∧ s' = s) ∨
    (∃ p m, respondCheck me post handle action now s.tables = .ok (.accepted, p, m) ∧
      s' = afterAccept s p m now) ∨
    (∃ p m, respondCheck me post handle action now s.tables = .ok (.declined, p, m) ∧
      s' = { s with
        tables := { s.tables with
          members := (setMemberStatus post m.handle .declined now s.tables.members).2 } }) ∨
    (∃ p m, respondCheck me post handle action now s.tables = .ok (.removed, p, m) ∧
      s' = afterRemove s p m now) := by
  obtain rfl := Option.some.inj h
  cases hcheck : respondCheck me post handle action now s.tables with
  | error e =>
    refine .inl ⟨e, rfl, ?_⟩
    simp only [StarStats.respond, hcheck, flownAfter]
  | ok r =>
    obtain ⟨status, p, m⟩ := r
    obtain ⟨-, hid, -, -⟩ := found_of_check hcheck
    obtain ⟨-, -, hstatus, -⟩ := respondCheck_ok hcheck
    rw [respond_eq hcheck]
    subst hid
    rcases hstatus with rfl | rfl | rfl
    · exact .inr (.inl ⟨p, m, rfl, rfl⟩)
    · exact .inr (.inr (.inl ⟨p, m, rfl, rfl⟩))
    · exact .inr (.inr (.inr ⟨p, m, rfl, rfl⟩))

theorem inv_step {s' : State} {call : Call} (hs : Inv s) (h : step s call = some s')
    (hplain : Plain s call) : Inv s' := by
  cases call with
  | join verified blocked me post now =>
    cases h
    exact inv_join hs
  | leave me post now =>
    cases h
    exact inv_leave hs
  | respond me post handle action now =>
    rcases respond_cases h with ⟨e, -, rfl⟩ | ⟨p, m, hcheck, rfl⟩ | ⟨p, m, hcheck, rfl⟩ |
      ⟨p, m, hcheck, rfl⟩
    · exact hs
    · obtain ⟨hp, hid, hm, hmid⟩ := found_of_check hcheck
      refine inv_accepted hs hp hm hmid fun x hx hxid hstatus hne => ?_
      exact (hplain p m).1 hcheck x hx (hxid.trans hid) hstatus hne
    · exact inv_setMemberStatus hs (by decide)
    · obtain ⟨hp, -, hm, hmid⟩ := found_of_check hcheck
      exact inv_removed hs hp hm hmid ((hplain p m).2 hcheck)

theorem not_exact_of_not_plain {s' : State} {call : Call} (hs : Inv s)
    (h : step s call = some s') (hplain : ¬ Plain s call) : ¬ Exact s' := by
  cases call with
  | join => exact absurd trivial hplain
  | leave => exact absurd trivial hplain
  | respond me post handle action now =>
    intro hexact
    apply hplain
    intro p m
    constructor
    · intro hcheck x hx hxid hstatus hne
      by_contra hnot
      obtain ⟨hp, hid, hm, hmid⟩ := found_of_check hcheck
      rcases respond_cases h with ⟨e, he, -⟩ | ⟨p', m', hcheck', rfl⟩ | ⟨p', m', hcheck', rfl⟩ |
        ⟨p', m', hcheck', rfl⟩
      · rw [hcheck] at he
        cases he
      · rw [hcheck] at hcheck'
        cases hcheck'
        exact not_exact_of_accepted hs hp hm hmid hx (hxid.trans hid.symm) hstatus hne hnot hexact
      · rw [hcheck] at hcheck'
        cases hcheck'
      · rw [hcheck] at hcheck'
        cases hcheck'
    · intro hcheck hstatus hflown
      obtain ⟨hp, -, hm, hmid⟩ := found_of_check hcheck
      rcases respond_cases h with ⟨e, he, -⟩ | ⟨p', m', hcheck', rfl⟩ | ⟨p', m', hcheck', rfl⟩ |
        ⟨p', m', hcheck', rfl⟩
      · rw [hcheck] at he
        cases he
      · rw [hcheck] at hcheck'
        cases hcheck'
      · rw [hcheck] at hcheck'
        cases hcheck'
      · rw [hcheck] at hcheck'
        cases hcheck'
        exact not_exact_of_removed hs hp hm hmid hstatus hflown hexact

/-- **When crew history is who flew together.** Over a sequence of calls, the history is exact
after every call if and only if no accept finds a member that left without having been accepted,
and no removal is of someone that was accepted before but is not accepted now. -/
theorem history_exact_iff_plain (posts : LfgPosts) (calls : List Call) :
    Trans.AllStates step Exact (.start posts) calls ↔
      Trans.AllSteps step Plain (.start posts) calls :=
  Trans.allStates_iff (fun _ hs => hs.exact) (fun _ _ _ hs h hplain => inv_step hs h hplain)
    (fun _ _ _ hs h hplain => not_exact_of_not_plain hs h hplain) calls (inv_start posts)

/-! ### A request that was withdrawn -/

def miningPost : LfgPost := ⟨"p1", "Hana", .mining, 4, 0, 7200000000, none, none⟩

def onePost : LfgPosts := ⟨[miningPost], by decide⟩

/-- Ann withdraws her request, and Ben is accepted. -/
def withdrawn : List Call :=
  [.join true false "Ann" "p1" 1, .leave "Ann" "p1" 2, .join true false "Ben" "p1" 3,
    .respond "Hana" "p1" "Ben" "accept" 4]

/-- Ben is on record with Ann, who never flew. -/
theorem withdrawn_is_on_record :
    ¬ ∀ (posts : LfgPosts) (calls : List Call),
      Trans.AllStates step Exact (.start posts) calls := by
  intro h
  have hrun : (Trans.exec step Trans.always (.start onePost) withdrawn).map
      (fun s => (flewTogether "p1" "Ben" "Ann" s.tables.history, s.flown, s.tables.posts.rows)) =
      some (true, [("p1", "ben")], onePost.rows) := by decide +kernel
  obtain ⟨s, hs, heq⟩ := Option.map_eq_some_iff.1 hrun
  obtain ⟨htogether, heq⟩ := Prod.mk.inj heq
  obtain ⟨hflown, hposts⟩ := Prod.mk.inj heq
  have hexact := (h onePost withdrawn).of_exec hs
  have hmem : miningPost ∈ s.tables.posts.rows := by
    rw [hposts]
    exact .head _
  have hcrew := (hexact.only miningPost hmem "Ben" "Ann" htogether).2
  simp only [State.InCrew, hflown] at hcrew
  revert hcrew
  decide +kernel

end CrewHistory

end StarStats
