import StarStats.Server.Lfg

/-!
# The statements of the board

Which member a status is set on (`get_setMemberStatus`), what asking to join can do
(`upsertRequest_cases`), which pairs are on record after a record or a forget
(`recorded_recordCrew`, `recorded_forgetCrew`), and what `respond` has checked (`respondCheck_ok`).
-/

namespace StarStats

open Text (lower)

variable {post : Uuid} {handle : String} {now : Timestamp} {status : MemberStatus}
  {members : LfgMembers} {m : LfgMember}

/-! ## Members -/

theorem get_setMemberStatus (k : Uuid × String) :
    (setMemberStatus post handle status now members).2.get k =
      if k = (post, lower handle) then
        (members.get k).map (LfgMember.answered status now)
      else members.get k := by
  rw [setMemberStatus, Keyed.get_modify]
  split
  · rename_i hk
    rw [hk]
  · rfl

theorem fst_setMemberStatus (h : lfgMember post handle members = some m) :
    (setMemberStatus post handle status now members).1 =
      some (m.answered status now) := by
  have hget : members.get (post, lower handle) = some m := h
  rw [setMemberStatus, Keyed.get_modify, if_pos rfl, hget, Option.map_some]

theorem key_of_lfgMember (h : lfgMember post handle members = some m) :
    m.key = (post, lower handle) :=
  (Keyed.get_eq_some.1 h).2

theorem lower_of_lfgMember (h : lfgMember post handle members = some m) :
    lower m.handle = lower handle :=
  congrArg Prod.snd (key_of_lfgMember h)

/-- Asking to join adds a request, renews one that was left or declined, or does nothing. -/
theorem upsertRequest_cases (post : Uuid) (handle : String) (now : Timestamp)
    (members : LfgMembers) :
    (∃ h : members.get (LfgMember.key ⟨post, handle, .requested, now, none⟩) = none,
      upsertRequest post handle now members =
        (some ⟨post, handle, .requested, now, none⟩,
          members.insert ⟨post, handle, .requested, now, none⟩ h)) ∨
    (∃ m, lfgMember post handle members = some m ∧ (m.status = .left ∨ m.status = .declined) ∧
      (upsertRequest post handle now members).2 =
        members.modify (post, lower handle) (LfgMember.renewed now)
          (LfgMember.key_renewed now)) ∨
    ((upsertRequest post handle now members).2 = members ∧
      ∃ m, lfgMember post handle members = some m ∧ m.status ≠ .left ∧ m.status ≠ .declined) := by
  unfold upsertRequest
  split
  · rename_i h
    exact .inl ⟨h, rfl⟩
  · rename_i m h
    split
    · rename_i hstatus
      exact .inr (.inl ⟨m, h, hstatus, rfl⟩)
    · rename_i hstatus
      rw [not_or] at hstatus
      exact .inr (.inr ⟨rfl, m, h, hstatus.1, hstatus.2⟩)

/-- What is found after asking to join: what was there, or a request. -/
theorem get_upsertRequest {k : Uuid × String} {m : LfgMember}
    (h : (upsertRequest post handle now members).2.get k = some m) :
    members.get k = some m ∨ k = (post, lower handle) ∧ m.status = .requested ∧
      ∀ m₀, members.get k = some m₀ → m₀.status = .left ∨ m₀.status = .declined := by
  rcases upsertRequest_cases post handle now members with ⟨hnew, heq⟩ | ⟨m₀, hm₀, hstatus, heq⟩ |
    ⟨heq, -⟩
  · rw [heq, Keyed.get_insert] at h
    split at h
    · rename_i hk
      obtain rfl := Option.some.inj h
      refine .inr ⟨hk, rfl, fun m₀ hm₀ => ?_⟩
      rw [hk, hnew] at hm₀
      cases hm₀
    · exact .inl h
  · have hget : members.get (post, lower handle) = some m₀ := hm₀
    rw [heq, Keyed.get_modify] at h
    split at h
    · rename_i hk
      rw [hget] at h
      obtain rfl := Option.some.inj h
      refine .inr ⟨hk, rfl, fun m₁ hm₁ => ?_⟩
      rw [hk, hget] at hm₁
      rw [← Option.some.inj hm₁]
      exact hstatus
    · exact .inl h
  · rw [heq] at h
    exact .inl h

/-- No member is lost. -/
theorem isSome_upsertRequest {k : Uuid × String} (h : (members.get k).isSome = true) :
    ((upsertRequest post handle now members).2.get k).isSome = true := by
  rcases upsertRequest_cases post handle now members with ⟨hnew, heq⟩ | ⟨m₀, hm₀, hstatus, heq⟩ |
    ⟨heq, -⟩
  · rw [heq, Keyed.get_insert]
    split
    · rfl
    · exact h
  · rw [heq, Keyed.get_modify]
    split
    · rename_i hk
      rw [← hk, Option.isSome_map]
      exact h
    · exact h
  · rw [heq]
    exact h

/-! ## Crew history -/

/-- The pair is on record for the post; `x` and `y` are in lower case. -/
def Recorded (history : CrewHistory) (post : Uuid) (x y : String) : Prop :=
  (history.get (post, x, y)).isSome = true

theorem recorded_insertNew {history : CrewHistory} {r : CrewRow} {x y : String} :
    Recorded (history.insertNew r) post x y ↔
      Recorded history post x y ∨ (post, x, y) = r.key := by
  unfold Recorded
  rw [Keyed.get_insertNew]
  split
  · rename_i hk
    simp [hk]
  · rename_i hk
    simp [hk]

theorem recorded_recordCrew {history : CrewHistory} {q : Uuid} {activity : LfgActivity}
    {a b x y : String} : Recorded (recordCrew post activity a b now history) q x y ↔
      Recorded history q x y ∨
        q = post ∧ (x = lower a ∧ y = lower b ∨ x = lower b ∧ y = lower a) := by
  rw [recordCrew, recorded_insertNew, recorded_insertNew, CrewRow.key, CrewRow.key]
  simp only [Prod.mk.injEq]
  grind

theorem recorded_forgetCrew {history : CrewHistory} {q : Uuid} {x y : String} :
    Recorded (forgetCrew post handle history) q x y ↔
      Recorded history q x y ∧ ¬ (q = post ∧ (x = lower handle ∨ y = lower handle)) := by
  unfold Recorded forgetCrew
  rw [Keyed.get_filter]
  cases hget : history.get (q, x, y) with
  | none => simp
  | some r =>
    obtain ⟨-, hkey⟩ := Keyed.get_eq_some.1 hget
    simp only [CrewRow.key, Prod.mk.injEq] at hkey
    obtain ⟨rfl, rfl, rfl⟩ := hkey
    simp only [Option.filter_some, Option.isSome_some, Option.isSome_ite, true_and]
    simp [imp_iff_not_or]

theorem recorded_foldl {q : Uuid} {activity : LfgActivity} {a x y : String} :
    ∀ {others : List String} {history : CrewHistory},
      Recorded (others.foldl (fun h o => recordCrew post activity a o now h) history) q x y ↔
        Recorded history q x y ∨ q = post ∧ ∃ o ∈ others,
          x = lower a ∧ y = lower o ∨ x = lower o ∧ y = lower a
  | [], history => by simp
  | o :: others, history => by
    rw [List.foldl_cons, recorded_foldl, recorded_recordCrew]
    simp only [List.mem_cons, exists_eq_or_imp]
    grind

/-! ## What `respond` has checked -/

theorem respondCheck_ok {me action : String} {t : LfgTables} {p : LfgPost}
    (h : respondCheck me post handle action now t = .ok (status, p, m)) :
    t.posts.get post = some p ∧ lfgMember post handle t.members = some m ∧
      (status = .accepted ∨ status = .declined ∨ status = .removed) ∧
      (status = .accepted → m.status = .requested) := by
  unfold respondCheck at h
  split at h
  · cases h
  rename_i st hstatus
  split at h
  · cases h
  rename_i p' hpost
  split at h
  · cases h
  split at h
  · cases h
  rename_i m' hmember
  split at h
  · cases h
  rename_i hnone
  cases h
  refine ⟨hpost, hmember, ?_, fun haccepted => ?_⟩
  · simp only [respondStatus] at hstatus
    grind
  · simp only [haccepted, if_true, acceptRefusal] at hnone
    grind

end StarStats
