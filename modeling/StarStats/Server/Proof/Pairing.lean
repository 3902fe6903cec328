import StarStats.Lib.Calls
import StarStats.Server.Pairing

/-!
# What a password rotation cuts off

The row lock keeps the redeems of one code apart, so that a code makes one device
(`Inv.codes`), and a revoked device stays as it is (`mem_of_revoked`). A rotation revokes the
devices that are there: `cutOff_iff_current`, the cut lasts in exactly the runs in which no redeem
commits with a code issued before it.
-/

namespace StarStats

namespace Pairing

variable {s s' : State} {act : Action}

/-! ## The invariant -/

/-- What a redeem has read of the row that it has locked. -/
def Holds (t : Pairings) (r : Redeem) : Prop :=
  match r.phase with
  | .lock | .done _ => True
  | .check row => t.get r.code = some row
  | .insert _ | .update .. | .commit .. => ∃ row, t.get r.code = some row ∧ row.redeemedAt = none

/-- Only one redeem has the lock on a code. -/
def Apart (redeems : List Redeem) : Prop :=
  ∀ (i j : Nat) (r q : Redeem), redeems[i]? = some r → redeems[j]? = some q → r.code = q.code →
    r.phase.holding = true → q.phase.holding = true → i = j

structure Inv (s : State) : Prop where
  holds : ∀ r ∈ s.redeems, Holds s.pairings r
  apart : Apart s.redeems
  codes : (s.devices.rows.map (·.code)).Nodup
  paired : ∀ d ∈ s.devices.rows, ∃ row, s.pairings.get d.code = some row ∧
    row.redeemedAt.isSome = true

theorem inv_start (now : Timestamp) : Inv (.start now) where
  holds := fun _ h => by cases h
  apart := fun _ _ _ _ h => by cases h
  codes := List.nodup_nil
  paired := fun _ h => by cases h

theorem Holds.of_not_holding {t : Pairings} {r : Redeem} (h : r.phase.holding = false) :
    Holds t r := by
  unfold Holds
  cases hphase : r.phase with
  | lock | done => trivial
  | _ =>
    rw [hphase] at h
    cases h

/-- A redeem holds what it held while the row of its code is the same. -/
theorem Holds.of_get {t t' : Pairings} {r : Redeem} (h : Holds t r)
    (hget : ∀ row, t.get r.code = some row → t'.get r.code = some row) : Holds t' r := by
  unfold Holds at h ⊢
  cases hphase : r.phase with
  | lock | done => trivial
  | check row =>
    simp only [hphase] at h
    exact hget row h
  | _ =>
    simp only [hphase] at h
    obtain ⟨row, hrow, hnew⟩ := h
    exact ⟨row, hget row hrow, hnew⟩

theorem holds_set {t : Pairings} {redeems : List Redeem} {i : Nat} {r : Redeem}
    (hs : ∀ q ∈ redeems, Holds t q) (h : Holds t r) : ∀ q ∈ redeems.set i r, Holds t q := by
  intro q hq
  rcases List.mem_or_eq_of_mem_set hq with hq | rfl
  · exact hs q hq
  · exact h

/-- A redeem that goes on had the lock, or takes it while no other has it. -/
theorem apart_set {redeems : List Redeem} {i : Nat} {r r' : Redeem} (hs : Apart redeems)
    (hi : redeems[i]? = some r) (hcode : r'.code = r.code)
    (h : r'.phase.holding = true → r.phase.holding = true ∨
      ∀ q ∈ redeems, q.code = r.code → q.phase.holding = false) : Apart (redeems.set i r') := by
  have hother (j : Nat) (q : Redeem) (hj : redeems[j]? = some q) (heq : q.code = r'.code)
      (hq : q.phase.holding = true) (hr : r'.phase.holding = true) : j = i := by
    rcases h hr with hr | hfree
    · exact hs j i q r hj hi (heq.trans hcode) hq hr
    · rw [hfree q (List.mem_of_getElem? hj) (heq.trans hcode)] at hq
      cases hq
  intro j k q p hj hk heq hq hp
  rcases Calls.of_set hj with ⟨rfl, rfl⟩ | ⟨-, hj'⟩ <;>
    rcases Calls.of_set hk with ⟨rfl, rfl⟩ | ⟨-, hk'⟩
  · rfl
  · exact (hother k p hk' heq.symm hp hq).symm
  · exact hother j q hj' heq hq hp
  · exact hs j k q p hj' hk' heq hq hp

theorem apart_push {redeems : List Redeem} {code : String} {now : Timestamp}
    (hs : Apart redeems) : Apart (redeems ++ [⟨code, now, .lock⟩]) := by
  intro i j r q hi hj heq hr hq
  rcases Calls.of_push hi with ⟨-, rfl⟩ | hi
  · cases hr
  · rcases Calls.of_push hj with ⟨-, rfl⟩ | hj
    · cases hq
    · exact hs i j r q hi hj heq hr hq

/-! ## What a step is -/

inductive Effect (s : State) : Action → State → Prop
  /-- Only the clock and the redeems change. -/
  | kept (act : Action) (now : Timestamp) (redeems : List Redeem)
    (holds : ∀ r ∈ redeems, Holds s.pairings r) (apart : Apart redeems) (hcurrent : Current s act) :
    Effect s act { s with now := now, redeems := redeems }
  | issued (act : Action) (row : Row) (hcurrent : Current s act)
    (hnew : s.pairings.get row.code = none) :
    Effect s act { s with pairings := s.pairings.insertNew row }
  | committed (i : Nat) (id : Uuid) (r : Redeem) (deviceId : Uuid) (label : String)
    (hr : s.redeems[i]? = some r) (hphase : r.phase = .commit deviceId label)
    (hfresh : s.devices.get deviceId = none) :
    Effect s (.next i id) (s.commit i r deviceId label)
  | revoked (id : Uuid) :
    Effect s (.revoke id)
      { s with devices := s.devices.modify id (Device.revoke s.now) (Device.id_revoke s.now) }
  | stored :
    Effect s .storePassword
      { s with
        passwords := s.passwords + 1
        rotations := s.rotations ++ [⟨s.passwords + 1, false⟩] }
  | finished (i number : Nat) (hr : s.rotations[i]? = some ⟨number, false⟩) :
    Effect s (.revokeAll i)
      { s with
        devices := revokeAllForUser s.devices s.now
        rotations := s.rotations.set i ⟨number, true⟩ }

/-- A redeem that goes on without committing. -/
theorem effect_go (hs : Inv s) {i : Nat} {r : Redeem} {phase : Phase}
    (hr : s.redeems[i]? = some r) (hcurrent : Current s act)
    (hholds : Holds s.pairings { r with phase := phase })
    (h : phase.holding = true → r.phase.holding = true ∨ s.locked r.code = false) :
    Effect s act (s.go i r phase) := by
  refine .kept act s.now (s.redeems.set i { r with phase := phase }) (holds_set hs.holds hholds)
    (apart_set hs.apart hr rfl fun hphase => (h hphase).imp_right fun hfree q hq hcode => ?_)
    hcurrent
  have hnot := List.any_eq_false.1 hfree q hq
  simpa [hcode] using hnot

theorem holds_checked {t : Pairings} {r : Redeem} {row : Row} (now : Timestamp)
    (h : t.get r.code = some row) : Holds t { r with phase := .checked now row } := by
  unfold Phase.checked
  split
  · trivial
  · rename_i hnew
    split
    · trivial
    · exact ⟨row, h, by simpa using hnew⟩

theorem effect_next (hs : Inv s) {i : Nat} {id : Uuid} (h : step s (.next i id) = some s') :
    Effect s (.next i id) s' := by
  cases hr : s.redeems[i]? with
  | none => simp [step, hr] at h
  | some r =>
    have hheld : Holds s.pairings r := hs.holds r (List.mem_of_getElem? hr)
    have hcurrent (hnot : ∀ deviceId label, r.phase ≠ .commit deviceId label) :
        Current s (.next i id) := by
      intro c hc code hcode
      rw [hr] at hc
      cases hc
      unfold Redeem.committing at hcode
      split at hcode
      · rename_i heq
        exact absurd heq (hnot _ _)
      · cases hcode
    simp only [step, hr] at h
    unfold Holds at hheld
    cases hphase : r.phase with
    | lock =>
      simp only [hphase] at h
      split at h
      · cases h
      · rename_i hfree
        cases h
        refine effect_go hs hr (hcurrent (by simp [hphase])) ?_ fun _ =>
          .inr (Bool.eq_false_iff.2 hfree)
        cases hget : s.pairings.get r.code with
        | none => trivial
        | some row => exact hget
    | check row =>
      simp only [hphase, Option.some.injEq] at h hheld
      subst h
      exact effect_go hs hr (hcurrent (by simp [hphase])) (holds_checked s.now hheld)
        fun _ => .inl (by rw [hphase]; rfl)
    | insert label =>
      simp only [hphase, Option.some.injEq] at h hheld
      subst h
      exact effect_go hs hr (hcurrent (by simp [hphase])) hheld
        fun _ => .inl (by rw [hphase]; rfl)
    | update deviceId label =>
      simp only [hphase, Option.some.injEq] at h hheld
      subst h
      exact effect_go hs hr (hcurrent (by simp [hphase])) hheld
        fun _ => .inl (by rw [hphase]; rfl)
    | commit deviceId label =>
      simp only [hphase] at h
      split at h
      · rename_i hfresh
        cases h
        exact .committed i id r deviceId label hr hphase hfresh
      · cases h
    | done answer => simp [hphase] at h

/-- A new row, or none when the five codes are taken. -/
theorem createPairing_cases (t : Pairings) (label : String) (codes : List String)
    (expiresAt : Timestamp) (passwords : Nat) :
    (∃ row : Row, t.get row.code = none ∧
      (createPairing t label codes expiresAt passwords).2 = t.insertNew row) ∨
    (createPairing t label codes expiresAt passwords).2 = t := by
  cases hfind : (codes.take 5).find? fun code => t.get code = none with
  | none => exact .inr (by simp only [createPairing, hfind])
  | some code =>
    have hnew := List.find?_some hfind
    refine .inl ⟨⟨code, if Text.trim label = "" then defaultLabel else label, expiresAt, none,
      passwords⟩, of_decide_eq_true hnew, ?_⟩
    simp only [createPairing, hfind]

theorem effect_of_step (hs : Inv s) (h : step s act = some s') : Effect s act s' := by
  cases act with
  | wait d =>
    cases h
    exact .kept _ (s.now + d) s.redeems hs.holds hs.apart (by trivial)
  | createPairing label codes startedAt =>
    simp only [step] at h
    split at h
    · cases h
      rcases createPairing_cases s.pairings label codes (startedAt + pairingTtl) s.passwords with
        ⟨row, hnew, heq⟩ | heq
      · rw [heq]
        exact .issued _ row (by trivial) hnew
      · rw [heq]
        exact .kept _ s.now s.redeems hs.holds hs.apart (by trivial)
    · cases h
  | redeem code =>
    cases h
    refine .kept (.redeem code) s.now (s.redeems ++ [⟨code, s.now, .lock⟩]) (fun r hr => ?_)
      (apart_push hs.apart) trivial
    rcases List.mem_append.1 hr with hr | hr
    · exact hs.holds r hr
    · rw [List.mem_singleton.1 hr]
      trivial
  | next i id => exact effect_next hs h
  | fail i =>
    cases hr : s.redeems[i]? with
    | none => simp [step, hr] at h
    | some r =>
      have hdone : s' = s.go i r (.done (.error .database)) := by
        cases hphase : r.phase with
        | done answer => simp [step, hr, hphase] at h
        | _ =>
          simp only [step, hr, hphase, Option.some.injEq] at h
          exact h.symm
      rw [hdone]
      refine effect_go hs hr trivial trivial fun hholding => ?_
      cases hholding
  | revoke id =>
    simp only [step, revoke] at h
    split at h
    · rename_i hrevoked
      split at hrevoked
      · cases hrevoked
      · cases hrevoked
        cases h
        exact .revoked id
    · cases h
      exact .kept _ s.now s.redeems hs.holds hs.apart (by trivial)
  | storePassword =>
    cases h
    exact .stored
  | revokeAll i =>
    simp only [step] at h
    split at h
    · rename_i number hr
      cases h
      exact .finished i number hr
    · cases h

/-! ## The invariant holds -/

/-- What a statement does to a device: its id and code stay, and if it was revoked, all of it. -/
structure Keeps (f : Device → Device) : Prop where
  id : ∀ d, (f d).id = d.id
  code : ∀ d, (f d).code = d.code
  revoked : ∀ d, d.revokedAt.isSome = true → f d = d

theorem keeps_revoke (now : Timestamp) : Keeps (Device.revoke now) where
  id := fun _ => rfl
  code := fun _ => rfl
  revoked := fun d hd => by
    have hsome : some (d.revokedAt.getD now) = d.revokedAt := by
      obtain ⟨t, ht⟩ := Option.isSome_iff_exists.1 hd
      rw [ht, Option.getD_some]
    rw [Device.revoke, hsome]

theorem keeps_revokeActive (now : Timestamp) : Keeps (Device.revokeActive now) where
  id := Device.id_revokeActive now
  code := fun d => by
    unfold Device.revokeActive
    split <;> rfl
  revoked := fun d hd => by
    have hactive : ¬ d.revokedAt.isNone = true := by
      rw [← Option.not_isSome, hd]
      simp
    rw [Device.revokeActive, if_neg hactive]

theorem Keeps.ite {f : Device → Device} (h : Keeps f) (p : Device → Prop) [DecidablePred p] :
    Keeps fun d => if p d then f d else d where
  id := fun d => by
    split
    · exact h.id d
    · rfl
  code := fun d => by
    split
    · exact h.code d
    · rfl
  revoked := fun d hd => by
    split
    · exact h.revoked d hd
    · rfl

/-- After `revoke_all_for_user` no device is active. -/
theorem revokedAt_revokeActive (now : Timestamp) (d : Device) :
    (d.revokeActive now).revokedAt ≠ none := by
  unfold Device.revokeActive
  split
  · exact Option.some_ne_none _
  · rename_i h
    simpa using h

/-- The devices after a statement that revokes some of them. -/
theorem inv_devices (hs : Inv s) {f : Device → Device} (hf : Keeps f)
    (hpairings : s'.pairings = s.pairings) (hredeems : s'.redeems = s.redeems)
    (hdevices : s'.devices.rows = s.devices.rows.map f) : Inv s' := by
  refine ⟨?_, by rw [hredeems]; exact hs.apart, ?_, ?_⟩
  · rw [hredeems, hpairings]
    exact hs.holds
  · have hcodes : s'.devices.rows.map (·.code) = s.devices.rows.map (·.code) := by
      rw [hdevices, List.map_map]
      exact List.map_congr_left fun d _ => hf.code d
    rw [hcodes]
    exact hs.codes
  · intro d hd
    rw [hdevices] at hd
    obtain ⟨c, hc, rfl⟩ := List.mem_map.1 hd
    rw [hf.code, hpairings]
    exact hs.paired c hc

/-- The rows that stay when a pairing is issued. -/
theorem get_issued {t : Pairings} {row : Row} (hnew : t.get row.code = none) {code : String}
    {r : Row} (h : t.get code = some r) : (t.insertNew row).get code = some r := by
  rw [Keyed.get_insertNew, if_neg, h]
  rintro rfl
  rw [hnew] at h
  cases h

/-- The row of a committed redeem. -/
theorem get_commit {i : Nat} {r : Redeem} {deviceId : Uuid} {label : String} {code : String} :
    (s.commit i r deviceId label).pairings.get code =
      if code = r.code then
        (s.pairings.get r.code).map (Row.redeem r.startedAt)
      else s.pairings.get code := by
  have hget : (s.pairings.modify r.code (Row.redeem r.startedAt)
      (Row.code_redeem r.startedAt)).get code = _ := Keyed.get_modify
  exact hget

theorem devices_commit {i : Nat} {r : Redeem} {deviceId : Uuid} {label : String}
    (h : s.devices.get deviceId = none) :
    (s.commit i r deviceId label).devices.rows =
      s.devices.rows ++ [⟨deviceId, label, r.startedAt, none, r.code⟩] := by
  show (s.devices.insertNew ⟨deviceId, label, r.startedAt, none, r.code⟩).rows = _
  rw [Keyed.insertNew, dif_pos h]
  rfl

theorem inv_commit (hs : Inv s) {i : Nat} {r : Redeem} {deviceId : Uuid} {label : String}
    (hr : s.redeems[i]? = some r) (hphase : r.phase = .commit deviceId label)
    (hfresh : s.devices.get deviceId = none) : Inv (s.commit i r deviceId label) := by
  have hheld := hs.holds r (List.mem_of_getElem? hr)
  unfold Holds at hheld
  rw [hphase] at hheld
  obtain ⟨row, hrow, hopen⟩ := hheld
  have hholding : r.phase.holding = true := by rw [hphase]; rfl
  refine ⟨?_, apart_set hs.apart hr rfl (fun h => by cases h), ?_, ?_⟩
  · intro q hq
    obtain ⟨j, hj⟩ := List.mem_iff_getElem?.1 hq
    rcases Calls.of_set hj with ⟨-, rfl⟩ | ⟨hne, hj⟩
    · trivial
    · cases hqh : q.phase.holding with
      | false => exact .of_not_holding hqh
      | true =>
        refine (hs.holds q (List.mem_of_getElem? hj)).of_get fun p hp => ?_
        rw [get_commit, if_neg, hp]
        exact fun heq => hne (hs.apart j i q r hj hr heq hqh hholding)
  · rw [devices_commit hfresh, List.map_append]
    refine hs.codes.append (List.nodup_singleton _) (List.disjoint_singleton.2 fun hcode => ?_)
    -- a device with the code would have redeemed it
    obtain ⟨d, hd, heq⟩ := List.mem_map.1 hcode
    obtain ⟨p, hp, hredeemed⟩ := hs.paired d hd
    rw [show d.code = r.code from heq, hrow] at hp
    cases hp
    rw [hopen] at hredeemed
    cases hredeemed
  · intro d hd
    rw [devices_commit hfresh] at hd
    rw [get_commit]
    rcases List.mem_append.1 hd with hd | hd
    · obtain ⟨p, hp, hredeemed⟩ := hs.paired d hd
      split
      · rename_i heq
        rw [← heq, hp]
        exact ⟨_, rfl, rfl⟩
      · exact ⟨p, hp, hredeemed⟩
    · rw [List.mem_singleton.1 hd, if_pos rfl, hrow]
      exact ⟨_, rfl, rfl⟩

theorem inv_step (hs : Inv s) (h : step s act = some s') : Inv s' := by
  cases effect_of_step hs h with
  | kept _ now redeems holds apart => exact ⟨holds, apart, hs.codes, hs.paired⟩
  | issued _ row hcurrent hnew =>
    refine ⟨fun r hr => (hs.holds r hr).of_get fun _ hget => get_issued hnew hget, hs.apart,
      hs.codes, fun d hd => ?_⟩
    obtain ⟨p, hp, hredeemed⟩ := hs.paired d hd
    exact ⟨p, get_issued hnew hp, hredeemed⟩
  | committed i id r deviceId label hr hphase hfresh => exact inv_commit hs hr hphase hfresh
  | revoked id => exact inv_devices hs ((keeps_revoke s.now).ite (·.id = id)) rfl rfl rfl
  | stored => exact ⟨hs.holds, hs.apart, hs.codes, hs.paired⟩
  | finished i number hr => exact inv_devices hs (keeps_revokeActive s.now) rfl rfl rfl

/-- A revoked device stays as it is. -/
theorem mem_of_revoked (hs : Inv s) (h : step s act = some s') {d : Device}
    (hd : d ∈ s.devices.rows) (hrevoked : d.revokedAt.isSome = true) : d ∈ s'.devices.rows := by
  have hmap {f : Device → Device} (hf : Keeps f) : d ∈ s.devices.rows.map f :=
    List.mem_map.2 ⟨d, hd, hf.revoked d hrevoked⟩
  cases effect_of_step hs h with
  | committed i id r deviceId label hr hphase hfresh =>
    rw [devices_commit hfresh]
    exact List.mem_append_left _ hd
  | revoked id => exact hmap ((keeps_revoke s.now).ite (·.id = id))
  | finished i number hr => exact hmap (keeps_revokeActive s.now)
  | _ => exact hd

/-! ## The cut -/

/-- The rows of the codes that are there stay, with the number of passwords before them. -/
theorem issuedAfter_step (hs : Inv s) (h : step s act = some s') {code : String} {row : Row}
    (hrow : s.pairings.get code = some row) :
    ∃ row', s'.pairings.get code = some row' ∧ row'.issuedAfter = row.issuedAfter := by
  cases effect_of_step hs h with
  | issued _ new hcurrent hnew => exact ⟨row, get_issued hnew hrow, rfl⟩
  | committed i id r deviceId label hr hphase hfresh =>
    rw [get_commit]
    split
    · rename_i heq
      rw [← heq, hrow]
      exact ⟨_, rfl, rfl⟩
    · exact ⟨row, hrow, rfl⟩
  | _ => exact ⟨row, hrow, rfl⟩

/-- A device that was active before, and a rotation that was finished before, keep the cut. -/
theorem cut_of_cut (hs : Inv s) (hcut : CutOff s) (h : step s act = some s') {r : Rotation}
    {d : Device} (hr : r ∈ s.rotations) (hfinished : r.finished = true)
    (hd : ∃ c ∈ s.devices.rows, c.code = d.code ∧ c.revokedAt = none) :
    ∃ row, s'.pairings.get d.code = some row ∧ r.number ≤ row.issuedAfter := by
  obtain ⟨c, hc, hcode, hactive⟩ := hd
  obtain ⟨row, hrow, hle⟩ := hcut r hr hfinished c hc hactive
  rw [hcode] at hrow
  obtain ⟨row', hrow', heq⟩ := issuedAfter_step hs h hrow
  exact ⟨row', hrow', heq ▸ hle⟩

/-- A commit keeps the cut exactly when its code was issued after every finished rotation. -/
theorem cutOff_commit_iff (hs : Inv s) (hcut : CutOff s) {i : Nat} {id : Uuid}
    (h : step s (.next i id) = some s') : CutOff s' ↔ Current s (.next i id) := by
  cases effect_of_step hs h with
  | kept _ now redeems holds apart hcurrent => exact iff_of_true hcut hcurrent
  | issued _ row hcurrent hnew =>
    refine iff_of_true (fun r hr hfinished d hd hactive => ?_) hcurrent
    exact cut_of_cut hs hcut h hr hfinished ⟨d, hd, rfl, hactive⟩
  | committed _ _ c deviceId label hc hphase hfresh =>
    have hcurrent : Current s (.next i id) ↔ ∀ r ∈ s.rotations, r.finished = true →
        ∀ row ∈ s.pairings.get c.code, r.number ≤ row.issuedAfter := by
      simp [Current, hc, Redeem.committing, hphase]
    have hheld := hs.holds c (List.mem_of_getElem? hc)
    unfold Holds at hheld
    rw [hphase] at hheld
    obtain ⟨row, hrow, -⟩ := hheld
    have hget : (s.commit i c deviceId label).pairings.get c.code =
        some (row.redeem c.startedAt) := by
      rw [get_commit, if_pos rfl, hrow]
      rfl
    rw [hcurrent]
    constructor
    · intro hafter r hr hfinished p hp
      rw [hrow] at hp
      cases hp
      have hnew : (⟨deviceId, label, c.startedAt, none, c.code⟩ : Device) ∈
          (s.commit i c deviceId label).devices.rows := by
        rw [devices_commit hfresh]
        exact List.mem_append_right _ (List.mem_singleton_self _)
      obtain ⟨q, hq, hle⟩ := hafter r hr hfinished _ hnew rfl
      rw [hget] at hq
      cases hq
      exact hle
    · intro hafter r hr hfinished d hd hactive
      rw [devices_commit hfresh] at hd
      rcases List.mem_append.1 hd with hd | hd
      · exact cut_of_cut hs hcut h hr hfinished ⟨d, hd, rfl, hactive⟩
      · rw [List.mem_singleton.1 hd]
        exact ⟨_, hget, hafter r hr hfinished row hrow⟩

/-- An active device after a statement that revokes some was active before. -/
theorem active_of_map {f : Device → Device} (hf : Keeps f) {devices : List Device} {d : Device}
    (hd : d ∈ devices.map f) (hactive : d.revokedAt = none) :
    ∃ c ∈ devices, c.code = d.code ∧ c.revokedAt = none := by
  obtain ⟨c, hc, rfl⟩ := List.mem_map.1 hd
  refine ⟨c, hc, (hf.code c).symm, ?_⟩
  cases hrevoked : c.revokedAt with
  | none => rfl
  | some t =>
    rw [hf.revoked c (by rw [hrevoked]; rfl), hrevoked] at hactive
    cases hactive

theorem cutOff_step (hs : Inv s) (hcut : CutOff s) (hok : Current s act)
    (h : step s act = some s') : CutOff s' := by
  cases effect_of_step hs h with
  | kept => exact hcut
  | issued =>
    intro r hr hfinished d hd hactive
    exact cut_of_cut hs hcut h hr hfinished ⟨d, hd, rfl, hactive⟩
  | committed => exact (cutOff_commit_iff hs hcut h).2 hok
  | revoked id =>
    intro r hr hfinished d hd hactive
    exact cut_of_cut hs hcut h hr hfinished
      (active_of_map ((keeps_revoke s.now).ite (·.id = id)) hd hactive)
  | stored =>
    intro r hr hfinished d hd hactive
    rcases List.mem_append.1 hr with hr | hr
    · exact cut_of_cut hs hcut h hr hfinished ⟨d, hd, rfl, hactive⟩
    · rw [List.mem_singleton.1 hr] at hfinished
      cases hfinished
  | finished i number hr =>
    intro r _ _ d hd hactive
    obtain ⟨c, -, rfl⟩ := List.mem_map.1 hd
    exact absurd hactive (revokedAt_revokeActive s.now c)

theorem current_of_cutOff (hs : Inv s) (hcut : CutOff s) (h : step s act = some s')
    (hcut' : CutOff s') : Current s act := by
  cases act with
  | next i id => exact (cutOff_commit_iff hs hcut h).1 hcut'
  | _ => trivial

/-- **What a rotation cuts off.** A code makes one device and a revoked device stays revoked in
every run; every active device was paired after the finished rotations in exactly the runs in
which no redeem commits with an older code. -/
theorem cutOff_iff_current (now : Timestamp) :
    (∀ s, Trans.Reach step Trans.always (.start now) s →
      (s.devices.rows.map (·.code)).Nodup ∧
      ∀ d ∈ s.devices.rows, d.revokedAt.isSome = true → ∀ s',
        Trans.Reach step Trans.always s s' → d ∈ s'.devices.rows) ∧
    ∀ as, Trans.AllStates step CutOff (.start now) as ↔
      Trans.AllSteps step Current (.start now) as := by
  constructor
  · intro s h
    have hs : Inv s := h.inv (inv_start now) fun _ _ _ hs _ => inv_step hs
    refine ⟨hs.codes, fun d hd hrevoked s' hs' => ?_⟩
    have hrun : Inv s' ∧ d ∈ s'.devices.rows :=
      hs'.inv (I := fun s => Inv s ∧ d ∈ s.devices.rows) ⟨hs, hd⟩ fun _ _ _ hs _ hstep =>
        ⟨inv_step hs.1 hstep, mem_of_revoked hs.1 hstep hs.2 hrevoked⟩
    exact hrun.2
  · intro as
    have hstart : Inv (.start now) ∧ CutOff (.start now) :=
      ⟨inv_start now, fun _ hr => (List.not_mem_nil hr).elim⟩
    exact Trans.allStates_iff (I := fun s => Inv s ∧ CutOff s) (fun s hs => hs.2)
      (fun s act s' hs h hok => ⟨inv_step hs.1 h, cutOff_step hs.1 hs.2 hok h⟩)
      (fun s act s' hs h hbad hcut => hbad (current_of_cutOff hs.1 hs.2 h hcut)) as hstart

/-- A code from before the rotation is redeemed after it. -/
def redeemAfterRotation : List Action :=
  [.createPairing "tray" ["CODE2345"] 0, .storePassword, .revokeAll 0, .redeem "CODE2345",
    .next 0 "d", .next 0 "d", .next 0 "d", .next 0 "d", .next 0 "d"]

theorem old_code_outlasts_rotation :
    ¬ ∀ as, Trans.AllStates step CutOff (.start 0) as := by
  intro h
  have hrun : (Trans.exec step Trans.always (.start 0) redeemAfterRotation).map (fun s =>
      (s.rotations, s.devices.rows.map fun d => (d.code, d.revokedAt),
        (s.pairings.get "CODE2345").map (·.issuedAfter))) =
      some ([⟨1, true⟩], [("CODE2345", none)], some 0) := by decide +kernel
  obtain ⟨s, hs, hend⟩ := Option.map_eq_some_iff.1 hrun
  obtain ⟨hrotations, hrest⟩ := Prod.mk.inj hend
  obtain ⟨hdevices, hissued⟩ := Prod.mk.inj hrest
  have hcut := Trans.AllStates.of_exec (h redeemAfterRotation) hs
  obtain ⟨d, hd, hpair⟩ := List.mem_map.1
    (hdevices ▸ List.mem_singleton_self _ : ("CODE2345", none) ∈ s.devices.rows.map fun d =>
      (d.code, d.revokedAt))
  obtain ⟨hcode, hactive⟩ := Prod.mk.inj hpair
  obtain ⟨row, hrow, hle⟩ := hcut ⟨1, true⟩ (hrotations ▸ List.mem_singleton_self _) rfl d hd
    hactive
  rw [hcode] at hrow
  rw [hrow, Option.map_some, Option.some.injEq] at hissued
  have hone : 1 ≤ row.issuedAfter := hle
  omega

end Pairing

end StarStats
