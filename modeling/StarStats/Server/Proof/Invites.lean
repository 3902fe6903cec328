import StarStats.Lib.Calls
import StarStats.Server.Invites

/-!
# One invite, one account

An invite is spent while its row has an `invite_consumed_at`. `spent_redeemInvite` and its siblings
say what each statement does to the spent invites, and `Effect` what a step does to them, to the
calls that hold one and to the accounts. `invite_once` follows from the invariant that a spent
invite is held by one call or used by one account.
-/

namespace StarStats

namespace Invites

open Waitlist (Row)

variable {s s' : State} {act : Action}

namespace Table

variable {t : Table} {token u : String} {now : Timestamp}

/-- The invite is consumed. -/
def Spent (t : Table) (token : String) : Prop :=
  ∃ r ∈ t.rows, r.inviteToken = some token ∧ r.inviteConsumedAt.isSome = true

/-- Only an admitted row with a token is ever consumed. -/
def Proper (t : Table) : Prop :=
  ∀ r ∈ t.rows, r.inviteConsumedAt.isSome = true →
    r.isAdmitted = true ∧ r.inviteToken.isSome = true

/-- A consumed row keeps its id and its token. -/
def Lasting (t t' : Table) : Prop :=
  ∀ r ∈ t.rows, r.inviteConsumedAt.isSome = true →
    ∃ r' ∈ t'.rows, r'.id = r.id ∧ r'.inviteToken = r.inviteToken

theorem Lasting.refl (t : Table) : Lasting t t := fun r hr _ => ⟨r, hr, rfl, rfl⟩

/-! ## The statements that set `invite_consumed_at` -/

section
variable {p : Row → Bool} {consumedAt : Option Timestamp}

theorem consumedAs_of_ne {r : Row} (h : r.inviteToken ≠ some token) :
    consumedAs token p consumedAt r = r := by
  simp [consumedAs, h]

theorem consumedAs_of_eq {r : Row} (h : r.inviteToken = some token) (hp : p r = true) :
    consumedAs token p consumedAt r = { r with inviteConsumedAt := consumedAt } := by
  simp [consumedAs, h, hp]

theorem consumedAs_of_not {r : Row} (hp : p r = false) : consumedAs token p consumedAt r = r := by
  simp [consumedAs, hp]

theorem mem_setConsumed {r : Row} :
    r ∈ (t.setConsumed token p consumedAt).rows ↔
      ∃ q ∈ t.rows, consumedAs token p consumedAt q = r := by
  exact List.mem_map

theorem lasting_setConsumed : Lasting t (t.setConsumed token p consumedAt) := by
  intro r hr _
  exact ⟨_, mem_setConsumed.2 ⟨r, hr, rfl⟩, id_consumedAs r, inviteToken_consumedAs r⟩

/-- Another invite is spent as before. -/
theorem spent_setConsumed_of_ne (hne : u ≠ token) :
    (t.setConsumed token p consumedAt).Spent u ↔ t.Spent u := by
  have hsame {r : Row} (hu : r.inviteToken = some u) : consumedAs token p consumedAt r = r := by
    apply consumedAs_of_ne
    rw [hu]
    exact fun heq => hne (Option.some.inj heq)
  constructor
  · rintro ⟨r, hr, hu, hconsumed⟩
    obtain ⟨q, hq, rfl⟩ := mem_setConsumed.1 hr
    rw [inviteToken_consumedAs] at hu
    rw [hsame hu] at hconsumed
    exact ⟨q, hq, hu, hconsumed⟩
  · rintro ⟨r, hr, hu, hconsumed⟩
    exact ⟨r, mem_setConsumed.2 ⟨r, hr, hsame hu⟩, hu, hconsumed⟩

end

theorem spent_releaseInvite : (t.releaseInvite token).Spent u ↔ t.Spent u ∧ u ≠ token := by
  by_cases hu : u = token
  · subst hu
    simp only [ne_eq, not_true_eq_false, and_false, iff_false]
    rintro ⟨r, hr, htoken, hconsumed⟩
    obtain ⟨q, hq, rfl⟩ := mem_setConsumed.1 hr
    rw [inviteToken_consumedAs] at htoken
    rw [consumedAs_of_eq htoken rfl] at hconsumed
    cases hconsumed
  · rw [releaseInvite, spent_setConsumed_of_ne hu]
    simp [hu]

theorem proper_releaseInvite (ht : t.Proper) : (t.releaseInvite token).Proper := by
  intro r hr hconsumed
  obtain ⟨q, hq, rfl⟩ := mem_setConsumed.1 hr
  by_cases htoken : q.inviteToken = some token
  · rw [consumedAs_of_eq htoken rfl] at hconsumed
    cases hconsumed
  · rw [consumedAs_of_ne htoken] at hconsumed ⊢
    exact ht q hq hconsumed

theorem proper_redeemInvite (ht : t.Proper) : (t.redeemInvite token now).2.Proper := by
  intro r hr hconsumed
  obtain ⟨q, hq, rfl⟩ := mem_setConsumed.1 hr
  by_cases htoken : q.inviteToken = some token
  · cases hredeem : redeemable q with
    | true =>
      rw [consumedAs_of_eq htoken hredeem]
      rw [redeemable, Bool.and_eq_true] at hredeem
      exact ⟨hredeem.2, Option.isSome_iff_exists.2 ⟨token, htoken⟩⟩
    | false =>
      rw [consumedAs_of_not hredeem] at hconsumed ⊢
      exact ht q hq hconsumed
  · rw [consumedAs_of_ne htoken] at hconsumed ⊢
    exact ht q hq hconsumed

/-- An invite that is redeemed was not spent, and is spent now. -/
theorem spent_redeemInvite {id : Uuid} (h : (t.redeemInvite token now).1 = some id) :
    ¬ t.Spent token ∧ ∀ u, (t.redeemInvite token now).2.Spent u ↔ t.Spent u ∨ u = token := by
  obtain ⟨r, hfind, -⟩ := Option.map_eq_some_iff.1 h
  have hr := List.mem_of_find?_eq_some hfind
  have hfound := List.find?_some hfind
  obtain ⟨htoken, hredeem⟩ : r.inviteToken = some token ∧ redeemable r = true := by
    simpa using hfound
  refine ⟨?_, fun u => ?_⟩
  · rintro ⟨q, hq, hqtoken, hconsumed⟩
    rw [← t.tokens r hr q hq token htoken hqtoken] at hconsumed
    rw [redeemable, Bool.and_eq_true] at hredeem
    rw [Option.isNone_iff_eq_none.1 hredeem.1] at hconsumed
    cases hconsumed
  · by_cases hu : u = token
    · subst hu
      simp only [or_true, iff_true]
      exact ⟨_, mem_setConsumed.2 ⟨r, hr, consumedAs_of_eq htoken hredeem⟩, htoken, rfl⟩
    · rw [redeemInvite, spent_setConsumed_of_ne hu]
      simp [hu]

/-- A redemption that takes no row changes nothing. -/
theorem rows_redeemInvite_of_none (h : (t.redeemInvite token now).1 = none) :
    (t.redeemInvite token now).2.rows = t.rows := by
  have hnone := List.find?_eq_none.1 (Option.map_eq_none_iff.1 h)
  have hsame : ∀ r ∈ t.rows, consumedAs token redeemable (some now) r = id r := by
    intro r hr
    unfold consumedAs
    exact if_neg (hnone r hr)
  show t.rows.map (consumedAs token redeemable (some now)) = t.rows
  rw [List.map_congr_left hsame, List.map_id]

/-- A spent invite cannot be redeemed. -/
theorem redeemInvite_of_spent (h : t.Spent token) : (t.redeemInvite token now).1 = none := by
  cases hredeem : (t.redeemInvite token now).1 with
  | none => rfl
  | some id => exact absurd h (spent_redeemInvite hredeem).1

/-! ## The statements of the waitlist -/

/-- The tables have the same spent invites, and the consumed rows stay. -/
structure Same (t t' : Table) : Prop where
  spent : ∀ u, t'.Spent u ↔ t.Spent u
  proper : t'.Proper
  lasting : Lasting t t'

theorem Same.of_rows {t' : Table} (ht : t.Proper) (h : t'.rows = t.rows) : Same t t' where
  spent := fun u => by rw [Spent, Spent, h]
  proper := by
    rw [Proper, h]
    exact ht
  lasting := by
    rw [Lasting, h]
    exact Lasting.refl t

/-- Where the consumed rows are the same. -/
theorem Same.of_consumed {t' : Table} (ht : t.Proper)
    (h : ∀ r, r.inviteConsumedAt.isSome = true → (r ∈ t'.rows ↔ r ∈ t.rows)) : Same t t' where
  spent := fun u => by
    constructor
    · rintro ⟨r, hr, hu, hconsumed⟩
      exact ⟨r, (h r hconsumed).1 hr, hu, hconsumed⟩
    · rintro ⟨r, hr, hu, hconsumed⟩
      exact ⟨r, (h r hconsumed).2 hr, hu, hconsumed⟩
  proper := fun r hr hconsumed => ht r ((h r hconsumed).1 hr) hconsumed
  lasting := fun r hr hconsumed => ⟨r, (h r hconsumed).2 hr, rfl, rfl⟩

theorem same_deleteBatch (ht : t.Proper) (ids : List Uuid) : Same t (t.deleteBatch ids) := by
  refine .of_consumed ht fun r hconsumed => ?_
  have hkept : (!(decide (r.id ∈ ids) && r.inviteConsumedAt.isNone)) = true := by
    rw [← Option.not_isSome, hconsumed]
    simp
  exact List.mem_filter.trans (and_iff_left hkept)

theorem same_insert (ht : t.Proper) {r : Row} (hnew : r.inviteConsumedAt = none) :
    Same t (t.insert r) := by
  unfold insert
  split
  · exact .of_rows ht rfl
  · refine .of_consumed ht fun q hconsumed => ?_
    show q ∈ (t.signups.insert r).rows ↔ q ∈ t.signups.rows
    unfold Waitlist.Table.insert
    split
    · refine List.mem_append.trans (or_iff_left fun hq => ?_)
      rw [List.mem_singleton.1 hq, hnew] at hconsumed
      cases hconsumed
    · rfl

theorem same_admitId (ht : t.Proper) (id : Uuid) : Same t (t.admitId id token now) := by
  unfold admitId
  split
  · exact .of_rows ht rfl
  · refine .of_consumed ht fun r hconsumed => ⟨fun hr => ?_, fun hr => ?_⟩
    · rcases of_admitId hr with hold | ⟨q, hq, hqueued, rfl⟩
      · exact hold
      · rw [(ht q (Keyed.of_get hq).1 hconsumed).1] at hqueued
        cases hqueued
    · -- an admitted row is not invited again
      refine List.mem_map.2 ⟨r, hr, ?_⟩
      rw [Waitlist.Table.invited, if_pos (ht r hr hconsumed).1, ite_self]

end Table

/-! ## What a step is -/

/-- The invite that a sign-up holds. -/
def State.held (s : State) (i : Nat) : Option String := s.calls[i]?.bind (·.phase.held)

/-- A sign-up holds what its phase says, the others what they held. -/
theorem held_set {calls : List Call} {i : Nat} {c d : Call} (hc : calls[i]? = some c) (j : Nat) :
    ((calls.set i d)[j]?.bind (·.phase.held)) =
      if j = i then d.phase.held else calls[j]?.bind (·.phase.held) := by
  by_cases hj : j = i
  · subst hj
    rw [Calls.get_set_self hc, if_pos rfl]
    rfl
  · rw [List.getElem?_set_ne (Ne.symm hj), if_neg hj]

theorem held_push {calls : List Call} {req : SignupRequest} (j : Nat) :
    ((calls ++ [⟨req, .gate⟩])[j]?.bind (·.phase.held)) = calls[j]?.bind (·.phase.held) := by
  rw [List.getElem?_append]
  split
  · rfl
  · rename_i hlt
    rw [List.getElem?_eq_none (Nat.le_of_not_lt hlt), List.getElem?_singleton]
    split <;> rfl

inductive Effect (s s' : State) : Prop
  | kept (held : ∀ i, s'.held i = s.held i) (accounts : s'.accounts = s.accounts)
    (same : Table.Same s.table s'.table)
  | redeemed (i : Nat) (token : String) (held : s.held i = none)
    (held' : ∀ j, s'.held j = if j = i then some token else s.held j)
    (accounts : s'.accounts = s.accounts) (fresh : ¬ s.table.Spent token)
    (spent : ∀ u, s'.table.Spent u ↔ s.table.Spent u ∨ u = token) (proper : s'.table.Proper)
    (lasting : Table.Lasting s.table s'.table)
  | created (i : Nat) (a : Account) (invite : a.invite = s.held i)
    (held' : ∀ j, s'.held j = if j = i then none else s.held j)
    (accounts : s'.accounts = s.accounts ++ [a]) (table : s'.table = s.table)
  | released (i : Nat) (token : String) (held : s.held i = some token)
    (held' : ∀ j, s'.held j = if j = i then none else s.held j)
    (accounts : s'.accounts = s.accounts)
    (spent : ∀ u, s'.table.Spent u ↔ s.table.Spent u ∧ u ≠ token) (proper : s'.table.Proper)
    (lasting : Table.Lasting s.table s'.table)

/-- A sign-up that goes on with what it held. -/
theorem effect_go {i : Nat} {c : Call} {phase : Phase} (ht : s.table.Proper)
    (hc : s.calls[i]? = some c) (hheld : phase.held = c.phase.held) :
    Effect s (s.go i c phase) := by
  refine .kept (fun j => ?_) rfl (.of_rows ht rfl)
  refine (held_set hc j).trans ?_
  split
  · rename_i hj
    rw [State.held, hj, hc]
    exact hheld
  · rfl

theorem held_gateAnswered (req : SignupRequest) (answer : Except Unit Bool) :
    (gateAnswered req answer).held = none := by
  unfold gateAnswered
  split
  · rfl
  · rfl
  · split <;> rfl

theorem effect_redeem {i : Nat} {reachable : Bool} {now : Timestamp} (ht : s.table.Proper)
    (h : step s (.redeem i reachable now) = some s') : Effect s s' := by
  cases hc : s.calls[i]? with
  | none => simp [step, hc] at h
  | some c =>
    obtain ⟨req, phase⟩ := c
    cases phase with
    | redeem token =>
      simp only [step, hc] at h
      split at h
      · cases h
        cases hrow : (s.table.redeemInvite token now).1 with
        | none =>
          refine .kept (fun j => ?_) rfl (.of_rows ht (Table.rows_redeemInvite_of_none hrow))
          refine (held_set hc j).trans ?_
          split
          · rename_i hj
            rw [State.held, hj, hc]
            rfl
          · rfl
        | some id =>
          obtain ⟨hfresh, hspent⟩ := Table.spent_redeemInvite hrow
          refine .redeemed i token ?_ (held_set hc) rfl hfresh hspent
            (Table.proper_redeemInvite ht) Table.lasting_setConsumed
          rw [State.held, hc]
          rfl
      · cases h
        exact effect_go ht hc rfl
    | _ => simp [step, hc] at h

theorem effect_create {i : Nat} {answer : Except UserError Uuid} (ht : s.table.Proper)
    (h : step s (.create i answer) = some s') : Effect s s' := by
  cases hc : s.calls[i]? with
  | none => simp [step, hc] at h
  | some c =>
    obtain ⟨req, phase⟩ := c
    cases phase with
    | create redeemed phc =>
      simp only [step, hc] at h
      cases answer with
      | ok id =>
        cases h
        refine .created i _ ?_ (held_set hc) rfl rfl
        rw [State.held, hc]
        rfl
      | error e =>
        cases h
        exact effect_go ht hc rfl
    | _ => simp [step, hc] at h

theorem effect_release {i : Nat} (ht : s.table.Proper) (h : step s (.release i) = some s') :
    Effect s s' := by
  cases hc : s.calls[i]? with
  | none => simp [step, hc] at h
  | some c =>
    obtain ⟨req, phase⟩ := c
    cases phase with
    | release redeemed answer =>
      simp only [step, hc] at h
      cases redeemed with
      | none =>
        cases h
        exact effect_go ht hc rfl
      | some token =>
        cases h
        refine .released i token ?_ (held_set hc) rfl (fun u => Table.spent_releaseInvite)
          (Table.proper_releaseInvite ht) Table.lasting_setConsumed
        rw [State.held, hc]
        rfl
    | _ => simp [step, hc] at h

theorem effect_of_step (ht : s.table.Proper) (h : step s act = some s') : Effect s s' := by
  cases act with
  | signup req =>
    cases h
    exact .kept held_push rfl (.of_rows ht rfl)
  | readGate i readable =>
    cases hc : s.calls[i]? with
    | none => simp [step, hc] at h
    | some c =>
      obtain ⟨req, phase⟩ := c
      cases phase with
      | gate =>
        simp only [step, hc, Option.some.injEq] at h
        subst h
        exact effect_go ht hc (held_gateAnswered ..)
      | _ => simp [step, hc] at h
  | redeem i reachable now => exact effect_redeem ht h
  | hash i answer =>
    cases hc : s.calls[i]? with
    | none => simp [step, hc] at h
    | some c =>
      obtain ⟨req, phase⟩ := c
      cases phase with
      | hash redeemed =>
        simp only [step, hc, Option.some.injEq] at h
        subst h
        apply effect_go ht hc
        cases answer <;> rfl
      | _ => simp [step, hc] at h
  | create i answer => exact effect_create ht h
  | release i => exact effect_release ht h
  | join call id token =>
    cases h
    exact .kept (fun _ => rfl) rfl (Table.same_insert ht rfl)
  | admitId id token now =>
    simp only [step] at h
    split at h
    · cases h
      exact .kept (fun _ => rfl) rfl (.of_rows ht rfl)
    · cases h
      exact .kept (fun _ => rfl) rfl (Table.same_admitId ht id)
  | resendBatch ids =>
    cases h
    exact .kept (fun _ => rfl) rfl (.of_rows ht rfl)
  | deleteBatch ids =>
    cases h
    exact .kept (fun _ => rfl) rfl (Table.same_deleteBatch ht ids)
  | setGate gateEnabled =>
    cases h
    exact .kept (fun _ => rfl) rfl (.of_rows ht rfl)

/-! ## The invariant -/

structure Inv (s : State) : Prop where
  proper : s.table.Proper
  /-- An invite that is held is spent, and not used yet. -/
  held : ∀ i t, s.held i = some t → s.table.Spent t ∧ ¬ s.used t
  /-- Two sign-ups do not hold one invite. -/
  apart : ∀ i j t, s.held i = some t → s.held j = some t → i = j
  used : ∀ t, s.used t → s.table.Spent t
  spent : ∀ t, s.table.Spent t → s.used t ∨ ∃ i, s.held i = some t
  once : (s.accounts.filterMap (·.invite)).Nodup

theorem inv_start (gateEnabled : Bool) : Inv (.start gateEnabled) where
  proper := fun _ hr => by cases hr
  held := fun _ _ h => by cases h
  apart := fun _ _ _ h => by cases h
  used := fun _ h => by
    obtain ⟨a, ha, -⟩ := h
    cases ha
  spent := fun _ h => by
    obtain ⟨r, hr, -⟩ := h
    cases hr
  once := List.nodup_nil

/-- An account adds its invite to the used ones. -/
theorem used_append {a : Account} (h : s'.accounts = s.accounts ++ [a]) (t : String) :
    s'.used t ↔ s.used t ∨ a.invite = some t := by
  simp only [State.used, h, List.mem_append, List.mem_singleton]
  constructor
  · rintro ⟨b, hb | rfl, hbt⟩
    · exact .inl ⟨b, hb, hbt⟩
    · exact .inr hbt
  · rintro (⟨b, hb, hbt⟩ | hat)
    · exact ⟨b, .inl hb, hbt⟩
    · exact ⟨a, .inr rfl, hat⟩

theorem once_append {a : Account} (hs : Inv s) (hnew : ∀ t, a.invite = some t → ¬ s.used t) :
    ((s.accounts ++ [a]).filterMap (·.invite)).Nodup := by
  rw [List.filterMap_append]
  cases ha : a.invite with
  | none => simpa [ha] using hs.once
  | some t =>
    simp only [List.filterMap_cons, ha, List.filterMap_nil]
    refine hs.once.append (List.nodup_singleton t) (List.disjoint_singleton.2 fun ht => ?_)
    obtain ⟨b, hb, hbt⟩ := List.mem_filterMap.1 ht
    exact hnew t ha ⟨b, hb, hbt⟩

theorem inv_step (hs : Inv s) (h : step s act = some s') : Inv s' := by
  have hused (haccounts : s'.accounts = s.accounts) (t : String) : s'.used t ↔ s.used t := by
    rw [State.used, State.used, haccounts]
  cases effect_of_step hs.proper h with
  | kept held accounts same =>
    refine ⟨same.proper, ?_, ?_, ?_, ?_, by rw [accounts]; exact hs.once⟩
    · intro i t hi
      rw [same.spent, hused accounts]
      exact hs.held i t (held i ▸ hi)
    · intro i j t hi hj
      exact hs.apart i j t (held i ▸ hi) (held j ▸ hj)
    · intro t ht
      exact (same.spent t).2 (hs.used t ((hused accounts t).1 ht))
    · intro t ht
      rw [hused accounts]
      simp only [held]
      exact hs.spent t ((same.spent t).1 ht)
  | redeemed i token held held' accounts fresh spent proper lasting =>
    have hother (j : Nat) (t : String) (hj : s'.held j = some t) :
        j = i ∧ t = token ∨ s.held j = some t := by
      rw [held'] at hj
      split at hj
      · rename_i hji
        exact .inl ⟨hji, (Option.some.inj hj).symm⟩
      · exact .inr hj
    refine ⟨proper, ?_, ?_, ?_, ?_, by rw [accounts]; exact hs.once⟩
    · intro j t hj
      rw [spent, hused accounts]
      rcases hother j t hj with ⟨-, rfl⟩ | hj
      · exact ⟨.inr rfl, fun hu => fresh (hs.used _ hu)⟩
      · exact ⟨.inl (hs.held j t hj).1, (hs.held j t hj).2⟩
    · intro j k t hj hk
      rcases hother j t hj with ⟨rfl, rfl⟩ | hj <;> rcases hother k t hk with ⟨rfl, ht⟩ | hk
      · rfl
      · exact absurd (hs.held k _ hk).1 fresh
      · exact absurd (ht ▸ (hs.held j _ hj).1) fresh
      · exact hs.apart j k t hj hk
    · intro t ht
      exact (spent t).2 (.inl (hs.used t ((hused accounts t).1 ht)))
    · intro t ht
      rw [hused accounts]
      rcases (spent t).1 ht with ht | rfl
      · rcases hs.spent t ht with hu | ⟨j, hj⟩
        · exact .inl hu
        · have hne : j ≠ i := by
            rintro rfl
            rw [held] at hj
            cases hj
          exact .inr ⟨j, by rw [held', if_neg hne, hj]⟩
      · exact .inr ⟨i, by rw [held', if_pos rfl]⟩
  | created i a invite held' accounts table =>
    have hother (j : Nat) (t : String) (hj : s'.held j = some t) : j ≠ i ∧ s.held j = some t := by
      rw [held'] at hj
      split at hj
      · cases hj
      · rename_i hne
        exact ⟨hne, hj⟩
    refine ⟨table ▸ hs.proper, ?_, ?_, ?_, ?_, ?_⟩
    · intro j t hj
      obtain ⟨hne, hj⟩ := hother j t hj
      rw [table, used_append accounts]
      refine ⟨(hs.held j t hj).1, ?_⟩
      rintro (hu | hat)
      · exact (hs.held j t hj).2 hu
      · exact hne (hs.apart j i t hj (invite.symm.trans hat))
    · intro j k t hj hk
      exact hs.apart j k t (hother j t hj).2 (hother k t hk).2
    · intro t ht
      rw [table]
      rcases (used_append accounts t).1 ht with hu | hat
      · exact hs.used t hu
      · exact (hs.held i t (invite.symm.trans hat)).1
    · intro t ht
      rw [used_append accounts]
      rcases hs.spent t (table ▸ ht) with hu | ⟨j, hj⟩
      · exact .inl (.inl hu)
      · by_cases hji : j = i
        · subst hji
          exact .inl (.inr (invite.trans hj))
        · exact .inr ⟨j, by rw [held', if_neg hji, hj]⟩
    · rw [accounts]
      exact once_append hs fun t hat => (hs.held i t (invite.symm.trans hat)).2
  | released i token held held' accounts spent proper lasting =>
    have hother (j : Nat) (t : String) (hj : s'.held j = some t) : j ≠ i ∧ s.held j = some t := by
      rw [held'] at hj
      split at hj
      · cases hj
      · rename_i hne
        exact ⟨hne, hj⟩
    refine ⟨proper, ?_, ?_, ?_, ?_, by rw [accounts]; exact hs.once⟩
    · intro j t hj
      obtain ⟨hne, hj⟩ := hother j t hj
      rw [spent, hused accounts]
      refine ⟨⟨(hs.held j t hj).1, ?_⟩, (hs.held j t hj).2⟩
      rintro rfl
      exact hne (hs.apart j i t hj held)
    · intro j k t hj hk
      exact hs.apart j k t (hother j t hj).2 (hother k t hk).2
    · intro t ht
      have hu := (hused accounts t).1 ht
      refine (spent t).2 ⟨hs.used t hu, ?_⟩
      rintro rfl
      exact (hs.held i t held).2 hu
    · intro t ht
      obtain ⟨hspent, hne⟩ := (spent t).1 ht
      rw [hused accounts]
      rcases hs.spent t hspent with hu | ⟨j, hj⟩
      · exact .inl hu
      · have hji : j ≠ i := by
          rintro rfl
          exact hne (Option.some.inj (hj.symm.trans held))
        exact .inr ⟨j, by rw [held', if_neg hji, hj]⟩

/-! ## An invite that was used -/

/-- The row is there, and an account was created through its invite. -/
def UsedRow (s : State) (id : Uuid) (t : String) : Prop :=
  s.used t ∧ ∃ r ∈ s.table.rows, r.id = id ∧ r.inviteToken = some t ∧
    r.inviteConsumedAt.isSome = true

/-- The row with a used invite is the consumed one. -/
theorem usedRow_of_mem (hs : Inv s) {r : Row} {t : String} (hr : r ∈ s.table.rows)
    (ht : r.inviteToken = some t) (hu : s.used t) : UsedRow s r.id t := by
  obtain ⟨q, hq, hqt, hconsumed⟩ := hs.used t hu
  rw [← s.table.tokens r hr q hq t ht hqt] at hconsumed
  exact ⟨hu, r, hr, rfl, ht, hconsumed⟩

theorem used_step (hs : Inv s) (h : step s act = some s') {t : String} (ht : s.used t) :
    s'.used t := by
  cases effect_of_step hs.proper h with
  | created i a invite held accounts table => exact (used_append accounts t).2 (.inl ht)
  | kept held accounts =>
    rw [State.used, accounts]
    exact ht
  | redeemed i token held held' accounts =>
    rw [State.used, accounts]
    exact ht
  | released i token held held' accounts =>
    rw [State.used, accounts]
    exact ht

theorem lasting_step (hs : Inv s) (h : step s act = some s') :
    Table.Lasting s.table s'.table := by
  cases effect_of_step hs.proper h with
  | kept held accounts same => exact same.lasting
  | redeemed i token held held' accounts fresh spent proper lasting => exact lasting
  | created i a invite held accounts table =>
    rw [table]
    exact .refl s.table
  | released i token held held' accounts spent proper lasting => exact lasting

theorem usedRow_step (hs : Inv s) (h : step s act = some s') {id : Uuid} {t : String}
    (hrow : UsedRow s id t) : UsedRow s' id t := by
  obtain ⟨hu, r, hr, rfl, ht, hconsumed⟩ := hrow
  obtain ⟨r', hr', hid, htoken⟩ := lasting_step hs h r hr hconsumed
  have hrow := usedRow_of_mem (inv_step hs h) hr' (htoken.trans ht) (used_step hs h hu)
  rw [hid] at hrow
  exact hrow

/-- Without a sign-up in flight no invite is held. -/
theorem held_of_ended (h : ∀ c ∈ s.calls, c.phase.ended = true) (i : Nat) : s.held i = none := by
  cases hc : s.calls[i]? with
  | none => rw [State.held, hc, Option.bind_none]
  | some c =>
    have hend := h c (List.mem_of_getElem? hc)
    rw [State.held, hc, Option.bind_some]
    cases hphase : c.phase with
    | done => rfl
    | _ =>
      rw [hphase] at hend
      cases hend

/-- **One invite, one account.** An invite makes one account at most; the row of one that made an
account stays for good and is not redeemable; and with no sign-up in flight a row is consumed
exactly when an account was created through it. -/
theorem invite_once (gateEnabled : Bool) (s : State)
    (h : Trans.Reach step Trans.always (.start gateEnabled) s) :
    (s.accounts.filterMap (·.invite)).Nodup ∧
    (∀ t, s.used t → ∃ r ∈ s.table.rows, r.inviteToken = some t ∧
      ∀ s', Trans.Reach step Trans.always s s' →
        (∃ r' ∈ s'.table.rows, r'.id = r.id ∧ r'.inviteToken = some t ∧
          r'.inviteConsumedAt.isSome = true) ∧
        ∀ now, (s'.table.redeemInvite t now).1 = none) ∧
    ((∀ c ∈ s.calls, c.phase.ended = true) → ∀ r ∈ s.table.rows,
      (r.inviteConsumedAt.isSome = true ↔ ∃ t, r.inviteToken = some t ∧ s.used t)) := by
  have hs : Inv s := h.inv (inv_start gateEnabled) fun _ _ _ hs _ => inv_step hs
  refine ⟨hs.once, fun t ht => ?_, fun hended r hr => ⟨fun hconsumed => ?_, ?_⟩⟩
  · obtain ⟨r, hr, hrt, hconsumed⟩ := hs.used t ht
    refine ⟨r, hr, hrt, fun s' hs' => ?_⟩
    have hrun : Inv s' ∧ UsedRow s' r.id t :=
      hs'.inv (I := fun s => Inv s ∧ UsedRow s r.id t) ⟨hs, ht, r, hr, rfl, hrt, hconsumed⟩
        fun _ _ _ hs _ hstep => ⟨inv_step hs.1 hstep, usedRow_step hs.1 hstep hs.2⟩
    obtain ⟨-, hu, r', hr', hid, hrt', hconsumed'⟩ := hrun
    exact ⟨⟨r', hr', hid, hrt', hconsumed'⟩,
      fun now => Table.redeemInvite_of_spent ⟨r', hr', hrt', hconsumed'⟩⟩
  · obtain ⟨t, ht⟩ := Option.isSome_iff_exists.1 (hs.proper r hr hconsumed).2
    rcases hs.spent t ⟨r, hr, ht, hconsumed⟩ with hu | ⟨i, hi⟩
    · exact ⟨t, ht, hu⟩
    · rw [held_of_ended hended] at hi
      cases hi
  · rintro ⟨t, ht, hu⟩
    obtain ⟨-, q, hq, hid, -, hconsumed⟩ := usedRow_of_mem hs hr ht hu
    rwa [Keyed.eq_of_key hq hr hid] at hconsumed

/-- Ann's handle is taken, so she tries again; Bea has the forwarded link, and the invite row is
not deleted. -/
def forwardedInvite : List Action :=
  [.setGate true, .join ⟨"ann@x", none, 1, .lock⟩ "a" none, .admitId "a" "t" 2,
    .signup ⟨"ann@x", "correct horse", "bea", some "t"⟩, .readGate 0 true, .redeem 0 true 3,
    .signup ⟨"bea@x", "battery staple", "bea", some "t"⟩, .readGate 1 true, .redeem 1 true 4,
    .hash 0 (.ok "phc"), .create 0 (.error .handleTaken), .release 0,
    .signup ⟨"ann@x", "correct horse", "ann", some "t"⟩, .readGate 2 true, .redeem 2 true 5,
    .hash 2 (.ok "phc"), .create 2 (.ok "u"), .deleteBatch ["a"]]

theorem invite_once_forwarded : ∃ s, Trans.Reach step Trans.always (.start false) s ∧
    s.calls.map (·.phase.ended) = [true, true, true] ∧
    s.accounts.map (·.claimedHandle) = ["ann"] ∧
    s.table.rows.map (·.inviteConsumedAt) = [some 5] ∧
    (s.accounts.filterMap (·.invite)).Nodup := by
  have hrun : (Trans.exec step Trans.always (.start false) forwardedInvite).map
      (fun s => (s.calls.map (·.phase.ended), s.accounts.map (·.claimedHandle),
        s.table.rows.map (·.inviteConsumedAt))) =
      some ([true, true, true], ["ann"], [some 5]) := by decide +kernel
  obtain ⟨s, hreach, hend⟩ := Trans.reach_of_map_exec forwardedInvite hrun
  obtain ⟨hcalls, hrest⟩ := Prod.mk.inj hend
  obtain ⟨haccounts, hrows⟩ := Prod.mk.inj hrest
  exact ⟨s, hreach, hcalls, haccounts, hrows, (invite_once false s hreach).1⟩

end Invites

end StarStats
