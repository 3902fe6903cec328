import StarStats.Client.OrgConnector
import StarStats.Client.Proof.Reparse
import StarStats.Client.Proof.Search
import StarStats.Client.Proof.Storage

/-!
# What the org connector forwards

`OrgEnv.forwards_later_iff`: on every run the connector forwards just what comes after it was first
enabled, in order, and again only after a failure, exactly when no row with telemetry has a larger
id than the newest row of the table it was enabled on.
-/

namespace StarStats

open SearchEnv (recentEventRow)

/-! ## The first rows past a cursor -/

section
variable {rows : List LocalRow} {x y : LocalRow} {n : Nat}

theorem mem_take_of_lt (h : rows.Pairwise (·.id < ·.id)) (hy : y ∈ rows.take n) (hx : x ∈ rows)
    (hlt : x.id < y.id) : x ∈ rows.take n := by
  rw [← List.take_append_drop n rows] at h hx
  rcases List.mem_append.1 hx with hx | hx
  · exact hx
  · have hyx := (List.pairwise_append.1 h).2.2 y hy x hx
    omega

theorem mem_take_of_count (h : rows.Pairwise (·.id < ·.id)) (hx : x ∈ rows)
    (hcount : (rows.filter (·.id < x.id)).length < n) : x ∈ rows.take n := by
  obtain ⟨a, b, rfl⟩ := List.append_of_mem hx
  have hbefore : ∀ r ∈ a, r.id < x.id := fun r hr =>
    (List.pairwise_append.1 h).2.2 r hr x List.mem_cons_self
  have hall : a.filter (·.id < x.id) = a := List.filter_eq_self.2 fun r hr => by
    simpa using hbefore r hr
  rw [List.filter_append, hall, List.length_append] at hcount
  obtain ⟨k, rfl⟩ : ∃ k, n = a.length + (k + 1) := ⟨n - a.length - 1, by omega⟩
  rw [List.take_length_add_append, List.take_succ_cons]
  exact List.mem_append_right _ List.mem_cons_self

theorem foldl_max_le_iff {m b : Int} :
    rows.foldl (fun m r => max m r.id) m ≤ b ↔ m ≤ b ∧ ∀ r ∈ rows, r.id ≤ b := by
  induction rows generalizing m with
  | nil => simp
  | cons r rs ih => rw [List.foldl_cons, ih, max_le_iff, List.forall_mem_cons, and_assoc]

end

namespace EventsTable

/-- The rows of a pass. -/
def pastCursor (t : EventsTable) (cursor : Int) : List LocalRow :=
  (t.rows.filter (cursor < ·.id)).take orgBatch

variable {t : EventsTable} {cursor : Int} {row : LocalRow}

theorem readEventsAfter_eq (h : t.Ordered) :
    t.readEventsAfter cursor orgBatch = (t.pastCursor cursor).map recentEventRow := by
  have hsorted := (h.ascending.filter (cursor < ·.id)).imp fun hlt => Int.le_of_lt hlt
  rw [readEventsAfter, hsorted.insertionSort_eq]
  rfl

theorem Ordered.pastCursor (h : t.Ordered) (cursor : Int) :
    (t.pastCursor cursor).Pairwise (·.id < ·.id) :=
  (h.ascending.filter _).sublist (List.take_sublist _ _)

theorem mem_of_mem_pastCursor (h : row ∈ t.pastCursor cursor) : row ∈ t.rows ∧ cursor < row.id := by
  simpa using List.mem_filter.1 (List.mem_of_mem_take h)

theorem Ordered.eq_of_id (h : t.Ordered) {row' : LocalRow} (hrow : row ∈ t.rows)
    (hrow' : row' ∈ t.rows) (hid : row.id = row'.id) : row = row' := by
  have hnodup : (t.rows.map (·.id)).Nodup :=
    List.pairwise_map.2 (h.ascending.imp fun hlt => Int.ne_of_lt hlt)
  exact List.inj_on_of_nodup_map hnodup hrow hrow' hid

end EventsTable

namespace OrgEnv
variable (env : OrgEnv)

/-! ## One pass -/

theorem telemetryFor_isSome (zone : String → String) (event : GameEvent) :
    (telemetryFor zone event).isSome = (telemetryFor id event).isSome := by
  cases event with
  | seedSolarSystem e => cases h : e.success <;> simp [telemetryFor, Telemetry.default, h]
  | _ => simp [telemetryFor, Telemetry.default]

theorem telemetry_eq_none_iff (zone : String → String) (row : LocalRow) :
    (env.fromJson (recentEventRow row).payloadJson).bind (telemetryFor zone) = none ↔
      env.bearing row = false := by
  rw [bearing, ← Option.not_isSome_iff_eq_none, Bool.not_eq_true]
  cases h : env.fromJson row.payload with
  | none => simp [recentEventRow, h]
  | some event => simp [recentEventRow, h, telemetryFor_isSome zone event]

/-- The ids of a pass that sends all it finds. -/
def foundIds (rows : List LocalRow) : List Int := (rows.filter env.bearing).map (·.id)

/-- The loop sends what it finds, up to the failure. -/
theorem forwardRows_spec (zone : String → String) (failing : SendFailure) (maxId : Int)
    (rows : List LocalRow) :
    let sends := env.forwardRows zone failing maxId (rows.map recentEventRow)
    sends.1.map (·.1) <+: env.foundIds rows ∧
      (∀ m, sends.2 = some m → sends.1.map (·.1) = env.foundIds rows ∧
        m = rows.foldl (fun m r => max m r.id) maxId) ∧
      (failing = none → sends.2.isSome = true) := by
  induction rows generalizing failing maxId with
  | nil => simp [forwardRows, foundIds]
  | cons row rows ih =>
    rw [List.map_cons, forwardRows]
    cases htelemetry : (env.fromJson (recentEventRow row).payloadJson).bind (telemetryFor zone) with
    | none =>
      have hnot := (env.telemetry_eq_none_iff zone row).1 htelemetry
      simpa [foundIds, hnot, recentEventRow] using ih failing (max maxId row.id)
    | some telemetry =>
      have hbears : env.bearing row = true := by
        by_contra hnot
        rw [(env.telemetry_eq_none_iff zone row).2 (by simpa using hnot)] at htelemetry
        cases htelemetry
      have hfound : env.foundIds (row :: rows) = row.id :: env.foundIds rows := by
        simp [foundIds, hbears]
      rw [hfound]
      cases failing with
      | none =>
        obtain ⟨hsent, hdone, hall⟩ := ih none (max maxId row.id)
        refine ⟨List.cons_prefix_cons.2 ⟨rfl, hsent⟩, fun m hm => ?_, hall⟩
        exact ⟨congrArg (row.id :: ·) (hdone m hm).1, (hdone m hm).2⟩
      | some k =>
        cases k with
        | zero => exact ⟨List.nil_prefix, by simp, by simp⟩
        | succ k =>
          obtain ⟨hsent, hdone, -⟩ := ih (some k) (max maxId row.id)
          refine ⟨List.cons_prefix_cons.2 ⟨rfl, hsent⟩, fun m hm => ?_, by simp⟩
          exact ⟨congrArg (row.id :: ·) (hdone m hm).1, (hdone m hm).2⟩

variable {env}

/-- A pass over the rows past the cursor. -/
structure IsPass (env : OrgEnv) (c c' : OrgConnector) (p : OrgPass) : Prop where
  table : c'.table = c.table
  storedBefore : c'.storedBefore = c.storedBefore
  passes : c'.passes = c.passes ++ [p]
  readsTable : p.table = c.table
  readsCursor : p.cursor = c.cursor
  sends : p.ids <+: env.foundIds (c.table.pastCursor c.cursor)
  completes : p.completed = true → p.ids = env.foundIds (c.table.pastCursor c.cursor) ∧
    ∀ b, c'.cursor ≤ b ↔ c.cursor ≤ b ∧ ∀ r ∈ c.table.pastCursor c.cursor, r.id ≤ b
  fails : p.completed = false → c'.cursor = c.cursor

theorem forwardNewEvents_isPass {c : OrgConnector} (h : c.table.Ordered) (zone : String → String)
    (failing : SendFailure) :
    ∃ p, IsPass env c (env.forwardNewEvents zone failing c) p ∧
      (failing = none → p.completed = true) := by
  rw [forwardNewEvents]
  simp only [EventsTable.readEventsAfter_eq h]
  split
  case isTrue hempty =>
    have hnone : c.table.pastCursor c.cursor = [] := by simpa using hempty
    refine ⟨_, ⟨rfl, rfl, rfl, rfl, rfl, ?_, fun _ => ?_, fun _ => rfl⟩, fun _ => rfl⟩
    · exact List.nil_prefix
    · simp [hnone, foundIds, OrgPass.ids]
  case isFalse =>
    obtain ⟨hsent, hdone, hall⟩ :=
      env.forwardRows_spec zone failing c.cursor (c.table.pastCursor c.cursor)
    refine ⟨_, ⟨rfl, rfl, rfl, rfl, rfl, hsent, fun hsome => ?_, fun hnone => ?_⟩, hall⟩
    · obtain ⟨m, hm⟩ := Option.isSome_iff_exists.1 hsome
      refine ⟨(hdone m hm).1, fun b => ?_⟩
      rw [← foldl_max_le_iff, ← (hdone m hm).2]
      simp [hm]
    · have hnone := Option.isNone_iff_eq_none.1 (by simpa using hnone)
      simp [hnone]

namespace IsPass
variable {c c' : OrgConnector} {p : OrgPass} (h : IsPass env c c' p) (ht : c.table.Ordered)
include h ht

theorem ids_sorted : p.ids.Pairwise (· < ·) := by
  have hfound : (env.foundIds (c.table.pastCursor c.cursor)).Pairwise (· < ·) :=
    List.pairwise_map.2 ((ht.pastCursor c.cursor).filter _)
  exact hfound.sublist h.sends.sublist

omit ht in
theorem mem_ids {id : Int} (hid : id ∈ p.ids) :
    ∃ row ∈ c.table.pastCursor c.cursor, env.bearing row = true ∧ row.id = id := by
  obtain ⟨row, hrow, hid⟩ := List.mem_map.1 (h.sends.subset hid)
  exact ⟨row, (List.mem_filter.1 hrow).1, (List.mem_filter.1 hrow).2, hid⟩

/-- What has telemetry and stands before a row that is sent is sent. -/
theorem sends_before {id : Int} (hid : id ∈ p.ids) {row : LocalRow} (hrow : row ∈ c.table.rows)
    (hbears : env.bearing row = true) (hpast : c.cursor < row.id) (hlt : row.id < id) :
    row.id ∈ p.ids := by
  obtain ⟨r, hr, -, rfl⟩ := h.mem_ids hid
  have hread : row ∈ c.table.pastCursor c.cursor :=
    mem_take_of_lt (ht.ascending.filter _) hr (List.mem_filter.2 ⟨hrow, by simpa using hpast⟩) hlt
  have hfound : row.id ∈ env.foundIds (c.table.pastCursor c.cursor) :=
    List.mem_map_of_mem (List.mem_filter.2 ⟨hread, hbears⟩)
  have hsorted : (env.foundIds (c.table.pastCursor c.cursor)).Pairwise (· < ·) :=
    List.pairwise_map.2 ((ht.pastCursor c.cursor).filter _)
  obtain ⟨tail, htail⟩ := h.sends
  rw [← htail] at hfound hsorted
  rcases List.mem_append.1 hfound with hfound | hfound
  · exact hfound
  · have hafter := (List.pairwise_append.1 hsorted).2.2 _ hid _ hfound
    omega

omit ht in
theorem cursor_le : c.cursor ≤ c'.cursor := by
  cases hcompleted : p.completed with
  | true => exact (((h.completes hcompleted).2 c'.cursor).1 (Int.le_refl _)).1
  | false => exact Int.le_of_eq (h.fails hcompleted).symm

omit ht in
theorem id_le_cursor (hcompleted : p.completed = true) {id : Int} (hid : id ∈ p.ids) :
    id ≤ c'.cursor := by
  obtain ⟨row, hrow, -, rfl⟩ := h.mem_ids hid
  exact (((h.completes hcompleted).2 c'.cursor).1 (Int.le_refl _)).2 row hrow

end IsPass

/-! ## Sends in order -/

theorem FirstSentInOrder.append {sends ids : List Int} (h : FirstSentInOrder sends)
    (hids : ids.Pairwise (· < ·)) (hnew : ∀ id ∈ ids, id ∉ sends → ∀ k ∈ sends, k < id) :
    FirstSentInOrder (sends ++ ids) := by
  intro before id behind heq hfirst k hk
  rcases List.append_eq_append_iff.1 heq with ⟨c, rfl, hc⟩ | ⟨c, hc, hbehind⟩
  · rw [hc] at hids hnew
    have hid : id ∉ sends := fun hin => hfirst (List.mem_append_left c hin)
    rcases List.mem_append.1 hk with hk | hk
    · exact hnew id (by simp) hid k hk
    · exact (List.pairwise_append.1 hids).2.2 k hk id List.mem_cons_self
  · cases c with
    | nil =>
      rw [List.append_nil] at hc
      rw [List.nil_append] at hbehind
      subst hc hbehind
      exact hnew id List.mem_cons_self hfirst k hk
    | cons x c =>
      obtain ⟨rfl, -⟩ := List.cons_eq_cons.1 hbehind
      exact h before id c hc hfirst k hk

/-! ## The invariant -/

/-- What holds of the connector on every run after `old` was stored. -/
structure Follows (env : OrgEnv) (old : List LocalRow) (c : OrgConnector) : Prop where
  ordered : c.table.Ordered
  stored : c.storedBefore = some old
  kept : ∀ row ∈ old, row ∈ c.table.rows
  past : ∀ row ∈ old, env.bearing row = true → row.id ≤ c.cursor
  known : ∀ p ∈ c.passes, ∀ id ∈ p.ids, id ≤ c.table.lastId
  behind : ∀ p ∈ c.passes, p.completed = true → ∀ id ∈ p.ids, id ≤ c.cursor
  /-- Past the cursor nothing with telemetry was left out. -/
  gapless : ∀ id ∈ c.passes.flatMap (·.ids), ∀ row ∈ c.table.rows, env.bearing row = true →
    c.cursor < row.id → row.id < id → row.id ∈ c.passes.flatMap (·.ids)
  forwards : env.ForwardsLater c

namespace Follows
variable {old : List LocalRow} {c : OrgConnector} (h : Follows env old c)
include h

theorem enable : Follows env old c.enable := by
  have hseeded : ∃ k, c.cursor ≤ k ∧ c.enable = { c with cursor := k } := by
    have hstored : c.storedBefore.or (some c.table.rows) = c.storedBefore := by rw [h.stored]; rfl
    rw [OrgConnector.enable, OrgConnector.seedCursorIfUnset]
    split
    case isTrue => exact ⟨c.cursor, Int.le_refl _, by rw [hstored]⟩
    case isFalse hzero =>
      dsimp only
      split
      case isTrue hpos =>
        exact ⟨((c.table.recentEvents 1).head?.map (·.id)).getD 0, by omega, by rw [hstored]⟩
      case isFalse => exact ⟨c.cursor, Int.le_refl _, by rw [hstored]⟩
  obtain ⟨k, hk, heq⟩ := hseeded
  rw [heq]
  exact { h with
    past := fun row hrow hbears => (h.past row hrow hbears).trans hk
    behind := fun p hp hcompleted id hid => (h.behind p hp hcompleted id hid).trans hk
    gapless := fun id hid row hrow hbears hpast =>
      h.gapless id hid row hrow hbears (hk.trans_lt hpast)
    forwards := { h.forwards with } }

theorem insert (row : EventsRow) :
    Follows env old { c with table := (c.table.insertEvent env.toIngestEnv row).1 } := by
  have hordered := ReparseEnv.ordered_insertEvent env.toIngestEnv h.ordered row
  rcases ReparseEnv.insertEvent_eq env.toIngestEnv c.table row with heq | heq
  · rw [heq]
    exact h
  rw [heq] at hordered ⊢
  exact { h with
    ordered := hordered
    kept := fun r hr => List.mem_append_left _ (h.kept r hr)
    known := fun p hp id hid => (h.known p hp id hid).trans (by dsimp only; omega)
    gapless := fun id hid r hr hbears hpast hlt => by
      rcases List.mem_append.1 hr with hr | hr
      · exact h.gapless id hid r hr hbears hpast hlt
      · -- the new row has the largest id
        obtain rfl := List.mem_singleton.1 hr
        obtain ⟨p, hp, hidp⟩ := List.mem_flatMap.1 hid
        have hle := h.known p hp id hidp
        simp only [ReparseEnv.newRow] at hlt
        omega
    forwards := { h.forwards with } }

theorem pass {c' : OrgConnector} {p : OrgPass} (hp : IsPass env c c' p) : Follows env old c' := by
  have hmem : ∀ {q}, q ∈ c'.passes → q ∈ c.passes ∨ q = p := fun hq => by
    rw [hp.passes] at hq
    rcases List.mem_append.1 hq with hq | hq
    · exact .inl hq
    · exact .inr (List.mem_singleton.1 hq)
  have hsends : c'.passes.flatMap (·.ids) = c.passes.flatMap (·.ids) ++ p.ids := by
    rw [hp.passes, List.flatMap_append, List.flatMap_singleton]
  have hrow : ∀ {id}, id ∈ p.ids →
      ∃ row ∈ c.table.rows, env.bearing row = true ∧ c.cursor < row.id ∧ row.id = id :=
    fun hid => by
      obtain ⟨row, hread, hbears, hid⟩ := hp.mem_ids hid
      obtain ⟨hrow, hpast⟩ := EventsTable.mem_of_mem_pastCursor hread
      exact ⟨row, hrow, hbears, hpast, hid⟩
  refine ⟨hp.table ▸ h.ordered, hp.storedBefore.trans h.stored, hp.table ▸ h.kept,
    fun row hr hbears => (h.past row hr hbears).trans hp.cursor_le, ?_, ?_, ?_, ?_⟩
  · intro q hq id hid
    rw [hp.table]
    rcases hmem hq with hq | rfl
    · exact h.known q hq id hid
    · obtain ⟨row, hr, -, -, rfl⟩ := hrow hid
      exact h.ordered.bounded row hr
  · intro q hq hcompleted id hid
    rcases hmem hq with hq | rfl
    · exact (h.behind q hq hcompleted id hid).trans hp.cursor_le
    · exact hp.id_le_cursor hcompleted hid
  · intro id hid row hr hbears hpast hlt
    rw [hsends] at hid ⊢
    rw [hp.table] at hr
    have hpast : c.cursor < row.id := hp.cursor_le.trans_lt hpast
    rcases List.mem_append.1 hid with hid | hid
    · exact List.mem_append_left _ (h.gapless id hid row hr hbears hpast hlt)
    · exact List.mem_append_right _ (hp.sends_before h.ordered hid hr hbears hpast hlt)
  · refine ⟨?_, ?_, ?_, ?_, ?_⟩
    · intro rows hrows q hq row hr hid
      rw [hp.storedBefore] at hrows
      rcases hmem hq with hq | rfl
      · exact h.forwards.later rows hrows q hq row hr hid
      · rw [h.stored] at hrows
        obtain rfl := Option.some.inj hrows
        obtain ⟨row', hr', hbears, hpast, hid⟩ := hrow hid
        obtain rfl := h.ordered.eq_of_id hr' (h.kept row hr) hid
        have hle := h.past row' hr hbears
        omega
    · intro q hq hcompleted row hr hbears hpast hcount
      rcases hmem hq with hq | rfl
      · exact h.forwards.complete q hq hcompleted row hr hbears hpast hcount
      · rw [(hp.completes hcompleted).1]
        rw [hp.readsTable] at hr hcount
        rw [hp.readsCursor] at hpast hcount
        refine List.mem_map_of_mem (List.mem_filter.2 ⟨?_, hbears⟩)
        refine mem_take_of_count (h.ordered.ascending.filter _)
          (List.mem_filter.2 ⟨hr, by simpa using hpast⟩) ?_
        simpa [List.filter_filter, Bool.and_comm] using hcount
    · intro q hq
      rcases hmem hq with hq | rfl
      · exact h.forwards.inOrder q hq
      · exact hp.ids_sorted h.ordered
    · rw [hsends]
      refine h.forwards.firstInOrder.append (hp.ids_sorted h.ordered) fun id hid hnew k hk => ?_
      obtain ⟨row, hr, hbears, hpast, rfl⟩ := hrow hid
      by_contra hle
      rcases Int.lt_or_eq_of_le (Int.not_lt.1 hle) with hlt | heq
      · exact hnew (h.gapless k hk row hr hbears hpast hlt)
      · exact hnew (heq ▸ hk)
    · rw [hp.passes]
      refine List.pairwise_append.2 ⟨h.forwards.again, List.pairwise_singleton _ _, ?_⟩
      intro q hq q' hq' id hid hid'
      obtain rfl := List.mem_singleton.1 hq'
      obtain ⟨row, -, -, hpast, rfl⟩ := hrow hid'
      by_contra hcompleted
      have hle := h.behind q hq (by simpa using hcompleted) row.id hid
      omega

theorem step {c' : OrgConnector} {a : OrgStep} (ha : env.orgStep c a = some c') :
    Follows env old c' := by
  cases a with
  | enable => exact Option.some.inj ha ▸ h.enable
  | insert row => exact Option.some.inj ha ▸ h.insert row
  | pass zone failing =>
    simp only [orgStep, h.stored, Option.isSome_some, if_true] at ha
    obtain ⟨p, hp, -⟩ := @forwardNewEvents_isPass env c h.ordered zone failing
    exact Option.some.inj ha ▸ h.pass hp

end Follows

/-! ## The seed -/

theorem ordered_ofEvents (env : IngestEnv) (events : List EventsRow) :
    (EventsTable.ofEvents env events).Ordered :=
  List.foldlRecOn _ _ (motive := EventsTable.Ordered)
    ⟨.nil, by simp [EventsTable.fresh], Int.le_refl _, by simp [EventsTable.fresh]⟩
    fun _ h row _ => ReparseEnv.ordered_insertEvent env h row

/-- The newest row of a table. -/
def IsNewest (t : EventsTable) (newest : LocalRow) : Prop :=
  newest ∈ t.rows ∧ ∀ r ∈ t.rows, r.timestamp < newest.timestamp ∨
    (r.timestamp = newest.timestamp ∧ r.id ≤ newest.id)

theorem IsNewest.id_eq {t : EventsTable} {newest other : LocalRow} (h : IsNewest t newest)
    (h' : IsNewest t other) : newest.id = other.id := by
  rcases h.2 other h'.1 with hlt | ⟨heq, hle⟩
  · rcases h'.2 newest h.1 with hlt' | ⟨heq', -⟩
    · exact absurd (hlt.trans hlt') (lt_irrefl _)
    · rw [heq'] at hlt
      exact absurd hlt (lt_irrefl _)
  · rcases h'.2 newest h.1 with hlt' | ⟨-, hle'⟩
    · rw [heq] at hlt'
      exact absurd hlt' (lt_irrefl _)
    · exact Int.le_antisymm hle' hle

theorem recentEvents_one {t : EventsTable} (hne : t.rows ≠ []) :
    ∃ newest, IsNewest t newest ∧ t.recentEvents 1 = [recentEventRow newest] := by
  have hperm := SearchEnv.searchOrder_perm t.rows
  have hsorted : (SearchEnv.searchOrder t.rows).Pairwise fun a b : LocalRow =>
      b.timestamp < a.timestamp ∨ (b.timestamp = a.timestamp ∧ b.id ≤ a.id) :=
    List.pairwise_insertionSort _ _
  rw [EventsTable.recentEvents]
  cases heq : SearchEnv.searchOrder t.rows with
  | nil => exact absurd ((heq ▸ hperm).symm.eq_nil) hne
  | cons newest rest =>
    rw [heq] at hperm hsorted
    refine ⟨newest, ⟨hperm.subset List.mem_cons_self, fun r hr => ?_⟩, rfl⟩
    rcases List.mem_cons.1 (hperm.symm.subset hr) with rfl | hr
    · exact .inr ⟨rfl, Int.le_refl _⟩
    · exact (List.pairwise_cons.1 hsorted).1 r hr

/-- The connector as it is first enabled: its cursor is at the newest row. -/
theorem firstEnabled_eq (env : OrgEnv) {events : List EventsRow}
    (hne : (EventsTable.ofEvents env.toIngestEnv events).rows ≠ []) :
    ∃ newest, IsNewest (.ofEvents env.toIngestEnv events) newest ∧
      env.firstEnabled events = ⟨.ofEvents env.toIngestEnv events, newest.id,
        some (EventsTable.ofEvents env.toIngestEnv events).rows, []⟩ := by
  obtain ⟨newest, hnewest, hrecent⟩ := recentEvents_one hne
  have hpos : 0 < newest.id := (ordered_ofEvents _ events).positive newest hnewest.1
  refine ⟨newest, hnewest, ?_⟩
  simp [firstEnabled, OrgConnector.enable, OrgConnector.seedCursorIfUnset, hrecent,
    recentEventRow, hpos]

theorem seedIsLast_iff (env : OrgEnv) {t : EventsTable} {newest : LocalRow}
    (h : IsNewest t newest) :
    env.SeedIsLast t ↔ ∀ row ∈ t.rows, env.bearing row = true → row.id ≤ newest.id := by
  constructor
  · intro hseed
    exact hseed newest h.1 h.2
  · intro hlast other hother hnewest row hrow hbears
    rw [IsNewest.id_eq ⟨hother, hnewest⟩ h]
    exact hlast row hrow hbears

theorem follows_firstEnabled {events : List EventsRow}
    (hseed : env.SeedIsLast (.ofEvents env.toIngestEnv events)) :
    Follows env (EventsTable.ofEvents env.toIngestEnv events).rows (env.firstEnabled events) := by
  have hordered := ordered_ofEvents env.toIngestEnv events
  have hstart : ∀ cursor, (∀ row ∈ (EventsTable.ofEvents env.toIngestEnv events).rows,
      env.bearing row = true → row.id ≤ cursor) →
      Follows env (EventsTable.ofEvents env.toIngestEnv events).rows
        ⟨.ofEvents env.toIngestEnv events, cursor,
          some (EventsTable.ofEvents env.toIngestEnv events).rows, []⟩ := by
    intro cursor hcursor
    refine ⟨hordered, rfl, fun _ hr => hr, hcursor, by simp, by simp, by simp, ?_⟩
    exact ⟨by simp, by simp, by simp, fun before id behind heq => by simp at heq, .nil⟩
  by_cases hne : (EventsTable.ofEvents env.toIngestEnv events).rows = []
  · have hempty : env.firstEnabled events = ⟨.ofEvents env.toIngestEnv events, 0,
        some (EventsTable.ofEvents env.toIngestEnv events).rows, []⟩ := by
      simp [firstEnabled, OrgConnector.enable, OrgConnector.seedCursorIfUnset,
        EventsTable.recentEvents, SearchEnv.searchOrder, hne]
    rw [hempty]
    exact hstart 0 (by simp [hne])
  · obtain ⟨newest, hnewest, heq⟩ := firstEnabled_eq env hne
    rw [heq]
    exact hstart newest.id ((seedIsLast_iff env hnewest).1 hseed)

/-- A row with telemetry past the cursor is sent in the end, where no send fails. -/
theorem exists_sent {c : OrgConnector} (h : c.table.Ordered) (henabled : c.storedBefore.isSome)
    {row : LocalRow} (hrow : row ∈ c.table.rows) (hbears : env.bearing row = true)
    (hpast : c.cursor < row.id) :
    ∃ c', Trans.Reach env.orgStep Trans.always c c' ∧ c'.storedBefore = c.storedBefore ∧
      ∃ p ∈ c'.passes, row.id ∈ p.ids := by
  obtain ⟨n, hn⟩ : ∃ n, (row.id - c.cursor).toNat = n := ⟨_, rfl⟩
  induction n using Nat.strongRecOn generalizing c with
  | ind n ih =>
    obtain ⟨p, hp, hcompleted⟩ := @forwardNewEvents_isPass env c h id none
    have hcompleted := hcompleted rfl
    have hstep : Trans.Step env.orgStep Trans.always c (env.forwardNewEvents id none c) :=
      ⟨.pass id none, trivial, if_pos henabled⟩
    by_cases hread : row ∈ c.table.pastCursor c.cursor
    · refine ⟨_, .single hstep, hp.storedBefore, p, by simp [hp.passes], ?_⟩
      rw [(hp.completes hcompleted).1]
      exact List.mem_map_of_mem (List.mem_filter.2 ⟨hread, hbears⟩)
    · -- then the pass is full and the row is beyond it
      have hmem : row ∈ c.table.rows.filter (c.cursor < ·.id) :=
        List.mem_filter.2 ⟨hrow, by simpa using hpast⟩
      have hfirst : ∀ r ∈ c.table.pastCursor c.cursor, r.id < row.id := by
        intro r hr
        by_contra hle
        rcases Int.lt_or_eq_of_le (Int.not_lt.1 hle) with hlt | heq
        · exact hread (mem_take_of_lt (h.ascending.filter _) hr hmem hlt)
        · obtain rfl := h.eq_of_id hrow (EventsTable.mem_of_mem_pastCursor hr).1 heq
          exact hread hr
      obtain ⟨r, hr⟩ : ∃ r, r ∈ c.table.pastCursor c.cursor := by
        refine List.exists_mem_of_ne_nil _ fun hnil => ?_
        rw [EventsTable.pastCursor, List.take_eq_nil_iff] at hnil
        rcases hnil with hnil | hnil
        · exact absurd hnil (by decide)
        · rw [hnil] at hmem
          cases hmem
      have hcursor := (hp.completes hcompleted).2
      have hgrown : r.id ≤ (env.forwardNewEvents id none c).cursor :=
        ((hcursor _).1 (Int.le_refl _)).2 r hr
      have hbelow : (env.forwardNewEvents id none c).cursor ≤ row.id - 1 :=
        (hcursor _).2 ⟨by omega, fun x hx => by have := hfirst x hx; omega⟩
      have hpastr := (EventsTable.mem_of_mem_pastCursor hr).2
      obtain ⟨c', hreach, hstored, hsent⟩ :=
        ih (row.id - (env.forwardNewEvents id none c).cursor).toNat (by omega) (hp.table ▸ h)
          (hp.storedBefore ▸ henabled) (hp.table ▸ hrow) (by omega) rfl
      exact ⟨c', .head hstep hreach, hstored.trans hp.storedBefore, hsent⟩

/-- **When the connector forwards just the later events**: no row with telemetry has a larger id
than the newest row of the table it is first enabled on. -/
theorem forwards_later_iff (env : OrgEnv) (events : List EventsRow) :
    (∀ c, Trans.Reach env.orgStep Trans.always (env.firstEnabled events) c →
      env.ForwardsLater c) ↔ env.SeedIsLast (.ofEvents env.toIngestEnv events) := by
  constructor
  · intro hall
    by_contra hseed
    have hne : (EventsTable.ofEvents env.toIngestEnv events).rows ≠ [] := fun hnil =>
      hseed fun newest hnewest => by simp [hnil] at hnewest
    obtain ⟨newest, hnewest, heq⟩ := firstEnabled_eq env hne
    rw [seedIsLast_iff env hnewest] at hseed
    push Not at hseed
    obtain ⟨row, hrow, hbears, hlt⟩ := hseed
    rw [heq] at hall
    obtain ⟨c, hreach, hstored, p, hp, hsent⟩ :=
      exists_sent (c := ⟨_, newest.id, some _, []⟩) (ordered_ofEvents _ events) rfl hrow hbears hlt
    exact (hall c hreach).later _ hstored p hp row hrow hsent
  · intro hseed c hreach
    exact (hreach.inv (I := Follows env _) (follows_firstEnabled hseed)
      fun c a c' hc _ ha => hc.step ha).forwards

/-! ### An older log is read after the live one -/

def spawnEnv : OrgEnv where
  toIngestEnv := plainEnv
  fromJson payload := if payload = "spawn" then some (.resolveSpawn ⟨"1", "", false⟩) else none

def orgRow (key time payload : String) : EventsRow where
  idempotencyKey := key
  eventType := payload
  timestamp := time
  raw := key
  payload := payload
  logSource := "live"
  sourceOffset := 0

/-- The row with telemetry is older than the one before it. -/
def readOutOfOrder : List EventsRow := [orgRow "a" "2" "join", orgRow "b" "1" "spawn"]

/-- The ids that were stored before, and those that each pass sent. -/
def shownIds (c : OrgConnector) : Option (List Int) × List (List Int) :=
  (c.storedBefore.map (·.map (·.id)), c.passes.map (·.ids))

/-- The spawn was there before, and is forwarded. -/
theorem forwards_stored_row :
    ¬ ∀ (env : OrgEnv) (events : List EventsRow) (c : OrgConnector),
      Trans.Reach env.orgStep Trans.always (env.firstEnabled events) c → env.ForwardsLater c := by
  intro h
  have hexec : (Trans.exec spawnEnv.orgStep Trans.always (spawnEnv.firstEnabled readOutOfOrder)
      [.pass id none]).map shownIds = some (some [1, 2], [[2]]) := by decide +kernel
  obtain ⟨c, hreach, hc⟩ := Trans.reach_of_map_exec _ hexec
  obtain ⟨hstored, hpasses⟩ := Prod.mk.inj hc
  obtain ⟨rows, hrows, hids⟩ := Option.map_eq_some_iff.1 hstored
  obtain ⟨row, hrow, hid⟩ : ∃ row ∈ rows, row.id = 2 :=
    List.mem_map.1 (hids ▸ (by decide : (2 : Int) ∈ [1, 2]))
  obtain ⟨p, hp, hsent⟩ : ∃ p ∈ c.passes, p.ids = [2] :=
    List.mem_map.1 (hpasses ▸ List.mem_singleton_self [2])
  refine (h spawnEnv readOutOfOrder c hreach).later rows hrows p hp row hrow ?_
  rw [hid, hsent]
  exact List.mem_singleton_self 2

end OrgEnv

end StarStats
