import Mathlib.Data.List.MinMax
import Mathlib.Data.Prod.Lex
import StarStats.Client.Proof.Storage
import StarStats.Client.Search

/-!
# The migration to content keys (`starstats-client/src/storage.rs` `migrate_events_content_key`)

A table of before the unique index has any number of copies of an event. The migration deletes all
but the first in the order `(sent_at IS NULL, id)` and then gives the survivors their keys.

* `mem_collapsed_iff`: a copy survives when no other comes before it.
* `keepsDelivered_iff`: the survivors are the right ones exactly when a quarantined copy never comes
  before a delivered one, nor stands beside unsent copies alone.
-/

namespace StarStats.Migration

/-- A row of `events` that may not have its key yet. -/
structure StoredEvent extends EventsRow where
  id : Int
  metadata : Option String
  sentAt : Option String
  contentKey : Option String
  deriving DecidableEq

/-- The table, and whether `idx_events_content_key` is there and unique. -/
structure EventsDb where
  rows : List StoredEvent
  uniqueIndex : Bool
  deriving DecidableEq

/-! ## The statements -/

/-- `ORDER BY (sent_at IS NULL), id`. -/
def copyOrder (r : StoredEvent) : Bool ×ₗ Int := toLex (r.sentAt.isNone, r.id)

/-- `ROW_NUMBER() OVER (PARTITION BY type, timestamp, raw, payload ORDER BY …)`. -/
def rowNumber (rows : List StoredEvent) (r : StoredEvent) : Nat :=
  (rows.filter fun c => c.SameContent r.toEventsRow ∧ copyOrder c < copyOrder r).length + 1

/-- `DELETE FROM events WHERE id IN (… rn > 1)`. -/
def collapse (rows : List StoredEvent) : List StoredEvent :=
  let removed := (rows.filter (1 < rowNumber rows ·)).map (·.id)
  rows.filter (·.id ∉ removed)

/-- The `UPDATE` of the rows without a key. -/
def backfill (env : IngestEnv) (rows : List StoredEvent) : List StoredEvent :=
  rows.map fun r => { r with contentKey := r.contentKey.or (some (env.contentKey r.toEventsRow)) }

/-- `migrate_events_content_key`; over two equal keys the index cannot be built. -/
def migrateEventsContentKey (env : IngestEnv) (db : EventsDb) : EventsDb :=
  if db.uniqueIndex then db
  else
    let rows := backfill env (collapse db.rows)
    ⟨rows, decide (rows.map (·.contentKey)).Nodup⟩

/-! ## Copies -/

/-- The row was uploaded. -/
def Delivered (r : StoredEvent) : Prop := SearchEnv.syncedFromSentAt r.sentAt = true

instance : DecidablePred Delivered := fun _ => inferInstanceAs (Decidable (_ = true))

/-- The server refused the row. -/
def Quarantined (r : StoredEvent) : Prop := r.sentAt.isSome ∧ ¬ Delivered r

instance : DecidablePred Quarantined := fun _ => inferInstanceAs (Decidable (_ ∧ _))

/-- A table of before the index: what has a key already has its own. -/
structure LegacyEvents (env : IngestEnv) extends EventsDb where
  legacy : uniqueIndex = false
  ids : (rows.map (·.id)).Nodup
  keyed : ∀ r ∈ rows, ∀ k ∈ r.contentKey, k = env.contentKey r.toEventsRow

/-- What the migration is for. -/
structure KeepsDelivered (env : IngestEnv) (before after : List StoredEvent) : Prop where
  /-- Every event has exactly one row. -/
  one : ∀ r ∈ before, (after.filter fun s => s.SameContent r.toEventsRow).length = 1
  stored : ∀ s ∈ after, ∃ r ∈ before, s = { r with contentKey := s.contentKey }
  keyed : ∀ s ∈ after, s.contentKey = some (env.contentKey s.toEventsRow)
  delivered : ∀ r ∈ before, Delivered r → ∀ s ∈ after, s.SameContent r.toEventsRow → Delivered s
  unsent : ∀ r ∈ before, r.sentAt = none →
    (∀ c ∈ before, c.SameContent r.toEventsRow → ¬ Delivered c) →
    ∀ s ∈ after, s.SameContent r.toEventsRow → s.sentAt = none

/-- Before a quarantined copy comes a delivered one, or all copies are quarantined. -/
def DeliveredFirst (rows : List StoredEvent) : Prop :=
  ∀ q ∈ rows, Quarantined q →
    (∃ r ∈ rows, r.SameContent q.toEventsRow ∧ Delivered r ∧ r.id < q.id) ∨
      ∀ r ∈ rows, r.SameContent q.toEventsRow → Quarantined r

instance (rows : List StoredEvent) : Decidable (DeliveredFirst rows) :=
  inferInstanceAs (Decidable (∀ _ ∈ _, _ → _))

theorem sameContent_trans {a b c : EventsRow} (hab : a.SameContent b) (hbc : b.SameContent c) :
    a.SameContent c := ⟨hab.1.trans hbc.1, hab.2.trans hbc.2⟩

theorem sameContent_symm {a b : EventsRow} (h : a.SameContent b) : b.SameContent a :=
  ⟨h.1.symm, h.2.symm⟩

theorem Delivered.isSome {r : StoredEvent} (h : Delivered r) : r.sentAt.isSome = true := by
  unfold Delivered SearchEnv.syncedFromSentAt at h
  cases hs : r.sentAt with
  | none => rw [hs] at h; cases h
  | some s => rfl

/-- A row is unsent, delivered or quarantined. -/
theorem unsent_or (r : StoredEvent) : r.sentAt = none ∨ Delivered r ∨ Quarantined r := by
  cases hs : r.sentAt with
  | none => exact .inl rfl
  | some s =>
    by_cases hd : Delivered r
    · exact .inr (.inl hd)
    · exact .inr (.inr ⟨by rw [hs]; rfl, hd⟩)

/-! ## The survivors -/

section
variable {rows : List StoredEvent} (hids : (rows.map (·.id)).Nodup)
include hids

theorem eq_of_id {r c : StoredEvent} (hr : r ∈ rows) (hc : c ∈ rows) (h : r.id = c.id) : r = c :=
  List.inj_on_of_nodup_map hids hr hc h

/-- A copy survives when no other comes before it. -/
theorem mem_collapsed_iff {r : StoredEvent} :
    r ∈ collapse rows ↔
      r ∈ rows ∧ ∀ c ∈ rows, c.SameContent r.toEventsRow → copyOrder r ≤ copyOrder c := by
  have hfirst : ¬ 1 < rowNumber rows r ↔
      ∀ c ∈ rows, c.SameContent r.toEventsRow → copyOrder r ≤ copyOrder c := by
    rw [rowNumber, Nat.lt_add_left_iff_pos, List.length_pos_iff, not_not, List.filter_eq_nil_iff]
    simp only [decide_eq_true_eq, not_and, not_lt]
  rw [collapse, List.mem_filter, ← hfirst]
  refine and_congr_right fun hr => ?_
  simp only [List.mem_map, List.mem_filter, decide_eq_true_eq, not_exists, not_and, and_imp]
  constructor
  · exact fun h hn => h r hr hn rfl
  · intro h c hc hn hid
    exact h (eq_of_id hids hc hr hid ▸ hn)

theorem exists_survivor {r : StoredEvent} (hr : r ∈ rows) :
    ∃ s ∈ collapse rows, s.SameContent r.toEventsRow := by
  have hmem : r ∈ rows.filter fun c => c.SameContent r.toEventsRow :=
    List.mem_filter.2 ⟨hr, by simp [EventsRow.SameContent]⟩
  obtain ⟨s, hs⟩ : ∃ s,
      (rows.filter fun c => c.SameContent r.toEventsRow).argmin copyOrder = some s :=
    Option.ne_none_iff_exists'.1 fun h => by
      rw [List.argmin_eq_none.1 h] at hmem
      cases hmem
  obtain ⟨hsr, hsame⟩ := List.mem_filter.1 (List.argmin_mem hs)
  have hsame : s.SameContent r.toEventsRow := by simpa using hsame
  refine ⟨s, (mem_collapsed_iff hids).2 ⟨hsr, fun c hc hcs => ?_⟩, hsame⟩
  exact List.le_of_mem_argmin
    (List.mem_filter.2 ⟨hc, by simpa using sameContent_trans hcs hsame⟩) hs

/-- Two survivors are not copies of one event. -/
theorem survivor_unique {r s : StoredEvent} (hr : r ∈ collapse rows) (hs : s ∈ collapse rows)
    (h : s.SameContent r.toEventsRow) : s = r := by
  obtain ⟨hr, hrmin⟩ := (mem_collapsed_iff hids).1 hr
  obtain ⟨hs, hsmin⟩ := (mem_collapsed_iff hids).1 hs
  have heq := le_antisymm (hrmin s hs h) (hsmin r hr (sameContent_symm h))
  exact eq_of_id hids hs hr (congrArg (fun k => (ofLex k).2) heq).symm

theorem length_survivors {r : StoredEvent} (hr : r ∈ rows) :
    ((collapse rows).filter fun s => s.SameContent r.toEventsRow).length = 1 := by
  obtain ⟨s, hs, hsr⟩ := exists_survivor hids hr
  have hnodup : ((collapse rows).filter fun s => s.SameContent r.toEventsRow).Nodup :=
    ((hids.of_map).filter _).filter _
  rw [List.length_eq_one_iff]
  refine ⟨s, List.perm_singleton.1 ((List.perm_ext_iff_of_nodup hnodup (List.nodup_singleton s)).2
    fun t => ?_)⟩
  rw [List.mem_filter, List.mem_singleton, decide_eq_true_eq]
  constructor
  · rintro ⟨ht, htr⟩
    exact survivor_unique hids hs ht (sameContent_trans htr (sameContent_symm hsr))
  · rintro rfl
    exact ⟨hs, hsr⟩

/-- The survivor of a row that is not unsent is not either, and has no larger id. -/
theorem survivor_sent {r s : StoredEvent} (hr : r ∈ rows) (hs : s ∈ collapse rows)
    (h : s.SameContent r.toEventsRow) (hsent : r.sentAt.isSome = true) :
    s.sentAt.isSome = true ∧ s.id ≤ r.id := by
  have hle := ((mem_collapsed_iff hids).1 hs).2 r hr (sameContent_symm h)
  have hnone : r.sentAt.isNone = false := by cases hn : r.sentAt <;> simp_all
  rw [copyOrder, copyOrder, Prod.Lex.toLex_le_toLex, hnone] at hle
  rcases hle with hlt | ⟨heq, hid⟩
  · exact absurd hlt (not_lt.2 (Bool.false_le _))
  · exact ⟨by cases hn : s.sentAt <;> simp_all, hid⟩

end

/-! ## The migration -/

section
variable (env : IngestEnv)

theorem mem_backfill {rows : List StoredEvent} {s : StoredEvent} :
    s ∈ backfill env rows ↔ ∃ r ∈ rows,
      s = { r with contentKey := r.contentKey.or (some (env.contentKey r.toEventsRow)) } := by
  simp only [backfill, List.mem_map, eq_comm]

variable (t : LegacyEvents env)

theorem migrated_rows :
    (migrateEventsContentKey env t.toEventsDb).rows = backfill env (collapse t.rows) := by
  rw [migrateEventsContentKey, if_neg (by rw [t.legacy]; exact Bool.false_ne_true)]

/-- The migration leaves a delivered copy of what was delivered, and else an unsent one of what was
not sent, exactly when no quarantined copy comes before these. -/
theorem keepsDelivered_iff :
    KeepsDelivered env t.rows (migrateEventsContentKey env t.toEventsDb).rows ↔
      DeliveredFirst t.rows := by
  rw [migrated_rows]
  have hsurvivor : ∀ {s : StoredEvent}, s ∈ backfill env (collapse t.rows) → ∃ r ∈ collapse t.rows,
      s = { r with contentKey := r.contentKey.or (some (env.contentKey r.toEventsRow)) } :=
    fun h => (mem_backfill env).1 h
  constructor
  · intro h q hq hquar
    obtain ⟨r, hr, hrq⟩ := exists_survivor t.ids hq
    have hrows := ((mem_collapsed_iff t.ids).1 hr).1
    have hafter := (mem_backfill env).2 ⟨r, hr, rfl⟩
    obtain ⟨hsome, hid⟩ := survivor_sent t.ids hq hr hrq hquar.1
    rcases unsent_or r with hnone | hdel | hrquar
    · rw [hnone] at hsome
      cases hsome
    · refine .inl ⟨r, hrows, hrq, hdel, lt_of_le_of_ne hid fun heq => ?_⟩
      exact hquar.2 (eq_of_id t.ids hrows hq heq ▸ hdel)
    · -- a survivor in quarantine leaves nothing delivered and nothing unsent
      have hnone : ∀ c ∈ t.rows, c.SameContent q.toEventsRow → ¬ Delivered c := by
        intro c hc hcq hdel
        have := h.delivered c hc hdel _ hafter (sameContent_trans hrq (sameContent_symm hcq))
        exact hrquar.2 this
      refine .inr fun c hc hcq => ?_
      rcases unsent_or c with hun | hdel | hquar'
      · have := h.unsent c hc hun (fun c' hc' hcc' => hnone c' hc' (sameContent_trans hcc' hcq)) _
          hafter (sameContent_trans hrq (sameContent_symm hcq))
        rw [show r.sentAt = none from this] at hsome
        cases hsome
      · exact absurd hdel (hnone c hc hcq)
      · exact hquar'
  · intro h
    refine ⟨fun r hr => ?_, fun s hs => ?_, fun s hs => ?_, fun r hr hdel s hs hsr => ?_,
      fun r hr hun hnone s hs hsr => ?_⟩
    · rw [backfill, List.filter_map, List.length_map]
      exact length_survivors t.ids hr
    · obtain ⟨r, hr, rfl⟩ := hsurvivor hs
      exact ⟨r, ((mem_collapsed_iff t.ids).1 hr).1, rfl⟩
    · obtain ⟨r, hr, rfl⟩ := hsurvivor hs
      cases hk : r.contentKey with
      | none => rfl
      | some k => exact congrArg some (t.keyed r ((mem_collapsed_iff t.ids).1 hr).1 k hk)
    · obtain ⟨c, hc, rfl⟩ := hsurvivor hs
      have hcr : c.SameContent r.toEventsRow := hsr
      have hrows := ((mem_collapsed_iff t.ids).1 hc).1
      obtain ⟨hsome, -⟩ := survivor_sent t.ids hr hc hcr hdel.isSome
      by_contra hcd
      rcases h c hrows ⟨hsome, hcd⟩ with ⟨d, hd, hdc, hdd, hlt⟩ | hall
      · have hle := (survivor_sent t.ids hd hc (sameContent_symm hdc) hdd.isSome).2
        omega
      · exact (hall r hr (sameContent_symm hcr)).2 hdel
    · obtain ⟨c, hc, rfl⟩ := hsurvivor hs
      have hcr : c.SameContent r.toEventsRow := hsr
      have hrows := ((mem_collapsed_iff t.ids).1 hc).1
      rcases unsent_or c with hcu | hcd | hcq
      · exact hcu
      · exact absurd hcd (hnone c hrows hcr)
      · rcases h c hrows hcq with ⟨d, hd, hdc, hdd, -⟩ | hall
        · exact absurd hdd (hnone d hd (sameContent_trans hdc hcr))
        · have := (hall r hr (sameContent_symm hcr)).1
          rw [hun] at this
          cases this

end

/-! ### A copy the server refused -/

def copyOf (key : String) (id : Int) (sentAt : Option String) : StoredEvent where
  toEventsRow := readRow key "player_death"
  id := id
  metadata := none
  sentAt := sentAt
  contentKey := none

/-- The first copy was refused, the second was sent. -/
def refusedFirst : LegacyEvents plainEnv where
  rows := [copyOf "k-live" 1 (some "__quarantined_2026-06-12 03:00:00"),
    copyOf "k-backup" 2 (some "2026-06-12 03:05:00")]
  uniqueIndex := false
  legacy := rfl
  ids := by decide
  keyed := by simp [copyOf]

theorem refused_copy_survives :
    ¬ ∀ env : IngestEnv, ∀ t : LegacyEvents env,
      KeepsDelivered env t.rows (migrateEventsContentKey env t.toEventsDb).rows := by
  intro h
  have hone : (migrateEventsContentKey plainEnv refusedFirst.toEventsDb).rows.head?.any (fun s =>
      decide (s.SameContent (readRow "k-backup" "player_death") ∧ ¬ Delivered s)) = true := by
    decide +kernel
  obtain ⟨s, hs, hbad⟩ := (Option.any_eq_true _ _).1 hone
  obtain ⟨hsame, hnot⟩ := of_decide_eq_true hbad
  exact hnot ((h plainEnv refusedFirst).delivered (copyOf "k-backup" 2 (some "2026-06-12 03:05:00"))
    (.tail _ (.head _)) (by decide +kernel) s (List.mem_of_mem_head? hs) hsame)

end StarStats.Migration
