import StarStats.Core.Proof.ClockText
import StarStats.Lib.Stable
import StarStats.Server.EntityHistory
import StarStats.Server.Proof.SessionPages

/-!
# The entity list

`sessionCount_eq_derive`: the counts that the rebuild stores are those of the walk. Launch by
launch both count an entity that a row up to the `session_end` is tagged with (`tallied`).
`displayName_ok_iff`: an entity has the name it was last seen with exactly where the row with the
largest source offset knows it. `pages_complete`: the pages of the list have every entity once, as
RFC 3339 texts stand in the order of their instants (`Instant.toRfc3339_lt`).
-/

namespace StarStats.EntityRollup

open Islands
open Text (lower)
open EventTimeline (isInit isEnd withSessionOrd_eq keptRows_eq isInit_iff isEnd_iff isEnd_of_isInit)

/-! ## The entities of a launch -/

/-- The entities of the rows before the `session_end`. -/
def tallied (rows : List EventRow) : List String :=
  (rows.takeWhile (!isEnd ·)).filterMap (·.entityId?)

theorem filter_upTo_not {α : Type*} (stop : α → Bool) (l : List α) :
    (upTo stop l).filter (!stop ·) = l.takeWhile (!stop ·) := by
  induction l with
  | nil => rfl
  | cons x xs ih => cases hx : stop x <;> simp [upTo, hx, ih]

theorem sessionTally_eq (rows : List EventRow) : sessionTally (rows.zipIdx 1) = tallied rows := by
  have hkept : sessionTally (rows.zipIdx 1) =
      ((EventTimeline.keptRows (rows.zipIdx 1)).filter (!isEnd ·)).filterMap (·.entityId?) := by
    have hend : ∀ r : EventRow, (!isEnd r) = (r.eventType != "session_end") := fun r => by
      simp [isEnd, bne, Bool.beq_eq_decide_eq]
    rw [sessionTally, EventTimeline.keptRows, List.filter_map, List.filterMap_map,
      List.filter_filter]
    refine congrArg (List.filterMap _) (List.filter_congr fun r _ => ?_)
    simp only [Function.comp_apply, hend]
    exact Bool.and_comm _ _
  rw [hkept, keptRows_eq, filter_upTo_not, tallied]

theorem entitySessionCount_eq (rows : List EventRow) (id : String) :
    entitySessionCount rows id =
      ((islands isInit (orderByTimeKey (rows.filter (·.eventTimestamp.isSome)))).filter
        (id ∈ tallied ·)).length := by
  rw [← islands_of_number 0, List.filter_map, List.length_map, entitySessionCount]
  simp only [withSessionOrd_eq]
  refine congrArg List.length (List.filter_congr fun ord _ => ?_)
  rw [Function.comp, ← sessionTally_eq]
  rfl

/-! ## The walk -/

theorem tallied_end {r : EventRow} (h : isEnd r = true) (rows : List EventRow) :
    tallied (r :: rows) = [] := by
  rw [tallied, List.takeWhile_cons_of_neg (by simp [h])]
  rfl

theorem mem_tallied_cons {r : EventRow} (h : isEnd r = false) {rows : List EventRow}
    {id : String} : id ∈ tallied (r :: rows) ↔ r.entityId? = some id ∨ id ∈ tallied rows := by
  rw [tallied, List.takeWhile_cons_of_pos (by simp [h])]
  simp [tallied]

/-- The open session, with the rows up to the next launch, has the entity. -/
def Tallies (id : String) (tally : Option (List String)) (rows : List EventRow) : Prop :=
  ∃ ids ∈ tally, id ∈ ids ∨ id ∈ tallied (rows.takeWhile (!isInit ·))

instance (id : String) (tally : Option (List String)) (rows : List EventRow) :
    Decidable (Tallies id tally rows) :=
  match tally with
  | none => .isFalse fun h => by obtain ⟨_, h, _⟩ := h; cases h
  | some ids => decidable_of_iff (id ∈ ids ∨ id ∈ tallied (rows.takeWhile (!isInit ·)))
      ⟨fun h => ⟨ids, rfl, h⟩, fun h => by obtain ⟨_, ⟨⟩, h⟩ := h; exact h⟩

section
variable {id : String} {tally : Option (List String)} {counts : String → Nat} {r : EventRow}
  {rows : List EventRow}

theorem tallies_some {ids : List String} :
    Tallies id (some ids) rows ↔ id ∈ ids ∨ id ∈ tallied (rows.takeWhile (!isInit ·)) := by
  simp [Tallies]

theorem not_tallies_none : ¬ Tallies id none rows := by simp [Tallies]

/-- Nothing more comes to the open session. -/
theorem flushSession_eq (h : tallied (rows.takeWhile (!isInit ·)) = []) :
    flushSession tally counts id = counts id + if Tallies id tally rows then 1 else 0 := by
  cases tally with
  | none => rw [if_neg not_tallies_none]; rfl
  | some ids =>
    have hiff : Tallies id (some ids) rows ↔ id ∈ ids := by rw [tallies_some, h]; simp
    simp only [flushSession, hiff]
    split <;> rfl

/-- What the walk adds: the open session, and the launches behind it. -/
theorem walkSessions_eq :
    walkSessions tally counts rows id =
      counts id + (if Tallies id tally rows then 1 else 0) +
        ((islands isInit rows).filter (id ∈ tallied ·)).length := by
  induction rows generalizing tally counts with
  | nil => exact flushSession_eq rfl
  | cons r rs ih =>
    rw [walkSessions]
    cases hinit : isInit r with
    | true =>
      have hflush : flushSession tally counts id =
          counts id + if Tallies id tally (r :: rs) then 1 else 0 :=
        flushSession_eq (by rw [List.takeWhile_cons_of_neg (by simp [hinit])]; rfl)
      have hlaunch : Tallies id (some r.entityId?.toList) rs ↔
          id ∈ tallied (r :: rs.takeWhile (!isInit ·)) := by
        rw [tallies_some, mem_tallied_cons (isEnd_of_isInit hinit), Option.mem_toList]
      rw [if_pos (isInit_iff.1 hinit), ih, hflush, islands, if_pos hinit]
      by_cases hid : id ∈ tallied (r :: rs.takeWhile (!isInit ·))
      · rw [if_pos (hlaunch.2 hid), List.filter_cons_of_pos (by simpa using hid), List.length_cons]
        omega
      · rw [if_neg fun h => hid (hlaunch.1 h), List.filter_cons_of_neg (by simpa using hid),
          Nat.add_zero]
    | false =>
      have hrest : (r :: rs).takeWhile (!isInit ·) = r :: rs.takeWhile (!isInit ·) :=
        List.takeWhile_cons_of_pos (by simp [hinit])
      rw [if_neg (by simpa [isInit] using hinit), islands, hinit, if_neg Bool.false_ne_true]
      cases hend : isEnd r with
      | true =>
        have hflush : flushSession tally counts id =
            counts id + if Tallies id tally (r :: rs) then 1 else 0 :=
          flushSession_eq (by rw [hrest, tallied_end hend])
        rw [if_pos (isEnd_iff.1 hend), ih, hflush, if_neg not_tallies_none, Nat.add_zero]
      | false =>
        have hopen : Tallies id (tally.map (r.entityId?.toList ++ ·)) rs ↔
            Tallies id tally (r :: rs) := by
          cases tally with
          | none => exact iff_of_false not_tallies_none not_tallies_none
          | some ids =>
            rw [Option.map_some, tallies_some, tallies_some, hrest, mem_tallied_cons hend,
              List.mem_append, Option.mem_toList]
            tauto
        rw [if_neg (by simpa [isEnd] using hend), ih]
        simp only [hopen]

end

/-! ## Both -/

section
variable {handle : String} {events : List EventRow}

theorem deriveEntitySessionData_eq {rows : List EventRow} (id : String)
    (hcap : (rows.filter (·.eventTimestamp.isSome)).length ≤ sessionBoundsHardCap) :
    deriveEntitySessionData
        ((orderByTimeKey (rows.filter (·.eventTimestamp.isSome))).take sessionBoundsHardCap) id =
      entitySessionCount rows id := by
  have hlen : (orderByTimeKey (rows.filter (·.eventTimestamp.isSome))).length ≤
      sessionBoundsHardCap := by rwa [orderByTimeKey, List.length_insertionSort]
  have hsorted : orderByTimeKey (orderByTimeKey (rows.filter (·.eventTimestamp.isSome))) =
      orderByTimeKey (rows.filter (·.eventTimestamp.isSome)) :=
    (List.pairwise_insertionSort _ _).insertionSort_eq
  rw [List.take_of_length_le hlen, deriveEntitySessionData, hsorted, walkSessions_eq,
    if_neg not_tallies_none, Nat.zero_add, entitySessionCount_eq]

theorem exists_entityAggRow {r : EventRow} (hr : r ∈ events)
    (hown : r.claimedHandle = handle) {m : EventMetadata} (hm : r.metadata = some m) :
    ∃ row ∈ entityAggRows handle events,
      row.entityKind = m.primaryEntity.kind ∧ row.entityId = m.primaryEntity.id := by
  have hrows : r ∈ (events.filter (·.claimedHandle = handle)).filter (·.metadata.isSome) := by
    simp [hr, hown, hm]
  have hgroup := Sql.mem_groupBy (fun r : EventRow =>
    r.metadata.map fun m => (m.primaryEntity.kind, m.primaryEntity.id)) hrows
  rw [hm, Option.map_some] at hgroup
  exact ⟨_, List.mem_map_of_mem (List.mem_filterMap.2 ⟨_, hgroup, rfl⟩), rfl, rfl⟩

theorem sessionCount_of_mem {row : EntityAggRow} (h : row ∈ entityAggRows handle events) :
    row.sessionCount =
      entitySessionCount (events.filter (·.claimedHandle = handle)) row.entityId := by
  obtain ⟨g, -, rfl⟩ := List.mem_map.1 h
  rfl

/-- **The stored counts are those of the walk**, for every entity that a row of the handle is
tagged with. -/
theorem sessionCount_eq_derive
    (hcap : ((events.filter (·.claimedHandle = lower handle)).filter
      (·.eventTimestamp.isSome)).length ≤ sessionBoundsHardCap)
    {r : EventRow} (hr : r ∈ events) (hown : r.claimedHandle = lower handle) {m : EventMetadata}
    (hm : r.metadata = some m) :
    (∃ row ∈ entityAggRows (lower handle) events,
      row.entityKind = m.primaryEntity.kind ∧ row.entityId = m.primaryEntity.id) ∧
    ∀ row ∈ entityAggRows (lower handle) events, row.entityId = m.primaryEntity.id →
      row.sessionCount =
        deriveEntitySessionData (sessionBoundsRows handle events) m.primaryEntity.id := by
  refine ⟨exists_entityAggRow hr hown hm, fun row hrow hid => ?_⟩
  rw [sessionCount_of_mem hrow, hid]
  exact (deriveEntitySessionData_eq _ hcap).symm

end

/-- A row that is tagged with an entity. -/
def taggedRow (key eventType : String) (timestamp : Timestamp) (entity : EntityRef)
    (offset : Int64) : EventRow where
  idempotencyKey := key
  claimedHandle := "alice"
  eventType := eventType
  eventTimestamp := some timestamp
  logSource := .live
  sourceOffset := offset
  rawLine := ""
  payload := none
  metadata := some (.observed entity "")
  resolvedLocation := none
  receivedAt := 0
  hiddenAt := none

def gladius : EntityRef := ⟨.vehicle, "AEGS_Gladius_1", "Gladius"⟩

/-- A kill before the first launch, one in a launch that ends, one behind its end and one in the
next launch. -/
def gladiusKills : List EventRow :=
  [taggedRow "a" "actor_death" 1 gladius 0,
    taggedRow "b" "process_init" 2 ⟨.session, "s1", "s1"⟩ 0,
    taggedRow "c" "actor_death" 3 gladius 10,
    taggedRow "d" "session_end" 4 ⟨.session, "s1", "s1"⟩ 20,
    taggedRow "e" "actor_death" 5 gladius 30,
    taggedRow "f" "process_init" 6 ⟨.session, "s2", "s2"⟩ 0,
    taggedRow "g" "actor_death" 7 gladius 10]

theorem sessionCount_eq_derive_gladius :
    (∃ row ∈ entityAggRows (lower "Alice") gladiusKills,
      row.entityKind = .vehicle ∧ row.entityId = "AEGS_Gladius_1") ∧
    ∀ row ∈ entityAggRows (lower "Alice") gladiusKills, row.entityId = "AEGS_Gladius_1" →
      row.sessionCount =
        deriveEntitySessionData (sessionBoundsRows "Alice" gladiusKills) "AEGS_Gladius_1" :=
  sessionCount_eq_derive (r := taggedRow "a" "actor_death" 1 gladius 0) (by decide +kernel)
    (by decide +kernel) (by decide +kernel) rfl

example : entitySessionCount gladiusKills "AEGS_Gladius_1" = 2 := by decide

/-! ## The name of an entity -/

/-- The name that a row has for its entity. -/
def displayName (r : EventRow) : String :=
  (r.metadata.map (·.primaryEntity.displayName)).getD ""

/-- The time of `r` is not behind that of `r'`; a row without a time is before all others. -/
def NotAfter (r r' : EventRow) : Prop :=
  ∀ t ∈ r.eventTimestamp, ∃ t' ∈ r'.eventTimestamp, t ≤ t'

instance : DecidableRel NotAfter := fun r r' =>
  match hr : r.eventTimestamp, hr' : r'.eventTimestamp with
  | none, _ => .isTrue (by simp [NotAfter, hr])
  | some _, none => .isFalse (by simp [NotAfter, hr, hr'])
  | some t, some t' => decidable_of_iff (t ≤ t') (by simp [NotAfter, hr, hr'])

/-- What an entity of these rows should be shown as: the name of the latest row that has one, or
the id when none has. -/
def NamedByLatest (rows : List EventRow) (id name : String) : Prop :=
  (∃ r ∈ rows, displayName r = name ∧ name ≠ "" ∧
    ∀ r' ∈ rows, displayName r' ≠ "" → NotAfter r' r) ∨
  ((∀ r ∈ rows, displayName r = "") ∧ name = id)

instance (rows : List EventRow) (id name : String) : Decidable (NamedByLatest rows id name) :=
  inferInstanceAs (Decidable (_ ∨ _))

/-- The first row whose source offset no other exceeds. -/
def furthestRow (rows : List EventRow) : Option EventRow :=
  rows.find? fun r => rows.all (·.sourceOffset ≤ r.sourceOffset)

/-- A row has another name, and is later than all those with this one. -/
def Superseded (rows : List EventRow) (name : String) : Prop :=
  ∃ r ∈ rows, displayName r ≠ "" ∧ displayName r ≠ name ∧
    ∀ r' ∈ rows, displayName r' = name → ¬ NotAfter r r'

instance (rows : List EventRow) (name : String) : Decidable (Superseded rows name) :=
  inferInstanceAs (Decidable (∃ r ∈ rows, _))

/-- Offsets and times agree on the name: the row with the largest offset has one that is not
superseded. If it has none, then no row has, or the id is a name that is not superseded. -/
def OffsetsInStep (rows : List EventRow) (id : String) : Prop :=
  ∀ r ∈ furthestRow rows,
    (displayName r ≠ "" ∧ ¬ Superseded rows (displayName r)) ∨
    (displayName r = "" ∧ ((∀ r' ∈ rows, displayName r' = "") ∨
      (id ≠ "" ∧ (∃ r' ∈ rows, displayName r' = id) ∧ ¬ Superseded rows id)))

instance (rows : List EventRow) (id : String) : Decidable (OffsetsInStep rows id) :=
  inferInstanceAs (Decidable (∀ r ∈ furthestRow rows, _))

section
variable {r r' r'' : EventRow} {rows : List EventRow} {id name : String}

theorem NotAfter.refl (r : EventRow) : NotAfter r r := fun t ht => ⟨t, ht, Int.le_refl t⟩

theorem NotAfter.trans (h : NotAfter r r') (h' : NotAfter r' r'') : NotAfter r r'' := by
  intro t ht
  obtain ⟨t', ht', hle⟩ := h t ht
  obtain ⟨t'', ht'', hle'⟩ := h' t' ht'
  exact ⟨t'', ht'', hle.trans hle'⟩

theorem NotAfter.total (r r' : EventRow) : NotAfter r r' ∨ NotAfter r' r := by
  unfold NotAfter
  cases r.eventTimestamp with
  | none => simp
  | some t => cases r'.eventTimestamp <;> simp [Int.le_total]

/-- Of some rows one is the latest. -/
theorem exists_latest (h : rows ≠ []) : ∃ r ∈ rows, ∀ r' ∈ rows, NotAfter r' r := by
  induction rows with
  | nil => exact absurd rfl h
  | cons x xs ih =>
    by_cases hnil : xs = []
    · subst hnil
      exact ⟨x, by simp, by simp [NotAfter.refl]⟩
    · obtain ⟨r, hr, hlatest⟩ := ih hnil
      rcases NotAfter.total x r with hx | hx
      · exact ⟨r, List.mem_cons_of_mem _ hr, by simpa using ⟨hx, hlatest⟩⟩
      · exact ⟨x, List.mem_cons_self,
          by simpa [NotAfter.refl] using fun r' hr' => (hlatest r' hr').trans hx⟩

/-- A name is that of the latest named row when it is not superseded. -/
theorem latest_iff_not_superseded :
    (∃ r ∈ rows, displayName r = name ∧ ∀ r' ∈ rows, displayName r' ≠ "" → NotAfter r' r) ↔
      (∃ r ∈ rows, displayName r = name) ∧ ¬ Superseded rows name := by
  constructor
  · rintro ⟨r, hr, hname, hlatest⟩
    refine ⟨⟨r, hr, hname⟩, ?_⟩
    rintro ⟨r', hr', hne', -, hlater⟩
    exact hlater r hr hname (hlatest r' hr' hne')
  · rintro ⟨⟨r₀, hr₀, hname₀⟩, hnot⟩
    have hsome : rows.filter (displayName · = name) ≠ [] :=
      List.ne_nil_of_mem (List.mem_filter.2 ⟨hr₀, decide_eq_true hname₀⟩)
    obtain ⟨r, hr, hlatest⟩ := exists_latest hsome
    obtain ⟨hr, hname⟩ := List.mem_filter.1 hr
    refine ⟨r, hr, of_decide_eq_true hname, fun r' hr' hne' => ?_⟩
    by_contra hlater
    refine hnot ⟨r', hr', hne', fun hsame => hlater ?_, fun x hx hxname hle => hlater ?_⟩
    · exact hlatest r' (List.mem_filter.2 ⟨hr', decide_eq_true hsame⟩)
    · exact hle.trans (hlatest x (List.mem_filter.2 ⟨hx, decide_eq_true hxname⟩))

theorem furthestRow_eq_head (rows : List EventRow) :
    furthestRow rows = (rows.insertionSort fun a b => b.sourceOffset ≤ a.sourceOffset).head? :=
  (Stable.head?_insertionSort (r := fun a b : EventRow => b.sourceOffset ≤ a.sourceOffset)
    (fun _ _ _ h h' => Int64.le_trans h' h)
    (fun a b => Int64.le_total b.sourceOffset a.sourceOffset) rows).symm

theorem exists_furthestRow (h : rows ≠ []) : ∃ r ∈ rows, furthestRow rows = some r := by
  have hne : rows.insertionSort (fun a b => b.sourceOffset ≤ a.sourceOffset) ≠ [] := by
    rw [← List.length_pos_iff, List.length_insertionSort]
    exact List.length_pos_iff.2 h
  obtain ⟨r, rest, hsort⟩ := List.exists_cons_of_ne_nil hne
  have hfirst : furthestRow rows = some r := by rw [furthestRow_eq_head, hsort, List.head?_cons]
  exact ⟨r, List.mem_of_find?_eq_some hfirst, hfirst⟩

/-- The list shows the name of the row with the largest offset, or the id. -/
theorem shownName_eq (h : furthestRow rows = some r) :
    ((latestDisplayName rows).filter (· ≠ "")).getD id =
      if displayName r = "" then id else displayName r := by
  rw [furthestRow_eq_head] at h
  obtain ⟨rest, hsort⟩ := List.head?_eq_some_iff.1 h
  rw [latestDisplayName, hsort, displayName]
  dsimp only
  cases r.metadata with
  | none => rfl
  | some m =>
    by_cases hname : m.primaryEntity.displayName = ""
    · simp [Option.filter, hname]
    · simp [Option.filter, hname]

/-- **Where the list shows the right name**. -/
theorem namedByLatest_iff (hne : rows ≠ []) :
    NamedByLatest rows id (((latestDisplayName rows).filter (· ≠ "")).getD id) ↔
      OffsetsInStep rows id := by
  obtain ⟨r, hr, hfurthest⟩ := exists_furthestRow hne
  rw [shownName_eq hfurthest, OffsetsInStep, hfurthest]
  simp only [Option.mem_some_iff, forall_eq']
  by_cases hname : displayName r = ""
  · rw [if_pos hname, NamedByLatest]
    have hlatest := @latest_iff_not_superseded rows id
    grind
  · rw [if_neg hname, NamedByLatest]
    have hlatest := @latest_iff_not_superseded rows (displayName r)
    grind

end

theorem entityKindKey_inj {k k' : EntityKind} (h : entityKindKey k = entityKindKey k') :
    k = k' := by
  cases k <;> cases k' <;> first | rfl | exact absurd h (by decide)

/-- The groups of the query are the rows tagged with an entity. -/
theorem mem_entityGroups {handle : String} {events : List EventRow}
    {g : (EntityKind × String) × List EventRow}
    (hg : g ∈ entityGroups (events.filter (·.claimedHandle = lower handle))) :
    g.2 ≠ [] ∧ g.2 = events.filter (isTagged handle (entityKindKey g.1.1) g.1.2) := by
  obtain ⟨⟨key, rows⟩, hmem, hkey⟩ := List.mem_filterMap.1 hg
  obtain ⟨k, hk, rfl⟩ := Option.map_eq_some_iff.1 hkey
  obtain ⟨key', hkey', heq⟩ := List.mem_map.1 hmem
  obtain ⟨rfl, rfl⟩ := Prod.mk.inj heq
  dsimp only at hk ⊢
  subst hk
  obtain ⟨r, hr, hrkey⟩ := List.mem_map.1 (List.mem_dedup.1 hkey')
  refine ⟨List.ne_nil_of_mem (List.mem_filter.2 ⟨hr, decide_eq_true hrkey⟩), ?_⟩
  rw [List.filter_filter, List.filter_filter]
  refine List.filter_congr fun x _ => ?_
  rw [isTagged, Bool.eq_iff_iff]
  simp only [Bool.and_eq_true, decide_eq_true_eq]
  cases x.metadata with
  | none => simp
  | some m =>
    have hkind : entityKindKey m.primaryEntity.kind = entityKindKey k.1 ↔
        m.primaryEntity.kind = k.1 := ⟨entityKindKey_inj, congrArg _⟩
    obtain ⟨kind, id⟩ := k
    simp [hkind, and_comm]

/-- **Where an entity of the list is shown under the right name**. -/
theorem displayName_ok_iff (codec : Codec) (handle : String) (events : List EventRow)
    {e : EntitySummary} (he : e ∈ (entityRows handle events).map (entitySummary codec)) :
    NamedByLatest (events.filter (isTagged handle e.kind e.id)) e.id e.displayName ↔
      OffsetsInStep (events.filter (isTagged handle e.kind e.id)) e.id := by
  obtain ⟨row, hrow, rfl⟩ := List.mem_map.1 he
  obtain ⟨g, hg, rfl⟩ := List.mem_map.1 ((List.mem_insertionSort _).1 (List.mem_of_mem_take hrow))
  obtain ⟨hne, hrows⟩ := mem_entityGroups hg
  dsimp only [entitySummary]
  rw [← hrows]
  exact namedByLatest_iff hne

/-- A ship under its first name at the end of one file, and renamed at the beginning of the next. -/
def renamedGladius : List EventRow :=
  [taggedRow "a" "actor_death" 1 gladius 5000,
    taggedRow "b" "actor_death" 2 ⟨.vehicle, "AEGS_Gladius_1", "Gladius Valiant"⟩ 10]

/-- Times as `chrono` writes them, of the rows above, and no cursors. -/
def microsecondsCodec : Codec where
  toRfc3339 t := if t = 1 then "1970-01-01T00:00:00.000001+00:00"
    else "1970-01-01T00:00:00.000002+00:00"
  encodeBase64 := id
  decodeBase64 := some

/-- The same ship, whose new name is further in its file. -/
def namedInStep : List EventRow :=
  [taggedRow "a" "actor_death" 1 gladius 10,
    taggedRow "b" "actor_death" 2 ⟨.vehicle, "AEGS_Gladius_1", "Gladius Valiant"⟩ 5000]

theorem displayName_ok_renamed :
    NamedByLatest (namedInStep.filter (isTagged "Alice" "vehicle" "AEGS_Gladius_1"))
      "AEGS_Gladius_1" "Gladius Valiant" :=
  (displayName_ok_iff microsecondsCodec "Alice" namedInStep
    (e := ⟨"vehicle", "AEGS_Gladius_1", "Gladius Valiant", 2,
      some "1970-01-01T00:00:00.000001+00:00", some "1970-01-01T00:00:00.000002+00:00", 0⟩)
    (by decide)).2 (by decide)

theorem renamedGladius_keeps_old_name :
    ∃ e ∈ (entityRows "Alice" renamedGladius).map (entitySummary microsecondsCodec),
      e.displayName = "Gladius" ∧
      ¬ NamedByLatest (renamedGladius.filter (isTagged "Alice" e.kind e.id)) e.id
        e.displayName := by
  decide +kernel

/-! ## Times as text -/

/-- An instant of a four-digit year, to the nanosecond. -/
structure Instant extends UtcTime where
  nanos : Nat
  nanos_lt : nanos < 1000000000

/-- `SecondsFormat::AutoSi`: no digits, or as many threes of them as it takes. -/
def subSecond (nanos : Nat) : List Char :=
  if nanos = 0 then []
  else if nanos % 1000000 = 0 then '.' :: Text.padded 3 (nanos / 1000000)
  else if nanos % 1000 = 0 then '.' :: Text.padded 6 (nanos / 1000)
  else '.' :: Text.padded 9 nanos

namespace Instant

/-- The nanoseconds since the first of January 1970. -/
def time (t : Instant) : Int := t.unixSecs * 1000000000 + t.nanos

/-- `to_rfc3339` of a `DateTime<Utc>`. -/
def toRfc3339 (t : Instant) : String :=
  String.ofList (t.front 'T' ++ (subSecond t.nanos ++ "+00:00".toList))

end Instant

open Text (padded padded_lt length_padded append_lt_append Digits)

/-- The digits of a fraction without zeros at their end. -/
theorem subSecond_eq {n : Nat} (h : 0 < n) :
    ∃ d, subSecond n = '.' :: (padded 9 n).take d ∧ ∀ c ∈ (padded 9 n).drop d, c = '0' := by
  have hcut : ∀ k j, k + j = 9 → n % 10 ^ j = 0 →
      padded k (n / 10 ^ j) = (padded 9 n).take k ∧ ∀ c ∈ (padded 9 n).drop k, c = '0' := by
    intro k j hkj hdvd
    have hlen : (padded k (n / 10 ^ j)).length = k := length_padded _ _
    rw [← hkj, Text.padded_add]
    refine ⟨(List.take_left' hlen).symm, ?_⟩
    rw [List.drop_left' hlen]
    exact Text.padded_of_dvd hdvd
  rw [subSecond, if_neg (Nat.ne_of_gt h)]
  split
  case isTrue hmillis => exact ⟨3, congrArg _ (hcut 3 6 rfl hmillis).1, (hcut 3 6 rfl hmillis).2⟩
  case isFalse =>
    split
    case isTrue hmicros =>
      exact ⟨6, congrArg _ (hcut 6 3 rfl hmicros).1, (hcut 6 3 rfl hmicros).2⟩
    case isFalse => exact ⟨9, by rw [List.take_of_length_le (by rw [length_padded])],
        by rw [List.drop_of_length_le (by rw [length_padded])]; simp⟩

theorem digits_padded (k n : Nat) : Digits (padded k n) := by
  intro c hc
  have hdigit := Text.isDigit_of_mem_padded hc
  rw [Char.isDigit, Bool.and_eq_true, decide_eq_true_eq] at hdigit
  exact hdigit.1

/-- Fractions stand in order as text, since what follows them is before the digits and the dot. -/
theorem subSecond_lt {m n : Nat} (hn : n < 1000000000) (h : m < n) (s s' : List Char) :
    subSecond m ++ '+' :: s < subSecond n ++ '+' :: s' := by
  obtain ⟨j, hj, hzero⟩ := subSecond_eq (Nat.lt_of_le_of_lt (Nat.zero_le m) h)
  rw [hj]
  rcases Nat.eq_zero_or_pos m with rfl | hm
  · rw [subSecond, if_pos rfl, List.nil_append, List.cons_append]
    exact List.cons_lt_cons_iff.2 (.inl (by decide))
  · obtain ⟨i, hi, hzero'⟩ := subSecond_eq hm
    rw [hi, List.cons_append, List.cons_append]
    refine List.cons_lt_cons_iff.2 (.inr ⟨rfl, ?_⟩)
    exact Text.take_lt_take (by decide) (by rw [length_padded, length_padded]) (digits_padded _ _)
      (digits_padded _ _) hzero' hzero (padded_lt hn h)

/-! ### The calendar -/

/-- The order of two numbers, and of what comes behind them. -/
def Then (m n : Nat) (rest : Prop) : Prop := m < n ∨ m = n ∧ rest

/-- The parts of `t` come before those of `u`. -/
def PartsLt (t u : UtcTime) : Prop :=
  Then t.year u.year (Then t.month u.month (Then t.day u.day
    (Then t.hour u.hour (Then t.minute u.minute (t.second < u.second)))))

theorem field_lt {k m n : Nat} {c : Char} {s s' : List Char} {rest : Prop} (hn : n < 10 ^ k)
    (h : Then m n rest) (hrest : rest → s < s') : padded k m ++ c :: s < padded k n ++ c :: s' := by
  rw [append_lt_append (by rw [length_padded, length_padded])]
  rcases h with h | ⟨rfl, h⟩
  · exact .inl (padded_lt hn h)
  · exact .inr ⟨rfl, List.cons_lt_cons_iff.2 (.inr ⟨rfl, hrest h⟩)⟩

section
variable {t u : UtcTime}

theorem front_lt (h : PartsLt t u) : t.front 'T' < u.front 'T' := by
  have hmonth := u.month_le
  have hday := u.day_lt
  have hhour := u.hour_lt
  have hminute := u.minute_lt
  have hsecond := u.second_lt
  exact field_lt u.year_lt h fun h => field_lt (by omega) h fun h => field_lt (by omega) h fun h =>
    field_lt (by omega) h fun h => field_lt (by omega) h fun h => padded_lt (by omega) h

theorem unixSecs_lt (h : PartsLt t u) : t.unixSecs < u.unixSecs := by
  have hhour := t.hour_lt
  have hminute := t.minute_lt
  have hsecond := t.second_lt
  have hminute' := u.minute_lt
  have hsecond' := u.second_lt
  have hday : t.dayNumber < u.dayNumber ∨ t.dayNumber = u.dayNumber ∧
      Then t.hour u.hour (Then t.minute u.minute (t.second < u.second)) := by
    rcases h with hyear | ⟨hyear, hmonth | ⟨hmonth, hday | ⟨hday, h⟩⟩⟩
    · exact .inl (Calendar.Date.dayNumber_lt (.inl hyear))
    · exact .inl (Calendar.Date.dayNumber_lt (.inr ⟨hyear, .inl hmonth⟩))
    · exact .inl (Calendar.Date.dayNumber_lt (.inr ⟨hyear, .inr ⟨hmonth, hday⟩⟩))
    · exact .inr ⟨by rw [Calendar.Date.dayNumber, Calendar.Date.dayNumber, hyear, hmonth, hday], h⟩
  rw [UtcTime.unixSecs, UtcTime.unixSecs]
  rcases hday with hday | ⟨hday, hhour' | ⟨hhour', hminute'' | ⟨hminute'', hsecond''⟩⟩⟩ <;> omega

theorem parts_total (t u : UtcTime) : PartsLt t u ∨ PartsLt u t ∨ t = u := by
  have hthen : ∀ {m n : Nat} {rest rest' same : Prop}, (rest ∨ rest' ∨ same) →
      Then m n rest ∨ Then n m rest' ∨ m = n ∧ same := by
    intro m n rest rest' same h
    rcases Nat.lt_trichotomy m n with hlt | rfl | hlt
    · exact .inl (.inl hlt)
    · exact h.imp (fun h => .inr ⟨rfl, h⟩) (Or.imp (fun h => .inr ⟨rfl, h⟩) fun h => ⟨rfl, h⟩)
    · exact .inr (.inl (.inl hlt))
  have hparts := hthen (m := t.year) (n := u.year) (hthen (m := t.month) (n := u.month)
    (hthen (m := t.day) (n := u.day) (hthen (m := t.hour) (n := u.hour)
      (hthen (m := t.minute) (n := u.minute) (Nat.lt_trichotomy t.second u.second |>.imp_right
        Or.symm)))))
  refine hparts.imp_right (Or.imp_right ?_)
  rintro ⟨hyear, hmonth, hday, hhour, hminute, hsecond⟩
  obtain ⟨⟨⟩⟩ := t
  obtain ⟨⟨⟩⟩ := u
  simp_all

theorem length_front (t : UtcTime) : (t.front 'T').length = 19 := by
  simp [UtcTime.front, length_padded]

end

namespace Instant
variable {t u : Instant}

theorem lt_or_eq_of_unixSecs_le (h : t.unixSecs ≤ u.unixSecs) :
    PartsLt t.toUtcTime u.toUtcTime ∨ t.toUtcTime = u.toUtcTime := by
  rcases parts_total t.toUtcTime u.toUtcTime with h' | h' | h'
  · exact .inl h'
  · exact absurd (unixSecs_lt h') (Int.not_lt.2 h)
  · exact .inr h'

/-- The texts stand in the order of the instants. -/
theorem toRfc3339_lt (h : t.time < u.time) : t.toRfc3339 < u.toRfc3339 := by
  have hn := t.nanos_lt
  have hn' := u.nanos_lt
  have hsecs : t.unixSecs < u.unixSecs ∨ t.unixSecs = u.unixSecs ∧ t.nanos < u.nanos := by
    rw [time, time] at h
    omega
  simp only [toRfc3339, String.lt_iff_toList_lt, String.toList_ofList]
  rw [append_lt_append (by rw [length_front, length_front])]
  have hle : t.unixSecs ≤ u.unixSecs := by omega
  rcases lt_or_eq_of_unixSecs_le hle with hparts | hparts
  · exact .inl (front_lt hparts)
  · have hsame : t.unixSecs = u.unixSecs := by rw [hparts]
    have hzone : "+00:00".toList = '+' :: "00:00".toList := by decide
    refine .inr ⟨by rw [hparts], ?_⟩
    rw [hzone]
    exact subSecond_lt hn' (by omega) _ _

theorem eq_of_time_eq (h : t.time = u.time) : t = u := by
  have hn := t.nanos_lt
  have hn' := u.nanos_lt
  rw [time, time] at h
  have hnanos : t.nanos = u.nanos := by omega
  have hsecs : t.unixSecs = u.unixSecs := by omega
  rcases lt_or_eq_of_unixSecs_le (Int.le_of_eq hsecs) with hparts | hparts
  · exact absurd hsecs (Int.ne_of_lt (unixSecs_lt hparts))
  · cases t
    cases u
    simp_all

theorem toRfc3339_pos (t : Instant) : "" < t.toRfc3339 := by
  simp only [toRfc3339, String.lt_iff_toList_lt, String.toList_ofList]
  cases hcs : t.front 'T' with
  | nil => exact absurd (hcs ▸ length_front t.toUtcTime) (by decide)
  | cons c cs => exact List.nil_lt_cons c _

theorem mem_subSecond {n : Nat} {c : Char} (h : c ∈ subSecond n) : c = '.' ∨ c.isDigit = true := by
  rcases Nat.eq_zero_or_pos n with rfl | hn
  · rw [subSecond, if_pos rfl] at h
    cases h
  · obtain ⟨d, hd, -⟩ := subSecond_eq hn
    rw [hd] at h
    exact (List.mem_cons.1 h).imp_right fun h => Text.isDigit_of_mem_padded (List.mem_of_mem_take h)

theorem separator_not_mem (t : Instant) : '|' ∉ t.toRfc3339.toList := by
  rw [toRfc3339, String.toList_ofList, List.mem_append, List.mem_append]
  rintro (h | h | h)
  · rcases UtcTime.mem_front h with h | h | h | h <;> exact absurd h (by decide)
  · rcases mem_subSecond h with h | h <;> exact absurd h (by decide)
  · exact absurd h (by decide)

end Instant

/-! ## The pages -/

/-- What `list_entities` does with the list: the cursor, and then the limit. -/
def pageAfter (codec : Codec) (entities : List EntitySummary) (limit : Nat)
    (after : Option String) : EntitiesListResponse :=
  let rest := applyCursor codec entities after
  { entities := rest.take limit
    nextAfter :=
      if entities.length < entitiesListHardCap ∧ limit < rest.length then
        (rest.take limit).getLast?.map fun e => encodeCursor codec (e.lastSeen.getD "") e.kind e.id
      else none }

theorem entitiesPage_eq (codec : Codec) (handle : String) (after : Option String) (limit : Nat)
    (listed : List EntityRow) (db : Db) :
    entitiesPage codec handle after limit listed db =
      pageAfter codec (listed.map fun r => { entitySummary codec r with
        sessionCount := UInt32.ofNat (sessionCounts handle db r.id) }) limit after := by
  rw [pageAfter, List.length_map]
  rfl

/-- An entity, and when it was last seen. -/
structure Seen where
  entity : EntitySummary
  lastSeen : Option Instant

/-- The entity with the time as text. -/
def Seen.summary (s : Seen) : EntitySummary :=
  { s.entity with lastSeen := s.lastSeen.map Instant.toRfc3339 }

/-- The order of the list among those seen at one time. -/
def KeyLe (a b : EntitySummary) : Prop := a.kind < b.kind ∨ a.kind = b.kind ∧ a.id ≤ b.id

/-- `ORDER BY last_seen DESC NULLS LAST, kind, id`. -/
def Seen.NotBehind (a b : Seen) : Prop :=
  match a.lastSeen, b.lastSeen with
  | some s, some t => t.time < s.time ∨ t.time = s.time ∧ KeyLe a.entity b.entity
  | some _, none => True
  | none, some _ => False
  | none, none => KeyLe a.entity b.entity

/-- The same by the texts, without ties. -/
def TextBefore (a b : EntitySummary) : Prop :=
  b.lastSeen.getD "" < a.lastSeen.getD "" ∨ a.lastSeen.getD "" = b.lastSeen.getD "" ∧
    (a.kind < b.kind ∨ a.kind = b.kind ∧ a.id < b.id)

theorem textBefore_of_notBehind {a b : Seen} (h : a.NotBehind b)
    (hne : (a.entity.kind, a.entity.id) ≠ (b.entity.kind, b.entity.id)) :
    TextBefore a.summary b.summary := by
  have hkey : KeyLe a.entity b.entity → a.summary.kind < b.summary.kind ∨
      a.summary.kind = b.summary.kind ∧ a.summary.id < b.summary.id := by
    rintro (hkind | ⟨hkind, hid⟩)
    · exact .inl hkind
    · exact .inr ⟨hkind, lt_of_le_of_ne hid fun hid => hne (Prod.ext hkind hid)⟩
  unfold Seen.NotBehind at h
  cases hs : a.lastSeen with
  | none =>
    cases ht : b.lastSeen with
    | none =>
      rw [hs, ht] at h
      exact .inr ⟨by simp [Seen.summary, hs, ht], hkey h⟩
    | some t =>
      rw [hs, ht] at h
      exact h.elim
  | some s =>
    cases ht : b.lastSeen with
    | none => exact .inl (by simpa [Seen.summary, hs, ht] using s.toRfc3339_pos)
    | some t =>
      rw [hs, ht] at h
      rcases h with htime | ⟨htime, h⟩
      · exact .inl (by simpa [Seen.summary, hs, ht] using Instant.toRfc3339_lt htime)
      · exact .inr ⟨by simp [Seen.summary, hs, ht, Instant.eq_of_time_eq htime], hkey h⟩

/-! ### The cursor -/

theorem splitOnce_append {c : Char} {a : List Char} (h : c ∉ a) (b : List Char) :
    splitOnce c (a ++ c :: b) = some (a, b) := by
  induction a with
  | nil => simp [splitOnce]
  | cons d a ih =>
    obtain ⟨hd, ha⟩ := not_or.1 (mt List.mem_cons.2 h)
    rw [List.cons_append, splitOnce, if_neg (Ne.symm hd), ih ha]
    rfl

section
variable {codec : Codec}

theorem decodeCursor_encodeCursor
    (hbase64 : ∀ s, codec.decodeBase64 (codec.encodeBase64 s) = some s) {last kind : String}
    (hlast : '|' ∉ last.toList) (hkind : '|' ∉ kind.toList) (id : String) :
    decodeCursor codec (encodeCursor codec last kind id) = some (last, kind, id) := by
  have htext : (last ++ "|" ++ kind ++ "|" ++ id).toList =
      last.toList ++ '|' :: (kind.toList ++ '|' :: id.toList) := by
    simp [String.toList_append]
  rw [decodeCursor, encodeCursor, hbase64, Option.bind_eq_bind, Option.bind_some, htext,
    splitOnce_append hlast, Option.bind_eq_bind, Option.bind_some, splitOnce_append hkind]
  simp

/-- The cursor of an entity of the list. -/
def cursorOf (e : EntitySummary) : String × String × String := (e.lastSeen.getD "", e.kind, e.id)

theorem upToCursor_self (e : EntitySummary) : upToCursor (cursorOf e) e = true := by
  simp [upToCursor, cursorOf]

theorem upToCursor_of_before {a b : EntitySummary} (h : TextBefore a b) :
    upToCursor (cursorOf b) a = true ∧ upToCursor (cursorOf a) b = false := by
  unfold upToCursor cursorOf
  rcases h with hlast | ⟨hlast, hkind | ⟨hkind, hid⟩⟩
  · simp [hlast, not_lt_of_gt hlast]
  · simp [hlast, hkind, not_lt_of_gt hkind]
  · simp [hlast, hkind, hid, le_of_lt hid]

/-- Behind the cursor of an entity is what stands behind the entity. -/
theorem dropWhile_upToCursor {before rest : List EntitySummary} {e : EntitySummary}
    (hsorted : (before ++ e :: rest).Pairwise TextBefore) :
    (before ++ e :: rest).dropWhile (upToCursor (cursorOf e)) = rest := by
  obtain ⟨-, hrest, hcross⟩ := List.pairwise_append.1 hsorted
  have hbefore : ∀ a ∈ before, upToCursor (cursorOf e) a = true := fun a ha =>
    (upToCursor_of_before (hcross a ha e List.mem_cons_self)).1
  rw [List.dropWhile_append_of_pos hbefore, List.dropWhile_cons_of_pos (upToCursor_self e)]
  cases rest with
  | nil => rfl
  | cons a rest =>
    have ha := (upToCursor_of_before ((List.pairwise_cons.1 hrest).1 a List.mem_cons_self)).2
    exact List.dropWhile_cons_of_neg (by simp [ha])

/-- The pages from a cursor on have what is behind it. -/
theorem followed_from {entities : List EntitySummary} {limit : Nat}
    (hcap : entities.length < entitiesListHardCap) (hlimit : 1 ≤ limit)
    (hsorted : entities.Pairwise TextBefore)
    (hcursor : ∀ e ∈ entities,
      decodeCursor codec (encodeCursor codec (e.lastSeen.getD "") e.kind e.id) = some (cursorOf e))
    {before rest : List EntitySummary} (hsplit : entities = before ++ rest) {after : Option String}
    (hafter : applyCursor codec entities after = rest) :
    ∃ pages, Paging.Followed (pageAfter codec entities limit) (·.nextAfter) after pages ∧
      pages.flatMap (·.entities) = rest := by
  induction hn : rest.length using Nat.strongRecOn generalizing before rest after with
  | _ n ih =>
    subst hn
    by_cases hmore : limit < rest.length
    · obtain ⟨page, e, hpage⟩ : ∃ page e, rest.take limit = page ++ [e] := by
        have hne : rest.take limit ≠ [] := by
          rw [← List.length_pos_iff, List.length_take]
          omega
        exact ⟨_, _, (List.dropLast_append_getLast hne).symm⟩
      have hsplit' : entities = (before ++ page) ++ e :: rest.drop limit := by
        have hrest : rest = page ++ e :: rest.drop limit := by
          rw [List.append_cons, ← hpage, List.take_append_drop]
        rw [hsplit, List.append_assoc, ← hrest]
      have hnext : (pageAfter codec entities limit after).nextAfter =
          some (encodeCursor codec (e.lastSeen.getD "") e.kind e.id) := by
        rw [pageAfter, hafter]
        dsimp only
        rw [if_pos ⟨hcap, hmore⟩, hpage, List.getLast?_append, List.getLast?_singleton]
        rfl
      have hbehind : applyCursor codec entities
          (some (encodeCursor codec (e.lastSeen.getD "") e.kind e.id)) = rest.drop limit := by
        have he := hcursor e (by rw [hsplit']; simp)
        rw [applyCursor, Option.bind_some, he]
        dsimp only
        rw [hsplit'] at hsorted ⊢
        exact dropWhile_upToCursor hsorted
      obtain ⟨pages, hpages, hflat⟩ := ih (rest.drop limit).length
        (by rw [List.length_drop]; omega) (by rw [hsplit', List.append_cons]) hbehind rfl
      refine ⟨_, .more hnext hpages, ?_⟩
      rw [List.flatMap_cons, hflat, pageAfter, hafter, List.take_append_drop]
    · have hlast : (pageAfter codec entities limit after).nextAfter = none := by
        rw [pageAfter, hafter]
        exact if_neg fun h => hmore h.2
      refine ⟨_, .last hlast, ?_⟩
      rw [List.flatMap_singleton, pageAfter, hafter, List.take_of_length_le (Nat.not_lt.1 hmore)]

theorem separator_not_mem_entityKindKey (k : EntityKind) : '|' ∉ (entityKindKey k).toList := by
  cases k <;> decide

/-- **The pages have every entity once, in order**, and the last has no cursor. -/
theorem pages_complete (hbase64 : ∀ s, codec.decodeBase64 (codec.encodeBase64 s) = some s)
    {listed : List Seen} (hcap : listed.length < entitiesListHardCap)
    (hkind : ∀ s ∈ listed, ∃ k, s.entity.kind = entityKindKey k)
    (hdistinct : (listed.map fun s => (s.entity.kind, s.entity.id)).Nodup)
    (hsorted : listed.Pairwise Seen.NotBehind) {limit : Nat} (hlimit : 1 ≤ limit) :
    ∃ pages, Paging.Followed (pageAfter codec (listed.map Seen.summary) limit) (·.nextAfter)
        none pages ∧
      pages.flatMap (·.entities) = listed.map Seen.summary := by
  have hbefore : (listed.map Seen.summary).Pairwise TextBefore := by
    rw [List.pairwise_map]
    exact hsorted.imp₂ (fun a b h hne => textBefore_of_notBehind h hne)
      (List.pairwise_map.1 hdistinct)
  refine followed_from (by rwa [List.length_map]) hlimit hbefore ?_ (List.nil_append _).symm rfl
  intro e he
  obtain ⟨s, hs, rfl⟩ := List.mem_map.1 he
  obtain ⟨k, hk⟩ := hkind s hs
  refine decodeCursor_encodeCursor hbase64 ?_ ?_ _
  · cases ht : s.lastSeen with
    | none => simp [Seen.summary, ht]
    | some t => simpa [Seen.summary, ht] using t.separator_not_mem
  · rw [Seen.summary, hk]
    exact separator_not_mem_entityKindKey k

end

/-- A ship whose id has the separator in it, last seen half a second past a minute. -/
def seenGladius : Seen where
  entity := ⟨"vehicle", "a|b", "Gladius", 1, none, none, 1⟩
  lastSeen := some
    { year := 2026, month := 5, day := 1, hour := 18, minute := 46, second := 15, nanos := 500000000
      month_pos := by decide, month_le := by decide, day_pos := Nat.one_pos, day_le := by decide
      year_lt := by decide, hour_lt := by decide, minute_lt := by decide, second_lt := by decide
      nanos_lt := by decide }

/-- A shop of events without times. -/
def seenShop : Seen := ⟨⟨"shop", "x", "x", 1, none, none, 0⟩, none⟩

def gladiusCursor : String := "2026-05-01T18:46:15.500+00:00|vehicle|a|b"

def gladiusToken : String := "MjAyNi0wNS0wMVQxODo0NjoxNS41MDArMDA6MDB8dmVoaWNsZXxhfGI"

/-- `base64` on the cursor of the ship. -/
def gladiusCodec : Codec where
  toRfc3339 _ := "1970-01-01T00:00:00+00:00"
  encodeBase64 s := if s = gladiusCursor then gladiusToken else "~" ++ s
  decodeBase64 token :=
    if token = gladiusToken then some gladiusCursor
    else match token.toList with
      | '~' :: cs => some (String.ofList cs)
      | _ => none

theorem gladiusCodec_base64 (s : String) :
    gladiusCodec.decodeBase64 (gladiusCodec.encodeBase64 s) = some s := by
  by_cases hs : s = gladiusCursor
  · subst hs
    simp [gladiusCodec]
  · have htoken : "~" ++ s ≠ gladiusToken := by
      intro h
      have hhead := congrArg (fun t => t.toList.head?) h
      simp [gladiusToken] at hhead
    simp [gladiusCodec, hs, htoken]

theorem pages_complete_gladius :
    ∃ pages, Paging.Followed (pageAfter gladiusCodec ([seenGladius, seenShop].map Seen.summary) 1)
        (·.nextAfter) none pages ∧
      pages.flatMap (·.entities) = [seenGladius, seenShop].map Seen.summary :=
  pages_complete gladiusCodec_base64
    (by decide : [seenGladius, seenShop].length < entitiesListHardCap)
    (by
      intro s hs
      simp only [List.mem_cons, List.not_mem_nil, or_false] at hs
      rcases hs with rfl | rfl
      · exact ⟨.vehicle, rfl⟩
      · exact ⟨.shop, rfl⟩)
    (by decide) (by simp [seenGladius, seenShop, Seen.NotBehind]) (by decide)

example : (pageAfter gladiusCodec ([seenGladius, seenShop].map Seen.summary) 1 none).nextAfter =
    some gladiusToken := by decide

end StarStats.EntityRollup
