import StarStats.Lib.Paging
import StarStats.Server.EntityHistory
import StarStats.Server.EventTimeline

/-!
# The pages of the event lists

`pages_complete_iff`: the pages of a session, and those of an entity, have each event once exactly
when behind each row that ends a full page are just the rows with larger keys. The cursor is a key,
and the lists are in another order.
-/

namespace StarStats.EventTimeline

open EntityRollup (orderByOffsetKey entityEvents entityEventRows entityHistoryPage isTagged)
open Paging (Followed)

/-! ## Keys -/

/-- The cursor of both endpoints: the last key of a full page. -/
def keyScheme (limit : Nat) : Paging.Scheme EventRow String where
  limit := limit
  key := (·.idempotencyKey)
  cursor p := if limit ≤ p.length then p.getLast?.map (·.idempotencyKey) else none

theorem keyScheme_sound {limit : Nat} (h : 0 < limit) : (keyScheme limit).Sound where
  limit_pos := h
  key_of_cursor := by
    intro p c hc
    simp only [keyScheme] at hc
    split at hc
    case isTrue =>
      obtain ⟨r, hr, rfl⟩ := Option.map_eq_some_iff.1 hc
      exact ⟨r, List.mem_of_getLast? hr, rfl⟩
    case isFalse => cases hc
  full := by
    intro p hp
    have hne : p ≠ [] := by
      rintro rfl
      exact absurd hp.symm (Nat.ne_of_gt h)
    have hfull : limit ≤ p.length := Nat.le_of_eq hp.symm
    simp [keyScheme, hfull, hne]

/-- The cursor of a block is the key of its last row. -/
theorem cursor_block {limit : Nat} (h : 0 < limit) (rows : List EventRow) (k : Nat) :
    (keyScheme limit).cursor ((keyScheme limit).block rows k) =
      rows[(k + 1) * limit - 1]?.map (·.idempotencyKey) := by
  have hmul : (k + 1) * limit = k * limit + limit := Nat.succ_mul k limit
  simp only [keyScheme, Paging.Scheme.block]
  split
  case isTrue hfull =>
    rw [List.length_take, List.length_drop] at hfull
    rw [List.getLast?_eq_getElem?, List.length_take, List.length_drop,
      Nat.min_eq_left (by omega), List.getElem?_take_of_lt (by omega), List.getElem?_drop]
    congr 2
    omega
  case isFalse hshort =>
    rw [List.length_take, List.length_drop] at hshort
    rw [List.getElem?_eq_none (by omega), Option.map_none]

theorem splits_iff_cursorsSplit {limit : Nat} (h : 0 < limit) {rows : List EventRow}
    (hnodup : rows.Nodup) : (keyScheme limit).Splits rows ↔ CursorsSplit limit rows := by
  rw [Paging.Scheme.splits_iff (keyScheme_sound h) hnodup]
  simp only [cursor_block h, Option.map_eq_some_iff]
  constructor
  · intro hsplits k r hr
    exact hsplits k r.idempotencyKey ⟨r, hr, rfl⟩
  · rintro hsplits k c ⟨r, hr, rfl⟩
    exact hsplits k r hr

/-! ## Rows -/

/-- By a number, then by key. -/
def orderBy (rank : EventRow → Int) (rows : List EventRow) : List EventRow :=
  rows.insertionSort fun a b =>
    rank a < rank b ∨ (rank a = rank b ∧ a.idempotencyKey ≤ b.idempotencyKey)

theorem nodup_of_keys {rows : List EventRow} (hkeys : (rows.map (·.idempotencyKey)).Nodup) :
    rows.Nodup := hkeys.of_map _

section
variable {rank : EventRow → Int} {rows : List EventRow}

theorem orderBy_perm (rank : EventRow → Int) (rows : List EventRow) :
    (orderBy rank rows).Perm rows := List.perm_insertionSort _ _

theorem notAfter_iff {a b : EventRow} :
    (rank a < rank b ∨ (rank a = rank b ∧ a.idempotencyKey ≤ b.idempotencyKey)) ↔
      toLex (rank a, a.idempotencyKey) ≤ toLex (rank b, b.idempotencyKey) := by
  rw [Prod.Lex.toLex_le_toLex]

instance : Std.Total fun a b : EventRow =>
    rank a < rank b ∨ (rank a = rank b ∧ a.idempotencyKey ≤ b.idempotencyKey) where
  total a b := by
    rw [notAfter_iff, notAfter_iff]
    exact le_total _ _

instance : IsTrans EventRow fun a b =>
    rank a < rank b ∨ (rank a = rank b ∧ a.idempotencyKey ≤ b.idempotencyKey) where
  trans a b c hab hbc := by
    rw [notAfter_iff] at hab hbc ⊢
    exact hab.trans hbc

theorem orderBy_sorted (rank : EventRow → Int) (rows : List EventRow) :
    (orderBy rank rows).Pairwise fun a b =>
      toLex (rank a, a.idempotencyKey) ≤ toLex (rank b, b.idempotencyKey) := by
  refine (List.pairwise_insertionSort _ rows).imp ?_
  intro a b hab
  exact notAfter_iff.1 hab

theorem orderBy_filter (rank : EventRow → Int) (hkeys : (rows.map (·.idempotencyKey)).Nodup) (p : EventRow → Bool) :
    orderBy rank (rows.filter p) = (orderBy rank rows).filter p := by
  refine Paging.insertionSort_filter (fun x hx y hy hxy hyx => ?_) p
  rw [notAfter_iff] at hxy hyx
  exact List.inj_on_of_nodup_map hkeys hx hy
    (Prod.ext_iff.1 (toLex.injective (le_antisymm hxy hyx))).2

/-- The rows behind a cursor, in order, are a page of all rows in order. -/
theorem orderBy_page (rank : EventRow → Int) (hkeys : (rows.map (·.idempotencyKey)).Nodup) (limit : Nat)
    (after : Option String) :
    (orderBy rank (rows.filter fun r => after.all (· < r.idempotencyKey))).take limit =
      (keyScheme limit).page (orderBy rank rows) after := by
  rw [orderBy_filter rank hkeys]
  rfl

/-! ## Answers -/

variable {π : Type} {limit : Nat} {fetch : Option String → π} {next : π → Option String}
  {contents : π → List EventEnvelope} {toEnvelope : EventRow → EventEnvelope}

/-- The answers hold the pages of the rows in order. -/
structure Answers (limit : Nat) (rows : List EventRow) (toEnvelope : EventRow → EventEnvelope)
    (fetch : Option String → π) (next : π → Option String) (contents : π → List EventEnvelope) :
    Prop where
  next_eq : ∀ c, next (fetch c) = (keyScheme limit).cursor ((keyScheme limit).page rows c)
  contents_eq : ∀ c, contents (fetch c) = ((keyScheme limit).page rows c).map toEnvelope

theorem Answers.followed (h : Answers limit rows toEnvelope fetch next contents) {answers : List π}
    (hf : Followed fetch next none answers) :
    ∃ pages, Followed ((keyScheme limit).page rows) (keyScheme limit).cursor none pages ∧
      answers.flatMap contents = pages.flatten.map toEnvelope := by
  have hread : ∀ c, List.map toEnvelope ((keyScheme limit).page rows c) = contents (fetch c) :=
    fun c => (h.contents_eq c).symm
  obtain ⟨pages, hpages, heq⟩ := hf.transfer (fun c => (h.next_eq c).symm) hread
  exact ⟨pages, hpages, by rw [List.flatMap_def, ← heq, List.map_flatten]⟩

theorem Answers.complete_of_split (h : Answers limit rows toEnvelope fetch next contents)
    (hlimit : 0 < limit) (hnodup : rows.Nodup) (hsplit : CursorsSplit limit rows) :
    ∃ answers, Followed fetch next none answers ∧
      answers.flatMap contents = rows.map toEnvelope := by
  obtain ⟨pages, hpages⟩ := Paging.Scheme.exists_followed (keyScheme_sound hlimit) rows
  have hflat := (Paging.Scheme.followed_of_splits (keyScheme_sound hlimit)
    ((splits_iff_cursorsSplit hlimit hnodup).2 hsplit) hpages).1
  obtain ⟨answers, hanswers, heq⟩ := hpages.transfer h.next_eq h.contents_eq
  exact ⟨answers, hanswers, by rw [List.flatMap_def, heq, ← List.map_flatten, hflat]⟩

theorem Answers.split_of_complete (h : Answers limit rows toEnvelope fetch next contents)
    (hlimit : 0 < limit) (hkeys : (rows.map (·.idempotencyKey)).Nodup)
    (htag : ∀ r, (toEnvelope r).idempotencyKey = r.idempotencyKey) {answers : List π}
    (hf : Followed fetch next none answers)
    (hperm : (answers.flatMap contents).Perm (rows.map toEnvelope)) : CursorsSplit limit rows := by
  obtain ⟨pages, hpages, heq⟩ := h.followed hf
  have hnodup := nodup_of_keys hkeys
  rw [heq] at hperm
  have hkeysPerm := hperm.map fun e : EventEnvelope => e.idempotencyKey
  simp only [List.map_map, Function.comp_def, htag] at hkeysPerm
  have hsub := Paging.Scheme.subset_of_followed (keyScheme_sound hlimit) hpages
  have hpagesKeys : (pages.flatten.map (·.idempotencyKey)).Nodup := hkeysPerm.nodup_iff.2 hkeys
  refine (splits_iff_cursorsSplit hlimit hnodup).1
    (Paging.Scheme.splits_of_followed (keyScheme_sound hlimit) hnodup hpages ?_)
  refine (List.perm_ext_iff_of_nodup (nodup_of_keys hpagesKeys) hnodup).2 fun r => ?_
  refine ⟨fun hr => hsub hr, fun hr => ?_⟩
  obtain ⟨r', hr', hkey⟩ := List.mem_map.1 (hkeysPerm.mem_iff.2 (List.mem_map_of_mem hr))
  rwa [← List.inj_on_of_nodup_map hkeys (hsub hr') hr hkey]

end

/-! ## The endpoints -/

section
variable {deriveResolvedLocation : String → Option GameEvent → Option ResolvedLocation}
  {limit : Nat} {events : List EventRow}

theorem inPage_after (bounds : SessionBounds) (after : Option String) (r : EventRow) :
    inPage bounds after r = (inPage bounds none r && after.all (· < r.idempotencyKey)) := by
  simp [inPage]

theorem sessionEvents_answers (hlimit : 0 < limit)
    (hkeys : (events.map (·.idempotencyKey)).Nodup) (handle sessionId : String) :
    Answers limit (sessionEventRows handle sessionId events)
      (envelopeFromColumns deriveResolvedLocation)
      (fun after =>
        sessionEventsPage deriveResolvedLocation handle sessionId after limit events)
      (·.nextAfter) (·.events) := by
  unfold sessionEventRows
  cases hbounds : findSessionBounds (timelineRows handle events) sessionId with
  | none =>
    have hpage : ∀ c, (keyScheme limit).page [] c = [] := fun c => List.take_nil
    constructor
    · intro c
      rw [hpage, Paging.Scheme.cursor_nil (keyScheme_sound hlimit)]
      simp [sessionEventsPage, hbounds]
    · intro c
      rw [hpage]
      simp [sessionEventsPage, hbounds]
  | some bounds =>
    let own := events.filter (·.claimedHandle = Text.lower handle)
    have hown : (((own.filter fun r => r.eventTimestamp.isSome && inPage bounds none r)).map
        (·.idempotencyKey)).Nodup :=
      (hkeys.sublist (List.filter_sublist.map _)).sublist (List.filter_sublist.map _)
    have hpage : ∀ c, fetchSessionEvents deriveResolvedLocation handle bounds c limit events =
        ((keyScheme limit).page (orderBy (fun r => r.eventTimestamp.getD 0)
          (own.filter fun r => r.eventTimestamp.isSome && inPage bounds none r)) c).map
          (envelopeFromColumns deriveResolvedLocation) := by
      intro c
      have hbehind : own.filter (fun r => r.eventTimestamp.isSome && inPage bounds c r) =
          (own.filter fun r => r.eventTimestamp.isSome && inPage bounds none r).filter
            fun r => c.all (· < r.idempotencyKey) := by
        refine Eq.trans (List.filter_congr fun r _ => ?_) List.filter_filter.symm
        rw [inPage_after, ← Bool.and_assoc, Bool.and_comm]
      rw [← orderBy_page _ hown, ← hbehind]
      rfl
    constructor
    · intro c
      simp only [sessionEventsPage, hbounds, hpage, keyScheme, List.length_map,
        List.getLast?_map, Option.map_map]
      rfl
    · intro c
      simp only [sessionEventsPage, hbounds, hpage]
      rfl

theorem entityEvents_answers (codec : EntityRollup.Codec) (hlimit : 0 < limit)
    (hkeys : (events.map (·.idempotencyKey)).Nodup) (handle kind id : String) :
    Answers limit (entityEventRows handle kind id events)
      (envelopeFromColumns deriveResolvedLocation)
      (fun after =>
        entityHistoryPage codec deriveResolvedLocation handle kind id after limit events)
      (fun answer => answer.toOption.bind (·.nextAfter))
      (fun answer => answer.toOption.elim [] (·.events)) := by
  have hown : ((events.filter (isTagged handle kind id)).map (·.idempotencyKey)).Nodup :=
    hkeys.sublist (List.filter_sublist.map _)
  have hpage : ∀ c, entityEvents handle kind id c limit events =
      (keyScheme limit).page (entityEventRows handle kind id events) c := by
    intro c
    have hsort := orderBy_page (fun r => r.sourceOffset.toInt) hown limit c
    rw [List.filter_filter] at hsort
    simp only [Bool.and_comm] at hsort
    exact hsort
  constructor
  · intro c
    simp only [entityHistoryPage, hpage]
    split
    case isTrue hempty =>
      rw [Bool.and_eq_true, List.isEmpty_iff] at hempty
      rw [hempty.1, Paging.Scheme.cursor_nil (keyScheme_sound hlimit)]
      rfl
    case isFalse => rfl
  · intro c
    simp only [entityHistoryPage, hpage]
    split
    case isTrue hempty =>
      rw [Bool.and_eq_true, List.isEmpty_iff] at hempty
      rw [hempty.1]
      rfl
    case isFalse => rfl

section
variable {π : Type} {rows : List EventRow} {fetch : Option String → π} {next : π → Option String}
  {contents : π → List EventEnvelope}

theorem Answers.complete_iff
    (h : Answers limit rows (envelopeFromColumns deriveResolvedLocation) fetch next contents)
    (hlimit : 0 < limit) (hkeys : (rows.map (·.idempotencyKey)).Nodup) :
    (∃ answers, Followed fetch next none answers ∧
      answers.flatMap contents = rows.map (envelopeFromColumns deriveResolvedLocation)) ↔
      CursorsSplit limit rows := by
  refine ⟨?_, h.complete_of_split hlimit (nodup_of_keys hkeys)⟩
  rintro ⟨answers, hfollowed, heq⟩
  exact h.split_of_complete hlimit hkeys (fun _ => rfl) hfollowed (.of_eq heq)

/-- In some order, the same. -/
theorem Answers.complete_perm_iff
    (h : Answers limit rows (envelopeFromColumns deriveResolvedLocation) fetch next contents)
    (hlimit : 0 < limit) (hkeys : (rows.map (·.idempotencyKey)).Nodup) :
    (∃ answers, Followed fetch next none answers ∧
      (answers.flatMap contents).Perm (rows.map (envelopeFromColumns deriveResolvedLocation))) ↔
      CursorsSplit limit rows := by
  constructor
  · rintro ⟨answers, hfollowed, hperm⟩
    exact h.split_of_complete hlimit hkeys (fun _ => rfl) hfollowed hperm
  · intro hsplit
    obtain ⟨answers, hfollowed, heq⟩ := h.complete_of_split hlimit (nodup_of_keys hkeys) hsplit
    exact ⟨answers, hfollowed, .of_eq heq⟩

end

theorem sessionEventRows_keys (hkeys : (events.map (·.idempotencyKey)).Nodup)
    (handle sessionId : String) :
    ((sessionEventRows handle sessionId events).map (·.idempotencyKey)).Nodup := by
  unfold sessionEventRows
  split
  case h_1 => exact List.nodup_nil
  case h_2 =>
    refine ((orderBy_perm (fun r => r.eventTimestamp.getD 0) _).map _).nodup_iff.2 ?_
    exact (hkeys.sublist (List.filter_sublist.map _)).sublist (List.filter_sublist.map _)

theorem entityEventRows_keys (hkeys : (events.map (·.idempotencyKey)).Nodup)
    (handle kind id : String) :
    ((entityEventRows handle kind id events).map (·.idempotencyKey)).Nodup := by
  refine ((orderBy_perm (fun r => r.sourceOffset.toInt) _).map _).nodup_iff.2 ?_
  exact hkeys.sublist (List.filter_sublist.map _)

end

/-- **When the pages have every event once**: when the rows behind each full page are just those
with larger keys. -/
theorem pages_complete_iff
    (deriveResolvedLocation : String → Option GameEvent → Option ResolvedLocation)
    (codec : EntityRollup.Codec) (handle sessionId kind id : String) {limit : Nat}
    (hlimit : 0 < limit) {events : List EventRow}
    (hkeys : (events.map (·.idempotencyKey)).Nodup) :
    ((∃ answers, Followed
        (fun after =>
          sessionEventsPage deriveResolvedLocation handle sessionId after limit events)
        (·.nextAfter) none answers ∧
        answers.flatMap (·.events) = (sessionEventRows handle sessionId events).map
          (envelopeFromColumns deriveResolvedLocation)) ↔
      CursorsSplit limit (sessionEventRows handle sessionId events)) ∧
    ((∃ answers, Followed
        (fun after =>
          entityHistoryPage codec deriveResolvedLocation handle kind id after limit events)
        (fun answer => answer.toOption.bind (·.nextAfter)) none answers ∧
        (answers.flatMap fun answer => answer.toOption.elim [] (·.events)).Perm
          ((entityEventRows handle kind id events).map
            (envelopeFromColumns deriveResolvedLocation))) ↔
      CursorsSplit limit (entityEventRows handle kind id events)) := by
  constructor
  · exact (sessionEvents_answers hlimit hkeys handle sessionId).complete_iff hlimit
      (sessionEventRows_keys hkeys handle sessionId)
  · exact (entityEvents_answers codec hlimit hkeys handle kind id).complete_perm_iff hlimit
      (entityEventRows_keys hkeys handle kind id)

/-! ### Keys that rise and fall with time -/

def sampleRow (key : String) (time : Timestamp) (eventType : String)
    (payload : Option GameEvent) : EventRow where
  idempotencyKey := key
  claimedHandle := "ada"
  eventType := eventType
  eventTimestamp := some time
  logSource := .live
  sourceOffset := 0
  rawLine := ""
  payload := payload
  metadata := none
  resolvedLocation := none
  receivedAt := 0
  hiddenAt := none

/-- A launch and two later events, each with a larger key than the one before. -/
def risingKeys : List EventRow :=
  [sampleRow "a" 0 "process_init" (some (.processInit ⟨"", "s", "", true⟩)),
    sampleRow "b" 1 "attachment_received" none, sampleRow "c" 2 "session_end" none]

theorem cursorsSplit_rising : CursorsSplit 2 risingKeys := by
  rintro (_ | k) r hr x hx
  · obtain rfl := Option.some.inj hr
    revert x
    decide
  · obtain ⟨hlt, -⟩ := List.getElem?_eq_some_iff.1 hr
    have hlen : risingKeys.length = 3 := rfl
    omega

/-- They come in a page of two and a page of one. -/
theorem pages_complete_of_rising :
    (sessionEventsPage (fun _ _ => none) "ada" "s" none 2 risingKeys).nextAfter = some "b" ∧
      ∃ answers, Followed
        (fun after => sessionEventsPage (fun _ _ => none) "ada" "s" after 2 risingKeys)
        (·.nextAfter) none answers ∧
        answers.flatMap (·.events) = (sessionEventRows "ada" "s" risingKeys).map
          (envelopeFromColumns fun _ _ => none) := by
  have hrows : sessionEventRows "ada" "s" risingKeys = risingKeys := by decide
  refine ⟨by decide, (pages_complete_iff (fun _ _ => none) ⟨fun _ => "", id, some⟩ "ada"
    "s" "item" "i" (by decide) (by decide)).1.2 ?_⟩
  rw [hrows]
  exact cursorsSplit_rising

/-- A launch, and a later event whose key is the smaller one. -/
def fallingKeys : List EventRow :=
  [sampleRow "b" 0 "process_init" (some (.processInit ⟨"", "s", "", true⟩)),
    sampleRow "a" 1 "session_end" none]

/-- In pages of one the second is left out. -/
theorem pages_not_complete :
    ¬ ∀ (deriveResolvedLocation : String → Option GameEvent → Option ResolvedLocation)
      (codec : EntityRollup.Codec) (handle sessionId kind id : String) (limit : Nat),
      0 < limit → ∀ events : List EventRow, (events.map (·.idempotencyKey)).Nodup →
      (∃ answers, Followed
        (fun after =>
          sessionEventsPage deriveResolvedLocation handle sessionId after limit events)
        (·.nextAfter) none answers ∧
        answers.flatMap (·.events) = (sessionEventRows handle sessionId events).map
          (envelopeFromColumns deriveResolvedLocation)) ∧
      ∃ answers, Followed
        (fun after =>
          entityHistoryPage codec deriveResolvedLocation handle kind id after limit events)
        (fun answer => answer.toOption.bind (·.nextAfter)) none answers ∧
        (answers.flatMap fun answer => answer.toOption.elim [] (·.events)).Perm
          ((entityEventRows handle kind id events).map
            (envelopeFromColumns deriveResolvedLocation)) := by
  intro h
  obtain ⟨⟨answers, hfollowed, heq⟩, -⟩ := h (fun _ _ => none) ⟨fun _ => "", id, some⟩ "ada" "s"
    "item" "i" 1 (by decide) fallingKeys (by decide)
  have hpages : Followed
      (fun after => sessionEventsPage (fun _ _ => none) "ada" "s" after 1 fallingKeys)
      (·.nextAfter) none
      [sessionEventsPage (fun _ _ => none) "ada" "s" none 1 fallingKeys,
        sessionEventsPage (fun _ _ => none) "ada" "s" (some "b") 1 fallingKeys] :=
    .more (by decide) (.last (by decide +kernel))
  rw [hfollowed.unique hpages] at heq
  revert heq
  decide

end StarStats.EventTimeline
