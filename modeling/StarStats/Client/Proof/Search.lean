import Mathlib.Data.Int.Order.Basic
import Mathlib.Data.Prod.Lex
import StarStats.Client.Search
import StarStats.Lib.Paging

/-!
# The pages of a search

`search_pages_iff`: a reader that goes on from the smallest id of each page sees every row once, and
is told rightly whether more are to come, exactly when the ids fall from page to page and the rows
do not fill a whole number of pages but one.
-/

namespace StarStats.SearchEnv

open Paging (Followed)

/-! ## The order -/

def stampOf (r : LocalRow) : String ×ₗ Int := toLex (r.timestamp, r.id)

/-- The list goes down. -/
theorem notAbove_iff {a b : LocalRow} :
    (b.timestamp < a.timestamp ∨ (b.timestamp = a.timestamp ∧ b.id ≤ a.id)) ↔
      stampOf b ≤ stampOf a := by
  rw [stampOf, stampOf, Prod.Lex.toLex_le_toLex]

instance : Std.Total fun a b : LocalRow =>
    b.timestamp < a.timestamp ∨ (b.timestamp = a.timestamp ∧ b.id ≤ a.id) where
  total a b := by
    rw [notAbove_iff, notAbove_iff]
    exact le_total (stampOf b) (stampOf a)

instance : IsTrans LocalRow fun a b =>
    b.timestamp < a.timestamp ∨ (b.timestamp = a.timestamp ∧ b.id ≤ a.id) where
  trans a b c hab hbc := by
    rw [notAbove_iff] at hab hbc ⊢
    exact hbc.trans hab

variable {rows : List LocalRow}

theorem searchOrder_perm (rows : List LocalRow) : (searchOrder rows).Perm rows :=
  List.perm_insertionSort _ _

theorem searchOrder_filter (hids : (rows.map (·.id)).Nodup) (p : LocalRow → Bool) :
    searchOrder (rows.filter p) = (searchOrder rows).filter p := by
  refine Paging.insertionSort_filter (fun x hx y hy hxy hyx => ?_) p
  rw [notAbove_iff] at hxy hyx
  have heq := toLex.injective (le_antisymm hyx hxy)
  exact List.inj_on_of_nodup_map hids hx hy (Prod.ext_iff.1 heq).2

/-! ## The cursor -/

/-- The cursor is the smallest id of a page, and the rows beyond it have smaller ones. -/
def idScheme (limit : Nat) : Paging.Scheme LocalRow Intᵒᵈ where
  limit := limit
  key r := OrderDual.toDual r.id
  cursor p := (p.map (·.id)).min?.map OrderDual.toDual

theorem cursor_eq_some {limit : Nat} {p : List LocalRow} {c : Intᵒᵈ}
    (h : (idScheme limit).cursor p = some c) :
    ∃ m, (p.map (·.id)).min? = some m ∧ OrderDual.toDual m = c :=
  Option.map_eq_some_iff.1 h

theorem idScheme_sound {limit : Nat} (h : 0 < limit) : (idScheme limit).Sound where
  limit_pos := h
  key_of_cursor := by
    intro p c hc
    obtain ⟨m, hm, rfl⟩ := cursor_eq_some hc
    obtain ⟨r, hr, rfl⟩ := List.mem_map.1 (List.min?_mem hm)
    exact ⟨r, hr, rfl⟩
  full := by
    intro p hp hnone
    rw [idScheme, Option.map_eq_none_iff, List.min?_eq_none_iff, List.map_eq_nil_iff] at hnone
    rw [hnone] at hp
    exact absurd hp.symm (Nat.ne_of_gt h)

theorem key_le_cursor {limit : Nat} {p : List LocalRow} {c : Intᵒᵈ}
    (h : (idScheme limit).cursor p = some c) : ∀ x ∈ p, (idScheme limit).key x ≤ c := by
  obtain ⟨m, hm, rfl⟩ := cursor_eq_some h
  intro x hx
  exact OrderDual.toDual_le_toDual.2
    ((List.min?_eq_some_iff.1 hm).2 x.id (List.mem_map_of_mem hx))

theorem splits_iff_idsFall {limit : Nat} (h : 0 < limit) (hnodup : rows.Nodup) :
    (idScheme limit).Splits rows ↔ IdsFall limit rows :=
  Paging.Scheme.splits_iff_rises (idScheme_sound h) hnodup key_le_cursor

/-! ## The answers -/

section
variable {env : SearchEnv} {f : SearchFilter} {limit : Nat} {events : List LocalRow}

/-- The answers are the pages of all rows in order. -/
theorem searchEventsPaged_eq (hids : (events.map (·.id)).Nodup) (beforeId : Option Int) :
    env.searchEventsPaged f.normalised beforeId limit events =
      ((idScheme limit).page (searchRows env f events)
        (beforeId.map OrderDual.toDual)).map recentEventRow := by
  have hown : ((events.filter (env.isMatch f.normalised)).map (·.id)).Nodup :=
    hids.sublist (List.filter_sublist.map _)
  have hsort := searchOrder_filter hown fun r => beforeId.all (r.id < ·)
  rw [List.filter_filter] at hsort
  simp only [Bool.and_comm (Option.all _ _)] at hsort
  have hbeyond : (idScheme limit).beyond (searchRows env f events)
      (beforeId.map OrderDual.toDual) =
      (searchRows env f events).filter fun r => beforeId.all (r.id < ·) := by
    refine List.filter_congr fun r _ => ?_
    cases beforeId <;> rfl
  rw [searchEventsPaged, hsort, Paging.Scheme.page, hbeyond]
  rfl

theorem searchImpl_entries (hids : (events.map (·.id)).Nodup) (beforeId : Option Int) :
    (env.searchEventsImpl f beforeId limit events).entries =
      ((idScheme limit).page (searchRows env f events)
        (beforeId.map OrderDual.toDual)).map env.entry := by
  simp only [searchEventsImpl, searchEventsPaged_eq hids, List.map_map]
  rfl

theorem searchImpl_hasMore (hids : (events.map (·.id)).Nodup) (beforeId : Option Int) :
    (env.searchEventsImpl f beforeId limit events).hasMore =
      decide (((idScheme limit).page (searchRows env f events)
          (beforeId.map OrderDual.toDual)).length = limit ∧
        ((idScheme limit).page (searchRows env f events)
          (beforeId.map OrderDual.toDual)).length < (searchRows env f events).length) := by
  have htotal : env.countMatchingEvents f.normalised events = (searchRows env f events).length :=
    (searchOrder_perm _).length_eq.symm
  simp only [searchEventsImpl, searchEventsPaged_eq hids, List.length_map, htotal, gt_iff_lt,
    Bool.decide_and]

theorem smallestId_searchImpl (hids : (events.map (·.id)).Nodup) (beforeId : Option Int) :
    (smallestId (env.searchEventsImpl f beforeId limit events)).map OrderDual.toDual =
      (idScheme limit).cursor ((idScheme limit).page (searchRows env f events)
        (beforeId.map OrderDual.toDual)) := by
  rw [smallestId, searchImpl_entries hids, List.map_map]
  rfl

/-- What a reader sees of an answer, and the same of a page. -/
def seen (a : SearchEventsResult) : List TimelineEntry × Bool := (a.entries, a.hasMore)

def shown (env : SearchEnv) (limit total : Nat) (p : List LocalRow) : List TimelineEntry × Bool :=
  (p.map env.entry, decide (p.length = limit ∧ p.length < total))

theorem seen_searchImpl (hids : (events.map (·.id)).Nodup) (beforeId : Option Int) :
    seen (env.searchEventsImpl f beforeId limit events) =
      shown env limit (searchRows env f events).length
        ((idScheme limit).page (searchRows env f events) (beforeId.map OrderDual.toDual)) := by
  rw [seen, shown, searchImpl_entries hids, searchImpl_hasMore hids]

theorem exists_pages (hids : (events.map (·.id)).Nodup) {answers : List SearchEventsResult}
    (h : Followed (fun c => env.searchEventsImpl f c limit events) smallestId none answers) :
    ∃ pages, Followed ((idScheme limit).page (searchRows env f events)) (idScheme limit).cursor
        none pages ∧
      answers.map seen = pages.map (shown env limit (searchRows env f events).length) := by
  have hread : ∀ c, shown env limit (searchRows env f events).length
      ((idScheme limit).page (searchRows env f events) (c.map OrderDual.toDual)) =
      seen (env.searchEventsImpl f c limit events) := fun c => (seen_searchImpl hids c).symm
  obtain ⟨pages, hpages, heq⟩ :=
    h.transfer_map (fun c => (smallestId_searchImpl hids c).symm) hread
  exact ⟨pages, hpages, heq.symm⟩

theorem exists_answers (hids : (events.map (·.id)).Nodup) {pages : List (List LocalRow)}
    (h : Followed ((idScheme limit).page (searchRows env f events)) (idScheme limit).cursor
      none pages) :
    ∃ answers,
      Followed (fun c => env.searchEventsImpl f c limit events) smallestId none answers ∧
      answers.map seen = pages.map (shown env limit (searchRows env f events).length) := by
  have hback : ∀ c : Option Intᵒᵈ, (c.map OrderDual.ofDual).map OrderDual.toDual = c := by
    intro c
    cases c <;> rfl
  have hnext : ∀ c : Option Intᵒᵈ,
      smallestId (env.searchEventsImpl f (c.map OrderDual.ofDual) limit events) =
      ((idScheme limit).cursor ((idScheme limit).page (searchRows env f events) c)).map
        OrderDual.ofDual := by
    intro c
    have hcursor : (smallestId (env.searchEventsImpl f (c.map OrderDual.ofDual) limit
        events)).map OrderDual.toDual = _ := smallestId_searchImpl hids (c.map OrderDual.ofDual)
    rw [hback] at hcursor
    rw [← hcursor]
    cases smallestId (env.searchEventsImpl f (c.map OrderDual.ofDual) limit events) <;> rfl
  have hread : ∀ c : Option Intᵒᵈ,
      seen (env.searchEventsImpl f (c.map OrderDual.ofDual) limit events) =
      shown env limit (searchRows env f events).length
        ((idScheme limit).page (searchRows env f events) c) := by
    intro c
    rw [seen_searchImpl hids, hback]
  have htransfer : ∃ answers, Followed (fun c => env.searchEventsImpl f c limit events) smallestId
      ((none : Option Intᵒᵈ).map OrderDual.ofDual) answers ∧
      answers.map seen = pages.map (shown env limit (searchRows env f events).length) :=
    h.transfer_map hnext hread
  exact htransfer

/-! ## What is seen -/

section
variable {answers : List SearchEventsResult} {pages : List (List LocalRow)} {total : Nat}

theorem flatMap_entries (h : answers.map seen = pages.map (shown env limit total)) (n : Nat) :
    (answers.take n).flatMap (·.entries) = (pages.take n).flatten.map env.entry := by
  have hfst := congrArg (List.map Prod.fst) h
  rw [List.map_map, List.map_map] at hfst
  have htake := congrArg (List.take n) hfst
  rw [← List.map_take, ← List.map_take] at htake
  rw [List.flatMap_def, List.map_flatten]
  exact congrArg List.flatten htake

theorem getElem?_seen (h : answers.map seen = pages.map (shown env limit total)) {P : Nat → Prop} :
    (∀ k a, answers[k]? = some a → (a.hasMore = true ↔ P k)) ↔
      ∀ k p, pages[k]? = some p → ((p.length = limit ∧ p.length < total) ↔ P k) := by
  refine forall_congr' fun k => ?_
  have hk := congrArg (·[k]?) h
  simp only [List.getElem?_map] at hk
  cases ha : answers[k]? with
  | none =>
    rw [ha] at hk
    rw [Option.map_eq_none_iff.1 hk.symm]
    simp
  | some a =>
    rw [ha] at hk
    obtain ⟨p, hp, heq⟩ := Option.map_eq_some_iff.1 hk.symm
    have hmore : decide (p.length = limit ∧ p.length < total) = a.hasMore :=
      congrArg Prod.snd heq
    rw [hp]
    simp only [Option.some.injEq, forall_eq', ← hmore, decide_eq_true_eq]

end

end

/-! ## Every row once -/

section
variable {env : SearchEnv} {rows : List LocalRow} (hids : (rows.map (·.id)).Nodup)
include hids

theorem mem_map_entry {l : List LocalRow} (hl : l ⊆ rows) {r : LocalRow} (hr : r ∈ rows) :
    env.entry r ∈ l.map env.entry ↔ r ∈ l := by
  refine ⟨fun h => ?_, List.mem_map_of_mem⟩
  obtain ⟨r', hr', heq⟩ := List.mem_map.1 h
  have hid : r'.id = r.id := congrArg TimelineEntry.id heq
  rwa [← List.inj_on_of_nodup_map hids (hl hr') hr hid]

theorem perm_of_entries {l : List LocalRow} (hl : l ⊆ rows)
    (h : (l.map env.entry).Perm (rows.map env.entry)) : l.Perm rows := by
  have hkeys := h.map TimelineEntry.id
  rw [List.map_map, List.map_map] at hkeys
  have hlids : (l.map (·.id)).Nodup := hkeys.nodup_iff.2 hids
  refine (List.perm_ext_iff_of_nodup hlids.of_map hids.of_map).2 fun r => ⟨fun hr => hl hr, ?_⟩
  intro hr
  exact (mem_map_entry hids hl hr).1 (h.mem_iff.2 (List.mem_map_of_mem hr))

end

theorem searchRows_ids {env : SearchEnv} {f : SearchFilter} {events : List LocalRow}
    (hids : (events.map (·.id)).Nodup) : ((searchRows env f events).map (·.id)).Nodup :=
  ((searchOrder_perm _).map _).nodup_iff.2 (hids.sublist (List.filter_sublist.map _))

theorem enumerated_iff {env : SearchEnv} {f : SearchFilter} {limit : Nat} {events : List LocalRow}
    (hids : (events.map (·.id)).Nodup) {answers : List SearchEventsResult}
    {pages : List (List LocalRow)} (hsub : pages.flatten ⊆ searchRows env f events)
    (h : answers.map seen = pages.map (shown env limit (searchRows env f events).length)) :
    Enumerated env f events answers ↔ pages.flatten.Perm (searchRows env f events) ∧
      ∀ k p, pages[k]? = some p →
        ((p.length = limit ∧ p.length < (searchRows env f events).length) ↔
          ∃ x ∈ searchRows env f events, x ∉ (pages.take (k + 1)).flatten) := by
  have hrows : ((searchRows env f events).map (·.id)).Nodup := searchRows_ids hids
  have hperm := searchOrder_perm (events.filter (env.isMatch f.normalised))
  rw [Enumerated, getElem?_seen h]
  have hall := flatMap_entries h answers.length
  have hlen : answers.length = pages.length := by
    simpa using congrArg List.length h
  rw [List.take_length, hlen, List.take_length] at hall
  rw [hall]
  refine and_congr ⟨fun hp => ?_, fun hp => ?_⟩ ?_
  · exact perm_of_entries hrows hsub (hp.trans (hperm.map _).symm)
  · exact (hp.map _).trans (hperm.map _)
  · refine forall_congr' fun k => forall₂_congr fun p _ => iff_congr Iff.rfl ?_
    rw [flatMap_entries h]
    have htake : (pages.take (k + 1)).flatten ⊆ searchRows env f events := fun x hx =>
      hsub (List.mem_flatten.2 (by
        obtain ⟨p, hp, hxp⟩ := List.mem_flatten.1 hx
        exact ⟨p, List.mem_of_mem_take hp, hxp⟩))
    constructor
    · rintro ⟨r, hr, hnot⟩
      have hr := hperm.mem_iff.2 hr
      exact ⟨r, hr, fun hin => hnot ((mem_map_entry hrows htake hr).2 hin)⟩
    · rintro ⟨r, hr, hnot⟩
      exact ⟨r, hperm.mem_iff.1 hr, fun hin => hnot ((mem_map_entry hrows htake hr).1 hin)⟩

/-- **When the pages have every row once, and say when they are done**: when the ids fall from page
to page, and the rows do not fill two pages or more to the last place. -/
theorem search_pages_iff (env : SearchEnv) (f : SearchFilter) {limit : Nat} (hlimit : 0 < limit)
    {events : List LocalRow} (hids : (events.map (·.id)).Nodup) :
    (∃ answers, Followed (fun c => env.searchEventsImpl f c limit events) smallestId none answers ∧
      Enumerated env f events answers) ↔
      IdsFall limit (searchRows env f events) ∧
        ¬ (limit ∣ (searchRows env f events).length ∧
          limit < (searchRows env f events).length) := by
  have hsound := idScheme_sound hlimit
  have hnodup : (searchRows env f events).Nodup := (searchRows_ids hids).of_map _
  rw [← splits_iff_idsFall hlimit hnodup]
  constructor
  · rintro ⟨answers, hanswers, henum⟩
    obtain ⟨pages, hpages, heq⟩ := exists_pages hids hanswers
    have hsub := Paging.Scheme.subset_of_followed hsound hpages
    obtain ⟨hperm, hasks⟩ := (enumerated_iff hids hsub heq).1 henum
    have hsplits := Paging.Scheme.splits_of_followed hsound hnodup hpages hperm
    obtain ⟨hflat, hblocks⟩ := Paging.Scheme.followed_of_splits hsound hsplits hpages
    exact ⟨hsplits, (Paging.Scheme.asks_again_iff hsound hnodup hflat hblocks).1 hasks⟩
  · rintro ⟨hsplits, hno⟩
    obtain ⟨pages, hpages⟩ := Paging.Scheme.exists_followed hsound (searchRows env f events)
    obtain ⟨answers, hanswers, heq⟩ := exists_answers hids hpages
    have hsub := Paging.Scheme.subset_of_followed hsound hpages
    obtain ⟨hflat, hblocks⟩ := Paging.Scheme.followed_of_splits hsound hsplits hpages
    refine ⟨answers, hanswers, (enumerated_iff hids hsub heq).2 ⟨.of_eq hflat, ?_⟩⟩
    exact (Paging.Scheme.asks_again_iff hsound hnodup hflat hblocks).2 hno

/-! ### Old lines that came in late -/

def sampleEnv : SearchEnv := ⟨id, fun _ => none, fun _ => ""⟩

def sampleRow (id : Int) (timestamp : String) : LocalRow where
  idempotencyKey := timestamp
  eventType := "join_pu"
  timestamp := timestamp
  raw := ""
  payload := ""
  logSource := "live"
  sourceOffset := 0
  id := id
  metadata := none
  sentAt := none
  contentKey := timestamp

/-- Rows that came in as they happened, three of them in pages of two. -/
theorem search_pages_of_three :
    ∃ answers, Followed (fun c => sampleEnv.searchEventsImpl ⟨none, none⟩ c 2
        [sampleRow 1 "a", sampleRow 2 "b", sampleRow 3 "c"]) smallestId none answers ∧
      Enumerated sampleEnv ⟨none, none⟩ [sampleRow 1 "a", sampleRow 2 "b", sampleRow 3 "c"]
        answers := by
  refine (search_pages_iff sampleEnv ⟨none, none⟩ (by decide) (by decide)).2 ⟨?_, by decide +kernel⟩
  have hrows : searchRows sampleEnv ⟨none, none⟩ [sampleRow 1 "a", sampleRow 2 "b",
      sampleRow 3 "c"] = [sampleRow 3 "c", sampleRow 2 "b", sampleRow 1 "a"] := by
    decide +kernel
  rw [hrows]
  intro k
  cases k with
  | zero => decide +kernel
  | succ k =>
    intro x _ y hy
    rw [List.drop_eq_nil_of_le (by simp only [List.length_cons, List.length_nil]; omega)] at hy
    cases hy

/-- The row with the larger id is the older one, and is never returned. -/
theorem search_pages_not_complete :
    ¬ ∀ (env : SearchEnv) (f : SearchFilter) (limit : Nat), 0 < limit → ∀ events : List LocalRow,
      (events.map (·.id)).Nodup →
      ∃ answers, Followed (fun c => env.searchEventsImpl f c limit events) smallestId none answers ∧
        Enumerated env f events answers := by
  intro h
  obtain ⟨answers, hfollowed, hperm, -⟩ := h sampleEnv ⟨none, none⟩ 1 (by decide)
    [sampleRow 1 "b", sampleRow 2 "a"] (by decide)
  have hpages : Followed
      (fun c => sampleEnv.searchEventsImpl ⟨none, none⟩ c 1 [sampleRow 1 "b", sampleRow 2 "a"])
      smallestId none
      [sampleEnv.searchEventsImpl ⟨none, none⟩ none 1 [sampleRow 1 "b", sampleRow 2 "a"],
        sampleEnv.searchEventsImpl ⟨none, none⟩ (some 1) 1 [sampleRow 1 "b", sampleRow 2 "a"]] :=
    .more (by decide +kernel) (.last (by decide +kernel))
  rw [hfollowed.unique hpages] at hperm
  have hlen := hperm.length_eq
  revert hlen
  decide +kernel

end StarStats.SearchEnv
