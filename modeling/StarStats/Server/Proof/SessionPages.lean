import StarStats.Lib.Islands
import StarStats.Server.Proof.EventPages

/-!
# The page of a listed session

`page_is_counted_iff`: the page of a session, without cursor or limit, is what the list counted
exactly when its launch has an id, it was not ended by the next launch, nothing that is not counted
comes before its end, and nothing has the time of its end and a larger key.
-/

namespace StarStats.EventTimeline

open Islands

/-! ## Cutting the timeline -/

def isInit (r : EventRow) : Bool := r.eventType = "process_init"

def isEnd (r : EventRow) : Bool := r.eventType = "session_end"

theorem withSessionOrd_eq (n : Nat) (rows : List EventRow) :
    withSessionOrd n rows = number isInit n rows := by
  induction rows generalizing n with
  | nil => rfl
  | cons r rs ih => simp [withSessionOrd, number, isInit, ih]

theorem keptRows_eq (rows : List EventRow) : keptRows (rows.zipIdx 1) = upTo isEnd rows := by
  rw [← upTo_of_first 1]
  have hfirst : firstEndRn (rows.zipIdx 1) = firstRank isEnd (rows.zipIdx 1) := rfl
  rw [keptRows, hfirst]
  cases firstRank isEnd (rows.zipIdx 1) <;> rfl

theorem countedRows_eq (handle : String) (events : List EventRow) :
    countedRows handle events =
      (islands isInit (timelineRows handle events)).map (upTo isEnd) := by
  rw [← islands_of_number 0, List.map_map]
  simp only [countedRows, withSessionOrd_eq]
  refine List.map_congr_left fun ord _ => ?_
  exact keptRows_eq _

/-! ## The list -/

theorem map_fst_withLead (as : List SessionAgg) : (withLead as).map (·.1) = as := by
  induction as with
  | nil => rfl
  | cons a as ih => rw [withLead, List.map_cons, ih]

/-- Without a bound the list aggregates the counted rows of the whole timeline. -/
theorem sessionsViaSql_counted (handle : String) (events : List EventRow) :
    sessionsViaSql handle none events =
      ((withLead ((countedRows handle events).map sessionAgg)).map
        sessionSummary).reverse.take sessionsListLimit := by
  have haggs : sessionAggs (timelineRows handle events) =
      (countedRows handle events).map sessionAgg := by
    rw [sessionAggs, countedRows, List.map_map]
    rfl
  have hall : (timelineRows handle events).filter (fun r =>
      (none : Option Timestamp).all fun since => r.eventTimestamp.any (since ≤ ·)) =
      timelineRows handle events := List.filter_eq_self.2 fun _ _ => rfl
  simp only [sessionsViaSql, hall, haggs]

/-- Each session of the list has the id and the number of the rows it is counted from. -/
theorem map_sessionsViaSql (handle : String) (events : List EventRow) :
    (sessionsViaSql handle none events).map (fun s => (s.id, s.eventCount)) =
      (listedRows handle events).map fun rows =>
        ((sessionAgg rows).id, UInt32.ofNat rows.length) := by
  have hsummary : (fun s : SessionSummary => (s.id, s.eventCount)) ∘ sessionSummary =
      (fun a : SessionAgg => (a.id, UInt32.ofNat a.eventCount)) ∘ (·.1) := rfl
  rw [sessionsViaSql_counted, listedRows, List.map_take, List.map_reverse, List.map_map, hsummary,
    ← List.map_map, map_fst_withLead, List.map_map, List.map_take, List.map_reverse]
  rfl

theorem forall₂_sessions (P : String × UInt32 → List EventRow → Prop) {handle : String}
    {events : List EventRow} :
    List.Forall₂ (fun s rows => P (s.id, s.eventCount) rows) (sessionsViaSql handle none events)
        (listedRows handle events) ↔
      ∀ rows ∈ listedRows handle events,
        P ((sessionAgg rows).id, UInt32.ofNat rows.length) rows := by
  have hmap := List.forall₂_map_left_iff (R := P) (f := fun s : SessionSummary =>
    (s.id, s.eventCount)) (l := sessionsViaSql handle none events) (u := listedRows handle events)
  rw [← hmap, map_sessionsViaSql, List.forall₂_map_left_iff, List.forall₂_same]

/-! ## The bounds -/

section
variable {target : String} {rows rest : List EventRow} {r : EventRow}

theorem isInit_iff : isInit r = true ↔ r.eventType = "process_init" := decide_eq_true_iff

theorem isEnd_iff : isEnd r = true ↔ r.eventType = "session_end" := decide_eq_true_iff

theorem isEnd_of_isInit (h : isInit r = true) : isEnd r = false := by
  have hne : r.eventType ≠ "session_end" := by
    rw [isInit_iff.1 h]
    decide
  simpa [isEnd] using hne

/-- Without an open session the walk passes everything but launches of its target. -/
theorem findBounds_skip {bounds : Option SessionBounds} (hclosed : bounds.filter (·.isOpen) = none)
    (h : ∀ r ∈ rows, isInit r = true → sessionIdFromRow r ≠ some target) :
    findBounds target bounds (rows ++ rest) = findBounds target bounds rest := by
  induction rows with
  | nil => rfl
  | cons r rs ih =>
    have ih := ih fun x hx => h x (List.mem_cons_of_mem _ hx)
    rw [List.cons_append, findBounds, hclosed]
    by_cases hinit : r.eventType = "process_init"
    · rw [if_pos hinit]
      simp only [h r List.mem_cons_self (isInit_iff.2 hinit), if_false, ih]
    · rw [if_neg hinit]
      by_cases hend : r.eventType = "session_end"
      · rw [if_pos hend]
        exact ih
      · rw [if_neg hend]
        exact ih

/-- In a session the walk passes everything else. -/
theorem findBounds_body {bounds : Option SessionBounds}
    (h : ∀ r ∈ rows, isInit r = false ∧ isEnd r = false) :
    findBounds target bounds (rows ++ rest) = findBounds target bounds rest := by
  induction rows with
  | nil => rfl
  | cons r rs ih =>
    obtain ⟨hinit, hend⟩ := h r List.mem_cons_self
    rw [List.cons_append, findBounds, if_neg (by simpa [isInit] using hinit),
      if_neg (by simpa [isEnd] using hend)]
    exact ih fun x hx => h x (List.mem_cons_of_mem _ hx)

/-- The bounds of a session that is not closed yet. -/
def openAt (r : EventRow) : SessionBounds := ⟨rowTime r, r.idempotencyKey, none, none⟩

theorem findBounds_launch (hinit : isInit r = true) (hid : sessionIdFromRow r = some target) :
    findBounds target none (r :: rest) = findBounds target (some (openAt r)) rest := by
  rw [findBounds, if_pos (isInit_iff.1 hinit)]
  simp only [Option.filter_none, hid, if_true]
  rfl

theorem findBounds_end (x : EventRow) (hend : isEnd r = true) :
    findBounds target (some (openAt x)) (r :: rest) =
      findBounds target (some ((openAt x).close r)) rest := by
  have hinit : r.eventType ≠ "process_init" := by
    rw [isEnd_iff.1 hend]
    decide
  rw [findBounds, if_neg hinit, if_pos (isEnd_iff.1 hend)]
  rfl

theorem findBounds_next (x : EventRow) (hinit : isInit r = true) :
    findBounds target (some (openAt x)) (r :: rest) = some ((openAt x).close r) := by
  rw [findBounds, if_pos (isInit_iff.1 hinit)]
  rfl

theorem inPage_iff (b : SessionBounds) :
    inPage b none r = true ↔ toLex (b.startTs, b.startIdem) ≤ stamp r ∧
      ∀ e ∈ b.endTs, rowTime r ≤ e := by
  rw [stamp, Prod.Lex.toLex_le_toLex]
  simp [inPage, Option.all_eq_true]

theorem inPage_openAt (x : EventRow) : inPage (openAt x) none r = true ↔ stamp x ≤ stamp r := by
  rw [inPage_iff]
  simp [openAt, stamp]

theorem inPage_close (x e : EventRow) :
    inPage ((openAt x).close e) none r = true ↔ stamp x ≤ stamp r ∧ rowTime r ≤ rowTime e := by
  rw [inPage_iff]
  simp [openAt, SessionBounds.close, stamp]

end

/-! ## One session in the timeline -/

/-- A session: its launch, and what follows up to the next one. -/
structure Launched (timeline before : List EventRow) (x : EventRow) (body behind : List EventRow) :
    Prop where
  split : timeline = before ++ (x :: body) ++ behind
  init : isInit x = true
  body : ∀ y ∈ body, isInit y = false
  behind : ∀ y ∈ behind.head?, isInit y = true

section
variable {timeline before body behind : List EventRow} {x : EventRow} {target : String}

/-- No other launch has the id. -/
def Unique (target : String) (before body behind : List EventRow) : Prop :=
  ∀ r ∈ before ++ body ++ behind, isInit r = true → sessionIdFromRow r ≠ some target

theorem Launched.find (h : Launched timeline before x body behind)
    (hid : sessionIdFromRow x = some target) (hunique : Unique target before body behind) :
    findSessionBounds timeline target =
      findBounds target (some (openAt x)) (body ++ behind) := by
  rw [findSessionBounds, h.split, List.append_assoc, findBounds_skip rfl, List.cons_append,
    findBounds_launch h.init hid]
  intro r hr
  exact hunique r (by simp [hr])

theorem Launched.bounds_ended (h : Launched timeline before x body behind)
    (hid : sessionIdFromRow x = some target) (hunique : Unique target before body behind)
    {a b : List EventRow} {e : EventRow} (hbody : body = a ++ e :: b)
    (ha : ∀ y ∈ a, isEnd y = false) (he : isEnd e = true) :
    findSessionBounds timeline target = some ((openAt x).close e) := by
  have hpass : ∀ y ∈ a, isInit y = false ∧ isEnd y = false := fun y hy =>
    ⟨h.body y (by simp [hbody, hy]), ha y hy⟩
  have hskip : findBounds target (some ((openAt x).close e)) (b ++ behind ++ []) =
      findBounds target (some ((openAt x).close e)) [] :=
    findBounds_skip rfl fun r hr => hunique r (by
      rw [hbody]
      rcases List.mem_append.1 hr with hr | hr <;> simp [hr])
  rw [List.append_nil] at hskip
  rw [h.find hid hunique, hbody, List.append_assoc, findBounds_body hpass, List.cons_append,
    findBounds_end x he, hskip, findBounds]

theorem Launched.bounds_open (h : Launched timeline before x body behind)
    (hid : sessionIdFromRow x = some target) (hunique : Unique target before body behind)
    (hbody : ∀ y ∈ body, isEnd y = false) :
    findSessionBounds timeline target =
      some (behind.head?.elim (openAt x) fun n => (openAt x).close n) := by
  rw [h.find hid hunique, findBounds_body fun y hy => ⟨h.body y hy, hbody y hy⟩]
  cases hb : behind with
  | nil => rfl
  | cons n ns =>
    have hn : isInit n = true := h.behind n (by rw [hb]; rfl)
    exact findBounds_next x hn

end

/-! ## The rows of the handle -/

/-- The handle's rows with a timestamp, of all types. -/
def fullRows (handle : String) (events : List EventRow) : List EventRow :=
  orderByTimeKey ((events.filter (·.claimedHandle = Text.lower handle)).filter
    (·.eventTimestamp.isSome))

section
variable {handle : String} {events : List EventRow}

theorem mem_fullRows {r : EventRow} : r ∈ fullRows handle events ↔
    r ∈ events ∧ r.claimedHandle = Text.lower handle ∧ r.eventTimestamp.isSome = true := by
  rw [fullRows, orderByTimeKey, List.mem_insertionSort]
  simp [and_comm]

variable (hkeys : (events.map (·.idempotencyKey)).Nodup)
include hkeys

theorem ownKeys_nodup (handle : String) : (((events.filter (·.claimedHandle = Text.lower handle)).filter
    (·.eventTimestamp.isSome)).map (·.idempotencyKey)).Nodup :=
  (hkeys.sublist (List.filter_sublist.map _)).sublist (List.filter_sublist.map _)

theorem fullRows_keys (handle : String) : ((fullRows handle events).map (·.idempotencyKey)).Nodup :=
  ((orderBy_perm (fun r => r.eventTimestamp.getD 0) _).map _).nodup_iff.2 (ownKeys_nodup hkeys handle)

theorem fullRows_sorted (handle : String) : (fullRows handle events).Pairwise (stamp · < stamp ·) := by
  have hle : (fullRows handle events).Pairwise (stamp · ≤ stamp ·) := by
    have hsort := orderBy_sorted (fun r => r.eventTimestamp.getD 0)
      ((events.filter (·.claimedHandle = Text.lower handle)).filter (·.eventTimestamp.isSome))
    exact hsort
  have hne := List.pairwise_map.1 (fullRows_keys hkeys handle)
  refine (hle.and hne).imp ?_
  intro r r' hr
  refine lt_of_le_of_ne hr.1 fun heq => hr.2 ?_
  exact (Prod.ext_iff.1 (toLex.injective heq)).2

theorem timelineRows_eq : timelineRows handle events = (fullRows handle events).filter isGameplay := by
  have hfilter := orderBy_filter (fun r => r.eventTimestamp.getD 0) (ownKeys_nodup hkeys handle) isGameplay
  rw [List.filter_filter] at hfilter
  simp only [Bool.and_comm (isGameplay _)] at hfilter
  exact hfilter

theorem sessionEventRows_eq {id : String} {b : SessionBounds}
    (hb : findSessionBounds (timelineRows handle events) id = some b) :
    sessionEventRows handle id events = (fullRows handle events).filter (inPage b none) := by
  have hfilter := orderBy_filter (fun r => r.eventTimestamp.getD 0) (ownKeys_nodup hkeys handle) (inPage b none)
  rw [List.filter_filter] at hfilter
  simp only [Bool.and_comm (inPage b none _)] at hfilter
  simp only [sessionEventRows, hb]
  exact hfilter

theorem timelineRows_sorted (handle : String) : (timelineRows handle events).Pairwise (stamp · < stamp ·) := by
  rw [timelineRows_eq hkeys]
  exact (fullRows_sorted hkeys handle).filter _

theorem mem_timelineRows {r : EventRow} : r ∈ timelineRows handle events ↔
    r ∈ fullRows handle events ∧ isGameplay r = true := by
  rw [timelineRows_eq hkeys, List.mem_filter]

end

theorem rowTime_le_of_stamp_le {r r' : EventRow} (h : stamp r ≤ stamp r') :
    rowTime r ≤ rowTime r' := by
  rw [stamp, stamp, Prod.Lex.toLex_le_toLex] at h
  rcases h with h | h
  · exact Int.le_of_lt h
  · exact Int.le_of_eq h.1

theorem stamp_le_iff {r r' : EventRow} : stamp r ≤ stamp r' ↔
    rowTime r < rowTime r' ∨ (rowTime r = rowTime r' ∧ r.idempotencyKey ≤ r'.idempotencyKey) := by
  rw [stamp, stamp, Prod.Lex.toLex_le_toLex]

section
variable {before rest : List EventRow} {x r : EventRow}

/-- In order, the rows from one on are those that do not come before it. -/
theorem mem_from_iff (hs : (before ++ x :: rest).Pairwise (stamp · < stamp ·))
    (hr : r ∈ before ++ x :: rest) : r ∈ x :: rest ↔ stamp x ≤ stamp r := by
  obtain ⟨-, hrest, hlt⟩ := List.pairwise_append.1 hs
  constructor
  · intro hr
    rcases List.mem_cons.1 hr with rfl | hr
    · exact le_refl _
    · exact le_of_lt ((List.pairwise_cons.1 hrest).1 r hr)
  · intro hle
    rcases List.mem_append.1 hr with hr | hr
    · exact absurd hle (not_le_of_gt (hlt r hr x List.mem_cons_self))
    · exact hr

/-- And those up to one are those that do not come behind it. -/
theorem mem_upTo_iff (hs : (before ++ x :: rest).Pairwise (stamp · < stamp ·))
    (hr : r ∈ before ++ x :: rest) : r ∈ before ++ [x] ↔ stamp r ≤ stamp x := by
  obtain ⟨-, hrest, hlt⟩ := List.pairwise_append.1 hs
  constructor
  · intro hr
    rcases List.mem_append.1 hr with hr | hr
    · exact le_of_lt (hlt r hr x List.mem_cons_self)
    · rw [List.mem_singleton.1 hr]
  · intro hle
    rcases List.mem_append.1 hr with hr | hr
    · exact List.mem_append_left _ hr
    · rcases List.mem_cons.1 hr with rfl | hr
      · exact List.mem_append_right _ List.mem_cons_self
      · exact absurd hle (not_le_of_gt ((List.pairwise_cons.1 hrest).1 r hr))

end

/-! ## One session -/

section
variable {handle : String} {events before body behind : List EventRow} {x : EventRow}
  {target : String} (h : Launched (timelineRows handle events) before x body behind)
include h

theorem Launched.mem_timeline {r : EventRow} (hr : r ∈ x :: (body ++ behind)) :
    r ∈ timelineRows handle events := by
  rw [h.split, List.append_assoc, List.cons_append]
  exact List.mem_append_right _ hr

variable (hkeys : (events.map (·.idempotencyKey)).Nodup)
include hkeys

/-- The rows from the launch on. -/
theorem Launched.mem_from {r : EventRow} (hr : r ∈ timelineRows handle events) :
    r ∈ x :: (body ++ behind) ↔ stamp x ≤ stamp r := by
  have hs := timelineRows_sorted hkeys handle
  have hsplit : timelineRows handle events = before ++ x :: (body ++ behind) := by
    rw [h.split, List.append_assoc, List.cons_append]
  rw [hsplit] at hr hs
  exact mem_from_iff hs hr

theorem Launched.mem_kept {a b : List EventRow} {e r : EventRow} (hbody : body = a ++ e :: b)
    (hr : r ∈ timelineRows handle events) :
    r ∈ (x :: a) ++ [e] ↔ stamp x ≤ stamp r ∧ stamp r ≤ stamp e := by
  have hs := timelineRows_sorted hkeys handle
  have hsplit : timelineRows handle events =
      before ++ ((x :: a) ++ e :: (b ++ behind)) := by
    rw [h.split, hbody]
    simp
  have hrest : x :: (body ++ behind) = (x :: a) ++ e :: (b ++ behind) := by
    rw [hbody]
    simp
  rw [hsplit] at hs
  have hs := (List.pairwise_append.1 hs).2.1
  have hfrom := h.mem_from hkeys hr
  rw [hrest] at hfrom
  rw [← hfrom]
  constructor
  · intro hkept
    have hmem : r ∈ (x :: a) ++ e :: (b ++ behind) := by
      rcases List.mem_append.1 hkept with hkept | hkept
      · exact List.mem_append_left _ hkept
      · exact List.mem_append_right _ (by simp [List.mem_singleton.1 hkept])
    exact ⟨hmem, (mem_upTo_iff hs hmem).1 hkept⟩
  · intro hmem
    exact (mem_upTo_iff hs hmem.1).2 hmem.2

/-- A session that its end closes. -/
theorem Launched.ended_iff (hid : sessionIdFromRow x = some target)
    (hunique : Unique target before body behind) {a b : List EventRow} {e : EventRow}
    (hbody : body = a ++ e :: b) (ha : ∀ y ∈ a, isEnd y = false) (he : isEnd e = true) :
    (∀ r ∈ fullRows handle events,
      (r ∈ sessionEventRows handle target events ↔ r ∈ (x :: a) ++ [e])) ↔
      CutAlike handle events ((x :: a) ++ [e]) := by
  have hselected : ∀ r ∈ fullRows handle events, (r ∈ sessionEventRows handle target events ↔
      stamp x ≤ stamp r ∧ rowTime r ≤ rowTime e) := by
    intro r hr
    rw [sessionEventRows_eq hkeys (h.bounds_ended hid hunique hbody ha he), List.mem_filter,
      inPage_close]
    simp [hr]
  have hkept : ∀ r ∈ timelineRows handle events,
      (r ∈ (x :: a) ++ [e] ↔ stamp x ≤ stamp r ∧ stamp r ≤ stamp e) := fun r hr =>
    h.mem_kept hkeys hbody hr
  have htimeline : ∀ r ∈ (x :: a) ++ [e], r ∈ timelineRows handle events := by
    intro r hr
    refine h.mem_timeline ?_
    rw [hbody]
    rcases List.mem_append.1 hr with hr | hr
    · rcases List.mem_cons.1 hr with rfl | hr <;> simp_all
    · simp [List.mem_singleton.1 hr]
  have hlast : e ∈ (x :: a) ++ [e] := by simp
  have honly : ∀ r ∈ (x :: a) ++ [e], r.eventType = "session_end" → r = e := by
    intro r hr hend
    rw [← isEnd_iff] at hend
    rcases List.mem_append.1 hr with hr | hr
    · rcases List.mem_cons.1 hr with rfl | hr
      · rw [isEnd_of_isInit h.init] at hend; cases hend
      · rw [ha r hr] at hend; cases hend
    · exact List.mem_singleton.1 hr
  have hxe := ((hkept e (htimeline e hlast)).1 hlast).1
  constructor
  · intro heq
    refine ⟨⟨x, by simp, by rw [hid]; rfl⟩, .inl ⟨e, hlast, isEnd_iff.1 he⟩, ?_, ?_⟩
    · intro z hz hown htime hgame hbehind
      refine ⟨e, hlast, isEnd_iff.1 he, ?_⟩
      by_contra hle
      obtain ⟨r, hr, hle'⟩ := hbehind
      have hfull := mem_fullRows.2 ⟨hz, hown, htime⟩
      have hxz := ((hkept r (htimeline r hr)).1 hr).1.trans hle'
      have hmem := (heq z hfull).1 ((hselected z hfull).2 ⟨hxz, not_lt.1 hle⟩)
      rw [((mem_timelineRows hkeys).1 (htimeline z hmem)).2] at hgame
      cases hgame
    · intro r hr hend z hz htime
      obtain rfl := honly r hr hend
      by_contra hkey
      have hlt : stamp r ≤ stamp z :=
        stamp_le_iff.2 (.inr ⟨htime.symm, le_of_lt (not_le.1 hkey)⟩)
      have hfull := ((mem_timelineRows hkeys).1 hz).1
      have hmem := (heq z hfull).1
        ((hselected z hfull).2 ⟨hxe.trans hlt, le_of_eq htime⟩)
      rcases stamp_le_iff.1 ((hkept z hz).1 hmem).2 with hbefore | hbefore
      · exact absurd htime (ne_of_lt hbefore)
      · exact hkey hbefore.2
  · intro hc r hr
    rw [hselected r hr]
    constructor
    · rintro ⟨hxr, hre⟩
      have hgame : isGameplay r = true := by
        by_contra hgame
        obtain ⟨hmem, hown, htime⟩ := mem_fullRows.1 hr
        obtain ⟨r', hr', hend, hlt⟩ := hc.alone r hmem hown htime (by simpa using hgame)
          ⟨x, by simp, hxr⟩
        rw [honly r' hr' hend] at hlt
        exact absurd hre (not_le.2 hlt)
      have hr := (mem_timelineRows hkeys).2 ⟨hr, hgame⟩
      refine (hkept r hr).2 ⟨hxr, stamp_le_iff.2 ?_⟩
      rcases lt_or_eq_of_le hre with hlt | heq
      · exact .inl hlt
      · exact .inr ⟨heq, hc.sharp e hlast (isEnd_iff.1 he) r hr heq⟩
    · intro hmem
      have hle := (hkept r (htimeline r hmem)).1 hmem
      exact ⟨hle.1, rowTime_le_of_stamp_le hle.2⟩

omit hkeys in
theorem Launched.noEnd (hbody : ∀ y ∈ body, isEnd y = false) :
    ∀ r ∈ x :: body, r.eventType ≠ "session_end" := by
  intro r hr hend
  rw [← isEnd_iff] at hend
  rcases List.mem_cons.1 hr with rfl | hr
  · rw [isEnd_of_isInit h.init] at hend; cases hend
  · rw [hbody r hr] at hend; cases hend

/-- The last session, while it is open. -/
theorem Launched.open_iff (hid : sessionIdFromRow x = some target)
    (hunique : Unique target before body behind) (hbody : ∀ y ∈ body, isEnd y = false)
    (hlast : behind = []) :
    (∀ r ∈ fullRows handle events,
      (r ∈ sessionEventRows handle target events ↔ r ∈ x :: body)) ↔
      CutAlike handle events (x :: body) := by
  have hbounds := h.bounds_open hid hunique hbody
  rw [hlast] at hbounds
  have hselected : ∀ r ∈ fullRows handle events,
      (r ∈ sessionEventRows handle target events ↔ stamp x ≤ stamp r) := by
    intro r hr
    rw [sessionEventRows_eq hkeys hbounds, List.mem_filter]
    simp only [List.head?_nil, Option.elim_none, inPage_openAt, hr, true_and]
  have hkept : ∀ r ∈ timelineRows handle events, (r ∈ x :: body ↔ stamp x ≤ stamp r) := by
    intro r hr
    have hfrom := h.mem_from hkeys hr
    rwa [hlast, List.append_nil] at hfrom
  have htimeline : ∀ r ∈ x :: body, r ∈ timelineRows handle events := fun r hr =>
    h.mem_timeline (by simpa [hlast] using hr)
  constructor
  · intro heq
    refine ⟨⟨x, by simp, by rw [hid]; rfl⟩, .inr ?_, ?_,
      fun r hr hend => absurd hend (h.noEnd hbody r hr)⟩
    · intro r hr z hz hinit
      have hxr := (hkept r (htimeline r hr)).1 hr
      by_contra hlt
      have hmem := (hkept z hz).2 (hxr.trans (le_of_lt (not_le.1 hlt)))
      rcases List.mem_cons.1 hmem with rfl | hmem
      · exact hlt hxr
      · rw [← isInit_iff, h.body z hmem] at hinit; cases hinit
    · intro z hz hown htime hgame hbehind
      obtain ⟨r, hr, hle⟩ := hbehind
      have hfull := mem_fullRows.2 ⟨hz, hown, htime⟩
      have hxz := ((hkept r (htimeline r hr)).1 hr).trans hle
      have hmem := (heq z hfull).1 ((hselected z hfull).2 hxz)
      rw [((mem_timelineRows hkeys).1 (htimeline z hmem)).2] at hgame
      cases hgame
  · intro hc r hr
    rw [hselected r hr]
    constructor
    · intro hxr
      have hgame : isGameplay r = true := by
        by_contra hgame
        obtain ⟨hmem, hown, htime⟩ := mem_fullRows.1 hr
        obtain ⟨r', hr', hend, -⟩ := hc.alone r hmem hown htime (by simpa using hgame)
          ⟨x, by simp, hxr⟩
        exact h.noEnd hbody r' hr' hend
      exact (hkept r ((mem_timelineRows hkeys).2 ⟨hr, hgame⟩)).2 hxr
    · intro hmem
      exact (hkept r (htimeline r hmem)).1 hmem

/-- A session that the next launch ends: the launch is on its page. -/
theorem Launched.next_iff (hid : sessionIdFromRow x = some target)
    (hunique : Unique target before body behind) (hbody : ∀ y ∈ body, isEnd y = false)
    {n : EventRow} {ns : List EventRow} (hnext : behind = n :: ns) :
    (∀ r ∈ fullRows handle events,
      (r ∈ sessionEventRows handle target events ↔ r ∈ x :: body)) ↔
      CutAlike handle events (x :: body) := by
  have hbounds := h.bounds_open hid hunique hbody
  rw [hnext] at hbounds
  have hn : isInit n = true := h.behind n (by rw [hnext]; rfl)
  have hmem : n ∈ timelineRows handle events := h.mem_timeline (by simp [hnext])
  have hlt : stamp x < stamp n := by
    have hs := timelineRows_sorted hkeys handle
    rw [h.split, hnext, List.append_assoc, List.cons_append] at hs
    exact (List.pairwise_cons.1 (List.pairwise_append.1 hs).2.1).1 n (by simp)
  constructor
  · intro heq
    have hfull := ((mem_timelineRows hkeys).1 hmem).1
    have hselected : n ∈ sessionEventRows handle target events := by
      rw [sessionEventRows_eq hkeys hbounds, List.mem_filter]
      exact ⟨hfull, (inPage_close x n).2 ⟨le_of_lt hlt, le_refl _⟩⟩
    rcases List.mem_cons.1 ((heq n hfull).1 hselected) with rfl | hin
    · exact absurd hlt (lt_irrefl _)
    · rw [h.body n hin] at hn; cases hn
  · intro hc
    rcases hc.ended with ⟨r, hr, hend⟩ | hlast
    · exact absurd hend (h.noEnd hbody r hr)
    · exact absurd (hlast x List.mem_cons_self n hmem (isInit_iff.1 hn)) (not_le_of_gt hlt)

/-- A launch without an id is found under none. -/
theorem Launched.unnamed_iff (hid : sessionIdFromRow x = none)
    (hunique : Unique target before body behind) {rows : List EventRow} (hx : x ∈ rows)
    (hrows : ∀ r ∈ rows, r ∈ x :: body) :
    (∀ r ∈ fullRows handle events,
      (r ∈ sessionEventRows handle target events ↔ r ∈ rows)) ↔
      CutAlike handle events rows := by
  have hnone : findSessionBounds (timelineRows handle events) target = none := by
    have hskip : findBounds target none (timelineRows handle events ++ []) =
        findBounds target none [] :=
      findBounds_skip rfl fun r hr hinit => by
        rw [h.split, List.append_assoc, List.cons_append, List.mem_append, List.mem_cons] at hr
        rcases hr with hr | rfl | hr
        · exact hunique r (by simp [hr]) hinit
        · simp [hid]
        · exact hunique r (by rcases List.mem_append.1 hr with hr | hr <;> simp [hr]) hinit
    rwa [List.append_nil, findBounds] at hskip
  constructor
  · intro heq
    have hmem := h.mem_timeline List.mem_cons_self
    have hshown := (heq x ((mem_timelineRows hkeys).1 hmem).1).2 hx
    simp only [sessionEventRows, hnone] at hshown
    cases hshown
  · intro hc
    obtain ⟨r, hr, hsome⟩ := hc.named
    rcases List.mem_cons.1 (hrows r hr) with rfl | hr
    · rw [hid] at hsome; cases hsome
    · rw [sessionIdFromRow, if_pos] at hsome
      · cases hsome
      · intro hinit
        rw [← isInit_iff, h.body r hr] at hinit
        cases hinit

end

/-! ## The sessions of the list -/

theorem initSessionId_of_some {r : EventRow} {id : String} (h : sessionIdFromRow r = some id) :
    initSessionId r = id := by
  rw [sessionIdFromRow] at h
  split at h
  case isTrue => cases h
  case isFalse => rw [initSessionId, h]; rfl

theorem unique_of_ids {before body behind : List EventRow} {x : EventRow} (hinit : isInit x = true)
    (hids : (((before ++ (x :: body) ++ behind).filter isInit).map initSessionId).Nodup) :
    Unique (initSessionId x) before body behind := by
  have hperm : (before ++ (x :: body) ++ behind).Perm (x :: (before ++ body ++ behind)) := by
    rw [List.append_assoc, List.append_assoc, List.cons_append]
    exact List.perm_middle
  rw [((hperm.filter isInit).map initSessionId).nodup_iff, List.filter_cons_of_pos hinit,
    List.map_cons, List.nodup_cons] at hids
  intro r hr hinit hsome
  refine hids.1 ?_
  rw [← initSessionId_of_some hsome]
  exact List.mem_map_of_mem (List.mem_filter.2 ⟨hr, hinit⟩)

theorem sessionAgg_id {x : EventRow} {rest : List EventRow} (hinit : isInit x = true)
    (hrest : ∀ r ∈ rest, isInit r = false) :
    (sessionAgg (x :: rest)).id = initSessionId x := by
  have hnone : Sql.maxOf (rest.map fun r : EventRow =>
      if r.eventType = "process_init" then some (initSessionId r) else none) = none := by
    refine Sql.maxOf_eq_none.2 fun a ha => ?_
    obtain ⟨r, hr, rfl⟩ := List.mem_map.1 ha
    rw [if_neg fun h => ?_]
    rw [← isInit_iff, hrest r hr] at h
    cases h
  rw [sessionAgg]
  simp only [List.map_cons, Sql.maxOf_cons, hnone, Sql.greatest_none_right, isInit_iff.1 hinit,
    if_true, Option.getD_some]

section
variable {handle : String} {events rows : List EventRow}
  (hkeys : (events.map (·.idempotencyKey)).Nodup)

theorem exists_launched (hrows : rows ∈ countedRows handle events) :
    ∃ before x body behind, Launched (timelineRows handle events) before x body behind ∧
      rows = x :: upTo isEnd body := by
  rw [countedRows_eq] at hrows
  obtain ⟨p, hp, rfl⟩ := List.mem_map.1 hrows
  obtain ⟨before, x, body, behind, hsplit, rfl, hinit, hbody, hbehind⟩ := exists_of_mem_islands hp
  refine ⟨before, x, body, behind, ⟨hsplit, hinit, hbody, hbehind⟩, ?_⟩
  rw [upTo, isEnd_of_isInit hinit]
  rfl

theorem countedRows_sublist (hrows : rows ∈ countedRows handle events) :
    rows.Sublist (timelineRows handle events) := by
  obtain ⟨before, x, body, behind, h, rfl⟩ := exists_launched hrows
  rw [h.split]
  have hkept : (x :: upTo isEnd body).Sublist (x :: body) := upTo_sublist.cons_cons x
  exact (hkept.trans (List.sublist_append_right before _)).trans (List.sublist_append_left _ behind)

include hkeys

/-- Of each session: its bounds select what it is counted from just when they are cut alike. -/
theorem selected_iff
    (hids : (((timelineRows handle events).filter isInit).map initSessionId).Nodup)
    (hrows : rows ∈ countedRows handle events) :
    (∀ r ∈ fullRows handle events,
      (r ∈ sessionEventRows handle (sessionAgg rows).id events ↔ r ∈ rows)) ↔
      CutAlike handle events rows := by
  obtain ⟨before, x, body, behind, h, rfl⟩ := exists_launched hrows
  have hunique := unique_of_ids h.init (h.split ▸ hids)
  rw [sessionAgg_id h.init fun r hr => h.body r (upTo_sublist.subset hr)]
  cases hid : sessionIdFromRow x with
  | none =>
    exact h.unnamed_iff hkeys hid hunique List.mem_cons_self
      (upTo_sublist.cons_cons x).subset
  | some id =>
    obtain rfl := initSessionId_of_some hid
    by_cases hend : ∃ e ∈ body, isEnd e = true
    · obtain ⟨a, e, b, hbody, ha, he, hupTo⟩ := exists_upTo hend
      rw [hupTo]
      exact h.ended_iff hkeys hid hunique hbody ha he
    · have hbody : ∀ y ∈ body, isEnd y = false := fun y hy => by
        by_contra hy'
        exact hend ⟨y, hy, by simpa using hy'⟩
      rw [upTo_of_none hbody]
      cases hbehind : behind with
      | nil => exact h.open_iff hkeys hid hunique hbody hbehind
      | cons n ns => exact h.next_iff hkeys hid hunique hbody hbehind

/-- As pages, in which each row has its key, they are the same when they have the same rows. -/
theorem envelopes_eq_iff
    {deriveResolvedLocation : String → Option GameEvent → Option ResolvedLocation} {id : String}
    (hrows : rows ∈ countedRows handle events) :
    (sessionEventRows handle id events).map (envelopeFromColumns deriveResolvedLocation) =
        rows.map (envelopeFromColumns deriveResolvedLocation) ↔
      ∀ r ∈ fullRows handle events, (r ∈ sessionEventRows handle id events ↔ r ∈ rows) := by
  have hfull := fullRows_sorted hkeys handle
  have hfullKeys := fullRows_keys hkeys handle
  have hsub : rows.Sublist (fullRows handle events) := by
    have hcounted := countedRows_sublist hrows
    rw [timelineRows_eq hkeys] at hcounted
    exact hcounted.trans List.filter_sublist
  have hsub' : (sessionEventRows handle id events).Sublist (fullRows handle events) := by
    cases hb : findSessionBounds (timelineRows handle events) id with
    | none => simp [sessionEventRows, hb]
    | some b =>
      rw [sessionEventRows_eq hkeys hb]
      exact List.filter_sublist
  constructor
  · intro heq r hr
    have hsameKeys := congrArg (List.map fun e : EventEnvelope => e.idempotencyKey) heq
    rw [List.map_map, List.map_map] at hsameKeys
    have hmem : ∀ {l l' : List EventRow}, l.Sublist (fullRows handle events) →
        l'.Sublist (fullRows handle events) →
        l.map (·.idempotencyKey) = l'.map (·.idempotencyKey) → r ∈ l → r ∈ l' := by
      intro l l' hl hl' hsame hin
      have hkey : r.idempotencyKey ∈ l'.map (·.idempotencyKey) := by
        rw [← hsame]
        exact List.mem_map_of_mem hin
      obtain ⟨r', hr', hk⟩ := List.mem_map.1 hkey
      rwa [← List.inj_on_of_nodup_map hfullKeys (hl'.subset hr') hr hk]
    exact ⟨hmem hsub' hsub hsameKeys, hmem hsub hsub' hsameKeys.symm⟩
  · intro hsame
    congr 1
    refine List.Perm.eq_of_pairwise (fun a b _ _ hab hba => absurd (hab.trans hba) (lt_irrefl _))
      (hfull.sublist hsub') (hfull.sublist hsub) ?_
    have hnodup := nodup_of_keys hfullKeys
    refine (List.perm_ext_iff_of_nodup (hnodup.sublist hsub') (hnodup.sublist hsub)).2 fun r => ?_
    exact ⟨fun hr => (hsame r (hsub'.subset hr)).1 hr, fun hr => (hsame r (hsub.subset hr)).2 hr⟩

end

theorem sessionEventsPage_all
    (deriveResolvedLocation : String → Option GameEvent → Option ResolvedLocation)
    (handle id : String) (events : List EventRow) :
    (sessionEventsPage deriveResolvedLocation handle id none events.length events).events =
      (sessionEventRows handle id events).map (envelopeFromColumns deriveResolvedLocation) := by
  unfold sessionEventsPage sessionEventRows
  cases findSessionBounds (timelineRows handle events) id with
  | none => rfl
  | some b =>
    simp only [fetchSessionEvents]
    rw [List.take_of_length_le]
    rw [orderByTimeKey, List.length_insertionSort]
    exact (List.length_filter_le _ _).trans (List.length_filter_le _ _)

/-- **When the page of a listed session is the session**: the launch has an id, the session was not
ended by the next launch, no `launcher_activity` or `game_crash` comes before its end, and no row
has the time of its end and a larger key. -/
theorem listed_pages_iff
    (deriveResolvedLocation : String → Option GameEvent → Option ResolvedLocation)
    (handle : String) {events : List EventRow}
    (hkeys : (events.map (·.idempotencyKey)).Nodup)
    (hids : (((timelineRows handle events).filter (·.eventType = "process_init")).map
      initSessionId).Nodup) :
    List.Forall₂ (fun s rows => s.eventCount = UInt32.ofNat rows.length ∧
        (sessionEventsPage deriveResolvedLocation handle s.id none events.length events).events =
          rows.map (envelopeFromColumns deriveResolvedLocation))
        (sessionsViaSql handle none events) (listedRows handle events) ↔
      ∀ rows ∈ listedRows handle events, CutAlike handle events rows := by
  rw [forall₂_sessions (fun s rows => s.2 = UInt32.ofNat rows.length ∧
    (sessionEventsPage deriveResolvedLocation handle s.1 none events.length events).events =
      rows.map (envelopeFromColumns deriveResolvedLocation))]
  refine forall₂_congr fun rows hlisted => ?_
  have hrows : rows ∈ countedRows handle events :=
    List.mem_reverse.1 (List.mem_of_mem_take hlisted)
  rw [sessionEventsPage_all, envelopes_eq_iff hkeys hrows, selected_iff hkeys hids hrows]
  simp

/-! ### A session that ends, and one that the next launch ends -/

def sampleLaunch (key : String) (time : Timestamp) (session : String) : EventRow :=
  sampleRow key time "process_init" (some (.processInit ⟨"", session, "", true⟩))

def endedSession : List EventRow := [sampleLaunch "a" 0 "s", sampleRow "b" 1 "session_end" none]

/-- The page of a session that its end closes. -/
theorem listed_pages_of_ended :
    List.Forall₂ (fun s rows => s.eventCount = UInt32.ofNat rows.length ∧
        (sessionEventsPage (fun _ _ => none) "ada" s.id none endedSession.length
          endedSession).events = rows.map (envelopeFromColumns fun _ _ => none))
      (sessionsViaSql "ada" none endedSession) (listedRows "ada" endedSession) := by
  refine (listed_pages_iff _ "ada" (by decide) (by decide)).2 fun rows hrows => ?_
  have hlisted : listedRows "ada" endedSession = [endedSession] := by decide
  rw [hlisted, List.mem_singleton] at hrows
  subst hrows
  exact ⟨by decide, .inl (by decide), by decide, by decide⟩

def twoLaunches : List EventRow := [sampleLaunch "a" 0 "s", sampleLaunch "b" 1 "t"]

/-- The page of the first has the launch of the second. -/
theorem listed_pages_not_counted :
    ¬ ∀ (deriveResolvedLocation : String → Option GameEvent → Option ResolvedLocation)
      (handle : String) (events : List EventRow), (events.map (·.idempotencyKey)).Nodup →
      (((timelineRows handle events).filter (·.eventType = "process_init")).map
        initSessionId).Nodup →
      List.Forall₂ (fun s rows => s.eventCount = UInt32.ofNat rows.length ∧
          (sessionEventsPage deriveResolvedLocation handle s.id none events.length
            events).events = rows.map (envelopeFromColumns deriveResolvedLocation))
        (sessionsViaSql handle none events) (listedRows handle events) := by
  intro h
  have hall := h (fun _ _ => none) "ada" twoLaunches (by decide) (by decide)
  have hpair : ((⟨"s", some 0, some 1, 1⟩ : SessionSummary), [sampleLaunch "a" 0 "s"]) ∈
      (sessionsViaSql "ada" none twoLaunches).zip (listedRows "ada" twoLaunches) := by
    decide
  have hshown := (List.forall₂_zip hall hpair).2
  revert hshown
  decide

end StarStats.EventTimeline
