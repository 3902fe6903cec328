import Mathlib.Algebra.BigOperators.Group.List.Basic
import Mathlib.Data.Int.Basic
import StarStats.Core.CharacterLife

/-!
# What the fold over lives conserves

The lives that a death or a crash has closed are those of the stream, in its order
(`endings_foldl`), and the time in the closed lives and in the open one is never more than the gaps
so far that are within a session (`LifeFold.Within`).
-/

namespace StarStats

open OpenLife

/-! ## A closed life -/

theorem OpenLife.of_close {life : OpenLife} {endedBy : LifeEnd} {endTs : Option String} {l : Life}
    (h : life.close endedBy endTs = some l) :
    l.endedBy = endedBy ∧ l.durationSecs = life.duration ∧ l.deathInferred = life.deathInferred := by
  unfold close at h
  split at h
  · cases h
  · obtain rfl := Option.some.inj h
    exact ⟨rfl, rfl, rfl⟩

theorem OpenLife.duration_nonneg {life : OpenLife} {d : Int} (h : life.duration = some d) :
    0 ≤ d := by
  unfold duration at h
  split at h
  case h_1 a b =>
    split at h
    · obtain rfl := Option.some.inj h
      omega
    · cases h
  case h_2 => cases h

theorem OpenLife.close_of_real (life : OpenLife) {endedBy : LifeEnd}
    (h : endsARealLife endedBy = true) (endTs : Option String) : ∃ l, life.close endedBy endTs = some l := by
  simp [close, h]

/-! ## Endings -/

/-- The deaths and crashes of some lives, and whether a death is inferred. -/
def endings (lives : List Life) : List (LifeEnd × Bool) :=
  (lives.filter fun l => endsARealLife l.endedBy).map fun l =>
    (l.endedBy, l.endedBy = .death && l.deathInferred)

/-- What an event ends a life with. -/
def ending : GameEvent → Option (LifeEnd × Bool)
  | .playerDeath d => some (.death, d.bodyClass == "inferred")
  | .gameCrash _ => some (.crash, false)
  | _ => none

theorem endings_append (lives lives' : List Life) :
    endings (lives ++ lives') = endings lives ++ endings lives' := by
  simp [endings]

theorem endings_of_close {life : OpenLife} {endedBy : LifeEnd} {endTs : Option String} :
    endings (life.close endedBy endTs).toList =
      if endsARealLife endedBy then [(endedBy, endedBy = .death && life.deathInferred)] else [] := by
  cases hclose : life.close endedBy endTs with
  | none =>
    split
    · rename_i hreal
      obtain ⟨l, hl⟩ := life.close_of_real hreal endTs
      rw [hl] at hclose
      cases hclose
    · rfl
  | some l =>
    obtain ⟨hend, -, hinferred⟩ := of_close hclose
    simp only [endings, Option.toList_some, List.filter_cons, List.filter_nil, hend]
    split
    · simp [hend, hinferred]
    · rfl

section
variable {parseTs : String → Option Int} {cfg : LifeConfig} {st : LifeFold} {ev : GameEvent}
  {events : List EventEnvelope}

namespace LifeFold

theorem endings_flush {endedBy : LifeEnd} (h : endsARealLife endedBy = false) :
    endings (st.flush endedBy).lives = endings st.lives := by
  have hclosed : endings (st.opened.bind (·.close endedBy none)).toList = [] := by
    cases st.opened with
    | none => rfl
    | some life =>
      rw [Option.bind_some, endings_of_close, h]
      rfl
  rw [flush, endings_append, hclosed, List.append_nil]

theorem endings_dies {endedBy : LifeEnd} (h : endsARealLife endedBy = true) (ts : String)
    (mark : OpenLife → OpenLife) :
    endings (st.dies endedBy ts mark).lives = endings st.lives ++
      [(endedBy, endedBy = .death && (mark (st.opened.getD (.new none))).deathInferred)] := by
  rw [dies, endings_append, endings_of_close, h]
  rfl

/-- Behind a gap the life is a new one; else it is the one before, or the first of a session. -/
theorem session_cases :
    (st.gapBefore cfg (epochSecs parseTs ev.timestamp) = true ∧
        (st.session parseTs cfg ev).lives = (st.flush .sessionGap).lives ∧
        (st.session parseTs cfg ev).opened = some (.new (some ev.timestamp))) ∨
      (st.gapBefore cfg (epochSecs parseTs ev.timestamp) = false ∧
        (st.session parseTs cfg ev).lives = st.lives ∧
        ((st.session parseTs cfg ev).opened = some (.new (some ev.timestamp)) ∨
          (st.session parseTs cfg ev).opened = st.opened)) := by
  have hlives : (st.session parseTs cfg ev).lives =
      ((st.afterGap cfg (epochSecs parseTs ev.timestamp)).enter ev.timestamp).lives := rfl
  have hopened : (st.session parseTs cfg ev).opened =
      ((st.afterGap cfg (epochSecs parseTs ev.timestamp)).enter ev.timestamp).opened := rfl
  rw [hlives, hopened, afterGap]
  cases st.gapBefore cfg (epochSecs parseTs ev.timestamp) with
  | true => exact .inl ⟨rfl, rfl, rfl⟩
  | false =>
    refine .inr ⟨rfl, ?_⟩
    rw [if_neg Bool.false_ne_true, enter]
    split
    · exact ⟨rfl, .inr rfl⟩
    · exact ⟨rfl, .inl rfl⟩

theorem lastTs_session : (st.session parseTs cfg ev).lastTs =
    (epochSecs parseTs ev.timestamp).or st.lastTs := rfl

theorem lives_active : (st.active parseTs ev).lives = st.lives := by
  unfold active
  split
  · split <;> rfl
  · rfl

theorem endings_onEvent :
    endings (st.onEvent parseTs cfg ev).lives = endings st.lives ++ (ending ev).toList := by
  have hbefore : endings ((st.session parseTs cfg ev).active parseTs ev).lives =
      endings st.lives := by
    rw [lives_active]
    rcases session_cases with ⟨-, hlives, -⟩ | ⟨-, hlives, -⟩
    · rw [hlives, endings_flush rfl]
    · rw [hlives]
  unfold onEvent ending
  split
  case h_1 incap => simpa using hbefore
  case h_2 d =>
    rw [endings_dies rfl, hbefore]
    simp
  case h_3 c =>
    rw [endings_dies rfl, hbefore]
    simp
  case h_4 hdown hdeath hcrash =>
    split
    case h_1 d => exact absurd rfl (hdeath d)
    case h_2 c => exact absurd rfl (hcrash c)
    case h_3 => simpa using hbefore

theorem endings_foldl (events : List GameEvent) :
    endings (events.foldl (onEvent parseTs cfg) st).lives =
      endings st.lives ++ events.filterMap ending := by
  induction events generalizing st with
  | nil => simp
  | cons ev rest ih =>
    rw [List.foldl_cons, ih, endings_onEvent, List.append_assoc, List.filterMap_cons]
    cases ending ev <;> rfl

end LifeFold

/-- The lives that a death or a crash has closed are those of the stream, one for each. -/
theorem endings_deriveLives (parseTs : String → Option Int) (cfg : LifeConfig)
    (events : List EventEnvelope) :
    endings (deriveLives parseTs cfg events).lives = (classified events).filterMap ending :=
  (LifeFold.endings_flush rfl).trans (LifeFold.endings_foldl _)

/-! ## Counts -/

/-- Lives of a kind that a death or a crash ends are counted as the events of that kind. -/
theorem countP_lives (p : LifeEnd × Bool → Bool) :
    (deriveLives parseTs cfg events).lives.countP (fun l => endsARealLife l.endedBy &&
        p (l.endedBy, l.endedBy = .death && l.deathInferred)) =
      (classified events).countP fun ev => ((ending ev).map p).getD false := by
  rw [← List.countP_filterMap, ← endings_deriveLives parseTs cfg, endings, List.countP_map,
    List.countP_filter]
  refine List.countP_congr fun l _ => ?_
  simp [Bool.and_comm]

theorem deaths_eq : (deriveLives parseTs cfg events).lives.countP (·.endedBy = .death) =
    (classified events).countP isDeath := by
  refine (List.countP_congr fun l _ => ?_).trans ((countP_lives fun e => e.1 = .death).trans
    (List.countP_congr fun ev _ => ?_))
  · cases l.endedBy <;> simp [endsARealLife]
  · cases ev <;> simp [ending, isDeath]

theorem deathsInferred_eq :
    (deriveLives parseTs cfg events).lives.countP (fun l => l.endedBy = .death && l.deathInferred) =
      (classified events).countP isInferredDeath := by
  refine (List.countP_congr fun l _ => ?_).trans ((countP_lives fun e => e.2).trans
    (List.countP_congr fun ev _ => ?_))
  · cases l.endedBy <;> simp [endsARealLife]
  · cases ev <;> simp [ending, isInferredDeath]

theorem livesEndedByCrash_eq : (deriveLives parseTs cfg events).lives.countP (·.endedBy = .crash) =
    (classified events).countP isCrash := by
  refine (List.countP_congr fun l _ => ?_).trans ((countP_lives fun e => e.1 = .crash).trans
    (List.countP_congr fun ev _ => ?_))
  · cases l.endedBy <;> simp [endsARealLife]
  · cases ev <;> simp [ending, isCrash]

/-- A life has one ending. -/
theorem length_eq_countP_endedBy (lives : List Life) :
    lives.length = lives.countP (·.endedBy = .death) + lives.countP (·.endedBy = .crash) +
      lives.countP (·.endedBy = .sessionGap) + lives.countP (·.endedBy = .stillAlive) := by
  induction lives with
  | nil => rfl
  | cons l lives ih =>
    simp only [List.length_cons, List.countP_cons]
    cases l.endedBy <;> simp <;> omega

/-! ## Durations -/

/-- The life is an open one that has been closed. -/
def ClosedLife (l : Life) : Prop :=
  ∃ (life : OpenLife) (endedBy : LifeEnd) (endTs : Option String),
    life.close endedBy endTs = some l

theorem ClosedLife.duration_nonneg {l : Life} (h : ClosedLife l) {d : Int} (hd : l.durationSecs = some d) :
    0 ≤ d := by
  obtain ⟨life, endedBy, endTs, hclose⟩ := h
  rw [(of_close hclose).2.1] at hd
  exact OpenLife.duration_nonneg hd

namespace LifeFold

def AllClosed (st : LifeFold) : Prop := ∀ l ∈ st.lives, ClosedLife l

theorem AllClosed.flush (h : st.AllClosed) (endedBy : LifeEnd) : (st.flush endedBy).AllClosed := by
  intro l hl
  rcases List.mem_append.1 hl with hl | hl
  · exact h l hl
  · obtain ⟨life, -, hclose⟩ := Option.bind_eq_some_iff.1 (Option.mem_toList.1 hl)
    exact ⟨life, endedBy, none, hclose⟩

theorem AllClosed.dies (h : st.AllClosed) (endedBy : LifeEnd) (ts : String)
    (mark : OpenLife → OpenLife) : (st.dies endedBy ts mark).AllClosed := by
  intro l hl
  rcases List.mem_append.1 hl with hl | hl
  · exact h l hl
  · exact ⟨_, endedBy, some ts, Option.mem_toList.1 hl⟩

theorem AllClosed.onEvent (h : st.AllClosed) : (st.onEvent parseTs cfg ev).AllClosed := by
  have hbefore : ((st.session parseTs cfg ev).active parseTs ev).AllClosed := by
    intro l hl
    rw [lives_active] at hl
    rcases session_cases with ⟨-, hlives, -⟩ | ⟨-, hlives, -⟩
    · exact h.flush _ l (hlives ▸ hl)
    · exact h l (hlives ▸ hl)
  unfold LifeFold.onEvent
  split
  case h_1 incap => exact hbefore
  case h_2 d => exact hbefore.dies _ _ _
  case h_3 c => exact hbefore.dies _ _ _
  case h_4 => exact hbefore

theorem AllClosed.foldl (h : st.AllClosed) (events : List GameEvent) :
    (events.foldl (LifeFold.onEvent parseTs cfg) st).AllClosed := by
  induction events generalizing st with
  | nil => exact h
  | cons ev rest ih => exact ih h.onEvent

/-! ## The time that is lived -/

/-- The durations of some lives together. -/
def lived (lives : List Life) : Int := (lives.filterMap (·.durationSecs)).sum

theorem lived_append (lives lives' : List Life) :
    lived (lives ++ lives') = lived lives + lived lives' := by
  rw [lived, List.filterMap_append, List.sum_append]
  rfl

theorem lived_close (life : OpenLife) (endedBy : LifeEnd) (endTs : Option String) :
    lived (life.close endedBy endTs).toList = life.duration.getD 0 := by
  cases hclose : life.close endedBy endTs with
  | none =>
    unfold close at hclose
    split at hclose
    · rename_i hidle
      have hfirst : life.firstActive = none := by
        cases hfirst : life.firstActive with
        | none => rfl
        | some a => simp [hfirst] at hidle
      rw [duration, hfirst]
      rfl
    · cases hclose
  | some l =>
    rw [← (of_close hclose).2.1, lived, Option.toList_some]
    cases hduration : l.durationSecs <;> simp [hduration]

/-- The closed lives, and the open one up to the last event, are within `total` seconds. -/
structure Within (st : LifeFold) (total : Int) : Prop where
  closed : lived st.lives ≤ total
  opened : ∀ life a, st.opened = some life → life.firstActive = some a →
    ∃ b last, life.lastActive = some b ∧ st.lastTs = some last ∧ a ≤ b ∧ b ≤ last ∧
      lived st.lives + (last - a) ≤ total

variable {total t : Int}

theorem Within.duration_le (h : st.Within total) {life : OpenLife} (hopen : st.opened = some life) :
    lived st.lives + life.duration.getD 0 ≤ total := by
  have hclosed := h.closed
  cases hfirst : life.firstActive with
  | none =>
    rw [duration, hfirst]
    simpa using hclosed
  | some a =>
    obtain ⟨b, last, hb, -, hab, hbl, hle⟩ := h.opened life a hopen hfirst
    rw [duration, hfirst, hb]
    simp only [hab, if_true, Option.getD_some]
    omega

theorem Within.flush (h : st.Within total) (endedBy : LifeEnd) :
    lived (st.flush endedBy).lives ≤ total := by
  rw [LifeFold.flush, lived_append]
  cases hopen : st.opened with
  | none => simpa [lived] using h.closed
  | some life =>
    rw [Option.bind_some, lived_close]
    exact h.duration_le hopen

theorem Within.of_new {ts : Option String} (hlived : lived st.lives ≤ total)
    (hnew : st.opened = some (.new ts)) : st.Within total := by
  refine ⟨hlived, fun life a hopen hfirst => ?_⟩
  rw [hnew] at hopen
  obtain rfl := Option.some.inj hopen
  cases hfirst

/-- What a gap before an event adds, if the event is still in the session. -/
def sessionGap (cfg : LifeConfig) (lastTs : Option Int) (t : Int) : Int :=
  match lastTs with
  | some last => if t - last ≤ cfg.sessionGapSecs then t - last else 0
  | none => 0

theorem sessionGap_nonneg (hle : ∀ last, st.lastTs = some last → last ≤ t) :
    0 ≤ sessionGap cfg st.lastTs t := by
  unfold sessionGap
  split
  · rename_i last hlast
    have := hle last hlast
    split <;> omega
  · omega

variable (cfg) in
theorem Within.session (h : st.Within total) (ht : epochSecs parseTs ev.timestamp = some t)
    (hle : ∀ last, st.lastTs = some last → last ≤ t) :
    (st.session parseTs cfg ev).Within (total + sessionGap cfg st.lastTs t) ∧
      (st.session parseTs cfg ev).lastTs = some t := by
  have hlast : (st.session parseTs cfg ev).lastTs = some t := by rw [lastTs_session, ht]; rfl
  have hgap : 0 ≤ sessionGap cfg st.lastTs t := sessionGap_nonneg hle
  have hclosed := h.closed
  refine ⟨?_, hlast⟩
  rcases @session_cases parseTs cfg st ev with ⟨-, hlives, hnew⟩ | ⟨hnear, hlives, hopen⟩
  · have hflush := h.flush .sessionGap
    exact .of_new (by rw [hlives]; omega) hnew
  · rcases hopen with hnew | hsame
    · exact .of_new (by rw [hlives]; omega) hnew
    · refine ⟨by rw [hlives]; omega, fun life a hopen hfirst => ?_⟩
      rw [hsame] at hopen
      obtain ⟨b, last, hb, hlast', hab, hbl, hsum⟩ := h.opened life a hopen hfirst
      have hnear : t - last ≤ cfg.sessionGapSecs := by
        simpa [gapBefore, hlast', ht] using hnear
      have hlt := hle last hlast'
      refine ⟨b, t, hb, hlast, hab, by omega, ?_⟩
      have hadded : sessionGap cfg st.lastTs t = t - last := by
        rw [hlast']
        exact if_pos hnear
      rw [hlives, hadded]
      omega

theorem Within.active (h : st.Within total) (ht : epochSecs parseTs ev.timestamp = some t)
    (hlast : st.lastTs = some t) : (st.active parseTs ev).Within total := by
  unfold LifeFold.active
  rw [ht]
  dsimp only
  split
  · exact h
  · refine ⟨h.closed, fun life a hopen hfirst => ?_⟩
    obtain ⟨life, hlife, rfl⟩ := Option.map_eq_some_iff.1 hopen
    cases hbefore : life.firstActive with
    | none =>
      have ha : t = a := by simpa [markActive, hbefore] using hfirst
      have hclosed := h.closed
      exact ⟨t, t, rfl, hlast, by omega, by omega, by show lived st.lives + _ ≤ _; omega⟩
    | some a' =>
      have ha : a' = a := by simpa [markActive, hbefore] using hfirst
      obtain ⟨b, last, -, hlast', hab, hbl, hsum⟩ := h.opened life a' hlife hbefore
      obtain rfl := Option.some.inj (hlast.symm.trans hlast')
      exact ⟨t, t, rfl, hlast, by omega, by omega, by show lived st.lives + _ ≤ _; omega⟩

theorem Within.dies (h : st.Within total) (endedBy : LifeEnd) (ts : String)
    {mark : OpenLife → OpenLife} (hmark : ∀ life, (mark life).duration = life.duration) :
    (st.dies endedBy ts mark).Within total := by
  refine .of_new ?_ rfl
  rw [LifeFold.dies, lived_append, lived_close, hmark]
  cases hopen : st.opened with
  | none => simpa [OpenLife.new, duration] using h.closed
  | some life => exact h.duration_le hopen

variable (cfg) in
theorem Within.onEvent (h : st.Within total) (ht : epochSecs parseTs ev.timestamp = some t)
    (hle : ∀ last, st.lastTs = some last → last ≤ t) :
    (st.onEvent parseTs cfg ev).Within (total + sessionGap cfg st.lastTs t) ∧
      (st.onEvent parseTs cfg ev).lastTs = some t := by
  obtain ⟨hsession, hlast⟩ := h.session cfg ht hle
  have hactive := hsession.active ht hlast
  have hlast' : ((st.session parseTs cfg ev).active parseTs ev).lastTs = some t := by
    rw [← hlast]
    unfold LifeFold.active
    split
    · split <;> rfl
    · rfl
  unfold LifeFold.onEvent
  split
  case h_1 incap =>
    refine ⟨⟨hactive.closed, fun life a hopen hfirst => ?_⟩, hlast'⟩
    obtain ⟨life, hlife, rfl⟩ := Option.map_eq_some_iff.1 hopen
    exact hactive.opened life a hlife hfirst
  case h_2 d => exact ⟨hactive.dies _ _ fun _ => rfl, hlast'⟩
  case h_3 c => exact ⟨hactive.dies _ _ fun _ => rfl, hlast'⟩
  case h_4 => exact ⟨hactive, hlast'⟩

/-- The gaps from one time on that are within a session. -/
def gapsWithin (cfg : LifeConfig) (times : List Int) : Int :=
  ((gapsOf times).filter (· ≤ cfg.sessionGapSecs)).sum

theorem gapsWithin_cons (last t : Int) (times : List Int) :
    gapsWithin cfg (last :: t :: times) =
      sessionGap cfg (some last) t + gapsWithin cfg (t :: times) := by
  have hgaps : gapsOf (last :: t :: times) = (t - last) :: gapsOf (t :: times) := rfl
  rw [gapsWithin, hgaps, List.filter_cons]
  by_cases hnear : t - last ≤ cfg.sessionGapSecs
  · simp [sessionGap, hnear, gapsWithin]
  · simp [sessionGap, hnear, gapsWithin]

variable (cfg) in
theorem Within.foldl {last : Int} {events : List GameEvent} (h : st.Within total)
    (hlast : st.lastTs = some last)
    (htimed : ∀ ev ∈ events, (epochSecs parseTs ev.timestamp).isSome = true)
    (hsorted : (last :: events.filterMap (epochSecs parseTs ·.timestamp)).Pairwise (· ≤ ·)) :
    (events.foldl (LifeFold.onEvent parseTs cfg) st).Within (total +
      gapsWithin cfg (last :: events.filterMap (epochSecs parseTs ·.timestamp))) := by
  induction events generalizing st total last with
  | nil => simpa [gapsWithin, gapsOf] using h
  | cons ev rest ih =>
    obtain ⟨t, ht⟩ := Option.isSome_iff_exists.1 (htimed ev List.mem_cons_self)
    have htimes : (ev :: rest).filterMap (epochSecs parseTs ·.timestamp) =
        t :: rest.filterMap (epochSecs parseTs ·.timestamp) := List.filterMap_cons_some ht
    rw [htimes] at hsorted ⊢
    obtain ⟨hle, hsorted⟩ := List.pairwise_cons.1 hsorted
    have hbefore : ∀ last', st.lastTs = some last' → last' ≤ t := by
      intro last' hlast'
      rw [← Option.some.inj (hlast.symm.trans hlast')]
      exact hle t List.mem_cons_self
    obtain ⟨hstep, hlast'⟩ := h.onEvent cfg ht hbefore
    rw [hlast] at hstep
    rw [gapsWithin_cons, ← Int.add_assoc]
    exact ih hstep hlast' (fun ev hev => htimed ev (List.mem_cons_of_mem _ hev)) hsorted

end LifeFold

theorem allClosed_deriveLives : ∀ l ∈ (deriveLives parseTs cfg events).lives, ClosedLife l := by
  have hstart : LifeFold.start.AllClosed := by simp [LifeFold.AllClosed, LifeFold.start]
  exact (hstart.foldl (classified events)).flush .stillAlive

/-- The whole seconds of a stream's events are in order. -/
theorem WellTimed.epochs (h : WellTimed parseTs events) :
    (∀ ev ∈ classified events, (epochSecs parseTs ev.timestamp).isSome = true) ∧
      ((classified events).filterMap (epochSecs parseTs ·.timestamp)).Pairwise (· ≤ ·) := by
  constructor
  · intro ev hev
    obtain ⟨env, henv, hevent⟩ := List.mem_filterMap.1 hev
    have htime := h.1 env henv (by rw [hevent]; rfl)
    simpa [envelopeTime, envelopeTimestamp, hevent, epochSecs] using htime
  · have htimes : (classified events).filterMap (epochSecs parseTs ·.timestamp) =
        (events.filterMap (envelopeTime parseTs)).map (· / 1000000000) := by
      rw [classified, List.filterMap_filterMap, List.map_filterMap]
      refine List.filterMap_congr fun env _ => ?_
      cases henv : env.event <;> simp [envelopeTime, envelopeTimestamp, henv, epochSecs]
    rw [htimes, List.pairwise_map]
    exact h.2.imp fun hle => Int.ediv_le_ediv (by decide) hle

theorem lived_deriveLives (h : WellTimed parseTs events) :
    LifeFold.lived (deriveLives parseTs cfg events).lives ≤ sessionSecs parseTs cfg events := by
  obtain ⟨htimed, hsorted⟩ := h.epochs
  show LifeFold.lived (LifeFold.flush _ _).lives ≤ _
  unfold sessionSecs
  generalize classified events = evs at htimed hsorted ⊢
  have hstart : LifeFold.start.Within 0 := ⟨by decide, fun life a hopen => by cases hopen⟩
  cases evs with
  | nil => exact hstart.flush _
  | cons ev rest =>
    obtain ⟨t, ht⟩ := Option.isSome_iff_exists.1 (htimed ev List.mem_cons_self)
    obtain ⟨hfirst, hlast⟩ := hstart.onEvent cfg ht (fun last h => by cases h)
    have htimes : (ev :: rest).filterMap (epochSecs parseTs ·.timestamp) =
        t :: rest.filterMap (epochSecs parseTs ·.timestamp) := List.filterMap_cons_some ht
    rw [htimes] at hsorted ⊢
    have hrest := hfirst.foldl cfg hlast (fun ev hev => htimed ev (List.mem_cons_of_mem _ hev)) hsorted
    simpa [LifeFold.gapsWithin, LifeFold.sessionGap, LifeFold.start] using hrest.flush .stillAlive

end

/-- **What the fold over lives conserves**: each death and each crash ends one life, the counters
are these numbers at their width, and the lives are no longer than the gaps of the stream that are
within a session. -/
theorem deriveLives_conserves (parseTs : String → Option Int) (cfg : LifeConfig)
    (events : List EventEnvelope) :
    let summary := deriveLives parseTs cfg events
    let endedBy := fun ending => summary.lives.countP (·.endedBy = ending)
    let inferred := summary.lives.countP fun l => l.endedBy = .death && l.deathInferred
    (endedBy .death = (classified events).countP isDeath ∧
      summary.deaths = (endedBy .death).toUInt32) ∧
      (endedBy .crash = (classified events).countP isCrash ∧
        summary.livesEndedByCrash = (endedBy .crash).toUInt32) ∧
      (inferred = (classified events).countP isInferredDeath ∧
        summary.deathsInferred = inferred.toUInt32) ∧
      inferred ≤ endedBy .death ∧
      (summary.lives.length =
        endedBy .death + endedBy .crash + endedBy .sessionGap + endedBy .stillAlive ∧
        summary.totalLives = summary.lives.length.toUInt32) ∧
      (∀ l ∈ summary.lives, ∀ d, l.durationSecs = some d → 0 ≤ d) ∧
      (WellTimed parseTs events →
        (summary.lives.filterMap (·.durationSecs)).sum ≤ sessionSecs parseTs cfg events) := by
  refine ⟨⟨deaths_eq, rfl⟩, ⟨livesEndedByCrash_eq, rfl⟩, ⟨deathsInferred_eq, rfl⟩,
    List.countP_mono_left fun l _ hl => (Bool.and_eq_true_iff.1 hl).1,
    ⟨length_eq_countP_endedBy _, rfl⟩,
    fun l hl d hd => (allClosed_deriveLives l hl).duration_nonneg hd, lived_deriveLives⟩

/-- An inferred death between two active events, and a session behind it. -/
theorem deriveLives_conserves_death :
    let parseTs : String → Option Int := fun ts =>
      if ts = "2026-01-01T00:00:00Z" then some 1767225600000000000
      else if ts = "2026-01-01T00:01:00Z" then some 1767225660000000000
      else none
    let envelope := fun event : GameEvent =>
      (⟨"", "", some event, .live, 0, none, none⟩ : EventEnvelope)
    let events := [envelope (.joinPu ⟨"2026-01-01T00:00:00Z", "", 0, "a", ""⟩),
      envelope (.playerDeath ⟨"2026-01-01T00:01:00Z", "inferred", "b", none⟩)]
    ((deriveLives parseTs .default events).lives.filterMap (·.durationSecs)).sum ≤
      sessionSecs parseTs .default events := by
  intro parseTs envelope events
  exact (deriveLives_conserves parseTs .default events).2.2.2.2.2.2 (by
    constructor <;> decide)

/-! ### A tenth of a second -/

/-- The gaps of a stream that are within a session, to the nanosecond. -/
def sessionNanos (parseTs : String → Option Int) (cfg : LifeConfig) (events : List EventEnvelope) :
    Int :=
  ((gapsOf (events.filterMap (envelopeTime parseTs))).filter
    (· ≤ cfg.sessionGapSecs * 1000000000)).sum

/-- The clock of the fold has whole seconds only. -/
theorem deriveLives_not_exact :
    ¬ ∀ (parseTs : String → Option Int) (cfg : LifeConfig) (events : List EventEnvelope),
      WellTimed parseTs events →
        ((deriveLives parseTs cfg events).lives.filterMap (·.durationSecs)).sum * 1000000000 ≤
          sessionNanos parseTs cfg events := by
  intro h
  have hsum := h (fun ts => if ts = "2026-01-01T00:00:00.900Z" then some 1767225600900000000
      else if ts = "2026-01-01T00:00:01Z" then some 1767225601000000000 else none) .default
    [⟨"", "", some (.joinPu ⟨"2026-01-01T00:00:00.900Z", "", 0, "a", ""⟩), .live, 0, none, none⟩,
      ⟨"", "", some (.joinPu ⟨"2026-01-01T00:00:01Z", "", 0, "a", ""⟩), .live, 0, none, none⟩]
    (by constructor <;> decide)
  exact absurd hsum (by decide)

end StarStats
