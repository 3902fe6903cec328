import StarStats.Server.EventTimeline

/-!
# Hidden events and blocks on the per-session reads

`policy_holds_iff`: for a caller other than the owner, the reads of `event_timeline.rs` keep to the
owner's hidden events and blocks exactly where the caller is refused anyway. With an active
timeline share, a hidden `process_init` row is listed as a session, and a block is not asked.
-/

namespace StarStats.EventTimeline

open Text (lower)

namespace TimelineVisit
variable (v : TimelineVisit)

theorem callerMayViewTimeline_eq :
    callerMayViewTimeline v.now v.shares v.handle v.caller.preferredUsername =
      v.holdsTimelineShare := by
  simp only [callerMayViewTimeline, v.other, Bool.false_eq_true, if_false, holdsTimelineShare]
  cases (v.shares.find v.handle v.caller.preferredUsername).filter (·.active v.now) <;> rfl

variable {v}

/-! ## Callers without a share -/

theorem sessions_refused (h : validateHandle v.handle = true → v.holdsTimelineShare = false)
    (hours : Option Int) : ∃ r, ∀ events, v.sessions hours events = .error r := by
  simp only [sessions, listSessions, v.calls]
  cases hv : validateHandle v.handle with
  | false => exact ⟨_, fun _ => rfl⟩
  | true =>
    cases hw : timelineWindowSince v.now hours with
    | error r => exact ⟨r, fun _ => rfl⟩
    | ok since =>
      refine ⟨err 403 "share_event_timeline_not_granted", fun events => ?_⟩
      simp only [Bool.not_true, Bool.false_eq_true, if_false, requireTimelineGrant,
        callerMayViewTimeline_eq, h hv]

theorem sessionEvents_refused (h : validateHandle v.handle = true → v.holdsTimelineShare = false)
    (sessionId : String) (after : Option String) (limit : Option Int) :
    ∃ r, ∀ events, v.sessionEvents sessionId after limit events = .error r := by
  simp only [sessionEvents, listSessionEvents, v.calls]
  cases hv : validateHandle v.handle with
  | false => exact ⟨_, fun _ => rfl⟩
  | true =>
    cases hs : validSessionId sessionId with
    | false => exact ⟨_, fun _ => rfl⟩
    | true =>
      refine ⟨err 403 "share_event_timeline_not_granted", fun events => ?_⟩
      simp only [Bool.not_true, Bool.false_eq_true, if_false, requireTimelineGrant,
        callerMayViewTimeline_eq, h hv]

/-! ## Callers with one -/

/-- A hidden `process_init` row of the handle. -/
def hiddenInit (handle : String) : EventRow where
  idempotencyKey := "k"
  claimedHandle := lower handle
  eventType := "process_init"
  eventTimestamp := some 0
  logSource := .live
  sourceOffset := 0
  rawLine := ""
  payload := none
  metadata := none
  resolvedLocation := none
  receivedAt := 0
  hiddenAt := some 0

theorem timelineRows_hiddenInit (handle : String) :
    timelineRows handle [hiddenInit handle] = [hiddenInit handle] := by
  simp [timelineRows, hiddenInit, isGameplay, orderByTimeKey]

theorem length_sessionsViaSql_hiddenInit (handle : String) :
    (sessionsViaSql handle none [hiddenInit handle]).length = 1 := by
  simp only [sessionsViaSql, timelineRows_hiddenInit]
  rfl

theorem sessions_of_share (hv : validateHandle v.handle = true) (h : v.holdsTimelineShare = true)
    (events : List EventRow) :
    v.sessions none events = .ok (sessionsViaSql v.handle none events) := by
  simp only [sessions, listSessions, v.calls, hv, Bool.not_true, Bool.false_eq_true, if_false,
    timelineWindowSince, requireTimelineGrant, callerMayViewTimeline_eq, h, if_true]

/-- **Where hiding and blocking hold on the per-session reads**: only for callers without an
active timeline share. -/
theorem policy_holds_iff (v : TimelineVisit) :
    (v.HidesHidden ∧ v.RefusesBlocked) ↔
      (validateHandle v.handle = true → v.holdsTimelineShare = false) := by
  constructor
  · rintro ⟨hhidden, -⟩ hv
    cases hshare : v.holdsTimelineShare with
    | false => rfl
    | true =>
      have heq := (hhidden [hiddenInit v.handle] [] rfl).1 none
      rw [sessions_of_share hv hshare, sessions_of_share hv hshare] at heq
      have hlen := congrArg List.length (Except.ok.inj heq)
      rw [length_sessionsViaSql_hiddenInit] at hlen
      cases hlen
  · intro h
    refine ⟨fun events events' _ => ⟨fun hours => ?_, fun sessionId after limit => ?_⟩,
      fun _ events => ⟨fun hours => ?_, fun sessionId after limit => ?_⟩⟩
    · obtain ⟨r, hr⟩ := sessions_refused h hours
      rw [hr, hr]
    · obtain ⟨r, hr⟩ := sessionEvents_refused h sessionId after limit
      rw [hr, hr]
    · obtain ⟨r, hr⟩ := sessions_refused h hours
      exact ⟨r, hr events⟩
    · obtain ⟨r, hr⟩ := sessionEvents_refused h sessionId after limit
      exact ⟨r, hr events⟩

/-! ### Bob, blocked, with a timeline share -/

def bobsShareRow : ShareMeta :=
  ⟨"Alice", "Bob", none, none, none, 0, true⟩

/-- Alice has blocked Bob, who still holds her timeline share. -/
def blockedBob : TimelineVisit where
  env :=
    { verify := fun _ => .ok ⟨"bob", 0, "Bob", .user, none⟩
      parseUuid := some
      handleIndex := none
      deviceAuthStatus := fun _ => .ok .active
      restrictions := none
      syncEnabledFor := fun _ _ => .ok none
      signDevice := fun _ _ _ => none
      users := [⟨"alice", "Alice", some 0, none⟩, ⟨"bob", "Bob", none, none⟩]
      blocks := fun blocker blocked => blocker == "alice" && blocked == "bob"
      spicedbConfigured := true
      toRfc3339 := fun _ => "" }
  deriveResolvedLocation _ _ := none
  now := 0
  bearer := some "token"
  caller := ⟨"bob", "Bob", .user, none⟩
  calls := rfl
  handle := "Alice"
  other := by decide
  shares _ _ := some bobsShareRow

/-- Bob is told of a session that Alice has hidden, and is not refused for the block. -/
theorem hidden_session_is_listed :
    blockedBob.env.isBlocked blockedBob.handle blockedBob.caller.preferredUsername = true ∧
    ¬ blockedBob.HidesHidden ∧ ¬ blockedBob.RefusesBlocked := by
  have hv : validateHandle blockedBob.handle = true := by decide +kernel
  have hshare : blockedBob.holdsTimelineShare = true := by decide +kernel
  have hblocked : blockedBob.env.isBlocked blockedBob.handle
      blockedBob.caller.preferredUsername = true := by decide +kernel
  refine ⟨hblocked, fun h => ?_, fun h => ?_⟩
  · have heq := (h [hiddenInit "Alice"] [] rfl).1 none
    rw [sessions_of_share hv hshare, sessions_of_share hv hshare] at heq
    exact absurd (congrArg List.length (Except.ok.inj heq)) (by decide +kernel)
  · obtain ⟨r, hr⟩ := (h hblocked []).1 none
    rw [sessions_of_share hv hshare] at hr
    cases hr

end TimelineVisit

end StarStats.EventTimeline
