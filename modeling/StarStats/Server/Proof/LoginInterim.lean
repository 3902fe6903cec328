import StarStats.Server.Protected

/-!
# What a login that owes its second factor can do

`authenticate` takes a `LoginInterim` token like any other, and none of the four routes asks for
the token's type. `seesNothing_iff` says which requests come to nothing all the same.
-/

namespace StarStats

open Text (lower)

/-- The user behind an interim token. -/
def interimUser (env : AuthEnv) (claims : Claims) : AuthenticatedUser where
  sub := claims.sub
  preferredUsername := env.currentHandle claims
  tokenType := claims.tokenType
  deviceId := claims.deviceId

theorem authenticate_interim {env : AuthEnv} {token : String} {claims : Claims}
    (hverify : env.verify token = .ok claims) (hinterim : claims.tokenType = .loginInterim) :
    env.authenticate (some token) = .ok (interimUser env claims) := by
  unfold AuthEnv.authenticate
  simp only [hverify, hinterim]
  rw [interimUser, hinterim]

/-! ## Admission to ingest -/

section Admit
variable {env : AuthEnv} {token : String} {claims : Claims}

theorem requireUnrestricted_interim (hverify : env.verify token = .ok claims)
    (hinterim : claims.tokenType = .loginInterim) :
    (∃ user, env.requireUnrestricted .ingest (some token) = .ok user) ↔ MayIngest env claims := by
  unfold AuthEnv.requireUnrestricted MayIngest
  simp only [authenticate_interim hverify hinterim, interimUser]
  cases hid : env.parseUuid claims.sub with
  | none => simp
  | some userId =>
    cases hr : env.restrictions with
    | none => simp
    | some effective =>
      cases he : effective userId with
      | error e => simp [he]
      | ok r =>
        cases r with
        | none => simp [he]
        | some restriction => cases hb : restriction.blocks .ingest <;> simp [he, hb]

theorem eq_interimUser {user : AuthenticatedUser} (hverify : env.verify token = .ok claims)
    (hinterim : claims.tokenType = .loginInterim)
    (h : env.requireUnrestricted .ingest (some token) = .ok user) :
    user = interimUser env claims := by
  unfold AuthEnv.requireUnrestricted at h
  simp only [authenticate_interim hverify hinterim] at h
  split at h
  · cases h
  · cases h
  · split at h
    · cases h
    · exact (Except.ok.inj h).symm
    · split at h
      · cases h
      · exact (Except.ok.inj h).symm

/-- The batch, restamped, carries the user's handle. -/
theorem restamp_matches (batch : IngestBatch) :
    Text.eqIgnoreAsciiCase (restamp env (interimUser env claims) batch).1.claimedHandle
      (env.currentHandle claims) = true ↔ NamesAccount env claims batch.claimedHandle := by
  unfold restamp NamesAccount
  simp only [interimUser]
  by_cases hown : lower batch.claimedHandle = lower (env.currentHandle claims)
  · simp [Text.eqIgnoreAsciiCase_iff, hown]
  · simp only [hown, Text.eqIgnoreAsciiCase_iff, false_or, if_false]
    cases hi : env.handleIndex with
    | none => simp [hown]
    | some index =>
      cases hid : env.parseUuid claims.sub with
      | none => simp [hown]
      | some userId =>
        cases ha : index userId with
        | none => simp [hown, ha]
        | some acct =>
          cases hp : acct.previousHandles.any (Text.eqIgnoreAsciiCase · batch.claimedHandle) with
          | false => simp [hown, ha, hp, Option.filter, -List.any_eq_true]
          | true => simp [ha, hp, Option.filter, -List.any_eq_true]

theorem admitBatch_iff (hverify : env.verify token = .ok claims)
    (hinterim : claims.tokenType = .loginInterim) (batch : IngestBatch) :
    (∃ adm, admitBatch env (some token) batch = .ok adm) ↔ LetsThrough env claims (.ingest batch) := by
  unfold LetsThrough
  simp only
  rw [← requireUnrestricted_interim hverify hinterim, ← restamp_matches]
  unfold admitBatch
  cases hu : env.requireUnrestricted .ingest (some token) with
  | error r => simp
  | ok user =>
    obtain rfl := eq_interimUser hverify hinterim hu
    have hgate : enforceDeviceSyncGate env (interimUser env claims) = none := by
      simp [enforceDeviceSyncGate, interimUser, hinterim]
    have hname : (interimUser env claims).preferredUsername = env.currentHandle claims := rfl
    by_cases hv : batch.schemaVersion < 1 ∨ currentSchemaVersion < batch.schemaVersion
    · have hno : ¬ (1 ≤ batch.schemaVersion ∧ batch.schemaVersion ≤ currentSchemaVersion) := by
        rw [not_and_or, UInt16.not_le, UInt16.not_le]
        exact hv
      simp only [if_pos hv, hno]
      simp
    · have hyes : 1 ≤ batch.schemaVersion ∧ batch.schemaVersion ≤ currentSchemaVersion := by
        rw [not_or, UInt16.not_lt, UInt16.not_lt] at hv
        exact hv
      simp only [hv, hyes, if_false, hgate, hname]
      by_cases ht : Text.trim batch.claimedHandle = ""
      · simp [ht]
      · cases hm : Text.eqIgnoreAsciiCase
          (restamp env (interimUser env claims) batch).1.claimedHandle
          (env.currentHandle claims) with
        | false => simp [ht]
        | true => simp [ht]

end Admit

/-! ## What the routes read -/

theorem DifferOnlyIn.shares {user : String} {s s' : ServerDb} (h : DifferOnlyIn user s s') :
    s'.shares = s.shares := by
  rw [h.rest]

/-- The rows of another handle are the same. -/
theorem DifferOnlyIn.eventsOf {user handle : String} {s s' : ServerDb} (h : DifferOnlyIn user s s')
    (hne : lower handle ≠ lower user) :
    s'.db.events.filter (·.claimedHandle = lower handle) =
      s.db.events.filter (·.claimedHandle = lower handle) := by
  have hsub : ∀ l : List EventRow, l.filter (·.claimedHandle = lower handle) =
      (l.filter (·.claimedHandle ≠ lower user)).filter (·.claimedHandle = lower handle) := by
    intro l
    rw [List.filter_filter]
    refine List.filter_congr fun r _ => ?_
    by_cases hr : r.claimedHandle = lower handle
    · simp [hr, hne]
    · simp [hr]
  rw [hsub, h.others, ← hsub]

namespace EventTimeline

theorem timelineRows_congr {handle : String} {events events' : List EventRow}
    (h : events'.filter (·.claimedHandle = lower handle) =
      events.filter (·.claimedHandle = lower handle)) :
    timelineRows handle events' = timelineRows handle events := by
  unfold timelineRows
  rw [h]

theorem sessionsViaSql_congr {handle : String} {events events' : List EventRow}
    (h : events'.filter (·.claimedHandle = lower handle) =
      events.filter (·.claimedHandle = lower handle)) (since : Option Timestamp) :
    sessionsViaSql handle since events' = sessionsViaSql handle since events := by
  unfold sessionsViaSql
  rw [timelineRows_congr h]

theorem sessionEventsPage_congr {handle : String} {events events' : List EventRow}
    (h : events'.filter (·.claimedHandle = lower handle) =
      events.filter (·.claimedHandle = lower handle))
    (deriveResolvedLocation : String → Option GameEvent → Option ResolvedLocation)
    (sessionId : String) (after : Option String) (limit : Nat) :
    sessionEventsPage deriveResolvedLocation handle sessionId after limit events' =
      sessionEventsPage deriveResolvedLocation handle sessionId after limit events := by
  unfold sessionEventsPage fetchSessionEvents
  rw [timelineRows_congr h, h]

theorem timelineWindowSince_cases (now : Timestamp) (hours : Option Int) :
    (∃ since, timelineWindowSince now hours = .ok since ∧ since.all (· ≤ now) ∧
      ∀ h ∈ hours, 0 < h ∧ h ≤ timelineMaxHours) ∨
    ((∃ r, timelineWindowSince now hours = .error r) ∧
      ¬ ∀ h ∈ hours, 0 < h ∧ h ≤ timelineMaxHours) := by
  unfold timelineWindowSince
  cases hours with
  | none => exact .inl ⟨none, rfl, rfl, by simp⟩
  | some h =>
    by_cases hbad : h ≤ 0 ∨ timelineMaxHours < h
    · refine .inr ⟨⟨_, if_pos hbad⟩, fun hall => ?_⟩
      have := hall h rfl
      omega
    · have hgood : 0 < h ∧ h ≤ timelineMaxHours := by omega
      refine .inl ⟨_, if_neg hbad, ?_, by simpa using hgood⟩
      simp only [Option.all_some, decide_eq_true_eq]
      exact Int.sub_le_self now (by omega)

end EventTimeline

/-! ## Requests that come to nothing -/

section
variable {env : ServerEnv} {faults : StoreFaults} {now : Timestamp} {token : String}
  {claims : Claims}

theorem listSessions_seesNothing (hauth : env.authenticate (some token) =
      .ok (interimUser env.toAuthEnv claims)) {handle : String} {hours : Option Int}
    (hno : ¬ LetsThrough env.toAuthEnv claims (.listSessions handle hours)) :
    SeesNothing env faults now (some token) (env.currentHandle claims)
      (.listSessions handle hours) := by
  intro s s' hdiff
  refine ⟨?_, rfl, rfl⟩
  simp only [serve, EventTimeline.listSessions, hauth]
  cases hv : validateHandle handle with
  | false => simp only [Bool.not_false, if_true]
  | true =>
    rcases EventTimeline.timelineWindowSince_cases now hours with
      ⟨since, hsince, -, hhours⟩ | ⟨⟨r, hr⟩, -⟩
    · have hother : lower handle ≠ lower (env.currentHandle claims) :=
        fun hown => hno ⟨hv, hhours, hown⟩
      simp only [hsince, hdiff.shares,
        EventTimeline.sessionsViaSql_congr (hdiff.eventsOf hother) since]
    · simp only [hr]

theorem listSessionEvents_seesNothing (hauth : env.authenticate (some token) =
      .ok (interimUser env.toAuthEnv claims)) {handle sessionId : String} {after : Option String}
    {limit : Option Int}
    (hno : ¬ LetsThrough env.toAuthEnv claims (.listSessionEvents handle sessionId after limit)) :
    SeesNothing env faults now (some token) (env.currentHandle claims)
      (.listSessionEvents handle sessionId after limit) := by
  intro s s' hdiff
  refine ⟨?_, rfl, rfl⟩
  simp only [serve, EventTimeline.listSessionEvents, hauth]
  cases hv : validateHandle handle with
  | false => simp only [Bool.not_false, if_true]
  | true =>
    cases hs : EventTimeline.validSessionId sessionId with
    | false => simp only [Bool.not_false, Bool.not_true, if_true]
    | true =>
      have hother : lower handle ≠ lower (env.currentHandle claims) :=
        fun hown => hno ⟨hv, hs, hown⟩
      simp only [hdiff.shares,
        EventTimeline.sessionEventsPage_congr (hdiff.eventsOf hother)]

theorem listEntities_seesNothing (hauth : env.authenticate (some token) =
      .ok (interimUser env.toAuthEnv claims)) {handle : String} {after : Option String}
    {limit : Option Int}
    (hno : ¬ LetsThrough env.toAuthEnv claims (.listEntities handle after limit)) :
    SeesNothing env faults now (some token) (env.currentHandle claims)
      (.listEntities handle after limit) := by
  have hv : validateHandle handle = false := by simpa [LetsThrough] using hno
  intro s s' _
  simp [serve, EntityRollup.listEntities, hauth, hv]

theorem ingest_seesNothing (hverify : env.verify token = .ok claims)
    (hinterim : claims.tokenType = .loginInterim) {batch : IngestBatch}
    (hno : ¬ LetsThrough env.toAuthEnv claims (.ingest batch)) :
    SeesNothing env faults now (some token) (env.currentHandle claims) (.ingest batch) := by
  rw [← admitBatch_iff hverify hinterim] at hno
  intro s s' _
  cases hadm : admitBatch env.toAuthEnv (some token) batch with
  | ok adm => exact absurd ⟨adm, hadm⟩ hno
  | error r => simp [serve, handleIngest, hadm]

end

/-! ## Requests that are answered -/

/-- A launch of the game, in the user's log. -/
def launchRow (handle sessionId key : String) (now : Timestamp) : EventRow where
  idempotencyKey := key
  claimedHandle := lower handle
  eventType := "process_init"
  eventTimestamp := some now
  logSource := .live
  sourceOffset := 0
  rawLine := ""
  payload := some (.processInit ⟨"", sessionId, "", true⟩)
  metadata := none
  resolvedLocation := none
  receivedAt := now
  hiddenAt := none

/-- A database with these events and shares, and nothing else. -/
def dbWith (events : List EventRow) (shares : ShareTable) : ServerDb :=
  ⟨{ Db.empty with events := events }, shares, []⟩

theorem differOnlyIn_launch (handle sessionId key : String) (now : Timestamp)
    (shares : ShareTable) :
    DifferOnlyIn handle (dbWith [] shares) (dbWith [launchRow handle sessionId key now] shares) where
  rest := rfl
  others := by simp [dbWith, launchRow]

namespace EventTimeline

theorem timelineRows_launch {handle user : String} (hown : lower handle = lower user)
    (sessionId key : String) (now : Timestamp) :
    timelineRows handle [launchRow user sessionId key now] = [launchRow user sessionId key now] := by
  simp [timelineRows, launchRow, hown, isGameplay, orderByTimeKey]

/-- A launch since the start of the window is a session. -/
theorem sessionsViaSql_launch {handle user : String} (hown : lower handle = lower user)
    (sessionId key : String) {now : Timestamp} {since : Option Timestamp}
    (hsince : since.all (· ≤ now)) :
    (sessionsViaSql handle since [launchRow user sessionId key now]).length = 1 := by
  unfold sessionsViaSql
  rw [timelineRows_launch hown]
  have hkeep : [launchRow user sessionId key now].filter (fun r =>
      since.all fun since => r.eventTimestamp.any (since ≤ ·)) =
      [launchRow user sessionId key now] := by
    simpa [launchRow] using hsince
  simp only [hkeep, sessionAggs, withSessionOrd]
  simp [launchRow, withLead, sessionsListLimit]

theorem findSessionBounds_launch (user key : String) {sessionId : String} (hid : sessionId ≠ "")
    (now : Timestamp) :
    findSessionBounds [launchRow user sessionId key now] sessionId =
      some ⟨now, key, none, none⟩ := by
  simp [findSessionBounds, findBounds, launchRow, sessionIdFromRow, localSession?, nonEmpty,
    EventRow.entityId?, rowTime, Option.filter, hid]

end EventTimeline

theorem lt_append_singleton (l : List Char) (c : Char) : l < l ++ [c] := by
  induction l with
  | nil => exact List.nil_lt_cons c []
  | cons d l ih => exact List.cons_lt_cons_iff.2 (.inr ⟨rfl, ih⟩)

/-- A key past any cursor. -/
def keyAfter (after : Option String) : String := after.getD "" ++ "a"

theorem lt_keyAfter (after : Option String) : after.all (· < keyAfter after) = true := by
  cases after with
  | none => rfl
  | some key =>
    have hlt : key < key ++ "a" := by
      rw [String.lt_iff_toList_lt, String.toList_append]
      exact lt_append_singleton key.toList 'a'
    exact decide_eq_true hlt

namespace EventTimeline

theorem pageLimit_pos (default cap : Int) (limit : Option Int) : 0 < pageLimit default cap limit := by
  unfold pageLimit
  omega

theorem sessionEventsPage_launch
    (deriveResolvedLocation : String → Option GameEvent → Option ResolvedLocation)
    {handle user : String} (hown : lower handle = lower user) {sessionId : String}
    (hid : sessionId ≠ "") (after : Option String) {limit : Nat} (hlimit : 0 < limit)
    (now : Timestamp) :
    (sessionEventsPage deriveResolvedLocation handle sessionId after limit
      [launchRow user sessionId (keyAfter after) now]).events.length = 1 := by
  have hin : inPage ⟨now, keyAfter after, none, none⟩ after
      (launchRow user sessionId (keyAfter after) now) = true := by
    unfold inPage rowTime launchRow
    simp only [lt_keyAfter, Option.getD_some, Option.all_none, Bool.and_true]
    simp
  have hrows : (([launchRow user sessionId (keyAfter after) now].filter
      (·.claimedHandle = lower handle)).filter fun r => r.eventTimestamp.isSome &&
        inPage ⟨now, keyAfter after, none, none⟩ after r) =
      [launchRow user sessionId (keyAfter after) now] := by
    have hmine : (launchRow user sessionId (keyAfter after) now).claimedHandle = lower handle :=
      hown.symm
    have htime : (launchRow user sessionId (keyAfter after) now).eventTimestamp = some now := rfl
    simp only [List.filter_cons, List.filter_nil, hmine, htime, hin, decide_true, if_true,
      Option.isSome_some, Bool.and_self]
  have hsort : orderByTimeKey [launchRow user sessionId (keyAfter after) now] =
      [launchRow user sessionId (keyAfter after) now] := rfl
  unfold sessionEventsPage fetchSessionEvents
  rw [timelineRows_launch hown, findSessionBounds_launch user _ hid]
  simp only [hrows, hsort, List.length_map, List.length_take, List.length_singleton]
  omega

end EventTimeline

section
variable {env : ServerEnv} {faults : StoreFaults} {now : Timestamp} {token : String}
  {claims : Claims}

/-- A user sees the own timeline without any share. -/
theorem callerMayViewTimeline_own {shares : ShareTable} {handle : String}
    (hown : lower handle = lower (env.currentHandle claims)) :
    callerMayViewTimeline now shares handle
      (interimUser env.toAuthEnv claims).preferredUsername = true := by
  have hself : Text.eqIgnoreAsciiCase (interimUser env.toAuthEnv claims).preferredUsername handle =
      true := Text.eqIgnoreAsciiCase_iff.2 hown.symm
  simp [callerMayViewTimeline, hself]

theorem listSessions_tells (hauth : env.authenticate (some token) =
      .ok (interimUser env.toAuthEnv claims)) {handle : String} {hours : Option Int}
    (hyes : LetsThrough env.toAuthEnv claims (.listSessions handle hours)) :
    ¬ SeesNothing env faults now (some token) (env.currentHandle claims)
      (.listSessions handle hours) := by
  intro hblind
  obtain ⟨hv, hhours, hown⟩ := hyes
  rcases EventTimeline.timelineWindowSince_cases now hours with
    ⟨since, hsince, hle, -⟩ | ⟨-, hbad⟩
  · have heq := (hblind _ _ (differOnlyIn_launch _ "session" "key" now fun _ _ => none)).1
    simp only [serve, EventTimeline.listSessions, hauth, hv, hsince,
      EventTimeline.requireTimelineGrant, callerMayViewTimeline_own hown, Bool.not_true,
      Bool.false_eq_true, if_false, if_true, Except.map, Except.ok.injEq,
      ProtectedAnswer.sessions.injEq] at heq
    have hone := EventTimeline.sessionsViaSql_launch hown "session" "key" hle
    have hnone : EventTimeline.sessionsViaSql handle since [] = [] := by rfl
    simp only [dbWith] at heq
    rw [← heq, hnone] at hone
    exact absurd hone (by decide)
  · exact hbad hhours

theorem listSessionEvents_tells (hauth : env.authenticate (some token) =
      .ok (interimUser env.toAuthEnv claims)) {handle sessionId : String} {after : Option String}
    {limit : Option Int}
    (hyes : LetsThrough env.toAuthEnv claims (.listSessionEvents handle sessionId after limit)) :
    ¬ SeesNothing env faults now (some token) (env.currentHandle claims)
      (.listSessionEvents handle sessionId after limit) := by
  intro hblind
  obtain ⟨hv, hs, hown⟩ := hyes
  have hid : sessionId ≠ "" := by
    intro hempty
    simp [EventTimeline.validSessionId, hempty] at hs
  have heq := (hblind _ _
    (differOnlyIn_launch _ sessionId (keyAfter after) now fun _ _ => none)).1
  simp only [serve, EventTimeline.listSessionEvents, hauth, hv, hs,
    EventTimeline.requireTimelineGrant, callerMayViewTimeline_own hown, Bool.not_true,
    Bool.false_eq_true, if_false, if_true, Except.map, Except.ok.injEq,
    ProtectedAnswer.sessionEvents.injEq, dbWith] at heq
  have hone := EventTimeline.sessionEventsPage_launch env.deriveResolvedLocation hown hid after
    (EventTimeline.pageLimit_pos EventTimeline.eventsPageLimitDefault
      EventTimeline.eventsPageLimitMax limit) now
  rw [← heq] at hone
  exact absurd hone Nat.zero_ne_one

/-- Everyone shares everything with everyone. -/
def allShared : ShareTable := fun owner recipient =>
  some ⟨owner, recipient, none, none, none, 0, true⟩

theorem callerMayViewTimeline_allShared (handle caller : String) :
    callerMayViewTimeline now allShared handle caller = true := by
  unfold callerMayViewTimeline
  split <;> rfl

/-- A handle that was never rolled up is rolled up by the read. -/
theorem listEntities_writes (hauth : env.authenticate (some token) =
      .ok (interimUser env.toAuthEnv claims)) {handle : String} {after : Option String}
    {limit : Option Int}
    (hyes : LetsThrough env.toAuthEnv claims (.listEntities handle after limit)) :
    ¬ SeesNothing env faults now (some token) (env.currentHandle claims)
      (.listEntities handle after limit) := by
  intro hblind
  have hv : validateHandle handle = true := hyes
  have hkept := (hblind (dbWith [] allShared) (dbWith [] allShared) ⟨rfl, rfl⟩).2.1
  simp only [serve, EntityRollup.listEntities, hauth, hv, dbWith, callerMayViewTimeline_allShared,
    Bool.not_true, Bool.false_eq_true, if_false] at hkept
  have hrollup := congrArg (fun s : ServerDb => s.db.rollup (lower handle)) hkept
  simp [ensureSessionStatsFresh, shouldRebuildSessionStats, stillDirty, Db.empty,
    rebuildHandleSessionStats, setAt] at hrollup

/-- An admitted batch leaves its entry in the audit log. -/
theorem ingest_writes (hverify : env.verify token = .ok claims)
    (hinterim : claims.tokenType = .loginInterim) {batch : IngestBatch}
    (hyes : LetsThrough env.toAuthEnv claims (.ingest batch)) :
    ¬ SeesNothing env faults now (some token) (env.currentHandle claims) (.ingest batch) := by
  intro hblind
  obtain ⟨adm, hadm⟩ := (admitBatch_iff hverify hinterim batch).2 hyes
  have hkept := (hblind (dbWith [] allShared) (dbWith [] allShared) ⟨rfl, rfl⟩).2.1
  have haudit := congrArg (fun s : ServerDb => s.audit.length) hkept
  simp [serve, handleIngest, hadm] at haudit

end

/-- **What an interim token can do**: a request with it tells nothing of the user's events and
changes nothing, exactly when it is not let through; being interim never stops one. -/
theorem seesNothing_iff (env : ServerEnv) (faults : StoreFaults) (now : Timestamp)
    {token : String} {claims : Claims} (hverify : env.verify token = .ok claims)
    (hinterim : claims.tokenType = .loginInterim) (req : ProtectedRequest) :
    SeesNothing env faults now (some token) (env.currentHandle claims) req ↔
      ¬ LetsThrough env.toAuthEnv claims req := by
  have hauth := authenticate_interim hverify hinterim
  constructor
  · intro hblind hyes
    cases req with
    | listSessions handle hours => exact listSessions_tells hauth hyes hblind
    | listSessionEvents handle sessionId after limit =>
      exact listSessionEvents_tells hauth hyes hblind
    | listEntities handle after limit => exact listEntities_writes hauth hyes hblind
    | ingest batch => exact ingest_writes hverify hinterim hyes hblind
  · intro hno
    cases req with
    | listSessions handle hours => exact listSessions_seesNothing hauth hno
    | listSessionEvents handle sessionId after limit =>
      exact listSessionEvents_seesNothing hauth hno
    | listEntities handle after limit => exact listEntities_seesNothing hauth hno
    | ingest batch => exact ingest_seesNothing hverify hinterim hno

/-- Every token is that of a pilot who still owes the second factor. -/
def interimClaims : Claims := ⟨"7d7e", 0, "Pilot", .loginInterim, none⟩

def interimEnv : ServerEnv where
  verify _ := .ok interimClaims
  parseUuid := some
  handleIndex := none
  deviceAuthStatus _ := .ok .active
  restrictions := some fun _ => .ok none
  syncEnabledFor _ _ := .ok none
  signDevice _ _ _ := none
  parseEventTimestamp _ := none
  deriveResolvedLocation _ _ := none
  codec := ⟨fun _ => "", id, some⟩

/-- The pilot asks for someone else's sessions. -/
theorem seesNothing_other :
    SeesNothing interimEnv .none 0 (some "token") "Pilot" (.listSessions "Wingman" none) := by
  refine (seesNothing_iff interimEnv .none 0 rfl rfl _).2 fun hyes => ?_
  exact absurd hyes.2.2 (by decide +kernel)

/-- The pilot asks for the own sessions, asks for entities, or uploads a batch. -/
theorem interim_token_is_served :
    interimEnv.verify "token" = .ok interimClaims ∧ interimClaims.tokenType = .loginInterim ∧
    ¬ SeesNothing interimEnv .none 0 (some "token") "Pilot" (.listSessions "Pilot" none) ∧
    ¬ SeesNothing interimEnv .none 0 (some "token") "Pilot" (.listEntities "Pilot" none none) ∧
    ¬ SeesNothing interimEnv .none 0 (some "token") "Pilot"
      (.ingest ⟨2, "batch", none, none, none, none, none, none, "Pilot", []⟩) := by
  have hauth : interimEnv.authenticate (some "token") =
      .ok (interimUser interimEnv.toAuthEnv interimClaims) := rfl
  have hself : interimEnv.currentHandle interimClaims = "Pilot" := rfl
  have hvalid : validateHandle "Pilot" = true := by decide +kernel
  rw [← hself]
  refine ⟨rfl, rfl, listSessions_tells hauth ?_, listEntities_writes hauth ?_,
    ingest_writes rfl rfl ?_⟩
  · exact ⟨hvalid, by simp, rfl⟩
  · exact hvalid
  · exact ⟨⟨_, _, rfl, rfl, .inl rfl⟩, by decide, by decide +kernel, .inl rfl⟩

end StarStats
