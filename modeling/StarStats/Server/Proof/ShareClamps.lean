import Mathlib.Data.Fintype.EquivFin
import StarStats.Server.Proof.Sharing
import StarStats.Server.ShareClamps

/-!
# Which clamps are enforced

`clamps_enforced_iff`: a recipient's reads are independent of what the granted scope withholds
exactly when the gate keeps the recipient out, the scope withholds nothing, or the stored scope
has all the clamps and no surface skips one. `types_withheld_iff`: the public reads are independent
of the excluded types exactly when the profile is not shown, no type is excluded or there is no
heatmap, which alone ignores the lists.
-/

namespace StarStats

open Text (lower)

/-! ## Rows that both stores have -/

theorem filter_eq_of_imp {kept q : SeqRow → Bool} {events events' : List SeqRow}
    (h : events.filter kept = events'.filter kept) (hq : ∀ r, q r = true → kept r = true) :
    events.filter q = events'.filter q := by
  have hsub : ∀ l : List SeqRow, l.filter q = (l.filter kept).filter q := by
    intro l
    rw [List.filter_filter]
    refine List.filter_congr fun r _ => ?_
    cases hr : q r with
    | true => simp [hq r hr]
    | false => rfl
  rw [hsub events, hsub events', h]

theorem SameShown.filter_eq {handle : String} {withheld q : SeqRow → Bool}
    {events events' : List SeqRow} (h : SameShown handle withheld events events')
    (hq : ∀ r, q r = true → r.claimedHandle = lower handle →
      r.hiddenAt = none ∧ withheld r = false) :
    events.filter q = events'.filter q := by
  refine filter_eq_of_imp h fun r hr => ?_
  by_cases hc : r.claimedHandle = lower handle
  · obtain ⟨hh, hw⟩ := hq r hr hc
    simp [hh, hw]
  · simp [hc]

/-- The rows a query selects among those shown. -/
theorem SameShown.sharedRows_eq {handle : String} {withheld p : SeqRow → Bool}
    {events events' : List SeqRow} (h : SameShown handle withheld events events')
    (hp : ∀ r, p r = true → withheld r = false) :
    (sharedRows handle events).filter p = (sharedRows handle events').filter p := by
  simp only [sharedRows, List.filter_filter]
  refine h.filter_eq fun r hr _ => ?_
  simp only [Bool.and_eq_true, decide_eq_true_eq] at hr
  exact ⟨hr.2.2, hp r hr.1⟩

/-! ## Counts by type -/

section
variable {ties : TieOrder}

instance : IsTrans (String × Nat) (countNotBefore ties) where
  trans a b c hab hbc := by
    rcases hab with hab | ⟨hab, hab'⟩
    · rcases hbc with hbc | ⟨hbc, -⟩
      · exact .inl (hbc.trans hab)
      · exact .inl (hbc ▸ hab)
    · rcases hbc with hbc | ⟨hbc, hbc'⟩
      · exact .inl (hab ▸ hbc)
      · exact .inr ⟨hab.trans hbc, ties.trans _ _ _ hab' hbc'⟩

instance : Std.Total (countNotBefore ties) where
  total a b := by
    rcases lt_trichotomy a.2 b.2 with h | h | h
    · exact .inr (.inl h)
    · rcases ties.total a.1 b.1 with h' | h'
      · exact .inl (.inr ⟨h, h'⟩)
      · exact .inr (.inr ⟨h.symm, h'⟩)
    · exact .inl (.inl h)

instance : Std.Antisymm (countNotBefore ties) where
  antisymm a b hab hba := by
    rcases hab with hab | ⟨hab, hab'⟩
    · rcases hba with hba | ⟨hba, -⟩
      · exact absurd (hab.trans hba) (lt_irrefl _)
      · exact absurd hab (by omega)
    · rcases hba with hba | ⟨-, hba'⟩
      · exact absurd hba (by omega)
      · exact Prod.ext (ties.antisymm _ _ hab' hba') hab

theorem countByType_filter (ties : TieOrder) (p : String → Bool) (rows : List SeqRow) :
    (countByType ties rows).filter (fun c => p c.1) =
      countByType ties (rows.filter fun r => p r.eventType) := by
  refine List.Perm.eq_of_pairwise' (r := countNotBefore ties)
    ((List.pairwise_insertionSort _ _).filter _) (List.pairwise_insertionSort _ _) ?_
  rw [countByType, countByType, Sql.groupBy_filter]
  refine ((List.perm_insertionSort _ _).filter _).trans ?_
  refine .trans ?_ (List.perm_insertionSort _ _).symm
  rw [List.filter_map]
  exact .refl _

end

/-! ## What the renderings read of the events -/

section
variable {env : ReadEnv} {faults : RenderFaults} {handle : String} {now : Timestamp}
  {events events' : List SeqRow}

/-- With a scope, the summary is made from the rows of the types the lists allow. -/
theorem renderSummaryScoped_congr {scope : ShareScope}
    (h : (sharedRows handle events).filter (fun r => !scope.excludes r.eventType) =
      (sharedRows handle events').filter fun r => !scope.excludes r.eventType) :
    renderSummaryScoped env faults handle (some scope) events =
      renderSummaryScoped env faults handle (some scope) events' := by
  have hcounts :
      applyEventTypeFilter (countByType env.ties (sharedRows handle events)) (some scope) =
        applyEventTypeFilter (countByType env.ties (sharedRows handle events')) (some scope) := by
    simp only [ShareScope.excludes, Bool.not_not] at h
    simp only [applyEventTypeFilter, allowList, denyList, Option.bind_some,
      countByType_filter env.ties (typeAllowed scope.allowEventTypes scope.denyEventTypes), h]
  simp only [renderSummaryScoped, summaryForHandleShared, Option.isSome_some, if_true, hcounts]

/-- The rows behind the heatmap: within the window, of the types the lists allow. -/
def heatmapRow (now : Timestamp) (days : UInt32) (scope : Option ShareScope) (r : SeqRow) : Bool :=
  r.within now days && typeAllowed (allowList scope) (denyList scope) r.eventType

theorem renderTimelineScoped_congr {days : UInt32} {scope : Option ShareScope}
    (h : (sharedRows handle events).filter (heatmapRow now days scope) =
      (sharedRows handle events').filter (heatmapRow now days scope)) :
    renderTimelineScoped env faults handle now days scope events =
      renderTimelineScoped env faults handle now days scope events' := by
  have hrows : ∀ l : List SeqRow,
      (if (allowList scope).isNone && (denyList scope).isNone then timelineShared now handle days l
        else timelineSharedFiltered now handle days (allowList scope) (denyList scope) l) =
        countByDay ((sharedRows handle l).filter (heatmapRow now days scope)) := by
    intro l
    cases hb : (allowList scope).isNone && (denyList scope).isNone with
    | true =>
      simp only [Bool.and_eq_true, Option.isNone_iff_eq_none] at hb
      have hrow : heatmapRow now days scope = (·.within now days) := by
        funext r
        simp [heatmapRow, hb.1, hb.2, typeAllowed]
      simp only [hrow, if_true]
      rfl
    | false =>
      simp only [timelineSharedFiltered, hb, Bool.false_eq_true, if_false]
      rfl
  simp only [renderTimelineScoped, hrows, h]

end

/-! ## The gate of the friend reads -/

namespace GrantedShare
variable {g : GrantedShare}

/-- The gate's answer, and the stores it leaves. -/
def check (g : GrantedShare) : ShareResult (Except Unit Bool) :=
  checkViewWithExpiry g.env.toSharingEnv .none g.now g.handle g.viewer.preferredUsername g.seen g.store

/-- The scope a read finds. -/
def readScope (g : GrantedShare) : Option ShareScope :=
  (g.check.store.shares.find g.handle g.viewer.preferredUsername).bind (·.scope)

theorem letIn_iff : g.letIn = true ↔
    validateHandle g.handle = true ∧ g.env.spicedbConfigured = true ∧ g.check.reply = .ok true := by
  simp only [letIn, check, Bool.and_eq_true, and_assoc]
  refine and_congr_right fun _ => and_congr_right fun _ => ?_
  generalize (checkViewWithExpiry g.env.toSharingEnv .none g.now g.handle
    g.viewer.preferredUsername g.seen g.store).reply = reply
  cases reply with
  | error e => simp
  | ok b => simp

section
variable {α : Type} {surface : ShareScope → Bool}

theorem friendRead_of_letIn (h : g.letIn = true)
    (answer : Option ShareScope → Except ReadRefusal α) :
    friendRead g.env .none g.now g.bearer g.handle g.seen surface g.store answer =
      if g.readScope.all surface then answer g.readScope else .error .notFound := by
  obtain ⟨hvalid, hspicedb, hreply⟩ := letIn_iff.1 h
  have hreply' : (checkViewWithExpiry g.env.toSharingEnv FriendFaults.none.check g.now g.handle
      g.viewer.preferredUsername g.seen g.store).reply = .ok true := hreply
  have hscope : friendScope .none g.handle g.viewer.preferredUsername
      (checkViewWithExpiry g.env.toSharingEnv FriendFaults.none.check g.now g.handle
        g.viewer.preferredUsername g.seen g.store).store = g.readScope := rfl
  simp only [friendRead, g.viewerCalls, hvalid, hspicedb, hreply', hscope, renderOr404,
    Bool.not_true, Bool.false_eq_true, if_false]
  cases g.readScope with
  | none => rfl
  | some s => cases hs : surface s <;> simp [hs]

/-- Where the gate keeps the recipient out, nothing of the events is read. -/
theorem friendRead_of_not_letIn (h : g.letIn = false)
    (answer answer' : Option ShareScope → Except ReadRefusal α) :
    friendRead g.env .none g.now g.bearer g.handle g.seen surface g.store answer =
      friendRead g.env .none g.now g.bearer g.handle g.seen surface g.store answer' := by
  have hno : ∀ b, validateHandle g.handle = true → g.env.spicedbConfigured = true →
      (checkViewWithExpiry g.env.toSharingEnv FriendFaults.none.check g.now g.handle
        g.viewer.preferredUsername g.seen g.store).reply = .ok b → b = false := by
    intro b hvalid hspicedb hreply
    cases b with
    | false => rfl
    | true => exact absurd (letIn_iff.2 ⟨hvalid, hspicedb, hreply⟩) (by simp [h])
  unfold friendRead
  simp only [g.viewerCalls]
  split
  · rfl
  · rename_i hvalid
    split
    · rfl
    · rename_i hspicedb
      split
      · rfl
      · unfold renderOr404
        split
        · rename_i hreply
          have hb := hno true (by simpa using hvalid) (by simpa using hspicedb) hreply
          cases hb
        · rfl
        · rfl

end

/-- The row as the grant left it. -/
theorem row (g : GrantedShare) : validateScope g.scope = .ok () ∧
    ∃ row, g.store.shares.find g.handle g.viewer.preferredUsername = some row ∧
      row.expiresAt = g.req.expiresAt ∧
      row.scope = if g.scope.kind = "full" then none else some g.scope := by
  have hstands := g.stands
  rcases addShare_cases g.env.toSharingEnv g.faults g.grantedAt g.ownerBearer g.req g.before with
    ⟨r, hreply, -⟩ | ⟨user, grant, huser, -, hscope, hreply, hstore⟩
  · rw [g.granted] at hreply
    cases hreply
  · have hown : user = g.owner := by
      rw [g.ownerCalls] at huser
      exact (Except.ok.inj huser).symm
    have hrec : grant.recipient.claimedHandle = g.recipient := by
      rw [g.granted] at hreply
      exact (Except.ok.inj hreply).symm
    rw [g.requested] at hscope
    simp only [normalScope] at hscope
    cases hv : validateScope g.scope with
    | error code => simp [hv] at hscope
    | ok u =>
      simp only [hv, Except.ok.injEq] at hscope
      refine ⟨rfl, ?_⟩
      rw [hstands, hstore]
      simp only [writeGrant, g.upserted, Bool.false_eq_true, if_false, hown, ← hscope]
      exact g.before.shares.find_upsert g.grantedAt g.owner.preferredUsername g.req.expiresAt
        grant.note _ (congrArg lower hrec.symm)

/-- What a read that is let in finds: nothing when the share has lapsed or was granted in full. -/
theorem readScope_eq (h : g.letIn = true) : g.readScope =
    if g.lapsed || g.scope.kind == "full" then none else some g.scope := by
  obtain ⟨-, row, hrow, hexp, hscope⟩ := g.row
  have hreply := (letIn_iff.1 h).2.2
  have hlapsed : g.store.shares.lapsed g.now g.handle g.viewer.preferredUsername = g.lapsed := by
    rw [ShareTable.lapsed, hrow, Option.bind_some, hexp, lapsed]
  rcases checkViewWithExpiry_cases g.env.toSharingEnv .none g.now g.handle
      g.viewer.preferredUsername g.seen g.store with ⟨hstore, hlive⟩ | ⟨-, -, hpast, hstore, -⟩
  · have hnot : g.lapsed = false := by
      rw [← hlapsed]
      exact (hlive hreply).2.2.resolve_left (by simp [ReadFaults.none])
    have hfind : g.check.store.shares.find g.handle g.viewer.preferredUsername = some row := by
      rw [check, hstore, hrow]
    rw [readScope, hfind, Option.bind_some, hscope, hnot]
    cases hk : g.scope.kind == "full" <;> simp_all
  · have hfind : g.check.store.shares.find g.handle g.viewer.preferredUsername = none := by
      rw [check, hstore]
      simp only [eraseShare, ReadFaults.none, Bool.false_eq_true, if_false, ShareTable.delete]
      exact ShareTable.find_put_self rfl
    rw [readScope, hfind, ← hlapsed, hpast]
    rfl

/-! ## Clamps that are enforced -/

theorem typeAllowed_of_excludesNothing {scope : ShareScope} (h : scope.excludesNothing = true)
    (t : String) : scope.excludes t = false := by
  simp only [ShareScope.excludesNothing, Bool.and_eq_true, Option.isNone_iff_eq_none] at h
  obtain ⟨hallow, hdeny⟩ := h
  cases hd : scope.denyEventTypes with
  | none => simp [ShareScope.excludes, typeAllowed, hallow, hd]
  | some l =>
    have hl : l = [] := by simpa [hd] using hdeny
    simp [ShareScope.excludes, typeAllowed, hallow, hd, hl]

theorem excludes_of_excludesEverything {scope : ShareScope} (h : scope.excludesEverything = true)
    (t : String) : scope.excludes t = true := by
  simp only [ShareScope.excludesEverything, Option.any_eq_true, List.all_eq_true] at h
  obtain ⟨l, hl, hall⟩ := h
  by_cases ht : t ∈ l
  · have hd := hall t ht
    cases hdeny : scope.denyEventTypes with
    | none => simp [hdeny] at hd
    | some d =>
      have htd : t ∈ d := by simpa [hdeny] using hd
      simp [ShareScope.excludes, typeAllowed, hl, hdeny, htd]
  · simp [ShareScope.excludes, typeAllowed, hl, ht]

/-- A row within the clamped window is not older than the scope's. -/
theorem outdated_of_within {scope : ShareScope} {now : Timestamp} {days : UInt32} {r : SeqRow}
    (h : r.within now (clampDays days (some scope)) = true) : scope.outdated now r = false := by
  unfold ShareScope.outdated
  cases hw : scope.windowDays with
  | none => rfl
  | some w =>
    simp only [SeqRow.within, clampDays, Option.bind_some, hw, Option.any_eq_true,
      decide_eq_true_eq] at h
    obtain ⟨t, ht, hle⟩ := h
    have hmin : (min days w).toNat ≤ w.toNat := by
      show (if days ≤ w then days else w).toNat ≤ w.toNat
      split
      · exact UInt32.le_iff_toNat_le.1 ‹_›
      · exact Nat.le_refl _
    have hmul : ((min days w).toNat : Int) * dayMicros ≤ w.toNat * dayMicros :=
      Int.mul_le_mul_of_nonneg_right (by omega) (by decide)
    simp only [Option.any_some, ht, decide_eq_false_iff_not, not_lt]
    exact (Int.sub_le_sub_left hmul now).trans hle

/-- The heatmap and the event list show only what the scope does not withhold. -/
theorem timeline_enforced {scope : ShareScope} {handle : String} {events events' : List SeqRow}
    {now : Timestamp} (h : SameShown handle (scope.withholds now) events events') (days : UInt32)
    (env : ReadEnv) (faults : RenderFaults) :
    renderTimelineScoped env faults handle now (clampDays days (some scope)) (some scope) events =
      renderTimelineScoped env faults handle now (clampDays days (some scope)) (some scope)
        events' := by
  refine renderTimelineScoped_congr (h.sharedRows_eq fun r hr => ?_)
  simp only [heatmapRow, Bool.and_eq_true, allowList, denyList, Option.bind_some] at hr
  simp only [ShareScope.withholds, outdated_of_within hr.1, ShareScope.excludes, hr.2,
    Bool.not_true, Bool.or_self]

theorem events_enforced {scope : ShareScope} {handle : String} {events events' : List SeqRow}
    {now : Timestamp} (h : SameShown handle (scope.withholds now) events events')
    (days limit : UInt32) (beforeSeq : Option Int64) :
    listFiltered handle (friendEventFilters now days limit beforeSeq (some scope)) events =
      listFiltered handle (friendEventFilters now days limit beforeSeq (some scope)) events' := by
  have hrows : events.filter ((friendEventFilters now days limit beforeSeq (some scope)).admits
      handle) = events'.filter ((friendEventFilters now days limit beforeSeq (some scope)).admits
      handle) := by
    refine h.filter_eq fun r hr _ => ?_
    simp only [EventFilters.admits, friendEventFilters, Bool.and_eq_true, Bool.not_true,
      Bool.false_or, Option.isNone_iff_eq_none, allowList, denyList, Option.bind_some,
      Option.all_some] at hr
    obtain ⟨⟨⟨⟨⟨-, hhidden⟩, htype⟩, hsince⟩, -⟩, -⟩ := hr
    have hwithin : r.within now (clampDays days (some scope)) = true := hsince
    refine ⟨hhidden, ?_⟩
    simp only [ShareScope.withholds, outdated_of_within hwithin, ShareScope.excludes, htype,
      Bool.not_true, Bool.or_self]
  simp only [listFiltered, hrows]

/-- Stores that differ only in hidden rows look the same under every scope. -/
theorem enforced_of_shown {handle : String} {events events' : List SeqRow}
    (h : SameShown handle (fun _ => false) events events') :
    sharedRows handle events = sharedRows handle events' ∧
    ∀ filters : EventFilters, filters.excludeHidden = true →
      listFiltered handle filters events = listFiltered handle filters events' := by
  constructor
  · have hrows := h.sharedRows_eq (p := fun _ => true) fun _ _ => rfl
    simpa using hrows
  · intro filters hfilters
    have hrows : events.filter (filters.admits handle) = events'.filter (filters.admits handle) := by
      refine h.filter_eq fun r hr _ => ?_
      simp only [EventFilters.admits, hfilters, Bool.and_eq_true, Bool.not_true, Bool.false_or,
        Option.isNone_iff_eq_none] at hr
      exact ⟨hr.1.1.1.1.2, rfl⟩
    simp only [listFiltered, hrows]

theorem withholds_of_withholdsNothing (h : g.withholdsNothing = true) :
    g.scope.withholds g.now = fun _ => false := by
  simp only [withholdsNothing, Bool.and_eq_true, Option.isNone_iff_eq_none] at h
  funext r
  simp [ShareScope.withholds, ShareScope.outdated, h.1, typeAllowed_of_excludesNothing h.2]

/-- A scope without a window, or one that excludes every type, clamps the summary. -/
theorem summary_enforced {scope : ShareScope} {handle : String} {events events' : List SeqRow}
    {now : Timestamp} (h : SameShown handle (scope.withholds now) events events')
    (hscope : (scope.windowDays.isNone || scope.excludesEverything) = true) (env : ReadEnv)
    (faults : RenderFaults) :
    renderSummaryScoped env faults handle (some scope) events =
      renderSummaryScoped env faults handle (some scope) events' := by
  refine renderSummaryScoped_congr (h.sharedRows_eq fun r hr => ?_)
  rcases Bool.or_eq_true _ _ ▸ hscope with hw | hall
  · have hw : scope.windowDays = none := by simpa using hw
    simpa [ShareScope.withholds, ShareScope.outdated, hw] using hr
  · simp [excludes_of_excludesEverything hall] at hr

theorem clampsEnforced_of_kept (hin : g.letIn = true) (hkept : g.clampsKept = true) :
    g.ClampsEnforced := by
  simp only [clampsKept, Bool.and_eq_true, Bool.not_eq_true', bne_iff_ne, ne_eq,
    Bool.or_assoc] at hkept
  obtain ⟨⟨hlapsed, hfull⟩, hkind⟩ := hkept
  have hscope : g.readScope = some g.scope := by
    rw [readScope_eq hin, hlapsed, Bool.false_or, if_neg (by simpa using hfull)]
  intro events events' hsame
  refine ⟨?_, fun days => ?_, fun days limit beforeSeq => ?_⟩
  · simp only [friendSummary, friendRead_of_letIn hin, hscope]
    rcases Bool.or_eq_true _ _ ▸ hkind with htimeline | hclamped
    · have hno : scopeAllowsAggregates g.scope = false := by
        rw [beq_iff_eq] at htimeline
        simp [scopeAllowsAggregates, htimeline]
      simp [hno]
    · rw [summary_enforced hsame hclamped]
  · simp only [friendTimeline, friendRead_of_letIn hin, hscope, timeline_enforced hsame]
  · simp only [friendEvents, friendRead_of_letIn hin, hscope, events_enforced hsame]

theorem clampsEnforced_of_withholdsNothing (h : g.withholdsNothing = true) :
    g.ClampsEnforced := by
  intro events events' hsame
  rw [withholds_of_withholdsNothing h] at hsame
  obtain ⟨hrows, hlist⟩ := enforced_of_shown hsame
  refine ⟨?_, fun days => ?_, fun days limit beforeSeq => ?_⟩
  · have hsummary : ∀ scope,
        renderSummaryScoped g.env FriendFaults.none.render g.handle scope events =
        renderSummaryScoped g.env FriendFaults.none.render g.handle scope events' := by
      intro scope
      simp only [renderSummaryScoped, summaryForHandleShared, hrows]
    simp only [friendSummary, hsummary]
  · have htimeline : ∀ days scope,
        renderTimelineScoped g.env FriendFaults.none.render g.handle g.now days scope events =
          renderTimelineScoped g.env FriendFaults.none.render g.handle g.now days scope events' := by
      intro days scope
      exact renderTimelineScoped_congr (by rw [hrows])
    simp only [friendTimeline, htimeline]
  · have hevents : ∀ days limit scope,
        listFiltered g.handle (friendEventFilters g.now days limit beforeSeq scope) events =
          listFiltered g.handle (friendEventFilters g.now days limit beforeSeq scope) events' :=
      fun days limit scope => hlist _ rfl
    simp only [friendEvents, hevents]

theorem clampsEnforced_of_not_letIn (h : g.letIn = false) : g.ClampsEnforced := by
  intro events events' _
  have hdays : ∀ {α : Type} (days : Option UInt32)
      (answer answer' : UInt32 → Option ShareScope → Except ReadRefusal α),
      withDays g.env g.bearer g.handle days (fun d => friendRead g.env .none g.now g.bearer
        g.handle g.seen scopeAllowsTimeline g.store (answer d)) =
      withDays g.env g.bearer g.handle days (fun d => friendRead g.env .none g.now g.bearer
        g.handle g.seen scopeAllowsTimeline g.store (answer' d)) := by
    intro α days answer answer'
    have hread : (fun d => friendRead g.env .none g.now g.bearer g.handle g.seen
        scopeAllowsTimeline g.store (answer d)) = fun d => friendRead g.env .none g.now g.bearer
        g.handle g.seen scopeAllowsTimeline g.store (answer' d) := by
      funext d
      exact friendRead_of_not_letIn h _ _
    rw [hread]
  exact ⟨friendRead_of_not_letIn h _ _, fun days => hdays days _ _,
    fun days limit beforeSeq => hdays days _ _⟩

/-! ## Clamps that are not -/

/-- A row of the handle that is not hidden. -/
def probe (handle type : String) (time : Timestamp) : SeqRow where
  idempotencyKey := ""
  claimedHandle := lower handle
  eventType := type
  eventTimestamp := some time
  logSource := .live
  sourceOffset := 0
  rawLine := ""
  payload := none
  metadata := none
  resolvedLocation := none
  receivedAt := time
  hiddenAt := none
  seq := 1

theorem sameShown_probe {handle type : String} {time : Timestamp} {withheld : SeqRow → Bool}
    (h : withheld (probe handle type time) = true) :
    SameShown handle withheld [probe handle type time] [] := by
  simp [SameShown, h, show (probe handle type time).claimedHandle = lower handle from rfl]

theorem sharedRows_probe (handle type : String) (time : Timestamp) :
    sharedRows handle [probe handle type time] = [probe handle type time] := by
  simp [sharedRows, probe]

/-- The summary counts the row, unless the stored lists exclude its type. -/
theorem renderSummaryScoped_probe {env : ReadEnv} {faults : RenderFaults} {handle type : String}
    (time : Timestamp) {scope : Option ShareScope} (hquery : faults.query = false)
    (htype : scope.all (!·.excludes type) = true) :
    renderSummaryScoped env faults handle scope [probe handle type time] ≠
      renderSummaryScoped env faults handle scope [] := by
  intro h
  have hcount : countByType env.ties [probe handle type time] = [(type, 1)] := by
    simp [countByType, Sql.groupBy, probe]
  have hempty : countByType env.ties [] = [] := rfl
  simp only [renderSummaryScoped, hquery, Bool.false_eq_true, if_false, summaryForHandleShared,
    sharedRows_probe, hcount, show sharedRows handle [] = [] from rfl, hempty, Except.ok.injEq,
    PublicSummaryResponse.mk.injEq] at h
  have htotal := h.2.1
  cases scope with
  | none => simp at htotal
  | some s =>
    have hs : typeAllowed (allowList (some s)) (denyList (some s)) type = true := by
      simpa [ShareScope.excludes, allowList, denyList] using htype
    simp [applyEventTypeFilter, hs] at htotal

theorem validateScope_kind {scope : ShareScope} (h : validateScope scope = .ok ()) :
    scope.kind ∈ ["full", "timeline", "aggregates", "tabs"] := by
  unfold validateScope at h
  split at h
  · cases h
  · rename_i hk
    exact not_not.1 hk

theorem exists_excluded {scope : ShareScope} (h : scope.excludesNothing = false) :
    ∃ t, scope.excludes t = true := by
  cases ha : scope.allowEventTypes with
  | some l =>
    obtain ⟨t, ht⟩ := Infinite.exists_notMem_finset l.toFinset
    have ht : t ∉ l := by simpa using ht
    exact ⟨t, by simp [ShareScope.excludes, typeAllowed, ha, ht]⟩
  | none =>
    cases hd : scope.denyEventTypes with
    | none => simp [ShareScope.excludesNothing, ha, hd] at h
    | some l =>
      cases l with
      | nil => simp [ShareScope.excludesNothing, ha, hd] at h
      | cons t l => exact ⟨t, by simp [ShareScope.excludes, typeAllowed, ha, hd]⟩

theorem exists_allowed {scope : ShareScope} (h : scope.excludesEverything = false) :
    ∃ t, scope.excludes t = false := by
  cases ha : scope.allowEventTypes with
  | none =>
    obtain ⟨t, ht⟩ := Infinite.exists_notMem_finset (scope.denyEventTypes.getD []).toFinset
    have ht : t ∉ scope.denyEventTypes.getD [] := by simpa using ht
    refine ⟨t, ?_⟩
    cases hd : scope.denyEventTypes <;> simp_all [ShareScope.excludes, typeAllowed]
  | some l =>
    simp only [ShareScope.excludesEverything, ha, Option.any_some, List.all_eq_false] at h
    obtain ⟨t, htl, htd⟩ := h
    refine ⟨t, ?_⟩
    cases hd : scope.denyEventTypes <;> simp_all [ShareScope.excludes, typeAllowed]

/-- A time before the window. -/
theorem outdated_probe {scope : ShareScope} {now : Timestamp} {w : UInt32}
    (h : scope.windowDays = some w) (handle type : String) :
    scope.outdated now (probe handle type (now - w.toNat * dayMicros - 1)) = true := by
  simp only [ShareScope.outdated, h, probe, Option.any_some, decide_eq_true_eq]
  exact Int.sub_lt_self _ (by decide)

/-- The scope withholds a row that the summary counts. -/
theorem exists_leak (hin : g.letIn = true) (hkept : g.clampsKept = false)
    (hsome : g.withholdsNothing = false) :
    ∃ type time, g.scope.withholds g.now (probe g.handle type time) = true ∧
      g.readScope.all (!·.excludes type) = true ∧ g.readScope.all scopeAllowsAggregates = true := by
  rw [readScope_eq hin]
  cases hfull : g.lapsed || g.scope.kind == "full" with
  | true =>
    cases hw : g.scope.windowDays with
    | some w =>
      refine ⟨"", g.now - w.toNat * dayMicros - 1, ?_, by simp, by simp⟩
      simp [ShareScope.withholds, outdated_probe hw]
    | none =>
      obtain ⟨t, ht⟩ := exists_excluded (by simpa [withholdsNothing, hw] using hsome)
      refine ⟨t, 0, ?_, by simp, by simp⟩
      simp [ShareScope.withholds, probe, ht]
  | false =>
    rw [Bool.or_eq_false_iff, beq_eq_false_iff_ne] at hfull
    simp only [clampsKept, hfull.1, Bool.not_false, Bool.true_and, bne_iff_ne.2 hfull.2,
      Bool.or_eq_false_iff, beq_eq_false_iff_ne] at hkept
    obtain ⟨⟨htimeline, hwindow⟩, hsomeType⟩ := hkept
    obtain ⟨t, ht⟩ := exists_allowed hsomeType
    have hkind : scopeAllowsAggregates g.scope = true := by
      have := validateScope_kind g.row.1
      simp only [List.mem_cons, List.not_mem_nil, or_false] at this
      rcases this with hk | hk | hk | hk
      · exact absurd hk hfull.2
      · exact absurd hk htimeline
      · simp [scopeAllowsAggregates, hk]
      · simp [scopeAllowsAggregates, hk]
    cases hw : g.scope.windowDays with
    | none => simp [hw] at hwindow
    | some w =>
      refine ⟨t, g.now - w.toNat * dayMicros - 1, ?_, by simp [ht], by simp [hkind]⟩
      simp [ShareScope.withholds, outdated_probe hw]

/-- **Which shares enforce their clamps**: those that let nobody in, those whose scope withholds
nothing, and those whose stored scope has every clamp and is not asked for a summary over a
window. -/
theorem clamps_enforced_iff (g : GrantedShare) :
    g.ClampsEnforced ↔
      (g.letIn = true → g.withholdsNothing = true ∨ g.clampsKept = true) := by
  constructor
  · intro h hin
    cases hsome : g.withholdsNothing with
    | true => exact .inl rfl
    | false =>
      cases hkept : g.clampsKept with
      | true => exact .inr rfl
      | false =>
        obtain ⟨type, time, hwithheld, htype, hkind⟩ := exists_leak hin hkept hsome
        have heq := (h _ _ (sameShown_probe hwithheld)).1
        simp only [friendSummary, friendRead_of_letIn hin, hkind, if_true] at heq
        exact absurd heq (renderSummaryScoped_probe time rfl htype)
  · intro h
    cases hin : g.letIn with
    | false => exact clampsEnforced_of_not_letIn hin
    | true =>
      rcases h hin with hnothing | hkept
      · exact clampsEnforced_of_withholdsNothing hnothing
      · exact clampsEnforced_of_kept hin hkept

/-! ### Alice shares the last 30 days with Bob -/

/-- Accounts `Alice` and `Bob`, each with a token. -/
def twoAccounts : ReadEnv where
  verify token :=
    if token = "bob" then .ok ⟨"bob", 0, "Bob", .user, none⟩
    else .ok ⟨"alice", 0, "Alice", .user, none⟩
  parseUuid := some
  handleIndex := none
  deviceAuthStatus _ := .ok .active
  restrictions := some fun _ => .ok none
  syncEnabledFor _ _ := .ok none
  signDevice _ _ _ := none
  users := [⟨"alice", "Alice", some 0, none⟩, ⟨"bob", "Bob", none, none⟩]
  blocks _ _ := false
  spicedbConfigured := true
  toRfc3339 _ := ""
  ties := .byName
  supporters _ := none
  publicRestricted _ := false
  formatDate _ := ""
  deriveResolvedLocation _ _ _ := none

/-- What the web form sends for a new share: `full`, with a window of 30 days. -/
def lastMonth : ShareScope := ⟨"full", none, some 30, none, none, none, none, none⟩

def lastMonthRequest : ShareRequest := ⟨"Bob", none, none, some lastMonth⟩

def lastMonthGrant : ShareResult (Except Refusal String) :=
  addShare twoAccounts.toSharingEnv .none 0 (some "alice") lastMonthRequest ⟨[], fun _ _ => none⟩

def lastMonthShare : GrantedShare where
  env := twoAccounts
  ownerBearer := some "alice"
  owner := ⟨"alice", "Alice", .user, none⟩
  ownerCalls := by decide
  scope := lastMonth
  req := lastMonthRequest
  requested := rfl
  grantedAt := 0
  faults := .none
  upserted := rfl
  before := ⟨[], fun _ _ => none⟩
  recipient := "Bob"
  granted := by decide
  bearer := some "bob"
  viewer := ⟨"bob", "Bob", .user, none⟩
  viewerCalls := by decide
  isRecipient := rfl
  handle := "Alice"
  namesOwner := rfl
  now := 0
  seen := lastMonthGrant.store.relationships
  store := lastMonthGrant.store
  stands := rfl

/-- The share is stored without its window, and an event of 31 days ago is counted. -/
theorem full_share_forgets_window :
    validateScope lastMonthShare.scope = .ok () ∧ ¬ lastMonthShare.ClampsEnforced := by
  refine ⟨by decide +kernel, fun h => ?_⟩
  have hold : lastMonthShare.scope.withholds lastMonthShare.now
      (probe "Alice" "actor_death" (-31 * dayMicros)) = true := by decide +kernel
  have heq := congrArg (fun a => a.toOption.map PublicSummaryResponse.total)
    (h _ _ (sameShown_probe hold)).1
  exact absurd heq (by decide +kernel)

end GrantedShare

/-! ## Public reads -/

theorem buildTimelineBuckets_eq (formatDate : Int → String) (now : Timestamp)
    (rows : List (Int × Nat)) (days : UInt32) :
    buildTimelineBuckets formatDate now rows days =
      (List.range days.toNat).map fun i : Nat =>
        (formatDate (now / dayMicros - (days.toNat - 1) + i),
          (rows.lookup (now / dayMicros - (days.toNat - 1) + i)).getD 0) := by
  have hlen : (now / dayMicros + 1 - (now / dayMicros - ((days.toNat : Int) - 1))).toNat =
      days.toNat := by omega
  simp only [buildTimelineBuckets, hlen]

namespace PublicView
variable {v : PublicView}

/-- The scope a public read finds. -/
def readScope (v : PublicView) : Option ShareScope := publicScope v.faults v.handle v.publicScopes

theorem readScope_eq (v : PublicView) :
    v.readScope = if v.faults.getPublic then none else some v.scope := by
  simp only [readScope, publicScope, v.stored]

/-- The gates of a public read are open. -/
theorem publicGate_of_shown (h : v.shown = true) {α : Type} (answer : Except ReadRefusal α) :
    publicGate v.env v.faults v.bearer v.handle answer = answer ∧ v.env.spicedbConfigured = true ∧
      checkPublic v.faults v.handle v.store = .ok true ∧ v.faults.render.query = false := by
  simp only [shown, Bool.and_eq_true, Bool.not_eq_true'] at h
  obtain ⟨⟨⟨⟨⟨⟨⟨hvalid, hrestr⟩, hrestricted⟩, hblock⟩, hspicedb⟩, hcheck⟩, hpublic⟩, hquery⟩ := h
  refine ⟨?_, hspicedb, by simp [checkPublic, hcheck, hpublic], hquery⟩
  cases hb : blockedByOwner v.env v.faults v.bearer v.handle with
  | error r => simp [hb] at hblock
  | ok b =>
    have hb' : b = false := by simpa [hb] using hblock
    simp [publicGate, hvalid, hrestr, hrestricted, hb, hb']

/-- Where the profile is not shown, an answer that reads the events behind every check reads
nothing of them. -/
theorem publicGate_of_not_shown (h : v.shown = false) {α : Type}
    {answer answer' : Except ReadRefusal α}
    (heq : v.env.spicedbConfigured = false ∨ checkPublic v.faults v.handle v.store ≠ .ok true ∨
      v.faults.render.query = true → answer = answer') :
    publicGate v.env v.faults v.bearer v.handle answer =
      publicGate v.env v.faults v.bearer v.handle answer' := by
  unfold publicGate
  split
  · rfl
  · rename_i hvalid
    split
    · rfl
    · rename_i hrestr
      split
      · rfl
      · rename_i hrestricted
        split
        · rfl
        · rfl
        · rename_i hblock
          refine heq ?_
          have hvalid : validateHandle v.handle = true := by simpa using hvalid
          have hrestr : v.faults.restrictions = false := by simpa using hrestr
          have hrestricted : v.env.publicRestricted (lower v.handle) = false := by
            simpa using hrestricted
          simp only [shown, hvalid, hrestr, hrestricted, hblock, Bool.not_false, Bool.true_and,
            Bool.and_eq_false_iff, Bool.not_eq_false'] at h
          rcases h with ((hspicedb | hcheck) | hpublic) | hquery
          · exact .inl hspicedb
          · exact .inr (.inl (by simp [checkPublic, hcheck]))
          · exact .inr (.inl (by simp only [checkPublic, hpublic]; split <;> simp))
          · exact .inr (.inr hquery)

theorem renderOr404_congr {α : Type} {check : Except Unit Bool}
    {answer answer' : Except ReadRefusal α} (h : check = .ok true → answer = answer') :
    renderOr404 check answer = renderOr404 check answer' := by
  unfold renderOr404
  split
  · exact h rfl
  · rfl
  · rfl

theorem typesWithheld_of_not_shown (h : v.shown = false) : v.TypesWithheld := by
  intro events events' _
  refine ⟨publicGate_of_not_shown h fun hshut => ?_,
    fun days => publicGate_of_not_shown h fun hshut => ?_⟩
  · split
    · rfl
    · rename_i hspicedb
      refine renderOr404_congr fun hcheck => ?_
      rcases hshut with hs | hc | hq
      · simp [hs] at hspicedb
      · exact absurd hcheck hc
      · simp [renderSummaryScoped, hq]
  · split
    · rfl
    · split
      · rfl
      · rename_i hspicedb
        refine renderOr404_congr fun hcheck => ?_
        rcases hshut with hs | hc | hq
        · simp [hs] at hspicedb
        · exact absurd hcheck hc
        · simp [renderTimeline, renderTimelineScoped, hq]

theorem publicSummary_of_shown (h : v.shown = true) (events : List SeqRow) :
    publicSummary v.env v.faults v.bearer v.handle v.publicScopes v.store events =
      renderSummaryScoped v.env v.faults.render v.handle v.readScope events := by
  obtain ⟨-, hspicedb, hcheck, -⟩ := publicGate_of_shown h (α := Unit) (.ok ())
  rw [publicSummary, (publicGate_of_shown h _).1, hspicedb, hcheck]
  rfl

theorem publicTimeline_of_shown (h : v.shown = true) (days : Option UInt32) (events : List SeqRow) :
    publicTimeline v.env v.faults v.bearer v.handle v.now days v.publicScopes v.store events =
      match resolveTimelineDays days with
      | .error () => .error (readErr 400 "invalid_days")
      | .ok days => renderTimeline v.env v.faults.render v.handle v.now
          (clampDays days v.readScope) events := by
  obtain ⟨-, hspicedb, hcheck, -⟩ := publicGate_of_shown h (α := Unit) (.ok ())
  rw [publicTimeline, (publicGate_of_shown h _).1, hspicedb, hcheck]
  rfl

theorem typesWithheld_of_excludesNothing (hnone : v.scope.excludesNothing = true) :
    v.TypesWithheld := by
  intro events events' hsame
  have hfun : (fun r : SeqRow => v.scope.excludes r.eventType) = fun _ => false := by
    funext r
    exact GrantedShare.typeAllowed_of_excludesNothing hnone _
  rw [hfun] at hsame
  obtain ⟨hrows, -⟩ := GrantedShare.enforced_of_shown hsame
  constructor
  · simp only [publicSummary, renderSummaryScoped, summaryForHandleShared, hrows]
  · intro days
    simp only [publicTimeline, renderTimeline]
    have htimeline : ∀ days,
        renderTimelineScoped v.env v.faults.render v.handle v.now days none events =
          renderTimelineScoped v.env v.faults.render v.handle v.now days none events' :=
      fun days => renderTimelineScoped_congr (by rw [hrows])
    simp only [htimeline]

/-- An empty window leaves no heatmap, whatever the rows. -/
theorem typesWithheld_of_noHeatmap (h : v.shown = true) (hno : v.noHeatmap = true) :
    v.TypesWithheld := by
  simp only [noHeatmap, Bool.and_eq_true, Bool.not_eq_true', beq_iff_eq] at hno
  obtain ⟨hget, hwindow⟩ := hno
  have hscope : v.readScope = some v.scope := by rw [readScope_eq, hget]; rfl
  intro events events' hsame
  constructor
  · rw [publicSummary_of_shown h, publicSummary_of_shown h, hscope]
    exact renderSummaryScoped_congr (hsame.sharedRows_eq fun r hr => by simpa using hr)
  · intro days
    rw [publicTimeline_of_shown h, publicTimeline_of_shown h]
    split
    · rfl
    · rename_i d hd
      have hzero : (clampDays d v.readScope).toNat = 0 := by
        simp only [hscope, clampDays, Option.bind_some, hwindow]
        show (if d ≤ 0 then d else 0).toNat = 0
        split
        · rename_i hle
          have := UInt32.le_iff_toNat_le.1 hle
          simpa using this
        · rfl
      simp only [renderTimeline, renderTimelineScoped, buildTimelineBuckets_eq, hzero,
        List.range_zero, List.map_nil]

/-- The default number of days, clamped, is not zero. -/
theorem clampDays_pos (hno : v.noHeatmap = false) :
    0 < (clampDays timelineDaysDefault v.readScope).toNat := by
  rw [readScope_eq]
  unfold noHeatmap at hno
  cases hget : v.faults.getPublic with
  | true =>
    simp only [if_true, clampDays, Option.bind_none]
    decide
  | false =>
    simp only [hget, Bool.not_false, Bool.true_and, beq_eq_false_iff_ne, ne_eq] at hno
    simp only [Bool.false_eq_true, if_false, clampDays, Option.bind_some]
    cases hw : v.scope.windowDays with
    | none => decide
    | some w =>
      show 0 < (if timelineDaysDefault ≤ w then timelineDaysDefault else w).toNat
      split
      · decide
      · refine Nat.pos_of_ne_zero fun hz => hno ?_
        rw [hw, UInt32.toNat_inj.1 (show w.toNat = (0 : UInt32).toNat from hz)]

/-- A row of today shows in the heatmap, whatever its type. -/
theorem renderTimeline_probe {env : ReadEnv} {faults : RenderFaults} {handle type : String}
    {now : Timestamp} {days : UInt32} (hquery : faults.query = false) (hdays : 0 < days.toNat) :
    renderTimeline env faults handle now days [GrantedShare.probe handle type now] ≠
      renderTimeline env faults handle now days [] := by
  have hwithin : (GrantedShare.probe handle type now).within now days = true := by
    simp only [SeqRow.within, GrantedShare.probe, Option.any_some, decide_eq_true_eq]
    exact Int.sub_le_self _ (Int.mul_nonneg (by omega) (by decide))
  have hone : timelineShared now handle days [GrantedShare.probe handle type now] =
      [(now / dayMicros, 1)] := by
    rw [timelineShared, GrantedShare.sharedRows_probe, List.filter_cons_of_pos hwithin]
    simp [countByDay, Sql.groupBy, SeqRow.day, GrantedShare.probe]
  have hnone : timelineShared now handle days [] = [] := rfl
  intro h
  simp only [renderTimeline, renderTimelineScoped, hquery, allowList, denyList, Option.bind_none,
    Option.isNone_none, Bool.and_self, if_true, hone, hnone, buildTimelineBuckets_eq,
    Bool.false_eq_true, if_false, Except.ok.injEq, PublicTimelineResponse.mk.injEq, true_and] at h
  have hlast := List.map_inj_left.1 h (days.toNat - 1) (List.mem_range.2 (by omega))
  have hday : ∀ d : Int, d - ((days.toNat : Int) - 1) + ((days.toNat - 1 : Nat) : Int) = d := by
    omega
  rw [hday] at hlast
  simp at hlast

/-- **Which public profiles withhold the types their scope excludes**: those that are not shown,
those that exclude nothing, and those without a heatmap. -/
theorem types_withheld_iff (v : PublicView) :
    v.TypesWithheld ↔
      (v.shown = true → v.scope.excludesNothing = true ∨ v.noHeatmap = true) := by
  constructor
  · intro h hshown
    cases hnone : v.scope.excludesNothing with
    | true => exact .inl rfl
    | false =>
      cases hno : v.noHeatmap with
      | true => exact .inr rfl
      | false =>
        obtain ⟨t, ht⟩ := GrantedShare.exists_excluded hnone
        have hsame : SameShown v.handle (fun r => v.scope.excludes r.eventType)
            [GrantedShare.probe v.handle t v.now] [] := GrantedShare.sameShown_probe ht
        have heq := (h _ _ hsame).2 none
        rw [publicTimeline_of_shown hshown, publicTimeline_of_shown hshown] at heq
        have hquery := (publicGate_of_shown hshown (α := Unit) (.ok ())).2.2.2
        exact absurd heq (renderTimeline_probe hquery (clampDays_pos hno))
  · intro h
    cases hshown : v.shown with
    | false => exact typesWithheld_of_not_shown hshown
    | true =>
      rcases h hshown with hnone | hno
      · exact typesWithheld_of_excludesNothing hnone
      · exact typesWithheld_of_noHeatmap hshown hno

/-! ### A stranger looks at Alice's profile -/

/-- The public scope `{"kind": "full", "deny_event_types": ["actor_death"]}`. -/
def noDeaths : ShareScope := ⟨"full", none, none, none, some ["actor_death"], none, none, none⟩

def strangerView : PublicView where
  env := GrantedShare.twoAccounts
  faults := .none
  bearer := none
  handle := "Alice"
  now := 0
  store := ⟨[⟨statsRecord "Alice", .publicView, userRef "*"⟩], fun _ _ => none⟩
  publicScopes _ := some noDeaths
  scope := noDeaths
  stored := rfl

/-- A death of today, which the public scope denies, stands in the heatmap. -/
theorem heatmap_shows_denied_type : ¬ strangerView.TypesWithheld := by
  intro h
  have hsame : SameShown "Alice" (fun r => noDeaths.excludes r.eventType)
      [GrantedShare.probe "Alice" "actor_death" 0] [] :=
    GrantedShare.sameShown_probe (by decide +kernel)
  have heq := congrArg (fun a => a.toOption.map fun r => (r.buckets.map (·.2)).sum)
    ((h _ _ hsame).2 none)
  exact absurd heq (by decide +kernel)

end PublicView

end StarStats
