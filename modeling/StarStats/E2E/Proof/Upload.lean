import StarStats.E2E.Upload
import StarStats.Server.Proof.Repo

/-!
# What happens to an uploaded event

* `storeBatch_landed`: the handler keeps every event whose call does not fail.
* `none_lost`: in every run whose failing calls hit only events stored already, every event marked
  sent is stored or quarantined.
* `insert_failure_loses_batch`: the handler answers 200 to a batch it could not insert.
-/

namespace StarStats.Upload

section
variable {parseEventTimestamp : String → Option Timestamp}

/-! ## The tables only grow -/

structure Grows (db db' : Db) : Prop where
  events : ∀ r ∈ db.events, r ∈ db'.events
  quarantined : ∀ q ∈ db.quarantined, q ∈ db'.quarantined

theorem Grows.refl (db : Db) : Grows db db := ⟨fun _ h => h, fun _ h => h⟩

theorem Grows.trans {db₁ db₂ db₃ : Db} (h : Grows db₁ db₂) (h' : Grows db₂ db₃) : Grows db₁ db₃ :=
  ⟨fun r hr => h'.events r (h.events r hr), fun q hq => h'.quarantined q (h.quarantined q hq)⟩

theorem Landed.mono {db db' : Db} (hg : Grows db db') {handle : String} {e : EventEnvelope}
    (h : Landed parseEventTimestamp db handle e) : Landed parseEventTimestamp db' handle e := by
  rcases h with ⟨r, hr, hc⟩ | ⟨q, hq, hk⟩
  · exact .inl ⟨r, hg.events r hr, hc⟩
  · exact .inr ⟨q, hg.quarantined q hq, hk⟩

theorem quarantine_grows (q : QuarantinedEvent) (db : Db) : Grows db (quarantine q db) := by
  unfold quarantine
  split
  · exact .refl db
  · exact ⟨fun _ h => h, fun _ h => List.mem_append_left _ h⟩

theorem quarantineRejects_grows (faults : StoreFaults) (handle : String) (i : Nat)
    (es : List EventEnvelope) (db : Db) : Grows db (quarantineRejects faults handle i es db) := by
  induction es generalizing i db with
  | nil => exact .refl db
  | cons e es ih =>
    rw [quarantineRejects]
    refine .trans ?_ (ih _ _)
    split
    · exact .refl db
    · split
      · exact .refl db
      · exact quarantine_grows _ db

theorem insertBatch_grows (now : Timestamp) (rows : List StoredEvent) (db : Db) :
    Grows db (insertBatch now rows db).2 := by
  rw [insertBatch_snd]
  exact ⟨fun _ h => List.mem_append_left _ h, fun _ h => h⟩

theorem storeBatch_grows (faults : StoreFaults) (now : Timestamp) (adm : Admitted) (db : Db) :
    Grows db (storeBatch parseEventTimestamp faults now adm db).2 := by
  unfold storeBatch
  refine .trans (quarantineRejects_grows faults adm.canonicalHandle 0 adm.batch.events db) ?_
  simp only
  split
  · exact .refl _
  · exact insertBatch_grows ..

theorem observeSequence_grows (faults : StoreFaults) (adm : Admitted) (db : Db) :
    Grows db (observeSequence faults adm db) := by
  unfold observeSequence
  split
  · split
    · exact .refl db
    · exact ⟨fun _ h => h, fun _ h => h⟩
  · exact .refl db

theorem handleIngest_grows (env : AuthEnv) (faults : StoreFaults) (now : Timestamp)
    (bearer : Option String) (batch : IngestBatch) (db : Db) :
    Grows db (handleIngest parseEventTimestamp env faults now bearer batch db).db := by
  unfold handleIngest
  split
  · exact .refl db
  · exact (storeBatch_grows ..).trans (observeSequence_grows ..)

/-! ## What a request keeps -/

theorem quarantine_mem (q : QuarantinedEvent) (db : Db) :
    ∃ q' ∈ (quarantine q db).quarantined,
      q'.claimedHandle = q.claimedHandle ∧ q'.idempotencyKey = q.idempotencyKey := by
  unfold quarantine
  split
  · rename_i h
    obtain ⟨q', hq', hk⟩ := List.any_eq_true.1 h
    exact ⟨q', hq', by simpa using hk⟩
  · exact ⟨q, List.mem_append_right _ List.mem_cons_self, rfl, rfl⟩

/-- A rejected envelope whose `quarantine` call succeeds is quarantined. -/
theorem quarantineRejects_mem {faults : StoreFaults} {handle : String} {e : EventEnvelope}
    (hinvalid : isValid e = false) {es : List EventEnvelope} {i k : Nat} {db : Db}
    (he : es[i]? = some e) (hok : faults.quarantine (k + i) = false) :
    ∃ q ∈ (quarantineRejects faults handle k es db).quarantined,
      q.claimedHandle = handle ∧ q.idempotencyKey = e.idempotencyKey := by
  induction es generalizing i k db with
  | nil => cases he
  | cons e' es ih =>
    rw [quarantineRejects]
    cases i with
    | succ i => exact ih he (by rw [← hok]; congr 1; omega)
    | zero =>
      obtain rfl : e' = e := by simpa using he
      unfold isValid at hinvalid
      split at hinvalid
      · cases hinvalid
      · rename_i err herr
        simp only [show faults.quarantine k = false from hok]
        obtain ⟨q, hq, hk⟩ := quarantine_mem (quarantinedEvent handle e' err) db
        exact ⟨q, (quarantineRejects_grows ..).quarantined q hq, hk⟩

/-- The handler keeps every event whose call does not fail. -/
theorem storeBatch_landed {faults : StoreFaults} {now : Timestamp} {adm : Admitted} {db : Db}
    {i : Nat} {e : EventEnvelope} (he : adm.batch.events[i]? = some e)
    (hok : faults.hits i e = false) :
    Landed parseEventTimestamp (storeBatch parseEventTimestamp faults now adm db).2
      adm.canonicalHandle e := by
  unfold StoreFaults.hits at hok
  unfold storeBatch
  cases hv : isValid e with
  | true =>
    rw [hv, if_pos rfl] at hok
    simp only [hok]
    rw [if_neg (by decide), insertBatch_snd]
    have hmem : fromEnvelope parseEventTimestamp e adm.canonicalHandle ∈
        toInsert parseEventTimestamp adm.canonicalHandle adm.batch.events :=
      List.mem_map_of_mem (List.mem_filter.2 ⟨List.mem_of_getElem? he, hv⟩)
    exact .inl (exists_conflicts_of_mem now _ hmem)
  | false =>
    rw [hv, if_neg (by decide)] at hok
    have hq : ∃ q ∈ (quarantineRejects faults adm.canonicalHandle 0 adm.batch.events db).quarantined,
        q.claimedHandle = adm.canonicalHandle ∧ q.idempotencyKey = e.idempotencyKey :=
      quarantineRejects_mem hv he (by rwa [Nat.zero_add])
    simp only
    split
    · exact .inr hq
    · exact Landed.mono (insertBatch_grows ..) (.inr hq)

/-! ## What the tray marks -/

/-- Metadata has no part in whether an event has landed. -/
theorem landed_backfill {db : Db} {handle handle' : String} {e : EventEnvelope} :
    Landed parseEventTimestamp db handle (backfillMetadata handle' e) ↔
      Landed parseEventTimestamp db handle e := by
  unfold backfillMetadata
  split <;> rfl

theorem restamp_handle (env : AuthEnv) (user : AuthenticatedUser) (batch : IngestBatch) :
    (restamp env user batch).1.events = batch.events ∧
      (restamp env user batch).1.claimedHandle =
        ((restamp env user batch).2.map (·.claimedHandle)).getD batch.claimedHandle := by
  unfold restamp
  split
  · exact ⟨rfl, rfl⟩
  · simp only
    split
    · exact ⟨rfl, rfl⟩
    · exact ⟨rfl, rfl⟩

/-- An admitted batch has the events of the request, under the handle that the answer names. -/
theorem admitBatch_ok {env : AuthEnv} {bearer : Option String} {batch : IngestBatch} {adm : Admitted}
    (h : admitBatch env bearer batch = .ok adm) :
    adm.batch.events = batch.events.map (backfillMetadata adm.canonicalHandle) ∧
      adm.canonicalHandle =
        Text.lower ((adm.handleChanged.map (·.claimedHandle)).getD batch.claimedHandle) := by
  unfold admitBatch at h
  split at h
  · cases h
  · rename_i user _
    obtain ⟨hevents, hhandle⟩ := restamp_handle env user batch
    split at h
    · cases h
    · split at h
      · cases h
      · simp only at h
        split at h
        · cases h
        · split at h
          · cases h
          · cases h
            exact ⟨by rw [hevents], by rw [hhandle]⟩

theorem reached_subset {faults : ClientFaults} {sub : List UnsentEvent} {e : UnsentEvent}
    (h : e ∈ faults.reached sub) : e ∈ sub := by
  unfold ClientFaults.reached at h
  split at h
  · exact h
  · exact List.mem_of_mem_take h

/-- An answer that marks anything comes from an admitted request. -/
theorem answer_ok {w : SendWorld} {batch : IngestBatch} {db : Db} {response : IngestResponse}
    (h : w.answer parseEventTimestamp batch db = .ok response) :
    w.network = .delivered ∧ ∃ adm, admitBatch w.auth (some w.token) batch = .ok adm ∧
      response.handleChanged = adm.handleChanged ∧
      (w.result parseEventTimestamp batch db).db = observeSequence w.serverFaults adm
        (storeBatch parseEventTimestamp w.serverFaults w.now adm db).2 := by
  unfold SendWorld.answer at h
  split at h
  · cases h
  · cases h
  · cases h
  · rename_i hnet
    refine ⟨hnet, ?_⟩
    unfold SendWorld.result handleIngest at h ⊢
    cases hadm : admitBatch w.auth (some w.token) batch with
    | error r => simp [hadm] at h
    | ok adm =>
      simp only [hadm] at h
      cases h
      exact ⟨adm, rfl, rfl, rfl⟩

/-- What a send marks has landed, when the failing calls hit only events stored already. -/
theorem deliveries_landed {s : UploadState} {lane : Lane} {w : SendWorld}
    {sub : List UnsentEvent} {rest : List (List UnsentEvent)} {quarantined : Nat}
    (hdrain : s.drains lane = some ⟨sub :: rest, quarantined⟩)
    (hspare : FaultsSpare parseEventTimestamp s (.send lane w)) {d : Delivery}
    (hd : d ∈ w.deliveries sub (w.answer parseEventTimestamp (w.batch s.storage sub) s.db)) :
    w.handled = true ∧
      Landed parseEventTimestamp (w.result parseEventTimestamp (w.batch s.storage sub) s.db).db
        d.handle d.envelope := by
  cases ha : w.answer parseEventTimestamp (w.batch s.storage sub) s.db with
  | error err =>
    rw [ha] at hd
    cases hd
  | ok response =>
    rw [ha] at hd
    obtain ⟨hnet, adm, hadm, hchanged, hdb⟩ := answer_ok ha
    obtain ⟨hevents, hhandle⟩ := admitBatch_ok hadm
    obtain ⟨e, he, rfl⟩ := List.mem_map.1 hd
    refine ⟨by unfold SendWorld.handled; rw [hnet], ?_⟩
    have hfiled : Text.lower ((response.handleChanged.map (·.claimedHandle)).getD w.claimedHandle) =
        adm.canonicalHandle := by
      rw [hchanged, hhandle]
      rfl
    simp only
    rw [hfiled, hdb]
    -- the envelope's place in the batch the server stores
    have hmem : backfillMetadata adm.canonicalHandle (w.batchEnv.envelope e) ∈ adm.batch.events := by
      rw [hevents]
      exact List.mem_map_of_mem (List.mem_map_of_mem (reached_subset he))
    obtain ⟨i, hi⟩ := List.mem_iff_getElem?.1 hmem
    refine Landed.mono (observeSequence_grows ..) ((@landed_backfill _ _ _ adm.canonicalHandle _).1 ?_)
    cases hhit : w.serverFaults.hits i _ with
    | false => exact storeBatch_landed hi hhit
    | true =>
      have hstored := hspare sub rest quarantined adm hdrain hnet hadm i _ hi hhit
      exact Landed.mono (storeBatch_grows ..) hstored

theorem send_grows (w : SendWorld) (batch : IngestBatch) (db : Db) :
    Grows db (if w.handled then (w.result parseEventTimestamp batch db).db else db) := by
  split
  · exact handleIngest_grows ..
  · exact .refl db

theorem noneLost_step {s s' : UploadState} (hs : NoneLost parseEventTimestamp s) :
    ∀ {a : UploadAction}, FaultsSpare parseEventTimestamp s a →
      uploadStep parseEventTimestamp s a = some s' → NoneLost parseEventTimestamp s'
  | .record row, _, h => by
    cases h
    exact hs
  | .begin lane priorityTypes pageSize maxBatchBytes, _, h => by
    simp only [uploadStep] at h
    split at h
    · cases h
    · cases h
      exact hs
  | .send lane w, hspare, h => by
    simp only [uploadStep] at h
    split at h
    · rename_i sub rest quarantined hdrain
      cases h
      intro d hd
      rcases List.mem_append.1 hd with hold | hnew
      · exact Landed.mono (send_grows ..) (hs d hold)
      · obtain ⟨hhandled, hlanded⟩ := deliveries_landed hdrain hspare hnew
        simp only [if_pos hhandled]
        exact hlanded
    · cases h

/-- No event is lost in a run whose failing calls hit only events stored already. -/
theorem none_lost {storage : ClientStorage} {db : Db} {s : UploadState}
    (h : Trans.Reach (uploadStep parseEventTimestamp) (FaultsSpare parseEventTimestamp)
      (.start storage db) s) : NoneLost parseEventTimestamp s := by
  have hstart : NoneLost parseEventTimestamp (.start storage db) := fun d hd => by cases hd
  exact h.inv hstart fun _ _ _ hs hok hstep => noneLost_step hs hok hstep

end

/-! ## A concrete upload -/

/-- An account without restrictions. -/
def pilotEnv : AuthEnv where
  verify _ := .ok ⟨"7d7e", 0, "Pilot", .user, none⟩
  parseUuid := some
  handleIndex := none
  deviceAuthStatus _ := .ok .active
  restrictions := some fun _ => .ok none
  syncEnabledFor _ _ := .ok (some true)
  signDevice _ _ _ := none

def joinEvent : GameEvent := .joinPu ⟨"2026-06-03T00:00:00.000Z", "1.2.3.4", 64300, "pub_euw1b", "1"⟩

/-- The time of `joinEvent`. -/
def joinTime : String → Option Timestamp := fun _ => some 1780444800000000

def joinRow : ClientRow where
  id := 1
  idempotencyKey := "evt"
  payloadJson := "join"
  rawLine := "line"
  logSource := "live"
  sourceOffset := 0
  eventType := "join_pu"
  sentAt := none

/-- One send over a working network. -/
def joinWorld (faults : StoreFaults) : SendWorld where
  network := .delivered
  auth := pilotEnv
  batchEnv :=
    { parsePayload := fun _ => some joinEvent
      classify := fun raw => ⟨raw, none, none, .anonymousPoi, .fallback⟩
      contentUuid := id
      collectorVersion := "1.0.0" }
  token := "token"
  claimedHandle := "Pilot"
  batchId := "batch"
  parserVersion := none
  now := 0
  serverFaults := faults
  clientFaults := .none

def joinActions (faults : StoreFaults) : List UploadAction :=
  [.record joinRow, .begin .bulk [] 100 1000000, .send .bulk (joinWorld faults)]

def insertFails : StoreFaults := { StoreFaults.none with insertBatch := true }

/-- The tray does not see the answer to the first send, and repeats it. -/
def lostAnswer : List UploadAction :=
  [.record joinRow, .begin .bulk [] 100 1000000,
    .send .bulk { joinWorld .none with network := .responseLost }, .begin .bulk [] 100 1000000]

theorem faultsSpare_of_none {s : UploadState} {lane : Lane} {w : SendWorld}
    (h : w.serverFaults = .none) : FaultsSpare joinTime s (.send lane w) := by
  intro sub rest quarantined adm _ _ _ i e _ hhit
  rw [h] at hhit
  unfold StoreFaults.hits at hhit
  split at hhit <;> cases hhit

instance (db : Db) (handle : String) (e : EventEnvelope) :
    Decidable (Landed joinTime db handle e) :=
  inferInstanceAs (Decidable ((∃ r ∈ db.events, _) ∨ ∃ q ∈ db.quarantined, _))

/-- Whatever is sent next is stored already. -/
def sentAgain (s : UploadState) (w : SendWorld) : Bool :=
  (s.drains .bulk).all fun drain => drain.stack.all fun sub =>
    (admitBatch w.auth (some w.token) (w.batch s.storage sub)).toOption.all fun adm =>
      adm.batch.events.all fun e => decide (Landed joinTime s.db adm.canonicalHandle e)

theorem faultsSpare_of_sentAgain {s : UploadState} {w : SendWorld} (h : sentAgain s w = true) :
    FaultsSpare joinTime s (.send .bulk w) := by
  intro sub rest quarantined adm hdrain _ hadm i e he _
  rw [sentAgain, hdrain, Option.all_some, List.all_eq_true] at h
  have hsub := h sub List.mem_cons_self
  rw [hadm] at hsub
  exact of_decide_eq_true (List.all_eq_true.1 hsub e (List.mem_of_getElem? he))

/-- The repeated batch meets a failing insert, but its event is stored. -/
theorem none_lost_join :
    ∃ s, Trans.Reach (uploadStep joinTime) (FaultsSpare joinTime) (.start ⟨[], 0⟩ Db.empty) s ∧
      s.delivered.length = 1 ∧ NoneLost joinTime s := by
  have hrun : (Trans.exec (uploadStep joinTime) Trans.always (.start ⟨[], 0⟩ Db.empty)
      lostAnswer).map (fun s => (sentAgain s (joinWorld insertFails),
        (uploadStep joinTime s (.send .bulk (joinWorld insertFails))).map (·.delivered.length))) =
      some (true, some 1) := by
    decide +kernel
  obtain ⟨s, hexec, hs⟩ := Option.map_eq_some_iff.1 hrun
  obtain ⟨hagain, hsent⟩ := Prod.mk.inj hs
  obtain ⟨s', hstep, hone⟩ := Option.map_eq_some_iff.1 hsent
  have hspare : ∀ a ∈ lostAnswer, ∀ s, FaultsSpare joinTime s a := by
    intro a ha s
    simp only [lostAnswer, List.mem_cons, List.not_mem_nil, or_false] at ha
    rcases ha with rfl | rfl | rfl | rfl
    · trivial
    · trivial
    · exact faultsSpare_of_none rfl
    · trivial
  have hreach : Trans.Reach (uploadStep joinTime) (FaultsSpare joinTime) (.start ⟨[], 0⟩ Db.empty)
      s' := (Trans.reach_of_exec_always _ hspare hexec).tail
        ⟨_, faultsSpare_of_sentAgain hagain, hstep⟩
  exact ⟨s', hreach, hone, none_lost hreach⟩

/-- The handler answers 200 to a batch it could not insert, and the tray marks it sent. -/
theorem insert_failure_loses_batch :
    ¬ ∀ (storage : ClientStorage) (db : Db) (s : UploadState),
      Trans.Reach (uploadStep joinTime) Trans.always (.start storage db) s → NoneLost joinTime s := by
  intro h
  have hrun : (Trans.exec (uploadStep joinTime) Trans.always (.start ⟨[], 0⟩ Db.empty)
      (joinActions insertFails)).map
        (fun s => (s.delivered.length, s.db.events.length, s.db.quarantined.length)) =
      some (1, 0, 0) := by
    decide +kernel
  obtain ⟨s, hreach, hs⟩ := Trans.reach_of_map_exec _ hrun
  simp only [Prod.mk.injEq, List.length_eq_zero_iff] at hs
  obtain ⟨hone, hevents, hquarantined⟩ := hs
  obtain ⟨d, hd⟩ := List.exists_mem_of_length_pos (by omega : 0 < s.delivered.length)
  rcases h _ _ s hreach d hd with ⟨r, hr, -⟩ | ⟨q, hq, -⟩
  · rw [hevents] at hr
    cases hr
  · rw [hquarantined] at hq
    cases hq

end StarStats.Upload
