import StarStats.Client.Emitted
import StarStats.Client.Proof.Suppression
import Mathlib.Data.List.Infix

/-!
# When a failed write is retried

The summaries and the records of a call leave the emitted keys alone and only add to the table, and
a row of the pass adds its key whether it is written or not. So the emitted keys stay behind the
table exactly as long as every inferred row lands (`retried_iff`).
-/

namespace StarStats

theorem HasInferred.mono {events events' : List EventsRow} (h : events ⊆ events') {key : String} :
    HasInferred events key → HasInferred events' key := fun ⟨row, hrow, hkey⟩ =>
  ⟨row, h hrow, hkey⟩

/-- No key is emitted, and no row lost. -/
def IngestState.Grows (st st' : IngestState) : Prop :=
  st.events ⊆ st'.events ∧ st'.window.emitted = st.window.emitted

namespace IngestState.Grows

theorem refl (st : IngestState) : st.Grows st := ⟨List.Subset.refl _, rfl⟩

theorem trans {st st' st'' : IngestState} (h : st.Grows st') (h' : st'.Grows st'') :
    st.Grows st'' := ⟨List.Subset.trans h.1 h'.1, h'.2.trans h.2⟩

theorem emittedStored {st st' : IngestState} (h : st.Grows st') (hst : EmittedStored st) :
    EmittedStored st' := by
  intro key hkey
  rw [h.2] at hkey
  exact (hst key hkey).mono h.1

theorem foldl {α : Type*} {step : IngestState → α → IngestState}
    (hstep : ∀ (st : IngestState) a, st.Grows (step st a)) (as : List α) (st : IngestState) :
    st.Grows (as.foldl step st) := by
  induction as generalizing st with
  | nil => exact refl st
  | cons a as ih => exact (hstep st a).trans (ih _)

end IngestState.Grows

namespace IngestEnv

variable {env : IngestEnv} {feed : LogFeed}

/-! ## Calls whose writes all work -/

theorem attempts_of_works {st : IngestState} {call : BufferCall}
    (hworks : call.faults.inferred = fun _ => false) :
    env.attempts st call = (env.conclusions st call).map (·, false) := by
  unfold attempts
  rw [hworks]
  calc (env.conclusions st call).zipIdx.map (fun x => (x.1, false))
      = ((env.conclusions st call).zipIdx.map (·.1)).map (·, false) := by rw [List.map_map]; rfl
    _ = (env.conclusions st call).map (·, false) := by rw [List.zipIdx_map_fst]

theorem persistAttempt_of_works (st : IngestState) (row : InferredEvent) :
    env.persistAttempt feed st (row, false) = env.persistInferred feed st row := rfl

/-- They are those of `processBuffer`. -/
theorem processBufferFaulty_of_works (st : IngestState)
    (inferenceRules : List CompiledInferenceRule) (burstRules : List BurstRule) (enableV2 : Bool)
    (lines : List (String × Nat)) :
    env.processBufferFaulty st ⟨feed, inferenceRules, burstRules, enableV2, .none, lines⟩ =
      env.processBuffer feed inferenceRules burstRules enableV2 st lines := by
  have hstored := foldl_storedBursts (fun _ => false)
    (detectBursts ((parseable (stitchMultilineRecords lines)).map (·.2)) burstRules)
    (env.storeBurst feed enableV2 (stitchMultilineRecords lines)
      (parseable (stitchMultilineRecords lines))) (st, [])
  rw [storedBursts_of_none] at hstored
  have hattempts : ∀ st, env.attempts st
      ⟨feed, inferenceRules, burstRules, enableV2, .none, lines⟩ = _ :=
    fun _ => attempts_of_works rfl
  simp only [Bool.false_eq_true, if_false] at hstored
  simp only [processBufferFaulty, hattempts, List.foldl_map, persistAttempt_of_works, conclusions]
  simp only [ingestFaulty, WriteFaults.none, Bool.false_eq_true, if_false, hstored, processBuffer]
  cases enableV2 <;> rfl

/-! ## Summaries and records -/

theorem grows_store (enableV2 : Bool) (st : IngestState) (key : String) (event : GameEvent)
    (raw : String) (offset : Nat) : st.Grows (env.store feed enableV2 st key event raw offset) := by
  refine ⟨Inserts.subset_insertNew _ _, ?_⟩
  unfold store
  cases enableV2 <;> rfl

theorem grows_ingestOneLine (enableV2 : Bool) (st : IngestState) (line : String × Nat) :
    st.Grows (env.ingestOneLine feed enableV2 st line) := by
  unfold ingestOneLine
  split
  · exact grows_store ..
  · exact .refl st

theorem grows_storeBurst (enableV2 : Bool) (buffer : List (String × Nat))
    (valid : List (Nat × LogLine)) (st : IngestState × List Nat) (burst : BurstHit) :
    st.1.Grows (env.storeBurst feed enableV2 buffer valid st burst).1 := by
  unfold storeBurst
  split
  case h_1 =>
    split
    · exact grows_store ..
    · exact .refl st.1
  case h_2 => exact .refl st.1

theorem grows_ingestFaulty (st : IngestState) (call : BufferCall) :
    st.Grows (env.ingestFaulty st call) := by
  have hbursts : ∀ (bursts : List (BurstHit × Nat)) (acc : IngestState × List Nat),
      acc.1.Grows (bursts.foldl (fun st burst =>
        if call.faults.summary burst.2 then st
        else env.storeBurst call.feed call.enableV2 (stitchMultilineRecords call.lines)
          (parseable (stitchMultilineRecords call.lines)) st burst.1) acc).1 := by
    intro bursts
    induction bursts with
    | nil => exact fun acc => .refl acc.1
    | cons burst bursts ih =>
      intro acc
      rw [List.foldl_cons]
      refine .trans ?_ (ih _)
      split
      · exact .refl acc.1
      · exact grows_storeBurst ..
  unfold ingestFaulty
  refine (hbursts _ (st, [])).trans (.foldl (fun st line => ?_) _ _)
  dsimp only
  split
  case isTrue => exact .refl st
  case isFalse =>
    split
    · exact .refl st
    · exact grows_ingestOneLine ..

/-! ## One inferred row -/

theorem isInferred_inferredRow (row : InferredEvent) :
    (env.inferredRow feed row).isInferred = true := by
  unfold EventsRow.isInferred inferredRow eventRow
  rw [String.toList_append, List.isPrefixOf_iff_prefix]
  exact List.prefix_append _ _

section
variable {st : IngestState} {attempt : InferredEvent × Bool}

theorem persistAttempt_old
    (h : (env.inferredRow feed attempt.1).idempotencyKey ∈ st.window.emitted) :
    env.persistAttempt feed st attempt = st := if_pos h

theorem persistAttempt_new
    (h : (env.inferredRow feed attempt.1).idempotencyKey ∉ st.window.emitted) :
    env.persistAttempt feed st attempt =
      { events := if attempt.2 then st.events
          else (env.insertEvent st.events (env.inferredRow feed attempt.1)).1
        window := st.window.emit (env.inferredRow feed attempt.1).idempotencyKey } := if_neg h

theorem subset_persistAttempt :
    st.events ⊆ (env.persistAttempt feed st attempt).events := by
  by_cases h : (env.inferredRow feed attempt.1).idempotencyKey ∈ st.window.emitted
  · rw [persistAttempt_old h]
    exact List.Subset.refl _
  · rw [persistAttempt_new h]
    dsimp only
    split
    · exact List.Subset.refl _
    · exact Inserts.subset_insertNew _ _

/-- The row's key is emitted either way. -/
theorem mem_emitted_persistAttempt {key : String} :
    key ∈ (env.persistAttempt feed st attempt).window.emitted ↔
      key = (env.inferredRow feed attempt.1).idempotencyKey ∨ key ∈ st.window.emitted := by
  by_cases h : (env.inferredRow feed attempt.1).idempotencyKey ∈ st.window.emitted
  · rw [persistAttempt_old h]
    refine ⟨.inr, fun hkey => hkey.elim (fun heq => ?_) id⟩
    rwa [heq]
  · rw [persistAttempt_new h]
    exact List.mem_cons

/-- A write adds its row or nothing. -/
theorem mem_persistAttempt {x : EventsRow}
    (hx : x ∈ (env.persistAttempt feed st attempt).events) :
    x ∈ st.events ∨
      x = env.inferredRow feed attempt.1 ∧ attempt.2 = false ∧
        x.idempotencyKey ∉ st.window.emitted ∧
        ∀ other ∈ st.events, env.rowConflict x other = false := by
  by_cases h : (env.inferredRow feed attempt.1).idempotencyKey ∈ st.window.emitted
  · rw [persistAttempt_old h] at hx
    exact .inl hx
  · rw [persistAttempt_new h] at hx
    dsimp only at hx
    split at hx
    case isTrue => exact .inl hx
    case isFalse hfails =>
      unfold insertEvent at hx
      rw [Inserts.insertNew_eq] at hx
      split at hx
      case isTrue => exact .inl hx
      case isFalse hfree =>
        rcases List.mem_append.1 hx with hx | hx
        · exact .inl hx
        · obtain rfl := List.mem_singleton.1 hx
          refine .inr ⟨rfl, by simpa using hfails, h, fun other hother => ?_⟩
          by_contra hc
          exact hfree ⟨other, hother, by simpa using hc⟩

theorem emittedStored_persistAttempt (hst : EmittedStored st)
    (hlands : env.AttemptLands feed st attempt) :
    EmittedStored (env.persistAttempt feed st attempt) := by
  intro key hkey
  rcases mem_emitted_persistAttempt.1 hkey with rfl | hkey
  · rcases hlands with hold | hstored | ⟨hwritten, hfree⟩
    · exact (hst _ hold).mono subset_persistAttempt
    · exact hstored.mono subset_persistAttempt
    · by_cases h : (env.inferredRow feed attempt.1).idempotencyKey ∈ st.window.emitted
      · exact (hst _ h).mono subset_persistAttempt
      · refine ⟨env.inferredRow feed attempt.1, ?_, rfl, isInferred_inferredRow _⟩
        rw [persistAttempt_new h, hwritten]
        show _ ∈ (env.insertEvent st.events _).1
        unfold insertEvent
        rw [Inserts.insertNew_eq, if_neg]
        · exact List.mem_append_right _ List.mem_cons_self
        · rintro ⟨other, hother, hc⟩
          rw [hfree other hother] at hc
          cases hc
  · exact (hst key hkey).mono subset_persistAttempt

/-- The key is emitted, and its row is nowhere. -/
theorem not_emittedStored_of_not_lands (hnot : ¬ env.AttemptLands feed st attempt) :
    ¬ EmittedStored (env.persistAttempt feed st attempt) := by
  intro hst
  obtain ⟨hnew, hnone, hblocked⟩ :
      (env.inferredRow feed attempt.1).idempotencyKey ∉ st.window.emitted ∧
        ¬ HasInferred st.events (env.inferredRow feed attempt.1).idempotencyKey ∧
        ¬ (attempt.2 = false ∧
          ∀ other ∈ st.events, env.rowConflict (env.inferredRow feed attempt.1) other = false) := by
    simpa only [AttemptLands, not_or] using hnot
  obtain ⟨x, hx, hkey, hinferred⟩ := hst _ (mem_emitted_persistAttempt.2 (.inl rfl))
  rcases mem_persistAttempt hx with hx | ⟨rfl, hwritten, -, hfree⟩
  · exact hnone ⟨x, hx, hkey, hinferred⟩
  · exact hblocked ⟨hwritten, hfree⟩

/-- An emitted key is never written again. -/
theorem not_emittedStored_persistAttempt (hst : ¬ EmittedStored st) :
    ¬ EmittedStored (env.persistAttempt feed st attempt) := by
  intro hafter
  refine hst fun key hkey => ?_
  obtain ⟨x, hx, rfl, hinferred⟩ := hafter key (mem_emitted_persistAttempt.2 (.inr hkey))
  rcases mem_persistAttempt hx with hx | ⟨-, -, hnew, -⟩
  · exact ⟨x, hx, rfl, hinferred⟩
  · exact absurd hkey hnew

end

/-! ## A pass -/

/-- A pass that starts with the emitted keys behind the table ends so exactly when it all lands. -/
theorem emittedStored_processBuffer_iff {st : IngestState} (hst : EmittedStored st)
    (call : BufferCall) :
    EmittedStored (env.processBufferFaulty st call) ↔ env.Lands st call := by
  show EmittedStored ((env.attempts (env.ingestFaulty st call) call).foldl
    (env.persistAttempt call.feed) (env.ingestFaulty st call)) ↔ _
  unfold Lands
  refine Trans.last_iff (P := EmittedStored) ?_ ?_ ?_ _
    ((grows_ingestFaulty st call).emittedStored hst) (Trans.exec_some _ _ _)
  · intro st attempt st' h hstep hlands
    obtain rfl := Option.some.inj hstep
    exact emittedStored_persistAttempt h hlands
  · intro st attempt st' hstep hnot
    obtain rfl := Option.some.inj hstep
    exact not_emittedStored_of_not_lands hnot
  · intro st attempt st' h hstep
    obtain rfl := Option.some.inj hstep
    exact not_emittedStored_persistAttempt h

/-! ## The next pass -/

theorem Settled.mono {events events' rows : List EventsRow} {key : String}
    (h : env.Settled events rows key) (hsub : events ⊆ events') : env.Settled events' rows key :=
  h.imp (.mono hsub) fun ⟨row, hrow, hkey, other, hother, hc⟩ =>
    ⟨row, hrow, hkey, other, hsub hother, hc⟩

theorem settled_persistAttempt {st : IngestState} {rows : List EventsRow} {row : InferredEvent}
    (hst : ∀ key ∈ st.window.emitted, env.Settled st.events rows key)
    (hrow : env.inferredRow feed row ∈ rows) :
    ∀ key ∈ (env.persistAttempt feed st (row, false)).window.emitted,
      env.Settled (env.persistAttempt feed st (row, false)).events rows key := by
  intro key hkey
  by_cases hold : key ∈ st.window.emitted
  · exact (hst key hold).mono subset_persistAttempt
  · have hnew := (mem_emitted_persistAttempt.1 hkey).resolve_right hold
    dsimp only at hnew
    subst hnew
    rw [@persistAttempt_new env feed st (row, false) hold]
    obtain ⟨other, hother, hc⟩ := Inserts.conflict_insertNew (rowConflict_self env) st.events
      (env.inferredRow feed row)
    exact .inr ⟨env.inferredRow feed row, hrow, rfl, other, hother, hc⟩

/-- Of a pass whose writes do not fail every key is settled. -/
theorem settled_foldl {rows : List EventsRow} (conclusions : List InferredEvent)
    (hrows : ∀ row ∈ conclusions, env.inferredRow feed row ∈ rows) {st : IngestState}
    (hst : ∀ key ∈ st.window.emitted, env.Settled st.events rows key) :
    let st' := (conclusions.map (·, false)).foldl (env.persistAttempt feed) st
    (∀ key ∈ st'.window.emitted, env.Settled st'.events rows key) ∧
      st.window.emitted ⊆ st'.window.emitted ∧
      ∀ row ∈ conclusions, (env.inferredRow feed row).idempotencyKey ∈ st'.window.emitted := by
  induction conclusions generalizing st with
  | nil => exact ⟨hst, List.Subset.refl _, fun _ h => absurd h List.not_mem_nil⟩
  | cons row rest ih =>
    obtain ⟨hrow, hrest⟩ := List.forall_mem_cons.1 hrows
    obtain ⟨hsettled, hkept, hall⟩ := ih hrest (settled_persistAttempt hst hrow)
    refine ⟨hsettled, fun key hkey => hkept (mem_emitted_persistAttempt.2 (.inr hkey)), ?_⟩
    exact List.forall_mem_cons.2 ⟨hkept (mem_emitted_persistAttempt.2 (.inl rfl)), hall⟩

theorem retried_of_emittedStored {st : IngestState} (hst : EmittedStored st) : env.Retried st := by
  refine ⟨hst, fun call hworks => ?_⟩
  intro rows row hrow
  have hstored : ∀ key ∈ (env.ingestFaulty st call).window.emitted,
      env.Settled (env.ingestFaulty st call).events rows key := fun key hkey =>
    .inl ((grows_ingestFaulty st call).emittedStored hst key hkey)
  obtain ⟨hsettled, -, hall⟩ := settled_foldl (env.conclusions (env.ingestFaulty st call) call)
    (fun _ => List.mem_map_of_mem) hstored
  obtain ⟨inferred, hinferred, rfl⟩ := List.mem_map.1 hrow
  simp only [processBufferFaulty, attempts_of_works hworks]
  exact hsettled _ (hall inferred hinferred)

/-- **The emitted keys stay behind the table, and what failed is written by the next pass,
throughout a sequence of calls exactly when every inferred row lands.** -/
theorem retried_iff (env : IngestEnv) (events : List EventsRow) (calls : List BufferCall) :
    Trans.AllStates env.bufferStep env.Retried ⟨events, .default⟩ calls ↔
      Trans.AllSteps env.bufferStep env.Lands ⟨events, .default⟩ calls := by
  refine Trans.allStates_iff (I := EmittedStored) (fun _ => retried_of_emittedStored)
    (fun st call st' hst hstep hlands => ?_) (fun st call st' hst hstep hnot hretried => ?_) calls
    (fun _ hkey => absurd hkey List.not_mem_nil)
  · obtain rfl := Option.some.inj hstep
    exact (emittedStored_processBuffer_iff hst call).2 hlands
  · obtain rfl := Option.some.inj hstep
    exact hnot ((emittedStored_processBuffer_iff hst call).1 hretried.emitted_stored)

/-- From one moon to another, when the inferred rows cannot be written. -/
def landingsUnwritten : BufferCall where
  feed := ⟨.live, none⟩
  inferenceRules := builtInInferenceRules
  burstRules := builtinBurstRules
  enableV2 := true
  faults := { WriteFaults.none with inferred := fun _ => true }
  lines := landings

/-- The change of place is emitted, and not stored. -/
theorem not_retried :
    ¬ ∀ (env : IngestEnv) (events : List EventsRow) (calls : List BufferCall),
      Trans.AllStates env.bufferStep env.Retried ⟨events, .default⟩ calls := by
  intro h
  have hexec := Trans.exec_some landingEnv.processBufferFaulty ⟨[], .default⟩ [landingsUnwritten]
  have hstored := ((h landingEnv [] [landingsUnwritten]).of_exec hexec).emitted_stored
  revert hstored
  decide +kernel

end IngestEnv

end StarStats
