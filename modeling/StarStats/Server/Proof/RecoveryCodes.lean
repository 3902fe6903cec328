import Mathlib.Data.List.Pairwise
import StarStats.Server.RecoveryCodes

/-!
# One batch, each code once

`Inv` is kept by every step: a hash in the table is that of a code of a committed regenerate, no two
rows have the same, and the row of an accepted code is marked. `Replaced` is kept by the steps that
meet `OneAtATime`: the regenerate whose `DELETE` has started has every row of the table before it.
Two that overlap leave both batches (`overlapping_regenerates_leave_both_batches`).
-/

namespace StarStats.RecoveryCodes

variable {h : Hashing} {s : State} {i : Nat}

/-! ## Calls -/

/-- What a call under way rests on. -/
def CallOk (h : Hashing) (drawn : List (Uuid × String)) : Call → Prop
  | .regenerate batch (.writing _ inserted rest) =>
    inserted.map (·.codeHash) ++ rest.map (·.codeHash h) = batch.map (·.codeHash h) ∧
      ∀ row ∈ inserted, (row.id, row.codeHash) ∈ drawn
  | .redeem candidate (.matched id) =>
    ∃ hash, (id, hash) ∈ drawn ∧ h.verifyPassword (h.normalise candidate) hash = true
  | _ => True

theorem CallOk.mono {drawn drawn' : List (Uuid × String)} (hsub : drawn ⊆ drawn') {c : Call}
    (hc : CallOk h drawn c) : CallOk h drawn' c := by
  cases c with
  | regenerate batch phase =>
    cases phase with
    | writing deleted inserted rest => exact ⟨hc.1, fun row hrow => hsub (hc.2 row hrow)⟩
    | _ => trivial
  | redeem candidate phase =>
    cases phase with
    | matched id =>
      obtain ⟨hash, hmem, hverify⟩ := hc
      exact ⟨hash, hsub hmem, hverify⟩
    | _ => trivial
  | clear phase => trivial

/-- The code is of a regenerate that has committed. -/
def Committed (s : State) (e : Issued) : Prop :=
  ∃ batch, .regenerate batch .committed ∈ s.calls ∧ e ∈ batch

theorem Committed.push {e : Issued} {c : Call} (he : Committed s e) : Committed (s.push c) e := by
  obtain ⟨batch, hmem, he⟩ := he
  exact ⟨batch, List.mem_append_left _ hmem, he⟩

theorem Committed.setCall {e : Issued} {c old : Call} (he : Committed s e)
    (hold : s.calls[i]? = some old) (hopen : ∀ b, old ≠ .regenerate b .committed) :
    Committed (s.setCall i c) e := by
  obtain ⟨batch, hmem, he⟩ := he
  exact ⟨batch, Calls.mem_set_of_ne hold hmem (hopen batch).symm, he⟩

theorem codes_setCall {c old : Call} (hold : s.calls[i]? = some old)
    (hbatch : c.batch = old.batch) : (s.setCall i c).codes = s.codes := by
  have hcodes : c.codes = old.codes := by simp [Call.codes, hbatch]
  simp only [State.codes, State.setCall, List.flatMap_def, Calls.map_set hold hcodes]

/-- A code is generated once. -/
theorem issued_inj (hcodes : s.codes.Nodup) {c c' : Call} (hc : c ∈ s.calls) (hc' : c' ∈ s.calls)
    {e e' : Issued} (he : e ∈ c.batch) (he' : e' ∈ c'.batch) (heq : e.code = e'.code) :
    c = c' ∧ e = e' := by
  obtain ⟨hnodup, hapart⟩ := List.nodup_flatMap.1 hcodes
  have hmem : e.code ∈ c.codes := List.mem_map.2 ⟨e, he, rfl⟩
  have hmem' : e.code ∈ c'.codes := List.mem_map.2 ⟨e', he', heq.symm⟩
  have hsame : c = c' := by
    have : Std.Symm (Function.onFun List.Disjoint Call.codes) := ⟨fun _ _ hd => hd.symm⟩
    by_contra hne
    exact hapart.forall hc hc' hne hmem hmem'
  subst hsame
  exact ⟨rfl, List.inj_on_of_nodup_map (hnodup c hc) he he' heq⟩

theorem verify_codeHash {e : Issued} {code : String} :
    h.verifyPassword code (e.codeHash h) = true ↔ code = e.code := h.exact e.salt e.code code

theorem code_eq_of_codeHash_eq {e e' : Issued} (heq : e.codeHash h = e'.codeHash h) :
    e.code = e'.code := by
  rw [← verify_codeHash (h := h), ← heq]
  exact verify_codeHash.2 rfl

/-! ## The invariant -/

structure Inv (h : Hashing) (s : State) : Prop where
  codes : s.codes.Nodup
  drawn : (s.drawn.map (·.1)).Nodup
  ids : ∀ row ∈ s.table, (row.id, row.codeHash) ∈ s.drawn
  origin : ∀ row ∈ s.table, ∃ e, Committed s e ∧ row.codeHash = e.codeHash h
  hashes : (s.table.map (·.codeHash)).Nodup
  calls : ∀ c ∈ s.calls, CallOk h s.drawn c
  known : ∀ code ∈ s.accepted, ∃ e, Committed s e ∧ e.code = code
  spent : ∀ code ∈ s.accepted, ∀ row ∈ s.table, h.verifyPassword code row.codeHash = true →
    row.usedAt ≠ none
  once : s.accepted.Nodup

theorem inv_start : Inv h .start := by
  constructor <;> simp [State.start, State.codes]

theorem inv_push (hs : Inv h s) {c : Call} (hcodes : (s.codes ++ c.codes).Nodup)
    (hok : CallOk h s.drawn c) : Inv h (s.push c) where
  codes := by simpa [State.codes, State.push] using hcodes
  drawn := hs.drawn
  ids := hs.ids
  origin := by
    intro row hrow
    obtain ⟨e, he, heq⟩ := hs.origin row hrow
    exact ⟨e, he.push, heq⟩
  hashes := hs.hashes
  calls := by
    intro c' hc'
    rcases List.mem_append.1 hc' with hc' | hc'
    · exact hs.calls c' hc'
    · rw [List.mem_singleton.1 hc']
      exact hok
  known := by
    intro code hcode
    obtain ⟨e, he, heq⟩ := hs.known code hcode
    exact ⟨e, he.push, heq⟩
  spent := hs.spent
  once := hs.once

/-- A statement that only moves its call on. -/
theorem inv_setCall (hs : Inv h s) {c old : Call} (hold : s.calls[i]? = some old)
    (hopen : ∀ b, old ≠ .regenerate b .committed) (hbatch : c.batch = old.batch)
    (hok : CallOk h s.drawn c) : Inv h (s.setCall i c) where
  codes := by
    rw [codes_setCall hold hbatch]
    exact hs.codes
  drawn := hs.drawn
  ids := hs.ids
  origin := by
    intro row hrow
    obtain ⟨e, he, heq⟩ := hs.origin row hrow
    exact ⟨e, he.setCall hold hopen, heq⟩
  hashes := hs.hashes
  calls := by
    intro c' hc'
    rcases List.mem_or_eq_of_mem_set hc' with hc' | rfl
    · exact hs.calls c' hc'
    · exact hok
  known := by
    intro code hcode
    obtain ⟨e, he, heq⟩ := hs.known code hcode
    exact ⟨e, he.setCall hold hopen, heq⟩
  spent := hs.spent
  once := hs.once

/-- A committed `DELETE`. -/
theorem inv_filter (hs : Inv h s) (p : Row → Bool) : Inv h { s with table := s.table.filter p } :=
  { hs with
    ids := fun row hrow => hs.ids row (List.mem_of_mem_filter hrow)
    origin := fun row hrow => hs.origin row (List.mem_of_mem_filter hrow)
    hashes := hs.hashes.sublist (List.filter_sublist.map _)
    spent := fun code hcode row hrow => hs.spent code hcode row (List.mem_of_mem_filter hrow) }

/-! ## Inserts and their commit -/

theorem inv_draw (hs : Inv h s) {id : Uuid} {hash : String} (hnew : ¬ s.drawn.any (·.1 = id)) :
    Inv h { s with drawn := s.drawn ++ [(id, hash)] } :=
  { hs with
    drawn := by
      rw [List.map_append, List.map_singleton]
      apply hs.drawn.append (List.nodup_singleton _)
      rw [List.disjoint_singleton]
      simpa using hnew
    ids := fun row hrow => List.mem_append_left _ (hs.ids row hrow)
    calls := fun c hc => (hs.calls c hc).mono (List.subset_append_left _ _) }

section
variable {batch : List Issued} {deleted : List Uuid} {inserted : List Row}

theorem inserted_of_writing (hs : Inv h s)
    (hcall : s.calls[i]? = some (.regenerate batch (.writing deleted inserted []))) :
    inserted.map (·.codeHash) = batch.map (·.codeHash h) := by
  have hok := (hs.calls _ (List.mem_of_getElem? hcall)).1
  simpa using hok

/-- No committed code is in the batch of a regenerate that is still writing. -/
theorem Committed.code_ne (hs : Inv h s) {rest : List Issued}
    (hcall : s.calls[i]? = some (.regenerate batch (.writing deleted inserted rest)))
    {e e' : Issued} (he : Committed s e) (he' : e' ∈ batch) : e.code ≠ e'.code := by
  intro heq
  obtain ⟨batch', hmem, he⟩ := he
  have hsame := (issued_inj hs.codes hmem (List.mem_of_getElem? hcall) he he' heq).1
  simp at hsame

theorem inv_commit (hs : Inv h s)
    (hcall : s.calls[i]? = some (.regenerate batch (.writing deleted inserted []))) :
    Inv h { s.setCall i (.regenerate batch .committed) with
      table := s.table.filter (·.id ∉ deleted) ++ inserted } := by
  have hhashes := inserted_of_writing hs hcall
  have hof : ∀ row ∈ inserted, ∃ e ∈ batch, row.codeHash = e.codeHash h := by
    intro row hrow
    have hmem : row.codeHash ∈ inserted.map (·.codeHash) := List.mem_map.2 ⟨row, hrow, rfl⟩
    rw [hhashes] at hmem
    obtain ⟨e, he, heq⟩ := List.mem_map.1 hmem
    exact ⟨e, he, heq.symm⟩
  have hopen : ∀ b, Call.regenerate batch (.writing deleted inserted []) ≠
      .regenerate b .committed := by simp
  have hset := inv_setCall (c := .regenerate batch .committed) hs hcall hopen rfl trivial
  have hs' := inv_filter hset fun row => row.id ∉ deleted
  have hmem : Call.regenerate batch .committed ∈ (s.calls.set i (.regenerate batch .committed)) :=
    List.mem_of_getElem? (Calls.get_set_self hcall)
  refine { hs' with ids := ?_, origin := ?_, hashes := ?_, spent := ?_ }
  · intro row hrow
    rcases List.mem_append.1 hrow with hrow | hrow
    · exact hs'.ids row hrow
    · exact (hs.calls _ (List.mem_of_getElem? hcall)).2 row hrow
  · intro row hrow
    rcases List.mem_append.1 hrow with hrow | hrow
    · exact hs'.origin row hrow
    · obtain ⟨e, he, heq⟩ := hof row hrow
      exact ⟨e, ⟨batch, hmem, he⟩, heq⟩
  · rw [List.map_append]
    apply hs'.hashes.append
    · rw [hhashes]
      have hnodup := (List.nodup_flatMap.1 hs.codes).1 _ (List.mem_of_getElem? hcall)
      apply List.Nodup.map_on _ (List.Nodup.of_map _ hnodup)
      intro e he e' he' heq
      exact List.inj_on_of_nodup_map hnodup he he' (code_eq_of_codeHash_eq heq)
    · intro hash hold hnew
      obtain ⟨row, hrow, rfl⟩ := List.mem_map.1 hold
      obtain ⟨row', hrow', heq⟩ := List.mem_map.1 hnew
      obtain ⟨e, he, hrowe⟩ := hs.origin row (List.mem_of_mem_filter hrow)
      obtain ⟨e', he', hrowe'⟩ := hof row' hrow'
      apply he.code_ne hs hcall he'
      exact code_eq_of_codeHash_eq (h := h) (by rw [← hrowe, ← hrowe', heq])
  · intro code hcode row hrow hverify
    rcases List.mem_append.1 hrow with hrow | hrow
    · exact hs'.spent code hcode row hrow hverify
    · -- an accepted code is committed already
      obtain ⟨e, he, rfl⟩ := hs.known code hcode
      obtain ⟨e', he', heq⟩ := hof row hrow
      rw [heq] at hverify
      exact absurd (verify_codeHash.1 hverify) (he.code_ne hs hcall he')

end

/-! ## Redeems -/

/-- The rows that a code opens are one. -/
theorem Inv.row_unique (hs : Inv h s) {row row' : Row} (hrow : row ∈ s.table)
    (hrow' : row' ∈ s.table) {code : String} (hverify : h.verifyPassword code row.codeHash = true)
    (hverify' : h.verifyPassword code row'.codeHash = true) : row = row' := by
  obtain ⟨e, ⟨b, hb, he⟩, heq⟩ := hs.origin row hrow
  obtain ⟨e', ⟨b', hb', he'⟩, heq'⟩ := hs.origin row' hrow'
  rw [heq, verify_codeHash] at hverify
  rw [heq', verify_codeHash] at hverify'
  have hsame : e = e' := (issued_inj hs.codes hb hb' he he' (hverify.symm.trans hverify')).2
  apply List.inj_on_of_nodup_map hs.hashes hrow hrow'
  rw [heq, heq', hsame]

/-- The key of a row is its own. -/
theorem Inv.hash_unique (hs : Inv h s) {id : Uuid} {hash hash' : String} (hh : (id, hash) ∈ s.drawn)
    (hh' : (id, hash') ∈ s.drawn) : hash = hash' :=
  congrArg Prod.snd (List.inj_on_of_nodup_map hs.drawn hh hh' rfl)

def mark (id : Uuid) (now : Timestamp) (row : Row) : Row :=
  if row.id = id ∧ row.usedAt = none then { row with usedAt := some now } else row

section
variable {id : Uuid} {now : Timestamp} {row : Row}

@[simp] theorem mark_id : (mark id now row).id = row.id := by
  unfold mark
  split <;> rfl

@[simp] theorem mark_codeHash : (mark id now row).codeHash = row.codeHash := by
  unfold mark
  split <;> rfl

theorem mark_used (hused : row.usedAt ≠ none ∨ row.id = id) : (mark id now row).usedAt ≠ none := by
  unfold mark
  split
  · simp
  · rename_i hn
    rcases hused with hused | hid
    · exact hused
    · intro hnone
      exact hn ⟨hid, hnone⟩

theorem inv_mark (hs : Inv h s) : Inv h { s with table := s.table.map (mark id now) } :=
  { hs with
    ids := by
      intro row hrow
      obtain ⟨row₀, hrow₀, rfl⟩ := List.mem_map.1 hrow
      simpa using hs.ids row₀ hrow₀
    origin := by
      intro row hrow
      obtain ⟨row₀, hrow₀, rfl⟩ := List.mem_map.1 hrow
      obtain ⟨e, he, heq⟩ := hs.origin row₀ hrow₀
      exact ⟨e, he, by rw [mark_codeHash, heq]⟩
    hashes := by
      have hmap : (s.table.map (mark id now)).map (·.codeHash) = s.table.map (·.codeHash) := by
        simp
      rw [hmap]
      exact hs.hashes
    spent := by
      intro code hcode row hrow hverify
      obtain ⟨row₀, hrow₀, rfl⟩ := List.mem_map.1 hrow
      rw [mark_codeHash] at hverify
      exact mark_used (.inl (hs.spent code hcode row₀ hrow₀ hverify)) }

/-- The row that a redeem marks was unused, so its code was not accepted before. -/
theorem inv_accept (hs : Inv h s) {candidate : String}
    (hok : CallOk h s.drawn (.redeem candidate (.matched id)))
    (hhit : s.table.any fun row => row.id = id && row.usedAt.isNone) :
    Inv h { s with
      table := s.table.map (mark id now)
      accepted := s.accepted ++ [h.normalise candidate] } := by
  obtain ⟨hash, hdrawn, hverify⟩ := hok
  obtain ⟨row, hrow, hhit⟩ := List.any_eq_true.1 hhit
  simp only [Bool.and_eq_true, decide_eq_true_eq, Option.isNone_iff_eq_none] at hhit
  obtain ⟨rfl, hunused⟩ := hhit
  obtain rfl := hs.hash_unique hdrawn (hs.ids row hrow)
  have hs' : Inv h { s with table := s.table.map (mark row.id now) } := inv_mark hs
  refine { hs' with known := ?_, spent := ?_, once := ?_ }
  · intro code hcode
    rcases List.mem_append.1 hcode with hcode | hcode
    · exact hs.known code hcode
    · rw [List.mem_singleton.1 hcode]
      obtain ⟨e, he, heq⟩ := hs.origin row hrow
      rw [heq, verify_codeHash] at hverify
      exact ⟨e, he, hverify.symm⟩
  · intro code hcode row' hrow' hverify'
    rcases List.mem_append.1 hcode with hcode | hcode
    · exact hs'.spent code hcode row' hrow' hverify'
    · rw [List.mem_singleton.1 hcode] at hverify'
      obtain ⟨row₀, hrow₀, rfl⟩ := List.mem_map.1 hrow'
      rw [mark_codeHash] at hverify'
      rw [hs.row_unique hrow₀ hrow hverify' hverify]
      exact mark_used (.inr rfl)
  · apply hs.once.append (List.nodup_singleton _)
    rw [List.disjoint_singleton]
    intro hmem
    exact hs.spent _ hmem row hrow hverify hunused

end

/-! ## Every step -/

theorem batch_fail (c : Call) : c.fail.batch = c.batch := by
  cases c <;> rfl

theorem callOk_fail {drawn : List (Uuid × String)} (c : Call) : CallOk h drawn c.fail := by
  cases c <;> trivial

theorem inv_step (hs : Inv h s) {a : Action} {s' : State} (ha : step h s a = some s') :
    Inv h s' := by
  cases a with
  | regenerate batch =>
    simp only [step] at ha
    split at ha
    · rename_i hnew
      cases ha
      exact inv_push hs hnew.2 trivial
    · cases ha
  | redeem candidate =>
    cases ha
    exact inv_push hs (by simpa [Call.codes, Call.batch] using hs.codes) trivial
  | clear =>
    cases ha
    exact inv_push hs (by simpa [Call.codes, Call.batch] using hs.codes) trivial
  | startDelete i =>
    simp only [step] at ha
    split at ha
    · rename_i batch hcall
      cases ha
      exact inv_setCall hs hcall (by simp) rfl trivial
    · cases ha
  | endDelete i =>
    simp only [step] at ha
    split at ha
    · rename_i batch snapshot hcall
      split at ha
      · cases ha
      · cases ha
        exact inv_setCall hs hcall (by simp) rfl ⟨by simp, by simp⟩
    · cases ha
  | insert i id =>
    simp only [step] at ha
    split at ha
    · rename_i batch deleted inserted e rest hcall
      split at ha
      · cases ha
      · rename_i hnew
        cases ha
        have hok := hs.calls _ (List.mem_of_getElem? hcall)
        refine inv_setCall (inv_draw hs hnew) hcall (by simp) rfl ⟨?_, ?_⟩
        · rw [← hok.1]
          simp
        · intro row hrow
          rcases List.mem_append.1 hrow with hrow | hrow
          · exact List.mem_append_left _ (hok.2 row hrow)
          · rw [List.mem_singleton.1 hrow]
            exact List.mem_append_right _ (List.mem_singleton.2 rfl)
    · cases ha
  | commit i =>
    simp only [step] at ha
    split at ha
    · rename_i batch deleted inserted hcall
      cases ha
      exact inv_commit hs hcall
    · cases ha
  | select i =>
    simp only [step] at ha
    split at ha
    · rename_i candidate hcall
      cases ha
      refine inv_setCall hs hcall (by simp) rfl ?_
      cases hfind : (s.table.filter (·.usedAt.isNone)).find?
          fun row => h.verifyPassword (h.normalise candidate) row.codeHash with
      | none => trivial
      | some row =>
        have hrow := List.mem_of_mem_filter (List.mem_of_find?_eq_some hfind)
        exact ⟨row.codeHash, hs.ids row hrow, by simpa using List.find?_some hfind⟩
    · cases ha
  | burn i now =>
    simp only [step] at ha
    split at ha
    · rename_i candidate id hcall
      split at ha
      · cases ha
      · cases ha
        have hok := hs.calls _ (List.mem_of_getElem? hcall)
        split
        · rename_i hhit
          exact inv_setCall (inv_accept hs hok hhit) hcall (by simp) rfl trivial
        · exact inv_setCall (inv_mark hs) hcall (by simp) rfl trivial
    · cases ha
  | startClear i =>
    simp only [step] at ha
    split at ha
    · rename_i hcall
      cases ha
      exact inv_setCall hs hcall (by simp) rfl trivial
    · cases ha
  | endClear i =>
    simp only [step] at ha
    split at ha
    · rename_i snapshot hcall
      split at ha
      · cases ha
      · cases ha
        exact inv_setCall (inv_filter hs _) hcall (by simp) rfl trivial
    · cases ha
  | fail i =>
    simp only [step] at ha
    split at ha
    · rename_i c hcall
      split at ha
      · cases ha
      · rename_i hret
        cases ha
        apply inv_setCall hs hcall _ (batch_fail c) (callOk_fail c)
        rintro b rfl
        simp [Call.returned, Call.inFlight] at hret
    · cases ha

/-! ## One regenerate at a time -/

/-- The rows that a regenerate's `DELETE` works on, or has deleted. -/
def Call.seen : Call → Option (List Uuid)
  | .regenerate _ (.deleting snapshot) => some snapshot
  | .regenerate _ (.writing deleted _ _) => some deleted
  | _ => none

theorem replacing_of_seen {c : Call} {ids : List Uuid} (hseen : c.seen = some ids) :
    c.replacing = true := by
  cases c with
  | regenerate batch phase =>
    cases phase with
    | deleting | writing => rfl
    | _ => cases hseen
  | _ => cases hseen

structure Replaced (h : Hashing) (s : State) : Prop where
  one : ∀ (i j : Nat) (c c' : Call), s.calls[i]? = some c → s.calls[j]? = some c' →
    c.seen.isSome → c'.seen.isSome → i = j
  covers : ∀ c ∈ s.calls, ∀ ids ∈ c.seen, ∀ row ∈ s.table, row.id ∈ ids
  single : ∃ i, ∀ row ∈ s.table, ∃ e : Issued, e.code ∈ s.batch i ∧ row.codeHash = e.codeHash h

/-- Only the rows and the calls matter. -/
theorem Replaced.congr {s' : State} (hr : Replaced h s) (htable : s'.table = s.table)
    (hcalls : s'.calls = s.calls) : Replaced h s' := by
  obtain ⟨table, calls, drawn, accepted⟩ := s
  obtain ⟨table', calls', drawn', accepted'⟩ := s'
  cases htable
  cases hcalls
  exact ⟨hr.one, hr.covers, hr.single⟩

theorem replaced_start : Replaced h .start := by
  constructor <;> simp [State.start]

theorem batch_push {c : Call} {j : Nat} {code : String} (hcode : code ∈ s.batch j) :
    code ∈ (s.push c).batch j := by
  unfold State.batch at hcode ⊢
  cases hj : s.calls[j]? with
  | none => simp [hj] at hcode
  | some c' =>
    rw [hj] at hcode
    show code ∈ ((s.calls ++ [c])[j]?).elim [] (·.codes)
    rw [Calls.get_push hj]
    exact hcode

theorem batch_eq (s : State) (j : Nat) : s.batch j = ((s.calls.map (·.codes))[j]?).getD [] := by
  rw [List.getElem?_map, State.batch]
  cases s.calls[j]? <;> rfl

theorem batch_setCall {c old : Call} (hold : s.calls[i]? = some old) (hbatch : c.batch = old.batch)
    (j : Nat) : (s.setCall i c).batch j = s.batch j := by
  have hcodes : c.codes = old.codes := by simp [Call.codes, hbatch]
  rw [batch_eq, batch_eq, State.setCall, Calls.map_set hold hcodes]

theorem replaced_push (hr : Replaced h s) {c : Call} (hseen : c.seen = none) :
    Replaced h (s.push c) where
  one := by
    intro i j c₁ c₂ h₁ h₂ hs₁ hs₂
    rcases Calls.of_push h₁ with ⟨-, rfl⟩ | h₁
    · simp [hseen] at hs₁
    · rcases Calls.of_push h₂ with ⟨-, rfl⟩ | h₂
      · simp [hseen] at hs₂
      · exact hr.one i j c₁ c₂ h₁ h₂ hs₁ hs₂
  covers := by
    intro c' hc' ids hids
    rcases List.mem_append.1 hc' with hc' | hc'
    · exact hr.covers c' hc' ids hids
    · rw [List.mem_singleton.1 hc', hseen] at hids
      cases hids
  single := by
    obtain ⟨i, hi⟩ := hr.single
    refine ⟨i, fun row hrow => ?_⟩
    obtain ⟨e, he, heq⟩ := hi row hrow
    exact ⟨e, batch_push he, heq⟩

/-- A statement that moves its call on. One that starts a `DELETE` finds no other. -/
theorem replaced_setCall (hr : Replaced h s) {c old : Call} (hold : s.calls[i]? = some old)
    (hbatch : c.batch = old.batch)
    (hone : c.seen.isSome → old.seen.isSome ∨ ∀ c' ∈ s.calls, c'.replacing = false)
    (hcovers : ∀ ids ∈ c.seen, ∀ row ∈ s.table, row.id ∈ ids) : Replaced h (s.setCall i c) where
  one := by
    have hother : c.seen.isSome → ∀ (j : Nat) (c' : Call), s.calls[j]? = some c' →
        c'.seen.isSome → j = i := by
      intro hc j c' hj hc'
      rcases hone hc with hold' | hnone
      · exact hr.one j i c' old hj hold hc' hold'
      · obtain ⟨ids, hids⟩ := Option.isSome_iff_exists.1 hc'
        have hfalse := hnone c' (List.mem_of_getElem? hj)
        rw [replacing_of_seen hids] at hfalse
        cases hfalse
    intro j k c₁ c₂ h₁ h₂ hs₁ hs₂
    rcases Calls.of_set h₁ with ⟨rfl, rfl⟩ | ⟨-, hj⟩
    · rcases Calls.of_set h₂ with ⟨rfl, rfl⟩ | ⟨-, hk⟩
      · rfl
      · exact (hother hs₁ k c₂ hk hs₂).symm
    · rcases Calls.of_set h₂ with ⟨rfl, rfl⟩ | ⟨-, hk⟩
      · exact hother hs₂ j c₁ hj hs₁
      · exact hr.one j k c₁ c₂ hj hk hs₁ hs₂
  covers := by
    intro c' hc'
    rcases List.mem_or_eq_of_mem_set hc' with hc' | rfl
    · exact hr.covers c' hc'
    · exact hcovers
  single := by
    obtain ⟨j, hj⟩ := hr.single
    refine ⟨j, fun row hrow => ?_⟩
    rw [batch_setCall hold hbatch]
    exact hj row hrow

/-- A call without a `DELETE` under way moves on. -/
theorem replaced_setCall_none (hr : Replaced h s) {c old : Call} (hold : s.calls[i]? = some old)
    (hbatch : c.batch = old.batch) (hseen : c.seen = none) : Replaced h (s.setCall i c) := by
  apply replaced_setCall hr hold hbatch
  · simp [hseen]
  · simp [hseen]

theorem replaced_filter (hr : Replaced h s) (p : Row → Bool) :
    Replaced h { s with table := s.table.filter p } :=
  { hr with
    covers := fun c hc ids hids row hrow =>
      hr.covers c hc ids hids row (List.mem_of_mem_filter hrow)
    single := by
      obtain ⟨i, hi⟩ := hr.single
      exact ⟨i, fun row hrow => hi row (List.mem_of_mem_filter hrow)⟩ }

theorem replaced_mark (hr : Replaced h s) {id : Uuid} {now : Timestamp} :
    Replaced h { s with table := s.table.map (mark id now) } :=
  { hr with
    covers := by
      intro c hc ids hids row hrow
      obtain ⟨row₀, hrow₀, rfl⟩ := List.mem_map.1 hrow
      rw [mark_id]
      exact hr.covers c hc ids hids row₀ hrow₀
    single := by
      obtain ⟨i, hi⟩ := hr.single
      refine ⟨i, fun row hrow => ?_⟩
      obtain ⟨row₀, hrow₀, rfl⟩ := List.mem_map.1 hrow
      rw [mark_codeHash]
      exact hi row₀ hrow₀ }

/-- The commit finds nothing in the table that it does not replace. -/
theorem replaced_commit (hs : Inv h s) (hr : Replaced h s) {batch : List Issued}
    {deleted : List Uuid} {inserted : List Row}
    (hcall : s.calls[i]? = some (.regenerate batch (.writing deleted inserted []))) :
    Replaced h { s.setCall i (.regenerate batch .committed) with
      table := s.table.filter (·.id ∉ deleted) ++ inserted } := by
  have hempty : s.table.filter (·.id ∉ deleted) = [] := by
    rw [List.filter_eq_nil_iff]
    intro row hrow
    have hcovers := hr.covers _ (List.mem_of_getElem? hcall) deleted rfl row hrow
    simpa using hcovers
  rw [hempty, List.nil_append]
  have hr' := replaced_setCall_none (c := .regenerate batch .committed) hr hcall rfl rfl
  refine { hr' with covers := ?_, single := ?_ }
  · intro c hc ids hids
    obtain ⟨j, hj⟩ := List.mem_iff_getElem?.1 hc
    rcases Calls.of_set hj with ⟨-, rfl⟩ | ⟨hne, hj⟩
    · cases hids
    · -- no other regenerate has started its delete
      exact absurd (hr.one j i c _ hj hcall (Option.isSome_of_mem hids) rfl) hne
  · refine ⟨i, fun row hrow => ?_⟩
    have hmem : row.codeHash ∈ inserted.map (·.codeHash) := List.mem_map.2 ⟨row, hrow, rfl⟩
    rw [inserted_of_writing hs hcall] at hmem
    obtain ⟨e, he, heq⟩ := List.mem_map.1 hmem
    refine ⟨e, ?_, heq.symm⟩
    show e.code ∈ ((s.calls.set i _)[i]?).elim [] (·.codes)
    rw [Calls.get_set_self hcall]
    exact List.mem_map.2 ⟨e, he, rfl⟩

theorem replaced_step (hs : Inv h s) (hr : Replaced h s) {a : Action} {s' : State}
    (hok : OneAtATime s a) (ha : step h s a = some s') : Replaced h s' := by
  cases a with
  | regenerate batch =>
    simp only [step] at ha
    split at ha
    · cases ha
      exact replaced_push hr rfl
    · cases ha
  | redeem candidate =>
    cases ha
    exact replaced_push hr rfl
  | clear =>
    cases ha
    exact replaced_push hr rfl
  | startDelete i =>
    simp only [step] at ha
    split at ha
    · rename_i batch hcall
      cases ha
      refine replaced_setCall hr hcall rfl (fun _ => .inr hok) ?_
      intro ids hids row hrow
      obtain rfl := Option.some.inj hids
      exact List.mem_map.2 ⟨row, hrow, rfl⟩
    · cases ha
  | endDelete i =>
    simp only [step] at ha
    split at ha
    · rename_i batch snapshot hcall
      split at ha
      · cases ha
      · cases ha
        refine replaced_setCall hr hcall rfl (fun _ => .inl rfl) ?_
        intro ids hids row hrow
        obtain rfl := Option.some.inj hids
        have hsnap := hr.covers _ (List.mem_of_getElem? hcall) snapshot rfl row hrow
        exact List.mem_filter.2 ⟨List.mem_map.2 ⟨row, hrow, rfl⟩, by simpa using hsnap⟩
    · cases ha
  | insert i id =>
    simp only [step] at ha
    split at ha
    · rename_i batch deleted inserted e rest hcall
      split at ha
      · cases ha
      · cases ha
        have hcovers := hr.covers _ (List.mem_of_getElem? hcall)
        have hr' := replaced_setCall (c := .regenerate batch
          (.writing deleted (inserted ++ [⟨id, e.codeHash h, none⟩]) rest)) hr hcall rfl
          (fun _ => .inl rfl) hcovers
        exact hr'.congr rfl rfl
    · cases ha
  | commit i =>
    simp only [step] at ha
    split at ha
    · rename_i batch deleted inserted hcall
      cases ha
      exact replaced_commit hs hr hcall
    · cases ha
  | select i =>
    simp only [step] at ha
    split at ha
    · rename_i candidate hcall
      cases ha
      exact replaced_setCall_none hr hcall rfl rfl
    · cases ha
  | burn i now =>
    simp only [step] at ha
    split at ha
    · rename_i candidate id hcall
      split at ha
      · cases ha
      · cases ha
        have hr' : Replaced h { s with table := s.table.map (mark id now) } := replaced_mark hr
        exact (replaced_setCall_none (c := .redeem candidate (.answered _)) hr' hcall rfl rfl).congr
          rfl rfl
    · cases ha
  | startClear i =>
    simp only [step] at ha
    split at ha
    · rename_i hcall
      cases ha
      exact replaced_setCall_none hr hcall rfl rfl
    · cases ha
  | endClear i =>
    simp only [step] at ha
    split at ha
    · rename_i snapshot hcall
      split at ha
      · cases ha
      · cases ha
        exact replaced_setCall_none (replaced_filter hr _) hcall rfl rfl
    · cases ha
  | fail i =>
    simp only [step] at ha
    split at ha
    · rename_i c hcall
      split at ha
      · cases ha
      · cases ha
        apply replaced_setCall_none hr hcall (batch_fail c)
        cases c <;> rfl
    · cases ha

theorem Replaced.singleBatch (hr : Replaced h s) : SingleBatch h s := by
  obtain ⟨i, hi⟩ := hr.single
  refine ⟨i, ?_⟩
  rintro code ⟨row, hrow, -, hverify⟩
  obtain ⟨e, he, heq⟩ := hi row hrow
  rw [heq, verify_codeHash] at hverify
  rw [hverify]
  exact he

/-! ## The codes of a user -/

theorem inv_of_reach {ok : State → Action → Prop} (hreach : Trans.Reach (step h) ok .start s) :
    Inv h s :=
  hreach.inv inv_start fun _ _ _ hs _ ha => inv_step hs ha

theorem replaced_of_reach (hreach : Trans.Reach (step h) OneAtATime .start s) :
    Inv h s ∧ Replaced h s :=
  hreach.inv (I := fun s => Inv h s ∧ Replaced h s) ⟨inv_start, replaced_start⟩
    fun _ _ _ hs hok ha => ⟨inv_step hs.1 ha, replaced_step hs.1 hs.2 hok ha⟩

/-- Each code is accepted once at most. When no two regenerates overlap, the redeemable codes are
those of one of them, in flight or not. -/
theorem recovery_codes_of_one_batch (h : Hashing) :
    (∀ s, Trans.Reach (step h) Trans.always .start s → s.accepted.Nodup) ∧
      ∀ s, Trans.Reach (step h) OneAtATime .start s → SingleBatch h s :=
  ⟨fun _ hreach => (inv_of_reach hreach).once,
    fun _ hreach => (replaced_of_reach hreach).2.singleBatch⟩

/-! ## Runs -/

/-- A hash that hides nothing. -/
def plain : Hashing where
  hashPassword := fun _ code => code
  verifyPassword := fun candidate hash => candidate == hash
  exact := by simp
  toUppercase := fun s => String.ofList (s.toList.map Char.toUpper)

def sampleBatch (n : Nat) : List Issued :=
  (List.range numCodes).map fun k => ⟨#v[0, 0, 0, 0, 0, 0, n.toUInt8, k.toUInt8], "salt"⟩

def inserts (call : Nat) : List Action :=
  (List.range numCodes).map fun k =>
    .insert call (String.ofList [upperHexDigit call, upperHexDigit k])

/-- Two regenerates start their `DELETE`s before either commits. -/
def overlappingRegenerates : List Action :=
  [Action.regenerate (sampleBatch 1), .regenerate (sampleBatch 2), .startDelete 0, .startDelete 1,
    .endDelete 0] ++ inserts 0 ++ [Action.commit 0, .endDelete 1] ++ inserts 1 ++ [Action.commit 1]

theorem overlapping_regenerates_leave_both_batches :
    ¬ ∀ (h : Hashing) (s : State), Trans.Reach (step h) Trans.always .start s →
      s.accepted.Nodup ∧ (s.Idle → SingleBatch h s) := by
  intro hall
  have hrun : (Trans.exec (step plain) Trans.always .start overlappingRegenerates).map
      (fun s => (decide s.Idle, s.table[0]?, s.table[10]?, s.calls.map (·.codes))) =
      some (true, some ⟨"00", "0000-0000-0000-0100", none⟩,
        some ⟨"10", "0000-0000-0000-0200", none⟩,
        [(sampleBatch 1).map (·.code), (sampleBatch 2).map (·.code)]) := by
    decide +kernel
  obtain ⟨s, hreach, hs⟩ := Trans.reach_of_map_exec _ hrun
  simp only [Prod.mk.injEq, decide_eq_true_eq] at hs
  obtain ⟨hidle, hfirst, hsecond, hcodes⟩ := hs
  obtain ⟨call, hcall⟩ := (hall plain s hreach).2 hidle
  have h₁ := hcall _ ⟨_, List.mem_of_getElem? hfirst, rfl, beq_self_eq_true _⟩
  have h₂ := hcall _ ⟨_, List.mem_of_getElem? hsecond, rfl, beq_self_eq_true _⟩
  rw [batch_eq, hcodes] at h₁ h₂
  rcases call with _ | _ | n
  · exact absurd h₂ (by decide +kernel)
  · exact absurd h₁ (by decide +kernel)
  · simp at h₁

/-- The same two, one after the other, and a code of the second redeemed. -/
def regeneratesInTurn : List Action :=
  [Action.regenerate (sampleBatch 1), .startDelete 0, .endDelete 0] ++ inserts 0 ++
    [Action.commit 0, .regenerate (sampleBatch 2), .startDelete 1, .endDelete 1] ++ inserts 1 ++
    [Action.commit 1, .redeem " 0000-0000-0000-0200", .select 2, .burn 2 0]

theorem recovery_codes_in_turn :
    ∃ s, Trans.Reach (step plain) OneAtATime .start s ∧
      s.accepted = ["0000-0000-0000-0200"] ∧ s.table.length = 10 ∧ SingleBatch plain s := by
  have hrun : (Trans.exec (step plain) OneAtATime .start regeneratesInTurn).map
      (fun s => (s.accepted, s.table.length)) = some (["0000-0000-0000-0200"], 10) := by
    decide +kernel
  obtain ⟨s, hreach, hs⟩ := Trans.reach_of_map_exec _ hrun
  simp only [Prod.mk.injEq] at hs
  exact ⟨s, hreach, hs.1, hs.2, (recovery_codes_of_one_batch plain).2 s hreach⟩

end StarStats.RecoveryCodes
