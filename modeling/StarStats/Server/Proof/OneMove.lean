import StarStats.Server.Proof.MoveWrites

/-!
# One move and its rerun

Of relationships that are `Plain` a move reads each with its one new name (`handleMoves_eq`), so
that its writes are cut from pairs of a DELETE and a TOUCH, of which only the TOUCHes may be dropped
as repeated. A write that is full between the two ends the pairing (`aligned_iff`). What a failed
move leaves is plain again, with the rest still to read (`moves_again_iff`). Of other relationships
the move is refused, or leaves one under no name it should have: `losesNothing_iff` says exactly
when nothing is lost.
-/

namespace StarStats.HandleMoves

open Text (lower)

/-! ## What is read -/

theorem respell_respell (new id : String) : respell new (respell new id) = respell new id := by
  by_cases hid : id = lower id
  · simp [respell, ← hid]
  · by_cases hnew : new = lower new
    · simp [respell, hid, ← hnew]
    · simp [respell, hid, hnew]

section
variable {old new id : String} {ref : ObjectRef} {rel : Relationship}

theorem namesRef_subject (h : Admitted rel) :
    NamesRef id rel.subject ↔ rel.subject = userRef id := by
  obtain ⟨resource, relation, t, i⟩ := rel
  have ht : t = relation.subjectType := h
  subst ht
  cases relation <;> simp [NamesRef, userRef, Relation.subjectType, ObjectType.isHandle]

theorem names_iff (h : Admitted rel) :
    Names id rel ↔ (rel.resource.objectType.isHandle = true ∧ rel.resource.objectId = id) ∨
      rel.subject = userRef id := or_congr_right (namesRef_subject h)

theorem exists_filter_iff (h : Admitted rel) :
    (∃ f ∈ handleFilters id, f.accepts rel = true) ↔ Names id rel := by
  rw [names_iff h]
  constructor
  · rintro ⟨f, hf, hacc⟩
    exact names_of_accepts hf hacc
  · rintro (⟨ht, rfl⟩ | hsub)
    · refine ⟨⟨rel.resource.objectType, some rel.resource.objectId, none⟩, ?_, ?_⟩
      · generalize rel.resource.objectType = t at ht
        cases t <;> simp [handleFilters, ObjectType.isHandle] at ht ⊢
      · simp [RelationshipFilter.accepts]
    · refine ⟨⟨rel.resource.objectType, none, some id⟩, ?_, ?_⟩
      · generalize rel.resource.objectType = t
        cases t <;> simp [handleFilters]
      · simp [RelationshipFilter.accepts, hsub]

theorem mem_readList {rels : List Relationship} (h : ∀ rel ∈ rels, Admitted rel) :
    rel ∈ readList old rels ↔ rel ∈ rels ∧ ∃ id ∈ moveIds old, Names id rel := by
  simp only [readList, List.mem_flatMap, List.mem_filter]
  constructor
  · rintro ⟨id, hid, f, hf, hmem, hacc⟩
    exact ⟨hmem, id, hid, (exists_filter_iff (h rel hmem)).1 ⟨f, hf, hacc⟩⟩
  · rintro ⟨hmem, id, hid, hnames⟩
    obtain ⟨f, hf, hacc⟩ := (exists_filter_iff (h rel hmem)).2 hnames
    exact ⟨id, hid, f, hf, hmem, hacc⟩

theorem renamedRef_of_names (hid : id ∈ moveIds old) (h : NamesRef id ref) :
    renamedRef old new ref = ⟨ref.objectType, respell new id⟩ := by
  obtain ⟨ht, rfl⟩ := h
  rw [renamedRef, if_pos ⟨ht, hid⟩]

theorem renamedRef_eq_self (h : ∀ id ∈ moveIds old, NamesRef id ref → respell new id = id) :
    renamedRef old new ref = ref := by
  unfold renamedRef
  split
  · rename_i hmem
    rw [h _ hmem.2 ⟨hmem.1, rfl⟩]
  · rfl

/-- Nothing changes but the names that do. -/
theorem renamedThroughout_eq_self (h : ∀ id ∈ moveIds old, Names id rel → respell new id = id) :
    renamedThroughout old new rel = rel := by
  rw [renamedThroughout, renamedRef_eq_self fun id hid hres => h id hid (.inl hres),
    renamedRef_eq_self fun id hid hsub => h id hid (.inr hsub)]

theorem renamedThroughout_of_not_names (h : ∀ id ∈ moveIds old, ¬ Names id rel) :
    renamedThroughout old new rel = rel :=
  renamedThroughout_eq_self fun id hid hnames => absurd hnames (h id hid)

theorem objectType_renamedRef : (renamedRef old new ref).objectType = ref.objectType := by
  unfold renamedRef
  split <;> rfl

theorem admitted_renamedThroughout :
    Admitted (renamedThroughout old new rel) ↔ Admitted rel := by
  unfold Admitted renamedThroughout
  rw [objectType_renamedRef]

/-- What is named after a rename was named before it, under the id that the new one is for. -/
theorem namesRef_renamedRef (hid : id ∈ moveIds old) (h : NamesRef id (renamedRef old new ref)) :
    ∃ id' ∈ moveIds old, NamesRef id' ref ∧ id = respell new id' := by
  obtain ⟨ht, hid'⟩ := h
  rw [objectType_renamedRef] at ht
  by_cases hmem : ref.objectId ∈ moveIds old
  · rw [renamedRef_of_names hmem ⟨ht, rfl⟩] at hid'
    exact ⟨_, hmem, ⟨ht, rfl⟩, hid'.symm⟩
  · rw [renamedRef, if_neg fun h => hmem h.2] at hid'
    exact absurd (hid' ▸ hid) hmem

theorem names_renamedThroughout (hid : id ∈ moveIds old)
    (h : Names id (renamedThroughout old new rel)) :
    ∃ id' ∈ moveIds old, Names id' rel ∧ id = respell new id' := by
  rcases h with h | h
  · obtain ⟨id', hid', hnames, heq⟩ := namesRef_renamedRef hid h
    exact ⟨id', hid', .inl hnames, heq⟩
  · obtain ⟨id', hid', hnames, heq⟩ := namesRef_renamedRef hid h
    exact ⟨id', hid', .inr hnames, heq⟩

theorem namesRef_respell (hid : id ∈ moveIds old) (h : NamesRef id ref) :
    NamesRef (respell new id) (renamedRef old new ref) := by
  rw [renamedRef_of_names hid h]
  exact ⟨h.1, rfl⟩

theorem names_respell (hid : id ∈ moveIds old) (h : Names id rel) :
    Names (respell new id) (renamedThroughout old new rel) :=
  h.imp (namesRef_respell hid) (namesRef_respell hid)

/-- Nothing that changes is what something becomes. -/
theorem Plain.ne_renamedThroughout {rel' : Relationship} (h : Plain old new rel)
    (hid : id ∈ moveIds old) (hnames : Names id rel) : rel ≠ renamedThroughout old new rel' := by
  rintro rfl
  obtain ⟨id', -, -, rfl⟩ := names_renamedThroughout hid hnames
  exact h.changes _ hid hnames (respell_respell new id')

/-- What a relationship becomes is not read again, unless the handle is only lower-cased. -/
theorem Plain.not_names_renamedThroughout (h : Plain old new rel)
    (hlower : new ≠ lower old) (hid : id ∈ moveIds old) :
    ¬ Names id (renamedThroughout old new rel) := by
  intro hrenamed
  obtain ⟨id', hid', hnames, rfl⟩ := names_renamedThroughout hid hrenamed
  have hne : respell new id' ≠ id' := h.changes id' hid' hnames
  rcases mem_moveIds.1 hid' with rfl | rfl
  · rcases mem_moveIds.1 hid with heq | heq
    · exact hne heq
    · have hcap : id' ≠ lower id' := fun he => hne (heq.trans he.symm)
      rw [respell, if_neg hcap] at heq
      exact hlower heq
  · have hnew : respell new (lower old) = lower new := by simp [respell]
    rcases mem_moveIds.1 hid with heq | heq
    · apply hne
      rw [heq, ← heq, hnew, Text.lower_lower]
    · exact hne heq

/-- A relationship with one spelling is renamed throughout by the round for that. -/
theorem renamedRelationship_eq_renamedThroughout (hadm : Admitted rel)
    (hone : ∀ id' ∈ moveIds old, Names id' rel → id' = id) (hid : id ∈ moveIds old)
    (hnames : Names id rel) :
    renamedRelationship rel id (respell new id) = some (renamedThroughout old new rel) := by
  refine renamedRelationship_eq_some.2 ⟨(names_iff hadm).1 hnames, ?_⟩
  have hres : renamedRef old new rel.resource =
      if rel.resource.objectType.isHandle = true ∧ rel.resource.objectId = id
      then ⟨rel.resource.objectType, respell new id⟩ else rel.resource := by
    split
    · rename_i h
      exact renamedRef_of_names hid h
    · rename_i h
      exact renamedRef_eq_self fun id' hid' h' => absurd (hone id' hid' (.inl h') ▸ h') h
  have hsub : renamedRef old new rel.subject =
      if rel.subject = userRef id then userRef (respell new id) else rel.subject := by
    split
    · rename_i h
      rw [renamedRef_of_names hid ((namesRef_subject hadm).2 h), h]
      rfl
    · rename_i h
      exact renamedRef_eq_self fun id' hid' h' =>
        absurd ((namesRef_subject hadm).1 (hone id' hid' (.inr h') ▸ h')) h
  rw [renamedThroughout, hres, hsub]

end

/-! ## What is written -/

/-- The updates for a relationship read. -/
def updatePair (old new : String) (rel : Relationship) : RelationshipUpdate × RelationshipUpdate :=
  moveUpdate (rel, renamedThroughout old new rel)

/-- The updates for what was read, each once. -/
def updatesFor (old new : String) (read : List Relationship) : List RelationshipUpdate :=
  (Pairs.layout (read.map (updatePair old new))).eraseDups

section
variable {old new : String} {read : List Relationship}

theorem directed_updatePair : Pairs.Directed (read.map (updatePair old new)) := by
  constructor
  · intro _ hp _ hq heq
    obtain ⟨r, -, rfl⟩ := List.mem_map.1 hp
    obtain ⟨r', -, rfl⟩ := List.mem_map.1 hq
    rw [show r = r' from Tuples.Update.delete.inj heq]
  · intro _ hp _ hq heq
    obtain ⟨r, -, rfl⟩ := List.mem_map.1 hp
    obtain ⟨r', -, rfl⟩ := List.mem_map.1 hq
    cases heq

theorem delete_mem_read {rel : Relationship} :
    .delete rel ∈ Pairs.layout (read.map (updatePair old new)) ↔ rel ∈ read := by
  simp [Pairs.mem_layout, updatePair, moveUpdate]

theorem touch_mem_read {rel : Relationship} :
    .touch rel ∈ Pairs.layout (read.map (updatePair old new)) ↔
      rel ∈ read.map (renamedThroughout old new) := by
  simp [Pairs.mem_layout, updatePair, moveUpdate, eq_comm]

theorem delete_mem_updatesFor {rel : Relationship} :
    .delete rel ∈ updatesFor old new read ↔ rel ∈ read := by
  rw [updatesFor, List.mem_eraseDups, delete_mem_read]

theorem touch_mem_updatesFor {rel : Relationship} :
    .touch rel ∈ updatesFor old new read ↔ rel ∈ read.map (renamedThroughout old new) := by
  rw [updatesFor, List.mem_eraseDups, touch_mem_read]

theorem nodup_updatesFor : (updatesFor old new read).Nodup := Pairs.nodup_eraseDups _

theorem initial_updatesFor (before after : List Relationship) :
    updatesFor old new before <+: updatesFor old new (before ++ after) := by
  unfold updatesFor
  rw [List.map_append]
  exact Pairs.initial_eraseDups_layout _ _

theorem length_updatesFor : (updatesFor old new read).length = updatesOf old new read := by
  have hfst : (read.map (updatePair old new)).map (·.1) = read.map Tuples.Update.delete := by
    rw [List.map_map]
    rfl
  have hsnd : (read.map (updatePair old new)).map (·.2) =
      (read.map (renamedThroughout old new)).map Tuples.Update.touch := by
    rw [List.map_map, List.map_map]
    rfl
  rw [updatesFor, Pairs.length_eraseDups_layout directed_updatePair.cross, hfst, hsnd,
    Pairs.length_eraseDups_map fun _ _ => Tuples.Update.delete.inj,
    Pairs.length_eraseDups_map fun _ _ => Tuples.Update.touch.inj]
  rfl

theorem aligned_nil : Aligned old new [] := by
  intro before rel after h
  simp at h

theorem updatesOf_eq_zero (h : updatesOf old new read = 0) : read = [] := by
  have hzero : read.eraseDups.length = 0 := by
    unfold updatesOf at h
    omega
  refine List.eq_nil_iff_forall_not_mem.2 fun rel hrel => ?_
  rw [← List.mem_eraseDups, List.length_eq_zero_iff.1 hzero] at hrel
  cases hrel

/-- Where there are no further updates nothing further was read. -/
theorem filter_eq_nil_of_updatesOf {more : List Relationship}
    (h : updatesOf old new (read ++ more) ≤ updatesOf old new read) :
    more.filter (· ∉ read) = [] := by
  rw [← length_updatesFor, ← length_updatesFor] at h
  have hsame := (initial_updatesFor read more).eq_of_length_le h
  refine List.filter_eq_nil_iff.2 fun rel hrel => ?_
  have hin : rel ∈ read := by
    rw [← @delete_mem_updatesFor old new, hsame, delete_mem_updatesFor]
    exact List.mem_append_right _ hrel
  simpa using hin

theorem aligned_iff : Aligned old new read ↔
    ¬ Pairs.Torn moveUpdatesPerWrite (read.map (updatePair old new)) := by
  constructor
  · rintro h ⟨before, p, after, heq, h1, h2, hdvd⟩
    obtain ⟨before, rest, rfl, rfl, hrest⟩ := List.map_eq_append_iff.1 heq
    obtain ⟨rel, after, rfl, rfl, rfl⟩ := List.map_eq_cons_iff.1 hrest
    rw [← updatesFor, length_updatesFor] at hdvd
    exact h before rel after rfl (mt delete_mem_read.2 h1) (mt touch_mem_read.2 h2) hdvd
  · rintro h before rel after rfl h1 h2 hdvd
    refine h ⟨before.map (updatePair old new), updatePair old new rel,
      after.map (updatePair old new), by simp, mt delete_mem_read.1 h1,
      mt touch_mem_read.1 h2, ?_⟩
    rwa [← updatesFor, length_updatesFor]

theorem updatesOf_mono {more : List Relationship} (h : ∀ rel ∈ read, rel ∈ more) :
    updatesOf old new read ≤ updatesOf old new more := by
  rw [← length_updatesFor, ← length_updatesFor]
  refine (List.subperm_of_subset nodup_updatesFor fun u hu => ?_).length_le
  cases u with
  | delete rel => exact delete_mem_updatesFor.2 (h rel (delete_mem_updatesFor.1 hu))
  | touch rel =>
    obtain ⟨r, hr, rfl⟩ := List.mem_map.1 (touch_mem_updatesFor.1 hu)
    exact touch_mem_updatesFor.2 (List.mem_map_of_mem (h r hr))

theorem aligned_of_le (h : updatesOf old new read ≤ moveUpdatesPerWrite) :
    Aligned old new read := by
  rintro before rel after rfl hrel hrenamed hdvd
  have hlt : updatesOf old new before + 2 ≤ updatesOf old new (before ++ rel :: after) := by
    have hmono : updatesOf old new (before ++ [rel]) ≤
        updatesOf old new (before ++ rel :: after) := updatesOf_mono fun r hr => by
      rw [List.append_cons]
      exact List.mem_append_left _ hr
    refine Nat.le_trans ?_ hmono
    have hdelete : (updatePair old new rel).1 ∉ Pairs.layout (before.map (updatePair old new)) :=
      mt delete_mem_read.1 hrel
    have htouch : (updatePair old new rel).2 ∉
        Pairs.layout (before.map (updatePair old new)) ++ [(updatePair old new rel).1] := by
      rw [List.mem_append, List.mem_singleton]
      rintro (hin | heq)
      · exact hrenamed (touch_mem_read.1 hin)
      · cases heq
    rw [← length_updatesFor, ← length_updatesFor, updatesFor, updatesFor, List.map_append,
      List.map_singleton, Pairs.eraseDups_layout_concat, if_neg hdelete, if_neg htouch]
    simp
  have hle := Nat.le_of_dvd (Nat.succ_pos _) hdvd
  omega

/-- Full writes are the updates for the first relationships. -/
theorem Aligned.exists_written {k : Nat} (h : Aligned old new read)
    (hk : moveUpdatesPerWrite * k ≤ updatesOf old new read) :
    ∃ before after, read = before ++ after ∧
      updatesOf old new before = moveUpdatesPerWrite * k := by
  rw [← length_updatesFor] at hk
  obtain ⟨_, _, heq, hlen, -⟩ := Pairs.exists_take (aligned_iff.1 h) hk
  obtain ⟨before, after, rfl, rfl, rfl⟩ := List.map_eq_append_iff.1 heq
  rw [← updatesFor, length_updatesFor] at hlen
  exact ⟨before, after, rfl, hlen⟩

end

/-! ## Plain relationships -/

section
variable {old new : String} {rels : List Relationship} {failing : Option Nat}

theorem moveHandle_fst : (moveHandle failing old new rels).1 =
    (Tuples.writeAll failing (moveWrites old new rels) rels).1 := by
  simp only [moveHandle]

theorem moveHandle_snd : (moveHandle failing old new rels).2 =
    if (Tuples.writeAll failing (moveWrites old new rels) rels).2
    then some ((moveUpdates old new rels).length / 2) else none := by
  simp only [moveHandle]

/-- Plain relationships are separate when one write moves them. -/
theorem separate_of_one_write (hplain : ∀ rel ∈ rels, Plain old new rel)
    (hone : updatesOf old new (readList old rels) ≤ moveUpdatesPerWrite) :
    Separate old new rels := by
  refine ⟨hplain, fun done rest hread _ => aligned_of_le (Nat.le_trans ?_ hone), fun _ => hone⟩
  refine updatesOf_mono fun rel hrel => hread ▸ List.mem_append_right _ ?_
  exact List.mem_of_mem_filter hrel

variable (hadm : ∀ rel ∈ rels, Admitted rel)
include hadm

theorem mem_map_renamedThroughout {rel : Relationship} :
    rel ∈ rels.map (renamedThroughout old new) ↔
      rel ∈ (readList old rels).map (renamedThroughout old new) ∨
        rel ∈ rels ∧ rel ∉ readList old rels := by
  have hsame : ∀ r ∈ rels, r ∉ readList old rels → renamedThroughout old new r = r := by
    intro r hr hno
    exact renamedThroughout_of_not_names fun id hid hnames =>
      hno ((mem_readList hadm).2 ⟨hr, id, hid, hnames⟩)
  constructor
  · intro h
    obtain ⟨r, hr, rfl⟩ := List.mem_map.1 h
    by_cases hread : r ∈ readList old rels
    · exact .inl (List.mem_map_of_mem hread)
    · rw [hsame r hr hread]
      exact .inr ⟨hr, hread⟩
  · rintro (h | ⟨hmem, hno⟩)
    · obtain ⟨r, hr, rfl⟩ := List.mem_map.1 h
      exact List.mem_map_of_mem ((mem_readList hadm).1 hr).1
    · exact List.mem_map.2 ⟨rel, hmem, hsame rel hmem hno⟩

variable (hplain : ∀ rel ∈ rels, Plain old new rel)
include hplain

/-- What is read is renamed throughout. -/
theorem handleMoves_eq :
    handleMoves old new rels =
      (readList old rels).map fun rel => (rel, renamedThroughout old new rel) := by
  unfold handleMoves readList
  rw [List.map_flatMap]
  refine List.flatMap_congr fun id hid => ?_
  rw [List.map_flatMap]
  refine List.flatMap_congr fun f hf => ?_
  rw [← List.filterMap_eq_map]
  refine List.filterMap_congr fun rel hrel => ?_
  obtain ⟨hmem, hacc⟩ := List.mem_filter.1 hrel
  have hnames : Names id rel := (exists_filter_iff (hadm rel hmem)).1 ⟨f, hf, hacc⟩
  rw [renamedRelationship_eq_renamedThroughout (hadm rel hmem)
    (fun id' hid' h' => (hplain rel hmem).oneSpelling id' hid' id hid h' hnames) hid hnames]
  rfl

theorem moveUpdates_eq : moveUpdates old new rels =
    (updatesFor old new (readList old rels)) := by
  unfold moveUpdates
  rw [handleMoves_eq hadm hplain, List.map_map]
  rfl

theorem length_moveUpdates :
    (moveUpdates old new rels).length = updatesOf old new (readList old rels) := by
  rw [moveUpdates_eq hadm hplain, length_updatesFor]

/-- The DELETEs and the TOUCHes are of different relationships. -/
theorem nodup_moveUpdates : ((moveUpdates old new rels).map Tuples.Update.tuple).Nodup := by
  have hne : ∀ {x y}, .delete x ∈ moveUpdates old new rels → .touch y ∈ moveUpdates old new rels →
      x ≠ y := by
    intro x y hx hy
    rw [moveUpdates_eq hadm hplain] at hx hy
    obtain ⟨hmem, id, hid, hnames⟩ := (mem_readList hadm).1 (delete_mem_updatesFor.1 hx)
    obtain ⟨rel, -, rfl⟩ := List.mem_map.1 (touch_mem_updatesFor.1 hy)
    exact (hplain x hmem).ne_renamedThroughout hid hnames
  refine List.Nodup.map_on ?_ (Pairs.nodup_eraseDups _)
  intro u hu v hv heq
  cases u with
  | delete x =>
    cases v with
    | delete y => exact congrArg _ heq
    | touch y => exact absurd heq (hne hu hv)
  | touch x =>
    cases v with
    | delete y => exact absurd heq.symm (hne hv hu)
    | touch y => exact congrArg _ heq

theorem accepted_moveWrites : Tuples.Accepted (moveWrites old new rels) := by
  intro c hc
  have hsub : c.Sublist (moveUpdates old new rels) :=
    flatten_moveWrites ▸ List.sublist_flatten_of_mem hc
  exact (nodup_moveUpdates hadm hplain).sublist (hsub.map _)

/-- What is there when the updates for the first relationships read are written. -/
theorem mem_foldl_updatesFor {before after : List Relationship} {rel : Relationship}
    (hread : readList old rels = before ++ after) :
    rel ∈ (updatesFor old new before).foldl Tuples.Update.apply rels ↔
      rel ∈ before.map (renamedThroughout old new) ∨ rel ∈ rels ∧ rel ∉ before := by
  have hinitial : updatesFor old new before <+: moveUpdates old new rels := by
    rw [moveUpdates_eq hadm hplain, hread]
    exact initial_updatesFor before after
  have hnodup := (nodup_moveUpdates hadm hplain).sublist (hinitial.sublist.map _)
  rw [Tuples.mem_foldl_apply hnodup, touch_mem_updatesFor, delete_mem_updatesFor]

theorem flatten_take_moveWrites (k : Nat) : ((moveWrites old new rels).take k).flatten =
    (updatesFor old new (readList old rels)).take (moveUpdatesPerWrite * k) := by
  rw [moveWrites, Pairs.flatten_take_chunks (by decide), moveUpdates_eq hadm hplain]

/-- Of plain relationships a move loses nothing, when no DELETE comes a write before its TOUCH. -/
theorem moves_iff_aligned {orig : List Relationship}
    (himage : ∀ rel, rel ∈ orig.map (renamedThroughout old new) ↔
      rel ∈ rels.map (renamedThroughout old new)) :
    Moves old new orig rels ↔ Aligned old new (readList old rels) := by
  have haccepted := accepted_moveWrites hadm hplain
  have hrun : Tuples.writeAll none (moveWrites old new rels) rels =
      ((moveUpdates old new rels).foldl Tuples.Update.apply rels, true) := by
    rw [Tuples.writeAll_none haccepted, flatten_moveWrites]
  have hpaired : Aligned old new (readList old rels) ↔
      ∀ k, ∀ p ∈ handleMoves old new rels,
        .delete p.1 ∈ ((moveWrites old new rels).take k).flatten →
          .touch p.2 ∈ ((moveWrites old new rels).take k).flatten := by
    rw [aligned_iff, Pairs.not_torn_iff directed_updatePair, handleMoves_eq hadm hplain]
    simp only [flatten_take_moveWrites hadm hplain, List.forall_mem_map]
    rfl
  refine ⟨fun h => hpaired.2 h.paired, fun h => ⟨?_, ?_, hpaired.1 h⟩⟩
  · simp [moveHandle_snd, hrun]
  · intro rel
    rw [moveHandle_fst, hrun, moveUpdates_eq hadm hplain,
      mem_foldl_updatesFor hadm hplain (List.append_nil _).symm, himage,
      mem_map_renamedThroughout hadm]

/-- A write fails that there is. -/
theorem moveHandle_some_eq_none {k : Nat} : (moveHandle (some k) old new rels).2 = none ↔
    moveUpdatesPerWrite * k < updatesOf old new (readList old rels) := by
  have hlt := Pairs.lt_length_chunks (n := moveUpdatesPerWrite) (k := k)
    (l := moveUpdates old new rels) (by decide)
  rw [length_moveUpdates hadm hplain] at hlt
  rw [← hlt, moveHandle_snd, Tuples.writeAll_some (accepted_moveWrites hadm hplain), moveWrites]
  simp only [decide_eq_true_eq, ite_eq_right_iff, reduceCtorEq, imp_false, Nat.not_le]

/-- After a write has failed the first relationships read are renamed. -/
theorem moveHandle_some {k : Nat} : (moveHandle (some k) old new rels).1 =
    ((updatesFor old new (readList old rels)).take (moveUpdatesPerWrite * k)).foldl
      Tuples.Update.apply rels := by
  rw [moveHandle_fst, Tuples.writeAll_some (accepted_moveWrites hadm hplain),
    flatten_take_moveWrites hadm hplain]

theorem moveHandle_some_of_read {k : Nat} {before after : List Relationship}
    (hread : readList old rels = before ++ after)
    (hlen : updatesOf old new before = moveUpdatesPerWrite * k) :
    (moveHandle (some k) old new rels).1 =
      (updatesFor old new before).foldl Tuples.Update.apply rels := by
  have hinitial := @initial_updatesFor old new before after
  rw [← hread, List.prefix_iff_eq_take, length_updatesFor, hlen] at hinitial
  rw [moveHandle_some hadm hplain, ← hinitial]

/-! ### After a write has failed -/

section
variable {before after rels' : List Relationship} (hlower : new ≠ lower old)
  (hread : readList old rels = before ++ after)
  (hrels' : rels' = (updatesFor old new before).foldl Tuples.Update.apply rels)
include hread hrels'

theorem mem_written {rel : Relationship} : rel ∈ rels' ↔
    (∃ r ∈ rels, r ∈ before ∧ renamedThroughout old new r = rel) ∨ rel ∈ rels ∧ rel ∉ before := by
  rw [hrels', mem_foldl_updatesFor hadm hplain hread, List.mem_map]
  refine or_congr_left (exists_congr fun r => ⟨fun ⟨hr, heq⟩ => ?_, fun ⟨_, hr, heq⟩ => ⟨hr, heq⟩⟩)
  exact ⟨((mem_readList hadm).1 (hread ▸ List.mem_append_left _ hr)).1, hr, heq⟩

theorem admitted_written : ∀ rel ∈ rels', Admitted rel := by
  intro rel hrel
  rcases (mem_written hadm hplain hread hrels').1 hrel with ⟨r, hr, -, rfl⟩ | ⟨hmem, -⟩
  · exact admitted_renamedThroughout.2 (hadm r hr)
  · exact hadm rel hmem

include hlower

theorem plain_written : ∀ rel ∈ rels', Plain old new rel := by
  intro rel hrel
  rcases (mem_written hadm hplain hread hrels').1 hrel with ⟨r, hr, -, rfl⟩ | ⟨hmem, -⟩
  · have hno : ∀ id ∈ moveIds old, ¬ Names id (renamedThroughout old new r) :=
      fun id hid => (hplain r hr).not_names_renamedThroughout hlower hid
    exact ⟨fun id hid h => absurd h (hno id hid), fun id hid _ _ h => absurd h (hno id hid)⟩
  · exact hplain rel hmem

/-- The renames of what is there do not change. -/
theorem image_written {rel : Relationship} : rel ∈ rels.map (renamedThroughout old new) ↔
    rel ∈ rels'.map (renamedThroughout old new) := by
  have htwice : ∀ r ∈ rels, renamedThroughout old new (renamedThroughout old new r) =
      renamedThroughout old new r := fun r hr =>
    renamedThroughout_of_not_names fun _ hid =>
      (hplain r hr).not_names_renamedThroughout hlower hid
  have hmem : ∀ r, r ∈ rels' ↔ (∃ x ∈ rels, x ∈ before ∧ renamedThroughout old new x = r) ∨
      r ∈ rels ∧ r ∉ before := fun _ => mem_written hadm hplain hread hrels'
  constructor
  · intro h
    obtain ⟨r, hr, rfl⟩ := List.mem_map.1 h
    by_cases hbefore : r ∈ before
    · exact List.mem_map.2 ⟨_, (hmem _).2 (.inl ⟨r, hr, hbefore, rfl⟩), htwice r hr⟩
    · exact List.mem_map_of_mem ((hmem r).2 (.inr ⟨hr, hbefore⟩))
  · intro h
    obtain ⟨r', hr', rfl⟩ := List.mem_map.1 h
    rcases (hmem r').1 hr' with ⟨r, hr, -, rfl⟩ | ⟨hr, -⟩
    · rw [htwice r hr]
      exact List.mem_map_of_mem hr
    · exact List.mem_map_of_mem hr

/-- What is left to read. -/
theorem readList_written : readList old rels' = after.filter (· ∉ before) := by
  have hfilter : ∀ id ∈ moveIds old, ∀ f ∈ handleFilters id, rels'.filter f.accepts =
      (rels.filter f.accepts).filter (· ∉ before) := by
    intro id hid f hf
    rw [hrels', Tuples.filter_foldl_apply]
    · simp only [delete_mem_updatesFor]
    · intro t ht
      rw [touch_mem_updatesFor] at ht
      obtain ⟨r, hr, rfl⟩ := List.mem_map.1 ht
      have hr : r ∈ rels := ((mem_readList hadm).1 (hread ▸ List.mem_append_left _ hr)).1
      refine Bool.eq_false_iff.2 fun hacc => ?_
      exact (hplain r hr).not_names_renamedThroughout hlower hid
        ((exists_filter_iff (admitted_renamedThroughout.2 (hadm r hr))).1 ⟨f, hf, hacc⟩)
  have hleft : readList old rels' = (readList old rels).filter (· ∉ before) := by
    unfold readList
    rw [List.filter_flatMap]
    refine List.flatMap_congr fun id hid => ?_
    rw [List.filter_flatMap]
    exact List.flatMap_congr fun f hf => hfilter id hid f hf
  have hnone : before.filter (· ∉ before) = [] :=
    List.filter_eq_nil_iff.2 fun r hr => by simpa using hr
  rw [hleft, hread, List.filter_append, hnone, List.nil_append]

/-- The move again, when a write has failed. -/
theorem moves_again_iff : Moves old new rels rels' ↔
    Aligned old new (after.filter (· ∉ before)) := by
  rw [moves_iff_aligned (admitted_written hadm hplain hread hrels')
    (plain_written hadm hplain hlower hread hrels')
    fun _ => image_written hadm hplain hlower hread hrels',
    readList_written hadm hplain hlower hread hrels']

end

/-- A move of separate relationships loses nothing, whichever write fails. -/
theorem Separate.losesNothing (hsep : Separate old new rels) : LosesNothing old new rels := by
  have halign : Aligned old new (readList old rels) := by
    simpa using hsep.aligned [] (readList old rels) rfl (Nat.dvd_zero _)
  have hfirst : Moves old new rels rels :=
    (moves_iff_aligned hadm hplain fun _ => Iff.rfl).2 halign
  refine ⟨hfirst, fun k hfail => ?_⟩
  have hk := (moveHandle_some_eq_none hadm hplain).1 hfail
  by_cases hlower : new = lower old
  · -- one write, which failed
    have hone := hsep.lowering hlower
    have hzero : k = 0 := by
      rw [moveUpdatesPerWrite] at hk hone
      omega
    subst hzero
    have hsame : (moveHandle (some 0) old new rels).1 = rels := by
      rw [moveHandle_some hadm hplain]
      simp
    rwa [hsame]
  · obtain ⟨before, after, hread, hlen⟩ := halign.exists_written hk.le
    exact (moves_again_iff hadm hplain hlower hread
      (moveHandle_some_of_read hadm hplain hread hlen)).2
      (hsep.aligned before after hread ⟨k, hlen⟩)

end

/-! ## What is lost otherwise -/

section
variable {old new id : String} {orig rels : List Relationship} {rel rel' : Relationship}

theorem namesRef_replace {ref : ObjectRef} {c : Prop} [Decidable c] (hc : c ↔ NamesRef old ref) :
    NamesRef id (if c then ⟨ref.objectType, new⟩ else ref) ↔
      NamesRef old ref ∧ id = new ∨ id ≠ old ∧ NamesRef id ref := by
  by_cases h : NamesRef old ref
  · obtain ⟨ht, hid⟩ := h
    rw [if_pos (hc.2 ⟨ht, hid⟩)]
    constructor
    · intro hnew
      exact .inl ⟨⟨ht, hid⟩, hnew.2.symm⟩
    · rintro (⟨-, rfl⟩ | ⟨hne, hnames⟩)
      · exact ⟨ht, rfl⟩
      · exact absurd (hnames.2.symm.trans hid) hne
  · rw [if_neg (mt hc.1 h)]
    constructor
    · intro hnames
      refine .inr ⟨?_, hnames⟩
      rintro rfl
      exact h hnames
    · rintro (⟨hold, -⟩ | ⟨-, hnames⟩)
      · exact absurd hold h
      · exact hnames

/-- A round leaves the other names, and the new one. -/
theorem names_renamedRelationship (hadm : Admitted rel)
    (h : renamedRelationship rel old new = some rel') :
    Names id rel' ↔ id = new ∨ id ≠ old ∧ Names id rel := by
  obtain ⟨hnames, rfl⟩ := renamedRelationship_eq_some.1 h
  have hold : NamesRef old rel.resource ∨ NamesRef old rel.subject := (names_iff hadm).2 hnames
  have hres : NamesRef id (if rel.resource.objectType.isHandle = true ∧ rel.resource.objectId = old
      then ⟨rel.resource.objectType, new⟩ else rel.resource) ↔
      NamesRef old rel.resource ∧ id = new ∨ id ≠ old ∧ NamesRef id rel.resource :=
    namesRef_replace Iff.rfl
  have hsub : NamesRef id (if rel.subject = userRef old then userRef new else rel.subject) ↔
      NamesRef old rel.subject ∧ id = new ∨ id ≠ old ∧ NamesRef id rel.subject := by
    have huser : (if rel.subject = userRef old then userRef new else rel.subject) =
        if rel.subject = userRef old then ⟨rel.subject.objectType, new⟩ else rel.subject := by
      split
      · rename_i hs
        rw [hs]
        rfl
      · rfl
    rw [huser]
    exact namesRef_replace (namesRef_subject hadm).symm
  refine (or_congr hres hsub).trans ⟨?_, ?_⟩
  · rintro ((⟨-, heq⟩ | ⟨hne, h⟩) | (⟨-, heq⟩ | ⟨hne, h⟩))
    · exact .inl heq
    · exact .inr ⟨hne, .inl h⟩
    · exact .inl heq
    · exact .inr ⟨hne, .inr h⟩
  · rintro (heq | ⟨hne, h | h⟩)
    · exact hold.imp (fun h => .inl ⟨h, heq⟩) fun h => .inl ⟨h, heq⟩
    · exact .inl (.inr ⟨hne, h⟩)
    · exact .inr (.inr ⟨hne, h⟩)

theorem exists_renamedRelationship (hadm : Admitted rel) (hnames : Names old rel) (new : String) :
    ∃ rel', renamedRelationship rel old new = some rel' :=
  ⟨_, renamedRelationship_eq_some.2 ⟨(names_iff hadm).1 hnames, rfl⟩⟩

theorem self_mem_handleMoves (hadm : Admitted rel) (hmem : rel ∈ rels) (hid : id ∈ moveIds old)
    (hnames : Names id rel) (hself : respell new id = id) :
    (rel, rel) ∈ handleMoves old new rels := by
  refine mem_handleMoves.2 ⟨id, mem_moveIds.1 hid, (exists_filter_iff hadm).2 hnames, hmem, ?_⟩
  refine renamedRelationship_eq_some.2 ⟨(names_iff hadm).1 hnames, ?_⟩
  have hres : (if rel.resource.objectType.isHandle = true ∧ rel.resource.objectId = id
      then ⟨rel.resource.objectType, id⟩ else rel.resource) = rel.resource := by
    split
    · rename_i h
      rw [← h.2]
    · rfl
  have hsub : (if rel.subject = userRef id then userRef id else rel.subject) = rel.subject := by
    split
    · rename_i h
      exact h.symm
    · rfl
  rw [hself, hres, hsub]

theorem Moves.accepted (h : Moves old new orig rels) :
    Tuples.Accepted (moveWrites old new rels) := by
  have hdone := h.done
  rw [moveHandle_snd] at hdone
  split at hdone
  · rename_i htrue
    exact Tuples.writeAll_none_eq_true.1 htrue
  · cases hdone

/-- A move to itself is refused, or deletes. -/
theorem not_mem_of_self_move (h : Moves old new orig rels)
    (hself : (rel, rel) ∈ handleMoves old new rels) :
    rel ∉ orig.map (renamedThroughout old new) := by
  have haccepted := h.accepted
  have hdelete : .delete rel ∈ (moveWrites old new rels).flatten :=
    flatten_moveWrites ▸ delete_mem_moveUpdates.2 ⟨_, hself, rfl⟩
  obtain ⟨c, hc, hmem⟩ := List.mem_flatten.1 hdelete
  obtain ⟨first, last, hwrites⟩ := List.append_of_mem hc
  have htake : ((moveWrites old new rels).take (first.length + 1)).flatten =
      first.flatten ++ c := by
    rw [hwrites, List.append_cons, List.take_left' (by simp)]
    simp
  have htouch := h.paired (first.length + 1) _ hself
  rw [htake] at htouch
  have hin : .touch rel ∈ first.flatten := by
    refine (List.mem_append.1 (htouch (List.mem_append_right _ hmem))).resolve_right fun hin => ?_
    cases List.inj_on_of_nodup_map (haccepted c hc) hin hmem rfl
  have hflat : moveUpdates old new rels = first.flatten ++ (c ++ last.flatten) := by
    rw [← flatten_moveWrites, hwrites]
    simp
  have hnot : .touch rel ∉ c ++ last.flatten := by
    have hnodup : (moveUpdates old new rels).Nodup := Pairs.nodup_eraseDups _
    rw [hflat] at hnodup
    exact fun hin' => (List.nodup_append.1 hnodup).2.2 _ hin _ hin' rfl
  rw [← h.renamed, moveHandle_fst, Tuples.writeAll_none haccepted, flatten_moveWrites, hflat,
    List.foldl_append]
  exact Tuples.not_mem_foldl_apply_of_delete (.inl (List.mem_append_left _ hmem)) hnot

/-- What `move_handle` finds for one spelling. -/
def roundMoves (new id : String) (rels : List Relationship) :
    List (Relationship × Relationship) :=
  (handleFilters id).flatMap fun filter => (rels.filter filter.accepts).filterMap fun rel =>
    (renamedRelationship rel id (respell new id)).map (rel, ·)

theorem mem_roundMoves (hadm : ∀ rel ∈ rels, Admitted rel) {p : Relationship × Relationship} :
    p ∈ roundMoves new id rels ↔
      p.1 ∈ rels ∧ renamedRelationship p.1 id (respell new id) = some p.2 := by
  obtain ⟨rel, rel'⟩ := p
  simp only [roundMoves, List.mem_flatMap, List.mem_filterMap, List.mem_filter,
    Option.map_eq_some_iff, Prod.mk.injEq]
  constructor
  · rintro ⟨f, hf, _, ⟨hmem, hacc⟩, _, hren, rfl, rfl⟩
    exact ⟨hmem, hren⟩
  · rintro ⟨hmem, hren⟩
    have hnames : Names id rel :=
      (names_iff (hadm rel hmem)).2 (renamedRelationship_eq_some.1 hren).1
    obtain ⟨f, hf, hacc⟩ := (exists_filter_iff (hadm rel hmem)).2 hnames
    exact ⟨f, hf, rel, ⟨hmem, hacc⟩, rel', hren, rfl, rfl⟩

/-- The second round deletes nothing that the first has not deleted, and touches what it leaves. -/
theorem mem_of_mixed (hadm : ∀ rel ∈ rels, Admitted rel) (h : Moves old new orig rels)
    (hcap : lower old ≠ old) (hnew : new ≠ old) (hmem : rel ∈ rels) (hold : Names old rel)
    (hlow : Names (lower old) rel) :
    ∃ rel', rel' ∈ (moveHandle none old new rels).1 ∧ Names old rel' := by
  obtain ⟨rel', hren⟩ :=
    exists_renamedRelationship (hadm rel hmem) hlow (respell new (lower old))
  have hold' : Names old rel' :=
    (names_renamedRelationship (hadm rel hmem) hren).2 (.inr ⟨hcap.symm, hold⟩)
  refine ⟨rel', ?_, hold'⟩
  have hrounds : handleMoves old new rels =
      roundMoves new old rels ++ roundMoves new (lower old) rels := by
    simp [handleMoves, moveIds, hcap, roundMoves]
  have htouch1 : .touch rel' ∉ Pairs.layout ((roundMoves new old rels).map moveUpdate) := by
    intro hin
    obtain ⟨p, hp, heq⟩ := touch_mem_layout.1 hin
    obtain ⟨hr, hren'⟩ := (mem_roundMoves hadm).1 hp
    rw [heq, respell, if_neg hcap.symm] at hren'
    rcases (names_renamedRelationship (hadm p.1 hr) hren').1 hold' with heq | ⟨hne, -⟩
    · exact hnew heq.symm
    · exact hne rfl
  have htouch2 : .touch rel' ∈ Pairs.layout ((roundMoves new (lower old) rels).map moveUpdate) := by
    have hp : (rel, rel') ∈ roundMoves new (lower old) rels :=
      (mem_roundMoves hadm).2 ⟨hmem, hren⟩
    exact touch_mem_layout.2 ⟨_, hp, rfl⟩
  have hdelete : .delete rel' ∈ Pairs.layout ((roundMoves new (lower old) rels).map moveUpdate) →
      .delete rel' ∈ Pairs.layout ((roundMoves new old rels).map moveUpdate) := by
    intro hin
    obtain ⟨p, hp, heq⟩ := delete_mem_layout.1 hin
    obtain ⟨hr, -⟩ := (mem_roundMoves hadm).1 hp
    rw [heq] at hr
    obtain ⟨r', hren'⟩ := exists_renamedRelationship (hadm rel' hr) hold' (respell new old)
    have hp' : (rel', r') ∈ roundMoves new old rels := (mem_roundMoves hadm).2 ⟨hr, hren'⟩
    exact delete_mem_layout.2 ⟨_, hp', rfl⟩
  have hupdates : moveUpdates old new rels =
      (Pairs.layout ((roundMoves new old rels).map moveUpdate)).eraseDups ++
        ((Pairs.layout ((roundMoves new (lower old) rels).map moveUpdate)).removeAll
          (Pairs.layout ((roundMoves new old rels).map moveUpdate))).eraseDups := by
    rw [← List.eraseDups_append, ← Pairs.layout_append, ← List.map_append, ← hrounds]
    rfl
  rw [moveHandle_fst, Tuples.writeAll_none h.accepted, flatten_moveWrites, hupdates,
    List.foldl_append]
  refine Tuples.mem_foldl_apply_of_touch (.inl ?_) ?_
  · simpa [List.mem_eraseDups, List.removeAll] using ⟨htouch2, htouch1⟩
  · simpa [List.mem_eraseDups, List.removeAll] using hdelete

theorem respell_self (hid : id ∈ moveIds old) : respell old id = id := by
  rcases mem_moveIds.1 hid with rfl | rfl
  · by_cases h : id = lower id
    · rw [respell, if_pos h, ← h]
    · rw [respell, if_neg h]
  · simp [respell]

theorem respell_ne_old (hcap : lower old ≠ old) (hnew : new ≠ old) : respell new id ≠ old := by
  unfold respell
  split
  · rintro rfl
    exact hcap (Text.lower_lower new)
  · exact hnew

section
variable (hadm : ∀ rel ∈ rels, Admitted rel) (h : LosesNothing old new rels)
include hadm h

theorem LosesNothing.oneSpelling (hmem : rel ∈ rels) {id' : String} (hid : id ∈ moveIds old)
    (hid' : id' ∈ moveIds old) (hnames : Names id rel) (hnames' : Names id' rel) : id = id' := by
  by_contra hne
  obtain ⟨hcap, hold, hlow⟩ : lower old ≠ old ∧ Names old rel ∧ Names (lower old) rel := by
    rcases mem_moveIds.1 hid with rfl | rfl
    · rcases mem_moveIds.1 hid' with rfl | rfl
      · exact absurd rfl hne
      · exact ⟨Ne.symm hne, hnames, hnames'⟩
    · rcases mem_moveIds.1 hid' with rfl | rfl
      · exact ⟨hne, hnames', hnames⟩
      · exact absurd rfl hne
  by_cases hnew : new = old
  · subst hnew
    have hself := self_mem_handleMoves (hadm rel hmem) hmem hid hnames (respell_self hid)
    exact not_mem_of_self_move h.first hself
      (List.mem_map.2 ⟨rel, hmem, renamedThroughout_eq_self fun _ hid _ => respell_self hid⟩)
  · obtain ⟨rel', hrel', hold'⟩ := mem_of_mixed hadm h.first hcap hnew hmem hold hlow
    obtain ⟨r, -, rfl⟩ := List.mem_map.1 ((h.first.renamed rel').1 hrel')
    obtain ⟨id'', -, -, heq⟩ := names_renamedThroughout (mem_moveIds.2 (.inl rfl)) hold'
    exact respell_ne_old hcap hnew heq.symm

theorem LosesNothing.plain : ∀ rel ∈ rels, Plain old new rel := by
  intro rel hmem
  have hone : ∀ id ∈ moveIds old, ∀ id' ∈ moveIds old, Names id rel → Names id' rel → id = id' :=
    fun id hid id' hid' hnames hnames' => h.oneSpelling hadm hmem hid hid' hnames hnames'
  refine ⟨fun id hid hnames hsame => ?_, hone⟩
  have hself := self_mem_handleMoves (hadm rel hmem) hmem hid hnames hsame
  refine not_mem_of_self_move h.first hself (List.mem_map.2 ⟨rel, hmem, ?_⟩)
  exact renamedThroughout_eq_self fun id' hid' hnames' =>
    hone id' hid' id hid hnames' hnames ▸ hsame

/-- A handle that is lower-cased is found again under its new name. -/
theorem LosesNothing.lowering (hnew : new = lower old) :
    updatesOf old new (readList old rels) ≤ moveUpdatesPerWrite := by
  by_contra hmore
  have hplain := h.plain hadm
  have halign := (moves_iff_aligned hadm hplain fun _ => Iff.rfl).1 h.first
  have hk : moveUpdatesPerWrite * 1 < updatesOf old new (readList old rels) := by omega
  have hagain := h.again 1 ((moveHandle_some_eq_none hadm hplain).2 hk)
  obtain ⟨before, after, hread, hlen⟩ := halign.exists_written hk.le
  have hrels' := moveHandle_some_of_read hadm hplain hread hlen
  obtain ⟨r, hr⟩ : ∃ r, r ∈ before := by
    apply List.exists_mem_of_ne_nil
    rintro rfl
    cases hlen
  obtain ⟨hmem, id, hid, hnames⟩ :=
    (mem_readList hadm).1 (hread ▸ List.mem_append_left after hr)
  have hmoved := (mem_written hadm hplain hread hrels').2 (.inl ⟨r, hmem, hr, rfl⟩)
  have hself : ∀ id, respell new id = lower old := by
    intro id
    rw [respell, hnew, Text.lower_lower, ite_self]
  have hnamed : Names (lower old) (renamedThroughout old new r) :=
    hself id ▸ names_respell hid hnames
  refine not_mem_of_self_move hagain (self_mem_handleMoves ?_ hmoved
    (mem_moveIds.2 (.inr rfl)) hnamed (hself _)) (List.mem_map_of_mem hmem)
  exact admitted_renamedThroughout.2 (hadm r hmem)

end

/-- A move loses nothing exactly when the relationships are separate. -/
theorem losesNothing_iff (hadm : ∀ rel ∈ rels, Admitted rel) :
    LosesNothing old new rels ↔ Separate old new rels := by
  constructor
  · intro h
    have hplain := h.plain hadm
    have halign := (moves_iff_aligned hadm hplain fun _ => Iff.rfl).1 h.first
    refine ⟨hplain, ?_, fun hnew => h.lowering hadm hnew⟩
    rintro done rest hread ⟨k, hlen⟩
    by_cases hk : moveUpdatesPerWrite * k < updatesOf old new (readList old rels)
    · by_cases hlower : new = lower old
      · -- one write, of all that was read
        have hone := h.lowering hadm hlower
        have hzero : updatesOf old new done = 0 := by
          rw [moveUpdatesPerWrite] at hk hone hlen
          omega
        rw [updatesOf_eq_zero hzero] at hread ⊢
        rwa [hread, List.nil_append, ← List.filter_true rest] at halign
      · have hrels' := moveHandle_some_of_read hadm hplain hread hlen
        exact (moves_again_iff hadm hplain hlower hread hrels').1
          (h.again k ((moveHandle_some_eq_none hadm hplain).2 hk))
    · rw [← hlen] at hk
      rw [filter_eq_nil_of_updatesOf (hread ▸ Nat.not_lt.1 hk)]
      exact aligned_nil
  · intro h
    exact h.losesNothing hadm h.plain

end

theorem losesNothing_alpha :
    LosesNothing "Alpha" "Beta"
      [⟨statsRecord "Alpha", .owner, userRef "Alpha"⟩, shareTuple "Alpha" "dave",
        friendTuple "dave" "alpha"] :=
  (losesNothing_iff (by decide)).2 (separate_of_one_write (by decide) (by decide))

/-- Of a handle without capitals that gets some a relationship becomes itself, and is refused. -/
theorem capitalised_owner_refused :
    Admitted ⟨statsRecord "alpha", .owner, userRef "alpha"⟩ ∧
      ¬ LosesNothing "alpha" "Alpha" [⟨statsRecord "alpha", .owner, userRef "alpha"⟩] := by
  refine ⟨rfl, fun h => ?_⟩
  exact absurd h.first.done (by decide)

end StarStats.HandleMoves
