import StarStats.Server.Proof.MoveWrites

/-!
# Moves in order

`Inv` is kept by every step that meets `InOrder`: each grant's relationship is under the account's
handle or under the old handle of a rename that is not marked (`Tracked`), and a pass that has read
the oldest of these has all of it in the writes still to come (`Writing`). So the relationships are
under the account's handle when every rename is marked. A move that is made up for after a later
one leaves them under a handle that nobody has (`replayed_move_strands_share`).
-/

namespace StarStats.HandleMoves

open Text (lower)

/-! ## The invariant -/

/-- The handles that the account's relationships may be under. -/
def names (s : State) : List String := s.pending.map (·.oldHandle) ++ [s.handle]

/-- Each rename leads to a later one's old handle, or to the account's. -/
def Leads : List HandleRename → String → Prop
  | [], _ => True
  | r :: rs, handle => r.newHandle ∈ rs.map (·.oldHandle) ++ [handle] ∧ Leads rs handle

theorem Leads.append {r : HandleRename} : ∀ {rs : List HandleRename}, Leads rs r.oldHandle →
    Leads (rs ++ [r]) r.newHandle
  | [], _ => by simp [Leads]
  | r' :: rs, h => by
    obtain ⟨hmem, hrest⟩ := h
    refine ⟨?_, Leads.append hrest⟩
    show r'.newHandle ∈ (rs ++ [r]).map (·.oldHandle) ++ [r.newHandle]
    rw [List.map_append]
    exact List.mem_append_left _ hmem

/-- One row, read at two times. -/
structure SameMove (r r' : HandleRename) : Prop where
  id : r.id = r'.id
  old : r.oldHandle = r'.oldHandle
  new : r.newHandle = r'.newHandle

def Recorded (s : State) (r : HandleRename) : Prop := ∃ r' ∈ s.renames, SameMove r r'

/-- What a pass that has read, and not marked, has still to write. -/
structure Writing (s : State) (r : HandleRename) (cs : List (List RelationshipUpdate)) : Prop where
  oldest : Oldest s r
  chunks : ∀ c ∈ cs, ChunkOk s.handle r.oldHandle r.newHandle s.grants c
  covered : Covered (names s) (names s).tail s.grants s.rels cs

structure PassOk (s : State) (p : Pass) : Prop where
  queued : ∀ r ∈ p.queue, Recorded s r
  writing : ∀ cs ∈ p.writes, ∀ r ∈ p.queue.head?, (∃ r' ∈ s.pending, r'.id = r.id) → Writing s r cs

structure Inv (s : State) : Prop where
  known : ∀ g ∈ s.grants, g.Known s.others
  clear : ∀ h ∈ names s, lower h ≠ "*" ∧ ∀ o ∈ s.others, lower o ≠ lower h
  capitals : lower s.handle ≠ s.handle → ∀ h ∈ names s, lower h ≠ h
  ids : (s.renames.map (·.id)).Nodup
  leads : Leads s.pending s.handle
  tracked : Tracked (Owed s.handle (names s)) s.grants s.rels
  passes : ∀ p ∈ s.passes, PassOk s p

theorem handle_mem_names (s : State) : s.handle ∈ names s := by simp [names]

section
variable {s : State}

theorem Inv.not_foreign (hs : Inv s) (id : String) (h : Named (names s) id) :
    ¬ Foreign s.others id := by
  obtain ⟨n, hn, hname⟩ := h
  obtain ⟨hwild, hothers⟩ := hs.clear n hn
  rintro (rfl | ⟨o, ho, heq⟩)
  · apply hwild
    rw [← hname.lower_eq]
    decide
  · exact hothers o ho (heq.trans hname.lower_eq)

/-- What the oldest rename not marked is to the names. -/
theorem Inv.names_of_oldest {r : HandleRename} (hs : Inv s)
    (hqueued : Recorded s r) (h : Oldest s r) :
    names s = r.oldHandle :: (names s).tail ∧ r.newHandle ∈ (names s).tail ∧
      s.handle ∈ (names s).tail := by
  obtain ⟨r', hr', hsame⟩ := hqueued
  have hleads := hs.leads
  unfold Oldest at h
  unfold names
  cases hpending : s.pending with
  | nil => simp [hpending] at h
  | cons r₀ rest =>
    rw [hpending] at hleads h
    have hid : r₀.id = r.id := by simpa using h
    have hr₀ : r₀ ∈ s.renames := by
      apply List.mem_of_mem_filter
      show r₀ ∈ s.pending
      simp [hpending]
    obtain rfl : r' = r₀ :=
      List.inj_on_of_nodup_map hs.ids hr' hr₀ (hsame.id.symm.trans hid.symm)
    simp only [List.map_cons, List.cons_append, List.tail_cons, hsame.old, hsame.new, true_and]
    exact ⟨hleads.1, by simp⟩

/-! ## Steps that leave the renames -/

theorem PassOk.frame {s' : State} {p : Pass} (h : PassOk s p)
    (hrecorded : ∀ r, Recorded s r → Recorded s' r) (hpending : s'.pending = s.pending)
    (hhandle : s'.handle = s.handle) (hgrants : s'.grants = s.grants) (hrels : s'.rels = s.rels) :
    PassOk s' p := by
  have hnames : names s' = names s := by simp [names, hpending, hhandle]
  constructor
  · intro r hr
    exact hrecorded r (h.queued r hr)
  · intro cs hcs r hr hex
    rw [hpending] at hex
    obtain ⟨holdest, hchunks, hcovered⟩ := h.writing cs hcs r hr hex
    constructor
    · unfold Oldest
      rw [hpending]
      exact holdest
    · rw [hhandle, hgrants]
      exact hchunks
    · rw [hnames, hgrants, hrels]
      exact hcovered

/-- A pass between two renames has nothing to write. -/
theorem passOk_idle {queue : List HandleRename} (h : ∀ r ∈ queue, Recorded s r) :
    PassOk s ⟨queue, none⟩ where
  queued := h
  writing := by
    intro cs hcs
    cases hcs

theorem inv_passes (hs : Inv s) {now : Timestamp} {passes : List Pass}
    (h : ∀ p ∈ passes, PassOk s p) : Inv { s with now := now, passes := passes } where
  known := hs.known
  clear := hs.clear
  capitals := hs.capitals
  ids := hs.ids
  leads := hs.leads
  tracked := hs.tracked
  passes := fun p hp => (h p hp).frame (fun _ h => h) rfl rfl rfl rfl

theorem inv_setPass (hs : Inv s) {i : Nat} {pass : Pass} (h : PassOk s pass) :
    Inv (s.setPass i pass) := by
  apply inv_passes hs
  intro p hp
  rcases List.mem_or_eq_of_mem_set hp with hp | rfl
  · exact hs.passes p hp
  · exact h

theorem inv_reconcile (hs : Inv s) (room : Nat) :
    Inv { s with passes := s.passes ++ [⟨pendingSpicedbMoves room s.renames, none⟩] } := by
  apply inv_passes hs
  intro p hp
  rcases List.mem_append.1 hp with hp | hp
  · exact hs.passes p hp
  · rw [List.mem_singleton.1 hp]
    apply passOk_idle
    intro r hr
    have hmem := (List.perm_insertionSort _ _).mem_iff.1 (List.mem_of_mem_take hr)
    exact ⟨r, List.mem_of_mem_filter hmem, ⟨rfl, rfl, rfl⟩⟩

theorem known_append {g : Grant} (hs : Inv s) (hg : g.Known s.others) :
    ∀ g' ∈ s.grants ++ [g], g'.Known s.others := by
  intro g' hg'
  rcases List.mem_append.1 hg' with hg' | hg'
  · exact hs.known g' hg'
  · rw [List.mem_singleton.1 hg']
    exact hg

theorem tracked_append {g : Grant} (hs : Inv s) :
    Tracked (Owed s.handle (names s)) (s.grants ++ [g])
      (Tuples.touch (g.under s.handle) s.rels) := by
  have howed : Owed s.handle (names s) g.lowered (spell g.lowered s.handle) :=
    ⟨⟨s.handle, handle_mem_names s, isName_spell⟩, spelled_spell⟩
  constructor
  · intro g' hg'
    rcases List.mem_append.1 hg' with hg' | hg'
    · obtain ⟨id, hid, hmem⟩ := hs.tracked.kept g' hg'
      exact ⟨id, hid, Tuples.mem_touch.2 (.inr hmem)⟩
    · rw [List.mem_singleton.1 hg']
      exact ⟨_, howed, Tuples.mem_touch.2 (.inl rfl)⟩
  · intro rel hrel
    rcases Tuples.mem_touch.1 hrel with rfl | hrel
    · exact ⟨g, by simp, _, howed, rfl⟩
    · obtain ⟨g', hg', id, hid, heq⟩ := hs.tracked.only rel hrel
      exact ⟨g', List.mem_append_left _ hg', id, hid, heq⟩

theorem covered_append {g : Grant} {rest : List String} {cs : List (List RelationshipUpdate)}
    (hs : Inv s) (hg : g.Known s.others) (hhandle : s.handle ∈ rest)
    (h : Covered (names s) rest s.grants s.rels cs) :
    Covered (names s) rest (s.grants ++ [g]) (Tuples.touch (g.under s.handle) s.rels) cs := by
  intro g' hg' hown id hid hmem
  have hknown := known_append hs hg g' hg'
  have hforeign := hs.not_foreign id hid
  rcases Tuples.mem_touch.1 hmem with heq | hmem
  · have hspell : ¬ Foreign s.others (spell g.lowered s.handle) :=
      hs.not_foreign _ ⟨s.handle, handle_mem_names s, isName_spell⟩
    have hids := (Grant.fill_inj hknown hg hforeign hspell heq).2 hown
    exact .inl ⟨s.handle, hhandle, hids ▸ isName_spell⟩
  · -- it is there already, for a grant that differs in the spelling at most
    obtain ⟨g₀, hg₀, id₀, ⟨hid₀, -⟩, heq⟩ := hs.tracked.only _ hmem
    obtain ⟨hsame, -⟩ := Grant.fill_inj hknown (hs.known g₀ hg₀) hforeign
      (hs.not_foreign id₀ hid₀) heq
    rw [← hsame.fill] at hmem ⊢
    exact h g₀ hg₀ (hsame.own hown) id hid hmem

/-- A relationship is written under the account's handle. -/
theorem inv_write {g : Grant} (hs : Inv s) (hg : g.Known s.others) :
    Inv { s with rels := Tuples.touch (g.under s.handle) s.rels, grants := s.grants ++ [g] } where
  known := known_append hs hg
  clear := hs.clear
  capitals := hs.capitals
  ids := hs.ids
  leads := hs.leads
  tracked := tracked_append hs
  passes := by
    intro p hp
    obtain ⟨hqueued, hwriting⟩ := hs.passes p hp
    refine ⟨hqueued, fun cs hcs r hr hex => ?_⟩
    obtain ⟨holdest, hchunks, hcovered⟩ := hwriting cs hcs r hr hex
    have hnames := hs.names_of_oldest (hqueued r (List.mem_of_mem_head? hr)) holdest
    refine ⟨holdest, fun c hc => ?_, covered_append hs hg hnames.2.2 hcovered⟩
    exact (hchunks c hc).mono (fun g' => List.mem_append_left _) fun _ _ h => h

/-! ## Claims -/

theorem claimable_iff {handle : String} : s.claimable handle = true ↔
    ((validateHandle handle = true ∧ lower handle ≠ lower s.handle) ∧
      ∀ o ∈ s.others, lower o ≠ lower handle) ∧ handleHeld s.renames handle s.now = false := by
  simp [State.claimable]

theorem Foreign.mono {others others' : List String} {id : String} (h : Foreign others id)
    (hsub : ∀ o ∈ others, o ∈ others') : Foreign others' id := by
  obtain rfl | ⟨o, ho, heq⟩ := h
  · exact .inl rfl
  · exact .inr ⟨o, hsub o ho, heq⟩

/-- A handle that is no name of the account's goes to another. -/
theorem inv_takeOver {handle : String} (hs : Inv s)
    (hfree : ∀ h ∈ names s, lower handle ≠ lower h) :
    Inv { s with others := s.others ++ [handle] } where
  known g hg ref href ht := (hs.known g hg ref href ht).mono fun _ => List.mem_append_left _
  clear h hh := by
    obtain ⟨hwild, hothers⟩ := hs.clear h hh
    refine ⟨hwild, fun o ho => ?_⟩
    rcases List.mem_append.1 ho with ho | ho
    · exact hothers o ho
    · rw [List.mem_singleton.1 ho]
      exact hfree h hh
  capitals := hs.capitals
  ids := hs.ids
  leads := hs.leads
  tracked := hs.tracked
  passes p hp := (hs.passes p hp).frame (fun _ h => h) rfl rfl rfl rfl

/-- There is nothing to delete under a handle that nobody has. -/
theorem deleteEverythingForHandle_eq {handle : String} {fails : Nat → Bool} (hs : Inv s)
    (hforeign : ¬ Foreign s.others handle) (hfree : ∀ h ∈ names s, lower handle ≠ lower h) :
    deleteEverythingForHandle handle fails s.rels = s.rels := by
  apply List.filter_eq_self.2
  intro rel hrel
  obtain ⟨g, hg, id, ⟨⟨h, hh, hname⟩, -⟩, rfl⟩ := hs.tracked.only rel hrel
  have hne : id ≠ handle := by
    rintro rfl
    exact hfree h hh hname.lower_eq
  have hknown := hs.known g hg
  simp only [Bool.not_eq_true', List.any_eq_false, Bool.and_eq_true, not_and]
  intro f hf _ hacc
  have hf' : f.1 ∈ handleFilters handle := (List.mem_zipIdx' hf).2 ▸ List.getElem_mem _
  rcases names_of_accepts hf' hacc with hres | hsub
  · exact hne ((Resource.names_iff hknown.resource hforeign).1 hres).2
  · exact hne ((Subject.names_iff hknown.subject hforeign).1 hsub).2

theorem known_ownerGrant (others : List String) (handle : String) :
    (ownerGrant handle).Known (others ++ [handle]) := by
  intro ref href _
  have hid : ref.objectId = handle := by
    simp only [ownerGrant, Resource.refs, Subject.refs, List.cons_append, List.nil_append,
      List.mem_cons, List.not_mem_nil, or_false] at href
    obtain rfl | rfl := href <;> rfl
  exact .inr ⟨handle, by simp, by rw [hid]⟩

section
variable {handle : String} (hclaim : s.claimable handle = true)
  (hok : ∀ r ∈ s.pending, lower r.oldHandle ≠ lower handle)
include hclaim hok

theorem ne_names_of_claimable : ∀ h ∈ names s, lower handle ≠ lower h := by
  obtain ⟨⟨⟨-, hown⟩, -⟩, -⟩ := claimable_iff.1 hclaim
  intro h hh
  rcases List.mem_append.1 hh with hh | hh
  · obtain ⟨r, hr, rfl⟩ := List.mem_map.1 hh
    exact (hok r hr).symm
  · rw [List.mem_singleton.1 hh]
    exact hown

theorem inv_signUp {deleteFails : Nat → Bool} {ownerFails : Bool} {s' : State} (hs : Inv s)
    (h : step s (.signUp handle deleteFails ownerFails) = some s') : Inv s' := by
  obtain ⟨⟨⟨hvalid, -⟩, hothers⟩, -⟩ := claimable_iff.1 hclaim
  have hforeign : ¬ Foreign s.others handle := by
    rintro (rfl | ⟨o, ho, heq⟩)
    · exact absurd hvalid (by decide)
    · exact hothers o ho heq
  have hfree := ne_names_of_claimable hclaim hok
  simp only [step, hclaim, Bool.not_true, Bool.false_eq_true, if_false,
    deleteEverythingForHandle_eq hs hforeign hfree, Option.some.injEq] at h
  have htaken := inv_takeOver hs hfree
  cases ownerFails with
  | true =>
    rw [if_pos rfl] at h
    exact h ▸ htaken
  | false =>
    rw [if_neg Bool.false_ne_true] at h
    rw [← h]
    exact inv_write htaken (known_ownerGrant s.others handle)

end

/-! ## Renames -/

theorem valid_of_evaluate {subject : RenameSubject} {newHandle : String} {now : Timestamp}
    {kind : RenameKind} (h : evaluateRename subject newHandle now = .ok kind) :
    validateHandle newHandle = true := by
  cases hv : validateHandle newHandle with
  | true => rfl
  | false => simp [evaluateRename, hv] at h

theorem Spelled.rename {handle newHandle id : String} {lowered : Bool}
    (h : Spelled handle lowered id)
    (hcapitals : lower handle = handle → lower newHandle = newHandle) :
    Spelled newHandle lowered id := fun hne => h (mt hcapitals hne)

theorem Named.append {handles : List String} {id : String} (h : Named handles id) (new : String) :
    Named (handles ++ [new]) id := by
  obtain ⟨n, hn, hname⟩ := h
  exact ⟨n, List.mem_append_left _ hn, hname⟩

theorem named_append_self {handles : List String} {new id : String} (h : IsName new id) :
    Named (handles ++ [new]) id := ⟨new, by simp, h⟩

/-- `s'` is `s` after the commit of the rename. -/
structure Renamed (s s' : State) (r : HandleRename) : Prop where
  renames : s'.renames = s.renames ++ [r]
  passes : s'.passes = s.passes ++ [⟨[r], none⟩]
  handle : s'.handle = r.newHandle
  old : r.oldHandle = s.handle
  unmarked : r.pending = true
  others : s'.others = s.others
  grants : s'.grants = s.grants
  rels : s'.rels = s.rels
  fresh : ∀ r' ∈ s.renames, r'.id ≠ r.id
  capitals : lower s.handle = s.handle → lower r.newHandle = r.newHandle

section
variable {s' : State} {r : HandleRename} (h : Renamed s s' r)
include h

theorem Renamed.pending : s'.pending = s.pending ++ [r] := by
  simp [State.pending, h.renames, h.unmarked]

theorem Renamed.names : names s' = names s ++ [r.newHandle] := by
  simp [HandleMoves.names, h.pending, h.handle, h.old]

theorem Renamed.recorded {r' : HandleRename} (hr' : Recorded s r') : Recorded s' r' := by
  obtain ⟨r₀, hr₀, hsame⟩ := hr'
  exact ⟨r₀, h.renames ▸ List.mem_append_left _ hr₀, hsame⟩

theorem Writing.rename {r' : HandleRename} {cs : List (List RelationshipUpdate)}
    (hw : Writing s r' cs) : Writing s' r' cs := by
  obtain ⟨holdest, hchunks, hcovered⟩ := hw
  have hnonempty : s.pending ≠ [] := by
    intro hnil
    simp [Oldest, hnil] at holdest
  have htail : (HandleMoves.names s').tail = (HandleMoves.names s).tail ++ [r.newHandle] := by
    rw [h.names, List.tail_append_of_ne_nil]
    simp [HandleMoves.names]
  constructor
  · unfold Oldest
    rw [h.pending, List.head?_append_of_ne_nil _ hnonempty]
    exact holdest
  · intro c hc
    rw [h.handle, h.grants]
    exact (hchunks c hc).mono (fun _ hg => hg) fun _ _ hid => hid.rename h.capitals
  · rw [htail, h.names, h.grants, h.rels]
    intro g hg hown id hid hmem
    obtain ⟨n, hn, hname⟩ := hid
    rcases List.mem_append.1 hn with hn | hn
    · rcases hcovered g hg hown id ⟨n, hn, hname⟩ hmem with hnamed | hin
      · exact .inl (hnamed.append _)
      · exact .inr hin
    · rw [List.mem_singleton.1 hn] at hname
      exact .inl (named_append_self hname)

theorem PassOk.rename {p : Pass} (hp : PassOk s p) : PassOk s' p where
  queued r' hr' := h.recorded (hp.queued r' hr')
  writing := by
    intro cs hcs r' hr' hex
    apply Writing.rename h
    apply hp.writing cs hcs r' hr'
    obtain ⟨r₁, hr₁, hid⟩ := hex
    rw [h.pending] at hr₁
    rcases List.mem_append.1 hr₁ with hr₁ | hr₁
    · exact ⟨r₁, hr₁, hid⟩
    · -- the rename is new, and no pass has it yet
      obtain ⟨r₀, hr₀, hsame⟩ := hp.queued r' (List.mem_of_mem_head? hr')
      rw [List.mem_singleton.1 hr₁] at hid
      exact absurd (hsame.id.symm.trans hid.symm) (h.fresh r₀ hr₀)

/-- A rename adds the old handle to the names that are to be moved. -/
theorem inv_rename (hs : Inv s) (hvalid : validateHandle r.newHandle = true)
    (hfree : ∀ o ∈ s.others, lower o ≠ lower r.newHandle) : Inv s' := by
  refine ⟨?_, ?_, ?_, ?_, ?_, ?_, ?_⟩
  · rw [h.grants, h.others]
    exact hs.known
  · rw [h.names, h.others]
    intro n hn
    rcases List.mem_append.1 hn with hn | hn
    · exact hs.clear n hn
    · rw [List.mem_singleton.1 hn]
      exact ⟨lower_ne_wildcard hvalid, hfree⟩
  · rw [h.names, h.handle]
    intro hne n hn
    rcases List.mem_append.1 hn with hn | hn
    · exact hs.capitals (mt h.capitals hne) n hn
    · rw [List.mem_singleton.1 hn]
      exact hne
  · rw [h.renames, List.map_append]
    apply List.nodup_append.2
    refine ⟨hs.ids, by simp, fun i hi j hj => ?_⟩
    obtain ⟨r', hr', rfl⟩ := List.mem_map.1 hi
    simp only [List.map_cons, List.map_nil, List.mem_singleton] at hj
    rw [hj]
    exact h.fresh r' hr'
  · rw [h.pending, h.handle]
    exact Leads.append (h.old ▸ hs.leads)
  · rw [h.names, h.handle, h.grants, h.rels]
    exact hs.tracked.mono fun lowered id hid => ⟨hid.1.append _, hid.2.rename h.capitals⟩
  · rw [h.passes]
    intro p hp
    rcases List.mem_append.1 hp with hp | hp
    · exact PassOk.rename h (hs.passes p hp)
    · rw [List.mem_singleton.1 hp]
      apply passOk_idle
      intro r' hr'
      rw [List.mem_singleton.1 hr']
      exact ⟨r, by simp [h.renames], ⟨rfl, rfl, rfl⟩⟩

end

/-! ## Passes -/

theorem exists_pending_of_oldest {r : HandleRename} (h : Oldest s r) :
    ∃ r' ∈ s.pending, r'.id = r.id := by
  obtain ⟨r', hr', hid⟩ := Option.map_eq_some_iff.1 h
  exact ⟨r', List.mem_of_mem_head? hr', hid⟩

/-- A pass that has read the oldest rename has all of it to write. -/
theorem passOk_read {r : HandleRename} {rest : List HandleRename} (hs : Inv s)
    (hp : PassOk s ⟨r :: rest, none⟩)
    (hok : (Oldest s r ∧ Fits r.oldHandle r.newHandle s.rels) ∨
      (∀ r' ∈ s.pending, r'.id ≠ r.id) ∧ handleMoves r.oldHandle r.newHandle s.rels = []) :
    PassOk s ⟨r :: rest, some (moveWrites r.oldHandle r.newHandle s.rels)⟩ where
  queued := hp.queued
  writing := by
    intro cs hcs r₁ hr₁ hex
    rw [← Option.some.inj hcs]
    obtain rfl : r = r₁ := Option.some.inj hr₁
    obtain ⟨r', hr', hid⟩ := hex
    rcases hok with ⟨holdest, hfits⟩ | ⟨hmarked, -⟩
    · obtain ⟨hnames, -⟩ := hs.names_of_oldest (hp.queued r (.head _)) holdest
      have hold : r.oldHandle ∈ names s := hnames ▸ List.mem_cons_self
      refine ⟨holdest, fun c hc => ?_, covered_moveWrites hs.known hs.not_foreign hnames⟩
      exact chunkOk_moveWrites hs.known hs.not_foreign hold hs.tracked hfits hc
    · exact absurd hid (hmarked r' hr')

/-- One write of the oldest rename's move. -/
theorem inv_writeChunk {i : Nat} {r : HandleRename} {rest : List HandleRename}
    {c : List RelationshipUpdate} {cs : List (List RelationshipUpdate)}
    {rels' : List Relationship} (hs : Inv s) (hpass : ⟨r :: rest, some (c :: cs)⟩ ∈ s.passes)
    (holdest : Oldest s r) (hwrite : Tuples.write c s.rels = some rels') :
    Inv { s.setPass i ⟨r :: rest, some cs⟩ with rels := rels' } := by
  have hp := hs.passes _ hpass
  obtain ⟨hnames, hnew, -⟩ := hs.names_of_oldest (hp.queued r (.head _)) holdest
  obtain ⟨-, hchunks, hcovered⟩ := hp.writing _ rfl r rfl (exists_pending_of_oldest holdest)
  have hold : r.oldHandle ∈ names s := hnames ▸ List.mem_cons_self
  have hnew' : r.newHandle ∈ names s := List.mem_of_mem_tail hnew
  have hc := hchunks c (.head _)
  have hcov : ∀ {cs₁ cs₂ : List (List RelationshipUpdate)},
      Covered (names s) (names s).tail s.grants s.rels cs₁ →
      (∀ u ∈ cs₁.flatten, u ∈ c ∨ u ∈ cs₂.flatten) →
      Covered (names s) (names s).tail s.grants rels' cs₂ :=
    fun h hsub => h.write hs.known hs.not_foreign hnew' hc hwrite hnew hsub
  refine ⟨hs.known, hs.clear, hs.capitals, hs.ids, hs.leads, ?_, fun p hmem => ?_⟩
  · exact hs.tracked.write hs.known hs.not_foreign hnew' hc hwrite hold
      fun hne => hs.capitals hne _ hnew'
  · rcases List.mem_or_eq_of_mem_set hmem with hmem | rfl
    · obtain ⟨hqueued, hwriting⟩ := hs.passes p hmem
      refine ⟨hqueued, fun cs' hcs' r' hr' hex => ?_⟩
      obtain ⟨holdest', hchunks', hcovered'⟩ := hwriting cs' hcs' r' hr' hex
      exact ⟨holdest', hchunks', hcov hcovered' fun u hu => .inr hu⟩
    · refine ⟨hp.queued, ?_⟩
      rintro _ ⟨rfl⟩ _ ⟨rfl⟩ -
      refine ⟨holdest, fun c' hc' => hchunks c' (.tail _ hc'), hcov hcovered fun u hu => ?_⟩
      rw [List.flatten_cons] at hu
      exact List.mem_append.1 hu

/-! ## Marks -/

theorem filter_pending_mark (id : Uuid) (now : Timestamp) (renames : List HandleRename) :
    (markSpicedbMoved id now renames).filter (·.pending) =
      (renames.filter (·.pending)).filter (·.id ≠ id) := by
  induction renames with
  | nil => rfl
  | cons r rs ih =>
    simp only [markSpicedbMoved, List.map_cons] at ih ⊢
    by_cases hid : r.id = id
    · rw [if_pos hid, List.filter_cons_of_neg (by simp [HandleRename.pending]), ih]
      cases hp : r.pending <;> simp [hid, hp]
    · rw [if_neg hid]
      cases hp : r.pending <;> simp [hid, hp, ih]

theorem ids_mark (id : Uuid) (now : Timestamp) (renames : List HandleRename) :
    (markSpicedbMoved id now renames).map (·.id) = renames.map (·.id) := by
  rw [markSpicedbMoved, List.map_map]
  apply List.map_congr_left
  intro r _
  simp only [Function.comp_apply]
  split <;> rfl

/-- Without the oldest the others are left. -/
theorem filter_ne_oldest {r : HandleRename} (hs : Inv s) (h : Oldest s r) :
    s.pending.filter (·.id ≠ r.id) = s.pending.tail := by
  have hnodup : (s.pending.map (·.id)).Nodup := hs.ids.sublist (List.filter_sublist.map _)
  unfold Oldest at h
  cases hpending : s.pending with
  | nil => rfl
  | cons r₀ rest =>
    rw [hpending] at h hnodup
    have hid : r₀.id = r.id := by simpa using h
    simp only [List.map_cons, List.nodup_cons, List.mem_map, not_exists, not_and] at hnodup
    rw [List.filter_cons_of_neg (by simp [hid]), List.tail_cons]
    apply List.filter_eq_self.2
    intro r' hr'
    simpa [← hid] using hnodup.1 r' hr'

theorem Leads.tail {handle : String} : ∀ {rs : List HandleRename}, Leads rs handle →
    Leads rs.tail handle
  | [], h => h
  | _ :: _, h => h.2

/-- When all is written, the old handle is not needed any more. -/
theorem Tracked.of_covered {handle : String} {handles rest : List String} {grants : List Grant}
    {rels : List Relationship} (h : Tracked (Owed handle handles) grants rels)
    (hcovered : Covered handles rest grants rels []) (hhandle : handle ∈ rest) :
    Tracked (Owed handle rest) grants rels := by
  have key : ∀ g ∈ grants, ∀ id, Owed handle handles g.lowered id → g.fill id ∈ rels →
      ∃ id', Owed handle rest g.lowered id' ∧ g.fill id = g.fill id' := by
    intro g hg id hid hmem
    by_cases hown : g.Own
    · rcases hcovered g hg hown id hid.1 hmem with hnamed | hin
      · exact ⟨id, ⟨hnamed, hid.2⟩, rfl⟩
      · simp at hin
    · exact ⟨spell g.lowered handle, ⟨⟨handle, hhandle, isName_spell⟩, spelled_spell⟩,
        Grant.fill_of_not_own hown⟩
  constructor
  · intro g hg
    obtain ⟨id, hid, hmem⟩ := h.kept g hg
    obtain ⟨id', hid', heq⟩ := key g hg id hid hmem
    exact ⟨id', hid', heq ▸ hmem⟩
  · intro rel hrel
    obtain ⟨g, hg, id, hid, rfl⟩ := h.only rel hrel
    obtain ⟨id', hid', heq⟩ := key g hg id hid hrel
    exact ⟨g, hg, id', hid', heq⟩

section
variable {s' : State} {r : HandleRename}
  (hrenames : s'.renames = markSpicedbMoved r.id s.now s.renames)
include hrenames

theorem recorded_mark {r' : HandleRename} (h : Recorded s r') : Recorded s' r' := by
  obtain ⟨r₀, hr₀, hsame⟩ := h
  unfold Recorded
  rw [hrenames]
  refine ⟨_, List.mem_map_of_mem hr₀, ?_⟩
  split
  · exact ⟨hsame.id, hsame.old, hsame.new⟩
  · exact hsame

theorem pending_mark : s'.pending = s.pending.filter (·.id ≠ r.id) := by
  rw [State.pending, hrenames, filter_pending_mark]
  rfl

variable (hhandle : s'.handle = s.handle) (hothers : s'.others = s.others)
  (hgrants : s'.grants = s.grants)
include hhandle hothers hgrants

theorem inv_marked (hs : Inv s) (hnames : ∀ h ∈ names s', h ∈ names s)
    (hleads : Leads s'.pending s'.handle)
    (htracked : Tracked (Owed s'.handle (names s')) s'.grants s'.rels)
    (hpasses : ∀ p ∈ s'.passes, PassOk s' p) : Inv s' where
  known := by
    rw [hgrants, hothers]
    exact hs.known
  clear := by
    rw [hothers]
    exact fun h hh => hs.clear h (hnames h hh)
  capitals := by
    rw [hhandle]
    exact fun hne h hh => hs.capitals hne h (hnames h hh)
  ids := by
    rw [hrenames, ids_mark]
    exact hs.ids
  leads := hleads
  tracked := htracked
  passes := hpasses

variable (hrels : s'.rels = s.rels)
include hrels

/-- The oldest rename is marked after its writes. -/
theorem inv_mark_oldest (hs : Inv s) (holdest : Oldest s r) (hrecorded : Recorded s r)
    (hcovered : Covered (names s) (names s).tail s.grants s.rels [])
    (hpasses : ∀ p ∈ s'.passes, p ∈ s.passes ∨ PassOk s' p) : Inv s' := by
  have hpending : s'.pending = s.pending.tail :=
    (pending_mark hrenames).trans (filter_ne_oldest hs holdest)
  obtain ⟨-, -, hmem⟩ := hs.names_of_oldest hrecorded holdest
  have hnames : names s' = (names s).tail := by
    obtain ⟨r₀, hr₀, -⟩ := Option.map_eq_some_iff.1 holdest
    obtain ⟨rest, hrest⟩ := List.head?_eq_some_iff.1 hr₀
    simp [names, hpending, hhandle, hrest]
  apply inv_marked hrenames hhandle hothers hgrants hs
  · rw [hnames]
    exact fun h => List.mem_of_mem_tail
  · rw [hpending, hhandle]
    exact hs.leads.tail
  · rw [hnames, hhandle, hgrants, hrels]
    exact hs.tracked.of_covered hcovered hmem
  · intro p hp
    rcases hpasses p hp with hp | hp
    · refine ⟨fun r' hr' => recorded_mark hrenames ((hs.passes p hp).queued r' hr'), ?_⟩
      -- a pass that writes does so for the oldest, which is not pending any more
      intro cs hcs r' hr' hex
      obtain ⟨r₁, hr₁, hid₁⟩ := hex
      rw [pending_mark hrenames, List.mem_filter] at hr₁
      have hwriting := (hs.passes p hp).writing cs hcs r' hr' ⟨r₁, hr₁.1, hid₁⟩
      have hid : r'.id = r.id := Option.some.inj (hwriting.oldest.symm.trans holdest)
      simp [hid₁, hid] at hr₁
    · exact hp

/-- A rename that is marked already is marked again. -/
theorem inv_mark_again (hs : Inv s) (hmarked : ∀ r' ∈ s.pending, r'.id ≠ r.id)
    (hpasses : ∀ p ∈ s'.passes, p ∈ s.passes ∨ PassOk s' p) : Inv s' := by
  have hpending : s'.pending = s.pending := by
    rw [pending_mark hrenames]
    exact List.filter_eq_self.2 fun r' hr' => by simpa using hmarked r' hr'
  have hnames : names s' = names s := by simp [names, hpending, hhandle]
  apply inv_marked hrenames hhandle hothers hgrants hs
  · rw [hnames]
    exact fun h hh => hh
  · rw [hpending, hhandle]
    exact hs.leads
  · rw [hnames, hhandle, hgrants, hrels]
    exact hs.tracked
  · intro p hp
    rcases hpasses p hp with hp | hp
    · exact (hs.passes p hp).frame (fun _ => recorded_mark hrenames) hpending hhandle hgrants hrels
    · exact hp

end

theorem inv_mark {i : Nat} {r : HandleRename} {rest : List HandleRename} (hs : Inv s)
    (hpass : ⟨r :: rest, some []⟩ ∈ s.passes) :
    Inv { s.setPass i ⟨rest, none⟩ with renames := markSpicedbMoved r.id s.now s.renames } := by
  have hp := hs.passes _ hpass
  have hpasses : ∀ p ∈ s.passes.set i ⟨rest, none⟩, p ∈ s.passes ∨
      PassOk { s.setPass i ⟨rest, none⟩ with
        renames := markSpicedbMoved r.id s.now s.renames } p := by
    intro p hmem
    rcases List.mem_or_eq_of_mem_set hmem with hmem | rfl
    · exact .inl hmem
    · right
      apply passOk_idle
      intro r' hr'
      exact recorded_mark rfl (hp.queued r' (.tail _ hr'))
  by_cases hex : ∃ r' ∈ s.pending, r'.id = r.id
  · obtain ⟨holdest, -, hcovered⟩ := hp.writing [] rfl r rfl hex
    exact inv_mark_oldest rfl rfl rfl rfl rfl hs holdest (hp.queued r (.head _)) hcovered hpasses
  · have hmarked : ∀ r' ∈ s.pending, r'.id ≠ r.id := fun r' hr' hid => hex ⟨r', hr', hid⟩
    exact inv_mark_again rfl rfl rfl rfl rfl hs hmarked hpasses

/-! ## Runs -/

theorem inv_start {account : Account} {now : Timestamp}
    (h : validateHandle account.claimedHandle = true) : Inv (.start account now) where
  known := by simp [State.start]
  clear := by
    simpa [names, State.start, State.pending, State.handle] using lower_ne_wildcard h
  capitals := by simp [names, State.start, State.pending, State.handle]
  ids := by simp [State.start]
  leads := trivial
  tracked := ⟨by simp [State.start], by simp [State.start]⟩
  passes := by simp [State.start]

theorem inv_step {s' : State} {a : Action} (hs : Inv s) (hok : InOrder s a)
    (h : step s a = some s') : Inv s' := by
  cases a with
  | wait d =>
    obtain rfl := Option.some.inj h
    exact inv_passes hs hs.passes
  | signUp handle deleteFails ownerFails =>
    have hclaim : s.claimable handle = true := by
      cases hc : s.claimable handle with
      | true => rfl
      | false => simp [step, hc] at h
    exact inv_signUp hclaim hok hs h
  | takeOver handle =>
    simp only [step] at h
    split at h
    · cases h
    · rename_i hclaim
      obtain rfl := Option.some.inj h
      exact inv_takeOver hs (ne_names_of_claimable (by simpa using hclaim) hok)
  | write g =>
    simp only [step] at h
    split at h
    · cases h
    · rename_i hg
      obtain rfl := Option.some.inj h
      exact inv_write hs (not_not.1 hg)
  | rename id newHandle startedAt =>
    simp only [step] at h
    split at h
    · cases h
    · rename_i hguard
      simp only [List.any_eq_true, decide_eq_true_eq, not_or, not_exists, not_and] at hguard
      split at h
      · cases h
      · rename_i kind hkind
        obtain rfl := Option.some.inj h
        exact inv_rename (r := s.account.renameRecord id newHandle kind startedAt)
          ⟨rfl, rfl, rfl, rfl, rfl, rfl, rfl, rfl, hguard.2.1, hok⟩ hs (valid_of_evaluate hkind)
          hguard.2.2
  | reconcile room =>
    simp only [step] at h
    split at h
    · cases h
    · obtain rfl := Option.some.inj h
      exact inv_reconcile hs room
  | read i fails =>
    simp only [step] at h
    split at h
    · rename_i r rest hpass
      obtain rfl := Option.some.inj h
      have hp := hs.passes _ (List.mem_of_getElem? hpass)
      apply inv_setPass hs
      cases fails with
      | true => exact passOk_idle fun r' hr' => hp.queued r' (.tail _ hr')
      | false => exact passOk_read hs hp (hok _ hpass r rfl)
    · cases h
  | writeChunk i fails =>
    simp only [step] at h
    split at h
    · rename_i r rest c cs hpass
      have hmem := List.mem_of_getElem? hpass
      split at h
      · obtain rfl := Option.some.inj h
        apply inv_setPass hs
        exact passOk_idle fun r' hr' => (hs.passes _ hmem).queued r' (.tail _ hr')
      · rename_i rels' hwrite
        obtain rfl := Option.some.inj h
        cases fails with
        | true => cases hwrite
        | false => exact inv_writeChunk hs hmem (hok _ hpass r rfl) hwrite
    · cases h
  | mark i fails =>
    simp only [step] at h
    split at h
    · rename_i r rest hpass
      obtain rfl := Option.some.inj h
      cases fails with
      | true => exact inv_setPass hs (passOk_idle (by simp))
      | false => exact inv_mark hs (List.mem_of_getElem? hpass)
    · cases h
  | stop i =>
    simp only [step] at h
    split at h
    · obtain rfl := Option.some.inj h
      exact inv_setPass hs (passOk_idle (by simp))
    · cases h

/-- With nothing left to move, the relationships are under the account's handle. -/
theorem Inv.followed (hs : Inv s) (h : ∀ r ∈ s.renames, r.spicedbMovedAt.isSome) : Followed s := by
  have hpending : s.pending = [] := by
    apply List.filter_eq_nil_iff.2
    intro r hr
    have hmoved := h r hr
    simp [HandleRename.pending, Option.isSome_iff_ne_none.1 hmoved]
  have hids : ∀ {lowered id}, Owed s.handle (names s) lowered id → id = spell lowered s.handle := by
    rintro lowered id ⟨⟨n, hn, hname⟩, hspelled⟩
    simp only [names, hpending, List.map_nil, List.nil_append, List.mem_singleton] at hn
    exact eq_spell (hn ▸ hname) hspelled
  constructor
  · intro g hg
    obtain ⟨id, hid, hmem⟩ := hs.tracked.kept g hg
    rw [Grant.under, ← hids hid]
    exact hmem
  · intro rel hrel
    obtain ⟨g, hg, id, hid, rfl⟩ := hs.tracked.only rel hrel
    exact ⟨g, hg, by rw [Grant.under, ← hids hid]⟩

end

theorem followed_of_marked {account : Account} {now : Timestamp} {s : State}
    (hvalid : validateHandle account.claimedHandle = true)
    (h : Trans.Reach step InOrder (.start account now) s)
    (hmarked : ∀ r ∈ s.renames, r.spicedbMovedAt.isSome) : Followed s := by
  have hs := h.inv (inv_start hvalid) fun _ _ _ hs hok hstep => inv_step hs hok hstep
  exact hs.followed hmarked

/-! ## Concrete runs -/

def alpha : Account := ⟨"u1", "alpha", none, none, none, none, none, 0⟩

/-- The account shares its record with dave. -/
def shareWithDave : Grant := ⟨.record, .shareWithUser, .other (userRef "dave"), false⟩

/-- Alpha shares with dave, then becomes bravo; the move fails. Bravo becomes charlie after the
cooldown. -/
def alphaBravoCharlie (fails : List Action) : List Action :=
  [Action.signUp "dave" (fun _ => false) false, .write shareWithDave, .rename "r1" "bravo" 0] ++
    fails ++ [Action.wait (30 * 86400 * 1000000), .rename "r2" "charlie" renameCooldown]

/-- One move and its mark. -/
def moveAndMark (pass writes : Nat) : List Action :=
  Action.read pass false :: List.replicate writes (.writeChunk pass false) ++
    [Action.mark pass false]

/-- The reconciler takes up both renames, and alpha is claimed when it is free. -/
def inTurn : List Action :=
  alphaBravoCharlie [.read 0 false, .writeChunk 0 true] ++ [Action.stop 1, .reconcile 50] ++
    moveAndMark 2 1 ++ moveAndMark 2 1 ++
    [Action.wait (90 * 86400 * 1000000), .signUp "alpha" (fun _ => false) false]

/-- The second rename is moved at once, the first by the reconciler after it. -/
def outOfTurn : List Action :=
  alphaBravoCharlie [.read 0 true] ++ moveAndMark 1 0 ++ [Action.reconcile 50] ++ moveAndMark 2 1

theorem followed_of_marked_inTurn :
    ∃ s, Trans.Reach step InOrder (.start alpha 0) s ∧ s.renames.length = 2 ∧
      s.rels = [⟨statsRecord "dave", .owner, userRef "dave"⟩, shareTuple "charlie" "dave",
        ⟨statsRecord "alpha", .owner, userRef "alpha"⟩] ∧
      Followed s := by
  have hrun : (Trans.exec step InOrder (.start alpha 0) inTurn).map
      (fun s => (s.renames.length, s.renames.all (·.spicedbMovedAt.isSome), s.rels)) =
      some (2, true, [⟨statsRecord "dave", .owner, userRef "dave"⟩, shareTuple "charlie" "dave",
        ⟨statsRecord "alpha", .owner, userRef "alpha"⟩]) := by
    decide +kernel
  obtain ⟨s, hreach, hs⟩ := Trans.reach_of_map_exec _ hrun
  simp only [Prod.mk.injEq, List.all_eq_true] at hs
  obtain ⟨hlen, hmarked, hrels⟩ := hs
  exact ⟨s, hreach, hlen, hrels, followed_of_marked (by decide) hreach hmarked⟩

theorem replayed_move_strands_share :
    ¬ ∀ (account : Account) (now : Timestamp) (s : State),
      validateHandle account.claimedHandle = true →
      Trans.Reach step Trans.always (.start account now) s →
      (∀ r ∈ s.renames, r.spicedbMovedAt.isSome) → Followed s := by
  intro h
  have hrun : (Trans.exec step Trans.always (.start alpha 0) outOfTurn).map
      (fun s => (s.handle, s.renames.all (·.spicedbMovedAt.isSome), s.grants, s.rels)) =
      some ("charlie", true, [ownerGrant "dave", shareWithDave],
        [⟨statsRecord "dave", .owner, userRef "dave"⟩, shareTuple "bravo" "dave"]) := by
    decide +kernel
  obtain ⟨s, hreach, hs⟩ := Trans.reach_of_map_exec _ hrun
  simp only [Prod.mk.injEq, List.all_eq_true] at hs
  obtain ⟨hhandle, hmarked, hgrants, hrels⟩ := hs
  have hfollowed := h alpha 0 s (by decide) hreach hmarked
  have hkept := hfollowed.kept shareWithDave (by simp [hgrants])
  rw [hhandle, hrels] at hkept
  revert hkept
  decide

end StarStats.HandleMoves
