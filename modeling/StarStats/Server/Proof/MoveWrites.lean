import StarStats.Server.HandleMoves

/-!
# What a move reads and writes

A relationship tells the grant it was written for and the id in it (`Grant.fill_inj`), so that a
move rewrites the account's relationships and nobody else's (`handleMoves_spec`), and all of them
(`covered_moveWrites`). A DELETE is in one write with its TOUCH (`chunkOk_moveWrites`): a write
leaves each grant with its relationship (`Tracked.write`).
-/

namespace StarStats.HandleMoves

open Text (lower)

/-! ## Names -/

/-- The id is the handle, as written or lower-cased. -/
def IsName (handle id : String) : Prop := id = handle ∨ id = lower handle

def Named (handles : List String) (id : String) : Prop := ∃ h ∈ handles, IsName h id

/-- The id is lower-cased exactly when it was written so; under a handle without capitals that
says nothing. -/
def Spelled (handle : String) (lowered : Bool) (id : String) : Prop :=
  lower handle ≠ handle → (lowered = true ↔ lower id = id)

section
variable {handle new id : String} {lowered : Bool}

theorem IsName.lower_eq (h : IsName handle id) : lower id = lower handle := by
  obtain rfl | rfl := h
  · rfl
  · simp

theorem isName_spell : IsName handle (spell lowered handle) := by
  cases lowered
  · exact .inl rfl
  · exact .inr rfl

theorem isName_respell : IsName new (respell new id) := by
  unfold respell
  split
  · exact .inr rfl
  · exact .inl rfl

theorem spelled_spell : Spelled handle lowered (spell lowered handle) := by
  intro h
  cases lowered <;> simp [spell, h]

theorem Spelled.respell (h : Spelled handle lowered id)
    (hnew : lower handle ≠ handle → lower new ≠ new) :
    Spelled handle lowered (respell new id) := by
  intro hne
  rw [h hne, StarStats.respell]
  by_cases hid : lower id = id
  · simp [hid]
  · rw [if_neg (Ne.symm hid)]
    simp [hid, hnew hne]

theorem eq_spell (hn : IsName handle id) (h : Spelled handle lowered id) :
    id = spell lowered handle := by
  by_cases hl : lower handle = handle
  · have hspell : spell lowered handle = handle := by
      cases lowered <;> simp [spell, hl]
    obtain rfl | rfl := hn
    · exact hspell.symm
    · rw [hspell, hl]
  · have hiff := h hl
    obtain rfl | rfl := hn
    · have : lowered = false := by simpa [hl] using hiff
      simp [this, spell]
    · have : lowered = true := by simpa using hiff
      simp [this, spell]

theorem mem_moveIds : id ∈ moveIds handle ↔ IsName handle id := by
  unfold moveIds IsName
  split
  · simp
  · rename_i h
    simp only [ne_eq, not_not] at h
    simp [h]

end

theorem toLower_ne_asterisk {c : Char} (h : c ≠ '*') : c.toLower ≠ '*' := by
  by_cases hup : 65 ≤ c.toNat ∧ c.toNat ≤ 90
  case pos =>
    intro heq
    have hval := Text.toNat_toLower hup
    rw [heq, show '*'.toNat = 42 from rfl] at hval
    omega
  case neg => rwa [Text.toLower_of_not_upper hup]

/-- No handle is the wildcard. -/
theorem lower_ne_wildcard {handle : String} (h : validateHandle handle = true) :
    lower handle ≠ "*" := by
  intro he
  have hlist : handle.toList.map Char.toLower = ['*'] := by
    have := congrArg String.toList he
    simpa [lower] using this
  have hchars : handle.toList.all isHandleChar = true := by
    simp only [validateHandle, Bool.and_eq_true] at h
    exact h.2
  have hstar : '*' ∈ handle.toList.map Char.toLower := by simp [hlist]
  obtain ⟨c, hc, hstar⟩ := List.mem_map.1 hstar
  have hchar : isHandleChar c = true := List.all_eq_true.1 hchars c hc
  refine toLower_ne_asterisk ?_ hstar
  rintro rfl
  exact absurd hchar (by decide)

/-! ## Grants -/

/-- The account is in this place of the grant. -/
def Resource.Own (r : Resource) : Prop := r = .record ∨ r = .user

def Subject.Own (u : Subject) : Prop := u = .user

def Grant.Own (g : Grant) : Prop := g.resource.Own ∨ g.subject.Own

/-- Of handles, the references name the others' only. -/
def KnownRefs (others : List String) (refs : List ObjectRef) : Prop :=
  ∀ ref ∈ refs, ref.objectType.isHandle → Foreign others ref.objectId

section
variable {others : List String} {a b : String}

theorem KnownRefs.ne {refs : List ObjectRef} {ref : ObjectRef} {t : ObjectType}
    (h : KnownRefs others refs) (hmem : ref ∈ refs) (ht : t.isHandle) (ha : ¬ Foreign others a) :
    ref ≠ ⟨t, a⟩ := by
  rintro rfl
  exact ha (h _ hmem ht)

theorem Resource.fill_inj {r r' : Resource} (hr : KnownRefs others r.refs)
    (hr' : KnownRefs others r'.refs) (ha : ¬ Foreign others a) (hb : ¬ Foreign others b)
    (h : r.fill a = r'.fill b) : r = r' ∧ (r.Own → a = b) := by
  cases r with
  | record =>
    cases r' with
    | record => exact ⟨rfl, fun _ => congrArg ObjectRef.objectId h⟩
    | user => cases congrArg ObjectRef.objectType h
    | other ref => exact absurd h.symm (hr'.ne (.head _) rfl ha)
  | user =>
    cases r' with
    | record => cases congrArg ObjectRef.objectType h
    | user => exact ⟨rfl, fun _ => congrArg ObjectRef.objectId h⟩
    | other ref => exact absurd h.symm (hr'.ne (.head _) rfl ha)
  | other ref =>
    cases r' with
    | record => exact absurd h (hr.ne (.head _) rfl hb)
    | user => exact absurd h (hr.ne (.head _) rfl hb)
    | other ref' => exact ⟨congrArg _ h, fun ho => by simp [Resource.Own] at ho⟩

theorem Subject.fill_inj {u u' : Subject} (hu : KnownRefs others u.refs)
    (hu' : KnownRefs others u'.refs) (ha : ¬ Foreign others a) (hb : ¬ Foreign others b)
    (h : u.fill a = u'.fill b) : u = u' ∧ (u.Own → a = b) := by
  cases u with
  | user =>
    cases u' with
    | user => exact ⟨rfl, fun _ => congrArg ObjectRef.objectId h⟩
    | other ref => exact absurd h.symm (hu'.ne (.head _) rfl ha)
  | other ref =>
    cases u' with
    | user => exact absurd h (hu.ne (.head _) rfl hb)
    | other ref' => exact ⟨congrArg _ h, fun ho => by simp [Subject.Own] at ho⟩

theorem Grant.Known.resource {g : Grant} (h : g.Known others) : KnownRefs others g.resource.refs :=
  fun ref hmem => h ref (List.mem_append_left _ hmem)

theorem Grant.Known.subject {g : Grant} (h : g.Known others) : KnownRefs others g.subject.refs :=
  fun ref hmem => h ref (List.mem_append_right _ hmem)

/-- The grants differ in the spelling at most. -/
def Grant.Same (g g' : Grant) : Prop := g' = { g with lowered := g'.lowered }

theorem Grant.Same.fill {g g' : Grant} (h : g.Same g') (id : String) : g'.fill id = g.fill id := by
  rw [h]
  rfl

theorem Grant.Same.own {g g' : Grant} (h : g.Same g') (hown : g.Own) : g'.Own := by
  rw [h]
  exact hown

/-- A relationship tells its grant, up to the spelling, and the id in it. -/
theorem Grant.fill_inj {g g' : Grant} (hg : g.Known others) (hg' : g'.Known others)
    (ha : ¬ Foreign others a) (hb : ¬ Foreign others b) (h : g.fill a = g'.fill b) :
    g.Same g' ∧ (g.Own → a = b) := by
  have hres : g.resource.fill a = g'.resource.fill b := congrArg Tuples.Tuple.resource h
  have hrel : g.relation = g'.relation := congrArg Tuples.Tuple.relation h
  have hsub : g.subject.fill a = g'.subject.fill b := congrArg Tuples.Tuple.subject h
  obtain ⟨hr, hra⟩ := Resource.fill_inj hg.resource hg'.resource ha hb hres
  obtain ⟨hu, hua⟩ := Subject.fill_inj hg.subject hg'.subject ha hb hsub
  refine ⟨?_, fun hown => hown.elim hra hua⟩
  show g' = ⟨g.resource, g.relation, g.subject, g'.lowered⟩
  rw [hr, hrel, hu]

/-- Without the account in it, the relationship is always the same. -/
theorem Grant.fill_of_not_own {g : Grant} (h : ¬ g.Own) : g.fill a = g.fill b := by
  obtain ⟨r, rel, u, l⟩ := g
  simp only [Grant.Own, Resource.Own, Subject.Own, not_or] at h
  cases r with
  | record => exact absurd rfl h.1.1
  | user => exact absurd rfl h.1.2
  | other ref =>
    cases u with
    | user => exact absurd rfl h.2
    | other ref' => rfl

/-! ## Relationships -/

theorem Resource.names_iff {r : Resource} (hr : KnownRefs others r.refs)
    (ha : ¬ Foreign others a) :
    (r.fill b).objectType.isHandle = true ∧ (r.fill b).objectId = a ↔ r.Own ∧ b = a := by
  cases r with
  | record => simp [Resource.fill, Resource.Own, statsRecord, ObjectType.isHandle]
  | user => simp [Resource.fill, Resource.Own, userRef, ObjectType.isHandle]
  | other ref =>
    simp only [Resource.fill, Resource.Own, reduceCtorEq, or_self, false_and, iff_false, not_and]
    intro ht he
    exact ha (he ▸ hr ref (.head _) ht)

theorem Subject.names_iff {u : Subject} (hu : KnownRefs others u.refs) (ha : ¬ Foreign others a) :
    u.fill b = userRef a ↔ u.Own ∧ b = a := by
  cases u with
  | user => simp [Subject.fill, Subject.Own, userRef]
  | other ref =>
    simp only [Subject.fill, Subject.Own, reduceCtorEq, false_and, iff_false]
    exact hu.ne (.head _) rfl ha

theorem Resource.fill_of_own {r : Resource} (h : r.Own) (new : String) :
    ⟨(r.fill a).objectType, new⟩ = r.fill new := by
  obtain rfl | rfl := h <;> rfl

theorem Resource.fill_of_not_own {r : Resource} (h : ¬ r.Own) (new : String) :
    r.fill a = r.fill new := by
  cases r with
  | record => exact absurd (.inl rfl) h
  | user => exact absurd (.inr rfl) h
  | other ref => rfl

theorem Subject.fill_of_not_own {u : Subject} (h : ¬ u.Own) (new : String) :
    u.fill a = u.fill new := by
  cases u with
  | user => exact absurd rfl h
  | other ref => rfl

theorem renamedRelationship_eq_some {rel rel' : Relationship} {old new : String} :
    renamedRelationship rel old new = some rel' ↔
      ((rel.resource.objectType.isHandle = true ∧ rel.resource.objectId = old) ∨
        rel.subject = userRef old) ∧
      rel' =
        ⟨if rel.resource.objectType.isHandle = true ∧ rel.resource.objectId = old
          then ⟨rel.resource.objectType, new⟩ else rel.resource,
          rel.relation, if rel.subject = userRef old then userRef new else rel.subject⟩ := by
  simp only [renamedRelationship, Bool.or_eq_true, Bool.and_eq_true, decide_eq_true_eq,
    Option.ite_none_right_eq_some, Option.some.injEq]
  exact and_congr_right fun _ => eq_comm

/-- The account is renamed in every place of the grant. -/
theorem renamedRelationship_fill {g : Grant} {new : String} (hg : g.Known others)
    (ha : ¬ Foreign others a) {rel : Relationship} :
    renamedRelationship (g.fill b) a new = some rel ↔ (g.Own ∧ b = a) ∧ rel = g.fill new := by
  have hres : (g.fill b).resource.objectType.isHandle = true ∧ (g.fill b).resource.objectId = a ↔
      g.resource.Own ∧ b = a := Resource.names_iff hg.resource ha
  have hsub : (g.fill b).subject = userRef a ↔ g.subject.Own ∧ b = a :=
    Subject.names_iff hg.subject ha
  rw [renamedRelationship_eq_some]
  refine (and_congr_left' ((or_congr hres hsub).trans or_and_right.symm)).trans ?_
  refine and_congr_right fun h => ?_
  obtain ⟨-, rfl⟩ := h
  have hr : (if (g.fill b).resource.objectType.isHandle = true ∧ (g.fill b).resource.objectId = b
      then ⟨(g.fill b).resource.objectType, new⟩ else (g.fill b).resource) =
      g.resource.fill new := by
    split
    · rename_i h
      exact Resource.fill_of_own (hres.1 h).1 new
    · rename_i h
      exact Resource.fill_of_not_own (fun ho => h (hres.2 ⟨ho, rfl⟩)) new
  have hu : (if (g.fill b).subject = userRef b then userRef new else (g.fill b).subject) =
      g.subject.fill new := by
    split
    · rename_i h
      rw [show g.subject = .user from (hsub.1 h).1]
      rfl
    · rename_i h
      exact Subject.fill_of_not_own (fun ho => h (hsub.2 ⟨ho, rfl⟩)) new
  rw [hr, hu]
  rfl

/-- One of the filters reads each relationship with the account in it. -/
theorem exists_filter {g : Grant} (h : g.Own) :
    ∃ f ∈ handleFilters a, f.accepts (g.fill a) = true := by
  obtain (hr | hr) | hu := h
  · refine ⟨⟨.statsRecord, some a, none⟩, by simp [handleFilters], ?_⟩
    simp [RelationshipFilter.accepts, Grant.fill, hr, Resource.fill, statsRecord]
  · refine ⟨⟨.user, some a, none⟩, by simp [handleFilters], ?_⟩
    simp [RelationshipFilter.accepts, Grant.fill, hr, Resource.fill, userRef]
  · refine ⟨⟨(g.resource.fill a).objectType, none, some a⟩, ?_, ?_⟩
    · generalize (g.resource.fill a).objectType = t
      cases t <;> simp [handleFilters]
    · simp [RelationshipFilter.accepts, Grant.fill, show g.subject = .user from hu, Subject.fill]

end

/-! ## What a move reads -/

theorem names_of_accepts {handle : String} {f : RelationshipFilter} {rel : Relationship}
    (hf : f ∈ handleFilters handle) (h : f.accepts rel = true) :
    (rel.resource.objectType.isHandle = true ∧ rel.resource.objectId = handle) ∨
      rel.subject = userRef handle := by
  simp only [handleFilters, List.mem_cons, List.mem_map] at hf
  rcases hf with rfl | rfl | ⟨t, -, rfl⟩
  · obtain ⟨ht, hid⟩ : rel.resource.objectType = .statsRecord ∧ rel.resource.objectId = handle := by
      simpa [RelationshipFilter.accepts] using h
    exact .inl ⟨ht ▸ rfl, hid⟩
  · obtain ⟨ht, hid⟩ : rel.resource.objectType = .user ∧ rel.resource.objectId = handle := by
      simpa [RelationshipFilter.accepts] using h
    exact .inl ⟨ht ▸ rfl, hid⟩
  · obtain ⟨-, hsub⟩ : rel.resource.objectType = t ∧ rel.subject = userRef handle := by
      simpa [RelationshipFilter.accepts] using h
    exact .inr hsub

/-- Each grant has its relationship under an id that will do, and there are no others. -/
structure Tracked (ok : Bool → String → Prop) (grants : List Grant) (rels : List Relationship) :
    Prop where
  kept : ∀ g ∈ grants, ∃ id, ok g.lowered id ∧ g.fill id ∈ rels
  only : ∀ rel ∈ rels, ∃ g ∈ grants, ∃ id, ok g.lowered id ∧ rel = g.fill id

theorem Tracked.mono {ok ok' : Bool → String → Prop} {grants : List Grant}
    {rels : List Relationship} (h : Tracked ok grants rels)
    (hok : ∀ lowered id, ok lowered id → ok' lowered id) : Tracked ok' grants rels where
  kept g hg := by
    obtain ⟨id, hid, hmem⟩ := h.kept g hg
    exact ⟨id, hok _ _ hid, hmem⟩
  only rel hrel := by
    obtain ⟨g, hg, id, hid, heq⟩ := h.only rel hrel
    exact ⟨g, hg, id, hok _ _ hid, heq⟩

/-- The id of a relationship while the renames away from `handles` are not marked. -/
def Owed (handle : String) (handles : List String) (lowered : Bool) (id : String) : Prop :=
  Named handles id ∧ Spelled handle lowered id

theorem mem_handleMoves {old new : String} {rels : List Relationship}
    {p : Relationship × Relationship} :
    p ∈ handleMoves old new rels ↔
      ∃ id, IsName old id ∧ (∃ f ∈ handleFilters id, f.accepts p.1 = true) ∧
        p.1 ∈ rels ∧ renamedRelationship p.1 id (respell new id) = some p.2 := by
  obtain ⟨rel, rel'⟩ := p
  simp only [handleMoves, List.mem_flatMap, mem_moveIds, List.mem_filterMap, List.mem_filter,
    Option.map_eq_some_iff, Prod.mk.injEq]
  constructor
  · rintro ⟨id, hid, f, hf, _, ⟨hmem, hacc⟩, _, hren, rfl, rfl⟩
    exact ⟨id, hid, ⟨f, hf, hacc⟩, hmem, hren⟩
  · rintro ⟨id, hid, ⟨f, hf, hacc⟩, hmem, hren⟩
    exact ⟨id, hid, f, hf, rel, ⟨hmem, hacc⟩, rel', hren, rfl, rfl⟩

section
variable {others : List String} {old new handle : String} {handles : List String}
  {grants : List Grant} {rels : List Relationship}
  (hknown : ∀ g ∈ grants, g.Known others) (hclear : ∀ id, Named handles id → ¬ Foreign others id)
  (hold : old ∈ handles)
include hknown hclear hold

theorem fill_mem_handleMoves {g : Grant} {id : String} (hg : g ∈ grants) (hown : g.Own)
    (hid : IsName old id) (hmem : g.fill id ∈ rels) :
    (g.fill id, g.fill (respell new id)) ∈ handleMoves old new rels := by
  have hforeign : ¬ Foreign others id := hclear id ⟨old, hold, hid⟩
  have hren : renamedRelationship (g.fill id) id (respell new id) =
      some (g.fill (respell new id)) :=
    (renamedRelationship_fill (hknown g hg) hforeign).2 ⟨⟨hown, rfl⟩, rfl⟩
  exact mem_handleMoves.2 ⟨id, hid, exists_filter hown, hmem, hren⟩

variable (htracked : Tracked (Owed handle handles) grants rels)
include htracked

theorem handleMoves_spec {p : Relationship × Relationship} (hp : p ∈ handleMoves old new rels) :
    ∃ g ∈ grants, g.Own ∧ ∃ id, IsName old id ∧ Spelled handle g.lowered id ∧
      p = (g.fill id, g.fill (respell new id)) := by
  obtain ⟨rel, rel'⟩ := p
  obtain ⟨id, hid, -, hmem, hren⟩ := mem_handleMoves.1 hp
  obtain ⟨g, hg, id', ⟨-, hspelled⟩, rfl⟩ := htracked.only rel hmem
  have hforeign : ¬ Foreign others id := hclear id ⟨old, hold, hid⟩
  obtain ⟨⟨hown, rfl⟩, rfl⟩ := (renamedRelationship_fill (hknown g hg) hforeign).1 hren
  exact ⟨g, hg, hown, id', hid, hspelled, rfl⟩

/-- What a relationship becomes does not depend on the read that found it. -/
theorem handleMoves_fst_inj {p q : Relationship × Relationship}
    (hp : p ∈ handleMoves old new rels) (hq : q ∈ handleMoves old new rels) (h : p.1 = q.1) :
    p = q := by
  obtain ⟨g, hg, hown, id, hid, -, rfl⟩ := handleMoves_spec hknown hclear hold htracked hp
  obtain ⟨g', hg', -, id', hid', -, rfl⟩ := handleMoves_spec hknown hclear hold htracked hq
  obtain ⟨hsame, heq⟩ := Grant.fill_inj (hknown g hg) (hknown g' hg') (hclear id ⟨old, hold, hid⟩)
    (hclear id' ⟨old, hold, hid'⟩) h
  obtain rfl := heq hown
  rw [hsame.fill, hsame.fill]

end

/-! ## What a move writes -/

section
variable {old new : String} {rels : List Relationship} {x : Relationship}

theorem delete_mem_layout {moves : List (Relationship × Relationship)} :
    .delete x ∈ Pairs.layout (moves.map moveUpdate) ↔ ∃ p ∈ moves, p.1 = x := by
  simp [Pairs.mem_layout, moveUpdate, eq_comm]

theorem touch_mem_layout {moves : List (Relationship × Relationship)} :
    .touch x ∈ Pairs.layout (moves.map moveUpdate) ↔ ∃ p ∈ moves, p.2 = x := by
  simp [Pairs.mem_layout, moveUpdate, eq_comm]

theorem delete_mem_moveUpdates :
    .delete x ∈ moveUpdates old new rels ↔ ∃ p ∈ handleMoves old new rels, p.1 = x := by
  rw [moveUpdates, List.mem_eraseDups, delete_mem_layout]

theorem touch_mem_moveUpdates :
    .touch x ∈ moveUpdates old new rels ↔ ∃ p ∈ handleMoves old new rels, p.2 = x := by
  rw [moveUpdates, List.mem_eraseDups, touch_mem_layout]

theorem flatten_moveWrites : (moveWrites old new rels).flatten = moveUpdates old new rels :=
  Pairs.flatten_chunks (by decide) _

/-- Each DELETE of a write is of the account's old handle and has its TOUCH in the write. -/
structure ChunkOk (handle old new : String) (grants : List Grant) (c : List RelationshipUpdate) :
    Prop where
  delete : ∀ x, .delete x ∈ c → ∃ g ∈ grants, g.Own ∧ ∃ id, IsName old id ∧ x = g.fill id ∧
    .touch (g.fill (respell new id)) ∈ c
  touch : ∀ x, .touch x ∈ c → ∃ g ∈ grants, g.Own ∧ ∃ id, Spelled handle g.lowered id ∧
    x = g.fill (respell new id)

theorem ChunkOk.mono {handle handle' : String} {grants grants' : List Grant}
    {c : List RelationshipUpdate} (h : ChunkOk handle old new grants c)
    (hgrants : ∀ g ∈ grants, g ∈ grants')
    (hspelled : ∀ lowered id, Spelled handle lowered id → Spelled handle' lowered id) :
    ChunkOk handle' old new grants' c where
  delete x hx := by
    obtain ⟨g, hg, hrest⟩ := h.delete x hx
    exact ⟨g, hgrants g hg, hrest⟩
  touch x hx := by
    obtain ⟨g, hg, hown, id, hid, heq⟩ := h.touch x hx
    exact ⟨g, hgrants g hg, hown, id, hspelled _ _ hid, heq⟩

/-- What is under the old handle, and under no other of `handles`, is in the writes to come. -/
def Covered (handles rest : List String) (grants : List Grant) (rels : List Relationship)
    (cs : List (List RelationshipUpdate)) : Prop :=
  ∀ g ∈ grants, g.Own → ∀ id, Named handles id → g.fill id ∈ rels →
    Named rest id ∨ .delete (g.fill id) ∈ cs.flatten

variable {others : List String} {handle : String} {handles rest : List String}
  {grants : List Grant}
  (hknown : ∀ g ∈ grants, g.Known others) (hclear : ∀ id, Named handles id → ¬ Foreign others id)
include hknown hclear

theorem covered_moveWrites (hhandles : handles = old :: rest) :
    Covered handles rest grants rels (moveWrites old new rels) := by
  intro g hg hown id hid hmem
  obtain ⟨h, hh, hname⟩ := hid
  rw [hhandles] at hh
  rcases List.mem_cons.1 hh with rfl | hh
  · right
    have hold : h ∈ handles := hhandles ▸ List.mem_cons_self
    rw [flatten_moveWrites, delete_mem_moveUpdates]
    exact ⟨_, fill_mem_handleMoves hknown hclear hold hg hown hname hmem, rfl⟩
  · exact .inl ⟨h, hh, hname⟩

variable (hold : old ∈ handles) (htracked : Tracked (Owed handle handles) grants rels)
include hold htracked

/-- No write has the DELETE of a move and not its TOUCH. -/
theorem touch_mem_moveWrites (hfits : Fits old new rels) {c : List RelationshipUpdate}
    (hc : c ∈ moveWrites old new rels) {p : Relationship × Relationship}
    (hp : p ∈ handleMoves old new rels) (hdel : .delete p.1 ∈ c) : .touch p.2 ∈ c := by
  rcases hfits with hone | hdistinct
  · rw [Pairs.eq_of_mem_chunks hone hc]
    exact touch_mem_moveUpdates.2 ⟨p, hp, rfl⟩
  · have hinj : ∀ {p q}, p ∈ handleMoves old new rels → q ∈ handleMoves old new rels →
        p.1 = q.1 → p = q := fun hp hq => handleMoves_fst_inj hknown hclear hold htracked hp hq
    have hapart : Pairs.Apart ((handleMoves old new rels).map moveUpdate) := by
      constructor
      · intro _ hp' _ hq' heq
        obtain ⟨p, hp, rfl⟩ := List.mem_map.1 hp'
        obtain ⟨q, hq, rfl⟩ := List.mem_map.1 hq'
        rw [hinj hp hq (Tuples.Update.delete.inj heq)]
      · intro _ hp' _ hq' heq
        obtain ⟨p, hp, rfl⟩ := List.mem_map.1 hp'
        obtain ⟨q, hq, rfl⟩ := List.mem_map.1 hq'
        rw [hinj hp hq (hdistinct p hp q hq (Tuples.Update.touch.inj heq))]
      · intro _ hp' _ hq' heq
        obtain ⟨p, -, rfl⟩ := List.mem_map.1 hp'
        obtain ⟨q, -, rfl⟩ := List.mem_map.1 hq'
        cases heq
    have hmem : moveUpdate p ∈ (handleMoves old new rels).map moveUpdate := List.mem_map_of_mem hp
    exact Pairs.snd_mem_of_fst_mem (m := 250) (by decide) hapart hc hmem hdel

theorem chunkOk_moveWrites (hfits : Fits old new rels) {c : List RelationshipUpdate}
    (hc : c ∈ moveWrites old new rels) : ChunkOk handle old new grants c := by
  have hsub : ∀ u ∈ c, u ∈ moveUpdates old new rels := by
    intro u hu
    rw [← flatten_moveWrites]
    exact List.mem_flatten.2 ⟨c, hc, hu⟩
  constructor
  · intro x hx
    obtain ⟨p, hp, rfl⟩ := delete_mem_moveUpdates.1 (hsub _ hx)
    have htouch := touch_mem_moveWrites hknown hclear hold htracked hfits hc hp hx
    obtain ⟨g, hg, hown, id, hid, -, rfl⟩ := handleMoves_spec hknown hclear hold htracked hp
    exact ⟨g, hg, hown, id, hid, rfl, htouch⟩
  · intro x hx
    obtain ⟨p, hp, rfl⟩ := touch_mem_moveUpdates.1 (hsub _ hx)
    obtain ⟨g, hg, hown, id, -, hspelled, rfl⟩ := handleMoves_spec hknown hclear hold htracked hp
    exact ⟨g, hg, hown, id, hspelled, rfl⟩

end

section
variable {others : List String} {old new handle : String} {handles rest : List String}
  {grants : List Grant} {rels rels' : List Relationship} {c : List RelationshipUpdate}
  {cs cs' : List (List RelationshipUpdate)}
  (hknown : ∀ g ∈ grants, g.Known others) (hclear : ∀ id, Named handles id → ¬ Foreign others id)
  (hnew : new ∈ handles) (hc : ChunkOk handle old new grants c)
  (hwrite : Tuples.write c rels = some rels')
include hknown hclear hnew hc hwrite

/-- A write moves relationships from one id that will do to another. -/
theorem Tracked.write (hold : old ∈ handles) (hcapitals : lower handle ≠ handle → lower new ≠ new)
    (h : Tracked (Owed handle handles) grants rels) :
    Tracked (Owed handle handles) grants rels' where
  kept g hg := by
    obtain ⟨id, ⟨hid, hspelled⟩, hmem⟩ := h.kept g hg
    by_cases hdel : .delete (g.fill id) ∈ c
    · obtain ⟨g', hg', hown, id', hid', heq, htouch⟩ := hc.delete _ hdel
      obtain ⟨hsame, hids⟩ := Grant.fill_inj (hknown g' hg') (hknown g hg)
        (hclear id' ⟨old, hold, hid'⟩) (hclear id hid) heq.symm
      rw [hids hown, ← hsame.fill] at htouch
      exact ⟨respell new id, ⟨⟨new, hnew, isName_respell⟩, hspelled.respell hcapitals⟩,
        (Tuples.mem_write hwrite).2 (.inl htouch)⟩
    · exact ⟨id, ⟨hid, hspelled⟩, (Tuples.mem_write hwrite).2 (.inr ⟨hmem, hdel⟩)⟩
  only rel hrel := by
    rcases (Tuples.mem_write hwrite).1 hrel with htouch | ⟨hmem, -⟩
    · obtain ⟨g, hg, -, id, hspelled, rfl⟩ := hc.touch _ htouch
      exact ⟨g, hg, respell new id, ⟨⟨new, hnew, isName_respell⟩, hspelled.respell hcapitals⟩, rfl⟩
    · exact h.only rel hmem

/-- A write leaves what a pass has still to write: its own, or that of another pass. -/
theorem Covered.write (hrest : new ∈ rest) (h : Covered handles rest grants rels cs)
    (hcs : ∀ u ∈ cs.flatten, u ∈ c ∨ u ∈ cs'.flatten) : Covered handles rest grants rels' cs' := by
  intro g hg hown id hid hmem
  rcases (Tuples.mem_write hwrite).1 hmem with htouch | ⟨hmem, hdel⟩
  · obtain ⟨g', hg', -, id', -, heq⟩ := hc.touch _ htouch
    have hforeign : ¬ Foreign others (respell new id') := hclear _ ⟨new, hnew, isName_respell⟩
    obtain ⟨-, hids⟩ := Grant.fill_inj (hknown g hg) (hknown g' hg') (hclear id hid) hforeign heq
    exact .inl ⟨new, hrest, hids hown ▸ isName_respell⟩
  · rcases h g hg hown id hid hmem with hnamed | hin
    · exact .inl hnamed
    · exact .inr ((hcs _ hin).resolve_left hdel)

end

end StarStats.HandleMoves
