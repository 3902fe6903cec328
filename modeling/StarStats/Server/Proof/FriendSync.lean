import Mathlib.Data.Sym.Sym2
import StarStats.Server.FriendSync
import StarStats.Server.Proof.Social

/-!
# What the reconciler writes

A pair that a `remove_friend` has ended has no row (`Inv.gone`), so a pass that reads `friendships`
after that does not write it. `noneBack_of_in_time`: its tuples stay away in every run in which no
pass past its second read was still to write the pair when `remove_friend` deleted them.
`reconciler_undoes_unfriend` is the window that is left. A pass on its own brings the tuples in step
and leaves nothing to the next (`reconcileOnce_converges`).
-/

namespace StarStats

open Text (lower)

namespace FriendSync

variable {users : List String} {friendships : List Friendship} {rels : List Relationship}

/-! ## Pairs -/

/-- A row as `key` compares it. -/
def rowKey (f : Friendship) : Pair := (lower f.handleA, lower f.handleB)

theorem key_swap (x y : String) : key (x, y) = key (y, x) := by
  unfold key orderedPair
  rcases lt_trichotomy (lower x) (lower y) with h | h | h
  · simp [h.le, h.not_ge]
  · simp [h]
  · simp [h.le, h.not_ge]

theorem between_iff_rowKey {f : Friendship} {x y : String} :
    f.between x y = true ↔ rowKey f = key (x, y) := by
  simp [Friendship.between, rowKey, key]

theorem rowKey_ofPair (x y : String) (now : Timestamp) :
    rowKey (Friendship.ofPair x y now) = key (x, y) := by
  rw [rowKey, key, Friendship.ofPair]

/-- A row is listed under its own handles. -/
theorem rowKey_of_listed {p : Pair} (h : p ∈ listAllFriendships users friendships) :
    ∃ f ∈ friendships, rowKey f = key p := by
  simp only [listAllFriendships, List.mem_flatMap, List.mem_map, List.mem_filter, beq_iff_eq] at h
  obtain ⟨f, hf, ua, ⟨-, hua⟩, ub, ⟨-, hub⟩, rfl⟩ := h
  refine ⟨f, hf, ?_⟩
  have hle : lower ua ≤ lower ub := by
    rw [hua, hub]
    exact f.ordered
  rw [key, orderedPair, if_pos hle, rowKey, hua, hub]

theorem rowKey_of_fresh {p : Pair} (h : p ∈ bothWays (listAllFriendships users friendships)) :
    ∃ f ∈ friendships, rowKey f = key p := by
  simp only [bothWays, List.mem_flatMap, List.mem_cons, List.not_mem_nil, or_false] at h
  obtain ⟨q, hq, rfl | rfl⟩ := h
  · exact rowKey_of_listed hq
  · rw [key_swap]
    exact rowKey_of_listed hq

theorem toWrite_swap (c : Call) (p : Pair) : c.toWrite (p.2, p.1) = c.toWrite p := by
  cases c with
  | pass phase =>
    cases phase with
    | acting d fresh written deleted =>
      simp only [Call.toWrite]
      rw [Bool.or_comm]
    | _ => rfl
  | _ => rfl

/-! ## A store call of a pass -/

/-- What a pass can write, and what it comes to write. -/
structure PassSpec (friendships : List Friendship) (phase : PassPhase) (rels : List Relationship)
    (phase' : PassPhase) (rels' : List Relationship) : Prop where
  writes : ∀ x y, friendTuple x y ∈ rels' →
    friendTuple x y ∈ rels ∨ (Call.pass phase).toWrite (x, y) = true
  left : ∀ p, (Call.pass phase').toWrite p = true →
    (Call.pass phase).toWrite p = true ∨ ∃ f ∈ friendships, rowKey f = key p

theorem passSpec_quiet {phase phase' : PassPhase}
    (h : ∀ p, (Call.pass phase').toWrite p = true → (Call.pass phase).toWrite p = true) :
    PassSpec friendships phase rels phase' rels :=
  ⟨fun _ _ hmem => .inl hmem, fun p hp => .inl (h p hp)⟩

/-- What is left to write after the first pair. -/
theorem toWrite_rest {q : Pair} {toWrite toDelete fresh : List Pair} {n m n' m' : Nat} (p : Pair)
    (h : (Call.pass (.acting ⟨toWrite, toDelete⟩ fresh n m)).toWrite p = true) :
    (Call.pass (.acting ⟨q :: toWrite, toDelete⟩ fresh n' m')).toWrite p = true := by
  simp only [Call.toWrite, Bool.or_eq_true, Bool.and_eq_true, decide_eq_true_eq] at h ⊢
  rcases h with ⟨h, hfresh⟩ | ⟨h, hfresh⟩
  · exact .inl ⟨.tail _ h, hfresh⟩
  · exact .inr ⟨.tail _ h, hfresh⟩

theorem passSpec_write {q : Pair} {toWrite toDelete fresh : List Pair} {n m : Nat}
    {rels' : List Relationship} (hq : q ∈ fresh) (h : writeFriendship q.1 q.2 rels = some rels') :
    PassSpec friendships (.acting ⟨q :: toWrite, toDelete⟩ fresh n m) rels
      (.acting ⟨toWrite, toDelete⟩ fresh (n + 1) m) rels' where
  writes x y hmem := by
    have hwrite : (Call.pass (.acting ⟨q :: toWrite, toDelete⟩ fresh n m)).toWrite q = true := by
      simp [Call.toWrite, hq]
    rcases (mem_writeFriendship h).1 hmem with hmem | ⟨rfl, rfl⟩ | ⟨rfl, rfl⟩
    · exact .inl hmem
    · exact .inr hwrite
    · exact .inr ((toWrite_swap _ q).trans hwrite)
  left p hp := .inl (toWrite_rest p hp)

theorem passSpec_delete {q : Pair} {toDelete fresh : List Pair} {n m : Nat}
    {rels' : List Relationship} (h : deleteFriendship q.1 q.2 rels = some rels') :
    PassSpec friendships (.acting ⟨[], q :: toDelete⟩ fresh n m) rels
      (.acting ⟨[], toDelete⟩ fresh n (m + 1)) rels' where
  writes x y hmem := .inl ((mem_deleteFriendship h).1 hmem).1
  left p hp := by simp [Call.toWrite] at hp

theorem passStep_spec (users : List String) (ok : Bool) (phase : PassPhase)
    (rels : List Relationship) :
    PassSpec friendships phase rels (passStep users ok friendships phase rels).1
      (passStep users ok friendships phase rels).2 := by
  have hend (phase : PassPhase) (result : Option (Nat × Nat)) :
      PassSpec friendships phase rels (.done result) rels :=
    passSpec_quiet fun p hp => by cases hp
  cases phase with
  | listTuples =>
    simp only [passStep]
    split
    · exact passSpec_quiet fun p hp => by cases hp
    · exact hend _ _
  | listFriendships tuples =>
    simp only [passStep]
    split
    · split
      · exact hend _ _
      · exact passSpec_quiet fun p hp => by cases hp
    · exact hend _ _
  | reread d =>
    simp only [passStep]
    split
    · refine ⟨fun _ _ hmem => .inl hmem, fun p hp => .inr ?_⟩
      simp only [Call.toWrite, Bool.or_eq_true, Bool.and_eq_true, decide_eq_true_eq] at hp
      rcases hp with ⟨-, hfresh⟩ | ⟨-, hfresh⟩
      · exact rowKey_of_fresh hfresh
      · rw [key_swap]
        exact rowKey_of_fresh hfresh
    · exact hend _ _
  | acting d fresh written deleted =>
    obtain ⟨toWrite, toDelete⟩ := d
    cases toWrite with
    | cons q toWrite =>
      simp only [passStep]
      split
      · rename_i hq
        split
        · rename_i rels' hwrite
          split at hwrite
          · exact passSpec_write hq hwrite
          · cases hwrite
        · exact hend _ _
      · exact passSpec_quiet toWrite_rest
    | nil =>
      cases toDelete with
      | cons q toDelete =>
        simp only [passStep]
        split
        · split
          · rename_i rels' hdelete
            split at hdelete
            · exact passSpec_delete hdelete
            · cases hdelete
          · exact hend _ _
        · exact passSpec_quiet fun p hp => by simp [Call.toWrite] at hp
      | nil => exact hend _ _
  | done result => exact hend _ _

/-! ## The invariant -/

structure Inv (s : State) : Prop where
  /-- A pair that was removed has no row. -/
  gone : ∀ f ∈ s.friendships, rowKey f ∉ s.removed
  known : ∀ p ∈ s.ended, key p ∈ s.removed
  none : NoneBack s
  /-- No pass is to write a pair that was ended. -/
  passes : ∀ p ∈ s.ended, ∀ c ∈ s.calls, c.toWrite p = false

theorem Inv.setCall {s : State} (hs : Inv s) (i : Nat) {c : Call}
    (hc : ∀ p ∈ s.ended, c.toWrite p = false) : Inv (s.setCall i c) where
  gone := hs.gone
  known := hs.known
  none := hs.none
  passes p hp d hd := by
    rcases List.mem_or_eq_of_mem_set hd with hd | rfl
    · exact hs.passes p hp d hd
    · exact hc p hp

theorem Inv.push {s : State} (hs : Inv s) {c : Call} (hc : ∀ p, c.toWrite p = false) :
    Inv { s with calls := s.calls ++ [c] } where
  gone := hs.gone
  known := hs.known
  none := hs.none
  passes p hp d hd := by
    rcases List.mem_append.1 hd with hd | hd
    · exact hs.passes p hp d hd
    · rw [List.mem_singleton.1 hd]
      exact hc p

theorem Inv.accepted {s : State} (hs : Inv s) (p : Pair) : Inv (s.accepted p) where
  gone f hf hmem := hs.gone f hf (List.mem_filter.1 hmem).1
  known q hq := by
    obtain ⟨hq, hne⟩ := List.mem_filter.1 hq
    exact List.mem_filter.2 ⟨hs.known q hq, hne⟩
  none q hq := hs.none q (List.mem_filter.1 hq).1
  passes q hq := hs.passes q (List.mem_filter.1 hq).1

theorem inv_pass {s : State} {i : Nat} {phase : PassPhase} (hs : Inv s)
    (hi : s.calls[i]? = some (.pass phase)) (ok : Bool) :
    Inv { s.setCall i (.pass (passStep users ok s.friendships phase s.rels).1) with
      rels := (passStep users ok s.friendships phase s.rels).2 } := by
  obtain ⟨hwrites, hleft⟩ : PassSpec s.friendships phase s.rels _ _ :=
    passStep_spec users ok phase s.rels
  have hquiet : ∀ p ∈ s.ended, (Call.pass phase).toWrite p = false :=
    fun p hp => hs.passes p hp _ (List.mem_of_getElem? hi)
  have hset : Inv (s.setCall i (.pass (passStep users ok s.friendships phase s.rels).1)) := by
    apply hs.setCall
    intro p hp
    by_contra hwrite
    rcases hleft p (by simpa using hwrite) with hold | ⟨f, hf, hkey⟩
    · rw [hquiet p hp] at hold
      cases hold
    · exact hs.gone f hf (hkey ▸ hs.known p hp)
  refine ⟨hset.gone, hset.known, fun p hp => ⟨fun hmem => ?_, fun hmem => ?_⟩, hset.passes⟩
  · rcases hwrites _ _ hmem with hmem | hwrite
    · exact (hs.none p hp).1 hmem
    · rw [hquiet p hp] at hwrite
      cases hwrite
  · rcases hwrites _ _ hmem with hmem | hwrite
    · exact (hs.none p hp).2 hmem
    · rw [toWrite_swap, hquiet p hp] at hwrite
      cases hwrite

theorem gone_removeFriendship {s : State} (hs : Inv s) (me handle : String) :
    ∀ f ∈ removeFriendship me handle s.friendships,
      rowKey f ∉ key (me, handle) :: s.removed := by
  intro f hf hmem
  obtain ⟨hf, hother⟩ := List.mem_filter.1 hf
  rcases List.mem_cons.1 hmem with hkey | hmem
  · rw [between_iff_rowKey.2 hkey] at hother
    cases hother
  · exact hs.gone f hf hmem

theorem inv_remove {s : State} {i : Nat} {me handle : String} {phase : RemovePhase} (hs : Inv s)
    (ok : Bool) (hintime : ok = true → ∀ theirs, phase = .deleteTuples theirs →
      ∀ c ∈ s.calls, c.toWrite (me, theirs) = false) :
    Inv (removeStep users ok i me handle s phase) := by
  have hset (phase : RemovePhase) : Inv (s.setCall i (.remove me handle phase)) :=
    hs.setCall i fun _ _ => rfl
  cases phase with
  | removeFriendship =>
    simp only [removeStep]
    split
    · exact hset _
    · split
      · refine ⟨gone_removeFriendship hs me handle, fun p hp => ?_, hs.none, (hset _).passes⟩
        exact .tail _ (hs.known p hp)
      · exact hset _
  | findByHandle => exact hset _
  | deleteTuples theirs =>
    simp only [removeStep]
    split
    · rename_i rels hdelete
      split at hdelete
      · rename_i hok
        have hnone : ∀ p ∈ s.ended, friendTuple p.1 p.2 ∉ rels ∧ friendTuple p.2 p.1 ∉ rels := by
          intro p hp
          obtain ⟨h₁, h₂⟩ := hs.none p hp
          exact ⟨fun hmem => h₁ ((mem_deleteFriendship hdelete).1 hmem).1,
            fun hmem => h₂ ((mem_deleteFriendship hdelete).1 hmem).1⟩
        have hcalls := (hset (.done (.ok ()))).passes
        split
        · rename_i hremoved
          refine ⟨hs.gone, ?_, ?_, ?_⟩
          · intro p hp
            rcases List.mem_cons.1 hp with rfl | hp
            · exact hremoved
            · exact hs.known p hp
          · intro p hp
            rcases List.mem_cons.1 hp with rfl | hp
            · simp [mem_deleteFriendship hdelete]
            · exact hnone p hp
          · intro p hp c hc
            rcases List.mem_cons.1 hp with rfl | hp
            · rcases List.mem_or_eq_of_mem_set hc with hc | rfl
              · exact hintime hok theirs rfl c hc
              · rfl
            · exact hcalls p hp c hc
        · exact ⟨hs.gone, hs.known, hnone, hcalls⟩
      · cases hdelete
    · exact hset _
  | done answer => exact hset _

theorem inv_accept {s : State} {i : Nat} {x y : String} {now : Timestamp} (hs : Inv s) (ok : Bool)
    (phase : AcceptPhase) : Inv (acceptStep ok now i x y s phase) := by
  have hset (phase : AcceptPhase) : Inv (s.setCall i (.accept x y phase)) :=
    hs.setCall i fun _ _ => rfl
  have haccepted (phase : AcceptPhase) :
      Inv ((s.accepted (x, y)).setCall i (.accept x y phase)) :=
    (hs.accepted (x, y)).setCall i fun _ _ => rfl
  cases phase with
  | addFriendship =>
    simp only [acceptStep]
    split
    · refine ⟨fun f hf hmem => ?_, (haccepted .writeTuples).known, (haccepted .writeTuples).none,
        (haccepted .writeTuples).passes⟩
      obtain ⟨hmem, hne⟩ := List.mem_filter.1 hmem
      simp only [addFriendship] at hf
      split at hf
      · exact hs.gone f hf hmem
      · rcases List.mem_append.1 hf with hf | hf
        · exact hs.gone f hf hmem
        · rw [List.mem_singleton.1 hf, rowKey_ofPair] at hne
          simp at hne
    · exact hset _
  | writeTuples =>
    simp only [acceptStep]
    split
    · obtain ⟨hgone, hknown, hnone, hpasses⟩ := haccepted .done
      refine ⟨hgone, hknown, fun p hp => ?_, hpasses⟩
      obtain ⟨h₁, h₂⟩ := hnone p hp
      have hne : key p ≠ key (x, y) := by simpa using (List.mem_filter.1 hp).2
      constructor
      · intro hmem
        rcases mem_writeFriends.1 hmem with hmem | ⟨-, ⟨rfl, rfl⟩ | ⟨rfl, rfl⟩⟩
        · exact h₁ hmem
        · exact hne rfl
        · exact hne (key_swap p.1 p.2)
      · intro hmem
        rcases mem_writeFriends.1 hmem with hmem | ⟨-, ⟨rfl, rfl⟩ | ⟨rfl, rfl⟩⟩
        · exact h₂ hmem
        · exact hne (key_swap p.1 p.2)
        · exact hne rfl
    · exact hset _
  | done => exact hset _

theorem inv_step {s s' : State} {act : Action} (hs : Inv s) (hok : InTime s act)
    (h : step users s act = some s') : Inv s' := by
  cases act with
  | pass =>
    cases h
    exact hs.push fun _ => rfl
  | remove me handle =>
    cases h
    exact hs.push fun _ => rfl
  | accept x y =>
    cases h
    exact hs.push fun _ => rfl
  | next i now ok =>
    simp only [step] at h
    split at h
    · cases h
    · rename_i phase hi
      cases h
      exact inv_pass hs hi ok
    · rename_i me handle phase hi
      cases h
      apply inv_remove hs
      rintro rfl theirs rfl
      exact hok (me, theirs) (by simp [hi, Call.deletes])
    · cases h
      exact inv_accept hs ok _

/-- **An unfriend is not undone.** In every run in which, whenever a `remove_friend` deletes the
tuples of a pair, no pass past its second read is still to write them, a pair that was ended and
not accepted again has no tuples. -/
theorem noneBack_of_in_time {s : State}
    (h : Trans.Reach (step users) InTime (.start friendships rels) s) : NoneBack s := by
  have hstart : Inv (.start friendships rels) := by
    constructor <;> simp [State.start, NoneBack]
  have hinv : Inv s := h.inv hstart fun _ _ _ hs hok hstep => inv_step hs hok hstep
  exact hinv.none

/-! ### Alice and Bob -/

def aliceAndBob : List String := ["Alice", "Bob"]

def friends : List Friendship := [.ofPair "Alice" "Bob" 0]

/-- A pass writes the missing tuples, and Alice removes Bob afterwards. -/
def passThenRemove : List Action :=
  [.pass, .next 0 1 true, .next 0 2 true, .next 0 3 true, .next 0 4 true, .remove "Alice" "bob",
    .next 1 5 true, .next 1 6 true, .next 1 7 true, .next 0 8 true]

theorem noneBack_of_in_time_alice : ∃ s,
    Trans.Reach (step aliceAndBob) InTime (.start friends []) s ∧
      s.ended = [("Alice", "Bob")] ∧ NoneBack s := by
  have hrun : (Trans.exec (step aliceAndBob) InTime (.start friends []) passThenRemove).map
      State.ended = some [("Alice", "Bob")] := by decide +kernel
  obtain ⟨s, hreach, hended⟩ := Trans.reach_of_map_exec passThenRemove hrun
  exact ⟨s, hreach, hended, noneBack_of_in_time hreach⟩

/-- Alice removes Bob between the second read of a pass and its write. -/
def removeInPass : List Action :=
  [.pass, .next 0 1 true, .next 0 2 true, .next 0 3 true, .remove "Alice" "bob", .next 1 4 true,
    .next 1 5 true, .next 1 6 true, .next 0 7 true]

/-- The second read does not stop a pass from writing a pair unfriended after it. -/
theorem reconciler_undoes_unfriend : ¬ ∀ (users : List String) (friendships : List Friendship)
    (rels : List Relationship) (s : State),
    Trans.Reach (step users) Trans.always (.start friendships rels) s → NoneBack s := by
  intro h
  have hrun : (Trans.exec (step aliceAndBob) Trans.always (.start friends []) removeInPass).map
      (fun s => (s.ended, s.rels)) =
      some ([("Alice", "Bob")], [friendTuple "Alice" "Bob", friendTuple "Bob" "Alice"]) := by
    decide +kernel
  obtain ⟨s, hreach, heq⟩ := Trans.reach_of_map_exec removeInPass hrun
  obtain ⟨hended, hrels⟩ := Prod.mk.inj heq
  have hnone := h aliceAndBob friends [] s hreach
  apply (hnone ("Alice", "Bob") (by simp [hended])).1
  rw [hrels]
  exact .head _

/-! ## A pass on its own -/

section
variable {pairs tuples ps : List Pair} {p q : Pair} {rels' : List Relationship} {r : Reconciled}
  {a b : String}

theorem mem_bothWays : p ∈ bothWays pairs ↔ p ∈ pairs ∨ p.swap ∈ pairs := by
  simp only [bothWays, List.mem_flatMap, List.mem_cons, List.not_mem_nil, or_false]
  constructor
  · rintro ⟨q, hq, rfl | rfl⟩
    · exact .inl hq
    · exact .inr hq
  · rintro (h | h)
    · exact ⟨p, h, .inl rfl⟩
    · exact ⟨p.swap, h, .inr rfl⟩

theorem swap_mem_bothWays : p.swap ∈ bothWays pairs ↔ p ∈ bothWays pairs := by
  rw [mem_bothWays, mem_bothWays, Prod.swap_swap, or_comm]

theorem mem_listFriendTuples : p ∈ listFriendTuples rels ↔ friendTuple p.1 p.2 ∈ rels := by
  simp only [listFriendTuples, List.mem_map, List.mem_filter, Bool.and_eq_true, decide_eq_true_eq]
  constructor
  · rintro ⟨⟨⟨t, x⟩, rel, ⟨u, y⟩⟩, ⟨hmem, ⟨ht, hrel⟩, hu⟩, rfl⟩
    dsimp only at ht hrel hu
    subst ht hrel hu
    exact hmem
  · exact fun h => ⟨_, ⟨h, ⟨rfl, rfl⟩, rfl⟩, rfl⟩

/-- A pair of the list is one of the pairs, or one turned round, and stands in order. -/
theorem mem_unordered : p ∈ unordered pairs ↔ p.1 ≤ p.2 ∧ (p ∈ pairs ∨ p.swap ∈ pairs) := by
  rw [unordered, List.mem_insertionSort, List.mem_dedup, List.mem_map]
  constructor
  · rintro ⟨q, hq, rfl⟩
    by_cases hle : q.1 ≤ q.2
    · rw [if_pos hle]
      exact ⟨hle, .inl hq⟩
    · rw [if_neg hle]
      exact ⟨(le_total q.1 q.2).resolve_left hle, .inr hq⟩
  · rintro ⟨hle, hp | hp⟩
    · exact ⟨p, hp, if_pos hle⟩
    · refine ⟨p.swap, hp, ?_⟩
      by_cases hge : p.2 ≤ p.1
      · rw [if_pos (show p.swap.1 ≤ p.swap.2 from hge)]
        exact Prod.ext (le_antisymm hge hle) (le_antisymm hle hge)
      · rw [if_neg (show ¬ p.swap.1 ≤ p.swap.2 from hge)]
        rfl

theorem unordered_nodup (pairs : List Pair) : (unordered pairs).Nodup :=
  (List.perm_insertionSort pairLe _).nodup_iff.2 (List.nodup_dedup _)

/-- Friendships that a direction is missing of. -/
theorem mem_toWrite : p ∈ (diff pairs tuples).toWrite ↔
    p.1 ≤ p.2 ∧ p ∈ bothWays pairs ∧ (p ∉ tuples ∨ p.swap ∉ tuples) := by
  have hswap : p.swap ∈ bothWays pairs ↔ p ∈ bothWays pairs := swap_mem_bothWays
  simp only [diff, mem_unordered, List.mem_filter, decide_eq_true_eq]
  tauto

/-- Pairs that are no friendship, with a tuple. -/
theorem mem_toDelete : p ∈ (diff pairs tuples).toDelete ↔
    p.1 ≤ p.2 ∧ p ∉ bothWays pairs ∧ (p ∈ tuples ∨ p.swap ∈ tuples) := by
  have hswap : p.swap ∈ bothWays pairs ↔ p ∈ bothWays pairs := swap_mem_bothWays
  simp only [diff, mem_unordered, List.mem_filter, decide_eq_true_eq]
  tauto

/-- The second read keeps every pair when it finds what the first found. -/
theorem filter_fresh (pairs tuples : List Pair) :
    (diff pairs tuples).toWrite.filter (· ∈ bothWays pairs) = (diff pairs tuples).toWrite ∧
    (diff pairs tuples).toDelete.filter (· ∉ bothWays pairs) = (diff pairs tuples).toDelete :=
  ⟨List.filter_eq_self.2 fun _ hp => decide_eq_true (mem_toWrite.1 hp).2.1,
    List.filter_eq_self.2 fun _ hp => decide_eq_true (mem_toDelete.1 hp).2.1⟩

/-- The relationship is a tuple of the pair, in either direction. -/
def IsTupleOf (rel : Relationship) (p : Pair) : Prop :=
  rel = friendTuple p.1 p.2 ∨ rel = friendTuple p.2 p.1

theorem isTupleOf_friendTuple : IsTupleOf (friendTuple a b) p ↔ (a, b) = p ∨ (a, b) = p.swap := by
  simp [IsTupleOf, friendTuple_inj, Prod.ext_iff]

theorem mem_callEach_write {rel : Relationship}
    (h : callEach writeFriendship ps rels = some rels') :
    rel ∈ rels' ↔ rel ∈ rels ∨ ∃ p ∈ ps, IsTupleOf rel p := by
  induction ps generalizing rels with
  | nil =>
    cases h
    simp
  | cons p ps ih =>
    obtain ⟨mid, hmid, hrest⟩ := Option.bind_eq_some_iff.1 h
    have hfirst : rel ∈ mid ↔ rel ∈ rels ∨ IsTupleOf rel p := by
      rw [Tuples.mem_write hmid]
      simp [IsTupleOf, or_comm]
    rw [ih hrest, hfirst, List.exists_mem_cons_iff, or_assoc]

theorem mem_callEach_delete {rel : Relationship}
    (h : callEach deleteFriendship ps rels = some rels') :
    rel ∈ rels' ↔ rel ∈ rels ∧ ∀ p ∈ ps, ¬ IsTupleOf rel p := by
  induction ps generalizing rels with
  | nil =>
    cases h
    simp
  | cons p ps ih =>
    obtain ⟨mid, hmid, hrest⟩ := Option.bind_eq_some_iff.1 h
    have hfirst : rel ∈ mid ↔ rel ∈ rels ∧ ¬ IsTupleOf rel p := by
      rw [Tuples.mem_write hmid]
      simp [IsTupleOf]
    rw [ih hrest, hfirst, List.forall_mem_cons, and_assoc]

/-- The pairs that a pass acts on, and its calls. -/
theorem reconcileOnce_eq_some (h : reconcileOnce pairs rels = some r) :
    r.written = (diff pairs (listFriendTuples rels)).toWrite ∧
    r.deleted = (diff pairs (listFriendTuples rels)).toDelete ∧
    ∃ mid, callEach writeFriendship r.written rels = some mid ∧
      callEach deleteFriendship r.deleted mid = some r.rels := by
  obtain ⟨hwrite, hdelete⟩ := filter_fresh pairs (listFriendTuples rels)
  simp only [reconcileOnce, hwrite, hdelete, Option.bind_eq_bind, Option.bind_eq_some_iff] at h
  obtain ⟨mid, hmid, rels', hrels', heq⟩ := h
  obtain rfl := Option.some.inj heq
  exact ⟨rfl, rfl, mid, hmid, hrels'⟩

theorem mem_reconciled {rel : Relationship} (h : reconcileOnce pairs rels = some r) :
    rel ∈ r.rels ↔ (rel ∈ rels ∨ ∃ p ∈ r.written, IsTupleOf rel p) ∧
      ∀ p ∈ r.deleted, ¬ IsTupleOf rel p := by
  obtain ⟨-, -, mid, hmid, hrels⟩ := reconcileOnce_eq_some h
  rw [mem_callEach_delete hrels, mem_callEach_write hmid]

theorem inStep_reconciled (h : reconcileOnce pairs rels = some r) : InStep pairs r.rels := by
  obtain ⟨hwritten, hdeleted, -⟩ := reconcileOnce_eq_some h
  intro a b
  have hboth : (a, b) ∈ bothWays pairs ↔ (a, b) ∈ pairs ∨ (b, a) ∈ pairs := mem_bothWays
  have hlisted : (a, b) ∈ listFriendTuples rels ↔ friendTuple a b ∈ rels := mem_listFriendTuples
  -- the pair in the order in which it is listed
  obtain ⟨p, hle, hp⟩ : ∃ p : Pair, p.1 ≤ p.2 ∧ ((a, b) = p ∨ (a, b) = p.swap) := by
    rcases le_total a b with hab | hab
    · exact ⟨(a, b), hab, .inl rfl⟩
    · exact ⟨(b, a), hab, .inr rfl⟩
  have hpair : p ∈ bothWays pairs ↔ (a, b) ∈ bothWays pairs := by
    rcases hp with rfl | hp
    · rfl
    · rw [hp, swap_mem_bothWays]
  rw [← hboth, mem_reconciled h, hwritten, hdeleted]
  constructor
  · rintro ⟨hkept | ⟨q, hq, hqp⟩, hdelete⟩
    · by_contra hnot
      refine hdelete p (mem_toDelete.2 ⟨hle, fun h => hnot (hpair.1 h), ?_⟩)
        (isTupleOf_friendTuple.2 hp)
      rcases hp with rfl | hp
      · exact .inl (hlisted.2 hkept)
      · rw [← hp]
        exact .inr (hlisted.2 hkept)
    · have hin := (mem_toWrite.1 hq).2.1
      rcases isTupleOf_friendTuple.1 hqp with heq | heq
      · rwa [heq]
      · rwa [heq, swap_mem_bothWays]
  · intro hin
    refine ⟨?_, fun q hq hqp => ?_⟩
    · by_cases hkept : friendTuple a b ∈ rels
      · exact .inl hkept
      · refine .inr ⟨p, mem_toWrite.2 ⟨hle, hpair.2 hin, ?_⟩, isTupleOf_friendTuple.2 hp⟩
        rcases hp with rfl | hp
        · exact .inl fun h => hkept (hlisted.1 h)
        · rw [← hp]
          exact .inr fun h => hkept (hlisted.1 h)
    · refine (mem_toDelete.1 hq).2.1 ?_
      rcases isTupleOf_friendTuple.1 hqp with heq | heq
      · rwa [← heq]
      · rwa [← swap_mem_bothWays, ← heq]

/-- A pass over tuples that are in step has nothing to do. -/
theorem diff_of_inStep (h : InStep pairs rels) : diff pairs (listFriendTuples rels) = ⟨[], []⟩ := by
  have hsame : ∀ q, q ∈ listFriendTuples rels ↔ q ∈ bothWays pairs := fun q => by
    rw [mem_listFriendTuples, h, mem_bothWays]
    rfl
  have hswap : ∀ q, q.swap ∈ listFriendTuples rels ↔ q ∈ bothWays pairs := fun q => by
    rw [hsame, swap_mem_bothWays]
  have hwrite : (diff pairs (listFriendTuples rels)).toWrite = [] := by
    refine List.eq_nil_iff_forall_not_mem.2 fun q hq => ?_
    obtain ⟨-, hin, hmissing⟩ := mem_toWrite.1 hq
    rcases hmissing with hmissing | hmissing
    · exact hmissing ((hsame q).2 hin)
    · exact hmissing ((hswap q).2 hin)
  have hdelete : (diff pairs (listFriendTuples rels)).toDelete = [] := by
    refine List.eq_nil_iff_forall_not_mem.2 fun q hq => ?_
    obtain ⟨-, hnot, htuple⟩ := mem_toDelete.1 hq
    rcases htuple with htuple | htuple
    · exact hnot ((hsame q).1 htuple)
    · exact hnot ((hswap q).1 htuple)
  calc diff pairs (listFriendTuples rels)
    _ = ⟨(diff pairs (listFriendTuples rels)).toWrite,
        (diff pairs (listFriendTuples rels)).toDelete⟩ := rfl
    _ = ⟨[], []⟩ := by rw [hwrite, hdelete]

/-- As unordered pairs, those of a pass are all different. -/
theorem acted_nodup (h : reconcileOnce pairs rels = some r) :
    ((r.written ++ r.deleted).map fun p => s(p.1, p.2)).Nodup := by
  obtain ⟨hwritten, hdeleted, -⟩ := reconcileOnce_eq_some h
  rw [hwritten, hdeleted]
  have hordered : ∀ q ∈ (diff pairs (listFriendTuples rels)).toWrite ++
      (diff pairs (listFriendTuples rels)).toDelete, q.1 ≤ q.2 := by
    intro q hq
    rcases List.mem_append.1 hq with hq | hq
    · exact (mem_toWrite.1 hq).1
    · exact (mem_toDelete.1 hq).1
  refine List.Nodup.map_on ?_ (List.nodup_append.2 ⟨unordered_nodup _, unordered_nodup _, ?_⟩)
  · intro x hx y hy heq
    rcases Sym2.mk_eq_mk_iff.1 heq with rfl | rfl
    · rfl
    · have hle := hordered y hy
      have hge := hordered y.swap hx
      exact Prod.ext (le_antisymm hge hle) (le_antisymm hle hge)
  · rintro x hx y hy rfl
    exact (mem_toDelete.1 hy).2.1 (mem_toWrite.1 hx).2.1

theorem callEach_isSome
    (call : String → String → List Relationship → Option (List Relationship)) (ps : List Pair)
    (h : ∀ p ∈ ps, ∀ rels, (call p.1 p.2 rels).isSome = true) (rels : List Relationship) :
    (callEach call ps rels).isSome = true := by
  induction ps generalizing rels with
  | nil => rfl
  | cons p ps ih =>
    obtain ⟨mid, hmid⟩ := Option.isSome_iff_exists.1 (h p List.mem_cons_self rels)
    rw [callEach, hmid, Option.bind_some]
    exact ih (fun q hq => h q (List.mem_cons_of_mem _ hq)) mid

/-- Only a pair of a handle with itself is refused. -/
theorem reconcileOnce_isSome (hpairs : ∀ p ∈ pairs, p.1 ≠ p.2)
    (hrels : ∀ a, friendTuple a a ∉ rels) : (reconcileOnce pairs rels).isSome = true := by
  obtain ⟨hwrite, hdelete⟩ := filter_fresh pairs (listFriendTuples rels)
  have hboth : ∀ p ∈ bothWays pairs, p.1 ≠ p.2 := fun p hp =>
    (mem_bothWays.1 hp).elim (hpairs p) fun h => (hpairs _ h).symm
  have htuples : ∀ p ∈ listFriendTuples rels, p.1 ≠ p.2 := by
    intro p hp heq
    have hmem := mem_listFriendTuples.1 hp
    rw [heq] at hmem
    exact hrels _ hmem
  obtain ⟨mid, hmid⟩ := Option.isSome_iff_exists.1 (callEach_isSome
    writeFriendship (diff pairs (listFriendTuples rels)).toWrite
    (fun p hp _ => writeFriendship_isSome.2 (hboth p (mem_toWrite.1 hp).2.1)) rels)
  obtain ⟨rels', hrels'⟩ := Option.isSome_iff_exists.1 (callEach_isSome
    deleteFriendship (diff pairs (listFriendTuples rels)).toDelete
    (fun p hp _ => deleteFriendship_isSome.2 ((mem_toDelete.1 hp).2.2.elim (htuples p)
      fun h => (htuples _ h).symm)) mid)
  simp only [reconcileOnce, hwrite, hdelete, hmid, hrels', Option.bind_eq_bind, Option.bind_some]
  rfl

/-! ### The store calls of such a pass -/

section
variable {toWrite toDelete fresh : List Pair} {w n : Nat}

theorem passCalls_write
    (h : callEach writeFriendship (toWrite.filter (· ∈ fresh)) rels = some rels')
    (k : Nat) :
    passCalls users friendships (toWrite.length + k) (.acting ⟨toWrite, toDelete⟩ fresh w n) rels =
      passCalls users friendships k
        (.acting ⟨[], toDelete⟩ fresh (w + (toWrite.filter (· ∈ fresh)).length) n) rels' := by
  induction toWrite generalizing rels w with
  | nil =>
    cases h
    simp
  | cons p ps ih =>
    have hstep : (p :: ps).length + k = ps.length + k + 1 := by
      rw [List.length_cons]
      omega
    rw [hstep, passCalls]
    by_cases hp : p ∈ fresh
    · rw [List.filter_cons_of_pos (by simpa using hp)] at h ⊢
      obtain ⟨mid, hmid, hrest⟩ := Option.bind_eq_some_iff.1 h
      simp only [passStep, hp, if_true, hmid]
      rw [ih hrest, List.length_cons, Nat.add_assoc, Nat.add_comm 1]
    · rw [List.filter_cons_of_neg (by simpa using hp)] at h ⊢
      simp only [passStep, hp, if_false]
      exact ih h

theorem passCalls_delete
    (h : callEach deleteFriendship (toDelete.filter (· ∉ fresh)) rels = some rels') (k : Nat) :
    passCalls users friendships (toDelete.length + k) (.acting ⟨[], toDelete⟩ fresh w n) rels =
      passCalls users friendships k
        (.acting ⟨[], []⟩ fresh w (n + (toDelete.filter (· ∉ fresh)).length)) rels' := by
  induction toDelete generalizing rels n with
  | nil =>
    cases h
    simp
  | cons p ps ih =>
    have hstep : (p :: ps).length + k = ps.length + k + 1 := by
      rw [List.length_cons]
      omega
    rw [hstep, passCalls]
    by_cases hp : p ∈ fresh
    · rw [List.filter_cons_of_neg (by simpa using hp)] at h ⊢
      simp only [passStep, hp, not_true_eq_false, if_false]
      exact ih h
    · rw [List.filter_cons_of_pos (by simpa using hp)] at h ⊢
      obtain ⟨mid, hmid, hrest⟩ := Option.bind_eq_some_iff.1 h
      simp only [passStep, hp, not_false_eq_true, if_true, hmid]
      rw [ih hrest, List.length_cons, Nat.add_assoc, Nat.add_comm 1]

end

/-- **The store calls of a pass come to that**, when all of them succeed and nothing else
happens. -/
theorem passCalls_of_reconcileOnce
    (h : reconcileOnce (listAllFriendships users friendships) rels = some r) :
    ∃ n, passCalls users friendships n .listTuples rels =
      (.done (some (r.written.length, r.deleted.length)), r.rels) := by
  obtain ⟨hwrite, hdelete⟩ := filter_fresh (listAllFriendships users friendships)
    (listFriendTuples rels)
  obtain ⟨hwritten, hdeleted, mid, hmid, hrels⟩ := reconcileOnce_eq_some h
  generalize hd : diff (listAllFriendships users friendships) (listFriendTuples rels) = d at *
  rw [hwritten] at hmid
  rw [hdeleted] at hrels
  by_cases hnone : d = ⟨[], []⟩
  · subst hnone
    cases hmid
    cases hrels
    refine ⟨2, ?_⟩
    rw [hwritten, hdeleted]
    simp only [passCalls, passStep, if_true, hd]
    rfl
  · refine ⟨d.toDelete.length + 1 + d.toWrite.length + 3, ?_⟩
    have hacting : passCalls users friendships (d.toDelete.length + 1 + d.toWrite.length + 3)
        .listTuples rels = passCalls users friendships (d.toWrite.length + (d.toDelete.length + 1))
          (.acting d (bothWays (listAllFriendships users friendships)) 0 0) rels := by
      rw [Nat.add_comm d.toWrite.length]
      simp only [passCalls, passStep, if_true, hd, hnone, if_false]
    rw [hacting, passCalls_write (by rw [hwrite]; exact hmid), passCalls_delete
      (by rw [hdelete]; exact hrels), hwrite, hdelete, hwritten, hdeleted, Nat.zero_add,
      Nat.zero_add]
    rfl

/-- **A pass on its own brings the tuples in step**, touches each pair at most once and no other
relationship, and leaves nothing to the next. -/
theorem reconcileOnce_converges (h : reconcileOnce pairs rels = some r) :
    InStep pairs r.rels ∧
    (∀ rel, (∀ a b, rel ≠ friendTuple a b) → (rel ∈ r.rels ↔ rel ∈ rels)) ∧
    ((r.written ++ r.deleted).map fun p => s(p.1, p.2)).Nodup ∧
    reconcileOnce pairs r.rels = some ⟨[], [], r.rels⟩ := by
  have hstep := inStep_reconciled h
  refine ⟨hstep, fun rel hrel => ?_, acted_nodup h, ?_⟩
  · have hother : ∀ p, ¬ IsTupleOf rel p := fun p hp => hp.elim (hrel _ _) (hrel _ _)
    rw [mem_reconciled h]
    simp [hother]
  · simp only [reconcileOnce, diff_of_inStep hstep]
    rfl

/-- A friendship without tuples, a stale one and half of another. -/
def mixedTuples : List Relationship :=
  [friendTuple "Alice" "Mallory", friendTuple "Mallory" "Alice", friendTuple "Alice" "Bob",
    ⟨statsRecord "Alice", .owner, userRef "Alice"⟩]

theorem reconcileOnce_converges_mixed :
    ∃ r, reconcileOnce [("Bob", "Alice"), ("Carol", "Bob")] mixedTuples = some r ∧
      InStep [("Bob", "Alice"), ("Carol", "Bob")] r.rels ∧
      (∀ rel, (∀ a b, rel ≠ friendTuple a b) → (rel ∈ r.rels ↔ rel ∈ mixedTuples)) ∧
      ((r.written ++ r.deleted).map fun p => s(p.1, p.2)).Nodup ∧
      reconcileOnce [("Bob", "Alice"), ("Carol", "Bob")] r.rels = some ⟨[], [], r.rels⟩ := by
  obtain ⟨r, hr⟩ := Option.isSome_iff_exists.1
    (show (reconcileOnce [("Bob", "Alice"), ("Carol", "Bob")] mixedTuples).isSome = true by
      decide +kernel)
  exact ⟨r, hr, reconcileOnce_converges hr⟩

end

end FriendSync

end StarStats
