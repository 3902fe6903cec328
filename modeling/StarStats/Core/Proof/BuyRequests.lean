import Mathlib.Data.List.TakeWhile
import StarStats.Core.BuyRequests
import StarStats.Core.Proof.Classify
import StarStats.Lib.Search

/-!
# The arguments of a request

* `Request.Valid.captures_text`: over a whole body, the expression of a request captures what `scan`
  finds among the arguments.
* `texts_filled_iff`, `number_filled_iff`: the scan finds every field iff the arguments stand in the
  order of the groups.
* `requests_filled_iff`: the same of the classifier, for the arguments in any order.
-/

namespace StarStats

open Regex Regex.Pattern

/-! ## Where the keys are -/

/-- What the expressions have in common. -/
structure Request.Valid (r : Request) : Prop where
  keys_sep : ∀ k ∈ r.keys, ∀ c ∈ [',', ' ', '(', ')', '=', 'S'], c ∉ k
  keys_suffix : ∀ k ∈ r.keys, ∀ k' ∈ r.keys, k <:+ k' → k = k'
  disjoint : (r.slots.map (·.keys)).Pairwise fun ks ks' => ∀ k ∈ ks, k ∉ ks'
  names : (r.slots.map (·.name)).Nodup
  marker : ∃ m, r.marker = 'S' :: m ∧ r.Free m
  anchor_plain : r.anchor.plain = true
  anchor_open : ∀ u ∈ r.anchor.words, '(' ∉ u
  anchor_marker : r.marker ∈ r.anchor.words

section
variable {r : Request} {after : List Char}

theorem Request.mem_keys {g : Slot} (hg : g ∈ r.slots) {k : List Char} (hk : k ∈ g.keys) :
    k ∈ r.keys := List.mem_flatMap.2 ⟨g, hg, hk⟩

namespace Request

theorem Free.of_subtext {s t : List Char} (h : r.Free t) (hst : s <:+: t) : r.Free s :=
  fun k hk hs => h k hk (hs.trans hst)

theorem Valid.free_append_cons (hr : r.Valid) {c : Char} (hc : c ∈ [',', ' ', '(', ')', '=', 'S'])
    {u v : List Char} (hu : r.Free u) (hv : r.Free v) : r.Free (u ++ c :: v) := by
  intro k hk hinfix
  rcases (Text.infix_append_cons (hr.keys_sep k hk c hc)).1 hinfix with h | h
  · exact hu k hk h
  · exact hv k hk h

theorem Valid.ne_nil (hr : r.Valid) {k : List Char} (hk : k ∈ r.keys) : k ≠ [] := by
  rintro rfl
  obtain ⟨m, -, hm⟩ := hr.marker
  exact hm [] hk (List.nil_infix)

theorem Valid.free_nil (hr : r.Valid) : r.Free [] :=
  fun _ hk h => hr.ne_nil hk (List.infix_nil.1 h)

theorem Args.tail {pre as : List Arg} (h : r.Args (pre ++ as)) : r.Args as where
  key a ha := h.key a (List.mem_append_right _ ha)
  key_eq a ha := h.key_eq a (List.mem_append_right _ ha)
  value a ha := h.value a (List.mem_append_right _ ha)
  once g hg := (List.pairwise_append.1 (h.once g hg)).2.1

theorem Args.of_cons {a : Arg} {as : List Arg} (h : r.Args (a :: as)) : r.Args as :=
  tail (show r.Args ([a] ++ as) from h)

/-- A key and its `=` in an argument and what follows it. -/
theorem Valid.occurrence_arg (hr : r.Valid) {a : Arg} {x b t k : List Char} (hk : k ∈ r.keys)
    (hkey : a.key ∈ r.keys ∨ r.Free a.key) (heq : '=' ∉ a.key)
    (h : a.text ++ x = b ++ (k ++ '=' :: t)) :
    (a.key = k ∧ t = a.value ++ x) ∨ ∃ b', a.value ++ x = b' ++ (k ++ '=' :: t) := by
  rw [Arg.text, List.append_assoc, List.cons_append] at h
  by_cases hb : '=' ∈ b
  case pos =>
    obtain ⟨b₁, b₂, rfl, hb₁⟩ := List.eq_append_cons_of_mem hb
    rw [List.append_assoc, List.cons_append] at h
    obtain ⟨-, hrest⟩ := Text.split_unique heq hb₁ h
    exact .inr ⟨b₂, hrest⟩
  case neg =>
    have hk' : '=' ∉ k := hr.keys_sep k hk '=' (by decide)
    have hbk : '=' ∉ b ++ k := fun hmem => (List.mem_append.1 hmem).elim hb hk'
    rw [← List.append_assoc] at h
    obtain ⟨hakey, hrest⟩ := Text.split_unique heq hbk h
    rcases hkey with hkey | hfree
    · exact .inl ⟨(hr.keys_suffix k hk a.key hkey ⟨b, hakey.symm⟩).symm, hrest.symm⟩
    · exact absurd ⟨b, [], by rw [hakey, List.append_nil]⟩ (hfree k hk)

/-- A key and its `=` stand behind a separator that no key is in front of. -/
theorem Valid.occurrence_sep (hr : r.Valid) {c : Char} (hc : c ∈ [',', ' ', '(', ')'])
    {u v b t k : List Char} (hk : k ∈ r.keys) (hu : r.Free u)
    (h : u ++ c :: v = b ++ (k ++ '=' :: t)) : ∃ b', v = b' ++ (k ++ '=' :: t) := by
  have hsep : c ∉ k ++ ['='] := by
    intro hmem
    rcases List.mem_append.1 hmem with hmem | hmem
    · refine hr.keys_sep k hk c ?_ hmem
      simp only [List.mem_cons, List.not_mem_nil, or_false] at hc ⊢
      tauto
    · rw [List.mem_singleton.1 hmem] at hc
      exact absurd hc (by decide)
  rw [List.append_cons k] at h ⊢
  rcases Text.occurrence_append_cons hsep h with ⟨t', rfl, -⟩ | ⟨b', -, hv⟩
  · exact absurd ⟨b, '=' :: t', by simp⟩ (hu k hk)
  · exact ⟨b', by rw [hv, List.append_cons k]⟩

/-- A key and its `=` behind a text that has none. -/
theorem Valid.occurrence_more (hr : r.Valid) (hafter : r.Free after) {args : List Arg}
    (hargs : r.Args args) {j b t k : List Char} (hj : r.Free j) (hk : k ∈ r.keys)
    (h : j ++ moreText after args = b ++ (k ++ '=' :: t)) :
    ∃ pre a as, args = pre ++ a :: as ∧ a.key = k ∧ t = a.value ++ moreText after as := by
  induction args generalizing j b with
  | nil =>
    obtain ⟨b', hb'⟩ := hr.occurrence_sep (by decide) hk hj h
    exact absurd ⟨b', '=' :: t, by rw [hb', List.append_assoc]⟩ (hafter k hk)
  | cons a as ih =>
    obtain ⟨b₁, hcomma⟩ := hr.occurrence_sep (by decide) hk hj h
    obtain ⟨b₂, harg⟩ := hr.occurrence_sep (u := []) (by decide) hk hr.free_nil hcomma
    have hmem : a ∈ a :: as := List.mem_cons_self
    rcases hr.occurrence_arg hk (hargs.key a hmem) (hargs.key_eq a hmem) harg with
      ⟨hkey, rfl⟩ | ⟨b₃, hvalue⟩
    · exact ⟨[], a, as, rfl, hkey, rfl⟩
    · obtain ⟨pre, a', as', rfl, hfound⟩ :=
        ih hargs.of_cons (hargs.value a hmem) hvalue
      exact ⟨a :: pre, a', as', rfl, hfound⟩

/-- A text shows arguments: they stand in it, and a key of the request only where an argument has
it. -/
structure Shows (r : Request) (after s : List Char) (args : List Arg) : Prop where
  line : '\n' ∉ s
  place : ∀ pre a as, args = pre ++ a :: as → ∃ b, s = b ++ (a.text ++ moreText after as)
  only : ∀ k ∈ r.keys, ∀ b t, s = b ++ (k ++ '=' :: t) →
    ∃ pre a as, args = pre ++ a :: as ∧ a.key = k ∧ t = a.value ++ moreText after as

theorem place_more (after : List Char) {args : List Arg} (j : List Char) (pre : List Arg) (a : Arg) (as : List Arg)
    (h : args = pre ++ a :: as) :
    ∃ b, j ++ moreText after args = b ++ (a.text ++ moreText after as) := by
  induction pre generalizing args j with
  | nil =>
    subst h
    exact ⟨j ++ [',', ' '], by simp [moreText]⟩
  | cons p pre ih =>
    subst h
    obtain ⟨b, hb⟩ := ih (j ++ ',' :: ' ' :: p.text) rfl
    exact ⟨b, by rw [← hb]; simp [moreText]⟩

theorem Valid.shows_more (hr : r.Valid) (hafter : r.Free after) {args : List Arg}
    (hargs : r.Args args) {j : List Char} (hj : r.Free j)
    (hline : '\n' ∉ j ++ moreText after args) : r.Shows after (j ++ moreText after args) args where
  line := hline
  place := place_more after j
  only _ hk _ _ h := hr.occurrence_more hafter hargs hj hk h

theorem Valid.shows_call (hr : r.Valid) (hafter : r.Free after) {args : List Arg}
    (hargs : r.Args args) {j : List Char} (hj : r.Free j)
    (hline : '\n' ∉ j ++ '(' :: argsText after args) :
    r.Shows after (j ++ '(' :: argsText after args) args := by
  cases args with
  | nil =>
    have hopen : r.Free (j ++ ['(']) := hr.free_append_cons (by decide) hj hr.free_nil
    have happ : j ++ '(' :: argsText after [] = (j ++ ['(']) ++ moreText after [] := by
      simp [argsText, moreText]
    rw [happ] at hline ⊢
    exact hr.shows_more hafter hargs hopen hline
  | cons a as =>
    refine ⟨hline, fun pre a' as' h => ?_, fun k hk b t h => ?_⟩
    · cases pre with
      | nil =>
        obtain ⟨rfl, rfl⟩ := List.cons.inj h
        exact ⟨j ++ ['('], by simp [argsText]⟩
      | cons p pre =>
        obtain ⟨rfl, hrest⟩ := List.cons.inj h
        obtain ⟨b, hb⟩ := place_more after (j ++ '(' :: a.text) pre a' as' hrest
        exact ⟨b, by rw [← hb]; simp [argsText]⟩
    · obtain ⟨b', hb'⟩ := hr.occurrence_sep (by decide) hk hj h
      have hmem : a ∈ a :: as := List.mem_cons_self
      rcases hr.occurrence_arg hk (hargs.key a hmem) (hargs.key_eq a hmem) hb' with
        ⟨hkey, rfl⟩ | ⟨b₃, hvalue⟩
      · exact ⟨[], a, as, rfl, hkey, rfl⟩
      · obtain ⟨pre, a', as', rfl, hfound⟩ := hr.occurrence_more hafter
          hargs.of_cons (hargs.value a hmem) hk hvalue
        exact ⟨a :: pre, a', as', rfl, hfound⟩

end Request

/-! ## The groups over the arguments -/

/-- The argument that a group takes, and those behind it. -/
def Slot.find (g : Slot) : List Arg → Option (Arg × List Arg)
  | [] => none
  | a :: as =>
    if g.keys.contains a.key && !(a.value.takeWhile g.accepts).isEmpty then some (a, as)
    else g.find as

/-- What the groups capture. -/
def scan : List Slot → List Arg → Captures
  | [], _ => []
  | g :: gs, args =>
    match g.find args with
    | some (a, as) => (g.name, String.ofList (a.value.takeWhile g.accepts)) :: scan gs as
    | none => scan gs args

namespace Slot
variable {g : Slot} {args as : List Arg} {a : Arg}

theorem find_eq_some (h : g.find args = some (a, as)) :
    (∃ pre, args = pre ++ a :: as) ∧ a.key ∈ g.keys ∧ a.value.takeWhile g.accepts ≠ [] := by
  induction args with
  | nil => cases h
  | cons x xs ih =>
    rw [find] at h
    split at h
    case isTrue hx =>
      obtain ⟨rfl, rfl⟩ := Prod.mk.inj (Option.some.inj h)
      rw [Bool.and_eq_true, List.contains_iff_mem] at hx
      exact ⟨⟨[], rfl⟩, hx.1, by simpa using hx.2⟩
    case isFalse =>
      obtain ⟨⟨pre, rfl⟩, hfound⟩ := ih h
      exact ⟨⟨x :: pre, rfl⟩, hfound⟩

theorem find_eq_none (h : g.find args = none) :
    ∀ a ∈ args, a.key ∈ g.keys → a.value.takeWhile g.accepts = [] := by
  induction args with
  | nil => nofun
  | cons x xs ih =>
    rw [find] at h
    split at h
    case isTrue => cases h
    case isFalse hx =>
      intro a ha hkey
      rcases List.mem_cons.1 ha with rfl | ha
      · by_contra hne
        exact hx (by simpa [hkey] using hne)
      · exact ih h a ha hkey

/-- There is one place for an argument of the group. -/
theorem Once.unique (h : g.Once args) {pre pre' as' : List Arg} {a' : Arg}
    (hsplit : args = pre ++ a :: as) (hsplit' : args = pre' ++ a' :: as') (ha : a.key ∈ g.keys)
    (ha' : a'.key ∈ g.keys) : pre = pre' ∧ a = a' ∧ as = as' := by
  induction pre generalizing args pre' with
  | nil =>
    cases pre' with
    | nil =>
      obtain ⟨rfl, rfl⟩ := List.cons.inj (hsplit.symm.trans hsplit')
      exact ⟨rfl, rfl, rfl⟩
    | cons p pre' =>
      obtain ⟨rfl, rfl⟩ := List.cons.inj (hsplit.symm.trans hsplit')
      rw [hsplit, List.nil_append] at h
      exact absurd ha' (List.rel_of_pairwise_cons h (by simp) ha)
  | cons p pre ih =>
    subst hsplit
    have htail : g.Once (pre ++ a :: as) := (List.pairwise_cons.1 h).2
    cases pre' with
    | nil =>
      obtain ⟨rfl, rfl⟩ := List.cons.inj hsplit'
      exact absurd ha (List.rel_of_pairwise_cons h (by simp) ha')
    | cons p' pre' =>
      obtain ⟨rfl, hrest⟩ := List.cons.inj hsplit'
      obtain ⟨rfl, rfl, rfl⟩ := ih htail rfl hrest
      exact ⟨rfl, rfl, rfl⟩

/-- A value ends where the argument does. -/
theorem while_more (after : List Char) (g : Slot) (v : List Char) (as : List Arg) :
    (v ++ moreText after as).takeWhile g.accepts = v.takeWhile g.accepts ∧
      (v ++ moreText after as).dropWhile g.accepts =
        v.dropWhile g.accepts ++ moreText after as := by
  induction v with
  | nil => cases as <;> simp [moreText, g.accepts_comma, g.accepts_close]
  | cons c v ih =>
    cases hc : g.accepts c with
    | true => simp [hc, ih]
    | false => simp [hc]

theorem mem_words_key {k : List Char} : k ∈ g.key.words ↔ ∃ k' ∈ g.keys, k' ++ ['='] = k := by
  rw [g.words_key, List.mem_map]

variable {s : List Char}

theorem first_of_find_some (hg : g ∈ r.slots) (hs : r.Shows after s args) (hargs : r.Args args)
    (hfind : g.find args = some (a, as)) :
    ∃ taken, g.pattern.first s =
      some ⟨[(g.name, String.ofList (a.value.takeWhile g.accepts))], taken,
        a.value.dropWhile g.accepts ++ moreText after as⟩ := by
  obtain ⟨⟨pre, hsplit⟩, hkey, hne⟩ := find_eq_some hfind
  obtain ⟨b, hb⟩ := hs.place pre a as hsplit
  have htext : s = b ++ ((a.key ++ ['=']) ++ (a.value ++ moreText after as)) := by
    rw [hb, Arg.text]
    simp
  have hskip : ∀ c ∈ b, (c != '\n') = true := by
    intro c hc
    refine bne_iff_ne.2 fun heq => hs.line ?_
    rw [hb]
    exact List.mem_append_left _ (heq ▸ hc)
  obtain ⟨htake, hdrop⟩ := while_more after g a.value as
  have hlazy := first_lazy_keyed g.name g.key_keys
    (mem_words_key.2 ⟨a.key, hkey, rfl⟩) (by rw [htake]; exact hne) hskip
    (fun b' k' hk' t _ heq => by
      obtain ⟨k, hk, rfl⟩ := mem_words_key.1 hk'
      have hplace : s = b' ++ (k ++ '=' :: t) := by
        rw [htext, heq]
        simp
      obtain ⟨pre', a', as', hsplit', rfl, rfl⟩ := hs.only k (r.mem_keys hg hk) b' t hplace
      obtain ⟨rfl, rfl, rfl⟩ := (hargs.once g hg).unique hsplit hsplit' hkey hk
      exact (List.append_cancel_right heq).symm)
  rw [← htext, htake, hdrop] at hlazy
  exact ⟨_, by rw [Slot.pattern, first_opt, hlazy]; rfl⟩

theorem first_of_find_none (hg : g ∈ r.slots) (hs : r.Shows after s args)
    (hfind : g.find args = none) : g.pattern.first s = some (.nothing s) := by
  rw [Slot.pattern, first_opt, first_lazy_keyed_none g.key_keys]
  · rfl
  · intro b k hk t ht heq
    obtain ⟨k', hk', rfl⟩ := mem_words_key.1 hk
    obtain ⟨pre, a, as, rfl, rfl, rfl⟩ := hs.only k' (r.mem_keys hg hk') b t (by
      rw [heq]
      simp)
    rw [(while_more after g a.value as).1] at ht
    exact ht (find_eq_none hfind a (by simp) hk')

end Slot

theorem slotChain_total (gs : List Slot) (s : List Char) :
    ((slotChain gs).first s).isSome = true := by
  induction gs generalizing s with
  | nil => simp [slotChain, first_text]
  | cons g gs ih =>
    rw [slotChain, first_seq_of_total ih, Slot.pattern, first_opt, Option.bind_some,
      Option.isSome_map]
    exact ih _

theorem first_slotChain (hr : r.Valid) (hafter : r.Free after) {gs : List Slot}
    (hgs : ∀ g ∈ gs, g ∈ r.slots) {s : List Char} {args : List Arg} (hs : r.Shows after s args)
    (hargs : r.Args args) : ∃ w, (slotChain gs).first s = some w ∧ w.captures = scan gs args := by
  induction gs generalizing s args with
  | nil => exact ⟨_, by rw [slotChain, first_text]; rfl, rfl⟩
  | cons g gs ih =>
    have hg := hgs g List.mem_cons_self
    have hgs' : ∀ g' ∈ gs, g' ∈ r.slots := fun g' hg' => hgs g' (List.mem_cons_of_mem _ hg')
    rw [slotChain, first_seq_of_total (slotChain_total gs), scan]
    cases hfind : g.find args with
    | none =>
      obtain ⟨w, hw, hcap⟩ := ih hgs' hs hargs
      rw [Slot.first_of_find_none hg hs hfind]
      exact ⟨_, by rw [Option.bind_some, Way.nothing, hw]; rfl, hcap⟩
    | some x =>
      obtain ⟨a, as⟩ := x
      obtain ⟨⟨pre, rfl⟩, -, -⟩ := Slot.find_eq_some hfind
      obtain ⟨taken, hfirst⟩ := Slot.first_of_find_some hg hs hargs hfind
      have hvalue : r.Free (a.value.dropWhile g.accepts) :=
        (hargs.value a (by simp)).of_subtext (List.dropWhile_suffix _).isInfix
      have hline : '\n' ∉ a.value.dropWhile g.accepts ++ moreText after as := by
        obtain ⟨b, hb⟩ := hs.place pre a as rfl
        intro hmem
        refine hs.line ?_
        rw [hb, Arg.text]
        simp only [List.mem_append, List.mem_cons] at hmem ⊢
        rcases hmem with hmem | hmem
        · exact .inr (.inl (.inr (.inr ((List.dropWhile_suffix _).subset hmem))))
        · exact .inr (.inr hmem)
      have htail : r.Args as := hargs.tail.of_cons
      obtain ⟨w, hw, hcap⟩ := ih hgs' (hr.shows_more hafter htail hvalue hline) htail
      rw [hfirst]
      exact ⟨_, by rw [Option.bind_some, hw]; rfl, by rw [Way.andThen, hcap]; rfl⟩

/-- The expression captures what the groups find among the arguments. -/
theorem Request.Valid.captures_text (hr : r.Valid) (b : RequestBody r) :
    r.pattern.captures (String.ofList b.text) = some (scan r.slots b.args) := by
  obtain ⟨m, hmarker, hm⟩ := hr.marker
  have hfree : r.Free (b.before ++ r.marker) := by
    rw [hmarker]
    exact hr.free_append_cons (by decide) b.before_free hm
  have hanchor : (r.anchor.first (r.marker ++ '(' :: argsText b.after b.args)).isSome = true := by
    have hmem : (⟨[], r.marker, '(' :: argsText b.after b.args⟩ : Way) ∈
        r.anchor.results (r.marker ++ '(' :: argsText b.after b.args) :=
      (mem_results_of_plain hr.anchor_plain).2 ⟨rfl, hr.anchor_marker, rfl⟩
    rw [first, List.isSome_head?]
    exact List.ne_nil_of_mem hmem
  obtain ⟨p, t, w, htext, hlen, hw, hsearch⟩ :=
    search_seq_of_total (slotChain_total r.slots) b.before hanchor
  rw [captures, String.toList_ofList, RequestBody.text, List.append_assoc, pattern, hsearch]
  obtain ⟨hcap, hmem, rfl⟩ := (mem_results_of_plain hr.anchor_plain).1 (mem_of_first hw)
  -- the anchor has no parenthesis, so it ends before the arguments begin
  obtain ⟨u, hrest, hu⟩ : ∃ u, w.rest = u ++ '(' :: argsText b.after b.args ∧
      u <:+: b.before ++ r.marker := by
    have hsplit := htext
    rw [← List.append_assoc] at hsplit
    rcases Text.occurrence_append_cons (hr.anchor_open _ hmem) hsplit with
      ⟨u, hu, hrest⟩ | ⟨p', rfl, -⟩
    · exact ⟨u, hrest, ⟨p ++ w.taken, [], by rw [hu]; simp⟩⟩
    · simp only [List.length_append, List.length_cons] at hlen
      omega
  have hline : '\n' ∉ u ++ '(' :: argsText b.after b.args := by
    intro hmem
    refine b.line ?_
    rw [List.append_assoc, htext, hrest]
    exact List.mem_append_right _ (List.mem_append_right _ hmem)
  obtain ⟨w', hw', hcap'⟩ := first_slotChain hr b.after_free (fun _ hg => hg)
    (hr.shows_call b.after_free b.args_ok (hfree.of_subtext hu) hline) b.args_ok
  rw [hrest, hw', Option.map_some, hcap, hcap', List.nil_append]

end

/-! ## Which fields are filled -/

/-- The value of the argument of a group. -/
def Slot.value (g : Slot) (args : List Arg) : Option String :=
  (args.find? fun a => g.keys.contains a.key).map fun a => String.ofList a.value

/-- What a group reads of a value. -/
def Slot.reading (g : Slot) (v : List Char) : Option String :=
  if v.takeWhile g.accepts = [] then none else some (String.ofList (v.takeWhile g.accepts))

/-- No argument of `g'` stands before one of `g`. -/
def Behind (args : List Arg) (g g' : Slot) : Prop :=
  args.Pairwise fun a b => a.key ∈ g'.keys → b.key ∉ g.keys

/-- The values are read whole, and the arguments stand in the order of the groups. -/
structure InOrder (gs : List Slot) (args : List Arg) : Prop where
  whole : ∀ g ∈ gs, ∀ a ∈ args, a.key ∈ g.keys → a.value ≠ [] ∧ ∀ c ∈ a.value, g.accepts c = true
  order : gs.Pairwise (Behind args)

/-- Behind the other arguments the number is read for what it is, and elsewhere it is none. -/
def NumberRead {β : Type} (gs : List Slot) (number : Slot) (parse : String → Option β)
    (args : List Arg) : Prop :=
  ∀ a ∈ args, a.key ∈ number.keys →
    ((∀ g ∈ gs, Behind args g number) →
      (number.reading a.value).bind parse = parse (String.ofList a.value)) ∧
    ((¬ ∀ g ∈ gs, Behind args g number) → parse (String.ofList a.value) = none)

section
variable {g g' : Slot} {gs : List Slot} {args pre as : List Arg} {a : Arg}

theorem Slot.value_of_absent (h : ∀ a ∈ args, a.key ∉ g.keys) : g.value args = none := by
  rw [value, List.find?_eq_none.2 fun a ha => by simpa using h a ha]
  rfl

theorem Slot.value_append (h : ∀ a ∈ pre, a.key ∉ g.keys) (as : List Arg) :
    g.value (pre ++ as) = g.value as := by
  rw [value, List.find?_append, List.find?_eq_none.2 fun a ha => by simpa using h a ha]
  rfl

theorem Slot.value_cons (h : a.key ∈ g.keys) (as : List Arg) :
    g.value (a :: as) = some (String.ofList a.value) := by
  simp [value, h]

theorem Slot.value_ne_none (ha : a ∈ args) (h : a.key ∈ g.keys) : g.value args ≠ none := by
  intro hnone
  rw [value, Option.map_eq_none_iff, List.find?_eq_none] at hnone
  exact hnone a ha (by simpa using h)

theorem Slot.reading_eq_value {v : List Char} : g.reading v = some (String.ofList v) ↔
    v ≠ [] ∧ ∀ c ∈ v, g.accepts c = true := by
  have htake : v.takeWhile g.accepts = v ↔ ∀ c ∈ v, g.accepts c = true := List.takeWhile_eq_self_iff
  rw [reading]
  split
  case isTrue hnil =>
    refine iff_of_false nofun ?_
    rintro ⟨hne, hall⟩
    exact hne ((htake.2 hall).symm.trans hnil)
  case isFalse hne =>
    rw [Option.some.injEq, String.ofList_inj, htake]
    constructor
    · refine fun hall => ⟨?_, hall⟩
      rintro rfl
      exact hne rfl
    · exact fun h => h.2

/-- The arguments behind those that the groups take. -/
def restAfter : List Slot → List Arg → List Arg
  | [], args => args
  | g :: gs, args =>
    match g.find args with
    | some (_, as) => restAfter gs as
    | none => restAfter gs args

theorem scan_append (gs gs' : List Slot) (args : List Arg) :
    scan (gs ++ gs') args = scan gs args ++ scan gs' (restAfter gs args) := by
  induction gs generalizing args with
  | nil => rfl
  | cons g gs ih =>
    rw [List.cons_append, scan, scan, restAfter]
    cases g.find args with
    | none => exact ih args
    | some x => exact congrArg _ (ih x.2)

theorem scan_cons_some (h : g.find args = some (a, as)) (gs : List Slot) : scan (g :: gs) args =
    (g.name, String.ofList (a.value.takeWhile g.accepts)) :: scan gs as := by
  rw [scan, h]

theorem scan_cons_none (h : g.find args = none) (gs : List Slot) :
    scan (g :: gs) args = scan gs args := by
  rw [scan, h]

theorem name_scan_of_notMem {name : String} (h : name ∉ gs.map (·.name)) (args : List Arg) :
    (scan gs args).name name = none := by
  induction gs generalizing args with
  | nil => rfl
  | cons g gs ih =>
    rw [List.map_cons, List.mem_cons, not_or] at h
    cases hfind : g.find args with
    | none =>
      rw [scan_cons_none hfind]
      exact ih h.2 args
    | some x =>
      rw [scan_cons_some hfind, Captures.name, List.lookup_cons, beq_false_of_ne h.1]
      exact ih h.2 x.2

/-- A group that has no argument captures nothing. -/
theorem name_scan_of_absent (hnames : (gs.map (·.name)).Nodup) (hg : g ∈ gs)
    (h : ∀ a ∈ args, a.key ∉ g.keys) : (scan gs args).name g.name = none := by
  induction gs generalizing args with
  | nil => cases hg
  | cons g₀ gs ih =>
    rw [List.map_cons, List.nodup_cons] at hnames
    rcases List.mem_cons.1 hg with rfl | hg'
    · cases hfind : g.find args with
      | none =>
        rw [scan_cons_none hfind]
        exact name_scan_of_notMem hnames.1 args
      | some x =>
        obtain ⟨⟨pre, rfl⟩, hkey, -⟩ := Slot.find_eq_some hfind
        exact absurd hkey (h x.1 (by simp))
    · cases hfind : g₀.find args with
      | none =>
        rw [scan_cons_none hfind]
        exact ih hnames.2 hg' h
      | some x =>
        obtain ⟨⟨pre, rfl⟩, -, -⟩ := Slot.find_eq_some hfind
        have hne : g.name ≠ g₀.name := fun heq =>
          hnames.1 (heq ▸ List.mem_map_of_mem hg')
        rw [scan_cons_some hfind, Captures.name, List.lookup_cons, beq_false_of_ne hne]
        exact ih hnames.2 hg' fun a ha => h a (by simp [ha])

theorem Slot.Once.eq_of_mem (h : g.Once args) {b : Arg} (ha : a ∈ args) (hb : b ∈ args)
    (hakey : a.key ∈ g.keys) (hbkey : b.key ∈ g.keys) : a = b := by
  obtain ⟨pre, as, hsplit⟩ := List.append_of_mem ha
  obtain ⟨pre', as', hsplit'⟩ := List.append_of_mem hb
  exact (h.unique hsplit hsplit' hakey hbkey).2.1

/-- Around the one argument of a group there is no other. -/
theorem Slot.Once.absent (h : g.Once (pre ++ a :: as)) (ha : a.key ∈ g.keys) :
    (∀ x ∈ pre, x.key ∉ g.keys) ∧ ∀ x ∈ as, x.key ∉ g.keys := by
  obtain ⟨-, has, hcross⟩ := List.pairwise_append.1 h
  exact ⟨fun x hx hkey => hcross x hx a List.mem_cons_self hkey ha,
    fun x hx => (List.pairwise_cons.1 has).1 x hx ha⟩

theorem behind_of_absent (h : ∀ a ∈ args, a.key ∉ g.keys) (g' : Slot) : Behind args g g' :=
  List.Pairwise.imp_of_mem (fun _ hb _ _ => h _ hb) (List.pairwise_of_forall fun _ _ => trivial)

theorem behind_iff (honce : g.Once (pre ++ a :: as)) (ha : a.key ∈ g.keys) :
    Behind (pre ++ a :: as) g g' ↔ ∀ x ∈ pre, x.key ∉ g'.keys := by
  obtain ⟨hpre, has⟩ := honce.absent ha
  rw [Behind, List.pairwise_append]
  constructor
  · exact fun h x hx hkey => h.2.2 x hx a List.mem_cons_self hkey ha
  · refine fun h => ⟨behind_of_absent hpre g', ?_, fun x hx _ _ hkey => absurd hkey (h x hx)⟩
    exact List.pairwise_cons.2 ⟨fun b hb _ => has b hb, behind_of_absent has g'⟩

theorem behind_append (h : ∀ x ∈ pre, x.key ∉ g'.keys) :
    Behind (pre ++ as) g g' ↔ Behind as g g' := by
  rw [Behind, List.pairwise_append]
  constructor
  · exact fun h => h.2.1
  · refine fun has => ⟨?_, has, fun x hx _ _ hkey => absurd hkey (h x hx)⟩
    exact List.Pairwise.imp_of_mem (fun hx _ _ hkey => absurd hkey (h _ hx))
      (List.pairwise_of_forall fun _ _ => trivial)

theorem inOrder_append (h : ∀ g ∈ gs, ∀ x ∈ pre, x.key ∉ g.keys) :
    InOrder gs (pre ++ as) ↔ InOrder gs as := by
  have horder : gs.Pairwise (Behind (pre ++ as)) ↔ gs.Pairwise (Behind as) :=
    List.Pairwise.iff_of_mem fun _ hg' => behind_append (h _ hg')
  constructor
  · rintro ⟨hwhole, hord⟩
    exact ⟨fun g hg a ha => hwhole g hg a (List.mem_append_right _ ha), horder.1 hord⟩
  · rintro ⟨hwhole, hord⟩
    refine ⟨fun g hg a ha hkey => ?_, horder.2 hord⟩
    rcases List.mem_append.1 ha with ha | ha
    · exact absurd hkey (h g hg a ha)
    · exact hwhole g hg a ha hkey

theorem inOrder_cons : InOrder (g :: gs) args ↔
    (∀ a ∈ args, a.key ∈ g.keys → a.value ≠ [] ∧ ∀ c ∈ a.value, g.accepts c = true) ∧
      (∀ g' ∈ gs, Behind args g g') ∧ InOrder gs args := by
  constructor
  · rintro ⟨hwhole, horder⟩
    obtain ⟨hhead, htail⟩ := List.pairwise_cons.1 horder
    exact ⟨hwhole g List.mem_cons_self, hhead,
      fun g' hg' => hwhole g' (List.mem_cons_of_mem _ hg'), htail⟩
  · rintro ⟨hg, hhead, hwhole, htail⟩
    refine ⟨fun g' hg' => ?_, List.pairwise_cons.2 ⟨hhead, htail⟩⟩
    rcases List.mem_cons.1 hg' with rfl | hg'
    · exact hg
    · exact hwhole g' hg'

/-- A group that finds nothing has no argument, if the values are read whole. -/
theorem absent_of_find_none (hfind : g.find args = none)
    (hwhole : ∀ a ∈ args, a.key ∈ g.keys → a.value ≠ [] ∧ ∀ c ∈ a.value, g.accepts c = true) :
    ∀ a ∈ args, a.key ∉ g.keys := by
  intro a ha hkey
  obtain ⟨hne, hall⟩ := hwhole a ha hkey
  have htake := Slot.find_eq_none hfind a ha hkey
  rw [List.takeWhile_eq_self_iff.2 hall] at htake
  exact hne htake

/-- The text fields are filled iff their arguments stand in the order of the groups. -/
theorem texts_filled_iff (hnames : (gs.map (·.name)).Nodup)
    (hdisj : gs.Pairwise fun g g' => ∀ k ∈ g.keys, k ∉ g'.keys) (honce : ∀ g ∈ gs, g.Once args) :
    (∀ g ∈ gs, (scan gs args).name g.name = g.value args) ↔ InOrder gs args := by
  induction gs generalizing args with
  | nil => exact iff_of_true nofun ⟨nofun, .nil⟩
  | cons g gs ih =>
    rw [List.map_cons, List.nodup_cons] at hnames
    obtain ⟨hdisj, hdisj'⟩ := List.pairwise_cons.1 hdisj
    have honce' : ∀ g' ∈ gs, g'.Once args := fun g' hg' => honce g' (List.mem_cons_of_mem _ hg')
    rw [List.forall_mem_cons, inOrder_cons]
    cases hfind : g.find args with
    | none =>
      rw [scan_cons_none hfind, name_scan_of_notMem hnames.1, ih hnames.2 hdisj' honce']
      constructor
      · rintro ⟨hvalue, horder⟩
        have habsent : ∀ a ∈ args, a.key ∉ g.keys := fun a ha hkey =>
          Slot.value_ne_none ha hkey hvalue.symm
        exact ⟨fun a ha hkey => absurd hkey (habsent a ha),
          fun g' _ => behind_of_absent habsent g', horder⟩
      · rintro ⟨hwhole, -, horder⟩
        exact ⟨(Slot.value_of_absent (absent_of_find_none hfind hwhole)).symm, horder⟩
    | some x =>
      obtain ⟨a, as⟩ := x
      obtain ⟨⟨pre, rfl⟩, hkey, hne⟩ := Slot.find_eq_some hfind
      have hg := honce g List.mem_cons_self
      have hread : (scan (g :: gs) (pre ++ a :: as)).name g.name = g.reading a.value := by
        rw [scan_cons_some hfind, Captures.name, List.lookup_cons_self, Slot.reading, if_neg hne]
      have hrest : ∀ g' ∈ gs, (scan (g :: gs) (pre ++ a :: as)).name g'.name =
          (scan gs as).name g'.name := by
        intro g' hg'
        have hne' : g'.name ≠ g.name := fun heq => hnames.1 (heq ▸ List.mem_map_of_mem hg')
        rw [scan_cons_some hfind, Captures.name, List.lookup_cons, beq_false_of_ne hne']
        rfl
      have hvalue : g.value (pre ++ a :: as) = some (String.ofList a.value) := by
        rw [Slot.value_append (hg.absent hkey).1, Slot.value_cons hkey]
      have hwhole : (∀ b ∈ pre ++ a :: as, b.key ∈ g.keys →
          b.value ≠ [] ∧ ∀ c ∈ b.value, g.accepts c = true) ↔
            g.reading a.value = some (String.ofList a.value) := by
        rw [Slot.reading_eq_value]
        refine ⟨fun h => h a (by simp) hkey, fun h b hb hbkey => ?_⟩
        rw [hg.eq_of_mem hb (by simp) hbkey hkey]
        exact h
      have hsame : (∀ g' ∈ gs, ∀ x ∈ pre, x.key ∉ g'.keys) →
          ∀ g' ∈ gs, ∀ x ∈ pre ++ [a], x.key ∉ g'.keys := by
        intro h g' hg' x hx
        rcases List.mem_append.1 hx with hx | hx
        · exact h g' hg' x hx
        · rw [List.mem_singleton.1 hx]
          exact hdisj g' hg' a.key hkey
      have htail : pre ++ a :: as = (pre ++ [a]) ++ as := List.append_cons pre a as
      have hoas : ∀ g' ∈ gs, g'.Once as := fun g' hg' =>
        (honce' g' hg').sublist
          ((List.sublist_cons_self a as).trans (List.sublist_append_right _ _))
      have hbehind : (∀ g' ∈ gs, Behind (pre ++ a :: as) g g') ↔
          ∀ g' ∈ gs, ∀ x ∈ pre, x.key ∉ g'.keys :=
        forall₂_congr fun g' _ => behind_iff hg hkey
      rw [hread, hvalue, hwhole, hbehind]
      refine and_congr_right fun _ => ?_
      constructor
      · intro hfilled
        have hpre : ∀ g' ∈ gs, ∀ x ∈ pre, x.key ∉ g'.keys := by
          intro g' hg' x hx hxkey
          have habsent : ∀ y ∈ as, y.key ∉ g'.keys := fun y hy =>
            (List.pairwise_append.1 (honce' g' hg')).2.2 x hx y (List.mem_cons_of_mem _ hy) hxkey
          have hnone := name_scan_of_absent hnames.2 hg' habsent
          rw [← hrest g' hg', hfilled g' hg'] at hnone
          exact Slot.value_ne_none (List.mem_append_left _ hx) hxkey hnone
        refine ⟨hpre, ?_⟩
        rw [htail, inOrder_append (hsame hpre), ← ih hnames.2 hdisj' hoas]
        intro g' hg'
        rw [← hrest g' hg', hfilled g' hg', htail, Slot.value_append (hsame hpre g' hg')]
      · rintro ⟨hpre, horder⟩ g' hg'
        rw [htail, inOrder_append (hsame hpre), ← ih hnames.2 hdisj' hoas] at horder
        rw [hrest g' hg', horder g' hg', htail, Slot.value_append (hsame hpre g' hg')]

/-- What the groups leave: an argument of another group is left iff none of theirs stands behind
it. -/
theorem exists_restAfter (horder : InOrder gs args) (honce : ∀ g ∈ gs, g.Once args)
    (hpair : gs.Pairwise fun g g' => ∀ k ∈ g.keys, k ∉ g'.keys)
    (hdisj : ∀ g ∈ gs, ∀ k ∈ g.keys, k ∉ g'.keys) :
    ∃ pre, args = pre ++ restAfter gs args ∧
      ((∀ g ∈ gs, Behind args g g') ↔ ∀ x ∈ pre, x.key ∉ g'.keys) := by
  induction gs generalizing args with
  | nil => exact ⟨[], rfl, iff_of_true nofun nofun⟩
  | cons g gs ih =>
    obtain ⟨hwhole, hhead, htail⟩ := inOrder_cons.1 horder
    obtain ⟨hpair, hpair'⟩ := List.pairwise_cons.1 hpair
    have honce' : ∀ g₀ ∈ gs, g₀.Once args := fun g₀ hg₀ => honce g₀ (List.mem_cons_of_mem _ hg₀)
    have hdisj' : ∀ g₀ ∈ gs, ∀ k ∈ g₀.keys, k ∉ g'.keys := fun g₀ hg₀ =>
      hdisj g₀ (List.mem_cons_of_mem _ hg₀)
    rw [restAfter]
    cases hfind : g.find args with
    | none =>
      obtain ⟨pre, hsplit, hiff⟩ := ih htail honce' hpair' hdisj'
      refine ⟨pre, hsplit, ?_⟩
      rw [List.forall_mem_cons, hiff, and_iff_right]
      exact behind_of_absent (absent_of_find_none hfind hwhole) g'
    | some x =>
      obtain ⟨a, as⟩ := x
      obtain ⟨⟨pre, rfl⟩, hkey, -⟩ := Slot.find_eq_some hfind
      have hg := honce g List.mem_cons_self
      have happ : pre ++ a :: as = (pre ++ [a]) ++ as := List.append_cons pre a as
      have hagain : ∀ g₀ ∈ gs, ∀ x ∈ pre ++ [a], x.key ∉ g₀.keys := fun g₀ hg₀ x hx => by
        rcases List.mem_append.1 hx with hx | hx
        · exact (behind_iff hg hkey).1 (hhead g₀ hg₀) x hx
        · rw [List.mem_singleton.1 hx]
          exact hpair g₀ hg₀ a.key hkey
      have hoas : ∀ g₀ ∈ gs, g₀.Once as := fun g₀ hg₀ =>
        (honce' g₀ hg₀).sublist
          ((List.sublist_cons_self a as).trans (List.sublist_append_right _ _))
      rw [happ, inOrder_append hagain] at htail
      obtain ⟨pre', hsplit, hiff⟩ := ih htail hoas hpair' hdisj'
      refine ⟨pre ++ a :: pre', ?_, ?_⟩
      · rw [List.append_assoc, List.cons_append, ← hsplit]
      · rw [List.forall_mem_cons, behind_iff hg hkey, List.forall_mem_append, List.forall_mem_cons,
          ← hiff, happ]
        refine and_congr_right fun hpre => ?_
        have hfront : ∀ x ∈ pre ++ [a], x.key ∉ g'.keys := fun x hx => by
          rcases List.mem_append.1 hx with hx | hx
          · exact hpre x hx
          · rw [List.mem_singleton.1 hx]
            exact hdisj g List.mem_cons_self a.key hkey
        rw [and_iff_right (hdisj g List.mem_cons_self a.key hkey)]
        exact forall₂_congr fun g₀ _ => behind_append hfront

/-- What the last group reads. -/
theorem name_scan_number (honce : g.Once args) (ha : a ∈ args) (hkey : a.key ∈ g.keys) :
    (scan [g] args).name g.name = g.reading a.value := by
  cases hfind : g.find args with
  | none =>
    rw [scan_cons_none hfind, Slot.reading, if_pos (Slot.find_eq_none hfind a ha hkey)]
    rfl
  | some x =>
    obtain ⟨⟨pre, rfl⟩, hxkey, hne⟩ := Slot.find_eq_some hfind
    obtain rfl := honce.eq_of_mem ha (by simp) hkey hxkey
    rw [scan_cons_some hfind, Captures.name, List.lookup_cons_self, Slot.reading, if_neg hne]

/-- With the text fields filled, the number is filled iff it is read for what it is. -/
theorem number_filled_iff {β : Type} {parse : String → Option β} (horder : InOrder gs args)
    (hname : g.name ∉ gs.map (·.name)) (honce : ∀ g' ∈ gs ++ [g], g'.Once args)
    (hdisj : (gs ++ [g]).Pairwise fun g g' => ∀ k ∈ g.keys, k ∉ g'.keys) :
    ((scan (gs ++ [g]) args).name g.name).bind parse = (g.value args).bind parse ↔
      NumberRead gs g parse args := by
  obtain ⟨hpair, -, hcross⟩ := List.pairwise_append.1 hdisj
  have hg : g.Once args := honce g (by simp)
  obtain ⟨pre, hsplit, hiff⟩ := exists_restAfter horder
    (fun g' hg' => honce g' (List.mem_append_left _ hg')) hpair
    (fun g' hg' => hcross g' hg' g List.mem_cons_self)
  have hscan :
      (scan (gs ++ [g]) args).name g.name = (scan [g] (restAfter gs args)).name g.name := by
    have hnone := name_scan_of_notMem hname args
    rw [Captures.name] at hnone ⊢
    rw [scan_append, List.lookup_append, hnone]
    rfl
  rw [hscan]
  by_cases hex : ∃ a ∈ args, a.key ∈ g.keys
  case neg =>
    have habsent : ∀ a ∈ args, a.key ∉ g.keys := fun a ha hkey => hex ⟨a, ha, hkey⟩
    have hrest : ∀ a ∈ restAfter gs args, a.key ∉ g.keys := fun a ha =>
      habsent a (hsplit ▸ List.mem_append_right _ ha)
    rw [Slot.value_of_absent habsent, name_scan_of_absent (by simp) List.mem_cons_self hrest]
    exact iff_of_true rfl fun a ha hkey => absurd hkey (habsent a ha)
  case pos =>
    obtain ⟨a, ha, hkey⟩ := hex
    have hvalue : g.value args = some (String.ofList a.value) := by
      obtain ⟨p, as, rfl⟩ := List.append_of_mem ha
      rw [Slot.value_append (hg.absent hkey).1, Slot.value_cons hkey]
    have hread : NumberRead gs g parse args ↔
        ((∀ g' ∈ gs, Behind args g' g) →
          (g.reading a.value).bind parse = parse (String.ofList a.value)) ∧
        ((¬ ∀ g' ∈ gs, Behind args g' g) → parse (String.ofList a.value) = none) := by
      refine ⟨fun h => h a ha hkey, fun h b hb hbkey => ?_⟩
      rw [hg.eq_of_mem hb ha hbkey hkey]
      exact h
    rw [hvalue, Option.bind_some, hread, hiff]
    rw [hsplit] at hg ha
    rcases List.mem_append.1 ha with hpre | hrest
    · have habsent : ∀ b ∈ restAfter gs args, b.key ∉ g.keys := fun b hb =>
        (List.pairwise_append.1 hg).2.2 a hpre b hb hkey
      have hnot : ¬ ∀ x ∈ pre, x.key ∉ g.keys := fun h => h a hpre hkey
      rw [name_scan_of_absent (by simp) List.mem_cons_self habsent, Option.bind_none]
      exact ⟨fun h => ⟨fun h' => absurd h' hnot, fun _ => h.symm⟩, fun h => (h.2 hnot).symm⟩
    · have habsent : ∀ x ∈ pre, x.key ∉ g.keys := fun x hx hxkey =>
        (List.pairwise_append.1 hg).2.2 x hx a hrest hxkey hkey
      rw [name_scan_number (List.pairwise_append.1 hg).2.1 hrest hkey]
      exact ⟨fun h => ⟨fun _ => h, fun h' => absurd habsent h'⟩, fun h => h.1 habsent⟩

end

theorem Request.Valid.filled_iff {r : Request} (hr : r.Valid) {args : List Arg}
    (hargs : r.Args args)
    {β : Type} (parse : String → Option β) :
    ((∀ g ∈ r.texts, (scan r.slots args).name g.name = g.value args) ∧
        ((scan r.slots args).name r.number.name).bind parse = (r.number.value args).bind parse) ↔
      InOrder r.texts args ∧ NumberRead r.texts r.number parse args := by
  have hdisj := List.pairwise_map.1 hr.disjoint
  have hnames := hr.names
  rw [slots, List.map_append, List.nodup_append] at hnames
  have hnumber : r.number.name ∉ r.texts.map (·.name) := fun hmem =>
    hnames.2.2 _ hmem _ List.mem_cons_self rfl
  have htexts : ∀ g ∈ r.texts,
      (scan r.slots args).name g.name = (scan r.texts args).name g.name := by
    intro g hg
    have hlast : (scan [r.number] (restAfter r.texts args)).name g.name = none :=
      name_scan_of_notMem (fun hmem => hnames.2.2 _ (List.mem_map_of_mem hg) _ hmem rfl) _
    rw [Captures.name] at hlast ⊢
    rw [slots, scan_append, List.lookup_append, hlast, Option.or_none]
    rfl
  have honce : ∀ g ∈ r.texts, g.Once args := fun g hg =>
    hargs.once g (List.mem_append_left _ hg)
  have hfilled := texts_filled_iff hnames.1 (List.pairwise_append.1 hdisj).1 honce
  rw [← hfilled, forall₂_congr fun g hg => by rw [htexts g hg]]
  refine and_congr_right fun h => ?_
  exact number_filled_iff (hfilled.1 h) hnumber hargs.once hdisj

/-- The value of a field does not depend on the order of the arguments. -/
theorem Slot.value_perm {g : Slot} {args args' : List Arg} (honce : g.Once args)
    (h : args.Perm args') : g.value args = g.value args' := by
  by_cases hex : ∃ a ∈ args, a.key ∈ g.keys
  case neg =>
    rw [Slot.value_of_absent fun a ha hkey => hex ⟨a, ha, hkey⟩,
      Slot.value_of_absent fun a ha hkey => hex ⟨a, h.mem_iff.2 ha, hkey⟩]
  case pos =>
    obtain ⟨a, ha, hkey⟩ := hex
    have hfind : ∀ {l : List Arg}, (∀ b, b ∈ l ↔ b ∈ args) →
        l.find? (fun b => g.keys.contains b.key) = some a := by
      intro l hl
      cases hfound : l.find? (fun b => g.keys.contains b.key) with
      | none =>
        have hno := List.find?_eq_none.1 hfound a ((hl a).2 ha)
        exact absurd (List.contains_iff_mem.2 hkey) hno
      | some b =>
        have hb := (hl b).1 (List.mem_of_find?_eq_some hfound)
        have hbkey : g.keys.contains b.key = true :=
          List.find?_some (p := fun b : Arg => g.keys.contains b.key) hfound
        rw [honce.eq_of_mem ha hb hkey (List.contains_iff_mem.1 hbkey)]
    rw [Slot.value, Slot.value, hfind fun _ => Iff.rfl, hfind fun b => h.mem_iff.symm]

/-! ## The classifier -/

instance {r : Request} {s : List Char} : Decidable (r.Free s) :=
  inferInstanceAs (Decidable (∀ k ∈ r.keys, ¬ k <:+: s))

theorem sep_of_all {ks : List (List Char)} {seps : List Char}
    (h : (ks.all fun k => seps.all fun c => !k.contains c) = true) :
    ∀ k ∈ ks, ∀ c ∈ seps, c ∉ k := by
  intro k hk c hc
  have hno := List.all_eq_true.1 (List.all_eq_true.1 h k hk) c hc
  simpa using hno

theorem sendShopBuy_valid (d : DecimalDigits) : (sendShopBuy d).Valid := by
  have hkeys : (sendShopBuy d).keys =
      ["shopId".toList, "itemClass".toList, "item".toList, "quantity".toList] := rfl
  have hslots : (sendShopBuy d).slots.map (·.keys) =
      [["shopId".toList], ["itemClass".toList, "item".toList], ["quantity".toList]] := rfl
  have hnames : (sendShopBuy d).slots.map (·.name) = ["shop", "item", "qty"] := rfl
  exact
    { keys_sep := by rw [hkeys]; exact sep_of_all (by decide)
      keys_suffix := by rw [hkeys]; decide
      disjoint := by rw [hslots]; decide
      names := by rw [hnames]; decide
      marker := ⟨"endShopBuyRequest".toList,
        by show "SendShopBuyRequest".toList = _; decide,
        by rw [Request.Free, hkeys]; decide⟩
      anchor_plain := rfl
      anchor_open := by show ∀ u ∈ shopBuyAnchor.words, '(' ∉ u; decide
      anchor_marker := by show "SendShopBuyRequest".toList ∈ shopBuyAnchor.words; decide }

theorem sendCommodityBuy_valid : sendCommodityBuy.Valid where
  keys_sep := sep_of_all (by decide)
  keys_suffix := by decide
  disjoint := by decide
  names := by decide
  marker := ⟨"endCommodityBuyRequest".toList, by decide, by decide⟩
  anchor_plain := rfl
  anchor_open := by decide
  anchor_marker := by decide

theorem sendCommoditySell_valid : sendCommoditySell.Valid where
  keys_sep := sep_of_all (by decide)
  keys_suffix := by decide
  disjoint := by decide
  names := by decide
  marker := ⟨"endCommoditySellRequest".toList, by decide, by decide⟩
  anchor_plain := rfl
  anchor_open := by decide
  anchor_marker := by decide

theorem sendShopBuy_earlier (d : DecimalDigits) :
    (sendShopBuy d).earlier = ["[STOWING ON UNREGISTER]", "CreateMissionObjectiveMarker"] := rfl

theorem sendCommodityBuy_earlier : sendCommodityBuy.earlier =
    ["[STOWING ON UNREGISTER]", "CreateMissionObjectiveMarker", "SendShopBuyRequest",
      "SendStandardItemBuyRequest", "SendStandardShopBuyRequest", "ShopFlowResponse"] := rfl

/-- `str::parse` at `u32` -/
def parseU32 (s : String) : Option UInt32 := (parseUnsigned (2 ^ 32) s).map Nat.toUInt32

/-- The event of a request at a shop with these arguments. -/
def shopBuyEvent (d : DecimalDigits) (ts raw : String) (args : List Arg) : GameEvent :=
  .shopBuyRequest
    { timestamp := ts
      shopId := shopSlot.value args
      itemClass := itemSlot.value args
      quantity := ((quantitySlot d).value args).bind parseU32
      raw := Text.trim raw
      price := none
      shopName := none }

def commodityBuyEvent (parseF64 : String → Option Fp) (ts raw : String) (args : List Arg) :
    GameEvent :=
  .commodityBuyRequest
    { timestamp := ts
      commodity := commoditySlot.value args
      quantity := (amountSlot.value args).bind parseF64
      raw := Text.trim raw }

def commoditySellEvent (parseF64 : String → Option Fp) (ts raw : String) (args : List Arg) :
    GameEvent :=
  .commoditySellRequest
    { timestamp := ts
      commodity := commoditySlot.value args
      quantity := (amountSlot.value args).bind parseF64
      raw := Text.trim raw }

namespace RequestBody
variable {r : Request} (b : RequestBody r)

theorem not_contains {m : String} (hm : m ∈ r.earlier) :
    ¬ Text.contains (String.ofList b.text) m = true := by
  rw [Text.contains_iff, String.toList_ofList]
  exact b.first m hm

theorem contains_of_marker {m : String} (hm : m.toList <:+: r.marker) :
    Text.contains (String.ofList b.text) m = true := by
  rw [Text.contains_iff, String.toList_ofList, text, List.append_assoc]
  exact hm.trans ((List.prefix_append _ _).isInfix.trans (List.suffix_append _ _).isInfix)

end RequestBody

variable (env : ClassifyEnv) (d : DecimalDigits) (ts : String)

theorem classify_shopBuy (b : RequestBody (sendShopBuy d)) :
    (env.withRequests d).classifyBodyPrefix ts (String.ofList b.text) = some (.shopBuyRequest
      { timestamp := ts
        shopId := (scan (sendShopBuy d).slots b.args).name "shop"
        itemClass := (scan (sendShopBuy d).slots b.args).name "item"
        quantity := ((scan (sendShopBuy d).slots b.args).name "qty").bind parseU32
        raw := Text.trim (String.ofList b.text)
        price := none
        shopName := none }) := by
  have hmarker : "SendShopBuyRequest".toList <:+: (sendShopBuy d).marker := List.infix_refl _
  have hshop : ClassifyEnv.isShopBuy (String.ofList b.text) = true := by
    rw [ClassifyEnv.isShopBuy, b.contains_of_marker hmarker,
      b.contains_of_marker (m := "BuyRequest") (by
        show "BuyRequest".toList <:+: "SendShopBuyRequest".toList; decide)]
    rfl
  rw [ClassifyEnv.classifyBodyPrefix,
    if_neg (b.not_contains (m := "[STOWING ON UNREGISTER]") (by simp [sendShopBuy_earlier])),
    if_neg (b.not_contains (m := "CreateMissionObjectiveMarker") (by simp [sendShopBuy_earlier])),
    if_pos hshop]
  dsimp only [ClassifyEnv.withRequests]
  rw [(sendShopBuy_valid d).captures_text b]
  simp only [Option.bind_some, Option.map_bind]
  rfl

/-- With none of the markers that are looked for first, the body is looked at for a commodity. -/
theorem classify_commodity {body : String}
    (h : ∀ m ∈ sendCommodityBuy.earlier, ¬ Text.contains body m = true) :
    (env.withRequests d).classifyBodyPrefix ts body =
      if Text.contains body "SendCommodityBuyRequest" then
        let c := sendCommodityBuy.pattern.captures body
        some (.commodityBuyRequest
          { timestamp := ts
            commodity := c.bind (·.name "commodity")
            quantity := (c.bind (·.name "qty")).bind env.parseF64
            raw := Text.trim body })
      else if Text.contains body "SendCommoditySellRequest" then
        let c := sendCommoditySell.pattern.captures body
        some (.commoditySellRequest
          { timestamp := ts
            commodity := c.bind (·.name "commodity")
            quantity := (c.bind (·.name "qty")).bind env.parseF64
            raw := Text.trim body })
      else if Text.contains body "CCIGBroker::FastShutdown" then
        some (.sessionEnd { timestamp := ts, kind := .fastShutdown })
      else none := by
  have hshop : ¬ ClassifyEnv.isShopBuy body = true := by
    rw [ClassifyEnv.isShopBuy]
    simp only [Bool.and_eq_true, Bool.or_eq_true, not_and, not_or]
    exact fun _ => ⟨⟨h _ (by simp [sendCommodityBuy_earlier]),
        h _ (by simp [sendCommodityBuy_earlier])⟩,
      h _ (by simp [sendCommodityBuy_earlier])⟩
  rw [ClassifyEnv.classifyBodyPrefix,
    if_neg (h "[STOWING ON UNREGISTER]" (by simp [sendCommodityBuy_earlier])),
    if_neg (h "CreateMissionObjectiveMarker" (by simp [sendCommodityBuy_earlier])), if_neg hshop,
    if_neg (h "ShopFlowResponse" (by simp [sendCommodityBuy_earlier]))]
  rfl

theorem classify_commodityBuy (b : RequestBody sendCommodityBuy) :
    (env.withRequests d).classifyBodyPrefix ts (String.ofList b.text) = some (.commodityBuyRequest
      { timestamp := ts
        commodity := (scan sendCommodityBuy.slots b.args).name "commodity"
        quantity := ((scan sendCommodityBuy.slots b.args).name "qty").bind env.parseF64
        raw := Text.trim (String.ofList b.text) }) := by
  rw [classify_commodity env d ts fun _ hm => b.not_contains hm,
    if_pos (b.contains_of_marker (List.infix_refl _)), sendCommodityBuy_valid.captures_text b]
  rfl

theorem classify_commoditySell (b : RequestBody sendCommoditySell) :
    (env.withRequests d).classifyBodyPrefix ts (String.ofList b.text) = some (.commoditySellRequest
      { timestamp := ts
        commodity := (scan sendCommoditySell.slots b.args).name "commodity"
        quantity := ((scan sendCommoditySell.slots b.args).name "qty").bind env.parseF64
        raw := Text.trim (String.ofList b.text) }) := by
  have hearlier : sendCommoditySell.earlier =
      sendCommodityBuy.earlier ++ ["SendCommodityBuyRequest"] := rfl
  rw [classify_commodity env d ts fun m hm => b.not_contains (m := m) (by
      rw [hearlier]
      exact List.mem_append_left _ hm),
    if_neg (b.not_contains (by rw [hearlier]; simp)),
    if_pos (b.contains_of_marker (List.infix_refl _)), sendCommoditySell_valid.captures_text b]
  rfl

/-- For so many arguments, in any order: the event has the value of each iff the text arguments
stand in the order of the groups and are read whole, and the number is read for what it is. -/
theorem requests_filled_iff (args : List Arg) :
    (∀ b : RequestBody (sendShopBuy d), b.args.Perm args →
      ((env.withRequests d).classifyBodyPrefix ts (String.ofList b.text) =
          some (shopBuyEvent d ts (String.ofList b.text) args) ↔
        InOrder [shopSlot, itemSlot] b.args ∧
          NumberRead [shopSlot, itemSlot] (quantitySlot d) parseU32 b.args)) ∧
    (∀ b : RequestBody sendCommodityBuy, b.args.Perm args →
      ((env.withRequests d).classifyBodyPrefix ts (String.ofList b.text) =
          some (commodityBuyEvent env.parseF64 ts (String.ofList b.text) args) ↔
        InOrder [commoditySlot] b.args ∧
          NumberRead [commoditySlot] amountSlot env.parseF64 b.args)) ∧
    ∀ b : RequestBody sendCommoditySell, b.args.Perm args →
      ((env.withRequests d).classifyBodyPrefix ts (String.ofList b.text) =
          some (commoditySellEvent env.parseF64 ts (String.ofList b.text) args) ↔
        InOrder [commoditySlot] b.args ∧
          NumberRead [commoditySlot] amountSlot env.parseF64 b.args) := by
  refine ⟨fun b hperm => ?_, fun b hperm => ?_, fun b hperm => ?_⟩
  · have hvalue : ∀ g ∈ (sendShopBuy d).slots, g.value args = g.value b.args := fun g hg =>
      (Slot.value_perm (b.args_ok.once g hg) hperm).symm
    have hfilled := (sendShopBuy_valid d).filled_iff b.args_ok parseU32
    rw [classify_shopBuy, shopBuyEvent, hvalue shopSlot (.head _),
      hvalue itemSlot (.tail _ (.head _)),
      hvalue (quantitySlot d) (.tail _ (.tail _ (.head _)))]
    refine Iff.trans ?_ hfilled
    show _ ↔ (∀ g ∈ [shopSlot, itemSlot], _) ∧ _
    simp only [Option.some.injEq, GameEvent.shopBuyRequest.injEq, Events.ShopBuyRequest.mk.injEq,
      true_and, and_true, List.forall_mem_cons, List.not_mem_nil, false_implies, implies_true]
    exact and_assoc.symm
  · have hvalue : ∀ g ∈ sendCommodityBuy.slots, g.value args = g.value b.args := fun g hg =>
      (Slot.value_perm (b.args_ok.once g hg) hperm).symm
    rw [classify_commodityBuy, commodityBuyEvent, hvalue commoditySlot (.head _),
      hvalue amountSlot (.tail _ (.head _))]
    refine Iff.trans ?_ (sendCommodityBuy_valid.filled_iff b.args_ok env.parseF64)
    show _ ↔ (∀ g ∈ [commoditySlot], _) ∧ _
    simp only [Option.some.injEq, GameEvent.commodityBuyRequest.injEq,
      Events.CommodityBuyRequest.mk.injEq, true_and, and_true, List.forall_mem_singleton]
    exact Iff.rfl
  · have hvalue : ∀ g ∈ sendCommoditySell.slots, g.value args = g.value b.args := fun g hg =>
      (Slot.value_perm (b.args_ok.once g hg) hperm).symm
    rw [classify_commoditySell, commoditySellEvent, hvalue commoditySlot (.head _),
      hvalue amountSlot (.tail _ (.head _))]
    refine Iff.trans ?_ (sendCommoditySell_valid.filled_iff b.args_ok env.parseF64)
    show _ ↔ (∀ g ∈ [commoditySlot], _) ∧ _
    simp only [Option.some.injEq, GameEvent.commoditySellRequest.injEq,
      Events.CommoditySellRequest.mk.injEq, true_and, and_true, List.forall_mem_singleton]
    exact Iff.rfl

/-! ## Two purchases -/

instance {args : List Arg} {g g' : Slot} : Decidable (Behind args g g') :=
  inferInstanceAs (Decidable (args.Pairwise fun a b => a.key ∈ g'.keys → b.key ∉ g.keys))

instance {g : Slot} {args : List Arg} : Decidable (g.Once args) :=
  inferInstanceAs (Decidable (args.Pairwise fun a b => a.key ∈ g.keys → b.key ∉ g.keys))

instance {β : Type} [DecidableEq β] {gs : List Slot} {number : Slot} {parse : String → Option β}
    {args : List Arg} : Decidable (NumberRead gs number parse args) :=
  inferInstanceAs (Decidable (∀ a ∈ args, a.key ∈ number.keys →
    ((∀ g ∈ gs, Behind args g number) →
      (number.reading a.value).bind parse = parse (String.ofList a.value)) ∧
    ((¬ ∀ g ∈ gs, Behind args g number) → parse (String.ofList a.value) = none)))

def asciiDigits : DecimalDigits := ⟨Char.isDigit, fun _ _ => rfl⟩

def shopArg : Arg := ⟨"shopId".toList, "S1".toList⟩

def quantityArg : Arg := ⟨"quantity".toList, "2".toList⟩

/-- `SendShopBuyRequest(shopId=S1, quantity=2)` -/
def shopFirst : RequestBody (sendShopBuy asciiDigits) where
  before := []
  args := [shopArg, quantityArg]
  after := []
  before_free := by decide
  after_free := by decide
  args_ok := ⟨by decide, by decide, by decide, by decide⟩
  line := by decide
  first := by decide

/-- `SendShopBuyRequest(quantity=2, shopId=S1)` -/
def quantityFirst : RequestBody (sendShopBuy asciiDigits) where
  before := []
  args := [quantityArg, shopArg]
  after := []
  before_free := by decide
  after_free := by decide
  args_ok := ⟨by decide, by decide, by decide, by decide⟩
  line := by decide
  first := by decide

theorem requests_filled_shopFirst :
    (ClassifyEnv.nothingFound.withRequests asciiDigits).classifyBodyPrefix ""
        (String.ofList shopFirst.text) =
      some (shopBuyEvent asciiDigits "" (String.ofList shopFirst.text) [quantityArg, shopArg]) := by
  have hwhole : ∀ g ∈ [shopSlot, itemSlot], ∀ a ∈ shopFirst.args, a.key ∈ g.keys →
      g.reading a.value = some (String.ofList a.value) := by decide +kernel
  exact ((requests_filled_iff ClassifyEnv.nothingFound asciiDigits ""
    [quantityArg, shopArg]).1 shopFirst
    (.swap _ _ _)).2 ⟨⟨fun g hg a ha hkey => Slot.reading_eq_value.1 (hwhole g hg a ha hkey),
      by decide +kernel⟩, by decide +kernel⟩

/-- The quantity is lost when the shop stands behind it. -/
theorem requests_quantityFirst : ¬ ∀ (env : ClassifyEnv) (d : DecimalDigits) (ts : String)
    (args : List Arg) (b : RequestBody (sendShopBuy d)), b.args.Perm args →
      (env.withRequests d).classifyBodyPrefix ts (String.ofList b.text) =
        some (shopBuyEvent d ts (String.ofList b.text) args) := by
  intro h
  have hfilled :=
    h ClassifyEnv.nothingFound asciiDigits "" quantityFirst.args quantityFirst (.refl _)
  rw [classify_shopBuy, shopBuyEvent] at hfilled
  simp only [Option.some.injEq, GameEvent.shopBuyRequest.injEq,
    Events.ShopBuyRequest.mk.injEq] at hfilled
  exact absurd hfilled.2.2.2.1 (by decide +kernel)

end StarStats
