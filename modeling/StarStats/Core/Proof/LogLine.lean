import StarStats.Core.LogLine

/-!
# The shell is read back

`structuralParse_render_iff`: what a line was written from is what is read from it, unless the line
has no tags and the body ends in a word in brackets. `TAG_TAIL_RE` asks for no space in front of the
tags, so such a field of the body is taken for one.
-/

namespace StarStats

open Text (isWhitespace)

namespace LogLine

/-- `[tag]` -/
def tagText (tag : List Char) : List Char := '[' :: (tag ++ [']'])

def IsTag (tag : List Char) : Prop := tag ≠ [] ∧ ∀ c ∈ tag, isTagChar c = true

/-- Characters other than angle brackets, and groups `<…>` of them. -/
inductive EventText : List Char → Prop where
  | nil : EventText []
  | char {c : Char} {cs : List Char} (hopen : c ≠ '<') (hclose : c ≠ '>') (h : EventText cs) :
      EventText (c :: cs)
  | group {inner cs : List Char} (hopen : '<' ∉ inner) (hclose : '>' ∉ inner) (h : EventText cs) :
      EventText ('<' :: (inner ++ '>' :: cs))

/-- The parts of a line. -/
structure Parts where
  ts : List Char
  level : List Char
  event : List Char
  body : List Char
  tags : List (List Char)
  ts_ne : ts ≠ []
  ts_close : '>' ∉ ts
  level_ne : level ≠ []
  level_alpha : ∀ c ∈ level, c.isAlpha = true
  event_ne : event ≠ []
  event_text : EventText event
  body_ne : body ≠ []
  body_line : '\n' ∉ body
  body_head : ∀ c ∈ body.head?, isWhitespace c = false
  body_last : ∀ c ∈ body.getLast?, isWhitespace c = false
  tags_tag : ∀ tag ∈ tags, IsTag tag

/-- A tag run behind a space, or nothing. -/
def tagTail (tags : List (List Char)) : List Char :=
  if tags.isEmpty then [] else ' ' :: tags.flatMap tagText

namespace Parts

/-- What stands behind the event name. -/
def rest (p : Parts) : List Char := p.body ++ tagTail p.tags

/-- `<ts> [level] <event> body [tag1][tag2]` -/
def render (p : Parts) : String :=
  String.ofList ('<' :: (p.ts ++ '>' :: ' ' :: '[' :: (p.level ++ ']' :: ' ' :: '<' ::
    (p.event ++ '>' :: ' ' :: p.rest))))

def line (p : Parts) : LogLine where
  timestamp := String.ofList p.ts
  level := some (String.ofList p.level)
  eventName := some (String.ofList p.event)
  body := String.ofList p.body
  tags := p.tags.map String.ofList

end Parts

/-- The body ends in a word in brackets. -/
def EndsInTag (body : List Char) : Prop := ∃ front tag, body = front ++ tagText tag ∧ IsTag tag

/-! ## The event name -/

theorem eventEnd_nested {inner cs : List Char} (hclose : '>' ∉ inner) :
    eventEnd true (inner ++ '>' :: cs) =
      (eventEnd false cs).map fun (name, after) => (inner ++ '>' :: name, after) := by
  induction inner with
  | nil => rw [List.nil_append, eventEnd, if_pos rfl]; rfl
  | cons c inner ih =>
    have hc : c ≠ '>' := fun h => hclose (h ▸ List.mem_cons_self)
    rw [List.cons_append, eventEnd, Bool.true_or, ih fun h => hclose (List.mem_cons_of_mem _ h),
      Option.map_map]
    · rfl
    · exact hc

theorem eventEnd_eq {event cs : List Char} (h : EventText event) :
    eventEnd false (event ++ '>' :: cs) = some (event, cs) := by
  induction h with
  | nil => rw [List.nil_append, eventEnd, if_neg Bool.false_ne_true]
  | @char c event hopen hclose _ ih =>
    rw [List.cons_append, eventEnd, Bool.false_or, beq_eq_false_iff_ne.2 hopen, ih]
    · rfl
    · exact hclose
  | @group inner event hopen hclose _ ih =>
    rw [List.cons_append, eventEnd, List.append_assoc, List.cons_append, Bool.false_or,
      beq_self_eq_true, eventEnd_nested hclose, ih]
    · rfl
    · decide

/-- A name without angle brackets. -/
theorem EventText.of_plain {cs : List Char} (h : ∀ c ∈ cs, (c != '<' && c != '>') = true) :
    EventText cs := by
  induction cs with
  | nil => exact .nil
  | cons c cs ih =>
    have hc := h c List.mem_cons_self
    rw [Bool.and_eq_true, bne_iff_ne, bne_iff_ne] at hc
    exact .char hc.1 hc.2 (ih fun d hd => h d (List.mem_cons_of_mem _ hd))

/-! ## The tags -/

section
variable {tags : List String} {back : List Char}

/-- Between tags it does not matter what has been kept. -/
theorem tagRun_back (back' cs : List Char) :
    tagRun tags back none cs = tagRun tags back' none cs := by
  cases cs <;> rfl

/-- The characters of a tag, from the last. -/
theorem tagRun_inside {u name r : List Char} (hu : ∀ c ∈ u, isTagChar c = true)
    (hne : u.reverse ++ name ≠ []) :
    tagRun tags back (some name) (u ++ '[' :: r) =
      tagRun (String.ofList (u.reverse ++ name) :: tags) r none r := by
  induction u generalizing name with
  | nil =>
    rw [List.nil_append, tagRun, if_neg (by decide)]
    exact if_pos ⟨rfl, hne⟩
  | cons c u ih =>
    rw [List.cons_append, tagRun]
    simp only [hu c List.mem_cons_self, if_pos]
    rw [ih (fun d hd => hu d (List.mem_cons_of_mem _ hd)) (by simp)]
    simp

theorem tagRun_tag {tag r : List Char} (h : IsTag tag) :
    tagRun tags back none ((tagText tag).reverse ++ r) =
      tagRun (String.ofList tag :: tags) back none r := by
  have hrev : (tagText tag).reverse ++ r = ']' :: (tag.reverse ++ '[' :: r) := by simp [tagText]
  rw [hrev, tagRun]
  simp only [if_pos]
  rw [tagRun_inside (fun c hc => h.2 c (List.mem_reverse.1 hc)) (by simpa using h.1)]
  rw [List.reverse_reverse, List.append_nil]
  exact tagRun_back _ _

theorem tagRun_tags {run : List (List Char)} {r : List Char} (h : ∀ tag ∈ run, IsTag tag) :
    tagRun tags back none ((run.flatMap tagText).reverse ++ r) =
      tagRun (run.map String.ofList ++ tags) back none r := by
  induction run generalizing r with
  | nil => rfl
  | cons tag run ih =>
    rw [List.flatMap_cons, List.reverse_append, List.append_assoc,
      ih fun t ht => h t (List.mem_cons_of_mem _ ht), tagRun_tag (h tag List.mem_cons_self)]
    rfl

/-- What has been read as a tag stays one. -/
theorem tagRun_keeps (tags : List String) (back : List Char) (inside : Option (List Char))
    (cs : List Char) : ∃ more, (tagRun tags back inside cs).1 = more ++ tags := by
  induction cs generalizing tags back inside with
  | nil => cases inside <;> exact ⟨[], rfl⟩
  | cons c cs ih =>
    cases inside with
    | none =>
      rw [tagRun]
      split
      · exact ih _ _ _
      · exact ⟨[], rfl⟩
    | some name =>
      rw [tagRun]
      split
      · exact ih _ _ _
      · split
        · obtain ⟨more, h⟩ := ih (String.ofList name :: tags) cs none
          exact ⟨more ++ [String.ofList name], by rw [h, List.append_assoc]; rfl⟩
        · exact ⟨[], rfl⟩

/-- Inside of a tag that has no opening bracket nothing more is read. -/
theorem tagRun_stuck {name cs : List Char}
    (h : ¬ ∃ u r, cs = u ++ '[' :: r ∧ (∀ c ∈ u, isTagChar c = true) ∧ u.reverse ++ name ≠ []) :
    tagRun tags back (some name) cs = (tags, back) := by
  induction cs generalizing name with
  | nil => rfl
  | cons c cs ih =>
    rw [tagRun]
    split
    case isTrue hc =>
      refine ih ?_
      rintro ⟨u, r, rfl, hu, -⟩
      exact h ⟨c :: u, r, rfl, List.forall_mem_cons.2 ⟨hc, hu⟩, by simp⟩
    case isFalse =>
      split
      case isTrue hopen =>
        exact absurd ⟨[], cs, by rw [hopen.1]; rfl, by simp, by simpa using hopen.2⟩ h
      case isFalse => rfl

/-- A body that ends in no tag is left as it is. -/
theorem tagRun_body {body : List Char} (h : ¬ EndsInTag body) :
    tagRun [] [] none body.reverse = ([], body.reverse) := by
  cases hrev : body.reverse with
  | nil => rfl
  | cons c cs =>
    rw [tagRun]
    split
    case isTrue hc =>
      refine tagRun_stuck ?_
      rintro ⟨u, r, rfl, hu, hne⟩
      refine h ⟨r.reverse, u.reverse, ?_, by simpa using hne, by simpa using hu⟩
      rw [← List.reverse_reverse body, hrev, hc]
      simp [tagText]
    case isFalse => rfl

end

/-! ## The body -/

theorem keep_of_head {l : List Char} (h : ∀ c ∈ l.head?, isWhitespace c = false) :
    l.dropWhile isWhitespace = l := by
  cases l with
  | nil => rfl
  | cons c l => rw [List.dropWhile_cons, h c rfl, if_neg Bool.false_ne_true]

theorem head_append {a b : List Char} (hne : a ≠ []) : (a ++ b).head? = a.head? := by
  cases a with
  | nil => exact absurd rfl hne
  | cons c a => rfl

/-- White space behind a text is trimmed. -/
theorem trim_space {cs : List Char} (hhead : ∀ c ∈ cs.head?, isWhitespace c = false)
    (hlast : ∀ c ∈ cs.getLast?, isWhitespace c = false) (hne : cs ≠ []) :
    Text.trim (String.ofList (cs ++ [' '])) = String.ofList cs := by
  have hfront : ∀ c ∈ (cs ++ [' ']).head?, isWhitespace c = false := by
    rw [head_append hne]
    exact hhead
  have hback : ∀ c ∈ cs.reverse.head?, isWhitespace c = false := by
    rw [List.head?_reverse]
    exact hlast
  rw [Text.trim, String.toList_ofList, keep_of_head hfront, List.reverse_append,
    List.reverse_singleton, List.singleton_append, List.dropWhile_cons, if_pos (by decide),
    keep_of_head hback, List.reverse_reverse]

namespace Parts
variable (p : Parts)

theorem rest_last : ∀ c ∈ p.rest.getLast?, isWhitespace c = false := by
  unfold rest tagTail
  split
  case isTrue =>
    rw [List.append_nil]
    exact p.body_last
  case isFalse hne =>
    have hsplit := List.dropLast_concat_getLast (l := p.tags) (by simpa using hne)
    generalize p.tags.getLast _ = tag at hsplit
    have hclose : p.body ++ ' ' :: p.tags.flatMap tagText =
        (p.body ++ ' ' :: (p.tags.dropLast.flatMap tagText ++ '[' :: tag)) ++ [']'] := by
      rw [← hsplit]
      simp [tagText]
    rw [hclose, List.getLast?_concat]
    intro c hc
    obtain rfl := Option.some.inj hc
    decide

theorem rest_head : ∀ c ∈ p.rest.head?, isWhitespace c = false := by
  rw [rest, head_append p.body_ne]
  exact p.body_head

theorem bodyAndTags_tags (h : p.tags ≠ []) :
    bodyAndTags p.rest = (String.ofList p.body, p.tags.map String.ofList) := by
  have hback : ∀ c ∈ p.rest.reverse.head?, isWhitespace c = false := by
    rw [List.head?_reverse]
    exact p.rest_last
  have hrev : p.rest.reverse = (p.tags.flatMap tagText).reverse ++ ' ' :: p.body.reverse := by
    rw [rest, tagTail, if_neg (by simpa using h)]
    simp
  have hspace : ∀ tags, tagRun tags [] none (' ' :: p.body.reverse) =
      (tags, ' ' :: p.body.reverse) := fun _ => rfl
  rw [bodyAndTags, keep_of_head hback, hrev, tagRun_tags p.tags_tag, hspace]
  dsimp only
  rw [List.append_nil, List.reverse_cons, List.reverse_reverse,
    trim_space p.body_head p.body_last p.body_ne]

theorem bodyAndTags_body (h : p.tags = []) (hend : ¬ EndsInTag p.body) :
    bodyAndTags p.rest = (String.ofList p.body, []) := by
  have hrest : p.rest = p.body := by rw [rest, h]; exact List.append_nil _
  have hback : ∀ c ∈ p.body.reverse.head?, isWhitespace c = false := by
    rw [List.head?_reverse]
    exact p.body_last
  rw [hrest, bodyAndTags, keep_of_head hback, tagRun_body hend]
  dsimp only
  rw [List.reverse_reverse, Text.trim_of_ends p.body_head p.body_last]

/-- Words in brackets at the end of a body without tags are read as the last tags. -/
theorem bodyAndTags_suffix (h : p.tags = []) {front : List Char} {run : List (List Char)}
    (hbody : p.body = front ++ run.flatMap tagText) (hrun : ∀ tag ∈ run, IsTag tag) :
    run.map String.ofList <:+ (bodyAndTags p.rest).2 := by
  have hrest : p.rest = p.body := by rw [rest, h]; exact List.append_nil _
  have hback : ∀ c ∈ p.body.reverse.head?, isWhitespace c = false := by
    rw [List.head?_reverse]
    exact p.body_last
  rw [hrest, bodyAndTags, keep_of_head hback, hbody, List.reverse_append, tagRun_tags hrun]
  obtain ⟨more, hmore⟩ := tagRun_keeps (run.map String.ofList ++ []) [] none front.reverse
  refine ⟨more, ?_⟩
  dsimp only
  rw [hmore, List.append_nil]

/-- A word in brackets at the end of the body is taken for a tag. -/
theorem bodyAndTags_taken (h : p.tags = []) (hend : EndsInTag p.body) :
    (bodyAndTags p.rest).2 ≠ [] := by
  obtain ⟨front, tag, hbody, htag⟩ := hend
  have hsuffix : [tag].map String.ofList <:+ (bodyAndTags p.rest).2 :=
    p.bodyAndTags_suffix h (by simpa using hbody) (List.forall_mem_singleton.2 htag)
  intro hnone
  rw [hnone] at hsuffix
  exact absurd (List.suffix_nil.1 hsuffix) (by simp)

/-! ## The line -/

theorem rest_ne : p.rest ≠ [] := by
  intro h
  exact p.body_ne (List.append_eq_nil_iff.1 h).1

theorem rest_line : '\n' ∉ p.rest := by
  intro h
  rcases List.mem_append.1 h with h | h
  · exact p.body_line h
  · unfold tagTail at h
    split at h
    · cases h
    · rcases List.mem_cons.1 h with h | h
      · cases h
      · obtain ⟨tag, htag, hc⟩ := List.mem_flatMap.1 h
        have hmem : '\n' ∈ tag := by simpa [tagText] using hc
        exact absurd ((p.tags_tag tag htag).2 _ hmem) (by decide)

theorem level?_eq (r : List Char) :
    level? ('[' :: (p.level ++ ']' :: ' ' :: '<' :: r)) =
      (some (String.ofList p.level), '<' :: r) := by
  obtain ⟨c, cs, hlevel⟩ := List.exists_cons_of_ne_nil p.level_ne
  have htake : (p.level ++ ']' :: ' ' :: '<' :: r).takeWhile Char.isAlpha = p.level :=
    Text.takeWhile_append_stop p.level_alpha (by decide)
  have hdrop : (p.level ++ ']' :: ' ' :: '<' :: r).dropWhile Char.isAlpha =
      ']' :: ' ' :: '<' :: r := by
    rw [List.dropWhile_append_of_pos p.level_alpha]
    rfl
  rw [level?, htake, hdrop, hlevel]
  rfl

theorem event?_eq (r : List Char) :
    event? ('<' :: (p.event ++ '>' :: r)) = (some (String.ofList p.event), r) := by
  obtain ⟨c, cs, hevent⟩ := List.exists_cons_of_ne_nil p.event_ne
  rw [event?, eventEnd_eq p.event_text, hevent]

/-- The line behind the time. -/
def shell (p : Parts) : List Char :=
  '[' :: (p.level ++ ']' :: ' ' :: '<' :: (p.event ++ '>' :: ' ' :: p.rest))

/-- Nothing is cut off at the end of the line. -/
theorem render_kept : (p.render.toList.reverse.dropWhile fun c => c == '\r' || c == '\n').reverse =
    '<' :: (p.ts ++ '>' :: ' ' :: p.shell) := by
  have htext : p.render.toList =
      ('<' :: (p.ts ++ '>' :: ' ' :: '[' :: (p.level ++ ']' :: ' ' :: '<' ::
        (p.event ++ ['>', ' '])))) ++ p.rest := by
    rw [render, String.toList_ofList]
    simp
  obtain ⟨c, cs, hrev⟩ := List.exists_cons_of_ne_nil (mt List.reverse_eq_nil_iff.1 p.rest_ne)
  have hspace : isWhitespace c = false := by
    refine p.rest_last c ?_
    rw [← List.head?_reverse, hrev]
    rfl
  have hkeep : (c == '\r' || c == '\n') = false := by
    rw [Bool.or_eq_false_iff, beq_eq_false_iff_ne, beq_eq_false_iff_ne]
    constructor <;> rintro rfl <;> exact absurd hspace (by decide)
  rw [htext, List.reverse_append, hrev, List.cons_append, List.dropWhile_cons, hkeep,
    if_neg Bool.false_ne_true, ← List.cons_append, ← hrev, ← List.reverse_append,
    List.reverse_reverse]
  simp [shell]

theorem structuralParse_render : structuralParse p.render =
    some { p.line with body := (bodyAndTags p.rest).1, tags := (bodyAndTags p.rest).2 } := by
  obtain ⟨t, ts, hts⟩ := List.exists_cons_of_ne_nil p.ts_ne
  have hopen : ∀ c ∈ p.ts, (c != '>') = true := by
    intro c hc
    rw [bne_iff_ne]
    rintro rfl
    exact p.ts_close hc
  have htake : (p.ts ++ '>' :: ' ' :: p.shell).takeWhile (· != '>') = t :: ts := by
    rw [Text.takeWhile_append_stop hopen (by decide), hts]
  have hdrop : (p.ts ++ '>' :: ' ' :: p.shell).dropWhile (· != '>') = '>' :: ' ' :: p.shell := by
    rw [List.dropWhile_append_of_pos hopen]
    rfl
  have hspace : isWhitespace ' ' = true := by decide
  have hshell : p.shell.dropWhile isWhitespace = p.shell := rfl
  have hlevel : level? p.shell = (some (String.ofList p.level), '<' ::
      (p.event ++ '>' :: ' ' :: p.rest)) := p.level?_eq _
  have hrest : (' ' :: p.rest).dropWhile isWhitespace = p.rest := by
    rw [List.dropWhile_cons, if_pos hspace, keep_of_head p.rest_head]
  have hline : p.rest.contains '\n' = false := by simpa using p.rest_line
  unfold structuralParse
  rw [p.render_kept]
  simp only [htake, hdrop, hspace, hshell, hlevel, p.event?_eq, hrest, hline, if_pos]
  rw [if_neg Bool.false_ne_true, ← hts]
  rfl

end Parts

end LogLine

open LogLine in
/-- What is read from a line is what it was written from, exactly when it has tags or its body does
not end in a word in brackets; such words are read as the last tags of a line without tags. -/
theorem structuralParse_render_iff (p : LogLine.Parts) :
    (structuralParse p.render = some p.line ↔ (p.tags = [] → ¬ EndsInTag p.body)) ∧
      (p.tags = [] → ∀ (front : List Char) (run : List (List Char)),
        p.body = front ++ run.flatMap tagText → (∀ tag ∈ run, IsTag tag) →
        ∃ line, structuralParse p.render = some line ∧ run.map String.ofList <:+ line.tags) := by
  rw [p.structuralParse_render]
  refine ⟨⟨?_, ?_⟩, fun htags front run hbody hrun =>
    ⟨_, rfl, p.bodyAndTags_suffix htags hbody hrun⟩⟩
  · intro h htags hend
    refine p.bodyAndTags_taken htags hend ?_
    have htaken : (bodyAndTags p.rest).2 = p.tags.map String.ofList :=
      congrArg LogLine.tags (Option.some.inj h)
    rw [htaken, htags]
    rfl
  · intro h
    by_cases htags : p.tags = []
    · rw [p.bodyAndTags_body htags (h htags), Parts.line, htags]
      rfl
    · rw [p.bodyAndTags_tags htags]
      rfl

/-- A line without tags, whose body ends in a field. -/
def joinPuParts : LogLine.Parts where
  ts := "2026-05-02T21:14:23.189Z".toList
  level := "Notice".toList
  event := "Join PU".toList
  body := "port[64300] locationId[562954248454145]".toList
  tags := []
  ts_ne := by decide
  ts_close := by decide
  level_ne := by decide
  level_alpha := List.all_eq_true.1 (by decide)
  event_ne := by decide
  event_text := .of_plain (List.all_eq_true.1 (by decide))
  body_ne := by decide
  body_line := by decide
  body_head c hc := by
    obtain rfl : 'p' = c := Option.some.inj hc
    decide
  body_last c hc := by
    obtain rfl : ']' = c := Option.some.inj hc
    decide
  tags_tag _ h := nomatch h

/-- The location of the player is read as a tag. -/
theorem structuralParse_takes_field :
    structuralParse joinPuParts.render =
      some { joinPuParts.line with
        body := "port[64300] locationId"
        tags := ["562954248454145"] } := by
  have htail : LogLine.bodyAndTags joinPuParts.rest =
      ("port[64300] locationId", ["562954248454145"]) := by
    decide +kernel
  rw [joinPuParts.structuralParse_render, htail]

end StarStats
