import Mathlib.Data.List.Infix
import Mathlib.Data.List.Range
import StarStats.Client.Proof.UnknownLines
import StarStats.Lib.Search

/-!
# Redacting a line (`tray-ui/src/submissions/ReviewPane.tsx`)

The offsets of the tokens count the bytes of the line, and `applyRedactions` cuts at them in a text
of UTF-16 code units, from the last token to the first.

* `redacts_iff`: of tokens that do not overlap, which the text of the line lets it cut out exactly.
-/

namespace StarStats.UnknownLines

open Text (byteLength)

/-! ## Code units -/

/-- How many code units of UTF-16 a character takes. -/
def utf16Size (c : Char) : Nat := if c.toNat < 0x10000 then 1 else 2

def utf16Char (c : Char) : List UInt16 :=
  if c.toNat < 0x10000 then [UInt16.ofNat c.toNat]
  else
    [UInt16.ofNat (0xD800 + (c.toNat - 0x10000) / 0x400),
      UInt16.ofNat (0xDC00 + (c.toNat - 0x10000) % 0x400)]

def utf16 (s : String) : List UInt16 := s.toList.flatMap utf16Char

def unitLength (s : List Char) : Nat := (s.map utf16Size).sum

/-! ## The cuts -/

/-- `rename_all = "snake_case"`. -/
def PiiKind.wireName : PiiKind → String
  | .ownHandle => "own_handle"
  | .friendHandle => "friend_handle"
  | .shardId => "shard_id"
  | .geid => "geid"
  | .ipPort => "ip_port"

def tokenKey (t : PiiToken) : String := t.kind.wireName ++ "@" ++ toString t.start

section
variable {α : Type}

/-- `slice(0, start) + mark + slice(end)`. -/
def splice (mark : String → List α) (text : List α) (t : PiiToken) : List α :=
  text.take t.start ++ mark t.suggestedRedaction ++ text.drop t.stop

def applyRedactions (mark : String → List α) (raw : List α) (tokens : List PiiToken)
    (redactions : String → Bool) : List α :=
  (tokens.insertionSort fun a b => b.start ≤ a.start).foldl
    (fun result t => if redactions (tokenKey t) then splice mark result t else result) raw

theorem applyRedactions_map {β : Type} (f : α → β) (mark : String → List α) (raw : List α)
    (tokens : List PiiToken) (redactions : String → Bool) :
    (applyRedactions mark raw tokens redactions).map f =
      applyRedactions (fun s => (mark s).map f) (raw.map f) tokens redactions := by
  rw [applyRedactions, applyRedactions]
  induction tokens.insertionSort fun a b => b.start ≤ a.start generalizing raw with
  | nil => rfl
  | cons t ts ih =>
    rw [List.foldl_cons, List.foldl_cons, ih]
    split <;> simp [splice]

end

example : applyRedactions String.toList "To Ada, Bo".toList
    (detectPii ⟨fun _ => [], fun _ => [], fun _ => []⟩ "Ada" ["Bo"] "To Ada, Bo") (fun _ => true) =
      "To [HANDLE], [FRIEND]".toList := by decide

/-! ## What is kept -/

/-- The code units from the place `unit` on, each with a byte of its character. -/
def placesFrom (unit byte : Nat) : List Char → List (Nat × Nat)
  | [] => []
  | c :: cs =>
    (List.range (utf16Size c)).map (fun k => (unit + k, byte + k)) ++
      placesFrom (unit + utf16Size c) (byte + c.utf8Size) cs

def places (line : String) : List (Nat × Nat) := placesFrom 0 0 line.toList

/-- The line with the place of every code unit. -/
def traced (line : String) : List (UInt16 × Option (Nat × Nat)) :=
  (utf16 line).zip ((places line).map some)

def tracedMark (mark : String) : List (UInt16 × Option (Nat × Nat)) :=
  (utf16 mark).map fun unit => (unit, none)

/-- The redacted line, with what stood in the line before. -/
def redacted (line : String) (tokens : List PiiToken) (redactions : String → Bool) :
    List (UInt16 × Option (Nat × Nat)) :=
  applyRedactions tracedMark (traced line) tokens redactions

def selected (tokens : List PiiToken) (redactions : String → Bool) : List PiiToken :=
  tokens.filter fun t => redactions (tokenKey t)

/-- The place is in one of the tokens. -/
def Covered (tokens : List PiiToken) (place : Nat) : Prop :=
  ∃ t ∈ tokens, t.start ≤ place ∧ place < t.stop

instance (tokens : List PiiToken) (place : Nat) : Decidable (Covered tokens place) :=
  inferInstanceAs (Decidable (∃ t ∈ tokens, _))

/-- What is kept of the line are the characters outside all selected tokens. Of the marks this says
nothing: a cut that is further ahead in code units than in bytes can take a part of one. -/
def Redacts (line : String) (tokens : List PiiToken) (redactions : String → Bool) : Prop :=
  (redacted line tokens redactions).filterMap (·.2) =
    (places line).filter fun x => !decide (Covered (selected tokens redactions) x.2)

/-- No two tokens overlap. -/
def Separate (tokens : List PiiToken) : Prop :=
  tokens.Pairwise fun a b => a.stop ≤ b.start ∨ b.stop ≤ a.start

instance (tokens : List PiiToken) : Decidable (Separate tokens) :=
  inferInstanceAs (Decidable (List.Pairwise _ _))

/-- The bytes before the first character that is not ASCII. -/
def asciiBytes (line : String) : Nat := (line.toList.takeWhile fun c => c.toNat < 128).length

/-- The tokens end before the first character that is not ASCII, or cover all from there on. -/
def Aligned (line : String) (tokens : List PiiToken) : Prop :=
  (∀ t ∈ tokens, t.stop ≤ asciiBytes line) ∨
    ∀ byte < line.utf8ByteSize, asciiBytes line ≤ byte → Covered tokens byte

theorem length_utf16Char (c : Char) : (utf16Char c).length = utf16Size c := by
  rw [utf16Char, utf16Size]
  split <;> rfl

theorem length_placesFrom (unit byte : Nat) (cs : List Char) :
    (placesFrom unit byte cs).length = unitLength cs := by
  induction cs generalizing unit byte with
  | nil => rfl
  | cons c cs ih => simp [placesFrom, unitLength, ih]

theorem length_utf16 (line : String) : (utf16 line).length = (places line).length := by
  rw [places, length_placesFrom, utf16, List.length_flatMap, unitLength]
  simp only [length_utf16Char]

/-- Without the places it is the text that is sent. -/
theorem redacted_text (line : String) (tokens : List PiiToken) (redactions : String → Bool) :
    (redacted line tokens redactions).map (·.1) =
      applyRedactions utf16 (utf16 line) tokens redactions := by
  have hline : (traced line).map (·.1) = utf16 line :=
    List.map_fst_zip (Nat.le_of_eq (by rw [length_utf16, List.length_map]))
  have hmark : (fun s => (tracedMark s).map (·.1)) = utf16 := by
    funext s
    rw [tracedMark, List.map_map]
    exact List.map_id _
  rw [redacted, applyRedactions_map, hline, hmark]

/-! ## Cuts from right to left -/

section
variable {α ι : Type} {origin : α → Option ι} {ids : List ι} {index : ι → Nat}
  {mark : String → List α} {cut : List PiiToken} {text : List α} {q : Nat}

/-- Up to `q` the text is as it was; behind, the cut tokens are missing. -/
def Intact (origin : α → Option ι) (ids : List ι) (index : ι → Nat) (cut : List PiiToken) (q : Nat)
    (text : List α) : Prop :=
  ∀ p ≤ q, (text.take p).filterMap origin = ids.take p ∧
    (text.drop p).filterMap origin =
      (ids.drop p).filter fun x => !decide (Covered cut (index x))

theorem covered_cons {t : PiiToken} {ts : List PiiToken} {place : Nat} :
    Covered (t :: ts) place ↔ t.start ≤ place ∧ place < t.stop ∨ Covered ts place := by
  simp [Covered]

theorem covered_congr {ts ts' : List PiiToken} (h : ∀ t, t ∈ ts ↔ t ∈ ts') {place : Nat} :
    Covered ts place ↔ Covered ts' place :=
  exists_congr fun t => and_congr_left' (h t)

/-- The elements from a place on have their index from there on. -/
theorem le_index_of_mem_drop (hids : ids.map index = List.range ids.length) {n : Nat} {x : ι}
    (hx : x ∈ ids.drop n) : n ≤ index x := by
  have hmem : index x ∈ (List.range ids.length).drop n := by
    rw [← hids, ← List.map_drop]
    exact List.mem_map_of_mem hx
  obtain ⟨i, hi, heq⟩ := List.mem_iff_getElem.1 hmem
  rw [List.getElem_drop, List.getElem_range] at heq
  omega

theorem index_lt_of_mem_take (hids : ids.map index = List.range ids.length) {n : Nat} {x : ι}
    (hx : x ∈ ids.take n) : index x < n := by
  have hmem : index x ∈ (List.range ids.length).take n := by
    rw [← hids, ← List.map_take]
    exact List.mem_map_of_mem hx
  obtain ⟨i, hi, heq⟩ := List.mem_iff_getElem.1 hmem
  rw [List.getElem_take, List.getElem_range] at heq
  rw [List.length_take] at hi
  omega

theorem Intact.start (htext : text.map origin = ids.map some) (q : Nat) :
    Intact origin ids index [] q text := by
  have horigin : ∀ {l : List α} {l' : List ι}, l.map origin = l'.map some →
      l.filterMap origin = l' := by
    intro l l' heq
    have hid : l.filterMap origin = (l.map origin).filterMap id := by
      rw [List.filterMap_map]
      rfl
    rw [hid, heq, List.filterMap_map]
    exact List.filterMap_some
  intro p _
  constructor
  · exact horigin (by rw [List.map_take, htext, List.map_take])
  · have hdrop : (text.drop p).filterMap origin = ids.drop p :=
      horigin (by rw [List.map_drop, htext, List.map_drop])
    rw [hdrop]
    exact (List.filter_eq_self.2 fun x _ => by simp [Covered]).symm

/-- A cut before all others. -/
theorem Intact.splice (h : Intact origin ids index cut q text)
    (hids : ids.map index = List.range ids.length) (hmark : ∀ s, ∀ x ∈ mark s, origin x = none)
    {t : PiiToken} (hlt : t.start < t.stop) (hle : t.stop ≤ q) (hbefore : ∀ d ∈ cut, q ≤ d.start) :
    Intact origin ids index (t :: cut) t.start (UnknownLines.splice mark text t) := by
  have hlow : ∀ x : ι, index x < t.start → ¬ Covered (t :: cut) (index x) := by
    intro x hx hcov
    rcases covered_cons.1 hcov with hin | ⟨d, hd, hdx, -⟩
    · omega
    · have := hbefore d hd
      omega
  have hmarks : ∀ {l : List α}, l.Sublist (mark t.suggestedRedaction) → l.filterMap origin = [] :=
    fun hl => List.filterMap_eq_nil_iff.2 fun x hx => hmark _ x (hl.subset hx)
  intro p hp
  have hdrop : ∀ {β : Type} (l : List β) {m n : Nat}, m ≤ n →
      l.drop m = (l.drop m).take (n - m) ++ l.drop n := by
    intro β l m n hmn
    conv_lhs => rw [← List.take_append_drop (n - m) (l.drop m), List.drop_drop]
    rw [Nat.add_sub_cancel' hmn]
  have htake : ∀ {β : Type} (l : List β),
      l.take t.start = l.take p ++ (l.drop p).take (t.start - p) := by
    intro β l
    rw [← List.take_add, Nat.add_sub_cancel' hp]
  -- what stands between `p` and the cut
  have hbetween : ((text.drop p).take (t.start - p)).filterMap origin =
      (ids.drop p).take (t.start - p) := by
    have hall := (h t.start (by omega)).1
    rw [htake text, htake ids, List.filterMap_append, (h p (by omega)).1] at hall
    exact List.append_cancel_left hall
  have hlowIds : ((ids.drop p).take (t.start - p)).filter
      (fun x => !decide (Covered (t :: cut) (index x))) = (ids.drop p).take (t.start - p) := by
    refine List.filter_eq_self.2 fun x hx => ?_
    have hmem : x ∈ ids.take t.start := by
      rw [htake ids]
      exact List.mem_append_right _ hx
    simpa using hlow x (index_lt_of_mem_take hids hmem)
  by_cases hlen : t.start ≤ text.length
  case pos =>
    have hsplice : UnknownLines.splice mark text t = text.take p ++
        ((text.drop p).take (t.start - p) ++ (mark t.suggestedRedaction ++ text.drop t.stop)) := by
      rw [UnknownLines.splice, htake text, List.append_assoc, List.append_assoc]
    have hlenp : (text.take p).length = p := List.length_take_of_le (hp.trans hlen)
    rw [hsplice, List.take_left' hlenp, List.drop_left' hlenp]
    refine ⟨(h p (by omega)).1, ?_⟩
    have hcut : ((ids.drop t.start).take (t.stop - t.start)).filter
        (fun x => !decide (Covered (t :: cut) (index x))) = [] := by
      refine List.filter_eq_nil_iff.2 fun x hx => ?_
      have hge := le_index_of_mem_drop hids (List.mem_of_mem_take hx)
      have hlt' : index x < t.stop := by
        refine index_lt_of_mem_take hids (n := t.stop) ?_
        rw [← Nat.add_sub_cancel' hlt.le, List.take_add]
        exact List.mem_append_right _ hx
      simpa using covered_cons.2 (.inl ⟨hge, hlt'⟩)
    have hbehind : (ids.drop t.stop).filter (fun x => !decide (Covered (t :: cut) (index x))) =
        (ids.drop t.stop).filter fun x => !decide (Covered cut (index x)) := by
      refine List.filter_congr fun x hx => ?_
      have hge := le_index_of_mem_drop hids hx
      have hiff : Covered (t :: cut) (index x) ↔ Covered cut (index x) := by
        rw [covered_cons]
        exact or_iff_right fun hin => by omega
      simp only [hiff]
    have hsplit : ids.drop p = (ids.drop p).take (t.start - p) ++
        ((ids.drop t.start).take (t.stop - t.start) ++ ids.drop t.stop) := by
      rw [← hdrop ids hlt.le]
      exact hdrop ids hp
    rw [List.filterMap_append, List.filterMap_append, hbetween, hmarks (.refl _),
      (h t.stop hle).2, hsplit, List.filter_append, List.filter_append, ← hsplit, hlowIds, hcut,
      hbehind]
  case neg =>
    -- the cut is behind the text
    have hsplice : UnknownLines.splice mark text t = text ++ mark t.suggestedRedaction := by
      rw [UnknownLines.splice, List.take_of_length_le (by omega), List.drop_of_length_le (by omega),
        List.append_nil]
    have hshort : ids.length < t.start := by
      have hall := congrArg List.length (h t.start (by omega)).1
      have hle := List.length_filterMap_le origin (text.take t.start)
      rw [List.length_take] at hall hle
      omega
    rw [hsplice, List.take_append, List.drop_append, List.filterMap_append, List.filterMap_append,
      hmarks (List.take_sublist _ _), hmarks (List.drop_sublist _ _), List.append_nil,
      List.append_nil, (h p (by omega)).1, (h p (by omega)).2]
    refine ⟨rfl, List.filter_congr fun x hx => ?_⟩
    have hlt' : index x < ids.length :=
      index_lt_of_mem_take hids (by rw [List.take_length]; exact List.mem_of_mem_drop hx)
    have hnot := hlow x (by omega)
    have hnot' : ¬ Covered cut (index x) := fun hcov => hnot (covered_cons.2 (.inr hcov))
    simp only [hnot, hnot']


/-- Each cut ends before the one that was made before it. -/
def RightToLeft (cuts : List PiiToken) : Prop := cuts.Pairwise fun a b => b.stop ≤ a.start

theorem Intact.foldl (h : Intact origin ids index cut q text)
    (hids : ids.map index = List.range ids.length) (hmark : ∀ s, ∀ x ∈ mark s, origin x = none)
    {cuts : List PiiToken} (hcuts : RightToLeft cuts) (hlt : ∀ t ∈ cuts, t.start < t.stop)
    (hle : ∀ t ∈ cuts, t.stop ≤ q) (hbefore : ∀ d ∈ cut, q ≤ d.start) :
    ∃ q', Intact origin ids index (cuts.reverse ++ cut) q'
      (cuts.foldl (UnknownLines.splice mark) text) := by
  induction cuts generalizing cut q text with
  | nil => exact ⟨q, h⟩
  | cons t ts ih =>
    obtain ⟨hfirst, hrest⟩ := List.pairwise_cons.1 hcuts
    have hstep := h.splice hids hmark (hlt t List.mem_cons_self) (hle t List.mem_cons_self) hbefore
    rw [List.reverse_cons, List.append_assoc, List.foldl_cons]
    refine ih hstep hrest (fun d hd => hlt d (List.mem_cons_of_mem t hd)) hfirst fun d hd => ?_
    rcases List.mem_cons.1 hd with rfl | hd
    · exact Nat.le_refl _
    · have hstart := hlt t List.mem_cons_self
      have hstop := hle t List.mem_cons_self
      have := hbefore d hd
      omega

/-- Cuts from right to left take out what they cover. -/
theorem filterMap_foldl_splice (htext : text.map origin = ids.map some)
    (hids : ids.map index = List.range ids.length) (hmark : ∀ s, ∀ x ∈ mark s, origin x = none)
    {cuts : List PiiToken} (hcuts : RightToLeft cuts) (hlt : ∀ t ∈ cuts, t.start < t.stop) :
    (cuts.foldl (splice mark) text).filterMap origin =
      ids.filter fun x => !decide (Covered cuts (index x)) := by
  obtain ⟨q, hq⟩ : ∃ q, ∀ t ∈ cuts, t.stop ≤ q := by
    cases cuts with
    | nil => exact ⟨0, fun _ ht => absurd ht List.not_mem_nil⟩
    | cons t ts =>
      refine ⟨t.stop, fun d hd => ?_⟩
      rcases List.mem_cons.1 hd with rfl | hd
      · exact Nat.le_refl _
      · exact ((List.pairwise_cons.1 hcuts).1 d hd).trans (hlt t List.mem_cons_self).le
  obtain ⟨q', hintact⟩ := (Intact.start htext q).foldl hids hmark hcuts hlt hq
    fun _ hd => absurd hd List.not_mem_nil
  have hall := (hintact 0 (Nat.zero_le _)).2
  rw [List.drop_zero, List.drop_zero] at hall
  rw [hall]
  refine List.filter_congr fun x _ => ?_
  have hsame : Covered (cuts.reverse ++ []) (index x) ↔ Covered cuts (index x) :=
    covered_congr fun t => by simp
  simp only [hsame]

end

/-! ## Tokens of one line -/

/-- The selected tokens in the order of the cuts. -/
def cuts (tokens : List PiiToken) (redactions : String → Bool) : List PiiToken :=
  selected (tokens.insertionSort fun a b => b.start ≤ a.start) redactions

theorem cuts_perm (tokens : List PiiToken) (redactions : String → Bool) :
    (cuts tokens redactions).Perm (selected tokens redactions) :=
  (List.perm_insertionSort _ tokens).filter _

/-- Without overlaps the tokens are cut from right to left. -/
theorem rightToLeft_cuts {tokens : List PiiToken} {redactions : String → Bool}
    (h : Separate (selected tokens redactions))
    (hlt : ∀ t ∈ selected tokens redactions, t.start < t.stop) :
    RightToLeft (cuts tokens redactions) := by
  have : Std.Total fun a b : PiiToken => b.start ≤ a.start := ⟨fun a b => le_total _ _⟩
  have : IsTrans PiiToken fun a b => b.start ≤ a.start := ⟨fun _ _ _ hab hbc => le_trans hbc hab⟩
  have hsorted : (cuts tokens redactions).Pairwise fun a b => b.start ≤ a.start :=
    (List.pairwise_insertionSort _ tokens).filter _
  have hseparate := ((cuts_perm tokens redactions).pairwise_iff fun hab => hab.symm).2 h
  refine (hsorted.and hseparate).imp_of_mem fun {a b} ha _ hab => ?_
  have hpos := hlt a ((cuts_perm tokens redactions).mem_iff.1 ha)
  rcases hab.2 with hle | hle
  · omega
  · exact hle

section
variable {α : Type} {mark : String → List α} {text : List α}

/-- The text with each of the ranges, from right to left, replaced by its mark. -/
def replaced (mark : String → List α) (text : List α) : List PiiToken → List α
  | [] => text
  | t :: ts => replaced mark (text.take t.start) ts ++ mark t.suggestedRedaction ++ text.drop t.stop

theorem splice_append (t : PiiToken) (rest : List α)
    (h : t.start ≤ t.stop ∧ t.stop ≤ text.length) :
    splice mark (text ++ rest) t = splice mark text t ++ rest := by
  rw [splice, splice, List.take_append_of_le_length (h.1.trans h.2),
    List.drop_append_of_le_length h.2]
  simp only [List.append_assoc]

/-- What is behind the cuts stays. -/
theorem foldl_splice_append {cuts : List PiiToken} (hcuts : RightToLeft cuts)
    (h : ∀ t ∈ cuts, t.start ≤ t.stop ∧ t.stop ≤ text.length) (rest : List α) :
    cuts.foldl (splice mark) (text ++ rest) = cuts.foldl (splice mark) text ++ rest := by
  induction cuts generalizing text with
  | nil => rfl
  | cons t ts ih =>
    obtain ⟨hbefore, hcuts⟩ := List.pairwise_cons.1 hcuts
    have ht := h t List.mem_cons_self
    rw [List.foldl_cons, List.foldl_cons, splice_append t rest ht, ih hcuts fun d hd => ?_]
    have hlen : t.start ≤ (splice mark text t).length := by
      rw [splice, List.append_assoc, List.length_append, List.length_take]
      omega
    exact ⟨(h d (List.mem_cons_of_mem t hd)).1, (hbefore d hd).trans hlen⟩

/-- Ranges of the text that do not overlap are replaced, each by the whole of its mark. -/
theorem foldl_splice_eq_replaced {cuts : List PiiToken} (hcuts : RightToLeft cuts)
    (h : ∀ t ∈ cuts, t.start ≤ t.stop ∧ t.stop ≤ text.length) :
    cuts.foldl (splice mark) text = replaced mark text cuts := by
  induction cuts generalizing text with
  | nil => rfl
  | cons t ts ih =>
    obtain ⟨hbefore, hcuts⟩ := List.pairwise_cons.1 hcuts
    have ht := h t List.mem_cons_self
    have hinside : ∀ d ∈ ts, d.start ≤ d.stop ∧ d.stop ≤ (text.take t.start).length := by
      intro d hd
      rw [List.length_take, min_eq_left (ht.1.trans ht.2)]
      exact ⟨(h d (List.mem_cons_of_mem t hd)).1, hbefore d hd⟩
    rw [List.foldl_cons, splice, List.append_assoc, foldl_splice_append hcuts hinside,
      ih hcuts hinside, replaced, List.append_assoc]

end

theorem map_fst_placesFrom (unit byte : Nat) (cs : List Char) :
    (placesFrom unit byte cs).map (·.1) =
      (List.range (unitLength cs)).map (unit + ·) := by
  induction cs generalizing unit byte with
  | nil => rfl
  | cons c cs ih =>
    have hlen : unitLength (c :: cs) = utf16Size c + unitLength cs := by simp [unitLength]
    rw [placesFrom, List.map_append, ih, hlen, List.range_add, List.map_append, List.map_map,
      List.map_map]
    congr 1
    exact List.map_congr_left fun k _ => Nat.add_assoc unit _ k

theorem map_fst_places (line : String) :
    (places line).map (·.1) = List.range (places line).length := by
  rw [places, map_fst_placesFrom, length_placesFrom]
  simp

/-- What is kept are the code units that no token covers, counted in code units. -/
theorem kept_eq {line : String} {tokens : List PiiToken} {redactions : String → Bool}
    (h : Separate (selected tokens redactions))
    (hlt : ∀ t ∈ selected tokens redactions, t.start < t.stop) :
    (redacted line tokens redactions).filterMap (·.2) =
      (places line).filter fun x => !decide (Covered (selected tokens redactions) x.1) := by
  have hperm := cuts_perm tokens redactions
  have hfold : redacted line tokens redactions =
      (cuts tokens redactions).foldl (splice tracedMark) (traced line) := by
    rw [redacted, applyRedactions, cuts, selected, List.foldl_filter]
  have htext : (traced line).map (·.2) = (places line).map some :=
    List.map_snd_zip (Nat.le_of_eq (by rw [length_utf16, List.length_map]))
  have hmark : ∀ s, ∀ x ∈ tracedMark s, x.2 = none := by
    intro s x hx
    obtain ⟨unit, -, rfl⟩ := List.mem_map.1 hx
    rfl
  rw [hfold, filterMap_foldl_splice htext (map_fst_places line) hmark (rightToLeft_cuts h hlt)
    fun t ht => hlt t (hperm.mem_iff.1 ht)]
  refine List.filter_congr fun x _ => ?_
  simp only [covered_congr fun t => hperm.mem_iff]

/-! ## Bytes and code units -/

theorem mem_placesFrom {unit byte : Nat} {cs : List Char} {x : Nat × Nat} :
    x ∈ placesFrom unit byte cs ↔ ∃ before c after k, cs = before ++ c :: after ∧
      k < utf16Size c ∧ x = (unit + unitLength before + k, byte + byteLength before + k) := by
  induction cs generalizing unit byte with
  | nil => simp [placesFrom]
  | cons d cs ih =>
    rw [placesFrom, List.mem_append, List.mem_map, ih]
    constructor
    · rintro (⟨k, hk, rfl⟩ | ⟨before, c, after, k, rfl, hk, rfl⟩)
      · exact ⟨[], d, cs, k, rfl, List.mem_range.1 hk, rfl⟩
      · refine ⟨d :: before, c, after, k, rfl, hk, ?_⟩
        simp only [unitLength, byteLength, List.map_cons, List.sum_cons, Prod.mk.injEq]
        omega
    · rintro ⟨before, c, after, k, heq, hk, rfl⟩
      cases before with
      | nil =>
        obtain ⟨rfl, rfl⟩ := List.cons.inj heq
        exact .inl ⟨k, List.mem_range.2 hk, rfl⟩
      | cons e before =>
        obtain ⟨rfl, rfl⟩ := List.cons.inj heq
        refine .inr ⟨before, c, after, k, rfl, hk, ?_⟩
        simp only [unitLength, byteLength, List.map_cons, List.sum_cons, Prod.mk.injEq]
        omega

theorem mem_places {line : String} {x : Nat × Nat} :
    x ∈ places line ↔ ∃ before c after k, line.toList = before ++ c :: after ∧
      k < utf16Size c ∧ x = (unitLength before + k, byteLength before + k) := by
  simp [places, mem_placesFrom]

/-- A character of two code units has four bytes, one beyond ASCII more than one. -/
theorem utf16Size_le (c : Char) :
    utf16Size c ≤ c.utf8Size ∧ (utf16Size c = c.utf8Size ↔ c.toNat < 128) := by
  have hval : c.val.toNat = c.toNat := rfl
  rw [utf16Size]
  unfold Char.utf8Size
  simp only [UInt32.le_iff_toNat_le, UInt32.toNat_ofNatLT, hval]
  constructor <;> (repeat' split) <;> omega

theorem utf16Size_pos (c : Char) : 0 < utf16Size c := by
  rw [utf16Size]
  split <;> omega

theorem unitLength_le (s : List Char) : unitLength s ≤ byteLength s := by
  induction s with
  | nil => exact Nat.le_refl 0
  | cons c cs ih =>
    have hc := (utf16Size_le c).1
    simp only [unitLength, byteLength, List.map_cons, List.sum_cons] at ih ⊢
    omega

theorem unitLength_ascii {s : List Char} (h : ∀ c ∈ s, c.toNat < 128) :
    unitLength s = s.length ∧ byteLength s = s.length := by
  induction s with
  | nil => exact ⟨rfl, rfl⟩
  | cons c cs ih =>
    have hc : c.toNat < 128 := h c List.mem_cons_self
    have hsize := (utf16Size_le c).2.2 hc
    have hone : utf16Size c = 1 := if_pos (by omega)
    obtain ⟨hunits, hbytes⟩ := ih fun d hd => h d (List.mem_cons_of_mem c hd)
    simp only [unitLength, byteLength, List.map_cons, List.sum_cons, List.length_cons]
      at hunits hbytes ⊢
    omega

theorem asciiBytes_le (line : String) : asciiBytes line ≤ (utf16 line).length := by
  have hascii : ∀ c ∈ line.toList.takeWhile fun c => c.toNat < 128, c.toNat < 128 :=
    fun c hc => by simpa using List.mem_takeWhile_imp hc
  have hsplit := List.takeWhile_append_dropWhile (p := fun c : Char => c.toNat < 128)
    (l := line.toList)
  have hunits : unitLength line.toList = asciiBytes line +
      unitLength (line.toList.dropWhile fun c => c.toNat < 128) := by
    conv_lhs => rw [← hsplit]
    rw [unitLength, List.map_append, List.sum_append, asciiBytes, ← (unitLength_ascii hascii).1]
    rfl
  rw [length_utf16, places, length_placesFrom, hunits]
  exact Nat.le_add_right _ _

theorem length_append_cons (s t : List Char) (c : Char) :
    unitLength (s ++ c :: t) = unitLength s + utf16Size c + unitLength t ∧
      byteLength (s ++ c :: t) = byteLength s + c.utf8Size + byteLength t := by
  simp [unitLength, byteLength, Nat.add_assoc]

theorem exists_first_not_ascii {s : List Char} (h : ¬ ∀ c ∈ s, c.toNat < 128) :
    ∃ a c b, s = a ++ c :: b ∧ (∀ d ∈ a, d.toNat < 128) ∧ ¬ c.toNat < 128 := by
  induction s with
  | nil => simp at h
  | cons c cs ih =>
    by_cases hc : c.toNat < 128
    · have hrest : ¬ ∀ d ∈ cs, d.toNat < 128 := fun hall =>
        h (List.forall_mem_cons.2 ⟨hc, hall⟩)
      obtain ⟨a, d, b, rfl, ha, hd⟩ := ih hrest
      exact ⟨c :: a, d, b, rfl, List.forall_mem_cons.2 ⟨hc, ha⟩, hd⟩
    · exact ⟨[], c, cs, rfl, by simp, hc⟩

/-- Before a character the line is ASCII, or has bytes that are no code units. -/
theorem ascii_or_fewer_units {line : String} {before after : List Char} {c : Char}
    (h : line.toList = before ++ c :: after) :
    unitLength before = byteLength before ∧ byteLength before ≤ asciiBytes line ∨
      asciiBytes line < unitLength before ∧ unitLength before < byteLength before := by
  by_cases hascii : ∀ d ∈ before, d.toNat < 128
  case pos =>
    left
    obtain ⟨hunits, hbytes⟩ := unitLength_ascii hascii
    refine ⟨hunits.trans hbytes.symm, ?_⟩
    rw [hbytes, asciiBytes, h, List.takeWhile_append_of_pos fun d hd => by simpa using hascii d hd,
      List.length_append]
    exact Nat.le_add_right _ _
  case neg =>
    right
    obtain ⟨a, d, b, rfl, ha, hd⟩ := exists_first_not_ascii hascii
    obtain ⟨hunits, hbytes⟩ := unitLength_ascii ha
    obtain ⟨hunits', hbytes'⟩ := length_append_cons a b d
    have hbeginning : asciiBytes line = a.length := by
      rw [asciiBytes, h, List.append_assoc,
        List.takeWhile_append_of_pos fun x hx => by simpa using ha x hx, List.cons_append,
        List.takeWhile_cons_of_neg (by simpa using hd), List.append_nil]
    have hsize := utf16Size_le d
    have hpos := utf16Size_pos d
    have hrest := unitLength_le b
    have hne : utf16Size d ≠ d.utf8Size := fun heq => hd (hsize.2.1 heq)
    omega

/-! ## Ranges -/

/-- From one character of the line to a later one. -/
def IsRange (line : String) (start stop : Nat) : Prop :=
  ∃ a m b, line.toList = a ++ (m ++ b) ∧ m ≠ [] ∧ start = byteLength a ∧
    stop = byteLength a + byteLength m

theorem exists_char {cs : List Char} {byte : Nat} (h : byte < byteLength cs) :
    ∃ before c after k, cs = before ++ c :: after ∧ k < c.utf8Size ∧
      byte = byteLength before + k := by
  induction cs generalizing byte with
  | nil => simp [byteLength] at h
  | cons c cs ih =>
    by_cases hc : byte < c.utf8Size
    · exact ⟨[], c, cs, byte, rfl, hc, by simp [byteLength]⟩
    · have hlen : byteLength (c :: cs) = c.utf8Size + byteLength cs := by simp [byteLength]
      obtain ⟨before, d, after, k, rfl, hk, hbyte⟩ := ih (show byte - c.utf8Size < _ by omega)
      refine ⟨c :: before, d, after, k, rfl, hk, ?_⟩
      simp only [byteLength, List.map_cons, List.sum_cons] at hbyte ⊢
      omega

/-- No character is cut in two. -/
theorem boundary_le_iff {a r before after : List Char} {c : Char} {k : Nat}
    (h : a ++ r = before ++ c :: after) (hk : k < c.utf8Size) :
    byteLength a ≤ byteLength before + k ↔ byteLength a ≤ byteLength before := by
  rcases List.append_eq_append_iff.1 h with ⟨d, rfl, -⟩ | ⟨d, rfl, hd⟩
  · have hle : byteLength a ≤ byteLength (a ++ d) := by simp [byteLength]
    exact iff_of_true (by omega) hle
  · cases d with
    | nil => simp
    | cons e d =>
      obtain ⟨rfl, -⟩ := List.cons.inj hd
      have hlen := (length_append_cons before d c).2
      exact iff_of_false (by omega) (by omega)

section
variable {line : String} {tokens : List PiiToken}

/-- A character is covered as a whole. -/
theorem covered_char (h : ∀ t ∈ tokens, IsRange line t.start t.stop) {before after : List Char}
    {c : Char} (hline : line.toList = before ++ c :: after) {k : Nat} (hk : k < c.utf8Size) :
    Covered tokens (byteLength before + k) ↔ Covered tokens (byteLength before) := by
  refine exists_congr fun t => and_congr_right fun ht => ?_
  obtain ⟨a, m, b, hrange, -, hstart, hstop⟩ := h t ht
  have hbegin := boundary_le_iff (hrange.symm.trans hline) hk
  rw [← List.append_assoc] at hrange
  have hend := boundary_le_iff (hrange.symm.trans hline) hk
  have hlen : byteLength (a ++ m) = byteLength a + byteLength m := by simp [byteLength]
  omega

/-- What is cut out in code units is what the tokens cover in bytes. -/
def CutsMatch (line : String) (tokens : List PiiToken) : Prop :=
  ∀ x ∈ places line, Covered tokens x.1 ↔ Covered tokens x.2

theorem stop_le {start stop : Nat} (h : IsRange line start stop) :
    start < stop ∧ stop ≤ byteLength line.toList := by
  obtain ⟨a, m, b, hline, hm, rfl, rfl⟩ := h
  obtain ⟨c, m, rfl⟩ := List.exists_cons_of_ne_nil hm
  have hpos := c.utf8Size_pos
  rw [hline]
  simp only [byteLength, List.map_cons, List.sum_cons, List.map_append, List.sum_append]
  omega

theorem Aligned.cutsMatch (h : Aligned line tokens) : CutsMatch line tokens := by
  intro x hx
  obtain ⟨before, c, after, k, hline, hk, rfl⟩ := mem_places.1 hx
  rcases ascii_or_fewer_units hline with ⟨heq, -⟩ | ⟨hbehind, hfewer⟩
  · rw [heq]
  · have hlen := (length_append_cons before after c).2
    rw [← hline, Text.byteLength_toList] at hlen
    have hsize := (utf16Size_le c).1
    rcases h with hstop | hall
    · have hnot : ∀ {place}, asciiBytes line ≤ place → ¬ Covered tokens place := by
        rintro place hle ⟨t, ht, -, hlt⟩
        have := hstop t ht
        omega
      exact iff_of_false (hnot (by omega)) (hnot (by omega))
    · exact iff_of_true (hall _ (by omega) (by omega)) (hall _ (by omega) (by omega))

/-- A character behind the ASCII beginning is covered when a place further ahead is. -/
theorem CutsMatch.covered_iff (h : CutsMatch line tokens) {before after : List Char} {c : Char}
    (hline : line.toList = before ++ c :: after) :
    Covered tokens (unitLength before) ↔ Covered tokens (byteLength before) :=
  h _ (mem_places.2 ⟨before, c, after, 0, hline, utf16Size_pos c, rfl⟩)

/-- The character at a byte begins at or before the end of the ASCII beginning and is covered as
this place is, or is covered as a smaller place from there on is. -/
theorem CutsMatch.step (h : CutsMatch line tokens)
    (hranges : ∀ t ∈ tokens, IsRange line t.start t.stop) {byte : Nat}
    (hlt : byte < byteLength line.toList) (hle : asciiBytes line ≤ byte) :
    ∃ place, asciiBytes line ≤ place ∧ (place < byte ∨ place = asciiBytes line) ∧
      (Covered tokens byte ↔ Covered tokens place) := by
  obtain ⟨before, c, after, k, hline, hk, rfl⟩ := exists_char hlt
  have hwhole : ∀ {k}, k < c.utf8Size →
      (Covered tokens (byteLength before + k) ↔ Covered tokens (byteLength before)) :=
    fun hk => covered_char hranges hline hk
  rcases ascii_or_fewer_units hline with ⟨-, hbefore⟩ | ⟨hbehind, hfewer⟩
  · refine ⟨asciiBytes line, Nat.le_refl _, .inr rfl, ?_⟩
    have hin : asciiBytes line - byteLength before < c.utf8Size := by omega
    have hplace := hwhole hin
    rw [Nat.add_sub_cancel' hbefore] at hplace
    rw [hwhole hk, hplace]
  · refine ⟨unitLength before, by omega, .inl (by omega), ?_⟩
    rw [hwhole hk, h.covered_iff hline]

theorem CutsMatch.aligned (h : CutsMatch line tokens)
    (hranges : ∀ t ∈ tokens, IsRange line t.start t.stop) : Aligned line tokens := by
  by_cases hstop : ∀ t ∈ tokens, t.stop ≤ asciiBytes line
  case pos => exact .inl hstop
  case neg =>
    right
    -- every place from the ASCII beginning on is covered as its end is
    have hsame : ∀ byte < byteLength line.toList, asciiBytes line ≤ byte →
        (Covered tokens byte ↔ Covered tokens (asciiBytes line)) := by
      intro byte
      induction byte using Nat.strong_induction_on with
      | _ byte ih =>
        intro hlt hle
        obtain ⟨place, hplace, hsmaller, hiff⟩ := h.step hranges hlt hle
        rcases hsmaller with hsmaller | rfl
        · exact hiff.trans (ih place hsmaller (by omega) hplace)
        · exact hiff
    simp only [not_forall] at hstop
    obtain ⟨t, ht, hover⟩ := hstop
    obtain ⟨hpos, hend⟩ := stop_le (hranges t ht)
    have hcovered : Covered tokens (max t.start (asciiBytes line)) :=
      ⟨t, ht, by omega, by omega⟩
    have hbegin := (hsame _ (by omega) (by omega)).1 hcovered
    rw [← Text.byteLength_toList]
    exact fun byte hlt hle => (hsame byte hlt hle).2 hbegin

end

/-! ## What is detected -/

/-- A match of the expressions, and of their groups, is a range of the line. -/
def PiiPatterns.Sound (patterns : PiiPatterns) : Prop :=
  ∀ line, ∀ m ∈ patterns.geid line ++ patterns.ipPort line ++ patterns.shard line,
    IsRange line m.1 m.2

theorem eq_of_mem_matchIndices {needle cs : List Char} {offset skip i : Nat}
    (h : i ∈ matchIndices needle offset skip cs) :
    ∃ a b, cs = a ++ (needle ++ b) ∧ i = offset + byteLength a := by
  induction cs generalizing offset skip with
  | nil => simp [matchIndices] at h
  | cons c cs ih =>
    have hlater : ∀ {skip}, i ∈ matchIndices needle (offset + c.utf8Size) skip cs →
        ∃ a b, c :: cs = a ++ (needle ++ b) ∧ i = offset + byteLength a := by
      intro skip hi
      obtain ⟨a, b, rfl, rfl⟩ := ih hi
      refine ⟨c :: a, b, rfl, ?_⟩
      simp only [byteLength, List.map_cons, List.sum_cons]
      omega
    cases skip with
    | succ skip => exact hlater h
    | zero =>
      rw [matchIndices] at h
      split at h
      case isTrue hstart =>
        rcases List.mem_cons.1 h with rfl | h
        · obtain ⟨b, hb⟩ := List.isPrefixOf_iff_prefix.1 hstart
          exact ⟨[], b, hb.symm, rfl⟩
        · exact hlater h
      case isFalse => exact hlater h

theorem isRange_of_mem_nameTokens {kind : PiiKind} {redaction line name : String} {redact : Bool}
    {t : PiiToken} (h : t ∈ nameTokens kind redaction redact line name) :
    IsRange line t.start t.stop := by
  rw [nameTokens] at h
  split at h
  case isTrue => cases h
  case isFalse hname =>
    obtain ⟨i, hi, rfl⟩ := List.mem_map.1 h
    obtain ⟨a, b, hline, rfl⟩ := eq_of_mem_matchIndices hi
    refine ⟨a, name.toList, b, hline, fun hnil => hname ?_, by simp, ?_⟩
    · simpa using hnil
    · rw [Text.byteLength_toList, Nat.zero_add]

section
variable {patterns : PiiPatterns} {line ownHandle : String} {knownFriends : List String}
  {redactions : String → Bool}

theorem isRange_of_mem_detectPii (h : patterns.Sound) {t : PiiToken}
    (ht : t ∈ detectPii patterns ownHandle knownFriends line) : IsRange line t.start t.stop := by
  have hpattern : ∀ {kind redaction redact} {found : List (Nat × Nat)},
      (∀ m ∈ found, IsRange line m.1 m.2) → t ∈ patternTokens kind redaction redact found →
        IsRange line t.start t.stop := by
    intro kind redaction redact found hfound hmem
    obtain ⟨m, hm, rfl⟩ := List.mem_map.1 hmem
    exact hfound m hm
  have hsound := h line
  simp only [List.mem_append, or_imp, forall_and] at hsound
  obtain ⟨⟨hgeid, hipPort⟩, hshard⟩ := hsound
  rw [detectPii, List.mem_insertionSort] at ht
  simp only [List.mem_append, List.mem_flatMap] at ht
  rcases ht with (((ht | ⟨friend, -, ht⟩) | ht) | ht) | ht
  · exact isRange_of_mem_nameTokens ht
  · exact isRange_of_mem_nameTokens ht
  · exact hpattern hgeid ht
  · exact hpattern hipPort ht
  · exact hpattern hshard ht

/-- Within the ASCII beginning of the line each token is replaced by the whole of its mark. -/
theorem applyRedactions_eq_replaced (hpatterns : patterns.Sound)
    (hseparate : Separate (selected (detectPii patterns ownHandle knownFriends line) redactions))
    (hascii : ∀ t ∈ selected (detectPii patterns ownHandle knownFriends line) redactions,
      t.stop ≤ asciiBytes line) :
    applyRedactions utf16 (utf16 line) (detectPii patterns ownHandle knownFriends line)
        redactions =
      replaced utf16 (utf16 line)
        (cuts (detectPii patterns ownHandle knownFriends line) redactions) := by
  have hlt : ∀ t ∈ selected (detectPii patterns ownHandle knownFriends line) redactions,
      t.start < t.stop := fun t ht =>
    (stop_le (isRange_of_mem_detectPii hpatterns (List.mem_of_mem_filter ht))).1
  have hfold : applyRedactions utf16 (utf16 line)
        (detectPii patterns ownHandle knownFriends line) redactions =
      (cuts (detectPii patterns ownHandle knownFriends line) redactions).foldl (splice utf16)
        (utf16 line) := by
    rw [applyRedactions, cuts, selected, List.foldl_filter]
  rw [hfold, foldl_splice_eq_replaced (rightToLeft_cuts hseparate hlt)]
  intro t ht
  have hmem := (cuts_perm _ _).mem_iff.1 ht
  exact ⟨(hlt t hmem).le, (hascii t hmem).trans (asciiBytes_le line)⟩

/-- **Of tokens that do not overlap** nothing is left and all else is kept, exactly when they end
before the first character that is not ASCII, or cover the line from it on. In the first case each
of them is replaced by its mark. The places aside, the redacted line is the text that is sent. -/
theorem redacts_iff (hpatterns : patterns.Sound)
    (hseparate : Separate (selected (detectPii patterns ownHandle knownFriends line) redactions)) :
    (Redacts line (detectPii patterns ownHandle knownFriends line) redactions ↔
      Aligned line (selected (detectPii patterns ownHandle knownFriends line) redactions)) ∧
    ((∀ t ∈ selected (detectPii patterns ownHandle knownFriends line) redactions,
        t.stop ≤ asciiBytes line) →
      applyRedactions utf16 (utf16 line) (detectPii patterns ownHandle knownFriends line)
          redactions =
        replaced utf16 (utf16 line)
          (cuts (detectPii patterns ownHandle knownFriends line) redactions)) ∧
    (redacted line (detectPii patterns ownHandle knownFriends line) redactions).map (·.1) =
      applyRedactions utf16 (utf16 line) (detectPii patterns ownHandle knownFriends line)
        redactions := by
  refine ⟨?_, applyRedactions_eq_replaced hpatterns hseparate, redacted_text _ _ _⟩
  have hranges : ∀ t ∈ selected (detectPii patterns ownHandle knownFriends line) redactions,
      IsRange line t.start t.stop := fun t ht =>
    isRange_of_mem_detectPii hpatterns (List.mem_of_mem_filter ht)
  have hmatch : Redacts line (detectPii patterns ownHandle knownFriends line) redactions ↔
      CutsMatch line (selected (detectPii patterns ownHandle knownFriends line) redactions) := by
    rw [Redacts, kept_eq hseparate fun t ht => (stop_le (hranges t ht)).1]
    constructor
    · intro heq x hx
      have hmem := congrArg (x ∈ ·) heq
      simpa [List.mem_filter, hx, not_iff_not] using hmem
    · intro h
      exact List.filter_congr fun x hx => by simp only [h x hx]
  exact hmatch.trans ⟨fun h => h.aligned hranges, fun h => h.cutsMatch⟩

end

instance (line : String) (tokens : List PiiToken) (redactions : String → Bool) :
    Decidable (Redacts line tokens redactions) := inferInstanceAs (Decidable (_ = _))

theorem noPatterns_sound : noPatterns.Sound := fun _ _ hm => absurd hm List.not_mem_nil

/-- The name comes before the letter of two bytes. -/
theorem redacts_before :
    Redacts "Ada é" (detectPii noPatterns "Ada" [] "Ada é") fun _ => true :=
  (redacts_iff noPatterns_sound (by decide +kernel)).1.2 (.inl (by decide +kernel))

/-- Behind the letter the cut is one code unit too far, and of two names that begin together the
second cut takes the mark of the first for the line. -/
theorem redaction_leaks :
    (applyRedactions utf16 (utf16 "é Ada") (detectPii noPatterns "Ada" [] "é Ada") (fun _ => true) =
        utf16 "é A[HANDLE]" ∧
      ¬ Redacts "é Ada" (detectPii noPatterns "Ada" [] "é Ada") fun _ => true) ∧
    (applyRedactions utf16 (utf16 "Adam") (detectPii noPatterns "Ada" ["Adam"] "Adam")
        (fun _ => true) = utf16 "[FRIEND]DLE]m" ∧
      ¬ Redacts "Adam" (detectPii noPatterns "Ada" ["Adam"] "Adam") fun _ => true) := by
  decide +kernel

end StarStats.UnknownLines
