import Mathlib.Data.List.Basic
import StarStats.Client.Proof.Stored
import StarStats.Client.Reparse
import StarStats.Client.Sync
import StarStats.Client.Tailer
import StarStats.Lib.Search

/-!
# The keys of rows (`idempotency_key`, `inferred_idempotency_key`, `burst_idempotency_key`)

The fields of a key are joined with `:` before they are hashed. The last one is free text; no other
can hold a `:`, and what else is hashed does not begin with a channel.

* `keys_apart`: no two things that are stored under a key share it.
* `ReparseEnv.summaryRow_key_iff`: when a burst gets the key that it got live.
-/

namespace StarStats

open Tailer (LogFile fileSigHeadBytes)

/-! ## Channels -/

/-- `std::path::Component`; `none` for a name that is no UTF-8. -/
inductive PathComponent where
  | drive
  | rootDir
  | curDir
  | parentDir
  | normal (name : Option String)
  deriving DecidableEq

namespace LogPath

/-- `Path::parent`, with the last component first. -/
def parent : List PathComponent → Option (List PathComponent)
  | .normal _ :: rest => some rest
  | .curDir :: rest => some rest
  | .parentDir :: rest => some rest
  | _ => none

/-- `Path::file_name`, when it is UTF-8. -/
def fileName : List PathComponent → Option String
  | .normal name :: _ => name
  | _ => none

end LogPath

/-- The channel of a directory in capitals. -/
def channelOf (upper : String) : String :=
  if upper = "LIVE" then "live"
  else if upper = "PTU" then "ptu"
  else if upper = "EPTU" then "eptu"
  else if upper = "HOTFIX" then "hotfix"
  else if upper = "TECH-PREVIEW" then "tech"
  else "other"

def logSourceFromPath (path : List PathComponent) : String :=
  let parent := LogPath.parent path
  let grandparent := parent.bind LogPath.parent
  let directory := parent.bind LogPath.fileName
  let segment := if directory = some "Logs" then grandparent.bind LogPath.fileName else directory
  channelOf (String.ofList ((segment.getD "OTHER").toList.map Char.toUpper))

example :
    logSourceFromPath [.normal "Game-1.log", .normal "Logs", .normal "Live", .rootDir] = "live" ∧
      logSourceFromPath [.normal "Game.log", .normal "tech-preview", .rootDir] = "tech" := by
  decide +kernel

def logSourceEnumFromStr (s : String) : LogSource := parseSource s

/-- The channel of a path is one that rows are stored under. -/
theorem logSourceName_fromPath (path : List PathComponent) :
    logSourceName (logSourceEnumFromStr (logSourceFromPath path)) = logSourceFromPath path := by
  rw [logSourceFromPath, channelOf]
  repeat' split
  all_goals rfl

theorem logSourceName_injective : Function.Injective logSourceName := by
  intro source source' h
  cases source <;> cases source' <;> first | rfl | simp [logSourceName] at h

theorem colon_not_mem_logSourceName (source : LogSource) : ':' ∉ (logSourceName source).toList := by
  cases source <;> decide

theorem logSourceName_ne_inferred (source : LogSource) : logSourceName source ≠ "inferred" := by
  cases source <;> decide

/-! ## Signatures -/

def isHexDigit (c : Char) : Bool := c.isDigit || 'a'.toNat ≤ c.toNat && c.toNat ≤ 'f'.toNat

/-- `Uuid::to_string`: groups of hexadecimal digits. -/
def isUuid (s : String) : Bool :=
  let groups := Text.fields (· = '-') s.toList
  groups.map List.length = [8, 4, 4, 4, 12] && groups.flatten.all isHexDigit

theorem dash_mem_of_isUuid {s : String} (h : isUuid s = true) : '-' ∈ s.toList := by
  by_contra hdash
  have hone : Text.fields (· = '-') s.toList = [s.toList] :=
    Text.fields_of_not_sep fun c hc => decide_eq_false fun heq => hdash (heq ▸ hc)
  simp [isUuid, hone] at h

theorem colon_not_mem_of_isUuid {s : String} (h : isUuid s = true) : ':' ∉ s.toList := by
  intro hcolon
  obtain ⟨group, hgroup, hmem⟩ := Text.mem_field_of_mem (· = '-') hcolon (by decide)
  simp only [isUuid, Bool.and_eq_true, List.all_eq_true] at h
  have hhex := h.2 ':' (List.mem_flatten.2 ⟨group, hgroup, hmem⟩)
  exact absurd hhex (by decide)

theorem dash_not_mem_toString (n : Nat) : '-' ∉ (toString n).toList := by
  intro h
  have hmem : '-' ∈ Nat.toDigits 10 n := by
    simpa [Nat.repr, String.toList_ofList] using h
  exact absurd (Json.isDigit_of_mem_toDigits hmem) (by decide)

/-- What `file_signature` gives, as text. -/
def LogFeed.Signed (feed : LogFeed) : Prop := ∀ sig ∈ feed.fileSig, isUuid sig = true

/-! ## Rows and inferences -/

/-- What is hashed for a row. -/
def LogFeed.keyText (feed : LogFeed) (offset : Nat) (line : String) : List Char :=
  let rest := (toString offset).toList ++ ':' :: line.toList
  (logSourceName feed.source).toList ++ ':' ::
    match feed.fileSig with
    | some sig => sig.toList ++ ':' :: rest
    | none => rest

theorem keyText_inj {feed feed' : LogFeed} (hfeed : feed.Signed) (hfeed' : feed'.Signed)
    {m n : Nat} {s t : String} (h : feed.keyText m s = feed'.keyText n t) :
    feed = feed' ∧ m = n ∧ s = t := by
  obtain ⟨source, sig⟩ := feed
  obtain ⟨source', sig'⟩ := feed'
  obtain ⟨hname, hrest⟩ := Text.split_unique (colon_not_mem_logSourceName source)
    (colon_not_mem_logSourceName source') h
  obtain rfl := logSourceName_injective (String.toList_inj.1 hname)
  have hsplit : ∀ {x y : List Char},
      (toString m).toList ++ ':' :: x = (toString n).toList ++ ':' :: y → m = n ∧ x = y := by
    intro x y heq
    obtain ⟨hdigits, hxy⟩ := Text.split_unique (colon_not_mem_toString m)
      (colon_not_mem_toString n) heq
    exact ⟨toString_injective (String.toList_inj.1 hdigits), hxy⟩
  cases sig with
  | none =>
    cases sig' with
    | none =>
      obtain ⟨rfl, hline⟩ := hsplit hrest
      exact ⟨rfl, rfl, String.toList_inj.1 hline⟩
    | some u' =>
      -- digits have no dash
      have hu := hfeed' u' rfl
      obtain ⟨hdigits, -⟩ := Text.split_unique (colon_not_mem_toString m)
        (colon_not_mem_of_isUuid hu) hrest
      exact absurd (hdigits ▸ dash_mem_of_isUuid hu) (dash_not_mem_toString m)
  | some u =>
    have hu := hfeed u rfl
    cases sig' with
    | none =>
      obtain ⟨hdigits, -⟩ := Text.split_unique (colon_not_mem_of_isUuid hu)
        (colon_not_mem_toString n) hrest
      exact absurd (hdigits ▸ dash_mem_of_isUuid hu) (dash_not_mem_toString n)
    | some u' =>
      obtain ⟨hsig, hunsalted⟩ := Text.split_unique (colon_not_mem_of_isUuid hu)
        (colon_not_mem_of_isUuid (hfeed' u' rfl)) hrest
      obtain rfl := String.toList_inj.1 hsig
      obtain ⟨rfl, hline⟩ := hsplit hunsalted
      exact ⟨rfl, rfl, String.toList_inj.1 hline⟩

namespace IngestEnv
variable {env : IngestEnv}

theorem idempotencyKey_eq (env : IngestEnv) (feed : LogFeed) (offset : Nat) (line : String) :
    env.idempotencyKey feed offset line = env.newV5 (String.ofList (feed.keyText offset line)) := by
  obtain ⟨source, sig⟩ := feed
  cases sig <;>
    exact congrArg env.newV5 (String.toList_inj.1 (by simp [LogFeed.keyText]))

theorem rowKey_inj (hkeys : Function.Injective env.newV5) {feed feed' : LogFeed}
    (hfeed : feed.Signed) (hfeed' : feed'.Signed) {m n : Nat} {s t : String}
    (h : env.idempotencyKey feed m s = env.idempotencyKey feed' n t) :
    feed = feed' ∧ m = n ∧ s = t := by
  rw [idempotencyKey_eq, idempotencyKey_eq] at h
  have hchars := congrArg String.toList (hkeys h)
  rw [String.toList_ofList, String.toList_ofList] at hchars
  exact keyText_inj hfeed hfeed' hchars

theorem rowKey_ne_inferred (hkeys : Function.Injective env.newV5) (feed : LogFeed) (offset : Nat)
    (line ruleId triggerKey : String) :
    env.idempotencyKey feed offset line ≠ env.inferredIdempotencyKey ruleId triggerKey := by
  intro h
  rw [idempotencyKey_eq, inferredIdempotencyKey] at h
  have hchars := congrArg String.toList (hkeys h)
  have hinferred : ("inferred:" ++ ruleId ++ ":" ++ triggerKey).toList =
      "inferred".toList ++ ':' :: (ruleId ++ ":" ++ triggerKey).toList := by simp
  rw [String.toList_ofList, hinferred, LogFeed.keyText] at hchars
  obtain ⟨hname, -⟩ := Text.split_unique (colon_not_mem_logSourceName feed.source)
    (by decide) hchars
  exact logSourceName_ne_inferred feed.source (String.toList_inj.1 hname)

end IngestEnv

/-! ## The texts of a line -/

/-- A line with what is joined to it. -/
def stitchedText (line : String) (rest : List (String × Nat)) : String :=
  ((joined line rest).getD []).foldl (fun merged body => merged ++ " " ++ body) line

theorem exists_line_of_mem_stitchFrom {skip : Nat} {lines : List (String × Nat)}
    {record : String × Nat} (h : record ∈ stitchFrom skip lines) :
    ∃ before line rest, lines = before ++ line :: rest ∧
      record = (stitchedText line.1 rest, line.2) := by
  induction lines generalizing skip with
  | nil => cases skip <;> cases h
  | cons line rest ih =>
    have hlater : ∀ {k}, record ∈ stitchFrom k rest → ∃ before line' rest',
        line :: rest = before ++ line' :: rest' ∧
          record = (stitchedText line'.1 rest', line'.2) := by
      intro k hk
      obtain ⟨before, line', rest', rfl, hrecord⟩ := ih hk
      exact ⟨line :: before, line', rest', rfl, hrecord⟩
    cases skip with
    | succ k => exact hlater h
    | zero =>
      rw [stitchFrom] at h
      cases hjoined : joined line.1 rest with
      | some bodies =>
        rw [hjoined] at h
        rcases List.mem_cons.1 h with rfl | h
        · exact ⟨[], line, rest, rfl, by rw [stitchedText, hjoined, Option.getD_some]⟩
        · exact hlater h
      | none =>
        rw [hjoined] at h
        rcases List.mem_cons.1 h with rfl | h
        · exact ⟨[], record, rest, rfl, by rw [stitchedText, hjoined]; rfl⟩
        · exact hlater h

/-- One text of a line is the other, or goes on behind it. -/
def SameLine (s t : String) : Prop := s = t ∨ (∃ x, t = s ++ " " ++ x) ∨ ∃ x, s = t ++ " " ++ x

theorem SameLine.symm {s t : String} (h : SameLine s t) : SameLine t s := by
  rcases h with rfl | h | h
  · exact .inl rfl
  · exact .inr (.inr h)
  · exact .inr (.inl h)

theorem foldl_append_bodies (bodies : List String) (line : String) :
    SameLine line (bodies.foldl (fun merged body => merged ++ " " ++ body) line) := by
  cases bodies with
  | nil => exact .inl rfl
  | cons body bodies =>
    refine .inr (.inl ?_)
    rw [List.foldl_cons]
    induction bodies generalizing body with
    | nil => exact ⟨body, rfl⟩
    | cons body' bodies ih =>
      obtain ⟨x, hx⟩ := ih (body ++ " " ++ body')
      exact ⟨x, by simpa [String.append_assoc] using hx⟩

theorem sameLine_stitchedText {line : String} {rest rest' after after' : List (String × Nat)}
    (h : rest ++ after = rest' ++ after') :
    SameLine (stitchedText line rest) (stitchedText line rest') := by
  rw [stitchedText, stitchedText]
  cases hjoined : joined line rest with
  | none => exact foldl_append_bodies _ line
  | some bodies =>
    cases hjoined' : joined line rest' with
    | none => exact (foldl_append_bodies _ line).symm
    | some bodies' =>
      have hbodies : joined line (rest ++ after) = some bodies := joined_append_some hjoined
      rw [h, joined_append_some hjoined'] at hbodies
      rw [Option.some.inj hbodies]
      exact .inl rfl

/-- The records of two parts of a file at one offset are texts of one line. -/
theorem sameLine_of_offset_eq {file lines lines' : List (String × Nat)}
    (hfile : (file.map (·.2)).Nodup) (h : lines <:+: file) (h' : lines' <:+: file)
    {record record' : String × Nat} (hrecord : record ∈ stitchMultilineRecords lines)
    (hrecord' : record' ∈ stitchMultilineRecords lines') (heq : record.2 = record'.2) :
    SameLine record.1 record'.1 := by
  obtain ⟨before, line, rest, rfl, rfl⟩ := exists_line_of_mem_stitchFrom hrecord
  obtain ⟨before', line', rest', rfl, rfl⟩ := exists_line_of_mem_stitchFrom hrecord'
  obtain ⟨start, after, hstart⟩ := h
  obtain ⟨start', after', hstart'⟩ := h'
  have hsplit : file = (start ++ before) ++ line :: (rest ++ after) := by simp [← hstart]
  have hsplit' : file = (start' ++ before') ++ line' :: (rest' ++ after') := by simp [← hstart']
  rw [hsplit, List.map_append, List.map_cons, List.nodup_middle, List.nodup_cons,
    List.mem_append] at hfile
  have hnot : ∀ {part : List (String × Nat)}, line.2 ∉ part.map (·.2) → line' ∉ part :=
    fun hpart hmem => hpart (List.mem_map.2 ⟨line', hmem, heq.symm⟩)
  obtain ⟨-, rfl, hrest⟩ := (List.append_cons_inj_of_notMem
    (hnot fun hmem => hfile.1 (.inl hmem)) (hnot fun hmem => hfile.1 (.inr hmem))).1
      (hsplit.symm.trans hsplit')
  exact sameLine_stitchedText hrest

theorem syntheticLine_toList (anchor : String) (burst : BurstHit) :
    (IngestEnv.syntheticLine anchor burst).toList = anchor.toList ++ "|burst:".toList ++
      burst.ruleId.toList ++ ':' :: (toString burst.size).toList := by
  simp [IngestEnv.syntheticLine]

/-- No text of a line is the line that keys a burst of it. -/
theorem ne_syntheticLine {s t : String} (h : SameLine s t) (burst : BurstHit) :
    s ≠ IngestEnv.syntheticLine t burst := by
  intro heq
  have hchars := congrArg String.toList heq
  rw [syntheticLine_toList] at hchars
  rcases h with rfl | ⟨x, rfl⟩ | ⟨x, rfl⟩
  · simp at hchars
  · simp at hchars
  · simp at hchars

/-- The line that keys a burst names its rule and its size. -/
theorem syntheticLine_inj {s t : String} (h : SameLine s t) {burst burst' : BurstHit}
    (heq : IngestEnv.syntheticLine s burst = IngestEnv.syntheticLine t burst') :
    burst.ruleId = burst'.ruleId ∧ burst.size = burst'.size := by
  have hchars := congrArg (List.reverse ∘ String.toList) heq
  simp only [Function.comp, syntheticLine_toList, List.reverse_append, List.reverse_cons,
    List.append_assoc, List.cons_append] at hchars
  have hdigits : ∀ n : Nat, ':' ∉ (toString n).toList.reverse :=
    fun n hmem => colon_not_mem_toString n (List.mem_reverse.1 hmem)
  obtain ⟨hsize, hstart⟩ := Text.split_unique (hdigits _) (hdigits _) hchars
  refine ⟨?_, toString_injective (String.toList_inj.1 (List.reverse_injective hsize))⟩
  have hrule := congrArg List.reverse hstart
  simp only [List.reverse_append, List.reverse_reverse, List.append_assoc] at hrule
  rcases h with rfl | ⟨x, rfl⟩ | ⟨x, rfl⟩
  · exact String.toList_inj.1 (by simpa using hrule)
  · simp at hrule
  · simp at hrule

/-! ## All keys -/

/-- The record that anchors a summary. -/
theorem IngestEnv.exists_anchor {env : IngestEnv} {feed : LogFeed} {lines : List (String × Nat)}
    {burst : BurstHit} {item : BufferItem}
    (h : env.burstItem feed (recordsOf lines) burst = some item) :
    ∃ anchor ∈ stitchMultilineRecords lines, item.offset = anchor.2 ∧
      item.key = env.idempotencyKey feed anchor.2 (syntheticLine anchor.1 burst) := by
  obtain ⟨record, hrecord, hoffset, hkey, -⟩ := burstItem_eq_some h
  obtain ⟨anchor, hanchor, hparsed⟩ := List.mem_filterMap.1 (List.mem_of_getElem? hrecord)
  obtain ⟨parsed, -, rfl⟩ := Option.map_eq_some_iff.1 hparsed
  exact ⟨anchor, hanchor, hoffset, hkey⟩

/-- No two things that are stored under a key share it. -/
structure KeysApart (env : IngestEnv) : Prop where
  channels (path : List PathComponent) :
    logSourceName (logSourceEnumFromStr (logSourceFromPath path)) = logSourceFromPath path
  rows {feed feed' : LogFeed} (hfeed : feed.Signed) (hfeed' : feed'.Signed) {m n : Nat}
    {s t : String} (h : env.idempotencyKey feed m s = env.idempotencyKey feed' n t) :
    feed = feed' ∧ m = n ∧ s = t
  inferred (feed : LogFeed) (offset : Nat) (line ruleId triggerKey : String) :
    env.idempotencyKey feed offset line ≠ env.inferredIdempotencyKey ruleId triggerKey
  lines {feed : LogFeed} (hfeed : feed.Signed) {file lines lines' : List (String × Nat)}
    (hfile : (file.map (·.2)).Nodup) (h : lines <:+: file) (h' : lines' <:+: file)
    {record : String × Nat} (hrecord : record ∈ stitchMultilineRecords lines) {burst : BurstHit}
    {item : BufferItem} (hitem : env.burstItem feed (recordsOf lines') burst = some item) :
    env.idempotencyKey feed record.2 record.1 ≠ item.key
  bursts {feed : LogFeed} (hfeed : feed.Signed) {file lines lines' : List (String × Nat)}
    (hfile : (file.map (·.2)).Nodup) (h : lines <:+: file) (h' : lines' <:+: file)
    {burst burst' : BurstHit} {item item' : BufferItem}
    (hitem : env.burstItem feed (recordsOf lines) burst = some item)
    (hitem' : env.burstItem feed (recordsOf lines') burst' = some item')
    (hkey : item.key = item'.key) :
    item.offset = item'.offset ∧ burst.ruleId = burst'.ruleId ∧ burst.size = burst'.size

theorem keys_apart {env : IngestEnv} (hkeys : Function.Injective env.newV5) : KeysApart env where
  channels := logSourceName_fromPath
  rows := IngestEnv.rowKey_inj hkeys
  inferred := IngestEnv.rowKey_ne_inferred hkeys
  lines {feed} hfeed {file lines lines'} hfile h h' {record} hrecord {burst item} hitem := by
    intro hkey
    obtain ⟨anchor, hanchor, -, hanchorKey⟩ := IngestEnv.exists_anchor hitem
    rw [hanchorKey] at hkey
    obtain ⟨-, hoffset, htext⟩ := IngestEnv.rowKey_inj hkeys hfeed hfeed hkey
    exact ne_syntheticLine (sameLine_of_offset_eq hfile h h' hrecord hanchor hoffset) burst htext
  bursts {feed} hfeed {file lines lines'} hfile h h' {burst burst' item item'} hitem hitem' := by
    intro hkey
    obtain ⟨anchor, hanchor, hoffset, hanchorKey⟩ := IngestEnv.exists_anchor hitem
    obtain ⟨anchor', hanchor', hoffset', hanchorKey'⟩ := IngestEnv.exists_anchor hitem'
    rw [hanchorKey, hanchorKey'] at hkey
    obtain ⟨-, hplace, htext⟩ := IngestEnv.rowKey_inj hkeys hfeed hfeed hkey
    refine ⟨by rw [hoffset, hplace, hoffset'], ?_⟩
    exact syntheticLine_inj (sameLine_of_offset_eq hfile h h' hanchor hanchor' hplace) htext

/-- `Uuid::new_v5` is one-to-one; nothing else is read from the lines. -/
def plainReparse : ReparseEnv where
  classify _ := none
  applyRemoteRules _ := none
  observed := none_ne_burstSummary
  toJson _ := ""
  toLowercase := Text.lower
  newV5 := id
  parseTs _ := none
  metadataToJson _ := ""

/-- Three lines behind an opening line of `opening` bytes. -/
def attachmentLog (opening : Nat) : List (String × Nat) :=
  [("<1> <AttachmentReceived> a1 [Inventory]", opening + 1),
    ("<2> <AttachmentReceived> a2 [Inventory]", opening + 41),
    ("<3> <AttachmentReceived> a3 [Inventory]", opening + 81)]

def attachmentFile (opening : Nat) : LogFile where
  id := 0
  createdMillis := none
  bytes := List.replicate opening 97 ++ 10 :: (attachmentLog opening).flatMap fun line =>
    line.1.toList.map (fun c => UInt8.ofNat c.toNat) ++ [10]

def attachmentBurst : BurstHit := ⟨loadoutRestoreBurstRuleId, 0, 2, 3, [0, 1, 2]⟩

def attachmentSig : String := "6ba7b814-9dad-11d1-80b4-00c04fd430c8"

def attachmentFeed : LogFeed := ⟨.live, some attachmentSig⟩

/-- The first line keys itself apart from the burst that it anchors. -/
theorem keys_apart_attachments :
    ∃ item ∈ plainReparse.burstItem attachmentFeed (recordsOf (attachmentLog 600)) attachmentBurst,
      plainReparse.idempotencyKey attachmentFeed 601 "<1> <AttachmentReceived> a1 [Inventory]" ≠
        item.key := by
  have hsigned : attachmentFeed.Signed := by
    intro sig hsig
    obtain rfl := Option.some.inj hsig
    decide +kernel
  have hoffsets : ((attachmentLog 600).map (·.2)).Nodup := by decide
  have hrecord : ("<1> <AttachmentReceived> a1 [Inventory]", 601) ∈
      stitchMultilineRecords (attachmentLog 600) := by
    decide +kernel
  have hsome : (plainReparse.burstItem attachmentFeed (recordsOf (attachmentLog 600))
      attachmentBurst).isSome = true := by
    decide +kernel
  obtain ⟨item, hitem⟩ := Option.isSome_iff_exists.1 hsome
  exact ⟨item, hitem, (@keys_apart plainReparse.toIngestEnv Function.injective_id).lines hsigned
    hoffsets List.infix_rfl List.infix_rfl hrecord hitem⟩

/-! ## Bursts that are found later -/

/-- The pass finds a burst again that was collapsed live, at the row of its first line. -/
structure FoundAgain (item : BufferItem) (burst hit : BurstHit) (anchor : LocalRow) : Prop where
  ruleId : hit.ruleId = burst.ruleId
  size : hit.size = burst.size
  raw : anchor.raw = item.raw
  offset : anchor.sourceOffset = item.offset

theorem FoundAgain.syntheticLine_eq {item : BufferItem} {burst hit : BurstHit} {anchor : LocalRow}
    (h : FoundAgain item burst hit anchor) :
    IngestEnv.syntheticLine anchor.raw hit = IngestEnv.syntheticLine item.raw burst := by
  rw [IngestEnv.syntheticLine, IngestEnv.syntheticLine, h.raw, h.ruleId, h.size]

theorem IngestEnv.burstItem_key {env : IngestEnv} {feed : LogFeed} {records : List ParsedRecord}
    {burst : BurstHit} {item : BufferItem} (h : env.burstItem feed records burst = some item) :
    item.key = env.idempotencyKey feed item.offset (syntheticLine item.raw burst) := by
  simp only [burstItem, Option.bind_eq_bind, Option.bind_eq_some_iff, Option.pure_def,
    Option.some.injEq] at h
  obtain ⟨anchor, -, last, -, rfl⟩ := h
  rfl

/-- A signature makes the text that is hashed longer. -/
theorem IngestEnv.unsigned_key_eq_iff {env : IngestEnv} (hkeys : Function.Injective env.newV5)
    (source : LogSource) (sig : Option String) (offset : Nat) (line : String) :
    env.idempotencyKey ⟨source, none⟩ offset line = env.idempotencyKey ⟨source, sig⟩ offset line ↔
      sig = none := by
  cases sig with
  | none => simp
  | some u =>
    refine iff_of_false (fun h => ?_) (Option.some_ne_none u)
    rw [idempotencyKey_eq, idempotencyKey_eq] at h
    have hchars := congrArg String.length (hkeys h)
    simp only [LogFeed.keyText, String.length_ofList, List.length_append,
      List.length_cons] at hchars
    omega

theorem signature_eq_none_iff {file : LogFile} {sign : List UInt8 → String} :
    file.signature sign = none ↔ file.bytes.length < fileSigHeadBytes := by
  rw [LogFile.signature, Tailer.signatureFromHead]
  split
  case isTrue h => simpa [fileSigHeadBytes] using h
  case isFalse h => simpa [fileSigHeadBytes] using h

/-- The pass leaves out the signature of the file. -/
theorem ReparseEnv.summaryRow_key {env : ReparseEnv} {source : LogSource} {burst hit : BurstHit}
    {item : BufferItem} {anchor : LocalRow} (hagain : FoundAgain item burst hit anchor)
    (anchorLine last : LogLine) (members : List LogLine) :
    (env.summaryRow (logSourceName source) hit anchor anchorLine last members).idempotencyKey =
      env.idempotencyKey ⟨source, none⟩ item.offset (IngestEnv.syntheticLine item.raw burst) := by
  rw [← hagain.syntheticLine_eq, ← hagain.offset]
  rfl

/-- A summary gets its live key while the file has no signature. -/
theorem ReparseEnv.summaryRow_key_iff {env : ReparseEnv} (hkeys : Function.Injective env.newV5)
    {source : LogSource} {file : LogFile} {sign : List UInt8 → String}
    {lines : List (String × Nat)} {burst hit : BurstHit} {item : BufferItem} {anchor : LocalRow}
    (hlive : env.burstItem ⟨source, file.signature sign⟩ (recordsOf lines) burst = some item)
    (hagain : FoundAgain item burst hit anchor) (anchorLine last : LogLine)
    (members : List LogLine) :
    (env.summaryRow (logSourceName source) hit anchor anchorLine last members).idempotencyKey =
        item.key ↔ file.bytes.length < fileSigHeadBytes := by
  rw [ReparseEnv.summaryRow_key hagain, IngestEnv.burstItem_key hlive,
    IngestEnv.unsigned_key_eq_iff hkeys, signature_eq_none_iff]

def attachmentAnchor (opening : Nat) : LocalRow where
  idempotencyKey := ""
  eventType := "attachment_received"
  timestamp := "1"
  raw := "<1> <AttachmentReceived> a1 [Inventory]"
  payload := ""
  logSource := "live"
  sourceOffset := opening + 1
  id := 1
  metadata := none
  sentAt := none
  contentKey := ""

/-- The burst of the log is read, and found again. -/
theorem exists_foundAgain {opening : Nat} {feed : LogFeed}
    (hmap : (plainReparse.burstItem feed (recordsOf (attachmentLog opening)) attachmentBurst).map
      (fun item => (item.raw, item.offset)) =
        some ((attachmentAnchor opening).raw, (attachmentAnchor opening).sourceOffset)) :
    ∃ item ∈ plainReparse.burstItem feed (recordsOf (attachmentLog opening)) attachmentBurst,
      FoundAgain item attachmentBurst attachmentBurst (attachmentAnchor opening) := by
  obtain ⟨item, hitem, hplace⟩ := Option.map_eq_some_iff.1 hmap
  obtain ⟨hraw, hoffset⟩ := Prod.mk.inj hplace
  exact ⟨item, hitem, rfl, rfl, hraw.symm, hoffset.symm⟩

/-- A file of 121 bytes has no signature yet. -/
theorem summaryRow_key_short :
    ∃ item ∈ plainReparse.burstItem ⟨.live, (attachmentFile 0).signature fun _ => attachmentSig⟩
        (recordsOf (attachmentLog 0)) attachmentBurst,
      (plainReparse.summaryRow "live" attachmentBurst (attachmentAnchor 0) ⟨"1", none, none, "", []⟩
        ⟨"3", none, none, "", []⟩ []).idempotencyKey = item.key := by
  obtain ⟨item, hitem, hagain⟩ := @exists_foundAgain 0
    ⟨.live, (attachmentFile 0).signature fun _ => attachmentSig⟩ (by decide +kernel)
  exact ⟨item, hitem, (@ReparseEnv.summaryRow_key_iff plainReparse Function.injective_id .live
    _ _ _ _ _ _ _ hitem hagain _ _ _).2 (by decide +kernel)⟩

/-- The file of 721 bytes is signed. -/
theorem summary_key_differs :
    ¬ ∀ (env : ReparseEnv) (_ : Function.Injective env.newV5) (source : LogSource) (file : LogFile)
      (sign : List UInt8 → String) (lines : List (String × Nat)) (burst hit : BurstHit)
      (item : BufferItem) (anchor : LocalRow) (anchorLine last : LogLine) (members : List LogLine),
      burst ∈ detectBursts (burstWindow lines) builtinBurstRules →
      env.burstItem ⟨source, file.signature sign⟩ (recordsOf lines) burst = some item →
      FoundAgain item burst hit anchor →
      (env.summaryRow (logSourceName source) hit anchor anchorLine last members).idempotencyKey =
        item.key := by
  intro h
  have hburst : attachmentBurst ∈
      detectBursts (burstWindow (attachmentLog 600)) builtinBurstRules := by
    decide +kernel
  obtain ⟨item, hitem, hagain⟩ := @exists_foundAgain 600
    ⟨.live, (attachmentFile 600).signature fun _ => attachmentSig⟩ (by decide +kernel)
  have hkey := h plainReparse Function.injective_id .live (attachmentFile 600)
    (fun _ => attachmentSig) (attachmentLog 600) attachmentBurst attachmentBurst item
    (attachmentAnchor 600) ⟨"1", none, none, "", []⟩ ⟨"3", none, none, "", []⟩ [] hburst hitem
    hagain
  rw [ReparseEnv.summaryRow_key hagain, IngestEnv.burstItem_key hitem,
    IngestEnv.unsigned_key_eq_iff Function.injective_id] at hkey
  exact absurd hkey (by decide +kernel)

end StarStats
