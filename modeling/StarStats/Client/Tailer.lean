import Mathlib.Data.List.DropRight
import StarStats.Lib.Lines
import StarStats.Lib.Trans
import StarStats.Lib.Utf8

/-!
# The live tail (`starstats-client/src/gamelog.rs` `drain`)

A drain finds out whether the file at its path is still the one it last read, reads the complete
lines behind its offset, hands them to `process_buffer` and writes the cursor. `DrainIo` says which
of its system calls fails. `step` runs drains among appends, rotations and restarts of the tray; a
crash is one between `process_buffer` and the cursor. What is appended while a drain reads might as
well come before it, or after it when it reads nothing.
-/

namespace StarStats

namespace Tailer

open Utf8 (lineFeed decodeLossy)

/-! ## Files -/

/-- A physical file; `bytes` grow at their end. -/
structure LogFile where
  id : Nat
  createdMillis : Option Nat
  bytes : List UInt8
  deriving DecidableEq

/-- The first bytes, which never change once they are there, sign the file. -/
def fileSigHeadBytes : Nat := 512

section
variable (newV5 : List UInt8 → String)

/-- `newV5` is `Uuid::new_v5` in the namespace of OIDs. -/
def signatureFromHead (createdMillis : Option Nat) (head : List UInt8) : Option String :=
  if head.length < fileSigHeadBytes then none
  else
    let payload := (toString (createdMillis.getD 0) ++ ":").toUTF8.toList ++ head
    some (newV5 payload)

/-- `file_signature`. -/
def LogFile.signature (file : LogFile) : Option String :=
  signatureFromHead newV5 file.createdMillis (file.bytes.take fileSigHeadBytes)

end

/-- Both are known and differ. -/
def rotated : Option String → Option String → Bool
  | some a, some b => a != b
  | _, _ => false

def resolveResumeOffset (storedOffset : Nat) (storedSig currentSig : Option String)
    (currentLen : Nat) : Nat :=
  if rotated storedSig currentSig then 0
  else if currentLen < storedOffset then 0
  else storedOffset

/-! ## Reading -/

/-- The system call of a drain that fails. -/
inductive DrainIo where
  | ok
  | notFound
  | openFails
  | metadataFails
  | signatureFails
  | seekFails
  /-- The read at this position of the file, or the one that would find its end there. -/
  | readFails (position : Nat)
  | cursorFails
  deriving DecidableEq

/-- What successive calls of `read_until(b'\n', ..)` return, from `offset` on. -/
def readResults (io : DrainIo) (content : List UInt8) (offset : Nat) :
    List (Except Unit (List UInt8)) :=
  let whole := Lines.split lineFeed (content.drop offset)
  match io with
  | .readFails position =>
    if position ≤ content.length then
      (Lines.split lineFeed ((content.take position).drop offset)).1.map .ok ++ [.error ()]
    else whole.1.map .ok ++ [.ok whole.2]
  | _ => whole.1.map .ok ++ [.ok whole.2]

/-- `trim_end_matches(['\r', '\n'])`. -/
def trimLineEnd (s : String) : String :=
  String.ofList (s.toList.rdropWhile fun c => c == '\r' || c == '\n')

structure ReadLoop where
  offset : Nat
  bufferedLines : List (String × Nat)
  failed : Bool

/-- The read loop of a drain, on what its calls return. -/
def readLoop (offset : Nat) : List (Except Unit (List UInt8)) → ReadLoop
  | [] => ⟨offset, [], false⟩
  | .error () :: _ => ⟨offset, [], true⟩
  | .ok raw :: rest =>
    let buf := decodeLossy raw
    if raw.length = 0 then ⟨offset, [], false⟩
    -- a partial line is left for the next drain
    else if buf.toList.getLast? ≠ some '\n' then ⟨offset, [], false⟩
    else
      let read := readLoop (offset + raw.length) rest
      { read with bufferedLines := (trimLineEnd buf, offset) :: read.bufferedLines }

/-! ## A drain -/

/-- What the tail task keeps between drains, and a row of `tail_cursor`. -/
structure Tail where
  offset : Nat
  lastSig : Option String
  deriving DecidableEq

structure DrainResult where
  tail : Tail
  /-- What is handed to `process_buffer`, which is not called for no lines. -/
  lines : List (String × Nat)
  /-- `write_tail_cursor`. -/
  cursor : Option Tail
  outcome : Except Unit Bool

section
variable (newV5 : List UInt8 → String)

/-- Where a drain begins to read. -/
def Tail.resumed (tail : Tail) (file : LogFile) : Nat :=
  resolveResumeOffset tail.offset tail.lastSig (file.signature newV5) file.bytes.length

def drain (io : DrainIo) (file : LogFile) (tail : Tail) : DrainResult :=
  if io = .notFound then ⟨tail, [], none, .ok false⟩
  else if io = .openFails ∨ io = .metadataFails ∨ io = .signatureFails then
    ⟨tail, [], none, .error ()⟩
  else
    let currentSig := file.signature newV5
    let resumed := tail.resumed newV5 file
    if file.bytes.length = resumed then ⟨⟨resumed, currentSig⟩, [], none, .ok false⟩
    else if io = .seekFails then ⟨⟨resumed, currentSig⟩, [], none, .error ()⟩
    else
      let read := readLoop resumed (readResults io file.bytes resumed)
      let tail := ⟨read.offset, currentSig⟩
      if read.failed then ⟨tail, [], none, .error ()⟩
      else if io = .cursorFails then ⟨tail, read.bufferedLines, none, .error ()⟩
      else ⟨tail, read.bufferedLines, some tail, .ok (!read.bufferedLines.isEmpty)⟩

end

/-! ## Runs -/

/-- One call of `process_buffer`, with the file as it was; `committed` when the cursor followed. -/
structure Handover where
  file : LogFile
  lines : List (String × Nat)
  committed : Bool

structure State where
  file : LogFile
  /-- The files that were rotated away, the last first. -/
  past : List LogFile
  tail : Tail
  cursor : Option Tail
  handed : List Handover
  /-- The file at each drain that ended. -/
  drained : List LogFile

inductive Action where
  | append (bytes : List UInt8)
  | rotate (createdMillis : Option Nat) (bytes : List UInt8)
  | restart
  | drain
  | crash

/-- `read_tail_cursor`. -/
def loadCursor (cursor : Option Tail) : Tail := cursor.getD ⟨0, none⟩

def State.start (file : LogFile) : State := ⟨file, [], loadCursor none, none, [], []⟩

def hand (file : LogFile) (lines : List (String × Nat)) (committed : Bool) : List Handover :=
  if lines.isEmpty then [] else [⟨file, lines, committed⟩]

section
variable (newV5 : List UInt8 → String)

def step (s : State) : Action → Option State
  | .append bytes => some { s with file := { s.file with bytes := s.file.bytes ++ bytes } }
  | .rotate createdMillis bytes =>
    some { s with file := ⟨s.file.id + 1, createdMillis, bytes⟩, past := s.file :: s.past }
  | .restart => some { s with tail := loadCursor s.cursor }
  | .drain =>
    let result := drain newV5 .ok s.file s.tail
    some
      { s with
        tail := result.tail
        cursor := result.cursor.or s.cursor
        handed := s.handed ++ hand s.file result.lines true
        drained := s.drained ++ [s.file] }
  | .crash =>
    let result := drain newV5 .ok s.file s.tail
    some
      { s with
        tail := loadCursor s.cursor
        handed := s.handed ++ hand s.file result.lines false }

/-- A drain reads a file that can be signed, and no signed file before it had its signature. -/
def Signed (s : State) : Action → Prop
  | .drain | .crash =>
    fileSigHeadBytes ≤ s.file.bytes.length ∧ ∀ f ∈ s.past,
      f.signature newV5 ≠ none → f.signature newV5 ≠ s.file.signature newV5
  | _ => True

end

/-! ## What the tail is for -/

/-- The text of a line. -/
def lineText (raw : List UInt8) : String := trimLineEnd (decodeLossy raw)

/-- `raw` is a line of the file, with its line feed, and starts at `start`. -/
def LogFile.HasLine (file : LogFile) (raw : List UInt8) (start : Nat) : Prop :=
  Lines.IsLine lineFeed file.bytes raw start

/-- What the drains that wrote their cursor handed over from a file, in order. -/
def State.committedLines (s : State) (id : Nat) : List (String × Nat) :=
  (s.handed.filter fun h => h.committed && h.file.id == id).flatMap (·.lines)

/-- Every line that a drain found complete is handed over once, where it starts. -/
structure ExactlyOnce (s : State) : Prop where
  /-- Whole lines only, at their places. -/
  whole : ∀ h ∈ s.handed, ∀ x ∈ h.lines, ∃ raw, h.file.HasLine raw x.2 ∧ x.1 = lineText raw
  /-- No call has a line twice. -/
  apart : ∀ h ∈ s.handed, h.lines.Pairwise fun x y => x.2 < y.2
  once : ∀ d ∈ s.drained, ∀ raw start, d.HasLine raw start →
    (s.committedLines d.id).count (lineText raw, start) = 1
  /-- Nor have two of the calls that count. -/
  ordered : ∀ id, (s.committedLines id).Pairwise fun x y => x.2 < y.2

/-- Where a drain leaves the tail. -/
structure AfterDrain (s : State) : Prop where
  drained : s.file ∈ s.drained
  inside : s.tail.offset ≤ s.file.bytes.length
  lineEnd : Lines.AtLineEnd lineFeed (s.file.bytes.take s.tail.offset)

section
variable (newV5 : List UInt8 → String)

/-- The file after more was written to it. -/
def LogFile.grown (file : LogFile) (more : List UInt8) : LogFile :=
  { file with bytes := file.bytes ++ more }

/-- A drain that fails leaves the memory as it was, or the next one hands over every line behind
where it began to read that it has not handed over itself. -/
def NothingLost (io : DrainIo) (file : LogFile) (tail : Tail) : Prop :=
  let resumed := tail.resumed newV5 file
  let failed := drain newV5 io file tail
  failed.tail = tail ∨
    ∀ more raw start, Lines.IsLine lineFeed ((file.grown more).bytes.drop resumed) raw start →
      (lineText raw, resumed + start) ∈
        failed.lines ++ (drain newV5 .ok (file.grown more) failed.tail).lines

/-- A read fails behind a line that the drain has read. -/
def ReadFailsBehindLine (io : DrainIo) (file : LogFile) (tail : Tail) : Prop :=
  ∃ position, io = .readFails position ∧ position ≤ file.bytes.length ∧
    lineFeed ∈ (file.bytes.take position).drop (tail.resumed newV5 file)

end

end Tailer

end StarStats
