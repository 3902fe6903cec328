import Mathlib.Data.List.Basic
import Mathlib.Tactic.NormNum

/-!
# Lossy UTF-8

`decodeLossy` reads bytes as UTF-8 and puts U+FFFD for each maximal beginning of a sequence that
does not go on. One byte is read at a time: `Pending` is a sequence that has begun, with the range
of its next byte. A line feed is never part of a longer sequence, so it ends the text exactly when
it ends the bytes (`decodeLossy_append_lineFeed`, `lineFeed_not_mem_decodeLossy`).
-/

namespace Utf8

/-- A sequence that needs `need` more bytes, the next between `lo` and `hi`. -/
structure Pending where
  value : Nat
  need : Nat
  lo : Nat
  hi : Nat
  continues : 0x80 ≤ lo
  /-- It does not encode what fits in one byte. -/
  long : 0x80 ≤ (value * 64 + (lo - 0x80)) * 64 ^ (need - 1)

def replacement : Char := Char.ofNat 0xFFFD

/-- What a byte at the start of a sequence decodes to, or the sequence it begins. -/
def start (b : UInt8) : List Char × Option Pending :=
  let n := b.toNat
  if n < 0x80 then ([Char.ofNat n], none)
  else if h : 0xC2 ≤ n ∧ n ≤ 0xDF then
    ([], some ⟨n - 0xC0, 1, 0x80, 0xBF, by omega, by simp only [Nat.sub_self]; omega⟩)
  else if n = 0xE0 then ([], some ⟨0, 2, 0xA0, 0xBF, by omega, by decide⟩)
  else if n = 0xED then ([], some ⟨0xD, 2, 0x80, 0x9F, by omega, by decide⟩)
  else if h : 0xE1 ≤ n ∧ n ≤ 0xEF then
    ([], some ⟨n - 0xE0, 2, 0x80, 0xBF, by omega, by simp only [Nat.sub_self]; omega⟩)
  else if n = 0xF0 then ([], some ⟨0, 3, 0x90, 0xBF, by omega, by decide⟩)
  else if h : 0xF1 ≤ n ∧ n ≤ 0xF3 then
    ([], some ⟨n - 0xF0, 3, 0x80, 0xBF, by omega, by simp only [Nat.sub_self]; omega⟩)
  else if n = 0xF4 then ([], some ⟨4, 3, 0x80, 0x8F, by omega, by decide⟩)
  else ([replacement], none)

/-- The sequence after one more byte of its range. -/
def Pending.feed (p : Pending) (n : Nat) (h : p.lo ≤ n) : List Char × Option Pending :=
  let value := p.value * 64 + (n - 0x80)
  if hneed : p.need ≤ 1 then ([Char.ofNat value], none)
  else
    ([], some
      { value := value
        need := p.need - 1
        lo := 0x80
        hi := 0xBF
        continues := Nat.le_refl _
        long := by
          have hpow : 64 ^ (p.need - 1) = 64 * 64 ^ (p.need - 1 - 1) := by
            rw [← Nat.pow_succ']
            congr 1
            omega
          have hle : p.value * 64 + (p.lo - 0x80) ≤ value := by omega
          calc 0x80 ≤ (p.value * 64 + (p.lo - 0x80)) * 64 ^ (p.need - 1) := p.long
            _ ≤ value * 64 ^ (p.need - 1) := Nat.mul_le_mul_right _ hle
            _ = (value * 64 + (0x80 - 0x80)) * 64 ^ (p.need - 1 - 1) := by
              rw [hpow, Nat.sub_self, Nat.add_zero, Nat.mul_assoc] })

/-- One byte, after a sequence that has begun or none. -/
def step (pending : Option Pending) (b : UInt8) : List Char × Option Pending :=
  match pending with
  | none => start b
  | some p =>
    if h : p.lo ≤ b.toNat ∧ b.toNat ≤ p.hi then p.feed b.toNat h.1
    else (replacement :: (start b).1, (start b).2)

def decodeFrom (pending : Option Pending) : List UInt8 → List Char
  | [] => if pending.isSome then [replacement] else []
  | b :: bs => (step pending b).1 ++ decodeFrom (step pending b).2 bs

/-- `String::from_utf8_lossy`. -/
def decodeLossy (bytes : List UInt8) : String := String.ofList (decodeFrom none bytes)

/-! ## Line feeds -/

def lineFeed : UInt8 := 10

theorem start_lineFeed : start lineFeed = (['\n'], none) := rfl

/-- A line feed ends whatever has begun. -/
theorem step_lineFeed (pending : Option Pending) :
    step pending lineFeed = ((if pending.isSome then [replacement] else []) ++ ['\n'], none) := by
  cases pending with
  | none => rfl
  | some p =>
    have hlow : ¬ (p.lo ≤ lineFeed.toNat ∧ lineFeed.toNat ≤ p.hi) := by
      have := p.continues
      have : lineFeed.toNat = 10 := rfl
      omega
    simp only [step, dif_neg hlow, start_lineFeed, Option.isSome_some, if_true,
      List.singleton_append]

theorem decodeFrom_append_lineFeed (pending : Option Pending) (bytes : List UInt8) :
    decodeFrom pending (bytes ++ [lineFeed]) = decodeFrom pending bytes ++ ['\n'] := by
  induction bytes generalizing pending with
  | nil => simp [decodeFrom, step_lineFeed]
  | cons b bs ih => simp only [List.cons_append, decodeFrom, ih, List.append_assoc]

/-- A last line feed is decoded on its own. -/
theorem decodeLossy_append_lineFeed (bytes : List UInt8) :
    (decodeLossy (bytes ++ [lineFeed])).toList = (decodeLossy bytes).toList ++ ['\n'] := by
  simp only [decodeLossy, String.toList_ofList, decodeFrom_append_lineFeed]

theorem ofNat_ne_lineFeed {n : Nat} (h : n ≠ 10) : Char.ofNat n ≠ '\n' := by
  intro he
  by_cases hvalid : n.isValidChar
  · have hval : Char.ofNat n = Char.ofNatAux n hvalid := dif_pos hvalid
    have hn : (Char.ofNatAux n hvalid).toNat = 10 := by rw [← hval, he]; rfl
    exact h hn
  · have hval : Char.ofNat n = '\x00' := dif_neg hvalid
    rw [hval] at he
    exact absurd he (by decide)

theorem lineFeed_not_mem_start {b : UInt8} (h : b ≠ lineFeed) : '\n' ∉ (start b).1 := by
  have hb : b.toNat ≠ 10 := fun hc => h (UInt8.toNat.inj hc)
  have hr : '\n' ∉ [replacement] := by decide
  unfold start
  dsimp only
  split
  · simpa using (ofNat_ne_lineFeed hb).symm
  · repeat' split
    all_goals first
      | exact List.not_mem_nil
      | exact hr

theorem lineFeed_not_mem_feed (p : Pending) (n : Nat) (h : p.lo ≤ n) : '\n' ∉ (p.feed n h).1 := by
  unfold Pending.feed
  dsimp only
  split_ifs with hneed
  · have hlong := p.long
    have hone : p.need - 1 = 0 := by omega
    rw [hone, Nat.pow_zero, Nat.mul_one] at hlong
    have hn : p.value * 64 + (n - 0x80) ≠ 10 := by omega
    simpa using (ofNat_ne_lineFeed hn).symm
  · simp

theorem lineFeed_not_mem_step (pending : Option Pending) {b : UInt8} (h : b ≠ lineFeed) :
    '\n' ∉ (step pending b).1 := by
  have hr : replacement ≠ '\n' := by decide
  cases pending with
  | none => exact lineFeed_not_mem_start h
  | some p =>
    simp only [step]
    split
    · exact lineFeed_not_mem_feed p b.toNat _
    · simpa [hr.symm] using lineFeed_not_mem_start h

theorem lineFeed_not_mem_decodeFrom (pending : Option Pending) {bytes : List UInt8}
    (h : lineFeed ∉ bytes) : '\n' ∉ decodeFrom pending bytes := by
  have hr : replacement ≠ '\n' := by decide
  induction bytes generalizing pending with
  | nil =>
    simp only [decodeFrom]
    split
    · simpa using hr.symm
    · simp
  | cons b bs ih =>
    simp only [List.mem_cons, not_or] at h
    obtain ⟨hb, hbs⟩ := h
    simp only [decodeFrom, List.mem_append, not_or]
    exact ⟨lineFeed_not_mem_step pending (Ne.symm hb), ih _ hbs⟩

/-- Without a line feed in the bytes there is none in the text. -/
theorem lineFeed_not_mem_decodeLossy {bytes : List UInt8} (h : lineFeed ∉ bytes) :
    '\n' ∉ (decodeLossy bytes).toList := by
  rw [decodeLossy, String.toList_ofList]
  exact lineFeed_not_mem_decodeFrom none h

end Utf8
