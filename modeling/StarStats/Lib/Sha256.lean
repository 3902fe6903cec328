import Mathlib.Algebra.Group.Nat.Defs
import Mathlib.Data.List.Basic
import StarStats.Lib.Text

/-!
# SHA-256 on byte lists

FIPS 180-4, with the words as `UInt32` and the message schedule as a list that grows at its end,
and what is built on it: HMAC, and the hex digits in which a digest is written.
-/

namespace Sha256

abbrev Bytes := List UInt8

/-- A digest: 32 bytes. -/
structure Digest where
  bytes : Bytes
  length_eq : bytes.length = 32
  deriving DecidableEq

theorem Digest.ext {d d' : Digest} (h : d.bytes = d'.bytes) : d = d' := by
  obtain ⟨bytes, _⟩ := d
  obtain ⟨bytes', _⟩ := d'
  cases h
  rfl

def rotr (x : UInt32) (n : UInt32) : UInt32 := (x >>> n) ||| (x <<< (32 - n))

def ch (x y z : UInt32) : UInt32 := (x &&& y) ^^^ (~~~x &&& z)
def maj (x y z : UInt32) : UInt32 := (x &&& y) ^^^ (x &&& z) ^^^ (y &&& z)
def bigSigma0 (x : UInt32) : UInt32 := rotr x 2 ^^^ rotr x 13 ^^^ rotr x 22
def bigSigma1 (x : UInt32) : UInt32 := rotr x 6 ^^^ rotr x 11 ^^^ rotr x 25
def sigma0 (x : UInt32) : UInt32 := rotr x 7 ^^^ rotr x 18 ^^^ (x >>> 3)
def sigma1 (x : UInt32) : UInt32 := rotr x 17 ^^^ rotr x 19 ^^^ (x >>> 10)

def roundConstants : List UInt32 :=
  [0x428a2f98, 0x71374491, 0xb5c0fbcf, 0xe9b5dba5, 0x3956c25b, 0x59f111f1, 0x923f82a4, 0xab1c5ed5,
   0xd807aa98, 0x12835b01, 0x243185be, 0x550c7dc3, 0x72be5d74, 0x80deb1fe, 0x9bdc06a7, 0xc19bf174,
   0xe49b69c1, 0xefbe4786, 0x0fc19dc6, 0x240ca1cc, 0x2de92c6f, 0x4a7484aa, 0x5cb0a9dc, 0x76f988da,
   0x983e5152, 0xa831c66d, 0xb00327c8, 0xbf597fc7, 0xc6e00bf3, 0xd5a79147, 0x06ca6351, 0x14292967,
   0x27b70a85, 0x2e1b2138, 0x4d2c6dfc, 0x53380d13, 0x650a7354, 0x766a0abb, 0x81c2c92e, 0x92722c85,
   0xa2bfe8a1, 0xa81a664b, 0xc24b8b70, 0xc76c51a3, 0xd192e819, 0xd6990624, 0xf40e3585, 0x106aa070,
   0x19a4c116, 0x1e376c08, 0x2748774c, 0x34b0bcb5, 0x391c0cb3, 0x4ed8aa4a, 0x5b9cca4f, 0x682e6ff3,
   0x748f82ee, 0x78a5636f, 0x84c87814, 0x8cc70208, 0x90befffa, 0xa4506ceb, 0xbef9a3f7, 0xc67178f2]

/-- The chaining value, and the working variables of a round. -/
structure State where
  a : UInt32
  b : UInt32
  c : UInt32
  d : UInt32
  e : UInt32
  f : UInt32
  g : UInt32
  h : UInt32

def initial : State where
  a := 0x6a09e667
  b := 0xbb67ae85
  c := 0x3c6ef372
  d := 0xa54ff53a
  e := 0x510e527f
  f := 0x9b05688c
  g := 0x1f83d9ab
  h := 0x5be0cd19

def round (s : State) (k w : UInt32) : State :=
  let t1 := s.h + bigSigma1 s.e + ch s.e s.f s.g + k + w
  let t2 := bigSigma0 s.a + maj s.a s.b s.c
  { a := t1 + t2, b := s.a, c := s.b, d := s.c, e := s.d + t1, f := s.e, g := s.f, h := s.g }

/-- The rounds of one block; `w` is the window of the next sixteen schedule words. -/
def rounds : List UInt32 → List UInt32 → State → State
  | k :: ks, w :: ws, s =>
    let next := sigma1 (ws.getD 13 0) + ws.getD 8 0 + sigma0 (ws.getD 0 0) + w
    rounds ks (ws ++ [next]) (round s k w)
  | _, _, s => s

def State.add (s t : State) : State :=
  { a := s.a + t.a, b := s.b + t.b, c := s.c + t.c, d := s.d + t.d,
    e := s.e + t.e, f := s.f + t.f, g := s.g + t.g, h := s.h + t.h }

def compress (s : State) (block : List UInt32) : State := s.add (rounds roundConstants block s)

/-- Big-endian words. -/
def toWords : Bytes → List UInt32
  | b₀ :: b₁ :: b₂ :: b₃ :: bs =>
    ((b₀.toUInt32 <<< 24) ||| (b₁.toUInt32 <<< 16) ||| (b₂.toUInt32 <<< 8) ||| b₃.toUInt32)
      :: toWords bs
  | _ => []

/-- The low `n` bytes of a number, big-endian. -/
def bytesOf : Nat → Nat → Bytes
  | 0, _ => []
  | n + 1, x => UInt8.ofNat (x / 256 ^ n) :: bytesOf n x

theorem length_bytesOf (n x : Nat) : (bytesOf n x).length = n := by
  induction n with
  | zero => rfl
  | succ n ih => rw [bytesOf, List.length_cons, ih]

/-- The message with its `1` bit, zeros and bit length. -/
def pad (message : Bytes) : Bytes :=
  message ++ 0x80 :: List.replicate ((119 - message.length % 64) % 64) 0 ++
    bytesOf 8 (8 * message.length)

/-- Compress the blocks; `fuel` bounds their number. -/
def absorb : Nat → List UInt32 → State → State
  | 0, _, s => s
  | fuel + 1, ws, s =>
    if ws.isEmpty then s else absorb fuel (ws.drop 16) (compress s (ws.take 16))

def digest (s : State) : Digest where
  bytes := bytesOf 4 s.a.toNat ++ bytesOf 4 s.b.toNat ++ bytesOf 4 s.c.toNat ++
    bytesOf 4 s.d.toNat ++ bytesOf 4 s.e.toNat ++ bytesOf 4 s.f.toNat ++ bytesOf 4 s.g.toNat ++
    bytesOf 4 s.h.toNat
  length_eq := by simp only [List.length_append, length_bytesOf]

end Sha256

/-- SHA-256. -/
def sha256 (message : Sha256.Bytes) : Sha256.Digest :=
  let words := Sha256.toWords (Sha256.pad message)
  Sha256.digest (Sha256.absorb words.length words Sha256.initial)

/-! ## HMAC -/

namespace Sha256

/-- The key at the size of a block; a longer one is hashed. -/
def blockKey (key : Bytes) : Bytes :=
  let short := if 64 < key.length then (sha256 key).bytes else key
  short ++ List.replicate (64 - short.length) 0

end Sha256

/-- HMAC-SHA-256, RFC 2104. -/
def hmacSha256 (key message : Sha256.Bytes) : Sha256.Digest :=
  let k := Sha256.blockKey key
  sha256 (k.map (· ^^^ 0x5c) ++ (sha256 (k.map (· ^^^ 0x36) ++ message)).bytes)

/-! ## Hex digits -/

namespace Hex

/-- Two lower-case digits a byte. -/
def encode (bytes : List UInt8) : List Char :=
  bytes.flatMap fun b => [(b.toNat / 16).digitChar, (b.toNat % 16).digitChar]

/-- The value of a digit of either case. -/
def value (c : Char) : Option Nat :=
  if 48 ≤ c.toNat ∧ c.toNat ≤ 57 then some (c.toNat - 48)
  else if 97 ≤ c.toNat ∧ c.toNat ≤ 102 then some (c.toNat - 87)
  else if 65 ≤ c.toNat ∧ c.toNat ≤ 70 then some (c.toNat - 55)
  else none

/-- Nothing for an odd number of digits, or for a character that is none. -/
def decode : List Char → Option (List UInt8)
  | [] => some []
  | [_] => none
  | hi :: lo :: rest => do
    let h ← value hi
    let l ← value lo
    let bytes ← decode rest
    return UInt8.ofNat (16 * h + l) :: bytes

theorem toNat_digitChar {n : Nat} (h : n < 16) :
    n.digitChar.toNat = if n < 10 then n + 48 else n + 87 := by
  have hall : ∀ n : Fin 16,
      n.val.digitChar.toNat = if n.val < 10 then n.val + 48 else n.val + 87 := by decide
  exact hall ⟨n, h⟩

theorem value_eq_some {c : Char} {n : Nat} :
    value c = some n ↔ n < 16 ∧ c.toLower = n.digitChar := by
  have hlow : c.toLower.toNat = if 65 ≤ c.toNat ∧ c.toNat ≤ 90 then c.toNat + 32 else c.toNat := by
    split
    case isTrue h => exact Text.toNat_toLower h
    case isFalse h => rw [Text.toLower_of_not_upper h]
  have hchar (hn : n < 16) : c.toLower = n.digitChar ↔
      (if 65 ≤ c.toNat ∧ c.toNat ≤ 90 then c.toNat + 32 else c.toNat) =
        if n < 10 then n + 48 else n + 87 := by
    rw [← Char.toNat_inj, hlow, toNat_digitChar hn]
  constructor
  · intro h
    have hn : n < 16 := by
      unfold value at h
      grind
    refine ⟨hn, (hchar hn).2 ?_⟩
    unfold value at h
    grind
  · rintro ⟨hn, h⟩
    rw [hchar hn] at h
    unfold value
    grind

/-- A text decodes to the bytes whose digits it has, up to the case of the letters. -/
theorem decode_eq_some {s : List Char} {bytes : List UInt8} :
    decode s = some bytes ↔ s.map Char.toLower = encode bytes := by
  fun_induction decode s generalizing bytes with
  | case1 => cases bytes <;> simp [encode]
  | case2 c => cases bytes <;> simp [encode]
  | case3 hi lo rest ih =>
    cases bytes with
    | nil => simp [encode, Option.bind_eq_some_iff]
    | cons b bs =>
      have hb := b.toNat_lt
      have hsum {h l : Nat} (hh : h < 16) (hl : l < 16) :
          UInt8.ofNat (16 * h + l) = b ↔ h = b.toNat / 16 ∧ l = b.toNat % 16 := by
        rw [← UInt8.toNat_inj, UInt8.toNat_ofNat_of_lt' (by simp only [UInt8.size]; omega)]
        omega
      simp only [Option.bind_eq_bind, Option.bind_eq_some_iff, value_eq_some, Option.pure_def,
        Option.some.injEq, List.cons.injEq, List.map_cons, encode, List.flatMap_cons,
        List.cons_append, List.nil_append]
      constructor
      · rintro ⟨h, ⟨hh, hhi⟩, l, ⟨hl, hlo⟩, bytes, hrest, hbyte, rfl⟩
        obtain ⟨rfl, rfl⟩ := (hsum hh hl).1 hbyte
        exact ⟨hhi, hlo, ih.1 hrest⟩
      · rintro ⟨hhi, hlo, hrest⟩
        exact ⟨b.toNat / 16, ⟨by omega, hhi⟩, b.toNat % 16, ⟨by omega, hlo⟩, bs, ih.2 hrest,
          (hsum (by omega) (by omega)).2 ⟨rfl, rfl⟩, rfl⟩

theorem exists_of_mem_encode {bytes : List UInt8} {c : Char} (h : c ∈ encode bytes) :
    ∃ n < 16, c = n.digitChar := by
  obtain ⟨b, -, hc⟩ := List.mem_flatMap.1 h
  have hb := b.toNat_lt
  rcases List.mem_cons.1 hc with rfl | hc
  · exact ⟨_, by omega, rfl⟩
  · exact ⟨_, by omega, List.mem_singleton.1 hc⟩

theorem decode_encode (bytes : List UInt8) : decode (encode bytes) = some bytes := by
  have hall : ∀ n : Fin 16, n.val.digitChar.toLower = n.val.digitChar := by decide
  refine decode_eq_some.2 ((List.map_congr_left fun c hc => ?_).trans (List.map_id _))
  obtain ⟨n, hn, rfl⟩ := exists_of_mem_encode hc
  exact hall ⟨n, hn⟩

end Hex
