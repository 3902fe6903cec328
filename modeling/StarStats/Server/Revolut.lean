import StarStats.Core.Classify
import StarStats.Lib.Json
import StarStats.Lib.Search
import StarStats.Lib.Sha256

/-!
# Webhook signatures (`starstats-server/src/revolut.rs` `verify_webhook_signature`)

The order service signs `v1.`, the text of its clock, a dot and the body, and sends the digits of
the MAC in a header that can carry several of them. The clock is a number of milliseconds that
anybody can write, and is read before anything is verified.
-/

namespace StarStats.Revolut

open Sha256 (Bytes Digest)

/-! ## Instants -/

/-- `DateTime<Utc>`, in nanoseconds since the epoch, from `MIN_UTC` to `MAX_UTC`. No clock shows a
leap second. -/
structure DateTime where
  nanos : Int
  min_le : -8334601228800000000000 ≤ nanos
  le_max : nanos ≤ 8210266876799999999999
  deriving DecidableEq

/-- `from_timestamp_millis`. -/
def DateTime.fromTimestampMillis (millis : Int64) : Option DateTime :=
  if h : -8334601228800000000000 ≤ millis.toInt * 1000000 ∧
      millis.toInt * 1000000 ≤ 8210266876799999999999 then
    some ⟨millis.toInt * 1000000, h.1, h.2⟩
  else none

/-- The difference of two instants, if a `TimeDelta` holds it: up to `i64::MAX` milliseconds. -/
def DateTime.signedDurationSince (t s : DateTime) : Option Int :=
  if (t.nanos - s.nanos).natAbs ≤ 9223372036854775807000000 then some (t.nanos - s.nanos) else none

/-- `TIMESTAMP_DRIFT_TOLERANCE`, in nanoseconds. -/
def timestampDriftTolerance : Nat := 5 * 60 * 1000000000

/-! ## Verification -/

inductive SignatureError where
  | headerMissing
  | timestampMissing
  | noSupportedScheme
  | timestampOutOfRange
  | mismatch
  deriving DecidableEq

/-- What the MAC is taken of. -/
def payloadToSign (timestamp : String) (rawBody : Bytes) : Bytes :=
  Json.utf8 "v1.".toList ++ Json.utf8 timestamp.toList ++ Json.utf8 ".".toList ++ rawBody

/-- The loop over the entries of the header, with `saw_v1` as it stands. -/
def checkEntries (expected : Digest) : Bool → List (List Char) → Except SignatureError Unit
  | sawV1, [] => .error (if sawV1 then .mismatch else .noSupportedScheme)
  | sawV1, entry :: rest =>
    match (Text.trim (String.ofList entry)).toList.dropPrefix? "v1=".toList with
    | none => checkEntries expected sawV1 rest
    | some hexPart =>
      match Hex.decode hexPart with
      | none => checkEntries expected true rest
      | some decoded =>
        if decoded.length ≠ expected.bytes.length then checkEntries expected true rest
        else if decoded = expected.bytes then .ok ()
        else checkEntries expected true rest

/-- `split(',')`. -/
def entries (signatureHeader : String) : List (List Char) :=
  Text.fields (· == ',') signatureHeader.toList

/-- `verify_webhook_signature`; nothing on an overflow. -/
def verifyWebhookSignature (secret : Bytes) (timestampHeader signatureHeader : String)
    (rawBody : Bytes) (now : DateTime) : Option (Except SignatureError Unit) :=
  if Text.trim signatureHeader = "" then some (.error .headerMissing)
  else
    match parseSigned (Text.trim timestampHeader) with
    | none => some (.error .timestampMissing)
    | some timestampMs =>
      match DateTime.fromTimestampMillis timestampMs with
      | none => some (.error .timestampMissing)
      | some eventTs => do
        let drift ← now.signedDurationSince eventTs
        if drift.natAbs > timestampDriftTolerance then return .error .timestampOutOfRange
        let expected := hmacSha256 secret (payloadToSign (Text.trim timestampHeader) rawBody)
        return checkEntries expected false (entries signatureHeader)

/-! ## What is accepted -/

def Accepts (secret : Bytes) (timestampHeader signatureHeader : String) (rawBody : Bytes)
    (now : DateTime) : Prop :=
  verifyWebhookSignature secret timestampHeader signatureHeader rawBody now = some (.ok ())

/-- The milliseconds are within five minutes of the clock. -/
def Fresh (millis : Int64) (now : DateTime) : Prop :=
  (now.nanos - millis.toInt * 1000000).natAbs ≤ timestampDriftTolerance

/-- The entry shows the digest, in digits of either case. -/
def Shows (expected : Digest) (entry : List Char) : Prop :=
  ∃ hexPart, (Text.trim (String.ofList entry)).toList = "v1=".toList ++ hexPart ∧
    hexPart.map Char.toLower = Hex.encode expected.bytes

/-- An entry of the header shows the MAC of the timestamp and the body. -/
def Signed (secret : Bytes) (timestampHeader signatureHeader : String) (rawBody : Bytes) : Prop :=
  ∃ entry ∈ entries signatureHeader,
    Shows (hmacSha256 secret (payloadToSign (Text.trim timestampHeader) rawBody)) entry

theorem Shows.unique {d d' : Digest} {entry : List Char} (h : Shows d entry) (h' : Shows d' entry) :
    d = d' := by
  obtain ⟨hexPart, htrim, hcase⟩ := h
  obtain ⟨hexPart', htrim', hcase'⟩ := h'
  obtain rfl := List.append_cancel_left (htrim.symm.trans htrim')
  have hbytes := (Hex.decode_eq_some.2 hcase).symm.trans (Hex.decode_eq_some.2 hcase')
  exact Digest.ext (Option.some.inj hbytes)

/-! ## The loop -/

theorem checkEntries_cons (expected : Digest) (sawV1 : Bool) (entry : List Char)
    (rest : List (List Char)) :
    checkEntries expected sawV1 (entry :: rest) = .ok () ∧ Shows expected entry ∨
      ∃ sawV1', checkEntries expected sawV1 (entry :: rest) = checkEntries expected sawV1' rest ∧
        ¬ Shows expected entry := by
  have hshows : Shows expected entry ↔
      ((Text.trim (String.ofList entry)).toList.dropPrefix? "v1=".toList).bind Hex.decode =
        some expected.bytes := by
    simp only [Option.bind_eq_some_iff, List.dropPrefix?_eq_some_iff, beq_iff_eq,
      exists_eq_right, Hex.decode_eq_some, Shows]
  rw [hshows, checkEntries]
  cases (Text.trim (String.ofList entry)).toList.dropPrefix? "v1=".toList with
  | none => exact .inr ⟨sawV1, rfl, by simp⟩
  | some hexPart =>
    cases hdec : Hex.decode hexPart with
    | none => exact .inr ⟨true, by simp [hdec], by simp [hdec]⟩
    | some decoded =>
      by_cases heq : decoded = expected.bytes
      · exact .inl ⟨by simp [hdec, heq], by simp [hdec, heq]⟩
      · refine .inr ⟨true, ?_, by simp [hdec, heq]⟩
        simp only [hdec, heq, if_false, ite_self]

theorem checkEntries_eq_ok {expected : Digest} {sawV1 : Bool} {l : List (List Char)} :
    checkEntries expected sawV1 l = .ok () ↔ ∃ entry ∈ l, Shows expected entry := by
  induction l generalizing sawV1 with
  | nil => simp [checkEntries]
  | cons entry rest ih =>
    rcases checkEntries_cons expected sawV1 entry rest with ⟨hok, hshows⟩ | ⟨_, hstep, hshows⟩
    · exact iff_of_true hok ⟨entry, List.mem_cons_self, hshows⟩
    · rw [hstep, ih]
      simp [hshows]

/-! ## The header -/

theorem all_isWhitespace_of_trim {s : String} (h : Text.trim s = "") :
    ∀ c ∈ s.toList, Text.isWhitespace c = true := by
  have hback : (s.toList.dropWhile Text.isWhitespace).reverse.dropWhile Text.isWhitespace = [] := by
    rw [← List.reverse_eq_nil_iff, ← String.toList_ofList (l := List.reverse _), ← Text.trim, h]
    rfl
  rw [List.dropWhile_eq_nil_iff] at hback
  cases hfront : s.toList.dropWhile Text.isWhitespace with
  | nil => exact List.dropWhile_eq_nil_iff.1 hfront
  | cons c cs =>
    have hc : Text.isWhitespace c = false := by
      have := List.head_dropWhile_not Text.isWhitespace (l := s.toList) (by simp [hfront])
      simpa [hfront] using this
    rw [hback c (by simp [hfront])] at hc
    cases hc

/-- A header of white space shows nothing. -/
theorem not_shows_of_trim {expected : Digest} {signatureHeader : String} {entry : List Char}
    (h : Text.trim signatureHeader = "") (hentry : entry ∈ entries signatureHeader) :
    ¬ Shows expected entry := by
  rintro ⟨hexPart, htrim, -⟩
  have hall : ∀ c ∈ entry, Text.isWhitespace c = true := fun c hc =>
    all_isWhitespace_of_trim h c (Text.mem_of_mem_fields hentry hc)
  rw [Text.trim, String.toList_ofList, String.toList_ofList,
    List.dropWhile_eq_nil_iff.2 hall] at htrim
  cases htrim

/-! ## The clock -/

theorem DateTime.signedDurationSince_eq (t s : DateTime) :
    t.signedDurationSince s = some (t.nanos - s.nanos) := by
  have ht := And.intro t.min_le t.le_max
  have hs := And.intro s.min_le s.le_max
  exact if_pos (by omega)

theorem DateTime.fromTimestampMillis_eq_some {millis : Int64} {t : DateTime} :
    DateTime.fromTimestampMillis millis = some t ↔ t.nanos = millis.toInt * 1000000 := by
  unfold DateTime.fromTimestampMillis
  constructor
  · intro h
    split at h
    · exact congrArg DateTime.nanos (Option.some.inj h).symm
    · cases h
  · obtain ⟨nanos, hmin, hmax⟩ := t
    rintro rfl
    exact dif_pos ⟨hmin, hmax⟩

/-- Nothing overflows, and the checks are made in this order. -/
theorem verifyWebhookSignature_cases (secret : Bytes) (timestampHeader signatureHeader : String)
    (rawBody : Bytes) (now : DateTime) :
    verifyWebhookSignature secret timestampHeader signatureHeader rawBody now =
      some (if Text.trim signatureHeader = "" then .error .headerMissing
        else match (parseSigned (Text.trim timestampHeader)).bind DateTime.fromTimestampMillis with
          | none => .error .timestampMissing
          | some eventTs =>
            if (now.nanos - eventTs.nanos).natAbs > timestampDriftTolerance then
              .error .timestampOutOfRange
            else
              checkEntries
                (hmacSha256 secret (payloadToSign (Text.trim timestampHeader) rawBody)) false
                (entries signatureHeader)) := by
  unfold verifyWebhookSignature
  split
  case isTrue => rfl
  case isFalse =>
    cases parseSigned (Text.trim timestampHeader) with
    | none => rfl
    | some millis =>
      simp only [Option.bind_some]
      cases DateTime.fromTimestampMillis millis with
      | none => rfl
      | some eventTs =>
        simp only [DateTime.signedDurationSince_eq, Option.bind_eq_bind, Option.bind_some,
          Option.pure_def, ← apply_ite some]

theorem accepts_iff {secret : Bytes} {timestampHeader signatureHeader : String} {rawBody : Bytes}
    {now : DateTime} :
    Accepts secret timestampHeader signatureHeader rawBody now ↔
      (∃ millis, parseSigned (Text.trim timestampHeader) = some millis ∧
        (DateTime.fromTimestampMillis millis).isSome ∧ Fresh millis now) ∧
      Signed secret timestampHeader signatureHeader rawBody := by
  rw [Accepts, verifyWebhookSignature_cases, Option.some.injEq]
  split
  case isTrue hempty =>
    refine iff_of_false (by simp) ?_
    rintro ⟨-, entry, hentry, hshows⟩
    exact not_shows_of_trim hempty hentry hshows
  case isFalse =>
    cases hparse : parseSigned (Text.trim timestampHeader) with
    | none => simp
    | some millis =>
      cases htime : DateTime.fromTimestampMillis millis with
      | none => simp [htime]
      | some eventTs =>
        have hnanos := DateTime.fromTimestampMillis_eq_some.1 htime
        by_cases hfresh : Fresh millis now
        · have hdrift : ¬ (now.nanos - eventTs.nanos).natAbs > timestampDriftTolerance := by
            rw [hnanos]
            exact Nat.not_lt.2 hfresh
          simp [htime, hdrift, hfresh, checkEntries_eq_ok, Signed]
        · have hdrift : (now.nanos - eventTs.nanos).natAbs > timestampDriftTolerance := by
            rw [hnanos]
            exact Nat.not_le.1 hfresh
          simp [htime, hdrift, hfresh]

/-! ## The payload -/

/-- The characters of a number. -/
def IsNumberChar (c : Char) : Prop := c.isDigit ∨ c = '+' ∨ c = '-'

theorem isNumberChar_of_parseUnsigned {values : Nat} {s : String} {n : Nat}
    (h : parseUnsigned values s = some n) : ∀ c ∈ s.toList, IsNumberChar c := by
  unfold parseUnsigned at h
  split at h <;> split at h <;> grind [IsNumberChar]

theorem isNumberChar_of_parseSigned {s : String} {millis : Int64}
    (h : parseSigned s = some millis) : ∀ c ∈ s.toList, IsNumberChar c := by
  unfold parseSigned at h
  split at h
  · split at h <;> grind [IsNumberChar]
  · obtain ⟨n, hn, -⟩ := Option.map_eq_some_iff.1 h
    exact isNumberChar_of_parseUnsigned hn

/-- No byte of a number is a dot. -/
theorem dot_not_mem_utf8 {t : List Char} (h : ∀ c ∈ t, IsNumberChar c) : 46 ∉ Json.utf8 t := by
  have hascii : ∀ n : Fin 128, 46 ∈ String.utf8EncodeChar (Char.ofNat n) → n.val = 46 := by decide
  intro hmem
  obtain ⟨c, hc, hdot⟩ := List.mem_flatMap.1 hmem
  have hnumber : c.toNat < 128 ∧ c.toNat ≠ 46 := by
    rcases h c hc with hdigit | rfl | rfl
    · have hrange : 48 ≤ c.toNat ∧ c.toNat ≤ 57 := Char.isDigit_iff_toNat.1 hdigit
      omega
    · decide
    · decide
  rw [← Char.ofNat_toNat c] at hdot
  exact hnumber.2 (hascii ⟨c.toNat, hnumber.1⟩ hdot)

/-- The first dot behind `v1.` ends the timestamp. -/
theorem payloadToSign_inj {timestamp timestamp' : String} {rawBody rawBody' : Bytes}
    (hnumber : ∀ c ∈ timestamp.toList, IsNumberChar c)
    (hnumber' : ∀ c ∈ timestamp'.toList, IsNumberChar c)
    (h : payloadToSign timestamp rawBody = payloadToSign timestamp' rawBody') :
    timestamp = timestamp' ∧ rawBody = rawBody' := by
  have hdot : Json.utf8 ".".toList = [46] := by decide
  have hsplit : Json.utf8 timestamp.toList ++ 46 :: rawBody =
      Json.utf8 timestamp'.toList ++ 46 :: rawBody' := by
    simpa only [payloadToSign, hdot, List.append_assoc, List.append_cancel_left_eq,
      List.singleton_append] using h
  obtain ⟨htime, hbody⟩ := Text.split_unique (dot_not_mem_utf8 hnumber) (dot_not_mem_utf8 hnumber')
    hsplit
  exact ⟨String.toList_injective (Json.utf8_injective htime), hbody⟩

/-! ## What the service signs -/

/-- The header for one secret. -/
def sign (secret : Bytes) (timestamp : String) (rawBody : Bytes) : String :=
  String.ofList
    ("v1=".toList ++ Hex.encode (hmacSha256 secret (payloadToSign timestamp rawBody)).bytes)

theorem entries_of_no_comma {entry : String} (h : ',' ∉ entry.toList) :
    entries entry = [entry.toList] :=
  Text.fields_of_not_sep fun c hc => by
    have hne : c ≠ ',' := fun heq => h (heq ▸ hc)
    simpa using hne

theorem mem_sign {secret : Bytes} {timestamp : String} {rawBody : Bytes} {c : Char}
    (h : c ∈ (sign secret timestamp rawBody).toList) : c ≠ ',' ∧ Text.isWhitespace c = false := by
  rw [sign, String.toList_ofList, List.mem_append] at h
  rcases h with h | h
  · have hall : ("v1=".toList.all fun c => c != ',' && !Text.isWhitespace c) = true := by decide
    simpa using List.all_eq_true.1 hall c h
  · have hall : ∀ n : Fin 16, n.val.digitChar ≠ ',' ∧
        Text.isWhitespace n.val.digitChar = false := by decide
    obtain ⟨n, hn, rfl⟩ := Hex.exists_of_mem_encode h
    exact hall ⟨n, hn⟩

theorem signed_sign (secret : Bytes) (timestampHeader : String) (rawBody : Bytes) :
    Signed secret timestampHeader (sign secret (Text.trim timestampHeader) rawBody) rawBody := by
  have htrim : Text.trim (sign secret (Text.trim timestampHeader) rawBody) =
      sign secret (Text.trim timestampHeader) rawBody := by
    rw [← String.ofList_toList (s := sign secret (Text.trim timestampHeader) rawBody)]
    exact Text.trim_of_ends (fun c hc => (mem_sign (List.mem_of_head? hc)).2)
      fun c hc => (mem_sign (List.mem_of_getLast? hc)).2
  refine ⟨_, entries_of_no_comma (fun hc => (mem_sign hc).1 rfl) ▸ List.mem_singleton_self _, ?_⟩
  refine ⟨_, ?_, Hex.decode_eq_some.1 (Hex.decode_encode _)⟩
  rw [String.ofList_toList, htrim, sign, String.toList_ofList]

/-! ## The bound -/

/-- A signature binds the body and the time. Nothing overflows; the header is accepted if the
timestamp is a number of milliseconds that `DateTime` has, within five minutes of the clock, and an
entry shows the MAC of the timestamp and the body; and one entry is accepted for one timestamp and
one body, as far as the MAC tells the two payloads apart. -/
theorem verifyWebhookSignature_binds (secret : Bytes) (timestampHeader signatureHeader : String)
    (rawBody : Bytes) (now : DateTime) :
    (verifyWebhookSignature secret timestampHeader signatureHeader rawBody now).isSome ∧
      (Accepts secret timestampHeader signatureHeader rawBody now ↔
        (∃ millis, parseSigned (Text.trim timestampHeader) = some millis ∧
          (DateTime.fromTimestampMillis millis).isSome ∧ Fresh millis now) ∧
        Signed secret timestampHeader signatureHeader rawBody) ∧
      ∀ timestampHeader' rawBody' now', ',' ∉ signatureHeader.toList →
        Set.InjOn (hmacSha256 secret) {payloadToSign (Text.trim timestampHeader) rawBody,
          payloadToSign (Text.trim timestampHeader') rawBody'} →
        Accepts secret timestampHeader signatureHeader rawBody now →
        Accepts secret timestampHeader' signatureHeader rawBody' now' →
        Text.trim timestampHeader = Text.trim timestampHeader' ∧ rawBody = rawBody' := by
  refine ⟨by rw [verifyWebhookSignature_cases]; rfl, accepts_iff, ?_⟩
  intro timestampHeader' rawBody' now' hcomma hinj haccept haccept'
  obtain ⟨⟨millis, hparse, -⟩, entry, hentry, hshows⟩ := accepts_iff.1 haccept
  obtain ⟨⟨millis', hparse', -⟩, entry', hentry', hshows'⟩ := accepts_iff.1 haccept'
  rw [entries_of_no_comma hcomma, List.mem_singleton] at hentry hentry'
  have hmac := Shows.unique hshows (hentry.trans hentry'.symm ▸ hshows')
  have hpayload := hinj (Set.mem_insert _ _) (Set.mem_insert_of_mem _ rfl) hmac
  exact payloadToSign_inj (isNumberChar_of_parseSigned hparse)
    (isNumberChar_of_parseSigned hparse') hpayload

/-- A clock at the end of `DateTime`, and a timestamp a minute later. -/
def lastInstant : DateTime := ⟨8210266876799999999999, by decide, by decide⟩

def minuteLater : String := "8210266876859999"

/-- It is a number within five minutes and is signed, and is refused as no timestamp. -/
theorem minuteLater_refused :
    (∃ millis, parseSigned (Text.trim minuteLater) = some millis ∧ Fresh millis lastInstant) ∧
      Signed [] minuteLater (sign [] (Text.trim minuteLater) []) [] ∧
      ¬ Accepts [] minuteLater (sign [] (Text.trim minuteLater) []) [] lastInstant := by
  have hparse : parseSigned (Text.trim minuteLater) = some 8210266876859999 := by decide +kernel
  have hrange : DateTime.fromTimestampMillis 8210266876859999 = none := by decide +kernel
  refine ⟨⟨_, hparse, by unfold Fresh; decide +kernel⟩, signed_sign _ _ _, ?_⟩
  rw [accepts_iff]
  rintro ⟨⟨millis, hparse', htime, -⟩, -⟩
  rw [hparse, Option.some.injEq] at hparse'
  rw [← hparse', hrange] at htime
  cases htime

end StarStats.Revolut
