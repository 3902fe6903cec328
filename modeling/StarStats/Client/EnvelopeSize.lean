import Mathlib.Algebra.Order.BigOperators.Group.List
import StarStats.Client.Pipeline
import StarStats.Client.Proof.Chunks
import StarStats.Lib.Json

/-!
# The size of an upload (`starstats-client/src/sync.rs` `estimated_envelope_bytes`)

Chunks are cut by an estimate that adds up the columns of the rows. What is sent is the JSON form of
the envelopes.

* `byteLength_envelope`: what the JSON form adds to the columns, and what it replaces.
* `estimate_covers_iff`: when the estimate is no less than what is sent.
-/

namespace StarStats

open Json (Value FloatText escapeCosts)
open Text (byteLength)

/-! ## The JSON form -/

/-- `serde_json` on the parts of an envelope that other modules define. -/
structure WireJson (F : Type) where
  floatText : FloatText F
  event : GameEvent → Value F
  metadata : EventMetadata → Value F

/-- `rename_all = "snake_case"`. -/
def LocationTier.wireName : LocationTier → String
  | .system => "system"
  | .astronomicalObject => "astronomical_object"
  | .landingZone => "landing_zone"
  | .spaceStation => "space_station"
  | .landmark => "landmark"
  | .flotilla => "flotilla"
  | .navalBase => "naval_base"
  | .anonymousPoi => "anonymous_poi"

def ClassificationSource.wireName : ClassificationSource → String
  | .catalog => "catalog"
  | .fuzzy => "fuzzy"
  | .synthetic => "synthetic"
  | .heuristic => "heuristic"
  | .fallback => "fallback"

namespace WireJson
variable {F : Type} (json : WireJson F)

/-- `skip_serializing_if = "Option::is_none"`. -/
def optional {α : Type} (key : String) (value : α → Value F) (x : Option α) :
    List (String × Value F) :=
  x.toList.map fun a => (key, value a)

def resolvedLocation (l : ResolvedLocation) : Value F :=
  .object <|
    [("display_name", .string l.displayName)] ++ optional "slug" .string l.slug ++
      optional "system" .string l.system ++
      [("tier", .string l.tier.wireName), ("source", .string l.source.wireName)]

def eventValue (event : Option GameEvent) : Value F := (event.map json.event).getD .null

def envelope (e : EventEnvelope) : Value F :=
  .object <|
    [("idempotency_key", .string e.idempotencyKey), ("raw_line", .string e.rawLine),
      ("event", json.eventValue e.event), ("source", .string (logSourceName e.source)),
      ("source_offset", .number (.int e.sourceOffset.toNat))] ++
      optional "metadata" json.metadata e.metadata ++
      optional "resolved_location" resolvedLocation e.resolvedLocation

/-- What a row takes in the body of a request. -/
def sentBytes (env : BatchEnv) (e : UnsentEvent) : Nat :=
  byteLength ((json.envelope (env.envelope e)).text json.floatText)

/-! ## What the estimate does not see -/

/-- The event as it is sent. -/
def eventBytes (env : BatchEnv) (e : UnsentEvent) : Nat :=
  byteLength ((json.eventValue (env.parsePayload e.payloadJson)).text json.floatText)

/-- The location that the event's place resolves to, behind its key. -/
def locationBytes (env : BatchEnv) (e : UnsentEvent) : Nat :=
  match ((env.parsePayload e.payloadJson).bind (·.locationRaw)).map env.classify with
  | some l => 21 + byteLength ((resolvedLocation (F := F) l).text json.floatText)
  | none => 0

/-- What the escapes, the event, the channel, the offset and the location take is at most what
the payload, the column of the channel and the constant make room for. -/
def Covered (env : BatchEnv) (e : UnsentEvent) : Prop :=
  escapeCosts e.idempotencyKey.toList + escapeCosts e.rawLine.toList + json.eventBytes env e +
      (logSourceName (parseSource e.logSource)).length +
      (Nat.toDigits 10 e.sourceOffset.toNat).length + json.locationBytes env e ≤
    e.payloadJson.utf8ByteSize + e.logSource.utf8ByteSize + 310

variable {json} {env : BatchEnv} {e : UnsentEvent}

theorem memberBytes_string (ft : FloatText F) (k s : String) :
    Json.memberBytes ft (k, .string s) =
      byteLength (Json.keyText k) + s.utf8ByteSize + escapeCosts s.toList + 3 := by
  show byteLength (Json.keyText k) + byteLength (Json.quote s.toList) + 1 = _
  rw [Json.byteLength_quote, Text.byteLength_toList]
  omega

theorem channel_plain (source : LogSource) :
    (logSourceName source).utf8ByteSize = (logSourceName source).length ∧
      escapeCosts (logSourceName source).toList = 0 := by
  cases source <;> decide

theorem byteLength_digits (n : Nat) :
    byteLength (Nat.toDigits 10 n) = (Nat.toDigits 10 n).length := by
  refine Text.byteLength_ascii fun c hc => ?_
  have hdigit := (Char.isDigit_iff_toNat.1 (Json.isDigit_of_mem_toDigits hc)).2
  exact Char.utf8Size_eq_one_iff.2 (UInt32.le_iff_toNat_le.2 (hdigit.trans (by decide)))

/-- The columns that are sent, what the estimate does not see, and the names of the members. -/
theorem sentBytes_eq : json.sentBytes env e =
    e.idempotencyKey.utf8ByteSize + e.rawLine.utf8ByteSize +
      (escapeCosts e.idempotencyKey.toList + escapeCosts e.rawLine.toList + json.eventBytes env e +
        (logSourceName (parseSource e.logSource)).length +
        (Nat.toDigits 10 e.sourceOffset.toNat).length + json.locationBytes env e) + 74 := by
  obtain ⟨hname, hplain⟩ := channel_plain (parseSource e.logSource)
  have hkeys : ["idempotency_key", "raw_line", "event", "source", "source_offset",
      "resolved_location"].map (fun k => byteLength (Json.keyText k)) =
        [18, 11, 8, 9, 16, 20] := by decide
  simp only [List.map_cons, List.map_nil, List.cons.injEq, and_true] at hkeys
  obtain ⟨hkey, hraw, hevent, hsource, hoffset, hlocation⟩ := hkeys
  have hoptional : ((optional "resolved_location" (resolvedLocation (F := F))
      (env.envelope e).resolvedLocation).map (Json.memberBytes json.floatText)).sum =
        json.locationBytes env e := by
    rw [locationBytes, BatchEnv.envelope]
    cases ((env.parsePayload e.payloadJson).bind (·.locationRaw)).map env.classify with
    | none => rfl
    | some l =>
      simp only [optional, Option.toList_some, List.map_cons, List.map_nil, List.sum_cons,
        List.sum_nil, Json.memberBytes, hlocation]
      omega
  rw [sentBytes, envelope, Json.byteLength_object _ (by simp), List.map_append, List.sum_append,
    hoptional]
  have hmetadata : optional "metadata" json.metadata (env.envelope e).metadata = [] := rfl
  have heventBytes : Json.memberBytes json.floatText
      ("event", json.eventValue (env.envelope e).event) = 9 + json.eventBytes env e := by
    show byteLength (Json.keyText "event") + json.eventBytes env e + 1 = _
    omega
  have hoffsetBytes : Json.memberBytes json.floatText
      ("source_offset", .number (.int (env.envelope e).sourceOffset.toNat)) =
        17 + (Nat.toDigits 10 e.sourceOffset.toNat).length := by
    rw [← byteLength_digits]
    show byteLength (Json.keyText "source_offset") +
      byteLength (Nat.toDigits 10 e.sourceOffset.toNat) + 1 = _
    omega
  simp only [hmetadata, List.append_nil, List.map_cons, List.sum_cons, List.map_nil, List.sum_nil,
    memberBytes_string, heventBytes, hoffsetBytes]
  simp only [BatchEnv.envelope, hkey, hraw, hsource, hname, hplain]
  omega

theorem sentBytes_le_iff :
    json.sentBytes env e ≤ estimatedEnvelopeBytes e ↔ json.Covered env e := by
  rw [sentBytes_eq, estimatedEnvelopeBytes, envelopeOverhead, Covered]
  omega

theorem parseSource_name (source : LogSource) : parseSource (logSourceName source) = source := by
  cases source <;> rfl

/-- For a row as the tray writes it, the constant has to make room for the escapes, the offset and
the location. -/
theorem covered_iff_of_written {source : LogSource}
    (hpayload : json.eventBytes env e = e.payloadJson.utf8ByteSize)
    (hsource : e.logSource = logSourceName source) :
    json.Covered env e ↔
      escapeCosts e.idempotencyKey.toList + escapeCosts e.rawLine.toList +
        (Nat.toDigits 10 e.sourceOffset.toNat).length + json.locationBytes env e ≤ 310 := by
  have hname := (channel_plain source).1
  rw [Covered, hpayload, hsource, parseSource_name]
  omega

/-- A chunk of several rows is under the cap by the estimate, and so what it sends is. -/
theorem sum_sentBytes_le {events chunk : List UnsentEvent} {maxBytes : Nat}
    (hchunk : chunk ∈ chunkByBytes events maxBytes) (hlen : 2 ≤ chunk.length)
    (h : ∀ e ∈ chunk, json.Covered env e) : (chunk.map (json.sentBytes env)).sum ≤ maxBytes := by
  obtain ⟨-, -, hfits, -⟩ := chunkByBytes_greedy events maxBytes
  have hcap := (hfits chunk hchunk).resolve_right (by omega)
  calc (chunk.map (json.sentBytes env)).sum
      ≤ (chunk.map estimatedEnvelopeBytes).sum :=
        List.sum_le_sum fun e he => sentBytes_le_iff.2 (h e he)
    _ ≤ maxBytes := hcap

end WireJson

/-- The estimate of a row is no less than what is sent, exactly when the row is covered, and then a
chunk of several rows stays under the cap. -/
theorem estimate_covers_iff {F : Type} (json : WireJson F) (env : BatchEnv) :
    (∀ e, json.sentBytes env e ≤ estimatedEnvelopeBytes e ↔ json.Covered env e) ∧
      ∀ events maxBytes, ∀ chunk ∈ chunkByBytes events maxBytes, 2 ≤ chunk.length →
        (∀ e ∈ chunk, json.Covered env e) → (chunk.map (json.sentBytes env)).sum ≤ maxBytes :=
  ⟨fun _ => WireJson.sentBytes_le_iff, fun _ _ _ hchunk => WireJson.sum_sentBytes_le hchunk⟩

def noFloats : FloatText Empty where
  text x := x.elim
  numeric x := x.elim
  fractional x := x.elim
  injective x := x.elim

def loginEvent : GameEvent := .legacyLogin ⟨"1", "Pilot", none⟩

def loginPayload : String :=
  "\x7b\"type\":\"legacy_login\",\"timestamp\":\"1\",\"handle\":\"Pilot\",\"server_time\":null\x7d"

def loginJson : WireJson Empty where
  floatText := noFloats
  event _ := .object [("type", .string "legacy_login"), ("timestamp", .string "1"),
    ("handle", .string "Pilot"), ("server_time", .null)]
  metadata _ := .null

def loginBatch : BatchEnv where
  parsePayload s := if s = loginPayload then some loginEvent else none
  classify raw := ⟨raw, none, none, .anonymousPoi, .fallback⟩
  contentUuid := id
  collectorVersion := "1.0.0"

def quotedRow : UnsentEvent where
  id := 1
  idempotencyKey := "6ba7b814-9dad-11d1-80b4-00c04fd430c8"
  payloadJson := loginPayload
  rawLine := String.ofList (List.replicate 500 '"')
  logSource := "live"
  sourceOffset := 0

/-- Each of 500 quotation marks takes two bytes. -/
theorem quotedRow_underestimated :
    loginBatch.parsePayload quotedRow.payloadJson = some loginEvent ∧
      estimatedEnvelopeBytes quotedRow < loginJson.sentBytes loginBatch quotedRow := by
  have hparsed : loginBatch.parsePayload quotedRow.payloadJson = some loginEvent := by
    show (if loginPayload = loginPayload then some loginEvent else none) = _
    exact if_pos rfl
  refine ⟨hparsed, ?_⟩
  have hmarks : escapeCosts quotedRow.rawLine.toList = 500 := by
    rw [quotedRow, String.toList_ofList, escapeCosts, List.map_replicate, List.sum_replicate]
    decide
  have hpayload : quotedRow.payloadJson.utf8ByteSize = 75 := by decide +kernel
  have hchannel : quotedRow.logSource.utf8ByteSize = 4 := by decide +kernel
  rw [WireJson.sentBytes_eq, estimatedEnvelopeBytes, envelopeOverhead]
  omega

end StarStats
