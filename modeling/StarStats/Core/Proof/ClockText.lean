import Mathlib.Data.List.TakeWhile
import StarStats.Core.Proof.Clock
import StarStats.Core.Validators

/-!
# The clock is exact

`parseIsoSecs_exact_iff`: the seconds of a text `YYYY-MM-DDTHH:MM:SS[.f]Z` are the ones of the
calendar, and nothing overflows exactly when the six numbers of the text are in bounds. A day 00 of
March is not.
-/

namespace StarStats

open Checked Calendar

/-! ## The numbers of a text -/

theorem parseI64_eq (digits : List Char) :
    parseI64 digits = (parseDecimal digits).map Int64.ofNat := by
  unfold parseI64 parseDecimal Text.decimalValue
  dsimp only
  split <;> rfl

theorem parseDecimal_lt {digits : List Char} {n : Nat} (h : parseDecimal digits = some n) :
    n < 2 ^ 63 := by
  unfold parseDecimal at h
  dsimp only at h
  split at h
  case isTrue hd => exact Option.some.inj h ▸ hd.2.2
  case isFalse => cases h

/-- The wrapping clock, on the six numbers. -/
theorem parseIsoSecs_eq (s : String) :
    parseIsoSecs s = (isoComponents s).map IsoComponents.secs := by
  unfold parseIsoSecs isoComponents isoParts
  split
  · rfl
  · dsimp only
    generalize Text.fields _ _ = parts
    have hparts : parts.map parseI64 = (parts.map parseDecimal).map (Option.map Int64.ofNat) := by
      rw [List.map_map]
      exact List.map_congr_left fun digits _ => parseI64_eq digits
    rw [hparts]
    generalize parts.map parseDecimal = numbers
    -- short lists and missing numbers, and last the six numbers
    rcases numbers with _ | ⟨_ | y, _ | ⟨_ | mo, _ | ⟨_ | d, _ | ⟨_ | h, _ | ⟨_ | mi, _ |
      ⟨_ | se, rest⟩⟩⟩⟩⟩⟩
    all_goals rfl

theorem isoComponents_inRange {s : String} {c : IsoComponents} (h : isoComponents s = some c) :
    c.InRange := by
  unfold isoComponents at h
  split at h
  · cases h
  · have hall : ∀ n, some n ∈ (isoParts s).map parseDecimal → n < 2 ^ 63 := by
      intro n hn
      obtain ⟨digits, -, hdigits⟩ := List.mem_map.1 hn
      exact parseDecimal_lt hdigits
    generalize (isoParts s).map parseDecimal = numbers at h hall
    unfold IsoComponents.ofParts at h
    split at h
    · obtain rfl := Option.some.inj h
      exact ⟨hall _ (by simp), hall _ (by simp), hall _ (by simp), hall _ (by simp),
        hall _ (by simp), hall _ (by simp)⟩
    · cases h

/-! ## Valid texts -/

/-- A date of a four-digit year, and a time of day. -/
structure UtcTime extends Calendar.Date where
  hour : Nat
  minute : Nat
  second : Nat
  year_lt : year < 10000
  hour_lt : hour < 24
  minute_lt : minute < 60
  second_lt : second < 60

def unixEpoch : Calendar.Date := ⟨1970, 1, 1, by decide, by decide, by decide, by decide⟩

/-- A fraction of a second, if there is one. -/
def IsFraction (f : List Char) : Prop :=
  f = [] ∨ ∃ digits, digits ≠ [] ∧ (∀ c ∈ digits, c.isDigit = true) ∧ f = '.' :: digits

namespace UtcTime
variable (t : UtcTime)

/-- The whole seconds since the first of January 1970. -/
def unixSecs : Int :=
  86400 * ((t.dayNumber : Int) - unixEpoch.dayNumber) + 3600 * t.hour + 60 * t.minute + t.second

open Text (padded) in
/-- `YYYY-MM-DD`, a separator and `HH:MM:SS`. -/
def front (sep : Char) : List Char :=
  padded 4 t.year ++ '-' :: (padded 2 t.month ++ '-' :: (padded 2 t.day ++ sep ::
    (padded 2 t.hour ++ ':' :: (padded 2 t.minute ++ ':' :: padded 2 t.second))))

/-- `YYYY-MM-DDTHH:MM:SS[.f]Z` -/
def text (f : List Char) : String := String.ofList (t.front 'T' ++ f ++ ['Z'])

def components : IsoComponents := ⟨t.year, t.month, t.day, t.hour, t.minute, t.second⟩

variable {t}

theorem mem_front {sep c : Char} (h : c ∈ t.front sep) :
    c.isDigit = true ∨ c = '-' ∨ c = sep ∨ c = ':' := by
  simp only [front, List.mem_append, List.mem_cons] at h
  rcases h with h | rfl | h | rfl | h | rfl | h | rfl | h | rfl | h
  all_goals first
    | exact .inl (Text.isDigit_of_mem_padded h)
    | simp

/-- A character that is no digit and none of the separators. -/
theorem ne_of_mem_front {c stop : Char} (h : c ∈ t.front ' ') (hdigit : stop.isDigit = false)
    (hdash : stop ≠ '-') (hblank : stop ≠ ' ') (hcolon : stop ≠ ':') :
    decide (c ≠ stop) = true := by
  refine decide_eq_true fun heq => ?_
  subst heq
  rcases mem_front h with h | h | h | h
  · rw [h] at hdigit
    cases hdigit
  · exact hdash h
  · exact hblank h
  · exact hcolon h

theorem map_padded (k n : Nat) :
    (Text.padded k n).map (fun c => if c = 'T' then ' ' else c) = Text.padded k n := by
  refine (List.map_congr_left fun c hc => ?_).trans (List.map_id _)
  refine if_neg fun heq => ?_
  have hdigit := Text.isDigit_of_mem_padded hc
  rw [heq] at hdigit
  exact absurd hdigit (by decide)

theorem map_front :
    (t.front 'T').map (fun c => if c = 'T' then ' ' else c) = t.front ' ' := by
  simp only [front, List.map_append, List.map_cons, map_padded]
  rfl

/-- What is left of the text without the fraction and the `Z`. -/
theorem primary_eq {f : List Char} (hf : IsFraction f) :
    (((((t.front 'T' ++ f ++ ['Z']).map fun c => if c = 'T' then ' ' else c).takeWhile
      (· ≠ '.')).takeWhile (· ≠ '+')).takeWhile (· ≠ 'Z')) = t.front ' ' := by
  have hdot : ∀ c ∈ t.front ' ', decide (c ≠ '.') = true := fun c hc =>
    ne_of_mem_front hc (by decide) (by decide) (by decide) (by decide)
  have hplus : ∀ c ∈ t.front ' ', decide (c ≠ '+') = true := fun c hc =>
    ne_of_mem_front hc (by decide) (by decide) (by decide) (by decide)
  have hz : ∀ c ∈ t.front ' ', decide (c ≠ 'Z') = true := fun c hc =>
    ne_of_mem_front hc (by decide) (by decide) (by decide) (by decide)
  rw [List.map_append, List.map_append, map_front]
  rcases hf with rfl | ⟨digits, -, -, rfl⟩
  · have hwhole : ∀ {stop : Char}, (∀ c ∈ t.front ' ', decide (c ≠ stop) = true) → 'Z' ≠ stop →
        (t.front ' ' ++ ['Z']).takeWhile (· ≠ stop) = t.front ' ' ++ ['Z'] := by
      intro stop hall hne
      rw [List.takeWhile_append_of_pos hall, List.takeWhile_cons, if_pos (decide_eq_true hne)]
      rfl
    change (((t.front ' ' ++ [] ++ ['Z']).takeWhile _).takeWhile _).takeWhile _ = _
    rw [List.append_nil, hwhole hdot (by decide), hwhole hplus (by decide),
      Text.takeWhile_append_stop hz (by decide)]
  · rw [List.map_cons, List.append_assoc, List.cons_append]
    change (((t.front ' ' ++ '.' :: _).takeWhile _).takeWhile _).takeWhile _ = _
    rw [Text.takeWhile_append_stop hdot (by decide), List.takeWhile_eq_self_iff.2 hplus,
      List.takeWhile_eq_self_iff.2 hz]

theorem isWhitespace_of_isDigit {c : Char} (h : c.isDigit = true) :
    Text.isWhitespace c = false := by
  have hzero : '0'.toNat = 48 := rfl
  have hnine : '9'.toNat = 57 := rfl
  rw [Char.isDigit_iff_toNat, hzero, hnine] at h
  simp only [Text.isWhitespace, Bool.or_eq_false_iff, Bool.and_eq_false_iff,
    decide_eq_false_iff_not, beq_eq_false_iff_ne, ne_eq]
  omega

/-- A digit begins and ends it. -/
theorem trim_front : Text.trim (String.ofList (t.front ' ')) = String.ofList (t.front ' ') := by
  refine Text.trim_of_ends ?_ ?_
  · intro c hc
    rw [front, List.head?_append_of_ne_nil _ (Text.padded_ne_nil (by decide))] at hc
    exact isWhitespace_of_isDigit (Text.isDigit_of_mem_padded (List.mem_of_mem_head? hc))
  · intro c hc
    have hlast : (t.front ' ').getLast? = (Text.padded 2 t.second).getLast? := by
      simp [front, List.getLast?_cons, Text.padded]
    rw [hlast] at hc
    exact isWhitespace_of_isDigit (Text.isDigit_of_mem_padded (List.mem_of_mem_getLast? hc))

theorem isoParts_text {f : List Char} (hf : IsFraction f) :
    isoParts (t.text f) = [Text.padded 4 t.year, Text.padded 2 t.month, Text.padded 2 t.day,
      Text.padded 2 t.hour, Text.padded 2 t.minute, Text.padded 2 t.second] := by
  have hdigits : ∀ {k n : Nat}, ∀ c ∈ Text.padded k n,
      (c == ' ' || c == '-' || c == ':') = false := by
    intro k n c hc
    have hdigit := Text.isDigit_of_mem_padded hc
    simp only [Bool.or_eq_false_iff, beq_eq_false_iff_ne, ne_eq]
    refine ⟨⟨?_, ?_⟩, ?_⟩
    all_goals
      intro heq
      rw [heq] at hdigit
      exact absurd hdigit (by decide)
  unfold isoParts text
  dsimp only
  rw [String.toList_ofList, primary_eq hf, trim_front, String.toList_ofList, front,
    Text.fields_append hdigits rfl, Text.fields_append hdigits rfl, Text.fields_append hdigits rfl,
    Text.fields_append hdigits rfl, Text.fields_append hdigits rfl, Text.fields_of_none hdigits]

theorem parseDecimal_padded {k n : Nat} (hk : 0 < k) (hn : n < 10 ^ k) (hsmall : n < 2 ^ 63) :
    parseDecimal (Text.padded k n) = some n := by
  unfold parseDecimal
  dsimp only
  rw [Text.decimalValue_padded hn, if_pos]
  exact ⟨Text.padded_ne_nil hk, List.all_eq_true.2 fun c hc => Text.isDigit_of_mem_padded hc,
    hsmall⟩

theorem day_lt : t.day < 32 := by
  have hle := t.day_le
  unfold Calendar.daysInMonth at hle
  split at hle
  · split at hle <;> omega
  · split at hle <;> omega

theorem isoComponents_text {f : List Char} (hf : IsFraction f) :
    isoComponents (t.text f) = some t.components := by
  have hyear := t.year_lt
  have hmonth := t.month_le
  have hday := t.day_lt
  have hhour := t.hour_lt
  have hminute := t.minute_lt
  have hsecond := t.second_lt
  have hne : (t.text f).isEmpty = false := by
    rw [text, ← Bool.not_eq_true, String.isEmpty_iff, String.ofList_eq_empty_iff]
    simp
  unfold isoComponents
  rw [hne, if_neg Bool.false_ne_true, isoParts_text hf]
  simp only [List.map_cons, List.map_nil]
  rw [parseDecimal_padded (by decide) (by omega) (by omega),
    parseDecimal_padded (by decide) (by omega) (by omega),
    parseDecimal_padded (by decide) (by omega) (by omega),
    parseDecimal_padded (by decide) (by omega) (by omega),
    parseDecimal_padded (by decide) (by omega) (by omega),
    parseDecimal_padded (by decide) (by omega) (by omega)]
  rfl

theorem components_inRange : t.components.InRange := by
  have hyear := t.year_lt
  have hmonth := t.month_le
  have hday := t.day_lt
  have hhour := t.hour_lt
  have hminute := t.minute_lt
  have hsecond := t.second_lt
  constructor <;> dsimp only [components] <;> omega

theorem unixEpoch_dayNumber : unixEpoch.dayNumber = 719528 := by
  have hnumber := unixEpoch.dayNumber_eq
  have hzero : unixDays unixEpoch.year unixEpoch.month unixEpoch.day = 0 := by decide
  omega

/-- The day of the algorithm is the one of the calendar. -/
theorem unixDays64_components :
    unixDays64 t.year t.month t.day = (t.dayNumber : Int) - unixEpoch.dayNumber ∧
      -1000000 < unixDays64 t.year t.month t.day ∧
        unixDays64 t.year t.month t.day < 10000000 := by
  have hnumber := t.dayNumber_eq
  have hyear := t.year_lt
  have hmonth := t.month_le
  have hday := t.day_lt
  have hbounds := marchYear_bounds t.year t.month
  have hmarch : marchMonth t.month ≤ 11 := by
    unfold marchMonth
    split <;> omega
  rw [unixEpoch_dayNumber, hnumber]
  unfold unixDays64 dayOfEra unixDays
  split <;> omega

theorem components_fits : t.components.Fits := by
  have hmonth := t.month_le
  have hpos := t.day_pos
  have hhour := t.hour_lt
  have hminute := t.minute_lt
  have hsecond := t.second_lt
  have hyear := t.year_lt
  have hbounds := marchYear_bounds t.year t.month
  obtain ⟨-, hlow, hhigh⟩ := t.unixDays64_components
  have hmarch : marchMonth t.month ≤ 11 := by
    unfold marchMonth
    split <;> omega
  constructor <;> dsimp only [IsoComponents.unixSecs64, components] <;> omega

theorem unixSecs64_components : t.components.unixSecs64 = t.unixSecs := by
  unfold IsoComponents.unixSecs64 unixSecs
  rw [← t.unixDays64_components.1]
  rfl

/-- The clock is exact on a valid text. -/
theorem parseIsoSecs_text {f : List Char} (hf : IsFraction f) :
    (parseIsoSecs (t.text f)).map Int64.toInt = some t.unixSecs := by
  have hchecked := (IsoComponents.secsChecked_iff components_inRange).2
    ⟨t.components_fits, t.unixSecs64_components.symm⟩
  rw [parseIsoSecs_eq, isoComponents_text hf, Option.map_some, Option.map_some,
    IsoComponents.secs_of_checked components_inRange hchecked]

end UtcTime

/-! ## Every text -/

theorem parseIsoSecsChecked_isSome_iff (s : String) :
    (parseIsoSecsChecked s).isSome = true ↔ ∀ c ∈ isoComponents s, c.Fits := by
  unfold parseIsoSecsChecked
  cases hc : isoComponents s with
  | none => simp
  | some c =>
    have hiff := fun v => IsoComponents.secsChecked_iff (isoComponents_inRange hc) (v := v)
    dsimp only
    rw [Option.isSome_map, Option.isSome_iff_exists]
    constructor
    · rintro ⟨v, hv⟩ c' hc'
      exact Option.some.inj hc' ▸ ((hiff v).1 hv).1
    · exact fun hfits => ⟨c.unixSecs64, (hiff _).2 ⟨hfits c rfl, rfl⟩⟩

/-- Without an overflow both clocks agree. -/
theorem parseIsoSecs_of_checked {s : String} {r : Option Int} (h : parseIsoSecsChecked s = some r) :
    (parseIsoSecs s).map Int64.toInt = r := by
  unfold parseIsoSecsChecked at h
  rw [parseIsoSecs_eq]
  cases hc : isoComponents s with
  | none =>
    rw [hc] at h
    exact Option.some.inj h
  | some c =>
    rw [hc] at h
    obtain ⟨v, hv, rfl⟩ := Option.map_eq_some_iff.1 h
    rw [Option.map_some, Option.map_some,
      IsoComponents.secs_of_checked (isoComponents_inRange hc) hv]

/-- A valid text has the seconds of the calendar, and nothing overflows exactly when the six numbers
are in bounds. -/
theorem parseIsoSecs_exact_iff (s : String) :
    ((∀ (t : UtcTime) (f : List Char), IsFraction f → s = t.text f →
        (parseIsoSecs s).map Int64.toInt = some t.unixSecs) ∧
      (parseIsoSecsChecked s).isSome = true) ↔
      ∀ c ∈ isoComponents s, c.Fits := by
  rw [parseIsoSecsChecked_isSome_iff]
  refine and_iff_right ?_
  rintro t f hf rfl
  exact UtcTime.parseIsoSecs_text hf

/-- The day 00 of a March, which the server accepts, and a year that does not fit. -/
theorem parseIsoSecs_overflows :
    checkTimestamp "2026-03-00T12:00:00.000Z" = .ok () ∧
      parseIsoSecsChecked "2026-03-00T12:00:00.000Z" = none ∧
      parseIsoSecsChecked "9000000000000000000-01-01T00:00:00Z" = none :=
  ⟨by rfl, by decide +kernel, by decide +kernel⟩

end StarStats
