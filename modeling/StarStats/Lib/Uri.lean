import StarStats.Lib.Search

/-!
# The host of a URI

What RFC 3986 reads in a text `scheme://authority…`: the authority ends at the first `/`, `?` or
`#`, the host is what its last `@` and its port leave. A host in brackets keeps its colons.

* `host_eq_iff`: a name is the host of what it is followed in by a port or nothing.
* `withoutUserInfo_append`: user information does not count.
-/

namespace Uri

open Text (splitFirst)

/-! ## The parts -/

def endsAuthority (c : Char) : Bool := c = '/' || c = '?' || c = '#'

def scheme (uri : List Char) : List Char := splitFirst (· = ':') uri

/-- What stands behind `scheme://`, up to the path, the query or the fragment. -/
def authority? (uri : List Char) : Option (List Char) :=
  match uri.drop (scheme uri).length with
  | ':' :: '/' :: '/' :: rest => some (splitFirst endsAuthority rest)
  | _ => none

/-- What stands behind the last `@`. -/
def withoutUserInfo (authority : List Char) : List Char :=
  (splitFirst (· = '@') authority.reverse).reverse

/-- What stands before the port. -/
def withoutPort : List Char → List Char
  | '[' :: rest =>
    let literal := splitFirst (· = ']') rest
    '[' :: (literal ++ splitFirst (· = ':') (rest.drop literal.length))
  | name => splitFirst (· = ':') name

def host (authority : List Char) : List Char := withoutPort (withoutUserInfo authority)

def host? (uri : List Char) : Option (List Char) := (authority? uri).map host

/-- A port behind a host, or nothing. -/
def IsPort (port : List Char) : Prop := ∀ c ∈ port.head?, c = ':'

/-! ## Addresses -/

/-- `dec-octet`: a number up to 255 without leading zeros. -/
def decOctet (s : List Char) : Bool :=
  !s.isEmpty && s.all Char.isDigit && (s.length == 1 || s.head? != some '0') &&
    Text.decimalValue s ≤ 255

/-- The four octets of an `IPv4address`. -/
def octets? (name : List Char) : Option (List Nat) :=
  let parts := Text.fields (· = '.') name
  if parts.length = 4 ∧ parts.all decOctet then some (parts.map Text.decimalValue) else none

/-- An address of `127.0.0.0/8`. -/
def isLoopbackV4 (name : List Char) : Bool := (octets? name).any (·.head? = some 127)

/-- `localhost`, an address of `127.0.0.0/8`, or `::1` in the brackets an address needs. -/
def isLoopback (name : List Char) : Bool :=
  name = "localhost".toList || name = "[::1]".toList || isLoopbackV4 name

example : ["127.0.0.1", "127.1", "127.0.0.256", "127.0.0.01"].map (isLoopbackV4 ·.toList) =
    [true, false, false, false] := by decide +kernel

/-! ## Reading the host -/

theorem scheme_append {name : List Char} (h : ':' ∉ name) (rest : List Char) :
    scheme (name ++ ':' :: rest) = name := by
  refine Text.splitFirst_eq_iff.2 ⟨fun c hc => decide_eq_false fun heq => h (heq ▸ hc), _, rfl, ?_⟩
  simp

theorem authority?_append {name : List Char} (h : ':' ∉ name) (rest : List Char) :
    authority? (name ++ ':' :: '/' :: '/' :: rest) = some (splitFirst endsAuthority rest) := by
  rw [authority?, scheme_append h, List.drop_left]
  rfl

theorem splitFirst_reverse {sep : Char} {name user : List Char} (h : sep ∉ name)
    (huser : ∀ c ∈ user.reverse.head?, c = sep) :
    (splitFirst (· = sep) (user ++ name).reverse).reverse = name := by
  have hrev : splitFirst (· = sep) (user ++ name).reverse = name.reverse := by
    refine Text.splitFirst_eq_iff.2 ⟨fun c hc => ?_, user.reverse, List.reverse_append,
      fun c hc => decide_eq_true (huser c hc)⟩
    refine decide_eq_false fun heq => h ?_
    rw [← heq]
    exact List.mem_reverse.1 hc
  rw [hrev, List.reverse_reverse]

theorem withoutUserInfo_of_not_mem {a : List Char} (h : '@' ∉ a) : withoutUserInfo a = a :=
  @splitFirst_reverse '@' a [] h (by simp)

theorem withoutUserInfo_append (user : List Char) {name : List Char} (h : '@' ∉ name) :
    withoutUserInfo (user ++ '@' :: name) = name := by
  rw [withoutUserInfo, ← List.singleton_append, ← List.append_assoc]
  exact splitFirst_reverse h (by simp)

theorem exists_userInfo {a : List Char} (h : '@' ∈ a) :
    ∃ user name, a = user ++ '@' :: name ∧ '@' ∉ name := by
  obtain ⟨name, user, heq, hname⟩ := List.eq_append_cons_of_mem (List.mem_reverse.2 h)
  refine ⟨user.reverse, name.reverse, ?_, fun hm => hname (List.mem_reverse.1 hm)⟩
  rw [← List.reverse_reverse a, heq]
  simp

theorem withoutPort_of_ne {s : List Char} (h : s.head? ≠ some '[') :
    withoutPort s = splitFirst (· = ':') s := by
  unfold withoutPort
  split
  · exact absurd rfl h
  · rfl

theorem head?_withoutPort {s : List Char} (h : s.head? = some '[') :
    (withoutPort s).head? = some '[' := by
  cases s with
  | nil => cases h
  | cons c s =>
    obtain rfl := Option.some.inj h
    rfl

/-- A name is the host of what it is followed in by a port. -/
theorem withoutPort_eq_iff {name s : List Char} (hcolon : ':' ∉ name)
    (hhead : ∃ c ∈ name.head?, c ≠ '[') :
    withoutPort s = name ↔ ∃ port, s = name ++ port ∧ IsPort port := by
  obtain ⟨c, hc, hne⟩ := hhead
  by_cases hs : s.head? = some '['
  · refine iff_of_false (fun heq => hne ?_) ?_
    · rw [← heq, head?_withoutPort hs] at hc
      exact (Option.some.inj hc).symm
    · rintro ⟨port, rfl, -⟩
      rw [List.head?_append, hc] at hs
      exact hne (Option.some.inj hs)
  · have hname : ∀ c ∈ name, decide (c = ':') = false := fun c hc =>
      decide_eq_false fun heq => hcolon (heq ▸ hc)
    rw [withoutPort_of_ne hs, Text.splitFirst_eq_iff]
    refine (and_iff_right hname).trans ?_
    simp only [decide_eq_true_eq, IsPort]

/-- A literal ends with its bracket. -/
theorem withoutPort_literal_eq_iff {literal s : List Char} (h : ']' ∉ literal) :
    withoutPort ('[' :: s) = '[' :: (literal ++ [']']) ↔
      ∃ port, s = literal ++ ']' :: port ∧ IsPort port := by
  obtain ⟨hl, r, hs, hr⟩ := Text.splitFirst_eq_iff.1 (rfl : splitFirst (· = ']') s = _)
  have hmem : ∀ {l : List Char}, (∀ c ∈ l, decide (c = ']') = false) → ']' ∉ l := fun hl hc =>
    absurd (hl _ hc) (by decide)
  rw [withoutPort]
  generalize splitFirst (· = ']') s = l at hl hs
  subst hs
  rw [List.drop_left]
  constructor
  · intro heq
    have heq := (List.cons.inj heq).2
    cases r with
    | nil =>
      have : ']' ∈ l := by
        have hnil : splitFirst (· = ':') [] = [] := rfl
        rw [hnil, List.append_nil] at heq
        rw [heq]
        simp
      exact absurd this (hmem hl)
    | cons c r =>
      obtain rfl : c = ']' := by simpa using hr c rfl
      rw [Text.splitFirst_eq_takeWhile, List.takeWhile_cons_of_pos (by decide),
        ← Text.splitFirst_eq_takeWhile] at heq
      obtain ⟨rfl, hrest⟩ := Text.split_unique (hmem hl) h heq
      obtain ⟨-, port, rfl, hport⟩ := Text.splitFirst_eq_iff.1 hrest
      exact ⟨_, rfl, fun c hc => by simpa using hport c hc⟩
  · rintro ⟨port, heq, hport⟩
    cases r with
    | nil => exact absurd (heq ▸ (by simp : ']' ∈ literal ++ ']' :: port)) (by simpa using hmem hl)
    | cons c r =>
      obtain rfl : c = ']' := by simpa using hr c rfl
      obtain ⟨rfl, rfl⟩ := Text.split_unique (hmem hl) h heq
      have hnone : splitFirst (· = ':') r = [] :=
        Text.splitFirst_eq_iff.2 ⟨by simp, r, rfl, fun c hc => decide_eq_true (hport c hc)⟩
      rw [Text.splitFirst_eq_takeWhile, List.takeWhile_cons_of_pos (by decide),
        ← Text.splitFirst_eq_takeWhile, hnone]

/-- Behind user information stand a name with the property and perhaps a port. -/
def NamesAfterUserInfo (P : List Char → Prop) (a : List Char) : Prop :=
  ∃ user name port, a = user ++ '@' :: (name ++ port) ∧ '@' ∉ name ++ port ∧ P name ∧ IsPort port

theorem not_namesAfterUserInfo {P : List Char → Prop} {a : List Char} (h : '@' ∉ a) :
    ¬ NamesAfterUserInfo P a := by
  rintro ⟨user, name, port, rfl, -⟩
  exact h (by simp)

/-- The host behind user information, for a property that a port does not hide. -/
theorem host_iff_of_userInfo {P : List Char → Prop} {a : List Char} (h : '@' ∈ a)
    (hP : ∀ {name s}, P name → (withoutPort s = name ↔ ∃ port, s = name ++ port ∧ IsPort port)) :
    P (host a) ↔ NamesAfterUserInfo P a := by
  constructor
  · intro hhost
    obtain ⟨user, s, rfl, hs⟩ := exists_userInfo h
    rw [host, withoutUserInfo_append user hs] at hhost
    obtain ⟨port, heq, hport⟩ := (hP hhost).1 rfl
    exact ⟨user, _, port, by rw [← heq], heq ▸ hs, hhost, hport⟩
  · rintro ⟨user, name, port, rfl, hs, hname, hport⟩
    rwa [host, withoutUserInfo_append user hs, (hP hname).2 ⟨port, rfl, hport⟩]

/-! ## Loopback hosts -/

/-- An address has digits and dots only. -/
theorem isDigit_of_mem_loopbackV4 {name : List Char} (h : isLoopbackV4 name = true) {c : Char}
    (hc : c ∈ name) : c.isDigit = true ∨ c = '.' := by
  by_cases hdot : c = '.'
  · exact .inr hdot
  · obtain ⟨part, hpart, hmem⟩ := Text.mem_field_of_mem (· = '.') hc (decide_eq_false hdot)
    rw [isLoopbackV4, octets?] at h
    split at h
    case isTrue hparts =>
      have hoctet := List.all_eq_true.1 hparts.2 part hpart
      simp only [decOctet, Bool.and_eq_true, List.all_eq_true] at hoctet
      exact .inl (hoctet.1.1.2 c hmem)
    case isFalse => cases h

theorem withoutPort_eq_iff_of_loopback {name s : List Char} (h : isLoopback name = true) :
    withoutPort s = name ↔ ∃ port, s = name ++ port ∧ IsPort port := by
  simp only [isLoopback, Bool.or_eq_true, decide_eq_true_eq] at h
  rcases h with (rfl | rfl) | hv4
  · exact withoutPort_eq_iff (by decide) ⟨'l', rfl, by decide⟩
  · by_cases hs : s.head? = some '['
    · obtain ⟨rest, rfl⟩ : ∃ rest, s = '[' :: rest := by
        cases s with
        | nil => cases hs
        | cons c s => exact ⟨s, by rw [Option.some.inj hs]⟩
      rw [show "[::1]".toList = '[' :: ("::1".toList ++ [']']) from rfl,
        withoutPort_literal_eq_iff (by decide)]
      exact exists_congr fun port => and_congr_left fun _ => by simp
    · refine iff_of_false (fun heq => hs ?_) ?_
      · rw [withoutPort_of_ne hs, Text.splitFirst_eq_iff] at heq
        exact absurd (heq.1 ':' (by decide)) (by decide)
      · rintro ⟨port, rfl, -⟩
        exact hs rfl
  · refine withoutPort_eq_iff (fun hc => ?_) ?_
    · rcases isDigit_of_mem_loopbackV4 hv4 hc with hd | hd <;> exact absurd hd (by decide)
    · cases name with
      | nil => exact absurd hv4 (by decide +kernel)
      | cons c name =>
        refine ⟨c, rfl, fun hc => ?_⟩
        subst hc
        rcases isDigit_of_mem_loopbackV4 hv4 List.mem_cons_self with hd | hd <;>
          exact absurd hd (by decide)

theorem isLoopback_literal {name : List Char} (h : name.head? = some '[') :
    isLoopback name = true ↔ name = "[::1]".toList := by
  refine ⟨fun hname => ?_, fun hname => hname ▸ by decide +kernel⟩
  simp only [isLoopback, Bool.or_eq_true, decide_eq_true_eq] at hname
  rcases hname with (rfl | heq) | hv4
  · cases h
  · exact heq
  · rcases isDigit_of_mem_loopbackV4 hv4 (List.mem_of_mem_head? h) with hd | hd <;>
      exact absurd hd (by decide)

end Uri
