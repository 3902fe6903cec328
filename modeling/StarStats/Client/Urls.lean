import StarStats.Lib.Uri

/-!
# Addresses for secrets (`starstats-client/src/commands.rs`, `org_connector.rs`)

`validate_pair_url` guards where the pairing code is sent, `build_ws_url` where the org credential
is. Both look for a local host by hand in an address that a user typed. What a client makes of the
address is `Uri.host?`.

* `validatePairUrl_local_iff`, `buildWsUrl_loopback_iff`: which of the plaintext addresses that they
  let through name a local host.
-/

namespace StarStats.Urls

open Text (splitFirst)
open Uri (IsPort NamesAfterUserInfo)

/-! ## Pairing -/

/-- `strip_prefix`. -/
def stripped (start : String) (s : List Char) : Option (List Char) :=
  if start.toList.isPrefixOf s then some (s.drop start.toList.length) else none

def localHosts : List (List Char) := ["localhost".toList, "127.0.0.1".toList]

def validatePairUrl (apiUrl : String) : Except String Unit :=
  match stripped "https://" apiUrl.toList with
  | some rest => if rest.isEmpty then .error "API URL must include a host" else .ok ()
  | none =>
    match stripped "http://" apiUrl.toList with
    | some rest =>
      let host := splitFirst (· = '/') rest
      let hostOnly := splitFirst (· = ':') host
      if hostOnly ∈ localHosts then .ok ()
      else .error "API URL must be https:// (http:// is only allowed for localhost)"
    | none => .error "API URL must start with https:// (or http://localhost for dev)"

/-- The pairing code goes out encrypted or stays on the machine. -/
def KeepsCode (apiUrl : String) : Prop :=
  Uri.scheme apiUrl.toList = "https".toList ∨ ∃ host ∈ Uri.host? apiUrl.toList, host ∈ localHosts

instance (apiUrl : String) : Decidable (KeepsCode apiUrl) := inferInstanceAs (Decidable (_ ∨ _))

/-- The authority has no user information, or a local name behind it. -/
def NoUserInfo (apiUrl : String) : Prop :=
  ∀ authority ∈ Uri.authority? apiUrl.toList,
    '@' ∉ authority ∨ NamesAfterUserInfo (· ∈ localHosts) authority

theorem eq_of_stripped {start : String} {s rest : List Char} (h : stripped start s = some rest) :
    s = start.toList ++ rest := by
  rw [stripped] at h
  split at h
  case isTrue hpre =>
    obtain ⟨r, rfl⟩ := List.isPrefixOf_iff_prefix.1 hpre
    rw [← Option.some.inj h, List.drop_left]
  case isFalse => cases h

/-- What was accepted is encrypted or starts with a local name. -/
theorem accepted_cases {apiUrl : String} (h : validatePairUrl apiUrl = .ok ()) :
    (∃ rest, apiUrl.toList = "https://".toList ++ rest) ∨
      ∃ name ∈ localHosts, ∃ rest, apiUrl.toList = "http://".toList ++ (name ++ rest) ∧
        ∀ c ∈ rest.head?, c = ':' ∨ c = '/' := by
  rw [validatePairUrl] at h
  split at h
  case h_1 rest hrest => exact .inl ⟨rest, eq_of_stripped hrest⟩
  case h_2 =>
    split at h
    case h_1 rest hrest =>
      dsimp only at h
      split at h
      case isTrue hname =>
        obtain ⟨-, r, hr, hslash⟩ := Text.splitFirst_eq_iff.1 (rfl : splitFirst (· = '/') rest = _)
        obtain ⟨-, q, hq, hcolon⟩ := Text.splitFirst_eq_iff.1
          (rfl : splitFirst (· = ':') (splitFirst (· = '/') rest) = _)
        refine .inr ⟨_, hname, q ++ r, ?_, fun c hc => ?_⟩
        · rw [← List.append_assoc (splitFirst _ _), ← hq, ← hr]
          exact eq_of_stripped hrest
        · cases q with
          | nil => exact .inr (by simpa using hslash c hc)
          | cons d q => exact .inl (by simpa using hcolon c hc)
      case isFalse => cases h
    case h_2 => cases h

theorem loopback_of_local {name : List Char} (h : name ∈ localHosts) :
    Uri.isLoopback name = true := by
  have hall : localHosts.all Uri.isLoopback = true := by decide
  exact List.all_eq_true.1 hall name h

theorem not_endsAuthority_of_local {name : List Char} (h : name ∈ localHosts) :
    ∀ c ∈ name, Uri.endsAuthority c = false := by
  have hall : localHosts.all (·.all fun c => !Uri.endsAuthority c && c != '@') = true := by
    decide
  intro c hc
  have := List.all_eq_true.1 (List.all_eq_true.1 hall name h) c hc
  simp only [Bool.and_eq_true, Bool.not_eq_true'] at this
  exact this.1

/-- An accepted address is encrypted or has an authority that a local name and a colon start. -/
theorem accepted_authority {apiUrl : String} (h : validatePairUrl apiUrl = .ok ()) :
    Uri.scheme apiUrl.toList = "https".toList ∨
      Uri.scheme apiUrl.toList ≠ "https".toList ∧ ∃ name ∈ localHosts, ∃ port, IsPort port ∧
        Uri.authority? apiUrl.toList = some (name ++ port) := by
  rcases accepted_cases h with ⟨rest, heq⟩ | ⟨name, hname, rest, heq, hrest⟩
  · left
    rw [heq, show "https://".toList ++ rest = "https".toList ++ ':' :: '/' :: '/' :: rest from rfl]
    exact Uri.scheme_append (by decide) _
  · rw [heq, show "http://".toList ++ (name ++ rest) =
      "http".toList ++ ':' :: '/' :: '/' :: (name ++ rest) from rfl]
    rw [Uri.scheme_append (by decide), Uri.authority?_append (by decide),
      Text.splitFirst_append (not_endsAuthority_of_local hname)]
    refine .inr ⟨by decide, name, hname, _, fun c hc => ?_, rfl⟩
    cases rest with
    | nil => cases hc
    | cons d rest =>
      rcases hrest d rfl with rfl | rfl
      · rw [Text.splitFirst_eq_takeWhile, List.takeWhile_cons_of_pos (by decide)] at hc
        exact (Option.some.inj hc).symm
      · rw [Text.splitFirst_eq_takeWhile, List.takeWhile_cons_of_neg (by decide)] at hc
        cases hc

/-- An accepted plaintext address names a local host unless user information hides another. -/
theorem validatePairUrl_local_iff {apiUrl : String} (h : validatePairUrl apiUrl = .ok ()) :
    KeepsCode apiUrl ↔ Uri.scheme apiUrl.toList = "https".toList ∨ NoUserInfo apiUrl := by
  rcases accepted_authority h with hscheme | ⟨hscheme, name, hname, port, hport, ha⟩
  · exact iff_of_true (.inl hscheme) (.inl hscheme)
  refine or_congr_right ?_
  have hlocal : ∀ {name s}, name ∈ localHosts →
      (Uri.withoutPort s = name ↔ ∃ port, s = name ++ port ∧ IsPort port) := fun hname =>
    Uri.withoutPort_eq_iff_of_loopback (loopback_of_local hname)
  simp only [NoUserInfo, Uri.host?, ha, Option.map_some, Option.mem_some_iff, exists_eq_left',
    forall_eq']
  by_cases hat : '@' ∈ name ++ port
  · rw [Uri.host_iff_of_userInfo hat hlocal]
    exact ⟨.inr, fun h => h.resolve_left (not_not_intro hat)⟩
  · refine iff_of_true ?_ (.inl hat)
    rw [Uri.host, Uri.withoutUserInfo_of_not_mem hat, (hlocal hname).2 ⟨port, rfl, hport⟩]
    exact hname

theorem validatePairUrl_local_port : KeepsCode "http://localhost:3000/api" := by
  refine (validatePairUrl_local_iff (by decide +kernel)).2 (.inr fun a ha => .inl ?_)
  have hall : (Uri.authority? "http://localhost:3000/api".toList).all ('@' ∉ ·) = true := by
    decide +kernel
  simpa using (Option.all_eq_true _ _).1 hall a ha

/-- The name before the colon is a user's. -/
theorem validatePairUrl_leaks :
    ¬ ∀ apiUrl, validatePairUrl apiUrl = .ok () → KeepsCode apiUrl := by
  intro h
  exact absurd (h "http://localhost:x@example.com/api" (by decide +kernel)) (by decide +kernel)

/-! ## The org channel -/

inductive WsScheme where
  | ws
  | wss
  deriving DecidableEq

def WsScheme.text : WsScheme → String
  | .ws => "ws"
  | .wss => "wss"

/-- `platform_url.trim().trim_end_matches('/')`. -/
def trimmedUrl (platformUrl : String) : List Char :=
  ((Text.trim platformUrl).toList.reverse.dropWhile (· = '/')).reverse

/-- The scheme that is written before `://`, if one is, and what follows; `none` for an unknown
one. -/
def splitScheme (trimmed : List Char) : Option (Option WsScheme × List Char) :=
  match Text.splitOnce "://".toList trimmed with
  | some (scheme, rest) =>
    if scheme = "http".toList then some (some .ws, rest)
    else if scheme = "https".toList then some (some .wss, rest)
    else if scheme = "ws".toList then some (some .ws, rest)
    else if scheme = "wss".toList then some (some .wss, rest)
    else none
  | none => some (none, trimmed)

/-- `rest.split(['/', '?', '#']).next()`. -/
def authorityOf (rest : List Char) : List Char :=
  splitFirst (fun c => c = '/' ∨ c = '?' ∨ c = '#') rest

def hostOf (authority : List Char) : List Char :=
  match authority with
  | '[' :: afterBracket => splitFirst (· = ']') afterBracket
  | _ => splitFirst (· = ':') authority

def isLoopback (host : List Char) : Bool :=
  host = "localhost".toList || host = "::1".toList || "127.".toList.isPrefixOf host

/-- A scheme that is written wins. -/
def chosenScheme (explicit : Option WsScheme) (loopback : Bool) : WsScheme :=
  explicit.getD (if loopback then .ws else .wss)

def buildWsUrl (platformUrl : String) : Option String :=
  let trimmed := trimmedUrl platformUrl
  if trimmed.isEmpty then none
  else
    match splitScheme trimmed with
    | none => none
    | some (explicit, rest) =>
      let authority := authorityOf rest
      if authority.isEmpty then none
      else
        let loopback := isLoopback (hostOf authority)
        let scheme := chosenScheme explicit loopback
        if scheme = .ws ∧ !loopback then none
        else some (scheme.text ++ "://" ++ String.ofList authority ++ "/ws/member")

/-- The authority of the address as it was typed. -/
def platformAuthority (platformUrl : String) : List Char :=
  ((splitScheme (trimmedUrl platformUrl)).map fun typed => authorityOf typed.2).getD []

/-- What a plaintext connection to the URL reaches is on the machine. -/
def StaysLocal (url : String) : Prop :=
  ∃ host ∈ Uri.host? url.toList, Uri.isLoopback host = true

instance (url : String) : Decidable (StaysLocal url) :=
  inferInstanceAs (Decidable (∃ _ ∈ _, _))

/-- No user information, in brackets `::1` alone, and behind `127.` the rest of an address. -/
structure PlainAuthority (authority : List Char) : Prop where
  noUser : '@' ∉ authority
  literal : authority.head? = some '[' →
    ∃ port, authority = "[::1]".toList ++ port ∧ IsPort port
  address : "127.".toList <+: authority → Uri.isLoopbackV4 (hostOf authority) = true

theorem authorityOf_eq (rest : List Char) : authorityOf rest = splitFirst Uri.endsAuthority rest :=
  congrArg (splitFirst · rest) (funext fun c => by
    simp [Uri.endsAuthority, Bool.decide_or, Bool.or_assoc])

/-- A plaintext URL is built of an authority whose host looked local. -/
theorem built_cases {platformUrl url : String} (h : buildWsUrl platformUrl = some url)
    (hws : "ws://".toList <+: url.toList) :
    url.toList = "ws".toList ++ ':' :: '/' :: '/' ::
        (platformAuthority platformUrl ++ "/ws/member".toList) ∧
      isLoopback (hostOf (platformAuthority platformUrl)) = true := by
  rw [buildWsUrl] at h
  dsimp only at h
  split at h
  · cases h
  split at h
  · cases h
  case h_2 explicit rest htyped =>
    have hauthority : platformAuthority platformUrl = authorityOf rest := by
      rw [platformAuthority, htyped]
      rfl
    rw [hauthority]
    split at h
    · cases h
    split at h
    · cases h
    case isFalse hrefused =>
      have hurl := Option.some.inj h
      cases hscheme : chosenScheme explicit (isLoopback (hostOf (authorityOf rest))) with
      | wss =>
        rw [hscheme] at hurl
        rw [← hurl] at hws
        simp [WsScheme.text] at hws
      | ws =>
        rw [hscheme] at hurl hrefused
        refine ⟨?_, by simpa using hrefused⟩
        rw [← hurl]
        simp [WsScheme.text]

theorem not_endsAuthority_of_mem {rest : List Char} {c : Char} (hc : c ∈ authorityOf rest) :
    Uri.endsAuthority c = false := by
  rw [authorityOf_eq] at hc
  exact (Text.splitFirst_eq_iff.1 (rfl : splitFirst Uri.endsAuthority rest = _)).1 c hc

theorem host?_built {platformUrl url : String} (h : buildWsUrl platformUrl = some url)
    (hws : "ws://".toList <+: url.toList) :
    Uri.host? url.toList = some (Uri.host (platformAuthority platformUrl)) := by
  have hends : ∀ c ∈ platformAuthority platformUrl, Uri.endsAuthority c = false := by
    intro c hc
    cases htyped : splitScheme (trimmedUrl platformUrl) with
    | none => simp [platformAuthority, htyped] at hc
    | some typed =>
      rw [platformAuthority, htyped] at hc
      exact not_endsAuthority_of_mem hc
  rw [Uri.host?, (built_cases h hws).1, Uri.authority?_append (by decide),
    Text.splitFirst_append hends]
  have hpath : splitFirst Uri.endsAuthority "/ws/member".toList = [] := by decide
  rw [hpath, List.append_nil]
  rfl

/-- The host that the guard looks at is a name, unless it stands in brackets. -/
theorem hostOf_eq {authority : List Char} (h : authority.head? ≠ some '[') :
    hostOf authority = splitFirst (· = ':') authority := by
  unfold hostOf
  split
  · exact absurd rfl h
  · rfl

/-- Without user information the guard is wrong about other literals and other names. -/
theorem plainAuthority_iff {authority : List Char} (hat : '@' ∉ authority)
    (hguard : isLoopback (hostOf authority) = true) :
    Uri.isLoopback (Uri.host authority) = true ↔ PlainAuthority authority := by
  rw [Uri.host, Uri.withoutUserInfo_of_not_mem hat]
  by_cases hbracket : authority.head? = some '['
  · rw [Uri.isLoopback_literal (Uri.head?_withoutPort hbracket),
      Uri.withoutPort_eq_iff_of_loopback (by decide)]
    refine ⟨fun hport => ⟨hat, fun _ => hport, fun hdigits => ?_⟩, fun h => h.literal hbracket⟩
    obtain ⟨r, rfl⟩ := hdigits
    cases hbracket
  · obtain ⟨hcolon, r, hr, -⟩ := Text.splitFirst_eq_iff.1 (hostOf_eq hbracket).symm
    rw [Uri.withoutPort_of_ne hbracket, ← hostOf_eq hbracket]
    simp only [isLoopback, Bool.or_eq_true, decide_eq_true_eq, List.isPrefixOf_iff_prefix] at hguard
    rcases hguard with (hname | hname) | hname
    · rw [hname] at hr ⊢
      refine iff_of_true (by decide) ⟨hat, fun h => absurd h hbracket, fun hdigits => ?_⟩
      rw [hr] at hdigits
      simp at hdigits
    · rw [hname] at hcolon
      exact absurd (hcolon ':' (by decide)) (by decide)
    · have hv4 : Uri.isLoopback (hostOf authority) = Uri.isLoopbackV4 (hostOf authority) := by
        obtain ⟨rest, heq⟩ := hname
        rw [← heq]
        simp [Uri.isLoopback]
      rw [hv4]
      exact ⟨fun h => ⟨hat, fun hb => absurd hb hbracket, fun _ => h⟩, fun h =>
        h.address (hname.trans ⟨r, hr.symm⟩)⟩

/-- A plaintext URL that is built names a loopback host exactly when the address has no user
information and its host is written as one, or when the name behind the user information is one. -/
theorem buildWsUrl_loopback_iff {platformUrl url : String} (h : buildWsUrl platformUrl = some url)
    (hws : "ws://".toList <+: url.toList) :
    StaysLocal url ↔ PlainAuthority (platformAuthority platformUrl) ∨
      NamesAfterUserInfo (Uri.isLoopback · = true) (platformAuthority platformUrl) := by
  simp only [StaysLocal, host?_built h hws, Option.mem_some_iff, exists_eq_left']
  by_cases hat : '@' ∈ platformAuthority platformUrl
  · rw [Uri.host_iff_of_userInfo hat Uri.withoutPort_eq_iff_of_loopback]
    exact ⟨.inr, fun h => h.resolve_left fun hplain => hplain.noUser hat⟩
  · rw [plainAuthority_iff hat (built_cases h hws).2]
    exact ⟨.inl, fun h => h.resolve_right (Uri.not_namesAfterUserInfo hat)⟩

theorem buildWsUrl_loopback_port : StaysLocal "ws://127.0.0.1:8080/ws/member" := by
  have hbuilt : buildWsUrl "http://127.0.0.1:8080" = some "ws://127.0.0.1:8080/ws/member" := by
    decide +kernel
  refine (buildWsUrl_loopback_iff hbuilt ⟨"127.0.0.1:8080/ws/member".toList, by decide⟩).2
    (.inl ⟨by decide +kernel, ?_, fun _ => by decide +kernel⟩)
  have hhead : (platformAuthority "http://127.0.0.1:8080").head? = some '1' := by decide +kernel
  rw [hhead]
  intro h
  cases h

/-- A name that starts like an address. -/
theorem buildWsUrl_leaks :
    ¬ ∀ platformUrl url, buildWsUrl platformUrl = some url → "ws://".toList <+: url.toList →
      StaysLocal url := by
  intro h
  exact absurd (h "ws://127.example.com" "ws://127.example.com/ws/member" (by decide +kernel)
    ⟨"127.example.com/ws/member".toList, by decide⟩) (by decide +kernel)

end StarStats.Urls
