import Wireops.Lib.Strings
import Wireops.Lib.UrlParts

/-!
# The probe of a registry

A registry is asked for `/v2/` with a credential. On a Bearer challenge the
credential is taken to the token service that it names, and the probe is
repeated with the token. What the servers answer is left open, as is what the
parsers of media types, queries and JSON make of it. -/

namespace Wireops.Registry.Probe

open List Lib.Octets Lib.UrlParts
open Lib.Strings (Text cut)
open Lib.Urls (lowerByte)

inductive Authorization where
  | basic (auth : Bytes)
  | bearer (token : Bytes)

structure Request where
  url : Url
  authorization : Option Authorization

/-- An answer: `location` is where it redirects to, and `body` is absent if it cannot be
read. -/
structure Response where
  status : Nat
  challenges : List Text := []
  location : Option Url := none
  body : Option Bytes := some []

/-- A request that has been sent: whether it follows a redirect, and whether the server
need not show a valid certificate. -/
structure Sent where
  request : Request
  followed : Bool
  skipVerify : Bool

/-- The servers answer, or fail to, with regard to all that has been sent. A client that
follows a redirect keeps the credential for some of the hosts. -/
structure Net where
  server : List Sent → Option Response
  keeps : Url → Url → Bool
  maxRedirects : Nat

inductive Decision where
  | follow
  | useLast
  | fail

structure Client where
  checkRedirect : Request → List Request → Decision
  skipVerify : Bool

def redirect (resp : Response) : Option Url :=
  if [301, 302, 303, 307, 308].contains resp.status then resp.location else none

def isWeb (scheme : Bytes) : Bool := scheme = text "http" || scheme = text "https"

section Client

variable (net : Net)

/-- `Client.Do`. It ends with an answer and the URL that was answered. -/
def Client.send (c : Client) : Nat → Bool → Request → List Request → List Sent → Option (Response × Url) × List Sent
  | fuel, followed, req, via, sent =>
    if !isWeb req.url.scheme || req.url.host = [] then (none, sent)
    else
      let sent := sent ++ [⟨req, followed, c.skipVerify⟩]
      match net.server sent with
      | none => (none, sent)
      | some resp =>
        match redirect resp with
        | none => (some (resp, req.url), sent)
        | some location =>
          let next : Request := ⟨location, if net.keeps req.url location then req.authorization else none⟩
          match c.checkRedirect next (req :: via), fuel with
          | .useLast, _ => (some (resp, req.url), sent)
          | .fail, _ => (none, sent)
          | .follow, 0 => (none, sent)
          | .follow, fuel + 1 => c.send fuel true next (req :: via) sent

def request (c : Client) (endpoint : Bytes) (authorization : Authorization) (sent : List Sent) :
    Option (Response × Url) × List Sent :=
  match newRequest endpoint with
  | none => (none, sent)
  | some url => c.send net net.maxRedirects false ⟨url, some authorization⟩ [] sent

end Client

inductive Stage where
  | challenge
  | token
  | verify

inductive Category where
  | network
  | authChallenge
  | authRejected
  | permission
  | unexpected

structure ProbeError where
  stage : Stage
  category : Category
  httpStatus : Nat := 0
  message : String

def checkStatus (stage : Stage) (code : Nat) : Option ProbeError :=
  if code = 200 ∨ code = 404 then none
  else if code = 401 then
    some ⟨stage, .authRejected, code, "authentication rejected (HTTP " ++ toString code ++ ")"⟩
  else if code = 403 then
    some ⟨stage, .permission, code, "authentication rejected (HTTP " ++ toString code ++ ")"⟩
  else some ⟨stage, .unexpected, code, "unexpected response (HTTP " ++ toString code ++ ")"⟩

/-- What the parsers make of a text: the parameters of a media type, empty where
there is none, the values of a query, the two tokens of a token service's
answer; and which texts, not both ASCII, are equal up to case. -/
structure Parsers where
  mediaType : Text → Option (String → Bytes)
  Values : Type
  parseQuery : Bytes → Option Values
  set : Values → String → Bytes → Values
  encode : Values → Bytes
  unmarshal : Bytes → Option (Bytes × Bytes)
  unicodeFold : Bytes → Bytes → Bool

/-- The loop of `bearerParams`: a comma outside of quotes becomes a semicolon. -/
def requote : Bool → Bool → Text → Text
  | _, _, [] => []
  | quoted, true, c :: rest => c :: requote quoted false rest
  | quoted, false, c :: rest =>
    if quoted && c = '\\' then c :: requote quoted true rest
    else
      let quoted := if c = '"' then !quoted else quoted
      (if c = ',' && !quoted then ';' else c) :: requote quoted false rest

section Challenge

variable (parsers : Parsers)

def equalFold (s t : Bytes) : Bool :=
  if s.all (· < 128) && t.all (· < 128) then s.map lowerByte = t.map lowerByte
  else parsers.unicodeFold s t

def bearerParams : List Text → Except ProbeError (Option (String → Bytes))
  | [] => .ok none
  | header :: headers =>
    match cut [' '] (Wireops.Lib.Strings.trimSpace header) with
    | none => bearerParams headers
    | some (scheme, rest) =>
      if scheme.map Char.toLower ≠ "bearer".toList then bearerParams headers
      else
        match parsers.mediaType ("Bearer;".toList ++ requote false false rest) with
        | none => .error ⟨.challenge, .authChallenge, 0, "invalid registry Bearer challenge"⟩
        | some params =>
          if params "realm" = [] then
            .error ⟨.challenge, .authChallenge, 0, "invalid registry Bearer challenge"⟩
          else .ok (some params)

def trustedRealm (probe realm : Url) : Bool :=
  if realm.user.isSome || realm.fragment ≠ [] || realm.host = [] then false
  else if realm.scheme ≠ text "https" && !(probe.scheme = text "http" && realm.scheme = text "http") then false
  else if equalFold parsers probe.host realm.host && probe.scheme = realm.scheme then true
  else
    probe.scheme = text "https" && equalFold parsers probe.host (text "registry-1.docker.io") &&
      realm.scheme = text "https" && equalFold parsers realm.host (text "auth.docker.io") &&
      realm.path = text "/token"

def maxTokenResponse : Nat := 1 <<< 20

def tokenQuery (params : String → Bytes) (query : parsers.Values) : parsers.Values :=
  ["service", "scope"].foldl
    (fun query key => if params key ≠ [] then parsers.set query key (params key) else query) query

def readToken (raw : Bytes) : Except ProbeError Bytes :=
  if raw.length > maxTokenResponse then
    .error ⟨.token, .unexpected, 0, "registry Bearer token response exceeds limit or is unreadable"⟩
  else
    match parsers.unmarshal raw with
    | none => .error ⟨.token, .unexpected, 0, "invalid registry Bearer token response"⟩
    | some (token, accessToken) =>
      let token := if token = [] then accessToken else token
      if token = [] || token.contains (byte '\r') || token.contains (byte '\n') then
        .error ⟨.token, .unexpected, 0, "registry Bearer token response has no valid token"⟩
      else .ok token

def exchange (net : Net) (client : Client) (probe realm : Url) (auth : Bytes) (sent : List Sent) :
    Option ProbeError × List Sent :=
  let bounded : Client :=
    { checkRedirect := fun _ _ => .useLast
      skipVerify := client.skipVerify && equalFold parsers probe.host realm.host }
  match request net bounded realm.toText (.basic auth) sent with
  | (none, sent) => (some ⟨.token, .network, 0, "registry Bearer token request failed"⟩, sent)
  | (some (answer, _), sent) =>
    if answer.status ≠ 200 then
      (some ⟨.token, .authRejected, answer.status,
        "registry Bearer token authentication rejected (HTTP " ++ toString answer.status ++ ")"⟩, sent)
    else
      match answer.body with
      | none =>
        (some ⟨.token, .unexpected, 0, "registry Bearer token response exceeds limit or is unreadable"⟩, sent)
      | some raw =>
        match readToken parsers raw with
        | .error e => (some e, sent)
        | .ok token =>
          match request net bounded probe.toText (.bearer token) sent with
          | (none, sent) => (some ⟨.verify, .network, 0, "registry Bearer verification request failed"⟩, sent)
          | (some (verified, _), sent) => (checkStatus .verify verified.status, sent)

/-- The answer to a probe, which always has a request with a URL. -/
def checkResponse (net : Net) (client : Client) (response : Response) (probe : Url) (auth : Bytes)
    (sent : List Sent) : Option ProbeError × List Sent :=
  if response.status ≠ 401 then (checkStatus .challenge response.status, sent)
  else
    match bearerParams parsers response.challenges with
    | .error e => (some e, sent)
    | .ok none => (checkStatus .challenge response.status, sent)
    | .ok (some params) =>
      match parse (params "realm") with
      | none => (some ⟨.challenge, .authChallenge, 0, "registry Bearer token realm is not trusted"⟩, sent)
      | some realm =>
        if !trustedRealm parsers probe realm then
          (some ⟨.challenge, .authChallenge, 0, "registry Bearer token realm is not trusted"⟩, sent)
        else
          match parsers.parseQuery realm.rawQuery with
          | none => (some ⟨.challenge, .authChallenge, 0, "invalid registry Bearer token realm query"⟩, sent)
          | some query =>
            let realm := { realm with rawQuery := parsers.encode (tokenQuery parsers params query) }
            exchange parsers net client probe realm auth sent

inductive Failure where
  | transport
  | probe (e : ProbeError)

def endpoint (scheme : String) (host : Bytes) : Bytes := text scheme ++ text "://" ++ host ++ text "/v2/"

/-- `checkRegistryAuth` of the worker. The server's `testRegistryConnection`
does the same with the entered credential. -/
def checkRegistryAuth (net : Net) (host auth : Bytes) (insecure : Bool) : Option Failure × List Sent :=
  let client : Client := { checkRedirect := fun _ _ => .useLast, skipVerify := insecure }
  let first := request net client (endpoint "https" host) (.basic auth) []
  let final :=
    if first.1.isNone && insecure then request net client (endpoint "http" host) (.basic auth) first.2
    else first
  match final with
  | (none, sent) => (some .transport, sent)
  | (some (resp, probe), sent) =>
    let checked := checkResponse parsers net client resp probe auth sent
    (checked.1.map .probe, checked.2)

end Challenge

section Goal

variable (parsers : Parsers)

/-- The host is the other one, up to case and a colon without a port. -/
def SameHost (a b : Bytes) : Prop := ∃ h, equalFold parsers a h = true ∧ b = removeEmptyPort h

/-- A token service that a probe may send the credential to. -/
inductive TokenService (probe url : Url) : Prop where
  | origin (hscheme : url.scheme = probe.scheme) (hhost : SameHost parsers probe.host url.host)
  | dockerHub (hprobe : probe.scheme = text "https")
      (hregistry : equalFold parsers probe.host (text "registry-1.docker.io") = true)
      (hscheme : url.scheme = text "https")
      (hhost : ∃ h, equalFold parsers h (text "auth.docker.io") = true ∧ url.host = removeEmptyPort h)
      (hpath : url.path = text "/token")

structure SameUrl (u v : Url) : Prop where
  scheme : v.scheme = u.scheme
  user : v.user = u.user
  host : v.host = u.host
  path : v.path = u.path
  rawQuery : v.rawQuery = u.rawQuery

/-- What is sent after a probe has been answered. -/
structure Follows (auth : Bytes) (probe : Url) (s : Sent) : Prop where
  followed : s.followed = false
  plain : s.request.url.scheme = text "http" → probe.scheme = text "http"
  secret : s.request.authorization = some (.basic auth) ∧ TokenService parsers probe s.request.url ∨
    ∃ token, s.request.authorization = some (.bearer token) ∧ SameUrl probe s.request.url

/-- A probe, over plain HTTP only of a registry that is marked as insecure. -/
structure IsProbe (host auth : Bytes) (insecure : Bool) (s : Sent) : Prop where
  followed : s.followed = false
  secret : s.request.authorization = some (.basic auth)
  url : newRequest (endpoint "https" host) = some s.request.url ∨
    insecure = true ∧ newRequest (endpoint "http" host) = some s.request.url

/-- The probes come first, and what is sent later goes by the last of them. -/
def Contained (host auth : Bytes) (insecure : Bool) (sent : List Sent) : Prop :=
  ∃ probes rest, sent = probes ++ rest ∧ (∀ s ∈ probes, IsProbe host auth insecure s) ∧
    ∀ s ∈ rest, ∃ probe ∈ probes.getLast?, Follows parsers auth probe.request.url s

end Goal

section Sending

variable {net : Net} {c : Client}

theorem send_cases (hc : ∀ next via, c.checkRedirect next via = .useLast) (fuel : Nat) (req : Request)
    (via : List Request) (sent : List Sent) : c.send net fuel false req via sent = (none, sent) ∨
      (isWeb req.url.scheme = true ∧ req.url.host ≠ []) ∧ ∃ answer, c.send net fuel false req via sent =
        (answer, sent ++ [⟨req, false, c.skipVerify⟩]) ∧ ∀ r ∈ answer, r.2 = req.url := by
  unfold Client.send
  split
  · exact .inl rfl
  rename_i hweb
  rw [Bool.or_eq_true, not_or, Bool.not_eq_true', Bool.not_eq_false, decide_eq_true_eq] at hweb
  refine .inr ⟨hweb, ?_⟩
  dsimp only
  split
  · exact ⟨none, rfl, by simp⟩
  rename_i resp _
  split
  · exact ⟨_, rfl, by simp⟩
  · rw [hc]
    exact ⟨_, rfl, by simp⟩

theorem request_cases (hc : ∀ next via, c.checkRedirect next via = .useLast) (url : Bytes) (a : Authorization)
    (sent : List Sent) : request net c url a sent = (none, sent) ∨
      ∃ u, newRequest url = some u ∧ (isWeb u.scheme = true ∧ u.host ≠ []) ∧ ∃ answer,
        request net c url a sent = (answer, sent ++ [⟨⟨u, some a⟩, false, c.skipVerify⟩]) ∧
          ∀ r ∈ answer, r.2 = u := by
  unfold request
  cases hu : newRequest url with
  | none => exact .inl rfl
  | some u =>
    rcases send_cases hc net.maxRedirects ⟨u, some a⟩ [] sent with hnone | ⟨hweb, hsend⟩
    · exact .inl hnone
    · exact .inr ⟨u, rfl, hweb, hsend⟩

theorem isWeb_iff {scheme : Bytes} : isWeb scheme = true ↔ scheme = text "http" ∨ scheme = text "https" := by
  simp [isWeb]

end Sending

section Checking

variable {parsers : Parsers} {net : Net} {client : Client} {probe realm : Url} {auth : Bytes} {sent : List Sent}

/-- What a trusted realm is like. -/
structure Trusted (parsers : Parsers) (probe realm : Url) : Prop where
  host : realm.host ≠ []
  scheme : realm.scheme = text "https" ∨ probe.scheme = text "http" ∧ realm.scheme = text "http"
  service : equalFold parsers probe.host realm.host = true ∧ probe.scheme = realm.scheme ∨
    probe.scheme = text "https" ∧ equalFold parsers probe.host (text "registry-1.docker.io") = true ∧
      realm.scheme = text "https" ∧ equalFold parsers realm.host (text "auth.docker.io") = true ∧
      realm.path = text "/token"

theorem trusted_of_trustedRealm (h : trustedRealm parsers probe realm = true) : Trusted parsers probe realm := by
  unfold trustedRealm at h
  split at h
  · cases h
  rename_i hshape
  split at h
  · cases h
  rename_i hscheme
  have hhost : realm.host ≠ [] := by
    intro hnil
    exact hshape (by simp [hnil])
  have hschemes : realm.scheme = text "https" ∨ probe.scheme = text "http" ∧ realm.scheme = text "http" := by
    by_contra hnot
    rw [not_or, not_and_or] at hnot
    exact hscheme (by simpa using hnot)
  split at h
  · rename_i hsame
    exact ⟨hhost, hschemes, .inl (by simpa using hsame)⟩
  · simp only [Bool.and_eq_true, decide_eq_true_eq] at h
    obtain ⟨⟨⟨⟨hprobe, hregistry⟩, hrealm⟩, hauth⟩, hpath⟩ := h
    exact ⟨hhost, hschemes, .inr ⟨hprobe, hregistry, hrealm, hauth, hpath⟩⟩

theorem Trusted.sound {raw : Bytes} (h : Trusted parsers probe realm) (hparse : parse raw = some realm) :
    Sound realm := by
  refine (sound_of_parse hparse ?_ h.host).1
  rcases h.scheme with hscheme | ⟨-, hscheme⟩
  · exact .inr hscheme
  · exact .inl hscheme

theorem Trusted.follows {url : Url} (h : Trusted parsers probe realm) (hrealm : Sound realm)
    (hurl : newRequest realm.toText = some url) (auth : Bytes) (skipVerify : Bool) :
    Follows parsers auth probe ⟨⟨url, some (.basic auth)⟩, false, skipVerify⟩ := by
  obtain ⟨⟨hscheme, -, hhost, hpath⟩, -⟩ := newRequest_toText hrealm hurl
  refine ⟨rfl, ?_, .inl ⟨rfl, ?_⟩⟩
  · intro hplain
    rcases h.scheme with hs | hs
    · rw [hscheme, hs] at hplain
      exact absurd hplain (by decide)
    · exact hs.1
  · rcases h.service with ⟨hsame, hs⟩ | ⟨hprobe, hregistry, hs, hauth, hp⟩
    · exact .origin (hscheme.trans hs.symm) ⟨realm.host, hsame, hhost⟩
    · exact .dockerHub hprobe hregistry (hscheme.trans hs) ⟨realm.host, hauth, hhost⟩ (hpath.trans hp)

structure Probed (u : Url) : Prop where
  sound : Sound u
  query : byte '#' ∉ u.rawQuery
  port : removeEmptyPort u.host = u.host

theorem Probed.follows {url : Url} (h : Probed probe) (hurl : newRequest probe.toText = some url)
    (parsers : Parsers) (auth token : Bytes) (skipVerify : Bool) :
    Follows parsers auth probe ⟨⟨url, some (.bearer token)⟩, false, skipVerify⟩ := by
  obtain ⟨⟨hscheme, huser, hhost, hpath⟩, hquery⟩ := newRequest_toText h.sound hurl
  exact ⟨rfl, fun hplain => hscheme.symm.trans hplain,
    .inr ⟨token, rfl, hscheme, huser, hhost.trans h.port, hpath, hquery h.query⟩⟩

theorem exchange_follows (hprobe : Probed probe) (hrealm : Sound realm) (htrusted : Trusted parsers probe realm) :
    ∃ rest, (exchange parsers net client probe realm auth sent).2 = sent ++ rest ∧
      ∀ s ∈ rest, Follows parsers auth probe s := by
  unfold exchange
  dsimp only
  generalize hbounded : (Client.mk (fun _ _ => Decision.useLast)
    (client.skipVerify && equalFold parsers probe.host realm.host)) = bounded
  have hpolicy : ∀ next via, bounded.checkRedirect next via = .useLast := by
    rw [← hbounded]
    exact fun _ _ => rfl
  obtain hnone | ⟨u, hu, -, answer, hsend, -⟩ := @request_cases net bounded hpolicy realm.toText (.basic auth) sent
  · rw [hnone]
    exact ⟨[], (append_nil _).symm, by simp⟩
  have hfirst := htrusted.follows hrealm hu auth bounded.skipVerify
  have hone : ∃ rest, sent ++ [⟨⟨u, some (.basic auth)⟩, false, bounded.skipVerify⟩] = sent ++ rest ∧
      ∀ s ∈ rest, Follows parsers auth probe s := ⟨_, rfl, forall_mem_singleton.mpr hfirst⟩
  rw [hsend]
  -- Every way out leaves the token request as the last one, but for that with a token.
  cases answer with
  | none => exact hone
  | some r =>
    dsimp only
    split
    · exact hone
    split
    · exact hone
    split
    · exact hone
    rename_i token _
    obtain hnone | ⟨v, hv, -, answer, hsend, -⟩ := @request_cases net bounded hpolicy probe.toText (.bearer token)
      (sent ++ [⟨⟨u, some (.basic auth)⟩, false, bounded.skipVerify⟩])
    · rw [hnone]
      exact hone
    · have hsecond := hprobe.follows hv parsers auth token bounded.skipVerify
      rw [hsend]
      cases answer with
      | none | some => exact ⟨_, append_assoc .., by simpa using ⟨hfirst, hsecond⟩⟩

theorem checkResponse_follows {response : Response} (hprobe : Probed probe) :
    ∃ rest, (checkResponse parsers net client response probe auth sent).2 = sent ++ rest ∧
      ∀ s ∈ rest, Follows parsers auth probe s := by
  have hnothing : ∃ rest, sent = sent ++ rest ∧ ∀ s ∈ rest, Follows parsers auth probe s :=
    ⟨[], (append_nil _).symm, by simp⟩
  unfold checkResponse
  split
  · exact hnothing
  split
  · exact hnothing
  · exact hnothing
  split
  · exact hnothing
  rename_i realm hparse
  split
  · exact hnothing
  rename_i htrusted
  rw [Bool.not_eq_true', Bool.not_eq_false] at htrusted
  split
  · exact hnothing
  · have htrusted := trusted_of_trustedRealm htrusted
    have hsound := htrusted.sound hparse
    -- The query that is set does not change where the realm lies.
    exact exchange_follows hprobe { hsound with }
      { htrusted with }

structure Probing (host auth : Bytes) (insecure : Bool) (r : Option (Response × Url) × List Sent) : Prop where
  probes : ∀ s ∈ r.2, IsProbe host auth insecure s
  answered : ∀ x ∈ r.1, ∃ p ∈ r.2.getLast?, p.request.url = x.2 ∧ Probed x.2

theorem probing_request {host : Bytes} {insecure : Bool} {url : Bytes} {c : Client}
    (hc : ∀ next via, c.checkRedirect next via = .useLast)
    (hurl : url = endpoint "https" host ∨ insecure = true ∧ url = endpoint "http" host)
    (hsent : ∀ s ∈ sent, IsProbe host auth insecure s) :
    Probing host auth insecure (request net c url (.basic auth) sent) := by
  obtain hnone | ⟨u, hu, ⟨hweb, hhost⟩, answer, hsend, hanswer⟩ := @request_cases net c hc url (.basic auth) sent
  · rw [hnone]
    exact ⟨hsent, by simp⟩
  · obtain ⟨hsound, hquery, hport⟩ := newRequest_sound hu (isWeb_iff.mp hweb) hhost
    have hprobe : IsProbe host auth insecure ⟨⟨u, some (.basic auth)⟩, false, c.skipVerify⟩ := by
      refine ⟨rfl, rfl, ?_⟩
      rcases hurl with rfl | ⟨hinsecure, rfl⟩
      · exact .inl hu
      · exact .inr ⟨hinsecure, hu⟩
    rw [hsend]
    refine ⟨forall_mem_append.mpr ⟨hsent, forall_mem_singleton.mpr hprobe⟩, ?_⟩
    intro x hx
    refine ⟨_, List.getLast?_concat, (hanswer x hx).symm, ?_⟩
    rw [hanswer x hx]
    exact ⟨hsound, hquery, hport⟩

end Checking

theorem credentials_contained (parsers : Parsers) (net : Net) (host auth : Bytes) (insecure : Bool) :
    Contained parsers host auth insecure (checkRegistryAuth parsers net host auth insecure).2 := by
  unfold checkRegistryAuth
  dsimp only
  generalize hclient : Client.mk (fun _ _ => Decision.useLast) insecure = client
  have hpolicy : ∀ next via, client.checkRedirect next via = .useLast := by
    rw [← hclient]
    exact fun _ _ => rfl
  have hfirst : Probing host auth insecure (request net client (endpoint "https" host) (.basic auth) []) :=
    probing_request hpolicy (.inl rfl) (by simp)
  have hfinal : Probing host auth insecure
      (if (request net client (endpoint "https" host) (.basic auth) []).1.isNone && insecure then
        request net client (endpoint "http" host) (.basic auth)
          (request net client (endpoint "https" host) (.basic auth) []).2
      else request net client (endpoint "https" host) (.basic auth) []) := by
    split
    · rename_i hretry
      exact probing_request hpolicy (.inr ⟨(Bool.and_eq_true_iff.mp hretry).2, rfl⟩) hfirst.probes
    · exact hfirst
  split
  · rename_i sent hsent
    rw [hsent] at hfinal
    exact ⟨sent, [], (append_nil _).symm, hfinal.probes, by simp⟩
  · rename_i resp probe sent hsent
    rw [hsent] at hfinal
    obtain ⟨p, hp, hurl, hprobed⟩ := hfinal.answered (resp, probe) rfl
    obtain ⟨rest, hrest, hfollows⟩ := @checkResponse_follows parsers net client probe auth sent resp hprobed
    refine ⟨sent, rest, hrest, hfinal.probes, ?_⟩
    intro s hs
    refine ⟨p, hp, ?_⟩
    rw [hurl]
    exact hfollows s hs

end Wireops.Registry.Probe
