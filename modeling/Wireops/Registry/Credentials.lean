import Wireops.Lib.Base64
import Wireops.Lib.Rows
import Wireops.Registry.Hosts

/-!
# The Docker auth of a deploy

The credentials for the config's registry hosts are decrypted and sent along
with the deploy. The scan of the table stops at the first row that cannot be
used and at the second row for one host. -/

namespace Wireops.Registry.Credentials

open List Lib Lib.Flow Lib.Octets Lib.Rows Registry.Hosts
open Lib.Strings (Text)
open Policy.Compose (Value)

structure Record where
  registryHost : Bytes := []
  registryURL : Bytes
  username : Bytes
  password : Bytes
  insecure : Bool := false

/-- How the lookup of the collection ends. -/
inductive Lookup where
  | found
  | noRows
  | failed

/-- The database, what of it can be read, and the decryption under the secret key, if
the key has the right length. -/
structure App where
  collection : Lookup
  credentials : Table Record
  rows_of_noRows : collection = .noRows → credentials.rows = []
  listed : Bool
  readable : Nat → Bool
  decrypt : Option (Bytes → Option Bytes)

structure Credential where
  id : Nat
  registryURL : Bytes
  username : Bytes
  password : Bytes
  insecure : Bool

inductive LoadError where
  | find
  | secretKey
  | decrypt
  deriving DecidableEq

inductive AuthError where
  | hosts (e : HostsError)
  | collection
  | list
  | duplicate (host : Bytes)
  | load (host : Bytes) (e : LoadError)
  | build (host : Bytes) (id : Nat)
  | mismatch (host credentialHost : Bytes)
  deriving DecidableEq

def loadCredentialByID (app : App) (id : Nat) : Except LoadError Credential :=
  match app.credentials.rows.find? (fun r => r.id = id) with
  | none => .error .find
  | some r =>
    if app.readable id then
      match app.decrypt with
      | none => .error .secretKey
      | some decrypt =>
        match (if r.val.password = [] then some [] else decrypt r.val.password) with
        | none => .error .decrypt
        | some password =>
          .ok { id, registryURL := r.val.registryURL, username := r.val.username, password
                insecure := r.val.insecure }
    else .error .find

section Build

variable (unicodeLower : Bytes → Bytes)

def buildAuthEntry (cred : Credential) : Except Nat (Bytes × Bytes) :=
  let host := normalizeRegistryHost unicodeLower cred.registryURL
  if host = [] then .error cred.id
  else .ok (host, Base64.encode (cred.username ++ byte ':' :: cred.password))

def recordHost (r : Record) : Bytes :=
  let host := normalizeRegistryHost unicodeLower r.registryHost
  if host = [] then normalizeRegistryHost unicodeLower r.registryURL else host

structure Scan where
  entries : List (Bytes × Bytes) := []
  matched : List Bytes := []
  insecure : List Bytes := []

def setEntry (key auth : Bytes) (entries : List (Bytes × Bytes)) : List (Bytes × Bytes) :=
  (key, auth) :: entries.filter (fun e => e.1 ≠ key)

variable (app : App) (wanted : List Bytes)

def scanRecord (st : Scan) (r : Row Record) : Except AuthError Scan :=
  let host := recordHost unicodeLower r.val
  if host ∉ wanted then .ok st
  else if host ∈ st.matched then .error (.duplicate host)
  else
    match loadCredentialByID app r.id with
    | .error e => .error (.load host e)
    | .ok cred =>
      match buildAuthEntry unicodeLower cred with
      | .error id => .error (.build host id)
      | .ok (credentialHost, auth) =>
        if credentialHost ≠ host then .error (.mismatch host credentialHost)
        else
          .ok { entries := setEntry (dockerAuthConfigKey unicodeLower host) auth st.entries
                matched := host :: st.matched
                insecure := if cred.insecure then host :: st.insecure else st.insecure }

def scan : List (Row Record) → Scan → Except AuthError Scan
  | [], st => .ok st
  | r :: rows, st => do
    let st ← scanRecord unicodeLower app wanted st r
    scan rows st

/-- The auths of the Docker config, if there is one, and the insecure hosts. -/
structure RegistryAuth where
  auths : Option (List (Bytes × Bytes)) := none
  insecureHosts : List Bytes := []
  deriving DecidableEq

def buildDockerAuthForHosts (hosts : List Bytes) : Except AuthError RegistryAuth :=
  let wanted := (hosts.map (normalizeRegistryHost unicodeLower)).filter (· ≠ [])
  if wanted = [] then .ok {}
  else
    match app.collection with
    | .noRows => .ok {}
    | .failed => .error .collection
    | .found =>
      if app.listed then do
        let st ← scan unicodeLower app wanted app.credentials.rows {}
        return if st.entries = [] then {}
          else ⟨some st.entries, st.insecure.insertionSort (· ≤ ·)⟩
      else .error .list

def resolveRegistryAuth (packages : Packages) (content : Bytes) (envVars : List Text) :
    Except AuthError RegistryAuth :=
  match registryHostsFromComposeYAMLWithEnv unicodeLower packages content envVars with
  | .error e => .error (.hosts e)
  | .ok hosts => buildDockerAuthForHosts unicodeLower app hosts

end Build

def App.secret (app : App) (r : Record) : Option Bytes :=
  app.decrypt.bind (fun decrypt => if r.password = [] then some [] else decrypt r.password)

/-- The auths are those of the hosts that have a row, each with the user name and the
secret of that row, and no host has two rows. -/
structure Exact (unicodeLower : Bytes → Bytes) (app : App) (host : Bytes → Prop)
    (rows : List (Row Record)) (auths : List (Bytes × Bytes)) : Prop where
  nodup : (auths.map Prod.fst).Nodup
  apart : ∀ h h', host h → host h' → dockerAuthConfigKey unicodeLower h = dockerAuthConfigKey unicodeLower h' → h = h'
  hosts : ∀ key, key ∈ auths.map Prod.fst ↔ ∃ r ∈ rows, host (recordHost unicodeLower r.val) ∧
      key = dockerAuthConfigKey unicodeLower (recordHost unicodeLower r.val)
  logins : ∀ r ∈ rows, host (recordHost unicodeLower r.val) → ∃ secret auth,
    app.secret r.val = some secret ∧
    (dockerAuthConfigKey unicodeLower (recordHost unicodeLower r.val), auth) ∈ auths ∧
    Base64.decode auth = some (r.val.username ++ byte ':' :: secret)
  once : ∀ r ∈ rows, ∀ r' ∈ rows, host (recordHost unicodeLower r.val) →
    recordHost unicodeLower r.val = recordHost unicodeLower r'.val → r.id = r'.id

theorem Exact.of_mem {unicodeLower : Bytes → Bytes} {app : App} {host host' : Bytes → Prop}
    {rows rows' : List (Row Record)} {auths : List (Bytes × Bytes)}
    (h : Exact unicodeLower app host rows auths) (hhost : ∀ g, host g ↔ host' g)
    (hrows : ∀ r, r ∈ rows ↔ r ∈ rows') : Exact unicodeLower app host' rows' auths := by
  obtain rfl : host = host' := funext (fun g => propext (hhost g))
  refine ⟨h.nodup, h.apart, ?_, ?_, ?_⟩
  · intro key
    simp only [h.hosts, hrows]
  · intro r hr
    exact h.logins r ((hrows r).mpr hr)
  · intro r hr r' hr'
    exact h.once r ((hrows r).mpr hr) r' ((hrows r').mpr hr')

section Scan

variable {unicodeLower : Bytes → Bytes} {app : App} {wanted : List Bytes} {st st' : Scan}
  {r : Row Record} {done rows : List (Row Record)}

theorem load_ok {cred : Credential} (hr : r ∈ app.credentials.rows) (h : loadCredentialByID app r.id = .ok cred) :
    app.secret r.val = some cred.password ∧ cred.username = r.val.username := by
  unfold loadCredentialByID at h
  rw [app.credentials.find_id hr] at h
  dsimp only at h
  split at h
  · unfold App.secret
    cases hkey : app.decrypt with
    | none =>
      rw [hkey] at h
      cases h
    | some decrypt =>
      rw [hkey] at h
      dsimp only at h
      rw [Option.bind_some]
      split at h
      · cases h
      · rename_i hpassword
        cases h
        exact ⟨hpassword, rfl⟩
  · cases h

theorem scanRecord_ok (hr : r ∈ app.credentials.rows) (h : scanRecord unicodeLower app wanted st r = .ok st') :
    (recordHost unicodeLower r.val ∉ wanted ∧ st' = st) ∨
    (recordHost unicodeLower r.val ∈ wanted ∧ recordHost unicodeLower r.val ∉ st.matched ∧
      ∃ secret, app.secret r.val = some secret ∧ st'.matched = recordHost unicodeLower r.val :: st.matched ∧
        st'.entries = setEntry (dockerAuthConfigKey unicodeLower (recordHost unicodeLower r.val))
          (Base64.encode (r.val.username ++ byte ':' :: secret)) st.entries) := by
  -- The row is passed over, or it gets through every check and its entry is set.
  unfold scanRecord at h
  by_cases hwanted : recordHost unicodeLower r.val ∉ wanted
  · rw [if_pos hwanted] at h
    cases h
    exact .inl ⟨hwanted, rfl⟩
  rw [if_neg hwanted] at h
  by_cases hmatched : recordHost unicodeLower r.val ∈ st.matched
  · rw [if_pos hmatched] at h
    cases h
  rw [if_neg hmatched] at h
  cases hload : loadCredentialByID app r.id with
  | error e =>
    rw [hload] at h
    cases h
  | ok cred =>
    rw [hload] at h
    obtain ⟨hsecret, huser⟩ := load_ok hr hload
    dsimp only at h
    split at h
    · cases h
    · rename_i hentry
      obtain ⟨_, ⟨⟩⟩ := guard_ok h
      obtain ⟨_, ⟨⟩⟩ := guard_ok hentry
      rw [huser]
      exact .inr ⟨not_not.mp hwanted, hmatched, cred.password, hsecret, rfl, rfl⟩

theorem setEntry_new {key auth : Bytes} {entries : List (Bytes × Bytes)}
    (h : key ∉ entries.map Prod.fst) : setEntry key auth entries = (key, auth) :: entries := by
  rw [setEntry, filter_eq_self.mpr]
  intro e he
  exact decide_eq_true (fun hkey => h (hkey ▸ mem_map_of_mem he))

structure Scanned (unicodeLower : Bytes → Bytes) (app : App) (wanted : List Bytes)
    (done : List (Row Record)) (st : Scan) : Prop where
  exact : Exact unicodeLower app (· ∈ wanted) done st.entries
  matched : ∀ h, h ∈ st.matched ↔ h ∈ wanted ∧ ∃ r ∈ done, recordHost unicodeLower r.val = h

theorem Scanned.skip (h : Scanned unicodeLower app wanted done st)
    (hr : recordHost unicodeLower r.val ∉ wanted) : Scanned unicodeLower app wanted (r :: done) st := by
  refine ⟨⟨h.exact.nodup, h.exact.apart, ?_, ?_, ?_⟩, ?_⟩
  · intro key
    rw [h.exact.hosts, exists_mem_cons_iff]
    exact (or_iff_right (fun hkey => hr hkey.1)).symm
  · rw [forall_mem_cons]
    exact ⟨fun hmem => absurd hmem hr, h.exact.logins⟩
  · intro s hs s' hs' hmem heq
    rcases mem_cons.mp hs with rfl | hs
    · exact absurd hmem hr
    rcases mem_cons.mp hs' with rfl | hs'
    · exact absurd (heq ▸ hmem) hr
    · exact h.exact.once s hs s' hs' hmem heq
  · intro g
    rw [h.matched, exists_mem_cons_iff]
    refine and_congr_right (fun hg => (or_iff_right (fun heq => hr ?_)).symm)
    rw [heq]
    exact hg

theorem Scanned.take (h : Scanned unicodeLower app wanted done st)
    (hr : recordHost unicodeLower r.val ∈ wanted)
    (hnew : recordHost unicodeLower r.val ∉ st.matched) {secret : Bytes}
    (hsecret : app.secret r.val = some secret)
    (hmatched : st'.matched = recordHost unicodeLower r.val :: st.matched)
    (hentries : st'.entries = setEntry (dockerAuthConfigKey unicodeLower (recordHost unicodeLower r.val))
      (Base64.encode (r.val.username ++ byte ':' :: secret)) st.entries) :
    Scanned unicodeLower app wanted (r :: done) st' := by
  have hother : ∀ s ∈ done, recordHost unicodeLower s.val ≠ recordHost unicodeLower r.val :=
    fun s hs heq => hnew ((h.matched _).mpr ⟨hr, s, hs, heq⟩)
  have hkey : dockerAuthConfigKey unicodeLower (recordHost unicodeLower r.val) ∉
      st.entries.map Prod.fst := by
    intro hmem
    obtain ⟨s, hs, hwanted, hkey⟩ := (h.exact.hosts _).mp hmem
    exact hother s hs (h.exact.apart _ _ hwanted hr hkey.symm)
  -- Two hosts never share a key, so the new entry overwrites none.
  rw [setEntry_new hkey] at hentries
  refine ⟨⟨?_, h.exact.apart, ?_, ?_, ?_⟩, ?_⟩
  · rw [hentries, map_cons, nodup_cons]
    exact ⟨hkey, h.exact.nodup⟩
  · intro key
    rw [hentries, map_cons, mem_cons, h.exact.hosts, exists_mem_cons_iff, and_iff_right hr]
  · rw [forall_mem_cons, hentries]
    refine ⟨fun _ => ⟨secret, _, hsecret, mem_cons_self, Base64.decode_encode _⟩, ?_⟩
    intro s hs hwanted
    obtain ⟨secret', auth, hsecret', hauth, hdecode⟩ := h.exact.logins s hs hwanted
    exact ⟨secret', auth, hsecret', mem_cons_of_mem _ hauth, hdecode⟩
  · intro s hs s' hs' hwanted heq
    rcases mem_cons.mp hs with rfl | hdone
    · rcases mem_cons.mp hs' with rfl | hdone'
      · rfl
      · exact absurd heq.symm (hother s' hdone')
    · rcases mem_cons.mp hs' with rfl | hdone'
      · exact absurd heq (hother s hdone)
      · exact h.exact.once s hdone s' hdone' hwanted heq
  · intro g
    rw [hmatched, mem_cons, h.matched, exists_mem_cons_iff]
    constructor
    · rintro (rfl | ⟨hg, hs⟩)
      · exact ⟨hr, .inl rfl⟩
      · exact ⟨hg, .inr hs⟩
    · rintro ⟨hg, rfl | hs⟩
      · exact .inl rfl
      · exact .inr ⟨hg, hs⟩

theorem scan_ok (hrows : ∀ r ∈ rows, r ∈ app.credentials.rows) (h : Scanned unicodeLower app wanted done st)
    (hscan : scan unicodeLower app wanted rows st = .ok st') :
    Scanned unicodeLower app wanted (rows.reverse ++ done) st' := by
  induction rows generalizing done st with
  | nil =>
    cases hscan
    exact h
  | cons r rows ih =>
    obtain ⟨hr, hrows⟩ := forall_mem_cons.mp hrows
    obtain ⟨next, hstep, hscan⟩ := bind_eq_ok_iff.mp hscan
    have hnext : Scanned unicodeLower app wanted (r :: done) next := by
      rcases scanRecord_ok hr hstep with ⟨hskip, rfl⟩ | ⟨hwanted, hnew, secret, hsecret, hm, he⟩
      · exact h.skip hskip
      · exact h.take hwanted hnew hsecret hm he
    rw [reverse_cons, append_assoc]
    exact ih hrows hnext hscan

end Scan

section Deploy

variable {unicodeLower : Bytes → Bytes} {app : App} {packages : Packages}
  {compose : List (Text × Value)} {hosts : List Bytes}

theorem authConfigKey_apart {h h' : Bytes} (hh : normalizeRegistryHost unicodeLower h = h)
    (hh' : normalizeRegistryHost unicodeLower h' = h')
    (hkey : dockerAuthConfigKey unicodeLower h = dockerAuthConfigKey unicodeLower h') : h = h' := by
  have hne : ∀ g, normalizeRegistryHost unicodeLower g = g → g ≠ dockerHubAuthConfigKey := by
    rintro g hg rfl
    rw [normalize_dockerHubAuthConfigKey] at hg
    revert hg
    decide
  rw [dockerAuthConfigKey, dockerAuthConfigKey, hh, hh'] at hkey
  by_cases hdocker : h = dockerHubRegistryHost
  · rw [if_pos hdocker] at hkey
    by_cases hdocker' : h' = dockerHubRegistryHost
    · rw [hdocker, hdocker']
    · rw [if_neg hdocker'] at hkey
      exact absurd hkey.symm (hne h' hh')
  · rw [if_neg hdocker] at hkey
    by_cases hdocker' : h' = dockerHubRegistryHost
    · rw [if_pos hdocker'] at hkey
      exact absurd hkey (hne h hh)
    · rwa [if_neg hdocker'] at hkey

theorem wanted_eq (hne : [] ∉ hosts) (hnormal : ∀ h ∈ hosts, normalizeRegistryHost unicodeLower h = h) :
    (hosts.map (normalizeRegistryHost unicodeLower)).filter (· ≠ []) = hosts := by
  rw [map_congr_left hnormal, map_id', filter_eq_self]
  intro g hg
  exact decide_eq_true (fun hnil => hne (hnil ▸ hg))

theorem exact_nil {rows : List (Row Record)} (hnormal : ∀ h ∈ hosts, normalizeRegistryHost unicodeLower h = h)
    (hnone : ∀ r ∈ rows, recordHost unicodeLower r.val ∉ hosts) : Exact unicodeLower app (· ∈ hosts) rows [] where
  nodup := nodup_nil
  apart g g' hg hg' := authConfigKey_apart (hnormal g hg) (hnormal g' hg')
  hosts key := by
    refine iff_of_false not_mem_nil ?_
    rintro ⟨r, hr, hhost, -⟩
    exact hnone r hr hhost
  logins r hr hhost := absurd hhost (hnone r hr)
  once r hr _ _ hhost := absurd hhost (hnone r hr)

theorem build_ok {auth : RegistryAuth} (hne : [] ∉ hosts)
    (hnormal : ∀ h ∈ hosts, normalizeRegistryHost unicodeLower h = h)
    (h : buildDockerAuthForHosts unicodeLower app hosts = .ok auth) :
    Exact unicodeLower app (· ∈ hosts) app.credentials.rows (auth.auths.getD []) := by
  unfold buildDockerAuthForHosts at h
  rw [wanted_eq hne hnormal] at h
  by_cases hnil : hosts = []
  · rw [if_pos hnil] at h
    cases h
    exact exact_nil hnormal (fun r _ => hnil ▸ not_mem_nil)
  rw [if_neg hnil] at h
  cases hcollection : app.collection with
  | noRows =>
    rw [hcollection] at h
    cases h
    rw [app.rows_of_noRows hcollection]
    exact exact_nil hnormal (forall_mem_nil _)
  | failed =>
    rw [hcollection] at h
    cases h
  | found =>
    rw [hcollection] at h
    dsimp only at h
    split at h
    · obtain ⟨st, hscan, h⟩ := bind_eq_ok_iff.mp h
      have hstart : Scanned unicodeLower app hosts [] {} :=
        ⟨exact_nil hnormal (forall_mem_nil _), by simp⟩
      have hscanned := scan_ok (fun _ hr => hr) hstart hscan
      have hentries : auth.auths.getD [] = st.entries := by
        cases h
        by_cases hnone : st.entries = []
        · rw [if_pos hnone, hnone]
          rfl
        · rw [if_neg hnone]
          rfl
      rw [hentries]
      exact hscanned.exact.of_mem (fun _ => Iff.rfl) (by simp)
    · cases h

theorem resolve_eq {content : Bytes} {envVars : List Text}
    (hconfig : composeConfig packages content envVars = .ok compose) :
    resolveRegistryAuth unicodeLower app packages content envVars =
      match registryHosts unicodeLower packages compose with
      | .error e => .error (.hosts e)
      | .ok hosts => buildDockerAuthForHosts unicodeLower app hosts := by
  rw [resolveRegistryAuth, registryHostsFromComposeYAMLWithEnv, hconfig]
  rfl

theorem resolve_ok {content : Bytes} {envVars : List Text} {auth : RegistryAuth}
    (hconfig : composeConfig packages content envVars = .ok compose)
    (h : resolveRegistryAuth unicodeLower app packages content envVars = .ok auth) :
    Exact unicodeLower app (ConfigHost unicodeLower packages compose) app.credentials.rows (auth.auths.getD []) := by
  rw [resolve_eq hconfig] at h
  cases hhosts : registryHosts unicodeLower packages compose with
  | error e =>
    rw [hhosts] at h
    cases h
  | ok hosts =>
    rw [hhosts] at h
    obtain ⟨hne, hiff⟩ := registryHosts_ok hhosts
    have hnormal : ∀ g ∈ hosts, normalizeRegistryHost unicodeLower g = g := by
      intro g hg
      obtain ⟨image, -, himage⟩ := (hiff g).mp hg
      exact normalize_of_isHostOf himage
    exact (build_ok hne hnormal h).of_mem hiff (fun _ => Iff.rfl)

end Deploy

theorem registry_auth_exact (unicodeLower : Bytes → Bytes) (app : App) (packages : Packages)
    {content : Bytes} {envVars : List Text} {compose : List (Text × Value)}
    (hconfig : composeConfig packages content envVars = .ok compose) :
    (∀ auth, resolveRegistryAuth unicodeLower app packages content envVars = .ok auth →
      Exact unicodeLower app (ConfigHost unicodeLower packages compose) app.credentials.rows
        (auth.auths.getD [])) ∧ ∀ r ∈ app.credentials.rows,
      ConfigHost unicodeLower packages compose (recordHost unicodeLower r.val) →
      (∃ r' ∈ app.credentials.rows, r'.id ≠ r.id ∧
        recordHost unicodeLower r'.val = recordHost unicodeLower r.val) ∨ app.secret r.val = none →
      ∃ e, resolveRegistryAuth unicodeLower app packages content envVars = .error e := by
  refine ⟨fun auth h => resolve_ok hconfig h, ?_⟩
  intro r hr hhost hbad
  cases hauth : resolveRegistryAuth unicodeLower app packages content envVars with
  | error e => exact ⟨e, rfl⟩
  | ok auth =>
    have hexact := resolve_ok hconfig hauth
    rcases hbad with ⟨r', hr', hid, heq⟩ | hnone
    · exact absurd (hexact.once r hr r' hr' hhost heq.symm).symm hid
    · obtain ⟨secret, _, hsecret, -⟩ := hexact.logins r hr hhost
      rw [hnone] at hsecret
      cases hsecret

def hubConfig : List (Text × Value) :=
  [("services".toList, .obj [("web".toList, .obj [("image".toList, .str "alpine".toList)]),
    ("tool".toList, .obj [])])]

def hubFile : Bytes := text "services:\n  web:\n    image: alpine\n  tool: \x7b\x7d\n"

def hubPackages : Packages where
  unmarshal content := if content = hubFile then some hubConfig else none
  interpolate _ compose := some compose
  domain image := if image = "alpine".toList then some (text "docker.io") else none
  isDomain image d h := by
    obtain ⟨-, ⟨rfl⟩⟩ := Option.ite_none_right_eq_some.mp h
    have hname : (text "docker.io").all Urls.isNameByte = true := rfl
    exact ⟨[], .inl rfl, .inl ⟨text "docker.io", by decide, all_eq_true.mp hname, by simp⟩⟩

def hubApp : App where
  collection := .found
  credentials := ⟨[⟨0, { registryURL := text "https://quay.io", username := text "q", password := [] }⟩,
    ⟨1, { registryURL := text "https://index.docker.io/v1/", username := text "u"
          password := text "#p" }⟩], by decide⟩
  rows_of_noRows h := by cases h
  listed := true
  readable _ := true
  decrypt := some (fun raw => if raw.head? = some (byte '#') then some raw.tail else none)

theorem hub_login_sent : ∃ auth, resolveRegistryAuth id hubApp hubPackages hubFile [] = .ok auth ∧
    auth.auths = some [(dockerHubAuthConfigKey, text "dTpw")] ∧
    Exact id hubApp (ConfigHost id hubPackages hubConfig) hubApp.credentials.rows (auth.auths.getD []) := by
  have hauth : resolveRegistryAuth id hubApp hubPackages hubFile [] =
      .ok ⟨some [(dockerHubAuthConfigKey, text "dTpw")], []⟩ := by decide +kernel
  have hconfig : composeConfig hubPackages hubFile [] = .ok hubConfig := by
    simp only [composeConfig, decodeCompose, hubPackages, if_true]
    rfl
  exact ⟨_, hauth, rfl, (registry_auth_exact id hubApp hubPackages hconfig).1 _ hauth⟩

end Wireops.Registry.Credentials
