import Mathlib.Data.List.Dedup
import Wireops.Lib.Flow
import Wireops.Lib.Urls
import Wireops.Policy.Compose

/-!
# The registries of a compose config

A registry is known by the host of its URL, in one spelling for all that mean the same
registry. The hosts of a config are those of its services' images.
-/

namespace Wireops.Registry.Hosts

open List Lib
open Lib.Flow Lib.Octets Lib.Urls Policy.Compose
open Lib.Strings (Text cut)

def dockerHubRegistryHost : Bytes := text "docker.io"

def dockerHubAuthConfigKey : Bytes := text "https://index.docker.io/v1/"

section Normalize

-- The lower case of a text that is not ASCII.
variable (unicodeLower : Bytes → Bytes)

def toLower (s : Bytes) : Bytes := if s.all (· < 128) then s.map lowerByte else unicodeLower s

def isBracket (b : UInt8) : Bool := b = byte '[' || b = byte ']'

def trimBrackets (s : Bytes) : Bytes := ((s.dropWhile isBracket).reverse.dropWhile isBracket).reverse

def canonicalName (host : Bytes) : Bytes :=
  if host = text "index.docker.io" then dockerHubRegistryHost else host

def canonicalHost (hostname port : Bytes) : Bytes :=
  if hostname = [] then []
  else
    let host := canonicalName (toLower unicodeLower hostname)
    let host := if byte ':' ∈ host then byte '[' :: host ++ [byte ']'] else host
    if port = [] then host else joinHostPort (trimBrackets host) port

def normalizeRegistryHost (registryURL : Bytes) : Bytes :=
  let trimmed := trimSpace registryURL
  if trimmed = [] then []
  else
    match parse (if text "://" <:+: trimmed then trimmed else text "//" ++ trimmed) with
    | none => []
    | some host =>
      canonicalHost unicodeLower (splitHostPort host).1 (splitHostPort host).2

def dockerAuthConfigKey (host : Bytes) : Bytes :=
  if normalizeRegistryHost unicodeLower host = dockerHubRegistryHost then dockerHubAuthConfigKey
  else normalizeRegistryHost unicodeLower host

end Normalize

/-- The domain of an image reference, by the grammar of such references: a name or an
address in brackets, with or without a port. -/
def IsDomain (d : Bytes) : Prop :=
  ∃ port, IsPort port ∧ ((∃ name, name ≠ [] ∧ (∀ b ∈ name, isNameByte b = true) ∧ d = name ++ port) ∨
      ∃ x, (∀ b ∈ x, isLiteralByte b = true) ∧ d = byte '[' :: x ++ byte ']' :: port)

section Domains

variable {unicodeLower : Bytes → Bytes} {name x port d : Bytes}

theorem trimSpace_host (hd : ∀ b ∈ d, isHostByte b = true) : trimSpace d = d := by
  have hspaces : ∀ w ∈ spaces, ∀ b ∈ w, isHostByte b = false := by
    have hall : spaces.all (fun w => w.all (fun b => !isHostByte b)) = true := by decide +kernel
    intro w hw b hb
    simpa using all_eq_true.mp (all_eq_true.mp hall w hw) b hb
  have hfront : ∀ ws : List Bytes, (∀ w ∈ ws, w ≠ []) → (∀ w ∈ ws, ∀ b ∈ w, isHostByte b = false) →
      ∀ s : Bytes, (∀ b ∈ s, isHostByte b = true) → trimStart ws 0 s = s := by
    intro ws hne hws s hs
    apply trimStart_eq_self
    intro w hw hpre
    obtain ⟨b, hb⟩ := exists_mem_of_ne_nil w (hne w hw)
    exact absurd (hs b (hpre.subset hb)) (by simp [hws w hw b hb])
  rw [trimSpace_eq_self]
  constructor
  · exact hfront spaces spaces_ne_nil hspaces d hd
  · have hback := hfront (spaces.map List.reverse) reversed_ne_nil (by
      intro w hw b hb
      obtain ⟨v, hv, rfl⟩ := mem_map.mp hw
      exact hspaces v hv b (mem_reverse.mp hb)) d.reverse (by
      intro b hb
      exact hd b (mem_reverse.mp hb))
    rw [trimRight, hback, reverse_reverse]

theorem normalize_host (hd : ∀ b ∈ d, isHostByte b = true) (hne : d ≠ []) : normalizeRegistryHost unicodeLower d =
      match parseHost [] d with
      | none => []
      | some host =>
        canonicalHost unicodeLower (splitHostPort host).1 (splitHostPort host).2 := by
  have hscheme : ¬ text "://" <:+: d := by
    intro h
    exact notMem_of_all hd (c := byte '/') rfl (h.subset (by decide))
  rw [normalizeRegistryHost, trimSpace_host hd]
  rw [if_neg hne, if_neg hscheme]
  have hparse : parse (text "//" ++ d) = parseHost [] d := parse_slashes hd
  rw [hparse]

theorem toLower_ascii (h : ∀ b ∈ d, isHostByte b = true) : toLower unicodeLower d = d.map lowerByte := by
  have hascii : ∀ b ∈ d, decide (b < 128) = true :=
    fun b hb => decide_eq_true (ascii_of_host b (h b hb))
  rw [toLower, if_pos (all_eq_true.mpr hascii)]

theorem isNameByte_canonical (h : ∀ b ∈ name, isNameByte b = true) :
    ∀ b ∈ canonicalName name, isNameByte b = true := by
  rw [canonicalName]
  by_cases halias : name = text "index.docker.io"
  · rw [if_pos halias]
    exact all_eq_true.mp rfl
  · rw [if_neg halias]
    exact h

section

variable (h : ∀ b ∈ d, isBracket b = false)

include h

theorem dropWhile_bracket : d.dropWhile isBracket = d := by
  cases d with
  | nil => rfl
  | cons b d => rw [dropWhile_cons_of_neg (by simp [h b mem_cons_self])]

theorem trimBrackets_eq_self : trimBrackets d = d := by
  have hrev : ∀ b ∈ d.reverse, isBracket b = false := fun b hb => h b (mem_reverse.mp hb)
  rw [trimBrackets, dropWhile_bracket h, dropWhile_bracket hrev, reverse_reverse]

theorem trimBrackets_bracketed (hne : d ≠ []) :
    trimBrackets (byte '[' :: d ++ [byte ']']) = d := by
  have hrev : ∀ b ∈ d.reverse, isBracket b = false := fun b hb => h b (mem_reverse.mp hb)
  have hfront : (d ++ [byte ']']).dropWhile isBracket = d ++ [byte ']'] := by
    cases d with
    | nil => exact absurd rfl hne
    | cons b d =>
      rw [cons_append, dropWhile_cons_of_neg (by simp [h b mem_cons_self])]
  rw [trimBrackets, cons_append, dropWhile_cons_of_pos rfl, hfront, reverse_append,
    reverse_singleton, singleton_append, dropWhile_cons_of_pos rfl,
    dropWhile_bracket hrev, reverse_reverse]

end

theorem bracket_of_class {p : UInt8 → Bool} {b : UInt8} (hl : p (byte '[') = false)
    (hr : p (byte ']') = false) (h : p b = true) : isBracket b = false := by
  rw [Bool.eq_false_iff]
  intro hb
  rw [isBracket, Bool.or_eq_true, decide_eq_true_eq, decide_eq_true_eq] at hb
  rcases hb with rfl | rfl
  · rw [hl] at h
    cases h
  · rw [hr] at h
    cases h

theorem bracket_of_name (b : UInt8) (h : isNameByte b = true) : isBracket b = false :=
  bracket_of_class rfl rfl h

theorem bracket_of_literal (b : UInt8) (h : isLiteralByte b = true) : isBracket b = false :=
  bracket_of_class rfl rfl h

theorem canonicalHost_name (hne : name ≠ []) (hname : ∀ b ∈ name, isNameByte b = true)
    (hport : IsPort port) : canonicalHost unicodeLower name port.tail =
      canonicalName (name.map lowerByte) ++ port := by
  have hlower := isNameByte_canonical (all_lower isNameByte_lowerByte hname)
  have hcolon : byte ':' ∉ canonicalName (name.map lowerByte) := notMem_of_all hlower rfl
  have hbracket := fun b hb => bracket_of_name b (hlower b hb)
  rw [canonicalHost, if_neg hne, toLower_ascii (fun b hb => isHostByte_of_name b (hname b hb))]
  dsimp only
  rw [if_neg hcolon]
  rcases hport with rfl | ⟨digits, hdigits, -, rfl⟩
  · rw [append_nil]
    exact if_pos rfl
  · rw [tail_cons, if_neg hdigits, trimBrackets_eq_self hbracket, joinHostPort, if_neg hcolon]

theorem canonicalHost_literal (hx : ∀ b ∈ x, isLiteralByte b = true) (hcolon : byte ':' ∈ x)
    (hport : IsPort port) : canonicalHost unicodeLower x port.tail =
      byte '[' :: x.map lowerByte ++ byte ']' :: port := by
  have hcolon' : byte ':' ∈ x.map lowerByte := mem_map.mpr ⟨_, hcolon, rfl⟩
  have hname : canonicalName (x.map lowerByte) = x.map lowerByte := by
    apply if_neg
    intro h
    rw [h] at hcolon'
    revert hcolon'
    decide
  have hlower := all_lower isLiteralByte_lowerByte hx
  have hbracket := fun b hb => bracket_of_literal b (hlower b hb)
  rw [canonicalHost, if_neg (ne_nil_of_mem hcolon),
    toLower_ascii (fun b hb => isHostByte_of_literal b (hx b hb)), hname]
  dsimp only
  rw [if_pos hcolon']
  rcases hport with rfl | ⟨digits, hdigits, -, rfl⟩
  · exact if_pos rfl
  · rw [tail_cons, if_neg hdigits,
      trimBrackets_bracketed hbracket (ne_nil_of_mem hcolon'),
      joinHostPort, if_pos hcolon']

theorem normalize_name (hne : name ≠ []) (hname : ∀ b ∈ name, isNameByte b = true)
    (hport : IsPort port) : normalizeRegistryHost unicodeLower (name ++ port) =
      canonicalName (name.map lowerByte) ++ port := by
  have hd : ∀ b ∈ name ++ port, isHostByte b = true := by
    intro b hb
    rcases mem_append.mp hb with hb | hb
    · exact isHostByte_of_name b (hname b hb)
    · exact hport.host b hb
  rw [normalize_host hd (by simp [hne]), parseHost_name hname hport]
  dsimp only
  rw [splitHostPort_name hname hport]
  exact canonicalHost_name hne hname hport

theorem normalize_literal (hx : ∀ b ∈ x, isLiteralByte b = true) (hport : IsPort port) :
    normalizeRegistryHost unicodeLower (byte '[' :: x ++ byte ']' :: port) =
      if isIPv6 x then byte '[' :: x.map lowerByte ++ byte ']' :: port else [] := by
  have hd : ∀ b ∈ byte '[' :: x ++ byte ']' :: port, isHostByte b = true := by
    intro b hb
    simp only [cons_append, mem_cons, mem_append] at hb
    rcases hb with rfl | hb | rfl | hb
    · rfl
    · exact isHostByte_of_literal b (hx b hb)
    · rfl
    · exact hport.host b hb
  rw [normalize_host hd (by simp), parseHost_literal hx hport]
  by_cases h : isIPv6 x = true
  · have hcolon : byte ':' ∈ x := by
      rw [isIPv6_eq hx, Bool.and_eq_true, decide_eq_true_eq] at h
      exact h.1
    rw [if_pos h, if_pos h]
    dsimp only
    rw [splitHostPort_literal hport]
    exact canonicalHost_literal hx hcolon hport
  · rw [if_neg h, if_neg h]

theorem canonicalName_lower (s : Bytes) :
    canonicalName ((canonicalName (s.map lowerByte)).map lowerByte) = canonicalName (s.map lowerByte) := by
  by_cases h : s.map lowerByte = text "index.docker.io"
  · rw [h]
    rfl
  · have hlower : canonicalName (s.map lowerByte) = s.map lowerByte := if_neg h
    rw [hlower, map_map]
    have hcomp : lowerByte ∘ lowerByte = lowerByte := funext lowerByte_lowerByte
    rw [hcomp, hlower]

theorem normalize_dockerHubAuthConfigKey :
    normalizeRegistryHost unicodeLower dockerHubAuthConfigKey = dockerHubRegistryHost := by
  have htrim : trimSpace dockerHubAuthConfigKey = dockerHubAuthConfigKey := by decide +kernel
  have hscheme : text "://" <:+: dockerHubAuthConfigKey := by decide +kernel
  have hparse : parse dockerHubAuthConfigKey = some (text "index.docker.io") := by decide +kernel
  have hsplit : splitHostPort (text "index.docker.io") = (text "index.docker.io", []) := by
    decide +kernel
  have hname : canonicalHost unicodeLower (text "index.docker.io") [] =
      canonicalName ((text "index.docker.io").map lowerByte) ++ [] :=
    canonicalHost_name (by decide) (all_eq_true.mp rfl) (.inl rfl)
  rw [normalizeRegistryHost, htrim, if_neg (by decide), if_pos hscheme, hparse]
  dsimp only
  rw [hsplit, hname]
  decide

theorem normalize_normalize (hd : IsDomain d) : normalizeRegistryHost unicodeLower
    (normalizeRegistryHost unicodeLower d) = normalizeRegistryHost unicodeLower d := by
  obtain ⟨port, hport, ⟨name, hne, hname, rfl⟩ | ⟨x, hx, rfl⟩⟩ := hd
  · have hlower := isNameByte_canonical (all_lower isNameByte_lowerByte hname)
    have hne' : canonicalName (name.map lowerByte) ≠ [] := by
      rw [canonicalName]
      split
      · decide
      · simpa using hne
    rw [normalize_name hne hname hport, normalize_name hne' hlower hport, canonicalName_lower]
  · rw [normalize_literal hx hport]
    by_cases h : isIPv6 x = true
    · rw [if_pos h, normalize_literal (all_lower isLiteralByte_lowerByte hx) hport, isIPv6_lower hx,
        if_pos h, map_map]
      have hcomp : lowerByte ∘ lowerByte = lowerByte := funext lowerByte_lowerByte
      rw [hcomp]
    · rw [if_neg h]
      rfl

end Domains

inductive ImageError where
  | empty
  | parse (image : Text)
  | noHost (image : Text)
  deriving DecidableEq

inductive HostsError where
  | entry (entry : Text)
  | parse
  | interpolate
  | services
  | service (name : Text)
  | imageValue (service : Text)
  | image (service : Text) (e : ImageError)
  deriving DecidableEq

/-- What other packages do: decode YAML, interpolate, and find the domain of an image
reference, which follows the grammar. -/
structure Packages where
  unmarshal : Bytes → Option (List (Text × Value))
  interpolate : (Text → Option Text) → List (Text × Value) → Option (List (Text × Value))
  domain : Text → Option Bytes
  isDomain : ∀ image d, domain image = some d → IsDomain d

section Config

variable (unicodeLower : Bytes → Bytes) (packages : Packages)

def registryHostFromImage (image : Text) : Except ImageError Bytes :=
  let image := Strings.trimSpace image
  if image = [] then .error .empty
  else
    match packages.domain image with
    | none => .error (.parse image)
    | some d =>
      let host := normalizeRegistryHost unicodeLower d
      if host = [] then .error (.noHost image) else .ok host

def serviceHost (service : Text) : Value → Except HostsError (Option Bytes)
  | .obj definition =>
    match field "image" definition with
    | none | some .null => .ok none
    | some (.str image) =>
      if Strings.trimSpace image = [] then .ok none
      else
        match registryHostFromImage unicodeLower packages image with
        | .error e => .error (.image service e)
        | .ok host => .ok (some host)
    | some _ => .error (.imageValue service)
  | _ => .error (.service service)

def serviceHosts : List (Text × Value) → Except HostsError (List Bytes)
  | [] => .ok []
  | (service, definition) :: services => do
    let host ← serviceHost unicodeLower packages service definition
    let hosts ← serviceHosts services
    return host.toList ++ hosts

variable (compose : List (Text × Value))

def registryHosts : Except HostsError (List Bytes) :=
  match (field "services" compose).bind Value.asObj with
  | none => .error .services
  | some services => do
    let hosts ← serviceHosts unicodeLower packages services
    return hosts.dedup.insertionSort (· ≤ ·)

def decodeCompose (content : Bytes) (lookup : Text → Option Text) : Except HostsError (List (Text × Value)) :=
  match packages.unmarshal content with
  | none => .error .parse
  | some compose =>
    match packages.interpolate lookup compose with
    | none => .error .interpolate
    | some compose => .ok compose

def envValues : List Text → Except HostsError (List (Text × Text))
  | [] => .ok []
  | entry :: entries =>
    match cut "=".toList entry with
    | none => .error (.entry entry)
    | some (key, value) =>
      if key = [] then .error (.entry entry)
      else do
        let values ← envValues entries
        return (key, value) :: values

def composeConfig (content : Bytes) (envVars : List Text) : Except HostsError (List (Text × Value)) := do
  let values ← envValues envVars
  decodeCompose packages content (fun key => values.reverse.lookup key)

def registryHostsFromComposeYAMLWithEnv (content : Bytes) (envVars : List Text) : Except HostsError (List Bytes) := do
  let compose ← composeConfig packages content envVars
  registryHosts unicodeLower packages compose

def imageOf (definition : Value) : Option Text :=
  ((definition.asObj.bind (field "image")).bind Value.asStr).filter (fun image => Strings.trimSpace image ≠ [])

def images : List Text :=
  (((field "services" compose).bind Value.asObj).getD []).filterMap (fun s => imageOf s.2)

def IsHostOf (image : Text) (host : Bytes) : Prop :=
  ∃ d, packages.domain (Strings.trimSpace image) = some d ∧ host = normalizeRegistryHost unicodeLower d

def ConfigHost (host : Bytes) : Prop :=
  ∃ image ∈ images compose, IsHostOf unicodeLower packages image host

end Config

section Found

variable {unicodeLower : Bytes → Bytes} {packages : Packages} {compose services : List (Text × Value)}

theorem normalize_of_isHostOf {image : Text} {host : Bytes} (h : IsHostOf unicodeLower packages image host) :
    normalizeRegistryHost unicodeLower host = host := by
  obtain ⟨d, hd, rfl⟩ := h
  exact normalize_normalize (packages.isDomain _ d hd)

theorem registryHostFromImage_ok {image : Text} {host : Bytes}
    (h : registryHostFromImage unicodeLower packages image = .ok host) :
    host ≠ [] ∧ ∀ g, IsHostOf unicodeLower packages image g ↔ g = host := by
  unfold registryHostFromImage at h
  dsimp only at h
  split at h
  · cases h
  cases hdomain : packages.domain (Strings.trimSpace image) with
  | none =>
    rw [hdomain] at h
    cases h
  | some d =>
    rw [hdomain] at h
    dsimp only at h
    split at h
    · cases h
    rename_i hne
    cases h
    refine ⟨hne, fun g => ?_⟩
    simp [IsHostOf, hdomain]

theorem serviceHost_ok {service : Text} {definition : Value} {host : Option Bytes}
    (h : serviceHost unicodeLower packages service definition = .ok host) : host ≠ some [] ∧ ∀ g, host = some g ↔
      ∃ image ∈ imageOf definition, IsHostOf unicodeLower packages image g := by
  unfold serviceHost at h
  split at h
  · rename_i definition
    have himage : ∀ v, field "image" definition = v →
        imageOf (.obj definition) = (v.bind Value.asStr).filter (fun image => Strings.trimSpace image ≠ []) := by
      rintro v rfl
      rfl
    split at h
    · rename_i hfield
      cases h
      simp [himage _ hfield]
    · rename_i hfield
      cases h
      simp [himage _ hfield, Value.asStr]
    · rename_i image hfield
      by_cases hblank : Strings.trimSpace image = []
      · rw [if_pos hblank] at h
        cases h
        simp [himage _ hfield, Value.asStr, hblank]
      · rw [if_neg hblank] at h
        have hsome : imageOf (.obj definition) = some image := by
          simp [himage _ hfield, Value.asStr, hblank]
        cases hhost : registryHostFromImage unicodeLower packages image with
        | error e =>
          rw [hhost] at h
          cases h
        | ok host =>
          rw [hhost] at h
          cases h
          obtain ⟨hne, hiff⟩ := registryHostFromImage_ok hhost
          refine ⟨fun hnil => hne (Option.some.inj hnil), fun g => ?_⟩
          rw [hsome]
          simp [hiff, eq_comm]
    · cases h
  · cases h

theorem serviceHosts_ok {hosts : List Bytes} (h : serviceHosts unicodeLower packages services = .ok hosts) :
    [] ∉ hosts ∧ ∀ g, g ∈ hosts ↔
      ∃ image ∈ services.filterMap (fun s => imageOf s.2), IsHostOf unicodeLower packages image g := by
  induction services generalizing hosts with
  | nil =>
    cases h
    simp
  | cons s services ih =>
    obtain ⟨service, definition⟩ := s
    obtain ⟨host, hhost, h⟩ := bind_eq_ok_iff.mp h
    obtain ⟨rest, hrest, h⟩ := bind_eq_ok_iff.mp h
    cases h
    obtain ⟨hne, hmem⟩ := serviceHost_ok hhost
    obtain ⟨hnot, hiff⟩ := ih hrest
    constructor
    · rw [mem_append, Option.mem_toList, not_or]
      exact ⟨hne, hnot⟩
    · intro g
      rw [mem_append, Option.mem_toList, hmem, hiff]
      cases hdef : imageOf definition with
      | none => simp [hdef]
      | some image => simp [hdef]

theorem registryHosts_ok {hosts : List Bytes} (h : registryHosts unicodeLower packages compose = .ok hosts) :
    [] ∉ hosts ∧ ∀ g, g ∈ hosts ↔ ConfigHost unicodeLower packages compose g := by
  unfold registryHosts at h
  cases hservices : (field "services" compose).bind Value.asObj with
  | none =>
    rw [hservices] at h
    cases h
  | some services =>
    rw [hservices] at h
    obtain ⟨found, hfound, h⟩ := bind_eq_ok_iff.mp h
    cases h
    have himages : images compose = services.filterMap (fun s => imageOf s.2) := by
      rw [images, hservices]
      rfl
    simp only [mem_insertionSort, mem_dedup, ConfigHost, himages]
    exact serviceHosts_ok hfound

end Found

end Wireops.Registry.Hosts
