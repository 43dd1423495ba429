import Wireops.Lib.Steps
import Wireops.Lib.Strings
import Wireops.Lib.Window

namespace Wireops.Users.Throttle

open List Lib.Steps Lib.Strings Lib.Window

def splitHostPort (hostport : Text) : Option (Text × Text) :=
  match cutLast ':' hostport with
  | none => none
  | some (front, port) =>
    match hostport with
    | '[' :: rest =>
      let host := before ']' rest
      if front = '[' :: host ++ [']'] && !rest.contains '[' && !port.contains ']' then some (host, port)
      else none
    | _ =>
      if front.contains ':' || hostport.contains '[' || hostport.contains ']' then none
      else some (front, port)

def peerIPFromRemoteAddr (remoteAddr : Text) : Text :=
  match splitHostPort remoteAddr with
  | none => remoteAddr
  | some (host, _) => host

/-- The parts of a request that the limiter looks at. A header may stand in several
lines. -/
structure Request where
  remoteAddr : Text
  xForwardedFor : List Text := []
  xRealIP : List Text := []

def headerGet (lines : List Text) : Text := lines.head?.getD []

def getClientIP (isTrustedProxy : Text → Bool) (r : Request) : Text :=
  let peer := peerIPFromRemoteAddr r.remoteAddr
  if !isTrustedProxy peer then peer
  else
    let xff := trimSpace (headerGet r.xForwardedFor)
    if xff ≠ [] then trimSpace (before ',' xff)
    else
      let xri := trimSpace (headerGet r.xRealIP)
      if xri ≠ [] then xri else peer

/-- The address of a client, as a proxy writes it. -/
structure Address where
  text : Text
  visible : ∃ c ∈ text, isSpace c = false
  deriving DecidableEq

/-- A proxy in the trusted networks, by the address its connection comes from. -/
structure Proxy (isTrustedProxy : Text → Bool) where
  remoteAddr : Text
  trusted : isTrustedProxy (peerIPFromRemoteAddr remoteAddr) = true

structure Headers where
  xForwardedFor : List Text := []
  xRealIP : List Text := []

/-- What the server gets through a proxy that appends the address of its peer. -/
def forwarded {isTrustedProxy : Text → Bool} (proxy : Proxy isTrustedProxy) (client : Address)
    (h : Headers) : Request where
  remoteAddr := proxy.remoteAddr
  xForwardedFor := [", ".toList.intercalate (h.xForwardedFor ++ [client.text])]
  xRealIP := h.xRealIP

/-- `admitted` are the requests that passed the limiter, with the clients behind the
proxies that sent them. -/
structure State where
  now : Nat := 0
  requests : Text → List Nat := fun _ => []
  admitted : List (Address × Nat) := []

inductive Action (isTrustedProxy : Text → Bool) where
  | tick (d : Nat)
  | cleanup
  | proxied (proxy : Proxy isTrustedProxy) (client : Address) (h : Headers)
  | other (r : Request)

variable {isTrustedProxy : Text → Bool} {limit window : Nat}

def step (limit window : Nat) (s : State) : Action isTrustedProxy → Option State
  | .tick d => some { s with now := s.now + d }
  | .cleanup => some { s with requests := cleanup window s.now s.requests }
  | .proxied proxy client h =>
    let r := allow limit window s.now s.requests (getClientIP isTrustedProxy (forwarded proxy client h))
    some { s with
      requests := r.1
      admitted := if r.2 then s.admitted ++ [(client, s.now)] else s.admitted }
  | .other r => some { s with
      requests := (allow limit window s.now s.requests (getClientIP isTrustedProxy r)).1 }

def timesOf (client : Address) (admitted : List (Address × Nat)) : List Nat :=
  (admitted.filter (fun e => e.1 = client)).map Prod.snd

def Sends (client : Address) (H : Headers → Prop) : Action isTrustedProxy → Prop
  | .proxied _ c h => c = client → H h
  | _ => True

/-- The name under which the server counts a client: the first entry it sent itself,
or else its address. -/
def countedAs (client : Address) (h : Headers) : Text :=
  trimSpace (before ',' (trimSpace (", ".toList.intercalate (h.xForwardedFor ++ [client.text]))))

section Keys

theorem dropWhile_ne_nil {p : Char → Bool} {s : Text} (h : ∃ c ∈ s, p c = false) :
    ∃ c ∈ s.dropWhile p, p c = false := by
  obtain ⟨c, hc, hp⟩ := h
  rw [← takeWhile_append_dropWhile (p := p) (l := s), mem_append] at hc
  refine ⟨c, hc.resolve_left (fun ht => ?_), hp⟩
  have := mem_takeWhile_imp ht
  rw [hp] at this
  cases this

theorem trimSpace_ne_nil {s : Text} (h : ∃ c ∈ s, isSpace c = false) : trimSpace s ≠ [] := by
  have hleft := dropWhile_ne_nil h
  have hright : ∃ c ∈ (s.dropWhile isSpace).reverse.dropWhile isSpace, isSpace c = false := by
    refine dropWhile_ne_nil ?_
    simpa only [mem_reverse] using hleft
  obtain ⟨c, hc, _⟩ := hright
  exact ne_nil_of_mem (mem_reverse.mpr hc)

theorem visible_intercalate (sep : Text) (client : Address) (xff : List Text) :
    ∃ c ∈ sep.intercalate (xff ++ [client.text]), isSpace c = false := by
  obtain ⟨c, hc, hp⟩ := client.visible
  refine ⟨c, ?_, hp⟩
  induction xff with
  | nil =>
    rw [nil_append, intercalate_singleton]
    exact hc
  | cons x xff ih =>
    rw [cons_append, intercalate_cons_of_ne_nil (by simp)]
    exact mem_append_right _ ih

theorem getClientIP_forwarded (proxy : Proxy isTrustedProxy) (client : Address) (h : Headers) :
    getClientIP isTrustedProxy (forwarded proxy client h) = countedAs client h := by
  have hne := trimSpace_ne_nil (visible_intercalate ", ".toList client h.xForwardedFor)
  have htrusted : isTrustedProxy (peerIPFromRemoteAddr (forwarded proxy client h).remoteAddr) = true :=
    proxy.trusted
  have hget : headerGet (forwarded proxy client h).xForwardedFor =
    ", ".toList.intercalate (h.xForwardedFor ++ [client.text]) := rfl
  rw [getClientIP]
  rw [htrusted, hget, Bool.not_true, if_neg Bool.false_ne_true, if_pos hne]
  rfl

end Keys

section Runs

variable {client : Address} {H : Headers → Prop} {k : Text} {s t : State}

theorem timesOf_append_self (client : Address) (admitted : List (Address × Nat)) (n : Nat) :
    timesOf client (admitted ++ [(client, n)]) = timesOf client admitted ++ [n] := by
  simp [timesOf]

theorem timesOf_append_of_ne {c : Address} (hc : c ≠ client) (admitted : List (Address × Nat)) (n : Nat) :
    timesOf client (admitted ++ [(c, n)]) = timesOf client admitted := by
  simp [timesOf, hc]

theorem tracks_step {a : Action isTrustedProxy} (hkey : ∀ h, H h → countedAs client h = k)
    (hs : Tracks limit window s.now (s.requests k) (timesOf client s.admitted)) (ha : Sends client H a)
    (hstep : step limit window s a = some t) :
    Tracks limit window t.now (t.requests k) (timesOf client t.admitted) := by
  cases a with
  | tick d =>
    cases hstep
    exact hs.later (Nat.le_add_right ..)
  | cleanup =>
    cases hstep
    exact hs.forget (Nat.le_refl _)
  | other r =>
    cases hstep
    exact hs.allow _
  | proxied proxy c h =>
    cases hstep
    rw [getClientIP_forwarded]
    by_cases hc : c = client
    · rw [hc, hkey h (ha hc)]
      split
      · next hok =>
        rw [timesOf_append_self]
        exact hs.allow_counted hok
      · exact hs.allow k
    · split
      · rw [timesOf_append_of_ne hc]
        exact hs.allow _
      · exact hs.allow _

variable (proxy : Proxy isTrustedProxy)

theorem step_room (client : Address) (h : Headers)
    (hroom : (s.requests (countedAs client h)).length < limit) (hw : 0 < window)
    (hzero : ∀ i ∈ s.requests (countedAs client h), i = s.now) : step limit window s (.proxied proxy client h) =
      some { s with
        requests := Function.update s.requests (countedAs client h)
          (s.requests (countedAs client h) ++ [s.now])
        admitted := s.admitted ++ [(client, s.now)] } := by
  have hlive : live window s.now (s.requests (countedAs client h)) = s.requests (countedAs client h) := by
    refine filter_eq_self.mpr (fun i hi => decide_eq_true ?_)
    rw [hzero i hi, Nat.sub_self]
    exact hw
  rw [step, getClientIP_forwarded, allow_of_room (hlive.symm ▸ hroom), hlive]
  rfl

theorem run_replicate (client : Address) (h : Headers)
    (hw : 0 < window) (n : Nat) (hn : (s.requests (countedAs client h)).length + n ≤ limit)
    (hzero : ∀ i ∈ s.requests (countedAs client h), i = s.now) :
    run (step limit window) s (List.replicate n (.proxied proxy client h)) =
      some { s with
        requests := Function.update s.requests (countedAs client h)
          (s.requests (countedAs client h) ++ List.replicate n s.now)
        admitted := s.admitted ++ List.replicate n (client, s.now) } := by
  induction n generalizing s with
  | zero => simp [run]
  | succ n ih =>
    rw [replicate_succ, run, step_room proxy client h (by omega) hw hzero, Option.bind_some, ih]
    · simp [replicate_succ]
    · simp
      omega
    · intro i hi
      simp only [Function.update_self, mem_append, mem_singleton] at hi
      exact hi.elim (hzero i) id

theorem not_bounded_of_two {h h' : Headers}
    (hne : countedAs client h ≠ countedAs client h') (hl : 0 < limit) (hw : 0 < window) :
    ∃ t, run (step limit window) {}
        (List.replicate limit (.proxied proxy client h) ++ [.proxied proxy client h']) = some t ∧
      ¬ Bounded limit window (timesOf client t.admitted) := by
  have hfirst : run (step limit window) {} (List.replicate limit (.proxied proxy client h)) = _ :=
    run_replicate proxy client h hw limit (by simp) (by simp)
  rw [run_append, hfirst, Option.bind_some, run, step_room proxy client h' (by simpa [hne.symm] using hl) hw
    (by simp [hne.symm])]
  refine ⟨_, rfl, fun hbounded => ?_⟩
  have hcount := hbounded 0
  rw [timesOf_append_self] at hcount
  have hall : inWindow window 0 (timesOf client (List.replicate limit (client, 0)) ++ [0]) =
      List.replicate (limit + 1) 0 := by
    simp [inWindow, timesOf, hw, replicate_succ']
  simp only [nil_append] at hcount
  rw [hall, length_replicate] at hcount
  omega

variable {as : List (Action isTrustedProxy)}

theorem bounded_of_alike (hkey : ∀ h, H h → countedAs client h = k)
    (hall : ∀ a ∈ as, Sends client H a) (hr : run (step limit window) {} as = some t) :
    Bounded limit window (timesOf client t.admitted) := by
  have hstep (s : State) (a : Action isTrustedProxy) (t : State)
      (hs : Tracks limit window s.now (s.requests k) (timesOf client s.admitted)) (ha : Sends client H a)
      (h : step limit window s a = some t) : Tracks limit window t.now (t.requests k) (timesOf client t.admitted) :=
    tracks_step hkey hs ha h
  exact (run_invariant hstep (Tracks.init ..) (meets_of_forall (fun a ha _ => hall a ha) {}) hr).bounded

theorem admitted_eq_nil (hr : run (step 0 window) {} as = some t) : t.admitted = [] := by
  have hstep (s : State) (a : Action isTrustedProxy) (t : State) (hs : s.admitted = [])
      (h : step 0 window s a = some t) : t.admitted = [] := by
    cases a with
    | tick _ | cleanup | other _ =>
      cases h
      exact hs
    | proxied proxy c hd =>
      rw [step, allow_of_full (Nat.zero_le _)] at h
      cases h
      exact hs
  exact run_invariant_of_step hstep rfl hr

end Runs

/-- The limit holds for a client whatever it sends of a kind of headers, exactly if
all of them count it under one name. -/
theorem limit_kept_iff (limit window : Nat) (proxy : Proxy isTrustedProxy) (client : Address)
    (H : Headers → Prop) : (∀ (as : List (Action isTrustedProxy)) t, (∀ a ∈ as, Sends client H a) →
      run (step limit window) {} as = some t → Bounded limit window (timesOf client t.admitted)) ↔
    limit = 0 ∨ window = 0 ∨ ∀ h h', H h → H h' → countedAs client h = countedAs client h' := by
  constructor
  · intro hall
    by_contra hno
    simp only [not_or, not_forall] at hno
    obtain ⟨hl, hw, h, h', hh, hh', hne⟩ := hno
    obtain ⟨t, hr, hbounded⟩ := not_bounded_of_two proxy hne (Nat.pos_of_ne_zero hl) (Nat.pos_of_ne_zero hw)
    refine hbounded (hall _ t (fun a ha => ?_) hr)
    obtain ha | ha := mem_append.mp ha
    · rw [eq_of_mem_replicate ha]
      exact fun _ => hh
    · rw [mem_singleton.mp ha]
      exact fun _ => hh'
  · intro h as t hall hr
    obtain rfl | rfl | hkey := h
    · rw [admitted_eq_nil hr]
      exact fun _ => Nat.le_refl _
    · intro start
      have hnone : inWindow 0 start (timesOf client t.admitted) = [] := by
        refine filter_eq_nil_iff.mpr (fun i _ => ?_)
        simp
      rw [hnone]
      exact Nat.zero_le _
    · by_cases hsome : ∃ h, H h
      · obtain ⟨h₀, hh₀⟩ := hsome
        exact bounded_of_alike (fun h hh => hkey h h₀ hh hh₀) hall hr
      · exact bounded_of_alike (fun h hh => absurd ⟨h, hh⟩ hsome) (k := []) hall hr

def loopback : Proxy (fun ip => ip = "127.0.0.1".toList) := ⟨"127.0.0.1:41522".toList, by decide⟩

def visitor : Address := ⟨"203.0.113.7".toList, '2', by decide, by decide⟩

theorem spoofing_visitor_unlimited : ∃ t, run (step 5 60000000000) {}
      (List.replicate 5 (.proxied loopback visitor ⟨["198.51.100.1".toList], []⟩) ++
        [.proxied loopback visitor ⟨["198.51.100.2".toList], []⟩]) = some t ∧
      ¬ Bounded 5 60000000000 (timesOf visitor t.admitted) :=
  not_bounded_of_two loopback (by decide) (by decide) (by decide)

end Wireops.Users.Throttle
