import Wireops.Policy.Coverage

namespace Wireops.Policy.Interpolation

open List Lib.Strings Policy.Compose Policy.Coverage

/-- The entries of the dispatched `.env`. The last entry of a name counts. -/
abbrev Env := List (Text × Text)

def Env.get (env : Env) (name : Text) : Text := (env.reverse.lookup name).getD []

def isNameStart (c : Char) : Bool := c.isAlpha || c = '_'

def isNameChar (c : Char) : Bool := isNameStart c || c.isDigit

def isName : Text → Bool
  | [] => false
  | c :: cs => isNameStart c && cs.all isNameChar

/-- What stands between the braces of a reference: a name, or a name with a
default for a variable that is unset or empty. -/
inductive Reference where
  | var (name : Text)
  | withDefault (name fallback : Text)

def parseReference (body : Text) : Option Reference :=
  match cut ":-".toList body with
  | some (name, fallback) => if isName name then some (.withDefault name fallback) else none
  | none => if isName body then some (.var body) else none

/-- What stands before and after the brace that closes a reference. The braces
between belong together in pairs. -/
def closing (depth : Nat) : Text → Option (Text × Text)
  | [] => none
  | c :: rest =>
    if c = '}' ∧ depth = 0 then some ([], rest)
    else
      let depth := if c = '{' then depth + 1 else if c = '}' then depth - 1 else depth
      (closing depth rest).map (fun (body, after) => (c :: body, after))

/-- Compose's substitution of `${VAR}`, `${VAR:-default}` and `$VAR`, in a default as well;
a double dollar sign stands for one. A braced form that is none of the two stays as it is
written. -/
def expand (env : Env) : Nat → Text → Text
  | 0, s => s
  | _ + 1, [] => []
  | fuel + 1, '$' :: '$' :: rest => '$' :: expand env fuel rest
  | fuel + 1, '$' :: '{' :: rest =>
    match closing 0 rest with
    | none => '$' :: '{' :: rest
    | some (body, after) =>
      (match parseReference body with
        | some (.var name) => env.get name
        | some (.withDefault name fallback) =>
          if env.get name = [] then expand env fuel fallback else env.get name
        | none => '$' :: '{' :: body ++ ['}']) ++ expand env fuel after
  | fuel + 1, '$' :: c :: rest =>
    if isNameStart c then env.get (c :: rest.takeWhile isNameChar) ++ expand env fuel (rest.dropWhile isNameChar)
    else '$' :: expand env fuel (c :: rest)
  | fuel + 1, c :: rest => c :: expand env fuel rest

theorem closing_length {depth : Nat} {s body after : Text} (h : closing depth s = some (body, after)) :
    body.length + after.length < s.length := by
  induction s generalizing depth body with
  | nil => cases h
  | cons c rest ih =>
    rw [closing] at h
    split at h
    · cases h
      simp
    · obtain ⟨⟨body, after⟩, hrest, ⟨⟩⟩ := Option.map_eq_some_iff.mp h
      have := ih hrest
      simp only [length_cons]
      omega

theorem fallback_length {body name fallback : Text} (h : parseReference body = some (.withDefault name fallback)) :
    fallback.length ≤ body.length := by
  unfold parseReference at h
  split at h
  · next hcut =>
    obtain ⟨_, ⟨⟩⟩ := Option.ite_none_right_eq_some.mp h
    rw [cut_spec hcut, length_append, length_append]
    omega
  · simp at h

/-- What is left of a text gets shorter with each step, so that its length is enough. -/
theorem expand_eq {env : Env} {n : Nat} {s : Text} (m : Nat) (hn : s.length ≤ n) (hm : s.length ≤ m) :
    expand env n s = expand env m s := by
  fun_induction expand env n s generalizing m with
  | case1 | case2 | case4 => cases m <;> simp_all [expand]
  | case5 fuel rest body after hclose ih ihafter =>
    have hlen := closing_length hclose
    obtain _ | m := m
    · cases hm
    · simp only [length_cons] at hn hm
      simp only [expand, hclose, ← ihafter m (by omega) (by omega)]
      refine congrArg (· ++ expand env fuel after) ?_
      split
      · rfl
      · next name fallback href =>
        have := fallback_length href
        rw [ih fallback m (by omega) (by omega)]
      · rfl
  | case6 fuel c rest =>
    have hlen : (rest.dropWhile isNameChar).length ≤ rest.length := (dropWhile_sublist isNameChar).length_le
    cases m <;> grind [expand]
  | case3 | case7 | case8 => cases m <;> grind [expand]

def interpolateText (env : Env) (s : Text) : Text := expand env s.length s

example : interpolateText [("TAG".toList, "1.27".toList)] "nginx:${TAG}-$$x".toList = "nginx:1.27-$x".toList := by
  decide

example : interpolateText [("MODE".toList, "host".toList)] "$A${B:-${C:-${MODE}}}/${D}".toList = "host/".toList := by
  decide

mutual

/-- Every text of a value is expanded; the keys are not. -/
def substitute (env : Env) : Value → Value
  | .null => .null
  | .bool b => .bool b
  | .number digits => .number digits
  | .str s => .str (interpolateText env s)
  | .arr items => .arr (substituteItems env items)
  | .obj fields => .obj (substituteFields env fields)

def substituteItems (env : Env) : List Value → List Value
  | [] => []
  | v :: vs => substitute env v :: substituteItems env vs

def substituteFields (env : Env) : List (Text × Value) → List (Text × Value)
  | [] => []
  | (key, v) :: fields => (key, substitute env v) :: substituteFields env fields

end

def toBoolean (s : Text) : Value :=
  let word := s.map Char.toLower
  if word ∈ ["true", "y", "yes", "on"].map String.toList then .bool true
  else if word ∈ ["false", "n", "no", "off"].map String.toList then .bool false
  else .str s

def castFlag : Text × Value → Text × Value
  | (key, .str s) => (key, if key = "privileged".toList then toBoolean s else .str s)
  | entry => entry

def castService : Text × Value → Text × Value
  | (name, .obj svc) => (name, .obj (svc.map castFlag))
  | entry => entry

/-- The texts at `services.*.privileged` become booleans. Policies look at none
of the other settings that Compose casts. -/
def castServices : Text × Value → Text × Value
  | (key, .obj svcs) =>
    (key, .obj (if key = "services".toList then svcs.map castService else svcs))
  | entry => entry

/-- The config that takes effect on the worker. -/
def interpolate (env : Env) (config : List (Text × Value)) : List (Text × Value) :=
  (substituteFields env config).map castServices

/-- The policies that accept a config accept what the worker runs, whichever
policy it is, exactly if substitution adds nothing to what the config asks for. -/
theorem accepted_interpolated_iff (env : Env) (config : List (Text × Value)) :
    (∀ p, accepts p config → accepts p (interpolate env config)) ↔
      Covers (extractComposeRefs config) (extractComposeRefs (interpolate env config)) :=
  accepts_iff_covers

def referring : List (Text × Value) :=
  [("services".toList, .obj [("web".toList, .obj
    [("image".toList, .str "nginx:1.27".toList), ("network_mode".toList, .str "${MODE}".toList)])])]

theorem host_network_substituted : accepts { blockHostNetwork := true } referring ∧
      ¬ accepts { blockHostNetwork := true }
        (interpolate [("MODE".toList, "host".toList)] referring) := by
  refine ⟨?_, ?_⟩
  · rfl
  · intro h
    cases h

end Wireops.Policy.Interpolation
