import Wireops.Depgraph

namespace Wireops.Lint.Mounts

open Lib.Strings Policy.Compose
open Depgraph (namedVolume isBindSource text unquote)

structure Mount where
  source : Text := []
  target : Text := []
  isBind : Bool := false
  readOnly : Bool := false
  raw : Text := []

def isHostPath : Text → Bool := Policy.Compose.isHostPath

def afterColon (s : Text) : Text := (s.dropWhile (· ≠ ':')).tail

def shortMount (v : Text) : Mount :=
  let spec := unquote v
  if spec.contains ':' then
    let source := trimSpace (before ':' spec)
    { source, target := trimSpace (before ':' (afterColon spec)), isBind := isHostPath source, raw := spec,
      readOnly := (cut "ro".toList (before ':' (afterColon (afterColon spec)))).isSome }
  else { target := spec, raw := spec }

def longMount (v : List (Text × Value)) : Mount :=
  let source := text "source" v
  let target := text "target" v
  { source, target, isBind := text "type" v = "bind".toList || isHostPath source,
    readOnly := (field "read_only" v).bind Value.asBool = some true,
    raw := if target ≠ [] then source ++ ':' :: target else source }

def mount : Value → Option Mount
  | .str v => some (shortMount v)
  | .obj v => some (longMount v)
  | _ => none

def serviceMounts (svc : List (Text × Value)) : List Mount :=
  (((field "volumes" svc).bind Value.asArr).getD []).filterMap mount

inductive Class where
  | bind (source : Text)
  | named (source : Text)
  | anonymous

def ofSource (isBind : Bool) (source : Text) : Class :=
  if isBind then .bind source else if source = [] then .anonymous else .named source

/-- The policy keeps the source of an entry, and tells a host path by its form. -/
def policyClass (v : Value) : Class :=
  let source := (volumeSource v).getD []
  ofSource (Policy.Compose.isHostPath source) source

def lintClass (v : Value) : Class :=
  let m := (mount v).getD {}
  ofSource m.isBind m.source

/-- The graph keeps named volumes only. -/
def Agree (v : Value) : Prop :=
  lintClass v = policyClass v ∧ ∀ source, namedVolume v = some source ↔ policyClass v = .named source

/-- What the policy reads of a short entry: it takes a dash off, as from an item
of a list. -/
def undashed (v : Text) : Text := unquote (trimPrefix "-".toList (trimSpace v))

/-- A short entry has a source and no dash, or none and names no host path; the type of a
long one says what its source is. -/
def Plain : Value → Prop
  | .str v => if ':' ∈ unquote v then ¬ "-".toList <+: trimSpace v else isHostPath (trimSpace (undashed v)) = false
  | .obj v => isHostPath (text "source" v) = true ∨ text "type" v = "volume".toList ∨
      text "source" v = [] ∧ text "type" v ≠ "bind".toList
  | _ => True

theorem undashed_eq {v : Text} (h : ¬ "-".toList <+: trimSpace v) : undashed v = unquote v := by
  rw [undashed, trimPrefix, if_neg (fun hp => h (List.isPrefixOf_iff_prefix.mp hp)), unquote, unquote]
  exact congrArg _ (trim_trim ..)

theorem shortSource_eq (v : Text) : shortSource v =
    if (undashed v).contains ':' || Policy.Compose.isHostPath (trimSpace (before ':' (undashed v))) then
      (some (trimSpace (before ':' (undashed v)))).filter (· ≠ []) else none := rfl

section Trimming

variable {q : Char → Bool} {c : Char}

theorem mem_trim_iff (hc : q c = false) {s : Text} : c ∈ trim q s ↔ c ∈ s := by
  obtain ⟨l, r, hs, hall⟩ := trim_spec q s
  have hout : c ∉ l ++ r := fun hm => by simp [hall c hm] at hc
  rw [List.mem_append, not_or] at hout
  conv_rhs => rw [hs]
  simp [hout]

theorem count_before_trim (hcolon : q ':' = false) (hc : q c = false) (s : Text) :
    (before ':' (trim q s)).count c = (before ':' s).count c := by
  obtain ⟨l, r, hs, hall⟩ := trim_spec q s
  have hout (d : Char) (hd : q d = false) : d ∉ l ∧ d ∉ r := by
    rw [← not_or, ← List.mem_append]
    exact fun hm => by simp [hall d hm] at hd
  have hl := List.count_eq_zero.mpr (hout c hc).1
  by_cases hm : ':' ∈ trim q s
  · obtain ⟨hnot, rest, hrest⟩ := (before_eq_iff hm).mp rfl
    have hbefore : before ':' s = l ++ before ':' (trim q s) := by
      refine (before_eq_iff ((mem_trim_iff hcolon).mp hm)).mpr ⟨by simp [(hout ':' hcolon).1, hnot], rest ++ r, ?_⟩
      rw [hrest] at hs
      simpa using hs
    rw [hbefore, List.count_append, hl, Nat.zero_add]
  · rw [before_eq_self hm, before_eq_self (fun h => hm ((mem_trim_iff hcolon).mpr h))]
    conv_rhs => rw [hs, List.count_append, List.count_append, hl, List.count_eq_zero.mpr (hout c hc).2]
    simp

end Trimming

theorem getD_filter (o : Option Text) : (o.filter (· ≠ [])).getD [] = o.getD [] := by
  rcases o with _ | _ | _ <;> rfl

theorem isHostPath_nil : Policy.Compose.isHostPath [] = false := rfl

theorem filter_eq_some_iff (src s : Text) : (some src).filter (fun src => src ≠ [] && !isBindSource src) = some s ↔
    ofSource (Policy.Compose.isHostPath src) src = .named s := by
  by_cases hh : Policy.Compose.isHostPath src <;> by_cases hnil : src = [] <;>
    simp [ofSource, Option.filter, isBindSource, hh, hnil, isHostPath_nil]

theorem ofSource_inj {s t : Text}
    (h : ofSource (Policy.Compose.isHostPath s) s = ofSource (Policy.Compose.isHostPath t) t) : s = t := by
  revert h
  unfold ofSource
  split_ifs <;> simp_all

theorem colon_mem_undashed_iff {v : Text} : ':' ∈ undashed v ↔ ':' ∈ unquote v := by
  have hdash (t : Text) : ':' ∈ trimPrefix "-".toList t ↔ ':' ∈ t := by
    unfold trimPrefix
    split
    · next h =>
      obtain ⟨rest, rfl⟩ := List.isPrefixOf_iff_prefix.mp h
      simp
    · rfl
  rw [undashed, unquote, unquote, mem_trim_iff rfl, mem_trim_iff rfl, trimSpace, mem_trim_iff rfl, hdash]

theorem source_ne_of_dashed {v : Text} (h : "-".toList <+: trimSpace v) :
    trimSpace (before ':' (undashed v)) ≠ trimSpace (before ':' (unquote v)) := by
  have hcount (t : Text) : (trimSpace (before ':' (unquote t))).count '-' = (before ':' (trimSpace t)).count '-' := by
    have hnone : before ':' (trimSpace (before ':' (unquote t))) = trimSpace (before ':' (unquote t)) :=
      before_eq_self (fun hm => notMem_before _ _ (mem_of_mem_trim hm))
    have hself : before ':' (before ':' (unquote t)) = before ':' (unquote t) := before_eq_self (notMem_before _ _)
    rw [← hnone, trimSpace, count_before_trim rfl rfl, hself, unquote, count_before_trim rfl rfl]
  obtain ⟨rest, hrest⟩ := h
  intro heq
  have hdash := congrArg (List.count '-') heq
  have hdrop : trimPrefix "-".toList (trimSpace v) = rest := by
    rw [← hrest]
    rfl
  rw [undashed, hdrop, hcount, hcount, ← hrest] at hdash
  have hbefore : before ':' ("-".toList ++ rest) = '-' :: before ':' rest := rfl
  rw [hbefore, trimSpace, count_before_trim rfl rfl, List.count_cons_self] at hdash
  omega

theorem agree_str_iff (v : Text) : Agree (.str v) ↔ Plain (.str v) := by
  by_cases hc : ':' ∈ unquote v
  · have hcolon := colon_mem_undashed_iff.mpr hc
    have hpolicy : policyClass (.str v) = ofSource (isHostPath (trimSpace (before ':' (undashed v))))
        (trimSpace (before ':' (undashed v))) := by
      rw [policyClass, volumeSource, shortSource_eq, if_pos (by simp [hcolon]), getD_filter, Option.getD_some]
      rfl
    have hlint : lintClass (.str v) = ofSource (isHostPath (trimSpace (before ':' (unquote v))))
        (trimSpace (before ':' (unquote v))) := by
      simp [lintClass, mount, shortMount, hc]
    have hgraph (s : Text) : namedVolume (.str v) = some s ↔ lintClass (.str v) = .named s := by
      rw [hlint, isHostPath, ← filter_eq_some_iff]
      simp [namedVolume, hc]
    rw [Plain, if_pos hc]
    constructor
    · intro h hdash
      refine source_ne_of_dashed hdash (ofSource_inj ?_)
      exact hpolicy.symm.trans (h.1.symm.trans hlint)
    · intro h
      rw [undashed_eq h, ← hlint] at hpolicy
      exact ⟨hpolicy.symm, fun s => hpolicy ▸ hgraph s⟩
  · have hcolon : ':' ∉ undashed v := fun h => hc (colon_mem_undashed_iff.mp h)
    have hsource := shortSource_eq v
    rw [before_eq_self hcolon] at hsource
    simp only [Agree, Plain, if_neg hc, lintClass, policyClass, mount, volumeSource, namedVolume, hsource, shortMount,
      isHostPath]
    cases hh : Policy.Compose.isHostPath (trimSpace (undashed v)) with
    | true =>
      have hne : trimSpace (undashed v) ≠ [] := fun hnil => by simp [hnil, isHostPath_nil] at hh
      simp [hc, hh, hne, Option.filter, ofSource]
    | false => simp [hc, hcolon, ofSource, isHostPath_nil]

theorem agree_obj_iff (v : List (Text × Value)) : Agree (.obj v) ↔ Plain (.obj v) := by
  have hpolicy : policyClass (.obj v) = ofSource (isHostPath (text "source" v)) (text "source" v) := by
    rw [policyClass, volumeSource, strField, getD_filter]
    rfl
  have hlint : lintClass (.obj v) =
      ofSource (text "type" v = "bind".toList || isHostPath (text "source" v)) (text "source" v) := rfl
  have hgraph (s : Text) : namedVolume (.obj v) = some s ↔
      text "type" v = "volume".toList ∧ policyClass (.obj v) = .named s := by
    rw [hpolicy, isHostPath, ← filter_eq_some_iff, namedVolume]
    split
    · next htype => rw [htype, and_iff_right rfl]
    · next htype => exact iff_of_false (by rintro ⟨⟩) (fun hs => htype hs.1)
  have hne : "bind".toList ≠ "volume".toList := by decide
  simp only [Agree, Plain, hgraph]
  rw [hpolicy, hlint]
  generalize "bind".toList = bind, "volume".toList = volume at hne ⊢
  by_cases hh : isHostPath (text "source" v) <;> by_cases hnil : text "source" v = [] <;>
    by_cases hb : text "type" v = bind <;> simp_all [ofSource]

/-- The three readers agree on class and source exactly where the entry is plain. -/
theorem agree_iff_plain (v : Value) : Agree v ↔ Plain v := by
  cases v with
  | str v => exact agree_str_iff v
  | obj v => exact agree_obj_iff v
  | _ => exact ⟨fun _ => trivial, fun _ => ⟨rfl, fun _ => ⟨nofun, nofun⟩⟩⟩

/-- A container path alone is a host path to the policy. -/
theorem anonymous_volume_bound : policyClass (.str "/data".toList) = .bind "/data".toList ∧
    lintClass (.str "/data".toList) = .anonymous ∧ namedVolume (.str "/data".toList) = none :=
  ⟨rfl, rfl, rfl⟩

end Wireops.Lint.Mounts
