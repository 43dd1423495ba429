import Wireops.Lib.Descent

/-!
# File trees with symbolic links

A tree of directories, files and links, and how a path is looked up in it: element by
element, where a link gives way to its target. A place is a way down the tree that
passes no link.
-/

namespace Wireops.Lib.Trees

open Option List Lib.Strings Lib.Paths
open Lib.Descent (Settled elements_settled)

mutual

inductive Node (D : Type) where
  | file (data : D)
  | dir (entries : Entries D)
  | link (target : Text)
  | other

inductive Entries (D : Type) where
  | nil
  | cons (name : Text) (node : Node D) (rest : Entries D)

end

variable {D : Type}

def Entries.find : Entries D → Text → Option (Node D)
  | .nil, _ => none
  | .cons name node rest, n => if n = name then some node else rest.find n

def isName (n : Text) : Bool := n ≠ [] && n ≠ ['.'] && n ≠ ['.', '.'] && !n.contains '/'

mutual

/-- The entries of each directory have names of their own. -/
def Node.wf : Node D → Bool
  | .dir es => es.wf
  | _ => true

def Entries.wf : Entries D → Bool
  | .nil => true
  | .cons name node rest => isName name && (rest.find name).isNone && node.wf && rest.wf

end

def Node.lookup : Node D → List Text → Option (Node D)
  | t, [] => some t
  | .dir es, n :: ns => (es.find n).bind (fun t => t.lookup ns)
  | _, _ :: _ => none

mutual

def Node.leaves : Node D → List (List Text × Node D)
  | .dir es => es.leaves
  | t => [([], t)]

def Entries.leaves : Entries D → List (List Text × Node D)
  | .nil => []
  | .cons name t rest => t.leaves.map (fun p => (name :: p.1, p.2)) ++ rest.leaves

end

/-- Where the elements of a path lead before a link has to be followed. -/
inductive Stop where
  | arrived (place : List Text)
  | link (place : List Text) (target : Text) (rest : List Text)

/-- Go down along the elements of a path. With `nofollow` a link at its end is not
followed. -/
def descend (root : Node D) (nofollow : Bool) : List Text → List Text → Option Stop
  | place, [] => some (.arrived place)
  | place, c :: cs =>
    match root.lookup place with
    | some (.dir es) =>
      if c = [] ∨ c = ['.'] then descend root nofollow place cs
      else if c = ['.', '.'] then descend root nofollow place.dropLast cs
      else
        match es.find c with
        | none => none
        | some (.link target) =>
          if nofollow ∧ cs = [] then some (.arrived (place ++ [c])) else some (.link place target cs)
        | some _ => descend root nofollow (place ++ [c]) cs
    | _ => none

/-- Look a path up, following at most `budget` links. What is left of the budget is
returned with the place. -/
def follow (root : Node D) (nofollow : Bool) (budget : Nat) (place path : List Text) : Option (List Text × Nat) :=
  match descend root nofollow place path with
  | none => none
  | some (.arrived p) => some (p, budget)
  | some (.link p target rest) =>
    match budget with
    | 0 => none
    | budget + 1 =>
      if target = [] then none
      else follow root nofollow budget (if rooted target then [] else p) (target.splitOn '/' ++ rest)

/-- The place a path leads to when every link on it is followed. -/
def locate (root : Node D) (budget : Nat) (path : List Text) : Option (List Text) :=
  (follow root false budget [] path).map Prod.fst

section Lookup

variable {root t leaf : Node D} {place rest path : List Text} {c : Text}

theorem find_wf : ∀ {es : Entries D}, es.wf = true → es.find c = some t → isName c = true ∧ t.wf = true
  | .nil, _, hf => by cases hf
  | .cons name node rest, h, hf => by
    simp only [Entries.wf, Bool.and_eq_true] at h
    unfold Entries.find at hf
    split at hf
    · rename_i heq
      cases hf
      exact ⟨heq ▸ h.1.1.1, h.1.2⟩
    · exact find_wf h.2 hf

theorem lookup_cons_eq_some {n : Text} {ns : List Text} :
    t.lookup (n :: ns) = some leaf ↔ ∃ es t', t = .dir es ∧ es.find n = some t' ∧ t'.lookup ns = some leaf := by
  cases t with
  | dir es =>
    rw [Node.lookup, bind_eq_some_iff]
    constructor
    · rintro ⟨t', hfind, hleaf⟩
      exact ⟨es, t', rfl, hfind, hleaf⟩
    · rintro ⟨_, t', ⟨rfl⟩, hfind, hleaf⟩
      exact ⟨t', hfind, hleaf⟩
  | file | link | other =>
    constructor
    · intro h
      cases h
    · rintro ⟨_, _, h, _⟩
      cases h

theorem lookup_append : root.lookup (place ++ rest) = (root.lookup place).bind (·.lookup rest) := by
  induction place generalizing root with
  | nil => rfl
  | cons n place ih =>
    cases root with
    | dir es =>
      rw [cons_append, Node.lookup, Node.lookup, bind_assoc]
      exact congrArg _ (funext fun t => ih)
    | file | link | other => rfl

theorem lookup_concat {es : Entries D} (h : root.lookup place = some (.dir es))
    (hf : es.find c = some t) : root.lookup (place ++ [c]) = some t := by
  rw [lookup_append, h, bind_some]
  exact lookup_cons_eq_some.mpr ⟨es, t, rfl, hf, rfl⟩

theorem lookup_wf (hwf : root.wf = true) (h : root.lookup place = some t) : t.wf = true := by
  induction place generalizing root with
  | nil =>
    cases h
    exact hwf
  | cons n place ih =>
    obtain ⟨es, t', rfl, hfind, h⟩ := lookup_cons_eq_some.mp h
    exact ih (find_wf hwf hfind).2 h

theorem lookup_isName (hwf : root.wf = true) (h : root.lookup place = some t) : ∀ n ∈ place, isName n = true := by
  induction place generalizing root with
  | nil => exact forall_mem_nil _
  | cons n place ih =>
    obtain ⟨es, t', rfl, hfind, h⟩ := lookup_cons_eq_some.mp h
    obtain ⟨hn, hwf'⟩ := find_wf hwf hfind
    exact forall_mem_cons.mpr ⟨hn, ih hwf' h⟩

mutual

theorem Node.lookup_of_leaves : ∀ {t : Node D} {p : List Text × Node D}, t.wf = true → p ∈ t.leaves →
    t.lookup p.1 = some p.2
  | .dir es, p, hwf, hp => by
    obtain ⟨n, ns, t', hplace, hfind, hleaf⟩ := Entries.lookup_of_leaves hwf hp
    rw [hplace]
    exact lookup_cons_eq_some.mpr ⟨es, t', rfl, hfind, hleaf⟩
  | .file _, p, _, hp | .link _, p, _, hp | .other, p, _, hp => by
    rw [mem_singleton.mp hp]
    rfl

theorem Entries.lookup_of_leaves : ∀ {es : Entries D} {p : List Text × Node D}, es.wf = true →
    p ∈ es.leaves → ∃ n ns t', p.1 = n :: ns ∧ es.find n = some t' ∧ t'.lookup ns = some p.2
  | .nil, p, _, hp => by cases hp
  | .cons name t rest, p, hwf, hp => by
    simp only [Entries.wf, Bool.and_eq_true] at hwf
    rcases mem_append.mp hp with hp | hp
    · obtain ⟨q, hq, rfl⟩ := mem_map.mp hp
      exact ⟨name, q.1, t, rfl, if_pos rfl, Node.lookup_of_leaves hwf.1.2 hq⟩
    · obtain ⟨n, ns, t', hplace, hfind, hleaf⟩ := Entries.lookup_of_leaves hwf.2 hp
      have hne : n ≠ name := by
        rintro rfl
        rw [hfind] at hwf
        cases hwf.1.1.2
      exact ⟨n, ns, t', hplace, (if_neg hne).trans hfind, hleaf⟩

end

theorem leaves_isName (hwf : t.wf = true) {p : List Text × Node D} (hp : p ∈ t.leaves) : ∀ n ∈ p.1, isName n = true :=
  lookup_isName hwf (Node.lookup_of_leaves hwf hp)

mutual

theorem Node.leaves_apart : ∀ {t : Node D}, t.wf = true → t.leaves.Pairwise (fun p q => ¬ p.1 <+: q.1 ∧ ¬ q.1 <+: p.1)
  | .dir _, hwf => Entries.leaves_apart hwf
  | .file _, _ | .link _, _ | .other, _ => pairwise_singleton ..

theorem Entries.leaves_apart : ∀ {es : Entries D}, es.wf = true →
    es.leaves.Pairwise (fun p q => ¬ p.1 <+: q.1 ∧ ¬ q.1 <+: p.1)
  | .nil, _ => List.Pairwise.nil
  | .cons name t rest, hwf => by
    simp only [Entries.wf, Bool.and_eq_true] at hwf
    refine pairwise_append.mpr ⟨?_, Entries.leaves_apart hwf.2, ?_⟩
    · refine pairwise_map.mpr ((Node.leaves_apart hwf.1.2).imp ?_)
      intro p q hpq
      exact ⟨fun h => hpq.1 (cons_prefix_cons.mp h).2, fun h => hpq.2 (cons_prefix_cons.mp h).2⟩
    · intro p hp q hq
      obtain ⟨p', -, rfl⟩ := mem_map.mp hp
      obtain ⟨n, ns, t', hplace, hfind, -⟩ := Entries.lookup_of_leaves hwf.2 hq
      have hne : n ≠ name := by
        rintro rfl
        rw [hfind] at hwf
        cases hwf.1.1.2
      rw [hplace]
      exact ⟨fun h => hne (cons_prefix_cons.mp h).1.symm, fun h => hne (cons_prefix_cons.mp h).1⟩

end

def Node.isLink : Node D → Bool
  | .link _ => true
  | _ => false

theorem isName_of_isElement (h : IsElement c) (hup : c ≠ ['.', '.']) : isName c = true := by
  simp [isName, h.ne_nil, h.ne_dot, h.no_slash, hup]

theorem isElement_of_isName (h : isName c = true) : IsElement c := by
  simp only [isName, Bool.and_eq_true, decide_eq_true_eq, Bool.not_eq_true', contains_eq_mem,
    decide_eq_false_iff_not] at h
  exact ⟨h.1.1.1, h.1.1.2, h.2⟩

theorem isName_ne (h : isName c = true) : ¬ (c = [] ∨ c = ['.']) ∧ c ≠ ['.', '.'] := by
  simp only [isName, Bool.and_eq_true, decide_eq_true_eq] at h
  exact ⟨not_or.mpr ⟨h.1.1.1, h.1.1.2⟩, h.1.2⟩

theorem isElement_of_isNames {ns : List Text} (h : ∀ n ∈ ns, isName n = true) : ∀ n ∈ ns, IsElement n :=
  fun n hn => isElement_of_isName (h n hn)

theorem settled_of_isNames {ns : List Text} (h : ∀ n ∈ ns, isName n = true) : Settled ns :=
  fun n hn => (isName_ne (h n hn)).2

theorem elements_isName {path : Text} (h : rooted path = true) : ∀ c ∈ elements path, isName c = true := by
  intro c hc
  exact isName_of_isElement (elements_isElement path c hc) (elements_settled h c hc)

theorem descend_cons {es : Entries D} {nofollow : Bool} {cs : List Text}
    (h : root.lookup place = some (.dir es)) (hname : isName c = true) (hf : es.find c = some t)
    (hlink : t.isLink = false) : descend root nofollow place (c :: cs) = descend root nofollow (place ++ [c]) cs := by
  obtain ⟨hdot, hup⟩ := isName_ne hname
  rw [descend, h]
  dsimp only
  rw [if_neg hdot, if_neg hup, hf]
  cases t with
  | link target => cases hlink
  | file | dir | other => rfl

theorem descend_lookup (hwf : root.wf = true) (nofollow : Bool) (h : root.lookup place = some t)
    (hleaf : t.lookup rest = some leaf) (hlink : leaf.isLink = false) :
    descend root nofollow place rest = some (.arrived (place ++ rest)) := by
  induction rest generalizing place t with
  | nil =>
    rw [append_nil]
    rfl
  | cons n ns ih =>
    obtain ⟨es, t', rfl, hfind, hleaf⟩ := lookup_cons_eq_some.mp hleaf
    have hname := (find_wf (lookup_wf hwf h) hfind).1
    have hlink' : t'.isLink = false := by
      cases ns with
      | nil =>
        cases hleaf
        exact hlink
      | cons n' ns =>
        obtain ⟨_, _, rfl, _⟩ := lookup_cons_eq_some.mp hleaf
        rfl
    rw [descend_cons h hname hfind hlink', ih (lookup_concat h hfind) hleaf, append_assoc]
    rfl

def Stop.next (root : Node D) (nofollow : Bool) (rest : List Text) : Stop → Option Stop
  | .arrived p => descend root nofollow p rest
  | .link p target cs => some (.link p target (cs ++ rest))

theorem descend_append (nofollow : Bool) (hrest : rest ≠ []) : descend root nofollow place (path ++ rest) =
    (descend root false place path).bind (Stop.next root nofollow rest) := by
  induction path generalizing place with
  | nil => rfl
  | cons c cs ih =>
    rw [cons_append, descend, descend]
    split
    · split
      · exact ih
      split
      · exact ih
      split
      · rfl
      · rw [if_neg (fun h => hrest (append_eq_nil_iff.mp h.2).2), if_neg (fun h => Bool.false_ne_true h.1)]
        rfl
      · exact ih
    · rfl

theorem follow_append (nofollow : Bool) (budget : Nat) (hrest : rest ≠ []) :
    follow root nofollow budget place (path ++ rest) =
      (follow root false budget place path).bind (fun q => follow root nofollow q.2 q.1 rest) := by
  induction budget generalizing place path with
  | zero =>
    rw [follow, follow, descend_append nofollow hrest]
    cases descend root false place path with
    | none => rfl
    | some stop =>
      cases stop with
      | arrived p => rw [bind_some, bind_some, follow]; rfl
      | link p target cs => rfl
  | succ budget ih =>
    rw [follow, follow, descend_append nofollow hrest]
    cases descend root false place path with
    | none => rfl
    | some stop =>
      cases stop with
      | arrived p => rw [bind_some, bind_some, follow]; rfl
      | link p target cs =>
        simp only [bind_some, Stop.next]
        split
        · rfl
        · rw [← append_assoc, ih]

variable {budget left : Nat}

theorem follow_of_arrived {nofollow : Bool} {p : List Text}
    (h : descend root nofollow place path = some (.arrived p)) :
    follow root nofollow budget place path = some (p, budget) := by
  rw [follow.eq_def, h]

theorem follow_below (hwf : root.wf = true) {p : List Text}
    (hpath : follow root false budget place path = some (p, left)) (h : root.lookup p = some t)
    (hleaf : t.lookup rest = some leaf) (hlink : leaf.isLink = false) :
    follow root false budget place (path ++ rest) = some (p ++ rest, left) := by
  by_cases hrest : rest = []
  · subst hrest
    rw [append_nil, append_nil]
    exact hpath
  · rw [follow_append false budget hrest, hpath, bind_some]
    exact follow_of_arrived (descend_lookup hwf false h hleaf hlink)

variable {q : List Text}

/-- A lookup that does not follow a link at the end of its path follows those in the
directory part. -/
theorem follow_nofollow_concat (hname : isName c = true)
    (h : follow root true budget place (path ++ [c]) = some (q, left)) :
    ∃ p es t, follow root false budget place path = some (p, left) ∧
      root.lookup p = some (.dir es) ∧ es.find c = some t ∧ q = p ++ [c] := by
  rw [follow_append true budget (cons_ne_nil c [])] at h
  obtain ⟨⟨p, left'⟩, hpath, h⟩ := bind_eq_some_iff.mp h
  obtain ⟨hdot, hup⟩ := isName_ne hname
  rw [follow.eq_def, descend] at h
  cases hp : root.lookup p with
  | none =>
    rw [hp] at h
    cases h
  | some node =>
    rw [hp] at h
    cases node with
    | file | link | other => cases h
    | dir es =>
      dsimp only at h
      rw [if_neg hdot, if_neg hup] at h
      cases hc : es.find c with
      | none =>
        rw [hc] at h
        cases h
      | some t =>
        have hq : some (p ++ [c], left') = some (q, left) := by
          rw [hc] at h
          cases t with
          | link target => exact h
          | file | dir | other => exact h
        cases hq
        exact ⟨p, es, t, hpath, hp, hc, rfl⟩

theorem locate_lookup (hwf : root.wf = true) (h : root.lookup place = some leaf) (hlink : leaf.isLink = false) :
    locate root budget place = some place := by
  have hdescend := descend_lookup hwf false (show root.lookup [] = some root from rfl) h hlink
  rw [locate, follow_of_arrived hdescend]
  rfl

theorem locate_concat (hname : isName c = true) (h : locate root budget (path ++ [c]) = some q) :
    ∃ p t, locate root budget path = some p ∧ root.lookup (p ++ [c]) = some t ∧
      (t.isLink = false → q = p ++ [c]) := by
  obtain ⟨⟨q', left⟩, hfollow, rfl⟩ := map_eq_some_iff.mp h
  rw [follow_append false budget (cons_ne_nil c [])] at hfollow
  obtain ⟨⟨p, left'⟩, hpath, hlast⟩ := bind_eq_some_iff.mp hfollow
  obtain ⟨hdot, hup⟩ := isName_ne hname
  have hp : locate root budget path = some p := by
    rw [locate, hpath]
    rfl
  cases hdir : root.lookup p with
  | none =>
    rw [follow.eq_def, descend, hdir] at hlast
    cases hlast
  | some node =>
    cases node with
    | file | link | other =>
      rw [follow.eq_def, descend, hdir] at hlast
      cases hlast
    | dir es =>
      cases hfind : es.find c with
      | none =>
        rw [follow.eq_def, descend, hdir] at hlast
        dsimp only at hlast
        rw [if_neg hdot, if_neg hup, hfind] at hlast
        cases hlast
      | some t =>
        refine ⟨p, t, hp, lookup_concat hdir hfind, ?_⟩
        intro hlink
        have harrived : descend root false p [c] = some (.arrived (p ++ [c])) :=
          descend_cons hdir hname hfind hlink
        rw [follow_of_arrived harrived] at hlast
        cases hlast
        rfl

def Real (root : Node D) (place : List Text) : Prop :=
  ∃ t, root.lookup place = some t ∧ (place = [] ∨ t.isLink = false)

theorem real_root : Real root [] := ⟨root, rfl, .inl rfl⟩

theorem real_of_dir {es : Entries D} (h : root.lookup place = some (.dir es)) : Real root place :=
  ⟨.dir es, h, .inr rfl⟩

theorem real_dropLast (h : Real root place) : Real root place.dropLast := by
  rcases eq_nil_or_concat place with rfl | ⟨init, n, rfl⟩
  · exact real_root
  · obtain ⟨t, ht, -⟩ := h
    rw [concat_eq_append] at ht ⊢
    rw [lookup_append] at ht
    obtain ⟨t', ht', hn⟩ := bind_eq_some_iff.mp ht
    obtain ⟨es, _, rfl, _⟩ := lookup_cons_eq_some.mp hn
    rw [dropLast_concat]
    exact real_of_dir ht'

def Stop.at_ : Stop → List Text
  | .arrived p | .link p _ _ => p

theorem descend_real {stop : Stop} (h : descend root false place path = some stop) (hp : Real root place) :
    Real root stop.at_ := by
  induction path generalizing place with
  | nil =>
    cases h
    exact hp
  | cons c cs ih =>
    rw [descend] at h
    split at h
    · next es hdir =>
      split at h
      · exact ih h hp
      split at h
      · exact ih h (real_dropLast hp)
      split at h
      · cases h
      · cases h
        exact hp
      · next t hnot hfind =>
        refine ih h ⟨t, lookup_concat hdir hfind, .inr ?_⟩
        cases t with
        | link target => exact absurd rfl (hnot target)
        | file | dir | other => rfl
    · cases h

theorem follow_real (h : follow root false budget place path = some (q, left))
    (hp : Real root place) : Real root q := by
  induction budget generalizing place path with
  | zero =>
    rw [follow] at h
    split at h
    · cases h
    · next hd =>
      cases h
      exact descend_real hd hp
    · cases h
  | succ budget ih =>
    rw [follow] at h
    split at h
    · cases h
    · next hd =>
      cases h
      exact descend_real hd hp
    · next p target rest hd =>
      obtain ⟨_, h⟩ := ite_none_left_eq_some.mp h
      refine ih h ?_
      split
      · exact real_root
      · exact descend_real hd hp

theorem locate_real (h : locate root budget path = some q) : Real root q := by
  obtain ⟨⟨q', left⟩, hfollow, rfl⟩ := map_eq_some_iff.mp h
  exact follow_real hfollow real_root

theorem locate_of_real (hwf : root.wf = true) (h : Real root place) (budget : Nat) :
    locate root budget place = some place := by
  obtain ⟨t, ht, rfl | hlink⟩ := h
  · unfold locate follow
    rfl
  · exact locate_lookup hwf ht hlink

end Lookup

end Wireops.Lib.Trees
