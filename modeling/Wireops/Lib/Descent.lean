import Wireops.Lib.Paths

namespace Wireops.Lib.Descent

open List Lib.Strings Lib.Paths

variable {stack base : List Text} {w : Text} {ws : List Text}

/-- Where the elements lead from a place below the root, given by its elements,
last one first. -/
def walk (stack : List Text) (ws : List Text) : List Text := ws.foldl (pushElement true) stack

/-- The elements never lead above the place they start from; `depth` is how
far below it they already are. -/
def staysBelow : Nat → List Text → Bool
  | _, [] => true
  | depth, w :: ws =>
    if w = [] ∨ w = ['.'] then staysBelow depth ws
    else if w = ['.', '.'] then
      match depth with
      | 0 => false
      | depth + 1 => staysBelow depth ws
    else staysBelow (depth + 1) ws

theorem element_cases (w : Text) :
    (w = [] ∨ w = ['.']) ∨ w = ['.', '.'] ∨ ¬ (w = [] ∨ w = ['.']) ∧ w ≠ ['.', '.'] := by
  by_cases hdot : w = [] ∨ w = ['.']
  · exact .inl hdot
  · by_cases hup : w = ['.', '.']
    · exact .inr (.inl hup)
    · exact .inr (.inr ⟨hdot, hup⟩)

theorem push_skip (h : w = [] ∨ w = ['.']) : pushElement true stack w = stack := if_pos h

theorem push_up {top : Text} (h : top ≠ ['.', '.']) : pushElement true (top :: stack) ['.', '.'] = stack :=
  if_neg h

theorem push_down (h : ¬ (w = [] ∨ w = ['.'])) (hup : w ≠ ['.', '.']) : pushElement true stack w = w :: stack :=
  (if_neg h).trans (if_neg hup)

theorem staysBelow_skip (h : w = [] ∨ w = ['.']) (depth : Nat) : staysBelow depth (w :: ws) = staysBelow depth ws :=
  (staysBelow.eq_def ..).trans (if_pos h)

theorem staysBelow_down (h : ¬ (w = [] ∨ w = ['.'])) (hup : w ≠ ['.', '.']) (depth : Nat) :
    staysBelow depth (w :: ws) = staysBelow (depth + 1) ws :=
  (staysBelow.eq_def ..).trans ((if_neg h).trans (if_neg hup))

/-- No place below the root is reached by going up at the end. -/
def Settled (stack : List Text) : Prop := ∀ v ∈ stack, v ≠ ['.', '.']

theorem push_settled (hs : Settled stack) (w : Text) : Settled (pushElement true stack w) := by
  obtain hdot | rfl | ⟨hdot, hup⟩ := element_cases w
  · rw [push_skip hdot]
    exact hs
  · cases stack with
    | nil => exact hs
    | cons top rest =>
      rw [push_up (hs top mem_cons_self)]
      exact fun v hv => hs v (mem_cons_of_mem _ hv)
  · rw [push_down hdot hup]
    exact forall_mem_cons.mpr ⟨hup, hs⟩

theorem walk_settled (hs : Settled stack) (ws : List Text) : Settled (walk stack ws) := by
  induction ws generalizing stack with
  | nil => exact hs
  | cons w ws ih => exact ih (push_settled hs w)

theorem walk_append (stack ws vs : List Text) : walk stack (ws ++ vs) = walk (walk stack ws) vs :=
  foldl_append ..

theorem suffix_walk_of_staysBelow {down : List Text} (hs : Settled (down ++ base))
    (h : staysBelow down.length ws = true) : base <:+ walk (down ++ base) ws := by
  induction ws generalizing down with
  | nil => exact suffix_append down base
  | cons w ws ih =>
    rw [walk, foldl_cons, ← walk]
    obtain hdot | rfl | ⟨hdot, hup⟩ := element_cases w
    · rw [staysBelow_skip hdot] at h
      rw [push_skip hdot]
      exact ih hs h
    · cases down with
      | nil => cases h
      | cons top down =>
        rw [cons_append, push_up (hs top mem_cons_self)]
        exact ih (fun v hv => hs v (mem_cons_of_mem _ hv)) h
    · rw [staysBelow_down hdot hup] at h
      rw [push_down hdot hup]
      exact @ih (w :: down) (forall_mem_cons.mpr ⟨hup, hs⟩) h

/-- A walk that ends at or below a place has been below it from the start, or
comes to it for the last time on the way and stays below. -/
theorem exists_last_visit (hs : Settled stack) (h : base <:+ walk stack ws) :
    (∃ down, stack = down ++ base ∧ staysBelow down.length ws = true) ∨
      ∃ out back, ws = out ++ back ∧ walk stack out = base ∧ staysBelow 0 back = true := by
  induction ws generalizing stack with
  | nil =>
    obtain ⟨down, hdown⟩ := h
    exact .inl ⟨down, hdown.symm, rfl⟩
  | cons w ws ih =>
    obtain ⟨down, hdown, hstays⟩ | ⟨out, back, rfl, hout, hback⟩ := ih (push_settled hs w) h
    · obtain hdot | rfl | ⟨hdot, hup⟩ := element_cases w
      · rw [push_skip hdot] at hdown
        exact .inl ⟨down, hdown, (staysBelow_skip hdot _).trans hstays⟩
      · cases stack with
        | nil =>
          -- at the root `..` leads nowhere
          have hnil := append_eq_nil_iff.mp hdown.symm
          rw [hnil.1] at hstays
          exact .inr ⟨[['.', '.']], ws, rfl, hnil.2.symm, hstays⟩
        | cons top rest =>
          rw [push_up (hs top mem_cons_self)] at hdown
          exact .inl ⟨top :: down, congrArg _ hdown, hstays⟩
      · rw [push_down hdot hup] at hdown
        cases down with
        | nil =>
          refine .inr ⟨[w], ws, rfl, ?_, hstays⟩
          exact (push_down hdot hup).trans hdown
        | cons v down =>
          rw [cons_append, List.cons.injEq] at hdown
          exact .inl ⟨down, hdown.2, (staysBelow_down hdot hup _).trans hstays⟩
    · exact .inr ⟨w :: out, back, rfl, hout, hback⟩

variable {es : List Text}

section

variable (he : ∀ w ∈ es, IsElement w) (hs : Settled es)

include he hs

theorem foldl_pushElement {absolute : Bool} : es.foldl (pushElement absolute) stack = es.reverse ++ stack := by
  induction es generalizing stack with
  | nil => rfl
  | cons w es ih =>
    have hw := he w mem_cons_self
    have hdot : ¬ (w = [] ∨ w = ['.']) := not_or.mpr ⟨hw.ne_nil, hw.ne_dot⟩
    have hpush : pushElement absolute stack w = w :: stack :=
      (if_neg hdot).trans (if_neg (hs w mem_cons_self))
    rw [foldl_cons, hpush,
      ih (fun v hv => he v (mem_cons_of_mem _ hv)) (fun v hv => hs v (mem_cons_of_mem _ hv)),
      reverse_cons, append_assoc]
    rfl

theorem walk_elements : walk stack es = es.reverse ++ stack :=
  foldl_pushElement he hs

theorem foldl_pushElement_intercalate {absolute : Bool} :
    ((['/'].intercalate es).splitOn '/').foldl (pushElement absolute) stack = es.reverse ++ stack := by
  by_cases hnil : es = []
  · rw [hnil]
    rfl
  · rw [splitOn_intercalate_elements he hnil, foldl_pushElement he hs]

theorem elements_intercalate : elements (['/'].intercalate es) = es := by
  rw [elements, foldl_pushElement_intercalate he hs, append_nil, reverse_reverse]

end

variable {path : Text}

theorem elements_append_intercalate (hne : path ≠ []) (he : ∀ w ∈ es, IsElement w) (hs : Settled es) :
    elements (path ++ '/' :: ['/'].intercalate es) = elements path ++ es := by
  rw [elements_append hne, foldl_pushElement_intercalate he hs, reverse_append, reverse_reverse, reverse_reverse]

section Relative

theorem up_mem_foldl (h : ['.', '.'] ∈ stack) : ['.', '.'] ∈ ws.foldl (pushElement false) stack := by
  induction ws generalizing stack with
  | nil => exact h
  | cons w ws ih =>
    refine ih ?_
    unfold pushElement
    split
    · exact h
    · split
      · cases stack with
        | nil => cases h
        | cons top rest =>
          dsimp only
          split
          · exact mem_cons_of_mem _ h
          · next htop => exact (mem_cons.mp h).resolve_left (Ne.symm htop)
      · exact mem_cons_of_mem _ h

/-- Elements that do not lead up from where they start lead to the same place below
any other. -/
theorem walk_below {start : List Text} (stack : List Text) (hf : Settled start)
    (h : Settled (ws.foldl (pushElement false) start)) :
    walk (start ++ stack) ws = ws.foldl (pushElement false) start ++ stack := by
  induction ws generalizing start with
  | nil => rfl
  | cons w ws ih =>
    have hstep : pushElement true (start ++ stack) w = pushElement false start w ++ stack ∧
        Settled (pushElement false start w) := by
      obtain hdot | rfl | ⟨hdot, hup⟩ := element_cases w
      · rw [push_skip hdot]
        have hskip : pushElement false start w = start := if_pos hdot
        rw [hskip]
        exact ⟨rfl, hf⟩
      · cases start with
        | nil =>
          have hup : Settled (ws.foldl (pushElement false) [['.', '.']]) := h
          exact absurd rfl (hup _ (up_mem_foldl mem_cons_self))
        | cons top rest =>
          have htop := hf top mem_cons_self
          have hpop : pushElement false (top :: rest) ['.', '.'] = rest := if_neg htop
          rw [cons_append, push_up htop, hpop]
          exact ⟨rfl, fun v hv => hf v (mem_cons_of_mem _ hv)⟩
      · have hpush : pushElement false start w = w :: start := (if_neg hdot).trans (if_neg hup)
        rw [push_down hdot hup, hpush]
        exact ⟨rfl, forall_mem_cons.mpr ⟨hup, hf⟩⟩
    rw [walk, foldl_cons, hstep.1]
    exact ih hstep.2 h

theorem elements_append_relative {path rel : Text} (hp : rooted path = true) (hrel : rooted rel = false)
    (hs : Settled (elements rel)) : elements (path ++ '/' :: rel) = elements path ++ elements rel := by
  have hstack : Settled ((rel.splitOn '/').foldl (pushElement false) []) := by
    intro v hv
    refine hs v ?_
    rw [elements, hrel]
    exact mem_reverse.mpr hv
  have hwalk := walk_below (elements path).reverse (forall_mem_nil _) hstack
  rw [elements_append (ne_nil_of_rooted hp), hp]
  rw [nil_append, walk] at hwalk
  rw [hwalk, reverse_append, reverse_reverse]
  rw [elements, elements, hrel]

theorem settled_of_relative {rel : Text} (hrel : rooted rel = false)
    (h : ¬ ['.', '.'] <+: clean rel) : Settled (elements rel) := by
  rintro v hv rfl
  obtain ⟨front, back, heq⟩ := append_of_mem hv
  have hup := elements_upFirst rel
  rw [heq, UpFirst, pairwise_append] at hup
  have hhead : ∃ rest, elements rel = ['.', '.'] :: rest := by
    cases front with
    | nil => exact ⟨back, heq⟩
    | cons w front =>
      have hw := hup.2.2 w mem_cons_self ['.', '.'] mem_cons_self rfl
      exact ⟨front ++ ['.', '.'] :: back, by rw [heq, hw, cons_append]⟩
  obtain ⟨rest, hrest⟩ := hhead
  refine h ?_
  have hne : elements rel ≠ [] := by simp [hrest]
  rw [clean_eq_render, hrel, render_false (elements_isElement rel) hne, hrest]
  cases rest with
  | nil => exact prefix_refl _
  | cons w rest =>
    exact prefix_append ..

end Relative

theorem elements_eq_walk (h : rooted path = true) : elements path = (walk [] (path.splitOn '/')).reverse := by
  rw [elements, h, walk]

theorem elements_settled (h : rooted path = true) : Settled (elements path) := by
  rw [elements_eq_walk h]
  intro v hv
  exact walk_settled (forall_mem_nil _) _ v (mem_reverse.mp hv)

theorem elements_render (he : ∀ w ∈ es, IsElement w) (hs : Settled es) : elements (render true es) = es := by
  have hrender : render true es = '/' :: ['/'].intercalate es := rfl
  rw [elements_eq_walk rfl, hrender]
  by_cases hnil : es = []
  · rw [hnil]
    rfl
  · have hsplit : ('/' :: ['/'].intercalate es).splitOn '/' = [] :: es := by
      rw [splitOn_cons_eq_if_modifyHead, if_pos (beq_self_eq_true '/'), splitOn_intercalate_elements he hnil]
    have hskip : walk [] ([] :: es) = walk [] es := rfl
    rw [hsplit, hskip, walk_elements he hs, append_nil, reverse_reverse]

theorem elements_clean (h : rooted path = true) : elements (clean path) = elements path := by
  rw [clean_eq_render, h]
  exact elements_render (elements_isElement path) (elements_settled h)

/-- A walk ends at or below its start exactly if, after a detour that leads
back to the start, it stays below. -/
theorem suffix_walk_iff (hs : Settled base) : base <:+ walk base ws ↔
    ∃ out back, ws = out ++ back ∧ walk base out = base ∧ staysBelow 0 back = true := by
  constructor
  · intro h
    obtain ⟨down, hdown, hstays⟩ | hvisit := exists_last_visit hs h
    · rw [self_eq_append_left.mp hdown] at hstays
      exact ⟨[], ws, rfl, rfl, hstays⟩
    · exact hvisit
  · rintro ⟨out, back, rfl, hout, hback⟩
    rw [walk_append, hout]
    exact @suffix_walk_of_staysBelow base back [] hs hback

end Wireops.Lib.Descent
