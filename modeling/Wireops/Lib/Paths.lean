import Wireops.Lib.Strings

namespace Wireops.Lib.Paths

open List Lib.Strings

variable (path : Text)

def rooted : Bool := path.head? = some '/'

/-- The elements of the cleaned path, none for `/` and for `.`. -/
def elements : List Text :=
  ((path.splitOn '/').foldl (pushElement (rooted path)) []).reverse

def render (absolute : Bool) (es : List Text) : Text :=
  let body := ['/'].intercalate es
  if absolute then '/' :: body else if body = [] then ['.'] else body

theorem clean_eq_render : clean path = render (rooted path) (elements path) := rfl

structure IsElement (w : Text) : Prop where
  ne_nil : w ≠ []
  ne_dot : w ≠ ['.']
  no_slash : '/' ∉ w

def UpFirst (es : List Text) : Prop := es.Pairwise (fun v w => w = ['.', '.'] → v = ['.', '.'])

theorem pushElement_isElement {absolute : Bool} {stack : List Text} {w : Text} (hw : '/' ∉ w)
    (hs : ∀ v ∈ stack, IsElement v) : ∀ v ∈ pushElement absolute stack w, IsElement v := by
  unfold pushElement
  split
  · exact hs
  · next hne =>
    rw [not_or] at hne
    have hpush : ∀ v ∈ w :: stack, IsElement v :=
      forall_mem_cons.mpr ⟨⟨hne.1, hne.2, hw⟩, hs⟩
    split
    · cases stack with
      | nil =>
        cases absolute with
        | true => exact hs
        | false => exact hpush
      | cons top rest =>
        dsimp only
        split
        · exact hpush
        · exact fun v hv => hs v (mem_cons_of_mem _ hv)
    · exact hpush

theorem pushElement_upFirst {absolute : Bool} {stack : List Text} {w : Text}
    (hs : UpFirst stack.reverse) : UpFirst (pushElement absolute stack w).reverse := by
  have hpush (hw : w = ['.', '.'] → ∀ v ∈ stack, v = ['.', '.']) : UpFirst (w :: stack).reverse := by
    rw [reverse_cons, UpFirst, pairwise_append]
    refine ⟨hs, pairwise_singleton .., fun v hv u hu hup => ?_⟩
    rw [mem_singleton] at hu
    exact hw (hu ▸ hup) v (mem_reverse.mp hv)
  unfold pushElement
  split
  · exact hs
  · split
    · cases stack with
      | nil =>
        cases absolute with
        | true => exact hs
        | false => exact hpush (fun _ v hv => nomatch hv)
      | cons top rest =>
        rw [UpFirst, pairwise_reverse, pairwise_cons] at hs
        dsimp only
        split
        · next htop =>
          refine hpush (fun _ v hv => ?_)
          obtain rfl | hv := mem_cons.mp hv
          · exact htop
          · exact hs.1 v hv htop
        · rw [UpFirst, pairwise_reverse]
          exact hs.2
    · next hne => exact hpush (fun h => absurd h hne)

theorem notMem_of_mem_splitOn {sep : Char} {s w : Text} (h : w ∈ s.splitOn sep) : sep ∉ w := by
  induction s generalizing w with
  | nil =>
    rw [splitOn_nil, mem_singleton] at h
    subst h
    exact not_mem_nil
  | cons c s ih =>
    rw [splitOn_cons_eq_if_modifyHead] at h
    split at h
    · obtain rfl | h := mem_cons.mp h
      · exact not_mem_nil
      · exact ih h
    · next hc =>
      cases hs : s.splitOn sep with
      | nil => exact absurd hs (splitOn_ne_nil sep s)
      | cons v vs =>
        simp only [hs, modifyHead_cons, mem_cons] at h ih
        obtain rfl | h := h
        · intro hm
          obtain rfl | hm := mem_cons.mp hm
          · simp at hc
          · exact ih (.inl rfl) hm
        · exact ih (.inr h)

theorem elements_isElement : ∀ w ∈ elements path, IsElement w := by
  have h (ws stack : List Text) (hws : ∀ w ∈ ws, '/' ∉ w) (hs : ∀ v ∈ stack, IsElement v) :
      ∀ v ∈ ws.foldl (pushElement (rooted path)) stack, IsElement v := by
    induction ws generalizing stack with
    | nil => exact hs
    | cons w ws ih =>
      rw [forall_mem_cons] at hws
      exact ih _ hws.2 (pushElement_isElement hws.1 hs)
  intro w hw
  exact h _ [] (fun v hv => notMem_of_mem_splitOn hv) nofun w (mem_reverse.mp hw)

theorem elements_upFirst : UpFirst (elements path) := by
  have h (ws stack : List Text) (hs : UpFirst stack.reverse) :
      UpFirst (ws.foldl (pushElement (rooted path)) stack).reverse := by
    induction ws generalizing stack with
    | nil => exact hs
    | cons w ws ih => exact ih _ (pushElement_upFirst hs)
  exact h _ [] List.Pairwise.nil

variable {path : Text}

theorem ne_nil_of_rooted (h : rooted path = true) : path ≠ [] := by
  rintro rfl
  cases h

theorem rooted_append (h : path ≠ []) (rest : Text) : rooted (path ++ rest) = rooted path := by
  cases path with
  | nil => exact absurd rfl h
  | cons c path => rfl

theorem elements_append (h : path ≠ []) (rest : Text) : elements (path ++ '/' :: rest) =
      ((rest.splitOn '/').foldl (pushElement (rooted path)) (elements path).reverse).reverse := by
  unfold elements
  rw [rooted_append h, splitOn_append_cons_self, foldl_append, reverse_reverse]

theorem clean_append_slash (h : path ≠ []) : clean (path ++ ['/']) = clean path := by
  have helements : elements (path ++ ['/']) = elements path := by
    rw [elements_append h]
    exact reverse_reverse _
  rw [clean_eq_render, clean_eq_render, rooted_append h, helements]

section Render

variable {es es' : List Text}

section

variable (h : ∀ w ∈ es, IsElement w)

include h

theorem intercalate_eq_nil (hnil : ['/'].intercalate es = []) : es = [] := by
  cases es with
  | nil => rfl
  | cons w ws =>
    have hw := (h w mem_cons_self).ne_nil
    cases ws with
    | nil =>
      rw [intercalate_singleton] at hnil
      exact absurd hnil hw
    | cons v vs =>
      rw [intercalate_cons_cons, append_assoc, append_eq_nil_iff] at hnil
      exact absurd hnil.1 hw

theorem splitOn_intercalate_elements (hne : es ≠ []) :
    (['/'].intercalate es).splitOn '/' = es :=
  splitOn_intercalate '/' (fun w hw => (h w hw).no_slash) hne

theorem intercalate_injective (h' : ∀ w ∈ es', IsElement w)
    (heq : ['/'].intercalate es = ['/'].intercalate es') : es = es' := by
  by_cases hne : es = []
  · subst hne
    exact (intercalate_eq_nil h' heq.symm).symm
  · have hne' : es' ≠ [] := by
      rintro rfl
      exact hne (intercalate_eq_nil h heq)
    rw [← splitOn_intercalate_elements h hne, heq, splitOn_intercalate_elements h' hne']

end

theorem intercalate_append (hne : es ≠ []) (hne' : es' ≠ []) :
    ['/'].intercalate (es ++ es') = ['/'].intercalate es ++ '/' :: ['/'].intercalate es' := by
  induction es with
  | nil => exact absurd rfl hne
  | cons w ws ih =>
    cases ws with
    | nil =>
      rw [singleton_append, intercalate_cons_of_ne_nil hne', intercalate_singleton, append_assoc, singleton_append]
    | cons v vs =>
      have ih := ih (cons_ne_nil v vs)
      rw [cons_append] at ih
      rw [cons_append, cons_append, intercalate_cons_cons, ih, intercalate_cons_cons]
      simp only [append_assoc]

section

variable (h : ∀ w ∈ es, IsElement w)

include h

theorem intercalate_slash_prefix (h' : ∀ w ∈ es', IsElement w)
    (hne : es ≠ []) : ['/'].intercalate es ++ ['/'] <+: ['/'].intercalate es' ↔ ∃ r, r ≠ [] ∧ es' = es ++ r := by
  constructor
  · rintro ⟨rest, hrest⟩
    rw [append_assoc, singleton_append] at hrest
    have hne' : es' ≠ [] := by
      rintro rfl
      exact absurd hrest (by simp)
    refine ⟨rest.splitOn '/', splitOn_ne_nil '/' rest, ?_⟩
    rw [← splitOn_intercalate_elements h' hne', ← hrest, splitOn_append_cons_self, splitOn_intercalate_elements h hne]
  · rintro ⟨r, hr, rfl⟩
    refine ⟨['/'].intercalate r, ?_⟩
    rw [intercalate_append hne hr, append_assoc, singleton_append]

theorem head_intercalate : (['/'].intercalate es).head? ≠ some '/' := by
  cases es with
  | nil => exact nofun
  | cons w ws =>
    have hw := h w mem_cons_self
    have hhead : (['/'].intercalate (w :: ws)).head? = w.head? := by
      cases ws with
      | nil => rw [intercalate_singleton]
      | cons v vs =>
        rw [intercalate_cons_cons, append_assoc, List.head?_append_of_ne_nil _ hw.ne_nil]
    rw [hhead]
    exact fun hslash => hw.no_slash (mem_of_mem_head? hslash)

theorem render_false (hne : es ≠ []) : render false es = ['/'].intercalate es := by
  refine if_neg (fun hnil => ?_)
  exact hne (intercalate_eq_nil h hnil)

end

theorem intercalate_concat (es : List Text) (w : Text) : ∃ front, ['/'].intercalate (es ++ [w]) = front ++ w := by
  by_cases hne : es = []
  · subst hne
    exact ⟨[], intercalate_singleton ..⟩
  · refine ⟨['/'].intercalate es ++ ['/'], ?_⟩
    rw [intercalate_append hne (cons_ne_nil w []), intercalate_singleton, append_assoc]
    rfl

theorem getLast_render {absolute : Bool} (h : ∀ w ∈ es, IsElement w)
    (hlast : (render absolute es).getLast? = some '/') : absolute = true ∧ es = [] := by
  rcases eq_nil_or_concat es with rfl | ⟨init, w, rfl⟩
  · cases absolute with
    | true => exact ⟨rfl, rfl⟩
    | false => exact absurd hlast (by decide)
  · rw [concat_eq_append] at h hlast
    have hw := h w (mem_append_right _ mem_cons_self)
    obtain ⟨front, hfront⟩ := intercalate_concat init w
    have hmem : ∃ front, render absolute (init ++ [w]) = front ++ w := by
      cases absolute with
      | true => exact ⟨'/' :: front, congrArg _ hfront⟩
      | false => exact ⟨front, (render_false h (by simp)).trans hfront⟩
    obtain ⟨front, hrender⟩ := hmem
    rw [hrender, List.getLast?_append_of_ne_nil _ hw.ne_nil] at hlast
    exact absurd (mem_of_mem_getLast? hlast) hw.no_slash

theorem mem_intercalate {c : Char} (hc : c ≠ '/') : c ∈ ['/'].intercalate es ↔ ∃ w ∈ es, c ∈ w := by
  induction es with
  | nil => simp
  | cons w ws ih =>
    by_cases hws : ws = []
    · simp [hws]
    · rw [intercalate_cons_of_ne_nil hws, mem_append, mem_append, ih, exists_mem_cons_iff]
      simp [hc]

theorem mem_render {ch : Char} (hch : ch ≠ '/') : ch ∈ render true es ↔ ∃ e ∈ es, ch ∈ e := by
  rw [← mem_intercalate hch, render, if_pos rfl, mem_cons, or_iff_right hch]

theorem render_ne_nil (absolute : Bool) (es : List Text) : render absolute es ≠ [] := by
  unfold render
  dsimp only
  split
  · exact cons_ne_nil _ _
  · split
    · exact cons_ne_nil _ _
    · next hne => exact hne

theorem rooted_render (absolute : Bool) (h : ∀ w ∈ es, IsElement w) : rooted (render absolute es) = absolute := by
  cases absolute with
  | true => rfl
  | false =>
    by_cases hne : es = []
    · subst hne
      rfl
    · rw [render_false h hne]
      exact decide_eq_false (head_intercalate h)

theorem rooted_of_within {a b : Text} (ha : a ≠ []) (h : within a b = true) : rooted a = rooted b := by
  obtain rfl | ⟨rest, rfl⟩ := within_iff.mp h
  · rfl
  · cases a with
    | nil => exact absurd rfl ha
    | cons c a => rfl

theorem not_within_dot (h : ∀ w ∈ es, IsElement w) (hne : es ≠ []) : within ['.'] (['/'].intercalate es) = false := by
  refine Bool.eq_false_iff.mpr (fun hw => ?_)
  have hdot : ['.'] ∈ (['/'].intercalate es).splitOn '/' := by
    obtain heq | ⟨rest, hrest⟩ := within_iff.mp hw
    · rw [heq, splitOn_eq_singleton (by decide)]
      exact mem_singleton_self _
    · rw [← hrest]
      change ['.'] ∈ (['.'] ++ '/' :: rest).splitOn '/'
      exact mem_cons_self
  rw [splitOn_intercalate_elements h hne] at hdot
  exact (h _ hdot).ne_dot rfl

theorem within_intercalate (h : ∀ w ∈ es, IsElement w) (h' : ∀ w ∈ es', IsElement w)
    (hne : es ≠ []) : within (['/'].intercalate es) (['/'].intercalate es') = true ↔ es <+: es' := by
  rw [within_iff, intercalate_slash_prefix h h' hne]
  constructor
  · rintro (heq | ⟨r, _, rfl⟩)
    · obtain rfl := intercalate_injective h' h heq
      exact prefix_refl _
    · exact prefix_append es r
  · rintro ⟨r, rfl⟩
    by_cases hr : r = []
    · subst hr
      rw [append_nil]
      exact .inl rfl
    · exact .inr ⟨r, hr, rfl⟩

theorem within_render (absolute : Bool) (h : ∀ w ∈ es, IsElement w)
    (h' : ∀ w ∈ es', IsElement w) : within (render absolute es) (render absolute es') = true ↔
      es = es' ∨ es ≠ [] ∧ es <+: es' := by
  by_cases hne : es = []
  · subst hne
    have hleft : ([] = es' ∨ ([] : List Text) ≠ [] ∧ [] <+: es') ↔ es' = [] :=
      ⟨fun hor => hor.elim Eq.symm (fun hand => absurd rfl hand.1), fun he => .inl he.symm⟩
    rw [hleft]
    by_cases hne' : es' = []
    · subst hne'
      exact ⟨fun _ => rfl, fun _ => within_refl _⟩
    · refine ⟨fun hw => absurd hw ?_, fun he => absurd he hne'⟩
      cases absolute with
      | true =>
        intro hw
        obtain heq | ⟨rest, hrest⟩ := within_iff.mp hw
        · exact hne' (intercalate_eq_nil h' (List.cons.inj heq).2)
        · refine head_intercalate h' ?_
          rw [← (List.cons.inj hrest).2]
          rfl
      | false =>
        rw [render_false h' hne']
        exact Bool.eq_false_iff.mp (not_within_dot h' hne')
  · have hright : (es = es' ∨ es ≠ [] ∧ es <+: es') ↔ es <+: es' := by
      refine ⟨fun hor => hor.elim (fun he => he ▸ prefix_refl es) And.right, fun hp => ?_⟩
      exact .inr ⟨hne, hp⟩
    rw [hright, ← within_intercalate h h' hne]
    cases absolute with
    | true =>
      rw [within_iff, within_iff]
      exact or_congr ⟨fun he => (List.cons.inj he).2, congrArg _⟩ (prefix_cons_inj '/')
    | false =>
      rw [render_false h hne]
      by_cases hne' : es' = []
      · subst hne'
        rw [within_intercalate h h' hne]
        refine ⟨fun hw => ?_, fun hp => absurd (prefix_nil.mp hp) hne⟩
        obtain heq | hp := within_iff.mp hw
        · have hdot := not_within_dot h hne
          rw [← heq] at hdot
          exact absurd (within_refl _) (Bool.eq_false_iff.mp hdot)
        · have hlen := hp.length_le
          rw [length_append] at hlen
          have hzero := eq_nil_of_length_eq_zero (Nat.le_zero.mp (Nat.le_of_succ_le_succ hlen))
          exact absurd (intercalate_eq_nil h hzero) hne
      · rw [render_false h' hne']

theorem within_clean_iff {a b : Text} : within (clean a) (clean b) = true ↔ rooted a = rooted b ∧
    (elements a = elements b ∨ elements a ≠ [] ∧ elements a <+: elements b) := by
  have ha := elements_isElement a
  have hb := elements_isElement b
  rw [clean_eq_render, clean_eq_render]
  constructor
  · intro h
    have hroot := rooted_of_within (render_ne_nil _ _) h
    rw [rooted_render _ ha, rooted_render _ hb] at hroot
    rw [← hroot] at h
    exact ⟨hroot, (within_render _ ha hb).mp h⟩
  · rintro ⟨hroot, h⟩
    rw [← hroot]
    exact (within_render _ ha hb).mpr h

end Render

end Wireops.Lib.Paths
