import Mathlib.Data.List.Forall2
import Wireops.Lib.Flow

namespace Wireops.Lib.Sweep

open Function List Lib.Flow

variable {K V W ε : Type}

def times (f : V → Except ε V) : Nat → V → Except ε V
  | 0, v => .ok v
  | n + 1, v => f v >>= times f n

section Times

variable {f : V → Except ε V}

theorem times_succ_ok {n : Nat} {v w : V} : times f (n + 1) v = .ok w ↔ ∃ u, f v = .ok u ∧ times f n u = .ok w :=
  bind_eq_ok_iff

theorem times_snoc_ok {n : Nat} {v w : V} : times f (n + 1) v = .ok w ↔ ∃ u, times f n v = .ok u ∧ f u = .ok w := by
  induction n generalizing v with
  | zero =>
    rw [times_succ_ok]
    constructor
    · rintro ⟨u, hf, hu⟩
      cases hu
      exact ⟨v, rfl, hf⟩
    · rintro ⟨u, hu, hf⟩
      cases hu
      exact ⟨w, hf, rfl⟩
  | succ n ih =>
    rw [times_succ_ok]
    constructor
    · rintro ⟨u, hf, hu⟩
      obtain ⟨x, hx, hw⟩ := ih.mp hu
      exact ⟨x, times_succ_ok.mpr ⟨u, hf, hx⟩, hw⟩
    · rintro ⟨x, hx, hw⟩
      obtain ⟨u, hf, hu⟩ := times_succ_ok.mp hx
      exact ⟨u, hf, ih.mpr ⟨x, hu, hw⟩⟩

theorem times_fixed {v : V} (h : f v = .ok v) (n : Nat) : times f n v = .ok v := by
  induction n with
  | zero => rfl
  | succ n ih => exact times_succ_ok.mpr ⟨v, h, ih⟩

theorem times_settled {v u w : V} (h : f v = .ok u) (hu : f u = .ok u) (n : Nat) :
    times f (n + 1) v = .ok w ↔ w = u := by
  rw [times_succ_ok]
  constructor
  · rintro ⟨x, hx, hw⟩
    cases h.symm.trans hx
    cases (times_fixed hu n).symm.trans hw
    rfl
  · rintro rfl
    exact ⟨w, h, times_fixed hu n⟩

theorem times_map {e : W → V} {g : W → Except ε W} (h : ∀ x, f (e x) = (g x).map e) (n : Nat)
    (x : W) : times f n (e x) = (times g n x).map e := by
  induction n generalizing x with
  | zero => rfl
  | succ n ih =>
    change f (e x) >>= times f n = (g x >>= times g n).map e
    rw [h]
    cases g x with
    | error err => rfl
    | ok y => exact ih y

end Times

theorem map_eq_ok_iff {x : Except ε V} {g : V → W} {w : W} : x.map g = .ok w ↔ ∃ v, x = .ok v ∧ g v = w := by
  cases x with
  | error e =>
    constructor
    · intro h
      cases h
    · rintro ⟨v, h, _⟩
      cases h
  | ok v =>
    constructor
    · intro h
      cases h
      exact ⟨v, rfl, rfl⟩
    · rintro ⟨u, h, rfl⟩
      cases h
      rfl

section Lists

variable {f : V → Except ε W}

theorem mapM_ok_iff {xs : List V} {ys : List W} :
    xs.mapM f = .ok ys ↔ List.Forall₂ (fun x y => f x = .ok y) xs ys := by
  induction xs generalizing ys with
  | nil =>
    rw [mapM_nil, forall₂_nil_left_iff]
    constructor
    · intro h
      cases h
      rfl
    · rintro rfl
      rfl
  | cons x xs ih =>
    rw [mapM_cons, forall₂_cons_left_iff, bind_eq_ok_iff]
    constructor
    · rintro ⟨y, hy, h⟩
      obtain ⟨zs, hzs, h⟩ := bind_eq_ok_iff.mp h
      cases h
      exact ⟨y, zs, hy, ih.mp hzs, rfl⟩
    · rintro ⟨y, zs, hy, hzs, rfl⟩
      exact ⟨y, hy, bind_eq_ok_iff.mpr ⟨zs, ih.mpr hzs, rfl⟩⟩

theorem forall₂_comp {A B C : Type} {R : A → B → Prop} {S : B → C → Prop} {xs : List A} {zs : List C} :
    List.Forall₂ (fun x z => ∃ y, R x y ∧ S y z) xs zs ↔ ∃ ys, List.Forall₂ R xs ys ∧ List.Forall₂ S ys zs := by
  constructor
  · intro h
    induction h with
    | nil => exact ⟨[], .nil, .nil⟩
    | cons h _ ih =>
      obtain ⟨y, hR, hS⟩ := h
      obtain ⟨ys, hRs, hSs⟩ := ih
      exact ⟨y :: ys, .cons hR hRs, .cons hS hSs⟩
  · rintro ⟨ys, hR, hS⟩
    induction hR generalizing zs with
    | nil =>
      cases hS
      exact .nil
    | cons h _ ih =>
      cases hS with
      | cons h' hS => exact .cons ⟨_, h, h'⟩ (ih hS)

theorem times_mapM_ok_iff {f : V → Except ε V} {n : Nat} {xs ys : List V} :
    times (fun l => l.mapM f) n xs = .ok ys ↔ List.Forall₂ (fun x y => times f n x = .ok y) xs ys := by
  induction n generalizing xs with
  | zero =>
    simp only [times, Except.ok.injEq]
    exact (forall₂_eq_eq_eq (α := V)).symm ▸ Iff.rfl
  | succ n ih =>
    simp only [times_succ_ok, mapM_ok_iff, ih]
    exact forall₂_comp.symm

end Lists

section Tables

variable [DecidableEq K] {f : K → V → Except ε V} {m m' : K → Option V}

def visit (f : K → V → Except ε V) (m : K → Option V) (k : K) : Except ε (K → Option V) :=
  match m k with
  | none => .ok m
  | some v => (f k v).map (fun w => update m k (some w))

def sweep (f : K → V → Except ε V) (keys : List K) (m : K → Option V) : Except ε (K → Option V) :=
  keys.foldlM (visit f) m

def visited (f : V → Except ε V) (n : Nat) : Option V → Except ε (Option V)
  | none => .ok none
  | some v => (times f n v).map some

theorem visit_ok_iff {k : K} : visit f m k = .ok m' ↔
    visited (f k) 1 (m k) = .ok (m' k) ∧ ∀ i, i ≠ k → m' i = m i := by
  unfold visit
  cases hm : m k with
  | none =>
    constructor
    · intro h
      cases h
      exact ⟨congrArg Except.ok hm.symm, fun _ _ => rfl⟩
    · rintro ⟨hk, hother⟩
      refine congrArg Except.ok (funext fun i => ?_)
      by_cases hi : i = k
      · subst hi
        exact hm.trans (Except.ok.inj hk)
      · exact (hother i hi).symm
  | some v =>
    rw [visited, map_eq_ok_iff, map_eq_ok_iff]
    simp only [times_succ_ok]
    constructor
    · rintro ⟨w, hw, rfl⟩
      refine ⟨⟨w, ⟨w, hw, rfl⟩, ?_⟩, fun i hi => update_of_ne hi ..⟩
      rw [update_self]
    · rintro ⟨⟨w, ⟨u, hu, hw⟩, hk⟩, hother⟩
      cases hw
      refine ⟨w, hu, funext fun i => ?_⟩
      by_cases hi : i = k
      · subst hi
        rw [update_self, hk]
      · rw [update_of_ne hi, hother i hi]

theorem visited_succ_ok {f : V → Except ε V} {n : Nat} {o o' : Option V} :
    visited f (n + 1) o = .ok o' ↔ ∃ x, visited f 1 o = .ok x ∧ visited f n x = .ok o' := by
  cases o with
  | none =>
    constructor
    · intro h
      exact ⟨none, rfl, h⟩
    · rintro ⟨x, hx, h⟩
      cases hx
      exact h
  | some v =>
    simp only [visited, map_eq_ok_iff, times_succ_ok]
    constructor
    · rintro ⟨w, ⟨u, hu, hw⟩, rfl⟩
      exact ⟨some u, ⟨u, ⟨u, hu, rfl⟩, rfl⟩, map_eq_ok_iff.mpr ⟨w, hw, rfl⟩⟩
    · rintro ⟨x, ⟨u, ⟨u', hu, hu'⟩, rfl⟩, h⟩
      cases hu'
      obtain ⟨w, hw, rfl⟩ := map_eq_ok_iff.mp h
      exact ⟨w, ⟨u, hu, hw⟩, rfl⟩

theorem sweep_ok_iff [BEq K] [LawfulBEq K] {keys : List K} :
    sweep f keys m = .ok m' ↔ ∀ k, visited (f k) (keys.count k) (m k) = .ok (m' k) := by
  induction keys generalizing m with
  | nil =>
    have hzero (k : K) : visited (f k) 0 (m k) = .ok (m k) := by
      cases m k <;> rfl
    simp only [count_nil, hzero, Except.ok.injEq]
    constructor
    · intro h
      cases h
      exact fun _ => rfl
    · intro h
      exact congrArg Except.ok (funext h)
  | cons a keys ih =>
    rw [sweep, foldlM_cons, bind_eq_ok_iff]
    change (∃ u, visit f m a = .ok u ∧ sweep f keys u = .ok m') ↔ _
    simp only [visit_ok_iff, ih]
    constructor
    · rintro ⟨u, ⟨hu, hother⟩, h⟩ k
      by_cases hk : k = a
      · subst hk
        rw [count_cons_self, visited_succ_ok]
        exact ⟨u k, hu, h k⟩
      · rw [count_cons_of_ne (Ne.symm hk), ← hother k hk]
        exact h k
    · intro h
      have ha := h a
      rw [count_cons_self, visited_succ_ok] at ha
      obtain ⟨x, hx, hrest⟩ := ha
      refine ⟨update m a x, ⟨?_, fun i hi => update_of_ne hi ..⟩, fun k => ?_⟩
      · rw [update_self]
        exact hx
      · by_cases hk : k = a
        · subst hk
          rw [update_self]
          exact hrest
        · rw [update_of_ne hk]
          have hk' := h k
          rwa [count_cons_of_ne (Ne.symm hk)] at hk'

end Tables

end Wireops.Lib.Sweep
