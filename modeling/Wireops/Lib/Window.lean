import Mathlib.Data.List.Basic

namespace Wireops.Lib.Window

open Function List

/-- The times that are less than a window ago. -/
def live (window now : Nat) (times : List Nat) : List Nat := times.filter (fun t => now - t < window)

/-- The times of a stretch as long as the window. -/
def inWindow (window start : Nat) (times : List Nat) : List Nat :=
  times.filter (fun t => start ≤ t && t < start + window)

def Bounded (limit window : Nat) (times : List Nat) : Prop :=
  ∀ start, (inWindow window start times).length ≤ limit

section Limiter

variable {K : Type} [DecidableEq K] {limit window now now' : Nat} {requests : K → List Nat} {k i : K}
variable {admitted : List Nat}

/-- Take a request under a key if the window has room for it. -/
def allow (limit window now : Nat) (requests : K → List Nat) (k : K) : (K → List Nat) × Bool :=
  let valid := live window now (requests k)
  if limit ≤ valid.length then (update requests k valid, false)
  else (update requests k (valid ++ [now]), true)

def cleanup (window now : Nat) (requests : K → List Nat) : K → List Nat :=
  fun k => live window now (requests k)

omit [DecidableEq K] in
theorem live_live_of_le (h : now ≤ now') (times : List Nat) :
    live window now' (live window now times) = live window now' times := by
  rw [live, live, filter_filter]
  refine filter_congr (fun t _ => ?_)
  rw [Bool.and_eq_left_iff_imp, decide_eq_true_eq, decide_eq_true_eq]
  omega

structure Tracks (limit window now : Nat) (times admitted : List Nat) : Prop where
  known : (live window now admitted).Sublist times
  bounded : Bounded limit window admitted

variable {times : List Nat}

theorem Tracks.init (limit window now : Nat) : Tracks limit window now times [] where
  known := nil_sublist _
  bounded _ := Nat.zero_le _

section

variable (h : Tracks limit window now times admitted)

include h

theorem Tracks.forget (hle : now ≤ now') :
    Tracks limit window now' (live window now' times) admitted where
  known := by
    have hsub := h.known.filter (fun t => decide (now' - t < window))
    rw [← live_live_of_le hle]
    exact hsub
  bounded := h.bounded

theorem Tracks.later (hle : now ≤ now') :
    Tracks limit window now' times admitted where
  known := (h.forget hle).known.trans filter_sublist
  bounded := h.bounded

theorem Tracks.more (t : Nat) :
    Tracks limit window now (times ++ [t]) admitted where
  known := h.known.trans (sublist_append_left ..)
  bounded := h.bounded

end

theorem inWindow_live {start : Nat} (hend : now < start + window)
    (times : List Nat) : (inWindow window start times).length ≤ (live window now times).length := by
  refine (monotone_filter_right times (fun t ht => ?_)).length_le
  rw [Bool.and_eq_true, decide_eq_true_eq, decide_eq_true_eq] at ht
  rw [decide_eq_true_eq]
  omega

theorem Tracks.counted (h : Tracks limit window now times admitted) (hroom : (live window now times).length < limit) :
    Tracks limit window now (live window now times ++ [now]) (admitted ++ [now]) where
  known := by
    have hknown := (h.forget (Nat.le_refl now)).known
    rw [live, filter_append]
    exact hknown.append filter_sublist
  bounded start := by
    rw [inWindow, filter_append, length_append]
    by_cases hin : start ≤ now ∧ now < start + window
    · have hlive := inWindow_live hin.2 admitted
      have hknown := (h.forget (Nat.le_refl now)).known.length_le
      have hone : ([now].filter (fun t => start ≤ t && t < start + window)).length ≤ 1 :=
        length_filter_le ..
      rw [inWindow] at hlive
      omega
    · have hnone : [now].filter (fun t => start ≤ t && t < start + window) = [] := by
        refine filter_eq_nil_iff.mpr (fun t ht => ?_)
        rw [mem_singleton.mp ht]
        simpa using hin
      rw [hnone, length_nil, Nat.add_zero]
      exact h.bounded start

theorem allow_of_full (h : limit ≤ (live window now (requests k)).length) :
    allow limit window now requests k = (update requests k (live window now (requests k)), false) :=
  if_pos h

theorem allow_of_room (h : (live window now (requests k)).length < limit) :
    allow limit window now requests k = (update requests k (live window now (requests k) ++ [now]), true) :=
  if_neg (Nat.not_le.mpr h)

theorem Tracks.allow (h : Tracks limit window now (requests i) admitted) (k : K) :
    Tracks limit window now ((allow limit window now requests k).1 i) admitted := by
  have hforget := h.forget (Nat.le_refl now)
  obtain hroom | hfull := Nat.lt_or_ge (live window now (requests k)).length limit
  · rw [allow_of_room hroom]
    by_cases hi : i = k
    · subst hi
      simpa using hforget.more now
    · simpa [hi] using h
  · rw [allow_of_full hfull]
    by_cases hi : i = k
    · subst hi
      simpa using hforget
    · simpa [hi] using h

theorem Tracks.allow_counted (h : Tracks limit window now (requests k) admitted)
    (hok : (Window.allow limit window now requests k).2 = true) :
    Tracks limit window now ((Window.allow limit window now requests k).1 k) (admitted ++ [now]) := by
  obtain hroom | hfull := Nat.lt_or_ge (live window now (requests k)).length limit
  · rw [allow_of_room hroom]
    simpa using h.counted hroom
  · rw [allow_of_full hfull] at hok
    cases hok

end Limiter

end Wireops.Lib.Window
