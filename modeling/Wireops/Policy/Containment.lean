import Wireops.Lib.Paths
import Wireops.Policy.Coverage

namespace Wireops.Policy.Containment

open List Lib.Strings Lib.Paths Policy.Compose Policy.Coverage

variable {entry path : Text}

/-- The path is the directory that the entry names, or leads down from it. -/
def AtOrBelow (entry path : Text) : Prop :=
  rooted entry = rooted path ∧ ∃ down, elements path = elements entry ++ down ∧ ['.', '.'] ∉ down

/-- The entry names the root or the working directory, and the path lies below. -/
def BelowBare (entry path : Text) : Prop :=
  elements entry = [] ∧ elements path ≠ [] ∧ AtOrBelow entry path

/-- The path goes up from the directory that the entry names. -/
def Climbs (entry path : Text) : Prop :=
  rooted entry = rooted path ∧ elements entry ≠ [] ∧ ∃ up, elements path = elements entry ++ ['.', '.'] :: up

theorem climbs_of_up {down : List Text} (hroot : rooted entry = rooted path)
    (hne : elements entry ≠ []) (hpath : elements path = elements entry ++ down)
    (hup : ['.', '.'] ∈ down) : Climbs entry path := by
  have hfirst := elements_upFirst path
  rw [hpath, UpFirst, pairwise_append] at hfirst
  cases down with
  | nil => cases hup
  | cons w rest =>
    have hw : w = ['.', '.'] := by
      obtain rfl | hup := mem_cons.mp hup
      · rfl
      · exact (pairwise_cons.mp hfirst.2.1).1 _ hup rfl
    subst hw
    exact ⟨hroot, hne, rest, hpath⟩

theorem not_belowBare_of_climbs {entry' : Text} (h : Climbs entry path) : ¬ BelowBare entry' path := by
  rintro ⟨hnil, _, _, down, hdown, hup⟩
  obtain ⟨_, _, up, hpath⟩ := h
  rw [hnil, nil_append] at hdown
  refine hup ?_
  rw [← hdown, hpath]
  exact mem_append_right _ mem_cons_self

theorem within_clean_iff_atOrBelow : within (clean entry) (clean path) = true ↔
    AtOrBelow entry path ∧ ¬ BelowBare entry path ∨ Climbs entry path := by
  rw [within_clean_iff]
  constructor
  · rintro ⟨hroot, heq | ⟨hne, down, hdown⟩⟩
    · refine .inl ⟨⟨hroot, [], ?_, not_mem_nil⟩, fun hbare => ?_⟩
      · rw [append_nil, heq]
      · exact hbare.2.1 (heq ▸ hbare.1)
    · by_cases hup : ['.', '.'] ∈ down
      · exact .inr (climbs_of_up hroot hne hdown.symm hup)
      · exact .inl ⟨⟨hroot, down, hdown.symm, hup⟩, fun hbare => hne hbare.1⟩
  · rintro (⟨⟨hroot, down, hdown, hup⟩, hbare⟩ | ⟨hroot, hne, up, hpath⟩)
    · refine ⟨hroot, ?_⟩
      by_cases hne : elements entry = []
      · refine .inl (by_contra (fun hdiff => ?_))
        refine hbare ⟨hne, fun hnil => hdiff (hne.trans hnil.symm), hroot, down, hdown, hup⟩
      · exact .inr ⟨hne, down, hdown.symm⟩
    · exact ⟨hroot, .inr ⟨hne, _, hpath.symm⟩⟩

/-- The entries that the comparison of texts gets wrong do not decide: another
entry of the list is at or above the path. -/
def Decided (allowed : List Text) (path : Text) : Prop :=
  (∃ a ∈ allowed, BelowBare a path ∨ Climbs a path) → ∃ a ∈ allowed, AtOrBelow a path ∧ ¬ BelowBare a path

theorem bindMount_check_exact_iff {p : WorkerPolicy} {vol : Text} (hb : p.blockHostVolumes = false)
    (ha : p.allowedVolumes ≠ []) (hh : isHostPath (before ':' vol) = true) :
    (validateSingleVolume p vol = .ok () ↔ ∃ a ∈ p.allowedVolumes, AtOrBelow a (before ':' vol)) ↔
      Decided p.allowedVolumes (before ':' vol) := by
  have hcheck : validateSingleVolume p vol = .ok () ↔
      ∃ a ∈ p.allowedVolumes, AtOrBelow a (before ':' vol) ∧ ¬ BelowBare a (before ':' vol) ∨
        Climbs a (before ':' vol) := by
    rw [validateSingleVolume_ok]
    simp only [permitsVolume, hh, if_true, within_clean_iff_atOrBelow]
    exact ⟨fun h => h.2.resolve_left ha, fun h => ⟨fun _ => hb, .inr h⟩⟩
  rw [hcheck]
  constructor
  · rintro h ⟨a, hmem, hbare | hclimbs⟩
    · -- the path lies below the entry, so some entry must accept it
      obtain ⟨b, hb, hgood | hclimbs⟩ := h.mpr ⟨a, hmem, hbare.2.2⟩
      · exact ⟨b, hb, hgood⟩
      · exact absurd hbare (not_belowBare_of_climbs hclimbs)
    · obtain ⟨b, hb, hbelow⟩ := h.mp ⟨a, hmem, .inr hclimbs⟩
      exact ⟨b, hb, hbelow, not_belowBare_of_climbs hclimbs⟩
  · intro h
    constructor
    · rintro ⟨a, hmem, hgood | hclimbs⟩
      · exact ⟨a, hmem, hgood.1⟩
      · obtain ⟨b, hb, hbelow, _⟩ := h ⟨a, hmem, .inr hclimbs⟩
        exact ⟨b, hb, hbelow⟩
    · rintro ⟨a, hmem, hbelow⟩
      by_cases hbare : BelowBare a (before ':' vol)
      · obtain ⟨b, hb, hgood⟩ := h ⟨a, hmem, .inl hbare⟩
        exact ⟨b, hb, .inl hgood⟩
      · exact ⟨a, hmem, .inl ⟨hbelow, hbare⟩⟩

/-- The entry `/` permits nothing below it, and `../` permits what is above. -/
theorem root_entry_rejects_below :
    (validateSingleVolume { allowedVolumes := ["/".toList] } "/srv:/srv".toList ≠ .ok () ∧
      AtOrBelow "/".toList "/srv".toList) ∧
    (validateSingleVolume { allowedVolumes := ["../".toList] } "../../etc:/etc".toList = .ok () ∧
      ¬ AtOrBelow "../".toList "../../etc".toList) := by
  refine ⟨⟨by decide, rfl, ["srv".toList], rfl, by decide⟩, rfl, ?_⟩
  rintro ⟨_, down, hdown, hup⟩
  have hdown : ["..".toList] ++ ["..".toList, "etc".toList] = ["..".toList] ++ down := hdown
  obtain rfl := append_cancel_left hdown
  exact hup mem_cons_self

theorem dotted_entry_permits_below :
    validateSingleVolume { allowedVolumes := ["/srv/./data/".toList] } "/srv/data/x:/x".toList = .ok () ↔
      ∃ a ∈ ["/srv/./data/".toList], AtOrBelow a "/srv/data/x".toList := by
  refine (@bindMount_check_exact_iff { allowedVolumes := ["/srv/./data/".toList] }
    "/srv/data/x:/x".toList rfl (by decide) rfl).mpr (fun _ => ?_)
  exact ⟨_, mem_cons_self, ⟨rfl, ["x".toList], rfl, by decide⟩, fun h => nomatch h.1⟩

end Wireops.Policy.Containment
