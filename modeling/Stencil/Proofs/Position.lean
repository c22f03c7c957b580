/-
  Positions in a list, and the position of an element in a list without repetitions.
-/
import Mathlib.Data.List.Nodup

namespace Stencil

variable {α : Type}

/-- All positions of a list give its elements. -/
theorem map_getElem?_range (l : List α) : (List.range l.length).map (l[·]?) = l.map some :=
  List.ext_getElem (by simp) (by simp)

variable [DecidableEq α]

theorem idxOf?_eq_some_iff_getElem? {l : List α} (hl : l.Nodup) {a : α} {i : Nat} :
    l.idxOf? a = some i ↔ l[i]? = some a := by
  rw [List.idxOf?_eq_some_iff, List.getElem?_eq_some_iff]
  constructor
  · rintro ⟨hi, ha, -⟩
    exact ⟨hi, ha⟩
  · rintro ⟨hi, ha⟩
    refine ⟨hi, ha, fun j hj h => ?_⟩
    have := (List.Nodup.getElem_inj_iff hl).1 (h.trans ha.symm)
    omega

end Stencil
