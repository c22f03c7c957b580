/-
  Groups: what belongs to each key, in order.

  `groups` collects entries of a key and a value; `getD_groups` says that the
  group of a key holds the values of its entries in the order of the entries.
-/
import Std.Data.ExtTreeMap

namespace Stencil

variable {κ ν : Type} [Ord κ] [Std.TransOrd κ]

/-- Put a value in front of the group of its key. -/
def consEntry (entry : κ × ν) (groups : Std.ExtTreeMap κ (List ν)) : Std.ExtTreeMap κ (List ν) :=
  groups.insert entry.1 (entry.2 :: groups.getD entry.1 [])

/-- The values of each key. -/
def groups (entries : List (κ × ν)) : Std.ExtTreeMap κ (List ν) :=
  entries.foldr consEntry ∅

/-- **The group of a key holds the values of its entries**, in order. -/
theorem getD_groups [DecidableEq κ] [Std.LawfulEqOrd κ] (entries : List (κ × ν)) (key : κ) :
    (groups entries).getD key [] = (entries.filter fun e => e.1 = key).map Prod.snd := by
  induction entries with
  | nil => simp [groups]
  | cons e rest ih =>
    rw [groups, List.foldr_cons, ← groups, consEntry, Std.ExtTreeMap.getD_insert]
    by_cases h : e.1 = key
    · subst h; simp [ih]
    · simp [h, ih]

/-- There is a group for each key of an entry. -/
theorem getElem?_groups [DecidableEq κ] [Std.LawfulEqOrd κ] (entries : List (κ × ν)) (key : κ) :
    (groups entries)[key]? =
      if key ∈ entries.map Prod.fst then
        some ((entries.filter fun e => e.1 = key).map Prod.snd)
      else none := by
  induction entries with
  | nil => simp [groups]
  | cons e rest ih =>
    rw [groups, List.foldr_cons, ← groups, consEntry, Std.ExtTreeMap.getElem?_insert, getD_groups]
    by_cases h : e.1 = key
    · subst h; simp
    · have hmem : key ∈ (e :: rest).map Prod.fst ↔ key ∈ rest.map Prod.fst := by
        simp [Ne.symm h]
      simp only [Std.LawfulEqOrd.compare_eq_iff_eq, h, ↓reduceIte, ih, hmem, decide_false,
        List.filter_cons_of_neg, Bool.false_eq_true, not_false_eq_true]

/-- Entries with the same group for each key have the same groups. -/
theorem groups_congr [DecidableEq κ] [Std.LawfulEqOrd κ] {entries others : List (κ × ν)}
    (h : ∀ key, (entries.filter fun e => e.1 = key) = others.filter fun e => e.1 = key) :
    groups entries = groups others := by
  refine Std.ExtTreeMap.ext_getElem? fun key => ?_
  have hmem : key ∈ entries.map Prod.fst ↔ key ∈ others.map Prod.fst := by
    have hfilter : ∀ l : List (κ × ν),
        key ∈ l.map Prod.fst ↔ (l.filter fun e => e.1 = key) ≠ [] := by
      intro l
      simp
    rw [hfilter, hfilter, h]
  rw [getElem?_groups, getElem?_groups, h key]
  simp only [hmem]

end Stencil
