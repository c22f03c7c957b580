/-
  Names in order, each once.

  * `IsListing P names`: the list holds the names with a property, in order and each once;
  * `isListing_mergeSort` and `isListing_keys`: sorting a list and reading the keys of a map
    give such lists, and a filter of one is one.
-/
import Mathlib.Data.List.Sort
import Mathlib.Data.String.Basic
import Std.Data.ExtTreeMap

namespace Stencil

/-- The names with a property, in order and each once. -/
structure IsListing (P : String → Prop) (names : List String) : Prop where
  sorted : names.Pairwise (· < ·)
  mem_iff : ∀ name, name ∈ names ↔ P name

variable {P : String → Prop} {names : List String}

theorem IsListing.congr {Q : String → Prop} (h : IsListing P names) (hPQ : ∀ name, P name ↔ Q name) :
    IsListing Q names :=
  ⟨h.sorted, fun name => (h.mem_iff name).trans (hPQ name)⟩

theorem IsListing.filter (h : IsListing P names) (p : String → Bool) :
    IsListing (fun name => P name ∧ p name = true) (names.filter p) :=
  ⟨h.sorted.filter p, fun name => by rw [List.mem_filter, h.mem_iff]⟩

theorem IsListing.eq_nil_iff (h : IsListing P names) : names = [] ↔ ∀ name, ¬P name := by
  rw [List.eq_nil_iff_forall_not_mem]
  exact forall_congr' fun name => not_congr (h.mem_iff name)

theorem nodup_eraseDups {α : Type} [BEq α] [LawfulBEq α] : (l : List α) → l.eraseDups.Nodup
  | [] => by simp
  | a :: l => by
    rw [List.eraseDups_cons, List.nodup_cons]
    exact ⟨by simp, nodup_eraseDups (l.filter fun b => !b == a)⟩
termination_by l => l.length
decreasing_by exact Nat.lt_succ_of_le (List.length_filter_le ..)

/-- Sorting a list without its repetitions lists its elements. -/
theorem isListing_mergeSort (l : List String) : IsListing (· ∈ l) l.eraseDups.mergeSort := by
  have hle : l.eraseDups.mergeSort.Pairwise (· ≤ ·) := List.pairwise_mergeSort' (· ≤ ·) _
  have hne : l.eraseDups.mergeSort.Nodup :=
    (List.mergeSort_perm ..).nodup_iff.2 (nodup_eraseDups l)
  refine ⟨(hle.and hne).imp fun h => lt_of_le_of_ne h.1 h.2, fun name => ?_⟩
  rw [List.mem_mergeSort, List.mem_eraseDups]

/-- The keys of a map are listed. -/
theorem isListing_keys {ν : Type} (m : Std.ExtTreeMap String ν) : IsListing (· ∈ m) m.keys :=
  ⟨Std.ExtTreeMap.ordered_keys.imp compare_lt_iff_lt.1, fun _ => Std.ExtTreeMap.mem_keys⟩

end Stencil
