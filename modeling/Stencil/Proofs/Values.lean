/-
  Values of pairs that agree, and of one collection over another.

  * `get?_override` and `size_override`: the values of two collections, where the later ones
    hold, and their number if no name is in both.
-/
import Stencil.Proofs.Listing
import Stencil.Values

namespace Stencil.Values

/-- The last pair of a name is the one behind which no other has the name. -/
theorem get?_ofPairs_eq_some_iff_append {pairs : List (String × String)} {name text : String} :
    (ofPairs pairs).get? name = some text ↔
      ∃ front back, pairs = front ++ (name, text) :: back ∧ ∀ p ∈ back, p.1 ≠ name := by
  have hlast : (pairs.filter fun p => p.1 = name).getLast? =
      pairs.reverse.find? fun p => p.1 = name := by
    rw [List.getLast?_eq_head?_reverse, ← List.filter_reverse, List.head?_filter]
  rw [get?_ofPairs, hlast, Option.map_eq_some_iff]
  constructor
  · rintro ⟨⟨_, _⟩, hfind, rfl⟩
    obtain ⟨hname, back, front, hpairs, hback⟩ := List.find?_eq_some_iff_append.1 hfind
    obtain rfl := of_decide_eq_true hname
    refine ⟨front.reverse, back.reverse, ?_, fun p hp => ?_⟩
    · rw [← List.reverse_reverse pairs, hpairs]
      simp
    · simpa using hback p (List.mem_reverse.1 hp)
  · rintro ⟨front, back, rfl, hback⟩
    refine ⟨(name, text), List.find?_eq_some_iff_append.2
      ⟨decide_eq_true rfl, back.reverse, front.reverse, by simp, fun p hp => ?_⟩, rfl⟩
    simpa using hback p (List.mem_reverse.1 hp)

/-- If pairs with one name have one text, then any of them is the last. -/
theorem getLast?_filter_eq_some {pairs : List (String × String)}
    (h : ∀ p ∈ pairs, ∀ q ∈ pairs, p.1 = q.1 → p.2 = q.2) {name text : String} :
    ((pairs.filter fun p => p.1 = name).getLast?).map Prod.snd = some text ↔
      (name, text) ∈ pairs := by
  rw [Option.map_eq_some_iff]
  constructor
  · rintro ⟨p, hlast, rfl⟩
    obtain ⟨hmem, hname⟩ := List.mem_filter.1 (List.mem_of_getLast? hlast)
    rwa [← of_decide_eq_true hname]
  · intro hmem
    have hfilter : (name, text) ∈ pairs.filter fun p => p.1 = name :=
      List.mem_filter.2 ⟨hmem, decide_eq_true rfl⟩
    obtain ⟨p, hlast⟩ := Option.isSome_iff_exists.1
      (List.getLast?_isSome.2 (List.ne_nil_of_mem hfilter))
    obtain ⟨hp, hname⟩ := List.mem_filter.1 (List.mem_of_getLast? hlast)
    exact ⟨p, hlast, h p hp _ hmem (of_decide_eq_true hname)⟩

/-- The value of a name is the text that its pairs agree on. -/
theorem get?_ofPairs_eq_some {pairs : List (String × String)}
    (h : ∀ p ∈ pairs, ∀ q ∈ pairs, p.1 = q.1 → p.2 = q.2) {name text : String} :
    (ofPairs pairs).get? name = some text ↔ (name, text) ∈ pairs := by
  rw [get?_ofPairs, getLast?_filter_eq_some h]

theorem mem_toList {v : Values} {name text : String} :
    (name, text) ∈ v.toList ↔ v.get? name = some text :=
  Std.ExtTreeMap.mem_toList_iff_getElem?_eq_some

/-- **The later values hold**, and the others where there are none. -/
theorem get?_override (v later : Values) (name : String) :
    (v.override later).get? name = (later.get? name).or (v.get? name) := by
  have hagree : ∀ p ∈ later.toList, ∀ q ∈ later.toList, p.1 = q.1 → p.2 = q.2 := by
    intro p hp q hq hname
    have hq := mem_toList.1 hq
    rw [← hname, mem_toList.1 hp] at hq
    exact Option.some.inj hq
  have hlater : ((later.toList.filter fun p => p.1 = name).getLast?).map Prod.snd =
      later.get? name := by
    ext text
    rw [getLast?_filter_eq_some hagree, mem_toList]
  rw [override, get?_foldl_insert, hlater]

theorem contains_eq_isSome (v : Values) (name : String) :
    v.contains name = (v.get? name).isSome :=
  Std.ExtTreeMap.contains_eq_isSome_getElem?

/-- The names of the values are listed. -/
theorem isListing_names (v : Values) :
    IsListing (fun name => ∃ text, v.get? name = some text) v.names := by
  refine (isListing_keys v.byName).congr fun name => ?_
  rw [← Option.isSome_iff_exists, ← contains_eq_isSome]
  exact Std.ExtTreeMap.contains_iff_mem.symm

theorem mem_names {v : Values} {name : String} :
    name ∈ v.names ↔ ∃ text, v.get? name = some text :=
  v.isListing_names.mem_iff name

/-! ## The number of values -/

theorem contains_insert (v : Values) (pair : String × String) (name : String) :
    (v.insert pair).contains name = (pair.1 == name || v.contains name) := by
  rw [contains_eq_isSome, contains_eq_isSome, get?_insert]
  by_cases h : pair.1 = name <;> simp [h]

theorem size_foldl_insert {pairs : List (String × String)} {v : Values}
    (hnodup : (pairs.map Prod.fst).Nodup) (h : ∀ p ∈ pairs, v.contains p.1 = false) :
    (pairs.foldl insert v).size = v.size + pairs.length := by
  induction pairs generalizing v with
  | nil => rfl
  | cons p pairs ih =>
    obtain ⟨hp, hpairs⟩ := List.forall_mem_cons.1 h
    obtain ⟨hnew, hnodup⟩ := List.nodup_cons.1 hnodup
    have hsize : (v.insert p).size = v.size + 1 :=
      Std.ExtTreeMap.size_insert.trans (if_neg (Bool.not_eq_true _ ▸ hp))
    rw [List.foldl_cons, ih hnodup fun q hq => ?_, hsize, List.length_cons]
    · omega
    · have hne : p.1 ≠ q.1 := fun heq => hnew (heq ▸ List.mem_map_of_mem hq)
      rw [contains_insert, hpairs q hq, Bool.or_false, beq_eq_false_iff_ne]
      exact hne

/-- **Two collections without a common name have as many values as both together.** -/
theorem size_override {v later : Values} (h : ∀ name ∈ v.names, name ∉ later.names) :
    (v.override later).size = v.size + later.size := by
  have hfst : later.toList.map Prod.fst = later.names := Std.ExtTreeMap.map_fst_toList_eq_keys
  have hnodup : (later.toList.map Prod.fst).Nodup := by
    rw [hfst]
    exact later.isListing_names.sorted.imp fun hlt => ne_of_lt hlt
  rw [override, size_foldl_insert hnodup fun p hp => ?_]
  · exact congrArg (v.size + ·) Std.ExtTreeMap.length_toList
  · rw [← Bool.not_eq_true, contains_eq_isSome, Option.isSome_iff_exists, ← mem_names]
    intro hmem
    exact h p.1 hmem (hfst ▸ List.mem_map_of_mem hp)

end Stencil.Values
