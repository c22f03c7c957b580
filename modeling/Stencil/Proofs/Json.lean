/-
  JSON values that are the same but for the order of members.

  * `Json.Same`: objects hold the same values, name for name, and arrays element for element;
  * `Respects`: a reader finds the same in such values;
  * `member`: what an object holds under a name, where nothing counts as null;
  * `bind_read` and `bind_readList`: steps that read a member, or the elements of a member.
-/
import Mathlib.Data.List.Forall2
import Mathlib.Data.Option.Basic
import Stencil.Json

namespace Stencil.Json

/-- Values that are the same but for the order of the members of objects, which have no two members
    of one name. -/
inductive Same : Json → Json → Prop
  | refl (j) : Same j j
  | array {xs ys} : List.Forall₂ Same xs ys → Same (.array xs) (.array ys)
  | object {ms ns : List (String × Json)} : (ms.map Prod.fst).Nodup → (ns.map Prod.fst).Nodup →
      (∀ name, Option.Rel Same (ms.lookup name) (ns.lookup name)) → Same (.object ms) (.object ns)

/-- A reader that finds the same in values that are the same. -/
def Respects {α : Type} (read : Json → Option α) : Prop :=
  ∀ ⦃j k : Json⦄, Same j k → read j = read k

/-! ## Objects -/

theorem isSome_eq_of_rel {a b : Option Json} (h : Option.Rel Same a b) : a.isSome = b.isSome := by
  cases h <;> rfl

theorem mem_names_iff {ms : List (String × Json)} {name : String} :
    name ∈ ms.map Prod.fst ↔ (ms.lookup name).isSome := by
  rw [List.lookup_isSome_iff, List.mem_map]
  refine exists_congr fun m => and_congr_right fun _ => ?_
  rw [beq_iff_eq, eq_comm]

/-- Objects that are the same have the same names. -/
theorem perm_names {ms ns : List (String × Json)} (hms : (ms.map Prod.fst).Nodup)
    (hns : (ns.map Prod.fst).Nodup)
    (h : ∀ name, Option.Rel Same (ms.lookup name) (ns.lookup name)) :
    (ms.map Prod.fst).Perm (ns.map Prod.fst) := by
  rw [List.perm_ext_iff_of_nodup hms hns]
  intro name
  rw [mem_names_iff, mem_names_iff, isSome_eq_of_rel (h name)]

/-- An object with one member is the same as those with one member of this name. -/
theorem eq_singletons {ms ns : List (String × Json)} (hms : (ms.map Prod.fst).Nodup)
    (hns : (ns.map Prod.fst).Nodup)
    (h : ∀ name, Option.Rel Same (ms.lookup name) (ns.lookup name)) :
    (∃ name j k, ms = [(name, j)] ∧ ns = [(name, k)] ∧ Same j k) ∨
      (∀ m, ms ≠ [m]) ∧ ∀ n, ns ≠ [n] := by
  have hperm := perm_names hms hns h
  by_cases hone : ms.length = 1
  · have hlength := hperm.length_eq
    rw [List.length_map, List.length_map, hone] at hlength
    obtain ⟨⟨name, j⟩, rfl⟩ := List.length_eq_one_iff.1 hone
    obtain ⟨⟨other, k⟩, rfl⟩ := List.length_eq_one_iff.1 hlength.symm
    obtain rfl : name = other := List.singleton_perm_singleton.1 hperm
    have hmember := h name
    rw [List.lookup_cons_self, List.lookup_cons_self] at hmember
    cases hmember with
    | some hjk => exact Or.inl ⟨name, j, k, rfl, rfl, hjk⟩
  · refine Or.inr ⟨fun m hm => hone (hm ▸ rfl), fun n hn => hone ?_⟩
    have hlength := hperm.length_eq
    rw [List.length_map, List.length_map, hn] at hlength
    exact hlength

theorem lookup_eq_of_perm {ms ns : List (String × Json)} (h : ms.Perm ns)
    (hms : (ms.map Prod.fst).Nodup) (name : String) : ms.lookup name = ns.lookup name := by
  induction h with
  | nil => rfl
  | cons m _ ih =>
    rw [List.lookup_cons, List.lookup_cons, ih (List.nodup_cons.1 hms).2]
  | swap m n ms =>
    have hne : n.1 ≠ m.1 := by
      intro heq
      exact (List.nodup_cons.1 hms).1 (heq ▸ List.mem_cons_self)
    rw [List.lookup_cons, List.lookup_cons, List.lookup_cons, List.lookup_cons]
    cases hm : name == m.1 with
    | false => rfl
    | true =>
      have hn : (name == n.1) = false := by
        rw [eq_of_beq hm]
        exact beq_false_of_ne hne.symm
      rw [hn]
  | trans hfirst _ ih₁ ih₂ =>
    rw [ih₁ hms, ih₂ ((hfirst.map Prod.fst).nodup_iff.1 hms)]

/-- Members may stand in any order. -/
theorem Same.of_perm {ms ns : List (String × Json)} (h : ms.Perm ns)
    (hms : (ms.map Prod.fst).Nodup) : Same (.object ms) (.object ns) := by
  refine .object hms ((h.map Prod.fst).nodup_iff.1 hms) fun name => ?_
  rw [← lookup_eq_of_perm h hms]
  cases ms.lookup name with
  | none => exact .none
  | some j => exact .some (.refl j)

/-! ## Readers of values -/

theorem respects_string? : Respects string? := by
  intro j k h
  cases h <;> rfl

theorem respects_word? : Respects word? := by
  intro j k h
  cases h <;> rfl

theorem Same.eq_null {j : Json} (h : Same .null j) : j = .null := by
  cases h
  rfl

theorem Same.eq_null_left {j : Json} (h : Same j .null) : j = .null := by
  cases h
  rfl

theorem tag?_object {ms : List (String × Json)} (h : ∀ m, ms ≠ [m]) : (object ms).tag? = none := by
  unfold tag?
  split
  · rename_i heq
    cases heq
  · rename_i heq
    exact absurd (object.inj heq) (h _)
  · rfl

theorem variant?_object {ms : List (String × Json)} (h : ∀ m, ms ≠ [m]) :
    (object ms).variant? = none := by
  unfold variant?
  split
  · rename_i heq
    exact absurd (object.inj heq) (h _)
  · rfl

theorem respects_tag? : Respects tag? := by
  intro j k h
  cases h with
  | refl => rfl
  | array => rfl
  | object hms hns hsame =>
    obtain ⟨name, j, k, rfl, rfl, hjk⟩ | ⟨hms, hns⟩ := eq_singletons hms hns hsame
    · cases hjk <;> rfl
    · rw [tag?_object hms, tag?_object hns]

/-- The tag and the content of a variant are read as they are. -/
theorem respects_variant? {α : Type} {f : String × Json → Option α}
    (hf : ∀ tag, Respects fun content => f (tag, content)) :
    Respects fun j => j.variant? >>= f := by
  intro j k h
  cases h with
  | refl => rfl
  | array => rfl
  | object hms hns hsame =>
    obtain ⟨name, j, k, rfl, rfl, hjk⟩ | ⟨hms, hns⟩ := eq_singletons hms hns hsame
    · exact hf name hjk
    · simp only [variant?_object hms, variant?_object hns]

/-! ## Readers of records -/

/-- What there is under a name, where nothing counts as null. -/
def orNull (j : Option Json) : Json :=
  j.getD .null

/-- Members by their names that are the same for some names. -/
def SameMembers (names : List String) (f g : String → Option Json) : Prop :=
  ∀ name ∈ names, Same (orNull (f name)) (orNull (g name))

theorem same_orNull {a b : Option Json} (h : Option.Rel Same a b) : Same (orNull a) (orNull b) := by
  cases h with
  | some h => exact h
  | none => exact .refl _

theorem Same.members {ms ns : List (String × Json)} (h : Same (.object ms) (.object ns))
    (names : List String) :
    SameMembers names (fun name => ms.lookup name) fun name => ns.lookup name := by
  cases h with
  | refl => exact fun name _ => .refl _
  | object _ _ h => exact fun name _ => same_orNull (h name)

theorem rel_lookup_zip {xs ys : List Json} (h : List.Forall₂ Same xs ys) (names : List String)
    (name : String) : Option.Rel Same ((names.zip xs).lookup name) ((names.zip ys).lookup name) := by
  induction h generalizing names with
  | nil =>
    rw [List.zip_nil_right]
    exact .none
  | @cons x y xs ys hxy _ ih =>
    cases names with
    | nil => exact .none
    | cons other names =>
      rw [List.zip_cons_cons, List.zip_cons_cons, List.lookup_cons, List.lookup_cons]
      cases name == other with
      | true => exact .some hxy
      | false => exact ih names

/-- The members of a record are read as they are. -/
theorem respects_members? {α : Type} {names : List String} {f : (String → Option Json) → Option α}
    (hf : ∀ m n, SameMembers names m n → f m = f n) :
    Respects fun j => j.members? names >>= f := by
  intro j k h
  cases h with
  | refl => rfl
  | @array xs ys h =>
    simp only [members?, h.length_eq]
    split
    · exact hf _ _ fun name _ => same_orNull (rel_lookup_zip h names name)
    · rfl
  | object _ _ hsame => exact hf _ _ fun name _ => same_orNull (hsame name)

/-- What is read from an object with other members besides those that are read. -/
theorem bind_members {α : Type} {names all : List String} {ms ns : List (String × Json)}
    {f : (String → Option Json) → Option α} (hf : ∀ m n, SameMembers names m n → f m = f n)
    (h : SameMembers names (fun name => ms.lookup name) fun name => ns.lookup name) :
    (object ms).members? all >>= f = (object ns).members? all >>= f :=
  hf _ _ h

/-- A step that reads a member: nothing is read from null. -/
theorem bind_read {α β : Type} {a b : Option Json} {read : Json → Option α} {f g : α → Option β}
    (h : Same (orNull a) (orNull b)) (hread : Respects read) (hnull : read .null = none)
    (hfg : ∀ x, f x = g x) : (a >>= fun j => read j >>= f) = (b >>= fun j => read j >>= g) := by
  have hbind : ∀ (c : Option Json) (f : α → Option β),
      (c >>= fun j => read j >>= f) = read (orNull c) >>= f := by
    rintro (_ | j) f
    · rw [orNull, Option.getD_none, hnull]
      rfl
    · rfl
  rw [hbind, hbind, hread h, funext hfg]

theorem respects_elements {α : Type} {read : Json → Option α} (hread : Respects read) :
    Respects fun j => j.array? >>= List.mapM read := by
  intro j k h
  cases h with
  | refl => rfl
  | object => rfl
  | array h =>
    show List.mapM read _ = List.mapM read _
    induction h with
    | nil => rfl
    | cons hxy _ ih => rw [List.mapM_cons, List.mapM_cons, hread hxy, ih]

/-- A step that reads the elements of a member. -/
theorem bind_readList {α β : Type} {a b : Option Json} {read : Json → Option α}
    {f g : List α → Option β} (h : Same (orNull a) (orNull b)) (hread : Respects read)
    (hfg : ∀ xs, f xs = g xs) :
    (a >>= fun j => j.array? >>= fun xs => xs.mapM read >>= f) =
      (b >>= fun j => j.array? >>= fun xs => xs.mapM read >>= g) := by
  simpa only [bind_assoc] using bind_read h (respects_elements hread) rfl hfg

/-- A step that reads a member that may be missing or null. -/
theorem optional?_eq {α : Type} {a b : Option Json} {read : Json → Option α}
    (h : Same (orNull a) (orNull b)) (hread : Respects read) :
    optional? read a = optional? read b := by
  have hnull : ∀ c : Option Json, optional? read c =
      optional? read (some (orNull c)) := by
    rintro (_ | j) <;> rfl
  rw [hnull a, hnull b]
  generalize orNull a = j at h
  generalize orNull b = k at h
  by_cases hj : j = .null
  · subst hj
    rw [h.eq_null]
  · have hk : k ≠ .null := by
      rintro rfl
      exact hj h.eq_null_left
    have hsome : ∀ j : Json, j ≠ .null → optional? read (some j) = (read j).map some := by
      rintro (_ | _ | _ | _ | _ | _ | _) hj
      · exact absurd rfl hj
      all_goals rfl
    rw [hsome j hj, hsome k hk, hread h]

end Stencil.Json
