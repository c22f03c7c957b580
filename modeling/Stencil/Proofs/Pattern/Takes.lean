/-
  What a pattern takes from the front of a text.

  `Takes p s rest m` says that `p` fits what stands in `s` in front of `rest`, and
  that `m` are the places noted there.  It leaves open which way is preferred.

  * `takes_of_find`: the first success takes the pattern, and what follows it
    succeeds behind that;
  * `isSome_find_of_takes`: there is a success if the pattern can be taken so that what
    follows it succeeds;
  * `fits_iff_takes`: a pattern fits a text exactly if it can take all of it.
-/
import Stencil.Pattern

namespace Stencil.Pattern

variable {ι : Type}

/-- Texts that are made up of pairs and single characters. -/
inductive IsPairs (lead follow single : Char → Bool) : List Char → Prop
  | nil : IsPairs lead follow single []
  | pair {c d r} : lead c = true → follow d = true → IsPairs lead follow single r →
      IsPairs lead follow single (c :: d :: r)
  | single {c r} : single c = true → IsPairs lead follow single r →
      IsPairs lead follow single (c :: r)

/-- A pattern takes the front of a text, up to a rest, and notes places there. -/
inductive Takes : Pattern ι → List Char → List Char → Match ι → Prop
  | empty {s} : Takes .empty s s []
  | one {accepts c s} : accepts c = true → Takes (.one accepts) (c :: s) s []
  | run {accepts w s} : (∀ c ∈ w, accepts c = true) → Takes (.run accepts) (w ++ s) s []
  | runPairs {lead follow single w s} : IsPairs lead follow single w →
      Takes (.runPairs lead follow single) (w ++ s) s []
  | seq {p q s t u m n} : Takes p s t m → Takes q t u n → Takes (.seq p q) s u (m ++ n)
  | preferred {p q s t m} : Takes p s t m → Takes (.alt p q) s t m
  | other {p q s t m} : Takes q s t m → Takes (.alt p q) s t m
  | mark {g e s} : Takes (.mark g e) s s [((g, e), s)]

/-! ## The parts of what is taken -/

theorem takes_run {accepts : Char → Bool} {s rest : List Char} {m : Match ι} :
    Takes (.run accepts) s rest m ↔ m = [] ∧ ∃ w, s = w ++ rest ∧ ∀ c ∈ w, accepts c = true := by
  constructor
  · rintro ⟨⟩
    rename_i w hw
    exact ⟨rfl, w, rfl, hw⟩
  · rintro ⟨rfl, w, rfl, hw⟩
    exact .run hw

theorem takes_one {accepts : Char → Bool} {s rest : List Char} {m : Match ι} :
    Takes (.one accepts) s rest m ↔ m = [] ∧ ∃ c, s = c :: rest ∧ accepts c = true := by
  constructor
  · rintro ⟨⟩
    rename_i c hc
    exact ⟨rfl, c, rfl, hc⟩
  · rintro ⟨rfl, c, rfl, hc⟩
    exact .one hc

theorem takes_runPairs {lead follow single : Char → Bool} {s rest : List Char} {m : Match ι} :
    Takes (.runPairs lead follow single) s rest m ↔
      m = [] ∧ ∃ w, s = w ++ rest ∧ IsPairs lead follow single w := by
  constructor
  · rintro ⟨⟩
    rename_i w hw
    exact ⟨rfl, w, rfl, hw⟩
  · rintro ⟨rfl, w, rfl, hw⟩
    exact .runPairs hw

theorem takes_seq {p q : Pattern ι} {s rest : List Char} {m : Match ι} :
    Takes (.seq p q) s rest m ↔
      ∃ t front back, Takes p s t front ∧ Takes q t rest back ∧ m = front ++ back := by
  constructor
  · rintro ⟨⟩
    rename_i t front back hp hq
    exact ⟨t, front, back, hp, hq, rfl⟩
  · rintro ⟨t, front, back, hp, hq, rfl⟩
    exact .seq hp hq

theorem takes_mark {g : ι} {e : Edge} {s rest : List Char} {m : Match ι} :
    Takes (.mark g e) s rest m ↔ rest = s ∧ m = [((g, e), s)] := by
  constructor
  · rintro ⟨⟩
    exact ⟨rfl, rfl⟩
  · rintro ⟨rfl, rfl⟩
    exact .mark

/-- A group notes the places in front of its text and behind it. -/
theorem takes_group {g : ι} {p : Pattern ι} {s rest : List Char} {m : Match ι} :
    Takes (group g p) s rest m ↔
      ∃ inner, Takes p s rest inner ∧ m = ((g, .left), s) :: (inner ++ [((g, .right), rest)]) := by
  simp only [group, takes_seq, takes_mark]
  constructor
  · rintro ⟨_, _, _, ⟨rfl, rfl⟩, ⟨_, inner, _, hp, ⟨rfl, rfl⟩, rfl⟩, rfl⟩
    exact ⟨inner, hp, rfl⟩
  · rintro ⟨inner, hp, rfl⟩
    exact ⟨s, _, _, ⟨rfl, rfl⟩, ⟨rest, inner, _, hp, ⟨rfl, rfl⟩, rfl⟩, rfl⟩

/-! ## First successes -/

theorem exists_append_of_findRun {accepts : Char → Bool} {next : Next ι} {s : List Char}
    {m : Match ι} (h : findRun accepts next s = some m) :
    ∃ w rest, s = w ++ rest ∧ (∀ c ∈ w, accepts c = true) ∧ next rest = some m := by
  induction s with
  | nil => exact ⟨[], [], rfl, by simp, h⟩
  | cons c r ih =>
    rw [findRun, Option.or_eq_some_iff] at h
    rcases h with h | ⟨-, h⟩
    · split at h
      · rename_i hc
        obtain ⟨w, rest, rfl, hw, hm⟩ := ih h
        exact ⟨c :: w, rest, rfl, List.forall_mem_cons.2 ⟨hc, hw⟩, hm⟩
      · cases h
    · exact ⟨[], c :: r, rfl, by simp, h⟩

theorem exists_append_of_findPairs {lead follow single : Char → Bool} {next : Next ι}
    {s : List Char} {m : Match ι} (h : findPairs lead follow single next s = some m) :
    ∃ w rest, s = w ++ rest ∧ IsPairs lead follow single w ∧ next rest = some m := by
  fun_induction findPairs lead follow single next s with
  | case1 => exact ⟨[], [], rfl, .nil, h⟩
  | case2 c =>
    rw [Option.or_eq_some_iff] at h
    rcases h with h | ⟨-, h⟩
    · split at h
      · rename_i hc
        exact ⟨[c], [], rfl, .single hc .nil, h⟩
      · cases h
    · exact ⟨[], [c], rfl, .nil, h⟩
  | case3 c d r ihpair ihsingle =>
    rw [Option.or_eq_some_iff, Option.or_eq_some_iff] at h
    rcases h with (h | ⟨-, h⟩) | ⟨-, h⟩
    · split at h
      · rename_i hcd
        rw [Bool.and_eq_true] at hcd
        obtain ⟨w, rest, rfl, hw, hm⟩ := ihpair h
        exact ⟨c :: d :: w, rest, rfl, .pair hcd.1 hcd.2 hw, hm⟩
      · cases h
    · split at h
      · rename_i hc
        obtain ⟨w, rest, hs, hw, hm⟩ := ihsingle h
        exact ⟨c :: w, rest, congrArg (c :: ·) hs, .single hc hw, hm⟩
      · cases h
    · exact ⟨[], c :: d :: r, rfl, .nil, h⟩

/-- **The first success takes the pattern**, and what follows it succeeds behind
    that. -/
theorem takes_of_find {p : Pattern ι} {next : Next ι} {s : List Char} {m : Match ι}
    (h : p.find next s = some m) :
    ∃ rest front back, Takes p s rest front ∧ next rest = some back ∧ m = front ++ back := by
  induction p generalizing next s m with
  | empty => exact ⟨s, [], m, .empty, h, rfl⟩
  | one accepts =>
    cases s with
    | nil => cases h
    | cons c r =>
      rw [find] at h
      split at h
      · rename_i hc
        exact ⟨r, [], m, .one hc, h, rfl⟩
      · cases h
  | run accepts =>
    obtain ⟨w, rest, rfl, hw, hm⟩ := exists_append_of_findRun h
    exact ⟨rest, [], m, .run hw, hm, rfl⟩
  | runPairs lead follow single =>
    obtain ⟨w, rest, rfl, hw, hm⟩ := exists_append_of_findPairs h
    exact ⟨rest, [], m, .runPairs hw, hm, rfl⟩
  | seq p q ihp ihq =>
    obtain ⟨t, front, _, hp, hfind, rfl⟩ := ihp h
    obtain ⟨rest, middle, back, hq, hm, rfl⟩ := ihq hfind
    exact ⟨rest, front ++ middle, back, .seq hp hq, hm, (List.append_assoc ..).symm⟩
  | alt p q ihp ihq =>
    rw [find, Option.or_eq_some_iff] at h
    rcases h with h | ⟨-, h⟩
    · obtain ⟨rest, front, back, hp, hm, rfl⟩ := ihp h
      exact ⟨rest, front, back, .preferred hp, hm, rfl⟩
    · obtain ⟨rest, front, back, hq, hm, rfl⟩ := ihq h
      exact ⟨rest, front, back, .other hq, hm, rfl⟩
  | mark g e =>
    obtain ⟨back, hm, rfl⟩ := Option.map_eq_some_iff.1 h
    exact ⟨s, _, back, .mark, hm, rfl⟩

/-- **A pattern that matches a text takes all of it.** -/
theorem takes_of_match? {p : Pattern ι} {s : List Char} {m : Match ι} (h : p.match? s = some m) :
    Takes p s [] m := by
  rw [match?_eq_find] at h
  obtain ⟨rest, front, back, hp, hend, rfl⟩ := takes_of_find h
  cases rest with
  | nil =>
    cases hend
    rwa [List.append_nil]
  | cons c r => cases hend

/-! ## No way is missed -/

section
variable {next : Next ι} {rest : List Char} (h : (next rest).isSome)
include h

theorem isSome_findRun {accepts : Char → Bool} {w : List Char}
    (hw : ∀ c ∈ w, accepts c = true) : (findRun accepts next (w ++ rest)).isSome := by
  induction w with
  | nil =>
    cases rest with
    | nil => exact h
    | cons c r => simp [findRun, h]
  | cons c w ih =>
    obtain ⟨hc, hw⟩ := List.forall_mem_cons.1 hw
    simp [findRun, hc, ih hw]

theorem isSome_findPairs {lead follow single : Char → Bool} {w : List Char}
    (hw : IsPairs lead follow single w) :
    (findPairs lead follow single next (w ++ rest)).isSome := by
  induction hw with
  | nil =>
    cases rest with
    | nil => exact h
    | cons c r => cases r <;> simp [findPairs, h]
  | pair hc hd _ ih => simp [findPairs, hc, hd, ih]
  | @single c w hc _ ih =>
    rw [List.cons_append]
    cases hmore : w ++ rest with
    | nil =>
      obtain ⟨-, rfl⟩ := List.append_eq_nil_iff.1 hmore
      simp [findPairs, hc, h]
    | cons d r =>
      rw [hmore] at ih
      simp [findPairs, hc, ih]

end

/-- **There is a success if the pattern can be taken** so that what follows it succeeds. -/
theorem isSome_find_of_takes {p : Pattern ι} {next : Next ι} {s rest : List Char} {m : Match ι}
    (h : Takes p s rest m) (hnext : (next rest).isSome) : (p.find next s).isSome := by
  induction h generalizing next with
  | empty => exact hnext
  | one hc => simp [find, hc, hnext]
  | run hw => exact isSome_findRun hnext hw
  | runPairs hw => exact isSome_findPairs hnext hw
  | seq _ _ ihp ihq => exact ihp (ihq hnext)
  | preferred _ ih => simp [find, ih hnext]
  | other _ ih => simp [find, ih hnext]
  | mark => simp [find, hnext]

/-- **A pattern fits a text exactly if it can take all of it.** -/
theorem fits_iff_takes {p : Pattern ι} {s : List Char} :
    p.fits s = true ↔ ∃ m, Takes p s [] m := by
  rw [fits]
  constructor
  · intro h
    obtain ⟨m, hm⟩ := Option.isSome_iff_exists.1 h
    exact ⟨m, takes_of_match? hm⟩
  · rintro ⟨m, hm⟩
    rw [match?_eq_find]
    exact isSome_find_of_takes hm rfl

end Stencil.Pattern
