/-
  What a pattern finds first.

  `Finds p s rest m` says that the first way in which `p` fits the front of `s` ends in
  front of `rest` and notes the places `m`, if what follows the pattern succeeds there.
  So a match is put together from those of the parts, without looking at the ways that
  are tried later.

  * `finds_run`, `finds_seq`, …: one statement for each kind of pattern;
  * `match?_of_finds`: a pattern that finds its way to the end of a text matches it.

  A run that has to give back its last character for what follows to succeed does not find
  anything by itself; `findRun_back` is for this case.
-/
import Stencil.Pattern

namespace Stencil.Pattern

variable {ι : Type}

/-- The first way in which a pattern fits the front of a text, if what follows succeeds
    behind it. -/
def Finds (p : Pattern ι) (s rest : List Char) (m : Match ι) : Prop :=
  ∀ (next : Next ι) (back : Match ι), next rest = some back → p.find next s = some (m ++ back)

theorem match?_of_finds {p : Pattern ι} {s : List Char} {m : Match ι} (h : Finds p s [] m) :
    p.match? s = some m := by
  rw [match?_eq_find, h atEnd [] rfl, List.append_nil]

/-! ## Single characters and runs -/

theorem finds_one {accepts : Char → Bool} {c : Char} (hc : accepts c = true) (rest : List Char) :
    Finds (ι := ι) (.one accepts) (c :: rest) rest [] := by
  intro next back hback
  rw [find, if_pos hc]
  exact hback

/-- A run goes on until it comes to a character of another class. -/
theorem finds_run {accepts : Char → Bool} {w rest : List Char} (hw : ∀ c ∈ w, accepts c = true)
    (hrest : ∀ c ∈ rest.head?, accepts c = false) :
    Finds (ι := ι) (.run accepts) (w ++ rest) rest [] := by
  intro next back hback
  rw [find]
  induction w with
  | nil =>
    cases rest with
    | nil => exact hback
    | cons c r => simpa [findRun, hrest c rfl] using hback
  | cons c w ih =>
    obtain ⟨hc, hw⟩ := List.forall_mem_cons.1 hw
    rw [List.cons_append, findRun, if_pos hc, ih hw]
    rfl

/-- A run that goes on too far gives its last character back. -/
theorem findRun_back {accepts : Char → Bool} {next : Next ι} {w rest : List Char} {c : Char}
    {m : Match ι} (hw : ∀ d ∈ w, accepts d = true) (hc : accepts c = true)
    (hrest : ∀ d ∈ rest.head?, accepts d = false) (hfull : next rest = none)
    (h : next (c :: rest) = some m) : findRun accepts next (w ++ c :: rest) = some m := by
  induction w with
  | nil =>
    have hend : findRun accepts next rest = none := by
      cases rest with
      | nil => exact hfull
      | cons d r => simpa [findRun, hrest d rfl] using hfull
    rw [List.nil_append, findRun, if_pos hc, hend, h]
    rfl
  | cons d w ih =>
    obtain ⟨hd, hw⟩ := List.forall_mem_cons.1 hw
    rw [List.cons_append, findRun, if_pos hd, ih hw]
    rfl

/-- A word that stands in front of a character of another class. -/
theorem finds_word {first more : Char → Bool} {c : Char} {w rest : List Char}
    (hc : first c = true) (hw : ∀ d ∈ w, more d = true)
    (hrest : ∀ d ∈ rest.head?, more d = false) :
    Finds (ι := ι) (word first more) (c :: w ++ rest) rest [] := by
  intro next back hback
  exact finds_one hc (w ++ rest) _ _ (finds_run hw hrest next back hback)

/-! ## Patterns made of patterns -/

theorem finds_seq {p q : Pattern ι} {s t rest : List Char} {m n : Match ι}
    (hp : Finds p s t m) (hq : Finds q t rest n) : Finds (.seq p q) s rest (m ++ n) := by
  intro next back hback
  rw [find, hp _ _ (hq next back hback), List.append_assoc]

theorem finds_preferred {p q : Pattern ι} {s rest : List Char} {m : Match ι}
    (hp : Finds p s rest m) : Finds (.alt p q) s rest m := by
  intro next back hback
  rw [find, hp next back hback]
  rfl

/-- The second alternative is taken if the first does not fit, whatever follows. -/
theorem finds_other {p q : Pattern ι} {s rest : List Char} {m : Match ι}
    (hp : ∀ next, p.find next s = none) (hq : Finds q s rest m) : Finds (.alt p q) s rest m := by
  intro next back hback
  rw [find, hp next, Option.none_or]
  exact hq next back hback

theorem finds_mark (g : ι) (e : Edge) (s : List Char) :
    Finds (.mark g e) s s [((g, e), s)] := by
  intro next back hback
  rw [find, hback]
  rfl

theorem finds_group {p : Pattern ι} {s rest : List Char} (g : ι) (hp : Finds p s rest []) :
    Finds (group g p) s rest [((g, .left), s), ((g, .right), rest)] :=
  finds_seq (finds_mark g .left s) (finds_seq hp (finds_mark g .right rest))

end Stencil.Pattern
