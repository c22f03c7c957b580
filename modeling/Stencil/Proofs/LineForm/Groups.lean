/-
  The groups that a match of a line notes.

  * `Match.Lacks`: a match notes nothing under a name, so that only what is put before it or
    behind it counts;
  * `takes_name`, `takes_padded`, `takes_paddedName`: what the patterns of names and of blanks take,
    and what they note.
-/
import Stencil.LineForm
import Stencil.Proofs.Pattern.Takes
import Stencil.Proofs.Text.Clean

namespace Stencil

/-! ## Groups of a match -/

namespace Match

variable {ι : Type} [DecidableEq ι]

/-- A match notes no end of a group. -/
def Lacks (m : Match ι) (g : ι) : Prop :=
  ∀ e ∈ m, e.1.1 ≠ g

theorem Lacks.lookup {m : Match ι} {g : ι} (h : m.Lacks g) (edge : Edge) :
    m.lookup (g, edge) = none := by
  rw [List.lookup_eq_none_iff]
  intro e he
  rw [bne_iff_ne]
  intro heq
  exact h e he (congrArg Prod.fst heq).symm

theorem text?_append_left {m n : Match ι} {g : ι} (h : n.Lacks g) :
    text? (m ++ n) g = m.text? g := by
  simp only [text?, List.lookup_append, h.lookup, Option.or_none]

theorem text?_append_right {m n : Match ι} {g : ι} (h : m.Lacks g) :
    text? (m ++ n) g = n.text? g := by
  simp only [text?, List.lookup_append, h.lookup, Option.none_or]

/-- The text of a group stands between its two ends, which are the first that count. -/
theorem text?_group_append (g : ι) (w rest : List Char) (m : Match ι) :
    text? ([((g, .left), w ++ rest), ((g, .right), rest)] ++ m) g = some w := by
  have hne : ((g, Edge.right) == (g, Edge.left)) = false := by simp
  simp [text?, List.lookup_cons, hne]

theorem text?_group (g : ι) (w rest : List Char) :
    text? [((g, .left), w ++ rest), ((g, .right), rest)] g = some w :=
  text?_group_append g w rest []

end Match

namespace LineForm

open Pattern Text

variable {ι : Type}

theorem takes_name {s rest : List Char} {m : Match ι} :
    Takes name s rest m ↔ m = [] ∧ ∃ w, s = w ++ rest ∧ isName w = true := by
  simp only [name, word, takes_seq, takes_one, takes_run]
  constructor
  · rintro ⟨_, _, _, ⟨rfl, c, rfl, hc⟩, ⟨rfl, w, rfl, hw⟩, rfl⟩
    exact ⟨rfl, c :: w, rfl, by simp [isName, hc]; exact hw⟩
  · rintro ⟨rfl, _ | ⟨c, w⟩, rfl, hw⟩
    · cases hw
    · simp only [isName, Bool.and_eq_true, List.all_eq_true] at hw
      exact ⟨_, _, _, ⟨rfl, c, rfl, hw.1⟩, ⟨rfl, w, rfl, hw.2⟩, rfl⟩

/-- A pattern with blanks around it notes what the pattern notes. -/
theorem takes_padded {p : Pattern ι} {s rest : List Char} {m : Match ι}
    (h : Takes (padded p) s rest m) :
    ∃ before t after, (∀ c ∈ before, isBlank c = true) ∧ (∀ c ∈ after, isBlank c = true) ∧
      s = before ++ t ∧ Takes p t (after ++ rest) m := by
  simp only [padded, blanks, takes_seq, takes_run] at h
  obtain ⟨t, _, _, ⟨rfl, before, rfl, hbefore⟩, ⟨_, inner, _, hp, ⟨rfl, after, rfl, hafter⟩, rfl⟩,
    rfl⟩ := h
  exact ⟨before, t, after, hbefore, hafter, rfl, by simpa using hp⟩

/-- What a name notes, and where it stands. -/
theorem takes_paddedName {g : ι} {s rest : List Char} {m : Match ι}
    (h : Takes (padded (group g name)) s rest m) :
    ∃ w text behind, isName w = true ∧ Padded w text ∧ s = text ++ rest ∧
      m = [((g, .left), w ++ behind), ((g, .right), behind)] := by
  obtain ⟨before, _, after, hbefore, hafter, rfl, hgroup⟩ := takes_padded h
  obtain ⟨inner, hname, rfl⟩ := takes_group.1 hgroup
  obtain ⟨rfl, w, rfl, hw⟩ := takes_name.1 hname
  exact ⟨w, _, after ++ rest, hw, ⟨before, after, hbefore, hafter, rfl⟩, by simp, rfl⟩

end LineForm

end Stencil
