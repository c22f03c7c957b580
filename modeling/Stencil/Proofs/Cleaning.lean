/-
  Lines that are clean already.

  * `CommentFree`: no comment starts in a text, and `stripComment_eq_self_iff`: these are the texts
    that cutting a comment off leaves as they are;
  * `CommentFree.trim`: a text without the blanks around it is read with the same places of quoting,
    so that no comment starts in it that did not start before;
  * `IsClean`: what cleaning makes of a line that says something, and `cleanLines_eq_self_iff`: it
    leaves a list of lines as it is exactly if all of them are clean;
  * `cleanLines_idem_and_ofLines`: so lines need not be cleaned twice, and the sections that are
    read from lines are those that are read from the clean lines.
-/
import Stencil.Proofs.LineForm.Comment
import Stencil.Proofs.Parameters
import Stencil.Proofs.Table.Lines

namespace Stencil.Text

open LineForm (Unpadded)

/-! ## Texts without a comment -/

/-- No comment starts in a text: in front of each comment sign double quotes are open. -/
def CommentFree (s : List Char) : Prop :=
  ∀ front rest, s = front ++ '#' :: rest → ¬Closed front

/-- A comment sign is kept only where the reader of quotes stands between double quotes. -/
theorem foldl_ne_outside_of_stripCommentFrom {q : Quoting} {s front rest : List Char}
    (h : stripCommentFrom q s = front ++ '#' :: rest) : front.foldl Quoting.step q ≠ .outside := by
  induction front generalizing q s with
  | nil =>
    cases s with
    | nil => cases h
    | cons c r =>
      rw [stripCommentFrom] at h
      split at h
      · cases h
      · rename_i hc
        exact fun hq => hc ⟨hq, (List.cons.inj h).1⟩
  | cons d front ih =>
    cases s with
    | nil => cases h
    | cons c r =>
      rw [stripCommentFrom] at h
      split at h
      · cases h
      · obtain ⟨rfl, hr⟩ := List.cons.inj h
        exact ih hr

theorem commentFree_stripComment (s : List Char) : CommentFree (stripComment s) :=
  fun _ _ => foldl_ne_outside_of_stripCommentFrom

theorem stripCommentFrom_eq_self {q : Quoting} {s : List Char}
    (h : ∀ front rest, s = front ++ '#' :: rest → front.foldl Quoting.step q ≠ .outside) :
    stripCommentFrom q s = s := by
  induction s generalizing q with
  | nil => rfl
  | cons c r ih =>
    have hc : ¬(q = .outside ∧ c = '#') := by
      rintro ⟨hq, rfl⟩
      exact h [] r rfl hq
    rw [stripCommentFrom, if_neg hc]
    exact congrArg (c :: ·) (ih fun front rest hr => h (c :: front) rest (congrArg (c :: ·) hr))

/-- **Cutting a comment off leaves exactly the texts without a comment as they are.** -/
theorem stripComment_eq_self_iff {s : List Char} : stripComment s = s ↔ CommentFree s :=
  ⟨fun h => h ▸ commentFree_stripComment s, stripCommentFrom_eq_self⟩

/-- **Cutting blanks off makes no comment start.** -/
theorem CommentFree.trim {s : List Char} (h : CommentFree s) : CommentFree (trim s) := by
  intro front rest htrim hclosed
  obtain ⟨before, after, hbefore, -, hs⟩ := padded_trim s
  rw [htrim] at hs
  exact h (before ++ front) (rest ++ after) (by simp [hs]) ((closed_blanks hbefore).append hclosed)

/-! ## Clean lines -/

/-- A line that says something, without a comment and without blanks at its ends. -/
structure IsClean (line : String) : Prop where
  commentFree : CommentFree line.toList
  unpadded : Unpadded line.toList
  not_blank : ∃ c ∈ line.toList, isBlank c = false

/-- **Cleaning leaves nothing to clean.** -/
theorem isClean_of_mem_cleanLines {lines : List String} {line : String}
    (h : line ∈ cleanLines lines) : IsClean line := by
  have hunpadded := Table.unpadded_of_mem_cleanLines h
  obtain ⟨hmem, hne⟩ := List.mem_filter.1 h
  obtain ⟨raw, -, rfl⟩ := List.mem_map.1 hmem
  refine ⟨?_, hunpadded, ?_⟩
  · rw [clean, String.toList_ofList]
    exact (commentFree_stripComment raw.toList).trim
  · cases hline : (clean raw).toList with
    | nil => simp [String.toList_eq_nil_iff.1 hline] at hne
    | cons c r => exact ⟨c, List.mem_cons_self, hunpadded.1 c (by rw [hline]; rfl)⟩

theorem IsClean.clean_eq {line : String} (h : IsClean line) : clean line = line := by
  rw [clean, stripComment_eq_self_iff.2 h.commentFree, trim_eq_self h.unpadded.1 h.unpadded.2,
    String.ofList_toList]

theorem IsClean.ne_empty {line : String} (h : IsClean line) : line ≠ "" := by
  rintro rfl
  obtain ⟨c, hc, -⟩ := h.not_blank
  cases hc

/-- **Cleaning leaves exactly the lists of clean lines as they are.** -/
theorem cleanLines_eq_self_iff {lines : List String} :
    cleanLines lines = lines ↔ ∀ line ∈ lines, IsClean line := by
  constructor
  · intro h line hline
    exact isClean_of_mem_cleanLines (h.symm ▸ hline)
  · intro h
    have hmap : lines.map clean = lines :=
      (List.map_congr_left fun line hline => (h line hline).clean_eq).trans (List.map_id' lines)
    rw [cleanLines, hmap, List.filter_eq_self]
    exact fun line hline => decide_eq_true (h line hline).ne_empty

theorem cleanLines_cleanLines (lines : List String) :
    cleanLines (cleanLines lines) = cleanLines lines :=
  cleanLines_eq_self_iff.2 fun _ => isClean_of_mem_cleanLines

/-- **Lines are cleaned once and for all.**  Clean lines stay as they are, and what is read from a
    section, whether parameters or a table, is what is read from its clean lines. -/
theorem cleanLines_idem_and_ofLines (lines : List String) :
    cleanLines (cleanLines lines) = cleanLines lines ∧
    (∀ line ∈ cleanLines lines, IsClean line) ∧
    (∀ sectionName, Parameters.ofLines sectionName (cleanLines lines) =
      Parameters.ofLines sectionName lines) ∧
    ∀ settings name flat, Table.ofLines settings name (cleanLines lines) flat =
      Table.ofLines settings name lines flat := by
  have htwice := cleanLines_cleanLines lines
  refine ⟨htwice, fun line => isClean_of_mem_cleanLines, fun sectionName => ?_,
    fun settings name flat => ?_⟩
  · rw [Parameters.ofLines, Parameters.ofLines, htwice]
  · rw [Table.ofLines, Table.ofLines, htwice]

/-- Behind a double quote that is not closed a comment sign stays, cleaned once or twice. -/
example : cleanLines ["\t\"a # b \n", "# c", "\"\\\"# \" # \""] = ["\"a # b", "\"\\\"# \""] := by
  decide +kernel

end Stencil.Text
