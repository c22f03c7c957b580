/-
  The blocks of an input that passed its checks.

  * `Checked.Gives`: the text that a segment of the template stands for in a joined
    row;
  * `blocks_of_ofText`: the template can be filled for each joined row, and the
    block is made of the texts of its segments.
-/
import Stencil.Proofs.Input.Checked

namespace Stencil.Input

namespace Checked

/-- The text of a segment in a joined row: a literal stands for itself, a placeholder for
    a global parameter or else for a variable of the joined row. -/
inductive Gives (c : Checked) (row : Join.Row) : Segment → String → Prop
  | literal {text} : Gives c row (.literal text) text
  | global {name text} : c.globals.get? name = some text → Gives c row (.placeholder name) text
  | variable {name text} : c.globals.get? name = none → Variable c.tables row name text →
      Gives c row (.placeholder name) text

/-- The block of a joined row: the texts of the segments, one behind the other. -/
def IsBlock (c : Checked) (row : Join.Row) (block : String) : Prop :=
  ∃ texts, List.Forall₂ (c.Gives row) c.template.segments texts ∧ String.join texts = block

/-- The text that is put in for a segment is the one that it gives. -/
theorem segmentText_eq_ok {c : Checked} (h : c.Sound) {row : Join.Row} {segment : Segment}
    {text : String} :
    c.template.segmentText (c.rowValues row).get? segment = .ok text ↔
      c.Gives row segment text := by
  cases segment with
  | literal t =>
    simp only [Template.segmentText, Except.ok.injEq]
    constructor
    · rintro rfl
      exact .literal
    · rintro ⟨⟩
      rfl
  | placeholder name =>
    have hvalue : c.template.segmentText (c.rowValues row).get? (.placeholder name) = .ok text ↔
        (c.rowValues row).get? name = some text := by
      simp only [Template.segmentText]
      split <;> simp_all
    rw [hvalue, rowValues, Values.get?_override, Option.or_eq_some_iff, h.scope_eq,
      Scope.get?_values h.plain]
    constructor
    · rintro (hglobal | ⟨hglobal, hvariable⟩)
      · exact .global hglobal
      · exact .variable hglobal hvariable
    · rintro (_ | hglobal | ⟨hglobal, hvariable⟩)
      · exact Or.inl hglobal
      · exact Or.inr ⟨hglobal, hvariable⟩

theorem block_eq_ok {c : Checked} (h : c.Sound) {row : Join.Row} {block : String} :
    c.block row = .ok block ↔ c.IsBlock row block := by
  simp only [Checked.block, Template.fill, map_eq_ok, mapM_eq_ok, segmentText_eq_ok h, IsBlock]

/-- Every segment gives a text in each of the joined rows. -/
theorem exists_gives {c : Checked} (h : c.Sound) {row : Join.Row} (hrow : row ∈ c.rows)
    {segment : Segment} (hsegment : segment ∈ c.template.segments) :
    ∃ text, c.Gives row segment text := by
  cases segment with
  | literal text => exact ⟨text, .literal⟩
  | placeholder name =>
    cases hglobal : c.globals.get? name with
    | some text => exact ⟨text, .global hglobal⟩
    | none =>
      have hcontains : c.globals.contains name = false := by
        rw [Values.contains_eq_isSome, hglobal]
        rfl
      have hresolve := h.placeholder name hsegment hcontains
      rw [h.scope_eq] at hresolve
      obtain ⟨text, hvariable⟩ := Scope.exists_variable h.plain (h.index_lt row hrow)
        hresolve.1 hresolve.2
      exact ⟨text, .variable hglobal hvariable⟩

/-- **The template can be filled for each joined row.** -/
theorem Sound.exists_blocks {c : Checked} (h : c.Sound) : ∃ blocks, c.blocks = .ok blocks := by
  have hblock : ∀ row ∈ c.rows, ∃ block, c.block row = .ok block := by
    intro row hrow
    obtain ⟨texts, htexts⟩ := exists_forall₂ fun _ hsegment => exists_gives h hrow hsegment
    exact ⟨_, (block_eq_ok h).2 ⟨texts, htexts, rfl⟩⟩
  obtain ⟨blocks, hblocks⟩ := exists_forall₂ hblock
  exact ⟨blocks, mapM_eq_ok.2 hblocks⟩

/-- **An input that passed its checks can be rendered.**  It has a block for each
    joined row, in order, which is made of the texts that the segments of the template
    give there; and no other blocks are made of such texts. -/
theorem blocks_of_ofText {settings : Settings} {text : String} {c : Checked}
    (h : ofText settings text = .ok c) :
    ∃ blocks, c.blocks = .ok blocks ∧
      ∀ others, List.Forall₂ c.IsBlock c.rows others ↔ others = blocks := by
  have hsound := sound_of_ofText h
  obtain ⟨blocks, hblocks⟩ := hsound.exists_blocks
  refine ⟨blocks, hblocks, fun others => ?_⟩
  have hothers : c.blocks = .ok others ↔ List.Forall₂ c.IsBlock c.rows others := by
    simp only [Checked.blocks, mapM_eq_ok, block_eq_ok hsound]
  rw [← hothers, hblocks, Except.ok.injEq, eq_comm]

/-- Two rows of a table that are joined to the same row of another. -/
theorem blocks_lines :
    let settings : Settings := ⟨"C", ⟨"t", "g", "r", "f"⟩, "*", "~"⟩
    let text := "[C]\nt=T\ng=G\nr=\"A join B on A.x=B.x\"\n[T]\n$y;\n[G]\nz=1\n" ++
      "[A]\nx\n1\n2\n[B]\nx,y\n2,b\n2,c"
    ∃ c, ofText settings text = .ok c ∧
      ∀ others, List.Forall₂ c.IsBlock c.rows others ↔ others = ["b;\n", "c;\n"] := by
  intro settings text
  have hevaluate : (ofText settings text >>= blocks).toOption = some ["b;\n", "c;\n"] := by
    decide +kernel
  have hok : ofText settings text >>= blocks = .ok ["b;\n", "c;\n"] := by
    cases h : ofText settings text >>= blocks with
    | error e =>
      rw [h] at hevaluate
      cases hevaluate
    | ok found =>
      rw [h] at hevaluate
      exact congrArg _ (Option.some.inj hevaluate)
  obtain ⟨c, hc, hfound⟩ := bind_eq_ok.1 hok
  obtain ⟨blocks, hblocks, hothers⟩ := blocks_of_ofText hc
  rw [hfound] at hblocks
  cases hblocks
  exact ⟨c, hc, hothers⟩

end Checked

end Stencil.Input
