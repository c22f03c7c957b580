/-
  The values on a line that is accepted.

  * `Spelling`: how a value stands on a line, in which style and with which characters;
  * `IsRow`: a line that is made of spellings, with a separator between each two;
  * `takes_value`, `takes_row`: what the patterns of a value and of a row take is made of
    spellings, and of the groups of a value the one of its style takes part;
  * `exists_isRow_of_match?`, `exists_isRow_of_row?`, `exists_spelling_of_parameter?`: the values
    that are read from a line are those of its spellings.
-/
import Stencil.Proofs.LineForm.Units
import Stencil.Proofs.Text.Escape

namespace Stencil.LineForm

open Pattern Text

variable {ι : Type}

/-! ## Spellings -/

/-- How a value stands on a line. -/
structure Spelling where
  style : Style
  text : List Char

namespace Spelling

/-- What stands on the line. -/
def source : Spelling → List Char
  | ⟨.bare, text⟩ => text
  | ⟨.quoted, text⟩ => '"' :: (text ++ ['"'])

/-- What is read from it. -/
def value : Spelling → List Char
  | ⟨.bare, text⟩ => text
  | ⟨.quoted, text⟩ => unescape text

/-- What it says: bare characters themselves, and quoted ones what their escapes say. -/
def Says : Spelling → List Char → Prop
  | ⟨.bare, text⟩, said => said = text
  | ⟨.quoted, text⟩, said => Text.Says text said

theorem says_value (spelling : Spelling) : spelling.Says spelling.value := by
  obtain ⟨style, text⟩ := spelling
  cases style with
  | bare => rfl
  | quoted => exact says_unescape text

/-- The spellings that the pattern of a value takes. -/
def Fits (isBare : Char → Bool) : Spelling → Prop
  | ⟨.bare, text⟩ => text ≠ [] ∧ ∀ c ∈ text, isBare c = true
  | ⟨.quoted, text⟩ => IsPairs (· == '\\') (· != '\n') (· != '"') text

end Spelling

/-- Spellings with blanks around them, and with a separator between each two. -/
inductive IsRow (isBare : Char → Bool) : List Spelling → List Char → Prop
  | nil : IsRow isBare [] []
  | last {spelling text} : spelling.Fits isBare → Padded spelling.source text →
      IsRow isBare [spelling] text
  | more {spelling spellings text c tail} : spelling.Fits isBare → Padded spelling.source text →
      isSeparator c = true → spellings ≠ [] → IsRow isBare spellings tail →
      IsRow isBare (spelling :: spellings) (text ++ c :: tail)

/-! ## What the patterns take -/

section
variable [DecidableEq ι] {isBare : Char → Bool} {label : Style → ι} {spelling : Spelling}
  {m n : Match ι} {s rest : List Char}

/-- The text of a spelling is noted, in the group of its style only. -/
def Notes (label : Style → ι) (spelling : Spelling) (m : Match ι) : Prop :=
  ∀ style, m.text? (label style) = if style = spelling.style then some spelling.text else none

theorem notes_noted {style other : Style} (hother : ∀ style', style' = style ∨ style' = other)
    (hlabel : label style ≠ label other) (w rest : List Char) :
    Notes label ⟨style, w⟩ (noted (label style) w rest) := by
  intro style'
  rcases hother style' with rfl | rfl
  · rw [if_pos rfl, Match.text?_group]
  · have hlacks : Match.Lacks (noted (label style) w rest) (label style') := by
      simp [Match.Lacks, hlabel]
    have hne : style' ≠ style := fun h => hlabel (congrArg label h).symm
    rw [if_neg hne, Match.text?, hlacks.lookup]
    rfl

theorem Notes.append_left (h : Notes label spelling m) (hn : ∀ style, n.Lacks (label style)) :
    Notes label spelling (m ++ n) := fun style => by
  rw [Match.text?_append_left (hn style), h]

theorem Notes.append_right (h : Notes label spelling n) (hm : ∀ style, m.Lacks (label style)) :
    Notes label spelling (m ++ n) := fun style => by
  rw [Match.text?_append_right (hm style), h]

theorem Notes.valueText?_eq (h : Notes label spelling m) :
    valueText? m label = some spelling.value := by
  obtain ⟨style, text⟩ := spelling
  cases style with
  | bare =>
    rw [valueText?, h, if_pos rfl, Option.some_or]
    rfl
  | quoted =>
    have hstyle : Style.bare ≠ .quoted := by decide
    rw [valueText?, h, h, if_neg hstyle, if_pos rfl]
    rfl

/-- **The pattern of a value takes a spelling.** -/
theorem takes_value (hlabel : label .bare ≠ label .quoted)
    (h : Takes (value isBare label) s rest m) :
    ∃ spelling : Spelling, spelling.Fits isBare ∧ s = spelling.source ++ rest ∧
      Notes label spelling m ∧ ∀ e ∈ m, ∃ style, e.1.1 = label style := by
  cases h with
  | preferred h =>
    simp only [takes_group, word, takes_seq, takes_one, takes_run] at h
    obtain ⟨_, ⟨_, _, _, ⟨rfl, c, rfl, hc⟩, ⟨rfl, w, rfl, hw⟩, rfl⟩, rfl⟩ := h
    exact ⟨⟨.bare, c :: w⟩, ⟨List.cons_ne_nil c w, List.forall_mem_cons.2 ⟨hc, hw⟩⟩, rfl,
      notes_noted (by rintro (_ | _) <;> simp) hlabel (c :: w) rest, by simp⟩
  | other h =>
    simp only [char, quotedText, takes_group, takes_seq, takes_one, takes_runPairs,
      beq_iff_eq] at h
    obtain ⟨_, _, _, ⟨rfl, _, rfl, rfl⟩, ⟨_, _, _, ⟨_, ⟨rfl, w, rfl, hw⟩, rfl⟩,
      ⟨rfl, _, rfl, rfl⟩, rfl⟩, rfl⟩ := h
    exact ⟨⟨.quoted, w⟩, hw, by simp [Spelling.source],
      notes_noted (by rintro (_ | _) <;> simp) hlabel.symm w ('"' :: rest), by simp⟩

theorem takes_paddedValue (hlabel : label .bare ≠ label .quoted)
    (h : Takes (padded (value isBare label)) s rest m) :
    ∃ (spelling : Spelling) (text : List Char), spelling.Fits isBare ∧
      Padded spelling.source text ∧ s = text ++ rest ∧
      Notes label spelling m ∧ ∀ e ∈ m, ∃ style, e.1.1 = label style := by
  obtain ⟨before, _, after, hbefore, hafter, rfl, hvalue⟩ := takes_padded h
  obtain ⟨spelling, hfits, rfl, hnotes, hlabels⟩ := takes_value hlabel hvalue
  exact ⟨spelling, _, hfits, ⟨before, after, hbefore, hafter, rfl⟩, by simp, hnotes, hlabels⟩

end

/-- **The pattern of a row takes a spelling for each of its cells**, and notes it under the
    number of the cell. -/
theorem takes_row {isBare : Char → Bool} {n i : Nat} {s rest : List Char}
    {m : Match (Nat × Style)}
    (h : Takes (listFrom (fun j => padded (value isBare fun style => (j, style))) i n) s rest m) :
    ∃ spellings text, spellings.length = n ∧ IsRow isBare spellings text ∧ s = text ++ rest ∧
      (∀ (k : Nat) (spelling : Spelling), spellings[k]? = some spelling →
        Notes (fun style => (i + k, style)) spelling m) ∧
      ∀ e ∈ m, i ≤ e.1.1.1 := by
  induction n generalizing i s m with
  | zero =>
    cases h
    exact ⟨[], [], rfl, .nil, rfl, nofun, nofun⟩
  | succ n ih =>
    cases n with
    | zero =>
      obtain ⟨spelling, text, hfits, hpadded, hs, hnotes, hlabels⟩ := takes_paddedValue (by simp) h
      refine ⟨[spelling], text, rfl, .last hfits hpadded, hs, fun k other hk => ?_, fun e he => ?_⟩
      · cases k with
        | zero =>
          cases hk
          exact hnotes
        | succ k => simp at hk
      · obtain ⟨style, hstyle⟩ := hlabels e he
        rw [hstyle]
    | succ n =>
      simp only [listFrom, takes_seq, takes_one] at h
      obtain ⟨_, front, _, hvalue, ⟨_, _, back, ⟨rfl, c, rfl, hc⟩, hmore, rfl⟩, rfl⟩ := h
      obtain ⟨spelling, text, hfits, hpadded, rfl, hnotes, hlabels⟩ :=
        takes_paddedValue (by simp) hvalue
      obtain ⟨spellings, tail, hlength, hrow, rfl, hnotesMore, hnumbers⟩ := ih hmore
      have hne : spellings ≠ [] := by
        rintro rfl
        cases hlength
      refine ⟨spelling :: spellings, text ++ c :: tail, congrArg (· + 1) hlength,
        .more hfits hpadded hc hne hrow, by simp, fun k other hk => ?_, fun e he => ?_⟩
      · cases k with
        | zero =>
          cases hk
          refine hnotes.append_left fun style e he heq => ?_
          have := hnumbers e he
          rw [heq] at this
          exact Nat.lt_irrefl i this
        | succ k =>
          have hnotesMore := hnotesMore k other hk
          rw [Nat.add_assoc, Nat.add_comm 1] at hnotesMore
          refine hnotesMore.append_right fun style e he heq => ?_
          obtain ⟨style', hstyle⟩ := hlabels e he
          have := congrArg Prod.fst (hstyle.symm.trans heq)
          dsimp only at this
          omega
      · rcases List.mem_append.1 he with he | he
        · obtain ⟨style, hstyle⟩ := hlabels e he
          rw [hstyle]
        · exact Nat.le_of_succ_le (hnumbers e he)

/-! ## What is read -/

/-- **The cells of a row are its spellings.**  A match notes each of them under its number, and its
    value is what is read. -/
theorem exists_isRow_of_match? {n : Nat} {line : String} {m : Match (Nat × Style)}
    (h : (row n).match? line.toList = some m) :
    ∃ spellings : List Spelling, spellings.length = n ∧ IsRow isBareCell spellings line.toList ∧
      (∀ i spelling, spellings[i]? = some spelling → Notes (fun style => (i, style)) spelling m) ∧
      row? n line = some (spellings.map fun spelling => String.ofList spelling.value) := by
  obtain ⟨spellings, text, rfl, hrow, hline, hnotes, -⟩ := takes_row (takes_of_match? h)
  rw [List.append_nil] at hline
  have hcells : ∀ i spelling, spellings[i]? = some spelling →
      Notes (fun style => (i, style)) spelling m := by
    intro i spelling hi
    have hnotes := hnotes i spelling hi
    rwa [Nat.zero_add] at hnotes
  refine ⟨spellings, rfl, hline ▸ hrow, hcells, ?_⟩
  rw [row?, h, ← List.length_map (fun spelling : Spelling => String.ofList spelling.value)]
  refine congrArg some (map_range_of_getElem? fun i value hi => ?_)
  obtain ⟨spelling, hspelling, rfl⟩ := Option.map_eq_some_iff.1 (List.getElem?_map ▸ hi)
  rw [(hcells i spelling hspelling).valueText?_eq, Option.getD_some]

/-- **The values of a row are those of its spellings.** -/
theorem exists_isRow_of_row? {n : Nat} {line : String} {values : List String}
    (h : row? n line = some values) :
    ∃ spellings : List Spelling, spellings.length = n ∧ IsRow isBareCell spellings line.toList ∧
      values = spellings.map fun spelling => String.ofList spelling.value := by
  obtain ⟨m, hm, -⟩ := Option.bind_eq_some_iff.1 h
  obtain ⟨spellings, hlength, hrow, -, hvalues⟩ := exists_isRow_of_match? hm
  exact ⟨spellings, hlength, hrow, Option.some.inj (h.symm.trans hvalues)⟩

/-- **The value of a parameter is that of its spelling.** -/
theorem exists_spelling_of_parameter? {line key value : String}
    (h : parameter? line = some (key, value)) :
    ∃ (spelling : Spelling) (front back : List Char), spelling.Fits isBareValue ∧ IsName key ∧
      Padded key.toList front ∧ Padded spelling.source back ∧
      line.toList = front ++ '=' :: back ∧ value = String.ofList spelling.value := by
  obtain ⟨m, hm, h⟩ := Option.bind_eq_some_iff.1 h
  obtain ⟨name, hname, h⟩ := Option.bind_eq_some_iff.1 h
  obtain ⟨text, htext, h⟩ := Option.bind_eq_some_iff.1 h
  cases h
  have htakes := takes_of_match? hm
  simp only [parameter, char, takes_seq, takes_one, beq_iff_eq] at htakes
  obtain ⟨_, _, _, hkey, ⟨_, _, m, ⟨rfl, _, rfl, rfl⟩, hvalue, rfl⟩, rfl⟩ := htakes
  obtain ⟨w, front, behind, hw, hfront, hline, rfl⟩ := takes_paddedName hkey
  obtain ⟨spelling, back, hfits, hback, rfl, hnotes, -⟩ := takes_paddedValue (by simp) hvalue
  -- the key is noted in front, and the groups of the value are its own
  obtain rfl : w = name := by
    rw [Match.text?_group_append] at hname
    exact Option.some.inj hname
  have hkeyNotes : ∀ style, Match.Lacks (noted .name w behind) (ParameterPart.value style) :=
    fun style => by simp [Match.Lacks]
  rw [(hnotes.append_right hkeyNotes).valueText?_eq] at htext
  cases htext
  refine ⟨spelling, front, back, hfits, ?_, ?_, hback, ?_, rfl⟩
  · rwa [IsName, String.toList_ofList]
  · rwa [String.toList_ofList]
  · rw [hline, List.append_nil]

end Stencil.LineForm
