/-
  Writing templates, and reading them back.

  * `Template.NormalForm`: segments as reading gives them;
  * `Template.written`: the text of segments, with dollar signs doubled and names in braces;
  * `ofText_written`: reading a written template gives its segments, and no dollar sign is
    stray;
  * `normalForm_ofText`: the segments that are read from a text are in normal form.
-/
import Mathlib.Data.List.Chain
import Mathlib.Data.List.TakeWhile
import Stencil.Proofs.Text.Name
import Stencil.Scope
import Stencil.Template

namespace Stencil

open Text

/-! ## Names of placeholders -/

/-- The names that a placeholder can have: a name, or two names with a dot between them. -/
def IsVariableName (name : String) : Prop :=
  IsName name ∨ ∃ table column, IsName table ∧ IsName column ∧ name = qualifiedName table column

theorem takeWhile_isNameChar {w : List Char} (h : isName w = true) {c : Char}
    (hc : isNameChar c = false) (r : List Char) : (w ++ c :: r).takeWhile isNameChar = w := by
  rw [List.takeWhile_append_of_pos (forall_isNameChar h).2]
  simp [hc]

theorem dropWhile_isNameChar {w : List Char} (h : isName w = true) {c : Char}
    (hc : isNameChar c = false) (r : List Char) : (w ++ c :: r).dropWhile isNameChar = c :: r := by
  rw [List.dropWhile_append_of_pos (forall_isNameChar h).2]
  simp [hc]

theorem exists_isNameStart {w : List Char} (h : isName w = true) :
    ∃ c r, w = c :: r ∧ isNameStart c = true := by
  cases w with
  | nil => cases h
  | cons c r => exact ⟨c, r, rfl, (Bool.and_eq_true_iff.1 h).1⟩

theorem IsVariableName.exists_isNameStart {name : String} (h : IsVariableName name) :
    ∃ c r, name.toList = c :: r ∧ isNameStart c = true := by
  rcases h with h | ⟨table, column, htable, -, rfl⟩
  · exact Stencil.exists_isNameStart h
  · obtain ⟨c, r, htable, hc⟩ := Stencil.exists_isNameStart htable
    exact ⟨c, r ++ '.' :: column.toList, by simp [qualifiedName, htable], hc⟩

/-- A name that a brace ends is read as a whole. -/
theorem compoundName_append {name : String} (h : IsVariableName name) (r : List Char) :
    compoundName (name.toList ++ '\x7d' :: r) = name.toList := by
  rcases h with h | ⟨table, column, htable, hcolumn, rfl⟩
  · have hbrace : isNameChar '\x7d' = false := rfl
    simp [compoundName, takeWhile_isNameChar h hbrace, dropWhile_isNameChar h hbrace]
  · have hname : (qualifiedName table column).toList ++ '\x7d' :: r =
        table.toList ++ '.' :: (column.toList ++ '\x7d' :: r) := by
      simp [qualifiedName]
    have hrest := takeWhile_isNameChar hcolumn (c := '\x7d') rfl r
    obtain ⟨c, w, hw, hc⟩ := Stencil.exists_isNameStart hcolumn
    rw [hname, compoundName, takeWhile_isNameChar htable rfl, dropWhile_isNameChar htable rfl]
    rw [hw] at hrest ⊢
    simp only [List.cons_append, hc, ↓reduceIte] at hrest ⊢
    rw [hrest]
    simp [qualifiedName, hw]

/-- A name that starts well is read as one that a placeholder can have. -/
theorem isVariableName_compoundName {c : Char} {r : List Char} (hc : isNameStart c = true) :
    IsVariableName (String.ofList (compoundName (c :: r))) := by
  have hword : ∀ (d : Char) (t : List Char), isNameStart d = true →
      IsName (String.ofList ((d :: t).takeWhile isNameChar)) := by
    intro d t hd
    rw [List.takeWhile_cons_of_pos (isNameChar_of_isNameStart hd), IsName, String.toList_ofList,
      isName, hd, Bool.true_and, List.all_eq_true]
    exact fun e he => List.mem_takeWhile_imp he
  simp only [compoundName]
  split
  · rename_i d t hdrop
    split
    · rename_i hd
      refine Or.inr ⟨_, _, hword c r hc, hword d t hd, ?_⟩
      simp [qualifiedName, String.append_assoc]
    · exact Or.inl (hword c r hc)
  · exact Or.inl (hword c r hc)

/-! ## Lexemes -/

theorem scan_cons (c : Char) (r : List Char) :
    scan (c :: r) = firstLexeme c r :: scan (r.drop ((firstLexeme c r).source.length - 1)) := by
  rw [scan]

theorem scan_of_ne {c : Char} (h : c ≠ '$') (r : List Char) :
    scan (c :: r) = ⟨.char c, [c]⟩ :: scan r := by
  have hfirst : firstLexeme c r = ⟨.char c, [c]⟩ := if_neg h
  rw [scan_cons, hfirst]
  rfl

theorem scan_doubled (r : List Char) :
    scan ('$' :: '$' :: r) = ⟨.dollar, ['$', '$']⟩ :: scan r := by
  have hfirst : firstLexeme '$' ('$' :: r) = ⟨.dollar, ['$', '$']⟩ := rfl
  rw [scan_cons, hfirst]
  rfl

theorem scan_braced {name : String} (h : IsVariableName name) (r : List Char) :
    scan ('$' :: '\x7b' :: name.toList ++ '\x7d' :: r) =
      ⟨.placeholder name.toList, '$' :: '\x7b' :: name.toList ++ ['\x7d']⟩ :: scan r := by
  have hfirst : firstLexeme '$' ('\x7b' :: (name.toList ++ '\x7d' :: r)) =
      ⟨.placeholder name.toList, '$' :: '\x7b' :: name.toList ++ ['\x7d']⟩ := by
    have hbraced : firstLexeme '$' ('\x7b' :: (name.toList ++ '\x7d' :: r)) =
        bracedLexeme (name.toList ++ '\x7d' :: r) := rfl
    have hname := compoundName_append h r
    obtain ⟨c, w, hw, hc⟩ := h.exists_isNameStart
    rw [hbraced]
    rw [hw] at hname ⊢
    rw [List.cons_append] at hname ⊢
    simp only [bracedLexeme, hc, ↓reduceIte, hname, List.length_cons, List.drop_succ_cons,
      List.drop_left]
  rw [List.cons_append, List.cons_append, scan_cons, hfirst]
  refine congrArg _ (congrArg scan ?_)
  simp

theorem isVariableName_of_bracedLexeme {s name : List Char}
    (h : (bracedLexeme s).piece = .placeholder name) : IsVariableName (String.ofList name) := by
  unfold bracedLexeme at h
  split at h
  · cases h
  · split at h
    · rename_i hc
      dsimp only at h
      split at h
      · cases h
        exact isVariableName_compoundName hc
      · cases h
    · cases h

/-- A placeholder has a name that it can have. -/
theorem isVariableName_of_firstLexeme {c : Char} {r name : List Char}
    (h : (firstLexeme c r).piece = .placeholder name) : IsVariableName (String.ofList name) := by
  unfold firstLexeme at h
  split at h
  · unfold dollarLexeme at h
    split at h
    · cases h
    · split at h
      · cases h
      · split at h
        · exact isVariableName_of_bracedLexeme h
        · split at h
          · rename_i hc
            cases h
            exact isVariableName_compoundName hc
          · cases h
  · cases h

theorem isVariableName_of_mem_scan {s : List Char} :
    ∀ lexeme ∈ scan s, ∀ name, lexeme.piece = .placeholder name →
      IsVariableName (String.ofList name) := by
  fun_induction scan s with
  | case1 => simp
  | case2 c r lexeme ih =>
    exact List.forall_mem_cons.2 ⟨fun name => isVariableName_of_firstLexeme, ih⟩

/-- What the characters of a written literal stand for. -/
def literalPiece (c : Char) : Piece :=
  if c = '$' then .dollar else .char c

/-- The segments that reading gives: no literal is empty, and a placeholder has a name that it
    can have. -/
def Segment.Proper : Segment → Prop
  | .literal text => text ≠ ""
  | .placeholder name => IsVariableName name

/-- The pieces of a segment. -/
def Segment.pieces : Segment → List Piece
  | .literal text => text.toList.map literalPiece
  | .placeholder name => [.placeholder name.toList]

/-- The text of a segment: with dollar signs doubled, or as a name in braces. -/
def Segment.written : Segment → List Char
  | .literal text => text.toList.flatMap fun c => if c = '$' then ['$', '$'] else [c]
  | .placeholder name => '$' :: '\x7b' :: name.toList ++ ['\x7d']

namespace Template

/-- The text of segments. -/
def written (segments : List Segment) : String :=
  String.ofList (segments.flatMap Segment.written)

/-- Segments as reading gives them: no two literals stand next to each other. -/
structure NormalForm (segments : List Segment) : Prop where
  proper : ∀ segment ∈ segments, segment.Proper
  isChain : segments.IsChain fun a b => (placeholder? a).isSome ∨ (placeholder? b).isSome

theorem NormalForm.tail {segment : Segment} {segments : List Segment}
    (h : NormalForm (segment :: segments)) : NormalForm segments :=
  ⟨(List.forall_mem_cons.1 h.proper).2, h.isChain.tail⟩

/-! ## Reading what is written -/

theorem pieces_literal (text rest : List Char) :
    (scan ((text.flatMap fun c => if c = '$' then ['$', '$'] else [c]) ++ rest)).map (·.piece) =
      text.map literalPiece ++ (scan rest).map (·.piece) := by
  induction text with
  | nil => rfl
  | cons c text ih =>
    rw [List.flatMap_cons, List.append_assoc, List.map_cons, List.cons_append, ← ih, literalPiece]
    by_cases hc : c = '$'
    · subst hc
      rw [if_pos rfl, if_pos rfl, List.cons_append, List.cons_append, List.nil_append, scan_doubled,
        List.map_cons]
    · rw [if_neg hc, if_neg hc, List.cons_append, List.nil_append, scan_of_ne hc, List.map_cons]

/-- The pieces of a written template are those of its segments. -/
theorem pieces_written {segments : List Segment}
    (h : ∀ segment ∈ segments, segment.Proper) :
    (scan (segments.flatMap Segment.written)).map (·.piece) = segments.flatMap Segment.pieces := by
  induction segments with
  | nil => simp [scan]
  | cons segment segments ih =>
    obtain ⟨hsegment, hsegments⟩ := List.forall_mem_cons.1 h
    rw [List.flatMap_cons, List.flatMap_cons, ← ih hsegments]
    cases segment with
    | literal text => exact pieces_literal text.toList _
    | placeholder name =>
      rw [Segment.written, List.append_assoc, List.singleton_append, scan_braced hsegment,
        List.map_cons]
      rfl

theorem foldr_literal (text : List Char) (pieces : List Piece) (o : OpenSegments) :
    (text.map literalPiece ++ pieces).foldr OpenSegments.cons o =
      ⟨text ++ (pieces.foldr OpenSegments.cons o).front,
        (pieces.foldr OpenSegments.cons o).rest⟩ := by
  induction text with
  | nil => rfl
  | cons c text ih =>
    rw [List.map_cons, List.cons_append, List.foldr_cons, ih, literalPiece]
    by_cases hc : c = '$'
    · subst hc
      rfl
    · rw [if_neg hc]
      rfl

/-- Segments whose first literal is not closed yet. -/
def opened : List Segment → OpenSegments
  | .literal text :: rest => ⟨text.toList, rest⟩
  | segments => ⟨[], segments⟩

theorem close_opened {segments : List Segment} (h : NormalForm segments) :
    (opened segments).close = segments := by
  match segments with
  | [] => rfl
  | .literal text :: rest =>
    have hne := h.proper (.literal text) (List.mem_cons_self ..)
    have htext : text.toList ≠ [] := fun hnil => hne (String.toList_inj.1 hnil)
    rw [opened, OpenSegments.close, if_neg htext, String.ofList_toList]
  | .placeholder name :: rest => rfl

theorem foldr_pieces {segments : List Segment} (h : NormalForm segments) :
    (segments.flatMap Segment.pieces).foldr OpenSegments.cons ⟨[], []⟩ = opened segments := by
  induction segments with
  | nil => rfl
  | cons segment segments ih =>
    have ih := ih h.tail
    rw [List.flatMap_cons]
    cases segment with
    | literal text =>
      -- behind a literal stands none, so that nothing is open there
      have hopened : opened segments = ⟨[], segments⟩ := by
        match segments, h.isChain with
        | [], _ => rfl
        | .placeholder name :: rest, _ => rfl
        | .literal other :: rest, hchain =>
          exact absurd (List.isChain_cons_cons.1 hchain).1 (by simp [placeholder?])
      rw [Segment.pieces, foldr_literal, ih, hopened, List.append_nil]
      rfl
    | placeholder name =>
      rw [Segment.pieces, List.singleton_append, List.foldr_cons, ih, OpenSegments.cons,
        close_opened h.tail, String.ofList_toList]
      rfl

/-- Nothing that is written stands for a stray dollar sign. -/
theorem stray_notMem_pieces (segments : List Segment) :
    .stray ∉ segments.flatMap Segment.pieces := by
  intro h
  obtain ⟨segment, -, hstray⟩ := List.mem_flatMap.1 h
  cases segment with
  | literal text =>
    obtain ⟨c, -, hc⟩ := List.mem_map.1 hstray
    unfold literalPiece at hc
    split at hc <;> cases hc
  | placeholder name => cases List.mem_singleton.1 hstray

theorem misuse?_eq_none {lexemes : List Lexeme} (h : .stray ∉ lexemes.map (·.piece)) :
    misuse? lexemes = none := by
  have hdrop : lexemes.dropWhile (·.piece ≠ .stray) = [] := by
    refine List.dropWhile_eq_nil_iff.2 fun lexeme hmem => decide_eq_true fun hstray => h ?_
    exact List.mem_map.2 ⟨lexeme, hmem, hstray⟩
  rw [misuse?, hdrop]

/-- **A written template is read as it was.** -/
theorem ofText_written {segments : List Segment} (h : NormalForm segments) (sectionName : String) :
    ofText sectionName (written segments) = ⟨sectionName, segments, none⟩ := by
  have hpieces := pieces_written h.proper
  have hsegments : Stencil.segments ((scan (segments.flatMap Segment.written)).map (·.piece)) =
      segments := by
    rw [hpieces, Stencil.segments, foldr_pieces h, close_opened h]
  have hmisuse : misuse? (scan (segments.flatMap Segment.written)) = none :=
    misuse?_eq_none (hpieces ▸ stray_notMem_pieces segments)
  simp only [ofText, written, String.toList_ofList, hsegments, hmisuse]

/-! ## Normal form of what is read -/

theorem NormalForm.cons {segment : Segment} {segments : List Segment} (h : NormalForm segments)
    (hsegment : segment.Proper)
    (hhead : ∀ next ∈ segments.head?, (placeholder? segment).isSome ∨ (placeholder? next).isSome) :
    NormalForm (segment :: segments) :=
  ⟨List.forall_mem_cons.2 ⟨hsegment, h.proper⟩, List.isChain_cons.2 ⟨hhead, h.isChain⟩⟩

/-- Segments in normal form, with no literal at their front: characters in front of them make
    up a literal of their own. -/
structure Opens (o : OpenSegments) : Prop where
  normalForm : NormalForm o.rest
  head : ∀ segment ∈ o.rest.head?, (placeholder? segment).isSome

theorem Opens.close {o : OpenSegments} (h : Opens o) : NormalForm o.close := by
  unfold OpenSegments.close
  split
  · exact h.normalForm
  · rename_i hfront
    exact h.normalForm.cons (fun hnil => hfront (String.ofList_eq_empty_iff.1 hnil))
      fun next hnext => Or.inr (h.head next hnext)

theorem opens_foldr {pieces : List Piece}
    (h : ∀ name, .placeholder name ∈ pieces → IsVariableName (String.ofList name)) :
    Opens (pieces.foldr OpenSegments.cons ⟨[], []⟩) := by
  induction pieces with
  | nil => exact ⟨⟨by simp, .nil⟩, by simp⟩
  | cons piece pieces ih =>
    have ih := ih fun name hname => h name (List.mem_cons_of_mem _ hname)
    rw [List.foldr_cons]
    cases piece with
    | char c => exact ⟨ih.normalForm, ih.head⟩
    | dollar => exact ⟨ih.normalForm, ih.head⟩
    | stray => exact ⟨ih.normalForm, ih.head⟩
    | placeholder name =>
      refine ⟨ih.close.cons (h name (List.mem_cons_self ..)) fun _ _ => Or.inl rfl, ?_⟩
      rintro _ ⟨⟩
      rfl

/-- **What is read is in normal form.** -/
theorem normalForm_ofText (sectionName text : String) :
    NormalForm (ofText sectionName text).segments := by
  refine (opens_foldr fun name hname => ?_).close
  obtain ⟨lexeme, hmem, hpiece⟩ := List.mem_map.1 hname
  exact isVariableName_of_mem_scan lexeme hmem name hpiece

/-- **Segments in normal form are those that can be read**, and each of them is read from what
    is written for it. -/
theorem normalForm_iff_ofText_written (sectionName : String) :
    (∀ segments, NormalForm segments ↔
      ofText sectionName (written segments) = ⟨sectionName, segments, none⟩) ∧
    ∀ text, NormalForm (ofText sectionName text).segments := by
  refine ⟨fun segments => ⟨fun h => ofText_written h sectionName, fun h => ?_⟩,
    normalForm_ofText sectionName⟩
  have hnormal := normalForm_ofText sectionName (written segments)
  rwa [h] at hnormal

/-- A placeholder between a doubled dollar sign and text that could go on with its name. -/
example : (ofText "T" (written [.literal "$", .placeholder "a.b", .literal ".c\x7d"])).segments =
    [.literal "$", .placeholder "a.b", .literal ".c\x7d"] := by
  decide +kernel

end Template

end Stencil
