/-
  Templates: text with placeholders.

  `$name` and `${name}` are placeholders, where the name is a name or two names
  with a dot between them, and `$$` is a dollar sign.  Any other dollar sign is
  stray.

  * `scan` cuts a text into lexemes; each covers a part of the text and stands
    for a piece of the template (`flatten_scan`);
  * `Template.ofText` puts the pieces together into segments and notes the place
    of the first stray dollar sign;
  * `Template.fill` puts values in for the placeholders.
-/
import Stencil.Fault
import Stencil.Text.Blank
import Stencil.Text.Name

namespace Stencil

open Text

/-! ## Lexemes -/

/-- What a part of a template's text stands for. -/
inductive Piece where
  /-- A character that stands for itself. -/
  | char (c : Char)
  /-- A doubled dollar sign, which stands for one. -/
  | dollar
  | placeholder (name : List Char)
  /-- A dollar sign that neither starts a placeholder nor is doubled. -/
  | stray
  deriving DecidableEq, Repr

/-- A part of a template's text and what it stands for. -/
structure Lexeme where
  piece : Piece
  source : List Char
  deriving DecidableEq, Repr

/-- The variable name at the front of a text: a name, and with it the dot and
    the name behind it, if there are any. -/
def compoundName (s : List Char) : List Char :=
  let name := s.takeWhile isNameChar
  match s.dropWhile isNameChar with
  | '.' :: c :: r => if isNameStart c then name ++ '.' :: (c :: r).takeWhile isNameChar else name
  | _ => name

/-- The lexeme behind an opened brace.  If the braces hold no name, the dollar
    sign is stray, and what was read up to there belongs to it. -/
def bracedLexeme (s : List Char) : Lexeme :=
  match s with
  | [] => ⟨.stray, ['$', '\x7b']⟩
  | c :: _ =>
    if isNameStart c then
      let name := compoundName s
      match s.drop name.length with
      | '\x7d' :: _ => ⟨.placeholder name, '$' :: '\x7b' :: name ++ ['\x7d']⟩
      | _ => ⟨.stray, '$' :: '\x7b' :: name⟩
    else ⟨.stray, ['$', '\x7b']⟩

/-- The lexeme that a dollar sign starts. -/
def dollarLexeme (s : List Char) : Lexeme :=
  match s with
  | [] => ⟨.stray, ['$']⟩
  | c :: r =>
    if c = '$' then ⟨.dollar, ['$', '$']⟩
    else if c = '\x7b' then bracedLexeme r
    else if isNameStart c then
      let name := compoundName s
      ⟨.placeholder name, '$' :: name⟩
    else ⟨.stray, ['$']⟩

/-- The lexeme at the front of a text. -/
def firstLexeme (c : Char) (r : List Char) : Lexeme :=
  if c = '$' then dollarLexeme r else ⟨.char c, [c]⟩

/-- The lexemes of a text. -/
def scan (s : List Char) : List Lexeme :=
  match s with
  | [] => []
  | c :: r =>
    let lexeme := firstLexeme c r
    lexeme :: scan (r.drop (lexeme.source.length - 1))
termination_by s.length
decreasing_by simp only [List.length_drop, List.length_cons]; omega

theorem compoundName_isPrefix (s : List Char) : compoundName s <+: s := by
  have hs : s.takeWhile isNameChar ++ s.dropWhile isNameChar = s := List.takeWhile_append_dropWhile
  simp only [compoundName]
  split
  · rename_i c r h
    split
    · rw [h] at hs
      refine ⟨(c :: r).dropWhile isNameChar, ?_⟩
      rw [List.append_assoc, List.cons_append, List.takeWhile_append_dropWhile, hs]
    · exact List.takeWhile_prefix _
  · exact List.takeWhile_prefix _

theorem bracedLexeme_source_isPrefix (s : List Char) :
    (bracedLexeme s).source <+: '$' :: '\x7b' :: s := by
  unfold bracedLexeme
  split
  · exact ⟨[], rfl⟩
  · rename_i c r
    split
    · have hs := List.prefix_iff_eq_append.1 (compoundName_isPrefix (c :: r))
      dsimp only
      split
      · rename_i tail h
        rw [h] at hs
        exact ⟨tail, by simp [hs]⟩
      · exact ⟨(c :: r).drop (compoundName (c :: r)).length, by simp only [List.cons_append, hs]⟩
    · exact ⟨c :: r, rfl⟩

/-- A lexeme covers the front of the text. -/
theorem firstLexeme_source_isPrefix (c : Char) (r : List Char) :
    (firstLexeme c r).source <+: c :: r := by
  unfold firstLexeme
  split
  · rename_i hc
    subst hc
    unfold dollarLexeme
    split
    · exact List.prefix_rfl
    · rename_i d t
      split
      · rename_i hd; subst hd; exact ⟨t, rfl⟩
      · split
        · rename_i hd; subst hd; exact bracedLexeme_source_isPrefix t
        · split
          · exact (List.prefix_cons_inj _).2 (compoundName_isPrefix (d :: t))
          · exact ⟨d :: t, rfl⟩
  · exact ⟨r, rfl⟩

/-- A lexeme covers at least one character. -/
theorem firstLexeme_source_ne_nil (c : Char) (r : List Char) : (firstLexeme c r).source ≠ [] := by
  unfold firstLexeme dollarLexeme bracedLexeme
  split
  · split
    · simp
    · split
      · simp
      · split
        · split
          · simp
          · split
            · dsimp only; split <;> simp
            · simp
        · split <;> simp
  · simp

/-- **The lexemes cover the text**, one behind the other. -/
theorem flatten_scan (s : List Char) : (scan s).flatMap (·.source) = s := by
  fun_induction scan s with
  | case1 => rfl
  | case2 c r lexeme ih =>
    have hp := List.prefix_iff_eq_append.1 (firstLexeme_source_isPrefix c r)
    have hn := firstLexeme_source_ne_nil c r
    rw [List.flatMap_cons, ih]
    have : r.drop (lexeme.source.length - 1) = (c :: r).drop lexeme.source.length := by
      cases h : lexeme.source with
      | nil => exact absurd h hn
      | cons d t => rfl
    rw [this]
    exact hp

/-! ## Segments -/

/-- A part of a template. -/
inductive Segment where
  | literal (text : String)
  | placeholder (name : String)
  deriving DecidableEq, Repr

/-- Segments with the characters in front of them, which are not yet part of a
    literal. -/
structure OpenSegments where
  front : List Char
  rest : List Segment

/-- Close the front: its characters, if there are any, become a literal. -/
def OpenSegments.close (o : OpenSegments) : List Segment :=
  if o.front = [] then o.rest else .literal (String.ofList o.front) :: o.rest

/-- Put a piece in front. -/
def OpenSegments.cons : Piece → OpenSegments → OpenSegments
  | .char c, o => ⟨c :: o.front, o.rest⟩
  | .dollar, o | .stray, o => ⟨'$' :: o.front, o.rest⟩
  | .placeholder name, o => ⟨[], .placeholder (String.ofList name) :: o.close⟩

/-- The segments that pieces make up: characters next to each other are one
    literal. -/
def segments (pieces : List Piece) : List Segment :=
  (pieces.foldr OpenSegments.cons ⟨[], []⟩).close

/-- The place of a stray dollar sign. -/
structure Misuse where
  /-- The number of the line, counted from one. -/
  line : Nat
  /-- The line, without the blanks behind it. -/
  fragment : String
  deriving DecidableEq, Repr

/-- The place between two parts of a text. -/
def misuseAt (before ahead : List Char) : Misuse where
  line := before.count '\n' + 1
  fragment := String.ofList (trimEnd
    ((before.reverse.takeWhile (· ≠ '\n')).reverse ++ ahead.takeWhile (· ≠ '\n')))

/-- The place of the first stray dollar sign among lexemes. -/
def misuse? (lexemes : List Lexeme) : Option Misuse :=
  let before := lexemes.takeWhile (·.piece ≠ .stray)
  match lexemes.dropWhile (·.piece ≠ .stray) with
  | [] => none
  | ahead => some (misuseAt (before.flatMap (·.source)) (ahead.flatMap (·.source)))

/-! ## Templates -/

/-- A template, read from the section with the given name. -/
structure Template where
  sectionName : String
  segments : List Segment
  /-- The first stray dollar sign. -/
  misuse : Option Misuse
  deriving DecidableEq, Repr

namespace Template

/-- The template that a text holds. -/
def ofText (sectionName text : String) : Template :=
  let lexemes := scan text.toList
  ⟨sectionName, Stencil.segments (lexemes.map (·.piece)), misuse? lexemes⟩

/-- The template that the lines of a section hold. -/
def ofLines (sectionName : String) (lines : List String) : Template :=
  ofText sectionName (String.join lines)

/-- The name of a placeholder. -/
def placeholder? : Segment → Option String
  | .placeholder name => some name
  | .literal _ => none

/-- The names of the placeholders, each once and in order. -/
def names (t : Template) : List String :=
  (t.segments.filterMap placeholder?).eraseDups.mergeSort

/-- A template with a stray dollar sign is refused. -/
def checkDelimiters (t : Template) : Except Fault Unit :=
  match t.misuse with
  | some m => .error (.delimiterMisuse t.sectionName m.line m.fragment)
  | none => .ok ()

/-- The text that a segment stands for. -/
def segmentText (t : Template) (value? : String → Option String) : Segment → Except Fault String
  | .literal text => .ok text
  | .placeholder name =>
    match value? name with
    | some value => .ok value
    | none => .error (.internal
        ("placeholder `" ++ name ++ "` of template [" ++ t.sectionName ++ "] has no value"))

/-- The text of the template with values for its placeholders. -/
def fill (t : Template) (value? : String → Option String) : Except Fault String :=
  String.join <$> t.segments.mapM (t.segmentText value?)

end Template

end Stencil
