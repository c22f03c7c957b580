/-
  The grammar of templates.

  * `Starts`: the piece at the front of a text, and what stands behind it: a character other than
    a dollar sign, a doubled dollar sign, a name in braces, or the longest name behind a dollar
    sign;
  * `Cuts`: pieces that are cut off the front of a text, one behind the other;
  * `Cuts.exists_scan`, `Stuck.exists_stray`: the scanner cuts off these pieces, and finds a stray
    dollar sign where there is none;
  * `ofText_grammar`: a template is accepted if its text can be cut into pieces as a whole, and its
    segments are these pieces.  Otherwise the first dollar sign that starts none is reported, with
    its line.
-/
import Stencil.Proofs.Template.RoundTrip
import Stencil.Proofs.Text.Clean
import Stencil.Proofs.Text.Line

namespace Stencil

open Text

/-! ## Pieces -/

/-- A piece at the front of a text, and what stands behind it. -/
inductive Starts : List Char → Piece → List Char → Prop
  | char {c rest} : c ≠ '$' → Starts (c :: rest) (.char c) rest
  | dollar {rest} : Starts ('$' :: '$' :: rest) .dollar rest
  | braced {name : String} {rest} : IsVariableName name →
      Starts ('$' :: '\x7b' :: (name.toList ++ '\x7d' :: rest)) (.placeholder name.toList) rest
  | plain {name : String} {rest} : IsVariableName name →
      (∀ longer, IsVariableName longer → longer.toList <+: name.toList ++ rest →
        longer.length ≤ name.length) →
      Starts ('$' :: (name.toList ++ rest)) (.placeholder name.toList) rest

/-- Pieces that are cut off the front of a text, and what is left of it. -/
inductive Cuts : List Char → List Piece → List Char → Prop
  | nil {s} : Cuts s [] s
  | cons {s t rest piece pieces} : Starts s piece t → Cuts t pieces rest →
      Cuts s (piece :: pieces) rest

/-- No piece stands at the front of a text. -/
def Stuck (s : List Char) : Prop :=
  ∀ piece rest, ¬Starts s piece rest

/-! ## Longest names -/

theorem prefix_takeWhile {p : Char → Bool} {w s : List Char} (hw : ∀ c ∈ w, p c = true)
    (h : w <+: s) : w <+: s.takeWhile p := by
  obtain ⟨rest, rfl⟩ := h
  rw [List.takeWhile_append_of_pos hw]
  exact List.prefix_append _ _

/-- **No name at the front of a text is longer** than the one that is read. -/
theorem length_le_compoundName {name : String} (h : IsVariableName name) {s : List Char}
    (hs : name.toList <+: s) : name.length ≤ (compoundName s).length := by
  rw [← String.length_toList]
  rcases h with h | ⟨table, column, htable, hcolumn, rfl⟩
  · have hword := (prefix_takeWhile (forall_isNameChar h).2 hs).length_le
    refine hword.trans ?_
    simp only [compoundName]
    split
    · split
      · rw [List.length_append]
        exact Nat.le_add_right _ _
      · exact Nat.le_refl _
    · exact Nat.le_refl _
  · have hname : (qualifiedName table column).toList = table.toList ++ '.' :: column.toList := by
      simp [qualifiedName]
    obtain ⟨rest, rfl⟩ := hs
    obtain ⟨c, w, hw, hc⟩ := exists_isNameStart hcolumn
    have hcolumn : column.toList <+: (column.toList ++ rest).takeWhile isNameChar :=
      prefix_takeWhile (forall_isNameChar hcolumn).2 (List.prefix_append _ _)
    have hlength := hcolumn.length_le
    rw [hname, List.append_assoc, List.cons_append, compoundName,
      takeWhile_isNameChar htable rfl, dropWhile_isNameChar htable rfl]
    rw [hw] at hlength ⊢
    simp only [List.cons_append, hc, ↓reduceIte, List.length_append, List.length_cons] at hlength ⊢
    omega

/-- A name that no other at the front of a text is longer than is the one that is read. -/
theorem compoundName_of_longest {name : String} (h : IsVariableName name) {s : List Char}
    (hs : name.toList <+: s)
    (hlongest : ∀ longer, IsVariableName longer → longer.toList <+: s →
      longer.length ≤ name.length) : compoundName s = name.toList := by
  obtain ⟨c, w, hw, hc⟩ := h.exists_isNameStart
  obtain ⟨r, rfl⟩ : ∃ r, s = c :: r := by
    obtain ⟨rest, rfl⟩ := hs
    exact ⟨w ++ rest, by rw [hw, List.cons_append]⟩
  have hread : IsVariableName (String.ofList (compoundName (c :: r))) :=
    isVariableName_compoundName hc
  have hfront := compoundName_isPrefix (c :: r)
  have hle : (compoundName (c :: r)).length ≤ name.toList.length := by
    have := hlongest _ hread (by rwa [String.toList_ofList])
    rwa [← String.length_toList, ← String.length_toList, String.toList_ofList] at this
  have hge := length_le_compoundName h hs
  rw [← String.length_toList] at hge
  exact (List.prefix_of_prefix_length_le hfront hs hle).eq_of_length (Nat.le_antisymm hle hge)

/-! ## Lexemes and pieces -/

theorem firstLexeme_braced {name : String} (h : IsVariableName name) (r : List Char) :
    firstLexeme '$' ('\x7b' :: (name.toList ++ '\x7d' :: r)) =
      ⟨.placeholder name.toList, '$' :: '\x7b' :: name.toList ++ ['\x7d']⟩ := by
  have hscan := scan_braced h r
  rw [List.cons_append, List.cons_append, scan_cons] at hscan
  exact (List.cons.inj hscan).1

theorem firstLexeme_plain {s : List Char} {c : Char} {r : List Char} (hs : s = c :: r)
    (hc : isNameStart c = true) :
    firstLexeme '$' s = ⟨.placeholder (compoundName s), '$' :: compoundName s⟩ := by
  have hdollar : c ≠ '$' := by
    rintro rfl
    cases hc
  have hbrace : c ≠ '\x7b' := by
    rintro rfl
    cases hc
  subst hs
  simp only [firstLexeme, dollarLexeme, hdollar, hbrace, hc, ↓reduceIte]

/-- The lexeme at the front of a text covers the piece that starts there. -/
theorem Starts.firstLexeme {c : Char} {r rest : List Char} {piece : Piece}
    (h : Starts (c :: r) piece rest) :
    (firstLexeme c r).piece = piece ∧ c :: r = (firstLexeme c r).source ++ rest ∧
      piece ≠ .stray := by
  cases h with
  | char hc =>
    rw [Stencil.firstLexeme, if_neg hc]
    exact ⟨rfl, rfl, nofun⟩
  | dollar => exact ⟨rfl, rfl, nofun⟩
  | braced hname =>
    rw [firstLexeme_braced hname]
    exact ⟨rfl, by simp, nofun⟩
  | plain hname hlongest =>
    obtain ⟨d, w, hw, hd⟩ := hname.exists_isNameStart
    have hread := compoundName_of_longest hname (List.prefix_append _ _) hlongest
    have hfront : (_ ++ rest : List Char) = d :: (w ++ rest) := congrArg (· ++ rest) hw
    have hfirst := firstLexeme_plain hfront hd
    rw [hread] at hfirst
    rw [hfirst]
    exact ⟨rfl, rfl, nofun⟩

/-- Braces that do not make a dollar sign stray hold a name. -/
theorem exists_name_of_bracedLexeme {s : List Char} (h : (bracedLexeme s).piece ≠ .stray) :
    ∃ (name : String) (rest : List Char), IsVariableName name ∧
      s = name.toList ++ '\x7d' :: rest := by
  unfold bracedLexeme at h
  split at h
  · exact absurd rfl h
  · rename_i c r
    split at h
    · rename_i hc
      dsimp only at h
      split at h
      · rename_i rest hdrop
        have hs := List.prefix_iff_eq_append.1 (compoundName_isPrefix (c :: r))
        rw [hdrop] at hs
        exact ⟨_, rest, isVariableName_compoundName hc, by rw [String.toList_ofList, hs]⟩
      · exact absurd rfl h
    · exact absurd rfl h

/-- A lexeme that is not stray covers a piece. -/
theorem exists_starts {c : Char} {r : List Char} (h : (firstLexeme c r).piece ≠ .stray) :
    ∃ piece rest, Starts (c :: r) piece rest := by
  by_cases hc : c = '$'
  · subst hc
    cases r with
    | nil => exact absurd rfl h
    | cons d r =>
      by_cases hdollar : d = '$'
      · subst hdollar
        exact ⟨_, _, .dollar⟩
      · by_cases hbrace : d = '\x7b'
        · subst hbrace
          obtain ⟨name, rest, hname, rfl⟩ := exists_name_of_bracedLexeme h
          exact ⟨_, rest, .braced hname⟩
        · by_cases hd : isNameStart d = true
          · have hname := isVariableName_compoundName (r := r) hd
            obtain ⟨rest, hrest⟩ := compoundName_isPrefix (d :: r)
            have hlongest : ∀ longer, IsVariableName longer →
                longer.toList <+: (String.ofList (compoundName (d :: r))).toList ++ rest →
                longer.length ≤ (String.ofList (compoundName (d :: r))).length := by
              intro longer hlonger hfound
              rw [String.toList_ofList, hrest] at hfound
              rw [← String.length_toList (s := String.ofList _), String.toList_ofList]
              exact length_le_compoundName hlonger hfound
            have hplain := Starts.plain hname hlongest
            rw [String.toList_ofList, hrest] at hplain
            exact ⟨_, rest, hplain⟩
          · refine absurd ?_ h
            simp only [firstLexeme, dollarLexeme, hdollar, hbrace, hd, ↓reduceIte]
            rfl
  · exact ⟨_, _, .char hc⟩

/-- **The scanner cuts off the piece at the front of a text.** -/
theorem Starts.exists_scan {s rest : List Char} {piece : Piece} (h : Starts s piece rest) :
    ∃ source, source ≠ [] ∧ scan s = ⟨piece, source⟩ :: scan rest ∧ s = source ++ rest := by
  obtain ⟨c, r, rfl⟩ : ∃ c r, s = c :: r := by
    cases h with
    | char => exact ⟨_, _, rfl⟩
    | dollar => exact ⟨_, _, rfl⟩
    | braced => exact ⟨_, _, rfl⟩
    | plain => exact ⟨_, _, rfl⟩
  obtain ⟨rfl, hsource, -⟩ := h.firstLexeme
  refine ⟨(Stencil.firstLexeme c r).source, firstLexeme_source_ne_nil c r, ?_, hsource⟩
  have hdrop : r.drop ((Stencil.firstLexeme c r).source.length - 1) = rest := by
    have hne := firstLexeme_source_ne_nil c r
    generalize (Stencil.firstLexeme c r).source = source at hsource hne
    obtain ⟨d, w, rfl⟩ := List.exists_cons_of_ne_nil hne
    rw [List.cons_append, List.cons.injEq] at hsource
    rw [hsource.2]
    exact List.drop_left
  rw [scan_cons, hdrop]

theorem Cuts.exists_scan {s rest : List Char} {pieces : List Piece} (h : Cuts s pieces rest) :
    ∃ front, scan s = front ++ scan rest ∧ front.map (·.piece) = pieces ∧
      s = front.flatMap (·.source) ++ rest := by
  induction h with
  | nil => exact ⟨[], rfl, rfl, rfl⟩
  | @cons s t rest piece pieces hstarts _ ih =>
    obtain ⟨source, -, hscan, rfl⟩ := hstarts.exists_scan
    obtain ⟨front, hfront, rfl, ht⟩ := ih
    refine ⟨⟨piece, source⟩ :: front, by rw [hscan, hfront]; rfl, rfl, ?_⟩
    rw [List.flatMap_cons, List.append_assoc, ← ht]

theorem Starts.length_lt {s rest : List Char} {piece : Piece} (h : Starts s piece rest) :
    rest.length < s.length := by
  obtain ⟨source, hne, -, rfl⟩ := h.exists_scan
  have := List.length_pos_iff.2 hne
  rw [List.length_append]
  omega

theorem exists_starts_of_not_stuck {s : List Char} (h : ¬Stuck s) :
    ∃ piece rest, Starts s piece rest ∧ rest.length < s.length := by
  simp only [Stuck, not_forall, not_not] at h
  obtain ⟨piece, rest, hstarts⟩ := h
  exact ⟨piece, rest, hstarts, hstarts.length_lt⟩

/-- Every text can be cut into pieces up to a place where there is none. -/
theorem exists_cuts (s : List Char) : ∃ pieces rest, Cuts s pieces rest ∧ Stuck rest := by
  by_cases hstuck : Stuck s
  · exact ⟨[], s, .nil, hstuck⟩
  · obtain ⟨piece, t, hstarts, hshorter⟩ := exists_starts_of_not_stuck hstuck
    obtain ⟨pieces, rest, hcuts, hrest⟩ := exists_cuts t
    exact ⟨piece :: pieces, rest, .cons hstarts hcuts, hrest⟩
termination_by s.length

/-- Where there is no piece there is a stray dollar sign, or the end of the text. -/
theorem Stuck.exists_stray {s : List Char} (h : Stuck s) (hne : s ≠ []) :
    ∃ ahead lexeme lexemes, s = '$' :: ahead ∧ scan s = lexeme :: lexemes ∧
      lexeme.piece = .stray := by
  obtain ⟨c, r, rfl⟩ := List.exists_cons_of_ne_nil hne
  obtain rfl : c = '$' := by
    by_contra hc
    exact h _ _ (.char hc)
  refine ⟨r, firstLexeme '$' r, _, rfl, scan_cons _ _, ?_⟩
  by_contra hpiece
  obtain ⟨piece, rest, hstarts⟩ := exists_starts hpiece
  exact h piece rest hstarts

/-! ## Segments -/

theorem Starts.proper {s rest : List Char} {piece : Piece} (h : Starts s piece rest) :
    piece ≠ .stray ∧ piece ≠ .char '$' := by
  cases h with
  | char hc => exact ⟨nofun, fun h => hc (Piece.char.inj h)⟩
  | dollar => exact ⟨nofun, nofun⟩
  | braced => exact ⟨nofun, nofun⟩
  | plain => exact ⟨nofun, nofun⟩

/-- The pieces that are cut off a text stand for themselves or for a dollar sign. -/
theorem Cuts.proper {s rest : List Char} {pieces : List Piece} (h : Cuts s pieces rest) :
    .stray ∉ pieces ∧ .char '$' ∉ pieces := by
  induction h with
  | nil => exact ⟨List.not_mem_nil, List.not_mem_nil⟩
  | cons hstarts _ ih =>
    obtain ⟨hstray, hdollar⟩ := hstarts.proper
    exact ⟨by simp [ih.1, hstray.symm], by simp [ih.2, hdollar.symm]⟩

theorem pieces_close (o : OpenSegments) :
    o.close.flatMap Segment.pieces = o.front.map literalPiece ++ o.rest.flatMap Segment.pieces := by
  unfold OpenSegments.close
  split
  · rename_i hfront
    rw [hfront, List.map_nil, List.nil_append]
  · rw [List.flatMap_cons, Segment.pieces, String.toList_ofList]

/-- **Segments are the pieces they are made of**, in order. -/
theorem pieces_segments {pieces : List Piece} (hstray : .stray ∉ pieces)
    (hdollar : .char '$' ∉ pieces) : (segments pieces).flatMap Segment.pieces = pieces := by
  rw [segments, pieces_close]
  induction pieces with
  | nil => rfl
  | cons piece pieces ih =>
    simp only [List.mem_cons, not_or] at hstray hdollar
    have ih := ih hstray.2 hdollar.2
    rw [List.foldr_cons]
    conv_rhs => rw [← ih]
    cases piece with
    | char c =>
      have hc : c ≠ '$' := fun h => hdollar.1 (congrArg Piece.char h.symm)
      rw [OpenSegments.cons, List.map_cons, literalPiece, if_neg hc, List.cons_append]
    | dollar => rfl
    | stray => exact absurd rfl hstray.1
    | placeholder name =>
      rw [OpenSegments.cons, List.map_nil, List.nil_append, List.flatMap_cons, pieces_close,
        Segment.pieces, String.toList_ofList, List.singleton_append]

/-! ## Stray dollar signs -/

/-- What is noted of a place is the number of its line, and the line without the blanks behind
    it. -/
theorem exists_misuseAt_eq (before : List Char) {ahead : List Char} (hne : ahead ≠ []) :
    ∃ line, (splitLines (before ++ ahead))[before.count '\n']? = some line ∧
      misuseAt before ahead = ⟨before.count '\n' + 1, String.ofList (trimEnd line)⟩ := by
  obtain ⟨line, hline, rfl | rfl⟩ := exists_line_at before hne
  · exact ⟨_, hline, rfl⟩
  · exact ⟨_, hline, by rw [trimEnd_append_blank rfl]; rfl⟩

theorem misuse?_of_cuts_nil {s : List Char} {pieces : List Piece} (h : Cuts s pieces []) :
    misuse? (scan s) = none := by
  obtain ⟨front, hscan, hpieces, -⟩ := h.exists_scan
  have hnil : scan [] = [] := by rw [scan]
  rw [hscan, hnil, List.append_nil]
  exact Template.misuse?_eq_none (hpieces ▸ h.proper.1)

/-- The first stray dollar sign stands where no piece can be cut off. -/
theorem misuse?_of_cuts {before rest : List Char} {pieces : List Piece}
    (h : Cuts (before ++ rest) pieces rest) (hstuck : Stuck rest) (hne : rest ≠ []) :
    misuse? (scan (before ++ rest)) = some (misuseAt before rest) := by
  obtain ⟨front, hscan, hpieces, hsource⟩ := h.exists_scan
  obtain ⟨ahead, lexeme, lexemes, -, hrest, hstray⟩ := hstuck.exists_stray hne
  have hfront : ∀ lexeme ∈ front, decide (lexeme.piece ≠ .stray) = true := by
    intro lexeme hmem
    refine decide_eq_true fun hpiece => h.proper.1 ?_
    exact hpieces ▸ List.mem_map.2 ⟨lexeme, hmem, hpiece⟩
  have hbefore : front.flatMap (·.source) = before := (List.append_cancel_right hsource).symm
  have hahead : (lexeme :: lexemes).flatMap (·.source) = rest := hrest ▸ flatten_scan rest
  rw [misuse?, hscan, hrest, List.takeWhile_append_of_pos hfront,
    List.dropWhile_append_of_pos hfront]
  simp only [List.takeWhile_cons, List.dropWhile_cons, hstray, ne_eq, not_true_eq_false,
    decide_false, Bool.false_eq_true, ↓reduceIte, List.append_nil]
  rw [hbefore, hahead]

/-- A text that is not cut as a whole is cut up to a dollar sign that starts no piece. -/
theorem exists_cuts_stuck {s : List Char} (h : ¬∃ pieces, Cuts s pieces []) :
    ∃ before ahead pieces, s = before ++ '$' :: ahead ∧ Cuts s pieces ('$' :: ahead) ∧
      Stuck ('$' :: ahead) := by
  obtain ⟨pieces, rest, hcuts, hstuck⟩ := exists_cuts s
  have hne : rest ≠ [] := by
    rintro rfl
    exact h ⟨pieces, hcuts⟩
  obtain ⟨ahead, -, -, rfl, -, -⟩ := hstuck.exists_stray hne
  obtain ⟨front, -, -, hsource⟩ := hcuts.exists_scan
  exact ⟨_, ahead, pieces, hsource, hcuts, hstuck⟩

namespace Template

theorem checkDelimiters_of_cuts_nil {text : String} {pieces : List Piece}
    (h : Cuts text.toList pieces []) (sectionName : String) :
    (ofText sectionName text).checkDelimiters = .ok () := by
  have hmisuse : (ofText sectionName text).misuse = none := misuse?_of_cuts_nil h
  rw [checkDelimiters, hmisuse]

theorem checkDelimiters_of_cuts {text : String} {before ahead : List Char} {pieces : List Piece}
    (htext : text.toList = before ++ '$' :: ahead) (h : Cuts text.toList pieces ('$' :: ahead))
    (hstuck : Stuck ('$' :: ahead)) (sectionName : String) :
    ∃ line, (splitLines text.toList)[before.count '\n']? = some line ∧
      (ofText sectionName text).checkDelimiters = .error (.delimiterMisuse sectionName
        (before.count '\n' + 1) (String.ofList (trimEnd line))) := by
  obtain ⟨line, hline, hplace⟩ := exists_misuseAt_eq before (List.cons_ne_nil '$' ahead)
  have hmisuse : (ofText sectionName text).misuse =
      some ⟨before.count '\n' + 1, String.ofList (trimEnd line)⟩ := by
    rw [← hplace]
    show misuse? (scan text.toList) = _
    rw [htext] at h ⊢
    exact misuse?_of_cuts h hstuck (List.cons_ne_nil '$' ahead)
  rw [← htext] at hline
  exact ⟨line, hline, by rw [checkDelimiters, hmisuse]; rfl⟩

/-- **The grammar of templates.**  A template is accepted exactly if its text can be cut into
    pieces, from the left to the right and as a whole.  Then its segments are these pieces:
    characters next to each other are merged into one literal, and nothing is dropped.  Otherwise
    the text can be cut up to a dollar sign that starts no piece.  The fault names the section, the
    number of the line with the dollar sign, and this line without the blanks behind it. -/
theorem ofText_grammar (sectionName text : String) :
    ((ofText sectionName text).checkDelimiters = .ok () ↔ ∃ pieces, Cuts text.toList pieces []) ∧
    (∀ pieces, Cuts text.toList pieces [] →
      NormalForm (ofText sectionName text).segments ∧
        (ofText sectionName text).segments.flatMap Segment.pieces = pieces) ∧
    ∀ fault, (ofText sectionName text).checkDelimiters = .error fault ↔
      ∃ before ahead pieces line, text.toList = before ++ '$' :: ahead ∧
        Cuts text.toList pieces ('$' :: ahead) ∧ Stuck ('$' :: ahead) ∧
        (splitLines text.toList)[before.count '\n']? = some line ∧
        fault = .delimiterMisuse sectionName (before.count '\n' + 1)
          (String.ofList (trimEnd line)) := by
  refine ⟨⟨fun hok => ?_, fun ⟨pieces, hcuts⟩ => checkDelimiters_of_cuts_nil hcuts sectionName⟩,
    fun pieces hcuts => ⟨normalForm_ofText sectionName text, ?_⟩,
    fun fault => ⟨fun hfault => ?_, ?_⟩⟩
  · by_contra hnone
    obtain ⟨before, ahead, pieces, htext, hcuts, hstuck⟩ := exists_cuts_stuck hnone
    obtain ⟨line, -, herror⟩ := checkDelimiters_of_cuts htext hcuts hstuck sectionName
    rw [hok] at herror
    cases herror
  · obtain ⟨front, hscan, hpieces, -⟩ := hcuts.exists_scan
    have hnil : scan [] = [] := by rw [scan]
    rw [hnil, List.append_nil] at hscan
    show (Stencil.segments ((scan text.toList).map (·.piece))).flatMap Segment.pieces = pieces
    rw [hscan, hpieces]
    exact pieces_segments hcuts.proper.1 hcuts.proper.2
  · have hnone : ¬∃ pieces, Cuts text.toList pieces [] := by
      rintro ⟨pieces, hcuts⟩
      rw [checkDelimiters_of_cuts_nil hcuts] at hfault
      cases hfault
    obtain ⟨before, ahead, pieces, htext, hcuts, hstuck⟩ := exists_cuts_stuck hnone
    obtain ⟨line, hline, herror⟩ := checkDelimiters_of_cuts htext hcuts hstuck sectionName
    rw [hfault] at herror
    exact ⟨before, ahead, pieces, line, htext, hcuts, hstuck, hline, Except.error.inj herror⟩
  · rintro ⟨before, ahead, pieces, line, htext, hcuts, hstuck, hline, rfl⟩
    obtain ⟨line', hline', herror⟩ := checkDelimiters_of_cuts htext hcuts hstuck sectionName
    obtain rfl : line = line' := Option.some.inj (hline.symm.trans hline')
    exact herror

/-- A dot that no name follows is not part of the name in front of it, and braces around two words
    make a dollar sign stray. -/
theorem ofText_dot_and_braces :
    (∃ pieces, Cuts "$a.b. $$".toList pieces [] ∧
      (ofText "T" "$a.b. $$").segments = [.placeholder "a.b", .literal ". $"] ∧
      pieces = [.placeholder ['a', '.', 'b'], .char '.', .char ' ', .dollar]) ∧
    (ofText "T" "$a\n $$$\x7ba b\x7d \n$").checkDelimiters =
      .error (.delimiterMisuse "T" 2 " $$$\x7ba b\x7d") ∧
    ∃ before ahead pieces, "$a\n $$$\x7ba b\x7d \n$".toList = before ++ '$' :: ahead ∧
      Cuts "$a\n $$$\x7ba b\x7d \n$".toList pieces ('$' :: ahead) ∧ Stuck ('$' :: ahead) ∧
      before.count '\n' = 1 := by
  obtain ⟨pieces, hcuts⟩ := (ofText_grammar "T" "$a.b. $$").1.mp (by decide +kernel)
  have hsegments : (ofText "T" "$a.b. $$").segments = [.placeholder "a.b", .literal ". $"] := by
    decide +kernel
  have hpieces := ((ofText_grammar "T" "$a.b. $$").2.1 pieces hcuts).2
  rw [hsegments] at hpieces
  have hrefused : (ofText "T" "$a\n $$$\x7ba b\x7d \n$").checkDelimiters =
      .error (.delimiterMisuse "T" 2 " $$$\x7ba b\x7d") := by
    decide +kernel
  obtain ⟨before, ahead, pieces', line, htext, hcuts', hstuck, -, hfault⟩ :=
    ((ofText_grammar "T" "$a\n $$$\x7ba b\x7d \n$").2.2 _).mp hrefused
  have hcount : 2 = before.count '\n' + 1 := (Fault.delimiterMisuse.inj hfault).2.1
  exact ⟨⟨pieces, hcuts, hsegments, hpieces.symm.trans (by decide)⟩, hrefused,
    before, ahead, pieces', htext, hcuts', hstuck, by omega⟩

end Template

end Stencil
