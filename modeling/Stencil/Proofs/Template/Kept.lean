/-
  What a template keeps of its text.

  * `Divides`: a text divided as a whole, into pieces and stray dollar signs;
  * `Keeps`: what is kept of a text.  Pieces are kept and a stray dollar sign is text, but if a
    brace stands behind it, the brace and the name that it opens are lost;
  * `exists_keeps` and `Keeps.eq_scan`: this is what the scanner finds;
  * `Divides.keeps`: nothing else is lost, and nothing is put in another place;
  * `ofText_keeps`: a template keeps all of its text exactly if no brace stands behind a stray
    dollar sign.
-/
import Stencil.Proofs.Template.Grammar

namespace Stencil

open Text

/-! ## Divisions of a text -/

/-- A text is divided into pieces, and dollar signs at which there is none. -/
inductive Divides : List Char → List Piece → Prop
  | nil : Divides [] []
  | piece {s rest piece pieces} : Starts s piece rest → Divides rest pieces →
      Divides s (piece :: pieces)
  | stray {s pieces} : Stuck ('$' :: s) → Divides s pieces → Divides ('$' :: s) (.stray :: pieces)

/-- A stray dollar sign is text. -/
def Piece.asText : Piece → Piece
  | .stray => .dollar
  | piece => piece

/-- The name at the front of a text, up to the rest: no other name there is longer.  It is empty
    if there is no name. -/
structure IsFrontName (name rest : List Char) : Prop where
  name_or_nil : name = [] ∨ IsVariableName (String.ofList name)
  longest : ∀ longer, IsVariableName longer → longer.toList <+: name ++ rest →
    longer.length ≤ name.length

/-- What is kept of a text. -/
inductive Keeps : List Char → List Piece → Prop
  | nil : Keeps [] []
  | piece {s rest piece kept} : Starts s piece rest → Keeps rest kept → Keeps s (piece :: kept)
  /-- A stray dollar sign with no brace behind it. -/
  | alone {s kept} : Stuck ('$' :: s) → s.head? ≠ some '\x7b' → Keeps s kept →
      Keeps ('$' :: s) (.dollar :: kept)
  /-- A stray dollar sign in front of a brace: the brace and the name behind it are lost. -/
  | opened {name rest kept} : Stuck ('$' :: '\x7b' :: (name ++ rest)) → IsFrontName name rest →
      Keeps rest kept → Keeps ('$' :: '\x7b' :: (name ++ rest)) (.dollar :: kept)

theorem asText_of_ne {piece : Piece} (h : piece ≠ .stray) : piece.asText = piece := by
  cases piece with
  | stray => exact absurd rfl h
  | _ => rfl

theorem Starts.unique {s t rest : List Char} {piece other : Piece} (h : Starts s piece rest)
    (hother : Starts s other t) : piece = other ∧ rest = t := by
  obtain ⟨source, -, hscan, hsource⟩ := h.exists_scan
  obtain ⟨source', -, hscan', hsource'⟩ := hother.exists_scan
  obtain ⟨hlexeme, -⟩ := List.cons.inj (hscan.symm.trans hscan')
  obtain ⟨rfl, rfl⟩ := Lexeme.mk.inj hlexeme
  exact ⟨rfl, List.append_cancel_left (hsource.symm.trans hsource')⟩

theorem exists_divides (s : List Char) : ∃ pieces, Divides s pieces := by
  by_cases hstuck : Stuck s
  · by_cases hne : s = []
    · exact ⟨[], hne ▸ .nil⟩
    · obtain ⟨ahead, -, -, rfl, -, -⟩ := hstuck.exists_stray hne
      obtain ⟨pieces, hpieces⟩ := exists_divides ahead
      exact ⟨_, .stray hstuck hpieces⟩
  · obtain ⟨piece, rest, hstarts, hshorter⟩ := exists_starts_of_not_stuck hstuck
    obtain ⟨pieces, hpieces⟩ := exists_divides rest
    exact ⟨_, .piece hstarts hpieces⟩
termination_by s.length

/-- **A text is divided in one way.** -/
theorem Divides.unique {s : List Char} {pieces other : List Piece} (h : Divides s pieces)
    (hother : Divides s other) : pieces = other := by
  induction h generalizing other with
  | nil =>
    cases hother with
    | nil => rfl
    | piece hstarts => cases hstarts
  | piece hstarts _ ih =>
    cases hother with
    | nil => cases hstarts
    | piece hstarts' hrest =>
      obtain ⟨rfl, rfl⟩ := hstarts.unique hstarts'
      rw [ih hrest]
    | stray hstuck => exact absurd hstarts (hstuck _ _)
  | stray hstuck _ ih =>
    cases hother with
    | piece hstarts => exact absurd hstarts (hstuck _ _)
    | stray _ hrest => rw [ih hrest]

/-- Characters other than dollar signs stand for themselves. -/
theorem Divides.exists_of_append {w rest : List Char} {pieces : List Piece} (hw : '$' ∉ w)
    (h : Divides (w ++ rest) pieces) :
    ∃ others, pieces = w.map .char ++ others ∧ Divides rest others := by
  induction w generalizing pieces with
  | nil => exact ⟨pieces, rfl, h⟩
  | cons c w ih =>
    simp only [List.mem_cons, not_or] at hw
    have hc : Starts (c :: (w ++ rest)) (.char c) (w ++ rest) := .char (Ne.symm hw.1)
    cases h with
    | piece hstarts hpieces =>
      obtain ⟨rfl, rfl⟩ := hc.unique hstarts
      obtain ⟨others, rfl, hothers⟩ := ih hw.2 hpieces
      exact ⟨others, rfl, hothers⟩
    | stray => exact absurd rfl hw.1

/-! ## Names behind a brace -/

theorem IsVariableName.dollar_notMem {name : String} (h : IsVariableName name) :
    '$' ∉ name.toList := by
  have hname : ∀ {s : String}, IsName s → '$' ∉ s.toList :=
    fun hs hmem => ne_of_isNameChar ((forall_isNameChar hs).2 _ hmem) (d := '$') rfl rfl
  rcases h with h | ⟨table, column, htable, hcolumn, rfl⟩
  · exact hname h
  · simp [qualifiedName, hname htable, hname hcolumn]

theorem IsFrontName.dollar_notMem {name rest : List Char} (h : IsFrontName name rest) :
    '$' ∉ name := by
  rcases h.name_or_nil with rfl | hname
  · exact List.not_mem_nil
  · simpa using hname.dollar_notMem

/-- A character that starts a name is the first one of a name that a placeholder can have. -/
theorem IsFrontName.eq_compoundName {name rest : List Char} {c : Char} {r : List Char}
    (h : IsFrontName name rest) (hs : name ++ rest = c :: r) (hc : isNameStart c = true) :
    name = compoundName (c :: r) := by
  have hread := isVariableName_compoundName (r := r) hc
  rcases h.name_or_nil with rfl | hname
  · -- the name that is read would be longer
    have hle := h.longest _ hread (String.toList_ofList ▸ hs ▸ compoundName_isPrefix _)
    rw [← String.length_toList, String.toList_ofList, List.length_nil, Nat.le_zero,
      List.length_eq_zero_iff] at hle
    exact hle.symm
  · have hprefix : (String.ofList name).toList <+: c :: r := by
      rw [String.toList_ofList, ← hs]
      exact List.prefix_append _ _
    have hlongest : ∀ longer, IsVariableName longer → longer.toList <+: c :: r →
        longer.length ≤ (String.ofList name).length := by
      intro longer hlonger hfound
      rw [← String.length_toList (s := String.ofList name), String.toList_ofList]
      exact h.longest longer hlonger (hs ▸ hfound)
    rw [compoundName_of_longest hname hprefix hlongest, String.toList_ofList]

theorem exists_isFrontName (s : List Char) :
    ∃ name rest, s = name ++ rest ∧ IsFrontName name rest := by
  by_cases hc : ∃ c r, s = c :: r ∧ isNameStart c = true
  · obtain ⟨c, r, rfl, hc⟩ := hc
    obtain ⟨rest, hrest⟩ := compoundName_isPrefix (c :: r)
    refine ⟨_, rest, hrest.symm, Or.inr (isVariableName_compoundName hc), ?_⟩
    intro longer hlonger hfound
    exact length_le_compoundName hlonger (hrest ▸ hfound)
  · refine ⟨[], s, rfl, Or.inl rfl, fun longer hlonger hfound => absurd ?_ hc⟩
    obtain ⟨c, w, hw, hstart⟩ := hlonger.exists_isNameStart
    obtain ⟨rest, rfl⟩ := hfound
    exact ⟨c, w ++ rest, by rw [hw, List.cons_append], hstart⟩

/-! ## Stray lexemes -/

/-- A dollar sign starts no piece exactly if its lexeme is stray. -/
theorem stuck_iff {s : List Char} :
    Stuck ('$' :: s) ↔ (firstLexeme '$' s).piece = .stray := by
  refine ⟨fun h => ?_, fun hstray piece rest hstarts => ?_⟩
  · by_contra hpiece
    obtain ⟨piece, rest, hstarts⟩ := exists_starts hpiece
    exact h piece rest hstarts
  · obtain ⟨hpiece, -, hne⟩ := hstarts.firstLexeme
    exact hne (hpiece.symm.trans hstray)

theorem Stuck.scan_alone {s : List Char} (h : Stuck ('$' :: s)) (hs : s.head? ≠ some '\x7b') :
    scan ('$' :: s) = ⟨.stray, ['$']⟩ :: scan s := by
  have hfirst : firstLexeme '$' s = ⟨.stray, ['$']⟩ := by
    have hpiece := stuck_iff.1 h
    cases s with
    | nil => rfl
    | cons c r =>
      have hbrace : c ≠ '\x7b' := fun hc => hs (congrArg some hc)
      simp only [firstLexeme, dollarLexeme, hbrace, ↓reduceIte] at hpiece ⊢
      split_ifs at hpiece
      · split_ifs
        rfl
  rw [scan_cons, hfirst]
  rfl

theorem Stuck.scan_opened {name rest : List Char} (h : Stuck ('$' :: '\x7b' :: (name ++ rest)))
    (hname : IsFrontName name rest) :
    scan ('$' :: '\x7b' :: (name ++ rest)) = ⟨.stray, '$' :: '\x7b' :: name⟩ :: scan rest := by
  have hfirst : firstLexeme '$' ('\x7b' :: (name ++ rest)) = ⟨.stray, '$' :: '\x7b' :: name⟩ := by
    have hpiece : (bracedLexeme (name ++ rest)).piece = .stray := stuck_iff.1 h
    show bracedLexeme (name ++ rest) = _
    cases hs : name ++ rest with
    | nil =>
      obtain ⟨rfl, -⟩ := List.append_eq_nil_iff.1 hs
      rfl
    | cons c r =>
      rw [hs] at hpiece
      by_cases hc : isNameStart c = true
      · have hread := hname.eq_compoundName hs hc
        simp only [bracedLexeme, hc, ↓reduceIte, ← hread] at hpiece ⊢
        split at hpiece
        · cases hpiece
        · rfl
      · obtain rfl : name = [] := by
          by_contra hne
          obtain ⟨d, w, hw, hd⟩ := (hname.name_or_nil.resolve_left hne).exists_isNameStart
          rw [String.toList_ofList] at hw
          rw [hw, List.cons_append, List.cons.injEq] at hs
          exact hc (hs.1 ▸ hd)
        simp only [bracedLexeme, hc, Bool.false_eq_true, ↓reduceIte]
  rw [scan_cons, hfirst]
  simp

/-! ## What is kept -/

/-- **What is kept of a text is what the scanner finds.** -/
theorem Keeps.eq_scan {s : List Char} {kept : List Piece} (h : Keeps s kept) :
    kept = (scan s).map fun lexeme => lexeme.piece.asText := by
  induction h with
  | nil => rw [scan, List.map_nil]
  | piece hstarts _ ih =>
    obtain ⟨source, -, hscan, -⟩ := hstarts.exists_scan
    rw [hscan, List.map_cons, ← ih, asText_of_ne hstarts.proper.1]
  | alone hstuck hs _ ih =>
    rw [hstuck.scan_alone hs, List.map_cons, ← ih]
    rfl
  | opened hstuck hname _ ih =>
    rw [hstuck.scan_opened hname, List.map_cons, ← ih]
    rfl

theorem exists_keeps (s : List Char) : ∃ kept, Keeps s kept := by
  by_cases hstuck : Stuck s
  · by_cases hne : s = []
    · exact ⟨[], hne ▸ .nil⟩
    · obtain ⟨ahead, -, -, rfl, -, -⟩ := hstuck.exists_stray hne
      by_cases hbrace : ahead.head? = some '\x7b'
      · obtain ⟨s, rfl⟩ := List.head?_eq_some_iff.1 hbrace
        obtain ⟨name, rest, rfl, hname⟩ := exists_isFrontName s
        have : rest.length < (name ++ rest).length + 1 + 1 := by
          rw [List.length_append]
          omega
        obtain ⟨kept, hkept⟩ := exists_keeps rest
        exact ⟨_, .opened hstuck hname hkept⟩
      · obtain ⟨kept, hkept⟩ := exists_keeps ahead
        exact ⟨_, .alone hstuck hbrace hkept⟩
  · obtain ⟨piece, rest, hstarts, hshorter⟩ := exists_starts_of_not_stuck hstuck
    obtain ⟨kept, hkept⟩ := exists_keeps rest
    exact ⟨_, .piece hstarts hkept⟩
termination_by s.length

theorem Divides.head {s : List Char} {pieces : List Piece} {c : Char} (h : Divides s pieces)
    (hc : pieces.head? = some (.char c)) : s.head? = some c := by
  cases h with
  | nil => cases hc
  | piece hstarts =>
    obtain rfl := Option.some.inj hc
    cases hstarts
    rfl
  | stray => cases hc

/-- Braces behind stray dollar signs stand in the rest, if none stands behind the first piece. -/
theorem opened_infix_cons {piece : Piece} {pieces : List Piece}
    (h : piece = .stray → ¬[.char '\x7b'] <+: pieces) :
    [.stray, .char '\x7b'] <:+: piece :: pieces ↔ [.stray, .char '\x7b'] <:+: pieces := by
  rw [List.infix_cons_iff, List.cons_prefix_cons, or_iff_right]
  rintro ⟨hpiece, hprefix⟩
  exact h hpiece.symm hprefix

/-- **What is lost** stands behind stray dollar signs with a brace.  The rest is kept, in its
    order. -/
theorem Divides.keeps {s : List Char} {pieces kept : List Piece} (h : Divides s pieces)
    (hkept : Keeps s kept) :
    kept.Sublist (pieces.map Piece.asText) ∧
      (kept = pieces.map Piece.asText ↔ ¬[.stray, .char '\x7b'] <:+: pieces) := by
  induction hkept generalizing pieces with
  | nil =>
    cases h with
    | nil => simp
    | piece hstarts => cases hstarts
  | @piece _ _ piece _ hstarts _ ih =>
    cases h with
    | nil => cases hstarts
    | @piece _ _ _ pieces hstarts' hrest =>
      obtain ⟨rfl, rfl⟩ := hstarts.unique hstarts'
      obtain ⟨hsub, hiff⟩ := ih hrest
      rw [List.map_cons, asText_of_ne hstarts.proper.1,
        opened_infix_cons fun h => absurd h hstarts.proper.1, ← hiff]
      exact ⟨hsub.cons_cons piece, by simp⟩
    | stray hstuck => exact absurd hstarts (hstuck _ _)
  | alone hstuck hs _ ih =>
    cases h with
    | piece hstarts => exact absurd hstarts (hstuck _ _)
    | @stray _ pieces _ hrest =>
      obtain ⟨hsub, hiff⟩ := ih hrest
      have hhead : ¬[Piece.char '\x7b'] <+: pieces := by
        rintro ⟨others, rfl⟩
        exact hs (hrest.head rfl)
      rw [List.map_cons, Piece.asText, opened_infix_cons fun _ => hhead, ← hiff]
      exact ⟨hsub.cons_cons _, by simp⟩
  | @opened name rest kept hstuck hname _ ih =>
    cases h with
    | piece hstarts => exact absurd hstarts (hstuck _ _)
    | @stray _ pieces _ hrest =>
      obtain ⟨others, rfl, hothers⟩ :=
        hrest.exists_of_append (w := '\x7b' :: name) (by simp [hname.dollar_notMem])
      have hsub := (ih hothers).1
      have hlost : kept.length < (((('\x7b' :: name).map Piece.char) ++ others).map
          Piece.asText).length := by
        have := hsub.length_le
        simp only [List.length_map, List.length_append, List.length_cons] at this ⊢
        omega
      refine ⟨?_, iff_of_false (fun heq => ?_) (not_not.2 ⟨[], name.map .char ++ others, rfl⟩)⟩
      · rw [List.map_cons, Piece.asText, List.map_append]
        exact (hsub.trans (List.sublist_append_right _ _)).cons_cons _
      · rw [List.map_cons] at heq
        rw [(List.cons.inj heq).2] at hlost
        exact absurd hlost (Nat.lt_irrefl _)

theorem Keeps.proper {s : List Char} {kept : List Piece} (h : Keeps s kept) :
    .stray ∉ kept ∧ .char '$' ∉ kept := by
  induction h with
  | nil => exact ⟨List.not_mem_nil, List.not_mem_nil⟩
  | piece hstarts _ ih =>
    obtain ⟨hstray, hdollar⟩ := hstarts.proper
    exact ⟨by simp [ih.1, hstray.symm], by simp [ih.2, hdollar.symm]⟩
  | alone _ _ _ ih => exact ⟨by simp [ih.1], by simp [ih.2]⟩
  | opened _ _ _ ih => exact ⟨by simp [ih.1], by simp [ih.2]⟩

theorem Keeps.eq_nil {s : List Char} (h : Keeps s []) : s = [] := by
  cases h
  rfl

theorem segments_map_asText (pieces : List Piece) :
    segments (pieces.map Piece.asText) = segments pieces := by
  have hcons : ∀ (piece : Piece) (o : OpenSegments),
      OpenSegments.cons piece.asText o = OpenSegments.cons piece o := by
    rintro (_ | _ | _ | _) o <;> rfl
  simp only [segments, List.foldr_map, hcons]

/-! ## Texts without pieces but for characters -/

/-- A character of a text in which no dollar sign starts a piece. -/
def loosePiece (c : Char) : Piece :=
  if c = '$' then .stray else .char c

theorem asText_loosePiece (c : Char) : (loosePiece c).asText = literalPiece c := by
  unfold loosePiece literalPiece
  split_ifs <;> rfl

theorem literalPiece_injective : Function.Injective literalPiece := by
  intro c d h
  unfold literalPiece at h
  split_ifs at h with hc hd hd
  · rw [hc, hd]
  · exact Piece.char.inj h

theorem loosePiece_injective : Function.Injective loosePiece :=
  .of_comp (f := Piece.asText) (by
    rw [show Piece.asText ∘ loosePiece = literalPiece from funext asText_loosePiece]
    exact literalPiece_injective)

/-- No dollar sign of a text is doubled, and none starts a placeholder. -/
def Loose (s : List Char) : Prop :=
  ∀ before rest, s = before ++ '$' :: rest → Stuck ('$' :: rest)

theorem loose_nil : Loose [] :=
  fun _ _ hs => absurd hs.symm (by simp)

theorem loose_cons {c : Char} {s : List Char} :
    Loose (c :: s) ↔ (c = '$' → (firstLexeme '$' s).piece = .stray) ∧ Loose s := by
  constructor
  · intro h
    refine ⟨?_, fun before rest hs => h (c :: before) rest (congrArg (c :: ·) hs)⟩
    rintro rfl
    exact stuck_iff.1 (h [] s rfl)
  · rintro ⟨hc, hs⟩ before rest heq
    cases before with
    | nil =>
      obtain ⟨rfl, rfl⟩ := List.cons.inj heq
      exact stuck_iff.2 (hc rfl)
    | cons d before => exact hs before rest (List.cons.inj heq).2

instance decidableLoose : (s : List Char) → Decidable (Loose s)
  | [] => isTrue loose_nil
  | _ :: s =>
    have := decidableLoose s
    decidable_of_iff _ loose_cons.symm

theorem Loose.divides {s : List Char} (h : Loose s) : Divides s (s.map loosePiece) := by
  induction s with
  | nil => exact .nil
  | cons c s ih =>
    obtain ⟨hstray, hrest⟩ := loose_cons.1 h
    by_cases hc : c = '$'
    · subst hc
      exact .stray (stuck_iff.2 (hstray rfl)) (ih hrest)
    · rw [List.map_cons, loosePiece, if_neg hc]
      exact .piece (.char hc) (ih hrest)

/-- What is kept of such a text is text. -/
theorem Loose.exists_keeps {s : List Char} (h : Loose s) :
    ∃ w, Keeps s (w.map literalPiece) ∧ (w = s ↔ ¬['$', '\x7b'] <:+: s) := by
  obtain ⟨kept, hkept⟩ := Stencil.exists_keeps s
  obtain ⟨hsub, hiff⟩ := h.divides.keeps hkept
  have hmap : (s.map loosePiece).map Piece.asText = s.map literalPiece := by
    rw [List.map_map]
    exact List.map_congr_left fun c _ => asText_loosePiece c
  rw [hmap] at hsub hiff
  obtain ⟨w, -, rfl⟩ := List.sublist_map_iff.1 hsub
  refine ⟨w, hkept, ?_⟩
  rw [(List.map_injective_iff.2 literalPiece_injective).eq_iff] at hiff
  rw [hiff, List.infix_map_iff]
  refine not_congr ⟨?_, fun hfound => ⟨_, hfound, rfl⟩⟩
  rintro ⟨l, hl, heq⟩
  have hl' : ['$', '\x7b'].map loosePiece = l.map loosePiece := heq
  rwa [List.map_injective_iff.2 loosePiece_injective hl']

namespace Template

theorem pieces_ofText {text : String} {kept : List Piece} (h : Keeps text.toList kept)
    (sectionName : String) :
    (ofText sectionName text).segments = Stencil.segments kept ∧
      (ofText sectionName text).segments.flatMap Segment.pieces = kept := by
  have hsegments : (ofText sectionName text).segments = Stencil.segments kept := by
    have hmap : kept = ((scan text.toList).map (·.piece)).map Piece.asText := by
      rw [h.eq_scan, List.map_map]
      rfl
    rw [hmap, segments_map_asText]
    rfl
  exact ⟨hsegments, hsegments ▸ pieces_segments h.proper.1 h.proper.2⟩

theorem segments_literal {w : List Char} (hw : w ≠ []) :
    Stencil.segments (w.map literalPiece) = [.literal (String.ofList w)] := by
  have hopen := foldr_literal w [] ⟨[], []⟩
  rw [List.append_nil] at hopen
  rw [Stencil.segments, hopen, List.foldr_nil, List.append_nil, OpenSegments.close, if_neg hw]

/-- **What a template keeps of its text.**  Its segments are the pieces of the text in their
    order, with stray dollar signs as text.  Where a brace stands behind a stray dollar sign, this
    brace and the longest name behind it are lost, so that all of the text is kept exactly if there
    is no such place.  A text in which no dollar sign is doubled or starts a placeholder becomes one
    literal, which is the text exactly if it has no dollar sign in front of a brace. -/
theorem ofText_keeps (sectionName text : String) :
    (∀ kept, (ofText sectionName text).segments.flatMap Segment.pieces = kept ↔
      Keeps text.toList kept) ∧
    (∃! pieces, Divides text.toList pieces) ∧
    (∀ pieces, Divides text.toList pieces →
      ((ofText sectionName text).segments.flatMap Segment.pieces).Sublist
        (pieces.map Piece.asText) ∧
      ((ofText sectionName text).segments.flatMap Segment.pieces = pieces.map Piece.asText ↔
        ¬[.stray, .char '\x7b'] <:+: pieces)) ∧
    (text ≠ "" → Loose text.toList → ∃ literal,
      (ofText sectionName text).segments = [.literal literal] ∧
      (∀ value?, (ofText sectionName text).fill value? = .ok literal) ∧
      (literal = text ↔ ¬['$', '\x7b'] <:+: text.toList)) := by
  obtain ⟨kept, hkept⟩ := exists_keeps text.toList
  have hpieces := (pieces_ofText hkept sectionName).2
  refine ⟨fun other => ⟨?_, fun hother => (pieces_ofText hother sectionName).2⟩, ?_,
    fun pieces hpieces' => ?_, fun hne hloose => ?_⟩
  · rintro rfl
    rwa [hpieces]
  · obtain ⟨pieces, hdivides⟩ := exists_divides text.toList
    exact ⟨pieces, hdivides, fun _ hother => hother.unique hdivides⟩
  · rw [hpieces]
    exact hpieces'.keeps hkept
  · obtain ⟨w, hw, hiff⟩ := hloose.exists_keeps
    have hsegments : (ofText sectionName text).segments = [.literal (String.ofList w)] := by
      rw [(pieces_ofText hw sectionName).1, segments_literal]
      rintro rfl
      exact hne (String.toList_eq_nil_iff.1 hw.eq_nil)
    refine ⟨String.ofList w, hsegments, fun value? => ?_, ?_⟩
    · rw [fill, hsegments, List.mapM_cons, List.mapM_nil, segmentText]
      exact congrArg Except.ok (String.empty_append)
    · rw [← hiff, ← String.toList_inj, String.toList_ofList]

/-- Braces around two words: the first one is lost with its brace.  A dollar sign in front of a
    digit is stray as well, but nothing is lost there. -/
theorem ofText_keeps_behind_brace :
    Loose "$\x7ba.b c\x7d $5".toList ∧
    Divides "$\x7ba.b c\x7d $5".toList ("$\x7ba.b c\x7d $5".toList.map loosePiece) ∧
    (ofText "T" "$\x7ba.b c\x7d $5").segments = [.literal "$ c\x7d $5"] ∧
    (∀ value?, (ofText "T" "$\x7ba.b c\x7d $5").fill value? = .ok "$ c\x7d $5") ∧
    (ofText "T" "$\x7ba.b c\x7d $5").segments.flatMap Segment.pieces ≠
      ("$\x7ba.b c\x7d $5".toList.map loosePiece).map Piece.asText := by
  have hloose : Loose "$\x7ba.b c\x7d $5".toList := by decide
  have hsegments : (ofText "T" "$\x7ba.b c\x7d $5").segments = [.literal "$ c\x7d $5"] := by
    decide +kernel
  obtain ⟨-, -, hdivides, hliteral⟩ := ofText_keeps "T" "$\x7ba.b c\x7d $5"
  obtain ⟨literal, hliteral, hfill, -⟩ := hliteral (by decide) hloose
  obtain rfl : literal = "$ c\x7d $5" := by
    rw [hsegments] at hliteral
    exact (Segment.literal.inj (List.singleton_inj.1 hliteral)).symm
  refine ⟨hloose, hloose.divides, hsegments, hfill, fun heq => ?_⟩
  exact (hdivides _ hloose.divides).2.1 heq ⟨[], "a.b c\x7d $5".toList.map loosePiece, rfl⟩

end Template

end Stencil
