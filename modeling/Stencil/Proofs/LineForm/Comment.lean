/-
  Comments behind lines that are accepted.

  A comment is cut off by a reader of quotes to whom a backslash between double quotes always takes
  the meaning of the next character.  The patterns of values also let such a backslash stand for
  itself, so that the two can disagree on where double quotes end.

  * `Closed`: double quotes are closed at the end of a text, for the reader of quotes;
  * `count_eq_of_parameter?`, `count_eq_of_row?`: the comment signs of an accepted line are those
    of the values that are read from it;
  * `commentLaw_of_accepted`: a comment leaves the meaning of an accepted line as it is if the line
    is closed, and becomes a part of the line if it is not.
-/
import Mathlib.Algebra.GroupWithZero.Nat
import Stencil.Proofs.LineForm.Spelling

namespace Stencil

/-! ## Closed lines -/

namespace Text

/-- Double quotes are closed at the end of a text. -/
def Closed (s : List Char) : Prop :=
  s.foldl Quoting.step .outside = .outside

/-- A line with a comment behind it. -/
def commented (line comment : String) : String :=
  line ++ " #" ++ comment

theorem toList_commented (line comment : String) :
    (commented line comment).toList = line.toList ++ ' ' :: '#' :: comment.toList := by
  simp [commented]

theorem Closed.append {s t : List Char} (hs : Closed s) (ht : Closed t) : Closed (s ++ t) := by
  rw [Closed, List.foldl_append, hs, ht]

theorem closed_of_notMem {s : List Char} (h : '"' ∉ s) : Closed s := by
  induction s with
  | nil => rfl
  | cons c r ih =>
    obtain ⟨hc, hr⟩ := not_or.1 (List.mem_cons.not.1 h)
    rw [Closed, List.foldl_cons, Quoting.step, if_neg (Ne.symm hc)]
    exact ih hr

theorem closed_blanks {s : List Char} (h : ∀ c ∈ s, isBlank c = true) : Closed s :=
  closed_of_notMem fun hmem => ne_of_isBlank (h '"' hmem) rfl rfl

theorem Padded.closed {s text : List Char} (h : Padded s text) (hs : Closed s) : Closed text := by
  obtain ⟨before, after, hbefore, hafter, rfl⟩ := h
  exact ((closed_blanks hbefore).append hs).append (closed_blanks hafter)

/-- **A comment behind a closed line is cut off**, with the blank in front of it. -/
theorem clean_commented {line : String} (hline : stripComment line.toList = line.toList)
    (hclosed : Closed line.toList) (comment : String) :
    clean (commented line comment) = clean line := by
  have hpasses := passes_of_stripCommentFrom_eq hline
  rw [hclosed] at hpasses
  have hblank : Passes .outside (line.toList ++ [' ']) .outside :=
    hpasses.append (.cons (by simp) .nil)
  have hcut := stripComment_append hblank (Or.inr ⟨comment.toList, rfl⟩)
  rw [List.append_assoc, List.singleton_append] at hcut
  rw [clean, clean, toList_commented, hcut, trim_append_blank rfl, hline]

/-- **A comment behind a line that is not closed is kept**, as long as it does not close it. -/
theorem clean_commented_of_not_closed {line : String}
    (hline : stripComment line.toList = line.toList) (hopen : ¬Closed line.toList)
    {comment : String} (hcomment : '"' ∉ comment.toList) :
    clean (commented line comment) = String.ofList (trim (commented line comment).toList) := by
  have hnotMem : '"' ∉ ' ' :: '#' :: comment.toList := by simp [hcomment]
  obtain ⟨q, -, hpasses⟩ := exists_passes_inside hopen hnotMem
  have hkept := ((passes_of_stripCommentFrom_eq hline).append hpasses).stripCommentFrom_append []
  rw [stripCommentFrom, List.append_nil, ← toList_commented] at hkept
  rw [clean, stripComment, hkept]

end Text

namespace LineForm

open Pattern Text

/-! ## Signs in values -/

theorem Spelling.count_source {c : Char} (hslash : c ≠ '\\') (hquote : c ≠ '"')
    (spelling : Spelling) : spelling.source.count c = spelling.value.count c := by
  obtain ⟨style, text⟩ := spelling
  cases style with
  | bare => rfl
  | quoted => simp [source, value, count_unescape hslash, hquote.symm]

theorem count_of_padded {spelling : Spelling} {text : List Char}
    (h : Padded spelling.source text) : text.count '#' = spelling.value.count '#' :=
  (h.count_eq rfl).trans (spelling.count_source (by decide) (by decide))

/-- Each comment sign on a row stands in one of its values. -/
theorem IsRow.count_eq {isBare : Char → Bool} {spellings : List Spelling} {text : List Char}
    (h : IsRow isBare spellings text) :
    text.count '#' = (spellings.map fun spelling => spelling.value.count '#').sum := by
  have hseparator : ∀ c, isSeparator c = true → c ≠ '#' :=
    forall_isSeparator (by decide) (by decide) (by decide)
  induction h with
  | nil => rfl
  | last _ hpadded => simp [count_of_padded hpadded]
  | more _ hpadded hc _ _ ih =>
    rw [List.count_append, count_of_padded hpadded, List.count_cons_of_ne (hseparator _ hc), ih,
      List.map_cons, List.sum_cons]

theorem count_eq_of_row? {n : Nat} {line : String} {values : List String}
    (h : row? n line = some values) :
    line.toList.count '#' = (values.map fun value => value.toList.count '#').sum := by
  obtain ⟨spellings, -, hrow, rfl⟩ := exists_isRow_of_row? h
  rw [hrow.count_eq, List.map_map]
  refine congrArg List.sum (List.map_congr_left fun spelling _ => ?_)
  rw [Function.comp_apply, String.toList_ofList]

theorem count_eq_of_parameter? {line : String} {parameter : String × String}
    (h : parameter? line = some parameter) :
    line.toList.count '#' = parameter.2.toList.count '#' := by
  obtain ⟨spelling, front, back, -, hname, hfront, hback, hline, hvalue⟩ :=
    exists_spelling_of_parameter? h
  have hkey : '#' ∉ parameter.1.toList := fun hmem =>
    ne_of_isNameChar ((forall_isNameChar hname).2 '#' hmem) rfl rfl
  rw [hline, List.count_append, hfront.count_eq rfl, List.count_eq_zero_of_not_mem hkey,
    List.count_cons_of_ne (by decide), count_of_padded hback, hvalue, String.toList_ofList,
    Nat.zero_add]

/-! ## Lines without backslashes -/

theorem foldl_step_inside {s : List Char}
    (hpairs : IsPairs (· == '\\') (· != '\n') (· != '"') s) (h : '\\' ∉ s) :
    s.foldl Quoting.step .inside = .inside := by
  induction hpairs with
  | nil => rfl
  | pair hc => exact absurd (List.mem_cons.2 (Or.inl (beq_iff_eq.1 hc).symm)) h
  | single hc _ ih =>
    obtain ⟨hslash, hr⟩ := not_or.1 (List.mem_cons.not.1 h)
    rw [List.foldl_cons, Quoting.step, if_neg (Ne.symm hslash), if_neg (bne_iff_ne.1 hc), ih hr]

section
variable {isBare : Char → Bool} (hbare : isBare '"' = false)
include hbare

theorem Spelling.closed {spelling : Spelling} (hfits : spelling.Fits isBare)
    (h : '\\' ∉ spelling.source) : Closed spelling.source := by
  obtain ⟨style, text⟩ := spelling
  cases style with
  | bare =>
    exact closed_of_notMem fun hmem => Bool.false_ne_true (hbare.symm.trans (hfits.2 _ hmem))
  | quoted =>
    have hslash : '\\' ∉ text := fun hmem => h (by simp [source, hmem])
    have hopen : Quoting.step .outside '"' = .inside := rfl
    rw [Closed, source, List.foldl_cons, hopen, List.foldl_append, foldl_step_inside hfits hslash]
    rfl

theorem closed_of_padded {spelling : Spelling} (hfits : spelling.Fits isBare) {text : List Char}
    (hpadded : Padded spelling.source text) (h : '\\' ∉ text) : Closed text :=
  hpadded.closed (Spelling.closed hbare hfits fun hmem => h (hpadded.subset hmem))

/-- A row without backslashes is closed. -/
theorem IsRow.closed {spellings : List Spelling} {text : List Char}
    (h : IsRow isBare spellings text) (hslash : '\\' ∉ text) : Closed text := by
  induction h with
  | nil => rfl
  | last hfits hpadded => exact closed_of_padded hbare hfits hpadded hslash
  | @more spelling spellings text c tail hfits hpadded hc _ _ ih =>
    have hquote : c ≠ '"' :=
      forall_isSeparator (P := (· ≠ '"')) (by decide) (by decide) (by decide) c hc
    simp only [List.mem_append, List.mem_cons, not_or] at hslash
    have hseparator : Closed [c] := closed_of_notMem (by simpa using hquote.symm)
    exact (closed_of_padded hbare hfits hpadded hslash.1).append (hseparator.append (ih hslash.2.2))

end

theorem closed_of_row? {n : Nat} {line : String} {values : List String}
    (h : row? n line = some values) (hslash : '\\' ∉ line.toList) : Closed line.toList := by
  obtain ⟨spellings, -, hrow, -⟩ := exists_isRow_of_row? h
  exact hrow.closed rfl hslash

theorem closed_of_parameter? {line : String} {parameter : String × String}
    (h : parameter? line = some parameter) (hslash : '\\' ∉ line.toList) : Closed line.toList := by
  obtain ⟨spelling, front, back, hfits, hname, hfront, hback, hline, -⟩ :=
    exists_spelling_of_parameter? h
  rw [hline] at hslash ⊢
  simp only [List.mem_append, List.mem_cons, not_or] at hslash
  have hkey : Closed parameter.1.toList := closed_of_notMem fun hmem =>
    ne_of_isNameChar ((forall_isNameChar hname).2 '"' hmem) rfl rfl
  have hsign : Closed ['='] := rfl
  exact (hfront.closed hkey).append (hsign.append (closed_of_padded rfl hfits hback hslash.2.2))

/-! ## Accepted lines -/

section
variable {α : Type}

/-- What comments do to a line from which `a` is read without them. -/
structure CommentLaw (read : String → Option α) (line : String) (a : α) : Prop where
  /-- A comment behind a closed line changes nothing. -/
  same : Closed line.toList → ∀ comment, cleanLines [commented line comment] = cleanLines [line] ∧
    read (clean (commented line comment)) = some a
  /-- A comment behind a line that is not closed, and that does not close it, changes what is
      read. -/
  changed : ¬Closed line.toList → ∀ comment, '"' ∉ comment.toList →
    read (clean (commented line comment)) ≠ some a
  closed : '\\' ∉ line.toList → Closed line.toList

/-- Comments keep to their law if the comment signs of a line are those of what is read from it. -/
theorem commentLaw_of_count {read : String → Option α} (signs : α → Nat)
    (hsigns : ∀ {line a}, read line = some a → line.toList.count '#' = signs a)
    (hclosed : ∀ {line a}, read line = some a → '\\' ∉ line.toList → Closed line.toList)
    {line : String} {a : α} (hline : stripComment line.toList = line.toList)
    (hread : read (String.ofList (trim line.toList)) = some a) : CommentLaw read line a := by
  have htrim : clean line = String.ofList (trim line.toList) := by rw [clean, hline]
  have hpadded := padded_trim line.toList
  refine ⟨fun h comment => ?_, fun h comment hcomment hsame => ?_, fun hslash => ?_⟩
  · have hclean := clean_commented hline h comment
    rw [cleanLines, cleanLines, List.map_singleton, List.map_singleton, hclean, htrim]
    exact ⟨rfl, hread⟩
  · -- the sign of the comment is one more than the values have
    have hcount := (hsigns hsame).trans (hsigns hread).symm
    rw [clean_commented_of_not_closed hline h hcomment, String.toList_ofList, String.toList_ofList,
      ← (padded_trim _).count_eq rfl, ← hpadded.count_eq rfl, toList_commented, List.count_append,
      List.count_cons_of_ne (by decide), List.count_cons_self] at hcount
    omega
  · have htrimmed := hclosed hread
    rw [String.toList_ofList] at htrimmed
    exact hpadded.closed (htrimmed fun hmem => hslash (hpadded.subset hmem))

end

/-- **A comment leaves the meaning of an accepted line as it is, exactly if the line is closed.** -/
theorem commentLaw_of_accepted {line : String} (hline : stripComment line.toList = line.toList) :
    (∀ parameter, parameter? (String.ofList (trim line.toList)) = some parameter →
      CommentLaw parameter? line parameter) ∧
    ∀ n values, row? n (String.ofList (trim line.toList)) = some values →
      CommentLaw (row? n) line values :=
  ⟨fun _ => commentLaw_of_count (fun parameter => parameter.2.toList.count '#')
      count_eq_of_parameter? closed_of_parameter? hline,
    fun _ _ => commentLaw_of_count
      (fun values => (values.map fun value => value.toList.count '#').sum)
      count_eq_of_row? closed_of_row? hline⟩

/-- A value that ends in a backslash is read with it, but leaves the line open.  With a comment
    behind the line this value is lost, and a double quote in the comment makes the comment a part
    of the value.  A comment sign between closed double quotes stays where it is. -/
theorem commented_backslash :
    (parameter? "a = \"\\\"" = some ("a", "\\") ∧
      (∀ comment, '"' ∉ comment.toList →
        parameter? (clean (commented "a = \"\\\"" comment)) ≠ some ("a", "\\")) ∧
      parameter? (clean (commented "a = \"\\\"" "\"")) = some ("a", "\" #")) ∧
    row? 2 "x, \"#\\\\\"" = some ["x", "#\\"] ∧
    ∀ comment, row? 2 (clean (commented " x, \"#\\\\\"" comment)) = some ["x", "#\\"] := by
  have hopen : ¬Closed "a = \"\\\"".toList := by
    rw [Closed]
    decide
  have hclosed : Closed " x, \"#\\\\\"".toList := by
    rw [Closed]
    decide
  have hparameter : CommentLaw parameter? "a = \"\\\"" ("a", "\\") :=
    (commentLaw_of_accepted (by decide)).1 _ (by decide +kernel)
  have hrow : CommentLaw (row? 2) " x, \"#\\\\\"" ["x", "#\\"] :=
    (commentLaw_of_accepted (by decide)).2 2 _ (by decide +kernel)
  exact ⟨⟨by decide +kernel, hparameter.changed hopen, by decide +kernel⟩, by decide +kernel,
    fun comment => (hrow.same hclosed comment).2⟩

end LineForm

end Stencil
