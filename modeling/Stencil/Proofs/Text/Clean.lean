/-
  Lines that clean to a given text.

  * `Passes`: a text in which no comment starts, for a reader of quotes;
  * `Solid`: a text that has no comment and no blank at its ends;
  * `Padded text padded`: the text has blanks around it, as a text has that is not trimmed;
  * `LineOf text line`: the line is made of the text, with blanks around it and perhaps a
    comment behind; `LinesOf` is the same for lists, with lines between them that say
    nothing;
  * `cleanLines_of_linesOf`: cleaning such lines gives back the texts.
-/
import Mathlib.Data.List.TakeWhile
import Stencil.Proofs.Text.Name
import Stencil.Text.Comment
import Stencil.Text.Escape

namespace Stencil.Text

/-! ## Texts without a comment -/

/-- No comment starts in a text, and a reader who comes to it at one place of quoting leaves it
    at another. -/
inductive Passes : Quoting → List Char → Quoting → Prop
  | nil {q} : Passes q [] q
  | cons {q c r q'} : ¬(q = .outside ∧ c = '#') → Passes (q.step c) r q' → Passes q (c :: r) q'

theorem Passes.append {q q' q'' : Quoting} {s t : List Char} (hs : Passes q s q')
    (ht : Passes q' t q'') : Passes q (s ++ t) q'' := by
  induction hs with
  | nil => exact ht
  | cons hc _ ih => exact .cons hc (ih ht)

theorem Passes.stripCommentFrom_append {q q' : Quoting} {s : List Char} (h : Passes q s q')
    (rest : List Char) : stripCommentFrom q (s ++ rest) = s ++ stripCommentFrom q' rest := by
  induction h with
  | nil => rfl
  | cons hc _ ih => rw [List.cons_append, stripCommentFrom, if_neg hc, ih, List.cons_append]

/-- Outside quotes, only a double quote and a comment sign have a meaning. -/
theorem passes_plain {s : List Char} (h : ∀ c ∈ s, c ≠ '"' ∧ c ≠ '#') :
    Passes .outside s .outside := by
  induction s with
  | nil => exact .nil
  | cons c r ih =>
    obtain ⟨⟨hquote, hsign⟩, hr⟩ := List.forall_mem_cons.1 h
    refine .cons (fun h => hsign h.2) ?_
    rw [Quoting.step, if_neg hquote]
    exact ih hr

/-- No comment starts between double quotes. -/
theorem Passes.quoted {q q' : Quoting} {c : Char} {r : List Char} (hq : q ≠ .outside)
    (h : Passes (q.step c) r q') : Passes q (c :: r) q' :=
  .cons (fun hc => hq hc.1) h

theorem passes_escape (s : List Char) : Passes .inside (escape s) .inside := by
  induction s with
  | nil => exact .nil
  | cons c r ih =>
    rw [escape, List.flatMap_cons]
    refine Passes.append ?_ ih
    by_cases hc : c = '\\' ∨ c = '"'
    · rw [if_pos hc]
      exact .quoted (by simp) (.quoted (by simp [Quoting.step]) .nil)
    · obtain ⟨hslash, hquote⟩ := not_or.1 hc
      rw [if_neg hc]
      refine .quoted (by simp) ?_
      rw [Quoting.step, if_neg hslash, if_neg hquote]
      exact .nil

theorem passes_quote (s : List Char) : Passes .outside (quote s) .outside := by
  refine .cons (by simp) ?_
  exact (passes_escape s).append (.quoted (by simp) .nil)

theorem ne_of_isBlank {c d : Char} (h : isBlank c = true) (hd : isBlank d = false) : c ≠ d := by
  rintro rfl
  rw [h] at hd
  cases hd

theorem passes_blanks {s : List Char} (h : ∀ c ∈ s, isBlank c = true) :
    Passes .outside s .outside :=
  passes_plain fun c hc => ⟨ne_of_isBlank (h c hc) rfl, ne_of_isBlank (h c hc) rfl⟩

/-- A line whose comment is cut off has none any more. -/
theorem passes_of_stripCommentFrom_eq {q : Quoting} {s : List Char}
    (h : stripCommentFrom q s = s) : Passes q s (s.foldl Quoting.step q) := by
  induction s generalizing q with
  | nil => exact .nil
  | cons c r ih =>
    rw [stripCommentFrom] at h
    split at h
    · cases h
    · rename_i hc
      exact .cons hc (ih (List.cons.inj h).2)

/-- Where double quotes are open they stay open up to the next double quote. -/
theorem exists_passes_inside {q : Quoting} (hq : q ≠ .outside) {s : List Char} (hs : '"' ∉ s) :
    ∃ q', q' ≠ .outside ∧ Passes q s q' := by
  induction s generalizing q with
  | nil => exact ⟨q, hq, .nil⟩
  | cons c r ih =>
    obtain ⟨hc, hr⟩ := not_or.1 (List.mem_cons.not.1 hs)
    have hstep : q.step c ≠ .outside := by
      cases q with
      | outside => exact absurd rfl hq
      | inside =>
        rw [Quoting.step, if_neg (Ne.symm hc)]
        split <;> exact nofun
      | escaped => exact nofun
    obtain ⟨q', hq', hpasses⟩ := ih hstep hr
    exact ⟨q', hq', .quoted hq hpasses⟩

/-! ## Solid texts -/

/-- A text that cleaning leaves as it is. -/
structure Solid (s : List Char) : Prop where
  ne_nil : s ≠ []
  head : ∀ c ∈ s.head?, isBlank c = false
  last : ∀ c ∈ s.getLast?, isBlank c = false
  passes : Passes .outside s .outside

theorem Solid.head_append {s : List Char} (hs : Solid s) (t : List Char) :
    ∀ c ∈ (s ++ t).head?, isBlank c = false := by
  cases s with
  | nil => exact absurd rfl hs.ne_nil
  | cons d r => exact hs.head

theorem Solid.last_append {t : List Char} (ht : Solid t) (s : List Char) :
    ∀ c ∈ (s ++ t).getLast?, isBlank c = false := by
  intro c hc
  rw [List.getLast?_append] at hc
  cases hlast : t.getLast? with
  | none => exact absurd (List.getLast?_eq_none_iff.1 hlast) ht.ne_nil
  | some d =>
    rw [hlast] at hc
    exact ht.last c (hlast ▸ hc)

/-- Two solid texts with anything between them that has no comment. -/
theorem Solid.append {s t : List Char} (hs : Solid s) {gap : List Char}
    (hgap : Passes .outside gap .outside) (ht : Solid t) : Solid (s ++ gap ++ t) where
  ne_nil := by simp [hs.ne_nil]
  head := by
    rw [List.append_assoc]
    exact hs.head_append (gap ++ t)
  last := ht.last_append (s ++ gap)
  passes := (hs.passes.append hgap).append ht.passes

/-- A text without blanks, double quotes and comment signs. -/
theorem solid_of_forall {s : List Char} (hs : s ≠ [])
    (h : ∀ c ∈ s, isBlank c = false ∧ c ≠ '"' ∧ c ≠ '#') : Solid s where
  ne_nil := hs
  head := fun c hc => (h c (List.mem_of_mem_head? hc)).1
  last := fun c hc => (h c (List.mem_of_getLast? hc)).1
  passes := passes_plain fun c hc => (h c hc).2

theorem solid_quote (s : List Char) : Solid (quote s) where
  ne_nil := by simp [quote]
  head := by
    rintro _ ⟨⟩
    rfl
  last := by
    intro c hc
    rw [quote, List.getLast?_append] at hc
    cases hc
    rfl
  passes := passes_quote s

theorem solid_of_isName {s : List Char} (h : isName s = true) : Solid s := by
  obtain ⟨hne, hchars⟩ := forall_isNameChar h
  refine solid_of_forall hne fun c hc => ?_
  have hchar := hchars c hc
  exact ⟨not_isBlank_of_isNameChar hchar, ne_of_isNameChar hchar rfl, ne_of_isNameChar hchar rfl⟩

/-! ## Lines -/

/-- A text with blanks around it. -/
def Padded (text padded : List Char) : Prop :=
  ∃ before after, (∀ c ∈ before, isBlank c = true) ∧ (∀ c ∈ after, isBlank c = true) ∧
    padded = before ++ text ++ after

/-- A line is made of a text, with blanks around it and perhaps a comment behind. -/
def LineOf (text : List Char) (line : String) : Prop :=
  ∃ before after comment : List Char, (∀ c ∈ before, isBlank c = true) ∧
    (∀ c ∈ after, isBlank c = true) ∧ (comment = [] ∨ ∃ r, comment = '#' :: r) ∧
    line.toList = before ++ text ++ after ++ comment

/-- Lines are made of texts, one of each, and there may be lines without a text between them. -/
inductive LinesOf : List (List Char) → List String → Prop
  | nil : LinesOf [] []
  | empty {texts line lines} : LineOf [] line → LinesOf texts lines → LinesOf texts (line :: lines)
  | line {text texts line lines} :
      LineOf text line → LinesOf texts lines → LinesOf (text :: texts) (line :: lines)

/-- Texts are lines as they are. -/
theorem linesOf_self (lines : List String) : LinesOf (lines.map String.toList) lines := by
  induction lines with
  | nil => exact .nil
  | cons line lines ih =>
    exact .line ⟨[], [], [], nofun, nofun, Or.inl rfl, by simp⟩ ih

theorem dropWhile_isBlank {s : List Char} (h : ∀ c ∈ s.head?, isBlank c = false) :
    s.dropWhile isBlank = s := by
  cases s with
  | nil => rfl
  | cons c r => exact List.dropWhile_cons_of_neg (by simp [h c rfl])

/-- The blanks around a text are cut off, and no others. -/
theorem trim_append {before text after : List Char} (hbefore : ∀ c ∈ before, isBlank c = true)
    (hafter : ∀ c ∈ after, isBlank c = true) (hhead : ∀ c ∈ text.head?, isBlank c = false)
    (hlast : ∀ c ∈ text.getLast?, isBlank c = false) : trim (before ++ text ++ after) = text := by
  have hend : trimEnd (text ++ after) = text := by
    have hreverse : ∀ c ∈ after.reverse, isBlank c = true := fun c hc =>
      hafter c (List.mem_reverse.1 hc)
    rw [trimEnd, List.reverse_append, List.dropWhile_append_of_pos hreverse, dropWhile_isBlank,
      List.reverse_reverse]
    rwa [List.head?_reverse]
  rw [trim, trimStart, List.append_assoc, List.dropWhile_append_of_pos hbefore]
  cases text with
  | nil =>
    rw [List.nil_append, List.dropWhile_eq_nil_iff.2 hafter]
    rfl
  | cons c r =>
    rw [dropWhile_isBlank]
    · exact hend
    · exact fun d hd => hhead d hd

theorem trim_eq_self {s : List Char} (hhead : ∀ c ∈ s.head?, isBlank c = false)
    (hlast : ∀ c ∈ s.getLast?, isBlank c = false) : trim s = s := by
  have h := trim_append (List.forall_mem_nil _) (List.forall_mem_nil _) hhead hlast
  rwa [List.nil_append, List.append_nil] at h

theorem trimEnd_append_blank {c : Char} (hc : isBlank c = true) (s : List Char) :
    trimEnd (s ++ [c]) = trimEnd s := by
  rw [trimEnd, List.reverse_append, List.reverse_singleton, List.singleton_append,
    List.dropWhile_cons_of_pos hc, trimEnd]

theorem trim_append_blank {c : Char} (hc : isBlank c = true) (s : List Char) :
    trim (s ++ [c]) = trim s := by
  rw [trim, trim, trimStart, trimStart, List.dropWhile_append]
  split
  · rename_i hnil
    rw [List.isEmpty_iff.1 hnil, List.dropWhile_cons_of_pos hc, List.dropWhile_nil]
  · exact trimEnd_append_blank hc _

/-- Only blanks leave nothing behind when they are cut off. -/
theorem trim_eq_nil_iff {s : List Char} : trim s = [] ↔ ∀ c ∈ s, isBlank c = true := by
  rw [trim, trimEnd, List.reverse_eq_nil_iff, List.dropWhile_eq_nil_iff]
  constructor
  · intro h c hc
    rw [← List.takeWhile_append_dropWhile (p := isBlank) (l := s)] at hc
    rcases List.mem_append.1 hc with hc | hc
    · exact List.mem_takeWhile_imp hc
    · exact h c (List.mem_reverse.2 hc)
  · intro h c hc
    exact h c ((List.dropWhile_sublist isBlank).subset (List.mem_reverse.1 hc))

/-- The blanks behind a text are cut off last. -/
theorem exists_trimStart_eq (s : List Char) :
    ∃ after, (∀ c ∈ after, isBlank c = true) ∧ trimStart s = trim s ++ after := by
  refine ⟨((trimStart s).reverse.takeWhile isBlank).reverse,
    fun c hc => List.mem_takeWhile_imp (List.mem_reverse.1 hc), ?_⟩
  rw [trim, trimEnd, ← List.reverse_append, List.takeWhile_append_dropWhile, List.reverse_reverse]

/-- Blanks are cut off, and nothing else. -/
theorem padded_trim (s : List Char) : Padded (trim s) s := by
  obtain ⟨after, hafter, hend⟩ := exists_trimStart_eq s
  refine ⟨s.takeWhile isBlank, after, fun c hc => List.mem_takeWhile_imp hc, hafter, ?_⟩
  rw [List.append_assoc, ← hend]
  exact List.takeWhile_append_dropWhile.symm

theorem head?_trim (s : List Char) : ∀ c ∈ (trim s).head?, isBlank c = false := by
  intro c hc
  obtain ⟨after, -, hend⟩ := exists_trimStart_eq s
  have hhead := List.head?_dropWhile_not isBlank s
  rw [trimStart] at hend
  rw [hend, List.head?_append, hc] at hhead
  exact hhead

theorem getLast?_trim (s : List Char) : ∀ c ∈ (trim s).getLast?, isBlank c = false := by
  intro c hc
  rw [trim, trimEnd, List.getLast?_reverse] at hc
  have hhead := List.head?_dropWhile_not isBlank (trimStart s).reverse
  rw [hc] at hhead
  exact hhead

theorem padded_self (s : List Char) : Padded s s :=
  ⟨[], [], List.forall_mem_nil _, List.forall_mem_nil _, by simp⟩

theorem Padded.subset {text padded : List Char} (h : Padded text padded) : text ⊆ padded := by
  obtain ⟨before, after, -, -, rfl⟩ := h
  exact fun c hc => List.mem_append_left after (List.mem_append_right before hc)

theorem Padded.count_eq {text padded : List Char} (h : Padded text padded) {c : Char}
    (hc : isBlank c = false) : padded.count c = text.count c := by
  obtain ⟨before, after, hbefore, hafter, rfl⟩ := h
  have hcount : ∀ s : List Char, (∀ d ∈ s, isBlank d = true) → s.count c = 0 := fun s hs =>
    List.count_eq_zero_of_not_mem fun hmem => Bool.false_ne_true (hc.symm.trans (hs c hmem))
  rw [List.count_append, List.count_append, hcount before hbefore, hcount after hafter,
    Nat.zero_add, Nat.add_zero]

theorem Solid.trim_eq {s : List Char} (hs : Solid s) : trim s = s :=
  trim_eq_self hs.head hs.last

theorem Padded.trim_eq {s padded : List Char} (h : Padded s padded) (hs : Solid s) :
    trim padded = s := by
  obtain ⟨before, after, hbefore, hafter, rfl⟩ := h
  exact trim_append hbefore hafter hs.head hs.last

/-- A text with no blanks at its ends has none around another one. -/
theorem Padded.eq_of_trimmed {s padded : List Char} (h : Padded s padded)
    (hhead : ∀ c ∈ padded.head?, isBlank c = false)
    (hlast : ∀ c ∈ padded.getLast?, isBlank c = false) : padded = s := by
  obtain ⟨before, after, hbefore, hafter, rfl⟩ := h
  have hfront : before = [] := by
    cases before with
    | nil => rfl
    | cons c r =>
      have hblank := hbefore c List.mem_cons_self
      rw [hhead c rfl] at hblank
      cases hblank
  have hback : after = [] := by
    cases hend : after.getLast? with
    | none => exact List.getLast?_eq_none_iff.1 hend
    | some c =>
      have hblank := hafter c (List.mem_of_getLast? hend)
      rw [hlast c (by rw [List.getLast?_append, hend]; rfl)] at hblank
      cases hblank
  rw [hfront, hback, List.nil_append, List.append_nil]

theorem stripComment_append {s comment : List Char} (h : Passes .outside s .outside)
    (hcomment : comment = [] ∨ ∃ r, comment = '#' :: r) : stripComment (s ++ comment) = s := by
  rw [stripComment, h.stripCommentFrom_append]
  rcases hcomment with rfl | ⟨r, rfl⟩
  · rw [stripCommentFrom, List.append_nil]
  · rw [stripCommentFrom, if_pos ⟨rfl, rfl⟩, List.append_nil]

theorem clean_of_lineOf {text : List Char} {line : String} (h : LineOf text line)
    (hhead : ∀ c ∈ text.head?, isBlank c = false) (hlast : ∀ c ∈ text.getLast?, isBlank c = false)
    (hpasses : Passes .outside text .outside) : clean line = String.ofList text := by
  obtain ⟨before, after, comment, hbefore, hafter, hcomment, hline⟩ := h
  have hall : Passes .outside (before ++ text ++ after) .outside :=
    ((passes_blanks hbefore).append hpasses).append (passes_blanks hafter)
  rw [clean, hline, stripComment_append hall hcomment, trim_append hbefore hafter hhead hlast]

theorem cleanLines_append (lines rest : List String) :
    cleanLines (lines ++ rest) = cleanLines lines ++ cleanLines rest := by
  rw [cleanLines, List.map_append, List.filter_append, cleanLines, cleanLines]

/-- **Cleaning gives back the texts that lines are made of.** -/
theorem cleanLines_of_linesOf {texts : List (List Char)} {lines : List String}
    (h : LinesOf texts lines) (hsolid : ∀ text ∈ texts, Solid text) :
    cleanLines lines = texts.map String.ofList := by
  induction h with
  | nil => rfl
  | empty hline _ ih =>
    have hclean := clean_of_lineOf hline (by simp) (by simp) .nil
    rw [← ih hsolid, cleanLines, List.map_cons, hclean]
    rfl
  | @line text texts line lines hline _ ih =>
    obtain ⟨htext, hrest⟩ := List.forall_mem_cons.1 hsolid
    have hclean := clean_of_lineOf hline htext.head htext.last htext.passes
    have hne : String.ofList text ≠ "" := by
      intro hempty
      exact htext.ne_nil (by simpa using congrArg String.toList hempty)
    rw [List.map_cons, ← ih hrest, cleanLines, List.map_cons, hclean,
      List.filter_cons_of_pos (by simp [hne])]
    rfl

end Stencil.Text
