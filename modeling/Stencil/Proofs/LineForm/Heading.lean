/-
  Headings: the names of a table on its header line.

  * `IsHeading names gaps text`: the text is made of the names and of the gaps between them, which
    are dividers (`IsDivider`); it has no other names (`IsHeading.runs_append`) and no other gaps
    (`IsHeading.runs_gaps`);
  * `IsHeading.pieceCount_eq`: a heading is cut into as many pieces as it has names;
  * `IsHeader names line`: the line is a heading with a separator in each gap and blanks around it;
    these are the lines that the patterns of headers fit (`fits_header_iff`) and that are read as
    their names (`header?_eq_some_iff`);
  * `header?_counts_first`: to count the names before they are read loses no header.
-/
import Stencil.Proofs.LineForm.Units

namespace Stencil

namespace Text

/-! ## Runs of characters -/

/-- The longest parts of a text that have characters of a class only, in order. -/
def runs (p : Char → Bool) (s : List Char) : List (List Char) :=
  (s.splitOnP fun c => !p c).filter fun w => !w.isEmpty

section
variable {p : Char → Bool}

/-- A character of no run divides the runs. -/
theorem runs_append_cons {c : Char} (hc : p c = false) (s t : List Char) :
    runs p (s ++ c :: t) = runs p s ++ runs p t := by
  have hcut : (s ++ c :: t).splitOnP (fun d => !p d) =
      s.splitOnP (fun d => !p d) ++ t.splitOnP (fun d => !p d) :=
    List.splitOnP_append_cons s t (by rw [hc]; rfl)
  rw [runs, hcut, List.filter_append, runs, runs]

theorem runs_append_of_neg {gap : List Char} (hgap : ∀ c ∈ gap, p c = false) (s : List Char) :
    runs p (gap ++ s) = runs p s := by
  induction gap with
  | nil => rfl
  | cons c gap ih =>
    obtain ⟨hc, hgap⟩ := List.forall_mem_cons.1 hgap
    have hskip := runs_append_cons hc [] (gap ++ s)
    rwa [ih hgap] at hskip

theorem runs_of_neg {gap : List Char} (hgap : ∀ c ∈ gap, p c = false) : runs p gap = [] := by
  have h := runs_append_of_neg hgap []
  rwa [List.append_nil] at h

theorem runs_append {w : List Char} (hne : w ≠ []) (hw : ∀ c ∈ w, p c = true) {s : List Char}
    (hs : ∀ c ∈ s.head?, p c = false) : runs p (w ++ s) = w :: runs p s := by
  have hone : runs p w = [w] := by
    rw [runs, List.splitOnP_eq_singleton fun c hc => by rw [hw c hc]; rfl]
    simp [hne]
  cases s with
  | nil =>
    rw [List.append_nil, hone]
    rfl
  | cons c s =>
    have hc : p c = false := hs c rfl
    rw [runs_append_cons hc, hone, List.singleton_append, ← List.nil_append (c :: s),
      runs_append_cons hc]
    rfl

end

end Text

namespace LineForm

open Pattern Text

variable {ι : Type}

/-! ## Headings -/

/-- What divides two names: a comma or a semicolon with blanks around it, or blanks alone. -/
inductive IsDivider : List Char → Prop
  | mark {before after c} : c = ',' ∨ c = ';' → (∀ b ∈ before, isBlank b = true) →
      (∀ b ∈ after, isBlank b = true) → IsDivider (before ++ c :: after)
  | blanks {gap} : gap ≠ [] → (∀ b ∈ gap, isBlank b = true) → IsDivider gap

/-- Names with a divider in the gap between each two. -/
inductive IsHeading : List String → List (List Char) → List Char → Prop
  | last {name} : IsName name → IsHeading [name] [] name.toList
  | more {name names gap gaps tail} : IsName name → IsDivider gap → IsHeading names gaps tail →
      IsHeading (name :: names) (gap :: gaps) (name.toList ++ gap ++ tail)

/-- A gap has a comma, a semicolon or a space in it. -/
def HasSeparator (gap : List Char) : Prop :=
  ∃ c ∈ gap, isSeparator c = true

/-- A line is a heading with a separator in each gap and blanks around it. -/
def IsHeader (names : List String) (line : List Char) : Prop :=
  ∃ gaps text, IsHeading names gaps text ∧ (∀ gap ∈ gaps, HasSeparator gap) ∧ Padded text line

theorem IsDivider.ne_nil {gap : List Char} (h : IsDivider gap) : gap ≠ [] := by
  cases h with
  | mark => simp
  | blanks hne => exact hne

theorem IsDivider.forall_blank_or_mark {gap : List Char} (h : IsDivider gap) :
    ∀ c ∈ gap, isBlank c = true ∨ c = ',' ∨ c = ';' := by
  intro c hc
  cases h with
  | mark hmark hbefore hafter =>
    rcases List.mem_append.1 hc with hc | hc
    · exact Or.inl (hbefore c hc)
    · rcases List.mem_cons.1 hc with rfl | hc
      · exact Or.inr hmark
      · exact Or.inl (hafter c hc)
  | blanks _ hblanks => exact Or.inl (hblanks c hc)

theorem IsDivider.not_isNameChar {gap : List Char} (h : IsDivider gap) :
    ∀ c ∈ gap, isNameChar c = false := by
  intro c hc
  rcases h.forall_blank_or_mark c hc with hblank | rfl | rfl
  · exact not_isNameChar_of_isBlank hblank
  · rfl
  · rfl

theorem IsDivider.passes {gap : List Char} (h : IsDivider gap) : Passes .outside gap .outside := by
  refine passes_plain fun c hc => ?_
  rcases h.forall_blank_or_mark c hc with hblank | rfl | rfl
  · exact ⟨ne_of_isBlank hblank rfl, ne_of_isBlank hblank rfl⟩
  · decide
  · decide

/-- A divider with a separator in it is this separator with blanks around it. -/
theorem isDivider_and_hasSeparator_iff {gap : List Char} :
    IsDivider gap ∧ HasSeparator gap ↔
      ∃ before c after, (∀ b ∈ before, isBlank b = true) ∧ isSeparator c = true ∧
        (∀ b ∈ after, isBlank b = true) ∧ gap = before ++ c :: after := by
  constructor
  · rintro ⟨⟨hmark, hbefore, hafter⟩ | ⟨-, hblanks⟩, c, hc, hseparator⟩
    · rename_i before after mark
      refine ⟨before, mark, after, hbefore, ?_, hafter, rfl⟩
      rcases hmark with rfl | rfl <;> rfl
    · obtain ⟨before, after, rfl⟩ := List.append_of_mem hc
      have hsplit := List.forall_mem_append.1 hblanks
      exact ⟨before, c, after, hsplit.1, hseparator, (List.forall_mem_cons.1 hsplit.2).2, rfl⟩
  · rintro ⟨before, c, after, hbefore, hc, hafter, rfl⟩
    refine ⟨?_, c, by simp, hc⟩
    by_cases hspace : c = ' '
    · subst hspace
      refine .blanks (by simp) (List.forall_mem_append.2 ⟨hbefore, ?_⟩)
      exact List.forall_mem_cons.2 ⟨rfl, hafter⟩
    · simp only [isSeparator, Bool.or_eq_true, beq_iff_eq, hspace, or_false] at hc
      exact .mark hc hbefore hafter

section
variable {names : List String} {gaps : List (List Char)} {text : List Char}

/-- A heading starts with a name. -/
theorem IsHeading.exists_cons (h : IsHeading names gaps text) :
    ∃ c r, text = c :: r ∧ isNameChar c = true := by
  have hname : ∀ {name : String} {tail : List Char}, IsName name →
      ∃ c r, name.toList ++ tail = c :: r ∧ isNameChar c = true := by
    intro name tail hname
    obtain ⟨hne, hchars⟩ := forall_isNameChar hname
    obtain ⟨c, r, hcons⟩ := List.exists_cons_of_ne_nil hne
    exact ⟨c, r ++ tail, by rw [hcons]; rfl, hchars c (hcons ▸ List.mem_cons_self)⟩
  cases h with
  | last h =>
    rw [← List.append_nil (String.toList _)]
    exact hname h
  | more h _ _ =>
    rw [List.append_assoc]
    exact hname h

theorem IsHeading.head (h : IsHeading names gaps text) : ∀ c ∈ text.head?, isNameChar c = true := by
  obtain ⟨c, r, rfl, hc⟩ := h.exists_cons
  rintro _ ⟨⟩
  exact hc

theorem IsHeading.ne_nil (h : IsHeading names gaps text) : names ≠ [] := by
  cases h <;> simp

theorem IsHeading.isName (h : IsHeading names gaps text) : ∀ name ∈ names, IsName name := by
  induction h with
  | last hname => exact List.forall_mem_singleton.2 hname
  | more hname _ _ ih => exact List.forall_mem_cons.2 ⟨hname, ih⟩

theorem IsHeading.solid (h : IsHeading names gaps text) : Solid text := by
  induction h with
  | last hname => exact solid_of_isName hname
  | more hname hgap _ ih => exact (solid_of_isName hname).append hgap.passes ih

theorem IsDivider.head_append {gap : List Char} (h : IsDivider gap) (tail : List Char) :
    ∀ c ∈ (gap ++ tail).head?, isNameChar c = false := by
  obtain ⟨d, r, rfl⟩ := List.exists_cons_of_ne_nil h.ne_nil
  rintro _ ⟨⟩
  exact h.not_isNameChar d List.mem_cons_self

/-- **The names of a heading are its runs of characters of names.** -/
theorem IsHeading.runs_append (h : IsHeading names gaps text) {after : List Char}
    (hafter : ∀ c ∈ after, isNameChar c = false) :
    runs isNameChar (text ++ after) = names.map String.toList := by
  induction h with
  | last hname =>
    obtain ⟨hne, hchars⟩ := forall_isNameChar hname
    rw [Text.runs_append hne hchars fun c hc => hafter c (List.mem_of_mem_head? hc),
      runs_of_neg hafter]
    rfl
  | more hname hgap htail ih =>
    obtain ⟨hne, hchars⟩ := forall_isNameChar hname
    rw [List.append_assoc, List.append_assoc,
      Text.runs_append hne hchars (hgap.head_append _),
      runs_append_of_neg hgap.not_isNameChar, ih, List.map_cons]

/-- **The gaps of a heading are its runs of all other characters.** -/
theorem IsHeading.runs_gaps (h : IsHeading names gaps text) :
    runs (fun c => !isNameChar c) text = gaps := by
  have hother : ∀ {name : String}, IsName name → ∀ c ∈ name.toList, (!isNameChar c) = false := by
    intro name hname c hc
    rw [(forall_isNameChar hname).2 c hc]
    rfl
  induction h with
  | last hname => exact runs_of_neg (hother hname)
  | more hname hgap htail ih =>
    rw [List.append_assoc, runs_append_of_neg (hother hname), Text.runs_append hgap.ne_nil, ih]
    · intro c hc
      rw [hgap.not_isNameChar c hc]
      rfl
    · intro c hc
      rw [htail.head c hc]
      rfl

/-- The names of a line are its runs of characters of names. -/
theorem IsHeader.names_eq {line : List Char} (h : IsHeader names line) :
    names = (runs isNameChar line).map String.ofList := by
  obtain ⟨gaps, text, hheading, -, before, after, hbefore, hafter, rfl⟩ := h
  rw [List.append_assoc, runs_append_of_neg fun c hc => not_isNameChar_of_isBlank (hbefore c hc),
    hheading.runs_append fun c hc => not_isNameChar_of_isBlank (hafter c hc), List.map_map]
  simp [Function.comp_def]

/-- A heading is a header exactly if there is a separator in each of its gaps. -/
theorem IsHeading.isHeader_iff (h : IsHeading names gaps text) :
    (∃ names', IsHeader names' text) ↔ ∀ gap ∈ gaps, HasSeparator gap := by
  constructor
  · rintro ⟨names', gaps', text', hheading, hgaps, hpadded⟩
    obtain rfl : text = text' :=
      h.solid.trim_eq.symm.trans (hpadded.trim_eq hheading.solid)
    rwa [← h.runs_gaps, hheading.runs_gaps]
  · intro hgaps
    exact ⟨names, gaps, text, h, hgaps, padded_self text⟩

end

/-! ## Counting -/

theorem one_le_pieceCount (s : List Char) : 1 ≤ pieceCount s := by
  induction s with
  | nil => rw [pieceCount_nil]
  | cons c r ih =>
    cases h : behindSeparator? (c :: r) with
    | none => rwa [pieceCount_of_none h]
    | some rest =>
      rw [pieceCount_of_some h]
      exact Nat.le_add_left 1 _

/-- A divider in front of a name is cut away as a whole. -/
theorem IsDivider.behindSeparator?_eq {gap : List Char} (h : IsDivider gap) {c : Char}
    (hc : isNameChar c = true) (r : List Char) :
    behindSeparator? (gap ++ c :: r) = some (c :: r) := by
  have hblank : (c :: r).dropWhile isBlank = c :: r :=
    dropWhile_isBlank (by rintro _ ⟨⟩; exact not_isBlank_of_isNameChar hc)
  cases h with
  | @mark before after mark hmark hbefore hafter =>
    have hstop : (mark :: (after ++ c :: r)).dropWhile isBlank = mark :: (after ++ c :: r) :=
      dropWhile_isBlank (by rintro _ ⟨⟩; rcases hmark with rfl | rfl <;> rfl)
    have hahead : (before ++ mark :: after ++ c :: r).dropWhile isBlank =
        mark :: (after ++ c :: r) := by
      rw [List.append_assoc, List.dropWhile_append_of_pos hbefore, List.cons_append, hstop]
    rw [behindSeparator?, hahead]
    simp [hmark, List.dropWhile_append_of_pos hafter, hblank]
  | blanks hne hblanks =>
    obtain ⟨d, w, rfl⟩ := List.exists_cons_of_ne_nil hne
    have hcomma : c ≠ ',' := ne_of_isNameChar hc rfl
    have hsemicolon : c ≠ ';' := ne_of_isNameChar hc rfl
    rw [behindSeparator?, List.dropWhile_append_of_pos hblanks, hblank]
    simp [hcomma, hsemicolon, hblanks d]

/-- **A heading is cut into as many pieces as it has names.** -/
theorem IsHeading.pieceCount_eq {names : List String} {gaps : List (List Char)} {text : List Char}
    (h : IsHeading names gaps text) : pieceCount text = names.length := by
  induction h with
  | @last name hname =>
    have hpieces := pieceCount_append (forall_isNameChar hname).2 []
    rwa [List.append_nil, pieceCount_nil] at hpieces
  | @more name names gap gaps tail hname hgap htail ih =>
    obtain ⟨c, r, rfl, hc⟩ := htail.exists_cons
    obtain ⟨d, w, rfl⟩ := List.exists_cons_of_ne_nil hgap.ne_nil
    have hcut : behindSeparator? (d :: (w ++ c :: r)) = some (c :: r) :=
      hgap.behindSeparator?_eq hc r
    rw [List.append_assoc, pieceCount_append (forall_isNameChar hname).2, List.cons_append,
      pieceCount_of_some hcut, ih, List.length_cons]

theorem IsHeader.columnCount_eq {names : List String} {line : String}
    (h : IsHeader names line.toList) : columnCount line = names.length := by
  obtain ⟨gaps, text, hheading, -, hpadded⟩ := h
  rw [columnCount, hpadded.trim_eq hheading.solid, hheading.pieceCount_eq]

/-! ## The pattern of a header -/

/-- The pattern of `n` names, numbered from `i`. -/
abbrev namesFrom (i n : Nat) : Pattern Nat :=
  listFrom (fun j => padded (group j name)) i n

theorem takes_paddedName_of {g : ι} {w before after : List Char} (hw : isName w = true)
    (hbefore : ∀ c ∈ before, isBlank c = true) (hafter : ∀ c ∈ after, isBlank c = true)
    (rest : List Char) :
    Takes (padded (group g name)) (before ++ w ++ after ++ rest) rest
      (noted g w (after ++ rest)) := by
  have hname : Takes (ι := ι) name (w ++ (after ++ rest)) (after ++ rest) [] :=
    takes_name.2 ⟨rfl, w, rfl, hw⟩
  have hgroup : Takes (group g name) (w ++ (after ++ rest)) (after ++ rest)
      (noted g w (after ++ rest)) := takes_group.2 ⟨[], hname, rfl⟩
  rw [List.append_assoc, List.append_assoc]
  exact .seq (.run hbefore) (.seq hgroup (.run hafter))

/-- **The pattern of a header takes headings**, with a separator in each gap, and notes each name
    under its number. -/
theorem takes_namesFrom {n i : Nat} {s rest : List Char} {m : Match Nat}
    (h : Takes (namesFrom i (n + 1)) s rest m) :
    ∃ names line, names.length = n + 1 ∧ IsHeader names line ∧ s = line ++ rest ∧
      (∀ j < i, m.Lacks j) ∧
      ∀ (k : Nat) (name : String), names[k]? = some name → m.text? (i + k) = some name.toList := by
  induction n generalizing i s m with
  | zero =>
    obtain ⟨w, line, behind, hw, hpadded, hs, rfl⟩ := takes_paddedName h
    have hname : IsName (String.ofList w) := by rwa [IsName, String.toList_ofList]
    have hlast := IsHeading.last hname
    rw [String.toList_ofList] at hlast
    refine ⟨[String.ofList w], line, rfl, ⟨[], w, hlast, List.forall_mem_nil _, hpadded⟩, hs,
      fun j hj => by simp [Match.Lacks]; omega, fun k name hk => ?_⟩
    cases k with
    | zero =>
      cases hk
      rw [String.toList_ofList]
      exact Match.text?_group i w behind
    | succ k => simp at hk
  | succ n ih =>
    simp only [namesFrom, listFrom, takes_seq, takes_one] at h
    obtain ⟨_, _, _, hcolumn, ⟨_, _, back, ⟨rfl, c, rfl, hc⟩, hmore, rfl⟩, rfl⟩ := h
    obtain ⟨w, _, behind, hw, ⟨before, after, hbefore, hafter, rfl⟩, rfl, rfl⟩ :=
      takes_paddedName hcolumn
    obtain ⟨names, _, hlength, ⟨gaps, text, hheading, hgaps, ⟨left, right, hleft, hright, rfl⟩⟩,
      rfl, hlacks, htexts⟩ := ih hmore
    have hname : IsName (String.ofList w) := by rwa [IsName, String.toList_ofList]
    -- the blanks on both sides of the separator belong to one gap
    obtain ⟨hdivider, hseparator⟩ :=
      isDivider_and_hasSeparator_iff.2 ⟨after, c, left, hafter, hc, hleft, rfl⟩
    have hmoreNames := IsHeading.more hname hdivider hheading
    rw [String.toList_ofList] at hmoreNames
    have hother : ∀ j ≠ i, Match.Lacks (noted i w behind) j := fun j hj => by
      simp [Match.Lacks, hj.symm]
    refine ⟨String.ofList w :: names, _, congrArg (· + 1) hlength,
      ⟨_, _, hmoreNames, List.forall_mem_cons.2 ⟨hseparator, hgaps⟩, before, right, hbefore, hright,
        rfl⟩, by simp, fun j hj e he => ?_, fun k name hk => ?_⟩
    · rcases List.mem_append.1 he with he | he
      · exact hother j (by omega) e he
      · exact hlacks j (by omega) e he
    · cases k with
      | zero =>
        cases hk
        rw [Nat.add_zero, Match.text?_append_left (hlacks i (Nat.lt_succ_self i)),
          String.toList_ofList]
        exact Match.text?_group i w behind
      | succ k =>
        have htext := htexts k name hk
        rw [Nat.add_assoc, Nat.add_comm 1] at htext
        rw [Match.text?_append_right (hother _ (by omega)), htext]

/-- Every heading with a separator in each gap is taken. -/
theorem exists_takes_namesFrom {names : List String} {gaps : List (List Char)} {text : List Char}
    (h : IsHeading names gaps text) (hgaps : ∀ gap ∈ gaps, HasSeparator gap) (i : Nat)
    {before after : List Char} (hbefore : ∀ c ∈ before, isBlank c = true)
    (hafter : ∀ c ∈ after, isBlank c = true) (rest : List Char) :
    ∃ m, Takes (namesFrom i names.length) (before ++ text ++ after ++ rest) rest m := by
  induction h generalizing i before with
  | last hname => exact ⟨_, takes_paddedName_of hname hbefore hafter rest⟩
  | @more name names gap gaps tail hname hgap htail ih =>
    obtain ⟨hseparator, hothers⟩ := List.forall_mem_cons.1 hgaps
    obtain ⟨left, c, right, hleft, hc, hright, rfl⟩ :=
      isDivider_and_hasSeparator_iff.1 ⟨hgap, hseparator⟩
    obtain ⟨m, hmore⟩ := ih hothers (i + 1) hright
    obtain ⟨n, hn⟩ := Nat.exists_eq_add_one_of_ne_zero (List.length_eq_zero_iff.not.2 htail.ne_nil)
    have hcolumn := takes_paddedName_of (g := i) hname hbefore hleft
      (c :: (right ++ tail ++ after ++ rest))
    have hline : before ++ (name.toList ++ (left ++ c :: right) ++ tail) ++ after ++ rest =
        before ++ name.toList ++ left ++ c :: (right ++ tail ++ after ++ rest) := by simp
    rw [hn] at hmore
    rw [hline, List.length_cons, hn]
    exact ⟨_, .seq hcolumn (.seq (.one hc) hmore)⟩

/-- **The pattern of a header of `n` names fits the headers of `n` names.** -/
theorem fits_header_iff {n : Nat} (hn : 1 ≤ n) {line : List Char} :
    (header n).fits line = true ↔ ∃ names, names.length = n ∧ IsHeader names line := by
  obtain ⟨k, rfl⟩ := Nat.exists_eq_add_of_le' hn
  rw [fits_iff_takes]
  constructor
  · rintro ⟨m, htakes⟩
    obtain ⟨names, line, hlength, hheader, rfl, -, -⟩ := takes_namesFrom htakes
    rw [List.append_nil]
    exact ⟨names, hlength, hheader⟩
  · rintro ⟨names, hlength, gaps, text, hheading, hgaps, before, after, hbefore, hafter, rfl⟩
    have htakes := exists_takes_namesFrom hheading hgaps 0 hbefore hafter []
    rwa [List.append_nil, hlength] at htakes

/-! ## Reading a header -/

theorem headerGroups?_eq_some_iff {n : Nat} (hn : 1 ≤ n) {line : String}
    {groups : List (Option String)} :
    headerGroups? n line = some groups ↔
      ∃ names, names.length = n ∧ IsHeader names line.toList ∧ groups = names.map some := by
  -- whatever is matched, it is the one header that the line is
  have hread : ∀ {m : Match Nat}, (header n).match? line.toList = some m →
      ∃ names : List String, names.length = n ∧ IsHeader names line.toList ∧
        ((List.range n).map fun i => (m.text? i).map String.ofList) = names.map some := by
    intro m hm
    obtain ⟨k, rfl⟩ := Nat.exists_eq_add_of_le' hn
    obtain ⟨names, _, hlength, hheader, hline, -, htexts⟩ := takes_namesFrom (takes_of_match? hm)
    rw [List.append_nil] at hline
    refine ⟨names, hlength, hline ▸ hheader, ?_⟩
    rw [← hlength, ← List.length_map some]
    refine map_range_of_getElem? fun k group hk => ?_
    obtain ⟨name, hname, rfl⟩ := Option.map_eq_some_iff.1 (List.getElem?_map ▸ hk)
    have htext := htexts k name hname
    rw [Nat.zero_add] at htext
    rw [htext, Option.map_some, String.ofList_toList]
  constructor
  · intro h
    obtain ⟨m, hm, hgroups⟩ := Option.bind_eq_some_iff.1 h
    cases hgroups
    exact hread hm
  · rintro ⟨names, hlength, hheader, rfl⟩
    obtain ⟨m, hm⟩ := Option.isSome_iff_exists.1 ((fits_header_iff hn).2 ⟨names, hlength, hheader⟩)
    obtain ⟨names', -, hheader', hgroups⟩ := hread hm
    obtain rfl : names = names' := hheader.names_eq.trans hheader'.names_eq.symm
    rw [headerGroups?, hm, ← hgroups]
    rfl

/-- **The lines that are read as headers**, and their names. -/
theorem header?_eq_some_iff {line : String} {names : List String} :
    header? line = some names ↔ IsHeader names line.toList := by
  have hcount : 1 ≤ columnCount line := one_le_pieceCount _
  have hsome : ∀ names : List String, (names.map some).filterMap id = names := fun names => by
    rw [List.filterMap_map]
    exact List.filterMap_some
  constructor
  · intro h
    obtain ⟨groups, hgroups, hnames⟩ := Option.bind_eq_some_iff.1 h
    cases hnames
    obtain ⟨names, -, hheader, rfl⟩ := (headerGroups?_eq_some_iff hcount).1 hgroups
    rwa [hsome]
  · intro h
    have hgroups := (headerGroups?_eq_some_iff hcount).2 ⟨names, h.columnCount_eq.symm, h, rfl⟩
    rw [header?, hgroups, ← hsome names]
    simp

theorem IsHeader.isName {names : List String} {line : List Char} (h : IsHeader names line) :
    names ≠ [] ∧ ∀ name ∈ names, IsName name := by
  obtain ⟨gaps, text, hheading, -, -⟩ := h
  exact ⟨hheading.ne_nil, hheading.isName⟩

/-- Names with spaces and one separator between each two are a header. -/
theorem isHeader_of_isList {names : List String} {text : List Char}
    (h : IsList nameUnits.IsUnit names text) : IsHeader names text := by
  suffices ∃ gaps, IsHeading names gaps text ∧ ∀ gap ∈ gaps, HasSeparator gap by
    obtain ⟨gaps, hheading, hgaps⟩ := this
    exact ⟨gaps, text, hheading, hgaps, padded_self text⟩
  induction h with
  | last hname =>
    obtain ⟨hname, rfl⟩ := hname
    exact ⟨[], .last hname, List.forall_mem_nil _⟩
  | more hname hgap _ ih =>
    obtain ⟨hname, rfl⟩ := hname
    obtain ⟨before, after, hc⟩ := hgap
    obtain ⟨gaps, hheading, hgaps⟩ := ih
    obtain ⟨hdivider, hseparator⟩ := isDivider_and_hasSeparator_iff.2
      ⟨_, _, _, forall_mem_replicate before, hc, forall_mem_replicate after, rfl⟩
    exact ⟨_, .more hname hdivider hheading, List.forall_mem_cons.2 ⟨hseparator, hgaps⟩⟩

/-- **A header that is written is read back.** -/
theorem header?_of_names {names : List String} (hne : names ≠ []) (hnames : ∀ n ∈ names, IsName n) :
    header? (",".intercalate names) = some names :=
  header?_eq_some_iff.2 (isHeader_of_isList (isList_names hne hnames))

/-- **To count the names before they are read loses no header.**  A line that the pattern of some
    number of names fits has this number of pieces, so that it is read, as all its names in
    order. -/
theorem header?_counts_first (line : String) :
    (∀ n, 1 ≤ n → (header n).fits line.toList = true → columnCount line = n) ∧
    ((∃ names, header? line = some names) ↔ ∃ n, 1 ≤ n ∧ (header n).fits line.toList = true) ∧
    ∀ names, header? line = some names →
      names ≠ [] ∧ (∀ name ∈ names, IsName name) ∧
        names = (runs isNameChar line.toList).map String.ofList := by
  refine ⟨fun n hn hfits => ?_, ⟨?_, ?_⟩, fun names hnames => ?_⟩
  · obtain ⟨names, hlength, hheader⟩ := (fits_header_iff hn).1 hfits
    exact hheader.columnCount_eq.trans hlength
  · rintro ⟨names, hnames⟩
    have hheader := header?_eq_some_iff.1 hnames
    have hpos : 1 ≤ names.length := List.length_pos_iff.2 hheader.isName.1
    exact ⟨names.length, hpos, (fits_header_iff hpos).2 ⟨names, rfl, hheader⟩⟩
  · rintro ⟨n, hn, hfits⟩
    obtain ⟨names, -, hheader⟩ := (fits_header_iff hn).1 hfits
    exact ⟨names, header?_eq_some_iff.2 hheader⟩
  · have hheader := header?_eq_some_iff.1 hnames
    exact ⟨hheader.isName.1, hheader.isName.2, hheader.names_eq⟩

/-- A header with a comma, a semicolon and a space between its names, and blanks of other kinds. -/
theorem header?_counts_first_blanks :
    let line := " id\t; _name ,\u00A0x1 \tcity\n"
    ((header 4).fits line.toList = true ∧ columnCount line = 4) ∧
    header? line = some ["id", "_name", "x1", "city"] ∧
    (runs isNameChar line.toList).map String.ofList = ["id", "_name", "x1", "city"] := by
  intro line
  have hfits : (header 4).fits line.toList = true := by decide +kernel
  have hnames : header? line = some ["id", "_name", "x1", "city"] := by decide +kernel
  exact ⟨⟨hfits, (header?_counts_first line).1 4 (by decide) hfits⟩, hnames,
    ((header?_counts_first line).2.2 _ hnames).2.2.symm⟩

end LineForm

end Stencil
