/-
  Lists of units on a line: the names of a header and the cells of a row.

  * `IsList`: units one behind the other, with a comma, a semicolon or a space between
    each two and any number of spaces around it;
  * `Units`: a pattern for units, what it takes for a unit, and how the text of a unit is
    read from a match; `nameUnits` and `cellUnits` are those of headers and of rows;
  * `Units.exists_finds_list`: the pattern of a list finds its units one by one;
  * `row?_of_isList`: rows that are written are read back.
-/
import Stencil.Proofs.LineForm.Value

namespace Stencil.LineForm

open Pattern Text

variable {ι : Type}

/-! ## Lists as they are written -/

def isSeparator (c : Char) : Bool :=
  c == ',' || c == ';' || c == ' '

theorem forall_isSeparator {P : Char → Prop} (hcomma : P ',') (hsemicolon : P ';')
    (hspace : P ' ') : ∀ c, isSeparator c = true → P c := by
  intro c h
  simp only [isSeparator, Bool.or_eq_true, beq_iff_eq] at h
  rcases h with (rfl | rfl) | rfl
  · exact hcomma
  · exact hsemicolon
  · exact hspace

theorem not_isNameChar_of_isSeparator : ∀ c, isSeparator c = true → isNameChar c = false :=
  forall_isSeparator rfl rfl rfl

theorem not_isBareCell_of_isSeparator : ∀ c, isSeparator c = true → isBareCell c = false :=
  forall_isSeparator rfl rfl rfl

/-- A separator with spaces around it. -/
inductive IsGap : List Char → Prop
  | intro {c : Char} (before after : Nat) : isSeparator c = true →
      IsGap (List.replicate before ' ' ++ c :: List.replicate after ' ')

/-- Units with a gap between each two. -/
inductive IsList (IsUnit : String → List Char → Prop) : List String → List Char → Prop
  | last {unit text} : IsUnit unit text → IsList IsUnit [unit] text
  | more {unit units text gap tail} : IsUnit unit text → IsGap gap → IsList IsUnit units tail →
      IsList IsUnit (unit :: units) (text ++ gap ++ tail)

theorem IsGap.isSeparator_of_mem {gap : List Char} (h : IsGap gap) :
    ∀ c ∈ gap, isSeparator c = true := by
  obtain ⟨before, after, hc⟩ := h
  have hspace : isSeparator ' ' = true := rfl
  intro d hd
  simp only [List.mem_append, List.mem_cons, List.mem_replicate] at hd
  rcases hd with ⟨-, rfl⟩ | rfl | ⟨-, rfl⟩
  · exact hspace
  · exact hc
  · exact hspace

theorem IsGap.ne_nil {gap : List Char} (h : IsGap gap) : gap ≠ [] := by
  obtain ⟨before, after, hc⟩ := h
  simp

theorem IsGap.passes {gap : List Char} (h : IsGap gap) : Passes .outside gap .outside := by
  have hplain : ∀ c, isSeparator c = true → c ≠ '"' ∧ c ≠ '#' :=
    forall_isSeparator (by decide) (by decide) (by decide)
  exact passes_plain fun c hc => hplain c (h.isSeparator_of_mem c hc)

/-- A unit in front of a gap is at its end. -/
theorem IsGap.head_append {gap : List Char} (h : IsGap gap) (tail : List Char) :
    ∀ c ∈ (gap ++ tail).head?, isSeparator c = true := by
  intro c hc
  cases gap with
  | nil => exact absurd rfl h.ne_nil
  | cons d r =>
    cases hc
    exact h.isSeparator_of_mem c List.mem_cons_self

theorem IsList.ne_nil {IsUnit : String → List Char → Prop} {units : List String} {text : List Char}
    (h : IsList IsUnit units text) : units ≠ [] := by
  cases h <;> simp

/-- A unit stands in front. -/
theorem IsList.exists_append {IsUnit : String → List Char → Prop} {units : List String}
    {text : List Char} (h : IsList IsUnit units text) :
    ∃ u first tail, IsUnit u first ∧ text = first ++ tail := by
  cases h with
  | last hu => exact ⟨_, _, [], hu, (List.append_nil _).symm⟩
  | more hu _ _ => exact ⟨_, _, _, hu, List.append_assoc ..⟩

theorem IsList.solid {IsUnit : String → List Char → Prop}
    (hunit : ∀ {unit text}, IsUnit unit text → Solid text) {units : List String} {text : List Char}
    (h : IsList IsUnit units text) : Solid text := by
  induction h with
  | last h => exact hunit h
  | more h hgap _ ih => exact (hunit h).append hgap.passes ih

/-! ## Finding a list -/

/-- A pattern for units with numbers, and how the text of a unit is read from a match: only the
    groups of its number count. -/
structure Units (ι : Type) where
  unit : Nat → Pattern ι
  number : ι → Nat
  text? : Nat → Match ι → Option (List Char)
  /-- How a unit is written. -/
  IsUnit : String → List Char → Prop
  text?_append_left : ∀ {i : Nat} {m n : Match ι}, (∀ e ∈ n, number e.1.1 ≠ i) →
    text? i (m ++ n) = text? i m
  text?_append_right : ∀ {i : Nat} {m n : Match ι}, (∀ e ∈ m, number e.1.1 ≠ i) →
    text? i (m ++ n) = text? i n
  solid : ∀ {u : String} {text : List Char}, IsUnit u text → Solid text
  head_not_separator : ∀ {u : String} {text : List Char}, IsUnit u text →
    ∀ c ∈ text.head?, isSeparator c = false
  exists_finds : ∀ {u : String} {text : List Char} (i : Nat) (rest : List Char), IsUnit u text →
    (∀ c ∈ rest.head?, isSeparator c = true) →
    ∃ m, Finds (unit i) (text ++ rest) rest m ∧ (∀ e ∈ m, number e.1.1 = i) ∧
      text? i m = some u.toList

/-- A list starts with the first character of its first unit. -/
theorem Units.exists_cons (U : Units ι) {units : List String} {text : List Char}
    (h : IsList U.IsUnit units text) :
    ∃ c r, text = c :: r ∧ isBlank c = false ∧ isSeparator c = false := by
  obtain ⟨u, first, tail, hu, rfl⟩ := h.exists_append
  cases first with
  | nil => exact absurd rfl (U.solid hu).ne_nil
  | cons c r => exact ⟨c, r ++ tail, rfl, (U.solid hu).head c rfl, U.head_not_separator hu c rfl⟩

theorem forall_mem_replicate (n : Nat) : ∀ c ∈ List.replicate n ' ', isBlank c = true := by
  intro c hc
  rw [List.eq_of_mem_replicate hc]
  rfl

/-- The blanks behind a unit are found together with what comes next. -/
theorem finds_padded_seq {p q : Pattern ι} {s rest : List Char} {m : Match ι}
    (h : Finds (.seq blanks (.seq p (.seq blanks q))) s rest m) :
    Finds (.seq (padded p) q) s rest m :=
  h

/-- A gap is found in front of a list.  If its separator is a space, then the blanks in front of
    the separator are all but the last one. -/
theorem finds_gap {more : Pattern ι} {gap tail rest : List Char} {m : Match ι} (hgap : IsGap gap)
    (htail : ∃ c r, tail = c :: r ∧ isBlank c = false ∧ isSeparator c = false)
    (h : ∀ n, Finds more (List.replicate n ' ' ++ tail) rest m) :
    Finds (.seq blanks (.seq (.one isSeparator) more)) (gap ++ tail) rest m := by
  obtain ⟨before, after, hc⟩ := hgap
  rename_i c
  obtain ⟨d, r, rfl, hblank, hseparator⟩ := htail
  rw [List.append_assoc, List.cons_append]
  by_cases hspace : c = ' '
  · subst hspace
    have hspaces : List.replicate before ' ' ++ ' ' :: (List.replicate after ' ' ++ d :: r) =
        List.replicate (before + after) ' ' ++ ' ' :: d :: r := by
      rw [← List.replicate_append_replicate, List.append_assoc, ← List.singleton_append,
        ← List.append_assoc [' '], List.singleton_append, ← List.replicate_succ,
        List.replicate_succ', List.append_assoc, List.singleton_append]
    rw [hspaces]
    intro next back hback
    refine findRun_back (forall_mem_replicate _) rfl ?_ ?_ ?_
    · rintro _ ⟨⟩
      exact hblank
    · simp [find, hseparator]
    · exact finds_seq (finds_one hc (d :: r)) (h 0) next back hback
  · have hmark : isBlank c = false := by
      simp only [isSeparator, Bool.or_eq_true, beq_iff_eq, hspace, or_false] at hc
      rcases hc with rfl | rfl
      · rfl
      · rfl
    refine finds_seq (finds_run (forall_mem_replicate _) ?_) (finds_seq (finds_one hc _) (h after))
    rintro _ ⟨⟩
    exact hmark

/-- **The pattern of a list finds its units**, whatever spaces stand in front, and the text of
    each is read from what it notes. -/
theorem Units.exists_finds_list (U : Units ι) {units : List String} {text : List Char}
    (h : IsList U.IsUnit units text) (i : Nat) :
    ∃ m, (∀ n, Finds (listFrom (fun j => padded (U.unit j)) i units.length)
        (List.replicate n ' ' ++ text) [] m) ∧
      (∀ e ∈ m, i ≤ U.number e.1.1) ∧
      ∀ (k : Nat) (u : String), units[k]? = some u → U.text? (i + k) m = some u.toList := by
  induction h generalizing i with
  | @last u text hu =>
    obtain ⟨m, hfound, hnumber, htext⟩ := U.exists_finds i [] hu (by simp)
    have hhead := (U.solid hu).head_append []
    refine ⟨m, fun n => ?_, fun e he => (hnumber e he).ge, fun k v hv => ?_⟩
    · have hpadded := finds_padded _ [] (forall_mem_replicate n) hhead hfound nofun (by simp)
      rwa [List.append_nil] at hpadded
    · cases k with
      | zero =>
        cases hv
        exact htext
      | succ k => simp at hv
  | @more u units text gap tail hu hgap hlist ih =>
    obtain ⟨m, hfound, hnumber, htext⟩ :=
      U.exists_finds i (gap ++ tail) hu (hgap.head_append tail)
    obtain ⟨ms, hfounds, hnumbers, htexts⟩ := ih (i + 1)
    obtain ⟨k, hk⟩ : ∃ k, units.length = k + 1 :=
      Nat.exists_eq_add_one_of_ne_zero fun h => hlist.ne_nil (List.length_eq_zero_iff.1 h)
    rw [hk] at hfounds
    have hhead := (U.solid hu).head_append (gap ++ tail)
    refine ⟨m ++ ms, fun n => ?_, fun e he => ?_, fun j v hv => ?_⟩
    · rw [List.length_cons, hk, List.append_assoc]
      have hall := finds_padded_seq (finds_seq (finds_run (forall_mem_replicate n) hhead)
        (finds_seq hfound (finds_gap hgap (U.exists_cons hlist) hfounds)))
      exact hall
    · rcases List.mem_append.1 he with he | he
      · exact (hnumber e he).ge
      · have := hnumbers e he
        omega
    · cases j with
      | zero =>
        cases hv
        rw [Nat.add_zero, U.text?_append_left, htext]
        intro e he heq
        have := hnumbers e he
        omega
      | succ j =>
        rw [U.text?_append_right, ← htexts j v hv]
        · congr 1
          omega
        · intro e he heq
          have := hnumber e he
          omega

/-! ## Rows -/

theorem map_range_of_getElem? {α : Type} {f : Nat → α} {l : List α}
    (h : ∀ k a, l[k]? = some a → f k = a) : (List.range l.length).map f = l := by
  refine List.ext_getElem (by simp) fun k _ hk => ?_
  rw [List.getElem_map, List.getElem_range]
  exact h k l[k] (List.getElem?_eq_getElem hk)

/-- How a cell is written: between double quotes or, if it has no blank, no separator, no double
    quote and no `#`, as it is. -/
abbrev IsCell (cell : String) (text : List Char) : Prop :=
  Written [',', ';', '"', '#'] cell text

theorem isBareCell_of_notMem {c : Char} (hblank : isBlank c = false)
    (hc : c ∉ [',', ';', '"', '#']) : isBareCell c = true := by
  have hspace : c ≠ ' ' := by
    rintro rfl
    cases hblank
  simp only [List.mem_cons, not_or] at hc
  simp [isBareCell, hspace, hc.1, hc.2.1, hc.2.2.1]

/-- The cells of a row. -/
def cellUnits : Units (Nat × Style) where
  unit := fun i => value isBareCell fun style => (i, style)
  number := Prod.fst
  text? := fun i m => valueText? m fun style => (i, style)
  IsUnit := IsCell
  text?_append_left := fun h => valueText?_append_left fun style e he heq =>
    h e he (congrArg Prod.fst heq)
  text?_append_right := fun h => valueText?_append_right fun style e he heq =>
    h e he (congrArg Prod.fst heq)
  solid := fun h => h.solid (by simp) (by simp)
  head_not_separator := by
    intro cell text h c hc
    obtain ⟨d, r, rfl, hblank, hd⟩ := h.exists_cons
    have hreserved : ∀ c, isSeparator c = true → isBlank c = false →
        ¬(c = '"' ∨ c ∉ [',', ';', '"', '#']) :=
      forall_isSeparator (by simp) (by simp) nofun
    cases hc
    rw [← Bool.not_eq_true]
    intro hseparator
    exact hreserved c hseparator hblank hd
  exists_finds := by
    intro cell text i rest h hrest
    obtain ⟨m, hfound, hlabels, htext⟩ :=
      exists_finds_value (fun style => (i, style)) rest (by simp)
        (fun c => isBareCell_of_notMem) rfl h
        fun c hc => not_isBareCell_of_isSeparator c (hrest c hc)
    refine ⟨m, hfound, fun e he => ?_, htext⟩
    obtain ⟨style, hstyle⟩ := hlabels e he
    rw [hstyle]

/-- **A row that is written is read back.** -/
theorem row?_of_isList {cells : List String} {text : List Char} (h : IsList IsCell cells text) :
    row? cells.length (String.ofList text) = some cells := by
  obtain ⟨m, hfound, -, htexts⟩ := cellUnits.exists_finds_list h 0
  have hmatch : (row cells.length).match? text = some m := match?_of_finds (hfound 0)
  rw [row?, String.toList_ofList, hmatch]
  refine congrArg some (map_range_of_getElem? fun k cell hcell => ?_)
  have htext := htexts k cell hcell
  rw [Nat.zero_add] at htext
  have hvalue : valueText? m (fun style => (k, style)) = some cell.toList := htext
  rw [hvalue, Option.getD_some, String.ofList_toList]

/-! ## Headers -/

/-- The names of a header. -/
def nameUnits : Units Nat where
  unit := fun i => group i name
  number := id
  text? := fun i m => m.text? i
  IsUnit := fun name text => IsName name ∧ text = name.toList
  text?_append_left := fun h => Match.text?_append_left h
  text?_append_right := fun h => Match.text?_append_right h
  solid := by
    rintro name _ ⟨hname, rfl⟩
    exact solid_of_isName hname
  head_not_separator := by
    rintro name _ ⟨hname, rfl⟩ c hc
    have hchar := (forall_isNameChar hname).2 c (List.mem_of_mem_head? hc)
    rw [← Bool.not_eq_true]
    intro hseparator
    exact ne_of_isNameChar hchar (not_isNameChar_of_isSeparator c hseparator) rfl
  exists_finds := by
    rintro name _ i rest ⟨hname, rfl⟩ hrest
    have hend : ∀ c ∈ rest.head?, isNameChar c = false := fun c hc =>
      not_isNameChar_of_isSeparator c (hrest c hc)
    exact ⟨noted i name.toList rest, finds_group i (finds_name hname hend), by simp,
      Match.text?_group i name.toList rest⟩

/-- Names with commas between them. -/
theorem isList_names {names : List String} (hne : names ≠ []) (hnames : ∀ n ∈ names, IsName n) :
    IsList nameUnits.IsUnit names (",".intercalate names).toList := by
  induction names with
  | nil => exact absurd rfl hne
  | cons first names ih =>
    obtain ⟨hfirst, hrest⟩ := List.forall_mem_cons.1 hnames
    cases names with
    | nil =>
      rw [String.intercalate_singleton]
      exact .last ⟨hfirst, rfl⟩
    | cons second names =>
      rw [String.intercalate_cons_cons, String.toList_append, String.toList_append]
      exact .more ⟨hfirst, rfl⟩ (.intro 0 0 rfl) (ih (by simp) hrest)

theorem pieceCount_nil : pieceCount [] = 1 := by
  rw [pieceCount.eq_def]

theorem pieceCount_of_none {c : Char} {r : List Char} (h : behindSeparator? (c :: r) = none) :
    pieceCount (c :: r) = pieceCount r := by
  rw [pieceCount.eq_def]
  split
  · contradiction
  · rename_i heq
    cases heq
    split
    · rfl
    · rename_i hsome
      rw [h] at hsome
      cases hsome

theorem pieceCount_of_some {c : Char} {r rest : List Char}
    (h : behindSeparator? (c :: r) = some rest) : pieceCount (c :: r) = pieceCount rest + 1 := by
  rw [pieceCount.eq_def]
  split
  · contradiction
  · rename_i heq
    cases heq
    split
    · rename_i hnone
      rw [h] at hnone
      cases hnone
    · rename_i hsome
      rw [h] at hsome
      cases hsome
      rfl

theorem behindSeparator?_of_isNameChar {c : Char} (hc : isNameChar c = true) (r : List Char) :
    behindSeparator? (c :: r) = none := by
  have hblank := not_isBlank_of_isNameChar hc
  have hdrop : (c :: r).dropWhile isBlank = c :: r :=
    dropWhile_isBlank (by rintro _ ⟨⟩; exact hblank)
  have hcomma : c ≠ ',' := ne_of_isNameChar hc rfl
  have hsemicolon : c ≠ ';' := ne_of_isNameChar hc rfl
  simp [behindSeparator?, hdrop, hblank, hcomma, hsemicolon]

theorem pieceCount_append {w : List Char} (hw : ∀ c ∈ w, isNameChar c = true) (rest : List Char) :
    pieceCount (w ++ rest) = pieceCount rest := by
  induction w with
  | nil => rfl
  | cons c w ih =>
    obtain ⟨hc, hw⟩ := List.forall_mem_cons.1 hw
    rw [List.cons_append, pieceCount_of_none (behindSeparator?_of_isNameChar hc _), ih hw]

end Stencil.LineForm
