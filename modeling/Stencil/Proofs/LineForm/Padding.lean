/-
  Blanks around the bare cells of a row.

  The pattern of a cell takes the blanks on both sides of it, of any kind.  A bare cell, however,
  may hold every blank but the space, and it prefers to go on, so that it takes such blanks behind
  its word before the pattern of the blanks comes to them.

  * `exists_longest_of_findRun`: where a run goes on, what follows it would have failed;
  * `Tight`: a bare cell takes all that it can, and no blank in front of its word;
  * `bareCell?_padding`: a bare cell is a word together with the blanks behind it up to the next
    space, so that exactly these cells have padding.
-/
import Mathlib.Data.List.Basic
import Stencil.Proofs.LineForm.Spelling

namespace Stencil

/-! ## Runs that go on -/

namespace Pattern

variable {ι : Type} {accepts : Char → Bool} {next : Next ι}

/-- **A run ends as far behind as it can**: behind any more of its characters, what follows it
    fails. -/
theorem exists_longest_of_findRun {s : List Char} {m : Match ι}
    (h : findRun accepts next s = some m) :
    ∃ w rest, s = w ++ rest ∧ (∀ c ∈ w, accepts c = true) ∧ next rest = some m ∧
      ∀ u t, u ≠ [] → rest = u ++ t → (∀ c ∈ u, accepts c = true) → next t = none := by
  induction s with
  | nil =>
    refine ⟨[], [], rfl, nofun, h, fun u t hu he => ?_⟩
    exact absurd (List.append_eq_nil_iff.1 he.symm).1 hu
  | cons c r ih =>
    rw [findRun, Option.or_eq_some_iff] at h
    rcases h with h | ⟨hlater, h⟩
    · split at h
      · rename_i hc
        obtain ⟨w, rest, rfl, hw, hm, hlongest⟩ := ih h
        exact ⟨c :: w, rest, rfl, List.forall_mem_cons.2 ⟨hc, hw⟩, hm, hlongest⟩
      · cases h
    · refine ⟨[], c :: r, rfl, nofun, h, fun u t hu he haccepts => ?_⟩
      cases u with
      | nil => exact absurd rfl hu
      | cons d u =>
        rw [List.cons_append] at he
        obtain ⟨rfl, rfl⟩ := List.cons.inj he
        obtain ⟨hd, hu⟩ := List.forall_mem_cons.1 haccepts
        rw [if_pos hd] at hlater
        by_contra hsome
        have := isSome_findRun (Option.isSome_iff_ne_none.2 hsome) hu
        rw [hlater] at this
        cases this

theorem find_group_eq_some {g : ι} {p : Pattern ι} {s : List Char} {m : Match ι} :
    (group g p).find next s = some m ↔
      ∃ inner, p.find (fun t => (next t).map (((g, .right), t) :: ·)) s = some inner ∧
        m = ((g, .left), s) :: inner := by
  rw [group, find, find, Option.map_eq_some_iff]
  constructor
  · rintro ⟨inner, hinner, rfl⟩
    exact ⟨inner, hinner, rfl⟩
  · rintro ⟨inner, hinner, rfl⟩
    exact ⟨inner, hinner, rfl⟩

end Pattern

namespace LineForm

open Pattern Text

variable {ι : Type}

/-! ## Bare values -/

/-- A bare value in front of a text: it takes all that it can, and if it begins with a blank, then
    it consists of blanks. -/
structure Tight (isBare : Char → Bool) (text behind : List Char) : Prop where
  ne_nil : text ≠ []
  bare : ∀ c ∈ text, isBare c = true
  stops : ∀ c ∈ behind.head?, isBare c = false
  starts : ∀ c ∈ text.head?, isBlank c = true → ∀ d ∈ text, isBlank d = true

section
variable {isBare : Char → Bool} {label : Style → ι} {next : Next ι}

/-- A value that is found is bare and followed by no other character of its class, or quoted. -/
theorem exists_of_find_value (hnext : ∀ c r, isBare c = true → next (c :: r) = none)
    {s : List Char} {m : Match ι}
    (h : (value isBare label).find (findRun isBlank next) s = some m) :
    (∃ text behind back, s = text ++ behind ∧ text ≠ [] ∧ (∀ c ∈ text, isBare c = true) ∧
      (∀ c ∈ behind.head?, isBare c = false) ∧ findRun isBlank next behind = some back ∧
      m = noted (label .bare) text behind ++ back) ∨
    ∃ front rest back, s = front ++ rest ∧ findRun isBlank next rest = some back ∧
      ∃ notes, m = notes ++ back ∧ ∀ e ∈ notes, e.1.1 = label .quoted := by
  rw [value, find, Option.or_eq_some_iff] at h
  rcases h with h | ⟨-, h⟩
  · left
    obtain ⟨inner, hinner, rfl⟩ := find_group_eq_some.1 h
    cases s with
    | nil => cases hinner
    | cons c r =>
      rw [word, find, find] at hinner
      split at hinner
      · rename_i hc
        obtain ⟨w, behind, rfl, hw, hbehind, hlongest⟩ := exists_longest_of_findRun hinner
        obtain ⟨back, hback, rfl⟩ := Option.map_eq_some_iff.1 hbehind
        refine ⟨c :: w, behind, back, rfl, List.cons_ne_nil c w,
          List.forall_mem_cons.2 ⟨hc, hw⟩, ?_, hback, rfl⟩
        intro d hd
        rw [← Bool.not_eq_true]
        intro hbare
        -- such a character is a blank, since what follows the blanks begins with no bare one
        obtain ⟨behind, rfl⟩ : ∃ r, behind = d :: r := ⟨_, List.eq_cons_of_mem_head? hd⟩
        obtain ⟨u, rest, hu, hblank, hrest⟩ := exists_append_of_findRun hback
        cases u with
        | nil =>
          rw [List.nil_append] at hu
          rw [← hu, hnext d behind hbare] at hrest
          cases hrest
        | cons e u =>
          obtain ⟨rfl, rfl⟩ := List.cons.inj hu
          have hmore := hlongest [d] (u ++ rest) (by simp) rfl (by simpa using hbare)
          have hsome := isSome_findRun (Option.isSome_iff_exists.2 ⟨back, hrest⟩)
            (List.forall_mem_cons.1 hblank).2
          rw [Option.map_eq_none_iff] at hmore
          rw [hmore] at hsome
          cases hsome
      · cases hinner
  · right
    obtain ⟨rest, notes, back, htakes, hback, rfl⟩ := takes_of_find h
    simp only [char, quotedText, takes_group, takes_seq, takes_one, takes_runPairs] at htakes
    obtain ⟨_, _, _, ⟨rfl, c, rfl, -⟩, ⟨_, _, _, ⟨_, ⟨rfl, w, rfl, -⟩, rfl⟩,
      ⟨rfl, d, rfl, -⟩, rfl⟩, rfl⟩ := htakes
    exact ⟨c :: (w ++ [d]), rest, back, by simp, hback, _, rfl, by simp⟩

/-- A bare value can be taken if what follows it succeeds. -/
theorem isSome_find_bare {text behind : List Char} (hne : text ≠ [])
    (hbare : ∀ c ∈ text, isBare c = true) (h : (next behind).isSome) :
    ((value isBare label).find next (text ++ behind)).isSome := by
  obtain ⟨c, r, rfl⟩ := List.exists_cons_of_ne_nil hne
  obtain ⟨hc, hr⟩ := List.forall_mem_cons.1 hbare
  have hrun : (findRun isBare (fun t => (next t).map (((label .bare, Edge.right), t) :: ·))
      (r ++ behind)).isSome :=
    isSome_findRun (by rw [Option.isSome_map]; exact h) hr
  obtain ⟨inner, hinner⟩ := Option.isSome_iff_exists.1 hrun
  refine Option.isSome_iff_exists.2 ⟨((label .bare, .left), c :: r ++ behind) :: inner, ?_⟩
  rw [value, find, Option.or_eq_some_iff]
  refine Or.inl (find_group_eq_some.2 ⟨inner, ?_, rfl⟩)
  rw [word, find, List.cons_append, find, if_pos hc]
  exact hinner

/-- **A bare value is tight.**  The blanks in front of a value stand outside of it as long as the
    value has anything else. -/
theorem exists_of_find_padded (hnext : ∀ c r, isBare c = true → next (c :: r) = none)
    {s : List Char} {m : Match ι} (h : (padded (value isBare label)).find next s = some m) :
    ∃ front rest back notes, s = front ++ rest ∧ next rest = some back ∧ m = notes ++ back ∧
      ((∃ before text behind, front ++ rest = before ++ text ++ behind ∧
          Tight isBare text behind ∧ notes = noted (label .bare) text behind) ∨
        ∀ e ∈ notes, e.1.1 = label .quoted) := by
  have hrun : findRun isBlank ((value isBare label).find (findRun isBlank next)) s = some m := h
  obtain ⟨before, t, rfl, -, hvalue, hlongest⟩ := exists_longest_of_findRun hrun
  rcases exists_of_find_value hnext hvalue with
    ⟨text, behind, back, rfl, hne, hbare, hstops, hback, rfl⟩ |
    ⟨front, rest, back, rfl, hback, hnotes⟩
  · obtain ⟨after, rest, rfl, hafter, hrest⟩ := exists_append_of_findRun hback
    refine ⟨before ++ text ++ after, rest, back, _, by simp, hrest, rfl,
      Or.inl ⟨before, text, after ++ rest, by simp, ⟨hne, hbare, hstops, ?_⟩, rfl⟩⟩
    intro c hc hblank
    have hcut := List.takeWhile_append_dropWhile (p := isBlank) (l := text)
    cases hword : text.dropWhile isBlank with
    | nil => exact List.dropWhile_eq_nil_iff.1 hword
    | cons d v =>
      -- the blanks would have been taken as padding, with the rest of the value as the value
      rw [hword] at hcut
      obtain ⟨r, rfl⟩ : ∃ r, text = c :: r := ⟨_, List.eq_cons_of_mem_head? hc⟩
      have hfail := hlongest ((c :: r).takeWhile isBlank) (d :: v ++ (after ++ rest))
        (by simp [hblank]) (by rw [← List.append_assoc _ _ (after ++ rest), hcut])
        fun e he => List.mem_takeWhile_imp he
      have hsome : ((value isBare label).find (findRun isBlank next)
          (d :: v ++ (after ++ rest))).isSome :=
        isSome_find_bare (by simp) (fun e he => hbare e (hcut ▸ List.mem_append_right _ he))
          (by rw [hback]; rfl)
      rw [hfail] at hsome
      cases hsome
  · obtain ⟨after, rest, rfl, hafter, hrest⟩ := exists_append_of_findRun hback
    obtain ⟨notes, rfl, hlabels⟩ := hnotes
    exact ⟨before ++ front ++ after, rest, back, notes, by simp, hrest, rfl, Or.inr hlabels⟩

end

/-! ## Bare cells -/

/-- What stands in a cell of a row without double quotes. -/
def bareCell? (n : Nat) (line : String) (i : Nat) : Option (List Char) := do
  let m ← (row n).match? line.toList
  m.text? (i, .bare)

/-- The text of a bare cell is tight where it was noted, or it was noted later. -/
theorem tight_or_of_text? {i j : Nat} {s : List Char} {notes back : Match (Nat × Style)}
    (hnotes : (∃ before text behind, s = before ++ text ++ behind ∧
        Tight isBareCell text behind ∧ notes = noted (i, .bare) text behind) ∨
      ∀ e ∈ notes, e.1.1 = (i, .quoted)) {text : List Char}
    (h : (notes ++ back).text? (j, .bare) = some text) :
    (j = i ∧ ∃ front behind, s = front ++ text ++ behind ∧ Tight isBareCell text behind) ∨
      back.text? (j, .bare) = some text := by
  have hlater : notes.Lacks (j, .bare) → back.text? (j, .bare) = some text := fun hlacks => by
    rwa [Match.text?_append_right hlacks] at h
  rcases hnotes with ⟨before, text', behind, rfl, htight, rfl⟩ | hquoted
  · by_cases hij : j = i
    · subst hij
      rw [Match.text?_group_append] at h
      cases h
      exact Or.inl ⟨rfl, before, behind, rfl, htight⟩
    · exact Or.inr (hlater (by simp [Match.Lacks, Ne.symm hij]))
  · refine Or.inr (hlater fun e he heq => ?_)
    rw [hquoted e he] at heq
    cases heq

/-- **The bare cells of a row are tight.** -/
theorem exists_tight_of_find {n i : Nat} {s : List Char} {m : Match (Nat × Style)}
    (h : (listFrom (fun j => padded (value isBareCell fun style => (j, style))) i n).find atEnd s =
      some m) {j : Nat} {text : List Char} (htext : m.text? (j, .bare) = some text) :
    j < i + n ∧ ∃ front behind, s = front ++ text ++ behind ∧ Tight isBareCell text behind := by
  induction n generalizing i s m with
  | zero =>
    cases s with
    | nil =>
      cases h
      cases htext
    | cons c r => cases h
  | succ n ih =>
    cases n with
    | zero =>
      obtain ⟨front, rest, back, notes, rfl, hend, rfl, hnotes⟩ :=
        exists_of_find_padded (fun _ _ _ => rfl) h
      obtain ⟨rfl, htight⟩ := (tight_or_of_text? hnotes htext).resolve_right fun hback => by
        cases rest with
        | nil =>
          cases hend
          cases hback
        | cons c r => cases hend
      exact ⟨Nat.lt_succ_self j, htight⟩
    | succ n =>
      have hseparator : ∀ c, isBareCell c = true → isSeparator c = false := by
        intro c hc
        rw [← Bool.not_eq_true]
        intro hsep
        rw [not_isBareCell_of_isSeparator c hsep] at hc
        cases hc
      rw [listFrom, find] at h
      obtain ⟨front, rest, back, notes, rfl, hmore, rfl, hnotes⟩ :=
        exists_of_find_padded (fun c r hc => if_neg (Bool.not_eq_true _ ▸ hseparator c hc)) h
      rcases tight_or_of_text? hnotes htext with ⟨rfl, htight⟩ | hback
      · exact ⟨by omega, htight⟩
      · cases rest with
        | nil => cases hmore
        | cons c rest =>
          rw [find, find] at hmore
          split at hmore
          · obtain ⟨hlt, before, behind, rfl, htight⟩ := ih hmore hback
            exact ⟨by omega, front ++ c :: before, behind, by simp, htight⟩
          · cases hmore

/-! ## Padding -/

/-- A blank that may stand in a bare cell: any but the space. -/
def isBareBlank (c : Char) : Bool :=
  isBlank c && c != ' '

/-- A text neither begins nor ends with a blank. -/
def Unpadded (text : List Char) : Prop :=
  (∀ c ∈ text.head?, isBlank c = false) ∧ ∀ c ∈ text.getLast?, isBlank c = false

section
variable {text behind : List Char} (h : Tight isBareCell text behind)
include h

theorem Tight.space_notMem : ' ' ∉ text := fun hmem => by
  cases h.bare ' ' hmem

/-- A bare cell is a word with blanks behind it. -/
theorem Tight.exists_after :
    ∃ after, text = trim text ++ after ∧ ∀ c ∈ after, isBlank c = true := by
  by_cases hnil : trim text = []
  · exact ⟨text, by rw [hnil, List.nil_append], trim_eq_nil_iff.1 hnil⟩
  · obtain ⟨before, after, hbefore, hafter, htext⟩ := padded_trim text
    cases before with
    | nil => exact ⟨after, htext, hafter⟩
    | cons c before =>
      have hhead : c ∈ text.head? := by rw [htext]; rfl
      exact absurd (trim_eq_nil_iff.2 (h.starts c hhead (hbefore c List.mem_cons_self))) hnil

/-- A blank behind a bare cell is a space. -/
theorem Tight.eq_space : ∀ c ∈ behind.head?, isBlank c = true → c = ' ' := by
  intro c hc hblank
  have hstops := h.stops c hc
  by_contra hspace
  have hcomma : c ≠ ',' := ne_of_isBlank hblank rfl
  have hsemicolon : c ≠ ';' := ne_of_isBlank hblank rfl
  have hquote : c ≠ '"' := ne_of_isBlank hblank rfl
  simp [isBareCell, hspace, hcomma, hsemicolon, hquote] at hstops

variable {after : List Char} (hafter : text = trim text ++ after)
  (hblank : ∀ c ∈ after, isBlank c = true)
include hafter hblank

/-- The blanks that a bare cell takes are all up to the next space. -/
theorem Tight.takeWhile_after : (after ++ behind).takeWhile isBareBlank = after := by
  have hall : ∀ c ∈ after, isBareBlank c = true := fun c hc => by
    have hspace : c ≠ ' ' := fun hspace =>
      h.space_notMem (hafter ▸ List.mem_append_right _ (hspace ▸ hc))
    simp [isBareBlank, hblank c hc, hspace]
  have hend : behind.takeWhile isBareBlank = [] := by
    cases behind with
    | nil => rfl
    | cons c r =>
      refine List.takeWhile_cons_of_neg fun hc => ?_
      rw [isBareBlank, Bool.and_eq_true, bne_iff_ne] at hc
      exact hc.2 (h.eq_space c rfl hc.1)
  rw [List.takeWhile_append_of_pos hall, hend, List.append_nil]

/-- **A bare cell has no padding** if it has a word and no other blank than a space behind it. -/
theorem Tight.unpadded_iff :
    Unpadded text ↔ trim text ≠ [] ∧ ∀ c ∈ (after ++ behind).head?, isBlank c = true → c = ' ' := by
  constructor
  · intro hunpadded
    have htrim := trim_eq_self hunpadded.1 hunpadded.2
    rw [htrim, List.self_eq_append_right] at hafter
    rw [htrim, hafter, List.nil_append]
    exact ⟨h.ne_nil, h.eq_space⟩
  · rintro ⟨hne, hhead⟩
    cases after with
    | nil =>
      rw [List.append_nil] at hafter
      refine ⟨fun c hc => ?_, hafter ▸ getLast?_trim text⟩
      rw [← Bool.not_eq_true]
      exact fun hc' => hne (trim_eq_nil_iff.2 (h.starts c hc hc'))
    | cons d after =>
      have hspace := hhead d rfl (hblank d List.mem_cons_self)
      have hmem : d ∈ text := hafter ▸ List.mem_append_right _ List.mem_cons_self
      exact absurd (hspace ▸ hmem) h.space_notMem

end

/-- **The padding of a bare cell.**  A bare cell is read as a word with all the blanks but spaces
    that stand right behind it.  So a space is never a part of it, but any other blank is where it
    stands there, or where the cell has nothing else. -/
theorem bareCell?_padding {n : Nat} {line : String} {i : Nat} {text : List Char}
    (h : bareCell? n line i = some text) :
    (∃ values, row? n line = some values ∧ values[i]? = some (String.ofList text)) ∧ ' ' ∉ text ∧
      (∃ front behind, line.toList = front ++ trim text ++ behind ∧
        text = trim text ++ behind.takeWhile isBareBlank ∧
        (Unpadded text ↔ trim text ≠ [] ∧ ∀ c ∈ behind.head?, isBlank c = true → c = ' ')) ∧
      ((∀ c ∈ line.toList, isBlank c = true → c = ' ') → Unpadded text) := by
  obtain ⟨m, hm, htext⟩ := Option.bind_eq_some_iff.1 h
  obtain ⟨hlt, front, behind, hline, htight⟩ := exists_tight_of_find (match?_eq_find _ _ ▸ hm) htext
  rw [Nat.zero_add] at hlt
  obtain ⟨after, hafter, hblank⟩ := htight.exists_after
  have hunpadded := htight.unpadded_iff hafter hblank
  have hcut : line.toList = front ++ trim text ++ (after ++ behind) := by
    rw [hline, List.append_assoc, List.append_assoc, ← List.append_assoc (trim text), ← hafter]
  refine ⟨⟨_, by rw [row?, hm]; rfl, ?_⟩, htight.space_notMem, ⟨front, after ++ behind, hcut, ?_,
    hunpadded⟩, fun hspaces => hunpadded.2 ⟨fun hnil => ?_, fun c hc => hspaces c ?_⟩⟩
  · rw [List.getElem?_map, List.getElem?_range hlt, Option.map_some, valueText?, htext]
    rfl
  · rw [htight.takeWhile_after hafter hblank]
    exact hafter
  · obtain ⟨c, r, rfl⟩ := List.exists_cons_of_ne_nil htight.ne_nil
    have hspace := hspaces c (by simp [hline]) (trim_eq_nil_iff.1 hnil c List.mem_cons_self)
    exact htight.space_notMem (hspace ▸ List.mem_cons_self)
  · rw [hcut]
    exact List.mem_append_right _ (List.mem_of_mem_head? hc)

/-- A tab behind a word is read with it, though one in front of a word is not, and so is a tab that
    stands alone where it makes up the number of cells.  A space is never read. -/
theorem bareCell?_tabs :
    (Text.cleanLines ["a\t,\tb"] = ["a\t,\tb"] ∧ bareCell? 2 "a\t,\tb" 0 = some ['a', '\t'] ∧
      row? 2 "a\t,\tb" = some ["a\t", "b"] ∧ ¬Unpadded ['a', '\t'] ∧
      ∃ front behind, "a\t,\tb".toList = front ++ ['a'] ++ behind ∧
        ['a', '\t'] = ['a'] ++ behind.takeWhile isBareBlank) ∧
    (bareCell? 3 "a,\t \"x\"" 1 = some ['\t'] ∧ ¬Unpadded ['\t'] ∧
      ∃ values, row? 3 "a,\t \"x\"" = some values ∧ values[1]? = some "\t") ∧
    bareCell? 2 "a , b" 0 = some ['a'] ∧ Unpadded ['a'] := by
  have htab : bareCell? 2 "a\t,\tb" 0 = some ['a', '\t'] := by decide +kernel
  have halone : bareCell? 3 "a,\t \"x\"" 1 = some ['\t'] := by decide +kernel
  have hspaces : bareCell? 2 "a , b" 0 = some ['a'] := by decide +kernel
  obtain ⟨-, -, ⟨front, behind, hline, htext, -⟩, -⟩ := bareCell?_padding htab
  exact ⟨⟨by decide +kernel, htab, by decide +kernel, fun h => Bool.false_ne_true (h.2 _ rfl).symm,
      front, behind, hline, htext⟩,
    ⟨halone, fun h => Bool.false_ne_true (h.1 _ rfl).symm, (bareCell?_padding halone).1⟩,
    hspaces, (bareCell?_padding hspaces).2.2.2 (by simp [isBlank])⟩

end LineForm

end Stencil
