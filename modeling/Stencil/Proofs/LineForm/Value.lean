/-
  Values as they are written on a line.

  * `Written reserved value text`: the text is a way to write the value, between double
    quotes or, if none of its characters is a blank or reserved, as it is;
  * `exists_finds_value`: the pattern of a value finds what is written, and its groups
    give the value back.
-/
import Stencil.LineForm
import Stencil.Proofs.LineForm.Groups
import Stencil.Proofs.Pattern.Finds
import Stencil.Proofs.Text.Clean

namespace Stencil.LineForm

open Pattern Text

variable {ι : Type}

/-! ## Ways to write a value -/

/-- How a value is written: as it is, if it has a character and none that is a blank or reserved, or
    between double quotes. -/
inductive Written (reserved : List Char) (value : String) : List Char → Prop
  | bare : value ≠ "" → (∀ c ∈ value.toList, isBlank c = false ∧ c ∉ reserved) →
      Written reserved value value.toList
  | quoted : Written reserved value (quote value.toList)

theorem Written.solid {reserved : List Char} {value : String} {text : List Char}
    (h : Written reserved value text) (hquote : '"' ∈ reserved) (hsign : '#' ∈ reserved) :
    Solid text := by
  cases h with
  | bare hne hchars =>
    refine solid_of_forall (fun h => hne (String.toList_eq_nil_iff.1 h)) fun c hc => ?_
    obtain ⟨hblank, hreserved⟩ := hchars c hc
    refine ⟨hblank, ?_, ?_⟩
    · rintro rfl
      exact hreserved hquote
    · rintro rfl
      exact hreserved hsign
  | quoted => exact solid_quote _

/-- A text is written with a character in front that is neither a blank nor a reserved one
    other than the double quote. -/
theorem Written.exists_cons {reserved : List Char} {value : String} {text : List Char}
    (h : Written reserved value text) :
    ∃ c r, text = c :: r ∧ isBlank c = false ∧ (c = '"' ∨ c ∉ reserved) := by
  cases h with
  | bare hne hchars =>
    cases hvalue : value.toList with
    | nil => exact absurd (String.toList_eq_nil_iff.1 hvalue) hne
    | cons c r =>
      obtain ⟨hblank, hreserved⟩ := hchars c (hvalue ▸ List.mem_cons_self)
      exact ⟨c, r, rfl, hblank, Or.inr hreserved⟩
  | quoted => exact ⟨'"', _, rfl, rfl, Or.inl rfl⟩

/-! ## Finding a value -/

theorem finds_char (c : Char) (rest : List Char) : Finds (ι := ι) (char c) (c :: rest) rest [] :=
  finds_one (beq_self_eq_true c) rest

/-- The text between double quotes goes on to the first double quote that is not escaped. -/
theorem finds_quotedText (s rest : List Char) :
    Finds (ι := ι) quotedText (escape s ++ '"' :: rest) ('"' :: rest) [] := by
  intro next back hback
  rw [quotedText, find]
  induction s with
  | nil =>
    cases rest with
    | nil => simpa [escape, findPairs] using hback
    | cons d r => simpa [escape, findPairs] using hback
  | cons c s ih =>
    rw [escape, List.flatMap_cons, ← escape, List.append_assoc]
    by_cases hc : c = '\\' ∨ c = '"'
    · have hline : (c != '\n') = true := by
        rcases hc with rfl | rfl <;> rfl
      rw [if_pos hc, List.cons_append, List.singleton_append, findPairs, ih]
      simp [hline]
    · obtain ⟨hslash, hquote⟩ := not_or.1 hc
      rw [if_neg hc, List.singleton_append]
      -- another character follows in any case: an escaped one, or the double quote
      obtain ⟨d, r, hr⟩ : ∃ d r, escape s ++ '"' :: rest = d :: r :=
        List.exists_cons_of_ne_nil (by simp)
      rw [hr] at ih ⊢
      rw [findPairs, ih]
      simp [hslash, hquote]

section
variable {isBare : Char → Bool} {value : String} (label : Style → ι) (rest : List Char)

/-- What a group notes around its text. -/
abbrev noted (g : ι) (w rest : List Char) : Match ι :=
  [((g, .left), w ++ rest), ((g, .right), rest)]

theorem finds_bareValue {rest : List Char} (hne : value ≠ "")
    (hchars : ∀ c ∈ value.toList, isBare c = true) (hrest : ∀ c ∈ rest.head?, isBare c = false) :
    Finds (LineForm.value isBare label) (value.toList ++ rest) rest
      (noted (label .bare) value.toList rest) := by
  refine finds_preferred (finds_group (label .bare) ?_)
  cases hvalue : value.toList with
  | nil => exact absurd (String.toList_eq_nil_iff.1 hvalue) hne
  | cons c r =>
    rw [hvalue] at hchars
    obtain ⟨hc, hr⟩ := List.forall_mem_cons.1 hchars
    exact finds_word hc hr hrest

theorem finds_quotedValue (hquote : isBare '"' = false) :
    Finds (LineForm.value isBare label) (quote value.toList ++ rest) rest
      (noted (label .quoted) (escape value.toList) ('"' :: rest)) := by
  have hends : quote value.toList ++ rest = '"' :: (escape value.toList ++ '"' :: rest) := by
    simp [quote]
  rw [hends]
  refine finds_other (fun next => ?_) ?_
  · simp [group, word, find, hquote]
  · exact finds_seq (finds_char '"' _) (finds_seq
      (finds_group (label .quoted) (finds_quotedText value.toList rest)) (finds_char '"' rest))

/-- **A value that is written is found**, and its groups give it back. -/
theorem exists_finds_value [DecidableEq ι] {reserved : List Char}
    (hlabel : label .bare ≠ label .quoted)
    (hbare : ∀ c, isBlank c = false → c ∉ reserved → isBare c = true)
    (hquote : isBare '"' = false) {text : List Char} (h : Written reserved value text)
    (hrest : ∀ c ∈ rest.head?, isBare c = false) :
    ∃ m, Finds (LineForm.value isBare label) (text ++ rest) rest m ∧
      (∀ e ∈ m, ∃ style, e.1.1 = label style) ∧ valueText? m label = some value.toList := by
  cases h with
  | bare hne hchars =>
    have hall : ∀ c ∈ value.toList, isBare c = true := fun c hc =>
      hbare c (hchars c hc).1 (hchars c hc).2
    refine ⟨_, finds_bareValue label hne hall hrest, ?_, ?_⟩
    · simp only [List.forall_mem_cons]
      exact ⟨⟨.bare, rfl⟩, ⟨.bare, rfl⟩, nofun⟩
    · rw [valueText?, Match.text?_group, Option.some_or]
  | quoted =>
    refine ⟨_, finds_quotedValue label rest hquote, ?_, ?_⟩
    · simp only [List.forall_mem_cons]
      exact ⟨⟨.quoted, rfl⟩, ⟨.quoted, rfl⟩, nofun⟩
    · have hlacks : Match.Lacks (noted (label .quoted) (escape value.toList) ('"' :: rest))
          (label .bare) := by
        simp [Match.Lacks, hlabel.symm]
      rw [valueText?, Match.text?_group, Match.text?, hlacks.lookup, Option.map_some,
        unescape_escape]
      rfl

end

theorem valueText?_append_left [DecidableEq ι] {m n : Match ι} {label : Style → ι}
    (h : ∀ style, n.Lacks (label style)) : valueText? (m ++ n) label = valueText? m label := by
  rw [valueText?, Match.text?_append_left (h .bare), Match.text?_append_left (h .quoted),
    valueText?]

theorem valueText?_append_right [DecidableEq ι] {m n : Match ι} {label : Style → ι}
    (h : ∀ style, m.Lacks (label style)) : valueText? (m ++ n) label = valueText? n label := by
  rw [valueText?, Match.text?_append_right (h .bare), Match.text?_append_right (h .quoted),
    valueText?]

/-! ## Blanks and names -/

/-- A pattern with blanks around it takes all the blanks. -/
theorem finds_padded {p : Pattern ι} (before after : List Char) {s rest : List Char} {m : Match ι}
    (hbefore : ∀ c ∈ before, isBlank c = true) (hs : ∀ c ∈ s.head?, isBlank c = false)
    (hp : Finds p s (after ++ rest) m) (hafter : ∀ c ∈ after, isBlank c = true)
    (hrest : ∀ c ∈ rest.head?, isBlank c = false) : Finds (padded p) (before ++ s) rest m := by
  have h := finds_seq (finds_run hbefore hs) (finds_seq hp (finds_run hafter hrest))
  rwa [List.nil_append, List.append_nil] at h

theorem finds_name {w rest : List Char} (hw : isName w = true)
    (hrest : ∀ c ∈ rest.head?, isNameChar c = false) :
    Finds (ι := ι) name (w ++ rest) rest [] := by
  cases w with
  | nil => cases hw
  | cons c r =>
    simp only [isName, Bool.and_eq_true, List.all_eq_true] at hw
    exact finds_word hw.1 hw.2 hrest

end Stencil.LineForm
