/-
  Reading parameters back that were written.

  * `IsParameter pair text`: the text is a way to write a name and its value;
  * `ofLines_of_isParameter`: lines made of such texts are read, and of several values
    of a name the last holds;
  * `isName_of_ofLines`: what is read has names.
-/
import Mathlib.Data.Bool.AllAny
import Stencil.Parameters
import Stencil.Proofs.LineForm.Spelling
import Stencil.Proofs.Outcome
import Stencil.Proofs.Values

namespace Stencil.Parameters

open LineForm Pattern Text

/-- A name, an equals sign with blanks around it and a value, which is written between double
    quotes or, if it has no blank, no double quote and no `#`, as it is. -/
inductive IsParameter : String × String → List Char → Prop
  | intro {name value : String} (left right : List Char) {text : List Char} : IsName name →
      (∀ c ∈ left, isBlank c = true) → (∀ c ∈ right, isBlank c = true) →
      Written ['"', '#'] value text →
      IsParameter (name, value) (name.toList ++ (left ++ '=' :: right) ++ text)

theorem IsParameter.solid {pair : String × String} {text : List Char} (h : IsParameter pair text) :
    Solid text := by
  obtain ⟨left, right, hname, hleft, hright, hvalue⟩ := h
  refine (solid_of_isName hname).append ?_ (hvalue.solid (by simp) (by simp))
  refine (passes_blanks hleft).append (.cons (by simp) ?_)
  exact passes_blanks hright

theorem isBareValue_of_notMem {c : Char} (hblank : isBlank c = false) (hc : c ∉ ['"', '#']) :
    isBareValue c = true := by
  have hspace : c ≠ ' ' := by
    rintro rfl
    cases hblank
  simp only [List.mem_cons, not_or] at hc
  simp [isBareValue, hspace, hc.1]

/-- A name is behind its last character at a blank or at the equals sign. -/
theorem endsName {left rest : List Char} (hleft : ∀ c ∈ left, isBlank c = true) :
    ∀ c ∈ (left ++ '=' :: rest).head?, isNameChar c = false := by
  intro c hc
  rw [← Bool.not_eq_true]
  intro hchar
  cases left with
  | nil =>
    cases hc
    exact absurd hchar (by decide)
  | cons d r =>
    cases hc
    exact ne_of_isBlank (hleft c List.mem_cons_self) (not_isBlank_of_isNameChar hchar) rfl

/-- The name and the value of a parameter are found one behind the other. -/
theorem exists_match?_parameter {name value : String} {left right text : List Char}
    (hname : IsName name) (hleft : ∀ c ∈ left, isBlank c = true)
    (hright : ∀ c ∈ right, isBlank c = true) (hvalue : Written ['"', '#'] value text) :
    ∃ m, parameter.match? (name.toList ++ (left ++ '=' :: (right ++ text))) =
        some (noted .name name.toList (left ++ '=' :: (right ++ text)) ++ m) ∧
      (∀ e ∈ m, ∃ style, e.1.1 = ParameterPart.value style) ∧
      valueText? m ParameterPart.value = some value.toList := by
  obtain ⟨m, hfound, hlabels, htext⟩ :=
    exists_finds_value ParameterPart.value [] (by simp) (fun c => isBareValue_of_notMem) rfl hvalue
      (by simp)
  have hsolid := hvalue.solid (by simp) (by simp)
  have hend : ∀ c ∈ (left ++ '=' :: (right ++ text)).head?, isNameChar c = false := endsName hleft
  have hnamed := finds_padded [] left nofun ((solid_of_isName hname).head_append _)
    (finds_group ParameterPart.name (finds_name hname hend)) hleft (by rintro _ ⟨⟩; rfl)
  have hvalued := finds_padded right [] hright (hsolid.head_append []) hfound nofun (by simp)
  rw [List.append_nil] at hvalued
  exact ⟨m, match?_of_finds (finds_seq hnamed (finds_seq (finds_char '=' _) hvalued)), hlabels,
    htext⟩

/-- **A parameter that is written is read back.** -/
theorem parameter?_of_isParameter {pair : String × String} {text : List Char}
    (h : IsParameter pair text) : parameter? (String.ofList text) = some pair := by
  obtain ⟨left, right, hname, hleft, hright, hvalue⟩ := h
  rename_i name value text
  obtain ⟨m, hmatch, hlabels, htext⟩ := exists_match?_parameter hname hleft hright hvalue
  have hother : m.Lacks ParameterPart.name := by
    intro e he heq
    obtain ⟨style, hstyle⟩ := hlabels e he
    rw [heq] at hstyle
    cases hstyle
  have hkey := Match.text?_group ParameterPart.name name.toList (left ++ '=' :: (right ++ text))
  rw [← Match.text?_append_left hother] at hkey
  have hvaluetext : valueText? (noted .name name.toList (left ++ '=' :: (right ++ text)) ++ m)
      ParameterPart.value = some value.toList := by
    rw [valueText?_append_right (fun style => by simp [Match.Lacks]), htext]
  have hline : name.toList ++ (left ++ '=' :: right) ++ text =
      name.toList ++ (left ++ '=' :: (right ++ text)) := by simp
  rw [parameter?, String.toList_ofList, hline]
  refine Option.bind_eq_some_iff.2 ⟨_, hmatch, Option.bind_eq_some_iff.2 ⟨_, hkey,
    Option.bind_eq_some_iff.2 ⟨_, hvaluetext, ?_⟩⟩⟩
  rw [String.ofList_toList, String.ofList_toList]
  rfl

/-- The name of a parameter is a name. -/
theorem isName_of_parameter? {line : String} {p : String × String} (h : parameter? line = some p) :
    IsName p.1 := by
  obtain ⟨_, _, _, -, hname, -⟩ := exists_spelling_of_parameter? h
  exact hname

/-! ## Sections -/

theorem isName_of_ofLines {sectionName : String} {lines : List String} {v : Values}
    (h : ofLines sectionName lines = .ok v) {name text : String} (hname : v.get? name = some text) :
    IsName name := by
  obtain ⟨pairs, hpairs, rfl⟩ := map_eq_ok.1 h
  obtain ⟨front, back, rfl, -⟩ := Values.get?_ofPairs_eq_some_iff_append.1 hname
  obtain ⟨line, -, hline⟩ := exists_mem_of_forall₂ (mapM_eq_ok.1 hpairs) (name, text) (by simp)
  unfold pair at hline
  split at hline
  · rename_i p hp
    cases hline
    exact isName_of_parameter? hp
  · cases hline

/-- **Parameters that are written are read back.**  If lines are made of the texts of pairs of a
    name and a value, then they are read, and the value of a name is that of its last pair. -/
theorem ofLines_of_isParameter (sectionName : String) {pairs : List (String × String)}
    {texts : List (List Char)} {lines : List String} (hpairs : List.Forall₂ IsParameter pairs texts)
    (hlines : LinesOf texts lines) :
    ∃ v, ofLines sectionName lines = .ok v ∧ ∀ name value, v.get? name = some value ↔
      ∃ front back, pairs = front ++ (name, value) :: back ∧ ∀ p ∈ back, p.1 ≠ name := by
  have hsolid : ∀ text ∈ texts, Solid text := by
    intro text htext
    obtain ⟨p, -, hp⟩ := exists_mem_of_forall₂ hpairs text htext
    exact hp.solid
  have hread : (texts.map String.ofList).mapM (pair sectionName) = .ok pairs := by
    rw [mapM_eq_ok, List.forall₂_map_left_iff]
    refine hpairs.flip.imp fun text p hp => ?_
    rw [pair, parameter?_of_isParameter hp]
  refine ⟨.ofPairs pairs, ?_, fun name value => Values.get?_ofPairs_eq_some_iff_append⟩
  rw [ofLines, cleanLines_of_linesOf hlines hsolid, hread]
  rfl

/-- A name with two values, the first of which holds a `#`, a double quote and a backslash. -/
theorem ofLines_two_values :
    let pairs := [("a", "x#\"\\"), ("b", "="), ("a", "")]
    let lines := ["# note\n", "a = \"x#\\\"\\\\\" # first\n", " \n", "b=  =#\"\n", "a = \"\""]
    ∃ texts, List.Forall₂ IsParameter pairs texts ∧ LinesOf texts lines ∧
      ∃ v, ofLines "G" lines = .ok v ∧ v.get? "a" = some "" ∧ v.get? "b" = some "=" ∧
        v.get? "c" = none := by
  intro pairs lines
  have hspace : ∀ c ∈ [' '], isBlank c = true := List.all_eq_true.1 rfl
  have hspaces : ∀ c ∈ [' ', ' '], isBlank c = true := List.all_eq_true.1 rfl
  have hpairs : List.Forall₂ IsParameter pairs ["a = \"x#\\\"\\\\\"".toList, "b=  =".toList,
      "a = \"\"".toList] :=
    .cons (.intro [' '] [' '] rfl hspace hspace .quoted)
      (.cons (.intro [] [' ', ' '] rfl nofun hspaces
          (.bare (by decide) (List.all_iff_forall_prop.1 rfl)))
        (.cons (.intro [' '] [' '] rfl hspace hspace .quoted) .nil))
  have hlines : LinesOf ["a = \"x#\\\"\\\\\"".toList, "b=  =".toList, "a = \"\"".toList] lines :=
    .empty ⟨[], [], "# note\n".toList, nofun, nofun, Or.inr ⟨_, rfl⟩, rfl⟩
      (.line ⟨[], [' '], "# first\n".toList, nofun, hspace, Or.inr ⟨_, rfl⟩, rfl⟩
        (.empty ⟨[' ', '\n'], [], [], List.all_eq_true.1 rfl, nofun, Or.inl rfl, rfl⟩
          (.line ⟨[], [], "#\"\n".toList, nofun, nofun, Or.inr ⟨_, rfl⟩, rfl⟩
            (.line ⟨[], [], [], nofun, nofun, Or.inl rfl, rfl⟩ .nil))))
  obtain ⟨v, hv, hget⟩ := ofLines_of_isParameter "G" hpairs hlines
  refine ⟨_, hpairs, hlines, v, hv, ?_, ?_, ?_⟩
  · exact (hget "a" "").2 ⟨[("a", "x#\"\\"), ("b", "=")], [], rfl, nofun⟩
  · exact (hget "b" "=").2 ⟨[("a", "x#\"\\")], [("a", "")], rfl, by decide⟩
  · rw [Option.eq_none_iff_forall_ne_some]
    intro value hvalue
    obtain ⟨front, back, hpairs, -⟩ := (hget "c" value).1 hvalue
    have hmem : ("c", value) ∈ pairs := by
      rw [hpairs]
      exact List.mem_append_right _ List.mem_cons_self
    simp [pairs] at hmem

end Stencil.Parameters
