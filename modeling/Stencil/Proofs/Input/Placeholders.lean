/-
  What is wrong with the names in a template.

  * `Unknown`: a placeholder whose name stands for nothing; `Shared`: one with the name of
    a column that several tables have;
  * `isListing_undefinedNames` and `exists_ambiguousNames`: these are the names at fault;
  * `ofSections_of_contents`: names that stand for nothing are at fault first, and if there are
    none, those that could stand for several columns.
-/
import Stencil.Proofs.Input.Checked
import Stencil.Proofs.Scope.Lookup

namespace Stencil.Input

variable {template : Template} {globals : Values} {tables : List Table}

/-- A placeholder stands for nothing: its name is that of no global parameter, of no column, and
    of no column together with its table. -/
structure Unknown (template : Template) (globals : Values) (tables : List Table)
    (name : String) : Prop where
  placeholder : .placeholder name ∈ template.segments
  notMem_globals : name ∉ globals.names
  notMem_columns : ∀ table ∈ tables, name ∉ table.columns
  ne_qualifiedName : ∀ table ∈ tables, ∀ column ∈ table.columns,
    name ≠ qualifiedName table.name column

/-- A placeholder could stand for several columns: its name has no dot, is that of no global
    parameter, and two or more tables have a column of this name. -/
structure Shared (template : Template) (globals : Values) (tables : List Table)
    (name : String) : Prop where
  placeholder : .placeholder name ∈ template.segments
  notMem_globals : name ∉ globals.names
  dot_notMem : '.' ∉ name.toList
  two_le : 2 ≤ (havingColumn tables name).length

/-- A shared name with what it could stand for. -/
def shared (tables : List Table) (name : String) : AmbiguousName :=
  ⟨name, (havingColumn tables name).map fun table => qualifiedName table.name name⟩

/-! ## The names at fault -/

/-- The names of a template that are no global parameters. -/
def ownNames (template : Template) (globals : Values) : List String :=
  template.names.filter fun name => !globals.contains name

theorem isListing_ownNames (template : Template) (globals : Values) :
    IsListing (fun name => .placeholder name ∈ template.segments ∧ name ∉ globals.names)
      (ownNames template globals) := by
  refine ((isListing_names template).filter _).congr fun name => ?_
  rw [Bool.not_eq_true', ← Bool.not_eq_true, Values.contains_eq_isSome, Option.isSome_iff_exists,
    Values.mem_names]

theorem isListing_undefinedNames (h : Plain tables) :
    IsListing (Unknown template globals tables)
      (undefinedNames (.ofTables tables) (ownNames template globals)) := by
  refine ((isListing_ownNames template globals).filter _).congr fun name => ?_
  rw [decide_eq_true_eq, Scope.resolve_eq_undefined h]
  constructor
  · rintro ⟨⟨hplaceholder, hglobals⟩, hcolumns, hqualified⟩
    exact ⟨hplaceholder, hglobals, hcolumns, hqualified⟩
  · rintro ⟨hplaceholder, hglobals, hcolumns, hqualified⟩
    exact ⟨⟨hplaceholder, hglobals⟩, hcolumns, hqualified⟩

/-- The names that could stand for several columns, with the columns. -/
theorem exists_ambiguousNames (h : Plain tables) :
    ∃ names, IsListing (Shared template globals tables) names ∧
      (ownNames template globals).filterMap (ambiguousName? (.ofTables tables)) =
        names.map (shared tables) := by
  refine ⟨(ownNames template globals).filter fun name => 2 ≤ (havingColumn tables name).length,
    ((isListing_ownNames template globals).filter _).congr fun name => ?_, ?_⟩
  · rw [decide_eq_true_eq]
    constructor
    · rintro ⟨⟨hplaceholder, hglobals⟩, htwo⟩
      refine ⟨hplaceholder, hglobals, ?_, htwo⟩
      obtain ⟨table, hmem⟩ := List.exists_mem_of_length_pos (Nat.zero_lt_two.trans_le htwo)
      obtain ⟨htable, hcolumn⟩ := List.mem_filter.1 hmem
      exact h.dot_notMem_column table htable name (of_decide_eq_true hcolumn)
    · rintro ⟨hplaceholder, hglobals, -, htwo⟩
      exact ⟨⟨hplaceholder, hglobals⟩, htwo⟩
  · rw [← List.filterMap_eq_map, List.filterMap_filter]
    refine List.filterMap_congr fun name _ => ?_
    by_cases htwo : 2 ≤ (havingColumn tables name).length
    · rw [ambiguousName?, (Scope.resolve_eq_ambiguous h).2 ⟨htwo, rfl⟩, if_pos (decide_eq_true htwo)]
      rfl
    · rw [if_neg (by simpa using htwo)]
      unfold ambiguousName?
      split
      · rename_i hambiguous
        exact absurd ((Scope.resolve_eq_ambiguous h).1 hambiguous).1 htwo
      · rfl

/-- Names that stand for nothing are at fault first. -/
theorem checkNames_eq (template : Template) (sectionName : String) (globals : Values)
    (scope : Scope) :
    checkNames template sectionName globals scope =
      if undefinedNames scope (ownNames template globals) ≠ [] then
        .error (.undefinedVariable sectionName (undefinedNames scope (ownNames template globals)))
      else if (ownNames template globals).filterMap (ambiguousName? scope) ≠ [] then
        .error (.ambiguousVariable sectionName
          ((ownNames template globals).filterMap (ambiguousName? scope)))
      else .ok () := by
  by_cases hundefined : undefinedNames scope (ownNames template globals) ≠ []
  · rw [if_pos hundefined]
    exact if_pos hundefined
  · rw [if_neg hundefined]
    exact if_neg hundefined

/-- **The last check of an input.**  If parameters and tables could be read, no dollar sign of the
    template is stray and the columns of the query's keys are there, then the placeholders that
    stand for nothing are at fault, all of them and in order.  If there are none, those that
    could stand for several columns are, each with these columns in the order of the tables.
    Without those either, the input has passed its checks. -/
theorem ofSections_of_contents {settings : Settings} {sections : Sections} {config : Config}
    {plan : Query.Plan} {contents : Contents} {lines : List String}
    (hconfig : Config.ofSections settings sections = .ok config)
    (hplan : config.plan sections = .ok plan)
    (hcontents : readContents settings sections config plan = .ok contents)
    (hlines : sections.lines? config.template = some lines)
    (hmisuse : (Template.ofLines config.template lines).misuse = none)
    (hkeys : Join.KeysFound plan contents.tables) :
    let template := Template.ofLines config.template lines
    ∃ unknown several c, IsListing (Unknown template contents.globals contents.tables) unknown ∧
      IsListing (Shared template contents.globals contents.tables) several ∧
      Checked.ofSections settings sections =
        if unknown ≠ [] then .error (.undefinedVariable config.template unknown)
        else if several ≠ [] then
          .error (.ambiguousVariable config.template (several.map (shared contents.tables)))
        else .ok c := by
  intro template
  obtain ⟨_, -, -, htables, hscope, -⟩ := readContents_eq_ok.1 hcontents
  have hplain := plain_tables hplan htables
  have hjoined := (execute_eq_ok hplan htables).2 ⟨hkeys, rfl⟩
  obtain ⟨several, hseveral, hshared⟩ :=
    @exists_ambiguousNames template contents.globals contents.tables hplain
  let unknown := undefinedNames (.ofTables contents.tables) (ownNames template contents.globals)
  let c : Checked := {
    config, plan, template, globals := contents.globals, tables := contents.tables
    scope := .ofTables contents.tables, rows := Join.nestedLoop plan contents.tables }
  refine ⟨unknown, several, c, isListing_undefinedNames hplain, hseveral, ?_⟩
  rw [Checked.ofSections, hconfig, ok_bind, hplan, ok_bind, hcontents, ok_bind,
    ofContents_of_joined hlines hmisuse hjoined, hscope, checkNames_eq, hshared]
  by_cases hunknown : unknown ≠ []
  · rw [if_pos hunknown, if_pos hunknown, error_bind]
  · rw [if_neg hunknown, if_neg hunknown]
    by_cases hnames : several ≠ []
    · rw [if_pos (List.map_eq_nil_iff.not.2 hnames), if_pos hnames, error_bind]
    · rw [if_neg (List.map_eq_nil_iff.not.not.2 hnames), if_neg hnames]
      exact ok_bind () _

/-- A template with two names that stand for nothing and one that two tables share. -/
theorem ofSections_of_three_names :
    let settings : Settings := ⟨"C", ⟨"t", "g", "r", "f"⟩, "*", "~"⟩
    let sections : Sections := ⟨groups [("C", "t=T"), ("C", "g=G"),
      ("C", "r=\"A join B on A.x=B.x\""), ("T", "$x $w $A.y $v"), ("G", "v=1"), ("A", "x"),
      ("A", "1"), ("B", "x,y"), ("B", "1,2")]⟩
    ∃ unknown, "w" ∈ unknown ∧ "A.y" ∈ unknown ∧ "x" ∉ unknown ∧ "v" ∉ unknown ∧
      Checked.ofSections settings sections = .error (.undefinedVariable "T" unknown) := by
  intro settings sections
  let plan : Query.Plan := ⟨"A", [⟨"B", [⟨0, "x", "x"⟩]⟩]⟩
  let globals := Values.ofPairs [("v", "1")]
  let tables : List Table := [⟨"A", ["x"], [["1"]], by decide, by decide⟩,
    ⟨"B", ["x", "y"], [["1", "2"]], by decide, by decide⟩]
  have hconfig : Config.ofSections settings sections =
      .ok ⟨"T", "G", "A join B on A.x=B.x", false⟩ := toOption_eq_some.1 (by decide +kernel)
  have hplan : Config.plan ⟨"T", "G", "A join B on A.x=B.x", false⟩ sections = .ok plan :=
    toOption_eq_some.1 (by decide +kernel)
  have hpairs : (Text.cleanLines ["v=1"]).mapM (Parameters.pair "G") = .ok [("v", "1")] :=
    toOption_eq_some.1 (by decide +kernel)
  have hcontents : readContents settings sections ⟨"T", "G", "A join B on A.x=B.x", false⟩ plan =
      .ok ⟨globals, tables, .ofTables tables⟩ :=
    readContents_eq_ok.2 ⟨["v=1"], by decide +kernel, congrArg (Values.ofPairs <$> ·) hpairs,
      toOption_eq_some.1 (by decide +kernel), rfl, by decide +kernel⟩
  have hkeys : Join.KeysFound plan tables := by
    rintro (_ | k) join hjoin key hkey
    · cases hjoin
      cases List.mem_singleton.1 hkey
      exact ⟨⟨_, rfl, by decide⟩, ⟨_, rfl, by decide⟩⟩
    · cases hjoin
  have hlines : sections.lines? "T" = some ["$x $w $A.y $v"] := by decide +kernel
  have hmisuse : (Template.ofLines "T" ["$x $w $A.y $v"]).misuse = none := by decide +kernel
  obtain ⟨unknown, several, c, hunknown, -, hchecked⟩ :=
    ofSections_of_contents hconfig hplan hcontents hlines hmisuse hkeys
  have hw : "w" ∈ unknown := (hunknown.mem_iff "w").2
    ⟨by decide +kernel, by decide +kernel, by decide +kernel, by decide +kernel⟩
  refine ⟨unknown, hw, (hunknown.mem_iff "A.y").2
    ⟨by decide +kernel, by decide +kernel, by decide +kernel, by decide +kernel⟩, ?_, ?_, ?_⟩
  · intro hx
    exact absurd ((hunknown.mem_iff "x").1 hx).notMem_columns (by decide +kernel)
  · intro hv
    exact absurd ((hunknown.mem_iff "v").1 hv).notMem_globals (by decide +kernel)
  · rw [hchecked, if_pos (List.ne_nil_of_mem hw)]

end Stencil.Input
