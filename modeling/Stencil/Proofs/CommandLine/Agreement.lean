/-
  The commands agree with one another.

  * `exec`: what the program does with its arguments on a tree of files;
  * `Reports`: what is shown of a diagnostic, as `reports_ofFault` has it of the outcome of a fault;
  * `execCheck_execGenerate_cases`, `execPlan_cases` and `execGenerate_cases`: how a command
    ends, and another one with it;
  * `commands_agree`: an input passes its checks if and only if its output can be printed,
    faults are the same for all commands, and what is written is what would be printed.
-/
import Stencil.CommandLine
import Stencil.Proofs.Generator.AllOrNothing
import Stencil.Proofs.Input.Faults

namespace Stencil.CommandLine

open Generator Input

/-! ## Reading arguments -/

/-- The arguments of a command, with the switch for faults as JSON in front of them. -/
def withSwitch (jsonErrors : Bool) (arguments : List String) : List String :=
  if jsonErrors then "--json-errors" :: arguments else arguments

theorem readOptions_input (subcommand : Subcommand) (given : Given) (hgiven : given.input = none)
    (path : String) (rest : List String) :
    readOptions subcommand given ("-i" :: path :: rest) =
      if isValue path then readOptions subcommand { given with input := some path } rest
      else .error .misuse := by
  have hword : OptionWord.ofArgument? subcommand "-i" = some (.file .input none) := rfl
  rw [readOptions]
  · simp only [hword, Given.setFile, hgiven]
    rfl
  · simp

theorem readOptions_output (given : Given) (hgiven : given.output = none)
    (path : String) (rest : List String) :
    readOptions .generate given ("-o" :: path :: rest) =
      if isValue path then readOptions .generate { given with output := some path } rest
      else .error .misuse := by
  have hword : OptionWord.ofArgument? .generate "-o" = some (.file .output none) := rfl
  rw [readOptions]
  · simp only [hword, Given.setFile, hgiven]
    rfl
  · simp

/-- The word for a subcommand. -/
def Subcommand.word : Subcommand → String
  | .generate => "generate"
  | .check => "check"
  | .plan => "plan"

theorem ofArguments_withSwitch (jsonErrors : Bool) (subcommand : Subcommand) (rest : List String) :
    Request.ofArguments (withSwitch jsonErrors (subcommand.word :: rest)) =
      subcommand.request jsonErrors rest := by
  cases subcommand <;> cases jsonErrors <;> rfl

/-- A subcommand that needs no output, with an input. -/
theorem ofArguments_input (jsonErrors : Bool) (subcommand : Subcommand)
    (command : String → Command)
    (h : ∀ input, subcommand.command? ⟨some input, none, false⟩ = some (command input))
    (input : String) :
    Request.ofArguments (withSwitch jsonErrors [subcommand.word, "-i", input]) =
      if isValue input then .invoke ⟨command input, jsonErrors⟩ else .misuse := by
  rw [ofArguments_withSwitch, Subcommand.request, readOptions_input _ _ rfl]
  by_cases hinput : isValue input
  · rw [if_pos hinput, if_pos hinput, readOptions]
    simp only [Given.nothing, h, Bool.or_false]
  · rw [if_neg hinput, if_neg hinput]

theorem ofArguments_generate (jsonErrors : Bool) (input output : String) :
    Request.ofArguments (withSwitch jsonErrors ["generate", "-i", input, "-o", output]) =
      if isValue input ∧ isValue output then .invoke ⟨.generate input output, jsonErrors⟩
      else .misuse := by
  refine (ofArguments_withSwitch jsonErrors .generate _).trans ?_
  rw [Subcommand.request, readOptions_input _ _ rfl]
  by_cases hinput : isValue input
  · rw [if_pos hinput, readOptions_output _ rfl]
    by_cases houtput : isValue output
    · rw [if_pos houtput, if_pos ⟨hinput, houtput⟩, readOptions]
      simp [Given.nothing, Subcommand.command?]
    · rw [if_neg houtput, if_neg fun h => houtput h.2]
  · rw [if_neg hinput, if_neg fun h => hinput h.1]

/-! ## Running commands -/

/-- What the program does with its arguments on a tree of files. -/
def exec (arguments : List String) (fs : FileSystem) : Outcome × FileSystem :=
  ((Request.ofArguments arguments).answer : StateM FileSystem Outcome).run fs

/-- The outcome of a command that gives this text or fault. -/
def Outcome.ofResult (jsonErrors : Bool) : Except Fault String → Outcome
  | .ok output => ⟨0, output, ""⟩
  | .error fault => .ofFault jsonErrors fault

theorem exec_invoke {arguments : List String} {command : Command} {jsonErrors : Bool}
    (h : Request.ofArguments arguments = .invoke ⟨command, jsonErrors⟩) {fs fs' : FileSystem}
    {result : Except Fault String}
    (hrun : Generator.run (command.run .standard) fs = (result, fs')) :
    exec arguments fs = (.ofResult jsonErrors result, fs') := by
  rw [exec, h]
  simp only [Request.answer, Invocation.run, StateT.run_bind]
  rw [Generator.run] at hrun
  rw [hrun]
  cases result <;> rfl

theorem exec_misuse {arguments : List String} (h : Request.ofArguments arguments = .misuse)
    (fs : FileSystem) : exec arguments fs = (⟨2, "", usage⟩, fs) := by
  rw [exec, h]
  rfl

/-- A diagnostic is shown, with a line feed behind it: as JSON on standard output, or as text on
    standard error. -/
structure Reports (jsonErrors : Bool) (diagnostic : Diagnostic) (outcome : Outcome) : Prop where
  status : outcome.status = 1
  asJson : jsonErrors = true →
    outcome.output = diagnostic.json.compact ++ "\n" ∧ outcome.errors = ""
  asText : jsonErrors = false → outcome.output = "" ∧ outcome.errors = diagnostic.text ++ "\n"

theorem reports_ofFault (jsonErrors : Bool) (fault : Fault) :
    Reports jsonErrors fault.diagnostic (.ofFault jsonErrors fault) := by
  cases jsonErrors with
  | false => exact ⟨rfl, nofun, fun _ => ⟨rfl, rfl⟩⟩
  | true => exact ⟨rfl, fun _ => ⟨rfl, rfl⟩, nofun⟩

theorem status_ofFault (jsonErrors : Bool) (fault : Fault) :
    (Outcome.ofFault jsonErrors fault).status = 1 :=
  (reports_ofFault jsonErrors fault).status

/-- Check an input. -/
def execCheck (jsonErrors : Bool) (input : String) : FileSystem → Outcome × FileSystem :=
  exec (withSwitch jsonErrors ["check", "-i", input])

/-- Show the plan of an input. -/
def execPlan (jsonErrors : Bool) (input : String) : FileSystem → Outcome × FileSystem :=
  exec (withSwitch jsonErrors ["plan", "-i", input])

/-- Generate the output of an input: into a file, or for a hyphen to standard output. -/
def execGenerate (jsonErrors : Bool) (input output : String) : FileSystem → Outcome × FileSystem :=
  exec (withSwitch jsonErrors ["generate", "-i", input, "-o", output])

/-! ## What the commands give -/

/-- The line that says that an input passed its checks. -/
def summary (input : String) (checked : Checked) : String :=
  input ++ ": ok (" ++ toString checked.tables.length ++ " table(s), " ++
    toString checked.rows.length ++ " row(s))\n"

section
variable (jsonErrors : Bool) {input : String} (hinput : isValue input = true) (fs : FileSystem)
include hinput

theorem execCheck_eq :
    execCheck jsonErrors input fs =
      (.ofResult jsonErrors (summary input <$> (textOf fs input >>= Checked.ofText .standard)),
        fs) := by
  have hrequest := ofArguments_input jsonErrors .check .check (fun _ => rfl) input
  refine exec_invoke (hrequest.trans (if_pos hinput)) ?_
  exact run_bind_of_keeps (run_check .standard input fs) fun _ => rfl

theorem execPlan_eq :
    execPlan jsonErrors input fs =
      (.ofResult jsonErrors ((fun plan => plan.record.pretty ++ "\n") <$>
        (textOf fs input >>= planOfText .standard)), fs) := by
  have hrequest := ofArguments_input jsonErrors .plan .plan (fun _ => rfl) input
  refine exec_invoke (hrequest.trans (if_pos hinput)) ?_
  exact run_bind_of_keeps (run_plan .standard input fs) fun _ => rfl

theorem execGenerate_hyphen :
    execGenerate jsonErrors input "-" fs =
      (.ofResult jsonErrors
        (textOf fs input >>= Checked.ofText .standard >>= Checked.render), fs) := by
  refine exec_invoke ((ofArguments_generate jsonErrors input "-").trans (if_pos ⟨hinput, rfl⟩)) ?_
  rw [Command.run, if_pos rfl]
  exact run_render .standard input fs

theorem execGenerate_file {output : String} (houtput : isValue output = true) (hne : output ≠ "-") :
    execGenerate jsonErrors input output fs =
      (.ofResult jsonErrors
        ((fun _ => "") <$> (Generator.run (generate .standard input output) fs).1),
        (Generator.run (generate .standard input output) fs).2) := by
  refine exec_invoke ((ofArguments_generate jsonErrors input output).trans
    (if_pos ⟨hinput, houtput⟩)) ?_
  rw [Command.run, if_neg hne]
  exact run_discard _ ""

/-- Checking and printing both go well, or both fail with the fault of the input. -/
theorem execCheck_execGenerate_cases :
    (∃ line output, execCheck jsonErrors input fs = (⟨0, line, ""⟩, fs) ∧
      execGenerate jsonErrors input "-" fs = (⟨0, output, ""⟩, fs)) ∨
    ∃ fault, textOf fs input >>= Checked.ofText .standard = .error fault ∧
      execCheck jsonErrors input fs = (.ofFault jsonErrors fault, fs) ∧
      execGenerate jsonErrors input "-" fs = (.ofFault jsonErrors fault, fs) := by
  rw [execCheck_eq jsonErrors hinput, execGenerate_hyphen jsonErrors hinput]
  cases h : textOf fs input >>= Checked.ofText .standard with
  | error fault => exact Or.inr ⟨fault, rfl, rfl, rfl⟩
  | ok checked =>
    obtain ⟨text, -, htext⟩ := bind_eq_ok.1 h
    obtain ⟨output, houtput⟩ := render_of_ofText htext
    have houtput : Except.ok checked >>= Checked.render = .ok output := houtput
    rw [houtput]
    exact Or.inl ⟨_, output, rfl, rfl⟩

/-- Planning is the first part of checking. -/
theorem execPlan_cases :
    (∃ output, execPlan jsonErrors input fs = (⟨0, output, ""⟩, fs)) ∨
    ∃ fault, textOf fs input >>= planOfText .standard = .error fault ∧
      execPlan jsonErrors input fs = (.ofFault jsonErrors fault, fs) ∧
      execCheck jsonErrors input fs = (.ofFault jsonErrors fault, fs) := by
  rw [execPlan_eq jsonErrors hinput, execCheck_eq jsonErrors hinput]
  cases h : textOf fs input >>= planOfText .standard with
  | ok plan => exact Or.inl ⟨_, rfl⟩
  | error fault =>
    have hchecked : textOf fs input >>= Checked.ofText .standard = .error fault := by
      rcases bind_eq_error.1 h with htext | ⟨text, htext, hplan⟩
      · exact bind_eq_error.2 (Or.inl htext)
      · exact bind_eq_error.2 (Or.inr ⟨text, htext, ofText_of_planOfText hplan⟩)
    rw [hchecked]
    exact Or.inr ⟨fault, rfl, rfl, rfl⟩

/-- What is written is what would be printed. -/
theorem execGenerate_cases {output : String} (houtput : isValue output = true)
    (hne : output ≠ "-") :
    (∃ text fs', execGenerate jsonErrors input output fs = (⟨0, "", ""⟩, fs') ∧
      fs'.read output = .ok text.toUTF8 ∧
      execGenerate jsonErrors input "-" fs = (⟨0, text, ""⟩, fs)) ∨
    ∃ fault, execGenerate jsonErrors input output fs = (.ofFault jsonErrors fault, fs) := by
  rw [execGenerate_file jsonErrors hinput fs houtput hne, execGenerate_hyphen jsonErrors hinput]
  by_cases hcan : CanGenerate .standard input output fs
  · obtain ⟨n, fs', hrun, hgenerated⟩ := exists_generated hcan
    obtain ⟨checked, blocks, hholds, hblocks, -, hread⟩ := hgenerated.read_output
    have hrender : Except.ok checked >>= Checked.render = .ok (String.join blocks) :=
      map_eq_ok.2 ⟨blocks, hblocks, rfl⟩
    rw [hrun, ofText_textOf_eq_ok.2 hholds, hrender]
    exact Or.inl ⟨String.join blocks, fs', rfl, hread, rfl⟩
  · obtain ⟨fault, hfault⟩ := exists_fault hcan
    rw [hfault]
    exact Or.inr ⟨fault, rfl⟩

end

/-! ## Agreement -/

/-- An input that starts with a hyphen cannot be given as a word of its own. -/
theorem exec_not_isValue (jsonErrors : Bool) {input : String} (hinput : ¬isValue input = true)
    (fs : FileSystem) :
    execCheck jsonErrors input fs = (⟨2, "", usage⟩, fs) ∧
      execPlan jsonErrors input fs = (⟨2, "", usage⟩, fs) ∧
      ∀ output, execGenerate jsonErrors input output fs = (⟨2, "", usage⟩, fs) := by
  have hcheck := ofArguments_input jsonErrors .check .check (fun _ => rfl) input
  have hplan := ofArguments_input jsonErrors .plan .plan (fun _ => rfl) input
  refine ⟨exec_misuse (hcheck.trans (if_neg hinput)) fs,
    exec_misuse (hplan.trans (if_neg hinput)) fs, fun output => ?_⟩
  exact exec_misuse ((ofArguments_generate jsonErrors input output).trans
    (if_neg fun h => hinput h.1)) fs

/-- **The commands agree with one another.**  An input passes its checks if and only if its
    output can be printed.  If not, then both report the diagnostic of the fault that the input has.
    A fault of planning is reported by checking as well.  Checking, planning and printing touch no
    file, and an output that is written is the one that would be printed. -/
theorem commands_agree (jsonErrors : Bool) (input : String) (fs : FileSystem) :
    ((execCheck jsonErrors input fs).1.status = 0 ↔
      (execGenerate jsonErrors input "-" fs).1.status = 0) ∧
    ((execCheck jsonErrors input fs).1.status = 1 ∨
      (execGenerate jsonErrors input "-" fs).1.status = 1 →
      ∃ fault, textOf fs input >>= Checked.ofText .standard = .error fault ∧
        (execCheck jsonErrors input fs).1 = .ofFault jsonErrors fault ∧
        (execGenerate jsonErrors input "-" fs).1 = .ofFault jsonErrors fault ∧
        Reports jsonErrors fault.diagnostic (execCheck jsonErrors input fs).1) ∧
    ((execPlan jsonErrors input fs).1.status = 1 →
      ∃ fault, textOf fs input >>= planOfText .standard = .error fault ∧
        (execPlan jsonErrors input fs).1 = .ofFault jsonErrors fault ∧
        (execCheck jsonErrors input fs).1 = .ofFault jsonErrors fault ∧
        Reports jsonErrors fault.diagnostic (execPlan jsonErrors input fs).1) ∧
    (execCheck jsonErrors input fs).2 = fs ∧
    (execPlan jsonErrors input fs).2 = fs ∧
    (execGenerate jsonErrors input "-" fs).2 = fs ∧
    ∀ output, output ≠ "-" → (execGenerate jsonErrors input output fs).1.status = 0 →
      (execGenerate jsonErrors input output fs).2.read output =
        .ok (execGenerate jsonErrors input "-" fs).1.output.toUTF8 := by
  by_cases hinput : isValue input
  · have hcheck := execCheck_execGenerate_cases jsonErrors hinput fs
    have hplan := execPlan_cases jsonErrors hinput fs
    refine ⟨?_, ?_, ?_, ?_, ?_, ?_, fun output hne hstatus => ?_⟩
    · rcases hcheck with ⟨line, output, hcheck, hprint⟩ | ⟨fault, -, hcheck, hprint⟩
      · simp [hcheck, hprint]
      · simp [hcheck, hprint]
    · rcases hcheck with ⟨line, output, hcheck, hprint⟩ | ⟨fault, hfault, hcheck, hprint⟩
      · simp [hcheck, hprint]
      · rw [hcheck, hprint]
        exact fun _ => ⟨fault, hfault, rfl, rfl, reports_ofFault jsonErrors fault⟩
    · rcases hplan with ⟨output, hplan⟩ | ⟨fault, hfault, hplan, hcheck⟩
      · simp [hplan]
      · rw [hplan, hcheck]
        exact fun _ => ⟨fault, hfault, rfl, rfl, reports_ofFault jsonErrors fault⟩
    · rcases hcheck with ⟨_, _, hcheck, -⟩ | ⟨_, -, hcheck, -⟩ <;> rw [hcheck]
    · rcases hplan with ⟨_, hplan⟩ | ⟨_, -, hplan, -⟩ <;> rw [hplan]
    · rcases hcheck with ⟨_, _, -, hprint⟩ | ⟨_, -, -, hprint⟩ <;> rw [hprint]
    · by_cases houtput : isValue output
      · rcases execGenerate_cases jsonErrors hinput fs houtput hne with
          ⟨text, fs', hwrite, hread, hprint⟩ | ⟨fault, hwrite⟩
        · rw [hwrite, hprint]
          exact hread
        · rw [hwrite, status_ofFault] at hstatus
          cases hstatus
      · have hmisuse := exec_misuse ((ofArguments_generate jsonErrors input output).trans
          (if_neg fun h => houtput h.2)) fs
        rw [execGenerate, hmisuse] at hstatus
        cases hstatus
  · obtain ⟨hcheck, hplan, hgenerate⟩ := exec_not_isValue jsonErrors hinput fs
    simp [hcheck, hplan, hgenerate]

/-- An input whose output replaces another file, one whose query is no query, which is reported as
    JSON with its diagnostic, and one that is not there, which is reported as text. -/
theorem commands_agree_three_inputs :
    let config := "[CONFIG]\ntemplate=T\nglobal_parameters=G\nrepeater_parameters="
    let rest := "\n[T]\n$x\n[G]\n#\n[A]\nx\n1"
    let fs : FileSystem := ⟨.ofList [(["in"], Node.file (config ++ "A" ++ rest).toUTF8),
      (["bad"], Node.file (config ++ "join" ++ rest).toUTF8),
      (["out"], Node.file "previous".toUTF8)]⟩
    let fault : Fault := .querySyntax ⟨"join", ⟨0, 4⟩, "expected a table name, found `join`"⟩
    (execGenerate false "in" "out" fs).1.status = 0 ∧
      (execGenerate false "in" "out" fs).2.read "out" =
        .ok (execGenerate false "in" "-" fs).1.output.toUTF8 ∧
      (execPlan true "bad" fs).1.status = 1 ∧
      (execCheck true "bad" fs).1 = (execPlan true "bad" fs).1 ∧
      (execCheck true "bad" fs).1 = (execGenerate true "bad" "-" fs).1 ∧
      Reports true fault.diagnostic (execCheck true "bad" fs).1 ∧
      (execCheck false "none" fs).1 = ⟨1, "", "Error [T-1-1]: File Error\n" ++
        "Can't access `none`\n✖ No such file or directory (os error 2)\n"⟩ := by
  intro config rest fs fault
  obtain ⟨-, -, -, -, -, -, hread⟩ := commands_agree false "in" fs
  obtain ⟨-, hprinted, hplanned, -⟩ := commands_agree true "bad" fs
  obtain ⟨-, -, hmissed, -⟩ := commands_agree false "none" fs
  have hwrite : (execGenerate false "in" "out" fs).1.status = 0 := by decide +kernel
  have hbad : (execPlan true "bad" fs).1.status = 1 := by decide +kernel
  have hfault : textOf fs "bad" >>= Checked.ofText .standard = .error fault :=
    error?_eq_some.1 (by decide +kernel)
  have hnone : (execPlan false "none" fs).1 = ⟨1, "", "Error [T-1-1]: File Error\n" ++
      "Can't access `none`\n✖ No such file or directory (os error 2)\n"⟩ := by decide +kernel
  obtain ⟨planned, -, hplan, hcheck, -⟩ := hplanned hbad
  have hstatus : (execCheck true "bad" fs).1.status = 1 := by rw [hcheck, status_ofFault]
  obtain ⟨printed, hchecked, hcheck', hprint, hreports⟩ := hprinted (Or.inl hstatus)
  obtain rfl : printed = fault := Except.error.inj (hchecked.symm.trans hfault)
  obtain ⟨missed, -, hplanNone, hcheckNone, -⟩ := hmissed (by rw [hnone])
  exact ⟨hwrite, hread "out" (by decide) hwrite, hbad, hcheck.trans hplan.symm,
    hcheck'.trans hprint.symm, hreports, (hcheckNone.trans hplanNone.symm).trans hnone⟩

end Stencil.CommandLine
