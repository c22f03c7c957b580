/-
  The command line.

      generate -i INPUT -o OUTPUT    fill the template into a file, or `-` for standard output
      check    -i INPUT              check an input file
      plan     -i INPUT              show the join plan of an input file

  * `Request.ofArguments` reads the arguments;
  * `Command.run` runs a command, and `Invocation.run` reports its fault;
  * `Request.answer` is the outcome of any request.
-/
import Stencil.Diagnostic.Record
import Stencil.Diagnostic.Text
import Stencil.Fault.Diagnosis
import Stencil.Generator
import Stencil.Query.Record

namespace Stencil.CommandLine

/-! ## Requests -/

/-- What to do with an input file. -/
inductive Command where
  | generate (input output : String)
  | check (input : String)
  | plan (input : String)
  deriving DecidableEq, Repr

/-- A command, and whether its fault is reported as JSON. -/
structure Invocation where
  command : Command
  jsonErrors : Bool
  deriving DecidableEq, Repr

/-- What the arguments ask for. -/
inductive Request where
  | invoke (invocation : Invocation)
  | version
  | help
  /-- The arguments make no sense. -/
  | misuse
  deriving DecidableEq, Repr

/-- The subcommands. -/
inductive Subcommand where
  | generate
  | check
  | plan
  deriving DecidableEq, Repr

/-- The subcommand of a name. -/
def Subcommand.ofName? (name : String) : Option Subcommand :=
  if name = "generate" then some .generate
  else if name = "check" then some .check
  else if name = "plan" then some .plan
  else none

/-! ## Options -/

/-- The options that name a file. -/
inductive FileOption where
  | input
  | output
  deriving DecidableEq, Repr

/-- What an argument behind a subcommand says. -/
inductive OptionWord where
  /-- An option that names a file, and the value that it holds itself, if any. -/
  | file (option : FileOption) (value : Option String)
  | jsonErrors
  | help
  deriving DecidableEq, Repr

/-- Cut a text at its first equals sign, if it has one. -/
def cutAtEquals (s : List Char) : String × Option String :=
  let name := String.ofList (s.takeWhile (· ≠ '='))
  match s.dropWhile (· ≠ '=') with
  | [] => (name, none)
  | _ :: value => (name, some (String.ofList value))

/-- The value right behind the letter of an option.  An equals sign in front of it is dropped. -/
def valueBehindLetter : List Char → Option String
  | [] => none
  | '=' :: value => some (String.ofList value)
  | value => some (String.ofList value)

/-- What a long option says.  Only generating has an output, and a switch has no value. -/
def OptionWord.ofName? (subcommand : Subcommand) (name : String) (value : Option String) :
    Option OptionWord :=
  if name = "input" then some (.file .input value)
  else if name = "output" ∧ subcommand = .generate then some (.file .output value)
  else if name = "json-errors" ∧ value = none then some .jsonErrors
  else if name = "help" ∧ value = none then some .help
  else none

/-- What an option of one letter says.  Help is given whatever stands behind its letter. -/
def OptionWord.ofLetter? (subcommand : Subcommand) (letter : Char) (rest : List Char) :
    Option OptionWord :=
  if letter = 'i' then some (.file .input (valueBehindLetter rest))
  else if letter = 'o' ∧ subcommand = .generate then some (.file .output (valueBehindLetter rest))
  else if letter = 'h' then some .help
  else none

/-- What an argument says, if it is an option of the subcommand. -/
def OptionWord.ofArgument? (subcommand : Subcommand) (argument : String) : Option OptionWord :=
  match argument.toList with
  | '-' :: '-' :: rest =>
    let (name, value) := cutAtEquals rest
    OptionWord.ofName? subcommand name value
  | '-' :: letter :: rest => OptionWord.ofLetter? subcommand letter rest
  | _ => none

/-- Whether an argument can be the value of the option in front of it: it is a
    hyphen, or does not start with one. -/
def isValue (argument : String) : Bool :=
  argument == "-" || argument.toList.head? != some '-'

/-- The options given to a subcommand. -/
structure Given where
  input : Option String
  output : Option String
  jsonErrors : Bool
  deriving DecidableEq, Repr

/-- No option is given. -/
def Given.nothing : Given :=
  ⟨none, none, false⟩

/-- Why arguments are not read to the end. -/
inductive Stop where
  | help
  | misuse
  deriving DecidableEq, Repr

/-- Give a file to an option that has none yet. -/
def Given.setFile (given : Given) (option : FileOption) (path : String) : Except Stop Given :=
  match option with
  | .input => if given.input.isSome then .error .misuse else .ok { given with input := some path }
  | .output => if given.output.isSome then .error .misuse else .ok { given with output := some path }

/-- Read the arguments behind a subcommand.  Two hyphens may end them. -/
def readOptions (subcommand : Subcommand) (given : Given) : List String → Except Stop Given
  | [] => .ok given
  | ["--"] => .ok given
  | argument :: rest =>
    match OptionWord.ofArgument? subcommand argument with
    | none => .error .misuse
    | some .help => .error .help
    | some .jsonErrors =>
      if given.jsonErrors then .error .misuse
      else readOptions subcommand { given with jsonErrors := true } rest
    | some (.file option (some path)) => do
      readOptions subcommand (← given.setFile option path) rest
    | some (.file option none) =>
      match rest with
      | [] => .error .misuse
      | path :: rest =>
        if isValue path then do
          readOptions subcommand (← given.setFile option path) rest
        else .error .misuse

/-- The command of a subcommand with its options, if none is missing. -/
def Subcommand.command? (subcommand : Subcommand) (given : Given) : Option Command := do
  let input ← given.input
  match subcommand with
  | .generate => return .generate input (← given.output)
  | .check => return .check input
  | .plan => return .plan input

/-- Read a subcommand with its options. -/
def Subcommand.request (subcommand : Subcommand) (jsonErrors : Bool) (arguments : List String) :
    Request :=
  match readOptions subcommand .nothing arguments with
  | .error .help => .help
  | .error .misuse => .misuse
  | .ok given =>
    match subcommand.command? given with
    | some command => .invoke ⟨command, jsonErrors || given.jsonErrors⟩
    | none => .misuse

/-- Help on the program, or on a subcommand by its name. -/
def Request.ofTopics : List String → Request
  | [] => .help
  | [topic] => if topic = "help" ∨ (Subcommand.ofName? topic).isSome then .help else .misuse
  | _ => .misuse

/-- Read the arguments, where `jsonErrors` tells whether its switch was given. -/
def Request.read (jsonErrors : Bool) : List String → Request
  | [] => .misuse
  | argument :: rest =>
    if argument = "--json-errors" then
      if jsonErrors then .misuse else Request.read true rest
    else if argument = "--version" ∨ argument.toList.take 2 = ['-', 'V'] then .version
    else if argument = "--help" ∨ argument.toList.take 2 = ['-', 'h'] then .help
    else if argument = "help" then Request.ofTopics rest
    else
      match Subcommand.ofName? argument with
      | some subcommand => subcommand.request jsonErrors rest
      | none => .misuse

/-- What the arguments ask for. -/
def Request.ofArguments (arguments : List String) : Request :=
  Request.read false arguments

/-! ## Answers -/

/-- What the program leaves behind besides files. -/
structure Outcome where
  status : Nat
  /-- The text on standard output. -/
  output : String
  /-- The text on standard error. -/
  errors : String
  deriving DecidableEq, Repr

variable {m : Type → Type} [Monad m] [MonadFiles m]

/-- Run a command; the answer is the text on standard output. -/
def Command.run (settings : Settings) : Command → ExceptT Fault m String
  | .generate input output =>
    if output = "-" then Generator.render settings input
    else do
      discard (Generator.generate (m := m) settings input output)
      return ""
  | .check input => do
    let checked ← Generator.check settings input
    return input ++ ": ok (" ++ toString checked.tables.length ++ " table(s), " ++
      toString checked.rows.length ++ " row(s))\n"
  | .plan input => do
    let plan ← Generator.plan settings input
    return plan.record.pretty ++ "\n"

/-- The report of a fault: JSON on standard output, or text on standard error. -/
def Outcome.ofFault (jsonErrors : Bool) (fault : Fault) : Outcome :=
  if jsonErrors then ⟨1, fault.diagnostic.json.compact ++ "\n", ""⟩
  else ⟨1, "", fault.diagnostic.text ++ "\n"⟩

/-- Run a command and report its fault. -/
def Invocation.run (settings : Settings) (invocation : Invocation) : m Outcome := do
  match ← (invocation.command.run settings).run with
  | .ok output => return ⟨0, output, ""⟩
  | .error fault => return .ofFault invocation.jsonErrors fault

/-- How to use the program. -/
def usage : String :=
  "Usage: templie [--json-errors] generate -i INPUT -o OUTPUT\n" ++
  "       templie [--json-errors] check -i INPUT\n" ++
  "       templie [--json-errors] plan -i INPUT\n"

/-- The outcome of a request. -/
def Request.answer : Request → m Outcome
  | .invoke invocation => invocation.run .standard
  | .version => return ⟨0, "templie 0.1.0\n", ""⟩
  | .help => return ⟨0, usage, ""⟩
  | .misuse => return ⟨2, "", usage⟩

end Stencil.CommandLine
