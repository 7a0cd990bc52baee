/-!
# Arguments of the command line

The command line has three commands. The arguments of `convert` are one test case and options before
or after it; the value of an option stands in the next argument or is attached to it. After `--`
there are no options. What does not fit is a usage error.
-/

namespace TensorGraph.CommandLine

/-- The arguments of `convert`. -/
structure ConvertArguments where
  testCase : String
  inputs : List String
  output : Option String
  config : Option String
  report : Bool
  noOptimize : Bool
  deriving DecidableEq, Repr

/-- What is asked for. -/
inductive Command where
  | primitives
  | check
  | convert (arguments : ConvertArguments)
  /-- No command is given. -/
  | absent
  | version
  | help
  deriving DecidableEq, Repr

/-- The options of `convert` that take a value. -/
inductive ValueOption where
  | input
  | output
  | config
  deriving DecidableEq, Repr

/-- What an argument of `convert` is. -/
inductive Argument where
  | report
  | noOptimize
  | help
  /-- An option whose value is the next argument. -/
  | awaiting (option : ValueOption)
  /-- An option with its value. -/
  | attached (option : ValueOption) (value : String)
  /-- From here on there are no options. -/
  | endOfOptions
  | unknown
  | positional (value : String)
  deriving DecidableEq, Repr

/-- A value attached to a one-letter option, with or without an equals sign. -/
def Argument.ofShort (option : ValueOption) : List Char → Argument
  | [] => .awaiting option
  | '=' :: value => .attached option (String.ofList value)
  | value => .attached option (String.ofList value)

/-- What an argument after two dashes is. -/
def Argument.ofLong (name : List Char) (value : Option (List Char)) : Argument :=
  let valued := fun option : ValueOption => match value with
    | none => Argument.awaiting option
    | some v => .attached option (String.ofList v)
  match String.ofList name, value with
  | "input", _ => valued .input
  | "output", _ => valued .output
  | "config", _ => valued .config
  | "report", none => .report
  | "no-optimize", none => .noOptimize
  | "help", none => .help
  | _, _ => .unknown

/-- What an argument of `convert` is. -/
def Argument.of (text : String) : Argument :=
  match text.toList with
  | ['-', '-'] => .endOfOptions
  | '-' :: '-' :: rest =>
    let name := rest.takeWhile (· != '=')
    match rest.dropWhile (· != '=') with
    | [] => .ofLong name none
    | _ :: value => .ofLong name (some value)
  | '-' :: 'i' :: rest => .ofShort .input rest
  | '-' :: 'o' :: rest => .ofShort .output rest
  | '-' :: 'h' :: _ => .help
  | '-' :: _ :: _ => .unknown
  | _ => .positional text

/-- Does the argument look like an option, so that it cannot be the value of one? -/
def looksLikeOption (text : String) : Bool :=
  match text.toList with
  | '-' :: _ :: _ => true
  | _ => false

/-- The arguments of `convert` that have been read. -/
structure Draft where
  testCase : Option String
  inputs : List String
  output : Option String
  config : Option String
  report : Bool
  noOptimize : Bool

namespace Draft

/-- Nothing is read. -/
def empty : Draft := ⟨none, [], none, none, false, false⟩

/-- Read the test case, which can be given once. -/
def setTestCase? (d : Draft) (value : String) : Option Draft :=
  if d.testCase.isNone then some { d with testCase := some value } else none

/-- Read the value of an option. Only inputs can be given more than once. -/
def setOption? (d : Draft) (value : String) : ValueOption → Option Draft
  | .input => some { d with inputs := d.inputs ++ [value] }
  | .output => if d.output.isNone then some { d with output := some value } else none
  | .config => if d.config.isNone then some { d with config := some value } else none

/-- The command, if a test case is given. -/
def finish? (d : Draft) : Option Command :=
  d.testCase.map fun testCase =>
    .convert ⟨testCase, d.inputs, d.output, d.config, d.report, d.noOptimize⟩

end Draft

/-- Read arguments after which there are no options. -/
def scanPositional? (d : Draft) (arguments : List String) : Option Command := do
  (← arguments.foldlM Draft.setTestCase? d).finish?

/-- Read the arguments of `convert`. -/
def scanConvert? (d : Draft) : List String → Option Command
  | [] => d.finish?
  | text :: rest =>
    match Argument.of text, rest with
    | .report, rest => if d.report then none else scanConvert? { d with report := true } rest
    | .noOptimize, rest =>
      if d.noOptimize then none else scanConvert? { d with noOptimize := true } rest
    | .help, _ => some .help
    | .awaiting _, [] => none
    | .awaiting option, value :: rest =>
      if looksLikeOption value then none
      else (d.setOption? value option).bind fun d => scanConvert? d rest
    | .attached option value, rest => (d.setOption? value option).bind fun d => scanConvert? d rest
    | .endOfOptions, rest => scanPositional? d rest
    | .unknown, _ => none
    | .positional value, rest => (d.setTestCase? value).bind fun d => scanConvert? d rest

/-- A command that takes no arguments. -/
def bare? (command : Command) : List String → Option Command
  | [] => some command
  | ["--"] => some command
  | text :: _ => if Argument.of text = .help then some .help else none

/-- The arguments of `help`: the name of a command, or none. -/
def help? : List String → Option Command
  | [] => some .help
  | [name] => if ["primitives", "convert", "check", "help"].contains name then some .help else none
  | _ => none

/-- What the arguments ask for. A usage error asks for nothing. -/
def Command.parse? : List String → Option Command
  | [] => some .absent
  | ["--"] => some .absent
  | "primitives" :: rest => bare? .primitives rest
  | "check" :: rest => bare? .check rest
  | "convert" :: rest => scanConvert? .empty rest
  | "help" :: rest => help? rest
  | "--version" :: _ => some .version
  | "--help" :: _ => some .help
  | text :: _ =>
    match text.toList with
    | '-' :: 'V' :: _ => some .version
    | '-' :: 'h' :: _ => some .help
    | _ => none

example : Command.parse? ["convert", "-iB", "t", "--input=4"] =
    some (.convert ⟨"t", ["B", "4"], none, none, false, false⟩) := by decide +kernel
example : Command.parse? ["convert", "t", "--report", "--report"] = none := by decide +kernel
example : Command.parse? ["convert", "t", "-o"] = none := by decide +kernel
example : Command.parse? ["help", "--"] = none := by decide +kernel

end TensorGraph.CommandLine
