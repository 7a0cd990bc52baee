import TensorGraph.CommandLine.Arguments
import TensorGraph.CommandLine.FileTree
import TensorGraph.CommandLine.Table
import TensorGraph.Conversion.Convert
import TensorGraph.Model.Check
import TensorGraph.Model.ConstantReport

/-!
# Running commands

A command is a function from what it reads to what it prints: `Command.run` takes the text of the
options file, if the command names one, and gives the exit code, the two output texts and the file
to be written. Whether that file could be written is reported afterwards by `Report.ofWriting`.
-/

namespace TensorGraph.CommandLine

/-- What a command prints, and how it ends. -/
structure Report where
  code : Nat
  out : String
  err : String
  /-- The path and content of a file to be written. -/
  file : Option (String × String)

namespace Report

/-- A command that prints and succeeds. -/
def success (out : String) : Report := ⟨0, out, "", none⟩

/-- A command that fails with a message. -/
def failed (message : String) : Report := ⟨1, "", "error " ++ message ++ "\n", none⟩

/-- A command that fails with the report of a failure. -/
def failedWith (e : Failure) : Report := ⟨1, "", e.report ++ "\n", none⟩

/-- A usage error. -/
def usage : Report := ⟨2, "", "error: invalid arguments\n", none⟩

/-- Say whether a file could be written. -/
def ofWriting (path : String) : Except String Unit → Report
  | .ok () => .success ("ok wrote " ++ path ++ "\n")
  | .error reason => .failed ("failed to write " ++ path ++ ": " ++ reason)

/-- One report after another. The later one says how it ends. -/
def followedBy (first second : Report) : Report :=
  ⟨second.code, first.out ++ second.out, first.err ++ second.err, second.file⟩

end Report

/-- Why options could not be loaded. -/
inductive LoadError where
  /-- The file could not be read. -/
  | read (reason : String)
  /-- The text does not describe options. -/
  | malformed
  deriving DecidableEq, Repr

/-- A load error in words. -/
def LoadError.text : LoadError → String
  | .read reason => "read options: " ++ reason
  | .malformed => "parse options: not an object of options"

/-- The options in the text of a file. -/
def loadOptions (content : Except String String) : Except LoadError ConversionOptions :=
  match content with
  | .error reason => .error (.read reason)
  | .ok text =>
    match ConversionOptions.parse? text with
    | some options => .ok options
    | none => .error .malformed

/-- The table of registered primitives. -/
def primitivesTable (registry : Registry) : Table :=
  { header := ["Primitive", "Lowers to", "Context", "Since", "Test cases"]
    rows := registry.primitives.map fun m =>
      [m.primitive, ", ".intercalate (m.targets.map DocRef.component), m.context, m.since,
        ", ".intercalate (m.testCases.map TestCase.name)] }

/-- The summary of a model: its inputs and outputs, and what it consists of. -/
def summary (m : Model) : String :=
  let row := fun (kind : String) (r : ValueRecord) => [kind, r.name, r.typeText]
  let table : Table :=
    { header := ["Kind", "Name", "Type"]
      rows := m.graph.inputs.map (row "input") ++ m.graph.outputs.map (row "output") }
  "Model " ++ m.graph.name ++ "\n" ++ table.text ++ "\n" ++
    toString m.graph.nodes.length ++ " nodes, " ++ toString m.graph.initializers.length ++
      " initializers, " ++ toString m.functions.length ++ " functions\n"

/-- Convert a test case on its own shapes, or on as many others. -/
def convertCase (case : TestCase) (shapes : List String) (options : ConversionOptions) :
    Except Failure Model := do
  if !shapes.isEmpty && shapes.length != case.inputShapes.length then
    throw (.malformedSpec (case.name ++ " takes " ++ toString case.inputShapes.length ++
      " input(s), got " ++ toString shapes.length ++ " shape(s)"))
  let texts := if shapes.isEmpty then case.inputShapes else shapes
  let inputs ← texts.mapM fun text => InputSpec.parse text case.dtype
  let optimizer := if options.optimize then Optimizer.deadNodeElimination else .noop
  (convert .builtin optimizer case.program inputs options).result

/-- Run `convert` on a test case with the options of a file or the default ones. -/
def runConvert (arguments : ConvertArguments) (config : Option (Except String String)) : Report :=
  match Registry.builtin.testCase? arguments.testCase with
  | none => .failed ("unknown test case '" ++ arguments.testCase ++ "'")
  | some case =>
    let loaded := match config with
      | some content => loadOptions content
      | none => .ok { ConversionOptions.default with modelName := case.name }
    match loaded with
    | .error e => .failed e.text
    | .ok options =>
      let options := if arguments.noOptimize then { options with optimize := false } else options
      match convertCase case arguments.inputs options with
      | .error e => .failedWith e
      | .ok m =>
        { code := 0
          out := summary m ++
            (if arguments.report then (ConstantReport.ofModel m).text ++ "\n" else "")
          err := ""
          file := arguments.output.map fun path => (path, m.toJson.pretty) }

/-- What is wrong with a test case, if anything. -/
def caseFailure? (primitive : String) (case : TestCase) : Option String :=
  let complaint := fun detail : String => case.name ++ " (" ++ primitive ++ "): " ++ detail
  match convertCase case [] { ConversionOptions.default with modelName := case.name } with
  | .error e => some (complaint e.report)
  | .ok m =>
    if m.isValid then none else some (complaint ("; ".intercalate (m.problems.map Problem.text)))

/-- Run `check`: every test case has to be converted to a valid model. -/
def runCheck (registry : Registry) : Report :=
  match registry.testCases.filterMap fun (primitive, case) => caseFailure? primitive case with
  | [] => .success "ok all test cases converted and validated\n"
  | failures => ⟨1, "", String.join (failures.map fun f => "error " ++ f ++ "\n"), none⟩

/-- The options file that a command reads. -/
def Command.configPath? : Command → Option String
  | .convert arguments => arguments.config
  | _ => none

/-- Run a command on the text of its options file. -/
def Command.run (config : Option (Except String String)) : Command → Report
  | .primitives => .success ((primitivesTable .builtin).text ++ "\n")
  | .check => runCheck .builtin
  | .convert arguments => runConvert arguments config
  | .absent => ⟨2, "No valid subcommand was used. Use --help for more information.\n", "", none⟩
  | .version => .success "lowergraph 0.1.0\n"
  | .help => .success "Lower traced programs into graph models\n\nUsage: lowergraph [COMMAND]\n"

/-- Run a command line in a file tree, and give the tree that it leaves. -/
def runIn (t : FileTree) (arguments : List String) : Report × FileTree :=
  match Command.parse? arguments with
  | none => (.usage, t)
  | some command =>
    let r := command.run (command.configPath?.map fun path => (t.read path).mapError Fault.text)
    match r.file with
    | none => (r, t)
    | some (path, content) =>
      match t.write path content with
      | .ok (t, shown) =>
        ((r.followedBy ⟨0, shown.output, shown.errors, none⟩).followedBy (.ofWriting path (.ok ())),
          t)
      | .error fault => (r.followedBy (.ofWriting path (.error fault.text)), t)

end TensorGraph.CommandLine
