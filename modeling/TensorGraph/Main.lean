import TensorGraph.CommandLine.Run

/-!
# The command line

The only module that reads and writes files. Everything that it prints is made by
`TensorGraph.CommandLine`.
-/

open TensorGraph.CommandLine

/-- What went wrong with a file, in the words of `Fault`. Some of the system's numbers come
negated. -/
def faultText : IO.Error → String
  | .noFileOrDirectory .. => Fault.notFound.text
  | .inappropriateType _ code _ =>
    if code = 21 ∨ code = 0 - 21 then Fault.isDirectory.text else Fault.notDirectory.text
  | .permissionDenied .. => "Permission denied (os error 13)"
  | .invalidArgument _ code details =>
    if code = 36 ∨ code = 0 - 36 then Fault.nameTooLong.text else details
  | .resourceExhausted _ code details =>
    if code = 28 ∨ code = 0 - 28 then Fault.noSpace.text else details
  | e => toString e

/-- The text of a file, or the reason why it cannot be read. -/
def readText (path : String) : IO (Except String String) := do
  try
    return .ok (← IO.FS.readFile path)
  catch e => return .error (faultText e)

/-- Write a file, or give the reason why it cannot be written. -/
def writeText (path content : String) : IO (Except String Unit) := do
  try
    IO.FS.withFile path .write fun handle => do
      handle.putStr content
      handle.flush
    return .ok ()
  catch e => return .error (faultText e)

/-- Print a report, and write the file that it asks for. -/
def publish (report : Report) : IO UInt32 := do
  IO.print report.out
  IO.eprint report.err
  match report.file with
  | none => return report.code.toUInt32
  | some (path, content) =>
    (← IO.getStdout).flush
    let outcome := Report.ofWriting path (← writeText path content)
    IO.print outcome.out
    IO.eprint outcome.err
    return outcome.code.toUInt32

/-- Run the command that the arguments ask for. -/
def main (arguments : List String) : IO UInt32 :=
  match Command.parse? arguments with
  | none => publish .usage
  | some command => do
    publish (command.run (← command.configPath?.mapM readText))
