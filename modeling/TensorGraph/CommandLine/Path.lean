import TensorGraph.Text.Blank

/-!
# Paths of files

A path is a list of steps with slashes between them. It begins at the root of the file tree if its
text begins with a slash, and at the working folder otherwise. A run of slashes counts as one.
-/

namespace TensorGraph.CommandLine

/-- Why a path leads to no text. -/
inductive Fault where
  | notFound
  /-- A file stands where a folder is wanted. -/
  | notDirectory
  /-- A folder stands where a file is wanted. -/
  | isDirectory
  /-- A name or the whole path has too many bytes. -/
  | nameTooLong
  /-- A device takes no more text. -/
  | noSpace
  /-- A device gives more text than can be kept. -/
  | outOfMemory
  deriving DecidableEq, Repr

/-- A fault in the words and numbers of the operating system. -/
def Fault.text : Fault → String
  | .notFound => "No such file or directory (os error 2)"
  | .notDirectory => "Not a directory (os error 20)"
  | .isDirectory => "Is a directory (os error 21)"
  | .nameTooLong => "File name too long (os error 36)"
  | .noSpace => "No space left on device (os error 28)"
  | .outOfMemory => "out of memory"

/-- A step from a folder. -/
inductive Step where
  /-- Written `.`. -/
  | stay
  /-- Written `..`. -/
  | up
  | into (name : String)
  deriving DecidableEq, Repr

/-- The step that a part of a path stands for. -/
def Step.of : List Char → Step
  | ['.'] => .stay
  | ['.', '.'] => .up
  | name => .into (String.ofList name)

/-- The steps to a place. -/
structure Path where
  /-- The steps begin at the root. -/
  fromRoot : Bool
  steps : List Step
  /-- A slash stands at the end, so that the last step has to lead to a folder. -/
  closed : Bool
  deriving DecidableEq, Repr

namespace Path

/-- The number of bytes that a path must stay below. -/
def lengthLimit : Nat := 4096

/-- The number of bytes that a name must not exceed. -/
def nameLimit : Nat := 255

/-- Read a path. The empty text leads nowhere. -/
def parse (text : String) : Except Fault Path :=
  let cs := text.toList
  if cs.isEmpty then .error .notFound
  else if lengthLimit ≤ text.utf8ByteSize then .error .nameTooLong
  else .ok
    { fromRoot := cs.head? == some '/'
      steps := ((Text.pieces (· == '/') cs).filter fun part => !part.isEmpty).map Step.of
      closed := cs.getLast? == some '/' }

example :
    (parse "/a//./..").toOption = some ⟨true, [.into "a", .stay, .up], false⟩ := by decide +kernel
example : (parse "a/").toOption = some ⟨false, [.into "a"], true⟩ := by decide +kernel

end Path

end TensorGraph.CommandLine
