import TensorGraph.CommandLine.Path

/-!
# File trees

A `FileTree` is a tree of folders, text files and devices, for running commands without a disk.
Every step of a path has to begin in a folder. Reading wants a file at the end of the path; writing
puts one there, also where nothing stands. The first step that fails decides the fault.
-/

namespace TensorGraph.CommandLine

/-- What becomes of a text that is written to a device. -/
inductive Sink where
  | discarded
  | refused
  | output
  | errors
  deriving DecidableEq, Repr

/-- A device stands among the files and keeps nothing. -/
structure Device where
  /-- The text that is read from it, if that has an end. -/
  supply : Option String
  sink : Sink
  deriving DecidableEq, Repr

/-- What stands at a place. -/
inductive Entry where
  | folder
  | file (content : String)
  | device (device : Device)
  deriving DecidableEq, Repr

/-- A place in a tree: the names on the way from the root. -/
abbrev Place : Type := List String

/-- What is shown on the two output streams. -/
structure Streams where
  output : String
  errors : String
  deriving DecidableEq, Repr

/-- Nothing is shown. -/
def Streams.silent : Streams := ⟨"", ""⟩

/-- Entries by place, and the folder in which a command runs. The root is a folder without being
listed. -/
structure FileTree where
  entries : List (Place × Entry)
  workingFolder : Place

namespace FileTree

/-- What stands at a place. -/
def occupant? (t : FileTree) (place : Place) : Option Entry :=
  if place.isEmpty then some .folder else t.entries.lookup place

/-- Put an entry at a place, over one that stands there. -/
def put (t : FileTree) (place : Place) (e : Entry) : FileTree :=
  { t with entries := (place, e) :: t.entries.filter fun other => other.1 != place }

/-- What has a name in a folder. -/
def find? (t : FileTree) (folder : Place) (name : String) : Except Fault (Option Entry) :=
  if Path.nameLimit < name.utf8ByteSize then .error .nameTooLong
    else .ok (t.occupant? (folder ++ [name]))

/-- Go from a folder to a folder. The root is above itself. -/
def step (t : FileTree) (folder : Place) : Step → Except Fault Place
  | .stay => .ok folder
  | .up => .ok folder.dropLast
  | .into name => do
    match ← t.find? folder name with
    | some .folder => return folder ++ [name]
    | some _ => throw .notDirectory
    | none => throw .notFound

/-- The folder of the last step of a path. -/
def base (t : FileTree) (path : Path) : Except Fault Place :=
  path.steps.dropLast.foldlM t.step (if path.fromRoot then [] else t.workingFolder)

/-- The text at the end of a path. -/
def read (t : FileTree) (text : String) : Except Fault String := do
  let path ← Path.parse text
  let folder ← t.base path
  match path.steps.getLast? with
  | some (.into name) =>
    match ← t.find? folder name with
    | none => throw .notFound
    | some .folder => throw .isDirectory
    | some (.file content) => if path.closed then throw .notDirectory else return content
    | some (.device d) =>
      if path.closed then throw .notDirectory
      else match d.supply with
        | some content => return content
        | none => throw .outOfMemory
  | _ => throw .isDirectory

/-- Write a text to a device. -/
def feed (t : FileTree) (content : String) : Sink → Except Fault (FileTree × Streams)
  | .discarded => .ok (t, .silent)
  | .refused => .error .noSpace
  | .output => .ok (t, ⟨content, ""⟩)
  | .errors => .ok (t, ⟨"", content⟩)

/-- Write a text to the end of a path, and give the tree that this leaves and what it shows. -/
def write (t : FileTree) (text content : String) : Except Fault (FileTree × Streams) := do
  let path ← Path.parse text
  let folder ← t.base path
  match path.steps.getLast? with
  | some (.into name) =>
    if path.closed then throw .isDirectory
    match ← t.find? folder name with
    | some .folder => throw .isDirectory
    | some (.device d) => t.feed content d.sink
    | _ => return (t.put (folder ++ [name]) (.file content), .silent)
  | _ => throw .isDirectory

/-! ## The tree in which commands run -/

/-- The folders at the root. -/
def rootFolders : List String :=
  ["bin", "boot", "dev", "etc", "home", "lib", "media", "mnt", "opt", "proc", "root", "run", "sbin",
    "srv", "sys", "tmp", "usr", "var"]

/-- The devices by name. Standard input is empty. -/
def devices : List (String × Device) := [
  ("null", ⟨some "", .discarded⟩), ("zero", ⟨none, .discarded⟩), ("full", ⟨none, .refused⟩),
  ("stdin", ⟨some "", .discarded⟩), ("stdout", ⟨some "", .output⟩), ("stderr", ⟨some "", .errors⟩)]

/-- A tree with nothing in its working folder. -/
def vacant : FileTree :=
  { entries := rootFolders.map (fun name => ([name], .folder)) ++
      devices.map (fun (name, d) => (["dev", name], .device d)) ++ [(["tmp", "work"], .folder)]
    workingFolder := ["tmp", "work"] }

/-- Put a file below the working folder, with the folders on the way to it. -/
def putFile (t : FileTree) (name content : String) : FileTree :=
  let names :=
    ((Text.pieces (· == '/') name.toList).filter fun part => part != [] && part != ['.']).map
      String.ofList
  let folders := (List.range names.length).tail.map names.take
  (folders.foldl (fun t folder => t.put (t.workingFolder ++ folder) .folder) t).put
    (t.workingFolder ++ names) (.file content)

/-- A tree with these files below its working folder. -/
def holding (files : List (String × String)) : FileTree :=
  files.foldl (fun t (name, content) => t.putFile name content) vacant

/-! ## Reading back -/

theorem occupant?_put_self (t : FileTree) {place : Place} (e : Entry) (h : place ≠ []) :
    (t.put place e).occupant? place = some e := by
  simp [occupant?, put, h]

theorem lookup_filter_of_ne {place other : Place} (h : other ≠ place) :
    ∀ entries : List (Place × Entry),
      (entries.filter fun e => e.1 != place).lookup other = entries.lookup other
  | [] => rfl
  | (found, e) :: rest => by
    by_cases hf : found = place
    · subst hf
      simp [lookup_filter_of_ne h rest, List.lookup_cons, beq_false_of_ne h]
    · simp [hf, lookup_filter_of_ne h rest, List.lookup_cons]

theorem occupant?_put_of_ne (t : FileTree) {place other : Place} (e : Entry) (h : other ≠ place) :
    (t.put place e).occupant? other = t.occupant? other := by
  simp [occupant?, put, List.lookup_cons, beq_false_of_ne h, lookup_filter_of_ne h]

example : (holding [("o.json", "x")]).read "./o.json" = .ok "x" := by rfl
example : (holding [("o.json", "x")]).read "o.json/." = .error .notDirectory := by rfl
example : (holding []).read "../../.." = .error .isDirectory := by rfl
example : (holding [("d/o.json", "x")]).read "d/../d//o.json" = .ok "x" := by rfl

end FileTree

end TensorGraph.CommandLine
