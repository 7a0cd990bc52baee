import TensorGraph.Json.Basic
import TensorGraph.Number.Shortest

/-!
# Writing JSON

`Json.compact` writes a value without blanks, `Json.pretty` with one line for each item and an
indentation of two blanks. A real number is written with the fewest digits that read back:
positionally and with at least one decimal from `10 ^ -5` up to `10 ^ 16`, otherwise with a signed
exponent. What is no finite number is written as null.
-/

namespace TensorGraph

/-- A finite number as JSON text. -/
def Binary64.text (x : Binary64) : String :=
  let sign := if x.negative then "-" else ""
  if x.isZero then sign ++ "0.0"
  else
    let (q, e) := x.shortest
    let digits := Nat.toDigits 10 q
    -- The number of digits before the point.
    let point : Int := digits.length + e
    let zeros (n : Nat) : List Char := List.replicate n '0'
    let body : List Char :=
      if -5 < point ∧ point ≤ 16 then
        if 0 ≤ e then digits ++ zeros e.toNat ++ ['.', '0']
        else if 0 < point then digits.take point.toNat ++ ['.'] ++ digits.drop point.toNat
        else ['0', '.'] ++ zeros (-point).toNat ++ digits
      else
        let mark := if point ≤ 0 then ['e', '-'] else ['e', '+']
        let tail := digits.drop 1
        digits.take 1 ++ (if tail.isEmpty then [] else '.' :: tail) ++ mark ++
          Nat.toDigits 10 (point - 1).natAbs
    sign ++ String.ofList body

namespace Json

/-- A character inside quotes. -/
def quotedChar (c : Char) : List Char :=
  if c == '"' then ['\\', '"']
  else if c == '\\' then ['\\', '\\']
  else if c == '\n' then ['\\', 'n']
  else if c == '\r' then ['\\', 'r']
  else if c == '\t' then ['\\', 't']
  else if c == '\x08' then ['\\', 'b']
  else if c == '\x0c' then ['\\', 'f']
  else if c.toNat < 0x20 then
    ['\\', 'u', '0', '0'] ++ (if c.toNat < 0x10 then ['0'] else []) ++ Nat.toDigits 16 c.toNat
  else [c]

/-- A text in quotes. -/
def quoted (s : String) : String :=
  "\"" ++ String.ofList (s.toList.flatMap quotedChar) ++ "\""

/-- The text of a value that holds no other. -/
def scalarText : Json → String
  | .null => "null"
  | .bool b => if b then "true" else "false"
  | .int n => toString n
  | .real x => if x.isNaN || x.isInfinite then "null" else x.text
  | .str s => quoted s
  | .arr _ => "[]"
  | .obj _ => "\x7b\x7d"

mutual
/-- Write a value behind `acc`. -/
def write (acc : String) : Json → String
  | .arr [] => acc ++ "[]"
  | .arr (item :: items) => writeItems (write (acc ++ "[") item) items ++ "]"
  | .obj [] => acc ++ "\x7b\x7d"
  | .obj ((key, value) :: fields) =>
    writeFields (write (acc ++ "\x7b" ++ quoted key ++ ":") value) fields ++ "\x7d"
  | scalar => acc ++ scalarText scalar

/-- Write the items of an array, each after a comma. -/
def writeItems (acc : String) : List Json → String
  | [] => acc
  | item :: items => writeItems (write (acc ++ ",") item) items

/-- Write the fields of an object, each after a comma. -/
def writeFields (acc : String) : List (String × Json) → String
  | [] => acc
  | (key, value) :: fields => writeFields (write (acc ++ "," ++ quoted key ++ ":") value) fields
end

/-- A value without blanks. -/
def compact (value : Json) : String :=
  write "" value

/-- A line break and the indentation of a level. -/
def lineBreak (level : Nat) : String :=
  "\n" ++ String.ofList (List.replicate (2 * level) ' ')

mutual
/-- Write a value behind `acc` over several lines, at an indentation level. -/
def writeLines (acc : String) (level : Nat) : Json → String
  | .arr [] => acc ++ "[]"
  | .arr (item :: items) =>
    let first := writeLines (acc ++ "[" ++ lineBreak (level + 1)) (level + 1) item
    writeItemLines first (level + 1) items ++ lineBreak level ++ "]"
  | .obj [] => acc ++ "\x7b\x7d"
  | .obj ((key, value) :: fields) =>
    let first :=
      writeLines (acc ++ "\x7b" ++ lineBreak (level + 1) ++ quoted key ++ ": ") (level + 1) value
    writeFieldLines first (level + 1) fields ++ lineBreak level ++ "\x7d"
  | scalar => acc ++ scalarText scalar

/-- Write the items of an array, each on a line after a comma. -/
def writeItemLines (acc : String) (level : Nat) : List Json → String
  | [] => acc
  | item :: items =>
    writeItemLines (writeLines (acc ++ "," ++ lineBreak level) level item) level items

/-- Write the fields of an object, each on a line after a comma. -/
def writeFieldLines (acc : String) (level : Nat) : List (String × Json) → String
  | [] => acc
  | (key, value) :: fields =>
    writeFieldLines (writeLines (acc ++ "," ++ lineBreak level ++ quoted key ++ ": ") level value)
      level fields
end

/-- A value over several lines, indented by two blanks for each level. -/
def pretty (value : Json) : String :=
  writeLines "" 0 value

end Json

end TensorGraph
