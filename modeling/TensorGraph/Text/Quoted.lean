import TensorGraph.Text.Invisible
import TensorGraph.Text.Mark
import TensorGraph.Text.Unassigned

/-!
# Names in quotes

Lists of names are logged in square brackets, each name in double quotes. Quotes, backslashes and
line breaks are escaped, and a character that cannot be seen by itself is written by its number:
marks, invisible characters and unassigned code points.
-/

namespace TensorGraph.Text

/-- Is the character written by its number? -/
def isHidden (c : Char) : Bool :=
  markRanges.holds c.toNat || invisibleRanges.holds c.toNat || unassignedRanges.holds c.toNat

/-- The characters from the common blank to the tilde are seen. -/
theorem isHidden_eq_false_of_ascii {c : Char} (h : 0x20 ≤ c.toNat) (h' : c.toNat < 0x7F) :
    isHidden c = false := by
  have seen : ∀ n < 0x7F, 0x20 ≤ n →
      (markRanges.holds n || invisibleRanges.holds n || unassignedRanges.holds n) = false := by
        decide +kernel
  exact seen c.toNat h' h

/-- The characters below the common blank are hidden. -/
theorem isHidden_of_control {c : Char} (h : c.toNat < 0x20) : isHidden c = true := by
  have hidden : ∀ n < 0x20, invisibleRanges.holds n = true := by decide +kernel
  simp [isHidden, hidden c.toNat h]

/-- A character inside quotes. -/
def escapedChar (c : Char) : List Char :=
  if c == '"' then ['\\', '"']
  else if c == '\\' then ['\\', '\\']
  else if c == '\n' then ['\\', 'n']
  else if c == '\r' then ['\\', 'r']
  else if c == '\t' then ['\\', 't']
  else if c.toNat == 0 then ['\\', '0']
  else if isHidden c then ['\\', 'u', '\x7b'] ++ Nat.toDigits 16 c.toNat ++ ['\x7d']
  else [c]

/-- A name in quotes. -/
def quoted (s : String) : String :=
  "\"" ++ String.ofList (s.toList.flatMap escapedChar) ++ "\""

/-- A list of names in quotes. -/
def quotedList (items : List String) : String :=
  "[" ++ ", ".intercalate (items.map quoted) ++ "]"

example : quoted "a\tb" = "\"a\\tb\"" := by decide +kernel

end TensorGraph.Text
