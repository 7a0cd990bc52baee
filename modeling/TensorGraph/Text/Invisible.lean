import TensorGraph.Text.CodeRange

/-!
# Invisible characters

Characters that have no shape: controls and formats (general categories `Cc` and `Cf`), separators
other than the common blank (`Zs`, `Zl` and `Zp`), private characters (`Co`), and what has the
Unicode property `Default_Ignorable_Code_Point`, such as the fillers of Hangul.
-/

namespace TensorGraph.Text

/-- Controls, formats, separators other than the common blank, private and ignorable characters. -/
def invisibleRanges : CodeRanges := [
  (0x0, 0x1F), (0x7F, 0xA0), (0xAD, 0xAD), (0x34F, 0x34F), (0x600, 0x605), (0x61C, 0x61C),
  (0x6DD, 0x6DD), (0x70F, 0x70F), (0x890, 0x891), (0x8E2, 0x8E2), (0x115F, 0x1160),
  (0x1680, 0x1680), (0x17B4, 0x17B5), (0x180B, 0x180F), (0x2000, 0x200F), (0x2028, 0x202F),
  (0x205F, 0x206F), (0x3000, 0x3000), (0x3164, 0x3164), (0xE000, 0xF8FF), (0xFE00, 0xFE0F),
  (0xFEFF, 0xFEFF), (0xFFA0, 0xFFA0), (0xFFF0, 0xFFFB), (0x110BD, 0x110BD), (0x110CD, 0x110CD),
  (0x13430, 0x1343F), (0x1BCA0, 0x1BCA3), (0x1D173, 0x1D17A), (0xE0000, 0xE0FFF),
  (0xF0000, 0xFFFFD), (0x100000, 0x10FFFD)]

example : invisibleRanges.ascendFrom 0 = true := by decide +kernel
example : (invisibleRanges.length, invisibleRanges.size) = (32, 141757) := by decide +kernel

end TensorGraph.Text
