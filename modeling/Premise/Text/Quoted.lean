import Premise.Text.Width

/-!
Text in quotes for summaries: what cannot be seen is written as its code point in hexadecimal.
-/

namespace Premise.Text

/-- Whether a character leaves no mark of its own: control characters, blanks other than the space,
what has no width, and code points for private use. -/
def isUnseen (c : Char) : Bool :=
  c.toNat < 0x20 || (0x7F ≤ c.toNat && c.toNat < 0xA0) || (isBlank c && c != ' ') ||
    inRanges zeroWidthRanges c.toNat || (0xE000 ≤ c.toNat && c.toNat < 0xF900)

def quotedChar (c : Char) : String :=
  if c = '"' then "\\\""
  else if c = '\\' then "\\\\"
  else if c = '\n' then "\\n"
  else if c = '\r' then "\\r"
  else if c = '\t' then "\\t"
  else if c.toNat = 0 then "\\0"
  else if isUnseen c then "\\u\x7b" ++ String.ofList (Nat.toDigits 16 c.toNat) ++ "\x7d"
  else c.toString

def quoted (s : String) : String := "\"" ++ String.join (s.toList.map quotedChar) ++ "\""

end Premise.Text
