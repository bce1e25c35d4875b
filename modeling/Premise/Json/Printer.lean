import Premise.Json
import Premise.Text.Blank

/-!
JSON text: compact, or with one item a line and two spaces of indentation a level.
-/

namespace Premise.Json

/-- The letter that stands for a character behind a backslash. -/
def escapeLetter? (c : Char) : Option Char :=
  if c = '"' then some '"'
  else if c = '\\' then some '\\'
  else if c = '\n' then some 'n'
  else if c = '\r' then some 'r'
  else if c = '\t' then some 't'
  else if c.toNat = 8 then some 'b'
  else if c.toNat = 12 then some 'f'
  else none

def hexDigit (n : Nat) : Char :=
  if n < 10 then Char.ofNat ('0'.toNat + n) else Char.ofNat ('a'.toNat + (n - 10))

/-- A character inside quotes; control characters are always escaped. -/
def escapeChar (c : Char) : List Char :=
  match escapeLetter? c with
  | some l => ['\\', l]
  | none =>
    if c.toNat < 0x20 then ['\\', 'u', '0', '0', hexDigit (c.toNat / 16), hexDigit (c.toNat % 16)]
    else [c]

def quoted (s : String) : String :=
  String.ofList ('"' :: (s.toList.flatMap escapeChar ++ ['"']))

mutual

def compact : Json → String
  | .null => "null"
  | .boolean b => if b then "true" else "false"
  | .number written => written
  | .text s => quoted s
  | .halfText => quoted ""
  | .array items => "[" ++ Text.joined "," (compactItems items) ++ "]"
  | .object members => "\x7b" ++ Text.joined "," (compactMembers members) ++ "\x7d"

def compactItems : List Json → List String
  | [] => []
  | v :: vs => compact v :: compactItems vs

def compactMembers : List (String × Json) → List String
  | [] => []
  | (name, v) :: rest => (quoted name ++ ":" ++ compact v) :: compactMembers rest

end

def indentation (level : Nat) : String := String.ofList (List.replicate (2 * level) ' ')

/-- Lines between an opening and a closing bracket; nothing comes between them when there are none. -/
def bracketed (opening closing : String) (level : Nat) (lines : List String) : String :=
  if lines.isEmpty then opening ++ closing
  else
    opening ++ "\n" ++
      Text.joined ",\n" (lines.map fun l => indentation (level + 1) ++ l) ++
      "\n" ++ indentation level ++ closing

mutual

def indented (level : Nat) : Json → String
  | .array items => bracketed "[" "]" level (indentedItems (level + 1) items)
  | .object members => bracketed "\x7b" "\x7d" level (indentedMembers (level + 1) members)
  | v => compact v

def indentedItems (level : Nat) : List Json → List String
  | [] => []
  | v :: vs => indented level v :: indentedItems level vs

def indentedMembers (level : Nat) : List (String × Json) → List String
  | [] => []
  | (name, v) :: rest => (quoted name ++ ": " ++ indented level v) :: indentedMembers level rest

end

def pretty (v : Json) : String := indented 0 v

end Premise.Json
