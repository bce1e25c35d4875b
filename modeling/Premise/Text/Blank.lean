/-!
White space, and the pieces of a text that it or a separator sets apart.

A character is blank when it has the Unicode property White_Space (25 code points). Attribute
values, expression texts and names are trimmed of blanks, and lists written in an attribute are
split at their commas.
-/

namespace Premise.Text

/-- Closed ranges of the code points with the property White_Space. -/
def blankRanges : List (Nat × Nat) :=
  [(0x09, 0x0D), (0x20, 0x20), (0x85, 0x85), (0xA0, 0xA0), (0x1680, 0x1680), (0x2000, 0x200A),
   (0x2028, 0x2029), (0x202F, 0x202F), (0x205F, 0x205F), (0x3000, 0x3000)]

/-- Whether a code point lies in one of the closed ranges. -/
def inRanges (ranges : List (Nat × Nat)) (n : Nat) : Bool :=
  ranges.any fun r => r.1 ≤ n && n ≤ r.2

def isBlank (c : Char) : Bool := inRanges blankRanges c.toNat

theorem isBlank_of_isWhitespace (c : Char) (h : c.isWhitespace = true) : isBlank c = true := by
  simp [Char.isWhitespace] at h
  rcases h with ((h | h) | h) | h <;> subst h <;> decide

theorem isBlank_zeroWidthSpace : isBlank '\u200b' = false := by decide

def trimChars (cs : List Char) : List Char :=
  ((cs.dropWhile isBlank).reverse.dropWhile isBlank).reverse

def trim (s : String) : String := String.ofList (trimChars s.toList)

def isAllBlank (s : String) : Bool := s.toList.all isBlank

/-- Trimmed text, unless nothing but blanks is there. -/
def nonBlank? (s : String) : Option String :=
  if isAllBlank s then none else some (trim s)

/-- The first run of characters that are not blank. -/
def firstWord (cs : List Char) : List Char :=
  (cs.dropWhile isBlank).takeWhile fun c => !isBlank c

/-- The pieces between the characters that satisfy `sep`; there is always at least one. -/
def pieces (sep : Char → Bool) : List Char → List (List Char)
  | [] => [[]]
  | c :: cs =>
    if sep c then [] :: pieces sep cs
    else
      match pieces sep cs with
      | [] => [[c]]
      | p :: ps => (c :: p) :: ps

/-- The pieces between arrows `->`, read from the left. -/
def arrowPieces : List Char → List (List Char)
  | [] => [[]]
  | '-' :: '>' :: cs => [] :: arrowPieces cs
  | c :: cs =>
    match arrowPieces cs with
    | [] => [[c]]
    | p :: ps => (c :: p) :: ps

/-- The text before and after the first occurrence of `sep`. -/
def splitAtFirst (sep : Char) : List Char → Option (List Char × List Char)
  | [] => none
  | c :: cs => if c = sep then some ([], cs) else (splitAtFirst sep cs).map fun p => (c :: p.1, p.2)

/-- The entries of a list written in an attribute: separated by commas, trimmed, empty ones
dropped. -/
def entries (s : String) : List String :=
  ((pieces (· == ',') s.toList).map trimChars).filter (fun p => !p.isEmpty) |>.map String.ofList

/-- Reads `key = value`: trimmed key and value around the first `=`, none without a key. -/
def keyed? (entry : String) : Option (String × String) :=
  match splitAtFirst '=' entry.toList with
  | none => none
  | some (key, value) =>
    if (trimChars key).isEmpty then none
    else some (String.ofList (trimChars key), String.ofList (trimChars value))

/-- Sets a separator between texts. -/
def joined (sep : String) : List String → String
  | [] => ""
  | [s] => s
  | s :: t :: rest => s ++ sep ++ joined sep (t :: rest)

end Premise.Text
