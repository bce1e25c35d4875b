/-!
JSON values as they are written: numbers keep their text, objects keep all their members in the
order of the text.
-/

namespace Premise

inductive Json where
  | null
  | boolean (b : Bool)
  | number (written : String)
  | text (s : String)
  /-- a text with half a surrogate pair in it, which is well formed but stands for no characters -/
  | halfText
  | array (items : List Json)
  | object (members : List (String × Json))
  deriving Inhabited

namespace Json

def natural (n : Nat) : Json := .number (toString n)

/-- The members that are there, in order. -/
def objectOf (members : List (String × Option Json)) : Json :=
  .object (members.filterMap fun m => m.2.map (m.1, ·))

end Json

end Premise
