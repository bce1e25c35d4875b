/-!
Paths as they are written: names between slashes. A path that starts with a slash starts at the
root; any other starts where it is read.
-/

namespace Premise.Path

def isAbsolute (path : String) : Bool := path.toList.head? = some '/'

/-- The names between the slashes; empty ones stand for slashes that say nothing. -/
def names (path : String) : List String := path.splitToList (· == '/')

/-- The path inside a directory. -/
def join (directory path : String) : String :=
  if isAbsolute path || directory.isEmpty then path
  else if directory.toList.getLast? = some '/' then directory ++ path
  else directory ++ "/" ++ path

/-- Whether a name leads nowhere else: an empty one and a single point. -/
def isIdle (name : String) : Bool := name.isEmpty || name = "."

/-- A path without the idle names at its end, as reversed names. -/
def trimEnd (reversed : List String) : List String := reversed.dropWhile isIdle

def slashed : List String → String
  | [] => ""
  | [name] => name
  | name :: rest => name ++ "/" ++ slashed rest

/-- The directory that a path without any other names starts from. -/
def origin (path : String) : String :=
  if isAbsolute path then "/" else if (names path).head? = some "." then "." else ""

/-- The path without its last name. The root and the empty path have none. -/
def parent? (path : String) : Option String :=
  match trimEnd (names path).reverse with
  | [] => none
  | _ :: rest =>
    match trimEnd rest with
    | [] => some (origin path)
    | kept => some (slashed kept.reverse)

/-- The path that a reference means: inside the directory of the document that refers to it, or
else inside the base directory. -/
def resolve (base : Option String) (reference : String) (importer : Option String) : String :=
  if isAbsolute reference then reference
  else
    match (importer.bind parent?).or base with
    | some directory => join directory reference
    | none => reference

end Premise.Path
