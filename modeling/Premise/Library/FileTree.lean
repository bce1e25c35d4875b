import Premise.Element.Json
import Premise.Library
import Premise.Library.Path

/-!
Libraries of documents that lie in files. A document is known by the path from the root to its file.
-/

namespace Premise

/-- A place in a file tree: the names on the way from the root. -/
abbrev Place := List String

/-- Files with their contents, and the directory that relative paths start from. Directories are
there where files lie in them or the working directory does. -/
structure FileTree where
  directory : Place
  files : List (Place × String)

namespace FileTree

def content? (t : FileTree) (p : Place) : Option String := t.files.lookup p

def isDirectory (t : FileTree) (p : Place) : Bool :=
  p.isPrefixOf t.directory ||
    t.files.any fun f => p.isPrefixOf f.1 && decide (p.length < f.1.length)

def has (t : FileTree) (p : Place) : Bool := t.isDirectory p || (t.content? p).isSome

/-- Follows names from a place. Every name is looked up in a directory. -/
def follow (t : FileTree) (p : Place) : List String → Option Place
  | [] => some p
  | name :: rest =>
    if !t.isDirectory p then none
    else if Path.isIdle name then follow t p rest
    else if name = ".." then follow t p.dropLast rest
    else follow t (p ++ [name]) rest

/-- The place that a path leads to, if there is anything. -/
def locate? (t : FileTree) (path : String) : Option Place :=
  if path.isEmpty then none
  else
    let start := if Path.isAbsolute path then [] else t.directory
    match t.follow start (Path.names path) with
    | some p => if t.has p then some p else none
    | none => none

def written (p : Place) : String := "/" ++ Path.slashed p

/-- The identity of the document at a path; one that is not there goes by the path itself. -/
def identify (t : FileTree) (path : String) : String :=
  match t.locate? path with
  | some p => written p
  | none => path

def load (t : FileTree) (path : String) : Except LoadError Loaded :=
  match t.locate? path with
  | none => .error (.notFound path)
  | some p =>
    match t.content? p with
    | none => .error (.unreadable path "is a directory")
    | some text =>
      match Element.read? text with
      | some root => .ok ⟨written p, root⟩
      | none => .error (.malformed path "not a document tree")

end FileTree

/-- The documents in the files of a tree. Relative references start from the importing document, or
else from the base directory. -/
def Library.ofFiles (t : FileTree) (base : Option String) : Library where
  load reference importer := t.load (Path.resolve base reference importer)
  identify reference := t.identify (Path.resolve base reference none)

end Premise
