import Premise.Element
import Premise.Import.Error

/-!
Libraries: where imported documents come from.
-/

namespace Premise

/-- A document with the identity that tells it from all others. -/
structure Loaded where
  id : String
  root : Element

structure Library where
  /-- the document that a reference means, inside the document that refers to it -/
  load : String → Option String → Except LoadError Loaded
  /-- the identity of a document that is not imported -/
  identify : String → String := id

namespace Library

/-- Documents known by their names, wherever they are referred to. -/
def ofDocuments (documents : Table Element) : Library where
  load reference _ :=
    match documents.get? reference with
    | some root => .ok ⟨reference, root⟩
    | none => .error (.notFound reference)

/-- What asking for a reference from a document came to. -/
structure Answer where
  reference : String
  importer : Option String
  loaded : Except LoadError Loaded

/-- Answers that were had beforehand. -/
def ofAnswers (answers : List Answer) (identify : String → String) : Library where
  load reference importer :=
    match answers.find? fun a => a.reference = reference && a.importer = importer with
    | some a => a.loaded
    | none => .error (.notFound reference)
  identify := identify

end Library

end Premise
