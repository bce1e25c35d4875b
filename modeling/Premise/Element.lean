import Premise.Table
import Premise.Text.Blank

/-!
Documents as trees of elements. An element has a tag, attributes, children, text and the line of
the source it came from; all but the tag may be missing.

Trees are walked with a stack of the elements still to visit, so that neither their depth nor their
width is limited. Which child lies on top of the stack decides the order of the visits.
-/

namespace Premise

structure Element where
  tag : String
  attributes : Table String
  children : List Element
  text : Option String
  line : Option Nat

namespace Element

def leaf (tag : String) : Element := ⟨tag, ∅, [], none, none⟩

instance : Inhabited Element := ⟨leaf ""⟩

def addChild (e : Element) (child : Element) : Element :=
  { e with children := e.children ++ [child] }

def addChildren (e : Element) (more : List Element) : Element :=
  { e with children := e.children ++ more }

def setAttribute (e : Element) (name value : String) : Element :=
  { e with attributes := e.attributes.insert name value }

def attribute? (e : Element) (name : String) : Option String := e.attributes.get? name

/-- An attribute without the blanks around it. -/
def trimmed? (e : Element) (name : String) : Option String := (e.attribute? name).map Text.trim

/-- The trimmed `name` attribute, unless it is missing or blank. -/
def name? (e : Element) : Option String := (e.attribute? "name").bind Text.nonBlank?

/-- The trimmed text, unless it is missing or blank. -/
def content? (e : Element) : Option String := e.text.bind Text.nonBlank?

/-- The first attribute of those names that is there, or else the text. -/
def attributeOrContent? (e : Element) (names : List String) : Option String :=
  (names.findSome? e.attribute?).or e.content?

def flag (e : Element) (name : String) : Bool :=
  match e.attribute? name with
  | some v => v = "true" || v = "yes" || v = "1"
  | none => false

mutual

def size : Element → Nat
  | ⟨_, _, children, _, _⟩ => 1 + sizeAll children

def sizeAll : List Element → Nat
  | [] => 0
  | e :: es => size e + sizeAll es

end

mutual

/-- An element, then its children's trees from first to last. -/
def preorder : Element → List Element
  | ⟨tag, attributes, children, text, line⟩ =>
    ⟨tag, attributes, children, text, line⟩ :: preorderAll children

def preorderAll : List Element → List Element
  | [] => []
  | e :: es => preorder e ++ preorderAll es

end

theorem sizeAll_append (xs ys : List Element) : sizeAll (xs ++ ys) = sizeAll xs + sizeAll ys := by
  induction xs with
  | nil => simp [sizeAll]
  | cons x xs ih => simp [sizeAll, ih, Nat.add_assoc]

theorem sizeAll_perm {xs ys : List Element} (h : xs.Perm ys) : sizeAll xs = sizeAll ys := by
  induction h with
  | nil => rfl
  | cons x _ ih => rw [sizeAll, sizeAll, ih]
  | swap x y => exact Nat.add_left_comm ..
  | trans _ _ ih ih' => exact ih.trans ih'

/-- From which side a walk goes through the children of an element. -/
inductive Side where
  | left
  | right

/-- The children of an element as they lie on the stack of a walk, the one on top first. -/
def stacked (side : Side) (e : Element) : List Element :=
  match side with
  | .left => e.children
  | .right => e.children.reverse

theorem stacked_perm (side : Side) (e : Element) : (e.stacked side).Perm e.children := by
  cases side with
  | left => exact .refl _
  | right => exact e.children.reverse_perm

theorem sizeAll_stacked (side : Side) (e : Element) (pending : List Element) :
    sizeAll (e :: pending) = sizeAll (e.stacked side ++ pending) + 1 := by
  rw [sizeAll_append, sizeAll_perm (stacked_perm side e)]
  cases e
  simp only [sizeAll, size]
  omega

/-- Empties a stack of elements: the one on top is visited, and its children take its place. -/
def visit {β : Type} (side : Side) (f : β → Element → β) (b : β) : List Element → β
  | [] => b
  | e :: pending => visit side f (f b e) (e.stacked side ++ pending)
termination_by pending => sizeAll pending
decreasing_by
  rw [sizeAll_stacked side e pending]
  exact Nat.lt_succ_self _

/-- All elements of the tree with a tag, in document order. -/
def findAll (e : Element) (tag : String) : List Element :=
  (visit .left (fun found x => if x.tag = tag then x :: found else found) [] [e]).reverse

def count (e : Element) : Nat := visit .right (fun n _ => n + 1) 0 [e]

end Element

end Premise
