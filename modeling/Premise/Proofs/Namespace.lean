import Premise.Expr.Parse
import Premise.Proofs.FreeNames

/-!
Expressions that are read in a namespace.

A name gets into a tree by way of `Name.Reading.resolve`, and no step of parsing looks at a name
that is there: the levels of nesting come from the phrase, and the numbers of the nodes from the
shape of the tree. So what the names are read under can be left to the end (`parse_eq_map`). A text
is refused in a namespace for the reason it is refused in none, and otherwise its tree is the same
but for its names.
-/

namespace Premise

namespace Expr

variable {α : Type}

mutual

/-- The tree with other names in its references and calls. -/
def renamed (rename : String → String) : Expr α → Expr α
  | .literal m v => .literal m v
  | .reference m name => .reference m (rename name)
  | .arithmetic m op left right => .arithmetic m op (renamed rename left) (renamed rename right)
  | .comparison m op left right => .comparison m op (renamed rename left) (renamed rename right)
  | .logical m op left right => .logical m op (renamed rename left) (renamed rename right)
  | .sets m op left right => .sets m op (renamed rename left) (renamed rename right)
  | .membership m element collection =>
    .membership m (renamed rename element) (renamed rename collection)
  | .negation m operand => .negation m (renamed rename operand)
  | .complement m operand => .complement m (renamed rename operand)
  | .call m name arguments => .call m (rename name) (renamedAll rename arguments)

def renamedAll (rename : String → String) : List (Expr α) → List (Expr α)
  | [] => []
  | e :: es => renamed rename e :: renamedAll rename es

end

/-! ### What stays and what is renamed -/

variable (rename : String → String)

mutual

theorem marks_renamed (e : Expr α) : (e.renamed rename).marks = e.marks := by
  cases e with
  | literal m v | reference m name => rfl
  | arithmetic m op left right | comparison m op left right | logical m op left right
  | sets m op left right | membership m left right =>
    simp only [renamed, marks, marks_renamed left, marks_renamed right]
  | negation m operand | complement m operand =>
    simp only [renamed, marks, marks_renamed operand]
  | call m name arguments => simp only [renamed, marks, marksAll_renamed arguments]

theorem marksAll_renamed (es : List (Expr α)) : marksAll (renamedAll rename es) = marksAll es := by
  cases es with
  | nil => rfl
  | cons e es => simp only [renamedAll, marksAll, marks_renamed e, marksAll_renamed es]

end

mutual

theorem nodes_renamed (e : Expr α) : (e.renamed rename).nodes = e.nodes.map (renamed rename) := by
  cases e with
  | literal m v | reference m name => rfl
  | arithmetic m op left right | comparison m op left right | logical m op left right
  | sets m op left right | membership m left right =>
    simp only [renamed, nodes, nodes_renamed left, nodes_renamed right, List.map_cons,
      List.map_append]
  | negation m operand | complement m operand =>
    simp only [renamed, nodes, nodes_renamed operand, List.map_cons]
  | call m name arguments => simp only [renamed, nodes, nodesAll_renamed arguments, List.map_cons]

theorem nodesAll_renamed (es : List (Expr α)) :
    nodesAll (renamedAll rename es) = (nodesAll es).map (renamed rename) := by
  cases es with
  | nil => rfl
  | cons e es =>
    simp only [renamedAll, nodesAll, nodes_renamed e, nodesAll_renamed es, List.map_append]

end

theorem references_renamed (e : Expr α) :
    (e.renamed rename).references = e.references.map rename := by
  have hone : ∀ x : Expr α, (x.renamed rename).reference? = x.reference?.map rename := by
    intro x
    cases x <;> rfl
  unfold references
  rw [nodes_renamed, List.filterMap_map, List.map_filterMap]
  exact congrArg (List.filterMap · e.nodes) (funext hone)

theorem calls_renamed (e : Expr α) : (e.renamed rename).calls = e.calls.map rename := by
  have hone : ∀ x : Expr α, (x.renamed rename).called? = x.called?.map rename := by
    intro x
    cases x <;> rfl
  unfold calls
  rw [nodes_renamed, List.filterMap_map, List.map_filterMap]
  exact congrArg (List.filterMap · e.nodes) (funext hone)

mutual

/-- Numbers are given out by the shape of a tree. -/
theorem numberFrom_renamed (line : Option Nat) (next : Nat) (e : Expr α) :
    numberFrom line next (e.renamed rename) =
      ((numberFrom line next e).1.renamed rename, (numberFrom line next e).2) := by
  cases e with
  | literal m v | reference m name => rfl
  | arithmetic m op left right | comparison m op left right | logical m op left right
  | sets m op left right | membership m left right =>
    simp only [renamed, numberFrom, numberFrom_renamed line _ left, numberFrom_renamed line _ right]
  | negation m operand | complement m operand =>
    simp only [renamed, numberFrom, numberFrom_renamed line next operand]
  | call m name arguments =>
    simp only [renamed, numberFrom, numberAllFrom_renamed line next arguments]

theorem numberAllFrom_renamed (line : Option Nat) (next : Nat) (es : List (Expr α)) :
    numberAllFrom line next (renamedAll rename es) =
      (renamedAll rename (numberAllFrom line next es).1, (numberAllFrom line next es).2) := by
  cases es with
  | nil => rfl
  | cons e es =>
    simp only [renamedAll, numberAllFrom, numberFrom_renamed line next e,
      numberAllFrom_renamed line _ es]

end

theorem renamed_binary (op : BinaryOperator) (m : α) (left right : Expr α) :
    (binary m op left right).renamed rename =
      binary m op (left.renamed rename) (right.renamed rename) := by
  cases op <;> simp only [binary, renamed]

theorem renamed_unary (op : UnaryOperator) (m : α) (operand : Expr α) :
    (unary m op operand).renamed rename = unary m op (operand.renamed rename) := by
  cases op <;> simp only [unary, renamed]

/-! ### Parsing -/

variable (names : Name.Reading)

mutual

theorem ofPhrase_eq_map (d : Depth) (p : Phrase) :
    ofPhrase names d p = (ofPhrase {} d p).map (renamed names.resolve) := by
  cases p with
  | number whole fraction | text content | truth b | name name => rfl
  | call name arguments =>
    rw [ofPhrase, ofPhrase, ofArguments_eq_map d arguments]
    cases ofArguments {} d arguments <;> rfl
  | group inner =>
    rw [ofPhrase, ofPhrase]
    cases nest d with
    | error error => rfl
    | ok deeper => exact ofPhrase_eq_map deeper inner
  | signed op operand =>
    rw [ofPhrase, ofPhrase]
    cases nestOperator d with
    | error error => rfl
    | ok deeper =>
      show (ofPhrase names deeper operand >>= _) = (ofPhrase {} deeper operand >>= _).map _
      rw [ofPhrase_eq_map deeper operand]
      cases ofPhrase {} deeper operand with
      | error error => rfl
      | ok tree => exact congrArg Except.ok (renamed_unary _ op () tree).symm
  | power base exponent =>
    rw [ofPhrase, ofPhrase, ofPhrase_eq_map d base]
    cases ofPhrase {} d base with
    | error error => rfl
    | ok left =>
      cases nest d with
      | error error => rfl
      | ok deeper =>
        show (ofPhrase names deeper exponent >>= _) = (ofPhrase {} deeper exponent >>= _).map _
        rw [ofPhrase_eq_map deeper exponent]
        cases ofPhrase {} deeper exponent <;> rfl
  | chain first links =>
    rw [ofPhrase, ofPhrase, ofPhrase_eq_map d first]
    cases ofPhrase {} d first with
    | error error => rfl
    | ok left => exact ofLinks_eq_map d left links

theorem ofArguments_eq_map (d : Depth) (ps : List Phrase) :
    ofArguments names d ps = (ofArguments {} d ps).map (renamedAll names.resolve) := by
  cases ps with
  | nil => rfl
  | cons p ps =>
    rw [ofArguments, ofArguments]
    cases nest d with
    | error error => rfl
    | ok deeper =>
      show (ofPhrase names deeper p >>= _) = (ofPhrase {} deeper p >>= _).map _
      rw [ofPhrase_eq_map deeper p, ofArguments_eq_map d ps]
      cases ofPhrase {} deeper p with
      | error error => rfl
      | ok tree => cases ofArguments {} d ps <;> rfl

/-- The tree to the left of the links has its names already. -/
theorem ofLinks_eq_map (d : Depth) (left : Expr Unit) (links : List (BinaryOperator × Phrase)) :
    ofLinks names d (left.renamed names.resolve) links =
      (ofLinks {} d left links).map (renamed names.resolve) := by
  cases links with
  | nil => rfl
  | cons link links =>
    obtain ⟨op, p⟩ := link
    rw [ofLinks, ofLinks]
    cases nestOperator d with
    | error error => rfl
    | ok deeper =>
      show (ofPhrase names deeper p >>= _) = (ofPhrase {} deeper p >>= _).map _
      rw [ofPhrase_eq_map deeper p]
      cases ofPhrase {} deeper p with
      | error error => rfl
      | ok right =>
        have hlinks := ofLinks_eq_map deeper (binary () op left right) links
        rwa [renamed_binary] at hlinks

end

/-- Whatever the names of a text are read under, parsing is renaming the tree that comes of reading
them as they are written. -/
theorem parse_eq_map (limit : Nat) (line : Option Nat) (text : String) :
    parse names limit line text = (parse {} limit line text).map (renamed names.resolve) := by
  unfold parse
  generalize (expandProducts text).toList = source
  by_cases hblank : source.all Text.isBlank = true
  · simp only [hblank, if_true]
    rfl
  · by_cases hdeep : estimateNesting source > limit
    · simp only [hblank, hdeep, if_true]
      rfl
    · simp only [hblank, hdeep, if_false]
      cases Phrase.read source with
      | error rest => rfl
      | ok phrase =>
        simp only [ofPhrase_eq_map names]
        cases ofPhrase {} ⟨0, limit⟩ phrase with
        | error error => rfl
        | ok tree =>
          have hnumbered := numberFrom_renamed names.resolve line 0 tree
          exact congrArg (fun t => Except.ok t.1) hnumbered

/-- A text is refused in a namespace if it is refused in none, and for the same reason. Otherwise
its tree is the same up to its names, with the same numbers and lines: the builtins, the current
element and the parameters keep theirs, and every other reference and call has the namespace in
front. -/
theorem parse_in_namespace (ns : String) (parameters : List String) (limit : Nat)
    (line : Option Nat) (text : String) :
    let rename : String → String := fun x =>
      if x ∈ ["error", "path", "eval", "item"] ∨ x ∈ parameters then x else ns ++ "." ++ x
    parse ⟨some ns, parameters⟩ limit line text =
        (parse {} limit line text).map (renamed rename) ∧
      ∀ tree : Expr Mark, (tree.renamed rename).marks = tree.marks ∧
        (tree.renamed rename).references = tree.references.map rename ∧
        (tree.renamed rename).calls = tree.calls.map rename := by
  intro rename
  have hresolve : Name.Reading.resolve ⟨some ns, parameters⟩ = rename := by
    funext x
    refine if_congr ?_ rfl rfl
    simp only [Name.builtins, Bool.or_eq_true, List.contains_iff_mem, decide_eq_true_eq,
      List.mem_cons, List.not_mem_nil, or_false, or_assoc]
    rfl
  refine ⟨?_, fun tree => ⟨?_, ?_, ?_⟩⟩
  · rw [parse_eq_map, hresolve]
  · exact tree.marks_renamed rename
  · exact tree.references_renamed rename
  · exact tree.calls_renamed rename

end Expr

end Premise
