import Premise.Proofs.FreeNames
import Premise.Proofs.Tiers

/-!
The numbers of the nodes of a parsed expression.

A tree can be built from a phrase and numbered at once: every node takes the next number from a
counter as soon as its operands are there (`draw`). Prefixed operators are taken from the last to
the first then, chains from the left, and the arguments of a call before the call. What comes of it
is the tree that is built first and numbered afterwards (`draw_eq`). Since numbers are drawn after
those of the operands, the nodes of a tree have consecutive numbers in postorder
(`marks_numberFrom`).
-/

namespace Premise

/-- Consecutive marks of one line. -/
def Mark.run (line : Option Nat) (next count : Nat) : List Mark :=
  (List.range' next count).map fun id => ⟨id, line⟩

theorem Mark.run_append (line : Option Nat) (next m n : Nat) :
    run line next m ++ run line (next + m) n = run line next (m + n) := by
  unfold run
  rw [← List.map_append, ← List.range'_append, Nat.one_mul]

theorem Mark.run_one (line : Option Nat) (next : Nat) : run line next 1 = [⟨next, line⟩] := rfl

@[simp] theorem Mark.length_run (line : Option Nat) (next count : Nat) :
    (run line next count).length = count := by
  rw [run, List.length_map, List.length_range']

namespace Expr

/-! ### Building with a counter -/

mutual

/-- Builds the tree of a phrase and numbers its nodes from `next` on, and says which number is the
next then. -/
def draw (names : Name.Reading) (line : Option Nat) (d : Depth) (next : Nat) :
    Phrase → Except ParseError (Expr Mark × Nat)
  | .number whole fraction =>
    .ok (.literal ⟨next, line⟩ (.number (Number.Written.value ⟨whole, fraction, 0⟩)), next + 1)
  | .text content => .ok (.literal ⟨next, line⟩ (.text content), next + 1)
  | .truth b => .ok (.literal ⟨next, line⟩ (.boolean b), next + 1)
  | .name name => .ok (.reference ⟨next, line⟩ (names.resolve name), next + 1)
  | .call name arguments => do
    let (arguments, next) ← drawArguments names line d next arguments
    .ok (.call ⟨next, line⟩ (names.resolve name) arguments, next + 1)
  | .group inner => do
    let deeper ← nest d
    draw names line deeper next inner
  | .signed op operand => do
    let deeper ← nestOperator d
    let (operand, next) ← draw names line deeper next operand
    .ok (unary ⟨next, line⟩ op operand, next + 1)
  | .power base exponent => do
    let (base, next) ← draw names line d next base
    let deeper ← nest d
    let (exponent, next) ← draw names line deeper next exponent
    .ok (.arithmetic ⟨next, line⟩ .power base exponent, next + 1)
  | .chain first rest => do
    let (left, next) ← draw names line d next first
    drawLinks names line d next left rest

def drawArguments (names : Name.Reading) (line : Option Nat) (d : Depth) (next : Nat) :
    List Phrase → Except ParseError (List (Expr Mark) × Nat)
  | [] => .ok ([], next)
  | phrase :: phrases => do
    let deeper ← nest d
    let (argument, next) ← draw names line deeper next phrase
    let (arguments, next) ← drawArguments names line d next phrases
    .ok (argument :: arguments, next)

def drawLinks (names : Name.Reading) (line : Option Nat) (d : Depth) (next : Nat)
    (left : Expr Mark) : List (BinaryOperator × Phrase) → Except ParseError (Expr Mark × Nat)
  | [] => .ok (left, next)
  | (op, phrase) :: rest => do
    let deeper ← nestOperator d
    let (right, next) ← draw names line deeper next phrase
    drawLinks names line deeper (next + 1) (binary ⟨next, line⟩ op left right) rest

end

section

variable {α : Type} (line : Option Nat) (next : Nat)

theorem numberFrom_unary (op : UnaryOperator) (m : α) (operand : Expr α) :
    numberFrom line next (unary m op operand) =
      let e := numberFrom line next operand
      (unary ⟨e.2, line⟩ op e.1, e.2 + 1) := by
  cases op <;> rfl

theorem numberFrom_binary (op : BinaryOperator) (m : α) (left right : Expr α) :
    numberFrom line next (binary m op left right) =
      let l := numberFrom line next left
      let r := numberFrom line l.2 right
      (binary ⟨r.2, line⟩ op l.1 r.1, r.2 + 1) := by
  cases op <;> rfl

variable (names : Name.Reading)

mutual

/-- Numbering the nodes as they are built comes to the same as numbering those of the whole tree. -/
theorem draw_eq (d : Depth) (next : Nat) (p : Phrase) :
    draw names line d next p = (ofPhrase names d p).map (numberFrom line next) := by
  cases p with
  | number whole fraction | text content | truth b | name name => rfl
  | call name arguments =>
    rw [draw, ofPhrase, drawArguments_eq d next arguments]
    cases ofArguments names d arguments <;> rfl
  | group inner =>
    rw [draw, ofPhrase]
    cases nest d with
    | error e => rfl
    | ok deeper => exact draw_eq deeper next inner
  | signed op operand =>
    rw [draw, ofPhrase]
    cases nestOperator d with
    | error e => rfl
    | ok deeper =>
      simp only [bind, Except.bind, draw_eq deeper next operand]
      cases ofPhrase names deeper operand with
      | error e => rfl
      | ok tree => exact congrArg Except.ok (numberFrom_unary line next op () tree).symm
  | power base exponent =>
    rw [draw, ofPhrase, draw_eq d next base]
    cases ofPhrase names d base with
    | error e => rfl
    | ok left =>
      cases nest d with
      | error e => rfl
      | ok deeper =>
        simp only [bind, Except.bind, Except.map, draw_eq deeper _ exponent]
        cases ofPhrase names deeper exponent <;> rfl
  | chain first rest =>
    rw [draw, ofPhrase, draw_eq d next first]
    cases ofPhrase names d first with
    | error e => rfl
    | ok left => exact drawLinks_eq d next left rest

theorem drawArguments_eq (d : Depth) (next : Nat) (ps : List Phrase) :
    drawArguments names line d next ps =
      (ofArguments names d ps).map (numberAllFrom line next) := by
  cases ps with
  | nil => rfl
  | cons p ps =>
    rw [drawArguments, ofArguments]
    cases nest d with
    | error e => rfl
    | ok deeper =>
      simp only [bind, Except.bind, draw_eq deeper next p]
      cases ofPhrase names deeper p with
      | error e => rfl
      | ok argument =>
        simp only [Except.map, drawArguments_eq d _ ps]
        cases ofArguments names d ps <;> rfl

/-- What stands to the left has its numbers already. -/
theorem drawLinks_eq (d : Depth) (next : Nat) (left : Expr Unit)
    (links : List (BinaryOperator × Phrase)) :
    drawLinks names line d (numberFrom line next left).2 (numberFrom line next left).1 links =
      (ofLinks names d left links).map (numberFrom line next) := by
  cases links with
  | nil => rfl
  | cons link links =>
    obtain ⟨op, p⟩ := link
    rw [drawLinks, ofLinks]
    cases nestOperator d with
    | error e => rfl
    | ok deeper =>
      simp only [bind, Except.bind, draw_eq deeper _ p]
      cases ofPhrase names deeper p with
      | error e => rfl
      | ok right =>
        have hrest := drawLinks_eq deeper next (binary () op left right) links
        rw [numberFrom_binary] at hrest
        exact hrest

end

end

/-! ### Consecutive numbers -/

section

variable {α : Type} (line : Option Nat)

mutual

/-- The marks of a numbered tree in postorder, and the number that is the next after it. -/
theorem marks_numberFrom (next : Nat) (e : Expr α) :
    (numberFrom line next e).1.marks = Mark.run line next e.marks.length ∧
      (numberFrom line next e).2 = next + e.marks.length := by
  cases e with
  | literal m v | reference m name => exact ⟨rfl, rfl⟩
  | arithmetic m op left right | comparison m op left right | logical m op left right
  | sets m op left right | membership m left right =>
    obtain ⟨hleft, hnext⟩ := marks_numberFrom next left
    obtain ⟨hright, hlast⟩ := marks_numberFrom (next + left.marks.length) right
    simp only [numberFrom, marks, List.length_append, List.length_singleton, hnext, hleft, hright,
      hlast, ← Mark.run_one, Mark.run_append, Nat.add_assoc, and_self]
  | negation m operand | complement m operand =>
    obtain ⟨hoperand, hnext⟩ := marks_numberFrom next operand
    simp only [numberFrom, marks, List.length_append, List.length_singleton, hnext, hoperand,
      ← Mark.run_one, Mark.run_append, Nat.add_assoc, and_self]
  | call m name arguments =>
    obtain ⟨harguments, hnext⟩ := marksAll_numberAllFrom next arguments
    simp only [numberFrom, marks, List.length_append, List.length_singleton, hnext, harguments,
      ← Mark.run_one, Mark.run_append, Nat.add_assoc, and_self]

theorem marksAll_numberAllFrom (next : Nat) (es : List (Expr α)) :
    marksAll (numberAllFrom line next es).1 = Mark.run line next (marksAll es).length ∧
      (numberAllFrom line next es).2 = next + (marksAll es).length := by
  cases es with
  | nil => exact ⟨rfl, rfl⟩
  | cons e es =>
    obtain ⟨hhead, hnext⟩ := marks_numberFrom next e
    obtain ⟨htail, hlast⟩ := marksAll_numberAllFrom (next + e.marks.length) es
    simp only [numberAllFrom, marksAll, List.length_append, hnext, hhead, htail, hlast,
      Mark.run_append, Nat.add_assoc, and_self]

end

mutual

/-- Every node has its place in the postorder. -/
theorem marks_perm (e : Expr α) : e.marks.Perm (e.nodes.map mark) := by
  cases e with
  | literal m v | reference m name => exact .refl _
  | arithmetic m op left right | comparison m op left right | logical m op left right
  | sets m op left right | membership m left right =>
    rw [marks, nodes, List.map_cons, List.map_append]
    have hoperands := (marks_perm left).append (marks_perm right)
    exact (List.perm_append_singleton _ _).trans (hoperands.cons _)
  | negation m operand | complement m operand =>
    rw [marks, nodes, List.map_cons]
    exact (List.perm_append_singleton _ _).trans ((marks_perm operand).cons _)
  | call m name arguments =>
    rw [marks, nodes, List.map_cons]
    exact (List.perm_append_singleton _ _).trans ((marksAll_perm arguments).cons _)

theorem marksAll_perm (es : List (Expr α)) : (marksAll es).Perm ((nodesAll es).map mark) := by
  cases es with
  | nil => exact .refl _
  | cons e es =>
    rw [marksAll, nodesAll, List.map_append]
    exact (marks_perm e).append (marksAll_perm es)

end

theorem length_marks (e : Expr α) : e.marks.length = e.nodes.length := by
  rw [(marks_perm e).length_eq, List.length_map]

end

/-- The nodes of a parsed text in postorder are numbered from 0 on without gaps, so that no two have
the same number, and all of them are on the line of the text. They have drawn their numbers while
the tree was built. -/
theorem parse_numbers_nodes {names : Name.Reading} {limit : Nat} {line : Option Nat} {text : String}
    {tree : Expr Mark} (h : parse names limit line text = .ok tree) :
    tree.marks = (List.range tree.nodes.length).map (fun id => ⟨id, line⟩) ∧
      (tree.nodes.map fun e => e.mark.id).Nodup ∧ (∀ e ∈ tree.nodes, e.mark.line = line) ∧
      ∃ phrase, Phrase.read (expandProducts text).toList = .ok phrase ∧
        draw names line { limit } 0 phrase = .ok (tree, tree.nodes.length) := by
  obtain ⟨phrase, built, hread, -, hbuilt, rfl⟩ := parse_eq_ok.mp h
  obtain ⟨hmarks, hnext⟩ := marks_numberFrom line 0 built
  have hcount : built.marks.length = (built.numbered line).nodes.length := by
    rw [← length_marks, numbered, hmarks, Mark.length_run]
  rw [hcount, Nat.zero_add] at hnext
  have hrun : (built.numbered line).marks =
      (List.range (built.numbered line).nodes.length).map fun id => ⟨id, line⟩ := by
    rw [List.range_eq_range', ← hcount]
    exact hmarks
  have hperm := marks_perm (built.numbered line)
  rw [hrun] at hperm
  refine ⟨hrun, ?_, fun e he => ?_, phrase, hread, ?_⟩
  · have hids := hperm.map Mark.id
    rw [List.map_map, List.map_map] at hids
    refine hids.nodup_iff.mp ?_
    rw [show Mark.id ∘ (fun id => ⟨id, line⟩) = id from rfl, List.map_id]
    exact List.nodup_range
  · obtain ⟨id, -, heq⟩ := List.mem_map.mp (hperm.mem_iff.mpr (List.mem_map_of_mem he))
    rw [← heq]
  · rw [draw_eq, hbuilt, ← hnext]
    rfl

/-- A product without its sign, prefixed operators, a power, a chain and a call. -/
theorem parse_numbers_nodes_call :
    let text := "!-2x ^ 3 + f(a, (b)) - 1"
    ∃ tree, parse { scope := some "unit" } 8 (some 5) text = .ok tree ∧
      tree.marks = (List.range 13).map (fun id => ⟨id, some 5⟩) ∧
      (tree.nodes.map fun e => e.mark.id).Nodup ∧
      tree.nodes.map (fun e => e.mark.id) = [12, 10, 6, 2, 1, 0, 5, 3, 4, 9, 7, 8, 11] := by
  intro text
  let product : Phrase := .chain (.signed .not (.signed .negative (.number ['2'] [])))
    [(.arithmetic .multiply, .power (.name "x") (.number ['3'] []))]
  let phrase : Phrase := .chain product
    [(.arithmetic .add, .call "f" [.name "a", .group (.name "b")]),
      (.arithmetic .subtract, .number ['1'] [])]
  have hread : Phrase.read (expandProducts "!-2x ^ 3 + f(a, (b)) - 1").toList = .ok phrase := rfl
  obtain ⟨built, hbuilt, hids⟩ : ∃ built,
      ofPhrase { scope := some "unit" } { limit := 8 } phrase = .ok built ∧
      (built.numbered (some 5)).nodes.map (fun e => e.mark.id) =
        [12, 10, 6, 2, 1, 0, 5, 3, 4, 9, 7, 8, 11] := ⟨_, rfl, rfl⟩
  have htree : parse { scope := some "unit" } 8 (some 5) text = .ok (built.numbered (some 5)) :=
    parse_eq_ok.mpr ⟨phrase, built, hread, by decide, hbuilt, rfl⟩
  obtain ⟨hmarks, hnodup, -, -⟩ := parse_numbers_nodes htree
  have hcount : (built.numbered (some 5)).nodes.length = 13 := by
    simpa using congrArg List.length hids
  rw [hcount] at hmarks
  exact ⟨_, htree, hmarks, hnodup, hids⟩

end Expr

end Premise
