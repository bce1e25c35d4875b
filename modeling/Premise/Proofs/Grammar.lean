import Premise.Proofs.Readers

/-!
The grammar of the expression language, and what it makes of a text.

The patterns are those of a parsing expression grammar: of two alternatives the second is tried only
where the first fails, a repetition takes as much as it can, and neither is ever taken back. So a
pattern comes to one outcome on a text at most (`Matches.unique`), and a text has one parse tree or
none.

A parse tree has a node for each nonterminal that was matched, with the nodes below it in their
order and without regard to what they stand for: operands, operators and signs are siblings. Spaces
may stand between the parts of a nonterminal unless it is a token, which has neither spaces nor
nodes inside.
-/

namespace Premise

/-- The operators of a level, in the order in which they are tried. -/
def Precedence.operators : Precedence → List BinaryOperator
  | .logical => [.logical .iff, .logical .and, .logical .or, .logical .implies]
  | .comparison =>
    [.comparison .equal, .comparison .notEqual, .comparison .greaterOrEqual,
      .comparison .lessOrEqual, .comparison .greater, .comparison .less, .membership]
  | .additive =>
    [.arithmetic .add, .arithmetic .subtract, .sets .union, .sets .intersect, .sets .diff]
  | .multiplicative => [.arithmetic .multiply, .arithmetic .divide, .arithmetic .modulo]

namespace Grammar

inductive Nonterminal where
  /-- the whole text -/
  | input
  /-- operands with operators of a level between them; the loosest are whole expressions -/
  | chain (level : Precedence)
  | operator (op : BinaryOperator)
  | power
  | unary
  | sign (op : UnaryOperator)
  | call
  | number
  | string
  /-- what stands between quotes -/
  | content (quote : Char)
  | boolean
  | identifier
  /-- the end of the text -/
  | finish
  deriving Repr, DecidableEq

inductive Pattern where
  | char (sat : Char → Bool)
  | text (cs : List Char)
  | rule (n : Nonterminal)
  | seq (p q : Pattern)
  | alt (p q : Pattern)
  | many (p : Pattern)
  /-- what a repetition goes on with -/
  | more (p : Pattern)
  | optional (p : Pattern)
  /-- the empty text, where the pattern does not match -/
  | not (p : Pattern)

/-- What may stand between the parts of a nonterminal, and whether they come to nodes. -/
inductive Mode where
  | spaced
  | unspaced
  /-- neither spaces nor nodes -/
  | atomic
  deriving Repr, DecidableEq

namespace Mode

/-- The text behind the spaces that may stand here. -/
def gap : Mode → List Char → List Char
  | .spaced, cs => Phrase.skip cs
  | .unspaced, cs => cs
  | .atomic, cs => cs

end Mode

/-! ### The grammar -/

namespace Pattern

/-- The first of the patterns that matches. -/
def choice : List Pattern → Pattern
  | [] => .not (.text [])
  | [p] => p
  | p :: ps => .alt p (choice ps)

def nameChar : Pattern := .char Expr.isNameChar

def digits : Pattern := .seq (.char Char.isDigit) (.many (.char Char.isDigit))

/-- One of the words, unless a longer word begins with it. -/
def word (words : List String) : Pattern :=
  .seq (choice (words.map fun w => .text w.toList)) (.not nameChar)

/-- What no name is. A name may begin with such a word. -/
def keyword : Pattern := word ["in", "union", "intersect", "diff", "true", "false"]

def operators (level : Precedence) : Pattern :=
  choice (level.operators.map fun op => .rule (.operator op))

def signs : Pattern := .alt (.rule (.sign .not)) (.rule (.sign .negative))

def group : Pattern := .seq (.text ['(']) (.seq (.rule (.chain .logical)) (.text [')']))

def literal : Pattern := .alt (.rule .number) (.alt (.rule .string) (.rule .boolean))

def primary : Pattern := .alt (.rule .call) (.alt literal (.alt (.rule .identifier) group))

/-- An argument behind a comma. -/
def argument : Pattern := .seq (.text [',']) (.rule (.chain .logical))

def arguments : Pattern := .seq (.rule (.chain .logical)) (.many argument)

/-- A text between quotes of one kind. -/
def quoted (quote : Char) : Pattern :=
  .seq (.text [quote]) (.seq (.rule (.content quote)) (.text [quote]))

/-- The operands of a chain. -/
def operand : Precedence → Pattern
  | .logical => .rule (.chain .comparison)
  | .comparison => .rule (.chain .additive)
  | .additive => .rule (.chain .multiplicative)
  | .multiplicative => .rule .power

/-- An operator of a level with the operand behind it. -/
def link (level : Precedence) : Pattern := .seq (operators level) (operand level)

/-- What must not follow an operator, because it would be another one or a name then. -/
def barred : BinaryOperator → Option (Char → Bool)
  | .comparison .lessOrEqual => some (· == '>')
  | .comparison .less => some (· == '=')
  | .sets _ | .membership => some Expr.isNameChar
  | _ => none

end Pattern

namespace Nonterminal

open Pattern

def pattern : Nonterminal → Pattern
  | .input => .seq (.text []) (.seq (.rule (.chain .logical)) (.rule .finish))
  | .chain level => .seq (operand level) (.many (link level))
  | .operator op =>
    match barred op with
    | none => .text op.symbol.toList
    | some sat => .seq (.text op.symbol.toList) (.not (.char sat))
  | .power => .seq (.rule .unary)
      (.optional (.seq (.rule (.operator (.arithmetic .power))) (.rule .power)))
  | .unary => .seq (.many signs) primary
  | .sign op => .text op.symbol.toList
  | .call => .seq (.rule .identifier)
      (.seq (.text ['(']) (.seq (.optional arguments) (.text [')'])))
  | .number => .seq digits (.optional (.seq (.text ['.']) digits))
  | .string => .alt (quoted '"') (quoted '\'')
  | .content quote => .many (.seq (.not (.text [quote])) (.char fun _ => true))
  | .boolean => word ["true", "false"]
  | .identifier => .seq (.not keyword) (.seq (.char Expr.isNameStart) (.many nameChar))
  | .finish => .not (.char fun _ => true)

/-- How the parts of a nonterminal are matched, where it stands itself in a part matched so. -/
def mode (outer : Mode) : Nonterminal → Mode
  | .number | .content _ | .boolean | .identifier => .atomic
  | .operator op => if (barred op).isSome then .atomic else outer
  | .string => .unspaced
  | _ => outer

theorem pattern_operator (op : BinaryOperator) : (operator op).pattern =
    match barred op with
    | none => .text op.symbol.toList
    | some sat => .seq (.text op.symbol.toList) (.not (.char sat)) := rfl

theorem mode_operator (outer : Mode) (op : BinaryOperator) :
    mode outer (.operator op) = if (barred op).isSome then .atomic else outer := rfl

end Nonterminal

inductive Tree where
  | node (n : Nonterminal) (text : List Char) (inner : List Tree)

namespace Tree

def root : Tree → Nonterminal
  | .node n _ _ => n

def inner : Tree → List Tree
  | .node _ _ ts => ts

end Tree

/-- The node of a nonterminal, or the nodes inside where it has none of its own. -/
def Mode.grow (m : Mode) (n : Nonterminal) (text : List Char) (inner : List Tree) : List Tree :=
  if m = .atomic then inner else [.node n text inner]

/-! ### Matching -/

/-- What a pattern comes to on a text: the nodes of what it matches and the text behind it, or none
where it fails. -/
inductive Matches : Mode → Pattern → List Char → Option (List Tree × List Char) → Prop
  | char {m : Mode} {sat : Char → Bool} {c : Char} {cs : List Char} (h : sat c = true) :
      Matches m (.char sat) (c :: cs) (some ([], cs))
  | charFails {m : Mode} {sat : Char → Bool} {cs : List Char}
      (h : ∀ c ∈ cs.head?, sat c = false) : Matches m (.char sat) cs none
  | text {m : Mode} {t cs rest : List Char} (h : cs = t ++ rest) :
      Matches m (.text t) cs (some ([], rest))
  | textFails {m : Mode} {t cs : List Char} (h : ¬ t <+: cs) : Matches m (.text t) cs none
  | rule {m : Mode} {n : Nonterminal} {cs front rest : List Char} {ts : List Tree}
      (h : Matches (n.mode m) n.pattern cs (some (ts, rest))) (hcs : cs = front ++ rest) :
      Matches m (.rule n) cs (some (m.grow n front ts, rest))
  | ruleFails {m : Mode} {n : Nonterminal} {cs : List Char}
      (h : Matches (n.mode m) n.pattern cs none) : Matches m (.rule n) cs none
  | seq {m : Mode} {p q : Pattern} {cs mid rest : List Char} {ts us : List Tree}
      (hp : Matches m p cs (some (ts, mid))) (hq : Matches m q (m.gap mid) (some (us, rest))) :
      Matches m (.seq p q) cs (some (ts ++ us, rest))
  | seqFails {m : Mode} {p q : Pattern} {cs : List Char} (hp : Matches m p cs none) :
      Matches m (.seq p q) cs none
  | seqEnds {m : Mode} {p q : Pattern} {cs mid : List Char} {ts : List Tree}
      (hp : Matches m p cs (some (ts, mid))) (hq : Matches m q (m.gap mid) none) :
      Matches m (.seq p q) cs none
  | alt {m : Mode} {p q : Pattern} {cs rest : List Char} {ts : List Tree}
      (hp : Matches m p cs (some (ts, rest))) : Matches m (.alt p q) cs (some (ts, rest))
  | altElse {m : Mode} {p q : Pattern} {cs : List Char} {r : Option (List Tree × List Char)}
      (hp : Matches m p cs none) (hq : Matches m q cs r) : Matches m (.alt p q) cs r
  | manyNone {m : Mode} {p : Pattern} {cs : List Char} (hp : Matches m p cs none) :
      Matches m (.many p) cs (some ([], cs))
  | many {m : Mode} {p : Pattern} {cs mid rest : List Char} {ts us : List Tree}
      (hp : Matches m p cs (some (ts, mid))) (hmore : Matches m (.more p) mid (some (us, rest))) :
      Matches m (.many p) cs (some (ts ++ us, rest))
  | moreNone {m : Mode} {p : Pattern} {cs : List Char} (hp : Matches m p (m.gap cs) none) :
      Matches m (.more p) cs (some ([], cs))
  | more {m : Mode} {p : Pattern} {cs mid rest : List Char} {ts us : List Tree}
      (hp : Matches m p (m.gap cs) (some (ts, mid)))
      (hmore : Matches m (.more p) mid (some (us, rest))) :
      Matches m (.more p) cs (some (ts ++ us, rest))
  | optional {m : Mode} {p : Pattern} {cs rest : List Char} {ts : List Tree}
      (hp : Matches m p cs (some (ts, rest))) : Matches m (.optional p) cs (some (ts, rest))
  | optionalNone {m : Mode} {p : Pattern} {cs : List Char} (hp : Matches m p cs none) :
      Matches m (.optional p) cs (some ([], cs))
  | not {m : Mode} {p : Pattern} {cs : List Char} (hp : Matches m p cs none) :
      Matches m (.not p) cs (some ([], cs))
  | notFails {m : Mode} {p : Pattern} {cs rest : List Char} {ts : List Tree}
      (hp : Matches m p cs (some (ts, rest))) : Matches m (.not p) cs none

/-- The text has this parse tree. -/
def Parses (cs : List Char) (t : Tree) : Prop :=
  ∃ rest, Matches .spaced (.rule .input) cs (some ([t], rest))

variable {m : Mode} {p q : Pattern} {n : Nonterminal} {cs rest : List Char} {ts : List Tree}
  {r r' : Option (List Tree × List Char)}

/-- A pattern comes to one outcome at most. -/
theorem Matches.unique (h : Matches m p cs r) (h' : Matches m p cs r') : r = r' := by
  induction h generalizing r' with
  | char hsat =>
    cases h' with
    | char => rfl
    | charFails hnot => simp [hsat] at hnot
  | charFails hnot =>
    cases h' with
    | char hsat => simp [hsat] at hnot
    | charFails => rfl
  | text heq =>
    cases h' with
    | text heq' => rw [List.append_cancel_left (heq.symm.trans heq')]
    | textFails hnot => exact absurd ⟨_, heq.symm⟩ hnot
  | textFails hnot =>
    cases h' with
    | text heq => exact absurd ⟨_, heq.symm⟩ hnot
    | textFails => rfl
  | rule h hcs ih =>
    cases h' with
    | rule h' hcs' =>
      cases ih h'
      rw [List.append_cancel_right (hcs.symm.trans hcs')]
    | ruleFails h' => cases ih h'
  | ruleFails h ih =>
    cases h' with
    | rule h' hcs' => cases ih h'
    | ruleFails h' => rfl
  | seq hp hq ihp ihq =>
    cases h' with
    | seq hp' hq' =>
      cases ihp hp'
      cases ihq hq'
      rfl
    | seqFails hp' => cases ihp hp'
    | seqEnds hp' hq' =>
      cases ihp hp'
      cases ihq hq'
  | seqFails hp ihp =>
    cases h' with
    | seq hp' hq' => cases ihp hp'
    | seqFails hp' => rfl
    | seqEnds hp' hq' => rfl
  | seqEnds hp hq ihp ihq =>
    cases h' with
    | seq hp' hq' =>
      cases ihp hp'
      cases ihq hq'
    | seqFails hp' => rfl
    | seqEnds hp' hq' => rfl
  | alt hp ihp =>
    cases h' with
    | alt hp' => exact ihp hp'
    | altElse hp' hq' => cases ihp hp'
  | altElse hp hq ihp ihq =>
    cases h' with
    | alt hp' => cases ihp hp'
    | altElse hp' hq' => exact ihq hq'
  | manyNone hp ihp =>
    cases h' with
    | manyNone hp' => rfl
    | many hp' hmore' => cases ihp hp'
  | many hp hmore ihp ihmore =>
    cases h' with
    | manyNone hp' => cases ihp hp'
    | many hp' hmore' =>
      cases ihp hp'
      cases ihmore hmore'
      rfl
  | moreNone hp ihp =>
    cases h' with
    | moreNone hp' => rfl
    | more hp' hmore' => cases ihp hp'
  | more hp hmore ihp ihmore =>
    cases h' with
    | moreNone hp' => cases ihp hp'
    | more hp' hmore' =>
      cases ihp hp'
      cases ihmore hmore'
      rfl
  | optional hp ihp =>
    cases h' with
    | optional hp' => exact ihp hp'
    | optionalNone hp' => cases ihp hp'
  | optionalNone hp ihp =>
    cases h' with
    | optional hp' => cases ihp hp'
    | optionalNone hp' => rfl
  | not hp ihp =>
    cases h' with
    | not hp' => rfl
    | notFails hp' => cases ihp hp'
  | notFails hp ihp =>
    cases h' with
    | not hp' => cases ihp hp'
    | notFails hp' => rfl

/-- What a pattern leaves is the end of the text. -/
theorem Matches.suffix (h : Matches m p cs r) : ∀ found ∈ r, found.2 <:+ cs := by
  have hgap (m : Mode) (cs : List Char) : m.gap cs <:+ cs := by
    cases m with
    | spaced => exact List.dropWhile_suffix Phrase.isSpace
    | unspaced | atomic => exact List.suffix_rfl
  induction h with
  | char hsat => simp
  | text heq => simp [heq]
  | rule h hcs ih => simp [hcs]
  | charFails | textFails | ruleFails | seqFails | seqEnds | notFails => simp
  | seq hp hq ihp ihq =>
    simp only [Option.mem_def, Option.some.injEq, forall_eq'] at ihp ihq ⊢
    exact ihq.trans ((hgap _ _).trans ihp)
  | alt hp ihp => exact ihp
  | altElse hp hq ihp ihq => exact ihq
  | manyNone | moreNone | optionalNone | not => simp
  | many hp hmore ihp ihmore =>
    simp only [Option.mem_def, Option.some.injEq, forall_eq'] at ihp ihmore ⊢
    exact ihmore.trans ihp
  | more hp hmore ihp ihmore =>
    simp only [Option.mem_def, Option.some.injEq, forall_eq'] at ihp ihmore ⊢
    exact ihmore.trans (ihp.trans (hgap _ _))
  | optional hp ihp => exact ihp

/-- What the pattern of a nonterminal matches is its node. -/
theorem Matches.exists_node (h : Matches (n.mode .spaced) n.pattern cs (some (ts, rest))) :
    ∃ token, Matches .spaced (.rule n) cs (some ([.node n token ts], rest)) := by
  obtain ⟨token, heq⟩ := h.suffix _ rfl
  exact ⟨token, .rule h heq.symm⟩

/-- The text of a node is what was matched. -/
theorem Matches.node_append {token : List Char}
    (h : Matches .spaced (.rule n) cs (some ([.node n token ts], rest))) : cs = token ++ rest := by
  generalize hr : some ([Tree.node n token ts], rest) = r at h
  cases h with
  | rule h hcs =>
    cases hr
    exact hcs
  | ruleFails => cases hr

theorem Parses.unique {t u : Tree} (h : Parses cs t) (h' : Parses cs u) : t = u := by
  obtain ⟨rest, h⟩ := h
  obtain ⟨rest', h'⟩ := h'
  cases h.unique h'
  rfl

end Grammar

end Premise
