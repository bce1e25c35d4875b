import Premise.Construct.Frame
import Premise.Proofs.Recognition
import Premise.Proofs.RoundTrip

/-!
Expressions from parse trees.

The nodes below a node of a parse tree are told apart by where they stand only: the second of a
chain is taken for an operator, and the third for its right operand. So building an expression from
a tree can fail in many ways (`BuildError`). From the tree of a text it fails in one: the tree
spells a phrase then, and building it is building the phrase (`buildTree_of_spells`), which fails
only where it nests too deep.
-/

namespace Premise

namespace BinaryOperator

/-- What the nonterminal of the operator is called. -/
def ruleName : BinaryOperator → String
  | .arithmetic .add => "op_add"
  | .arithmetic .subtract => "op_sub"
  | .arithmetic .multiply => "op_mul"
  | .arithmetic .divide => "op_div"
  | .arithmetic .modulo => "op_mod"
  | .arithmetic .power => "op_pow"
  | .comparison .equal => "op_eq"
  | .comparison .notEqual => "op_ne"
  | .comparison .greater => "op_gt"
  | .comparison .greaterOrEqual => "op_gte"
  | .comparison .less => "op_lt"
  | .comparison .lessOrEqual => "op_lte"
  | .membership => "op_in"
  | .logical .and => "op_and"
  | .logical .or => "op_or"
  | .logical .implies => "op_implies"
  | .logical .iff => "op_iff"
  | .sets .union => "op_union"
  | .sets .intersect => "op_intersect"
  | .sets .diff => "op_diff"

end BinaryOperator

namespace Grammar

def Nonterminal.name : Nonterminal → String
  | .input => "expression_input"
  | .chain .logical => "expression"
  | .chain .comparison => "comparison"
  | .chain .additive => "additive"
  | .chain .multiplicative => "multiplicative"
  | .operator op => op.ruleName
  | .power => "power"
  | .unary => "unary"
  | .sign .not => "op_not"
  | .sign .negative => "op_neg"
  | .call => "call"
  | .number => "number"
  | .string => "string"
  | .content quote => if quote = '"' then "dq_inner" else "sq_inner"
  | .boolean => "boolean"
  | .identifier => "identifier"
  | .finish => "EOI"

/-- What can be wrong with a parse tree. -/
inductive BuildError where
  | parse (error : ParseError)
  | malformed (what : String)
  | unexpected (n : Nonterminal)
  | unsupportedLiteral (n : Nonterminal)
  | invalidNumber (text : String)
  | invalidBoolean (text : String)

namespace BuildError

def message : BuildError → String
  | .parse error => error.message
  | .malformed what => s!"Malformed expression: {what}"
  | .unexpected n => s!"Unexpected grammar rule {n.name}"
  | .unsupportedLiteral n => s!"Unsupported literal type: {n.name}"
  | .invalidNumber text => s!"Invalid number literal '{text}'"
  | .invalidBoolean text => s!"Invalid boolean: '{text}'. Expected one of: true, false"

end BuildError

namespace Tree

def text : Tree → List Char
  | .node _ text _ => text

end Tree

/-! ### The builder -/

def lift {α : Type} (x : Except ParseError α) : Except BuildError α := x.mapError .parse

/-- What a chain without operands is called in an error. -/
def noOperands : Precedence → String
  | .logical => "expression without operands"
  | .comparison => "comparison without operands"
  | .additive => "sum without operands"
  | .multiplicative => "product without operands"

def noRightOperand : Precedence → String
  | .logical => "logical operator without right operand"
  | .comparison => "comparison without right operand"
  | .additive | .multiplicative => "operator without right operand"

/-- The operator of a level that a nonterminal is. -/
def operatorOf (level : Precedence) : Nonterminal → Except BuildError BinaryOperator
  | .operator op => if op ∈ level.operators then .ok op else .error (.unexpected (.operator op))
  | n => .error (.unexpected n)

/-- Logical and multiplicative chains look at an operator before its right operand, and the others
behind it. -/
def checkFirst (level : Precedence) (n : Nonterminal) : Except BuildError Unit :=
  match level with
  | .logical | .multiplicative => (operatorOf level n).map fun _ => ()
  | .comparison | .additive => .ok ()

def literalValue : Tree → Except BuildError Value
  | .node .number text _ =>
    match Number.extended? text with
    | some x => .ok (.number x)
    | none => .error (.invalidNumber (String.ofList text))
  | .node .string _ inner => .ok (.text (String.ofList ((inner.head?.map Tree.text).getD [])))
  | .node .boolean text _ =>
    if String.ofList text = "true" then .ok (.boolean true)
    else if String.ofList text = "false" then .ok (.boolean false)
    else .error (.invalidBoolean (String.ofList text))
  | .node n _ _ => .error (.unsupportedLiteral n)

mutual

/-- The expression of a tree that is taken for one of a tier. -/
def buildTree (names : Name.Reading) (d : Depth) : Tier → Tree → Except BuildError (Expr Unit)
  | .chain level, .node _ _ ts => buildChain names d level ts
  | .power, .node _ _ ts => buildPower names d ts
  | .unary, .node _ _ ts => buildUnary names d [] none ts
  | .primary, .node n text ts =>
    match n with
    | .number | .string | .boolean => do
      let v ← literalValue (.node n text ts)
      .ok (.literal () v)
    | .identifier => .ok (.reference () (names.resolve (String.ofList text)))
    | .call => buildCall names d ts
    | .chain .logical => do
      let deeper ← lift (Expr.nest d)
      buildChain names deeper .logical ts
    | _ => .error (.unexpected n)

def buildNested (names : Name.Reading) (d : Depth) : Tree → Except BuildError (Expr Unit)
  | .node n _ ts => do
    let deeper ← lift (Expr.nest d)
    match n with
    | .power => buildPower names deeper ts
    | _ => buildChain names deeper .logical ts

def buildChain (names : Name.Reading) (d : Depth) (level : Precedence) :
    List Tree → Except BuildError (Expr Unit)
  | [] => .error (.malformed (noOperands level))
  | t :: ts => do
    let left ← buildTree names d (Tier.chain level).next t
    buildLinks names d level left ts

def buildLinks (names : Name.Reading) (d : Depth) (level : Precedence) (left : Expr Unit) :
    List Tree → Except BuildError (Expr Unit)
  | [] => .ok left
  | op :: ts => do
    let deeper ← lift (Expr.nestOperator d)
    checkFirst level op.root
    match ts with
    | [] => .error (.malformed (noRightOperand level))
    | t :: ts => do
      let right ← buildTree names deeper (Tier.chain level).next t
      let op ← operatorOf level op.root
      buildLinks names deeper level (Expr.binary () op left right) ts

def buildPower (names : Name.Reading) (d : Depth) : List Tree → Except BuildError (Expr Unit)
  | [] => .error (.malformed "power without base")
  | t :: ts => do
    let base ← buildTree names d .unary t
    match ts with
    | [] => .ok base
    | [_] => .error (.malformed "'^' without exponent")
    | _ :: u :: _ => do
      let exponent ← buildNested names d u
      .ok (.arithmetic () .power base exponent)

/-- Signs are collected, the last of them first; of several operands the last one counts. -/
def buildUnary (names : Name.Reading) (d : Depth) (ops : List UnaryOperator)
    (operand : Option (Expr Unit)) : List Tree → Except BuildError (Expr Unit)
  | [] =>
    match operand with
    | some e => .ok (ops.foldl (fun e op => Expr.unary () op e) e)
    | none => .error (.malformed "operator without operand")
  | t :: ts =>
    match t.root with
    | .sign op => do
      let deeper ← lift (Expr.nestOperator d)
      buildUnary names deeper (op :: ops) operand ts
    | _ => do
      let e ← buildTree names d .primary t
      buildUnary names d ops (some e) ts

def buildCall (names : Name.Reading) (d : Depth) : List Tree → Except BuildError (Expr Unit)
  | [] => .error (.malformed "call without a name")
  | t :: ts => do
    let arguments ← buildArguments names d ts
    .ok (.call () (names.resolve (String.ofList t.text)) arguments)

def buildArguments (names : Name.Reading) (d : Depth) :
    List Tree → Except BuildError (List (Expr Unit))
  | [] => .ok []
  | t :: ts => do
    let argument ← buildNested names d t
    let arguments ← buildArguments names d ts
    .ok (argument :: arguments)

end

/-- The expression of the tree of a whole text. -/
def build (names : Name.Reading) (limit : Nat) (t : Tree) : Except BuildError (Expr Unit) :=
  match t.inner.find? fun u => u.root = .chain .logical with
  | some u => buildTree names { limit } (.chain .logical) u
  | none => .error (.parse .empty)

/-! ### Trees of phrases -/

theorem lift_bind {α β : Type} (x : Except ParseError α) (f : α → Except ParseError β) :
    lift (x >>= f) = lift x >>= fun a => lift (f a) := by
  cases x <;> rfl

theorem lift_ok {α : Type} (a : α) : lift (.ok a) = .ok a := rfl

theorem toLower_of_isDigit {c : Char} (h : c.isDigit = true) : c.toLower = c := by
  have hcode := Expr.code_of_isDigit h
  unfold Char.toLower
  rw [dif_neg]
  rintro ⟨hupper, -⟩
  have hletter : 'A'.toNat ≤ c.toNat := hupper
  rw [show 'A'.toNat = 65 from rfl] at hletter
  omega

theorem isNamed_of_isDigit {c : Char} (h : c.isDigit = true) {names : List String}
    (hnames : names.all (fun n => n.toList.head?.all fun d => !d.isDigit) = true)
    (cs : List Char) : Number.isNamed names (c :: cs) = false := by
  rw [Bool.eq_false_iff]
  intro hnamed
  have hhead := List.all_eq_true.mp hnames _ (List.contains_iff_mem.mp hnamed)
  rw [String.toList_ofList, List.map_cons, toLower_of_isDigit h, List.head?_cons, Option.all_some,
    h] at hhead
  cases hhead

/-- The digits of a number are read as they are. -/
theorem extended?_numberToken {whole fraction : List Char} (h : Layout.IsDecimal whole fraction) :
    Number.extended? (Layout.numberToken whole fraction) =
      some (Number.Written.value ⟨whole, fraction, 0⟩) := by
  have hdecimal := Number.decimal?_token h
  obtain ⟨d, ds, heq, hdigit, -⟩ := h.token
  rw [heq] at hdecimal ⊢
  have hminus : d ≠ '-' := by
    rintro rfl
    exact absurd hdigit (by decide)
  have hplus : d ≠ '+' := by
    rintro rfl
    exact absurd hdigit (by decide)
  have hinfinity : Number.isNamed ["inf", "infinity"] (d :: ds) = false :=
    isNamed_of_isDigit hdigit (by decide) ds
  have hnan : Number.isNamed ["nan"] (d :: ds) = false := isNamed_of_isDigit hdigit (by decide) ds
  simpa [Number.extended?, Number.decimal?, hminus, hplus, hinfinity, hnan, Number.negateIf]
    using hdecimal

theorem operatorOf_of_mem {level : Precedence} {op : BinaryOperator} (h : op ∈ level.operators) :
    operatorOf level (operatorTree op).root = .ok op := by
  simp [operatorOf, operatorTree, Tree.root, h]

theorem checkFirst_of_mem {level : Precedence} {op : BinaryOperator} (h : op ∈ level.operators) :
    checkFirst level (operatorTree op).root = .ok () := by
  unfold checkFirst
  rw [operatorOf_of_mem h]
  cases level <;> rfl

theorem exists_chain_of_spells {level : Precedence} {p : Phrase} {t : Tree}
    (h : Spells (.chain level) p t) : ∃ token ts, t = .node (.chain level) token ts := by
  cases h
  exact ⟨_, _, rfl⟩

theorem exists_power_of_spells {p : Phrase} {t : Tree} (h : Spells .power p t) :
    ∃ token ts, t = .node .power token ts := by
  cases h <;> exact ⟨_, _, rfl⟩

theorem root_of_primary {p : Phrase} {t : Tree} (h : Spells .primary p t) (op : UnaryOperator) :
    t.root ≠ .sign op := by
  cases h with
  | group h =>
    obtain ⟨token, ts, rfl⟩ := exists_chain_of_spells h
    exact nofun
  | _ => exact nofun

theorem ofPhrase_linked (names : Name.Reading) (d : Depth) (first : Phrase)
    (links : List (BinaryOperator × Phrase)) : Expr.ofPhrase names d (Phrase.linked first links) =
      Expr.ofPhrase names d first >>= fun left => Expr.ofLinks names d left links := by
  cases links with
  | nil =>
    show Expr.ofPhrase names d first = _
    cases Expr.ofPhrase names d first <;> rfl
  | cons link links => rfl

/-- A tree is built into what its phrase is. -/
def BuildsAs (names : Name.Reading) (tier : Tier) (p : Phrase) (t : Tree) : Prop :=
  ∀ d, buildTree names d tier t = lift (Expr.ofPhrase names d p)

section

variable {names : Name.Reading}

theorem buildNested_chain {p : Phrase} {t : Tree} (hspells : Spells (.chain .logical) p t)
    (h : BuildsAs names (.chain .logical) p t) (d : Depth) :
    buildNested names d t = lift (Expr.nest d >>= fun deeper => Expr.ofPhrase names deeper p) := by
  obtain ⟨token, ts, rfl⟩ := exists_chain_of_spells hspells
  rw [lift_bind]
  simp only [← h _]
  rfl

theorem buildNested_power {p : Phrase} {t : Tree} (hspells : Spells .power p t)
    (h : BuildsAs names .power p t) (d : Depth) :
    buildNested names d t = lift (Expr.nest d >>= fun deeper => Expr.ofPhrase names deeper p) := by
  obtain ⟨token, ts, rfl⟩ := exists_power_of_spells hspells
  rw [lift_bind]
  simp only [← h _]
  rfl

theorem buildArguments_eq {arguments : List (Phrase × Tree)}
    (hspells : ∀ a ∈ arguments, Spells (.chain .logical) a.1 a.2)
    (h : ∀ a ∈ arguments, BuildsAs names (.chain .logical) a.1 a.2) (d : Depth) :
    buildArguments names d (arguments.map Prod.snd) =
      lift (Expr.ofArguments names d (arguments.map Prod.fst)) := by
  induction arguments with
  | nil => rfl
  | cons a arguments ih =>
    obtain ⟨hhead, htail⟩ := List.forall_mem_cons.mp h
    obtain ⟨hspelled, hothers⟩ := List.forall_mem_cons.mp hspells
    simp only [List.map_cons, buildArguments, Expr.ofArguments, buildNested_chain hspelled hhead,
      ih hothers htail, lift_bind, bind_assoc, lift_ok]

theorem buildUnary_eq {operand : Phrase} {t : Tree} (hspells : Spells .primary operand t)
    (h : BuildsAs names .primary operand t) (ops : List UnaryOperator) (d : Depth)
    (outer : List UnaryOperator) :
    buildUnary names d outer none (ops.map signTree ++ [t]) =
      (lift (Expr.ofPhrase names d (ops.foldr .signed operand))).map
        (outer.foldl fun e op => Expr.unary () op e) := by
  induction ops generalizing d outer with
  | nil =>
    have hprimary : buildUnary names d outer none [t] = buildTree names d .primary t >>= fun e =>
        .ok (outer.foldl (fun e op => Expr.unary () op e) e) := by
      unfold buildUnary
      split
      · rename_i op hroot
        exact absurd hroot (root_of_primary hspells op)
      · rfl
    rw [List.map_nil, List.nil_append, hprimary, h d, List.foldr_nil]
    cases Expr.ofPhrase names d operand <;> rfl
  | cons op ops ih =>
    have hsign : buildUnary names d outer none ((op :: ops).map signTree ++ [t]) =
        lift (Expr.nestOperator d) >>= fun deeper =>
          buildUnary names deeper (op :: outer) none (ops.map signTree ++ [t]) := rfl
    have hphrase : Expr.ofPhrase names d ((op :: ops).foldr .signed operand) =
        Expr.nestOperator d >>= fun deeper =>
          Expr.ofPhrase names deeper (ops.foldr .signed operand) >>= fun e =>
            .ok (Expr.unary () op e) := rfl
    rw [hsign, hphrase]
    cases Expr.nestOperator d with
    | error e => rfl
    | ok deeper =>
      show buildUnary names deeper (op :: outer) none _ = _
      rw [ih]
      cases hoperand : Expr.ofPhrase names deeper (ops.foldr .signed operand) with
      | error e => simp [hoperand, lift, bind, Except.bind, Except.mapError, Except.map]
      | ok e => simp [hoperand, lift, bind, Except.bind, Except.mapError, Except.map]

theorem buildLinks_eq {level : Precedence} {links : List ((BinaryOperator × Phrase) × Tree)}
    (hops : ∀ l ∈ links, l.1.1 ∈ level.operators)
    (h : ∀ l ∈ links, BuildsAs names (Tier.chain level).next l.1.2 l.2) (d : Depth)
    (left : Expr Unit) :
    buildLinks names d level left (links.flatMap fun l => [operatorTree l.1.1, l.2]) =
      lift (Expr.ofLinks names d left (links.map Prod.fst)) := by
  induction links generalizing d left with
  | nil => rfl
  | cons l links ih =>
    obtain ⟨hop, hothers⟩ := List.forall_mem_cons.mp hops
    obtain ⟨hhead, htail⟩ := List.forall_mem_cons.mp h
    have hlink : buildLinks names d level left
        ((l :: links).flatMap fun l => [operatorTree l.1.1, l.2]) =
          lift (Expr.nestOperator d) >>= fun deeper =>
            checkFirst level (operatorTree l.1.1).root >>= fun _ =>
              buildTree names deeper (Tier.chain level).next l.2 >>= fun right =>
                operatorOf level (operatorTree l.1.1).root >>= fun op =>
                  buildLinks names deeper level (Expr.binary () op left right)
                    (links.flatMap fun l => [operatorTree l.1.1, l.2]) := rfl
    have hphrase : Expr.ofLinks names d left ((l :: links).map Prod.fst) =
        Expr.nestOperator d >>= fun deeper =>
          Expr.ofPhrase names deeper l.1.2 >>= fun right =>
            Expr.ofLinks names deeper (Expr.binary () l.1.1 left right) (links.map Prod.fst) := rfl
    rw [hlink, hphrase, lift_bind]
    refine congrArg _ (funext fun deeper => ?_)
    rw [checkFirst_of_mem hop, operatorOf_of_mem hop, hhead deeper, lift_bind]
    exact congrArg _ (funext fun right => ih hothers htail deeper _)

/-- The tree of a phrase is built into the expression of the phrase. -/
theorem buildTree_of_spells {tier : Tier} {p : Phrase} {t : Tree} (h : Spells tier p t) :
    BuildsAs names tier p t := by
  intro d
  induction h generalizing d with
  | number hdecimal =>
    simp only [buildTree, literalValue, extended?_numberToken hdecimal]
    rfl
  | text => rfl
  | truth b => cases b <;> rfl
  | name name =>
    simp only [buildTree, String.ofList_toList]
    rfl
  | @call name token arguments h ih =>
    have hcall : buildTree names d .primary
        (.node .call token (.node .identifier name.toList [] :: arguments.map Prod.snd)) =
          buildArguments names d (arguments.map Prod.snd) >>= fun arguments =>
            .ok (.call () (names.resolve (String.ofList name.toList)) arguments) := rfl
    have hphrase : Expr.ofPhrase names d (.call name (arguments.map Prod.fst)) =
        Expr.ofArguments names d (arguments.map Prod.fst) >>= fun arguments =>
          .ok (.call () (names.resolve name) arguments) := by
      rw [Expr.ofPhrase]
    rw [hcall, hphrase, buildArguments_eq h fun a ha d => ih a ha d, String.ofList_toList]
    simp only [lift_bind, lift_ok]
  | group h ih =>
    obtain ⟨token, ts, rfl⟩ := exists_chain_of_spells h
    exact buildNested_chain h (fun d => ih d) d
  | @unary ops operand token t h ih =>
    have hunary := buildUnary_eq h (fun d => ih d) ops d []
    show buildUnary names d [] none _ = _
    rw [hunary]
    cases Expr.ofPhrase names d (ops.foldr .signed operand) <;> rfl
  | @base p token t h ih =>
    have hbase : buildTree names d .power (.node .power token [t]) =
        buildTree names d .unary t >>= fun base => .ok base := rfl
    rw [hbase, ih d]
    cases Expr.ofPhrase names d p <;> rfl
  | @power base exponent token t u hbase hexponent ihbase ihexponent =>
    have hpower : buildTree names d .power
        (.node .power token [t, operatorTree (.arithmetic .power), u]) =
          buildTree names d .unary t >>= fun base => buildNested names d u >>= fun exponent =>
            .ok (.arithmetic () .power base exponent) := rfl
    have hphrase : Expr.ofPhrase names d (.power base exponent) =
        Expr.ofPhrase names d base >>= fun base => (Expr.nest d >>= fun deeper =>
          Expr.ofPhrase names deeper exponent) >>= fun exponent =>
            .ok (.arithmetic () .power base exponent) := by
      simp only [Expr.ofPhrase, bind_assoc]
    rw [hpower, hphrase, ihbase d, buildNested_power hexponent fun d => ihexponent d]
    simp only [lift_bind, lift_ok]
  | @chain level first token t links hfirst hops hlinks ihfirst ihlinks =>
    have hchain : buildTree names d (.chain level) (.node (.chain level) token
        (t :: links.flatMap fun l => [operatorTree l.1.1, l.2])) =
          buildTree names d (Tier.chain level).next t >>= fun left =>
            buildLinks names d level left
              (links.flatMap fun l => [operatorTree l.1.1, l.2]) := rfl
    rw [hchain, ofPhrase_linked, ihfirst d, lift_bind]
    exact congrArg _ (funext fun left =>
      buildLinks_eq hops (fun l hl d => ihlinks l hl d) d left)

end

/-! ### Whole texts -/

/-- A text that the grammar accepts is read as a phrase, and its tree is built into what the phrase
is. -/
theorem build_of_parses {cs : List Char} {t : Tree} (h : Parses cs t) :
    ∃ phrase, Phrase.read cs = .ok phrase ∧ ∀ names limit,
      build names limit t = lift (Expr.ofPhrase names { limit } phrase) := by
  obtain ⟨phrase, hread⟩ := (exists_read_iff cs).mpr ⟨t, h⟩
  obtain ⟨u, token, hparses, hspells⟩ := parses_of_read hread
  refine ⟨phrase, hread, fun names limit => ?_⟩
  rw [h.unique hparses, ← buildTree_of_spells hspells { limit }]
  obtain ⟨token, ts, rfl⟩ := exists_chain_of_spells hspells
  rfl

theorem lift_eq_ok_or_nesting {names : Name.Reading} {limit : Nat} (phrase : Phrase) :
    (∃ e, lift (Expr.ofPhrase names { limit } phrase) = .ok e) ∨
      ∃ error, lift (Expr.ofPhrase names { limit } phrase) = .error (.parse error) ∧
        error.isNesting = true := by
  cases hbuilt : Expr.ofPhrase names { limit } phrase with
  | ok e => exact .inl ⟨e, rfl⟩
  | error error => exact .inr ⟨error, rfl, Expr.isNesting_of_ofPhrase phrase hbuilt⟩

end Grammar

/-- Whether a text is refused for what stands where reading it stopped. -/
def ParseError.isStop : ParseError → Bool
  | .unexpectedEnd _ | .unsupported _ _ _ | .unexpected _ _ _ => true
  | .empty | .tooDeep _ _ | .tooManyOperators _ _ => false

namespace Expr

theorem isStop_stoppedAt (source rest : List Char) : (stoppedAt source rest).isStop = true := by
  unfold stoppedAt
  cases rest with
  | nil => rfl
  | cons c rest =>
    simp only
    split <;> rfl

/-- How a text is parsed: it is all blank, or it would nest too deep, or the grammar does not accept
it, or an expression is built from its tree. -/
theorem parse_cases (names : Name.Reading) (limit : Nat) (line : Option Nat) (text : String) :
    let source := (expandProducts text).toList
    (source.all Text.isBlank = true ∧ parse names limit line text = .error .empty) ∨
    (limit < estimateNesting source ∧
      parse names limit line text = .error (.tooDeep (estimateNesting source) limit)) ∨
    ((∀ t, ¬ Grammar.Parses source t) ∧ ∃ rest, Phrase.read source = .error rest ∧
      parse names limit line text = .error (stoppedAt source rest)) ∨
    ∃ t, Grammar.Parses source t ∧ Grammar.lift (parse names limit line text) =
      (Grammar.build names limit t).map (numbered line) := by
  intro source
  cases hread : Phrase.read source with
  | ok phrase =>
    rw [parse_of_read hread]
    by_cases hestimate : limit < estimateNesting source
    · exact .inr (.inl ⟨hestimate, if_pos hestimate⟩)
    rw [if_neg hestimate]
    obtain ⟨t, token, hparses, -⟩ := Grammar.parses_of_read hread
    obtain ⟨phrase', hread', hbuild⟩ := Grammar.build_of_parses hparses
    rw [hread] at hread'
    cases hread'
    refine .inr (.inr (.inr ⟨_, hparses, ?_⟩))
    rw [hbuild]
    cases ofPhrase names { limit } phrase <;> rfl
  | error rest =>
    unfold parse
    simp only [show (expandProducts text).toList = source from rfl, hread]
    by_cases hblank : source.all Text.isBlank = true
    · exact .inl ⟨hblank, if_pos hblank⟩
    rw [if_neg hblank]
    by_cases hestimate : limit < estimateNesting source
    · exact .inr (.inl ⟨hestimate, if_pos hestimate⟩)
    rw [if_neg hestimate]
    exact .inr (.inr (.inl ⟨Grammar.not_parses_of_read hread, rest, rfl, rfl⟩))

/-- The grammar and the builder of expressions agree: from the tree of a text, an expression is
built, unless the text nests too deep. So a text is parsed into what is built from its tree, and all
that can be wrong with it is that it is blank, that it nests too deep, or that the grammar does not
accept it. What is reported is a fault of the expression, at the line that was given. -/
theorem accepted_text_builds (names : Name.Reading) (limit : Nat) :
    (∀ cs t, Grammar.Parses cs t → (∃ e, Grammar.build names limit t = .ok e) ∨
      ∃ error, Grammar.build names limit t = .error (.parse error) ∧ error.isNesting = true) ∧
    (∀ line text e, parse names limit line text = .ok e → ∃ t built,
      Grammar.Parses (expandProducts text).toList t ∧ Grammar.build names limit t = .ok built ∧
        e = built.numbered line) ∧
    (∀ line text error, parse names limit line text = .error error →
      let source := (expandProducts text).toList
      (error = .empty ∧ source.all Text.isBlank = true) ∨
        (error.isNesting = true ∧ (limit < estimateNesting source ∨
          ∃ t, Grammar.Parses source t ∧ Grammar.build names limit t = .error (.parse error))) ∨
        (error.isStop = true ∧ ∀ t, ¬ Grammar.Parses source t)) ∧
    ∀ (p : Program) (f : Frame) line text fault, (f.parse p line text).outcome = .error fault →
      ∃ error, parse { scope := f.space } p.limits.expression line text = .error error ∧
        fault.cause = .expression error ∧ fault.kind = .expression ∧ fault.line = line := by
  have hbuilds (cs : List Char) (t : Grammar.Tree) (h : Grammar.Parses cs t) :
      (∃ e, Grammar.build names limit t = .ok e) ∨
        ∃ error, Grammar.build names limit t = .error (.parse error) ∧ error.isNesting = true := by
    obtain ⟨phrase, -, hbuild⟩ := Grammar.build_of_parses h
    rw [hbuild]
    exact Grammar.lift_eq_ok_or_nesting phrase
  refine ⟨hbuilds, fun line text e h => ?_, fun line text error h => ?_,
    fun p f line text fault h => ?_⟩
  · rcases parse_cases names limit line text with
      ⟨-, herror⟩ | ⟨-, herror⟩ | ⟨-, rest, -, herror⟩ | ⟨t, hparses, hparse⟩
    · cases h.symm.trans herror
    · cases h.symm.trans herror
    · cases h.symm.trans herror
    · rw [h] at hparse
      cases hbuilt : Grammar.build names limit t with
      | error error =>
        rw [hbuilt] at hparse
        cases hparse
      | ok built =>
        rw [hbuilt] at hparse
        cases hparse
        exact ⟨t, built, hparses, hbuilt, rfl⟩
  · rcases parse_cases names limit line text with
      ⟨hblank, herror⟩ | ⟨hestimate, herror⟩ | ⟨hnone, rest, -, herror⟩ | ⟨t, hparses, hparse⟩
    · cases h.symm.trans herror
      exact .inl ⟨rfl, hblank⟩
    · cases h.symm.trans herror
      exact .inr (.inl ⟨rfl, .inl hestimate⟩)
    · cases h.symm.trans herror
      exact .inr (.inr ⟨isStop_stoppedAt _ rest, hnone⟩)
    · rw [h] at hparse
      rcases hbuilds _ t hparses with ⟨built, hbuilt⟩ | ⟨error', hbuilt, hnesting⟩
      · rw [hbuilt] at hparse
        cases hparse
      · rw [hbuilt] at hparse
        cases hparse
        exact .inr (.inl ⟨hnesting, .inr ⟨t, hparses, hbuilt⟩⟩)
  · unfold Frame.parse at h
    cases hparse : parse { scope := f.space } p.limits.expression line text with
    | ok e =>
      rw [hparse] at h
      cases h
    | error error =>
      rw [hparse] at h
      cases h
      exact ⟨error, rfl, rfl, rfl, Option.or_none⟩

/-- Signs, a call with two arguments, a chain in one of them, a power and a membership: the tree is
built under a limit of three, and nests too deep for a limit of one. -/
theorem accepted_text_builds_call :
    ∃ t, Grammar.Parses "!f(2*x, 'a') ^ -1 in s".toList t ∧
      (∃ e, Grammar.build {} 3 t = .ok e) ∧
      ∃ error, Grammar.build {} 1 t = .error (.parse error) ∧ error.isNesting = true := by
  let product : Phrase := .chain (.number ['2'] []) [(.arithmetic .multiply, .name "x")]
  let power : Phrase := .power (.signed .not (.call "f" [product, .text "a"]))
    (.signed .negative (.number ['1'] []))
  have hread : Phrase.read "!f(2*x, 'a') ^ -1 in s".toList =
      .ok (.chain power [(.membership, .name "s")]) := rfl
  obtain ⟨t, token, hparses, -⟩ := Grammar.parses_of_read hread
  obtain ⟨phrase, hread', hbuild⟩ := Grammar.build_of_parses hparses
  cases hread.symm.trans hread'
  refine ⟨_, hparses, ?_, ?_⟩
  · rcases (accepted_text_builds {} 3).1 _ _ hparses with hok | ⟨error, herror, -⟩
    · exact hok
    · cases (hbuild {} 3).symm.trans herror
  · rcases (accepted_text_builds {} 1).1 _ _ hparses with ⟨e, hok⟩ | herror
    · cases (hbuild {} 1).symm.trans hok
    · exact herror

end Expr

end Premise
