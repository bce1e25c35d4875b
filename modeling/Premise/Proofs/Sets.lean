import Premise.Proofs.Canonical
import Premise.Proofs.Linking
import Premise.Proofs.Provenance
import Premise.Proofs.Quoting
import Premise.Proofs.Tiers

/-!
No document comes to a set that is out of order.

Expressions are written with numbers, texts and truth values, declarations add values that are
canonical beside canonical symbols, and linking hands symbols and rules on as they are. So the
program that a document is evaluated with is canonical (`Link.link_canonical`), and with it all that
its evaluations come to and all results that are recorded. The main statement, `sets_canonical`,
puts this beside what declared sets, operations and queries make of the values that occur.
-/

namespace Premise

/-! ### Parsed expressions -/

namespace Expr

section

variable {α : Type}

theorem mem_numberAllFrom {line : Option Nat} {next : Nat} {es : List (Expr α)} {x : Expr Mark}
    (h : x ∈ (numberAllFrom line next es).1) : ∃ e ∈ es, ∃ n, x = (numberFrom line n e).1 := by
  induction es generalizing next with
  | nil => cases h
  | cons e es ih =>
    rcases List.mem_cons.mp h with heq | hrest
    · exact ⟨e, List.mem_cons_self, next, heq⟩
    · obtain ⟨y, hy, n, heq⟩ := ih hrest
      exact ⟨y, List.mem_cons_of_mem e hy, n, heq⟩

/-- What the nodes are marked with makes no difference. -/
theorem Canonical.numberFrom {e : Expr α} (h : e.Canonical) (line : Option Nat) (next : Nat) :
    (e.numberFrom line next).1.Canonical := by
  induction h generalizing next with
  | node own below ih =>
    rename_i e
    cases e with
    | literal m v => exact .literal _ (own v rfl)
    | reference m name => exact .ofOperands rfl (List.forall_mem_nil _)
    | arithmetic m op left right | comparison m op left right | logical m op left right
    | sets m op left right | membership m left right =>
      refine .ofOperands rfl fun x hx => ?_
      rcases List.mem_pair.mp hx with rfl | rfl
      · exact ih left (by simp [operands]) _
      · exact ih right (by simp [operands]) _
    | negation m operand | complement m operand =>
      refine .ofOperands rfl fun x hx => ?_
      cases List.mem_singleton.mp hx
      exact ih operand (by simp [operands]) _
    | call m name arguments =>
      refine .ofOperands rfl fun x hx => ?_
      obtain ⟨y, hy, n, rfl⟩ := mem_numberAllFrom hx
      exact ih y hy n

theorem Canonical.unary {operand : Expr α} (h : operand.Canonical) (m : α) (op : UnaryOperator) :
    (Expr.unary m op operand).Canonical := by
  cases op <;> exact .ofOperands rfl (by simpa [Expr.unary, operands] using h)

theorem Canonical.binary {left right : Expr α} (hleft : left.Canonical) (hright : right.Canonical)
    (m : α) (op : BinaryOperator) : (Expr.binary m op left right).Canonical := by
  cases op <;> exact .ofOperands rfl (by simpa [Expr.binary, operands] using ⟨hleft, hright⟩)

end

mutual

/-- Numbers, texts and truth values are all that can be written in an expression. -/
theorem canonical_ofPhrase {names : Name.Reading} {d : Depth} {p : Phrase} {tree : Expr Unit}
    (h : ofPhrase names d p = .ok tree) : tree.Canonical := by
  cases p with
  | number whole fraction =>
    cases h
    exact .literal () (.number _)
  | text content =>
    cases h
    exact .literal () (.text content)
  | truth b =>
    cases h
    exact .literal () (.boolean b)
  | name name =>
    cases h
    exact .ofOperands rfl (List.forall_mem_nil _)
  | call name arguments =>
    obtain ⟨trees, htrees, h⟩ := bind_eq_ok.mp h
    cases h
    exact .ofOperands rfl (canonical_ofArguments htrees)
  | group inner =>
    obtain ⟨deeper, -, h⟩ := bind_eq_ok.mp h
    exact canonical_ofPhrase h
  | signed op operand =>
    obtain ⟨deeper, -, h⟩ := bind_eq_ok.mp h
    obtain ⟨tree, htree, h⟩ := bind_eq_ok.mp h
    cases h
    exact (canonical_ofPhrase htree).unary () op
  | power base exponent =>
    obtain ⟨left, hleft, h⟩ := bind_eq_ok.mp h
    obtain ⟨deeper, -, h⟩ := bind_eq_ok.mp h
    obtain ⟨right, hright, h⟩ := bind_eq_ok.mp h
    cases h
    exact (canonical_ofPhrase hleft).binary (canonical_ofPhrase hright) () (.arithmetic .power)
  | chain first links =>
    obtain ⟨left, hleft, h⟩ := bind_eq_ok.mp h
    exact canonical_ofLinks (canonical_ofPhrase hleft) h

theorem canonical_ofArguments {names : Name.Reading} {d : Depth} {ps : List Phrase}
    {trees : List (Expr Unit)} (h : ofArguments names d ps = .ok trees) :
    ∀ tree ∈ trees, tree.Canonical := by
  cases ps with
  | nil =>
    cases h
    exact List.forall_mem_nil _
  | cons p ps =>
    obtain ⟨deeper, -, h⟩ := bind_eq_ok.mp h
    obtain ⟨tree, htree, h⟩ := bind_eq_ok.mp h
    obtain ⟨others, hothers, h⟩ := bind_eq_ok.mp h
    cases h
    exact List.forall_mem_cons.mpr ⟨canonical_ofPhrase htree, canonical_ofArguments hothers⟩

theorem canonical_ofLinks {names : Name.Reading} {d : Depth} {left : Expr Unit}
    (hleft : left.Canonical) {links : List (BinaryOperator × Phrase)} {tree : Expr Unit}
    (h : ofLinks names d left links = .ok tree) : tree.Canonical := by
  cases links with
  | nil =>
    cases h
    exact hleft
  | cons link links =>
    obtain ⟨op, p⟩ := link
    obtain ⟨deeper, -, h⟩ := bind_eq_ok.mp h
    obtain ⟨right, hright, h⟩ := bind_eq_ok.mp h
    exact canonical_ofLinks (hleft.binary (canonical_ofPhrase hright) () op) h

end

theorem canonical_of_parse {names : Name.Reading} {limit : Nat} {line : Option Nat} {text : String}
    {e : Expr Mark} (h : parse names limit line text = .ok e) : e.Canonical := by
  obtain ⟨phrase, built, -, -, hbuilt, rfl⟩ := parse_eq_ok.mp h
  exact (canonical_ofPhrase hbuilt).numberFrom line 0

end Expr

/-! ### Declarations -/

/-- Every symbol has a canonical value. -/
def SymbolTable.Canonical (t : SymbolTable) : Prop :=
  ∀ name s, t.get? name = some s → s.value.Canonical

theorem SymbolTable.canonical_empty : SymbolTable.Canonical ∅ := by
  rintro name s ⟨⟩

theorem SymbolTable.Canonical.scope {t : SymbolTable} (h : t.Canonical) : t.scope.Canonical := by
  intro name v hv
  rw [get?_scope] at hv
  obtain ⟨s, hs, rfl⟩ := Option.map_eq_some_iff.mp hv
  exact h name s hs

namespace Symbol

structure Surroundings.Canonical (s : Surroundings) : Prop where
  table : s.table.Canonical
  external : s.external.Canonical

variable {s : Surroundings} (hs : s.Canonical)

include hs

theorem Surroundings.Canonical.lookup? {reference : String} {found : Symbol}
    (h : s.lookup? reference = some found) : found.value.Canonical := by
  have hexactly : ∀ name, s.exactly? name = some found → found.value.Canonical := by
    intro name hname
    rcases Option.or_eq_some_iff.mp hname with htable | ⟨-, hexternal⟩
    · exact hs.table name found htable
    · exact hs.external name found hexternal
  rcases Option.or_eq_some_iff.mp h with hqualified | ⟨-, hwritten⟩
  · exact hexactly _ hqualified
  · exact hexactly _ hwritten

theorem canonical_ofLiteral {expected : Shape} {l : Literal} {v : Value}
    (h : (Meaning.ofLiteral s expected l).value? = some v) : v.Canonical := by
  cases l with
  | quoted content =>
    cases h
    exact .text content
  | boolean b =>
    cases h
    exact .boolean b
  | number x =>
    cases h
    exact .number x
  | reference name =>
    unfold Meaning.ofLiteral at h
    simp only at h
    split at h
    · rename_i found hfound
      cases h
      exact hs.lookup? hfound
    · cases h
  | bare content =>
    unfold Meaning.ofLiteral at h
    simp only at h
    split at h
    · cases h
      exact .number _
    · cases h
      exact .text content

omit hs in
theorem canonical_property (raw : String) : (property raw).Canonical := by
  unfold property
  split
  · exact .text _
  · exact .boolean _
  · exact .number _
  · exact .text _
  · exact .text _

theorem canonical_valueOf {e : Element} {name : String} {kind : SymbolKind}
    {declared : Option Shape} {n : Noted} (h : valueOf s e name kind declared = .ok n) :
    n.value.Canonical := by
  cases kind with
  | var | const =>
    unfold valueOf at h
    simp only at h
    split at h
    · cases h
      exact .null
    · obtain ⟨hvalue, -, -⟩ := scalar_ok h
      exact canonical_ofLiteral hs hvalue
  | set =>
    cases h
    refine .ofSet fun v hv => ?_
    obtain ⟨m, hm, hvalue⟩ := List.mem_filterMap.mp hv
    obtain ⟨entry, -, rfl⟩ := List.mem_map.mp hm
    exact canonical_ofLiteral hs hvalue
  | graph =>
    cases h
    exact .graph _
  | entity =>
    cases h
    refine .ofFields (List.forall_mem_map.mpr fun p _ => ?_)
    dsimp only
    exact canonical_property p.2

omit hs in
theorem canonical_override {expected : Shape} {lookup? : String → Option Value}
    (hlookup : ∀ name v, lookup? name = some v → v.Canonical) {raw : String} {v : Value}
    (h : override expected lookup? raw = .ok v) : v.Canonical := by
  have htext : ∀ content, overrideText expected content = .ok v → v.Canonical := by
    intro content h
    unfold overrideText at h
    split at h
    · cases h
    · cases h
    · cases h
      exact .text content
  unfold override at h
  split at h
  · cases h
    exact .text _
  · cases h
    exact .boolean _
  · cases h
    exact .number _
  · split at h
    · rename_i found hfound
      cases h
      exact hlookup _ _ hfound
    · exact htext _ h
  · exact htext _ h

theorem canonical_declare {e : Element} {d : Declared} (h : declare s e = .ok d) :
    d.symbol.value.Canonical := by
  obtain ⟨_, _, _, _, -, -, -, -, hvalue, rfl⟩ := declare_eq_ok h
  exact canonical_valueOf hs hvalue

end Symbol

namespace Resolution

variable {scope : Option String} {external : SymbolTable} (hexternal : external.Canonical)

include hexternal

/-- A declaration adds a canonical value to canonical values, or nothing. -/
theorem canonical_add {r : Resolution} (h : r.table.Canonical) (e : Element) :
    (add scope external r e).table.Canonical := by
  cases hdeclare : Symbol.declare ⟨scope, r.table, external⟩ e with
  | error error =>
    rw [add_error hdeclare]
    exact h
  | ok d =>
    rw [add_ok hdeclare]
    intro name s hs
    rcases Table.get?_insert_eq_some hs with ⟨-, rfl⟩ | hbefore
    · exact Symbol.canonical_declare ⟨h, hexternal⟩ hdeclare
    · exact h name s hbefore

theorem canonical_foldl {r : Resolution} (h : r.table.Canonical) (ds : List Element) :
    (ds.foldl (add scope external) r).table.Canonical := by
  induction ds generalizing r with
  | nil => exact h
  | cons d ds ih => exact ih (canonical_add hexternal h d)

theorem canonical_resolve (root : Element) : (resolve scope external root).table.Canonical :=
  canonical_foldl hexternal SymbolTable.canonical_empty _

end Resolution

/-! ### Linked documents -/

theorem canonical_compile {space : Option String} {symbols : SymbolTable} (h : symbols.Canonical)
    (limit : Nat) (root : Element) : (compile space symbols limit root).rules.Canonical := by
  intro r hr
  obtain ⟨d, -, unnamed, hattempt⟩ := attempt_of_mem_compile hr
  have hdeclares := Compilation.attempt_eq_ok.mp hattempt
  obtain ⟨text, -, hbody⟩ := hdeclares.body
  exact ⟨hdeclares.scope ▸ h.scope, Expr.canonical_of_parse hbody⟩

namespace Link

/-- The symbols and the rules of a linked document are canonical, wherever they come from. -/
theorem link_canonical (library : Library) (limits : Limits) (p : Position) (root : Element) :
    (link library limits p root).symbols.Canonical ∧
      (link library limits p root).rules.Canonical := by
  induction p, root using @link_induction library limits with
  | step p root ih =>
    have hbrought : ∀ c ∈ brought library limits p root,
        c.linked.symbols.Canonical ∧ c.linked.rules.Canonical := by
      intro c hc
      rw [(mem_brought hc).2.2]
      exact ih c hc
    have hfirst : ∀ name s, (brought library limits p root).findSome?
        (fun c => c.linked.symbols.get? name) = some s → s.value.Canonical := by
      intro name s hs
      obtain ⟨c, hc, hget⟩ := List.exists_of_findSome?_eq_some hs
      exact (hbrought c hc).1 name s hget
    obtain ⟨below, hcollects⟩ := gathered_collects library limits p root
    have hgathered : (gathered library limits p root).symbols.Canonical := by
      intro name s hs
      rw [symbols_get?_of_merges hcollects.symbols name] at hs
      exact hfirst name s hs
    obtain ⟨level, -, hsymbols, hrules, -⟩ := link_merges library limits p root
    have hown : (ownSymbols library limits p root).Canonical :=
      Resolution.canonical_resolve hgathered root
    have htable : (link library limits p root).symbols.Canonical := by
      intro name s hs
      rw [symbols_get?_of_merges hsymbols name] at hs
      rcases Option.or_eq_some_iff.mp hs with hs | ⟨-, hs⟩
      · exact hown name s hs
      · exact hfirst name s hs
    refine ⟨htable, fun r hr => ?_⟩
    obtain ⟨lost, -, hperm⟩ := hrules.accounted
    rcases List.mem_append.mp (hperm.subset (List.mem_append_left lost hr)) with hr | hr
    · exact canonical_compile htable limits.expression root r hr
    · obtain ⟨c, hc, hr⟩ := List.mem_flatMap.mp hr
      exact (hbrought c hc).2 r hr

end Link

/-! ### Constructs -/

/-- The handlers of domains yield canonical values where the symbols are canonical. -/
def Domains.Canonical (d : Domains) : Prop :=
  ∀ tag handler, d.get? tag = some handler → ∀ (e : Element) (symbols : SymbolTable),
    symbols.Canonical → ∀ v, (handler e symbols).result = some v → v.Canonical

structure Program.Canonical (p : Program) : Prop where
  symbols : p.symbols.Canonical
  rules : p.rules.Canonical
  domains : p.domains.Canonical

theorem Program.Canonical.evaluate {p : Program} (hp : p.Canonical) :
    Evaluator.Canonical p.evaluate :=
  Expr.evaluateAt_canonical hp.rules _ _

namespace Frame

variable {f : Frame} (hf : f.scope.Canonical)

include hf in
theorem canonical_lookup? {name : String} {v : Value} (h : f.lookup? name = some v) :
    v.Canonical := by
  rcases Option.or_eq_some_iff.mp h with h | ⟨-, h⟩
  · exact hf _ v h
  · exact hf _ v h

theorem yields_parse (f : Frame) (p : Program) (line : Option Nat) (text : String) :
    (f.parse p line text).Yields Expr.Canonical := by
  unfold parse
  cases hparse : Expr.parse { scope := f.space } p.limits.expression line text with
  | error error => exact nofun
  | ok e =>
    rintro e ⟨⟩
    exact Expr.canonical_of_parse hparse

include hf in
theorem yields_collection (target construct : String) :
    (f.collection target construct).Yields fun items => ∀ v ∈ items, v.Canonical := by
  unfold collection
  split
  · exact nofun
  · rename_i v hv
    split
    · rename_i items hitems
      rintro items ⟨⟩
      exact (canonical_lookup? hf hv).elements? hitems
    · exact nofun

end Frame

namespace Script

variable {p : Program} {f : Frame} (hf : f.scope.Canonical)

section

variable (hrules : p.rules.Canonical)

include hrules

theorem keeps_chain {scope : Scope} (hscope : scope.Canonical) {current : Value}
    (h : current.Canonical) (names : List String) :
    (chain p scope current names).Keeps Value.Canonical := by
  induction names generalizing current with
  | nil => exact keeps_pure h
  | cons name names ih =>
    unfold chain
    split
    · exact keeps_fail _
    · rename_i r hget
      have hinner := Rule.canonical_chainScope r hscope h
      exact (keeps_ask hinner (hrules.get? hget).body).bind fun next hnext =>
        .tell [] _ (ih hnext)

include hf

theorem keeps_chainQuery (e : Element) (names : String) :
    (chainQuery p f e names).Keeps Value.Canonical := by
  unfold chainQuery
  split
  · exact keeps_fail _
  · rename_i target htarget
    refine keeps_chain hrules hf ?_ _
    cases hlookup : f.lookup? target with
    | none => exact .text _
    | some v => exact Frame.canonical_lookup? hf hlookup

theorem keeps_query (e : Element) : (query p f e).Keeps Value.Canonical := by
  have hshown : ∀ {x : Script Value}, x.Keeps Value.Canonical →
      (x >>= fun v => pure v.materialized).Keeps Value.Canonical :=
    fun h => h.bind fun v hv => keeps_pure hv.materialized
  unfold query
  cases e.attribute? "chain" with
  | some names => exact hshown (keeps_chainQuery hf hrules e names)
  | none =>
    cases e.attributeOrContent? ["expr"] with
    | none => exact hshown (keeps_fail _)
    | some text =>
      refine (keeps_ofRun (f.yields_parse p e.line text)).bind fun expression hexpression => ?_
      exact hshown (keeps_ask hf hexpression)

end

include hf

theorem keeps_countMatches {condition : Expr Mark} (h : condition.Canonical) {items : List Value}
    (hitems : ∀ v ∈ items, v.Canonical) :
    (countMatches f condition items).Keeps fun _ => True := by
  induction items with
  | nil => exact keeps_pure trivial
  | cons item items ih =>
    obtain ⟨hhead, htail⟩ := List.forall_mem_cons.mp hitems
    refine (keeps_ask (hf.bind Name.item hhead) h).bind fun v _ => ?_
    exact (ih htail).bind fun n _ => keeps_pure trivial

theorem keeps_quantifier (universal : Bool) (e : Element) :
    (quantifier p f universal e).Keeps Value.Canonical := by
  unfold quantifier
  split
  · exact keeps_fail _
  · rename_i target htarget
    split
    · exact keeps_fail _
    · refine (keeps_ofRun (Frame.yields_collection hf target e.tag)).bind fun items hitems => ?_
      refine (keeps_ofRun (f.yields_parse p e.line _)).bind fun condition hcondition => ?_
      refine (keeps_countMatches hf hcondition hitems).bind fun matched _ => ?_
      refine keeps_traced _ ?_
      split
      · refine .ofFields ?_
        simpa using ⟨.boolean _, .number _⟩
      · exact .boolean _

end Script

namespace Construct

variable {p : Program} {f : Frame}

theorem yields_query (hp : p.Canonical) (hf : f.scope.Canonical) (e : Element) :
    (query p f e).Yields Value.Canonical := by
  rw [← Script.run_query]
  exact (Script.keeps_query hf hp.rules e).run hp.evaluate

theorem yields_quantifier (hp : p.Canonical) (hf : f.scope.Canonical) (universal : Bool)
    (e : Element) : (quantifier p f universal e).Yields Value.Canonical := by
  rw [← Script.run_quantifier]
  exact (Script.keeps_quantifier hf universal e).run hp.evaluate

theorem yields_aggregate (hf : f.scope.Canonical) (e : Element) :
    (aggregate f e).Yields Value.Canonical := by
  unfold aggregate
  simp only
  split
  · exact nofun
  · split
    · exact nofun
    · rename_i target htarget
      refine (Frame.yields_collection hf target "aggregate").bind fun items hitems => ?_
      split
      · exact nofun
      · rintro v ⟨⟩
        exact .number _

theorem canonical_override (hf : f.scope.Canonical) {written : String} {b : String × Value}
    (h : override p f written = .ok b) : b.2.Canonical := by
  unfold override at h
  split at h
  · cases h
  · rename_i name raw hkeyed
    simp only at h
    split at h
    · rename_i v hv
      cases h
      exact Symbol.canonical_override (fun _ _ => Frame.canonical_lookup? hf) hv
    · cases h

/-- The overrides of a branch are literals, texts, or values that names stand for around it. -/
theorem canonical_overrides (hf : f.scope.Canonical) (e : Element) :
    ∀ b ∈ (overrides p f e).1, b.2.Canonical := by
  intro b hb
  obtain ⟨read, hread, hvalue⟩ := List.mem_filterMap.mp hb
  obtain ⟨written, -, rfl⟩ := List.mem_map.mp hread
  cases hover : override p f written with
  | error error =>
    rw [hover] at hvalue
    cases hvalue
  | ok found =>
    rw [hover] at hvalue
    cases hvalue
    exact canonical_override hf hover

end Construct

/-! ### Results -/

namespace Session

variable {p : Program}

theorem canonical_domainRecords (hp : p.Canonical) (e : Element) :
    ∀ r ∈ domainRecords p e, r.value.Canonical := by
  intro r hr
  unfold domainRecords at hr
  split at hr
  · cases hr
  · rename_i handler hhandler
    split at hr
    · rename_i v hv
      cases List.mem_singleton.mp hr
      exact hp.domains e.tag handler hhandler e p.symbols hp.symbols v hv
    · cases hr

theorem canonical_runRecords {run : Run Value} (h : run.Yields Value.Canonical) (own : Label) :
    ∀ r ∈ run.records own, r.value.Canonical := by
  intro r hr
  unfold Run.records at hr
  split at hr
  · rename_i v hv
    cases List.mem_singleton.mp hr
    exact h v hv
  · cases hr

mutual

/-- What a document records is canonical, in all its branches. -/
theorem canonical_records (hp : p.Canonical) {f : Frame} (hf : f.scope.Canonical) (c : Counts)
    (e : Element) : ∀ r ∈ (records p f c e).1, r.value.Canonical := by
  cases e with
  | mk tag attributes children text line =>
    unfold records
    cases hrole : Role.ofTag tag with
    | declarations | assertion => exact List.forall_mem_nil _
    | evaluated | simulated => exact canonical_recordsAll hp hf c children
    | query => exact canonical_runRecords (Construct.yields_query hp hf _) _
    | quantifier universal =>
      exact canonical_runRecords (Construct.yields_quantifier hp hf universal _) _
    | aggregate => exact canonical_runRecords (Construct.yields_aggregate hf _) _
    | branch =>
      let e : Element := ⟨tag, attributes, children, text, line⟩
      let inner := f.branch (c.label e).1.text (Construct.overrides p f e).1
      have hinner : inner.scope.Canonical := hf.overlay (Construct.canonical_overrides hf e)
      have hall := canonical_recordsAll hp hinner (c.label e).2 children
      show ∀ r ∈ (recordsAll p inner (c.label e).2 children).1.map (Record.inside (c.label e).1),
        r.value.Canonical
      exact List.forall_mem_map.mpr hall
    | domain => exact canonical_domainRecords hp _

theorem canonical_recordsAll (hp : p.Canonical) {f : Frame} (hf : f.scope.Canonical) (c : Counts)
    (es : List Element) : ∀ r ∈ (recordsAll p f c es).1, r.value.Canonical := by
  cases es with
  | nil => exact List.forall_mem_nil _
  | cons e es =>
    intro r hr
    rcases List.mem_append.mp hr with hr | hr
    · exact canonical_records hp hf c e r hr
    · exact canonical_recordsAll hp hf _ es r hr

end

theorem canonical_recordsOf (hp : p.Canonical) {scope : Scope} (hscope : scope.Canonical)
    (c : Counts) (is : List FullImport) : ∀ r ∈ (recordsOf p scope c is).1, r.value.Canonical := by
  induction is generalizing c with
  | nil => exact List.forall_mem_nil _
  | cons i is ih =>
    intro r hr
    rcases List.mem_append.mp hr with hr | hr
    · obtain ⟨own, hown, rfl⟩ := List.mem_map.mp hr
      have hvalue : (own.under i.space).value = own.value :=
        congrArg Prod.snd (own.entry_under i.space)
      rw [hvalue]
      exact canonical_recordsAll hp hscope c i.root.children own hown
    · exact ih _ r hr

end Session

namespace Engine

variable {engine : Engine} (h : engine.domains.Canonical) (source : Option String)

include h

theorem canonical_program (root : Element) :
    (engine.program (engine.linkChecked root source)).Canonical := by
  obtain ⟨hsymbols, hrules⟩ :=
    Link.link_canonical engine.library engine.limits (engine.start source) root
  exact ⟨hsymbols, hrules, h⟩

theorem canonical_results (document : Option Element) {name : String} {v : Value}
    (hv : (engine.evaluate document source).results.get? name = some v) : v.Canonical := by
  unfold evaluate at hv
  split at hv
  · cases hv
  · rename_i root hroot
    let linked := engine.linkChecked root source
    have hp : (engine.program linked).Canonical := canonical_program h source root
    have hrecords : ∀ r ∈ engine.records linked root, r.value.Canonical :=
      Session.canonical_recordsOf hp hp.symbols.scope ∅ (documents linked root)
    rcases Table.get?_insertAll_eq_some hv with hwritten | hempty
    · rw [run_writes] at hwritten
      obtain ⟨r, hr, heq⟩ := List.mem_map.mp hwritten
      cases heq
      exact hrecords r hr
    · cases hempty

end Engine

/-! ### Sets -/

namespace Resolution

variable {scope : Option String} {external : SymbolTable} {r : Resolution} {e : Element}
  {short : String} {ts : List String}

theorem table_add_set (h : Ready scope r e .set short)
    (helements : e.attribute? "elements" = some (Text.joined ", " ts))
    (hts : ∀ t ∈ ts, ',' ∉ t.toList ∧ Text.isAllBlank t = false) :
    (add scope external r e).table = r.table.insert (Name.qualify scope short)
      ⟨.set, .set, .ofSet (ts.filterMap fun t =>
        (Symbol.Surroundings.element ⟨scope, r.table, external⟩ t).value?), e.line⟩ := by
  obtain ⟨declared, hdeclared⟩ := h.shape
  have hvalue : Symbol.valueOf ⟨scope, r.table, external⟩ e (Name.qualify scope short) .set
      declared = .ok (Symbol.setOf ⟨scope, r.table, external⟩ (Name.qualify scope short)
        (Text.joined ", " ts)) := by
    rw [Symbol.valueOf, helements, Option.getD_some]
  rw [add_of_valueOf h hdeclared hvalue, Symbol.setOf_joined _ _ hts]
  rfl

theorem add_set_of_literals (h : Ready scope r e .set short)
    (helements : e.attribute? "elements" = some (Text.joined ", " ts))
    (hts : ∀ t ∈ ts, ',' ∉ t.toList ∧ Text.isAllBlank t = false)
    (hliteral : ∀ t ∈ ts, (Literal.classify t).value?.isSome) :
    add scope external r e =
      ⟨r.table.insert (Name.qualify scope short)
        ⟨.set, .set, .ofSet (ts.filterMap fun t => (Literal.classify t).value?), e.line⟩,
        r.faults⟩ := by
  refine add_of_ready h (fun _ => rfl) (fun declared => ?_) rfl
  rw [Symbol.valueOf, helements, Option.getD_some, Symbol.setOf_of_literals _ _ hts hliteral]

end Resolution

/-- Sets are canonical. A set is declared with the values that its elements stand for, and literals
are taken without a fault; two lists of values make the same set if and only if the same values
occur in them. An operation makes the one set in which a value occurs as the operation says of its
operands, and a set is shown as the list of its elements, which ascend and of which no two are the
same. Every set is so that a program holds, that an evaluation comes to and that is recorded as a
result, also inside other values. -/
theorem sets_canonical :
    (∀ (scope : Option String) (external : SymbolTable) (r : Resolution) (e : Element)
      (short : String) (ts : List String), Resolution.Ready scope r e .set short →
      e.attribute? "elements" = some (Text.joined ", " ts) →
      (∀ t ∈ ts, ',' ∉ t.toList ∧ Text.isAllBlank t = false) →
      (Resolution.add scope external r e).table = r.table.insert (Name.qualify scope short)
          ⟨.set, .set, .ofSet (ts.filterMap fun t =>
            (Symbol.Surroundings.element ⟨scope, r.table, external⟩ t).value?), e.line⟩ ∧
        ((∀ t ∈ ts, (Literal.classify t).value?.isSome) →
          Resolution.add scope external r e =
            ⟨r.table.insert (Name.qualify scope short)
              ⟨.set, .set, .ofSet (ts.filterMap fun t => (Literal.classify t).value?), e.line⟩,
              r.faults⟩)) ∧
    (∀ vs ws, Value.ofSet vs = Value.ofSet ws ↔
      ∀ v, Value.occursIn v vs = Value.occursIn v ws) ∧
    (∀ op xs ys, (Value.set xs).Canonical → (Value.set ys).Canonical →
      ∃ zs, Value.setOperation op (.set xs) (.set ys) = ⟨.set zs, none⟩ ∧
        (Value.set zs).Canonical ∧
        (∀ v, Value.occursIn v zs =
          Value.occursAfter op (Value.occursIn v xs) (Value.occursIn v ys)) ∧
        ∀ us, (Value.set us).Canonical →
          (∀ v, Value.occursIn v us = Value.occursIn v zs) → us = zs) ∧
    (∀ items, (Value.set items).Canonical →
      ∃ listed, (Value.set items).materialized = .list listed ∧ Value.Ascending listed ∧
        listed.Nodup ∧ listed.Perm items) ∧
    ∀ (engine : Engine), engine.domains.Canonical → ∀ (root : Element) (source : Option String),
      let p : Program := engine.program (engine.linkChecked root source)
      p.Canonical ∧ Evaluator.Canonical p.evaluate ∧
        ∀ name v, (engine.evaluate (some root) source).results.get? name = some v →
          v.Canonical := by
  refine ⟨fun scope external r e short ts hready helements hts =>
      ⟨Resolution.table_add_set hready helements hts,
        Resolution.add_set_of_literals hready helements hts⟩,
    fun vs ws => Value.ofSet_eq_iff, fun op xs ys hxs hys => ?_, fun items h => ?_,
    fun engine h root source => ?_⟩
  · have hzs := hxs.combine hys op
    refine ⟨_, rfl, hzs, Value.occursIn_combine op xs ys, fun us hus hsame => ?_⟩
    exact Value.eq_of_ascending hus.ascending hzs.ascending (Value.occursIn_eq_iff.mp hsame)
  · exact ⟨items, rfl, h.ascending, Value.nodup_of_ascending h.ascending, .refl items⟩
  · have hp := Engine.canonical_program h source root
    exact ⟨hp, hp.evaluate, fun name v hv => Engine.canonical_results h source (some root) hv⟩

/-- A set of literals, one of them twice. -/
def mixedSet : Element :=
  ((Element.leaf "set").setAttribute "name" "s").setAttribute "elements" "2, 'b', true, 2"

/-- A set with another set in it, and a query for what is in it. -/
def nestedSets : Element :=
  let inner :=
    ((Element.leaf "set").setAttribute "name" "s").setAttribute "elements" "'b', 'a', 'b'"
  let outer := ((Element.leaf "set").setAttribute "name" "t").setAttribute "elements" "s, 'c', s"
  let query := ((Element.leaf "query").setAttribute "name" "q").setAttribute "expr" "t union t"
  (Element.leaf "tenet").addChildren [(Element.leaf "symbols").addChildren [inner, outer], query]

theorem sets_canonical_nested :
    let inner := Value.set [.text "a", .text "b"]
    let engine : Engine := { library := .ofDocuments ∅ }
    Resolution.add none ∅ {} mixedSet =
      ⟨(∅ : SymbolTable).insert "s"
        ⟨.set, .set, .ofSet [.number 2, .text "b", .boolean true, .number 2], none⟩, []⟩ ∧
    Value.ofSet [.number 2, .text "b", .boolean true, .number 2] =
      Value.ofSet [.boolean true, .number 2, .text "b"] ∧
    (∃ zs, Value.setOperation .diff (.set [.text "c", inner]) (.set [.text "c"]) =
        ⟨.set zs, none⟩ ∧ Value.occursIn inner zs = true ∧ Value.occursIn (.text "c") zs = false) ∧
    (∃ listed, (Value.set [.text "c", inner]).materialized = .list listed ∧ listed.Nodup) ∧
    (engine.evaluate (some nestedSets) none).results.get? "q" = some (.list [.text "c", inner]) ∧
    (Value.list [.text "c", inner]).Canonical := by
  intro inner engine
  obtain ⟨hdeclared, hsame, hoperation, hlisted, hprogram⟩ := sets_canonical
  have hinner : inner.Canonical := .set (by decide) (by simpa using ⟨.text "a", .text "b"⟩)
  have houter : (Value.set [.text "c", inner]).Canonical :=
    .set (by decide) (by simpa using ⟨.text "c", hinner⟩)
  have hsingle : (Value.set [.text "c"]).Canonical :=
    .set (by decide) (by simpa using .text "c")
  have hdomains : engine.domains.Canonical := by rintro tag handler ⟨⟩
  have hresult : (engine.evaluate (some nestedSets) none).results.get? "q" =
      some (.list [.text "c", inner]) := by decide +kernel
  refine ⟨?_, ?_, ?_, ?_, hresult, (hprogram engine hdomains nestedSets none).2.2 "q" _ hresult⟩
  · have hready : Resolution.Ready none {} mixedSet .set "s" :=
      ⟨by decide, by decide, by decide, none, rfl⟩
    exact (hdeclared none ∅ {} mixedSet "s" ["2", "'b'", "true", "2"] hready (by decide)
      (by decide)).2 (by decide)
  · exact (hsame _ _).mpr (Value.occursIn_eq_iff.mpr fun v => by simp; tauto)
  · obtain ⟨zs, hzs, -, hoccurs, -⟩ := hoperation .diff _ _ houter hsingle
    exact ⟨zs, hzs, by rw [hoccurs]; decide, by rw [hoccurs]; decide⟩
  · obtain ⟨listed, hshown, -, hnodup, -⟩ := hlisted _ houter
    exact ⟨listed, hshown, hnodup⟩

end Premise
