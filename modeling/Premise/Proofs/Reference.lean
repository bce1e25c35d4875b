import Premise.Proofs.Compilation
import Premise.Proofs.Resolution
import Premise.Proofs.RoundTrip

/-!
Rules that name a symbol.

Names are put behind the namespace in two places: `Name.qualify` does it for declarations, and
`Name.Reading.resolve` for expressions. The two agree unless the namespace is empty
(`resolve_eq_qualify`), and then a body that is the name of a symbol alone is a reference that the
rule's scope binds to the value of that symbol. An empty namespace is none for declarations; in an
expression it still leaves its point in front of the name, and the reference misses the symbol.
-/

namespace Premise

namespace Name

variable {x : String}

/-- No builtin, and not the current element. -/
def IsPlain (x : String) : Prop := x ∉ builtins ∧ x ≠ item

theorem resolve_some (h : IsPlain x) (ns : String) {parameters : List String}
    (hx : x ∉ parameters) : Reading.resolve ⟨some ns, parameters⟩ x = ns ++ "." ++ x := by
  unfold Reading.resolve
  simp [h.1, h.2, hx]

theorem resolve_eq_qualify (h : IsPlain x) {scope : Option String} (hscope : scope ≠ some "")
    {parameters : List String} (hx : x ∉ parameters) :
    Reading.resolve ⟨scope, parameters⟩ x = qualify scope x := by
  cases scope with
  | none => rfl
  | some ns =>
    have hne : ns ≠ "" := fun heq => hscope (congrArg some heq)
    rw [resolve_some h ns hx]
    unfold qualify
    simp [hne]

end Name

namespace Expr

/-! ### A name alone -/

variable {x : String} {text : String}

theorem quiet_of_written (hx : Layout.IsName x) {cs : List Char}
    (h : Layout.Written [x.toList] cs) :
    ∀ c ∈ cs, Phrase.isSpace c = true ∨ isNameChar c = true := by
  obtain ⟨first, more, heq, hstart, hmore, -⟩ := hx
  obtain ⟨front, mid, back, hfront, rfl, rfl, hback⟩ := h
  intro c hc
  rw [heq] at hc
  simp only [List.mem_append, List.mem_cons] at hc
  rcases hc with (hc | rfl | hc) | hc
  · exact .inl (hfront c hc)
  · exact .inr (isNameChar_of_isNameStart hstart)
  · exact .inr (hmore c hc)
  · exact .inl (hback c hc)

/-- A name, with white space around it or not, is parsed as a reference under every limit. -/
theorem parse_name (hx : Layout.IsName x) (h : Layout.Written [x.toList] text.toList)
    (names : Name.Reading) (limit : Nat) (line : Option Nat) :
    parse names limit line text = .ok (.reference ⟨0, line⟩ (names.resolve x)) := by
  have hvalid : (Layout.name x).Valid := hx
  have htokens := (Layout.name x).isToken_of_mem hvalid
  have hne := (Layout.name x).tokens_ne_nil
  have hwritten : Layout.Written (Layout.name x).tokens text.toList := h
  have hsource : (expandProducts text).toList = text.toList := by
    unfold expandProducts
    rw [String.toList_ofList, hwritten.withProducts_eq hne htokens]
  have hblank := hwritten.not_all_isBlank hne htokens
  have hread : Phrase.read text.toList = .ok (.name x) :=
    (Layout.name x).read_written hvalid hwritten
  have hshallow : ¬ estimateNesting text.toList > limit := by
    rw [estimateNesting_quiet (quiet_of_written hx h)]
    exact Nat.not_lt_zero limit
  unfold parse
  simp only [hsource, hblank, Bool.false_eq_true, if_false, hshallow, hread, ofPhrase, bind,
    Except.bind]
  rfl

end Expr

namespace Compilation

variable {s : Rule.Surroundings} {e : Element} {r : Rule} {x : String}

/-- The declaration can be compiled, and its body is the name alone, which is no parameter. -/
structure Says (s : Rule.Surroundings) (short x : String) (e : Element) : Prop where
  parameters : ∃ kind ps, RuleKind.ofTag? e.tag = some kind ∧
    Rule.parametersOf kind (Name.qualify s.scope short) ((e.attribute? "params").getD "") = .ok ps ∧
    x ∉ ps.map Parameter.name
  body : ∃ text, e.content?.or (e.attribute? "body") = some text ∧
    Layout.Written [x.toList] text.toList

/-- Such a declaration comes to a rule. -/
theorem Says.declares {short : String} (h : Says s short x e) (hx : Layout.IsName x) :
    ∃ r : Rule, r.Declares s e short ∧ x ∉ r.parameters.map Parameter.name ∧
      r.body = .reference ⟨0, e.line⟩
        (Name.Reading.resolve ⟨s.scope, r.parameters.map Parameter.name⟩ x) := by
  obtain ⟨kind, ps, hkind, hps, hnone⟩ := h.parameters
  obtain ⟨text, htext, hwritten⟩ := h.body
  have hparse := Expr.parse_name hx hwritten ⟨s.scope, ps.map Parameter.name⟩ s.limit e.line
  exact ⟨⟨Name.qualify s.scope short, kind, _, ps, e.line, s.values⟩,
    ⟨hkind, rfl, rfl, hps, ⟨text, htext, hparse⟩, rfl⟩, hnone, rfl⟩

/-- A declared symbol goes by its name behind the namespace, and a declaration whose body is that
name alone comes to a rule, which is there in the end if its name is free. Its body is a reference,
which the rule's scope binds to the value of the symbol, unless the namespace is empty: then the
reference has a point in front, and it is bound to whatever may go by that name. The rules may see
other symbols beside those of the document. -/
theorem reference_bound (scope : Option String) (external symbols : SymbolTable) (limit : Nat)
    (root : Element)
    (hsymbols : ∀ name symbol, (resolve scope external root).table.get? name = some symbol →
      symbols.get? name = some symbol)
    {x : String} (hx : Layout.IsName x) (hplain : Name.IsPlain x)
    {ds ds' : List Element} {d : Element} {declared : Symbol.Declared}
    (hdeclarations : Resolution.declarations root = ds ++ d :: ds') (hname : d.name? = some x)
    (hdeclare : Symbol.declare ⟨scope, (Resolution.after scope external ds).table, external⟩ d =
      .ok declared)
    {before rest : List Element} {e : Element}
    (hrules : declarations root = before ++ e :: rest)
    (halone : Says ⟨scope, symbols.scope, limit⟩
      (shortName (after ⟨scope, symbols.scope, limit⟩ before).unnamed e) x e) :
    let s : Rule.Surroundings := ⟨scope, symbols.scope, limit⟩
    (resolve scope external root).table.get? (Name.qualify scope x) = some declared.symbol ∧
    ∃ r name, attempt s (after s before).unnamed e = .ok r ∧
      ((after s before).rules.get? r.name = none →
        r ∈ (compile scope symbols limit root).rules.rules) ∧
      r.body = .reference ⟨0, e.line⟩ name ∧
      (scope ≠ some "" →
        name = Name.qualify scope x ∧ r.scope.get? name = some declared.symbol.value) ∧
      (scope = some "" → name = "." ++ x ∧
        r.scope.get? name = (symbols.get? ("." ++ x)).map Symbol.value) := by
  intro s
  have hresolved := Resolution.get?_resolve hdeclarations hname hdeclare
  obtain ⟨r, hr, hnone, hbody⟩ := halone.declares hx
  have hscope : ∀ name, r.scope.get? name = (symbols.get? name).map Symbol.value := by
    intro name
    rw [hr.scope]
    exact symbols.get?_scope name
  refine ⟨hresolved, r, _, attempt_eq_ok.mpr hr, mem_compile hrules hr, hbody, fun hne => ?_,
    fun hempty => ?_⟩
  · have heq := Name.resolve_eq_qualify hplain hne hnone
    refine ⟨heq, ?_⟩
    rw [hscope, heq, hsymbols _ _ hresolved]
    rfl
  · subst hempty
    have heq := Name.resolve_some hplain "" hnone
    rw [String.empty_append] at heq
    exact ⟨heq, by rw [hscope, heq]⟩

def symbol : Element :=
  ((Element.leaf "var").setAttribute "name" "x").setAttribute "init" "'v'"

def naming : Element :=
  ((Element.leaf "rule").setAttribute "name" "f").setAttribute "body" "x"

/-- A document with a variable and a rule that names it. -/
def introduced : Element :=
  (Element.leaf "tenet").addChildren
    [(Element.leaf Resolution.sectionTag).addChild symbol,
      (Element.leaf sectionTag).addChild naming]

theorem symbols_introduced : Resolution.declarations introduced = [] ++ symbol :: [] := by
  rw [Resolution.declarations, Element.findAll_eq_filter]
  rfl

theorem rules_introduced : declarations introduced = [] ++ naming :: [] := by
  rw [declarations, Element.findAll_eq_filter]
  rfl

theorem says_naming (scope : Option String) (values : Scope) (limit : Nat) :
    Says ⟨scope, values, limit⟩ "f" "x" naming where
  parameters := ⟨.rule, [], rfl, rfl, List.not_mem_nil⟩
  body := ⟨"x", rfl, [], [], [], List.forall_mem_nil _, rfl, rfl, List.forall_mem_nil _⟩

theorem isName_x : Layout.IsName "x" := ⟨'x', [], rfl, rfl, List.forall_mem_nil _, by decide⟩

theorem reference_bound_in_space :
    let table := (resolve (some "n") ∅ introduced).table
    ∃ r ∈ (compile (some "n") table 8 introduced).rules.rules,
      r.body = .reference ⟨0, none⟩ "n.x" ∧ r.scope.get? "n.x" = some (.text "v") := by
  intro table
  have hplain : Name.IsPlain "x" := ⟨by decide, by decide⟩
  obtain ⟨-, r, name, hattempt, hmem, hbody, hbound, -⟩ :=
    @reference_bound (some "n") ∅ table 8 introduced (fun _ _ h => h) "x" isName_x hplain
      [] [] symbol ⟨"n.x", ⟨.var, .any, .text "v", none⟩, []⟩ symbols_introduced rfl rfl
      [] [] naming rules_introduced (says_naming ..)
  obtain ⟨rfl, hvalue⟩ := hbound (by decide)
  have hfree : (after ⟨some "n", table.scope, 8⟩ []).rules.get? r.name = none := rfl
  exact ⟨r, hmem hfree, hbody, hvalue⟩

/-- In an empty namespace the symbol goes by `x`, but the rule whose body is `x` refers to `.x`. -/
theorem reference_lost_in_empty_space :
    let table := (resolve (some "") ∅ introduced).table
    (table.get? (Name.qualify (some "") "x")).map Symbol.value = some (.text "v") ∧
    declarations introduced = [naming] ∧ naming.attribute? "body" = some "x" ∧
    ∃ r ∈ (compile (some "") table 8 introduced).rules.rules,
      r.name = "f" ∧ r.parameters = [] ∧
      r.body = .reference ⟨0, none⟩ ".x" ∧ r.scope.get? ".x" = none := by
  intro table
  obtain ⟨r, hr, -, hbody⟩ := (says_naming (some "") table.scope 8).declares isName_x
  have htable : table = Table.ofList [("x", ⟨.var, .any, .text "v", none⟩)] := by
    show (resolve (some "") ∅ introduced).table = _
    rw [resolve, symbols_introduced]
    rfl
  have hread : Except.ok [] = Except.ok r.parameters := hr.parameters
  have hparameters : r.parameters = [] := (Except.ok.inj hread).symm
  have hvalue : (table.get? "x").map Symbol.value = some (.text "v") := by
    rw [htable]
    rfl
  refine ⟨hvalue, rules_introduced, rfl, r, mem_compile rules_introduced hr rfl, hr.name,
    hparameters, ?_, ?_⟩
  · rw [hbody, hparameters]
    rfl
  · rw [hr.scope, htable]
    rfl

end Compilation

end Premise
