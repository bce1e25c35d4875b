import Mathlib.Data.List.Induction
import Premise.Proofs.Declarations
import Premise.Proofs.Walk

/-!
Resolution accounts for every declaration, and never revises.

A declaration adds one symbol under a name that was free (`Adds`), or is left out and one fault says
why (`LeavesOut`, with the reasons in `Symbol.Refused`). What is there before it, symbols and faults,
stays as it is (`Keeps`), so the symbols and the declarations left out are together as many as the
declarations, and what a symbol is bound to was settled by the declarations up to its own.
-/

namespace Premise

namespace Symbol

variable {s : Surroundings} {e : Element} {error : SymbolError}

/-- Why a declaration is left out: it has no name or one that is taken, its kind or its shape is
unknown, or its value is that of a symbol which there is not or which has another shape. -/
inductive Refused (s : Surroundings) (e : Element) : SymbolError → Prop
  | unnamed (hname : e.name? = none) : Refused s e (.unnamed e.tag)
  | duplicate {short : String} (hname : e.name? = some short)
      (htaken : s.table.contains (Name.qualify s.scope short) = true) :
      Refused s e (.duplicate (Name.qualify s.scope short))
  | unknownKind {short : String} (hname : e.name? = some short)
      (hkind : SymbolKind.ofTag? e.tag = none) : Refused s e (.unknownKind e.tag)
  | invalidShape {short written : String} (hname : e.name? = some short)
      (hwritten : (e.attribute? "type").bind Text.nonBlank? = some written)
      (hshape : Shape.ofName? written = none) :
      Refused s e (.invalidShape written (Name.qualify s.scope short))
  | unresolved {short raw reference : String} (hname : e.name? = some short)
      (hraw : e.attributeOrContent? ["init", "value"] = some raw)
      (hreference : Literal.classify raw = .reference reference)
      (hlookup : s.lookup? reference = none) :
      Refused s e (.unresolved reference (Name.qualify s.scope short))
  | referenceMismatch {short raw reference : String} {declared : Shape} {found : Symbol}
      (hname : e.name? = some short)
      (hraw : e.attributeOrContent? ["init", "value"] = some raw)
      (hreference : Literal.classify raw = .reference reference)
      (hlookup : s.lookup? reference = some found)
      (hshape : declaredShape e (Name.qualify s.scope short) = .ok (some declared))
      (hdeclared : declared ≠ .any) (hfound : found.shape ≠ .any) (hne : declared ≠ found.shape) :
      Refused s e (.referenceMismatch (Name.qualify s.scope short) declared reference found.shape)

theorem refused_of_declaredShape {short : String} (hname : e.name? = some short)
    (h : declaredShape e (Name.qualify s.scope short) = .error error) : Refused s e error := by
  unfold declaredShape at h
  split at h
  · cases h
  · rename_i written hwritten
    split at h
    · cases h
    · rename_i hshape
      cases h
      exact .invalidShape hname hwritten hshape

theorem refused_of_scalar {short raw : String} {declared : Option Shape}
    (hname : e.name? = some short) (hraw : e.attributeOrContent? ["init", "value"] = some raw)
    (hshape : declaredShape e (Name.qualify s.scope short) = .ok declared)
    (h : scalar s (Name.qualify s.scope short) (declared.getD .any) raw = .error error) :
    Refused s e error := by
  unfold scalar Meaning.ofLiteral at h
  cases hliteral : Literal.classify raw with
  | quoted content | boolean b | number x =>
    rw [hliteral] at h
    cases h
  | bare content =>
    rw [hliteral] at h
    by_cases hnumber : declared.getD .any = .number
    · simp only [hnumber, if_true] at h
      cases h
    · simp only [hnumber, if_false] at h
      cases h
  | reference reference =>
    rw [hliteral] at h
    cases hlookup : s.lookup? reference with
    | none =>
      simp only [hlookup] at h
      cases h
      exact .unresolved hname hraw hliteral hlookup
    | some found =>
      simp only [hlookup] at h
      split at h
      · rename_i hmismatch
        obtain ⟨hdeclared, hfound, hne⟩ := hmismatch
        cases h
        cases declared with
        | none => exact absurd rfl hdeclared
        | some shape =>
          exact .referenceMismatch hname hraw hliteral hlookup hshape hdeclared hfound hne
      · cases h

theorem refused_of_declare (h : declare s e = .error error) : Refused s e error := by
  unfold declare at h
  split at h
  · rename_i hname
    cases h
    exact .unnamed hname
  · rename_i short hname
    simp only at h
    split at h
    · rename_i htaken
      cases h
      exact .duplicate hname htaken
    · split at h
      · rename_i hkind
        cases h
        exact .unknownKind hname hkind
      · rename_i kind hkind
        cases hshape : declaredShape e (Name.qualify s.scope short) with
        | error refusal =>
          rw [hshape] at h
          cases h
          exact refused_of_declaredShape hname hshape
        | ok declared =>
          cases hvalue : valueOf s e (Name.qualify s.scope short) kind declared with
          | ok noted =>
            simp only [hshape, hvalue, bind, Except.bind] at h
            cases h
          | error refusal =>
            simp only [hshape, hvalue, bind, Except.bind] at h
            cases h
            cases kind with
            | var | const =>
              simp only [valueOf] at hvalue
              split at hvalue
              · cases hvalue
              · rename_i raw hraw
                exact refused_of_scalar hname hraw hshape hvalue
            | set | graph | entity => cases hvalue

end Symbol

namespace Resolution

variable {scope : Option String} {external : SymbolTable} {e : Element} {name : String}
  {s : Symbol} {r r' r'' : Resolution}

/-! ### One declaration -/

/-- A declaration adds a symbol under its name, which was free. Faults may come with it. -/
structure Adds (scope : Option String) (e : Element) (name : String) (s : Symbol)
    (r r' : Resolution) : Prop where
  named : ∃ short, e.name? = some short ∧ name = Name.qualify scope short
  kind : SymbolKind.ofTag? e.tag = some s.kind
  shape : ∃ declared, Symbol.declaredShape e name = .ok declared ∧ s.shape = s.kind.shape declared
  line : s.line = e.line
  free : r.table.get? name = none
  bound : r'.table.get? name = some s
  others : ∀ other, other ≠ name → r'.table.get? other = r.table.get? other
  reports : ∃ more, r'.faults = r.faults ++ more ∧ ∀ f ∈ more, f.kind = .semantic ∧ f.line = e.line

/-- A declaration is left out, and all that comes of it is one fault at its line, which says why. -/
structure LeavesOut (scope : Option String) (external : SymbolTable) (e : Element)
    (r r' : Resolution) : Prop where
  table : r'.table = r.table
  reports : ∃ f, r'.faults = r.faults ++ [f] ∧ f.kind = .semantic ∧ f.line = e.line ∧
    ∃ error, f.cause = .symbol error ∧ Symbol.Refused ⟨scope, r.table, external⟩ e error

theorem kind_fault (e : Element) (error : SymbolError) : (fault e error).kind = .semantic := rfl

theorem line_fault (e : Element) (error : SymbolError) : (fault e error).line = e.line :=
  Option.or_none

theorem add_cases (scope : Option String) (external : SymbolTable) (r : Resolution) (e : Element) :
    (∃ name s, Adds scope e name s r (add scope external r e)) ∨
      LeavesOut scope external e r (add scope external r e) := by
  cases hdeclare : Symbol.declare ⟨scope, r.table, external⟩ e with
  | error error =>
    rw [add_error hdeclare]
    exact .inr ⟨rfl, fault e error, rfl, kind_fault e error, line_fault e error, error, rfl,
      Symbol.refused_of_declare hdeclare⟩
  | ok d =>
    obtain ⟨short, kind, declared, noted, hshort, hfree, hkind, hshape, -, rfl⟩ :=
      Symbol.declare_eq_ok hdeclare
    rw [add_ok hdeclare]
    refine .inl ⟨_, _, ⟨short, hshort, rfl⟩, hkind, ⟨declared, hshape, rfl⟩, rfl,
      Option.not_isSome_iff_eq_none.mp (Bool.eq_false_iff.mp hfree), Table.get?_insert_self ..,
      fun other hother => Table.get?_insert_of_ne _ _ hother, _, rfl, fun f hf => ?_⟩
    obtain ⟨error, -, rfl⟩ := List.mem_map.mp hf
    exact ⟨kind_fault e error, line_fault e error⟩

theorem Adds.size_eq (h : Adds scope e name s r r') : r'.table.size = r.table.size + 1 := by
  have htable : r'.table = r.table.insert name s := by
    refine Table.ext_get? fun other => ?_
    by_cases hother : other = name
    · rw [hother, h.bound, Table.get?_insert_self]
    · rw [h.others other hother, Table.get?_insert_of_ne _ _ hother]
  rw [htable, Table.size_insert_of_free s h.free]

/-! ### What stays -/

/-- Every symbol is kept as it is, and every fault in its place. -/
structure Keeps (r r' : Resolution) : Prop where
  symbols : ∀ name s, r.table.get? name = some s → r'.table.get? name = some s
  faults : r.faults <+: r'.faults

theorem Keeps.refl (r : Resolution) : Keeps r r := ⟨fun _ _ h => h, List.prefix_rfl⟩

theorem Keeps.trans (h : Keeps r r') (h' : Keeps r' r'') : Keeps r r'' :=
  ⟨fun name s hs => h'.symbols name s (h.symbols name s hs), h.faults.trans h'.faults⟩

theorem Adds.keeps (h : Adds scope e name s r r') : Keeps r r' := by
  obtain ⟨more, hmore, -⟩ := h.reports
  refine ⟨fun other t ht => ?_, by rw [hmore]; exact List.prefix_append ..⟩
  have hother : other ≠ name := by
    rintro rfl
    rw [h.free] at ht
    cases ht
  rw [h.others other hother, ht]

theorem LeavesOut.keeps (h : LeavesOut scope external e r r') : Keeps r r' := by
  obtain ⟨f, hf, -⟩ := h.reports
  exact ⟨fun name s hs => by rw [h.table, hs], by rw [hf]; exact List.prefix_append ..⟩

theorem keeps_add (scope : Option String) (external : SymbolTable) (r : Resolution) (e : Element) :
    Keeps r (add scope external r e) := by
  rcases add_cases scope external r e with ⟨name, s, hadds⟩ | hout
  · exact hadds.keeps
  · exact hout.keeps

theorem keeps_foldl (scope : Option String) (external : SymbolTable) (ds : List Element)
    (r : Resolution) : Keeps r (ds.foldl (add scope external) r) := by
  induction ds generalizing r with
  | nil => exact .refl r
  | cons d ds ih => exact (keeps_add scope external r d).trans (ih _)

/-! ### How many there are -/

/-- How many of the declarations leave the table at the size it has. -/
def leftOut (scope : Option String) (external : SymbolTable) (r : Resolution) :
    List Element → Nat
  | [] => 0
  | e :: es =>
    let r' := add scope external r e
    (if r'.table.size = r.table.size then 1 else 0) + leftOut scope external r' es

theorem size_foldl (scope : Option String) (external : SymbolTable) (ds : List Element)
    (r : Resolution) : (ds.foldl (add scope external) r).table.size +
      leftOut scope external r ds = r.table.size + ds.length := by
  induction ds generalizing r with
  | nil => rfl
  | cons d ds ih =>
    have hrest := ih (add scope external r d)
    rw [List.foldl_cons, leftOut, List.length_cons]
    rcases add_cases scope external r d with ⟨name, s, hadds⟩ | hout
    · have hsize := hadds.size_eq
      rw [if_neg (by omega)]
      omega
    · have hsize : (add scope external r d).table.size = r.table.size := by rw [hout.table]
      rw [if_pos hsize]
      omega

/-! ### Whole documents -/

/-- What the declarations come to, one after the other. -/
def after (scope : Option String) (external : SymbolTable) (ds : List Element) : Resolution :=
  ds.foldl (add scope external) {}

theorem after_append (before ds : List Element) : after scope external (before ++ ds) =
    ds.foldl (add scope external) (after scope external before) :=
  List.foldl_append

theorem keeps_after {before rest : List Element} :
    Keeps (after scope external before) (after scope external (before ++ rest)) := by
  rw [after_append]
  exact keeps_foldl scope external rest _

/-- Every symbol was added by a declaration. -/
theorem exists_adds {ds : List Element} (h : (after scope external ds).table.get? name = some s) :
    ∃ before e rest, ds = before ++ e :: rest ∧
      Adds scope e name s (after scope external before) (after scope external (before ++ [e])) := by
  induction ds using List.reverseRecOn with
  | nil => cases h
  | append_singleton ds d ih =>
    have hlast : after scope external (ds ++ [d]) =
        add scope external (after scope external ds) d := after_append ds [d]
    have hearlier : (after scope external ds).table.get? name = some s →
        ∃ before e rest, ds ++ [d] = before ++ e :: rest ∧
          Adds scope e name s (after scope external before)
            (after scope external (before ++ [e])) := by
      intro hds
      obtain ⟨before, e, rest, rfl, hadds⟩ := ih hds
      exact ⟨before, e, rest ++ [d], by simp, hadds⟩
    rcases add_cases scope external (after scope external ds) d with ⟨other, t, hadds⟩ | hout
    · rw [← hlast] at hadds
      by_cases heq : name = other
      · subst heq
        rw [hadds.bound] at h
        cases h
        exact ⟨ds, d, [], rfl, hadds⟩
      · rw [hadds.others name heq] at h
        exact hearlier h
    · rw [hlast, hout.table] at h
      exact hearlier h

/-- What a declaration comes to is there in the end, under its name behind the namespace. -/
theorem get?_resolve {root d : Element} {ds ds' : List Element} {short : String}
    {declared : Symbol.Declared}
    (hsplit : declarations root = ds ++ d :: ds') (hname : d.name? = some short)
    (h : Symbol.declare ⟨scope, (after scope external ds).table, external⟩ d = .ok declared) :
    (resolve scope external root).table.get? (Name.qualify scope short) = some declared.symbol := by
  obtain ⟨short', hshort', hqualified, -, -⟩ := Symbol.declare_ok h
  rw [hname, Option.some_inj] at hshort'
  have hwhole : resolve scope external root = after scope external (ds ++ [d] ++ ds') := by
    rw [List.append_assoc, List.singleton_append, ← hsplit]
    rfl
  have hadd : (after scope external (ds ++ [d])).table.get? (Name.qualify scope short) =
      some declared.symbol := by
    rw [after_append, List.foldl_cons, List.foldl_nil, add_ok h, hshort', ← hqualified]
    exact Table.get?_insert_self ..
  rw [hwhole]
  exact keeps_after.symbols _ _ hadd

/-- The declarations are the children of the sections of symbols, in document order. Each of them
adds one symbol or is left out with one fault, and whatever is there after it is there in the end.
Symbols and declarations left out are as many as the declarations; and what a symbol is, other
documents agree on that begin with the same declarations up to its own. -/
theorem resolve_accounts (scope : Option String) (external : SymbolTable) (root : Element) :
    declarations root =
        ((Element.preorder root).filter fun x => x.tag = sectionTag).flatMap Element.children ∧
      (∀ before e rest, declarations root = before ++ e :: rest →
        ((∃ name s, Adds scope e name s (after scope external before)
            (after scope external (before ++ [e]))) ∨
          LeavesOut scope external e (after scope external before)
            (after scope external (before ++ [e]))) ∧
        Keeps (after scope external before) (after scope external (before ++ [e])) ∧
        Keeps (after scope external (before ++ [e])) (resolve scope external root)) ∧
      (resolve scope external root).table.size +
          leftOut scope external {} (declarations root) = (declarations root).length ∧
      ∀ name s, (resolve scope external root).table.get? name = some s →
        ∃ before e rest, declarations root = before ++ e :: rest ∧
          Adds scope e name s (after scope external before)
            (after scope external (before ++ [e])) ∧
          ∀ root' rest', declarations root' = before ++ e :: rest' →
            (resolve scope external root').table.get? name = some s := by
  have hkept : ∀ root' before e rest', declarations root' = before ++ e :: rest' →
      Keeps (after scope external (before ++ [e])) (resolve scope external root') := by
    intro root' before e rest' hsplit
    have hwhole : resolve scope external root' =
        after scope external (before ++ [e] ++ rest') := by
      rw [List.append_assoc, List.singleton_append, ← hsplit]
      rfl
    rw [hwhole]
    exact keeps_after
  refine ⟨?_, fun before e rest hsplit => ⟨?_, keeps_after, hkept root before e rest hsplit⟩, ?_,
    fun name s hs => ?_⟩
  · rw [declarations, Element.findAll_eq_filter]
  · rw [after_append before [e]]
    exact add_cases scope external (after scope external before) e
  · have hsize := size_foldl scope external (declarations root) {}
    rw [show (Resolution.table {}).size = 0 from rfl, Nat.zero_add] at hsize
    exact hsize
  · obtain ⟨before, e, rest, hsplit, hadds⟩ := @exists_adds scope external name s (declarations root) hs
    exact ⟨before, e, rest, hsplit, hadds, fun root' rest' hsplit' =>
      (hkept root' before e rest' hsplit').symbols name s hadds.bound⟩

/-- A document of seven declarations: three cannot be taken, two are taken with a fault. -/
def mixed : Element :=
  let declaration (tag : String) (attributes : List (String × String)) (line : Nat) : Element :=
    ⟨tag, Table.ofList attributes, [], none, some line⟩
  (Element.leaf "tenet").addChild ((Element.leaf sectionTag).addChildren
    [declaration "var" [("name", "a"), ("init", "true")] 1,
      declaration "const" [("name", "b"), ("init", "a")] 2,
      declaration "var" [("name", "a"), ("init", "false")] 3,
      declaration "var" [("init", "b")] 4,
      declaration "table" [("name", "t")] 5,
      declaration "var" [("name", "c"), ("type", "string"), ("init", "b")] 6,
      declaration "set" [("name", "s"), ("elements", "missing, 'x'")] 7])

theorem resolve_accounts_mixed :
    (resolve none ∅ mixed).table.names = ["a", "b", "c", "s"] ∧
    (resolve none ∅ mixed).faults.map Fault.line = [some 3, some 4, some 5, some 6, some 7] ∧
    leftOut none ∅ {} (declarations mixed) = 3 ∧
    (resolve none ∅ mixed).table.size + leftOut none ∅ {} (declarations mixed) = 7 := by
  have hcount := (resolve_accounts none ∅ mixed).2.2.1
  exact ⟨by decide +kernel, by decide +kernel, by decide +kernel,
    hcount.trans (by decide +kernel)⟩

end Resolution

end Premise
