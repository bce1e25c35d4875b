import Premise.Proofs.Linking
import Premise.Proofs.Outline
import Premise.Proofs.Text

/-!
Aliases keep imports apart.

All that a document declares under a namespace goes by names behind it, and so does all that its
imports bring, since their namespaces are this one or lie behind it. Hence documents that are
imported under different aliases have no name in common, with each other or with the importing
document: nothing is lost where they are merged, and the order of the imports does not matter.
-/

namespace Premise

namespace Name

/-- A name behind a namespace and a point. -/
def Inside (space name : String) : Prop := ∃ rest, name = space ++ "." ++ rest

theorem qualify_some {space : String} (h : space ≠ "") (name : String) :
    qualify (some space) name = space ++ "." ++ name := by
  unfold qualify
  simp [h]

theorem inside_qualify {space : String} (h : space ≠ "") (name : String) :
    Inside space (qualify (some space) name) := ⟨name, qualify_some h name⟩

theorem Inside.trans {space inner name : String} (h : Inside space inner) (k : Inside inner name) :
    Inside space name := by
  obtain ⟨rest, rfl⟩ := h
  obtain ⟨more, rfl⟩ := k
  exact ⟨rest ++ "." ++ more, by simp only [String.append_assoc]⟩

theorem qualify_append (space : Option String) (name rest : String) :
    qualify space name ++ rest = qualify space (name ++ rest) := by
  unfold qualify
  split
  · split
    · rfl
    · simp only [String.append_assoc]
  · rfl

theorem qualify_injective {space : Option String} {a b : String}
    (h : qualify space a = qualify space b) : a = b := by
  unfold qualify at h
  split at h
  · split at h
    · exact h
    · exact String.append_right_inj _ |>.mp h
  · exact h

theorem qualify_ne_empty (space : Option String) {name : String} (h : name ≠ "") :
    qualify space name ≠ "" := by
  unfold qualify
  split
  · split
    · exact h
    · simp
  · exact h

/-- What stands in front of the first point is the same in equal texts. -/
theorem eq_of_append_point {a b rest more : String} (ha : '.' ∉ a.toList) (hb : '.' ∉ b.toList)
    (h : a ++ "." ++ rest = b ++ "." ++ more) : a = b := by
  have hchars : ∀ xs ys us vs : List Char, '.' ∉ xs → '.' ∉ ys →
      xs ++ '.' :: us = ys ++ '.' :: vs → xs = ys := by
    intro xs
    induction xs with
    | nil =>
      intro ys us vs _ hys heq
      cases ys with
      | nil => rfl
      | cons y ys =>
        rw [List.nil_append, List.cons_append, List.cons.injEq] at heq
        exact absurd (heq.1 ▸ List.mem_cons_self) hys
    | cons x xs ih =>
      intro ys us vs hxs hys heq
      cases ys with
      | nil =>
        rw [List.nil_append, List.cons_append, List.cons.injEq] at heq
        exact absurd (heq.1 ▸ List.mem_cons_self) hxs
      | cons y ys =>
        rw [List.cons_append, List.cons_append, List.cons.injEq] at heq
        have hrest := ih ys us vs (fun hmem => hxs (List.mem_cons_of_mem x hmem))
          (fun hmem => hys (List.mem_cons_of_mem y hmem)) heq.2
        rw [heq.1, hrest]
  have hlists : a.toList ++ '.' :: rest.toList = b.toList ++ '.' :: more.toList := by
    have := congrArg String.toList h
    simpa using this
  exact String.toList_inj.mp (hchars _ _ _ _ ha hb hlists)

end Name

theorem Compilation.point_not_mem_generatedName (n : Nat) :
    '.' ∉ (generatedName n).toList := by
  intro hmem
  have hchars : (generatedName n).toList = "anonymous".toList ++ Nat.toDigits 10 n := by
    show ("anonymous" ++ toString n).toList = _
    rw [String.toList_append, Nat.toString_eq_ofList_toDigits, String.toList_ofList,
      String.toList_ofList]
  rw [hchars] at hmem
  rcases List.mem_append.mp hmem with hword | hdigit
  · exact absurd hword (by decide)
  · exact absurd (Nat.isDigit_of_mem_toDigits (by decide) (by decide) hdigit) (by decide)

theorem Table.eq_of_perm {α : Type} {s t : Table α} (h : s.toList.Perm t.toList) : s = t := by
  refine ext_get? fun name => Option.ext fun a => ?_
  exact (@mem_toList α s (name, a)).symm.trans (h.mem_iff.trans mem_toList)

namespace Rulebook

theorem get?_of_perm {b b' : Rulebook} (h : b.rules.Perm b'.rules) : b.get? = b'.get? := by
  funext name
  refine Option.ext fun r => ?_
  rw [get?_eq_some, get?_eq_some, h.mem_iff]

end Rulebook

namespace Element

/-- The names that a document declares symbols and rules by. -/
def declaredNames (root : Element) : List String :=
  ((Resolution.declarations root).filter fun d =>
      (SymbolKind.ofTag? d.tag).isSome).filterMap name? ++
    ((Compilation.declarations root).filter fun d => (RuleKind.ofTag? d.tag).isSome).filterMap name?

/-- Every import of the document has an alias of its own, and no declared name looks as if it came
from one of them. -/
structure Aliased (root : Element) : Prop where
  named : ∀ e ∈ root.findAll Link.importTag, ∃ name, e.alias? = some name ∧ '.' ∉ name.toList
  distinct : (root.findAll Link.importTag).Pairwise fun e f => e.alias? ≠ f.alias?
  apart : ∀ e ∈ root.findAll Link.importTag, ∀ name, e.alias? = some name →
    ∀ declared ∈ root.declaredNames, ¬Name.Inside name declared

theorem importsWithout_iff {tag : String} {root : Element} :
    ImportsWithout tag [root] ↔ ∀ i ∈ root.findAll Link.importTag, i.findAll tag = [] := by
  unfold ImportsWithout
  rw [tagged_cons, tagged_nil, List.append_nil]

/-- Imports have no kind, and other elements keep their names in the outline. -/
theorem names_outline (es : List Element) (declares : String → Bool)
    (h : declares Link.importTag = false) :
    ((es.map outline).filter fun d => declares d.tag).filterMap name? =
      (es.filter fun d => declares d.tag).filterMap name? := by
  induction es with
  | nil => rfl
  | cons e es ih =>
    rw [List.map_cons, List.filter_cons, List.filter_cons, tag_outline]
    by_cases hdeclares : declares e.tag = true
    · have hne : e.tag ≠ Link.importTag := by
        intro heq
        rw [heq, h] at hdeclares
        cases hdeclares
      have hname : e.outline.name? = e.name? := by
        rw [outline_of_ne hne]
        rfl
      rw [if_pos hdeclares, if_pos hdeclares, List.filterMap_cons, List.filterMap_cons, hname, ih]
    · rw [if_neg hdeclares, if_neg hdeclares, ih]

theorem declaredNames_outline {root : Element}
    (h : ∀ i ∈ root.findAll Link.importTag,
      i.findAll Resolution.sectionTag = [] ∧ i.findAll Compilation.sectionTag = []) :
    root.outline.declaredNames = root.declaredNames := by
  have hsymbols : Resolution.declarations root.outline =
      (Resolution.declarations root).map outline :=
    flatMap_children_outline (by decide) (importsWithout_iff.mpr fun i hi => (h i hi).1)
  have hrules : Compilation.declarations root.outline =
      (Compilation.declarations root).map outline :=
    flatMap_children_outline (by decide) (importsWithout_iff.mpr fun i hi => (h i hi).2)
  unfold declaredNames
  rw [hsymbols, hrules, names_outline _ (fun tag => (SymbolKind.ofTag? tag).isSome) (by decide),
    names_outline _ (fun tag => (RuleKind.ofTag? tag).isSome) (by decide)]

theorem Aliased.rearranged {root root' : Element} (h : root.Aliased)
    (houtline : root'.outline = root.outline)
    (himports : (root'.findAll Link.importTag).Perm (root.findAll Link.importTag))
    (hempty : ∀ i ∈ root.findAll Link.importTag,
      i.findAll Resolution.sectionTag = [] ∧ i.findAll Compilation.sectionTag = []) :
    root'.Aliased := by
  have hempty' : ∀ i ∈ root'.findAll Link.importTag,
      i.findAll Resolution.sectionTag = [] ∧ i.findAll Compilation.sectionTag = [] :=
    fun i hi => hempty i (himports.mem_iff.mp hi)
  have hdeclared : root'.declaredNames = root.declaredNames := by
    rw [← declaredNames_outline hempty', houtline, declaredNames_outline hempty]
  refine ⟨fun e he => h.named e (himports.mem_iff.mp he), ?_, fun e he => ?_⟩
  · exact (himports.pairwise_iff fun hne heq => hne heq.symm).mpr h.distinct
  · rw [hdeclared]
    exact h.apart e (himports.mem_iff.mp he)

end Element

namespace Link

theorem alias_ne_empty {e : Element} {name : String} (h : e.alias? = some name) : name ≠ "" := by
  obtain ⟨written, _, hblank⟩ := Option.bind_eq_some_iff.mp h
  exact Text.ne_empty_of_nonBlank? hblank

/-- The namespace of an import is that of the importing document, or lies behind it. -/
theorem spaceOf_cases (space : Option String) (e : Element) :
    spaceOf space e = space ∨
      ∃ name, name ≠ "" ∧ spaceOf space e = some (Name.qualify space name) := by
  cases h : e.alias? with
  | some name => exact .inr ⟨name, alias_ne_empty h, spaceOf_alias h space⟩
  | none => exact .inl (spaceOf_no_alias h space)

/-- All names are behind a namespace. -/
def AllInside (space : String) (l : Linked) : Prop :=
  (∀ name ∈ l.symbols.names, Name.Inside space name) ∧
    ∀ name ∈ l.rules.names, Name.Inside space name

variable {library : Library} {limits : Limits} {p : Position} {root : Element}

theorem mem_of_mem_link_symbols {e : String × Symbol}
    (h : e ∈ (link library limits p root).symbols.toList) :
    e ∈ (ownSymbols library limits p root).toList ∨
      ∃ c ∈ brought library limits p root, e ∈ c.linked.symbols.toList := by
  obtain ⟨level, -, hsymbols, -, -⟩ := link_merges library limits p root
  obtain ⟨lost, -, hperm⟩ := hsymbols.accounted
  have hmem := hperm.mem_iff.mp (List.mem_append_left lost h)
  rcases List.mem_append.mp hmem with hown | hbrought
  · exact .inl hown
  · exact .inr (List.mem_flatMap.mp hbrought)

theorem mem_of_mem_link_rules {r : Rule} (h : r ∈ (link library limits p root).rules.rules) :
    r ∈ (ownRules library limits p root).rules ∨
      ∃ c ∈ brought library limits p root, r ∈ c.linked.rules.rules := by
  obtain ⟨level, -, -, hrules, -⟩ := link_merges library limits p root
  obtain ⟨lost, -, hperm⟩ := hrules.accounted
  have hmem := hperm.mem_iff.mp (List.mem_append_left lost h)
  rcases List.mem_append.mp hmem with hown | hbrought
  · exact .inl hown
  · exact .inr (List.mem_flatMap.mp hbrought)

theorem link_inside (library : Library) (limits : Limits) (p : Position) (root : Element) :
    ∀ space, p.space = some space → space ≠ "" → AllInside space (link library limits p root) := by
  refine @link_induction library limits (fun p root => ∀ space, p.space = some space →
    space ≠ "" → AllInside space (link library limits p root))
    (fun p root ih space hspace hne => ?_) p root
  -- what an import brings is inside its namespace, and that is this one or behind it
  have hchild : ∀ c ∈ brought library limits p root, AllInside space c.linked := by
    intro c hc
    obtain ⟨-, haccept, hlinked⟩ := mem_brought hc
    have hchildspace := space_of_accept haccept
    rw [hspace] at hchildspace
    rw [hlinked]
    rcases spaceOf_cases (some space) c.element with hsame | ⟨name, hname, hbehind⟩
    · exact ih c hc space (hchildspace.trans hsame) hne
    · obtain ⟨hsymbols, hrules⟩ := ih c hc _ (hchildspace.trans hbehind)
        (Name.qualify_ne_empty _ hname)
      have hinner := Name.inside_qualify hne name
      exact ⟨fun n hn => hinner.trans (hsymbols n hn), fun n hn => hinner.trans (hrules n hn)⟩
  constructor
  · intro name hname
    obtain ⟨e, he, rfl⟩ := List.mem_map.mp hname
    rcases mem_of_mem_link_symbols he with hown | ⟨c, hc, hmem⟩
    · obtain ⟨d, -, short, -, -, heq⟩ := name_of_mem_resolve hown
      rw [heq, hspace]
      exact Name.inside_qualify hne short
    · exact (hchild c hc).1 _ (List.mem_map_of_mem hmem)
  · intro name hname
    obtain ⟨r, hr, rfl⟩ := List.mem_map.mp hname
    rcases mem_of_mem_link_rules hr with hown | ⟨c, hc, hmem⟩
    · obtain ⟨d, -, -, short, heq, -⟩ := name_of_mem_compile hown
      rw [heq, hspace]
      exact Name.inside_qualify hne short
    · exact (hchild c hc).2 _ (List.mem_map_of_mem hmem)

/-! ### Aliased imports -/

theorem brought?_element {e : Element} {c : Brought} (h : brought? library limits p e = some c) :
    c.element = e := by
  obtain ⟨a, _, rfl⟩ := Option.map_eq_some_iff.mp h
  rfl

theorem brought_aliased (h : root.Aliased) {c : Brought} (hc : c ∈ brought library limits p root) :
    ∃ name, c.element.alias? = some name ∧ '.' ∉ name.toList ∧
      (∀ declared ∈ root.declaredNames, ¬Name.Inside name declared) ∧
      AllInside (Name.qualify p.space name) c.linked := by
  obtain ⟨helement, haccept, hlinked⟩ := mem_brought hc
  obtain ⟨name, halias, hpoint⟩ := h.named _ helement
  refine ⟨name, halias, hpoint, h.apart _ helement name halias, ?_⟩
  rw [hlinked]
  have hspace := (space_of_accept haccept).trans (spaceOf_alias halias _)
  refine link_inside library limits _ _ _ hspace ?_
  exact Name.qualify_ne_empty _ (alias_ne_empty halias)

/-- Names of the document itself and names behind the aliases of its imports are all different. -/
theorem nodup_of_aliased (h : root.Aliased) {own : List String} {names : Brought → List String}
    (hown : own.Nodup) (hnames : ∀ c, (names c).Nodup)
    (hinside : ∀ c name, AllInside name c.linked → ∀ n ∈ names c, Name.Inside name n)
    (hapart : ∀ n ∈ own, ∃ short, n = Name.qualify p.space short ∧
      ('.' ∉ short.toList ∨ short ∈ root.declaredNames)) :
    (own ++ (brought library limits p root).flatMap names).Nodup := by
  refine List.nodup_append.mpr ⟨hown, List.nodup_flatMap.mpr ⟨fun c _ => hnames c, ?_⟩, ?_⟩
  · have hpairwise : (brought library limits p root).Pairwise fun c d =>
        c.element.alias? ≠ d.element.alias? := by
      refine List.pairwise_filterMap.mpr (h.distinct.imp fun hne c hc d hd => ?_)
      rw [brought?_element hc, brought?_element hd]
      exact hne
    refine hpairwise.imp_of_mem fun {c d} hc hd hne n hnc hnd => ?_
    obtain ⟨a, hca, hapoint, -, hcinside⟩ := brought_aliased h hc
    obtain ⟨b, hdb, hbpoint, -, hdinside⟩ := brought_aliased h hd
    obtain ⟨rest, hrest⟩ := hinside c _ hcinside n hnc
    obtain ⟨more, hmore⟩ := hinside d _ hdinside n hnd
    have heq := hrest.symm.trans hmore
    rw [Name.qualify_append, Name.qualify_append, Name.qualify_append, Name.qualify_append] at heq
    have hsame := Name.eq_of_append_point hapoint hbpoint (Name.qualify_injective heq)
    exact hne (by rw [hca, hdb, hsame])
  · intro n hn m hm heq
    obtain ⟨c, hc, hmc⟩ := List.mem_flatMap.mp hm
    obtain ⟨name, -, hpoint, hdeclared, hcinside⟩ := brought_aliased h hc
    obtain ⟨rest, hrest⟩ := hinside c _ hcinside m hmc
    obtain ⟨short, hshort, hown⟩ := hapart n hn
    have hqualified := (hshort.symm.trans heq).trans hrest
    rw [Name.qualify_append, Name.qualify_append] at hqualified
    have hname := Name.qualify_injective hqualified
    rcases hown with hfree | hmem
    · exact hfree (by rw [hname]; simp)
    · exact hdeclared short hmem ⟨rest, hname⟩

theorem nodup_symbols (h : root.Aliased) :
    (((ownSymbols library limits p root).toList ++
      Brought.symbols (brought library limits p root)).map (·.1)).Nodup := by
  rw [List.map_append, Brought.symbols, List.map_flatMap]
  refine nodup_of_aliased h (Table.nodup_names _) (fun c => Table.nodup_names _)
    (fun c name hall => hall.1) fun n hn => ?_
  obtain ⟨e, he, rfl⟩ := List.mem_map.mp hn
  obtain ⟨d, hd, short, hshort, hkind, hname⟩ := name_of_mem_resolve he
  refine ⟨short, hname, .inr (List.mem_append_left _ ?_)⟩
  exact List.mem_filterMap.mpr ⟨d, List.mem_filter.mpr ⟨hd, hkind⟩, hshort⟩

theorem nodup_rules (h : root.Aliased) :
    (((ownRules library limits p root).rules ++
      Brought.rules (brought library limits p root)).map Rule.name).Nodup := by
  rw [List.map_append, Brought.rules, List.map_flatMap]
  refine nodup_of_aliased h (Rulebook.nodup_names _) (fun c => Rulebook.nodup_names _)
    (fun c name hall => hall.2) fun n hn => ?_
  obtain ⟨r, hr, rfl⟩ := List.mem_map.mp hn
  obtain ⟨d, hd, hkind, short, hname, hshort | ⟨k, rfl⟩⟩ := name_of_mem_compile hr
  · refine ⟨short, hname, .inr (List.mem_append_right _ ?_)⟩
    exact List.mem_filterMap.mpr ⟨d, List.mem_filter.mpr ⟨hd, hkind⟩, hshort⟩
  · exact ⟨_, hname, .inl (Compilation.point_not_mem_generatedName k)⟩

/-- Nothing is lost, and the linked document has the document's own declarations and all that its
imports brought. -/
theorem link_disjoint (h : root.Aliased) : ∃ level : List Fault,
    (link library limits p root).faults.Perm
      (level ++ Brought.faults (brought library limits p root)) ∧
    (∀ store, Fault.conflicts store level = []) ∧
    (link library limits p root).symbols.toList.Perm
      ((ownSymbols library limits p root).toList ++
        Brought.symbols (brought library limits p root)) ∧
    (link library limits p root).rules.rules =
      (ownRules library limits p root).rules ++ Brought.rules (brought library limits p root) := by
  obtain ⟨level, hfaults, hsymbols, hrules, horder⟩ := link_merges library limits p root
  obtain ⟨hsymbolconflicts, hsymbolperm⟩ := hsymbols.disjoint (nodup_symbols h)
  obtain ⟨hruleconflicts, -⟩ := hrules.disjoint (nodup_rules h)
  refine ⟨level, hfaults, fun store => ?_, hsymbolperm, ?_⟩
  · cases store with
    | symbols => exact hsymbolconflicts
    | rules => exact hruleconflicts
  · have hnodup := @nodup_rules library limits p root h
    rw [List.map_append] at hnodup
    have hall := newRules_of_nodup hnodup
    rw [horder]
    exact congrArg _ hall

theorem gathered_perm (h : root.Aliased) :
    (gathered library limits p root).symbols.toList.Perm
      (Brought.symbols (brought library limits p root)) := by
  obtain ⟨level, hcollects⟩ := gathered_collects library limits p root
  have hnodup := @nodup_symbols library limits p root h
  rw [List.map_append] at hnodup
  exact (hcollects.symbols.disjoint (List.nodup_append.mp hnodup).2.1).2

section

variable {root' : Element} (houtline : root'.outline = root.outline)
  (himports : (root'.findAll importTag).Perm (root.findAll importTag))
  (hempty : ∀ i ∈ root.findAll importTag,
    i.findAll Resolution.sectionTag = [] ∧ i.findAll Compilation.sectionTag = [])

include houtline himports hempty

/-- Documents that declare the same and import the same under aliases, in whatever order, come to
the same. -/
theorem link_rearranged (h : root.Aliased) :
    (link library limits p root').symbols = (link library limits p root).symbols ∧
      (link library limits p root').rules.get? = (link library limits p root).rules.get? ∧
      (link library limits p root').constraints = (link library limits p root).constraints := by
  have hwithout : Element.ImportsWithout Resolution.sectionTag [root] ∧
      Element.ImportsWithout Compilation.sectionTag [root] :=
    ⟨Element.importsWithout_iff.mpr fun i hi => (hempty i hi).1,
      Element.importsWithout_iff.mpr fun i hi => (hempty i hi).2⟩
  have hwithout' : Element.ImportsWithout Resolution.sectionTag [root'] ∧
      Element.ImportsWithout Compilation.sectionTag [root'] :=
    ⟨Element.importsWithout_iff.mpr fun i hi => (hempty i (himports.mem_iff.mp hi)).1,
      Element.importsWithout_iff.mpr fun i hi => (hempty i (himports.mem_iff.mp hi)).2⟩
  have hbrought : (brought library limits p root').Perm (brought library limits p root) :=
    himports.filterMap _
  have h' : root'.Aliased := h.rearranged houtline himports hempty
  have hgathered : (gathered library limits p root').symbols =
      (gathered library limits p root).symbols :=
    Table.eq_of_perm (((gathered_perm h').trans (hbrought.flatMap_right _)).trans
      (gathered_perm h).symm)
  have hown : ownSymbols library limits p root' = ownSymbols library limits p root := by
    unfold ownSymbols
    rw [hgathered, ← table_resolve_outline _ _ hwithout'.1, houtline,
      table_resolve_outline _ _ hwithout.1]
  obtain ⟨-, -, -, hsymbols, hrules⟩ := @link_disjoint library limits p root h
  obtain ⟨-, -, -, hsymbols', hrules'⟩ := @link_disjoint library limits p root' h'
  rw [hown] at hsymbols'
  have hsame : (link library limits p root').symbols = (link library limits p root).symbols :=
    Table.eq_of_perm ((hsymbols'.trans ((hbrought.flatMap_right _).append_left _)).trans
      hsymbols.symm)
  have hownrules : ownRules library limits p root' = ownRules library limits p root := by
    unfold ownRules
    rw [hsame, ← rules_compile_outline _ _ _ hwithout'.2, houtline,
      rules_compile_outline _ _ _ hwithout.2]
  refine ⟨hsame, Rulebook.get?_of_perm ?_, ?_⟩
  · rw [hrules, hrules', hownrules]
    exact (hbrought.flatMap_right _).append_left _
  · rw [link_constraints, link_constraints, hownrules]

end

/-- The linked document of an import has names behind its namespace only. So imports under aliases
of their own lose nothing where they are merged, and as long as no import element has sections
inside it, their order does not matter. -/
theorem link_aliased (library : Library) (limits : Limits) (p : Position) (root : Element) :
    (p.space ≠ some "" → ∀ c ∈ brought library limits p root,
      c.accepted.position.space ≠ some "" ∧
      ∀ space, c.accepted.position.space = some space → AllInside space c.linked) ∧
    (root.Aliased →
      (∃ level : List Fault,
        (link library limits p root).faults.Perm
          (level ++ (brought library limits p root).flatMap fun c => c.linked.faults) ∧
        ∀ f ∈ level, ∀ store, f.conflict? store = none) ∧
      (link library limits p root).symbols.toList.Perm
        ((ownSymbols library limits p root).toList ++
          (brought library limits p root).flatMap fun c => c.linked.symbols.toList) ∧
      (link library limits p root).rules.rules =
        (ownRules library limits p root).rules ++
          (brought library limits p root).flatMap (fun c => c.linked.rules.rules) ∧
      ∀ root' : Element, root'.outline = root.outline →
        (root'.findAll importTag).Perm (root.findAll importTag) →
        (∀ i ∈ root.findAll importTag,
          i.findAll Resolution.sectionTag = [] ∧ i.findAll Compilation.sectionTag = []) →
        (link library limits p root').symbols = (link library limits p root).symbols ∧
        (∀ name, (link library limits p root').rules.get? name =
          (link library limits p root).rules.get? name) ∧
        (link library limits p root').constraints = (link library limits p root).constraints) := by
  refine ⟨fun hspace c hc => ?_, fun h => ?_⟩
  · obtain ⟨-, haccept, hlinked⟩ := mem_brought hc
    have hne : c.accepted.position.space ≠ some "" := by
      rw [space_of_accept haccept]
      rcases spaceOf_cases p.space c.element with hsame | ⟨name, hname, hbehind⟩
      · rw [hsame]
        exact hspace
      · rw [hbehind]
        exact fun heq => Name.qualify_ne_empty _ hname (Option.some.inj heq)
    refine ⟨hne, fun space heq => ?_⟩
    rw [hlinked]
    exact link_inside library limits _ _ space heq fun hempty => hne (by rw [heq, hempty])
  · obtain ⟨level, hfaults, hconflicts, hsymbols, hrules⟩ := @link_disjoint library limits p root h
    refine ⟨⟨level, hfaults, fun f hf store => ?_⟩, hsymbols, hrules,
      fun root' houtline himports hempty => ?_⟩
    · exact List.filterMap_eq_nil_iff.mp (hconflicts store) f hf
    · obtain ⟨hsame, hget, hconstraints⟩ := @link_rearranged library limits p root root' houtline
        himports hempty h
      exact ⟨hsame, fun name => congrFun hget name, hconstraints⟩

/-! ### Two imports of one document -/

/-- An import under an alias, with elements of its own inside it. -/
def aliasedImport (reference name : String) (inside : List Element) : Element :=
  (((Element.leaf importTag).setAttribute "src" reference).setAttribute "as" name).addChildren
    inside

theorem aliased_of_pair {root a b : Element} (himports : root.findAll importTag = [a, b])
    (ha : a.alias? = some "a") (hb : b.alias? = some "b")
    (hdeclared : ∀ declared ∈ root.declaredNames, declared = "s") : root.Aliased := by
  have houtside : ∀ name : String, name.length = 1 → ¬Name.Inside name "s" := by
    intro name hname ⟨rest, heq⟩
    have hlength := congrArg String.length heq
    have hone : "s".length = 1 := by decide
    have hpoint : ".".length = 1 := by decide
    rw [String.length_append, String.length_append] at hlength
    omega
  refine ⟨?_, ?_, ?_⟩ <;> rw [himports]
  · intro e he
    rcases List.mem_pair.mp he with rfl | rfl
    · exact ⟨"a", ha, by decide⟩
    · exact ⟨"b", hb, by decide⟩
  · refine List.pairwise_pair.mpr ?_
    rw [ha, hb]
    decide
  · intro e he name hname declared hmem
    rw [hdeclared declared hmem]
    refine houtside name ?_
    rcases List.mem_pair.mp he with rfl | rfl
    · rw [← Option.some.inj (ha.symm.trans hname)]
      decide
    · rw [← Option.some.inj (hb.symm.trans hname)]
      decide

/-- A document imports another one twice and declares a variable of the same name in between: it
links to three symbols, whichever import comes first. -/
theorem link_aliased_twice :
    let a := aliasedImport "unit" "a" []
    let b := aliasedImport "unit" "b" []
    let own := variableSection "s" "'y'"
    let root := (Element.leaf "tenet").addChildren [a, own, b]
    let root' := (Element.leaf "tenet").addChildren [b, own, a]
    outermost.space ≠ some "" ∧ root.Aliased ∧
    (∀ c ∈ brought unitLibrary {} outermost root, c.accepted.position.space ≠ some "") ∧
    (link unitLibrary {} outermost root).symbols.names = ["a.s", "b.s", "s"] ∧
    (link unitLibrary {} outermost root').symbols =
      (link unitLibrary {} outermost root).symbols := by
  intro a b own root root'
  have himports : root.findAll importTag = [a, b] := by
    rw [Element.findAll_eq_filter]
    rfl
  have himports' : root'.findAll importTag = [b, a] := by
    rw [Element.findAll_eq_filter]
    rfl
  have hswapped : (root'.findAll importTag).Perm (root.findAll importTag) := by
    rw [himports, himports']
    exact .swap a b []
  have hempty : ∀ i ∈ root.findAll importTag,
      i.findAll Resolution.sectionTag = [] ∧ i.findAll Compilation.sectionTag = [] := by
    rw [himports]
    intro i hi
    rw [Element.findAll_eq_filter, Element.findAll_eq_filter]
    rcases List.mem_pair.mp hi with rfl | rfl
    · exact ⟨rfl, rfl⟩
    · exact ⟨rfl, rfl⟩
  have houter : outermost.space ≠ some "" := by decide
  have haliased : root.Aliased :=
    aliased_of_pair himports (by decide +kernel) (by decide +kernel) (by decide +kernel)
  obtain ⟨hinside, haliases⟩ := link_aliased unitLibrary {} outermost root
  obtain ⟨-, -, -, hsame⟩ := haliases haliased
  exact ⟨houter, haliased, fun c hc => (hinside houter c hc).1, by decide +kernel,
    (hsame root' rfl hswapped hempty).1⟩

/-- Imports with sections inside them cannot change places: both of these declare the same variable
in the importing document, and the first one counts. -/
theorem link_aliased_sections :
    let a := aliasedImport "unit" "a" [variableSection "s" "'x'"]
    let b := aliasedImport "unit" "b" [variableSection "s" "'y'"]
    let root := (Element.leaf "tenet").addChildren [a, b]
    let root' := (Element.leaf "tenet").addChildren [b, a]
    root.Aliased ∧ root'.outline = root.outline ∧
    (root'.findAll importTag).Perm (root.findAll importTag) ∧
    (link unitLibrary {} outermost root').symbols ≠
      (link unitLibrary {} outermost root).symbols := by
  intro a b root root'
  have himports : root.findAll importTag = [a, b] := by
    rw [Element.findAll_eq_filter]
    rfl
  have himports' : root'.findAll importTag = [b, a] := by
    rw [Element.findAll_eq_filter]
    rfl
  refine ⟨?_, rfl, ?_, fun heq => ?_⟩
  · exact aliased_of_pair himports (by decide +kernel) (by decide +kernel) (by decide +kernel)
  · rw [himports, himports']
    exact .swap a b []
  · have htext := congrArg (fun t : SymbolTable => (t.get? "s").bind fun s => s.value.text?) heq
    revert htext
    decide +kernel

end Link

end Premise
