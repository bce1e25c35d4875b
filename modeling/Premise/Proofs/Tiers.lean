import Premise.Proofs.Readers

/-!
What the readers yield.

A phrase is formed at a tier when what stands in it binds more tightly than the phrase does, but for
what stands in parentheses, where everything is allowed again. The readers yield nothing else
(`formed_of_read`), and they find nothing in a text of blanks (`not_all_isBlank_of_read`). What a
text is parsed into comes of its phrase alone then (`Expr.parse_eq_ok`).
-/

namespace Premise

namespace Phrase

/-- Phrases of a tier, or of a tighter one. -/
inductive Formed : Tier → Phrase → Prop
  | number (whole fraction : List Char) : Formed .primary (.number whole fraction)
  | text (content : String) : Formed .primary (.text content)
  | truth (b : Bool) : Formed .primary (.truth b)
  | name (name : String) : Formed .primary (.name name)
  | call (name : String) {arguments : List Phrase}
      (h : ∀ p ∈ arguments, Formed (.chain .logical) p) : Formed .primary (.call name arguments)
  | group {inner : Phrase} (h : Formed (.chain .logical) inner) : Formed .primary (.group inner)
  | signed (op : UnaryOperator) {operand : Phrase} (h : Formed .unary operand) :
      Formed .unary (.signed op operand)
  | power {base exponent : Phrase} (hbase : Formed .unary base)
      (hexponent : Formed .power exponent) : Formed .power (.power base exponent)
  | chain {level : Precedence} {first : Phrase} {links : List (BinaryOperator × Phrase)}
      (hfirst : Formed (Tier.chain level).next first)
      (hlinks : ∀ link ∈ links, Formed (Tier.chain level).next link.2) :
      Formed (.chain level) (.chain first links)
  | tighter {tier : Tier} {p : Phrase} (h : Formed tier.next p) : Formed tier p

/-- What a reader yields is formed at the tier. -/
def Forms (tier : Tier) (reader : PhraseReader) : Prop :=
  ∀ ⦃cs p rest⦄, reader cs = .ok (p, rest) → Formed tier p

theorem formed_of_readQuoted? {quote : Char} {cs rest : List Char} {p : Phrase}
    (h : readQuoted? quote cs = some (p, rest)) : Formed .primary p := by
  unfold readQuoted? at h
  split at h
  · cases h
  · cases h
    exact .text _

theorem formed_readNumber (cs : List Char) : Formed .primary (readNumber cs).1 := by
  unfold readNumber
  simp only
  split
  · split
    · exact .number _ _
    · exact .number _ _
  · exact .number _ _

section

variable {inner : PhraseReader} (hinner : Forms (.chain .logical) inner)
include hinner

theorem formed_of_readArguments {steps : Nat} {cs rest : List Char} {ps : List Phrase}
    (h : readArguments inner steps cs = .ok (ps, rest)) :
    ∀ p ∈ ps, Formed (.chain .logical) p := by
  induction steps generalizing cs ps rest with
  | zero => cases h
  | succ steps ih =>
    unfold readArguments at h
    split at h
    · obtain ⟨⟨argument, after⟩, hargument, h⟩ := bind_eq_ok.mp h
      obtain ⟨⟨arguments, last⟩, harguments, h⟩ := bind_eq_ok.mp h
      cases h
      exact List.forall_mem_cons.mpr ⟨hinner hargument, ih harguments⟩
    · cases h
      exact List.forall_mem_nil _
    · cases h

theorem forms_readPrimary (steps : Nat) : Forms .primary (readPrimary inner steps) := by
  intro cs p rest h
  cases readPrimary_eq_ok.mp h with
  | group hgroup hclosed => exact .group (hinner hgroup)
  | quoted hquote hread => exact formed_of_readQuoted? hread
  | @number c cs _ _ hdigit hread =>
    have hformed := formed_readNumber (c :: cs)
    rw [hread] at hformed
    exact hformed
  | truth b hstart hword => exact .truth b
  | name hstart hword hname hcall => exact .name _
  | callNil hstart hword hname hopened hclosed => exact .call _ (List.forall_mem_nil _)
  | callCons hstart hword hname hopened hsome hfirst hothers =>
    exact .call _ (List.forall_mem_cons.mpr
      ⟨hinner hfirst, formed_of_readArguments hinner hothers⟩)

theorem forms_readSigned (steps : Nat) : Forms .unary (readSigned inner steps) := by
  intro cs p rest h
  obtain ⟨⟨operand, after⟩, hoperand, h⟩ := bind_eq_ok.mp h
  cases h
  have hprimary : Formed .unary operand := .tighter (forms_readPrimary hinner steps hoperand)
  generalize (signs cs).1 = ops
  induction ops with
  | nil => exact hprimary
  | cons op ops ih => exact .signed op ih

theorem forms_readPower (steps : Nat) : Forms .power (readPower inner steps) := by
  intro cs p rest h
  induction steps generalizing cs p rest with
  | zero => cases h
  | succ steps ih =>
    obtain ⟨⟨base, after⟩, hbase, h⟩ := bind_eq_ok.mp h
    have hsigned := forms_readSigned hinner steps hbase
    simp only at h
    split at h
    · obtain ⟨⟨exponent, last⟩, hexponent, h⟩ := bind_eq_ok.mp h
      cases h
      exact .power hsigned (ih hexponent)
    · cases h
      exact .tighter hsigned

end

theorem forms_readLinks {level : Precedence} {operand : PhraseReader}
    (hoperand : Forms (Tier.chain level).next operand) {steps : Nat} {cs rest : List Char}
    {links : List (BinaryOperator × Phrase)}
    (h : readLinks level operand steps cs = .ok (links, rest)) :
    ∀ link ∈ links, Formed (Tier.chain level).next link.2 := by
  induction steps generalizing cs links rest with
  | zero => cases h
  | succ steps ih =>
    unfold readLinks at h
    split at h
    · cases h
      exact List.forall_mem_nil _
    · obtain ⟨⟨right, after⟩, hright, h⟩ := bind_eq_ok.mp h
      obtain ⟨⟨others, last⟩, hothers, h⟩ := bind_eq_ok.mp h
      cases h
      exact List.forall_mem_cons.mpr ⟨hoperand hright, ih hothers⟩

theorem forms_readChain {level : Precedence} {operand : PhraseReader}
    (hoperand : Forms (Tier.chain level).next operand) (steps : Nat) :
    Forms (.chain level) (readChain level steps operand) := by
  intro cs p rest h
  obtain ⟨⟨first, after⟩, hfirst, h⟩ := bind_eq_ok.mp h
  obtain ⟨⟨links, last⟩, hlinks, h⟩ := bind_eq_ok.mp h
  cases h
  split
  · exact .tighter (hoperand hfirst)
  · exact .chain (hoperand hfirst) (forms_readLinks hoperand hlinks)

theorem forms_readExpression (n : Nat) : Forms (.chain .logical) (readExpression n) := by
  induction n with
  | zero =>
    intro cs p rest h
    cases h
  | succ n ih =>
    have hpower := forms_readPower ih (n + 1)
    have hmultiplicative := @forms_readChain .multiplicative _ hpower (n + 1)
    have hadditive := @forms_readChain .additive _ hmultiplicative (n + 1)
    have hcomparison := @forms_readChain .comparison _ hadditive (n + 1)
    exact @forms_readChain .logical _ hcomparison (n + 1)

theorem formed_of_read {cs : List Char} {p : Phrase} (h : read cs = .ok p) :
    Formed (.chain .logical) p := by
  obtain ⟨⟨phrase, rest⟩, hphrase, h⟩ := bind_eq_ok.mp h
  simp only at h
  split at h
  · cases h
    exact forms_readExpression _ hphrase
  · cases h

/-! ### Where nothing can be read -/

/-- The reader finds nothing in a text of blanks. -/
def Sees (reader : PhraseReader) : Prop :=
  ∀ ⦃cs found⦄, reader cs = .ok found → ∃ c ∈ cs, Text.isBlank c = false

theorem sees_readPrimary (inner : PhraseReader) (steps : Nat) : Sees (readPrimary inner steps) := by
  rintro cs ⟨p, rest⟩ h
  cases readPrimary_eq_ok.mp h with
  | group hgroup hclosed => exact ⟨_, List.mem_cons_self, by decide⟩
  | @quoted c _ _ _ hquote hread =>
    refine ⟨c, List.mem_cons_self, ?_⟩
    rcases Expr.eq_of_isQuote hquote with rfl | rfl <;> decide
  | @number c _ _ _ hdigit hread =>
    have hcode := Expr.code_of_isDigit hdigit
    exact ⟨c, List.mem_cons_self, Text.isBlank_of_printable (by omega)⟩
  | @truth c _ _ _ hstart hword | @name c _ _ _ hstart hword hname hcall
  | @callNil c _ _ _ _ _ hstart hword hname hopened hclosed
  | @callCons c _ _ _ _ _ _ _ _ hstart hword hname hopened hsome hfirst hothers =>
    have hcode := Expr.code_of_isNameStart hstart
    exact ⟨c, List.mem_cons_self, Text.isBlank_of_printable (by omega)⟩

theorem signs_suffix (cs : List Char) : (signs cs).2 <:+ cs := by
  induction cs with
  | nil => exact List.suffix_rfl
  | cons c cs ih =>
    unfold signs
    split
    · exact ih.trans (List.suffix_cons c cs)
    split
    · exact ih.trans (List.suffix_cons c cs)
    split
    · exact ih.trans (List.suffix_cons c cs)
    · exact List.suffix_rfl

theorem sees_readPower (inner : PhraseReader) (steps : Nat) : Sees (readPower inner steps) := by
  intro cs found h
  cases steps with
  | zero => cases h
  | succ steps =>
    obtain ⟨signed, hsigned, -⟩ := bind_eq_ok.mp h
    obtain ⟨primary, hprimary, -⟩ := bind_eq_ok.mp hsigned
    obtain ⟨c, hc, hvisible⟩ := sees_readPrimary inner steps hprimary
    exact ⟨c, (signs_suffix cs).subset hc, hvisible⟩

theorem sees_readChain {operand : PhraseReader} (h : Sees operand) (level : Precedence)
    (steps : Nat) : Sees (readChain level steps operand) := by
  intro cs found hfound
  obtain ⟨first, hfirst, -⟩ := bind_eq_ok.mp hfound
  exact h hfirst

theorem sees_readExpression (n : Nat) : Sees (readExpression n) := by
  cases n with
  | zero =>
    intro cs found h
    cases h
  | succ n =>
    have hpower := sees_readPower (readExpression n) (n + 1)
    have hmultiplicative := sees_readChain hpower .multiplicative (n + 1)
    have hadditive := sees_readChain hmultiplicative .additive (n + 1)
    have hcomparison := sees_readChain hadditive .comparison (n + 1)
    exact sees_readChain hcomparison .logical (n + 1)

theorem not_all_isBlank_of_read {cs : List Char} {p : Phrase} (h : read cs = .ok p) :
    cs.all Text.isBlank = false := by
  obtain ⟨found, hfound, -⟩ := bind_eq_ok.mp h
  obtain ⟨c, hc, hvisible⟩ := sees_readExpression _ hfound
  rw [List.all_eq_false]
  exact ⟨c, (List.dropWhile_suffix isSpace).subset hc, by simpa using hvisible⟩

end Phrase

namespace Expr

/-- The text of a phrase is parsed into the tree of the phrase, with its nodes numbered, unless the
estimate or the levels of the phrase exceed the limit. -/
theorem parse_of_read {text : String} {phrase : Phrase}
    (hread : Phrase.read (expandProducts text).toList = .ok phrase) (names : Name.Reading)
    (limit : Nat) (line : Option Nat) : parse names limit line text =
      if estimateNesting (expandProducts text).toList > limit then
        .error (.tooDeep (estimateNesting (expandProducts text).toList) limit)
      else (ofPhrase names { limit } phrase).map (numbered line) := by
  have hvisible := Phrase.not_all_isBlank_of_read hread
  unfold parse
  simp only [hvisible, hread, Bool.false_eq_true, if_false]
  cases ofPhrase names { limit } phrase <;> rfl

theorem parse_eq_ok {names : Name.Reading} {limit : Nat} {line : Option Nat} {text : String}
    {tree : Expr Mark} : parse names limit line text = .ok tree ↔
      ∃ phrase built, Phrase.read (expandProducts text).toList = .ok phrase ∧
        estimateNesting (expandProducts text).toList ≤ limit ∧
        ofPhrase names { limit } phrase = .ok built ∧ tree = built.numbered line := by
  cases hread : Phrase.read (expandProducts text).toList with
  | error rest =>
    refine iff_of_false (fun h => ?_) fun ⟨_, _, hphrase, _⟩ => nomatch hphrase
    unfold parse at h
    simp only [hread] at h
    split at h
    · cases h
    · split at h <;> cases h
  | ok phrase =>
    rw [parse_of_read hread]
    by_cases hestimate : estimateNesting (expandProducts text).toList ≤ limit
    · rw [if_neg (Nat.not_lt.mpr hestimate)]
      constructor
      · intro h
        cases hbuilt : ofPhrase names { limit } phrase with
        | error e =>
          rw [hbuilt] at h
          cases h
        | ok built =>
          rw [hbuilt] at h
          exact ⟨phrase, built, rfl, hestimate, hbuilt, (Except.ok.inj h).symm⟩
      · rintro ⟨_, built, hphrase, -, hbuilt, rfl⟩
        cases hphrase
        rw [hbuilt]
        rfl
    · rw [if_pos (Nat.not_le.mp hestimate)]
      exact iff_of_false nofun fun ⟨_, _, _, hle, _⟩ => hestimate hle

end Expr

end Premise
