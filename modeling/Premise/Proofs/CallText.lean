import Premise.Proofs.Text
import Premise.Proofs.Tiers

/-!
The text of a call.

A call of a function that is written without white space, with no argument or with a name for its
only one, is read as just that (`Expr.parse_call_nil`, `Expr.parse_call_name`). The parentheses end
the names before them as white space would, so a primary phrase is read from one to the other; and
since no operator follows, every looser reader takes it as it is.
-/

namespace Premise

namespace Phrase

variable {cs rest : List Char} {p : Phrase}

/-- An operand that no operator of the level follows is no chain. -/
theorem readChain_of_operand {level : Precedence} {operand : PhraseReader} {steps : Nat}
    (h : operand cs = .ok (p, rest)) (hnone : operator? level (skip rest) = none) :
    readChain level (steps + 1) operand cs = .ok (p, rest) := by
  unfold readChain
  rw [h]
  simp only [bind, Except.bind, readLinks_of_none steps hnone, List.isEmpty_nil, if_true]

/-- A signed phrase with no operator behind it is an expression. -/
theorem readExpression_of_readSigned {n : Nat}
    (h : readSigned (readExpression n) n cs = .ok (p, rest))
    (hoperator : ∀ level, operator? level (skip rest) = none)
    (hpower : ∀ more, skip rest ≠ '^' :: more) : readExpression (n + 1) cs = .ok (p, rest) := by
  have htight : readAt n n .power cs = .ok (p, rest) := readPower_of_readSigned h hpower
  have hlooser : ∀ level, readAt n n (Tier.chain level).next cs = .ok (p, rest) →
      readAt n n (.chain level) cs = .ok (p, rest) := by
    intro level hnext
    rw [readAt_chain]
    exact readChain_of_operand hnext (hoperator level)
  exact hlooser .logical (hlooser .comparison (hlooser .additive (hlooser .multiplicative htight)))

/-- So is a primary phrase, which is a signed one without signs. -/
theorem readExpression_of_readPrimary {n : Nat}
    (h : readPrimary (readExpression n) n cs = .ok (p, rest))
    (hoperator : ∀ level, operator? level (skip rest) = none)
    (hpower : ∀ more, skip rest ≠ '^' :: more) : readExpression (n + 1) cs = .ok (p, rest) :=
  readExpression_of_readSigned (readSigned_of_readPrimary h) hoperator hpower

theorem skip_isName {name : String} (h : Layout.IsName name) (cs : List Char) :
    skip (name.toList ++ cs) = name.toList ++ cs := by
  obtain ⟨c, ct, heq, hblank⟩ := h.isToken.solid
  rw [heq]
  exact skip_cons (isSpace_of_isBlank hblank) _

theorem endsWord_cons {c : Char} (h : Expr.isNameChar c = false) (cs : List Char) :
    EndsWord (c :: cs) := by
  rintro _ ⟨⟩
  exact h

/-- A text that is one signed phrase. -/
theorem read_of_readSigned
    (h : readSigned (readExpression cs.length) cs.length (skip cs) = .ok (p, [])) :
    read cs = .ok p := by
  have hread := readExpression_of_readSigned h (fun level => by cases level <;> rfl)
    fun more => List.cons_ne_nil _ _ ∘ Eq.symm
  unfold read
  rw [hread]
  rfl

theorem read_call_nil {name : String} (h : Layout.IsName name) :
    read (name.toList ++ ['(', ')']) = .ok (.call name []) := by
  refine read_of_readSigned (readSigned_of_readPrimary ?_)
  rw [skip_isName h]
  exact readPrimary_call_nil h (endsWord_cons (by decide) _) rfl rfl

theorem read_call_name {name x : String} (h : Layout.IsName name) (hx : Layout.IsName x) :
    read (name.toList ++ '(' :: (x.toList ++ [')'])) = .ok (.call name [.name x]) := by
  obtain ⟨n, hn⟩ : ∃ n, (name.toList ++ '(' :: (x.toList ++ [')'])).length = n + 1 :=
    Nat.exists_eq_succ_of_ne_zero (by simp)
  have hprimary : readPrimary (readExpression n) n (x.toList ++ [')']) = .ok (.name x, [')']) :=
    readPrimary_name hx (endsWord_cons (by decide) _) fun more heq => by cases heq
  have hargument : readExpression (n + 1) (skip (x.toList ++ [')'])) = .ok (.name x, [')']) := by
    rw [skip_isName hx]
    exact readExpression_of_readPrimary hprimary (fun level => operator?_mark level (.inl rfl) [])
      fun more heq => by cases heq
  have hsome : ∀ more, skip (x.toList ++ [')']) ≠ ')' :: more := by
    intro more heq
    rw [heq] at hargument
    exact readExpression_close (n + 1) more hargument
  refine read_of_readSigned (readSigned_of_readPrimary ?_)
  rw [skip_isName h, hn]
  exact readPrimary_call_cons h (endsWord_cons (by decide) _) rfl hsome hargument rfl

end Phrase

namespace Expr

theorem withProducts_isName {name : String} (h : Layout.IsName name) (cs : List Char) :
    withProducts (.plain false) (name.toList ++ cs) =
      name.toList ++ withProducts (.plain true) cs := by
  obtain ⟨c, ct, heq, hstart, hct, -⟩ := h
  have hname := isNameChar_of_isNameStart hstart
  rw [heq, List.cons_append, withProducts_plain false (isQuote_of_isNameChar hname)
    (isDigit_of_isNameStart hstart), hname, withProducts_name hct]
  rfl

/-- A call nests one level, and nothing has to be written into its text. -/
theorem parse_of_read_call {name : String} (h : Layout.IsName name) {ds : List Char}
    (hds : ∀ d ∈ ds, isNameChar d = true)
    (hproducts : withProducts (.plain false) (ds ++ [')']) = ds ++ [')']) {text : String}
    (htext : text.toList = name.toList ++ '(' :: (ds ++ [')'])) {phrases : List Phrase}
    (hread : Phrase.read (name.toList ++ '(' :: (ds ++ [')'])) = .ok (.call name phrases))
    {names : Name.Reading} {limit : Nat} {arguments : List (Expr Unit)}
    (harguments : ofArguments names { limit } phrases = .ok arguments) (hlimit : 1 ≤ limit)
    (line : Option Nat) :
    parse names limit line text =
      .ok ((Expr.call () (names.resolve name) arguments).numbered line) := by
  have hsource : (expandProducts text).toList = name.toList ++ '(' :: (ds ++ [')']) := by
    unfold expandProducts
    rw [String.toList_ofList, htext, withProducts_isName h, withProducts_plain true rfl rfl]
    exact congrArg (name.toList ++ '(' :: ·) hproducts
  have hnesting := estimateNesting_call_le (fun c hc => .inr (h.isNameChar_of_mem c hc))
    fun d hd => .inr (hds d hd)
  rw [← hsource] at hread hnesting
  rw [parse_of_read hread, if_neg (by omega), ofPhrase, harguments]
  rfl

theorem parse_call_nil {name : String} (h : Layout.IsName name) (names : Name.Reading)
    {limit : Nat} (hlimit : 1 ≤ limit) (line : Option Nat) :
    parse names limit line (name ++ "()") = .ok (.call ⟨0, line⟩ (names.resolve name) []) :=
  parse_of_read_call h (fun _ hd => absurd hd List.not_mem_nil) rfl String.toList_append
    (Phrase.read_call_nil h) rfl hlimit line

theorem parse_call_name {name x : String} (h : Layout.IsName name) (hx : Layout.IsName x)
    (names : Name.Reading) {limit : Nat} (hlimit : 1 ≤ limit) (line : Option Nat) :
    parse names limit line (name ++ "(" ++ x ++ ")") =
      .ok (.call ⟨1, line⟩ (names.resolve name) [.reference ⟨0, line⟩ (names.resolve x)]) := by
  have htext : (name ++ "(" ++ x ++ ")").toList = name.toList ++ '(' :: (x.toList ++ [')']) := by
    simp
  have hproducts : withProducts (.plain false) (x.toList ++ [')']) = x.toList ++ [')'] := by
    rw [withProducts_isName hx]
    rfl
  have harguments : ofArguments names { limit } [.name x] =
      .ok [.reference () (names.resolve x)] := by
    obtain ⟨deeper, henter⟩ : ∃ deeper, Depth.enter? ({ limit } : Depth) = some deeper :=
      ⟨_, if_pos hlimit⟩
    simp only [ofArguments, nest, henter, ofPhrase, bind, Except.bind]
  exact parse_of_read_call h hx.isNameChar_of_mem hproducts htext (Phrase.read_call_name h hx)
    harguments hlimit line

end Expr

/-! ### Names as they stand in attributes -/

namespace Text

variable {x : String}

theorem trimChars_of_solid {cs : List Char} (h : ∀ c ∈ cs, isBlank c = false) :
    trimChars cs = cs :=
  trimChars_of_ends (fun c hc => h c (List.mem_of_mem_head? hc))
    fun c hc => h c (List.mem_of_getLast? hc)

theorem isBlank_of_isNameChar {c : Char} (h : Expr.isNameChar c = true) : isBlank c = false := by
  unfold Expr.isNameChar Char.isAlphanum at h
  simp only [Bool.or_eq_true, decide_eq_true_eq] at h
  rcases h with ((h | h) | rfl) | rfl
  · have hcode := Expr.code_of_isNameStart (c := c) (by simp [Expr.isNameStart, h])
    exact isBlank_of_printable (by omega)
  · have hcode := Expr.code_of_isDigit h
    exact isBlank_of_printable (by omega)
  · decide
  · decide

/-- There is nothing to trim from a name. -/
theorem trim_isName (h : Layout.IsName x) : trim x = x := by
  unfold trim
  rw [trimChars_of_solid fun c hc => isBlank_of_isNameChar (h.isNameChar_of_mem c hc),
    String.ofList_toList]

/-- A name is a list of one entry. -/
theorem entries_isName (h : Layout.IsName x) : entries x = [x] := by
  have hsolid : ∀ c ∈ x.toList, isBlank c = false :=
    fun c hc => isBlank_of_isNameChar (h.isNameChar_of_mem c hc)
  have hcomma : ∀ c ∈ x.toList, (c == ',') = false := by
    intro c hc
    have hname := h.isNameChar_of_mem c hc
    have hne : c ≠ ',' := by
      rintro rfl
      exact absurd hname (by decide)
    simpa using hne
  have hne : x.toList.isEmpty = false := by
    obtain ⟨c, cs, heq, -⟩ := h
    rw [heq]
    rfl
  unfold entries
  rw [pieces_of_all hcomma, List.map_singleton, trimChars_of_solid hsolid,
    List.filter_cons_of_pos (by rw [hne]; rfl), List.filter_nil, List.map_singleton,
    String.ofList_toList]

end Text

end Premise
