import Premise.Proofs.Source

/-!
The readers of phrases, one tier at a time.

A primary phrase, a sign, a power and the links of a chain are each read by their own reader, and
what is read from a text depends on what follows it only through `Stops`: behind a phrase, the text
must not go on with it. Names, numbers and words need something that breaks them, chains that none
of their operators follows, and powers that no `^` does. `readAt` collects the readers by tier. The
reader of primary phrases is opened once: what it reads hangs on its first token, and is told as a
relation (`ReadsPrimary`).
-/

namespace Premise

namespace Tier

theorem le_refl (a : Tier) : a ≤ a := Nat.le_refl a.rank

theorem le_trans {a b c : Tier} (h : a ≤ b) (k : b ≤ c) : a ≤ c := Nat.le_trans h k

theorem loosest (a : Tier) : .chain .logical ≤ a := Nat.zero_le a.rank

theorem le_primary (a : Tier) : a ≤ .primary := by
  cases a with
  | chain level => cases level <;> decide
  | power => decide
  | unary => decide
  | primary => decide

theorem le_next (a : Tier) : a ≤ a.next := by
  cases a with
  | chain level => cases level <;> decide
  | power => decide
  | unary => decide
  | primary => decide

/-- No tier lies between a tier and the next. -/
theorem next_le {a b : Tier} (h : a ≤ b) (hne : a ≠ b) : a.next ≤ b := by
  revert hne h
  rcases a with (_ | _ | _ | _) | _ | _ | _ <;>
    rcases b with (_ | _ | _ | _) | _ | _ | _ <;> decide

theorem rank_lt_next {a b : Tier} (h : a ≤ b) (hne : a ≠ b) :
    a.rank < a.next.rank ∧ a.rank < b.rank := by
  revert hne h
  rcases a with (_ | _ | _ | _) | _ | _ | _ <;>
    rcases b with (_ | _ | _ | _) | _ | _ | _ <;> decide

end Tier

theorem bind_eq_ok {ε α β : Type} {x : Except ε α} {f : α → Except ε β} {b : β} :
    (x >>= f) = .ok b ↔ ∃ a, x = .ok a ∧ f a = .ok b := by
  cases x with
  | error e => exact ⟨nofun, fun ⟨_, h, _⟩ => nomatch h⟩
  | ok a => exact ⟨fun h => ⟨a, rfl, h⟩, fun ⟨_, ha, h⟩ => by cases ha; exact h⟩

theorem bind_eq_error {ε α β : Type} {x : Except ε α} {f : α → Except ε β} {e : ε} :
    (x >>= f) = .error e ↔ x = .error e ∨ ∃ a, x = .ok a ∧ f a = .error e := by
  cases x with
  | error e' =>
    constructor
    · rintro ⟨⟩
      exact .inl rfl
    · rintro (⟨⟨⟩⟩ | ⟨_, ⟨⟩, _⟩)
      rfl
  | ok a =>
    constructor
    · exact fun h => .inr ⟨a, rfl, h⟩
    · rintro (⟨⟨⟩⟩ | ⟨_, ⟨⟩, h⟩)
      exact h

namespace Phrase

/-! ### Operators -/

theorem operator?_symbol {op : BinaryOperator} {level : Precedence} (h : op.level? = some level)
    {c : Char} (hc : isSpace c = true) (cs : List Char) :
    operator? level (op.symbol.toList ++ c :: cs) = some (op, c :: cs) := by
  rcases eq_of_isSpace hc with rfl | rfl | rfl | rfl
  all_goals
    cases op with
    | arithmetic op => cases op <;> cases h <;> rfl
    | comparison op => cases op <;> cases h <;> rfl
    | logical op => cases op <;> cases h <;> rfl
    | sets op => cases op <;> cases h <;> rfl
    | membership =>
      cases h
      rfl

theorem operator?_of_ne {op : BinaryOperator} {level other : Precedence}
    (h : op.level? = some level) (hne : other ≠ level) {c : Char} (hc : isSpace c = true)
    (cs : List Char) : operator? other (op.symbol.toList ++ c :: cs) = none := by
  rcases eq_of_isSpace hc with rfl | rfl | rfl | rfl
  all_goals
    cases op with
    | arithmetic op => cases op <;> cases h <;> cases other <;> first | exact absurd rfl hne | rfl
    | comparison op => cases op <;> cases h <;> cases other <;> first | exact absurd rfl hne | rfl
    | logical op => cases op <;> cases h <;> cases other <;> first | exact absurd rfl hne | rfl
    | sets op => cases op <;> cases h <;> cases other <;> first | exact absurd rfl hne | rfl
    | membership =>
      cases h
      cases other <;> first | exact absurd rfl hne | rfl

theorem operator?_mark (level : Precedence) {c : Char} (hc : c = ')' ∨ c = ',' ∨ c = '^')
    (cs : List Char) : operator? level (c :: cs) = none := by
  rcases hc with rfl | rfl | rfl <;> cases level <;> rfl

theorem symbol_eq_cons (op : BinaryOperator) {level : Precedence} (h : op.level? = some level) :
    ∃ c cs, op.symbol.toList = c :: cs ∧ c ≠ '^' ∧ c ≠ '(' := by
  cases op with
  | arithmetic op => cases op <;> cases h <;> exact ⟨_, _, rfl, by decide, by decide⟩
  | comparison op => cases op <;> exact ⟨_, _, rfl, by decide, by decide⟩
  | logical op => cases op <;> exact ⟨_, _, rfl, by decide, by decide⟩
  | sets op => cases op <;> exact ⟨_, _, rfl, by decide, by decide⟩
  | membership => exact ⟨_, _, rfl, by decide, by decide⟩

/-! ### What may follow -/

/-- Behind a phrase of the tier, the text does not go on with it. -/
structure Stops (tier : Tier) (rest : List Char) : Prop where
  breaks : Breaks rest
  operator : ∀ level, tier ≤ .chain level → operator? level (skip rest) = none
  power : tier ≤ .power → ∀ cs, skip rest ≠ '^' :: cs
  call : ∀ cs, skip rest ≠ '(' :: cs

namespace Stops

variable {tier other : Tier} {rest mid : List Char}

theorem mono (h : Stops tier rest) (hle : tier ≤ other) : Stops other rest where
  breaks := h.breaks
  operator level hlevel := h.operator level (Tier.le_trans hle hlevel)
  power hpower := h.power (Tier.le_trans hle hpower)
  call := h.call

theorem atEnd (h : ∀ c ∈ rest, isSpace c = true) : Stops tier rest := by
  have hskip := skip_of_all h
  refine ⟨fun c hc => h c (List.mem_of_mem_head? hc), ?_, ?_, ?_⟩
  · intro level _
    rw [hskip]
    cases level <;> rfl
  · intro _ cs hcs
    rw [hskip] at hcs
    cases hcs
  · intro cs hcs
    rw [hskip] at hcs
    cases hcs

/-- A closing parenthesis or a comma stops phrases of all tiers. -/
theorem atMark {c : Char} (hc : c = ')' ∨ c = ',') {ts : List (List Char)}
    (h : Layout.Behind ([c] :: ts) rest mid) : Stops tier rest := by
  have hmark : c ∈ Layout.marks := by
    rcases hc with rfl | rfl <;> decide
  obtain ⟨next, hskip, _⟩ := h.skip_mark hmark
  refine ⟨h.breaks, ?_, ?_, ?_⟩
  · intro level _
    rw [hskip]
    exact operator?_mark level (hc.imp_right .inl) next
  · intro _ cs hcs
    rw [hskip] at hcs
    cases hcs
    rcases hc with hc | hc <;> cases hc
  · intro cs hcs
    rw [hskip] at hcs
    cases hcs
    rcases hc with hc | hc <;> cases hc

theorem atPower {ts : List (List Char)} (h : Layout.Behind (['^'] :: ts) rest mid) :
    Stops .unary rest := by
  obtain ⟨next, hskip, _⟩ := h.skip_mark (by decide)
  refine ⟨h.breaks, ?_, ?_, ?_⟩
  · intro level _
    rw [hskip]
    exact operator?_mark level (.inr (.inr rfl)) next
  · intro hle
    exact absurd hle (by decide)
  · intro cs hcs
    rw [hskip] at hcs
    cases hcs

/-- An operator stops what it links. -/
theorem atOperator {op : BinaryOperator} {level : Precedence} (hop : op.level? = some level)
    {c : Char} (hc : isSpace c = true) {next : List Char} (hbreaks : Breaks rest)
    (hskip : skip rest = op.symbol.toList ++ c :: next) : Stops (Tier.chain level).next rest := by
  obtain ⟨d, ds, hsymbol, hpower, hcall⟩ := symbol_eq_cons op hop
  refine ⟨hbreaks, ?_, ?_, ?_⟩
  · intro other hle
    rw [hskip]
    refine operator?_of_ne hop (fun heq => ?_) hc next
    rw [heq] at hle
    revert hle
    cases level <;> decide
  · intro _ cs hcs
    rw [hskip, hsymbol] at hcs
    exact hpower (List.cons.inj hcs).1
  · intro cs hcs
    rw [hskip, hsymbol] at hcs
    exact hcall (List.cons.inj hcs).1

end Stops

/-! ### Readers -/

/-- The first operand and the links of a chain; anything else, and a chain inside another one, is an
operand as it is. -/
def spine (chained : Bool) : Phrase → Phrase × List (BinaryOperator × Phrase)
  | .chain first links => if chained then (first, links) else (.chain first links, [])
  | p => (p, [])

theorem spine_chain (chained : Bool) (first : Phrase) (links : List (BinaryOperator × Phrase)) :
    (chain first links).spine chained =
      if chained then (first, links) else (.chain first links, []) := rfl

theorem spine_false (p : Phrase) : p.spine false = (p, []) := by
  cases p <;> rfl

/-- The reader of a tier. Expressions in parentheses and arguments have `n` steps, and everything
else `k`. -/
def readAt (n k : Nat) : Tier → PhraseReader
  | .primary => readPrimary (readExpression n) k
  | .unary => readSigned (readExpression n) k
  | .power => readPower (readExpression n) (k + 1)
  | .chain .multiplicative =>
    readChain .multiplicative (k + 1) (readPower (readExpression n) (k + 1))
  | .chain .additive =>
    readChain .additive (k + 1) (readChain .multiplicative (k + 1)
      (readPower (readExpression n) (k + 1)))
  | .chain .comparison =>
    readChain .comparison (k + 1) (readChain .additive (k + 1) (readChain .multiplicative (k + 1)
      (readPower (readExpression n) (k + 1))))
  | .chain .logical =>
    readChain .logical (k + 1) (readChain .comparison (k + 1) (readChain .additive (k + 1)
      (readChain .multiplicative (k + 1) (readPower (readExpression n) (k + 1)))))

theorem readAt_chain (n k : Nat) (level : Precedence) :
    readAt n k (.chain level) = readChain level (k + 1) (readAt n k (Tier.chain level).next) := by
  cases level <;> rfl

theorem readExpression_succ (n : Nat) : readExpression (n + 1) = readAt n n (.chain .logical) := rfl

/-- Where a primary phrase can be read, there is no sign. -/
theorem signs_of_readPrimary {inner : PhraseReader} {steps : Nat} {cs : List Char}
    {found : Phrase × List Char} (h : readPrimary inner steps cs = .ok found) :
    signs cs = ([], cs) := by
  cases cs with
  | nil => cases h
  | cons c rest =>
    have hnot : c ≠ '!' := by
      rintro rfl
      cases h
    have hnegative : c ≠ '-' := by
      rintro rfl
      cases h
    have hspace : isSpace c = false := by
      cases hc : isSpace c with
      | false => rfl
      | true => rcases eq_of_isSpace hc with rfl | rfl | rfl | rfl <;> cases h
    simp [signs, hnot, hnegative, hspace]

theorem readSigned_of_readPrimary {inner : PhraseReader} {steps : Nat} {cs : List Char}
    {found : Phrase × List Char} (h : readPrimary inner steps cs = .ok found) :
    readSigned inner steps cs = .ok found := by
  unfold readSigned
  simp only [signs_of_readPrimary h, h, bind, Except.bind, List.foldr_nil]

/-- Spaces between signs do not matter. -/
theorem signs_skip (cs : List Char) : signs (skip cs) = signs cs := by
  induction cs with
  | nil => rfl
  | cons c cs ih =>
    cases hc : isSpace c with
    | false => rw [skip_cons hc]
    | true =>
      have hskip : skip (c :: cs) = skip cs := List.dropWhile_cons_of_pos hc
      have hsigns : signs (c :: cs) = signs cs := by
        rcases eq_of_isSpace hc with rfl | rfl | rfl | rfl <;> rfl
      rw [hskip, hsigns, ih]

theorem readSigned_sign {inner : PhraseReader} {steps : Nat} (op : UnaryOperator)
    {cs rest : List Char} {operand : Phrase}
    (h : readSigned inner steps (skip cs) = .ok (operand, rest)) :
    readSigned inner steps (op.symbol.toList ++ cs) = .ok (.signed op operand, rest) := by
  have hsigns : signs (op.symbol.toList ++ cs) = (op :: (signs cs).1, (signs cs).2) := by
    cases op <;> rfl
  unfold readSigned at h ⊢
  rw [signs_skip] at h
  rw [hsigns]
  simp only [bind, Except.bind] at h ⊢
  cases hread : readPrimary inner steps (signs cs).2 with
  | error stop =>
    rw [hread] at h
    cases h
  | ok found =>
    rw [hread] at h
    cases h
    rfl

theorem readPower_of_readSigned {inner : PhraseReader} {steps : Nat} {cs rest : List Char}
    {base : Phrase} (h : readSigned inner steps cs = .ok (base, rest))
    (hrest : ∀ more, skip rest ≠ '^' :: more) :
    readPower inner (steps + 1) cs = .ok (base, rest) := by
  unfold readPower
  rw [h]
  -- no `^` follows, by `hrest`
  simp only [bind, Except.bind]

theorem readLinks_of_none {level : Precedence} {operand : PhraseReader} (steps : Nat)
    {rest : List Char} (h : operator? level (skip rest) = none) :
    readLinks level operand (steps + 1) rest = .ok ([], rest) := by
  unfold readLinks
  rw [h]

theorem readExpression_close (n : Nat) (cs : List Char) {found : Phrase × List Char} :
    readExpression n (')' :: cs) ≠ .ok found := by
  cases n with
  | zero => exact fun h => nomatch h
  | succ n =>
    have hstop : readExpression (n + 1) (')' :: cs) = .error (')' :: cs) := rfl
    rw [hstop]
    exact fun h => nomatch h

/-! ### Primary phrases -/

/-- What there is to read as a primary phrase, by the first token. -/
inductive ReadsPrimary (inner : PhraseReader) (steps : Nat) :
    List Char → Phrase → List Char → Prop
  | group {cs after rest : List Char} {p : Phrase} (hgroup : inner (skip cs) = .ok (p, after))
      (hclosed : skip after = ')' :: rest) : ReadsPrimary inner steps ('(' :: cs) (.group p) rest
  | quoted {c : Char} {cs rest : List Char} {p : Phrase} (hquote : Expr.isQuote c = true)
      (hread : readQuoted? c cs = some (p, rest)) : ReadsPrimary inner steps (c :: cs) p rest
  | number {c : Char} {cs rest : List Char} {p : Phrase} (hdigit : c.isDigit = true)
      (hread : readNumber (c :: cs) = (p, rest)) : ReadsPrimary inner steps (c :: cs) p rest
  | truth {c : Char} {cs rest : List Char} (b : Bool) (hstart : Expr.isNameStart c = true)
      (hword : word (c :: cs) = (if b then "true" else "false", rest)) :
      ReadsPrimary inner steps (c :: cs) (.truth b) rest
  | name {c : Char} {cs rest : List Char} {name : String} (hstart : Expr.isNameStart c = true)
      (hword : word (c :: cs) = (name, rest)) (hname : reserved.contains name = false)
      (hcall : ∀ start, skip rest ≠ '(' :: start) :
      ReadsPrimary inner steps (c :: cs) (.name name) rest
  | callNil {c : Char} {cs next start rest : List Char} {name : String}
      (hstart : Expr.isNameStart c = true) (hword : word (c :: cs) = (name, next))
      (hname : reserved.contains name = false) (hopened : skip next = '(' :: start)
      (hclosed : skip start = ')' :: rest) :
      ReadsPrimary inner steps (c :: cs) (.call name []) rest
  | callCons {c : Char} {cs next start after rest : List Char} {name : String} {argument : Phrase}
      {arguments : List Phrase} (hstart : Expr.isNameStart c = true)
      (hword : word (c :: cs) = (name, next)) (hname : reserved.contains name = false)
      (hopened : skip next = '(' :: start) (hsome : ∀ more, skip start ≠ ')' :: more)
      (hfirst : inner (skip start) = .ok (argument, after))
      (hothers : readArguments inner steps after = .ok (arguments, rest)) :
      ReadsPrimary inner steps (c :: cs) (.call name (argument :: arguments)) rest

/-- Neither a quote nor a digit nor a parenthesis can begin a name. -/
theorem marks_of_isNameStart {c : Char} (h : Expr.isNameStart c = true) :
    c ≠ '(' ∧ Expr.isQuote c = false ∧ c.isDigit = false := by
  refine ⟨?_, Expr.isQuote_of_isNameChar (Expr.isNameChar_of_isNameStart h),
    Expr.isDigit_of_isNameStart h⟩
  rintro rfl
  exact absurd h (by decide)

theorem ne_of_not_reserved {name : String} (h : reserved.contains name = false) :
    name ≠ "true" ∧ name ≠ "false" := by
  constructor
  · rintro rfl
    exact absurd h (by decide)
  · rintro rfl
    exact absurd h (by decide)

theorem readsPrimary_of_readPrimary {inner : PhraseReader} {steps : Nat} {cs rest : List Char}
    {p : Phrase} (h : readPrimary inner steps cs = .ok (p, rest)) :
    ReadsPrimary inner steps cs p rest := by
  cases cs with
  | nil => cases h
  | cons c cs =>
    simp only [readPrimary] at h
    split at h
    · rename_i hopen
      obtain ⟨⟨phrase, after⟩, hphrase, h⟩ := bind_eq_ok.mp h
      simp only at h
      split at h
      · rename_i hclosed
        cases h
        rw [hopen]
        exact .group hphrase hclosed
      · cases h
    split at h
    · rename_i hquote
      split at h
      · rename_i found hfound
        cases h
        exact .quoted hquote hfound
      · cases h
    split at h
    · rename_i hdigit
      exact .number hdigit (Except.ok.inj h)
    split at h
    · rename_i hstart
      split at h
      · rename_i htrue
        cases h
        exact .truth true hstart (Prod.ext htrue rfl)
      split at h
      · rename_i hfalse
        cases h
        exact .truth false hstart (Prod.ext hfalse rfl)
      split at h
      · cases h
      rename_i hreserved
      have hname := Bool.eq_false_iff.mpr hreserved
      split at h
      · rename_i hopened
        split at h
        · rename_i hclosed
          cases h
          exact .callNil hstart rfl hname hopened hclosed
        · rename_i hsome
          obtain ⟨⟨argument, after⟩, hfirst, h⟩ := bind_eq_ok.mp h
          obtain ⟨⟨arguments, last⟩, hothers, h⟩ := bind_eq_ok.mp h
          cases h
          exact .callCons hstart rfl hname hopened hsome hfirst hothers
      · rename_i hcall
        cases h
        exact .name hstart rfl hname hcall
    · cases h

theorem ReadsPrimary.readPrimary_eq {inner : PhraseReader} {steps : Nat} {cs rest : List Char}
    {p : Phrase} (h : ReadsPrimary inner steps cs p rest) :
    readPrimary inner steps cs = .ok (p, rest) := by
  cases h with
  | group hgroup hclosed =>
    simp only [readPrimary, if_true, hgroup, hclosed, bind, Except.bind]
  | @quoted c _ _ _ hquote hread =>
    have hopen : c ≠ '(' := by
      rintro rfl
      exact absurd hquote (by decide)
    simp only [readPrimary, hopen, hquote, hread, if_false, if_true]
  | @number c _ _ _ hdigit hread =>
    have hquote := Expr.isQuote_of_isNameChar (Expr.isNameChar_of_isDigit hdigit)
    have hopen : c ≠ '(' := by
      rintro rfl
      exact absurd hdigit (by decide)
    simp only [readPrimary, hopen, hquote, hdigit, hread, if_false, if_true, Bool.false_eq_true]
  | truth b hstart hword =>
    obtain ⟨hopen, hquote, hdigit⟩ := marks_of_isNameStart hstart
    simp only [readPrimary, hopen, hquote, hdigit, hstart, hword, if_false, if_true,
      Bool.false_eq_true]
    cases b <;> rfl
  | name hstart hword hname hcall =>
    obtain ⟨hopen, hquote, hdigit⟩ := marks_of_isNameStart hstart
    obtain ⟨htrue, hfalse⟩ := ne_of_not_reserved hname
    simp only [readPrimary, hopen, hquote, hdigit, hstart, hword, hname, htrue, hfalse, if_false,
      if_true, Bool.false_eq_true]
  | callNil hstart hword hname hopened hclosed =>
    obtain ⟨hopen, hquote, hdigit⟩ := marks_of_isNameStart hstart
    obtain ⟨htrue, hfalse⟩ := ne_of_not_reserved hname
    simp only [readPrimary, hopen, hquote, hdigit, hstart, hword, hname, htrue, hfalse, hopened,
      hclosed, if_false, if_true, Bool.false_eq_true]
  | callCons hstart hword hname hopened hsome hfirst hothers =>
    obtain ⟨hopen, hquote, hdigit⟩ := marks_of_isNameStart hstart
    obtain ⟨htrue, hfalse⟩ := ne_of_not_reserved hname
    -- `hsome` rules out that there are no arguments
    simp only [readPrimary, hopen, hquote, hdigit, hstart, hword, hname, htrue, hfalse, hopened,
      hfirst, hothers, bind, Except.bind, if_false, if_true, Bool.false_eq_true]

theorem readPrimary_eq_ok {inner : PhraseReader} {steps : Nat} {cs rest : List Char} {p : Phrase} :
    readPrimary inner steps cs = .ok (p, rest) ↔ ReadsPrimary inner steps cs p rest :=
  ⟨readsPrimary_of_readPrimary, ReadsPrimary.readPrimary_eq⟩

/-! ### Tokens of primary phrases -/

section

variable {inner : PhraseReader} {steps : Nat} {rest : List Char}

theorem readNumber_token {whole fraction : List Char} (h : Layout.IsDecimal whole fraction)
    (hrest : Breaks rest) :
    readNumber (Layout.numberToken whole fraction ++ rest) = (.number whole fraction, rest) := by
  obtain ⟨_, hwhole, hfraction⟩ := h
  have hstops : ∀ c ∈ rest.head?, c.isDigit = false := by
    intro c hc
    rcases eq_of_isSpace (hrest c hc) with rfl | rfl | rfl | rfl <;> decide
  unfold readNumber Layout.numberToken
  cases fraction with
  | nil =>
    simp only [List.isEmpty_nil, if_true]
    rw [Text.takeWhile_run hwhole hstops, Text.dropWhile_run hwhole hstops]
    cases rest with
    | nil => rfl
    | cons c rest => rcases eq_of_isSpace (hrest c rfl) with rfl | rfl | rfl | rfl <;> rfl
  | cons d ds =>
    have hd : d.isDigit = true := hfraction d List.mem_cons_self
    have hpoint : ∀ x ∈ ('.' :: d :: ds ++ rest).head?, x.isDigit = false :=
      fun x hx => Option.some.inj hx ▸ rfl
    simp only [List.isEmpty_cons, if_false, Bool.false_eq_true]
    rw [List.append_assoc, Text.takeWhile_run hwhole hpoint, Text.dropWhile_run hwhole hpoint]
    simp only [List.cons_append, List.tail_cons, hd, if_true]
    rw [← List.cons_append, Text.takeWhile_run hfraction hstops,
      Text.dropWhile_run hfraction hstops]

theorem readPrimary_number {whole fraction : List Char} (h : Layout.IsDecimal whole fraction)
    (hrest : Breaks rest) :
    readPrimary inner steps (Layout.numberToken whole fraction ++ rest) =
      .ok (.number whole fraction, rest) := by
  have hread := readNumber_token h hrest
  obtain ⟨d, ds, heq, hdigit, _⟩ := h.token
  rw [heq] at hread ⊢
  exact readPrimary_eq_ok.mpr (.number hdigit hread)

theorem readPrimary_text {quote : Char} {content : List Char} (hquote : Expr.isQuote quote = true)
    (h : quote ∉ content) :
    readPrimary inner steps (quote :: content ++ [quote] ++ rest) =
      .ok (.text (String.ofList content), rest) := by
  have hall : ∀ c ∈ content, (c != quote) = true := by
    intro c hc
    have hne : c ≠ quote := fun heq => h (heq ▸ hc)
    simp [hne]
  have hread : readQuoted? quote (content ++ quote :: rest) =
      some (.text (String.ofList content), rest) := by
    unfold readQuoted?
    rw [List.takeWhile_append_of_pos hall, List.dropWhile_append_of_pos hall]
    simp
  rw [List.append_assoc, List.cons_append]
  exact readPrimary_eq_ok.mpr (.quoted hquote hread)

theorem readPrimary_truth (b : Bool) (hrest : Breaks rest) :
    readPrimary inner steps ((if b then "true" else "false").toList ++ rest) =
      .ok (.truth b, rest) := by
  have hword : word ((if b then "true" else "false").toList ++ rest) =
      (if b then "true" else "false", rest) := by
    have hchars : ∀ c ∈ (if b then "true" else "false").toList, Expr.isNameChar c = true := by
      cases b <;> exact List.all_eq_true.mp rfl
    rw [word_append hchars hrest.endsWord, String.ofList_toList]
  cases b with
  | true => exact readPrimary_eq_ok.mpr (.truth true (by decide) hword)
  | false => exact readPrimary_eq_ok.mpr (.truth false (by decide) hword)

/-- All that is looked at in a name before what follows it. -/
theorem start_isName {name : String} (h : Layout.IsName name) (hrest : EndsWord rest) :
    ∃ c cs, name.toList ++ rest = c :: cs ∧ Expr.isNameStart c = true ∧
      word (c :: cs) = (name, rest) ∧ reserved.contains name = false := by
  have hword : word (name.toList ++ rest) = (name, rest) := by
    rw [word_append h.isNameChar_of_mem hrest, String.ofList_toList]
  obtain ⟨c, cs, heq, hstart, hcs, hreserved⟩ := h
  rw [heq] at hword ⊢
  exact ⟨c, cs ++ rest, rfl, hstart, hword, by simpa using hreserved⟩

/-- A name is a reference unless a parenthesis follows it. -/
theorem readPrimary_name {name : String} (h : Layout.IsName name) (hrest : EndsWord rest)
    (hcall : ∀ cs, skip rest ≠ '(' :: cs) :
    readPrimary inner steps (name.toList ++ rest) = .ok (.name name, rest) := by
  obtain ⟨c, cs, heq, hstart, hword, hname⟩ := start_isName h hrest
  rw [heq]
  exact readPrimary_eq_ok.mpr (.name hstart hword hname hcall)

theorem readPrimary_call_nil {name : String} (h : Layout.IsName name) (hrest : EndsWord rest)
    {start after : List Char} (hopened : skip rest = '(' :: start)
    (hclosed : skip start = ')' :: after) :
    readPrimary inner steps (name.toList ++ rest) = .ok (.call name [], after) := by
  obtain ⟨c, cs, heq, hstart, hword, hname⟩ := start_isName h hrest
  rw [heq]
  exact readPrimary_eq_ok.mpr (.callNil hstart hword hname hopened hclosed)

theorem readPrimary_call_cons {name : String} (h : Layout.IsName name) (hrest : EndsWord rest)
    {start next after : List Char} {argument : Phrase} {arguments : List Phrase}
    (hopened : skip rest = '(' :: start) (hsome : ∀ more, skip start ≠ ')' :: more)
    (hfirst : inner (skip start) = .ok (argument, next))
    (hothers : readArguments inner steps next = .ok (arguments, after)) :
    readPrimary inner steps (name.toList ++ rest) =
      .ok (.call name (argument :: arguments), after) := by
  obtain ⟨c, cs, heq, hstart, hword, hname⟩ := start_isName h hrest
  rw [heq]
  exact readPrimary_eq_ok.mpr (.callCons hstart hword hname hopened hsome hfirst hothers)

end

end Phrase

end Premise
