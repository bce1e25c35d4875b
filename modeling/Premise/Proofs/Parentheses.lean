import Mathlib.Tactic.SplitIfs
import Premise.Proofs.CallText
import Premise.Proofs.Height

/-!
The text of an expression in parentheses.

A closing parenthesis ends every token before it and belongs to no operator, so a reader that has
found a phrase in a text finds the same phrase when a parenthesis is closed behind the text, and
what remains then is what remained before, up to the parenthesis (`ReadsOn`). More steps do no harm
either. So the text of an expression reads as the same phrase between parentheses, and with a `!`
before them it is parsed as the complement of the tree, unless it nests too deep
(`Expr.parse_complement`).
-/

namespace Premise

namespace Phrase

section

variable (more : List Char)

/-! ### Tokens before the parenthesis -/

theorem dropWhile_close {sat : Char → Bool} (h : sat ')' = false) (cs : List Char) :
    (cs ++ ')' :: more).dropWhile sat = cs.dropWhile sat ++ ')' :: more := by
  induction cs with
  | nil => exact List.dropWhile_cons_of_neg (by simp [h])
  | cons c cs ih =>
    rw [List.cons_append, List.dropWhile_cons, List.dropWhile_cons, ih]
    split <;> rfl

theorem takeWhile_close {sat : Char → Bool} (h : sat ')' = false) (cs : List Char) :
    (cs ++ ')' :: more).takeWhile sat = cs.takeWhile sat := by
  induction cs with
  | nil => exact List.takeWhile_cons_of_neg (by simp [h])
  | cons c cs ih => rw [List.cons_append, List.takeWhile_cons, List.takeWhile_cons, ih]

theorem skip_close (cs : List Char) : skip (cs ++ ')' :: more) = skip cs ++ ')' :: more :=
  dropWhile_close more (by decide) cs

variable {more} in
theorem skip_close_of_eq {cs rest : List Char} (h : skip cs = rest) :
    skip (cs ++ ')' :: more) = rest ++ ')' :: more := by
  rw [skip_close, h]

theorem word_close (cs : List Char) :
    word (cs ++ ')' :: more) = ((word cs).1, (word cs).2 ++ ')' :: more) := by
  unfold word
  rw [takeWhile_close more (by decide), dropWhile_close more (by decide)]

variable {more} in
theorem word_close_of_eq {cs rest : List Char} {spelling : String}
    (h : word cs = (spelling, rest)) :
    word (cs ++ ')' :: more) = (spelling, rest ++ ')' :: more) := by
  rw [word_close, h]

/-- The word that a text begins with does not go on with the parenthesis. -/
theorem word_ne_close {spelling : String} {cs : List Char}
    (h : ∀ rest, word cs = (spelling, rest) → False) :
    ∀ rest, ((word cs).1, (word cs).2 ++ ')' :: more) = (spelling, rest) → False :=
  fun _ heq => h (word cs).2 (Prod.ext (Prod.mk.inj heq).1 rfl)

/-- A text does not begin otherwise when a parenthesis is closed behind it. -/
theorem ne_close (front : List Char) (hfront : ')' ∉ front) {cs : List Char}
    (h : ∀ rest, cs = front ++ rest → False) :
    ∀ rest, cs ++ ')' :: more = front ++ rest → False := by
  induction front generalizing cs with
  | nil => exact (h cs rfl).elim
  | cons c front ih =>
    intro rest heq
    cases cs with
    | nil => exact hfront ((List.cons.inj heq).1 ▸ List.mem_cons_self)
    | cons d cs =>
      obtain ⟨rfl, htail⟩ := List.cons.inj heq
      refine ih (fun hmem => hfront (List.mem_cons_of_mem d hmem)) (fun back hback => ?_) rest htail
      exact h back (congrArg (d :: ·) hback)

/-- Where there is something in a text, it does not begin with the parenthesis behind it. -/
theorem ne_first_close {cs : List Char} {d : Char} (hd : d ∈ cs)
    (h : ∀ rest, cs = ')' :: rest → False) :
    ∀ rest, cs ++ ')' :: more = ')' :: rest → False := by
  intro rest heq
  cases cs with
  | nil => cases hd
  | cons c cs => exact h cs (congrArg (· :: cs) (List.cons.inj heq).1)

theorem logicalOperator?_close (cs : List Char) : logicalOperator? (cs ++ ')' :: more) =
    (logicalOperator? cs).map fun found => (found.1, found.2 ++ ')' :: more) := by
  fun_cases logicalOperator? cs with
  | case1 | case2 | case3 | case4 => rfl
  | case5 cs hiff hand hor himplies =>
    exact logicalOperator?.eq_5 _ (ne_close more ['<', '=', '>'] (by decide) hiff)
      (ne_close more ['&', '&'] (by decide) hand) (ne_close more ['|', '|'] (by decide) hor)
      (ne_close more ['=', '>'] (by decide) himplies)

theorem multiplicativeOperator?_close (cs : List Char) :
    multiplicativeOperator? (cs ++ ')' :: more) =
      (multiplicativeOperator? cs).map fun found => (found.1, found.2 ++ ')' :: more) := by
  fun_cases multiplicativeOperator? cs with
  | case1 | case2 | case3 => rfl
  | case4 cs htimes hover hmodulo =>
    exact multiplicativeOperator?.eq_4 _ (ne_close more ['*'] (by decide) htimes)
      (ne_close more ['/'] (by decide) hover) (ne_close more ['%'] (by decide) hmodulo)

theorem additiveOperator?_close (cs : List Char) : additiveOperator? (cs ++ ')' :: more) =
    (additiveOperator? cs).map fun found => (found.1, found.2 ++ ')' :: more) := by
  fun_cases additiveOperator? cs with
  | case1 | case2 => rfl
  | case3 cs hplus hminus rest hword | case4 cs hplus hminus rest hword
  | case5 cs hplus hminus rest hword =>
    rw [additiveOperator?.eq_3 _ (ne_close more ['+'] (by decide) hplus)
      (ne_close more ['-'] (by decide) hminus), word_close, hword]
    rfl
  | case6 cs hplus hminus hunion hintersect hdiff =>
    rw [additiveOperator?.eq_3 _ (ne_close more ['+'] (by decide) hplus)
      (ne_close more ['-'] (by decide) hminus), word_close]
    split
    · exact (word_ne_close more hunion _ ‹_›).elim
    · exact (word_ne_close more hintersect _ ‹_›).elim
    · exact (word_ne_close more hdiff _ ‹_›).elim
    · rfl

theorem comparisonOperator?_close (cs : List Char) : comparisonOperator? (cs ++ ')' :: more) =
    (comparisonOperator? cs).map fun found => (found.1, found.2 ++ ')' :: more) := by
  fun_cases comparisonOperator? cs with
  | case1 | case2 | case3 | case4 => rfl
  | case5 rest hiff => exact comparisonOperator?.eq_5 _ (ne_close more ['>'] (by decide) hiff)
  | case6 rest hequal => exact comparisonOperator?.eq_6 _ (ne_close more ['='] (by decide) hequal)
  | case7 rest hiff hequal =>
    exact comparisonOperator?.eq_7 _ (ne_close more ['=', '>'] (by decide) hiff)
      (ne_close more ['='] (by decide) hequal)
  | case8 cs hequal hne hge hiff hle hgt hlt rest hword =>
    rw [comparisonOperator?.eq_8 _ (ne_close more ['=', '='] (by decide) hequal)
      (ne_close more ['!', '='] (by decide) hne) (ne_close more ['>', '='] (by decide) hge)
      (ne_close more ['<', '=', '>'] (by decide) hiff) (ne_close more ['<', '='] (by decide) hle)
      (ne_close more ['>'] (by decide) hgt) (ne_close more ['<'] (by decide) hlt), word_close,
      hword]
    rfl
  | case9 cs hequal hne hge hiff hle hgt hlt hword =>
    rw [comparisonOperator?.eq_8 _ (ne_close more ['=', '='] (by decide) hequal)
      (ne_close more ['!', '='] (by decide) hne) (ne_close more ['>', '='] (by decide) hge)
      (ne_close more ['<', '=', '>'] (by decide) hiff) (ne_close more ['<', '='] (by decide) hle)
      (ne_close more ['>'] (by decide) hgt) (ne_close more ['<'] (by decide) hlt), word_close]
    split
    · exact (word_ne_close more hword _ ‹_›).elim
    · rfl

theorem operator?_close (level : Precedence) (cs : List Char) :
    operator? level (cs ++ ')' :: more) =
      (operator? level cs).map fun found => (found.1, found.2 ++ ')' :: more) := by
  cases level with
  | logical => exact logicalOperator?_close more cs
  | comparison => exact comparisonOperator?_close more cs
  | additive => exact additiveOperator?_close more cs
  | multiplicative => exact multiplicativeOperator?_close more cs

/-! ### Readers -/

/-- What the first reader reads, the second reads as well when a parenthesis is closed behind it. -/
def ReadsOn {α : Type} (reader reader' : List Char → Stopping (α × List Char)) : Prop :=
  ∀ ⦃cs a rest⦄, reader cs = .ok (a, rest) →
    reader' (cs ++ ')' :: more) = .ok (a, rest ++ ')' :: more)

variable {more} in
theorem ReadsOn.skip {α : Type} {reader reader' : List Char → Stopping (α × List Char)}
    (h : ReadsOn more reader reader') {cs rest : List Char} {a : α}
    (hread : reader (Phrase.skip cs) = .ok (a, rest)) :
    reader' (Phrase.skip (cs ++ ')' :: more)) = .ok (a, rest ++ ')' :: more) := by
  rw [skip_close]
  exact h hread

theorem readNumber_close (cs : List Char) : readNumber (cs ++ ')' :: more) =
    ((readNumber cs).1, (readNumber cs).2 ++ ')' :: more) := by
  have hclose : Char.isDigit ')' = false := by decide
  unfold readNumber
  rw [takeWhile_close more hclose, dropWhile_close more hclose]
  rcases cs.dropWhile Char.isDigit with _ | ⟨point, _ | ⟨d, tail⟩⟩
  · rfl
  · by_cases hpoint : point = '.'
    · subst hpoint
      rfl
    · simp [hpoint]
  · by_cases hpoint : point = '.'
    · subst hpoint
      simp only [List.cons_append, List.tail_cons]
      rw [← List.cons_append, takeWhile_close more hclose, dropWhile_close more hclose]
      split <;> rfl
    · simp [hpoint]

theorem readQuoted?_close {quote : Char} {cs rest : List Char} {p : Phrase}
    (h : readQuoted? quote cs = some (p, rest)) :
    readQuoted? quote (cs ++ ')' :: more) = some (p, rest ++ ')' :: more) := by
  have hparts := congrArg List.length (@List.takeWhile_append_dropWhile _ (· != quote) cs)
  unfold readQuoted? at h ⊢
  split at h
  · cases h
  · rename_i hquote
    rw [hquote, List.length_append, List.length_cons] at hparts
    rw [List.dropWhile_append, List.takeWhile_append, hquote, if_neg (by simp), if_neg (by omega)]
    cases h
    rfl

theorem signs_close (cs : List Char) :
    signs (cs ++ ')' :: more) = ((signs cs).1, (signs cs).2 ++ ')' :: more) := by
  induction cs with
  | nil => rfl
  | cons c cs ih =>
    rw [List.cons_append, signs, signs, ih]
    split_ifs <;> rfl

variable {more} {inner inner' : PhraseReader} {steps steps' : Nat}

theorem readsOn_readArguments (hinner : ReadsOn more inner inner') (hsteps : steps ≤ steps') :
    ReadsOn more (readArguments inner steps) (readArguments inner' steps') := by
  intro cs ps rest h
  induction steps generalizing steps' cs ps rest with
  | zero => cases h
  | succ steps ih =>
    obtain ⟨k, rfl⟩ : ∃ k, steps' = k + 1 := ⟨steps' - 1, by omega⟩
    unfold readArguments at h ⊢
    rw [skip_close]
    split at h
    · rename_i hcomma
      obtain ⟨⟨argument, after⟩, hargument, h⟩ := bind_eq_ok.mp h
      obtain ⟨⟨arguments, last⟩, harguments, h⟩ := bind_eq_ok.mp h
      cases h
      rw [hcomma]
      exact bind_eq_ok.mpr ⟨_, hinner.skip hargument, bind_eq_ok.mpr ⟨_, ih (by omega) harguments, rfl⟩⟩
    · rename_i hend
      cases h
      rw [hend]
      rfl
    · cases h

theorem readsOn_readPrimary (hinner : ReadsOn more inner inner') (hsees : Sees inner)
    (hsteps : steps ≤ steps') :
    ReadsOn more (readPrimary inner steps) (readPrimary inner' steps') := by
  intro cs p rest h
  refine readPrimary_eq_ok.mpr ?_
  cases readPrimary_eq_ok.mp h with
  | group hgroup hclosed => exact .group (hinner.skip hgroup) (skip_close_of_eq hclosed)
  | quoted hquote hread => exact .quoted hquote (readQuoted?_close more hread)
  | @number c cs _ _ hdigit hread =>
    have hread' := readNumber_close more (c :: cs)
    rw [hread] at hread'
    exact .number hdigit hread'
  | truth b hstart hword => exact .truth b hstart (word_close_of_eq hword)
  | name hstart hword hname hcall =>
    refine .name hstart (word_close_of_eq hword) hname fun start heq => ?_
    rw [skip_close] at heq
    exact ne_close more ['('] (by decide) hcall _ heq
  | callNil hstart hword hname hopened hclosed =>
    exact .callNil hstart (word_close_of_eq hword) hname (skip_close_of_eq hopened)
      (skip_close_of_eq hclosed)
  | @callCons c cs next start _ _ _ _ _ hstart hword hname hopened hsome hfirst hothers =>
    have hopened' : skip (next ++ ')' :: more) = '(' :: (start ++ ')' :: more) :=
      skip_close_of_eq hopened
    have hsome' : ∀ rest, skip (start ++ ')' :: more) ≠ ')' :: rest := by
      -- an argument is there, so that the parenthesis behind the text is not the first token
      obtain ⟨d, hd, -⟩ := hsees hfirst
      rw [skip_close]
      exact ne_first_close more hd hsome
    exact .callCons hstart (word_close_of_eq hword) hname hopened' hsome' (hinner.skip hfirst)
      (readsOn_readArguments hinner hsteps hothers)

theorem readsOn_readSigned (hinner : ReadsOn more inner inner') (hsees : Sees inner)
    (hsteps : steps ≤ steps') :
    ReadsOn more (readSigned inner steps) (readSigned inner' steps') := by
  intro cs p rest h
  obtain ⟨⟨operand, after⟩, hoperand, h⟩ := bind_eq_ok.mp h
  cases h
  unfold readSigned
  rw [signs_close]
  exact bind_eq_ok.mpr ⟨_, readsOn_readPrimary hinner hsees hsteps hoperand, rfl⟩

theorem readsOn_readPower (hinner : ReadsOn more inner inner') (hsees : Sees inner)
    (hsteps : steps ≤ steps') :
    ReadsOn more (readPower inner steps) (readPower inner' steps') := by
  intro cs p rest h
  induction steps generalizing steps' cs p rest with
  | zero => cases h
  | succ steps ih =>
    obtain ⟨k, rfl⟩ : ∃ k, steps' = k + 1 := ⟨steps' - 1, by omega⟩
    obtain ⟨⟨base, after⟩, hbase, h⟩ := bind_eq_ok.mp h
    have hsigned := readsOn_readSigned hinner hsees (show steps ≤ k by omega) hbase
    refine bind_eq_ok.mpr ⟨_, hsigned, ?_⟩
    simp only at h ⊢
    rw [skip_close]
    split at h
    · rename_i hpower
      obtain ⟨⟨exponent, last⟩, hexponent, h⟩ := bind_eq_ok.mp h
      cases h
      have hnext : ReadsOn more (readPower inner steps) (readPower inner' k) := ih (by omega)
      rw [hpower]
      exact bind_eq_ok.mpr ⟨_, hnext.skip hexponent, rfl⟩
    · rename_i hpower
      cases h
      split
      · exact (ne_close more ['^'] (by decide) hpower _ ‹_›).elim
      · rfl

theorem readsOn_readLinks {level : Precedence} {operand operand' : PhraseReader}
    (hoperand : ReadsOn more operand operand') (hsteps : steps ≤ steps') :
    ReadsOn more (readLinks level operand steps) (readLinks level operand' steps') := by
  intro cs links rest h
  induction steps generalizing steps' cs links rest with
  | zero => cases h
  | succ steps ih =>
    obtain ⟨k, rfl⟩ : ∃ k, steps' = k + 1 := ⟨steps' - 1, by omega⟩
    unfold readLinks at h ⊢
    rw [skip_close, operator?_close]
    split at h
    · rename_i hnone
      cases h
      rw [hnone]
      rfl
    · rename_i hsome
      obtain ⟨⟨right, after⟩, hright, h⟩ := bind_eq_ok.mp h
      obtain ⟨⟨others, last⟩, hothers, h⟩ := bind_eq_ok.mp h
      cases h
      rw [hsome]
      exact bind_eq_ok.mpr ⟨_, hoperand.skip hright, bind_eq_ok.mpr ⟨_, ih (by omega) hothers, rfl⟩⟩

theorem readsOn_readChain {level : Precedence} {operand operand' : PhraseReader}
    (hoperand : ReadsOn more operand operand') (hsteps : steps ≤ steps') :
    ReadsOn more (readChain level steps operand) (readChain level steps' operand') := by
  intro cs p rest h
  obtain ⟨⟨first, after⟩, hfirst, h⟩ := bind_eq_ok.mp h
  obtain ⟨⟨links, last⟩, hlinks, h⟩ := bind_eq_ok.mp h
  cases h
  exact bind_eq_ok.mpr ⟨_, hoperand hfirst, bind_eq_ok.mpr
    ⟨_, readsOn_readLinks hoperand hsteps hlinks, rfl⟩⟩

theorem readsOn_readExpression {n m : Nat} (h : n ≤ m) :
    ReadsOn more (readExpression n) (readExpression m) := by
  induction n generalizing m with
  | zero =>
    intro cs p rest hread
    cases hread
  | succ n ih =>
    obtain ⟨k, rfl⟩ : ∃ k, m = k + 1 := ⟨m - 1, by omega⟩
    have hpower := readsOn_readPower (ih (show n ≤ k by omega)) (sees_readExpression n) h
    have hmultiplicative := @readsOn_readChain _ _ _ .multiplicative _ _ hpower h
    have hadditive := @readsOn_readChain _ _ _ .additive _ _ hmultiplicative h
    have hcomparison := @readsOn_readChain _ _ _ .comparison _ _ hadditive h
    exact @readsOn_readChain _ _ _ .logical _ _ hcomparison h

end

/-- A text that reads as a phrase reads as the complement of a group between `!(` and `)`. -/
theorem read_complement {cs : List Char} {p : Phrase} (h : read cs = .ok p) :
    read ('!' :: '(' :: (cs ++ [')'])) = .ok (.signed .not (.group p)) := by
  obtain ⟨⟨phrase, rest⟩, hphrase, h⟩ := bind_eq_ok.mp h
  simp only at h
  split at h
  · rename_i hend
    cases h
    refine read_of_readSigned (readSigned_sign .not (readSigned_of_readPrimary ?_))
    have hsteps : cs.length + 1 ≤ ('!' :: '(' :: (cs ++ [')'])).length := by simp
    have hreads : ReadsOn [] (readExpression (cs.length + 1))
        (readExpression ('!' :: '(' :: (cs ++ [')'])).length) := readsOn_readExpression hsteps
    exact readPrimary_eq_ok.mpr (.group (hreads.skip hphrase) (skip_close_of_eq hend))
  · cases h

end Phrase

namespace Expr

open Phrase

theorem withProducts_close (place : Place) (cs : List Char) :
    withProducts place (cs ++ [')']) = withProducts place cs ++ [')'] := by
  induction cs generalizing place with
  | nil => cases place <;> rfl
  | cons c cs ih =>
    cases place with
    | plain afterName => exact congrArg (c :: ·) (ih _)
    | quoted quote => exact congrArg (c :: ·) (ih _)
    | number =>
      rw [List.cons_append, withProducts, withProducts, ih, ih, ih]
      split_ifs <;> rfl

/-! ### What is refused for its nesting -/

end Expr

/-- Whether a text is refused because of the limit on how deep it may nest. -/
def ParseError.isNesting : ParseError → Bool
  | .tooDeep _ _ | .tooManyOperators _ _ => true
  | .empty | .unexpectedEnd _ | .unsupported _ _ _ | .unexpected _ _ _ => false

namespace Expr

variable {names : Name.Reading}

theorem isNesting_of_nest {d : Depth} {e : ParseError} (h : nest d = .error e) :
    e.isNesting = true := by
  unfold nest at h
  split at h <;> cases h
  rfl

theorem isNesting_of_nestOperator {d : Depth} {e : ParseError} (h : nestOperator d = .error e) :
    e.isNesting = true := by
  unfold nestOperator at h
  split at h <;> cases h
  rfl

mutual

/-- A phrase has a tree unless it nests too deep. -/
theorem isNesting_of_ofPhrase {d : Depth} {e : ParseError} (p : Phrase)
    (h : ofPhrase names d p = .error e) : e.isNesting = true := by
  cases p with
  | number whole fraction | text content | truth b | name name => cases h
  | call name arguments =>
    rcases bind_eq_error.mp h with h | ⟨_, -, h⟩
    · exact isNesting_of_ofArguments arguments h
    · cases h
  | group inner =>
    rcases bind_eq_error.mp h with h | ⟨_, -, h⟩
    · exact isNesting_of_nest h
    · exact isNesting_of_ofPhrase inner h
  | signed op operand =>
    rcases bind_eq_error.mp h with h | ⟨_, -, h⟩
    · exact isNesting_of_nestOperator h
    rcases bind_eq_error.mp h with h | ⟨_, -, h⟩
    · exact isNesting_of_ofPhrase operand h
    · cases h
  | power base exponent =>
    rcases bind_eq_error.mp h with h | ⟨_, -, h⟩
    · exact isNesting_of_ofPhrase base h
    rcases bind_eq_error.mp h with h | ⟨_, -, h⟩
    · exact isNesting_of_nest h
    rcases bind_eq_error.mp h with h | ⟨_, -, h⟩
    · exact isNesting_of_ofPhrase exponent h
    · cases h
  | chain first links =>
    rcases bind_eq_error.mp h with h | ⟨left, -, h⟩
    · exact isNesting_of_ofPhrase first h
    · exact isNesting_of_ofLinks left links h

theorem isNesting_of_ofArguments {d : Depth} {e : ParseError} (ps : List Phrase)
    (h : ofArguments names d ps = .error e) : e.isNesting = true := by
  cases ps with
  | nil => cases h
  | cons p ps =>
    rcases bind_eq_error.mp h with h | ⟨_, -, h⟩
    · exact isNesting_of_nest h
    rcases bind_eq_error.mp h with h | ⟨_, -, h⟩
    · exact isNesting_of_ofPhrase p h
    rcases bind_eq_error.mp h with h | ⟨_, -, h⟩
    · exact isNesting_of_ofArguments ps h
    · cases h

theorem isNesting_of_ofLinks {d : Depth} {e : ParseError} (left : Expr Unit)
    (links : List (BinaryOperator × Phrase)) (h : ofLinks names d left links = .error e) :
    e.isNesting = true := by
  cases links with
  | nil => cases h
  | cons link links =>
    obtain ⟨op, p⟩ := link
    rcases bind_eq_error.mp h with h | ⟨_, -, h⟩
    · exact isNesting_of_nestOperator h
    rcases bind_eq_error.mp h with h | ⟨right, -, h⟩
    · exact isNesting_of_ofPhrase p h
    · exact isNesting_of_ofLinks (binary () op left right) links h

end

/-- A group has the tree of what is in it, if perhaps with fewer levels to spare. -/
theorem ofPhrase_complement {d : Depth} {p : Phrase} {built tree : Expr Unit}
    (hbuilt : ofPhrase names d p = .ok built)
    (h : ofPhrase names d (.signed .not (.group p)) = .ok tree) : tree = .complement () built := by
  obtain ⟨deeper, hdeeper, h⟩ := bind_eq_ok.mp h
  obtain ⟨operand, hoperand, h⟩ := bind_eq_ok.mp h
  obtain ⟨deepest, hdeepest, hoperand⟩ := bind_eq_ok.mp hoperand
  cases h
  have hremaining := Depth.remaining_of_enter? ((enters_nestOperator d deeper).mp hdeeper)
  have hremaining' := Depth.remaining_of_enter? ((enters_nest deeper deepest).mp hdeepest)
  have hsame := ofPhrase_mono (show deepest.remaining ≤ d.remaining by omega) p hoperand
  rw [hbuilt] at hsame
  cases hsame
  rfl

/-- A text that is parsed is also parsed between `!(` and `)`, unless it nests too deep then, and
what it is parsed into is the complement of the tree it is parsed into by itself. -/
theorem parse_complement {limit : Nat} {line : Option Nat} {text : String} {tree : Expr Mark}
    (h : parse names limit line text = .ok tree) : ∃ built : Expr Unit,
      tree = built.numbered line ∧ ∀ line',
        (∃ e, parse names limit line' ("!(" ++ text ++ ")") = .error e ∧ e.isNesting = true) ∨
        parse names limit line' ("!(" ++ text ++ ")") =
          .ok (numbered line' (.complement () built)) := by
  obtain ⟨phrase, built, hread, -, hbuilt, rfl⟩ := parse_eq_ok.mp h
  refine ⟨built, rfl, fun line' => ?_⟩
  have hsource : (expandProducts ("!(" ++ text ++ ")")).toList =
      '!' :: '(' :: ((expandProducts text).toList ++ [')']) := by
    have hlist : ("!(" ++ text ++ ")").toList = '!' :: '(' :: (text.toList ++ [')']) := by simp
    unfold expandProducts
    rw [String.toList_ofList, String.toList_ofList, hlist, withProducts_plain false rfl rfl,
      withProducts_plain _ rfl rfl]
    exact congrArg (fun cs => '!' :: '(' :: cs) (withProducts_close _ _)
  have hread' := Phrase.read_complement hread
  rw [← hsource] at hread'
  rw [parse_of_read hread']
  by_cases hestimate : estimateNesting (expandProducts ("!(" ++ text ++ ")")).toList > limit
  · rw [if_pos hestimate]
    exact .inl ⟨_, rfl, rfl⟩
  · rw [if_neg hestimate]
    cases hnegated : ofPhrase names { limit } (.signed .not (.group phrase)) with
    | error e => exact .inl ⟨e, rfl, isNesting_of_ofPhrase _ hnegated⟩
    | ok negated =>
      cases ofPhrase_complement hbuilt hnegated
      exact .inr rfl

end Expr

end Premise
