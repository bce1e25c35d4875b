import Premise.Proofs.GrammarTokens
import Premise.Proofs.Tiers

/-!
The readers recognize the grammar.

A reader that yields a phrase yields what the pattern of its tier matches, with a tree that spells
the phrase out. Where a reader stops, the pattern fails, or it matches less and leaves a text that
nothing can go on with (`Stuck`): a repetition gives up an operator whose operand is missing, and a
name is still a name where the arguments behind it are malformed. Such a text is never closed, so in
the end the whole text does not match (`exists_read_iff`).
-/

namespace Premise

open Phrase (skip word)

namespace Tier

/-- The pattern of the phrases of a tier. -/
def pattern : Tier → Grammar.Pattern
  | .chain level => .rule (.chain level)
  | .power => .rule .power
  | .unary => .rule .unary
  | .primary => Grammar.Pattern.primary

end Tier

namespace Phrase

/-- The phrase of a chain, which is its first operand where there are no others. -/
def linked (first : Phrase) (links : List (BinaryOperator × Phrase)) : Phrase :=
  if links.isEmpty then first else .chain first links

end Phrase

namespace Grammar

theorem operand_eq_pattern (level : Precedence) :
    Pattern.operand level = (Tier.chain level).next.pattern := by
  cases level <;> rfl

/-- The tree of a phrase of a tier. Groups have no node of their own, and everything else has one
for each tier down to its own. -/
inductive Spells : Tier → Phrase → Tree → Prop
  | number {whole fraction : List Char} (h : Layout.IsDecimal whole fraction) :
      Spells .primary (.number whole fraction)
        (.node .number (Layout.numberToken whole fraction) [])
  | text {quote : Char} {token content : List Char} :
      Spells .primary (.text (String.ofList content))
        (.node .string token [.node (.content quote) content []])
  | truth (b : Bool) :
      Spells .primary (.truth b) (.node .boolean (if b then "true" else "false").toList [])
  | name (name : String) : Spells .primary (.name name) (.node .identifier name.toList [])
  | call {name : String} {token : List Char} {arguments : List (Phrase × Tree)}
      (h : ∀ a ∈ arguments, Spells (.chain .logical) a.1 a.2) :
      Spells .primary (.call name (arguments.map Prod.fst))
        (.node .call token (.node .identifier name.toList [] :: arguments.map Prod.snd))
  | group {inner : Phrase} {t : Tree} (h : Spells (.chain .logical) inner t) :
      Spells .primary (.group inner) t
  | unary (ops : List UnaryOperator) {operand : Phrase} {token : List Char} {t : Tree}
      (h : Spells .primary operand t) :
      Spells .unary (ops.foldr .signed operand) (.node .unary token (ops.map signTree ++ [t]))
  | base {p : Phrase} {token : List Char} {t : Tree} (h : Spells .unary p t) :
      Spells .power p (.node .power token [t])
  | power {base exponent : Phrase} {token : List Char} {t u : Tree} (hbase : Spells .unary base t)
      (hexponent : Spells .power exponent u) :
      Spells .power (.power base exponent)
        (.node .power token [t, operatorTree (.arithmetic .power), u])
  | chain {level : Precedence} {first : Phrase} {token : List Char} {t : Tree}
      {links : List ((BinaryOperator × Phrase) × Tree)}
      (hfirst : Spells (Tier.chain level).next first t)
      (hops : ∀ l ∈ links, l.1.1 ∈ level.operators)
      (hlinks : ∀ l ∈ links, Spells (Tier.chain level).next l.1.2 l.2) :
      Spells (.chain level) (Phrase.linked first (links.map Prod.fst))
        (.node (.chain level) token (t :: links.flatMap fun l => [operatorTree l.1.1, l.2]))

/-! ### Texts that nothing goes on with -/

/-- Behind a phrase of the tier, the text neither ends nor goes on. -/
structure Stuck (tier : Tier) (rest : List Char) : Prop where
  more : skip rest ≠ []
  mark : ∀ c ∈ (skip rest).head?, c ≠ ')' ∧ c ≠ ','
  power : Tier.power.rank < tier.rank → ∀ cs, skip rest ≠ '^' :: cs
  operator : ∀ level, (Tier.chain level).rank < tier.rank →
    Phrase.operator? level (skip rest) = none

namespace Stuck

variable {tier other : Tier} {rest rest' : List Char}

theorem looser (h : Stuck tier rest) (hle : other.rank ≤ tier.rank) : Stuck other rest where
  more := h.more
  mark := h.mark
  power hlt := h.power (Nat.lt_of_lt_of_le hlt hle)
  operator level hlt := h.operator level (Nat.lt_of_lt_of_le hlt hle)

theorem congr (h : Stuck tier rest) (hskip : skip rest' = skip rest) : Stuck tier rest' where
  more := hskip ▸ h.more
  mark := hskip ▸ h.mark
  power := hskip ▸ h.power
  operator := hskip ▸ h.operator

theorem ne_close (h : Stuck tier rest) (cs : List Char) : skip rest ≠ ')' :: cs :=
  fun heq => (h.mark ')' (by rw [heq]; rfl)).1 rfl

theorem ne_comma (h : Stuck tier rest) (cs : List Char) : skip rest ≠ ',' :: cs :=
  fun heq => (h.mark ',' (by rw [heq]; rfl)).2 rfl

/-- A parenthesis that opens behind a primary phrase. -/
theorem atOpening {cs : List Char} (h : skip rest = '(' :: cs) : Stuck .primary rest where
  more := by
    rw [h]
    exact List.cons_ne_nil _ _
  mark c hc := by
    rw [h] at hc
    cases hc
    decide
  power _ more heq := by
    rw [h] at heq
    cases heq
  operator level _ := by
    rw [h]
    cases level <;> rfl

/-- A power whose exponent is missing. -/
theorem atPower {cs : List Char} (h : skip rest = '^' :: cs) : Stuck .power rest where
  more := by
    rw [h]
    exact List.cons_ne_nil _ _
  mark c hc := by
    rw [h] at hc
    cases hc
    decide
  power hlt := absurd hlt (Nat.lt_irrefl _)
  operator level _ := by
    rw [h]
    exact Phrase.operator?_mark level (.inr (.inr rfl)) cs

/-- An operator whose right operand is missing. -/
theorem atOperator {level : Precedence} {found : BinaryOperator × List Char}
    (h : Phrase.operator? level (skip rest) = some found) : Stuck (.chain level) rest where
  more hnil := by
    rw [hnil] at h
    cases level <;> cases h
  mark c hc := by
    cases hcs : skip rest with
    | nil =>
      rw [hcs] at hc
      cases hc
    | cons d cs =>
      rw [hcs] at hc h
      cases hc
      constructor
      · rintro rfl
        rw [Phrase.operator?_mark level (.inl rfl)] at h
        cases h
      · rintro rfl
        rw [Phrase.operator?_mark level (.inr (.inl rfl))] at h
        cases h
  power hlt := absurd hlt (by cases level <;> decide)
  operator other hlt := by
    refine operator?_looser (Nat.le_of_lt hlt) ?_ h
    rintro rfl
    exact Nat.lt_irrefl _ hlt

end Stuck

/-- The pattern of a tier fails, or what it matches is stuck. -/
def Fails (tier : Tier) (cs : List Char) : Prop :=
  Matches .spaced tier.pattern cs none ∨
    ∃ ts rest, Matches .spaced tier.pattern cs (some (ts, rest)) ∧ Stuck tier rest

/-- On texts up to a length, the reader does what the pattern of the tier does. -/
structure Follows (bound : Nat) (tier : Tier) (reader : Phrase.PhraseReader) : Prop where
  reads {cs rest : List Char} {p : Phrase} (hlength : cs.length < bound) (hcs : skip cs = cs)
    (h : reader cs = .ok (p, rest)) :
    rest.length < cs.length ∧ ∃ t after, Spells tier p t ∧
      Matches .spaced tier.pattern cs (some ([t], after)) ∧ skip after = skip rest
  fails {cs stop : List Char} (hlength : cs.length < bound) (hcs : skip cs = cs)
    (h : reader cs = .error stop) : Fails tier cs

/-! ### Arguments -/

variable {m : Mode} {p : Pattern} {cs rest stop : List Char}

theorem Matches.many_of_more {r : List Tree × List Char} (h : Matches m (.more p) cs (some r))
    (hcs : m.gap cs = cs) : Matches m (.many p) cs (some r) := by
  cases h with
  | moreNone hp => exact .manyNone (hcs ▸ hp)
  | more hp hmore => exact .many (hcs ▸ hp) hmore

section

variable {inner : Phrase.PhraseReader} {bound steps : Nat}

theorem not_matches_argument (h : ∀ more, cs ≠ ',' :: more) :
    Matches .spaced Pattern.argument cs none := .seqFails (not_matches_mark h)

theorem matches_arguments (hinner : Follows bound (.chain .logical) inner)
    {others : List Phrase} (hlength : cs.length ≤ bound)
    (h : Phrase.readArguments inner steps cs = .ok (others, rest)) {start : List Char}
    (hstart : skip start = skip cs) :
    rest.length < cs.length ∧ ∃ arguments : List (Phrase × Tree), arguments.map Prod.fst = others ∧
      (∀ a ∈ arguments, Spells (.chain .logical) a.1 a.2) ∧
      ∃ after, Matches .spaced (.more Pattern.argument) start
        (some (arguments.map Prod.snd, after)) ∧ skip after = ')' :: rest := by
  induction steps generalizing cs others rest start with
  | zero => cases h
  | succ steps ih =>
    have hskip := length_skip_le cs
    unfold Phrase.readArguments at h
    split at h
    · rename_i next hcomma
      obtain ⟨⟨argument, middle⟩, hargument, h⟩ := bind_eq_ok.mp h
      obtain ⟨⟨arguments, last⟩, hothers, h⟩ := bind_eq_ok.mp h
      cases h
      have hnext := length_skip_le next
      rw [hcomma, List.length_cons] at hskip
      obtain ⟨hshorter, t, after, hspells, hmatches, hafter⟩ :=
        hinner.reads (by omega) (skip_skip next) hargument
      obtain ⟨hrest, others, hfst, hall, last, hmore, hlast⟩ := ih (by omega) hothers hafter
      refine ⟨by omega, (argument, t) :: others, by rw [List.map_cons, hfst],
        List.forall_mem_cons.mpr ⟨hspells, hall⟩, last, ?_, hlast⟩
      have hlink : Matches .spaced Pattern.argument (skip start) (some ([t], after)) := by
        rw [hstart, hcomma]
        exact (matches_mark .spaced ',' next).seq hmatches
      exact Matches.more hlink hmore
    · rename_i next hclosed
      cases h
      rw [hclosed, List.length_cons] at hskip
      have hclosed := hstart.trans hclosed
      exact ⟨by omega, [], rfl, List.forall_mem_nil _, start, .moreNone (not_matches_argument
        fun more heq => nomatch hclosed.symm.trans heq), hclosed⟩
    · cases h

/-- Behind arguments that are malformed, no parenthesis closes what was read of them. -/
theorem not_closed_arguments (hinner : Follows bound (.chain .logical) inner)
    (hlength : cs.length ≤ bound) (hsteps : cs.length < steps)
    (h : Phrase.readArguments inner steps cs = .error stop) {start : List Char}
    (hstart : skip start = skip cs) :
    ∃ ts after, Matches .spaced (.more Pattern.argument) start (some (ts, after)) ∧
      ∀ more, skip after ≠ ')' :: more := by
  induction steps generalizing cs stop start with
  | zero => cases hsteps
  | succ steps ih =>
    have hskip := length_skip_le cs
    unfold Phrase.readArguments at h
    split at h
    · rename_i next hcomma
      have hcomma' := hstart.trans hcomma
      have hmark := matches_mark .spaced ',' next
      have hnext := length_skip_le next
      rw [hcomma, List.length_cons] at hskip
      rcases bind_eq_error.mp h with hargument | ⟨⟨argument, middle⟩, hargument, h⟩
      · rcases hinner.fails (by omega) (skip_skip next) hargument with
          hnone | ⟨ts, after, hsome, hstuck⟩
        · refine ⟨[], start, .moreNone ?_, fun more heq => nomatch hcomma'.symm.trans heq⟩
          show Matches .spaced Pattern.argument (skip start) none
          rw [hcomma']
          exact hmark.seqEnds hnone
        · have hlink : Matches .spaced Pattern.argument (skip start) (some (ts, after)) := by
            rw [hcomma']
            exact hmark.seq hsome
          exact ⟨ts ++ [], after,
            Matches.more hlink (.moreNone (not_matches_argument hstuck.ne_comma)), hstuck.ne_close⟩
      · obtain ⟨hshorter, t, after, -, hmatches, hafter⟩ :=
          hinner.reads (by omega) (skip_skip next) hargument
        rcases bind_eq_error.mp h with hothers | ⟨_, -, h⟩
        · obtain ⟨ts, last, hmore, hlast⟩ := ih (by omega) (by omega) hothers hafter
          have hlink : Matches .spaced Pattern.argument (skip start) (some ([t], after)) := by
            rw [hcomma']
            exact hmark.seq hmatches
          exact ⟨[t] ++ ts, last, Matches.more hlink hmore, hlast⟩
        · cases h
    · cases h
    · rename_i hcomma hclosed
      have hother (c : Char) (hc : ∀ more, skip cs ≠ c :: more) (more : List Char) :
          skip start ≠ c :: more := by
        rw [hstart]
        exact hc more
      exact ⟨[], start, .moreNone (not_matches_argument (hother ',' hcomma)), hother ')' hclosed⟩

end

/-! ### Primary phrases -/

section

variable {inner : Phrase.PhraseReader} {bound steps : Nat}

/-- Why there is no primary phrase to read, by the first token. -/
inductive StopsPrimary (inner : Phrase.PhraseReader) (steps : Nat) : List Char → Prop
  | group {cs stop : List Char} (h : inner (skip cs) = .error stop) :
      StopsPrimary inner steps ('(' :: cs)
  | unclosed {cs after : List Char} {p : Phrase} (h : inner (skip cs) = .ok (p, after))
      (hopen : ∀ rest, skip after ≠ ')' :: rest) : StopsPrimary inner steps ('(' :: cs)
  | quoted {c : Char} {cs : List Char} (hquote : Expr.isQuote c = true)
      (h : Phrase.readQuoted? c cs = none) : StopsPrimary inner steps (c :: cs)
  | reserved {c : Char} {cs : List Char} (hstart : Expr.isNameStart c = true)
      (hname : Phrase.reserved.contains (word (c :: cs)).1 = true)
      (htruth : (word (c :: cs)).1 ≠ "true" ∧ (word (c :: cs)).1 ≠ "false") :
      StopsPrimary inner steps (c :: cs)
  | argument {c : Char} {cs next start stop : List Char} {name : String}
      (hstart : Expr.isNameStart c = true) (hword : word (c :: cs) = (name, next))
      (hname : Phrase.reserved.contains name = false) (hopened : skip next = '(' :: start)
      (hsome : ∀ more, skip start ≠ ')' :: more) (h : inner (skip start) = .error stop) :
      StopsPrimary inner steps (c :: cs)
  | arguments {c : Char} {cs next start after stop : List Char} {name : String} {argument : Phrase}
      (hstart : Expr.isNameStart c = true) (hword : word (c :: cs) = (name, next))
      (hname : Phrase.reserved.contains name = false) (hopened : skip next = '(' :: start)
      (hfirst : inner (skip start) = .ok (argument, after))
      (h : Phrase.readArguments inner steps after = .error stop) :
      StopsPrimary inner steps (c :: cs)
  | other {cs : List Char} (h : ∀ c ∈ cs.head?, c ≠ '(' ∧ Expr.isQuote c = false ∧
      c.isDigit = false ∧ Expr.isNameStart c = false) : StopsPrimary inner steps cs

theorem stopsPrimary_of_readPrimary (h : Phrase.readPrimary inner steps cs = .error stop) :
    StopsPrimary inner steps cs := by
  cases cs with
  | nil => exact .other nofun
  | cons c cs =>
    simp only [Phrase.readPrimary] at h
    split at h
    · rename_i hopen
      rw [hopen]
      rcases bind_eq_error.mp h with h | ⟨⟨phrase, after⟩, hphrase, h⟩
      · exact .group h
      · simp only at h
        split at h
        · cases h
        · rename_i hclosed
          exact .unclosed hphrase hclosed
    rename_i hopen
    split at h
    · rename_i hquote
      split at h
      · cases h
      · rename_i hnone
        exact .quoted hquote hnone
    rename_i hquote
    split at h
    · cases h
    rename_i hdigit
    split at h
    · rename_i hstart
      split at h
      · cases h
      rename_i htrue
      split at h
      · cases h
      rename_i hfalse
      split at h
      · rename_i hreserved
        exact .reserved hstart hreserved ⟨htrue, hfalse⟩
      rename_i hreserved
      have hname := Bool.eq_false_iff.mpr hreserved
      split at h
      · rename_i hopened
        split at h
        · cases h
        · rename_i hsome
          rcases bind_eq_error.mp h with h | ⟨⟨argument, after⟩, hfirst, h⟩
          · exact .argument hstart rfl hname hopened hsome h
          rcases bind_eq_error.mp h with h | ⟨_, -, h⟩
          · exact .arguments hstart rfl hname hopened hfirst h
          · cases h
      · cases h
    · rename_i hstart
      refine .other ?_
      rintro _ ⟨⟩
      exact ⟨hopen, by simpa using hquote, by simpa using hdigit, by simpa using hstart⟩

theorem primary_of_literal (hname : Matches .spaced (.rule .identifier) cs none)
    {r : List Tree × List Char} (h : Matches .spaced Pattern.literal cs (some r)) :
    Matches .spaced Pattern.primary cs (some r) :=
  .altElse (.ruleFails (.seqFails hname)) (.alt h)

theorem primary_of_identifier (hcall : Matches .spaced (.rule .call) cs none)
    (hliteral : Matches .spaced Pattern.literal cs none) {r : List Tree × List Char}
    (h : Matches .spaced (.rule .identifier) cs (some r)) :
    Matches .spaced Pattern.primary cs (some r) :=
  .altElse hcall (.altElse hliteral (.alt h))

theorem primary_of_group (hname : Matches .spaced (.rule .identifier) cs none)
    (hliteral : Matches .spaced Pattern.literal cs none)
    {r : Option (List Tree × List Char)} (h : Matches .spaced Pattern.group cs r) :
    Matches .spaced Pattern.primary cs r :=
  .altElse (.ruleFails (.seqFails hname)) (.altElse hliteral (.altElse hname h))

theorem not_matches_group (h : ∀ more, cs ≠ '(' :: more) :
    Matches .spaced Pattern.group cs none := .seqFails (not_matches_mark h)

theorem not_matches_name (h : ∀ c ∈ cs.head?, Expr.isNameStart c = false) :
    Matches .spaced (.rule .identifier) cs none :=
  not_matches_identifier fun c hc => .inl (h c hc)

/-- A mark begins neither a name nor a literal. -/
theorem not_matches_at_mark {c : Char} (hc : c ∈ Layout.marks) (cs : List Char) :
    Matches .spaced (.rule .identifier) (c :: cs) none ∧
      Matches .spaced Pattern.literal (c :: cs) none := by
  have hmarks : Layout.marks.all (fun d => !Expr.isNameStart d && !Expr.isQuote d && !d.isDigit &&
      !Expr.isNameChar d) = true := by decide
  obtain ⟨⟨⟨hstart, hquote⟩, hdigit⟩, hchar⟩ : ((Expr.isNameStart c = false ∧
      Expr.isQuote c = false) ∧ c.isDigit = false) ∧ Expr.isNameChar c = false := by
    simpa using List.all_eq_true.mp hmarks c hc
  have hword : (word (c :: cs)).1 = "" := by
    rw [word, List.takeWhile_cons_of_neg (by simp [hchar])]
  refine ⟨not_matches_name (by simpa using hstart), not_matches_literal (by simpa using hquote)
    (by simpa using hdigit) ?_⟩
  rw [hword]
  decide

theorem not_matches_close (cs : List Char) :
    Matches .spaced (.rule (.chain .logical)) (')' :: cs) none := by
  obtain ⟨hname, hliteral⟩ := not_matches_at_mark (c := ')') (by decide) cs
  have hprimary := primary_of_group hname hliteral (not_matches_group (by simp))
  have hsigns : Matches .spaced (.many Pattern.signs) (')' :: cs) (some ([], ')' :: cs)) :=
    .manyNone (not_matches_sign (by simp))
  have hunary : Matches .spaced (.rule .unary) (')' :: cs) none :=
    .ruleFails (hsigns.seqEnds hprimary)
  have hpower : Matches .spaced (.rule .power) (')' :: cs) none := .ruleFails (.seqFails hunary)
  have hchain {level : Precedence} (h : Matches .spaced (Pattern.operand level) (')' :: cs) none) :
      Matches .spaced (.rule (.chain level)) (')' :: cs) none := .ruleFails (.seqFails h)
  exact @hchain .logical (@hchain .comparison (@hchain .additive (@hchain .multiplicative hpower)))

/-- A name that could be called is no literal. -/
theorem not_matches_literal_at_name {c : Char} {cs : List Char} (hstart : Expr.isNameStart c = true)
    {name : String} (hword : word (c :: cs) = (name, rest))
    (hname : Phrase.reserved.contains name = false) :
    Matches .spaced Pattern.literal (c :: cs) none := by
  obtain ⟨-, hquote, hdigit⟩ := Phrase.marks_of_isNameStart hstart
  refine not_matches_literal (by simpa using hquote) (by simpa using hdigit) ?_
  rw [hword]
  exact Phrase.ne_of_not_reserved hname

theorem word_of_not_start (h : ∀ c ∈ cs.head?, Expr.isNameStart c = false) :
    (word cs).1 ≠ "true" ∧ (word cs).1 ≠ "false" := by
  have hne {w : String} {c : Char} {ds : List Char} (hw : w.toList = c :: ds)
      (hc : Expr.isNameStart c = true) : (word cs).1 ≠ w := by
    intro heq
    have happend := append_word cs
    rw [heq, hw] at happend
    rw [h c (by rw [← happend]; rfl)] at hc
    cases hc
  exact ⟨hne (c := 't') rfl rfl, hne (c := 'f') rfl rfl⟩

theorem length_word_lt {c : Char} {cs : List Char} (hstart : Expr.isNameStart c = true)
    {w : String} (hword : word (c :: cs) = (w, rest)) : rest.length < (c :: cs).length := by
  have hle := (List.dropWhile_suffix Expr.isNameChar (l := cs)).length_le
  rw [word, List.dropWhile_cons_of_pos (Expr.isNameChar_of_isNameStart hstart)] at hword
  cases hword
  exact Nat.lt_succ_of_le hle

/-- What stands between the parentheses of a call is shorter than the call. -/
theorem length_opened_lt {c : Char} {cs next start : List Char}
    (hstart : Expr.isNameStart c = true) {w : String} (hword : word (c :: cs) = (w, next))
    (hopened : skip next = '(' :: start) : (skip start).length + 1 < (c :: cs).length := by
  have hshorter := length_word_lt hstart hword
  have hnext := length_skip_le next
  have hlast := length_skip_le start
  rw [hopened, List.length_cons] at hnext
  omega

theorem matches_closing {after : List Char} (h : skip after = ')' :: rest) :
    Matches .spaced (.text [')']) (Mode.gap .spaced after) (some ([], rest)) := by
  show Matches .spaced (.text [')']) (skip after) _
  rw [h]
  exact matches_mark .spaced ')' rest

/-- A call by its parts: the name, and what stands between the parentheses. -/
theorem matches_call {name after start : List Char} {ts : List Tree}
    (hname : Matches .spaced (.rule .identifier) cs (some ([.node .identifier name []], rest)))
    (hopened : skip rest = '(' :: start)
    (harguments : Matches .spaced (.optional Pattern.arguments) (skip start) (some (ts, after)))
    {last : List Char} (hclosed : skip after = ')' :: last) :
    ∃ token, Matches .spaced (.rule .call) cs
      (some ([.node .call token (.node .identifier name [] :: ts)], last)) := by
  have hmarks : Matches .spaced (.seq (.text ['(']) (.seq (.optional Pattern.arguments)
      (.text [')']))) (skip rest) (some (ts ++ [], last)) := by
    rw [hopened]
    exact (matches_mark .spaced '(' start).seq (harguments.seq (matches_closing hclosed))
  rw [List.append_nil] at hmarks
  exact Matches.exists_node (n := .call) (hname.seq hmarks)

theorem not_matches_call {name start : List Char}
    (hname : Matches .spaced (.rule .identifier) cs (some ([.node .identifier name []], rest)))
    (hopened : skip rest = '(' :: start) {ts : List Tree} {after : List Char}
    (harguments : Matches .spaced (.optional Pattern.arguments) (skip start) (some (ts, after)))
    (hopen : ∀ more, skip after ≠ ')' :: more) : Matches .spaced (.rule .call) cs none := by
  have hmarks : Matches .spaced (.seq (.text ['(']) (.seq (.optional Pattern.arguments)
      (.text [')']))) (skip rest) none := by
    rw [hopened]
    exact (matches_mark .spaced '(' start).seqEnds (harguments.seqEnds (not_matches_mark hopen))
  exact .ruleFails (hname.seqEnds hmarks)

theorem reads_readPrimary (hinner : Follows bound (.chain .logical) inner) {p : Phrase}
    (hlength : cs.length < bound + 1)
    (h : Phrase.readPrimary inner steps cs = .ok (p, rest)) :
    rest.length < cs.length ∧ ∃ t after, Spells .primary p t ∧
      Matches .spaced Pattern.primary cs (some ([t], after)) ∧ skip after = skip rest := by
  cases Phrase.readPrimary_eq_ok.mp h with
  | @group cs after _ inner hgroup hclosed =>
    have hskip := length_skip_le cs
    have hlast := length_skip_le after
    rw [hclosed, List.length_cons] at hlast
    rw [List.length_cons] at hlength ⊢
    obtain ⟨hshorter, t, after', hspells, hmatches, hafter⟩ :=
      hinner.reads (by omega) (skip_skip cs) hgroup
    obtain ⟨hname, hliteral⟩ := not_matches_at_mark (c := '(') (by decide) cs
    exact ⟨by omega, t, rest, .group hspells, primary_of_group hname hliteral
      ((matches_mark .spaced '(' cs).seq (hmatches.seq (matches_closing (hafter.trans hclosed)))),
      rfl⟩
  | @quoted c cs _ _ hquote hread =>
    have hstart : Expr.isNameStart c = false := by
      rcases Expr.eq_of_isQuote hquote with rfl | rfl <;> decide
    have hdigit : c.isDigit = false := by
      rcases Expr.eq_of_isQuote hquote with rfl | rfl <;> decide
    have hstring := matches_quoted hquote cs
    rw [hread] at hstring
    obtain ⟨content, rfl, -, hstring⟩ := hstring
    have happend := congrArg List.length hstring.node_append
    simp only [List.length_append, List.length_cons] at happend ⊢
    exact ⟨by omega, _, rest, .text, primary_of_literal (not_matches_name (by simpa using hstart))
      (.altElse (not_matches_number (by simpa using hdigit)) (.alt hstring)), rfl⟩
  | @number c cs _ _ hdigit hread =>
    have hstart : Expr.isNameStart c = false := by
      cases hstart : Expr.isNameStart c with
      | false => rfl
      | true => rw [← hdigit, Expr.isDigit_of_isNameStart hstart]
    obtain ⟨whole, fraction, last, heq, hdecimal, hnumber⟩ := matches_number hdigit cs
    rw [hread] at heq
    cases heq
    obtain ⟨d, ds, htoken, -⟩ := hdecimal.token
    have happend := congrArg List.length hnumber.node_append
    rw [htoken] at happend
    simp only [List.length_append, List.length_cons] at happend ⊢
    exact ⟨by omega, _, rest, .number hdecimal,
      primary_of_literal (not_matches_name (by simpa using hstart)) (.alt hnumber), rfl⟩
  | @truth c cs _ b hstart hword =>
    obtain ⟨-, hquote, hdigit⟩ := Phrase.marks_of_isNameStart hstart
    have hname : Matches .spaced (.rule .identifier) (c :: cs) none := by
      refine not_matches_identifier fun _ _ => .inr ?_
      rw [hword]
      cases b <;> rfl
    exact ⟨length_word_lt hstart hword, _, rest, .truth b, primary_of_literal hname
      (.altElse (not_matches_number (by simpa using hdigit))
        (.altElse (not_matches_string (by simpa using hquote)) (matches_boolean b hword))), rfl⟩
  | @name c cs _ name hstart hword hname hcall =>
    have hidentifier := matches_identifier hstart hword hname
    exact ⟨length_word_lt hstart hword, _, rest, .name name, primary_of_identifier
      (.ruleFails (hidentifier.seqEnds (.seqFails (not_matches_mark hcall))))
      (not_matches_literal_at_name hstart hword hname) hidentifier, rfl⟩
  | @callNil c cs next start _ name hstart hword hname hopened hclosed =>
    have hshorter := length_opened_lt hstart hword hopened
    rw [hclosed, List.length_cons] at hshorter
    have harguments : Matches .spaced Pattern.arguments (skip start) none := by
      rw [hclosed]
      exact .seqFails (not_matches_close rest)
    obtain ⟨token, hcall⟩ := matches_call (matches_identifier hstart hword hname) hopened
      (.optionalNone harguments) ((skip_skip start).trans hclosed)
    exact ⟨by omega, _, rest, .call (List.forall_mem_nil _), .alt hcall, rfl⟩
  | @callCons c cs next start after _ name argument arguments hstart hword hname hopened hsome
      hfirst hothers =>
    have hshorter := length_opened_lt hstart hword hopened
    obtain ⟨hlength', t, after', hspells, hmatches, hafter⟩ :=
      hinner.reads (by omega) (skip_skip start) hfirst
    obtain ⟨hrest, others, rfl, hall, last, hmore, hclosed⟩ :=
      matches_arguments hinner (by omega) hothers ((skip_skip after').trans hafter)
    have harguments := hmatches.seq (hmore.many_of_more (skip_skip after'))
    obtain ⟨token, hcall⟩ := matches_call (matches_identifier hstart hword hname) hopened
      (.optional harguments) hclosed
    have hspelled : ∀ a ∈ (argument, t) :: others, Spells (.chain .logical) a.1 a.2 :=
      List.forall_mem_cons.mpr ⟨hspells, hall⟩
    exact ⟨by omega, _, rest, .call hspelled, .alt hcall, rfl⟩

theorem ne_mark_of_isNameStart {c d : Char} {cs : List Char} (hstart : Expr.isNameStart c = true)
    (hd : Expr.isNameStart d = false) (more : List Char) : c :: cs ≠ d :: more := by
  intro heq
  rw [(List.cons.inj heq).1, hd] at hstart
  cases hstart

/-- Where the arguments of a call are malformed, its name is all that matches. -/
theorem fails_of_call {c : Char} {cs next start : List Char} {name : String}
    (hstart : Expr.isNameStart c = true) (hword : word (c :: cs) = (name, next))
    (hname : Phrase.reserved.contains name = false) (hopened : skip next = '(' :: start)
    {ts : List Tree} {after : List Char}
    (harguments : Matches .spaced (.optional Pattern.arguments) (skip start) (some (ts, after)))
    (hopen : ∀ more, skip after ≠ ')' :: more) : Fails .primary (c :: cs) := by
  have hidentifier := matches_identifier hstart hword hname
  exact .inr ⟨_, _, primary_of_identifier (not_matches_call hidentifier hopened harguments hopen)
    (not_matches_literal_at_name hstart hword hname) hidentifier, .atOpening hopened⟩

theorem fails_readPrimary (hinner : Follows bound (.chain .logical) inner)
    (hlength : cs.length < bound + 1) (hsteps : cs.length ≤ steps)
    (h : Phrase.readPrimary inner steps cs = .error stop) : Fails .primary cs := by
  cases stopsPrimary_of_readPrimary h with
  | @group cs stop hgroup =>
    have hskip := length_skip_le cs
    rw [List.length_cons] at hlength
    obtain ⟨hname, hliteral⟩ := not_matches_at_mark (c := '(') (by decide) cs
    refine .inl (primary_of_group hname hliteral ((matches_mark .spaced '(' cs).seqEnds ?_))
    rcases hinner.fails (by omega) (skip_skip cs) hgroup with hnone | ⟨ts, after, hsome, hstuck⟩
    · exact .seqFails hnone
    · exact hsome.seqEnds (not_matches_mark hstuck.ne_close)
  | @unclosed cs after p hgroup hopen =>
    have hskip := length_skip_le cs
    rw [List.length_cons] at hlength
    obtain ⟨hname, hliteral⟩ := not_matches_at_mark (c := '(') (by decide) cs
    obtain ⟨-, t, after', -, hmatches, hafter⟩ :=
      hinner.reads (by omega) (skip_skip cs) hgroup
    refine .inl (primary_of_group hname hliteral ((matches_mark .spaced '(' cs).seqEnds
      (hmatches.seqEnds (not_matches_mark fun more => ?_))))
    show skip after' ≠ _
    rw [hafter]
    exact hopen more
  | @quoted c cs hquote hnone =>
    have hother : c ≠ '(' ∧ Expr.isNameStart c = false ∧ c.isDigit = false := by
      rcases Expr.eq_of_isQuote hquote with rfl | rfl <;> decide
    obtain ⟨hopen, hstart, hdigit⟩ := hother
    have hstart : ∀ d ∈ (c :: cs).head?, Expr.isNameStart d = false := by simpa using hstart
    have hstring := matches_quoted hquote cs
    rw [hnone] at hstring
    refine .inl (primary_of_group (not_matches_name hstart)
      (.altElse (not_matches_number (by simpa using hdigit))
        (.altElse hstring (not_matches_boolean (word_of_not_start hstart))))
      (not_matches_group fun more heq => hopen (List.cons.inj heq).1))
  | @reserved c cs hstart hname htruth =>
    obtain ⟨-, hquote, hdigit⟩ := Phrase.marks_of_isNameStart hstart
    exact .inl (primary_of_group (not_matches_identifier fun _ _ => .inr hname)
      (not_matches_literal (by simpa using hquote) (by simpa using hdigit) htruth)
      (not_matches_group (ne_mark_of_isNameStart hstart rfl)))
  | @argument c cs next start stop name hstart hword hname hopened hsome hfirst =>
    have hshorter := length_opened_lt hstart hword hopened
    rcases hinner.fails (by omega) (skip_skip start) hfirst with
      hnone | ⟨ts, after, hmatches, hstuck⟩
    · have hoptional : Matches .spaced (.optional Pattern.arguments) (skip start)
          (some ([], skip start)) := .optionalNone (.seqFails hnone)
      refine fails_of_call hstart hword hname hopened hoptional fun more => ?_
      rw [skip_skip]
      exact hsome more
    · have hmany : Matches .spaced (.many Pattern.argument) (skip after)
          (some ([], skip after)) := .manyNone (not_matches_argument hstuck.ne_comma)
      refine fails_of_call hstart hword hname hopened (.optional (hmatches.seq hmany))
        fun more => ?_
      rw [skip_skip]
      exact hstuck.ne_close more
  | @arguments c cs next start after stop name argument hstart hword hname hopened hfirst
      hothers =>
    have hshorter := length_opened_lt hstart hword hopened
    obtain ⟨hlength', t, after', -, hmatches, hafter⟩ :=
      hinner.reads (by omega) (skip_skip start) hfirst
    obtain ⟨ts, last, hmore, hopen⟩ := not_closed_arguments hinner (by omega) (by omega) hothers
      ((skip_skip after').trans hafter)
    exact fails_of_call hstart hword hname hopened
      (.optional (hmatches.seq (hmore.many_of_more (skip_skip after')))) hopen
  | other hnone =>
    have hstart : ∀ c ∈ cs.head?, Expr.isNameStart c = false := fun c hc => (hnone c hc).2.2.2
    refine .inl (primary_of_group (not_matches_name hstart)
      (not_matches_literal (fun c hc => (hnone c hc).2.1) (fun c hc => (hnone c hc).2.2.1)
        (word_of_not_start hstart)) (not_matches_group ?_))
    rintro more rfl
    exact (hnone '(' rfl).1 rfl

/-! ### Signs, powers and chains -/

theorem length_signs_le (cs : List Char) : (Phrase.signs cs).2.length ≤ cs.length :=
  (Phrase.signs_suffix cs).length_le

theorem follows_readSigned (hinner : Follows bound (.chain .logical) inner)
    (steps : Nat) :
    Follows (min bound steps + 1) .unary (Phrase.readSigned inner steps) where
  reads {cs rest p} hlength hcs h := by
    obtain ⟨⟨operand, after⟩, hoperand, h⟩ := bind_eq_ok.mp h
    cases h
    have hsigns := length_signs_le cs
    obtain ⟨start, hmany, hstart⟩ := matches_many_signs hcs
    obtain ⟨hshorter, t, after, hspells, hmatches, hafter⟩ :=
      reads_readPrimary hinner (by omega) hoperand
    rw [← hstart] at hmatches
    obtain ⟨token, hunary⟩ := Matches.exists_node (n := .unary) (hmany.seq hmatches)
    exact ⟨by omega, _, after, .unary _ hspells, hunary, hafter⟩
  fails {cs stop} hlength hcs h := by
    have hsigns := length_signs_le cs
    obtain ⟨start, hmany, hstart⟩ := matches_many_signs hcs
    rcases bind_eq_error.mp h with hoperand | ⟨_, -, h⟩
    · rcases fails_readPrimary hinner (by omega) (by omega) hoperand with
        hnone | ⟨ts, after, hsome, hstuck⟩
      · rw [← hstart] at hnone
        exact .inl (.ruleFails (hmany.seqEnds hnone))
      · rw [← hstart] at hsome
        obtain ⟨token, hunary⟩ := Matches.exists_node (n := .unary) (hmany.seq hsome)
        exact .inr ⟨_, after, hunary, hstuck.looser (by decide)⟩
    · cases h

theorem matches_power_symbol (cs : List Char) :
    Matches .spaced (.rule (.operator (.arithmetic .power))) ('^' :: cs)
      (some ([operatorTree (.arithmetic .power)], cs)) := .rule (.text rfl) rfl

theorem not_matches_power_symbol (h : ∀ more, cs ≠ '^' :: more) :
    Matches .spaced (.rule (.operator (.arithmetic .power))) cs none :=
  .ruleFails (not_matches_mark h)

/-- A power by what stands behind its base. -/
theorem matches_power {t : Tree} {after last : List Char} {ts : List Tree}
    (hbase : Matches .spaced (.rule .unary) cs (some ([t], after)))
    (hexponent : Matches .spaced (.optional (.seq (.rule (.operator (.arithmetic .power)))
      (.rule .power))) (skip after) (some (ts, last))) :
    ∃ token, Matches .spaced (.rule .power) cs (some ([.node .power token (t :: ts)], last)) :=
  Matches.exists_node (n := .power) (hbase.seq hexponent)

theorem follows_readPower (hinner : Follows bound (.chain .logical) inner) (steps : Nat) :
    Follows (min (bound + 1) steps) .power (Phrase.readPower inner steps) := by
  induction steps with
  | zero => exact ⟨fun hlength => by omega, fun hlength => by omega⟩
  | succ steps ih =>
    have hsigned := follows_readSigned hinner steps
    constructor
    · intro cs rest p hlength hcs h
      obtain ⟨⟨base, after⟩, hbase, h⟩ := bind_eq_ok.mp h
      obtain ⟨hshorter, t, after', hspells, hmatches, hafter⟩ :=
        hsigned.reads (by omega) hcs hbase
      simp only at h
      split at h
      · rename_i next hpower
        obtain ⟨⟨exponent, last⟩, hexponent, h⟩ := bind_eq_ok.mp h
        cases h
        have hskip := length_skip_le after
        have hnext := length_skip_le next
        rw [hpower, List.length_cons] at hskip
        obtain ⟨hrest, u, last', hspelled, hright, hlast⟩ :=
          ih.reads (by omega) (skip_skip next) hexponent
        have hoptional : Matches .spaced
            (.optional (.seq (.rule (.operator (.arithmetic .power))) (.rule .power)))
            (skip after') (some ([operatorTree (.arithmetic .power), u], last')) := by
          rw [hafter, hpower]
          exact .optional ((matches_power_symbol next).seq hright)
        obtain ⟨token, hmatched⟩ := matches_power hmatches hoptional
        exact ⟨show last.length < cs.length by omega, _, last', .power hspells hspelled, hmatched,
          hlast⟩
      · rename_i hpower
        cases h
        have hnone := not_matches_power_symbol hpower
        rw [← hafter] at hnone
        obtain ⟨token, hmatched⟩ := matches_power hmatches (.optionalNone (.seqFails hnone))
        exact ⟨hshorter, _, skip after', .base hspells, hmatched, (skip_skip _).trans hafter⟩
    · intro cs stop hlength hcs h
      rcases bind_eq_error.mp h with hbase | ⟨⟨base, after⟩, hbase, h⟩
      · rcases hsigned.fails (by omega) hcs hbase with hnone | ⟨ts, after, hsome, hstuck⟩
        · exact .inl (.ruleFails (.seqFails hnone))
        · have hnone := not_matches_power_symbol (hstuck.power (by decide))
          obtain ⟨token, hmatched⟩ := Matches.exists_node (n := .power)
            (hsome.seq (.optionalNone (.seqFails hnone)))
          exact .inr ⟨_, _, hmatched, (hstuck.looser (by decide)).congr (skip_skip after)⟩
      · obtain ⟨hshorter, t, after', -, hmatches, hafter⟩ := hsigned.reads (by omega) hcs hbase
        simp only at h
        split at h
        · rename_i next hpower
          have hskip := length_skip_le after
          have hnext := length_skip_le next
          rw [hpower, List.length_cons] at hskip
          have hsymbol := matches_power_symbol next
          have hstart := hafter.trans hpower
          rw [← hstart] at hsymbol
          rcases bind_eq_error.mp h with hexponent | ⟨_, -, h⟩
          · rcases ih.fails (by omega) (skip_skip next) hexponent with
              hnone | ⟨us, last, hsome, hstuck⟩
            · obtain ⟨token, hmatched⟩ :=
                matches_power hmatches (.optionalNone (hsymbol.seqEnds hnone))
              exact .inr ⟨_, _, hmatched, .atPower ((skip_skip after').trans hstart)⟩
            · obtain ⟨token, hmatched⟩ := matches_power hmatches (.optional (hsymbol.seq hsome))
              exact .inr ⟨_, last, hmatched, hstuck⟩
          · cases h
        · cases h

end

theorem length_operator_lt {level : Precedence} {op : BinaryOperator}
    (h : Phrase.operator? level cs = some (op, rest)) : rest.length < cs.length := by
  have hpos : 0 < op.symbol.toList.length := by
    cases op with
    | arithmetic op => cases op <;> decide
    | comparison op => cases op <;> decide
    | logical op => cases op <;> decide
    | sets op => cases op <;> decide
    | membership => decide
  rw [append_operator h, List.length_append]
  omega

section

variable {level : Precedence} {operand : Phrase.PhraseReader} {bound steps : Nat}

theorem not_matches_link (h : Phrase.operator? level cs = none) :
    Matches .spaced (Pattern.link level) cs none := by
  have hoperators := matches_operators level cs
  rw [h] at hoperators
  exact .seqFails hoperators

/-- An operator with what the operand behind it comes to. -/
theorem matches_link {op : BinaryOperator} {next : List Char}
    (h : Phrase.operator? level cs = some (op, next)) {r : Option (List Tree × List Char)}
    (hright : Matches .spaced (Tier.chain level).next.pattern (skip next) r) :
    Matches .spaced (Pattern.link level) cs
      (r.map fun found => (operatorTree op :: found.1, found.2)) := by
  have hoperators := matches_operators level cs
  rw [h] at hoperators
  rw [← operand_eq_pattern] at hright
  cases r with
  | none => exact hoperators.seqEnds hright
  | some found => exact hoperators.seq hright

/-- The rest of a chain, behind its first operand. -/
theorem matches_links (hoperand : Follows bound (Tier.chain level).next operand)
    (hlength : cs.length ≤ bound) {links : List (BinaryOperator × Phrase)}
    (h : Phrase.readLinks level operand steps cs = .ok (links, rest)) {start : List Char}
    (hstart : skip start = skip cs) :
    rest.length ≤ cs.length ∧ ∃ spelled : List ((BinaryOperator × Phrase) × Tree),
      spelled.map Prod.fst = links ∧ (∀ l ∈ spelled, l.1.1 ∈ level.operators) ∧
      (∀ l ∈ spelled, Spells (Tier.chain level).next l.1.2 l.2) ∧
      ∃ after, Matches .spaced (.more (Pattern.link level)) start
        (some (spelled.flatMap fun l => [operatorTree l.1.1, l.2], after)) ∧
        skip after = skip rest := by
  induction steps generalizing cs links rest start with
  | zero => cases h
  | succ steps ih =>
    unfold Phrase.readLinks at h
    split at h
    · rename_i hnone
      cases h
      rw [← hstart] at hnone
      exact ⟨Nat.le_refl _, [], rfl, List.forall_mem_nil _, List.forall_mem_nil _, start,
        .moreNone (not_matches_link hnone), hstart⟩
    · rename_i op next hop
      obtain ⟨⟨right, middle⟩, hright, h⟩ := bind_eq_ok.mp h
      obtain ⟨⟨others, last⟩, hothers, h⟩ := bind_eq_ok.mp h
      cases h
      have hskip := length_skip_le cs
      have hnext := length_skip_le next
      have hshorter := length_operator_lt hop
      obtain ⟨hmiddle, t, after, hspells, hmatches, hafter⟩ :=
        hoperand.reads (by omega) (skip_skip next) hright
      obtain ⟨hrest, spelled, rfl, hops, hspelled, last', hmore, hlast⟩ :=
        ih (by omega) hothers hafter
      have hlink := matches_link hop hmatches
      rw [← hstart] at hlink
      exact ⟨by omega, ((op, right), t) :: spelled, rfl,
        List.forall_mem_cons.mpr ⟨mem_operators hop, hops⟩,
        List.forall_mem_cons.mpr ⟨hspells, hspelled⟩, last', Matches.more hlink hmore, hlast⟩

/-- Behind a chain with a missing operand, what was matched of it is stuck. -/
theorem stuck_links (hoperand : Follows bound (Tier.chain level).next operand)
    (hlength : cs.length ≤ bound) (hsteps : cs.length < steps)
    (h : Phrase.readLinks level operand steps cs = .error stop) {start : List Char}
    (hstart : skip start = skip cs) :
    ∃ ts after, Matches .spaced (.more (Pattern.link level)) start (some (ts, after)) ∧
      Stuck (.chain level) after := by
  induction steps generalizing cs stop start with
  | zero => cases hsteps
  | succ steps ih =>
    unfold Phrase.readLinks at h
    split at h
    · cases h
    · rename_i op next hop
      have hskip := length_skip_le cs
      have hnext := length_skip_le next
      have hshorter := length_operator_lt hop
      have hop' := hop
      rw [← hstart] at hop'
      rcases bind_eq_error.mp h with hright | ⟨⟨right, middle⟩, hright, h⟩
      · rcases hoperand.fails (by omega) (skip_skip next) hright with
          hnone | ⟨ts, after, hsome, hstuck⟩
        · exact ⟨[], start, .moreNone (matches_link hop' hnone), .atOperator hop'⟩
        · have hend : Matches .spaced (.more (Pattern.link level)) after (some ([], after)) :=
            .moreNone (not_matches_link (hstuck.operator level (by cases level <;> decide)))
          exact ⟨_, after, Matches.more (matches_link hop' hsome) hend,
            hstuck.looser (by cases level <;> decide)⟩
      · obtain ⟨hmiddle, t, after, -, hmatches, hafter⟩ :=
          hoperand.reads (by omega) (skip_skip next) hright
        rcases bind_eq_error.mp h with hothers | ⟨_, -, h⟩
        · obtain ⟨ts, last, hmore, hstuck⟩ := ih (by omega) (by omega) hothers hafter
          exact ⟨_, last, Matches.more (matches_link hop' hmatches) hmore, hstuck⟩
        · cases h

theorem follows_readChain (hoperand : Follows bound (Tier.chain level).next operand)
    (steps : Nat) :
    Follows (min bound steps) (.chain level) (Phrase.readChain level steps operand) where
  reads {cs rest p} hlength hcs h := by
    obtain ⟨⟨first, middle⟩, hfirst, h⟩ := bind_eq_ok.mp h
    obtain ⟨⟨links, last⟩, hlinks, h⟩ := bind_eq_ok.mp h
    cases h
    obtain ⟨hshorter, t, after, hspells, hmatches, hafter⟩ := hoperand.reads (by omega) hcs hfirst
    obtain ⟨hrest, spelled, rfl, hops, hspelled, last', hmore, hlast⟩ :=
      matches_links hoperand (by omega) hlinks ((skip_skip after).trans hafter)
    rw [← operand_eq_pattern] at hmatches
    obtain ⟨token, hchain⟩ := Matches.exists_node (n := .chain level)
      (hmatches.seq (hmore.many_of_more (skip_skip after)))
    exact ⟨by omega, _, last', .chain hspells hops hspelled, hchain, hlast⟩
  fails {cs stop} hlength hcs h := by
    rcases bind_eq_error.mp h with hfirst | ⟨⟨first, middle⟩, hfirst, h⟩
    · rcases hoperand.fails (by omega) hcs hfirst with hnone | ⟨ts, after, hsome, hstuck⟩
      · rw [← operand_eq_pattern] at hnone
        exact .inl (.ruleFails (.seqFails hnone))
      · rw [← operand_eq_pattern] at hsome
        have hnone := hstuck.operator level (by cases level <;> decide)
        obtain ⟨token, hchain⟩ := Matches.exists_node (n := .chain level)
          (hsome.seq (.manyNone (not_matches_link hnone)))
        exact .inr ⟨_, _, hchain, (hstuck.looser (by cases level <;> decide)).congr
          (skip_skip after)⟩
    · rcases bind_eq_error.mp h with hlinks | ⟨_, -, h⟩
      · obtain ⟨hshorter, t, after, -, hmatches, hafter⟩ := hoperand.reads (by omega) hcs hfirst
        obtain ⟨ts, last, hmore, hstuck⟩ := stuck_links hoperand (by omega) (by omega) hlinks
          ((skip_skip after).trans hafter)
        rw [← operand_eq_pattern] at hmatches
        obtain ⟨token, hchain⟩ := Matches.exists_node (n := .chain level)
          (hmatches.seq (hmore.many_of_more (skip_skip after)))
        exact .inr ⟨_, last, hchain, hstuck⟩
      · cases h

end

/-! ### Whole texts -/

theorem Follows.shorter {tier : Tier} {reader : Phrase.PhraseReader} {bound less : Nat}
    (h : Follows bound tier reader) (hle : less ≤ bound) : Follows less tier reader :=
  ⟨fun hlength => h.reads (by omega), fun hlength => h.fails (by omega)⟩

theorem follows_readExpression (n : Nat) :
    Follows n (.chain .logical) (Phrase.readExpression n) := by
  induction n with
  | zero => exact ⟨fun hlength => by omega, fun hlength => by omega⟩
  | succ n ih =>
    have hpower := (follows_readPower ih (n + 1)).shorter
      (Nat.le_min.mpr ⟨Nat.le_refl _, Nat.le_refl _⟩)
    have hchain {level : Precedence} {operand : Phrase.PhraseReader}
        (h : Follows (n + 1) (Tier.chain level).next operand) :
        Follows (n + 1) (.chain level) (Phrase.readChain level (n + 1) operand) :=
      (follows_readChain h (n + 1)).shorter (Nat.le_min.mpr ⟨Nat.le_refl _, Nat.le_refl _⟩)
    exact @hchain .logical _ (@hchain .comparison _ (@hchain .additive _
      (@hchain .multiplicative _ hpower)))

theorem not_matches_finish (h : cs ≠ []) : Matches .spaced (.rule .finish) cs none := by
  cases cs with
  | nil => exact absurd rfl h
  | cons c cs => exact .ruleFails (.notFails (.char rfl))

/-- The tree of a whole text, around the tree of the expression. -/
theorem matches_input {t : Tree} {after : List Char}
    (h : Matches .spaced (.rule (.chain .logical)) (skip cs) (some ([t], after)))
    (hafter : skip after = []) :
    ∃ token, Parses cs (.node .input token [t, .node .finish [] []]) := by
  have hfinish : Matches .spaced (.rule .finish) (skip after)
      (some ([.node .finish [] []], [])) := by
    rw [hafter]
    exact .rule (.not (.charFails nofun)) rfl
  have hstart : Matches .spaced (.text []) cs (some ([], cs)) := .text rfl
  obtain ⟨token, hinput⟩ := Matches.exists_node (n := .input) (hstart.seq (h.seq hfinish))
  exact ⟨token, [], hinput⟩

/-- What can be read has a tree, and the tree spells the phrase. -/
theorem parses_of_read {phrase : Phrase} (h : Phrase.read cs = .ok phrase) :
    ∃ t token, Parses cs (.node .input token [t, .node .finish [] []]) ∧
      Spells (.chain .logical) phrase t := by
  have hskip := length_skip_le cs
  have hfollows := follows_readExpression (cs.length + 1)
  obtain ⟨⟨read, rest⟩, hread, h⟩ := bind_eq_ok.mp h
  simp only at h
  split at h
  · rename_i hend
    cases h
    obtain ⟨-, t, after, hspells, hmatches, hafter⟩ :=
      hfollows.reads (by omega) (skip_skip cs) hread
    obtain ⟨token, hparses⟩ := matches_input hmatches (hafter.trans hend)
    exact ⟨t, token, hparses, hspells⟩
  · cases h

theorem not_parses_of_read (h : Phrase.read cs = .error stop) (t : Tree) : ¬ Parses cs t := by
  have hskip := length_skip_le cs
  have hfollows := follows_readExpression (cs.length + 1)
  have hstart : Matches .spaced (.text []) cs (some ([], cs)) := .text rfl
  have hnone : Matches .spaced (.rule .input) cs none := by
    refine .ruleFails (hstart.seqEnds ?_)
    rcases bind_eq_error.mp h with hread | ⟨⟨read, rest⟩, hread, h⟩
    · rcases hfollows.fails (by omega) (skip_skip cs) hread with hnone | ⟨ts, after, hsome, hstuck⟩
      · exact .seqFails hnone
      · exact hsome.seqEnds (not_matches_finish hstuck.more)
    · obtain ⟨-, t, after, -, hmatches, hafter⟩ :=
        hfollows.reads (by omega) (skip_skip cs) hread
      refine hmatches.seqEnds (not_matches_finish ?_)
      show skip after ≠ []
      rw [hafter]
      simp only at h
      split at h
      · cases h
      · rename_i hopen
        exact hopen
  rintro ⟨rest, hparses⟩
  cases hnone.unique hparses

/-- A text has a tree just where it can be read. -/
theorem exists_read_iff (cs : List Char) :
    (∃ phrase, Phrase.read cs = .ok phrase) ↔ ∃ t, Parses cs t := by
  constructor
  · rintro ⟨phrase, h⟩
    obtain ⟨t, token, hparses, -⟩ := parses_of_read h
    exact ⟨_, hparses⟩
  · rintro ⟨t, hparses⟩
    cases hread : Phrase.read cs with
    | ok phrase => exact ⟨phrase, rfl⟩
    | error stop => exact absurd hparses (not_parses_of_read hread t)

end Grammar

end Premise
