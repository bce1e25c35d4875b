import Premise.Proofs.Readers

/-!
Reading the text of a layout.

Each layout comes to a phrase, and every reader of its tier or of a looser one reads that phrase from
its tokens, as long as what follows them does not go on. A chain is read from the left, though its
tree nests to the left: `ReadsLinks` says how the links of the left operand are read before the last
one, whatever comes behind them. The numbers of steps are bounded by the length of the text that
remains.
-/

namespace Premise

namespace Layout

mutual

/-- What is read from the tokens of a layout. -/
def phrase : Layout → Phrase
  | .number _ whole fraction => .number whole fraction
  | .text _ content => .text (String.ofList content)
  | .truth b => .truth b
  | .name spelling => .name spelling
  | .call function arguments => .call function (phrases arguments)
  | .group inner => .group inner.phrase
  | .signed op operand => .signed op operand.phrase
  | .power base exponent => .power base.phrase exponent.phrase
  | .binary op left right =>
    let before := left.phrase.spine (left.tier = (binary op left right).tier)
    .chain before.1 (before.2 ++ [(op, right.phrase)])

def phrases : List Layout → List Phrase
  | [] => []
  | l :: ls => l.phrase :: phrases ls

end

/-- The reader of the tier reads the layout from its tokens. -/
def Reads (l : Layout) (tier : Tier) : Prop :=
  ∀ n k cs rest, Behind l.tokens cs rest → cs.length ≤ n + 1 → cs.length ≤ k + 1 →
    Phrase.Stops tier rest → Phrase.readAt n k tier (Phrase.skip cs) = .ok (l.phrase, rest)

/-- The operands and links of a layout, as part of a chain of the level. -/
def spine (l : Layout) (level : Precedence) : Phrase × List (BinaryOperator × Phrase) :=
  l.phrase.spine (l.tier = .chain level)

/-- From the tokens of the layout, its first operand and its links are read, and from behind them the
links that follow. -/
def ReadsLinks (l : Layout) (level : Precedence) : Prop :=
  ∀ n k cs rest, Behind l.tokens cs rest → cs.length ≤ n + 1 → cs.length ≤ k + 1 →
    Phrase.Stops (Tier.chain level).next rest →
    ∃ mid, Phrase.readAt n k (Tier.chain level).next (Phrase.skip cs) =
        .ok ((l.spine level).1, mid) ∧
      ∀ steps, Phrase.readLinks level (Phrase.readAt n k (Tier.chain level).next)
          (steps + (l.spine level).2.length) mid =
        (do
          let (links, after) ← Phrase.readLinks level
            (Phrase.readAt n k (Tier.chain level).next) steps rest
          .ok ((l.spine level).2 ++ links, after))

variable {l left right : Layout} {level : Precedence} {op : BinaryOperator}

theorem spine_of_ne (h : l.tier ≠ .chain level) : l.spine level = (l.phrase, []) := by
  unfold spine
  rw [decide_eq_false h]
  exact Phrase.spine_false l.phrase

theorem tier_binary (h : op.level? = some level) (left right : Layout) :
    (binary op left right).tier = .chain level := by
  simp [tier, h]

theorem phrase_binary (h : op.level? = some level) (left right : Layout) :
    (binary op left right).phrase =
      .chain (left.spine level).1 ((left.spine level).2 ++ [(op, right.phrase)]) := by
  unfold spine
  rw [← tier_binary h left right]
  rw [phrase]

theorem spine_binary (h : op.level? = some level) (left right : Layout) :
    (binary op left right).spine level =
      ((left.spine level).1, (left.spine level).2 ++ [(op, right.phrase)]) := by
  have hphrase := phrase_binary h left right
  unfold spine at hphrase ⊢
  rw [decide_eq_true (tier_binary h left right), hphrase]
  rfl

/-- An operand that is no chain of the level is read at once. -/
theorem readsLinks_of_ne (h : l.Reads (Tier.chain level).next) (hne : l.tier ≠ .chain level) :
    l.ReadsLinks level := by
  intro n k cs rest hcs hn hk hrest
  rw [spine_of_ne hne]
  refine ⟨rest, h n k cs rest hcs hn hk hrest, fun steps => ?_⟩
  simp only [List.length_nil, Nat.add_zero, List.nil_append]
  cases Phrase.readLinks level (Phrase.readAt n k (Tier.chain level).next) steps rest with
  | error stop => rfl
  | ok found => rfl

theorem tokens_ne_nil (l : Layout) : l.tokens ≠ [] := by
  cases l <;> simp [tokens]

/-- The links of the left operand come first, and then the one of the operator. -/
theorem readsLinks_binary (hop : op.level? = some level) (hleft : left.ReadsLinks level)
    (hright : right.Reads (Tier.chain level).next)
    (htokens : ∀ t ∈ (binary op left right).tokens, IsToken t) :
    (binary op left right).ReadsLinks level := by
  intro n k cs rest hcs hn hk hrest
  obtain ⟨mid, hleftcs, hmid⟩ := Behind.append.mp hcs
  obtain ⟨next, hskip, hnext, hshorter⟩ := hmid.skip (isToken_of_symbol op)
  have hspace : ∃ c more, next = c :: more ∧ Phrase.isSpace c = true := by
    cases htail : right.tokens with
    | nil => exact absurd htail right.tokens_ne_nil
    | cons t ts =>
      rw [htail] at hnext
      exact hnext.exists_space
  obtain ⟨c, more, hcons, hc⟩ := hspace
  have hmidlen : mid.length ≤ cs.length := by
    have hlen := hleftcs.length_le fun t ht => htokens t (List.mem_append_left _ ht)
    omega
  have hstops : Phrase.Stops (Tier.chain level).next mid := by
    rw [hcons] at hskip
    exact .atOperator hop hc hmid.breaks hskip
  obtain ⟨start, hfirst, hlinks⟩ := hleft n k cs mid hleftcs hn hk hstops
  have hoperand := hright n k next rest hnext (by omega) (by omega) hrest
  rw [spine_binary hop]
  refine ⟨start, hfirst, fun steps => ?_⟩
  have hsteps : steps + ((left.spine level).2 ++ [(op, right.phrase)]).length =
      (steps + 1) + (left.spine level).2.length := by
    rw [List.length_append, List.length_singleton]
    omega
  rw [hsteps, hlinks (steps + 1)]
  rw [Phrase.readLinks, hskip, hcons, Phrase.operator?_symbol hop hc, ← hcons]
  simp only [hoperand, bind, Except.bind]
  cases Phrase.readLinks level (Phrase.readAt n k (Tier.chain level).next) steps rest with
  | error stop => rfl
  | ok found => simp

theorem length_spine_lt (l : Layout) (chained : Bool) :
    (l.phrase.spine chained).2.length < l.tokens.length := by
  cases l with
  | binary op left right =>
    have hleft := length_spine_lt left (left.tier = (binary op left right).tier)
    rw [phrase, tokens, Phrase.spine_chain]
    split
    · simp only [List.length_append, List.length_cons, List.length_nil]
      omega
    · exact List.length_pos_iff.mpr (by simp)
  | _ => exact List.length_pos_iff.mpr (tokens_ne_nil _)

/-- Operands and links make up the phrase again. -/
theorem chain_spine (l : Layout) (level : Precedence) :
    (if (l.spine level).2.isEmpty then (l.spine level).1
      else .chain (l.spine level).1 (l.spine level).2) = l.phrase := by
  unfold spine
  cases l with
  | binary op left right =>
    rw [phrase, Phrase.spine_chain]
    split <;> simp
  | _ => rfl

theorem reads_of_readsLinks (h : l.ReadsLinks level) (htokens : ∀ t ∈ l.tokens, IsToken t) :
    l.Reads (.chain level) := by
  intro n k cs rest hcs hn hk hrest
  obtain ⟨mid, hfirst, hlinks⟩ := h n k cs rest hcs hn hk (hrest.mono (Tier.le_next _))
  have hlen := hcs.length_le htokens
  have hspine : (l.spine level).2.length < l.tokens.length := length_spine_lt l _
  have hsteps : k + 1 = (k - (l.spine level).2.length) + 1 + (l.spine level).2.length := by
    omega
  have hnone := @Phrase.readLinks_of_none level (Phrase.readAt n k (Tier.chain level).next)
    (k - (l.spine level).2.length) rest (hrest.operator level (Tier.le_refl _))
  rw [Phrase.readAt_chain]
  unfold Phrase.readChain
  rw [hfirst]
  simp only [bind, Except.bind]
  rw [hsteps, hlinks, hnone]
  simp only [bind, Except.bind, List.append_nil, chain_spine]

/-- What a tier reads as one of its operands, it reads as a phrase of its own. -/
theorem reads_of_next {tier : Tier} (h : l.Reads tier.next) (hne : l.tier ≠ tier)
    (htokens : ∀ t ∈ l.tokens, IsToken t) : l.Reads tier := by
  cases tier with
  | chain level => exact reads_of_readsLinks (readsLinks_of_ne h hne) htokens
  | power =>
    intro n k cs rest hcs hn hk hrest
    have hsigned := h n k cs rest hcs hn hk (hrest.mono (by decide))
    exact Phrase.readPower_of_readSigned hsigned (hrest.power (Tier.le_refl _))
  | unary =>
    intro n k cs rest hcs hn hk hrest
    have hprimary := h n k cs rest hcs hn hk (hrest.mono (by decide))
    exact Phrase.readSigned_of_readPrimary hprimary
  | primary => exact h

theorem reads_of_le {tier : Tier} (h : l.Reads l.tier) (hle : tier ≤ l.tier)
    (htokens : ∀ t ∈ l.tokens, IsToken t) : l.Reads tier := by
  by_cases heq : tier = l.tier
  · rw [heq]
    exact h
  · have hnext := reads_of_le h (Tier.next_le hle heq) htokens
    exact reads_of_next hnext (Ne.symm heq) htokens
termination_by l.tier.rank - tier.rank
decreasing_by
  have hrank := Tier.rank_lt_next hle heq
  omega

/-! ### Primary phrases -/

theorem reads_of_token {t : List Char} (htokens : l.tokens = [t]) (ht : IsToken t)
    (h : ∀ inner steps rest, Phrase.Stops .primary rest →
      Phrase.readPrimary inner steps (t ++ rest) = .ok (l.phrase, rest)) : l.Reads .primary := by
  intro n k cs rest hcs hn hk hrest
  rw [htokens] at hcs
  obtain ⟨mid, hskip, hmid, _⟩ := hcs.skip ht
  have heq : mid = rest := hmid
  rw [hskip, heq]
  exact h (Phrase.readExpression n) k rest hrest

/-- An expression in parentheses or an argument has one step less. -/
theorem readExpression_of_reads (h : l.Reads l.tier) (htokens : ∀ t ∈ l.tokens, IsToken t) {n : Nat}
    {cs rest : List Char} (hcs : Behind l.tokens cs rest) (hn : cs.length ≤ n)
    (hrest : Phrase.Stops (.chain .logical) rest) :
    Phrase.readExpression n (Phrase.skip cs) = .ok (l.phrase, rest) := by
  have hreads : l.Reads (.chain .logical) := reads_of_le h (Tier.loosest _) htokens
  have hlen := hcs.length_le htokens
  have hpos := List.length_pos_iff.mpr (tokens_ne_nil l)
  cases n with
  | zero => omega
  | succ n =>
    rw [Phrase.readExpression_succ]
    exact hreads n n cs rest hcs hn hn hrest

theorem reads_group {inner : Layout} (h : inner.Reads inner.tier)
    (htokens : ∀ t ∈ inner.tokens, IsToken t) : (group inner).Reads .primary := by
  intro n k cs rest hcs hn hk hrest
  obtain ⟨start, hskip, hstart, hshorter⟩ := hcs.skip_mark (by decide)
  obtain ⟨mid, hinner, hclose⟩ := Behind.append.mp hstart
  obtain ⟨next, hmid, hnext, _⟩ := hclose.skip_mark (by decide)
  have heq : next = rest := hnext
  have hread := @readExpression_of_reads _ h htokens n _ _ hinner (by omega)
    (.atMark (.inl rfl) hclose)
  rw [hskip]
  show Phrase.readPrimary (Phrase.readExpression n) k ('(' :: start) = _
  unfold Phrase.readPrimary
  simp only [if_true, hread, bind, Except.bind, hmid]
  rw [heq, phrase]

/-! ### Signs and powers -/

theorem reads_signed (op : UnaryOperator) {operand : Layout} (h : operand.Reads .unary) :
    (signed op operand).Reads .unary := by
  intro n k cs rest hcs hn hk hrest
  obtain ⟨mid, hskip, hmid, hshorter⟩ := hcs.skip (isToken_of_sign op)
  have hread := h n k mid rest hmid (by omega) (by omega) hrest
  rw [hskip, phrase]
  exact Phrase.readSigned_sign op hread

theorem reads_power {base exponent : Layout} (hbase : base.Reads .unary)
    (hexponent : exponent.Reads .power) (htokens : ∀ t ∈ base.tokens, IsToken t) :
    (Layout.power base exponent).Reads .power := by
  intro n k cs rest hcs hn hk hrest
  obtain ⟨mid, hbasecs, hmid⟩ := Behind.append.mp hcs
  obtain ⟨next, hskip, hnext, hshorter⟩ := hmid.skip_mark (by decide)
  have hlen := hbasecs.length_le htokens
  cases k with
  | zero => omega
  | succ k =>
    have hfirst : Phrase.readSigned (Phrase.readExpression n) (k + 1) (Phrase.skip cs) =
        .ok (base.phrase, mid) := hbase n (k + 1) cs mid hbasecs hn hk (.atPower hmid)
    have hsecond : Phrase.readPower (Phrase.readExpression n) (k + 1) (Phrase.skip next) =
        .ok (exponent.phrase, rest) := hexponent n k next rest hnext (by omega) (by omega) hrest
    show Phrase.readPower (Phrase.readExpression n) (k + 1 + 1) (Phrase.skip cs) = _
    rw [Phrase.readPower, hfirst]
    simp only [bind, Except.bind, hskip, hsecond, phrase]

/-! ### Calls -/

theorem behind_more (ls : List Layout) {cs rest : List Char}
    (h : Behind (moreTokens ls ++ [[')']]) cs rest) : Phrase.Stops (.chain .logical) cs := by
  cases ls with
  | nil => exact .atMark (.inl rfl) h
  | cons l ls => exact .atMark (.inr rfl) h

theorem readArguments_of_reads {ls : List Layout} (h : ∀ l ∈ ls, l.Reads l.tier)
    (htokens : ∀ l ∈ ls, ∀ t ∈ l.tokens, IsToken t) {n steps : Nat} {cs rest : List Char}
    (hcs : Behind (moreTokens ls ++ [[')']]) cs rest) (hn : cs.length ≤ n)
    (hsteps : cs.length ≤ steps) :
    Phrase.readArguments (Phrase.readExpression n) steps cs = .ok (phrases ls, rest) := by
  induction ls generalizing cs steps with
  | nil =>
    obtain ⟨next, hskip, hnext, hshorter⟩ := hcs.skip_mark (by decide)
    have heq : next = rest := hnext
    cases steps with
    | zero => omega
    | succ steps =>
      rw [Phrase.readArguments, hskip]
      simp only [phrases, heq]
  | cons l ls ih =>
    rw [moreTokens, List.append_assoc] at hcs
    obtain ⟨start, hskip, hstart, hshorter⟩ := hcs.skip_mark (by decide)
    obtain ⟨mid, hargument, hmore⟩ := Behind.append.mp hstart
    have hl := htokens l List.mem_cons_self
    have hlen := hargument.length_le hl
    have hfirst := readExpression_of_reads (h l List.mem_cons_self) hl hargument
      (Nat.le_trans (by omega) hn) (behind_more ls hmore)
    cases steps with
    | zero => omega
    | succ steps =>
      have hothers := @ih (fun x hx => h x (List.mem_cons_of_mem l hx))
        (fun x hx => htokens x (List.mem_cons_of_mem l hx)) steps mid hmore (by omega) (by omega)
      rw [Phrase.readArguments, hskip]
      simp only [hfirst, hothers, bind, Except.bind, phrases]

theorem reads_call {function : String} (hname : IsName function) {ls : List Layout}
    (h : ∀ l ∈ ls, l.Reads l.tier) (htokens : ∀ l ∈ ls, ∀ t ∈ l.tokens, IsToken t) :
    (call function ls).Reads .primary := by
  intro n k cs rest hcs hn hk hrest
  have hall : (call function ls).tokens =
      function.toList :: ['('] :: (argumentTokens ls ++ [[')']]) := by
    rw [tokens]
    rfl
  rw [hall] at hcs
  obtain ⟨mid, hskip, hmid, hshorter⟩ := hcs.skip hname.isToken
  obtain ⟨start, hopen, hstart, hlen⟩ := hmid.skip_mark (by decide)
  rw [hskip]
  show Phrase.readPrimary (Phrase.readExpression n) k (function.toList ++ mid) = _
  cases ls with
  | nil =>
    obtain ⟨next, hclose, hnext, _⟩ := hstart.skip_mark (by decide)
    have heq : next = rest := hnext
    rw [Phrase.readPrimary_call_nil hname hmid.breaks.endsWord hopen hclose, heq, phrase, phrases]
  | cons l ls =>
    have hl := htokens l List.mem_cons_self
    rw [argumentTokens, List.append_assoc] at hstart
    obtain ⟨next, hargument, hmore⟩ := Behind.append.mp hstart
    have hbound := hargument.length_le hl
    have hfirst := readExpression_of_reads (h l List.mem_cons_self) hl hargument
      (show start.length ≤ n by omega) (behind_more ls hmore)
    have hothers := readArguments_of_reads (fun x hx => h x (List.mem_cons_of_mem l hx))
      (fun x hx => htokens x (List.mem_cons_of_mem l hx)) hmore (show next.length ≤ n by omega)
      (show next.length ≤ k by omega)
    have hsome : ∀ more, Phrase.skip start ≠ ')' :: more := by
      intro more heq
      rw [heq] at hfirst
      exact Phrase.readExpression_close n more hfirst
    rw [Phrase.readPrimary_call_cons hname hmid.breaks.endsWord hopen hsome hfirst hothers, phrase,
      phrases]

/-! ### Layouts of all kinds -/

/-- Valid layouts are read at their own tier, and the links of a chain come one after the other. -/
def ReadsAll (l : Layout) : Prop :=
  l.Reads l.tier ∧ ∀ level, l.tier = .chain level → l.ReadsLinks level

theorem readsAll_of_reads {tier : Tier} (h : l.Reads tier) (htier : l.tier = tier)
    (hchain : ∀ level, tier ≠ .chain level) : l.ReadsAll := by
  refine ⟨htier ▸ h, fun level hlevel => ?_⟩
  rw [htier] at hlevel
  exact absurd hlevel (hchain level)

theorem ReadsAll.links (h : l.ReadsAll) (hle : .chain level ≤ l.tier)
    (htokens : ∀ t ∈ l.tokens, IsToken t) : l.ReadsLinks level := by
  by_cases heq : l.tier = .chain level
  · exact h.2 level heq
  · have hnext : (Tier.chain level).next ≤ l.tier := Tier.next_le hle (Ne.symm heq)
    exact readsLinks_of_ne (reads_of_le h.1 hnext htokens) heq

mutual

theorem readsAll (l : Layout) (h : l.Valid) : l.ReadsAll := by
  have htokens := isToken_of_mem l h
  cases l with
  | number x whole fraction =>
    have hread := @reads_of_token (number x whole fraction) _ rfl (htokens _ (by simp [tokens]))
      fun inner steps rest hrest => Phrase.readPrimary_number h.1 hrest.breaks
    exact readsAll_of_reads hread rfl (by simp)
  | text quote content =>
    have hread := @reads_of_token (text quote content) _ rfl (htokens _ (by simp [tokens]))
      fun inner steps rest hrest => Phrase.readPrimary_text h.1 h.2
    exact readsAll_of_reads hread rfl (by simp)
  | truth b =>
    have hread := @reads_of_token (truth b) _ rfl (htokens _ (by simp [tokens]))
      fun inner steps rest hrest => Phrase.readPrimary_truth b hrest.breaks
    exact readsAll_of_reads hread rfl (by simp)
  | name spelling =>
    have hread := @reads_of_token (name spelling) _ rfl (htokens _ (by simp [tokens]))
      fun inner steps rest hrest => Phrase.readPrimary_name h hrest.breaks.endsWord hrest.call
    exact readsAll_of_reads hread rfl (by simp)
  | call function arguments =>
    have harguments := readsAll_of_mem arguments h.2
    have hread := reads_call h.1 (fun l hl => (harguments l hl).2.1)
      fun l hl => isToken_of_mem l (harguments l hl).1
    exact readsAll_of_reads hread rfl (by simp)
  | group inner =>
    have hread := reads_group (readsAll inner h).1 (isToken_of_mem inner h)
    exact readsAll_of_reads hread rfl (by simp)
  | signed op operand =>
    have hoperand := reads_of_le (readsAll operand h.1).1 h.2 (isToken_of_mem operand h.1)
    exact readsAll_of_reads (reads_signed op hoperand) rfl (by simp)
  | power base exponent =>
    obtain ⟨hbase, hexponent, hbasetier, hexponenttier⟩ := h
    have hfirst := reads_of_le (readsAll base hbase).1 hbasetier (isToken_of_mem base hbase)
    have hsecond := reads_of_le (readsAll exponent hexponent).1 hexponenttier
      (isToken_of_mem exponent hexponent)
    exact readsAll_of_reads (reads_power hfirst hsecond (isToken_of_mem base hbase)) rfl (by simp)
  | binary op left right =>
    obtain ⟨hleft, hright, level, hop, hlefttier, hrighttier⟩ := h
    have hlinks := (readsAll left hleft).links hlefttier (isToken_of_mem left hleft)
    have hoperand := reads_of_le (readsAll right hright).1 hrighttier (isToken_of_mem right hright)
    have hall := readsLinks_binary hop hlinks hoperand htokens
    have htier := tier_binary hop left right
    refine ⟨htier ▸ reads_of_readsLinks hall htokens, fun other hother => ?_⟩
    rw [htier] at hother
    cases hother
    exact hall

theorem readsAll_of_mem (ls : List Layout) (h : AllValid ls) :
    ∀ l ∈ ls, l.Valid ∧ l.ReadsAll := by
  cases ls with
  | nil => exact fun l hl => nomatch hl
  | cons l ls =>
    have hl := readsAll l h.1
    have hls := readsAll_of_mem ls h.2
    intro x hx
    rcases List.mem_cons.mp hx with hx | hx
    · rw [hx]
      exact ⟨h.1, hl⟩
    · exact hls x hx

end

theorem read_written (l : Layout) (h : l.Valid) {cs : List Char} (hcs : Written l.tokens cs) :
    Phrase.read cs = .ok l.phrase := by
  have htokens := isToken_of_mem l h
  obtain ⟨back, hbehind, hback⟩ := hcs.behind (tokens_ne_nil l)
  have hread := @readExpression_of_reads l (readsAll l h).1 htokens (cs.length + 1) _ _ hbehind
    (Nat.le_refl _) (.atEnd hback)
  have hskip : Phrase.skip (' ' :: cs) = Phrase.skip cs := rfl
  rw [hskip] at hread
  unfold Phrase.read
  simp only [hread, bind, Except.bind, Phrase.skip_of_all hback]

end Layout

end Premise
