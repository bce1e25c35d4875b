import Premise.Proofs.Calls
import Premise.Proofs.Source

/-!
How deep matching a text goes, and the estimate of that from the characters of the text.

In front of a group or of arguments stands a parenthesis that is still open there, and in front of
an exponent a power. What is matched on the way closes no parentheses but its own and ends no quotes
but its own. That is a judgement on patterns (`Runs`), which every nonterminal has (`runs_pattern`).
It says what a scan of the characters has counted at least where the pattern ends, and where a
nonterminal in it is tried.
-/

namespace Premise

open Premise.Expr (Scan estimateNesting isQuote)

/-! ### Scans that have counted at least so much -/

namespace Expr

/-- The character closes no parentheses and sets off no text. -/
def isPlain (c : Char) : Bool := c != ')' && !isQuote c

theorem isPlain_of_isNameChar {c : Char} (h : isNameChar c = true) : isPlain c = true := by
  have hclose : c ≠ ')' := by
    rintro rfl
    cases h
  simp [isPlain, hclose, isQuote_of_isNameChar h]

namespace Scan

/-- In the same quotes, and with no fewer parentheses and powers. -/
structure Covers (s least : Scan) : Prop where
  quote : s.quote = least.quote
  opened : least.opened ≤ s.opened
  powers : least.powers ≤ s.powers

variable {s s' s'' : Scan} {c : Char} {cs : List Char}

theorem Covers.refl (s : Scan) : s.Covers s := ⟨rfl, Nat.le_refl _, Nat.le_refl _⟩

theorem Covers.trans (h : s.Covers s') (h' : s'.Covers s'') : s.Covers s'' :=
  ⟨h.quote.trans h'.quote, Nat.le_trans h'.opened h.opened, Nat.le_trans h'.powers h.powers⟩

theorem Covers.step (h : s.Covers s') (c : Char) : (s.step c).Covers (s'.step c) := by
  obtain ⟨hquote, hopened, hpowers⟩ := h
  unfold Scan.step
  rw [hquote]
  cases s'.quote with
  | some q => exact ⟨rfl, hopened, hpowers⟩
  | none =>
    simp only
    split
    · exact ⟨rfl, hopened, hpowers⟩
    split
    · exact ⟨hquote, hopened, hpowers⟩
    split
    · exact ⟨rfl, hopened, hpowers⟩
    split
    · exact ⟨rfl, Nat.succ_le_succ hopened, hpowers⟩
    split
    · exact ⟨rfl, Nat.sub_le_sub_right hopened 1, hpowers⟩
    split
    · exact ⟨rfl, hopened, Nat.succ_le_succ hpowers⟩
    · exact ⟨rfl, hopened, hpowers⟩

theorem Covers.foldl (h : s.Covers s') (cs : List Char) :
    (cs.foldl Scan.step s).Covers (cs.foldl Scan.step s') := by
  induction cs generalizing s s' with
  | nil => exact h
  | cons c cs ih => exact ih (h.step c)

/-- Outside quotes, a character that is plain leaves what is counted on. -/
theorem covers_step (hquote : s.quote = none) (hc : isPlain c = true) : (s.step c).Covers s := by
  obtain ⟨hclose, hplain⟩ : c ≠ ')' ∧ isQuote c = false := by simpa [isPlain] using hc
  unfold Scan.step
  rw [hquote]
  simp only [hplain, hclose, Bool.false_eq_true, if_false]
  split
  · exact ⟨hquote.symm, Nat.le_refl _, Nat.le_refl _⟩
  split
  · exact Covers.refl s
  split
  · exact ⟨hquote.symm, Nat.le_succ _, Nat.le_refl _⟩
  split
  · exact ⟨hquote.symm, Nat.le_refl _, Nat.le_succ _⟩
  · exact ⟨hquote.symm, Nat.le_refl _, Nat.le_refl _⟩

theorem covers_foldl (hquote : s.quote = none) (hcs : ∀ c ∈ cs, isPlain c = true) :
    (cs.foldl Scan.step s).Covers s := by
  induction cs generalizing s with
  | nil => exact Covers.refl s
  | cons c cs ih =>
    have hstep := covers_step hquote (hcs c List.mem_cons_self)
    have hrest := ih (hstep.quote.trans hquote) fun d hd => hcs d (List.mem_cons_of_mem c hd)
    exact hrest.trans hstep

/-- Up to the closing quote, every character leaves what is counted on. -/
theorem covers_step_quoted {q : Char} (hquote : s.quote = some q) (hc : c ≠ q) :
    (s.step c).Covers s := by
  unfold Scan.step
  rw [hquote]
  simp only [hc, if_false]
  exact ⟨hquote.symm, Nat.le_refl _, Nat.le_refl _⟩

/-- Spaces leave a scan outside quotes as it is. -/
theorem foldl_spaces (hquote : s.quote = none) (hcs : ∀ c ∈ cs, Phrase.isSpace c = true) :
    cs.foldl Scan.step s = s := by
  induction cs with
  | nil => rfl
  | cons c cs ih =>
    have hstep : s.step c = s := by
      unfold Scan.step
      rw [hquote]
      rcases Phrase.eq_of_isSpace (hcs c List.mem_cons_self) with rfl | rfl | rfl | rfl <;> rfl
    rw [List.foldl_cons, hstep]
    exact ih fun d hd => hcs d (List.mem_cons_of_mem c hd)

/-- What an estimate is made of only grows. -/
structure Grows (s s' : Scan) : Prop where
  mostOpened : s.mostOpened ≤ s'.mostOpened
  powers : s.powers ≤ s'.powers
  longestRun : s.longestRun ≤ s'.longestRun

theorem grows_step (s : Scan) (c : Char) : s.Grows (s.step c) := by
  have hrefl : ∀ n : Nat, n ≤ n := Nat.le_refl
  unfold Scan.step
  cases s.quote with
  | some q => exact ⟨hrefl _, hrefl _, hrefl _⟩
  | none =>
    simp only
    split
    · exact ⟨hrefl _, hrefl _, Nat.le_max_left _ _⟩
    split
    · exact ⟨hrefl _, hrefl _, hrefl _⟩
    split
    · exact ⟨hrefl _, hrefl _, hrefl _⟩
    split
    · exact ⟨Nat.le_max_left _ _, hrefl _, hrefl _⟩
    split
    · exact ⟨hrefl _, hrefl _, hrefl _⟩
    split
    · exact ⟨hrefl _, Nat.le_succ _, hrefl _⟩
    · exact ⟨hrefl _, hrefl _, hrefl _⟩

theorem grows_foldl (s : Scan) (cs : List Char) : s.Grows (cs.foldl Scan.step s) := by
  induction cs generalizing s with
  | nil => exact ⟨Nat.le_refl _, Nat.le_refl _, Nat.le_refl _⟩
  | cons c cs ih =>
    have hstep := s.grows_step c
    have hrest := ih (s.step c)
    exact ⟨Nat.le_trans hstep.mostOpened hrest.mostOpened,
      Nat.le_trans hstep.powers hrest.powers, Nat.le_trans hstep.longestRun hrest.longestRun⟩

end Scan

/-- What is open, the powers and the run at one place of a text, or at two. -/
theorem le_estimateNesting (front run rest : List Char) :
    let s := front.foldl Scan.step {}
    s.opened + s.powers + (run.foldl Scan.step s).run ≤
      estimateNesting (front ++ (run ++ rest)) := by
  intro s
  have hstart : Scan.Bounded {} 0 := ⟨Nat.le_refl 0, Nat.le_refl 0, Nat.le_refl 0⟩
  obtain ⟨hopened, -⟩ := hstart.foldl front
  obtain ⟨-, hrun, -⟩ := (hstart.foldl front).foldl run
  have hmore := s.grows_foldl run
  have hend := (run.foldl Scan.step s).grows_foldl rest
  unfold estimateNesting
  rw [List.foldl_append, List.foldl_append]
  have hmost := Nat.le_trans hopened (Nat.le_trans hmore.mostOpened hend.mostOpened)
  have hpowers := Nat.le_trans hmore.powers hend.powers
  have hlongest := Nat.le_trans hrun hend.longestRun
  exact Nat.add_le_add (Nat.add_le_add hmost hpowers) hlongest

end Expr

namespace Grammar

variable {m : Mode} {p : Pattern} {n n' : Nonterminal} {cs cs' rest source : List Char}
  {ts : List Tree} {outer : List Nonterminal}

/-! ### What a scan has counted -/

/-- Between a text and an end of it, the one scan goes on to cover the other. -/
def Passes (s : Scan) (cs rest : List Char) (s' : Scan) : Prop :=
  ∃ front, cs = front ++ rest ∧ (front.foldl Scan.step s).Covers s'

namespace Passes

variable {s s' s'' : Scan} {mid : List Char}

theorem refl (s : Scan) (cs : List Char) : Passes s cs cs s := ⟨[], rfl, Scan.Covers.refl s⟩

theorem trans (h : Passes s cs mid s') (h' : Passes s' mid rest s'') : Passes s cs rest s'' := by
  obtain ⟨front, rfl, hfront⟩ := h
  obtain ⟨more, rfl, hmore⟩ := h'
  refine ⟨front ++ more, (List.append_assoc _ _ _).symm, ?_⟩
  rw [List.foldl_append]
  exact (hfront.foldl more).trans hmore

theorem covers (h : Passes s cs rest s') (hcovers : s'.Covers s'') : Passes s cs rest s'' := by
  obtain ⟨front, heq, hfront⟩ := h
  exact ⟨front, heq, hfront.trans hcovers⟩

end Passes

/-- Where spaces may stand, no quotes are open. -/
def Mode.Fits (m : Mode) (s : Scan) : Prop := m = .spaced → s.quote = none

theorem exists_gap {s : Scan} (h : m.Fits s) (cs : List Char) :
    ∃ front, cs = front ++ m.gap cs ∧ front.foldl Scan.step s = s := by
  cases m with
  | unspaced | atomic => exact ⟨[], rfl, rfl⟩
  | spaced =>
    refine ⟨cs.takeWhile Phrase.isSpace, List.takeWhile_append_dropWhile.symm, ?_⟩
    exact Scan.foldl_spaces (h rfl) (List.all_eq_true.mp List.all_takeWhile)

theorem passes_gap {s : Scan} (h : m.Fits s) (cs : List Char) : Passes s cs (m.gap cs) s := by
  obtain ⟨front, heq, hfront⟩ := exists_gap h cs
  refine ⟨front, heq, ?_⟩
  rw [hfront]
  exact Scan.Covers.refl s

/-- The quotes in which a nonterminal stands. -/
def Nonterminal.quote : Nonterminal → Option Char
  | .content q => some q
  | _ => none

/-- What has been counted behind a nonterminal, at least. -/
def Nonterminal.counts (s : Scan) : Nonterminal → Scan
  | .operator (.arithmetic .power) => { s with powers := s.powers + 1 }
  | _ => s

/-- A pattern takes a scan to another, and in between the nonterminals of it are tried where they
may be. -/
inductive Runs (may : Nonterminal → Scan → Prop) (m : Mode) : Pattern → Scan → Scan → Prop
  | char {sat : Char → Bool} {s : Scan} (h : ∀ c, sat c = true → (s.step c).Covers s) :
      Runs may m (.char sat) s s
  | text {t : List Char} {s s' : Scan} (h : (t.foldl Scan.step s).Covers s') :
      Runs may m (.text t) s s'
  | rule {n : Nonterminal} {s : Scan} (hquote : s.quote = n.quote) (h : may n s) :
      Runs may m (.rule n) s (n.counts s)
  | seq {p q : Pattern} {s s' s'' : Scan} (hp : Runs may m p s s') (hfits : m.Fits s')
      (hq : Runs may m q s' s'') : Runs may m (.seq p q) s s''
  /-- a character that does not close the quotes -/
  | unquoted {q : Char} {sat : Char → Bool} {s : Scan} (hm : m ≠ .spaced)
      (hquote : s.quote = some q) : Runs may m (.seq (.not (.text [q])) (.char sat)) s s
  | alt {p q : Pattern} {s s' : Scan} (hp : Runs may m p s s') (hq : Runs may m q s s') :
      Runs may m (.alt p q) s s'
  | many {p : Pattern} {s : Scan} (hp : Runs may m p s s) (hfits : m.Fits s) :
      Runs may m (.many p) s s
  | more {p : Pattern} {s : Scan} (hp : Runs may m p s s) (hfits : m.Fits s) :
      Runs may m (.more p) s s
  | optional {p : Pattern} {s s' : Scan} (hp : Runs may m p s s') (h : s'.Covers s) :
      Runs may m (.optional p) s s
  | not {p : Pattern} {s : Scan} (h : p.rules = []) : Runs may m (.not p) s s

section

variable {may : Nonterminal → Scan → Prop} {s : Scan}

theorem runs_plain (hquote : s.quote = none) {t : List Char} (ht : t.all Expr.isPlain = true) :
    Runs may m (.text t) s s := .text (Scan.covers_foldl hquote (List.all_eq_true.mp ht))

theorem runs_char (hquote : s.quote = none) {sat : Char → Bool}
    (h : ∀ c, sat c = true → Expr.isPlain c = true) : Runs may m (.char sat) s s :=
  .char fun c hc => Scan.covers_step hquote (h c hc)

theorem runs_choice {ps : List Pattern} (h : ∀ p ∈ ps, Runs may m p s s) :
    Runs may m (Pattern.choice ps) s s := by
  induction ps with
  | nil => exact .not rfl
  | cons p ps ih =>
    have hp := h p List.mem_cons_self
    have hps := ih fun q hq => h q (List.mem_cons_of_mem p hq)
    cases ps with
    | nil => exact hp
    | cons q ps => exact .alt hp hps

end

/-- The nonterminal may be tried in the other where the scan has counted all nests so far. -/
def Counted (outer : Nonterminal) (s : Scan) (n : Nonterminal) (s' : Scan) : Prop :=
  s.opened + s.powers + (outer.nests n).toNat ≤ s'.opened + s'.powers

section

variable {s s₀ : Scan}

theorem runs_rule (hquote : s.quote = n'.quote) (hnests : n.nests n' = false) :
    Runs (Counted n s) m (.rule n') s (n'.counts s) := by
  refine .rule hquote ?_
  unfold Counted
  rw [hnests]
  exact Nat.le_refl _

theorem covers_opening (hquote : s.quote = none) :
    (s.step '(').Covers { s with opened := s.opened + 1 } := by
  unfold Scan.step
  rw [hquote]
  exact ⟨rfl, Nat.le_refl _, Nat.le_refl _⟩

theorem covers_closing (hquote : s.quote = none) :
    (Scan.step { s with opened := s.opened + 1 } ')').Covers s := by
  unfold Scan.step
  simp only [hquote]
  exact ⟨hquote.symm, Nat.le_refl _, Nat.le_refl _⟩

theorem covers_power (hquote : s.quote = none) :
    (s.step '^').Covers { s with powers := s.powers + 1 } := by
  unfold Scan.step
  rw [hquote]
  exact ⟨rfl, Nat.le_refl _, Nat.le_refl _⟩

/-- What is tried between parentheses has them counted. -/
theorem runs_parentheses (hquote : s.quote = none) {p : Pattern}
    (hp : ∀ inner : Scan, inner.quote = none → (∀ n', Counted n s n' inner) →
      Runs (Counted n s) m p inner inner) :
    Runs (Counted n s) m (.seq (.text ['(']) (.seq p (.text [')']))) s s := by
  have hcounted (n' : Nonterminal) : Counted n s n' { s with opened := s.opened + 1 } := by
    have hle := Bool.toNat_le (n.nests n')
    unfold Counted
    simp only
    omega
  exact .seq (.text (covers_opening hquote)) (fun _ => hquote)
    (.seq (hp _ hquote hcounted) (fun _ => hquote) (.text (covers_closing hquote)))

theorem isPlain_symbol (op : BinaryOperator) : op.symbol.toList.all Expr.isPlain = true := by
  cases op with
  | arithmetic op | comparison op | logical op | sets op => cases op <;> decide
  | membership => decide

theorem counts_operator {op : BinaryOperator} (h : op ≠ .arithmetic .power) (s : Scan) :
    Nonterminal.counts s (.operator op) = s := by
  cases op with
  | arithmetic op =>
    cases op with
    | power => exact absurd rfl h
    | add | subtract | multiply | divide | modulo => rfl
  | comparison | membership | logical | sets => rfl

theorem runs_symbol (hquote : s.quote = none) (op : BinaryOperator) :
    Runs (Counted n s) m (.text op.symbol.toList) s (Nonterminal.counts s (.operator op)) := by
  by_cases hpower : op = .arithmetic .power
  · subst hpower
    exact .text (covers_power hquote)
  · rw [counts_operator hpower]
    exact runs_plain hquote (isPlain_symbol op)

theorem quote_counts (hquote : s.quote = none) (n : Nonterminal) : (n.counts s).quote = none := by
  unfold Nonterminal.counts
  split <;> exact hquote

/-- The operators of a chain are no powers. -/
theorem runs_operators (hquote : s.quote = none) (level : Precedence) :
    Runs (Counted (.chain level) s) m (Pattern.operators level) s s := by
  refine runs_choice fun p hp => ?_
  obtain ⟨op, hop, rfl⟩ := List.mem_map.mp hp
  have hpower : op ≠ .arithmetic .power := by
    rintro rfl
    cases level <;> exact absurd hop (by decide)
  have hrule : Runs (Counted (.chain level) s) m (.rule (.operator op)) s _ :=
    runs_rule hquote (by cases level <;> rfl)
  rwa [counts_operator hpower] at hrule

theorem runs_operand (hquote : s.quote = none) (level : Precedence) :
    Runs (Counted (.chain level) s) m (Pattern.operand level) s s := by
  cases level <;> exact runs_rule hquote rfl

theorem runs_signs (hquote : s.quote = none) : Runs (Counted .unary s) m Pattern.signs s s :=
  .alt (runs_rule hquote rfl) (runs_rule hquote rfl)

theorem runs_primary (hquote : s.quote = none) : Runs (Counted .unary s) m Pattern.primary s s := by
  have htoken {n' : Nonterminal} (h : s.quote = n'.quote)
      (hnests : Nonterminal.unary.nests n' = false) :
      Runs (Counted .unary s) m (.rule n') s (n'.counts s) := runs_rule h hnests
  have hgroup : Runs (Counted .unary s) m Pattern.group s s :=
    runs_parentheses hquote fun inner hinner hcounted => .rule hinner (hcounted _)
  exact .alt (htoken hquote rfl) (.alt (.alt (htoken hquote rfl) (.alt (htoken hquote rfl)
    (htoken hquote rfl))) (.alt (htoken hquote rfl) hgroup))

/-- Each argument is tried in the parentheses of the call. -/
theorem runs_arguments (hquote : s.quote = none)
    (hcounted : ∀ n', Counted .call s₀ n' s) : Runs (Counted .call s₀) m Pattern.arguments s s := by
  have hargument : Runs (Counted .call s₀) m (.rule (.chain .logical)) s s :=
    .rule hquote (hcounted _)
  have hcomma : Runs (Counted .call s₀) m (.text [',']) s s := runs_plain hquote (by decide)
  exact .seq hargument (fun _ => hquote)
    (.many (.seq hcomma (fun _ => hquote) hargument) fun _ => hquote)

theorem runs_word (hquote : s.quote = none) {words : List String}
    (hwords : words.all (fun w => w.toList.all Expr.isPlain) = true) :
    Runs (Counted n s) m (Pattern.word words) s s := by
  refine .seq (runs_choice fun p hp => ?_) (fun _ => hquote) (.not rfl)
  obtain ⟨w, hw, rfl⟩ := List.mem_map.mp hp
  exact runs_plain hquote (List.all_eq_true.mp hwords w hw)

theorem runs_digits (hquote : s.quote = none) : Runs (Counted n s) m Pattern.digits s s := by
  have hdigit : Runs (Counted n s) m (.char Char.isDigit) s s :=
    runs_char hquote fun c hc => Expr.isPlain_of_isNameChar (Expr.isNameChar_of_isDigit hc)
  exact .seq hdigit (fun _ => hquote) (.many hdigit fun _ => hquote)

theorem runs_quoted (hquote : s.quote = none) {q : Char} (hq : isQuote q = true) :
    Runs (Counted .string s) .unspaced (Pattern.quoted q) s s := by
  have hopening : (s.step q).Covers { s with quote := some q } := by
    unfold Scan.step
    rw [hquote]
    rcases Expr.eq_of_isQuote hq with rfl | rfl <;> exact ⟨rfl, Nat.le_refl _, Nat.le_refl _⟩
  have hclosing : (Scan.step { s with quote := some q } q).Covers s := by
    unfold Scan.step
    simp only [if_true]
    exact ⟨hquote.symm, Nat.le_refl _, Nat.le_refl _⟩
  exact .seq (.text hopening) nofun (.seq (.rule rfl (Nat.le_refl _)) nofun (.text hclosing))

end

/-- Every nonterminal has the judgement. -/
theorem runs_pattern (n : Nonterminal) (m : Mode) {s : Scan} (hquote : s.quote = n.quote) :
    Runs (Counted n s) (n.mode m) n.pattern s (n.counts s) := by
  have hfits (hnone : s.quote = none) : (n.mode m).Fits s := fun _ => hnone
  cases n with
  | input =>
    exact .seq (runs_plain hquote rfl) (hfits hquote)
      (.seq (runs_rule hquote rfl) (hfits hquote) (runs_rule hquote rfl))
  | chain level =>
    exact .seq (runs_operand hquote level) (hfits hquote)
      (.many (.seq (runs_operators hquote level) (hfits hquote) (runs_operand hquote level))
        (hfits hquote))
  | operator op =>
    rw [Nonterminal.pattern_operator]
    cases Pattern.barred op with
    | none => exact runs_symbol hquote op
    | some sat => exact .seq (runs_symbol hquote op) (fun _ => quote_counts hquote _) (.not rfl)
  | power =>
    -- the power has been counted where the exponent is tried
    have hpower : Runs (Counted .power s) m (.rule (.operator (.arithmetic .power))) s
        { s with powers := s.powers + 1 } := runs_rule hquote rfl
    have hexponent : Runs (Counted .power s) m (.rule .power) { s with powers := s.powers + 1 }
        { s with powers := s.powers + 1 } := .rule hquote (Nat.le_refl _)
    exact .seq (runs_rule hquote rfl) (hfits hquote)
      (.optional (.seq hpower (fun _ => hquote) hexponent)
        ⟨rfl, Nat.le_refl _, Nat.le_succ _⟩)
  | unary =>
    exact .seq (.many (runs_signs hquote) (hfits hquote)) (hfits hquote) (runs_primary hquote)
  | sign op => exact runs_plain hquote (by cases op <;> decide)
  | call =>
    have harguments : Runs (Counted .call s) m _ s s :=
      runs_parentheses hquote fun inner hinner hcounted =>
        .optional (runs_arguments hinner hcounted) (Scan.Covers.refl inner)
    exact .seq (runs_rule hquote rfl) (hfits hquote) harguments
  | number =>
    exact .seq (runs_digits hquote) (hfits hquote)
      (.optional (.seq (runs_plain hquote (by decide)) (hfits hquote) (runs_digits hquote))
        (Scan.Covers.refl s))
  | string => exact .alt (runs_quoted hquote rfl) (runs_quoted hquote rfl)
  | content q => exact .many (.unquoted nofun hquote) nofun
  | boolean => exact runs_word hquote (by decide)
  | identifier =>
    have hstart : Runs (Counted .identifier s) .atomic (.char Expr.isNameStart) s s :=
      runs_char hquote fun c hc => Expr.isPlain_of_isNameChar (Expr.isNameChar_of_isNameStart hc)
    have hname : Runs (Counted .identifier s) .atomic Pattern.nameChar s s :=
      runs_char hquote fun c hc => Expr.isPlain_of_isNameChar hc
    exact .seq (.not rfl) (hfits hquote)
      (.seq hstart (hfits hquote) (.many hname (hfits hquote)))
  | finish => exact .not rfl

theorem gap_eq_self (hm : m ≠ .spaced) (cs : List Char) : m.gap cs = cs := by
  cases m with
  | spaced => exact absurd rfl hm
  | unspaced | atomic => rfl

/-- What stands before a closing quote leaves a scan in the quotes. -/
theorem passes_unquoted {s : Scan} {q : Char} {sat : Char → Bool} {mid : List Char}
    {us : List Tree} (hm : m ≠ .spaced) (hquote : s.quote = some q)
    (hnot : Matches m (.not (.text [q])) cs (some (ts, mid)))
    (hchar : Matches m (.char sat) (m.gap mid) (some (us, rest))) : Passes s cs rest s := by
  rw [gap_eq_self hm] at hchar
  cases hnot with
  | not htext =>
    cases hchar with
    | char hsat =>
      rename_i c
      refine ⟨[c], rfl, Scan.covers_step_quoted hquote fun hc => ?_⟩
      cases htext with
      | textFails hclosing => exact hclosing (by rw [hc]; exact ⟨rest, rfl⟩)

/-- What a pattern matches takes a scan where the judgement says. -/
theorem Runs.passes {may : Nonterminal → Scan → Prop} {s s' : Scan} (hruns : Runs may m p s s')
    {r : Option (List Tree × List Char)} (h : Matches m p cs r) :
    ∀ found ∈ r, Passes s cs found.2 s' := by
  induction h generalizing may s s' with
  | charFails | textFails | ruleFails | seqFails | seqEnds | notFails => exact nofun
  | char hsat =>
    intro found hfound
    cases hfound
    cases hruns with
    | char hcovers => exact ⟨[_], rfl, hcovers _ hsat⟩
  | text heq =>
    intro found hfound
    cases hfound
    cases hruns with
    | text hcovers => exact ⟨_, heq, hcovers⟩
  | rule h hcs ih =>
    intro found hfound
    cases hfound
    cases hruns with
    | rule hquote hmay =>
      -- whatever may be tried in the caller, in the nonterminal it is what its own judgement says
      have hpattern := ih (runs_pattern _ _ hquote) _ rfl
      exact hpattern
  | seq hp hq ihp ihq =>
    intro found hfound
    cases hfound
    cases hruns with
    | seq hrunsp hfits hrunsq =>
      have hsecond := ihq hrunsq _ rfl
      exact ((ihp hrunsp _ rfl).trans (passes_gap hfits _)).trans hsecond
    | unquoted hm hquote => exact passes_unquoted hm hquote hp hq
  | alt hp ihp =>
    cases hruns with
    | alt hrunsp hrunsq => exact ihp hrunsp
  | altElse hp hq ihp ihq =>
    cases hruns with
    | alt hrunsp hrunsq => exact ihq hrunsq
  | manyNone | moreNone =>
    intro found hfound
    cases hfound
    cases hruns
    exact Passes.refl _ _
  | many hp hmore ihp ihmore =>
    intro found hfound
    cases hfound
    cases hruns with
    | many hrunsp hfits =>
      have hothers := ihmore (.more hrunsp hfits) _ rfl
      exact (ihp hrunsp _ rfl).trans hothers
  | more hp hmore ihp ihmore =>
    intro found hfound
    cases hfound
    cases hruns with
    | more hrunsp hfits =>
      have hothers := ihmore (.more hrunsp hfits) _ rfl
      exact ((passes_gap hfits _).trans (ihp hrunsp _ rfl)).trans hothers
  | optional hp ihp =>
    intro found hfound
    cases hruns with
    | optional hrunsp hcovers => exact (ihp hrunsp found hfound).covers hcovers
  | optionalNone | not =>
    intro found hfound
    cases hfound
    cases hruns
    exact Passes.refl _ _

/-- Where a nonterminal of the pattern is tried, it may be. -/
theorem Runs.tries {may : Nonterminal → Scan → Prop} {s s' : Scan} (hruns : Runs may m p s s')
    (h : Tries m p cs n cs') : ∃ mid, Passes s cs cs' mid ∧ mid.quote = n.quote ∧ may n mid := by
  induction h generalizing s s' with
  | rule =>
    cases hruns with
    | rule hquote hmay => exact ⟨s, Passes.refl s _, hquote, hmay⟩
  | seq h ih =>
    cases hruns with
    | seq hrunsp hfits hrunsq => exact ih hrunsp
    | unquoted hm hquote => exact absurd h.mem_rules List.not_mem_nil
  | seqNext hp h ih =>
    cases hruns with
    | seq hrunsp hfits hrunsq =>
      obtain ⟨mid, hpasses, hmay⟩ := ih hrunsq
      exact ⟨mid, ((hrunsp.passes hp _ rfl).trans (passes_gap hfits _)).trans hpasses, hmay⟩
    | unquoted hm hquote => exact absurd h.mem_rules List.not_mem_nil
  | alt h ih =>
    cases hruns with
    | alt hrunsp hrunsq => exact ih hrunsp
  | altNext hp h ih =>
    cases hruns with
    | alt hrunsp hrunsq => exact ih hrunsq
  | many h ih =>
    cases hruns with
    | many hrunsp hfits => exact ih hrunsp
  | manyNext hp h ih =>
    cases hruns with
    | many hrunsp hfits =>
      obtain ⟨mid, hpasses, hmay⟩ := ih (.more hrunsp hfits)
      exact ⟨mid, (hrunsp.passes hp _ rfl).trans hpasses, hmay⟩
  | more h ih =>
    cases hruns with
    | more hrunsp hfits =>
      obtain ⟨mid, hpasses, hmay⟩ := ih hrunsp
      exact ⟨mid, (passes_gap hfits _).trans hpasses, hmay⟩
  | moreNext hp h ih =>
    cases hruns with
    | more hrunsp hfits =>
      obtain ⟨mid, hpasses, hmay⟩ := ih (.more hrunsp hfits)
      exact ⟨mid, ((passes_gap hfits _).trans (hrunsp.passes hp _ rfl)).trans hpasses, hmay⟩
  | optional h ih =>
    cases hruns with
    | optional hrunsp hcovers => exact ih hrunsp
  | not h ih =>
    cases hruns with
    | not hrules =>
      have hmem := h.mem_rules
      rw [hrules] at hmem
      exact absurd hmem List.not_mem_nil

/-- Each nest on the way to a nonterminal has been counted where it is tried. -/
theorem Reaches.counts (h : Reaches source outer n m cs) : ∃ front, source = front ++ cs ∧
    let s := front.foldl Scan.step {}
    s.quote = n.quote ∧ nesting (n :: outer) ≤ s.opened + s.powers := by
  induction h with
  | start => exact ⟨[], rfl, rfl, Nat.zero_le _⟩
  | call h htries ih =>
    obtain ⟨front, heq, hquote, hnesting⟩ := ih
    -- the scan at the end of what was read so far is where the judgement of the caller begins
    obtain ⟨mid, ⟨more, hmore, hcovers⟩, hmid, hcounted⟩ :=
      (runs_pattern _ _ hquote).tries htries
    refine ⟨front ++ more, by rw [heq, hmore, List.append_assoc], ?_⟩
    rw [List.foldl_append]
    refine ⟨hcovers.quote.trans hmid, ?_⟩
    have hopened := hcovers.opened
    have hpowers := hcovers.powers
    unfold Counted at hcounted
    rw [nesting]
    omega

/-! ### Runs of signs -/

theorem exists_sign (h : Matches m Pattern.signs cs (some (ts, rest))) :
    ts.length ≤ 1 ∧ ∃ c, cs = c :: rest ∧ (c = '!' ∨ c = '-') := by
  have hgrow (n : Nonterminal) (token : List Char) : (m.grow n token []).length ≤ 1 := by
    unfold Mode.grow
    split <;> simp
  have hrule {op : UnaryOperator} (h : Matches m (.rule (.sign op)) cs (some (ts, rest))) :
      ts.length ≤ 1 ∧ cs = op.symbol.toList ++ rest := by
    cases h with
    | rule h hcs =>
      cases h with
      | text heq => exact ⟨hgrow _ _, heq⟩
  cases h with
  | alt h => exact ⟨(hrule h).1, '!', (hrule h).2, .inl rfl⟩
  | altElse hnot h => exact ⟨(hrule h).1, '-', (hrule h).2, .inr rfl⟩

theorem step_sign {s : Scan} (hquote : s.quote = none) {c : Char} (hc : c = '!' ∨ c = '-') :
    (s.step c).run = s.run + 1 ∧ (s.step c).quote = none := by
  unfold Scan.step
  rw [hquote]
  rcases hc with rfl | rfl <;> exact ⟨rfl, rfl⟩

/-- Each sign makes the run of the scan longer, and the spaces between do not end it. -/
theorem run_of_more {r : Option (List Tree × List Char)} (h : Matches m p cs r)
    (hp : p = .more Pattern.signs) {s : Scan} (hquote : s.quote = none) :
    ∀ found ∈ r, ∃ front, cs = front ++ found.2 ∧
      s.run + found.1.length ≤ (front.foldl Scan.step s).run := by
  induction h generalizing s with
  | moreNone =>
    intro found hfound
    cases hfound
    exact ⟨[], rfl, Nat.le_refl _⟩
  | @more m p cs mid rest ts us hone hmore ihone ihmore =>
    intro found hfound
    cases hfound
    cases hp
    obtain ⟨hlength, c, hcs, hc⟩ := exists_sign hone
    obtain ⟨spaces, hspaces, hsame⟩ := exists_gap (m := m) (fun _ => hquote) cs
    obtain ⟨hrun, hnone⟩ := step_sign hquote hc
    obtain ⟨front, hfront, hothers⟩ := ihmore rfl hnone _ rfl
    refine ⟨spaces ++ c :: front, ?_, ?_⟩
    · rw [hspaces, hcs, hfront, List.append_assoc, List.cons_append]
    · rw [List.foldl_append, hsame, List.foldl_cons, List.length_append]
      simp only at hothers
      omega
  | _ => cases hp

theorem run_of_many (h : Matches m (.many Pattern.signs) cs (some (ts, rest))) {s : Scan}
    (hquote : s.quote = none) : ∃ front, cs = front ++ rest ∧
      s.run + ts.length ≤ (front.foldl Scan.step s).run := by
  cases h with
  | manyNone => exact ⟨[], rfl, Nat.le_refl _⟩
  | many hone hmore =>
    obtain ⟨hlength, c, rfl, hc⟩ := exists_sign hone
    obtain ⟨hrun, hnone⟩ := step_sign hquote hc
    obtain ⟨front, hfront, hothers⟩ := run_of_more hmore rfl hnone _ rfl
    refine ⟨c :: front, by rw [hfront, List.cons_append], ?_⟩
    rw [List.foldl_cons, List.length_append]
    simp only at hothers
    omega

/-! ### The estimate -/

/-- Matching a text nests no deeper than a limit: neither what is tried nor what is found, runs of
signs counted in. So the calls that are under way at a time are bounded, too. -/
structure RecursesWithin (source : List Char) (limit : Nat) : Prop where
  /-- whatever is tried -/
  nesting {outer : List Nonterminal} {n : Nonterminal} {m : Mode} {cs : List Char}
    (h : Reaches source outer n m cs) : nesting (n :: outer) ≤ limit
  /-- the signs that an operand is found to have, whether it matches or not -/
  signs {outer : List Nonterminal} {m : Mode} {cs rest : List Char} {ts : List Tree}
    (h : Reaches source outer .unary m cs)
    (hsigns : Matches (Nonterminal.unary.mode m) (.many Pattern.signs) cs (some (ts, rest))) :
    Grammar.nesting (.unary :: outer) + ts.length ≤ limit
  calls {outer : List Nonterminal} {n : Nonterminal} {m : Mode} {cs : List Char}
    (h : Reaches source outer n m cs) : (n :: outer).length ≤ 9 + 7 * limit
  /-- on every path from the root of the parse tree -/
  path {t u : Tree} {outer : List Nonterminal} (ht : Parses source t) (h : t.Path outer u) :
    Grammar.nesting (u.root :: outer) + u.signs ≤ limit

theorem Reaches.signs_le (h : Reaches source outer .unary m cs)
    (hsigns : Matches (Nonterminal.unary.mode m) (.many Pattern.signs) cs (some (ts, rest))) :
    nesting (.unary :: outer) + ts.length ≤ estimateNesting source := by
  obtain ⟨front, rfl, hquote, hnesting⟩ := h.counts
  obtain ⟨run, rfl, hrun⟩ := run_of_many hsigns hquote
  have hestimate := Expr.le_estimateNesting front run rest
  simp only at hestimate
  omega

theorem Reaches.nesting_le (h : Reaches source outer n m cs) :
    nesting (n :: outer) ≤ estimateNesting source := by
  obtain ⟨front, rfl, hquote, hnesting⟩ := h.counts
  have hestimate := Expr.le_estimateNesting front [] cs
  simp only [List.nil_append] at hestimate
  omega

/-- Only operands have signs. -/
theorem eq_unary_of_sign (h : n' ∈ n.pattern.rules) (hsign : n'.isSign = true) : n = .unary := by
  revert n'
  cases n with
  | unary => exact fun _ _ => rfl
  | chain level => cases level <;> decide
  | operator op =>
    rw [rules_operator]
    exact nofun
  | sign | content => exact nofun
  | input | power | call | number | string | boolean | identifier | finish => decide

theorem primary_has_no_sign (h : n ∈ Pattern.primary.rules) : n.isSign = false := by
  revert n
  decide

theorem Tree.Path.signs_le {t u : Tree} (ht : Parses source t) (h : t.Path outer u) :
    nesting (u.root :: outer) + u.signs ≤ estimateNesting source := by
  obtain ⟨m, start, after, hm, hreaches, hmatches⟩ := h.reaches ht
  by_cases hunary : u.root = .unary
  · rw [hunary] at hreaches hmatches ⊢
    generalize hinner : u.inner = us at hmatches
    cases hmatches with
    | seq hsigns hprimary =>
      rename_i mid ts us
      have hle := hreaches.signs_le hsigns
      -- the signs are those in front, for the operand is no sign itself
      have hnone : us.countP (fun v => v.root.isSign) = 0 := by
        refine List.countP_eq_zero.mpr fun v hv => ?_
        obtain ⟨start, after, htries, -⟩ := hprimary.exists_tries hm _ rfl v hv
        rw [primary_has_no_sign htries.mem_rules]
        exact Bool.false_ne_true
      have hcount : u.signs ≤ ts.length := by
        rw [Tree.signs, hinner, List.countP_append, hnone]
        exact List.countP_le_length
      omega
  · have hnone : u.signs = 0 := by
      refine List.countP_eq_zero.mpr fun v hv hsign => ?_
      obtain ⟨m', start', after', hm', hreaches', -⟩ := (h.inner hv).reaches ht
      cases hreaches' with
      | call h' htries => exact hunary (eq_unary_of_sign htries.mem_rules hsign)
    have hle := hreaches.nesting_le
    omega

theorem recursesWithin_estimate (source : List Char) :
    RecursesWithin source (estimateNesting source) where
  nesting h := h.nesting_le
  signs h hsigns := h.signs_le hsigns
  calls {outer n m cs} h := by
    have hlength := h.length
    have hnesting := h.nesting_le
    have hheight := n.height_pos
    rw [List.length_cons]
    omega
  path ht h := h.signs_le ht

theorem RecursesWithin.mono {limit limit' : Nat} (h : RecursesWithin source limit)
    (hle : limit ≤ limit') : RecursesWithin source limit' where
  nesting hreaches := Nat.le_trans (h.nesting hreaches) hle
  signs hreaches hsigns := Nat.le_trans (h.signs hreaches hsigns) hle
  calls hreaches := by
    have hcalls := h.calls hreaches
    omega
  path ht hpath := Nat.le_trans (h.path ht hpath) hle

/-- The estimate of a text bounds how deep matching it goes, whether the text is accepted or not. So
a text is turned away before it is read, or the limit bounds it. -/
theorem estimate_bounds_recursion :
    (∀ source : List Char,
      ((∃ phrase, Phrase.read source = .ok phrase) ↔ ∃ t, Parses source t) ∧
        RecursesWithin source (estimateNesting source)) ∧
    ∀ (names : Name.Reading) (limit : Nat) (line : Option Nat) (text : String),
      let source := (Expr.expandProducts text).toList
      if source.all Text.isBlank then Expr.parse names limit line text = .error .empty
      else if limit < estimateNesting source then
        Expr.parse names limit line text = .error (.tooDeep (estimateNesting source) limit)
      else RecursesWithin source limit := by
  refine ⟨fun source => ⟨exists_read_iff source, recursesWithin_estimate source⟩, ?_⟩
  intro names limit line text
  unfold Expr.parse
  generalize (Expr.expandProducts text).toList = source
  intro source
  by_cases hblank : source.all Text.isBlank = true
  · rw [if_pos hblank, if_pos hblank]
  rw [if_neg hblank, if_neg hblank]
  by_cases hdeep : limit < estimateNesting source
  · rw [if_pos hdeep, if_pos hdeep]
  · rw [if_neg hdeep]
    exact (recursesWithin_estimate source).mono (Nat.le_of_not_lt hdeep)

/-! ### Texts that nest as deep as estimated -/

theorem Reaches.operand (h : Reaches source outer (.chain .logical) .spaced cs) :
    Reaches source (.power :: .chain .multiplicative :: .chain .additive :: .chain .comparison ::
      .chain .logical :: outer) .unary .spaced cs := by
  have hcomparison := h.call (.seq .rule)
  have hadditive := hcomparison.call (.seq .rule)
  have hmultiplicative := hadditive.call (.seq .rule)
  have hpower := hmultiplicative.call (.seq .rule)
  exact hpower.call (.seq .rule)

theorem Reaches.group (h : Reaches source outer .unary .spaced ('(' :: rest)) :
    Reaches source (.unary :: outer) (.chain .logical) .spaced (Phrase.skip rest) := by
  obtain ⟨hname, hliteral⟩ := not_matches_at_mark (c := '(') (by decide) rest
  have hsigns : Matches .spaced (.many Pattern.signs) ('(' :: rest) (some ([], '(' :: rest)) :=
    .manyNone (not_matches_sign (by simp))
  have hgroup : Tries .spaced Pattern.group ('(' :: rest) (.chain .logical) (Phrase.skip rest) :=
    .seqNext (matches_mark .spaced '(' rest) (.seq .rule)
  exact h.call (.seqNext hsigns (.altNext (.ruleFails (.seqFails hname))
    (.altNext hliteral (.altNext hname hgroup))))

/-- No smaller estimate would do: as many groups as are opened are tried in one another. -/
theorem estimate_attained (k : Nat) : ∃ outer n m rest,
    Reaches (List.replicate k '(') outer n m rest ∧
      nesting (n :: outer) = estimateNesting (List.replicate k '(') := by
  have hskip (i : Nat) : Phrase.skip (List.replicate i '(') = List.replicate i '(' := by
    cases i <;> rfl
  have hreaches : ∀ i ≤ k, ∃ outer, Reaches (List.replicate k '(') outer (.chain .logical) .spaced
      (List.replicate (k - i) '(') ∧ nesting (.chain .logical :: outer) = i := by
    intro i hi
    induction i with
    | zero =>
      have hstart : Reaches (List.replicate k '(') [.input] (.chain .logical) .spaced
          (Phrase.skip (List.replicate k '(')) :=
        Reaches.start.call (.seqNext (.text rfl) (.seq .rule))
      rw [hskip] at hstart
      exact ⟨_, hstart, rfl⟩
    | succ i ih =>
      obtain ⟨outer, h, hnesting⟩ := ih (Nat.le_of_succ_le hi)
      rw [show k - i = k - (i + 1) + 1 by omega, List.replicate_succ] at h
      have hgroup := h.operand.group
      rw [hskip] at hgroup
      exact ⟨_, hgroup, congrArg (· + 1) hnesting⟩
  obtain ⟨outer, h, hnesting⟩ := hreaches k (Nat.le_refl k)
  have hle := h.nesting_le
  have hlength := Expr.estimateNesting_le (List.replicate k '(')
  rw [List.length_replicate] at hlength
  exact ⟨outer, _, _, _, h, by omega⟩

end Grammar

end Premise
