import Premise.Proofs.Layout
import Premise.Proofs.Text

/-!
Tokens and the white space between them.

Every token of a layout is of one of four kinds, and of whatever kind it is, no product is missing
in it or behind it: a name that follows a number stands behind a space. So the text of a layout is
parsed as it is written.
-/

namespace Premise

/-! ### Characters -/

namespace Expr

theorem eq_of_isQuote {c : Char} (h : isQuote c = true) : c = '"' ∨ c = '\'' := by
  simpa [isQuote] using h

theorem isNameChar_of_isNameStart {c : Char} (h : isNameStart c = true) : isNameChar c = true := by
  unfold isNameStart at h
  unfold isNameChar Char.isAlphanum
  simp only [Bool.or_eq_true] at h ⊢
  rcases h with h | h
  · exact .inl (.inl (.inl h))
  · exact .inl (.inr h)

theorem isQuote_of_isNameChar {c : Char} (h : isNameChar c = true) : isQuote c = false := by
  cases hquote : isQuote c with
  | false => rfl
  | true =>
    rcases eq_of_isQuote hquote with heq | heq
    · rw [heq] at h
      exact absurd h (by decide)
    · rw [heq] at h
      exact absurd h (by decide)

theorem code_of_isNameStart {c : Char} (h : isNameStart c = true) :
    (65 ≤ c.toNat ∧ c.toNat ≤ 90) ∨ (97 ≤ c.toNat ∧ c.toNat ≤ 122) ∨ c.toNat = 95 := by
  unfold isNameStart Char.isAlpha Char.isUpper Char.isLower at h
  simp only [Bool.or_eq_true, Bool.and_eq_true, decide_eq_true_eq, ge_iff_le,
    UInt32.le_iff_toNat_le] at h
  rcases h with (h | h) | h
  · exact .inl h
  · exact .inr (.inl h)
  · rw [h]
    exact .inr (.inr rfl)

theorem code_of_isDigit {c : Char} (h : c.isDigit = true) : 48 ≤ c.toNat ∧ c.toNat ≤ 57 :=
  Char.isDigit_iff_toNat.mp h

theorem isDigit_of_isNameStart {c : Char} (h : isNameStart c = true) : c.isDigit = false := by
  have hletter := code_of_isNameStart h
  cases hdigit : c.isDigit with
  | false => rfl
  | true =>
    have hcode := code_of_isDigit hdigit
    omega

theorem isNameChar_of_isDigit {c : Char} (h : c.isDigit = true) : isNameChar c = true := by
  unfold isNameChar Char.isAlphanum
  simp only [h, Bool.or_true, Bool.true_or]

end Expr

namespace Text

theorem isBlank_of_printable {c : Char} (h : 33 ≤ c.toNat ∧ c.toNat ≤ 126) : isBlank c = false := by
  unfold isBlank inRanges blankRanges
  simp
  omega

end Text

namespace Phrase

theorem eq_of_isSpace {c : Char} (h : isSpace c = true) :
    c = ' ' ∨ c = '\t' ∨ c = '\r' ∨ c = '\n' := by
  simpa [isSpace, or_assoc] using h

theorem isNameChar_of_isSpace {c : Char} (h : isSpace c = true) : Expr.isNameChar c = false := by
  rcases eq_of_isSpace h with rfl | rfl | rfl | rfl <;> decide

theorem isSpace_of_isBlank {c : Char} (h : Text.isBlank c = false) : isSpace c = false := by
  cases hspace : isSpace c with
  | false => rfl
  | true =>
    rcases eq_of_isSpace hspace with rfl | rfl | rfl | rfl <;> exact absurd h (by decide)

/-! ### White space -/

/-- Nothing, or white space first: what stands before it is at its end. -/
def Breaks (cs : List Char) : Prop := ∀ c ∈ cs.head?, isSpace c = true

theorem skip_append {gap : List Char} (h : ∀ c ∈ gap, isSpace c = true) (cs : List Char) :
    skip (gap ++ cs) = skip cs := List.dropWhile_append_of_pos h

theorem skip_cons {c : Char} (h : isSpace c = false) (cs : List Char) : skip (c :: cs) = c :: cs :=
  List.dropWhile_cons_of_neg (by rw [h]; exact Bool.false_ne_true)

theorem skip_of_all {cs : List Char} (h : ∀ c ∈ cs, isSpace c = true) : skip cs = [] := by
  have hskip := skip_append h []
  rw [List.append_nil] at hskip
  exact hskip

/-- Nothing, or first a character that no name goes on with. -/
def EndsWord (cs : List Char) : Prop := ∀ c ∈ cs.head?, Expr.isNameChar c = false

theorem Breaks.endsWord {cs : List Char} (h : Breaks cs) : EndsWord cs :=
  fun c hc => isNameChar_of_isSpace (h c hc)

/-- A word ends where no name goes on. -/
theorem word_append {cs rest : List Char} (hcs : ∀ c ∈ cs, Expr.isNameChar c = true)
    (hrest : EndsWord rest) : word (cs ++ rest) = (String.ofList cs, rest) := by
  unfold word
  rw [Text.takeWhile_run hcs hrest, Text.dropWhile_run hcs hrest]

end Phrase

namespace Layout

/-! ### Tokens -/

/-- No quote, digit or blank. -/
def isPlain (c : Char) : Bool := !Expr.isQuote c && !c.isDigit && !Text.isBlank c

theorem of_isPlain {c : Char} (h : isPlain c = true) :
    Expr.isQuote c = false ∧ c.isDigit = false ∧ Text.isBlank c = false := by
  simpa [isPlain, and_assoc] using h

/-- The kinds of tokens. Symbols and the words of the language are plain. -/
inductive IsToken : List Char → Prop
  | plain (cs : List Char) (hne : cs ≠ []) (h : cs.all isPlain = true) : IsToken cs
  | word (c : Char) (cs : List Char) (hstart : Expr.isNameStart c = true)
      (h : ∀ d ∈ cs, Expr.isNameChar d = true) : IsToken (c :: cs)
  | number (whole fraction : List Char) (h : IsDecimal whole fraction) :
      IsToken (numberToken whole fraction)
  | quoted (quote : Char) (content : List Char) (hquote : Expr.isQuote quote = true)
      (h : quote ∉ content) : IsToken (quote :: content ++ [quote])

theorem isToken_of_symbol (op : BinaryOperator) : IsToken op.symbol.toList := by
  cases op with
  | arithmetic op => cases op <;> exact .plain _ (by decide) (by decide)
  | comparison op => cases op <;> exact .plain _ (by decide) (by decide)
  | logical op => cases op <;> exact .plain _ (by decide) (by decide)
  | sets op => cases op <;> exact .plain _ (by decide) (by decide)
  | membership => exact .plain _ (by decide) (by decide)

theorem isToken_of_sign (op : UnaryOperator) : IsToken op.symbol.toList := by
  cases op <;> exact .plain _ (by decide) (by decide)

theorem IsName.isToken {name : String} (h : IsName name) : IsToken name.toList := by
  obtain ⟨c, cs, heq, hstart, hcs, _⟩ := h
  rw [heq]
  exact .word c cs hstart hcs

theorem IsName.isNameChar_of_mem {name : String} (h : IsName name) :
    ∀ c ∈ name.toList, Expr.isNameChar c = true := by
  obtain ⟨c, cs, heq, hstart, hcs, _⟩ := h
  intro d hd
  rw [heq] at hd
  rcases List.mem_cons.mp hd with rfl | hd
  · exact Expr.isNameChar_of_isNameStart hstart
  · exact hcs d hd

theorem IsDecimal.token {whole fraction : List Char} (h : IsDecimal whole fraction) :
    ∃ d ds, numberToken whole fraction = d :: ds ∧ d.isDigit = true ∧
      ∀ x ∈ ds, x.isDigit = true ∨ x = '.' := by
  obtain ⟨hne, hwhole, hfraction⟩ := h
  cases whole with
  | nil => exact absurd rfl hne
  | cons d ds =>
    have hdigit := hwhole d List.mem_cons_self
    have hdigits : ∀ x ∈ ds, x.isDigit = true ∨ x = '.' :=
      fun x hx => .inl (hwhole x (List.mem_cons_of_mem d hx))
    unfold numberToken
    split
    · exact ⟨d, ds, rfl, hdigit, hdigits⟩
    · refine ⟨d, ds ++ '.' :: fraction, rfl, hdigit, fun x hx => ?_⟩
      simp only [List.mem_append, List.mem_cons] at hx
      rcases hx with hx | hx | hx
      · exact hdigits x hx
      · exact .inr hx
      · exact .inl (hfraction x hx)

/-- No token is empty or begins with a blank. -/
theorem IsToken.solid {t : List Char} (h : IsToken t) :
    ∃ c cs, t = c :: cs ∧ Text.isBlank c = false := by
  cases h with
  | plain cs hne hcs =>
    cases t with
    | nil => exact absurd rfl hne
    | cons c cs => exact ⟨c, cs, rfl, (of_isPlain (List.all_eq_true.mp hcs c List.mem_cons_self)).2.2⟩
  | word c cs hstart hcs =>
    have hcode := Expr.code_of_isNameStart hstart
    exact ⟨c, cs, rfl, Text.isBlank_of_printable (by omega)⟩
  | number whole fraction hdecimal =>
    obtain ⟨d, ds, heq, hdigit, _⟩ := hdecimal.token
    have hcode := Expr.code_of_isDigit hdigit
    exact ⟨d, ds, heq, Text.isBlank_of_printable (by omega)⟩
  | quoted quote content hquote hcontent =>
    refine ⟨quote, _, rfl, ?_⟩
    rcases Expr.eq_of_isQuote hquote with rfl | rfl <;> decide

/-- Marks that are tokens but no operators of a chain. -/
def marks : List Char := ['(', ')', ',', '^']

theorem isToken_of_mark {c : Char} (h : c ∈ marks) : IsToken [c] := by
  have hall : marks.all isPlain = true := by decide
  have hc := List.all_eq_true.mp hall c h
  exact .plain [c] (by simp) (by rw [List.all_cons, hc]; rfl)

mutual

theorem isToken_of_mem (l : Layout) (h : l.Valid) : ∀ t ∈ l.tokens, IsToken t := by
  cases l with
  | number x whole fraction =>
    simp only [tokens, List.mem_singleton, forall_eq]
    exact .number whole fraction h.1
  | text quote content =>
    simp only [tokens, List.mem_singleton, forall_eq]
    exact .quoted quote content h.1 h.2
  | truth b =>
    simp only [tokens, List.mem_singleton, forall_eq]
    cases b <;> exact .plain _ (by decide) (by decide)
  | name spelling =>
    simp only [tokens, List.mem_singleton, forall_eq]
    exact IsName.isToken h
  | call function arguments =>
    have hinner := isToken_of_mem_arguments arguments h.2
    simp only [tokens, List.mem_append, List.mem_cons, List.not_mem_nil, or_false]
    rintro t (((rfl | rfl) | ht) | rfl)
    · exact IsName.isToken h.1
    · exact isToken_of_mark (by decide)
    · exact hinner t ht
    · exact isToken_of_mark (by decide)
  | group inner =>
    have hinner := isToken_of_mem inner h
    simp only [tokens, List.mem_append, List.mem_cons, List.not_mem_nil, or_false]
    rintro t ((rfl | ht) | rfl)
    · exact isToken_of_mark (by decide)
    · exact hinner t ht
    · exact isToken_of_mark (by decide)
  | signed op operand =>
    have hinner := isToken_of_mem operand h.1
    simp only [tokens, List.mem_cons]
    rintro t (rfl | ht)
    · exact isToken_of_sign op
    · exact hinner t ht
  | power base exponent =>
    have hbase := isToken_of_mem base h.1
    have hexponent := isToken_of_mem exponent h.2.1
    simp only [tokens, List.mem_append, List.mem_cons]
    rintro t (ht | rfl | ht)
    · exact hbase t ht
    · exact isToken_of_mark (by decide)
    · exact hexponent t ht
  | binary op left right =>
    have hleft := isToken_of_mem left h.1
    have hright := isToken_of_mem right h.2.1
    simp only [tokens, List.mem_append, List.mem_cons]
    rintro t (ht | rfl | ht)
    · exact hleft t ht
    · exact isToken_of_symbol op
    · exact hright t ht

theorem isToken_of_mem_arguments (ls : List Layout) (h : AllValid ls) :
    ∀ t ∈ argumentTokens ls, IsToken t := by
  cases ls with
  | nil => simp [argumentTokens]
  | cons l ls =>
    have hhead := isToken_of_mem l h.1
    have htail := isToken_of_mem_more ls h.2
    simp only [argumentTokens, List.mem_append]
    rintro t (ht | ht)
    · exact hhead t ht
    · exact htail t ht

theorem isToken_of_mem_more (ls : List Layout) (h : AllValid ls) :
    ∀ t ∈ moreTokens ls, IsToken t := by
  cases ls with
  | nil => simp [moreTokens]
  | cons l ls =>
    have hhead := isToken_of_mem l h.1
    have htail := isToken_of_mem_more ls h.2
    simp only [moreTokens, List.mem_append, List.mem_cons]
    rintro t ((rfl | ht) | ht)
    · exact isToken_of_mark (by decide)
    · exact hhead t ht
    · exact htail t ht

end

namespace Behind

theorem append {ts us : List (List Char)} {cs rest : List Char} :
    Behind (ts ++ us) cs rest ↔ ∃ mid, Behind ts cs mid ∧ Behind us mid rest := by
  induction ts generalizing cs with
  | nil => simp [Behind]
  | cons t ts ih =>
    simp only [List.cons_append, Behind, ih]
    constructor
    · rintro ⟨gap, next, hne, hgap, heq, mid, hts, hus⟩
      exact ⟨mid, ⟨gap, next, hne, hgap, heq, hts⟩, hus⟩
    · rintro ⟨mid, ⟨gap, next, hne, hgap, heq, hts⟩, hus⟩
      exact ⟨gap, next, hne, hgap, heq, mid, hts, hus⟩

/-- Without the spaces in front, a text begins with its first token. -/
theorem skip {t : List Char} {ts : List (List Char)} {cs rest : List Char}
    (h : Behind (t :: ts) cs rest) (ht : IsToken t) :
    ∃ mid, Phrase.skip cs = t ++ mid ∧ Behind ts mid rest ∧
      t.length + mid.length < cs.length := by
  obtain ⟨gap, mid, hne, hgap, heq, hts⟩ := h
  obtain ⟨c, ct, hc, hblank⟩ := ht.solid
  refine ⟨mid, ?_, hts, ?_⟩
  · rw [heq, List.append_assoc, Phrase.skip_append hgap, hc]
    exact Phrase.skip_cons (Phrase.isSpace_of_isBlank hblank) _
  · have hpos := List.length_pos_iff.mpr hne
    rw [heq]
    simp only [List.length_append]
    omega

theorem skip_mark {c : Char} {ts : List (List Char)} {cs rest : List Char} (hc : c ∈ marks)
    (h : Behind ([c] :: ts) cs rest) :
    ∃ mid, Phrase.skip cs = c :: mid ∧ Behind ts mid rest ∧ mid.length + 1 < cs.length := by
  obtain ⟨mid, hskip, hmid, hshorter⟩ := h.skip (isToken_of_mark hc)
  rw [List.length_cons, List.length_nil] at hshorter
  exact ⟨mid, hskip, hmid, by omega⟩

/-- What is behind a space begins with it. -/
theorem exists_space {t : List Char} {ts : List (List Char)} {cs rest : List Char}
    (h : Behind (t :: ts) cs rest) : ∃ c next, cs = c :: next ∧ Phrase.isSpace c = true := by
  obtain ⟨gap, mid, hne, hgap, heq, _⟩ := h
  cases gap with
  | nil => exact absurd rfl hne
  | cons g gap => exact ⟨g, _, heq, hgap g List.mem_cons_self⟩

theorem breaks {t : List Char} {ts : List (List Char)} {cs rest : List Char}
    (h : Behind (t :: ts) cs rest) : Phrase.Breaks cs := by
  obtain ⟨g, next, heq, hspace⟩ := h.exists_space
  intro c hc
  rw [heq] at hc
  cases hc
  exact hspace

/-- A token and the space before it take two characters at least. -/
theorem length_le {ts : List (List Char)} {cs rest : List Char} (h : Behind ts cs rest)
    (hts : ∀ t ∈ ts, IsToken t) : 2 * ts.length + rest.length ≤ cs.length := by
  induction ts generalizing cs with
  | nil =>
    have heq : cs = rest := h
    rw [heq]
    simp
  | cons t ts ih =>
    obtain ⟨gap, mid, hne, hgap, heq, hmid⟩ := h
    obtain ⟨c, ct, hc, _⟩ := (hts t List.mem_cons_self).solid
    have hrest := ih hmid fun x hx => hts x (List.mem_cons_of_mem t hx)
    have hpos := List.length_pos_iff.mpr hne
    rw [heq, hc]
    simp only [List.length_append, List.length_cons]
    omega

end Behind

end Layout

end Premise
