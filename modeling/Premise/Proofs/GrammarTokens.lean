import Mathlib.Data.List.Basic
import Premise.Proofs.Grammar
import Premise.Proofs.Parentheses

/-!
What the patterns of single tokens come to.

A token is found by the character it begins with, a name or a keyword by its whole word. The grammar
tries words and operators one after the other and looks at the next character behind them; the
readers take a word as a whole and look for the longest operator. Both come to the same
(`matches_word`, `operator?_eq_findSome?`).
-/

namespace Premise

open Phrase (skip isSpace word EndsWord)

namespace Grammar

variable {m : Mode} {p : Pattern} {sat : Char → Bool} {cs rest : List Char}

/-! ### Texts, and one pattern of several -/

theorem matches_text (m : Mode) (t cs : List Char) :
    Matches m (.text t) cs ((cs.dropPrefix? t).map fun rest => ([], rest)) := by
  cases h : cs.dropPrefix? t with
  | none =>
    refine .textFails fun ⟨rest, heq⟩ => ?_
    have hsome := List.dropPrefix?_append_of_beq rest (beq_self_eq_true t)
    rw [heq, h] at hsome
    cases hsome
  | some rest =>
    obtain ⟨t', heq, ht⟩ := List.dropPrefix?_eq_some_iff.mp h
    exact .text (eq_of_beq ht ▸ heq)

theorem matches_choice {α : Type} {f : α → Pattern} {g : α → Option (List Tree × List Char)}
    {xs : List α} (h : ∀ x ∈ xs, Matches m (f x) cs (g x)) :
    Matches m (Pattern.choice (xs.map f)) cs (xs.findSome? g) := by
  induction xs with
  | nil => exact .notFails (.text rfl)
  | cons x xs ih =>
    have hx := h x List.mem_cons_self
    have hxs := ih fun y hy => h y (List.mem_cons_of_mem x hy)
    rw [List.findSome?_cons]
    cases xs with
    | nil =>
      cases hg : g x with
      | none =>
        rw [hg] at hx
        exact hx
      | some found =>
        rw [hg] at hx
        exact hx
    | cons y ys =>
      cases hg : g x with
      | none =>
        rw [hg] at hx
        exact .altElse hx hxs
      | some found =>
        rw [hg] at hx
        exact .alt hx

/-! ### Runs of characters -/

/-- The pattern takes one character that satisfies the condition, and has no nodes. -/
structure Takes (m : Mode) (p : Pattern) (sat : Char → Bool) : Prop where
  one {c : Char} (cs : List Char) (h : sat c = true) : Matches m p (c :: cs) (some ([], cs))
  none {cs : List Char} (h : ∀ c ∈ cs.head?, sat c = false) : Matches m p cs none

theorem takes_char (m : Mode) (sat : Char → Bool) : Takes m (.char sat) sat :=
  ⟨fun _ h => .char h, .charFails⟩

theorem Takes.more (h : Takes m p sat) (hgap : ∀ cs, m.gap cs = cs) (cs : List Char) :
    Matches m (.more p) cs (some ([], cs.dropWhile sat)) := by
  induction cs with
  | nil => exact .moreNone (by rw [hgap]; exact h.none nofun)
  | cons c cs ih =>
    cases hc : sat c with
    | false =>
      rw [List.dropWhile_cons_of_neg (by simp [hc])]
      exact .moreNone (by rw [hgap]; exact h.none (by simpa using hc))
    | true =>
      rw [List.dropWhile_cons_of_pos hc]
      have hone : Matches m p (m.gap (c :: cs)) (some ([], cs)) := by
        rw [hgap]
        exact h.one cs hc
      exact hone.more ih

theorem Takes.many (h : Takes m p sat) (hgap : ∀ cs, m.gap cs = cs) (cs : List Char) :
    Matches m (.many p) cs (some ([], cs.dropWhile sat)) := by
  cases cs with
  | nil => exact .manyNone (h.none nofun)
  | cons c cs =>
    cases hc : sat c with
    | false =>
      rw [List.dropWhile_cons_of_neg (by simp [hc])]
      exact .manyNone (h.none (by simpa using hc))
    | true =>
      rw [List.dropWhile_cons_of_pos hc]
      exact (h.one cs hc).many (h.more hgap cs)

/-! ### Words -/

theorem dropPrefix?_eq_none {t : List Char} (h : ∀ rest, cs = t ++ rest → False) :
    cs.dropPrefix? t = none := by
  cases hdrop : cs.dropPrefix? t with
  | none => rfl
  | some rest =>
    obtain ⟨t', heq, ht⟩ := List.dropPrefix?_eq_some_iff.mp hdrop
    exact (h rest (eq_of_beq ht ▸ heq)).elim

theorem append_word (cs : List Char) : (word cs).1.toList ++ (word cs).2 = cs := by
  rw [word, String.toList_ofList]
  exact List.takeWhile_append_dropWhile

theorem append_of_word {w : String} (h : word cs = (w, rest)) : cs = w.toList ++ rest := by
  rw [← append_word cs, h]

theorem head_dropWhile {c : Char} (h : c ∈ (cs.dropWhile sat).head?) : sat c = false := by
  have hhead := List.head?_dropWhile_not sat cs
  rwa [Option.mem_def.mp h] at hhead

theorem endsWord_word (cs : List Char) : EndsWord (word cs).2 := fun _ => head_dropWhile

theorem any_head?_eq_false : cs.head?.any sat = false ↔ ∀ c ∈ cs.head?, sat c = false := by
  cases cs <;> simp

/-- A word stands where a text begins with it and does not go on with a longer one. -/
theorem filter_dropPrefix? {w : String} (hw : ∀ c ∈ w.toList, Expr.isNameChar c = true)
    (cs : List Char) :
    (cs.dropPrefix? w.toList).filter (fun rest => !rest.head?.any Expr.isNameChar) =
      if (word cs).1 = w then some (word cs).2 else none := by
  by_cases hword : (word cs).1 = w
  · have hdrop : cs.dropPrefix? w.toList = some (word cs).2 := by
      have happend := List.dropPrefix?_append_of_beq (word cs).2 (beq_self_eq_true w.toList)
      rwa [← hword, append_word, hword] at happend
    have hends := any_head?_eq_false.mpr (endsWord_word cs)
    rw [if_pos hword, hdrop, Option.filter_some_pos (by rw [hends]; rfl)]
  · rw [if_neg hword, Option.filter_eq_none_iff]
    intro rest hdrop hends
    obtain ⟨t, heq, ht⟩ := List.dropPrefix?_eq_some_iff.mp hdrop
    rw [eq_of_beq ht] at heq
    rw [Bool.not_eq_true', any_head?_eq_false] at hends
    rw [heq, Phrase.word_append hw hends, String.ofList_toList] at hword
    exact hword rfl

/-- What a text begins with, its first word does, if it is of name characters. -/
theorem isPrefixOf_word {w : String} (hw : ∀ c ∈ w.toList, Expr.isNameChar c = true)
    (cs : List Char) :
    w.toList.isPrefixOf (word cs).1.toList = (cs.dropPrefix? w.toList).isSome := by
  rw [Bool.eq_iff_iff, List.isPrefixOf_iff_prefix, Option.isSome_iff_exists]
  constructor
  · rintro ⟨more, hmore⟩
    refine ⟨more ++ (word cs).2, ?_⟩
    have hdrop := List.dropPrefix?_append_of_beq (more ++ (word cs).2) (beq_self_eq_true w.toList)
    rwa [← List.append_assoc, hmore, append_word] at hdrop
  · rintro ⟨rest, hdrop⟩
    obtain ⟨t, heq, ht⟩ := List.dropPrefix?_eq_some_iff.mp hdrop
    refine ⟨rest.takeWhile Expr.isNameChar, ?_⟩
    rw [heq, eq_of_beq ht, word, String.toList_ofList, List.takeWhile_append_of_pos hw]

/-- Of the words, the first that a text begins with decides. -/
theorem matches_word (hgap : ∀ cs, m.gap cs = cs) {ws : List String}
    (hws : ws.all (fun w => w.toList.all Expr.isNameChar) = true) (cs : List Char) :
    Matches m (Pattern.word ws) cs
      (if ws.find? (fun w => w.toList.isPrefixOf (word cs).1.toList) = some (word cs).1 then
        some ([], (word cs).2) else none) := by
  have hchoice : Matches m (Pattern.choice (ws.map fun w => .text w.toList)) cs
      (ws.findSome? fun w => (cs.dropPrefix? w.toList).map fun rest => ([], rest)) :=
    matches_choice fun w _ => matches_text m w.toList cs
  have hchars {w : String} (hw : w ∈ ws) : ∀ c ∈ w.toList, Expr.isNameChar c = true :=
    List.all_eq_true.mp (List.all_eq_true.mp hws w hw)
  have hnone {w : String} (hw : w ∈ ws)
      (h : w.toList.isPrefixOf (word cs).1.toList = false) : cs.dropPrefix? w.toList = none := by
    rwa [isPrefixOf_word (hchars hw), Option.isSome_eq_false_iff, Option.isNone_iff_eq_none] at h
  cases hfind : ws.find? (fun w => w.toList.isPrefixOf (word cs).1.toList) with
  | none =>
    rw [if_neg nofun]
    rw [List.findSome?_eq_none_iff.mpr fun w hw => ?_] at hchoice
    · exact .seqFails hchoice
    · rw [hnone hw (Bool.eq_false_iff.mpr (List.find?_eq_none.mp hfind w hw)), Option.map_none]
  | some w =>
    obtain ⟨hbegins, front, back, heq, hfront⟩ := List.find?_eq_some_iff_append.mp hfind
    have hw : w ∈ ws := by simp [heq]
    have hfilter := filter_dropPrefix? (hchars hw) cs
    rw [isPrefixOf_word (hchars hw), Option.isSome_iff_exists] at hbegins
    obtain ⟨rest, hrest⟩ := hbegins
    have hfirst : (ws.findSome? fun w => (cs.dropPrefix? w.toList).map fun rest => ([], rest)) =
        some (([] : List Tree), rest) := by
      rw [heq, List.findSome?_append, List.findSome?_eq_none_iff.mpr, Option.none_or,
        List.findSome?_cons, hrest]
      · rfl
      · intro v hv
        rw [hnone (by simp [heq, hv]) (by simpa using hfront v hv), Option.map_none]
    rw [hfirst] at hchoice
    rw [hrest] at hfilter
    by_cases hword : (word cs).1 = w
    · rw [if_pos hword, Option.filter_eq_some_iff] at hfilter
      obtain ⟨hrest, hends⟩ := hfilter
      cases hrest
      rw [hword, if_pos rfl]
      have hends : Matches m (.not Pattern.nameChar) (m.gap (word cs).2)
          (some ([], (word cs).2)) := by
        rw [hgap]
        exact .not (.charFails (endsWord_word cs))
      exact hchoice.seq hends
    · rw [if_neg hword, Option.filter_eq_none_iff] at hfilter
      have hmore := hfilter rest rfl
      rw [if_neg fun h => hword (Option.some.inj h).symm]
      refine hchoice.seqEnds ?_
      rw [hgap]
      cases rest with
      | nil => simp at hmore
      | cons c rest => exact .notFails (.char (by simpa using hmore))

/-- The word `intersect` begins with a shorter keyword, which is tried first. -/
theorem find?_keyword (w : String) :
    ["in", "union", "intersect", "diff", "true", "false"].find?
      (fun v => v.toList.isPrefixOf w.toList) = some w ↔ Phrase.reserved.contains w = true := by
  constructor
  · intro h
    have hmem := List.mem_of_find?_eq_some h
    simp only [List.mem_cons, List.not_mem_nil, or_false] at hmem
    rcases hmem with rfl | rfl | rfl | rfl | rfl | rfl
    case inr.inr.inl => exact absurd h (by decide)
    all_goals decide
  · intro h
    simp only [List.contains_iff_mem, Phrase.reserved, List.mem_cons, List.not_mem_nil,
      or_false] at h
    rcases h with rfl | rfl | rfl | rfl | rfl <;> decide

theorem matches_keyword (hgap : ∀ cs, m.gap cs = cs) (cs : List Char) :
    Matches m Pattern.keyword cs
      (if Phrase.reserved.contains (word cs).1 then some ([], (word cs).2) else none) := by
  have hword : Matches m Pattern.keyword cs _ := matches_word hgap (by decide) cs
  simp only [find?_keyword] at hword
  exact hword

theorem find?_boolean (w : String) :
    ["true", "false"].find? (fun v => v.toList.isPrefixOf w.toList) = some w ↔
      w = "true" ∨ w = "false" := by
  constructor
  · intro h
    simpa using List.mem_of_find?_eq_some h
  · rintro (rfl | rfl) <;> decide

/-- A token is a node with its text and nothing inside. -/
theorem matches_token {n : Nonterminal} (hmode : n.mode .spaced = .atomic) {token : List Char}
    (h : Matches .atomic n.pattern cs (some ([], rest))) (hcs : cs = token ++ rest) :
    Matches .spaced (.rule n) cs (some ([.node n token []], rest)) :=
  .rule (hmode ▸ h) hcs

theorem matches_boolean (b : Bool) (hword : word cs = (if b then "true" else "false", rest)) :
    Matches .spaced (.rule .boolean) cs
      (some ([.node .boolean (if b then "true" else "false").toList []], rest)) := by
  have hpattern : Matches .atomic Nonterminal.boolean.pattern cs _ :=
    matches_word (fun _ => rfl) (by decide) cs
  simp only [find?_boolean, hword] at hpattern
  rw [if_pos (by cases b <;> simp)] at hpattern
  exact matches_token rfl hpattern (append_of_word hword)

theorem not_matches_boolean (h : (word cs).1 ≠ "true" ∧ (word cs).1 ≠ "false") :
    Matches .spaced (.rule .boolean) cs none := by
  have hpattern : Matches .atomic Nonterminal.boolean.pattern cs _ :=
    matches_word (fun _ => rfl) (by decide) cs
  simp only [find?_boolean, not_or.mpr h, if_false] at hpattern
  exact .ruleFails hpattern

theorem matches_identifier {c : Char} (hstart : Expr.isNameStart c = true) {name : String}
    (hword : word (c :: cs) = (name, rest)) (hname : Phrase.reserved.contains name = false) :
    Matches .spaced (.rule .identifier) (c :: cs)
      (some ([.node .identifier name.toList []], rest)) := by
  have hkeyword : Matches .atomic Pattern.keyword (c :: cs) _ := matches_keyword (fun _ => rfl) _
  rw [hword, hname, if_neg Bool.false_ne_true] at hkeyword
  have hmany := (takes_char .atomic Expr.isNameChar).many (fun _ => rfl) cs
  have hchar : Matches .atomic (.char Expr.isNameStart) (c :: cs) (some ([], cs)) := .char hstart
  have hpattern := (Matches.not hkeyword).seq (hchar.seq hmany)
  have hrest : (word (c :: cs)).2 = cs.dropWhile Expr.isNameChar :=
    List.dropWhile_cons_of_pos (Expr.isNameChar_of_isNameStart hstart)
  rw [← hrest, hword] at hpattern
  exact matches_token rfl hpattern (append_of_word hword)

theorem not_matches_identifier (h : ∀ c ∈ cs.head?,
      Expr.isNameStart c = false ∨ Phrase.reserved.contains (word cs).1 = true) :
    Matches .spaced (.rule .identifier) cs none := by
  have hkeyword : Matches .atomic Pattern.keyword cs _ := matches_keyword (fun _ => rfl) _
  refine .ruleFails ?_
  cases hname : Phrase.reserved.contains (word cs).1 with
  | true =>
    rw [hname, if_pos rfl] at hkeyword
    exact .seqFails (.notFails hkeyword)
  | false =>
    rw [hname, if_neg Bool.false_ne_true] at hkeyword
    refine .seqEnds (.not hkeyword) (.seqFails (.charFails fun c hc => ?_))
    exact (h c hc).resolve_right (by rw [hname]; exact Bool.false_ne_true)

/-! ### Numbers and texts -/

theorem matches_digits {c : Char} (h : c.isDigit = true) (cs : List Char) :
    Matches .atomic Pattern.digits (c :: cs) (some ([], cs.dropWhile Char.isDigit)) := by
  have hmany := (takes_char .atomic Char.isDigit).many (fun _ => rfl) cs
  exact (Matches.char h).seq hmany

theorem not_matches_digits (h : ∀ c ∈ cs.head?, c.isDigit = false) :
    Matches m Pattern.digits cs none :=
  .seqFails (.charFails h)

theorem not_matches_number (h : ∀ c ∈ cs.head?, c.isDigit = false) :
    Matches .spaced (.rule .number) cs none :=
  .ruleFails (.seqFails (not_matches_digits h))

theorem matches_number {c : Char} (hdigit : c.isDigit = true) (cs : List Char) :
    ∃ whole fraction rest, Phrase.readNumber (c :: cs) = (.number whole fraction, rest) ∧
      Layout.IsDecimal whole fraction ∧ Matches .spaced (.rule .number) (c :: cs)
        (some ([.node .number (Layout.numberToken whole fraction) []], rest)) := by
  have hdigits := matches_digits hdigit cs
  have hrest : cs.dropWhile Char.isDigit = (c :: cs).dropWhile Char.isDigit :=
    (List.dropWhile_cons_of_pos hdigit).symm
  have hwhole : (c :: cs).takeWhile Char.isDigit ≠ [] := by
    rw [List.takeWhile_cons_of_pos hdigit]
    exact List.cons_ne_nil _ _
  have happend (ds : List Char) : ds.takeWhile Char.isDigit ++ ds.dropWhile Char.isDigit = ds :=
    List.takeWhile_append_dropWhile
  have hall (ds : List Char) : ∀ d ∈ ds.takeWhile Char.isDigit, d.isDigit = true :=
    List.all_eq_true.mp List.all_takeWhile
  rw [hrest] at hdigits
  -- without digits behind a point there is no fraction
  have hplain (h : Matches .atomic (.seq (.text ['.']) Pattern.digits)
      ((c :: cs).dropWhile Char.isDigit) none) :
      Matches .spaced (.rule .number) (c :: cs)
        (some ([.node .number (Layout.numberToken ((c :: cs).takeWhile Char.isDigit) []) []],
          (c :: cs).dropWhile Char.isDigit)) :=
    matches_token rfl (hdigits.seq (.optionalNone h)) (happend _).symm
  unfold Phrase.readNumber
  simp only
  split
  · rename_i d ds heq
    have htext := happend (c :: cs)
    rw [heq] at hplain hdigits htext ⊢
    split
    · rename_i hd
      have hfraction := matches_digits hd ds
      have hsome : ((d :: ds).takeWhile Char.isDigit).isEmpty = false := by
        rw [List.takeWhile_cons_of_pos hd]
        rfl
      have hpoint : Matches .atomic (.seq (.text ['.']) Pattern.digits) ('.' :: d :: ds)
          (some ([], (d :: ds).dropWhile Char.isDigit)) := by
        rw [List.dropWhile_cons_of_pos hd]
        exact Matches.seq (.text rfl) hfraction
      refine ⟨_, _, _, rfl, ⟨hwhole, hall _, hall _⟩,
        matches_token rfl (hdigits.seq (.optional hpoint)) ?_⟩
      unfold Layout.numberToken
      rw [List.tail_cons, hsome, if_neg Bool.false_ne_true, List.append_assoc, List.cons_append,
        happend, htext]
    · rename_i hd
      have hnone : ∀ x ∈ (d :: ds).head?, x.isDigit = false := by simpa using hd
      exact ⟨_, _, _, rfl, ⟨hwhole, hall _, nofun⟩,
        hplain (.seqEnds (.text rfl) (not_matches_digits hnone))⟩
  · rename_i hpoint
    refine ⟨_, _, _, rfl, ⟨hwhole, hall _, nofun⟩, hplain ?_⟩
    cases hcs : (c :: cs).dropWhile Char.isDigit with
    | nil => exact .seqFails (.textFails (by simp))
    | cons d ds =>
      by_cases hd : d = '.'
      · cases ds with
        | nil => exact .seqEnds (.text (by rw [hd]; rfl)) (not_matches_digits (by simp [Mode.gap]))
        | cons d' ds => exact (hpoint d' ds (by rw [hcs, hd])).elim
      · exact .seqFails (.textFails fun h => hd (List.cons_prefix_cons.mp h).1.symm)

/-- What stands before a closing quote. -/
theorem takes_unquoted (q : Char) :
    Takes .atomic (.seq (.not (.text [q])) (.char fun _ => true)) (· != q) where
  one {c} cs h := by
    have hclosing : ¬ [q] <+: c :: cs := fun hbegins => by
      rw [(List.cons_prefix_cons.mp hbegins).1] at h
      simp at h
    exact (Matches.not (.textFails hclosing)).seq (.char rfl)
  none {cs} h := by
    cases cs with
    | nil => exact (Matches.not (.textFails (by simp))).seqEnds (.charFails nofun)
    | cons c cs =>
      have hc : c = q := by simpa using h
      exact .seqFails (.notFails (.text (by rw [hc]; rfl)))

theorem matches_string {q : Char} (hquote : Expr.isQuote q = true)
    {r : Option (List Tree × List Char)} (h : Matches .unspaced (Pattern.quoted q) (q :: cs) r) :
    Matches .unspaced Nonterminal.string.pattern (q :: cs) r := by
  have hother {q' : Char} (hne : q' ≠ q) : Matches .unspaced (Pattern.quoted q') (q :: cs) none :=
    .seqFails (.textFails fun hbegins => hne (List.cons_prefix_cons.mp hbegins).1)
  rcases Expr.eq_of_isQuote hquote with rfl | rfl
  · cases r with
    | none => exact .altElse h (hother (by decide))
    | some found => exact .alt h
  · exact .altElse (hother (by decide)) h

theorem matches_quoted {q : Char} (hquote : Expr.isQuote q = true) (cs : List Char) :
    match Phrase.readQuoted? q cs with
    | none => Matches .spaced (.rule .string) (q :: cs) none
    | some (p, rest) => ∃ content, p = .text (String.ofList content) ∧ q ∉ content ∧
        Matches .spaced (.rule .string) (q :: cs)
          (some ([.node .string (q :: content ++ [q]) [.node (.content q) content []]], rest)) := by
  have hopening : Matches .unspaced (.text [q]) (q :: cs) (some ([], cs)) := .text rfl
  have hcontent : Matches .unspaced (.rule (.content q)) cs
      (some ([.node (.content q) (cs.takeWhile (· != q)) []], cs.dropWhile (· != q))) :=
    .rule ((takes_unquoted q).many (fun _ => rfl) cs) List.takeWhile_append_dropWhile.symm
  have htext : cs.takeWhile (· != q) ++ cs.dropWhile (· != q) = cs :=
    List.takeWhile_append_dropWhile
  unfold Phrase.readQuoted?
  split
  · rename_i hread
    split at hread
    · rename_i hnone
      rw [hnone] at hcontent
      exact .ruleFails (matches_string hquote
        (hopening.seqEnds (hcontent.seqEnds (.textFails (by simp [Mode.gap])))))
    · cases hread
  · rename_i hread
    split at hread
    · cases hread
    · rename_i c rest hsome
      cases hread
      have hclosing : (c != q) = false :=
        @head_dropWhile (· != q) cs c (by rw [hsome]; rfl)
      rw [hsome, show c = q by simpa using hclosing] at hcontent htext
      refine ⟨_, rfl, fun hmem => ?_, .rule (matches_string hquote
        (hopening.seq (hcontent.seq (.text rfl)))) ?_⟩
      · simpa using List.all_eq_true.mp List.all_takeWhile q hmem
      · rw [List.append_assoc, List.cons_append, List.singleton_append, htext]

theorem not_matches_string (h : ∀ c ∈ cs.head?, Expr.isQuote c = false) :
    Matches .spaced (.rule .string) cs none := by
  have hquoted {q : Char} (hq : Expr.isQuote q = true) :
      Matches .unspaced (Pattern.quoted q) cs none := by
    refine .seqFails (.textFails ?_)
    rintro ⟨rest, rfl⟩
    rw [h q rfl] at hq
    cases hq
  exact .ruleFails (.altElse (hquoted rfl) (hquoted rfl))

/-! ### Operators -/

end Grammar

namespace BinaryOperator

/-- The text behind the operator, where a text begins with it. -/
def behind? (op : BinaryOperator) (cs : List Char) : Option (List Char) :=
  match Grammar.Pattern.barred op with
  | none => cs.dropPrefix? op.symbol.toList
  | some sat => (cs.dropPrefix? op.symbol.toList).filter fun rest => !rest.head?.any sat

theorem append_behind? {op : BinaryOperator} {cs rest : List Char} (h : op.behind? cs = some rest) :
    cs = op.symbol.toList ++ rest := by
  have hdrop : cs.dropPrefix? op.symbol.toList = some rest := by
    unfold behind? at h
    split at h
    · exact h
    · exact (Option.filter_eq_some_iff.mp h).1
  obtain ⟨t, heq, ht⟩ := List.dropPrefix?_eq_some_iff.mp hdrop
  rw [heq, eq_of_beq ht]

end BinaryOperator

namespace Grammar

theorem matches_barred (t : List Char) (sat : Char → Bool) (cs : List Char) :
    Matches .atomic (.seq (.text t) (.not (.char sat))) cs
      (((cs.dropPrefix? t).filter fun rest => !rest.head?.any sat).map fun rest => ([], rest)) := by
  have htext := matches_text .atomic t cs
  cases hdrop : cs.dropPrefix? t with
  | none =>
    rw [hdrop] at htext
    exact .seqFails htext
  | some rest =>
    rw [hdrop] at htext
    cases hbar : rest.head?.any sat with
    | true =>
      rw [Option.filter_some_neg (by simp [hbar])]
      cases rest with
      | nil => simp at hbar
      | cons c rest => exact htext.seqEnds (.notFails (.char (by simpa using hbar)))
    | false =>
      rw [Option.filter_some_pos (by simp [hbar])]
      exact htext.seq (.not (.charFails (any_head?_eq_false.mp hbar)))

/-- What an operator comes to, by the text behind it. -/
theorem matches_operator (op : BinaryOperator) (cs : List Char) :
    Matches .spaced (.rule (.operator op)) cs
      ((op.behind? cs).map fun rest => ([.node (.operator op) op.symbol.toList []], rest)) := by
  have hpattern : Matches (Nonterminal.mode .spaced (.operator op))
      (Nonterminal.operator op).pattern cs ((op.behind? cs).map fun rest => ([], rest)) := by
    rw [Nonterminal.mode_operator, Nonterminal.pattern_operator]
    unfold BinaryOperator.behind?
    cases Pattern.barred op with
    | none => exact matches_text .spaced op.symbol.toList cs
    | some sat => exact matches_barred op.symbol.toList sat cs
  cases hbehind : op.behind? cs with
  | none =>
    rw [hbehind] at hpattern
    exact .ruleFails hpattern
  | some rest =>
    rw [hbehind] at hpattern
    exact .rule hpattern (BinaryOperator.append_behind? hbehind)

theorem behind?_word {op : BinaryOperator} (h : Pattern.barred op = some Expr.isNameChar)
    (hchars : op.symbol.toList.all Expr.isNameChar = true) (cs : List Char) :
    op.behind? cs = if (word cs).1 = op.symbol then some (word cs).2 else none := by
  rw [← filter_dropPrefix? (List.all_eq_true.mp hchars)]
  unfold BinaryOperator.behind?
  rw [h]

theorem any_head?_of_ne {c : Char} (h : ∀ rest, cs = c :: rest → False) :
    cs.head?.any (· == c) = false := by
  rw [any_head?_eq_false]
  cases cs with
  | nil => nofun
  | cons d cs =>
    rintro _ ⟨⟩
    exact beq_false_of_ne fun heq => h cs (congrArg (· :: cs) heq)

theorem behind?_eq_none (op : BinaryOperator)
    (h : ∀ rest, cs = op.symbol.toList ++ rest → False) : op.behind? cs = none := by
  cases hbehind : op.behind? cs with
  | none => rfl
  | some rest => exact (h rest (BinaryOperator.append_behind? hbehind)).elim

theorem logicalOperator?_eq_findSome? (cs : List Char) :
    Phrase.logicalOperator? cs = Precedence.logical.operators.findSome? fun op =>
      (op.behind? cs).map fun rest => (op, rest) := by
  fun_cases Phrase.logicalOperator? cs with
  | case1 | case2 | case3 | case4 =>
    simp [Precedence.operators, List.findSome?, BinaryOperator.behind?, Pattern.barred,
      BinaryOperator.symbol, Connective.symbol, List.dropPrefix?]
  | case5 cs hiff hand hor himplies =>
    simp only [Precedence.operators, List.findSome?, behind?_eq_none (.logical .iff) hiff,
      behind?_eq_none (.logical .and) hand, behind?_eq_none (.logical .or) hor,
      behind?_eq_none (.logical .implies) himplies, Option.map_none]

theorem comparisonOperator?_eq_findSome? (cs : List Char) :
    Phrase.comparisonOperator? cs = Precedence.comparison.operators.findSome? fun op =>
      (op.behind? cs).map fun rest => (op, rest) := by
  have hmembership : BinaryOperator.membership.behind? cs =
      if (word cs).1 = "in" then some (word cs).2 else none := behind?_word rfl (by decide) cs
  fun_cases Phrase.comparisonOperator? cs with
  | case1 | case2 | case3 =>
    simp [Precedence.operators, List.findSome?, BinaryOperator.behind?, Pattern.barred,
      BinaryOperator.symbol, Comparison.symbol, List.dropPrefix?]
  | case4 =>
    simp [Precedence.operators, List.findSome?, BinaryOperator.behind?, Pattern.barred,
      BinaryOperator.symbol, Comparison.symbol, List.dropPrefix?, Option.filter_some]
  | case5 rest hiff =>
    simp [Precedence.operators, List.findSome?, BinaryOperator.behind?, Pattern.barred,
      BinaryOperator.symbol, Comparison.symbol, List.dropPrefix?, Option.filter_some,
      any_head?_of_ne hiff]
  | case6 rest hequal =>
    simp [Precedence.operators, List.findSome?, BinaryOperator.behind?, Pattern.barred,
      BinaryOperator.symbol, Comparison.symbol, List.dropPrefix?,
      dropPrefix?_eq_none (t := ['=']) hequal]
  | case7 rest hiff hequal =>
    simp [Precedence.operators, List.findSome?, BinaryOperator.behind?, Pattern.barred,
      BinaryOperator.symbol, Comparison.symbol, List.dropPrefix?, Option.filter_some,
      dropPrefix?_eq_none (t := ['=']) hequal, any_head?_of_ne hequal]
  | case8 cs hequal hne hge hiff hle hgt hlt rest hword =>
    simp only [Precedence.operators, List.findSome?, hmembership, hword, if_true,
      behind?_eq_none (.comparison .equal) hequal,
      behind?_eq_none (.comparison .notEqual) hne,
      behind?_eq_none (.comparison .greaterOrEqual) hge,
      behind?_eq_none (.comparison .lessOrEqual) hle,
      behind?_eq_none (.comparison .greater) hgt,
      behind?_eq_none (.comparison .less) hlt, Option.map_none, Option.map_some]
  | case9 cs hequal hne hge hiff hle hgt hlt hword =>
    have hother : (word cs).1 ≠ "in" := fun h => hword _ (Prod.ext h rfl)
    simp only [Precedence.operators, List.findSome?, hmembership, hother, if_false,
      behind?_eq_none (.comparison .equal) hequal,
      behind?_eq_none (.comparison .notEqual) hne,
      behind?_eq_none (.comparison .greaterOrEqual) hge,
      behind?_eq_none (.comparison .lessOrEqual) hle,
      behind?_eq_none (.comparison .greater) hgt,
      behind?_eq_none (.comparison .less) hlt, Option.map_none]

theorem additiveOperator?_eq_findSome? (cs : List Char) :
    Phrase.additiveOperator? cs = Precedence.additive.operators.findSome? fun op =>
      (op.behind? cs).map fun rest => (op, rest) := by
  have hsets (op : SetOperator) : (BinaryOperator.sets op).behind? cs =
      if (word cs).1 = op.symbol then some (word cs).2 else none :=
    behind?_word rfl (by cases op <;> decide) cs
  fun_cases Phrase.additiveOperator? cs with
  | case1 | case2 =>
    simp [Precedence.operators, List.findSome?, BinaryOperator.behind?, Pattern.barred,
      BinaryOperator.symbol, Arithmetic.symbol, List.dropPrefix?]
  | case3 cs hplus hminus rest hword | case4 cs hplus hminus rest hword
  | case5 cs hplus hminus rest hword =>
    simp [Precedence.operators, List.findSome?, hsets, hword, SetOperator.symbol,
      behind?_eq_none (.arithmetic .add) hplus,
      behind?_eq_none (.arithmetic .subtract) hminus]
  | case6 cs hplus hminus hunion hintersect hdiff =>
    have hunion : (word cs).1 ≠ "union" := fun h => hunion _ (Prod.ext h rfl)
    have hintersect : (word cs).1 ≠ "intersect" := fun h => hintersect _ (Prod.ext h rfl)
    have hdiff : (word cs).1 ≠ "diff" := fun h => hdiff _ (Prod.ext h rfl)
    simp [Precedence.operators, List.findSome?, hsets, hunion, hintersect, hdiff,
      SetOperator.symbol, behind?_eq_none (.arithmetic .add) hplus,
      behind?_eq_none (.arithmetic .subtract) hminus]

theorem multiplicativeOperator?_eq_findSome? (cs : List Char) :
    Phrase.multiplicativeOperator? cs = Precedence.multiplicative.operators.findSome? fun op =>
      (op.behind? cs).map fun rest => (op, rest) := by
  fun_cases Phrase.multiplicativeOperator? cs with
  | case1 | case2 | case3 =>
    simp [Precedence.operators, List.findSome?, BinaryOperator.behind?, Pattern.barred,
      BinaryOperator.symbol, Arithmetic.symbol, List.dropPrefix?]
  | case4 cs htimes hover hmodulo =>
    simp only [Precedence.operators, List.findSome?,
      behind?_eq_none (.arithmetic .multiply) htimes,
      behind?_eq_none (.arithmetic .divide) hover,
      behind?_eq_none (.arithmetic .modulo) hmodulo, Option.map_none]

/-- The operators of a level are tried in their order. -/
theorem operator?_eq_findSome? (level : Precedence) (cs : List Char) :
    Phrase.operator? level cs =
      level.operators.findSome? fun op => (op.behind? cs).map fun rest => (op, rest) := by
  cases level with
  | logical => exact logicalOperator?_eq_findSome? cs
  | comparison => exact comparisonOperator?_eq_findSome? cs
  | additive => exact additiveOperator?_eq_findSome? cs
  | multiplicative => exact multiplicativeOperator?_eq_findSome? cs

/-- The node of an operator. -/
def operatorTree (op : BinaryOperator) : Tree := .node (.operator op) op.symbol.toList []

theorem matches_operators (level : Precedence) (cs : List Char) :
    Matches .spaced (Pattern.operators level) cs
      ((Phrase.operator? level cs).map fun found => ([operatorTree found.1], found.2)) := by
  have hchoice : Matches .spaced (Pattern.operators level) cs _ :=
    matches_choice fun op _ => matches_operator op cs
  rw [operator?_eq_findSome?]
  convert hchoice
  generalize level.operators = ops
  induction ops with
  | nil => rfl
  | cons op ops ih =>
    rw [List.findSome?_cons, List.findSome?_cons]
    cases op.behind? cs with
    | none => exact ih
    | some rest => rfl

theorem mem_operators {level : Precedence} {op : BinaryOperator}
    (h : Phrase.operator? level cs = some (op, rest)) : op ∈ level.operators := by
  rw [operator?_eq_findSome?] at h
  obtain ⟨op', hmem, hop⟩ := List.exists_of_findSome?_eq_some h
  obtain ⟨rest', -, heq⟩ := Option.map_eq_some_iff.mp hop
  cases heq
  exact hmem

theorem append_operator {level : Precedence} {op : BinaryOperator}
    (h : Phrase.operator? level cs = some (op, rest)) : cs = op.symbol.toList ++ rest := by
  rw [operator?_eq_findSome?] at h
  obtain ⟨op', -, hop⟩ := List.exists_of_findSome?_eq_some h
  obtain ⟨rest', hbehind, heq⟩ := Option.map_eq_some_iff.mp hop
  cases heq
  exact BinaryOperator.append_behind? hbehind

/-! ### Operators of two levels -/

theorem start_of_word (h : (word cs).1 ≠ "") :
    ∃ c ds, cs = c :: ds ∧ Expr.isNameChar c = true := by
  cases cs with
  | nil => exact absurd rfl h
  | cons c ds =>
    refine ⟨c, ds, rfl, ?_⟩
    by_contra hc
    exact h (by rw [word, List.takeWhile_cons_of_neg hc])

/-- Name characters begin no operator of symbols. -/
theorem ne_of_isNameChar {c d : Char} (hc : Expr.isNameChar c = true)
    (hd : Expr.isNameChar d = false) {cs ds : List Char} (h : c :: cs = d :: ds) : False := by
  rw [(List.cons.inj h).1, hd] at hc
  cases hc

theorem logicalOperator?_word (h : (word cs).1 ≠ "") : Phrase.logicalOperator? cs = none := by
  obtain ⟨c, ds, rfl, hc⟩ := start_of_word h
  exact Phrase.logicalOperator?.eq_5 _ (fun _ => ne_of_isNameChar hc (by decide))
    (fun _ => ne_of_isNameChar hc (by decide)) (fun _ => ne_of_isNameChar hc (by decide))
    (fun _ => ne_of_isNameChar hc (by decide))

theorem comparisonOperator?_word (h : (word cs).1 ≠ "") (hin : (word cs).1 ≠ "in") :
    Phrase.comparisonOperator? cs = none := by
  obtain ⟨c, ds, rfl, hc⟩ := start_of_word h
  rw [Phrase.comparisonOperator?.eq_8 _ (fun _ => ne_of_isNameChar hc (by decide))
    (fun _ => ne_of_isNameChar hc (by decide)) (fun _ => ne_of_isNameChar hc (by decide))
    (fun _ => ne_of_isNameChar hc (by decide)) (fun _ => ne_of_isNameChar hc (by decide))
    (fun _ => ne_of_isNameChar hc (by decide)) (fun _ => ne_of_isNameChar hc (by decide))]
  split
  · rename_i hword
    exact absurd (congrArg Prod.fst hword) hin
  · rfl

theorem logicalOperator?_of_comparison {found : BinaryOperator × List Char}
    (h : Phrase.comparisonOperator? cs = some found) : Phrase.logicalOperator? cs = none := by
  revert h
  fun_cases Phrase.comparisonOperator? cs with
  | case1 | case2 | case3 | case6 => exact fun _ => rfl
  | case4 | case9 =>
    intro h
    cases h
  | case5 rest hiff =>
    intro _
    refine Phrase.logicalOperator?.eq_5 _ (fun more heq => hiff more ?_) ?_ ?_ ?_
    · exact (List.cons.inj (List.cons.inj heq).2).2
    all_goals
      intro _ heq
      cases heq
  | case7 rest hiff =>
    intro _
    refine Phrase.logicalOperator?.eq_5 _ (fun more heq => hiff more ?_) ?_ ?_ ?_
    · exact (List.cons.inj heq).2
    all_goals
      intro _ heq
      cases heq
  | case8 cs _ _ _ _ _ _ _ rest hword =>
    exact fun _ => logicalOperator?_word (by simp [hword])

theorem operator?_of_additive {found : BinaryOperator × List Char}
    (h : Phrase.additiveOperator? cs = some found) :
    Phrase.logicalOperator? cs = none ∧ Phrase.comparisonOperator? cs = none := by
  revert h
  fun_cases Phrase.additiveOperator? cs with
  | case1 | case2 => exact fun _ => ⟨rfl, rfl⟩
  | case3 cs _ _ rest hword | case4 cs _ _ rest hword | case5 cs _ _ rest hword =>
    have hsome : (word cs).1 ≠ "" := by simp [hword]
    exact fun _ => ⟨logicalOperator?_word hsome, comparisonOperator?_word hsome (by simp [hword])⟩
  | case6 =>
    intro h
    cases h

theorem operator?_of_multiplicative {found : BinaryOperator × List Char}
    (h : Phrase.multiplicativeOperator? cs = some found) : Phrase.logicalOperator? cs = none ∧
      Phrase.comparisonOperator? cs = none ∧ Phrase.additiveOperator? cs = none := by
  revert h
  fun_cases Phrase.multiplicativeOperator? cs with
  | case1 | case2 | case3 => exact fun _ => ⟨rfl, rfl, rfl⟩
  | case4 =>
    intro h
    cases h

/-- What begins with an operator begins with none of a looser level. -/
theorem operator?_looser {level other : Precedence} (hle : Tier.chain other ≤ .chain level)
    (hne : other ≠ level) {found : BinaryOperator × List Char}
    (h : Phrase.operator? level cs = some found) : Phrase.operator? other cs = none := by
  cases level with
  | logical => exact absurd (by revert hle; cases other <;> decide) hne
  | comparison =>
    cases other with
    | logical => exact logicalOperator?_of_comparison h
    | comparison => exact absurd rfl hne
    | additive | multiplicative => exact absurd hle (by decide)
  | additive =>
    obtain ⟨hlogical, hcomparison⟩ := operator?_of_additive h
    cases other with
    | logical => exact hlogical
    | comparison => exact hcomparison
    | additive => exact absurd rfl hne
    | multiplicative => exact absurd hle (by decide)
  | multiplicative =>
    obtain ⟨hlogical, hcomparison, hadditive⟩ := operator?_of_multiplicative h
    cases other with
    | logical => exact hlogical
    | comparison => exact hcomparison
    | additive => exact hadditive
    | multiplicative => exact absurd rfl hne

/-! ### Signs -/

/-- The node of a sign. -/
def signTree (op : UnaryOperator) : Tree := .node (.sign op) op.symbol.toList []

theorem matches_sign (op : UnaryOperator) (cs : List Char) :
    Matches .spaced Pattern.signs (op.symbol.toList ++ cs) (some ([signTree op], cs)) := by
  have hsign : Matches .spaced (.rule (.sign op)) (op.symbol.toList ++ cs)
      (some ([signTree op], cs)) := .rule (.text rfl) rfl
  cases op with
  | not => exact .alt hsign
  | negative =>
    exact .altElse (.ruleFails (.textFails fun h =>
      absurd (List.cons_prefix_cons.mp h).1 (by decide))) hsign

theorem not_matches_sign (h : ∀ c ∈ cs.head?, c ≠ '!' ∧ c ≠ '-') :
    Matches .spaced Pattern.signs cs none := by
  have hfails {d : Char} (hd : ∀ c ∈ cs.head?, c ≠ d) : ¬ [d] <+: cs := by
    rintro ⟨rest, rfl⟩
    exact hd d rfl rfl
  exact .altElse (.ruleFails (.textFails (hfails fun c hc => (h c hc).1)))
    (.ruleFails (.textFails (hfails fun c hc => (h c hc).2)))

theorem signs_symbol (op : UnaryOperator) (cs : List Char) :
    Phrase.signs (op.symbol.toList ++ cs) = (op :: (Phrase.signs cs).1, (Phrase.signs cs).2) := by
  cases op <;> rfl

theorem signs_of_head (hspace : skip cs = cs) (h : ∀ c ∈ cs.head?, c ≠ '!' ∧ c ≠ '-') :
    Phrase.signs cs = ([], cs) := by
  cases cs with
  | nil => rfl
  | cons c cs =>
    obtain ⟨hnot, hnegative⟩ := h c rfl
    have hc : isSpace c = false := by
      refine @head_dropWhile isSpace (c :: cs) c ?_
      rw [show (c :: cs).dropWhile isSpace = c :: cs from hspace]
      rfl
    simp [Phrase.signs, hnot, hnegative, hc]

/-- A text that begins with no sign, or the sign. -/
theorem sign_or_not (cs : List Char) :
    (∃ op : UnaryOperator, ∃ rest, cs = op.symbol.toList ++ rest) ∨
      ∀ c ∈ cs.head?, c ≠ '!' ∧ c ≠ '-' := by
  cases cs with
  | nil => exact .inr nofun
  | cons c cs =>
    by_cases hnot : c = '!'
    · exact .inl ⟨.not, cs, congrArg (· :: cs) hnot⟩
    by_cases hnegative : c = '-'
    · exact .inl ⟨.negative, cs, congrArg (· :: cs) hnegative⟩
    · exact .inr fun _ hd => Option.some.inj hd ▸ ⟨hnot, hnegative⟩

theorem skip_skip (cs : List Char) : skip (skip cs) = skip cs :=
  Premise.Text.dropWhile_of_head fun _ => head_dropWhile

theorem length_skip_le (cs : List Char) : (skip cs).length ≤ cs.length :=
  (List.dropWhile_suffix isSpace).length_le

/-- Spaces may stand between signs, and the text behind them goes on where no sign follows. -/
theorem matches_more_signs (cs : List Char) :
    ∃ rest, Matches .spaced (.more Pattern.signs) cs
      (some ((Phrase.signs cs).1.map signTree, rest)) ∧ skip rest = (Phrase.signs cs).2 := by
  induction hn : cs.length using Nat.strongRecOn generalizing cs with
  | ind n ih =>
    rw [← Phrase.signs_skip]
    rcases sign_or_not (skip cs) with ⟨op, next, heq⟩ | hnone
    · have hshorter : next.length < n := by
        have hle := length_skip_le cs
        have hpos : 0 < op.symbol.toList.length := by cases op <;> decide
        rw [heq, List.length_append] at hle
        omega
      obtain ⟨rest, hmore, hrest⟩ := ih next.length hshorter next rfl
      have hsign := matches_sign op next
      rw [heq, signs_symbol]
      rw [← heq] at hsign
      exact ⟨rest, hsign.more hmore, hrest⟩
    · rw [signs_of_head (skip_skip cs) hnone]
      exact ⟨cs, .moreNone (not_matches_sign hnone), rfl⟩

theorem matches_many_signs {cs : List Char} (hcs : skip cs = cs) :
    ∃ rest, Matches .spaced (.many Pattern.signs) cs
      (some ((Phrase.signs cs).1.map signTree, rest)) ∧ skip rest = (Phrase.signs cs).2 := by
  rcases sign_or_not cs with ⟨op, next, rfl⟩ | hnone
  · obtain ⟨rest, hmore, hrest⟩ := matches_more_signs next
    rw [signs_symbol]
    exact ⟨rest, (matches_sign op next).many hmore, hrest⟩
  · rw [signs_of_head hcs hnone]
    exact ⟨cs, .manyNone (not_matches_sign hnone), hcs⟩

/-! ### What is not there -/

theorem matches_mark (m : Mode) (c : Char) (cs : List Char) :
    Matches m (.text [c]) (c :: cs) (some ([], cs)) := .text rfl

theorem not_matches_mark {c : Char} (h : ∀ rest, cs ≠ c :: rest) : Matches m (.text [c]) cs none :=
  .textFails fun ⟨rest, heq⟩ => h rest heq.symm

theorem not_matches_literal (hquote : ∀ c ∈ cs.head?, Expr.isQuote c = false)
    (hdigit : ∀ c ∈ cs.head?, c.isDigit = false)
    (hword : (word cs).1 ≠ "true" ∧ (word cs).1 ≠ "false") :
    Matches .spaced Pattern.literal cs none :=
  .altElse (not_matches_number hdigit)
    (.altElse (not_matches_string hquote) (not_matches_boolean hword))

end Grammar

end Premise
