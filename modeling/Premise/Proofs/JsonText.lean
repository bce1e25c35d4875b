import Premise.Json.Printer
import Premise.Json.Reader
import Premise.Proofs.Text

/-!
JSON text gives back the value it was written for.

A text is read in two passes, and each is a lemma for any text behind the value. The characters of a
value are scanned to its tokens (`scans_value`): texts end at their own quote, since every quote
inside is escaped, and a number or a word ends where the mark behind it stands. The tokens are read
to the value (`readValue_tokens`). The bounds on the steps of both passes are large enough, and play
no part beyond that.
-/

namespace Premise.Json

/-! ### Texts -/

theorem escaped?_of_escapeLetter? {c l : Char} (h : escapeLetter? c = some l) :
    escaped? l = some c ∧ l ≠ 'u' := by
  have hcode : ∀ n, c.toNat = n → c = Char.ofNat n := by
    intro n hn
    rw [← hn, Char.ofNat_toNat]
  unfold escapeLetter? at h
  repeat' split at h
  all_goals cases h
  all_goals rename_i heq
  all_goals first | rw [heq] | rw [hcode _ heq]
  all_goals exact ⟨rfl, by decide⟩

theorem unit?_control : ∀ n < 0x20,
    unit? '0' '0' (hexDigit (n / 16)) (hexDigit (n % 16)) = some n ∧ isHighHalf n = false ∧
      isLowHalf n = false := by decide

section

variable (read : List Char) (whole : Bool) (rest : List Char)

theorem scanText_letter {l c : Char} (h : escaped? l = some c) (hu : l ≠ 'u') :
    scanText read whole ('\\' :: l :: rest) = scanText (c :: read) whole rest := by
  rw [scanText, h]
  intro _ _ _ _ _ heq
  exact absurd heq hu

theorem scanText_unit {a b c d : Char} {n : Nat} (h : unit? a b c d = some n)
    (hhigh : isHighHalf n = false) (hlow : isLowHalf n = false) :
    scanText read whole ('\\' :: 'u' :: a :: b :: c :: d :: rest) =
      scanText (Char.ofNat n :: read) whole rest := by
  rw [scanText, h]
  simp only [hhigh, hlow]
  rfl

theorem scanText_plain {c : Char} (hquote : c ≠ '"') (hslash : c ≠ '\\') (h : 0x20 ≤ c.toNat) :
    scanText read whole (c :: rest) = scanText (c :: read) whole rest := by
  rw [scanText, if_neg (Nat.not_lt.mpr h)]
  · exact hquote
  · intro _ _ _ _ _ heq
    exact absurd heq hslash
  · intro _ _ heq
    exact absurd heq hslash

theorem scanText_escapeChar (c : Char) :
    scanText read whole (escapeChar c ++ rest) = scanText (c :: read) whole rest := by
  unfold escapeChar
  cases hletter : escapeLetter? c with
  | some l =>
    obtain ⟨hescaped, hu⟩ := escaped?_of_escapeLetter? hletter
    exact scanText_letter read whole rest hescaped hu
  | none =>
    simp only
    split
    · rename_i hcontrol
      obtain ⟨hunit, hhigh, hlow⟩ := unit?_control c.toNat hcontrol
      refine (scanText_unit read whole rest hunit hhigh hlow).trans ?_
      rw [Char.ofNat_toNat]
    · rename_i hprinted
      refine scanText_plain read whole rest ?_ ?_ (Nat.not_lt.mp hprinted)
      · rintro rfl
        cases hletter
      · rintro rfl
        cases hletter

theorem scanText_escaped (cs : List Char) :
    scanText read true (cs.flatMap escapeChar ++ '"' :: rest) =
      some (.text (String.ofList (read.reverse ++ cs)), rest) := by
  induction cs generalizing read with
  | nil =>
    rw [List.append_nil]
    rfl
  | cons c cs ih =>
    rw [List.flatMap_cons, List.append_assoc, scanText_escapeChar, ih, List.reverse_cons,
      List.append_assoc]
    rfl

end

/-! ### Tokens -/

/-- Nothing, or first a character with which neither a number nor a word goes on. -/
def Ends (cs : List Char) : Prop := ∀ c ∈ cs.head?, isNumberChar c = false ∧ c.isAlpha = false

/-- The characters are those of the tokens, in as many steps as there are characters or more. -/
def Scans (cs : List Char) (ts : List Token) : Prop :=
  ∀ steps read, cs.length < steps → scan steps read cs = some (read.reverse ++ ts)

theorem scans_nil : Scans [] [] := by
  intro steps read hsteps
  obtain ⟨n, rfl⟩ := Nat.exists_eq_add_one.mpr hsteps
  rw [scan, List.append_nil]

section

variable {cs rest : List Char} {t : Token} {ts : List Token}

/-- A token in front of others. -/
theorem Scans.step (hrest : Scans rest ts) (hlength : rest.length < cs.length)
    (h : ∀ n read, scan (n + 1) read cs = scan n (t :: read) rest) : Scans cs (t :: ts) := by
  intro steps read hsteps
  obtain ⟨n, rfl⟩ := Nat.exists_eq_add_one.mpr (Nat.zero_lt_of_lt hsteps)
  rw [h, hrest n (t :: read) (by omega), List.reverse_cons, List.append_assoc]
  rfl

theorem Scans.mark {c : Char} (hrest : Scans rest ts)
    (h : ∀ n read, scan (n + 1) read (c :: rest) = scan n (t :: read) rest) :
    Scans (c :: rest) (t :: ts) :=
  hrest.step (Nat.lt_succ_self _) h

/-- A token that is spelled by a run of characters. -/
theorem Scans.run {c : Char} (hrest : Scans rest ts)
    (h : ∀ n read, scan (n + 1) read (c :: cs ++ rest) = scan n (t :: read) rest) :
    Scans (c :: cs ++ rest) (t :: ts) := by
  refine hrest.step ?_ h
  rw [List.length_append, List.length_cons]
  omega

theorem Scans.quoted (hrest : Scans rest ts) (s : String) :
    Scans ((Json.quoted s).toList ++ rest) (.value (.text s) :: ts) := by
  have htext := scanText_escaped [] rest s.toList
  rw [List.reverse_nil, List.nil_append, String.ofList_toList] at htext
  rw [Json.quoted, String.toList_ofList]
  refine hrest.run fun n read => ?_
  rw [List.cons_append, List.append_assoc, List.singleton_append, scan, htext]
  rfl

/-- How numbers are spelled. -/
def IsNumeral (cs : List Char) : Prop := isNumber cs = true ∧ ∀ c ∈ cs, isNumberChar c = true

/-- A number starts with a sign or a digit. -/
theorem IsNumeral.head {c : Char} (h : IsNumeral (c :: cs)) : (c.isDigit || c = '-') = true := by
  by_contra hneither
  obtain ⟨hdigit, hsign⟩ := Bool.or_eq_false_iff.mp (Bool.eq_false_iff.mpr hneither)
  have hwhole : (c :: cs).takeWhile Char.isDigit = [] :=
    Text.takeWhile_of_head fun d hd => Option.some.inj hd ▸ hdigit
  have hnumber : isNumber (c :: cs) = false := by
    unfold isNumber
    simp only
    split
    · rename_i heq
      exact absurd (List.cons.inj heq).1 (of_decide_eq_false hsign)
    · rw [hwhole]
      rfl
  rw [h.1] at hnumber
  cases hnumber

theorem Scans.numeral (hrest : Scans rest ts) (hends : Ends rest) {written : List Char}
    (h : IsNumeral written) :
    Scans (written ++ rest) (.value (.number (String.ofList written)) :: ts) := by
  cases written with
  | nil => cases h.1
  | cons c cs =>
    have hstops : ∀ c ∈ rest.head?, isNumberChar c = false := fun c hc => (hends c hc).1
    have htake := Text.takeWhile_run h.2 hstops
    have hdrop := Text.dropWhile_run h.2 hstops
    -- none of the marks is a sign or a digit
    have hne : ∀ d, (d.isDigit || d = '-') = false → c ≠ d := by
      rintro d hd rfl
      rw [h.head] at hd
      cases hd
    have hspace : isSpace c = false := by
      simp [isSpace, hne ' ' rfl, hne '\t' rfl, hne '\n' rfl, hne '\r' rfl]
    refine hrest.run fun n read => ?_
    rw [List.cons_append] at htake hdrop ⊢
    rw [scan, hspace, if_neg Bool.false_ne_true, if_neg (hne '[' rfl), if_neg (hne ']' rfl),
      if_neg (hne '\x7b' rfl), if_neg (hne '\x7d' rfl), if_neg (hne ',' rfl), if_neg (hne ':' rfl),
      if_neg (hne '"' rfl), if_pos h.head]
    simp only [htake, hdrop, h.1, if_true]

/-- How the values are spelled that are words. -/
def IsWord (written : List Char) (v : Json) : Prop :=
  written = ['n', 'u', 'l', 'l'] ∧ v = .null ∨ written = ['t', 'r', 'u', 'e'] ∧ v = .boolean true ∨
    written = ['f', 'a', 'l', 's', 'e'] ∧ v = .boolean false

theorem Scans.word (hrest : Scans rest ts) (hends : Ends rest) {written : List Char} {v : Json}
    (h : IsWord written v) : Scans (written ++ rest) (.value v :: ts) := by
  have hstops : ∀ c ∈ rest.head?, c.isAlpha = false := fun c hc => (hends c hc).2
  rcases h with ⟨rfl, rfl⟩ | ⟨rfl, rfl⟩ | ⟨rfl, rfl⟩
  all_goals
    refine hrest.run fun n read => ?_
    rw [List.cons_append, scan, ← List.cons_append,
      Text.takeWhile_run (List.all_eq_true.mp rfl) hstops,
      Text.dropWhile_run (List.all_eq_true.mp rfl) hstops]
    rfl

end

/-! ### Natural numbers -/

theorem head_toDigits {n : Nat} (h : 0 < n) : (Nat.toDigits 10 n).head? ≠ some '0' := by
  induction n using Nat.strongRecOn with
  | ind n ih =>
    by_cases hsmall : n < 10
    · have hall : ∀ n < 10, 0 < n → [n.digitChar].head? ≠ some '0' := by decide
      rw [Nat.toDigits_of_lt_base hsmall]
      exact hall n hsmall h
    · have hfront := ih (n / 10) (by omega) (by omega)
      rw [Nat.toDigits_of_base_le (by decide) (by omega),
        List.head?_append_of_ne_nil _ Nat.toDigits_ne_nil]
      exact hfront

theorem isNumber_of_digits {cs : List Char} (hsome : cs ≠ [])
    (hdigits : ∀ c ∈ cs, c.isDigit = true) (hlead : cs.length = 1 ∨ cs.head? ≠ some '0') :
    isNumber cs = true := by
  have htake : cs.takeWhile Char.isDigit = cs := List.takeWhile_eq_self_iff.mpr hdigits
  have hdrop : cs.dropWhile Char.isDigit = [] := List.dropWhile_eq_nil_iff.mpr hdigits
  unfold isNumber
  simp only
  split
  · exact absurd (hdigits '-' List.mem_cons_self) (by decide)
  · rw [htake, hdrop]
    simpa [hsome] using hlead

theorem toList_natural (n : Nat) : (toString n).toList = Nat.toDigits 10 n := by
  rw [Nat.toString_eq_ofList_toDigits, String.toList_ofList]

theorem isDigit_natural (n : Nat) : ∀ c ∈ (toString n).toList, c.isDigit = true := by
  intro c hc
  rw [toList_natural] at hc
  exact Nat.isDigit_of_mem_toDigits (by decide) (by decide) hc

theorem isNumeral_natural (n : Nat) : IsNumeral (toString n).toList := by
  have hdigits := isDigit_natural n
  refine ⟨isNumber_of_digits ?_ hdigits ?_, fun c hc => ?_⟩
  · rw [toList_natural]
    exact Nat.toDigits_ne_nil
  · rw [toList_natural]
    by_cases hzero : n = 0
    · rw [hzero]
      exact .inl rfl
    · exact .inr (head_toDigits (Nat.pos_of_ne_zero hzero))
  · unfold isNumberChar
    rw [hdigits c hc]
    rfl

/-! ### Values -/

mutual

/-- Numbers are spelled as numbers, and no text has lost characters. -/
def IsWritten : Json → Prop
  | .null | .boolean _ | .text _ => True
  | .number written => IsNumeral written.toList
  | .halfText => False
  | .array items => IsWrittenAll items
  | .object members => IsWrittenMembers members

def IsWrittenAll : List Json → Prop
  | [] => True
  | v :: vs => IsWritten v ∧ IsWrittenAll vs

def IsWrittenMembers : List (String × Json) → Prop
  | [] => True
  | (_, v) :: ms => IsWritten v ∧ IsWrittenMembers ms

end

theorem isWrittenMembers_of_mem {members : List (String × Json)}
    (h : ∀ m ∈ members, m.2.IsWritten) : IsWrittenMembers members := by
  induction members with
  | nil => trivial
  | cons m ms ih =>
    exact ⟨h m List.mem_cons_self, ih fun x hx => h x (List.mem_cons_of_mem m hx)⟩

theorem isWritten_objectOf {members : List (String × Option Json)}
    (h : ∀ m ∈ members, ∀ v ∈ m.2, v.IsWritten) : (objectOf members).IsWritten := by
  refine isWrittenMembers_of_mem fun m hm => ?_
  obtain ⟨x, hx, hmember⟩ := List.mem_filterMap.mp hm
  obtain ⟨v, hv, rfl⟩ := Option.map_eq_some_iff.mp hmember
  exact h x hx v hv

mutual

/-- The tokens of the text that is written for a value. -/
def tokens : Json → List Token
  | .array items => .openBracket :: itemTokens items
  | .object members => .openBrace :: memberTokens members
  | v => [.value v]

/-- The tokens of items up to the closing bracket. -/
def itemTokens : List Json → List Token
  | [] => [.closeBracket]
  | [v] => tokens v ++ [.closeBracket]
  | v :: w :: vs => tokens v ++ .comma :: itemTokens (w :: vs)

/-- The tokens of members up to the closing brace. -/
def memberTokens : List (String × Json) → List Token
  | [] => [.closeBrace]
  | [(name, v)] => .value (.text name) :: .colon :: (tokens v ++ [.closeBrace])
  | (name, v) :: m :: ms =>
    .value (.text name) :: .colon :: (tokens v ++ .comma :: memberTokens (m :: ms))

end

theorem ends_nil : Ends [] := fun _ hc => nomatch hc

/-- Behind a mark that no number and no word goes on with. -/
theorem ends_mark {c : Char} (h : (isNumberChar c || c.isAlpha) = false) (cs : List Char) :
    Ends (c :: cs) := by
  intro d hd
  cases hd
  exact Bool.or_eq_false_iff.mp h

theorem Scans.member {v : Json} {rest : List Char} {ts : List Token}
    (h : Scans (v.compact.toList ++ rest) ts) (name : String) :
    Scans ((Json.quoted name ++ ":" ++ v.compact).toList ++ rest)
      (.value (.text name) :: .colon :: ts) := by
  have hcolon : Scans (':' :: (v.compact.toList ++ rest)) (.colon :: ts) := h.mark fun _ _ => rfl
  rw [String.toList_append, String.toList_append, List.append_assoc, List.append_assoc]
  exact hcolon.quoted name

mutual

theorem scans_value {v : Json} (h : v.IsWritten) {rest : List Char} {ts : List Token}
    (hends : Ends rest) (hrest : Scans rest ts) :
    Scans (v.compact.toList ++ rest) (v.tokens ++ ts) := by
  cases v with
  | null => exact hrest.word hends (.inl ⟨rfl, rfl⟩)
  | boolean b => cases b with
    | true => exact hrest.word hends (.inr (.inl ⟨rfl, rfl⟩))
    | false => exact hrest.word hends (.inr (.inr ⟨rfl, rfl⟩))
  | number written =>
    have hnumber := hrest.numeral hends h
    rw [String.ofList_toList] at hnumber
    exact hnumber
  | text s => exact hrest.quoted s
  | halfText => cases h
  | array items =>
    have hitems := scans_items h hrest
    rw [compact, String.toList_append, String.toList_append, List.append_assoc, List.append_assoc]
    exact hitems.mark fun _ _ => rfl
  | object members =>
    have hmembers := scans_members h hrest
    rw [compact, String.toList_append, String.toList_append, List.append_assoc, List.append_assoc]
    exact hmembers.mark fun _ _ => rfl

theorem scans_items {vs : List Json} (h : IsWrittenAll vs) {rest : List Char} {ts : List Token}
    (hrest : Scans rest ts) :
    Scans ((Text.joined "," (compactItems vs)).toList ++ ']' :: rest) (itemTokens vs ++ ts) := by
  have hclose : Scans (']' :: rest) (.closeBracket :: ts) := hrest.mark fun _ _ => rfl
  match vs with
  | [] => exact hclose
  | [v] =>
    rw [itemTokens, List.append_assoc]
    exact scans_value h.1 (ends_mark rfl _) hclose
  | v :: w :: vs =>
    have hcomma : Scans (',' :: ((Text.joined "," (compactItems (w :: vs))).toList ++ ']' :: rest))
        (.comma :: (itemTokens (w :: vs) ++ ts)) := (scans_items h.2 hrest).mark fun _ _ => rfl
    have hv := scans_value h.1 (ends_mark rfl _) hcomma
    rw [itemTokens, List.append_assoc, compactItems, compactItems, Text.joined,
      String.toList_append, String.toList_append, List.append_assoc, List.append_assoc]
    exact hv

theorem scans_members {ms : List (String × Json)} (h : IsWrittenMembers ms) {rest : List Char}
    {ts : List Token} (hrest : Scans rest ts) :
    Scans ((Text.joined "," (compactMembers ms)).toList ++ '\x7d' :: rest)
      (memberTokens ms ++ ts) := by
  have hclose : Scans ('\x7d' :: rest) (.closeBrace :: ts) := hrest.mark fun _ _ => rfl
  match ms with
  | [] => exact hclose
  | [(name, v)] =>
    have hv := (scans_value h.1 (ends_mark rfl _) hclose).member name
    rw [memberTokens]
    simp only [List.cons_append, List.append_assoc]
    exact hv
  | (name, v) :: (other, w) :: ms =>
    have hcomma : Scans
        (',' :: ((Text.joined "," (compactMembers ((other, w) :: ms))).toList ++ '\x7d' :: rest))
        (.comma :: (memberTokens ((other, w) :: ms) ++ ts)) :=
      (scans_members h.2 hrest).mark fun _ _ => rfl
    have hv := (scans_value h.1 (ends_mark rfl _) hcomma).member name
    rw [memberTokens, compactMembers, compactMembers, Text.joined, String.toList_append,
      String.toList_append, List.append_assoc, List.append_assoc]
    simp only [List.cons_append, List.append_assoc]
    exact hv

end

/-- The tokens of a text that was written for a value. -/
theorem tokens?_compact {v : Json} (h : v.IsWritten) : tokens? v.compact = some v.tokens := by
  have hscan := scans_value h ends_nil scans_nil
  rw [List.append_nil, List.append_nil] at hscan
  exact hscan (v.compact.length + 1) [] (Nat.lt_succ_self _)

/-! ### Reading -/

section

variable {ts : List Token}

theorem readValue_array (steps : Nat) (h : ∀ rest, ts ≠ .closeBracket :: rest) :
    readValue (steps + 1) (.openBracket :: ts) =
      (readItems steps ts).map fun (items, rest) => (.array items, rest) := by
  rw [readValue]
  exact h

theorem readValue_object (steps : Nat) (h : ∀ rest, ts ≠ .closeBrace :: rest) :
    readValue (steps + 1) (.openBrace :: ts) =
      (readMembers steps ts).map fun (members, rest) => (.object members, rest) := by
  rw [readValue]
  exact h

end

theorem tokens_ne_close (v : Json) (ts rest : List Token) :
    v.tokens ++ ts ≠ .closeBracket :: rest := by
  cases v <;> exact nofun

theorem itemTokens_ne_close {items : List Json} (h : items ≠ []) (ts rest : List Token) :
    itemTokens items ++ ts ≠ .closeBracket :: rest := by
  match items with
  | [] => exact absurd rfl h
  | [v] | v :: w :: vs =>
    rw [itemTokens, List.append_assoc]
    exact tokens_ne_close v _ rest

theorem memberTokens_ne_close {members : List (String × Json)} (h : members ≠ [])
    (ts rest : List Token) : memberTokens members ++ ts ≠ .closeBrace :: rest := by
  match members with
  | [] => exact absurd rfl h
  | [(name, v)] | (name, v) :: m :: ms => exact nofun

mutual

/-- A value is read from its tokens, in at most two steps for each of them. -/
theorem readValue_tokens (v : Json) {steps : Nat} (h : 2 * v.tokens.length < steps)
    (rest : List Token) : readValue steps (v.tokens ++ rest) = some (v, rest) := by
  obtain ⟨n, rfl⟩ := Nat.exists_eq_add_one.mpr (Nat.zero_lt_of_lt h)
  cases v with
  | null | boolean b | number written | text s | halfText => rfl
  | array items =>
    by_cases hnone : items = []
    · rw [hnone]
      rfl
    · rw [tokens, List.length_cons] at h
      rw [tokens, List.cons_append, readValue_array n (itemTokens_ne_close hnone rest),
        readItems_tokens items hnone (by omega)]
      rfl
  | object members =>
    by_cases hnone : members = []
    · rw [hnone]
      rfl
    · rw [tokens, List.length_cons] at h
      rw [tokens, List.cons_append, readValue_object n (memberTokens_ne_close hnone rest),
        readMembers_tokens members hnone (by omega)]
      rfl

theorem readItems_tokens (items : List Json) (hsome : items ≠ []) {steps : Nat}
    (h : 2 * (itemTokens items).length < steps) (rest : List Token) :
    readItems steps (itemTokens items ++ rest) = some (items, rest) := by
  obtain ⟨n, rfl⟩ := Nat.exists_eq_add_one.mpr (Nat.zero_lt_of_lt h)
  match items with
  | [] => exact absurd rfl hsome
  | [v] =>
    rw [itemTokens, List.length_append, List.length_singleton] at h
    rw [readItems, itemTokens, List.append_assoc, readValue_tokens v (by omega)]
    rfl
  | v :: w :: vs =>
    rw [itemTokens, List.length_append, List.length_cons] at h
    rw [readItems, itemTokens, List.append_assoc, readValue_tokens v (by omega)]
    simp only [List.cons_append]
    rw [readItems_tokens (w :: vs) (List.cons_ne_nil w vs) (by omega)]
    rfl

theorem readMembers_tokens (members : List (String × Json)) (hsome : members ≠ []) {steps : Nat}
    (h : 2 * (memberTokens members).length < steps) (rest : List Token) :
    readMembers steps (memberTokens members ++ rest) = some (members, rest) := by
  obtain ⟨n, rfl⟩ := Nat.exists_eq_add_one.mpr (Nat.zero_lt_of_lt h)
  match members with
  | [] => exact absurd rfl hsome
  | [(name, v)] =>
    simp only [memberTokens, List.length_append, List.length_cons] at h
    rw [memberTokens, List.cons_append, List.cons_append, readMembers, List.append_assoc,
      readValue_tokens v (by omega)]
    rfl
  | (name, v) :: m :: ms =>
    simp only [memberTokens, List.length_append, List.length_cons] at h
    rw [memberTokens, List.cons_append, List.cons_append, readMembers, List.append_assoc,
      readValue_tokens v (by omega)]
    simp only [List.cons_append]
    rw [readMembers_tokens (m :: ms) (List.cons_ne_nil m ms) (by omega)]
    rfl

end

/-- A value is read from its text. -/
theorem read?_compact {v : Json} (h : v.IsWritten) : read? v.compact = some v := by
  have hread := readValue_tokens v (Nat.lt_add_of_pos_right Nat.two_pos) []
  rw [List.append_nil] at hread
  unfold read?
  simp only [tokens?_compact h, hread]

end Premise.Json
