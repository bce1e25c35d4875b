import Mathlib.Data.List.DropRight
import Premise.Text.Blank

/-!
Blanks and separators: a text that is not all blank is not trimmed away, nothing is trimmed where no
blank stands at an end, and a list that is written behind another one and a comma adds its own
entries. So a list of texts without commas has these texts as its entries, but for their blanks.
-/

namespace Premise.Text

theorem trimChars_eq_nil {cs : List Char} (h : trimChars cs = []) :
    ∀ c ∈ cs, isBlank c = true := by
  have hback : ∀ c ∈ cs.dropWhile isBlank, isBlank c = true := by
    have hdrop : (cs.dropWhile isBlank).reverse.dropWhile isBlank = [] := by
      simpa [trimChars] using h
    intro c hc
    exact List.dropWhile_eq_nil_iff.mp hdrop c (List.mem_reverse.mpr hc)
  -- what stands first behind the blanks in front would not be blank
  have hnone : cs.dropWhile isBlank = [] := by
    by_contra hne
    have hpos : 0 < (cs.dropWhile isBlank).length := List.length_pos_iff.mpr hne
    exact List.dropWhile_get_zero_not _ cs hpos (hback _ (List.get_mem _ _))
  exact List.dropWhile_eq_nil_iff.mp hnone

theorem dropWhile_append_of_neg {sat : Char → Bool} {c : Char} (h : sat c = false)
    (xs ys : List Char) : (xs ++ c :: ys).dropWhile sat = xs.dropWhile sat ++ c :: ys := by
  induction xs with
  | nil => exact List.dropWhile_cons_of_neg (by rw [h]; exact Bool.false_ne_true)
  | cons x xs ih =>
    rw [List.cons_append, List.dropWhile_cons, List.dropWhile_cons, ih]
    split <;> rfl

theorem dropWhile_of_head {sat : Char → Bool} {cs : List Char}
    (h : ∀ c ∈ cs.head?, sat c = false) : cs.dropWhile sat = cs := by
  cases cs with
  | nil => rfl
  | cons c cs => exact List.dropWhile_cons_of_neg (by rw [h c rfl]; exact Bool.false_ne_true)

theorem takeWhile_of_head {sat : Char → Bool} {cs : List Char}
    (h : ∀ c ∈ cs.head?, sat c = false) : cs.takeWhile sat = [] := by
  cases cs with
  | nil => rfl
  | cons c cs => exact List.takeWhile_cons_of_neg (by rw [h c rfl]; exact Bool.false_ne_true)

/-- A run of characters ends where one follows that does not belong to it. -/
theorem takeWhile_run {sat : Char → Bool} {run rest : List Char} (h : ∀ c ∈ run, sat c = true)
    (hrest : ∀ c ∈ rest.head?, sat c = false) : (run ++ rest).takeWhile sat = run := by
  rw [List.takeWhile_append_of_pos h, takeWhile_of_head hrest, List.append_nil]

theorem dropWhile_run {sat : Char → Bool} {run rest : List Char} (h : ∀ c ∈ run, sat c = true)
    (hrest : ∀ c ∈ rest.head?, sat c = false) : (run ++ rest).dropWhile sat = rest := by
  rw [List.dropWhile_append_of_pos h, dropWhile_of_head hrest]

/-- There is nothing to trim where neither end is blank. -/
theorem trimChars_of_ends {cs : List Char} (hfirst : ∀ c ∈ cs.head?, isBlank c = false)
    (hlast : ∀ c ∈ cs.getLast?, isBlank c = false) : trimChars cs = cs := by
  unfold trimChars
  rw [dropWhile_of_head hfirst, dropWhile_of_head (by rwa [List.head?_reverse]),
    List.reverse_reverse]

/-- Behind something that is not blank only the end is trimmed. -/
theorem trimChars_append {c : Char} (h : isBlank c = false) (xs : List Char) {ys : List Char}
    (hlast : ∀ y ∈ (c :: ys).getLast?, isBlank y = false) :
    trimChars (xs ++ c :: ys) = xs.dropWhile isBlank ++ c :: ys := by
  have hends : ∀ y ∈ (xs.dropWhile isBlank ++ c :: ys).reverse.head?, isBlank y = false := by
    rwa [List.head?_reverse, List.getLast?_append_cons]
  unfold trimChars
  rw [dropWhile_append_of_neg h, dropWhile_of_head hends, List.reverse_reverse]

theorem trimChars_dropWhile (cs : List Char) :
    trimChars (cs.dropWhile isBlank) = trimChars cs := by
  unfold trimChars
  rw [List.dropWhile_idempotent]

/-- A trimmed text has no blank at either end. -/
theorem trim_trim (s : String) : trim (trim s) = trim s := by
  have hprefix : trimChars s.toList <+: s.toList.dropWhile isBlank :=
    List.rdropWhile_prefix isBlank _
  have hfirst : ∀ c ∈ (trimChars s.toList).head?, isBlank c = false := by
    intro c hc
    obtain ⟨rest, hrest⟩ := hprefix
    have hhead : (s.toList.dropWhile isBlank).head? = some c := by
      rw [← hrest, List.head?_append, hc]
      rfl
    simpa [hhead] using List.head?_dropWhile_not isBlank s.toList
  have hlast : ∀ c ∈ (trimChars s.toList).getLast?, isBlank c = false := by
    intro c hc
    unfold trimChars at hc
    rw [List.getLast?_reverse] at hc
    have hnot := List.head?_dropWhile_not isBlank (s.toList.dropWhile isBlank).reverse
    rw [hc] at hnot
    simpa using hnot
  rw [trim, trim, String.toList_ofList, trimChars_of_ends hfirst hlast]

/-- A blank in front is trimmed away, and so makes no difference. -/
theorem trimChars_cons {c : Char} (h : isBlank c = true) (cs : List Char) :
    trimChars (c :: cs) = trimChars cs := by
  unfold trimChars
  rw [List.dropWhile_cons_of_pos h]

theorem ne_empty_of_nonBlank? {s t : String} (h : nonBlank? s = some t) : t ≠ "" := by
  unfold nonBlank? at h
  by_cases hblank : isAllBlank s = true
  · rw [if_pos hblank] at h
    cases h
  · rw [if_neg hblank] at h
    cases h
    intro hempty
    have hnil : trimChars s.toList = [] := by
      have hchars := congrArg String.toList hempty
      simpa [trim] using hchars
    exact hblank (List.all_eq_true.mpr (trimChars_eq_nil hnil))

theorem pieces_ne_nil (sep : Char → Bool) (cs : List Char) : pieces sep cs ≠ [] := by
  cases cs with
  | nil => simp [pieces]
  | cons c cs =>
    unfold pieces
    split
    · simp
    · split <;> simp

theorem pieces_of_all {sep : Char → Bool} {cs : List Char} (h : ∀ c ∈ cs, sep c = false) :
    pieces sep cs = [cs] := by
  induction cs with
  | nil => rfl
  | cons c cs ih =>
    rw [pieces, h c (.head _), ih fun x hx => h x (.tail c hx)]
    rfl

/-- A separator ends one piece and starts the next, whatever stands on either side. -/
theorem pieces_append {sep : Char → Bool} {c : Char} (h : sep c = true) (xs ys : List Char) :
    pieces sep (xs ++ c :: ys) = pieces sep xs ++ pieces sep ys := by
  induction xs with
  | nil =>
    rw [List.nil_append]
    simp only [pieces, h, if_true]
    rfl
  | cons x xs ih =>
    rw [List.cons_append, pieces, pieces, ih]
    by_cases hx : sep x = true
    · rw [if_pos hx, if_pos hx]
      rfl
    · rw [if_neg hx, if_neg hx]
      cases hxs : pieces sep xs with
      | nil => exact absurd hxs (pieces_ne_nil sep xs)
      | cons p ps => rfl

theorem entries_append (s t : String) : entries (s ++ "," ++ t) = entries s ++ entries t := by
  have hchars : (s ++ "," ++ t).toList = s.toList ++ ',' :: t.toList := by simp
  unfold entries
  rw [hchars, pieces_append (by decide)]
  simp only [List.map_append, List.filter_append]

/-- A text without commas is one entry, or none if it is blank. -/
theorem entries_single {s : String} (h : ',' ∉ s.toList) :
    entries s = if isAllBlank s then [] else [trim s] := by
  have hpieces : pieces (· == ',') s.toList = [s.toList] := by
    refine pieces_of_all fun c hc => ?_
    rw [beq_eq_false_iff_ne]
    rintro rfl
    exact h hc
  unfold entries
  rw [hpieces]
  by_cases hblank : isAllBlank s = true
  · have hnil : trimChars s.toList = [] := by
      unfold trimChars
      rw [List.dropWhile_eq_nil_iff.mpr (List.all_eq_true.mp hblank)]
      rfl
    rw [if_pos hblank, List.map_singleton, hnil]
    rfl
  · have hne : trimChars s.toList ≠ [] := fun hnil =>
      hblank (List.all_eq_true.mpr (trimChars_eq_nil hnil))
    rw [if_neg hblank, List.map_singleton, List.filter_cons_of_pos (by simpa using hne)]
    rfl

theorem entries_space (s : String) : entries (" " ++ s) = entries s := by
  have hchars : (" " ++ s).toList = ' ' :: s.toList := by simp
  unfold entries
  rw [hchars, pieces, if_neg (by decide)]
  cases hpieces : pieces (· == ',') s.toList with
  | nil => exact absurd hpieces (pieces_ne_nil _ _)
  | cons p ps => simp only [List.map_cons, trimChars_cons (show isBlank ' ' = true by decide)]

/-- Texts without commas, none of them blank, are the entries of the list they are written in. -/
theorem entries_joined {ss : List String}
    (h : ∀ s ∈ ss, ',' ∉ s.toList ∧ isAllBlank s = false) :
    entries (joined ", " ss) = ss.map trim := by
  have hsingle : ∀ s ∈ ss, entries s = [trim s] := by
    intro s hs
    obtain ⟨hcomma, hblank⟩ := h s hs
    rw [entries_single hcomma, hblank]
    rfl
  clear h
  induction ss with
  | nil => decide
  | cons s ss ih =>
    have hs := hsingle s List.mem_cons_self
    have hrest := ih fun t ht => hsingle t (List.mem_cons_of_mem s ht)
    cases ss with
    | nil => exact hs
    | cons t rest =>
      have hlist : joined ", " (s :: t :: rest) = s ++ "," ++ (" " ++ joined ", " (t :: rest)) := by
        rw [joined, show ", " = "," ++ " " from rfl]
        simp only [String.append_assoc]
      rw [hlist, entries_append, entries_space, hs, hrest]
      rfl

theorem splitAtFirst_append {sep : Char} {xs : List Char} (h : sep ∉ xs) (ys : List Char) :
    splitAtFirst sep (xs ++ sep :: ys) = some (xs, ys) := by
  induction xs with
  | nil => exact if_pos rfl
  | cons x xs ih =>
    have hne : x ≠ sep := fun heq => h (heq ▸ List.mem_cons_self)
    rw [List.cons_append, splitAtFirst, if_neg hne, ih fun hx => h (List.mem_cons_of_mem x hx)]
    rfl

end Premise.Text
