import Advplc.Text.Blank
import Mathlib.Data.List.DropRight

/-!
# White space at the ends and in between

A text is trimmed at both ends, and it is squeezed into one line by cutting it into words and
putting one space between neighbours.  `Text.spaced` looks at the blanks instead of the words: every
run of them becomes one space, at the ends as well as in between.  `squeeze_eq` says that squeezing
is the same as this, followed by trimming.

A line feed, and everything else at which a reader may see the end of a line, is blank, so a text
that was squeezed has none of them (`eq_space_of_mem_squeeze`).
-/

set_option autoImplicit false

namespace Advplc.Text

variable {s t u w : Text} {c : CodePoint}

/-! ## Trimming -/

theorem trimLeft_cons_of_not_blank (hc : c.isBlank = false) (t : Text) :
    trimLeft (c :: t) = c :: t := by
  rw [trimLeft, List.dropWhile_cons_of_neg (by simp [hc])]

theorem trimLeft_cons_of_blank (hc : c.isBlank = true) (t : Text) :
    trimLeft (c :: t) = trimLeft t := by
  rw [trimLeft, List.dropWhile_cons_of_pos hc, trimLeft]

/-- The definition by reversing is that of the library by another name. -/
theorem trimRight_eq (t : Text) : trimRight t = t.rdropWhile CodePoint.isBlank := rfl

theorem trimRight_concat_of_not_blank (hc : c.isBlank = false) (t : Text) :
    trimRight (t ++ [c]) = t ++ [c] := by
  rw [trimRight_eq, List.rdropWhile_concat_neg _ _ _ (by simp [hc])]

theorem trimRight_concat_of_blank (hc : c.isBlank = true) (t : Text) :
    trimRight (t ++ [c]) = trimRight t := by
  rw [trimRight_eq, List.rdropWhile_concat_pos _ _ _ hc, trimRight_eq]

/-- What stands before a code point that is not blank is not trimmed at the right end. -/
theorem trimRight_append (h : ∃ c ∈ t, c.isBlank = false) (s : Text) :
    trimRight (s ++ t) = s ++ trimRight t := by
  induction t using List.reverseRecOn with
  | nil => simp at h
  | append_singleton t c ih =>
    rw [← List.append_assoc]
    by_cases hc : c.isBlank = true
    · have ht : ∃ d ∈ t, d.isBlank = false := by
        obtain ⟨d, hd, hblank⟩ := h
        rcases List.mem_append.mp hd with hd | hd
        · exact ⟨d, hd, hblank⟩
        · rw [List.mem_singleton.mp hd, hc] at hblank
          cases hblank
      rw [trimRight_concat_of_blank hc, trimRight_concat_of_blank hc, ih ht]
    · rw [Bool.not_eq_true] at hc
      rw [trimRight_concat_of_not_blank hc, trimRight_concat_of_not_blank hc, List.append_assoc]

theorem isSuffix_trimLeft (t : Text) : t.trimLeft <:+ t := List.dropWhile_suffix _

theorem isPrefix_trimRight (t : Text) : t.trimRight <+: t := List.rdropWhile_prefix _ _

theorem isInfix_trim (t : Text) : t.trim <:+: t :=
  (isPrefix_trimRight _).isInfix.trans (isSuffix_trimLeft t).isInfix

theorem not_blank_of_getLast?_trim (t : Text) : ∀ c ∈ t.trim.getLast?, c.isBlank = false := by
  intro c hc
  obtain ⟨hne, rfl⟩ := List.mem_getLast?_eq_getLast hc
  exact Bool.eq_false_iff.mpr (List.rdropWhile_last_not CodePoint.isBlank t.trimLeft hne)

theorem trimRight_of_getLast? (h : ∀ c ∈ t.getLast?, c.isBlank = false) : trimRight t = t := by
  rcases List.eq_nil_or_concat' t with rfl | ⟨v, c, rfl⟩
  · rfl
  · exact trimRight_concat_of_not_blank (h c (by simp)) v

theorem trimRight_eq_nil_iff : trimRight t = [] ↔ ∀ c ∈ t, c.isBlank = true :=
  List.rdropWhile_eq_nil_iff

theorem trim_cons_of_blank (hc : c.isBlank = true) (t : Text) : trim (c :: t) = trim t := by
  rw [trim, trimLeft_cons_of_blank hc, trim]

/-- A blank at the end makes no difference. -/
theorem trim_concat_of_blank (hc : c.isBlank = true) (t : Text) : trim (t ++ [c]) = trim t := by
  rw [trim, trim, trimLeft, trimLeft, List.dropWhile_append]
  split
  · -- If the text is nothing but blanks, the one at its end is trimmed from the left.
    rename_i hempty
    rw [List.isEmpty_iff.mp hempty, List.dropWhile_cons_of_pos hc]
    rfl
  · exact trimRight_concat_of_blank hc _

theorem trim_cons_of_not_blank (hc : c.isBlank = false) (t : Text) :
    trim (c :: t) = trimRight (c :: t) := by
  rw [trim, trimLeft_cons_of_not_blank hc]

theorem trimLeft_append (hw : ∀ c ∈ w, c.isBlank = false) (hne : w ≠ []) (t : Text) :
    trimLeft (w ++ t) = w ++ t := by
  obtain ⟨c, w, rfl⟩ := List.exists_cons_of_ne_nil hne
  exact trimLeft_cons_of_not_blank (hw c List.mem_cons_self) (w ++ t)

theorem trimRight_of_not_blank (hw : ∀ c ∈ w, c.isBlank = false) : trimRight w = w :=
  trimRight_of_getLast? fun c hc ↦ hw c (List.mem_of_getLast? hc)

theorem trim_of_not_blank (hw : ∀ c ∈ w, c.isBlank = false) : trim w = w := by
  have hleft : trimLeft w = w := by
    rcases w with _ | ⟨c, w⟩
    · rfl
    · exact trimLeft_cons_of_not_blank (hw c List.mem_cons_self) w
  rw [trim, hleft, trimRight_of_not_blank hw]

/-! ## Squeezing -/

/-- The text with one space in place of every run of blanks. -/
def spaced : Text → Text
  | [] => []
  | c :: rest =>
    if c.isBlank then .scalar ' ' :: spaced (rest.dropWhile CodePoint.isBlank)
    else c :: spaced rest
termination_by t => t.length
decreasing_by
  · exact Nat.lt_succ_of_le (List.dropWhile_suffix _).length_le
  · exact Nat.lt_succ_self _

theorem spaced_nil : spaced [] = [] := by rw [spaced]

theorem spaced_cons_of_not_blank (hc : c.isBlank = false) (t : Text) :
    spaced (c :: t) = c :: spaced t := by
  rw [spaced, if_neg (by simp [hc])]

/-- The only blanks that are left are spaces. -/
theorem eq_space_of_mem_spaced (h : c ∈ spaced t) (hc : c.isBlank = true) : c = ' ' := by
  fun_induction spaced t with
  | case1 => cases h
  | case2 d rest hd ih =>
    rcases List.mem_cons.mp h with rfl | h
    · rfl
    · exact ih h
  | case3 d rest hd ih =>
    rcases List.mem_cons.mp h with rfl | h
    · exact absurd hc hd
    · exact ih h

theorem wordsAfter_cons_of_not_blank (hc : c.isBlank = false) (w t : Text) :
    wordsAfter w (c :: t) = wordsAfter (c :: w) t := by
  rw [wordsAfter, if_neg (by simp [hc])]

theorem wordsAfter_cons_of_blank (hc : c.isBlank = true) (hw : w ≠ []) (t : Text) :
    wordsAfter w (c :: t) = w.reverse :: words t := by
  rw [wordsAfter, if_pos hc, if_neg (by simpa using hw), words]

theorem words_cons_of_blank (hc : c.isBlank = true) (t : Text) : words (c :: t) = words t := by
  rw [words, wordsAfter, if_pos hc, List.isEmpty_nil, if_pos rfl, words]

/-- Blanks at the beginning are part of no word. -/
theorem words_dropWhile (t : Text) : words (t.dropWhile CodePoint.isBlank) = words t := by
  induction t with
  | nil => rfl
  | cons c t ih =>
    by_cases hc : c.isBlank = true
    · rw [List.dropWhile_cons_of_pos hc, ih, words_cons_of_blank hc]
    · rw [List.dropWhile_cons_of_neg hc]

theorem joinWith_cons (sep w : Text) {ws : List Text} (hne : ws ≠ []) :
    joinWith sep (w :: ws) = w ++ sep ++ joinWith sep ws :=
  List.intercalate_cons_of_ne_nil hne

/-- One word more before a text that begins with no blank. -/
theorem joinWith_cons_words (hw : ∀ c ∈ w, c.isBlank = false)
    (ht : t.dropWhile CodePoint.isBlank = t)
    (h : joinWith " " (words t) = trim (spaced t)) :
    joinWith " " (w :: words t) = trimRight (w ++ .scalar ' ' :: spaced t) := by
  have hspace : CodePoint.isBlank ' ' = true := by decide
  rcases t with _ | ⟨c, t⟩
  · rw [spaced_nil, trimRight_concat_of_blank hspace, trimRight_of_not_blank hw]
    exact List.intercalate_singleton
  · have hc : c.isBlank = false := by
      by_contra hc
      rw [Bool.not_eq_false] at hc
      rw [List.dropWhile_cons_of_pos hc] at ht
      have hlength := (List.dropWhile_suffix CodePoint.isBlank (l := t)).length_le
      rw [ht, List.length_cons] at hlength
      exact absurd hlength (Nat.not_succ_le_self _)
    have hmem : ∃ d ∈ spaced (c :: t), d.isBlank = false :=
      ⟨c, by rw [spaced_cons_of_not_blank hc]; exact List.mem_cons_self, hc⟩
    have htrim : trim (spaced (c :: t)) = trimRight (spaced (c :: t)) := by
      rw [spaced_cons_of_not_blank hc, trim_cons_of_not_blank hc]
    -- The text begins with a word, so there is a neighbour to put a space before.
    have hne : words (c :: t) ≠ [] := by
      intro hnil
      rw [hnil, htrim] at h
      obtain ⟨d, hd, hblank⟩ := hmem
      rw [trimRight_eq_nil_iff.mp h.symm d hd] at hblank
      cases hblank
    rw [joinWith_cons _ _ hne, h, htrim, ← trimRight_append hmem, List.append_assoc]
    rfl

/-- Squeezing a text behind the word `w`, which is given in reverse. -/
theorem joinWith_wordsAfter (hw : ∀ c ∈ w, c.isBlank = false) (t : Text) :
    joinWith " " (wordsAfter w t) = trim (w.reverse ++ spaced t) := by
  have hreverse : ∀ {w : Text}, (∀ c ∈ w, c.isBlank = false) → ∀ c ∈ w.reverse, c.isBlank = false :=
    fun hw c hc ↦ hw c (List.mem_reverse.mp hc)
  fun_induction spaced t generalizing w with
  | case1 =>
    have hjoin : joinWith " " (wordsAfter w []) = w.reverse := by
      by_cases hempty : w = []
      · rw [hempty]
        rfl
      · rw [wordsAfter, if_neg (by simpa using hempty)]
        exact List.intercalate_singleton
    rw [hjoin, List.append_nil, trim_of_not_blank (hreverse hw)]
  | case2 c rest hc ih =>
    have hspace : CodePoint.isBlank ' ' = true := by decide
    have hrest : joinWith " " (words (rest.dropWhile CodePoint.isBlank)) =
        trim (spaced (rest.dropWhile CodePoint.isBlank)) := ih (List.forall_mem_nil _)
    by_cases hempty : w = []
    · -- No word has begun, so the blanks end none.
      subst hempty
      rw [List.reverse_nil, List.nil_append, trim_cons_of_blank hspace, ← hrest, words_dropWhile,
        ← words_cons_of_blank hc, words]
    · rw [wordsAfter_cons_of_blank hc hempty, trim, trimLeft_append (hreverse hw) (by simpa),
        ← words_dropWhile]
      exact joinWith_cons_words (hreverse hw) (List.dropWhile_idempotent _ rest) hrest
  | case3 c rest hc ih =>
    rw [Bool.not_eq_true] at hc
    rw [wordsAfter_cons_of_not_blank hc, ih (List.forall_mem_cons.mpr ⟨hc, hw⟩),
      List.reverse_cons, List.append_assoc, List.singleton_append]

/-- **A text is squeezed by turning every run of blanks into one space** and trimming the ends. -/
theorem squeeze_eq (t : Text) : squeeze t = trim (spaced t) :=
  joinWith_wordsAfter (List.forall_mem_nil _) t

/-- The only blanks in a text that was squeezed are spaces. -/
theorem eq_space_of_mem_squeeze (h : c ∈ squeeze t) (hc : c.isBlank = true) : c = ' ' := by
  rw [squeeze_eq] at h
  exact eq_space_of_mem_spaced ((isInfix_trim _).subset h) hc

/-! ## Visible lines -/

/-- What can be seen of the lines of a text: the lines without the blanks at their ends, apart from
those that are blank. -/
def visible (t : Text) : List Text := (t.lines.map trim).filter fun line ↦ !line.isEmpty

theorem lines_cons (c : CodePoint) (t : Text) : lines (c :: t) =
    if c = '\n' then [] :: lines t
    else match lines t with
      | [] => [[c]]
      | part :: parts => (c :: part) :: parts := rfl

theorem lines_ne_nil (t : Text) : lines t ≠ [] := by
  rw [lines]
  fun_cases splitAt '\n' t <;> simp

/-- A line feed ends a line, whatever stands around it. -/
theorem lines_append_feed (s t : Text) : lines (s ++ .scalar '\n' :: t) = lines s ++ lines t := by
  induction s with
  | nil => rfl
  | cons c s ih =>
    rw [List.cons_append, lines_cons, lines_cons, ih]
    split
    · rfl
    · obtain ⟨part, parts, hs⟩ := List.exists_cons_of_ne_nil (lines_ne_nil s)
      rw [hs]
      rfl

theorem lines_of_notMem (h : (.scalar '\n') ∉ t) : lines t = [t] := by
  induction t with
  | nil => rfl
  | cons c t ih =>
    rw [List.mem_cons, not_or] at h
    rw [lines_cons, if_neg (Ne.symm h.1), ih h.2]

/-- The first line of a text is what the text begins with. -/
theorem prefix_of_lines {line : Text} {ls : List Text} (h : lines t = line :: ls) : line <+: t := by
  induction t generalizing line ls with
  | nil => exact (List.cons.inj h).1 ▸ List.prefix_rfl
  | cons c t ih =>
    rw [lines_cons] at h
    split at h
    · exact (List.cons.inj h).1 ▸ List.nil_prefix
    · obtain ⟨part, parts, ht⟩ := List.exists_cons_of_ne_nil (lines_ne_nil t)
      rw [ht] at h
      exact (List.cons.inj h).1 ▸ List.cons_prefix_cons.mpr ⟨rfl, ih ht⟩

/-- Every line of a text is a part of it. -/
theorem infix_of_mem_lines {line : Text} (h : line ∈ lines t) : line <:+: t := by
  induction t with
  | nil => exact List.mem_singleton.mp h ▸ List.infix_rfl
  | cons c t ih =>
    obtain ⟨part, parts, ht⟩ := List.exists_cons_of_ne_nil (lines_ne_nil t)
    rw [lines_cons] at h
    split at h
    · rcases List.mem_cons.mp h with rfl | h
      · exact List.nil_infix
      · exact List.infix_cons (ih h)
    · rw [ht] at h ih
      rcases List.mem_cons.mp h with rfl | h
      · exact (List.cons_prefix_cons.mpr ⟨rfl, prefix_of_lines ht⟩).isInfix
      · exact List.infix_cons (ih (List.mem_cons_of_mem _ h))

/-- The lines before and behind a line feed. -/
theorem visible_append_feed (s t : Text) :
    visible (s ++ .scalar '\n' :: t) = visible s ++ visible t := by
  rw [visible, lines_append_feed, List.map_append, List.filter_append, visible, visible]

theorem visible_cons_of_blank (hc : c.isBlank = true) (t : Text) :
    visible (c :: t) = visible t := by
  rw [visible, lines_cons]
  split
  · rfl
  · obtain ⟨part, parts, ht⟩ := List.exists_cons_of_ne_nil (lines_ne_nil t)
    rw [visible, ht, List.map_cons, List.map_cons, trim_cons_of_blank hc]

/-- Blanks before a text make no difference, also where they go over several lines. -/
theorem visible_append_of_blank (hs : ∀ c ∈ s, c.isBlank = true) (t : Text) :
    visible (s ++ t) = visible t := by
  induction s with
  | nil => rfl
  | cons c s ih =>
    rw [List.forall_mem_cons] at hs
    rw [List.cons_append, visible_cons_of_blank hs.1, ih hs.2]

theorem visible_of_blank (ht : ∀ c ∈ t, c.isBlank = true) : visible t = [] := by
  rw [← List.append_nil t, visible_append_of_blank ht]
  rfl

/-- What can be seen of one line. -/
theorem visible_of_notMem (h : (.scalar '\n') ∉ t) (hne : t.trim ≠ []) : visible t = [t.trim] := by
  rw [visible, lines_of_notMem h, List.map_singleton, List.filter_singleton,
    List.isEmpty_eq_false_iff.mpr hne]
  rfl

end Advplc.Text
