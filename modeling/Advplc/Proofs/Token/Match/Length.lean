import Advplc.Proofs.Token.Match.Rules

/-!
# Matches lie within the text

No rule matches more than there is: what it matches is not longer than the text that it looks at
(`length_le`).  So the token that is made of a match has that length, and what is left of the text
is what stands behind the token.

There is one lemma for each way of matching.  Those for what has an end of its own go by the
recursion that looks for the end, and the others put the bounds of their parts together.
-/

set_option autoImplicit false

namespace Advplc

namespace Rule

section Lengths

/-- A run of code points ends with the text at the latest. -/
theorem run_le (p : CodePoint → Bool) (t : Text) : run p t ≤ t.length := by
  induction t with
  | nil => exact Nat.le_refl 0
  | cons c t ih => rw [run_cons, List.length_cons]; split <;> omega

/-- The end of a comment is found in the text. -/
theorem commentEnd_le {t : Text} {n : Nat} (h : commentEnd t = some n) : n ≤ t.length := by
  fun_induction commentEnd t generalizing n with
  | case1 rest => cases h; simp
  | case2 c t _ ih =>
    obtain ⟨m, hm, rfl⟩ := Option.map_eq_some_iff.mp h
    exact Nat.succ_le_succ (ih hm)
  | case3 => cases h

theorem regexEnd_le {inClass : Bool} {t : Text} {n : Nat} (h : regexEnd inClass t = some n) :
    n ≤ t.length := by
  fun_induction regexEnd inClass t generalizing n with
  | case1 | case2 | case4 | case7 => cases h
  | case8 => cases h; simp
  -- A bracket: the class may be closed or not, and the answer is that of the one attempt or the
  -- other.
  | case9 rest _ _ _ ih₁ ih₂ =>
    obtain ⟨l, hl, rfl⟩ := Option.map_eq_some_iff.mp h
    refine Nat.add_le_add_right (?_ : l ≤ rest.length) 1
    cases hclass : regexEnd true rest with
    | none => exact ih₂ (by rw [hclass] at hl; exact hl)
    | some m => exact ih₁ (by rw [hclass] at hl; rw [hclass, ← hl]; rfl)
  -- A backslash takes the code point behind it along.
  | case3 _ _ _ _ ih =>
    obtain ⟨l, hl, rfl⟩ := Option.map_eq_some_iff.mp h
    exact Nat.add_le_add_right (ih hl) 2
  | case5 _ _ _ ih | case6 _ _ _ _ _ ih | case10 _ _ _ _ _ _ ih =>
    obtain ⟨l, hl, rfl⟩ := Option.map_eq_some_iff.mp h
    exact Nat.add_le_add_right (ih hl) 1

/-- The end of a literal is found in the text. -/
theorem literalEnd_le {quote : CodePoint} {severalLines : Bool} {t : Text} {n : Nat}
    (h : literalEnd quote severalLines t = some n) : n ≤ t.length := by
  fun_induction literalEnd quote severalLines t generalizing n with
  | case1 | case2 | case5 => cases h
  | case4 => cases h; simp
  | case3 _ _ _ ih | case6 _ _ _ _ _ ih =>
    obtain ⟨l, hl, rfl⟩ := Option.map_eq_some_iff.mp h
    exact Nat.add_le_add_right (ih hl) _

theorem fraction_le (t : Text) : fraction t ≤ t.length := by
  fun_cases fraction t with
  | case1 => exact Nat.zero_le _
  | case2 rest digits h =>
    have := run_le CodePoint.isDigit rest
    rw [List.length_cons]
    omega
  | case3 => exact Nat.zero_le _

/-- A sign is counted only if there is one, and the digits stand behind it. -/
theorem signedDigits_le (t : Text) : signedDigits t ≤ t.length := by
  have := run_le CodePoint.isDigit (t.drop 0)
  have := run_le CodePoint.isDigit (t.drop 1)
  rw [List.length_drop] at *
  simp only [signedDigits]
  split <;> split <;> omega

theorem exponent_le (t : Text) : exponent t ≤ t.length := by
  cases t with
  | nil => exact Nat.le_refl 0
  | cons c t =>
    have := signedDigits_le t
    rw [exponent_cons, List.length_cons]
    split <;> omega

theorem number_le (t : Text) : number t ≤ t.length := by
  have hwhole := run_le CodePoint.isDigit t
  simp only [number]
  -- Each part begins where the one before it ends, and the lengths are all that is needed of them.
  generalize run CodePoint.isDigit t = whole at hwhole ⊢
  have hpart := fraction_le (t.drop whole)
  generalize fraction (t.drop whole) = part at hpart ⊢
  have hpower := exponent_le (t.drop (whole + part))
  rw [List.length_drop] at hpart hpower
  split <;> omega

/-- A word that is matched begins the text. -/
theorem word_le (w t : Text) : word w t ≤ t.length := by
  rw [word]
  split
  · exact (List.isPrefixOf_iff_prefix.mp (And.left ‹_›)).length_le
  · exact Nat.zero_le _

theorem literal_le (w t : Text) : literal w t ≤ t.length := by
  rw [literal]
  split
  · exact (List.isPrefixOf_iff_prefix.mp ‹_›).length_le
  · exact Nat.zero_le _

theorem identifier_le (t : Text) : identifier t ≤ t.length := by
  cases t with
  | nil => exact Nat.le_refl 0
  | cons c t =>
    have := run_le continuesIdentifier t
    rw [identifier, List.length_cons]
    split <;> omega

theorem lineComment_le (t : Text) : lineComment t ≤ t.length := by
  have := run_le (· ≠ '\n') (t.drop 2)
  rw [List.length_drop] at this
  rw [lineComment_eq]
  split
  · rename_i hslashes
    have : 2 ≤ t.length := (List.isPrefixOf_iff_prefix.mp hslashes).length_le
    omega
  · exact Nat.zero_le _

theorem blockComment_le (t : Text) : blockComment t ≤ t.length := by
  rw [blockComment_eq]
  split
  · rename_i hopen
    have : 2 ≤ t.length := (List.isPrefixOf_iff_prefix.mp hopen).length_le
    cases hend : commentEnd (t.drop 2) with
    | none => exact Nat.zero_le _
    | some n =>
      have := commentEnd_le hend
      rw [List.length_drop] at this
      simp only [Option.map_some, Option.getD_some]
      omega
  · exact Nat.zero_le _

theorem regex_le (t : Text) : regex t ≤ t.length := by
  cases t with
  | nil => exact Nat.le_refl 0
  | cons c t =>
    by_cases hc : c = '/'
    · rw [hc, regex_slash]
      split
      · exact Nat.zero_le _
      · cases hend : regexEnd false t with
        | none => exact Nat.zero_le _
        | some n =>
          have := regexEnd_le hend
          -- The flags stand behind the end.
          have := run_le isFlag (t.drop n)
          rw [List.length_drop] at this
          rw [Option.elim_some, List.length_cons]
          omega
    · rw [regex_of_ne hc]
      exact Nat.zero_le _

theorem quotedLiteral_le (quote : CodePoint) (severalLines : Bool) (t : Text) :
    quotedLiteral quote severalLines t ≤ t.length := by
  cases t with
  | nil => exact Nat.le_refl 0
  | cons c t =>
    rw [quotedLiteral_cons]
    cases hend : literalEnd quote severalLines t with
    | none => split <;> exact Nat.zero_le _
    | some n =>
      have := literalEnd_le hend
      simp only [Option.map_some, Option.getD_some, List.length_cons]
      split <;> omega

/-- **A match lies within the text.** -/
theorem length_le {t : Text} : ∀ rule ∈ all, rule.length t ≤ t.length :=
  forall_mem_all (run_le _ t) (lineComment_le t) (blockComment_le t) (fun _ ↦ word_le _ t)
    (word_le _ t) (regex_le t) (identifier_le t) (number_le t) (quotedLiteral_le _ _ t)
    (quotedLiteral_le _ _ t) (quotedLiteral_le _ _ t) fun _ ↦ literal_le _ t

end Lengths

end Rule

end Advplc
