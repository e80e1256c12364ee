import Advplc.Token.Rule

/-!
# What a rule of the lexer matches, with a line end behind it

A rule looks at the text from one place on, and what it matches may depend on text far behind that
place.  These files are about how little: if a rule matches within a text `u`, or does not match at
all, then it does the same when what stands behind `u` is replaced by a line end.

`Bounded f u x` says this of one rule `f` and of one text `x` behind `u`.  It holds for most rules
without further ado.  A reserved word must not be cut out of a longer word, and a block comment or a
template that is not closed must not find its end in later lines.

This file is about the rules for runs of code points, words and marks, names and numerals.
-/

set_option autoImplicit false

namespace Advplc

/-- A place at which a line ends: nothing or a line feed comes next. -/
inductive Text.LineEnd : Text → Prop where
  | nothing : LineEnd []
  | feed (t : Text) : LineEnd ('\n' :: t)

namespace Rule

open Text (LineEnd)

/-- Where `f` finds its end within `u`, or not at all, it finds the same when a line ends behind
`u` in place of `x`. -/
def Bounded (f : Text → Nat) (u x : Text) : Prop :=
  ∀ ⦃r : Text⦄, LineEnd r → f (u ++ x) ≤ u.length → f (u ++ r) = f (u ++ x)

/-! ## Runs -/

section Runs

variable {p : CodePoint → Bool} {u x r : Text}

theorem run_cons (c : CodePoint) (t : Text) : run p (c :: t) = if p c then run p t + 1 else 0 := by
  cases h : p c <;> simp [run, List.takeWhile, h]

theorem run_lineEnd (hp : p '\n' = false) (hr : LineEnd r) : run p r = 0 := by
  cases hr with
  | nothing => rfl
  | feed t => rw [run_cons, hp]; rfl

/-- A run ends at a line end, if a line feed is not one of its code points. -/
theorem bounded_run (hp : p '\n' = false) (u x : Text) : Bounded (run p) u x := by
  intro r hr h
  induction u with
  | nil =>
    rw [List.nil_append, List.length_nil, Nat.le_zero] at h
    rw [List.nil_append, List.nil_append, h, run_lineEnd hp hr]
  | cons c u ih =>
    simp only [List.cons_append, run_cons] at h ⊢
    split
    · rename_i hc
      rw [if_pos hc, List.length_cons] at h
      rw [ih (by omega)]
    · rfl

/-- A text that begins with none of the code points of a run still does so with anything behind. -/
theorem bounded_run_of_zero (h : run p (u ++ x) = 0) (hu : u ≠ []) : Bounded (run p) u x := by
  intro r _ _
  cases u with
  | nil => exact absurd rfl hu
  | cons c u =>
    rw [List.cons_append, run_cons] at h
    rw [List.cons_append, List.cons_append, run_cons, run_cons]
    split at h
    · cases h
    · rw [if_neg ‹_›, if_neg ‹_›]

/-- A run that takes exactly `u` takes nothing else behind it. -/
theorem head_of_run_eq (h : run p (u ++ x) = u.length) {c : CodePoint} {t : Text}
    (hx : x = c :: t) : p c = false := by
  subst hx
  induction u with
  | nil =>
    rw [List.nil_append, run_cons] at h
    cases hc : p c with
    | false => rfl
    | true => rw [hc] at h; cases h
  | cons d u ih =>
    rw [List.cons_append, run_cons, List.length_cons] at h
    split at h
    · exact ih (by omega)
    · cases h

end Runs

/-! ## Words and marks -/

section Literals

variable {w u x r : Text}

/-- A text without a line feed that stands before a line end stands before anything. -/
theorem isPrefixOf_lineEnd (hw : (.scalar '\n') ∉ w) (hr : LineEnd r) :
    w.isPrefixOf (u ++ r) = w.isPrefixOf u := by
  induction w generalizing u with
  | nil => simp
  | cons c w ih =>
    rw [List.mem_cons, not_or] at hw
    cases u with
    | nil =>
      cases hr with
      | nothing => rfl
      | feed t =>
        rw [List.nil_append, List.isPrefixOf_cons_cons, List.isPrefixOf_cons_nil,
          Bool.and_eq_false_iff]
        exact .inl (beq_eq_false_iff_ne.mpr (Ne.symm hw.1))
    | cons d u =>
      rw [List.cons_append, List.isPrefixOf_cons_cons, List.isPrefixOf_cons_cons, ih hw.2]

/-- What is longer than a word does not matter for it. -/
theorem isPrefixOf_append (h : w.length ≤ u.length) : w.isPrefixOf (u ++ x) = w.isPrefixOf u := by
  rw [Bool.eq_iff_iff, List.isPrefixOf_iff_prefix, List.isPrefixOf_iff_prefix]
  exact ⟨fun h' ↦ List.prefix_of_prefix_length_le h' (List.prefix_append u x) h,
    fun h' ↦ h'.trans (List.prefix_append u x)⟩

/-- A mark that does not fit in before a line end was not within the text before. -/
theorem bounded_literal (hw : (.scalar '\n') ∉ w) (u x : Text) : Bounded (literal w) u x := by
  intro r hr h
  simp only [literal, isPrefixOf_lineEnd hw hr] at h ⊢
  by_cases hlong : w.length ≤ u.length
  · rw [isPrefixOf_append hlong]
  · have hu : ¬ w.isPrefixOf u := fun hu ↦ hlong (List.isPrefixOf_iff_prefix.mp hu).length_le
    split at h
    · exact absurd h hlong
    · rw [if_neg hu, if_neg ‹_›]

theorem atWordEnd_lineEnd (hr : LineEnd r) : Text.atWordEnd r = true := by
  cases hr with
  | nothing => rfl
  | feed t => rfl

/-- A reserved word is kept apart from what follows it by a line end, unless it was part of a longer
word before. -/
theorem bounded_word (hw : (.scalar '\n') ∉ w) (hend : u = w → Text.atWordEnd x = true) :
    Bounded (word w) u x := by
  intro r hr h
  simp only [word, isPrefixOf_lineEnd hw hr] at h ⊢
  by_cases hlong : w.length ≤ u.length
  · rw [isPrefixOf_append hlong]
    by_cases hu : w.isPrefixOf u
    · obtain ⟨v, rfl⟩ := List.isPrefixOf_iff_prefix.mp hu
      rw [List.append_assoc, List.append_assoc, List.drop_left, List.drop_left]
      cases v with
      | nil => simp [atWordEnd_lineEnd hr, hend]
      | cons c v => rfl
    · simp [hu]
  · have hu : ¬ w.isPrefixOf u := fun hu ↦ hlong (List.isPrefixOf_iff_prefix.mp hu).length_le
    split at h
    · exact absurd h hlong
    · rw [if_neg (fun hu' ↦ hu hu'.1), if_neg ‹_›]

end Literals

/-! ## Names and numerals -/

section Names

variable {u x r : Text}

/-- A rule that cannot match at a line end needs to be looked at only where it has a code point to
begin with. -/
theorem Bounded.of_cons {f : Text → Nat} (hline : ∀ ⦃r : Text⦄, LineEnd r → f r = 0)
    (h : ∀ c u, Bounded f (c :: u) x) (u : Text) : Bounded f u x := by
  cases u with
  | nil =>
    intro r hr hx
    rw [List.nil_append, List.length_nil, Nat.le_zero] at hx
    rw [List.nil_append, List.nil_append, hx, hline hr]
  | cons c u => exact h c u

/-- A name is a code point that begins it and a run. -/
theorem bounded_identifier (u x : Text) : Bounded identifier u x := by
  refine .of_cons (fun r hr ↦ ?_) (fun c u r hr h ↦ ?_) u
  · cases hr <;> rfl
  · simp only [List.cons_append, identifier] at h ⊢
    split
    · rw [if_pos ‹_›, List.length_cons] at h
      rw [bounded_run (by decide) u x hr (by omega)]
    · rfl

theorem fraction_point (t : Text) : fraction ('.' :: t) =
    if run CodePoint.isDigit t = 0 then 0 else 1 + run CodePoint.isDigit t := rfl

theorem fraction_of_ne {c : CodePoint} (hc : c ≠ '.') (t : Text) : fraction (c :: t) = 0 :=
  fraction.eq_2 _ fun _ h ↦ hc (List.cons.inj h).1

theorem bounded_fraction (u x : Text) : Bounded fraction u x := by
  refine .of_cons (fun r hr ↦ ?_) (fun c u r hr h ↦ ?_) u
  · cases hr with
    | nothing => rfl
    | feed t => exact fraction_of_ne (by decide) t
  · by_cases hc : c = '.'
    · subst hc
      rw [List.cons_append, fraction_point, List.length_cons] at h
      rw [List.cons_append, List.cons_append, fraction_point, fraction_point,
        bounded_run (by decide) u x hr]
      split at h <;> omega
    · rw [List.cons_append, List.cons_append, fraction_of_ne hc, fraction_of_ne hc]

theorem bounded_signedDigits (u x : Text) : Bounded signedDigits u x := by
  refine .of_cons (fun r hr ↦ ?_) (fun c u r hr h ↦ ?_) u
  · cases hr <;> rfl
  · have hhead : ∀ y : Text, (c :: u ++ y).head? = some c := fun _ ↦ rfl
    simp only [signedDigits, hhead] at h ⊢
    generalize hsign :
      (if some c = some (.scalar '+') ∨ some c = some (.scalar '-') then 1 else 0) = sign at h ⊢
    -- A sign is within the text, since the text is not empty here; so the digits are looked for in
    -- a rest of it.
    have hle : sign ≤ (c :: u).length := by
      rw [← hsign, List.length_cons]
      split <;> omega
    rw [List.drop_append_of_le_length hle] at h
    rw [List.drop_append_of_le_length hle, List.drop_append_of_le_length hle,
      bounded_run (by decide) _ x hr]
    rw [List.length_drop]
    split at h <;> omega

theorem exponent_cons (c : CodePoint) (t : Text) : exponent (c :: t) =
    if (c = 'e' ∨ c = 'E') ∧ signedDigits t ≠ 0 then 1 + signedDigits t else 0 := rfl

theorem bounded_exponent (u x : Text) : Bounded exponent u x := by
  refine .of_cons (fun r hr ↦ ?_) (fun c u r hr h ↦ ?_) u
  · cases hr <;> rfl
  · rw [List.cons_append, exponent_cons, List.length_cons] at h
    rw [List.cons_append, List.cons_append, exponent_cons, exponent_cons]
    by_cases hc : c = 'e' ∨ c = 'E'
    · rw [bounded_signedDigits u x hr]
      simp only [hc, true_and] at h
      split at h <;> omega
    · rw [if_neg (fun h ↦ hc h.1), if_neg (fun h ↦ hc h.1)]

theorem bounded_number (u x : Text) : Bounded number u x := by
  intro r hr h
  -- A numeral has up to three parts, one behind the other, and each is bounded on the text that the
  -- parts before it have left.
  have hwhole : run CodePoint.isDigit (u ++ r) = run CodePoint.isDigit (u ++ x) := by
    refine bounded_run (by decide) u x hr ?_
    simp only [number] at h
    split at h <;> omega
  simp only [number, hwhole] at h ⊢
  generalize run CodePoint.isDigit (u ++ x) = whole at h ⊢
  split
  · rfl
  · rw [if_neg ‹_›] at h
    have hle : whole ≤ u.length := by omega
    rw [List.drop_append_of_le_length hle] at h
    rw [List.drop_append_of_le_length hle, List.drop_append_of_le_length hle,
      bounded_fraction (u.drop whole) x hr (by rw [List.length_drop]; omega)]
    generalize fraction (u.drop whole ++ x) = part at h ⊢
    have hle : whole + part ≤ u.length := by omega
    rw [List.drop_append_of_le_length hle] at h
    rw [List.drop_append_of_le_length hle, List.drop_append_of_le_length hle,
      bounded_exponent (u.drop (whole + part)) x hr (by rw [List.length_drop]; omega)]

end Names

end Rule

end Advplc
