import Advplc.Proofs.Text.Numeral
import Advplc.Proofs.Target.Reading
import Advplc.Target.Layout

/-!
# Texts over several lines

A text is *broken* if it holds a line feed.  What an expression is written as is put together from
the texts of its parts and from fixed texts that are not broken, so it is broken if and only if a
part is.  The text of a string literal never is, since its lines are taken apart (`broken_ofText`).
A quoted text is broken if and only if the text is (`broken_quote`).

The lemmas for the single ways of putting texts together are tagged for `simp`, which then decides
for any combination of them whether the result is broken.
-/

set_option autoImplicit false

namespace Advplc

namespace Text

/-- Whether a text goes on in another line. -/
def broken (t : Text) : Bool := t.contains '\n'

variable {s t : Text}

theorem broken_eq_false_iff : t.broken = false ↔ (.scalar '\n') ∉ t := by
  simp [broken]

@[simp] theorem broken_nil : broken [] = false := rfl

@[simp] theorem broken_cons (c : CodePoint) (t : Text) :
    broken (c :: t) = (decide (c = '\n') || broken t) := by
  simp [broken, eq_comm]

@[simp] theorem broken_append (s t : Text) : broken (s ++ t) = (broken s || broken t) := by
  simp [broken]

@[simp] theorem broken_ofString (s : String) :
    broken (ofString s) = s.toList.contains '\n' := by
  simp [broken, ofString]

/-- What a text is made of decides, and not the order. -/
theorem broken_of_subset (h : s ⊆ t) (ht : t.broken = false) : s.broken = false := by
  rw [broken_eq_false_iff] at ht ⊢
  exact fun hs ↦ ht (h hs)

/-- Texts joined by one that is not broken are broken if one of them is. -/
theorem broken_joinWith {sep : Text} (hsep : sep.broken = false) (ts : List Text) :
    broken (joinWith sep ts) = ts.any broken := by
  induction ts with
  | nil => rfl
  | cons t ts ih =>
    rcases ts with _ | ⟨t', ts⟩
    · simp [joinWith]
    · simp only [joinWith, List.intercalate_cons_cons, broken_append, hsep] at ih ⊢
      rw [ih]
      simp

/-- Nothing is lost when a text is split, so a part is broken if the whole was, unless it was split
at its line feeds. -/
theorem broken_splitAt {sep : CodePoint} (hsep : sep ≠ '\n') (t : Text) :
    (splitAt sep t).any broken = t.broken := by
  fun_induction splitAt sep t with
  | case1 => rfl
  | case2 rest ih => simp [ih, hsep]
  | case3 c rest hc hparts ih => exact absurd hparts (Target.splitAt_ne_nil rest)
  -- The code point joins the first part of the rest.
  | case4 c rest hc part parts hparts ih =>
    rw [hparts] at ih
    simp only [List.any_cons, broken_cons, ← ih, Bool.or_assoc]

/-- The lines of a text are not broken. -/
theorem broken_of_mem_lines (h : s ∈ t.lines) : s.broken = false :=
  broken_eq_false_iff.mpr fun hs ↦ (Target.mem_splitAt h hs).2 rfl

/-- A text of one line is that line. -/
theorem eq_of_lines_eq_singleton (h : t.lines = [s]) : t = s := by
  have hjoin : List.intercalate [(.scalar '\n' : CodePoint)] (t.lines.map (List.map id)) = _ :=
    Target.intercalate_splitAt id (.scalar '\n') t
  -- Every line feed is replaced by itself.
  have hself : (t.map fun c ↦ if c = .scalar '\n' then .scalar '\n' else id c) = t := by
    refine (List.map_congr_left fun c _ ↦ ?_).trans (List.map_id t)
    split
    · exact Eq.symm ‹_›
    · rfl
  rw [h, hself] at hjoin
  simpa using hjoin.symm

/-- Repeating a text does not break it. -/
theorem broken_times (n : Nat) (h : t.broken = false) : (times n t).broken = false := by
  rw [broken_eq_false_iff] at h ⊢
  intro hmem
  obtain ⟨_, hs, hfeed⟩ := List.mem_flatten.mp hmem
  rw [List.eq_of_mem_replicate hs] at hfeed
  exact h hfeed

/-- A numeral has digits only. -/
@[simp] theorem broken_ofNat (n : Nat) : (ofNat n).broken = false :=
  broken_eq_false_iff.mpr fun hmem ↦ absurd (isDigit_of_mem_ofNat hmem) (by decide)

@[simp] theorem broken_ofInt (i : Int) : (ofInt i).broken = false := by
  cases i with
  | ofNat n => exact broken_ofNat n
  | negSucc n => simp [ofInt, broken_ofNat]

end Text

namespace Target

@[simp] theorem broken_quote (t : Text) : (quote t).broken = t.broken := by
  rw [quote]
  -- A text may be quoted in one way or the other, or, if it holds both quotes, in parts.
  split
  · simp
  · split
    · simp
    · have hsep : (.scalar '"' : CodePoint) ≠ '\n' := by decide
      rw [Text.broken_joinWith (by simp), List.any_map, ← Text.broken_splitAt hsep t]
      congr 1
      funext part
      simp

@[simp] theorem broken_commaList (ts : List Text) : (commaList ts).broken = ts.any Text.broken :=
  Text.broken_joinWith (by simp) ts

@[simp] theorem broken_sum (ts : List Text) : (sum ts).broken = ts.any Text.broken :=
  Text.broken_joinWith (by simp) ts

/-- A call is broken if the name of the function or an argument is. -/
@[simp] theorem broken_callText (f : Text) (ts : List Text) :
    (callText f ts).broken = (f.broken || ts.any Text.broken) := by
  simp [callText]

@[simp] theorem broken_braced (ts : List Text) : (braced ts).broken = ts.any Text.broken := by
  simp [braced]

/-- Parentheses around a sum do not matter. -/
@[simp] theorem broken_groupedSum (ts : List Text) :
    (groupedSum ts).broken = ts.any Text.broken := by
  unfold groupedSum
  split
  · simp
  · simp

theorem any_broken_printAll (ps : List Piece) :
    (Piece.printAll ps).any Text.broken = ps.any (·.print.broken) := by
  induction ps with
  | nil => rfl
  | cons p ps ih => rw [Piece.printAll, List.any_cons, List.any_cons, ih]

/-- No line of a text is left in another one. -/
theorem broken_ofText (t : Text) : (Piece.printAll (Piece.ofText t)).any Text.broken = false := by
  rw [any_broken_printAll, List.any_eq_false]
  intro p hp
  obtain rfl | ⟨line, rfl, hline⟩ := mem_ofText hp
  · simp [Piece.print, lineBreakConstant]
  · simpa [Piece.print] using Text.broken_eq_false_iff.mpr hline

end Target

end Advplc
