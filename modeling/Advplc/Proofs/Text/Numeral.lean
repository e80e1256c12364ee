import Advplc.Text.Digit
import Mathlib.Data.Nat.Digits.Defs

/-!
# Numerals by their place values

`Text.natural?` works through a numeral from the left.  `Text.placeValue?` is the value that the
numeral has by definition, the sum of its digits times the powers of ten, and the two are the same
for every text (`natural?_eq_placeValue?`): for digits of any set, with zeros in front, and for what
is no numeral at all.

In the other direction `Text.ofNat` writes a number that is read back as the same number
(`natural?_ofNat`), and `Text.ofInt` writes nothing but plain decimals (`isPlain_ofInt`).
-/

set_option autoImplicit false

namespace Advplc.Text

/-! ## Reading -/

/-- The number that a run of decimal digits stands for, where the last digit counts as ones, the one
before it as tens, and so on. -/
def placeValue? (t : Text) : Option Nat :=
  if t = [] then none
  else (t.mapM CodePoint.digitValue?).map fun digits ↦ Nat.ofDigits 10 digits.reverse

theorem numeralAfter_eq (n : Nat) (t : Text) : numeralAfter n t =
    (t.mapM CodePoint.digitValue?).map fun digits ↦
      Nat.ofDigits 10 digits.reverse + 10 ^ digits.length * n := by
  induction t generalizing n with
  | nil => simp [numeralAfter]
  | cons c t ih =>
    rw [numeralAfter, List.mapM_cons]
    cases c.digitValue? with
    | none => rfl
    | some d =>
      simp only [ih]
      cases t.mapM CodePoint.digitValue? with
      | none => rfl
      | some digits =>
        refine congrArg some ?_
        simp only [List.reverse_cons, Nat.ofDigits_append, Nat.ofDigits_singleton,
          List.length_reverse, List.length_cons]
        ring

/-- **A numeral is worth the sum of its digits times the powers of ten.** -/
theorem natural?_eq_placeValue? (t : Text) : t.natural? = t.placeValue? := by
  rw [natural?, placeValue?]
  cases t with
  | nil => rfl
  | cons c t =>
    rw [List.isEmpty_cons, if_neg Bool.false_ne_true, if_neg (List.cons_ne_nil c t),
      numeralAfter_eq]
    simp only [Nat.mul_zero, Nat.add_zero]

theorem numeralAfter_append (n : Nat) (s t : Text) :
    numeralAfter n (s ++ t) = (numeralAfter n s).bind fun m ↦ numeralAfter m t := by
  induction s generalizing n with
  | nil => rfl
  | cons c s ih =>
    rw [List.cons_append, numeralAfter, numeralAfter]
    cases c.digitValue? with
    | none => rfl
    | some d => exact ih _

/-- A numeral consists of digits. -/
theorem isDigit_of_natural? {w : Text} {n : Nat} (h : w.natural? = some n) :
    w ≠ [] ∧ ∀ c ∈ w, c.isDigit = true := by
  have hdigits : ∀ {t : Text} {m n : Nat}, numeralAfter m t = some n →
      ∀ c ∈ t, c.isDigit = true := by
    intro t
    induction t with
    | nil => simp
    | cons c t ih =>
      intro m n h
      rw [numeralAfter] at h
      split at h
      · rename_i d hd
        refine List.forall_mem_cons.mpr ⟨?_, ih h⟩
        rw [CodePoint.isDigit, hd]
        rfl
      · cases h
  rw [natural?] at h
  split at h
  · cases h
  · rename_i hw
    exact ⟨fun hnil ↦ hw (List.isEmpty_iff.mpr hnil), hdigits h⟩

/-! ## Writing -/

theorem isDigit_of_mem_ofNat {n : Nat} {c : Char} (h : .scalar c ∈ ofNat n) : c.isDigit = true := by
  obtain ⟨d, hd, hc⟩ := List.mem_map.mp h
  exact CodePoint.scalar.inj hc ▸ Nat.isDigit_of_mem_toDigits (by decide) (by decide) hd

theorem ofNat_ne_nil (n : Nat) : ofNat n ≠ [] := fun h ↦
  Nat.toDigits_ne_nil (List.map_eq_nil_iff.mp h)

/-- The ones come last. -/
theorem ofNat_eq (n : Nat) : ofNat n =
    (if n < 10 then [] else ofNat (n / 10)) ++ [.scalar (n % 10).digitChar] := by
  rw [ofNat, Nat.toDigits_eq_if (by decide)]
  split
  · rename_i hn
    rw [Nat.mod_eq_of_lt hn]
    rfl
  · rw [List.map_append]
    rfl

theorem digitValue?_digitChar :
    ∀ d < 10, CodePoint.digitValue? (.scalar (Nat.digitChar d)) = some d := by decide

/-- **A number that is written is read back.** -/
theorem natural?_ofNat (n : Nat) : (ofNat n).natural? = some n := by
  have hrun : ∀ n, numeralAfter 0 (ofNat n) = some n := by
    intro n
    induction n using Nat.strongRecOn with
    | ind n ih =>
      have hones : ∀ m, numeralAfter m [.scalar (n % 10).digitChar] = some (10 * m + n % 10) := by
        intro m
        rw [numeralAfter, digitValue?_digitChar _ (Nat.mod_lt n (by decide))]
        rfl
      rw [ofNat_eq, numeralAfter_append]
      split
      · rename_i hn
        exact (hones 0).trans (congrArg some (by omega))
      · rw [ih (n / 10) (by omega)]
        exact (hones (n / 10)).trans (congrArg some (by omega))
  rw [natural?, if_neg (by simp [ofNat_ne_nil]), hrun]

/-- No number but zero is written with a zero in front. -/
theorem head?_ofNat {n : Nat} (hn : n ≠ 0) : (ofNat n).head? ≠ some '0' := by
  have hdigit : ∀ d < 10, d ≠ 0 → CodePoint.scalar (Nat.digitChar d) ≠ '0' := by decide
  induction n using Nat.strongRecOn with
  | ind n ih =>
    rw [ofNat_eq]
    split
    · rename_i hlt
      rw [Nat.mod_eq_of_lt hlt]
      exact fun h ↦ hdigit n hlt hn (Option.some.inj h)
    · have hhead := ih (n / 10) (by omega) (by omega)
      obtain ⟨c, rest, hcons⟩ := List.exists_cons_of_ne_nil (ofNat_ne_nil (n / 10))
      rw [hcons] at hhead ⊢
      exact hhead

/-- Whether a text is a plain decimal: ASCII digits, perhaps with a minus sign in front, and no zero
in front of other digits or behind a minus sign. -/
def IsPlain (t : Text) : Prop :=
  ∃ sign digits : Text, t = sign ++ digits ∧ (sign = [] ∨ sign = "-") ∧ digits ≠ [] ∧
    (∀ c ∈ digits, ∃ d : Char, c = .scalar d ∧ d.isDigit = true) ∧
    (digits.head? = some '0' → t = "0")

/-- **Integers are written as plain decimals.** -/
theorem isPlain_ofInt (i : Int) : (ofInt i).IsPlain := by
  have hdigits : ∀ n, ∀ c ∈ ofNat n, ∃ d : Char, c = .scalar d ∧ d.isDigit = true := by
    intro n c hc
    obtain ⟨d, -, rfl⟩ := List.mem_map.mp hc
    exact ⟨d, rfl, isDigit_of_mem_ofNat hc⟩
  cases i with
  | ofNat n =>
    refine ⟨[], ofNat n, rfl, .inl rfl, ofNat_ne_nil n, hdigits n, fun hzero ↦ ?_⟩
    obtain rfl : n = 0 := by_contra fun hn ↦ head?_ofNat hn hzero
    rfl
  | negSucc n =>
    exact ⟨"-", ofNat (n + 1), rfl, .inr rfl, ofNat_ne_nil _, hdigits _,
      fun hzero ↦ absurd hzero (head?_ofNat (Nat.succ_ne_zero n))⟩

end Advplc.Text
