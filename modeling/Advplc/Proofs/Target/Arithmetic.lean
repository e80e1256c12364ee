import Advplc.Proofs.Text.Numeral

/-!
# Arithmetic that is written down

What generated arithmetic is worth is a matter of its text, and `evaluate` reads it off the text: an
integer, or a sum or difference of two integers in parentheses, which are the forms in which a
shifted number and a distance are written.  Integers may have a minus sign and digits of any set.

The reader is deterministic, so a text has one value at most.  `evaluate_of_integer?`,
`evaluate_sum` and `evaluate_difference` say that it has the one it should have.
-/

set_option autoImplicit false

namespace Advplc.Target

/-! ## Reading -/

/-- The integer that a text writes: a numeral, perhaps with a minus sign in front. -/
def integer? : Text → Option Int
  | .scalar '-' :: t => (Text.natural? t).map fun n ↦ -Int.ofNat n
  | t => (Text.natural? t).map Int.ofNat

/-- Whether a code point can be part of an integer. -/
def inInteger (c : CodePoint) : Bool := c.isDigit || c = '-'

/-- Reads an integer off a text, as far as it goes. -/
def readInteger (t : Text) : Option (Int × Text) :=
  (integer? (t.takeWhile inInteger)).map fun i ↦ (i, t.dropWhile inInteger)

/-- Reads a plus or a minus between blanks off a text. -/
def readOperator : Text → Option ((Int → Int → Int) × Text)
  | .scalar ' ' :: .scalar '+' :: .scalar ' ' :: t => some ((· + ·), t)
  | .scalar ' ' :: .scalar '-' :: .scalar ' ' :: t => some ((· - ·), t)
  | _ => none

/-- The value of an integer, or of a sum or difference of two integers in parentheses. -/
def evaluate : Text → Option Int
  | .scalar '(' :: t => do
    let (a, t) ← readInteger t
    let (op, t) ← readOperator t
    let (b, t) ← readInteger t
    if t = ")" then some (op a b) else none
  | t => integer? t

/-! ## Integers -/

section Integers

variable {t r : Text} {i : Int}

theorem integer?_of_natural? {n : Nat} (h : t.natural? = some n) : integer? t = some (n : Int) := by
  have hdigits := (Text.isDigit_of_natural? h).2
  rw [integer?]
  · rw [h]
    rfl
  · rintro u rfl
    exact absurd (hdigits '-' List.mem_cons_self) (by decide)

/-- **An integer that is written is read back.** -/
theorem integer?_ofInt (i : Int) : integer? (Text.ofInt i) = some i := by
  cases i with
  | ofNat n => exact integer?_of_natural? (Text.natural?_ofNat n)
  | negSucc n =>
    show (Text.natural? (Text.ofNat (n + 1))).map (fun n ↦ -Int.ofNat n) = _
    rw [Text.natural?_ofNat]
    rfl

theorem inInteger_of_integer? (h : integer? t = some i) : ∀ c ∈ t, inInteger c = true := by
  have hdigits : ∀ {t : Text} {n : Nat}, t.natural? = some n → ∀ c ∈ t, inInteger c = true :=
    fun h c hc ↦ by rw [inInteger, (Text.isDigit_of_natural? h).2 c hc, Bool.true_or]
  rw [integer?.eq_def] at h
  split at h
  · obtain ⟨n, hn, -⟩ := Option.map_eq_some_iff.mp h
    exact List.forall_mem_cons.mpr ⟨by decide, hdigits hn⟩
  · obtain ⟨n, hn, -⟩ := Option.map_eq_some_iff.mp h
    exact hdigits hn

/-- An integer is read off as far as it goes if something else follows. -/
theorem readInteger_append (h : integer? t = some i) {c : CodePoint} (hc : inInteger c = false) :
    readInteger (t ++ c :: r) = some (i, c :: r) := by
  have hin := inInteger_of_integer? h
  rw [readInteger, List.takeWhile_append_of_pos hin, List.dropWhile_append_of_pos hin,
    List.takeWhile_cons_of_neg (by rw [hc]; exact Bool.false_ne_true),
    List.dropWhile_cons_of_neg (by rw [hc]; exact Bool.false_ne_true), List.append_nil, h]
  rfl

/-! ## Arithmetic -/

/-- An integer has the value it writes. -/
theorem evaluate_of_integer? (h : integer? t = some i) : evaluate t = some i := by
  rw [evaluate]
  · exact h
  · rintro u rfl
    exact absurd (inInteger_of_integer? h '(' List.mem_cons_self) (by decide)

end Integers

section Operations

variable {s t : Text} {a b : Int} (hs : integer? s = some a) (ht : integer? t = some b)
include hs ht

theorem evaluate_operation {op : CodePoint} {f : Int → Int → Int}
    (hop : ∀ u, readOperator (.scalar ' ' :: op :: .scalar ' ' :: u) = some (f, u)) :
    evaluate ("(" ++ s ++ " " ++ [op] ++ " " ++ t ++ ")") = some (f a b) := by
  have htext : (("(" ++ s ++ " " ++ [op] ++ " " ++ t ++ ")" : Text)) =
      .scalar '(' :: (s ++ .scalar ' ' :: op :: .scalar ' ' :: (t ++ .scalar ')' :: [])) := by
    simp [Text.ofString]
  rw [htext, evaluate, readInteger_append hs (by decide)]
  simp only [Option.bind_eq_bind, Option.bind_some, hop,
    readInteger_append ht (c := ')') (by decide)]
  rfl

/-- **A sum has the value of its terms together.** -/
theorem evaluate_sum : evaluate ("(" ++ s ++ " " ++ "+" ++ " " ++ t ++ ")") = some (a + b) :=
  evaluate_operation hs ht fun _ ↦ rfl

/-- **A difference has the value of its first term without that of its second.** -/
theorem evaluate_difference :
    evaluate ("(" ++ s ++ " " ++ "-" ++ " " ++ t ++ ")") = some (a - b) :=
  evaluate_operation hs ht fun _ ↦ rfl

end Operations

example : evaluate "(-12 - ٠٣)" = some (-15) := by decide

end Advplc.Target
