import Advplc.Proofs.Token.Layout
import Advplc.Text.Escape

/-!
# Writing texts as string literals

`Spells quote inside value` says that `inside`, between two `quote`s, is one of the ways to write
the text `value`.  The backslash, the quote and the two code points that end a line are written
after a backslash; any other code point stands for itself; and a code point may always be written by
its number, if the number has four digits.

* `Spells.unescape` says that reading the escapes gives the text back.
* `Spells.first?` says that the lexer takes the quotes and all between them for one string.
-/

set_option autoImplicit false

namespace Advplc

/-- The first four code points are hexadecimal digits, in either case, and number the last one. -/
def CodePoint.Numbers (a b c d e : CodePoint) : Prop :=
  ∃ i j k l, a.hexValue? = some i ∧ b.hexValue? = some j ∧ c.hexValue? = some k ∧
    d.hexValue? = some l ∧ e.val = ((i * 16 + j) * 16 + k) * 16 + l

/-- Between two `quote`s, the first text is a way to write the second one. -/
inductive Text.Spells (quote : CodePoint) : Text → Text → Prop where
  | nil : Spells quote [] []
  /-- Most code points stand for themselves. -/
  | raw {c : CodePoint} {inside value : Text} (hescape : c ≠ '\\') (hquote : c ≠ quote)
      (hfeed : c ≠ '\n') (hreturn : c ≠ '\r') (h : Spells quote inside value) :
      Spells quote (c :: inside) (c :: value)
  /-- A backslash and the quote are written after a backslash. -/
  | escaped {c : CodePoint} {inside value : Text} (hc : c = '\\' ∨ c = quote)
      (h : Spells quote inside value) : Spells quote ('\\' :: c :: inside) (c :: value)
  | feed {inside value : Text} (h : Spells quote inside value) :
      Spells quote ('\\' :: 'n' :: inside) ('\n' :: value)
  | carriageReturn {inside value : Text} (h : Spells quote inside value) :
      Spells quote ('\\' :: 'r' :: inside) ('\r' :: value)
  /-- Any code point with a number of four digits may be written by that number. -/
  | numbered {a b c d e : CodePoint} {inside value : Text} (hnumber : CodePoint.Numbers a b c d e)
      (h : Spells quote inside value) :
      Spells quote ('\\' :: 'u' :: a :: b :: c :: d :: inside) (e :: value)

/-! ## Reading escapes -/

theorem CodePoint.ofNat_val (c : CodePoint) : CodePoint.ofNat c.val = c := by
  cases c with
  | scalar c =>
    have hvalid : c.toNat.isValidChar := c.valid
    rw [ofNat, val, if_pos hvalid, Char.ofNat_toNat]
  | surrogate i =>
    have hinvalid : ¬ (0xD800 + i.val).isValidChar := by
      have := i.isLt
      simp only [Nat.isValidChar]
      omega
    rw [ofNat, val, if_neg hinvalid, Nat.add_sub_cancel_left, Fin.ofNat_val_eq_self]

theorem CodePoint.Numbers.numbered? {a b c d e : CodePoint} (h : Numbers a b c d e) :
    Text.numbered? a b c d = some e := by
  obtain ⟨i, j, k, l, hi, hj, hk, hl, hval⟩ := h
  simp only [Text.numbered?, hi, hj, hk, hl, ← hval, ofNat_val]

theorem Text.unescape_raw {c : CodePoint} (hc : c ≠ '\\') (t : Text) :
    unescape (c :: t) = c :: unescape t := by
  rw [unescape]
  · intro a b x y rest h
    exact absurd h hc
  · intro d rest h
    exact absurd h hc

theorem Text.unescape_escaped {c : CodePoint} (hc : c ≠ 'u') (t : Text) :
    unescape ('\\' :: c :: t) = c.escaped ++ unescape t := by
  rw [unescape]
  intro a b x y rest h
  exact absurd h hc

namespace Text.Spells

variable {quote : CodePoint} {inside value : Text}

/-- **The escapes are read back.** -/
theorem unescape (hquote : quote = '"' ∨ quote = '\'') (h : Spells quote inside value) :
    inside.unescape = value := by
  induction h with
  | nil => rfl
  | raw hescape _ _ _ _ ih => rw [unescape_raw hescape, ih]
  | escaped hc _ ih =>
    obtain rfl | rfl := hc
    · rw [unescape_escaped (by decide), ih]
      rfl
    · obtain rfl | rfl := hquote <;> (rw [unescape_escaped (by decide), ih]; rfl)
  | feed _ ih | carriageReturn _ ih =>
    rw [unescape_escaped (by decide), ih]
    rfl
  | numbered hnumber _ ih => rw [Text.unescape, hnumber.numbered?, ih]

/-! ## Scanning literals -/

/-- A literal goes on behind what it is written with, and ends at the next quote. -/
theorem literalEnd (hquote : quote = '"' ∨ quote = '\'') (h : Spells quote inside value)
    (rest : Text) :
    Rule.literalEnd quote false (inside ++ quote :: rest) = some (inside.length + 1) := by
  have hraw : ∀ {c : CodePoint} {t : Text}, c ≠ '\\' → c ≠ quote → c ≠ '\n' →
      Rule.literalEnd quote false (c :: t) = (Rule.literalEnd quote false t).map (· + 1) := by
    intro c t hescape hquote hfeed
    rw [Rule.literalEnd_cons hescape, if_neg hquote, if_neg (by simp [hfeed])]
  have hescaped : ∀ {c : CodePoint} {t : Text}, c ≠ '\n' →
      Rule.literalEnd quote false ('\\' :: c :: t) =
        (Rule.literalEnd quote false t).map (· + 2) := by
    intro c t hfeed
    rw [Rule.literalEnd_escape, if_neg hfeed]
  induction h with
  | nil =>
    rw [List.nil_append, Rule.literalEnd_cons, if_pos rfl]
    · rfl
    · obtain rfl | rfl := hquote <;> decide
  | raw hescape hc hfeed _ _ ih =>
    rw [List.cons_append, hraw hescape hc hfeed, ih]
    rfl
  | escaped hc _ ih =>
    rw [List.cons_append, List.cons_append, hescaped, ih]
    · rfl
    · obtain rfl | rfl := hc
      · decide
      · obtain rfl | rfl := hquote <;> decide
  | feed _ ih | carriageReturn _ ih =>
    rw [List.cons_append, List.cons_append, hescaped (by decide), ih]
    rfl
  | numbered hnumber _ ih =>
    obtain ⟨i, j, k, l, hi, hj, hk, hl, -⟩ := hnumber
    have hdigit : ∀ {c : CodePoint} {n : Nat} {t : Text}, c.hexValue? = some n →
        Rule.literalEnd quote false (c :: t) = (Rule.literalEnd quote false t).map (· + 1) := by
      intro c n t hc
      refine hraw ?_ ?_ ?_
      · rintro rfl; cases hc
      · rintro rfl; obtain rfl | rfl := hquote <;> cases hc
      · rintro rfl; cases hc
    simp only [List.cons_append, hescaped (c := 'u') (by decide), hdigit hi, hdigit hj, hdigit hk,
      hdigit hl, ih, Option.map_some, List.length_cons]

/-- A carriage return is always written by an escape. -/
theorem return_not_mem (hquote : quote = '"' ∨ quote = '\'') (h : Spells quote inside value) :
    (.scalar '\r') ∉ inside := by
  induction h with
  | nil => exact List.not_mem_nil
  | raw _ _ _ hreturn _ ih => simp [ih, hreturn.symm]
  | escaped hc _ ih =>
    obtain rfl | rfl := hc
    · simp [ih]
    · obtain rfl | rfl := hquote <;> simp [ih]
  | feed _ ih | carriageReturn _ ih => simp [ih]
  | numbered hnumber _ ih =>
    obtain ⟨i, j, k, l, hi, hj, hk, hl, -⟩ := hnumber
    have hdigit : ∀ {c : CodePoint} {n : Nat}, c.hexValue? = some n → .scalar '\r' ≠ c := by
      rintro _ n hc rfl
      cases hc
    simp [ih, hdigit hi, hdigit hj, hdigit hk, hdigit hl]

end Text.Spells

/-- Where every rule that matches makes the same of a text, so does the first one. -/
theorem Rule.first?_eq_of_forall {before : Option Kind} {t : Text} {rule : Rule}
    (hrule : rule ∈ all) (hallowed : rule.allowed before = true) (hpos : 0 < rule.length t)
    (h : ∀ q ∈ all, 0 < q.length t → q.kind = rule.kind ∧ q.length t = rule.length t) :
    first? before t = some (rule.kind, rule.length t) := by
  have hmatch : rule.attempt before t = some (rule.kind, rule.length t) :=
    attempt_eq_some.mpr ⟨hallowed, hpos, rfl, rfl⟩
  have hsome : (first? before t).isSome := by
    rw [first?, List.findSome?_isSome_iff]
    exact ⟨rule, hrule, by rw [hmatch]; rfl⟩
  obtain ⟨⟨k, n⟩, hfirst⟩ := Option.isSome_iff_exists.mp hsome
  obtain ⟨q, hq, rfl, rfl, hn⟩ := exists_of_first? hfirst
  rw [hfirst, (h q hq hn).1, (h q hq hn).2]

/-- **The lexer takes a text in quotes for one string.** -/
theorem Text.Spells.first? {quote : CodePoint} {inside value : Text}
    (hquote : quote = '"' ∨ quote = '\'') (h : Spells quote inside value) (before : Option Kind)
    (rest : Text) : Rule.first? before (quote :: inside ++ quote :: rest) =
      some (some .string, (quote :: inside ++ [quote]).length) := by
  have hlength : Rule.quotedLiteral quote false (quote :: inside ++ quote :: rest) =
      (quote :: inside ++ [quote]).length := by
    rw [List.cons_append, Rule.quotedLiteral_cons, if_pos rfl, h.literalEnd hquote rest]
    simp
  have hkind : ∀ k, Kind.starts k quote = true → k = some .string := by
    rintro (_ | k) hk
    · obtain rfl | rfl := hquote <;> exact absurd hk (by decide)
    · cases k with
      | string => rfl
      | keyword k | mark k => obtain rfl | rfl := hquote <;> exact absurd hk (by cases k <;> decide)
      | other n => cases hk
      | _ => obtain rfl | rfl := hquote <;> exact absurd hk (by decide)
  have hstring : ∀ q ∈ Rule.all, 0 < q.length (quote :: inside ++ quote :: rest) →
      q.kind = some .string → q.length (quote :: inside ++ quote :: rest) =
        Rule.quotedLiteral quote false (quote :: inside ++ quote :: rest) := by
    refine Rule.forall_mem_all ?_ ?_ ?_ ?_ ?_ ?_ ?_ ?_ ?double ?single ?_ ?_
    case double | single =>
      intro hpos _
      rw [Rule.head_of_quotedLiteral hpos]
    all_goals intros; cases ‹_›
  have hmem : ⟨some .string, Rule.quotedLiteral quote false, fun _ ↦ true⟩ ∈ Rule.all := by
    obtain rfl | rfl := hquote <;> simp [Rule.all]
  rw [← hlength]
  refine Rule.first?_eq_of_forall hmem rfl (Nat.lt_of_lt_of_eq (Nat.succ_pos _) hlength.symm) ?_
  intro q hq hpos
  have hq' := hkind _ (Rule.starts_of_pos q hq hpos)
  exact ⟨hq', hstring q hq hpos hq'⟩

end Advplc
