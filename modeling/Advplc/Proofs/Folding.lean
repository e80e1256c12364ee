import Advplc.Proofs.Target.Arithmetic
import Advplc.Proofs.Target.Pattern
import Advplc.Proofs.Target.Value

/-!
# Arithmetic that is done on the spot

The start and the count of a `SubStr`, and the bound of a counting loop, are sums and differences
that stand nowhere in the program.  Where their operands are integer literals they are computed at
once, and else they are written out.  Here it is shown that this makes no difference, for every way
in which the other operands may turn out.

`Worth t v` says what the text `t` is worth.  Some places in it are the code of expressions that
are no integer literals; if these turn out to be integers `σ e`, the text is worth `v σ`.

* It is the text that is read (`Target.evaluate`), not the tree it was printed from, so a numeral
  that was taken over from the program counts for what its digits say, whatever set they are from.
* An operand is taken as a whole, and in all places where its code stands it turns out the same.
  What an operand does besides having a value, twice if its code stands in two places, is not a
  matter of arithmetic.

`worth_shift` and `worth_distance` go through the cases of the two operations, and
`folding_agrees` puts them together with what becomes of the calls of `substring`.
-/

set_option autoImplicit false

namespace Advplc.Lowering

open Target (Pattern integer? evaluate)

/-! ## Values -/

/-- The value of an integer literal, by the places of its digits. -/
def literal? : Script.Expr → Option Nat
  | .number _ (.text t) => t.placeValue?
  | _ => none

theorem natural?_eq_literal? (e : Script.Expr) : natural? e = literal? e := by
  rw [natural?.eq_def]
  split
  · exact Text.natural?_eq_placeValue? _
  · rename_i hnone
    rw [literal?]
    exact hnone

/-- The value of an expression where `σ` gives the values of those that are no integer literals. -/
def valueOf (σ : Script.Expr → Int) (e : Script.Expr) : Int :=
  ((literal? e).map Int.ofNat).getD (σ e)

theorem valueOf_literal {e : Script.Expr} {n : Nat} (h : natural? e = some n)
    (σ : Script.Expr → Int) : valueOf σ e = n := by
  rw [valueOf, ← natural?_eq_literal?, h]
  rfl

theorem valueOf_other {e : Script.Expr} (h : natural? e = none) (σ : Script.Expr → Int) :
    valueOf σ e = σ e := by
  rw [valueOf, ← natural?_eq_literal?, h]
  rfl

/-- The code of an expression that can be translated. -/
def codeOf (e : Script.Expr) : Text :=
  match lower e with
  | .ok x => x.print
  | .error _ => []

theorem codeOf_ok {e : Script.Expr} {x : Target.Expr} (h : lower e = .ok x) :
    codeOf e = x.print := by
  rw [codeOf, h]

/-- Whether a text, read by `read`, is worth `v σ` for all values `σ` of the expressions that are no
integer literals and whose code stands in it. -/
def WorthBy (read : Text → Option Int) (t : Text) (v : (Script.Expr → Int) → Int) : Prop :=
  ∃ P : Pattern Script.Expr, P.fill codeOf = t ∧
    (∀ e ∈ P.openings, literal? e = none ∧ ∃ x, lower e = .ok x) ∧
    ∀ σ, read (P.fill fun e ↦ Text.ofInt (σ e)) = some (v σ)

/-- Whether a text is worth `v σ` as generated arithmetic. -/
def Worth (t : Text) (v : (Script.Expr → Int) → Int) : Prop := WorthBy evaluate t v

section Worth

variable {s t : Text} {v w : (Script.Expr → Int) → Int}

/-- An integer is worth what it writes. -/
theorem WorthBy.worth (h : WorthBy integer? t v) : Worth t v := by
  obtain ⟨P, hcode, hopen, hread⟩ := h
  exact ⟨P, hcode, hopen, fun σ ↦ Target.evaluate_of_integer? (hread σ)⟩

theorem worth_ofInt (i : Int) : WorthBy integer? (Text.ofInt i) fun _ ↦ i :=
  ⟨Pattern.of (Text.ofInt i), Pattern.fill_of _ _, by simp, fun σ ↦ by
    rw [Pattern.fill_of]
    exact Target.integer?_ofInt i⟩

/-- **The code of an operand is worth what the operand is.** -/
theorem worth_operand {e : Script.Expr} {x : Target.Expr} (h : lower e = .ok x) :
    WorthBy integer? x.print fun σ ↦ valueOf σ e := by
  cases he : natural? e with
  | some n =>
    obtain ⟨t, rfl, ht⟩ := exists_number_of_natural? he h
    refine ⟨Pattern.of t, Pattern.fill_of _ _, by simp, fun σ ↦ ?_⟩
    rw [Pattern.fill_of, Target.integer?_of_natural? ht]
    exact congrArg some (valueOf_literal he σ).symm
  | none =>
    refine ⟨Pattern.place e, (Pattern.fill_place _ _).trans (codeOf_ok h), ?_, fun σ ↦ ?_⟩
    · rw [Pattern.openings_place]
      exact List.forall_mem_singleton.mpr ⟨(natural?_eq_literal? e).symm.trans he, x, h⟩
    · rw [Pattern.fill_place, Target.integer?_ofInt]
      exact congrArg some (valueOf_other he σ).symm

/-- The text of an operation on two operands is worth what the operation makes of their values. -/
theorem WorthBy.operation (hs : WorthBy integer? s v) (ht : WorthBy integer? t w) {op : Text}
    {f : Int → Int → Int} (hop : ∀ {s t : Text} {a b : Int}, integer? s = some a →
      integer? t = some b → evaluate ("(" ++ s ++ " " ++ op ++ " " ++ t ++ ")") = some (f a b)) :
    Worth ("(" ++ s ++ " " ++ op ++ " " ++ t ++ ")") fun σ ↦ f (v σ) (w σ) := by
  obtain ⟨P, hcode, hopen, hread⟩ := hs
  obtain ⟨Q, hcode', hopen', hread'⟩ := ht
  refine ⟨Pattern.of "(" ++ P ++ Pattern.of " " ++ Pattern.of op ++ Pattern.of " " ++ Q ++
    Pattern.of ")", by simp [hcode, hcode'], fun e he ↦ ?_, fun σ ↦ ?_⟩
  · simp only [Pattern.openings_append, Pattern.openings_of, List.nil_append, List.append_nil,
      List.mem_append] at he
    exact he.elim (hopen e) (hopen' e)
  · simp only [Pattern.fill_append, Pattern.fill_of]
    exact hop (hread σ) (hread' σ)

end Worth

/-! ## The folded operations -/

section Folding

variable {s e : Script.Expr} {x y : Target.Expr}

/-- **A shifted expression is worth its value and the number it was shifted by**, whether the sum
was computed or written out. -/
theorem worth_shift (h : lower s = .ok x) (delta : Int) :
    Worth (shift s x delta).print fun σ ↦ valueOf σ s + delta := by
  have hoperand := worth_operand h
  have hamount := worth_ofInt delta.natAbs
  rw [shift]
  cases hs : natural? s with
  | some n =>
    simp only [valueOf_literal hs, Target.Expr.print]
    exact (worth_ofInt (n + delta)).worth
  | none =>
    simp only [Target.Expr.print]
    split
    · rename_i hpos
      have habs : delta = delta.natAbs := by omega
      have hsum := hoperand.operation hamount Target.evaluate_sum
      simpa only [← habs] using hsum
    · -- Subtracting what a shift downwards amounts to is adding the shift; for zero too.
      rename_i hneg
      have habs : ∀ i : Int, i - delta.natAbs = i + delta := by omega
      have hdiff := hoperand.operation hamount Target.evaluate_difference
      simpa only [habs] using hdiff

/-- **A distance is worth the difference of its ends**, whether it was computed, is one of the ends,
or was written out. -/
theorem worth_distance (hs : lower s = .ok x) (he : lower e = .ok y) :
    Worth (distance s x e y).print fun σ ↦ valueOf σ e - valueOf σ s := by
  rw [distance]
  split
  · rename_i m n hm hn
    simp only [valueOf_literal hm, valueOf_literal hn, Target.Expr.print]
    exact (worth_ofInt (n - m)).worth
  · rename_i hm hn
    simp only [valueOf_literal hm, Int.natCast_zero, Int.sub_zero]
    exact (worth_operand he).worth
  · exact (worth_operand he).operation (worth_operand hs) Target.evaluate_difference

/-- A literal that is shifted is computed. -/
theorem isPlain_shift (hs : literal? s ≠ none) (x : Target.Expr) (delta : Int) :
    (shift s x delta).print.IsPlain := by
  obtain ⟨n, hn⟩ := Option.ne_none_iff_exists'.mp hs
  rw [shift, natural?_eq_literal?, hn]
  exact Text.isPlain_ofInt _

/-- The distance of two literals is computed. -/
theorem isPlain_distance (hs : literal? s ≠ none) (he : literal? e ≠ none) (x y : Target.Expr) :
    (distance s x e y).print.IsPlain := by
  obtain ⟨m, hm⟩ := Option.ne_none_iff_exists'.mp hs
  obtain ⟨n, hn⟩ := Option.ne_none_iff_exists'.mp he
  rw [distance, natural?_eq_literal?, natural?_eq_literal?, hm, hn]
  exact Text.isPlain_ofInt _

end Folding

/-- Whether an expression is translated, to code that is worth `v σ` and is a plain decimal if it
was computed. -/
def Folds (r : Except Error Target.Expr) (v : (Script.Expr → Int) → Int) (computed : Prop) : Prop :=
  ∃ x, r = .ok x ∧ Worth x.print v ∧ (computed → x.print.IsPlain)

section Folds

variable {s e : Script.Expr} {x y : Target.Expr} {f : Error}

theorem lowerShifted_folds (h : lower s = .ok x) (delta : Int) :
    Folds (lowerShifted s delta) (fun σ ↦ valueOf σ s + delta) (literal? s ≠ none) :=
  ⟨shift s x delta, by rw [lowerShifted, h]; rfl, worth_shift h delta,
    fun hs ↦ isPlain_shift hs x delta⟩

theorem lowerDistance_folds (hs : lower s = .ok x) (he : lower e = .ok y) :
    Folds (lowerDistance s e) (fun σ ↦ valueOf σ e - valueOf σ s)
      (literal? s ≠ none ∧ literal? e ≠ none) :=
  ⟨distance s x e y, by rw [lowerDistance, he, hs]; rfl, worth_distance hs he,
    fun h ↦ isPlain_distance h.1 h.2 x y⟩

theorem lowerShifted_error (h : lower s = .error f) (delta : Int) :
    lowerShifted s delta = .error f := by
  rw [lowerShifted, h]
  rfl

/-- The end is translated before the start. -/
theorem lowerDistance_error (h : lower e = .error f ∨ (∃ y, lower e = .ok y) ∧ lower s = .error f) :
    lowerDistance s e = .error f := by
  rw [lowerDistance]
  obtain h | ⟨⟨y, hy⟩, h⟩ := h
  · rw [h]
    rfl
  · rw [hy, h]
    rfl

end Folds

/-! ## Substrings -/

/-- A call of the method `substring` of `r`. -/
def substringCall (pos memberPos namePos : Option Pos) (r : Script.Expr) (as : List Script.Expr) :
    Script.Expr :=
  .call pos (.member memberPos r "substring" namePos) as

section Substrings

variable {pos memberPos namePos : Option Pos} {r i j : Script.Expr} {x y z : Target.Expr}

theorem lower_substringCall (pos memberPos namePos : Option Pos) (r : Script.Expr)
    (as : List Script.Expr) : lower (substringCall pos memberPos namePos r as) = (do
      let args ← lowerAll as
      applyMethod .substring r.pos (← lower r) (as.zip args)) := by
  rw [substringCall, lower]
  rfl

theorem substring_from (hr : lower r = .ok x) (hi : lower i = .ok y) :
    lower (substringCall pos memberPos namePos r [i]) = .ok (apply "SubStr" [x, shift i y 1]) := by
  rw [lower_substringCall, lowerAll, lowerAll, hi, hr]
  rfl

theorem substring_between (hr : lower r = .ok x) (hi : lower i = .ok y) (hj : lower j = .ok z) :
    lower (substringCall pos memberPos namePos r [i, j]) =
      .ok (apply "SubStr" [x, shift i y 1, distance i y j z]) := by
  rw [lower_substringCall, lowerAll, lowerAll, lowerAll, hi, hj, hr]
  rfl

theorem lowerAll_error {as : List Script.Expr} (h : ∃ a ∈ as, ∃ f, lower a = .error f) :
    ∃ f, lowerAll as = .error f := by
  induction as with
  | nil => obtain ⟨a, ha, -⟩ := h; cases ha
  | cons a as ih =>
    rw [lowerAll]
    cases ha : lower a with
    | error f => exact ⟨f, rfl⟩
    | ok x =>
      obtain ⟨b, hb, f, hf⟩ := h
      obtain rfl | hb := List.mem_cons.mp hb
      · rw [ha] at hf
        cases hf
      · obtain ⟨f, hf⟩ := ih ⟨b, hb, f, hf⟩
        exact ⟨f, by rw [hf]; rfl⟩

/-- A call is refused if a part of it is. -/
theorem substring_error {as : List Script.Expr}
    (h : (∃ f, lower r = .error f) ∨ ∃ a ∈ as, ∃ f, lower a = .error f) :
    ∃ f, lower (substringCall pos memberPos namePos r as) = .error f := by
  rw [lower_substringCall]
  cases has : lowerAll as with
  | error f => exact ⟨f, rfl⟩
  | ok args =>
    obtain ⟨f, hf⟩ | ha := h
    · exact ⟨f, by rw [hf]; rfl⟩
    · obtain ⟨f, hf⟩ := lowerAll_error ha
      rw [has] at hf
      cases hf

end Substrings

/-- **Arithmetic that is done on the spot agrees with arithmetic that is written out.**  A shifted
expression is worth its value and the shift, and a distance the difference of its ends; what is
computed is written as a plain decimal.  So the function for `substring` is called with a start that
is one more than the start in the program, and with a count that is the end less the start. -/
theorem folding_agrees :
    (∀ s delta,
      (∀ x, lower s = .ok x → Folds (lowerShifted s delta) (fun σ ↦ valueOf σ s + delta)
        (literal? s ≠ none)) ∧
      ∀ f, lower s = .error f → lowerShifted s delta = .error f) ∧
    (∀ s e,
      (∀ x y, lower s = .ok x → lower e = .ok y → Folds (lowerDistance s e)
        (fun σ ↦ valueOf σ e - valueOf σ s) (literal? s ≠ none ∧ literal? e ≠ none)) ∧
      ∀ f, lower e = .error f ∨ (∃ y, lower e = .ok y) ∧ lower s = .error f →
        lowerDistance s e = .error f) ∧
    ∀ pos memberPos namePos r i,
      (∀ x y, lower r = .ok x → lower i = .ok y →
        ∃ z a, lower (substringCall pos memberPos namePos r [i]) = .ok z ∧
          z.print = Target.callText "SubStr" [x.print, a] ∧
          Worth a (fun σ ↦ valueOf σ i + 1)) ∧
      (∀ j x y y', lower r = .ok x → lower i = .ok y → lower j = .ok y' →
        ∃ z a b, lower (substringCall pos memberPos namePos r [i, j]) = .ok z ∧
          z.print = Target.callText "SubStr" [x.print, a, b] ∧
          Worth a (fun σ ↦ valueOf σ i + 1) ∧
          Worth b fun σ ↦ valueOf σ j - valueOf σ i) ∧
      ∀ as, ((∃ f, lower r = .error f) ∨ ∃ a ∈ as, ∃ f, lower a = .error f) →
        ∃ f, lower (substringCall pos memberPos namePos r as) = .error f := by
  refine ⟨fun s delta ↦
      ⟨fun x h ↦ lowerShifted_folds h delta, fun f h ↦ lowerShifted_error h delta⟩,
    fun s e ↦ ⟨fun x y hs he ↦ lowerDistance_folds hs he, fun f h ↦ lowerDistance_error h⟩,
    fun pos memberPos namePos r i ↦ ⟨fun x y hr hi ↦ ?_, fun j x y y' hr hi hj ↦ ?_,
      fun as h ↦ substring_error h⟩⟩
  · exact ⟨_, _, substring_from hr hi, rfl, worth_shift hi 1⟩
  · exact ⟨_, _, _, substring_between hr hi hj, rfl, worth_shift hi 1, worth_distance hi hj⟩

/-- The literal `٠٥`, a name, and an operation that there is no operator for. -/
theorem folding_agrees_sample :
    let five : Script.Expr := .number none "٠٥"
    let n : Script.Expr := .name none "n"
    let power : Script.Expr := .binary none "**" n n
    let refused : Error := ⟨.binaryOperator "**", none⟩
    ((literal? five = some 5 ∧ ∃ x, lowerShifted five (-7) = .ok x ∧ x.print.IsPlain ∧
        Worth x.print fun σ ↦ valueOf σ five + -7) ∧
      lowerShifted power 1 = .error refused) ∧
    ((∃ x, lowerDistance five n = .ok x ∧ Worth x.print fun σ ↦ valueOf σ n - valueOf σ five) ∧
      lowerDistance n power = .error refused ∧ lowerDistance power n = .error refused) ∧
    (∃ z a, lower (substringCall none none none n [five]) = .ok z ∧
      z.print = Target.callText "SubStr" ["n", a] ∧ Worth a fun σ ↦ valueOf σ five + 1) ∧
    (∃ z a b, lower (substringCall none none none n [five, n]) = .ok z ∧
      z.print = Target.callText "SubStr" ["n", a, b] ∧ (Worth a fun σ ↦ valueOf σ five + 1) ∧
      Worth b fun σ ↦ valueOf σ n - valueOf σ five) ∧
    ∃ f, lower (substringCall none none none n [five, power]) = .error f := by
  intro five n power refused
  have hliteral : literal? five = some 5 := by decide
  have hfive : lower five = .ok (.number "٠٥") := by rw [lower]; rfl
  have hn : lower n = .ok (.name "n") := by rw [lower]; rfl
  have hpower : lower power = .error refused := by rw [lower]; rfl
  obtain ⟨hshift, hdistance, hcalls⟩ := folding_agrees
  obtain ⟨x, hx, hworth, hplain⟩ := (hshift five (-7)).1 _ hfive
  obtain ⟨y, hy, hworth', -⟩ := (hdistance five n).1 _ _ hfive hn
  obtain ⟨hfrom, hbetween, hfails⟩ := hcalls none none none n five
  exact ⟨⟨⟨hliteral, x, hx, hplain (by rw [hliteral]; exact Option.some_ne_none 5), hworth⟩,
      (hshift power 1).2 _ hpower⟩,
    ⟨⟨y, hy, hworth'⟩, (hdistance n power).2 _ (.inl hpower),
      (hdistance power n).2 _ (.inr ⟨⟨_, hn⟩, hpower⟩)⟩,
    hfrom _ _ hn hfive, hbetween n _ _ _ hn hfive hn,
    hfails [five, power] (.inr ⟨power, by simp, refused, hpower⟩)⟩

end Advplc.Lowering
