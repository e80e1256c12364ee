import Advplc.Lowering.Counting
import Advplc.Proofs.Grammar.Inside
import Advplc.Proofs.Lowering.Generated
import Advplc.Proofs.Target.Value
import Mathlib.Algebra.Order.Archimedean.Basic
import Mathlib.Algebra.Order.Field.Rat
import Mathlib.Tactic.Linarith

/-!
# What counting loops visit

A `for` loop that counts becomes a `For` of ADVPL, which goes up, or down, to a last value instead
of comparing with a bound.  `Visits` is the list of values for which the body of a loop runs, given
its test and what moves the variable on.  For the source, test and update are read off the tree
(`Admits`, `Changes`); for the generated loop they are what `For` means (`withinLimit`).

`counting_visits` compares the two.  Both lists are finite, and they are equal unless the variable
comes to lie strictly between the last value and the bound.  A bound that must not be reached is
moved by one to become the last value, so that takes a fraction.  That the line of the `For` names
just those values is `entries_of_lowerFor`.
-/

set_option autoImplicit false

namespace Advplc.Flow

open Script Lowering

/-! ## Loops -/

/-- The values for which the body of a loop runs, from `v` on: as long as the test holds, the value
is visited and moved on. -/
inductive Visits (test : ℚ → Prop) (next : ℚ → ℚ → Prop) : ℚ → List ℚ → Prop where
  | stop {v : ℚ} (h : ¬ test v) : Visits test next v []
  | round {v v' : ℚ} {vs : List ℚ} (h : test v) (hnext : next v v')
      (hrest : Visits test next v' vs) : Visits test next v (v :: vs)

/-- The test holds where the variable `name` has the value `v`, and what it is compared with has the
value `b`. -/
inductive Admits (name : Lexeme) (b v : ℚ) : Expr → Prop where
  | less (p q : Option Pos) (e : Expr) (h : v < b) :
      Admits name b v (.binary p "<" (.name q name) e)
  | lessEqual (p q : Option Pos) (e : Expr) (h : v ≤ b) :
      Admits name b v (.binary p "<=" (.name q name) e)
  | greater (p q : Option Pos) (e : Expr) (h : v > b) :
      Admits name b v (.binary p ">" (.name q name) e)
  | greaterEqual (p q : Option Pos) (e : Expr) (h : v ≥ b) :
      Admits name b v (.binary p ">=" (.name q name) e)

/-- The update changes the value of the variable `name` from `v` to another one. -/
inductive Changes (name : Lexeme) (v : ℚ) : Expr → ℚ → Prop where
  | increment (p q : Option Pos) (side : Side) :
      Changes name v (.update p "++" side (.name q name)) (v + 1)
  | decrement (p q : Option Pos) (side : Side) :
      Changes name v (.update p "--" side (.name q name)) (v - 1)
  | add (p q : Option Pos) {e : Expr} {n : Nat} (h : natural? e = some n) :
      Changes name v (.assign p "+=" (.name q name) e) (v + n)
  | subtract (p q : Option Pos) {e : Expr} {n : Nat} (h : natural? e = some n) :
      Changes name v (.assign p "-=" (.name q name) e) (v - n)

/-- The loop first sets the variable `name` to the value of `start`. -/
inductive StartsAt (name : Lexeme) (start : Expr) : ForInit → Prop where
  | declared (v : Variable) (hname : v.name = name) (hvalue : v.value = some start) :
      StartsAt name start (.variable v)
  | assigned (p q : Option Pos) : StartsAt name start (.expr (.assign p "=" (.name q name) start))

/-- The values that a `for` loop with this test and this update visits, where the variable `name`
starts with `a` and what it is compared with always has the value `b`. -/
def LoopVisits (name : Lexeme) (test update : Option Expr) (b a : ℚ) (vs : List ℚ) : Prop :=
  Visits (fun v ↦ ∃ e, test = some e ∧ Admits name b v e)
    (fun v v' ↦ ∃ e, update = some e ∧ Changes name v e v') a vs

/-- Whether a `For` with this last value and this step goes on with `v`. -/
def withinLimit (limit : ℚ) (step : Int) (v : ℚ) : Prop := if 0 < step then v ≤ limit else v ≥ limit

/-- The values that `For name := a To limit Step step` visits. -/
def ForVisits (limit : ℚ) (step : Int) (a : ℚ) (vs : List ℚ) : Prop :=
  Visits (withinLimit limit step) (fun v v' ↦ v' = v + step) a vs

/-- Whether `v` lies strictly between two values, in either order. -/
def StrictlyBetween (x y v : ℚ) : Prop := x < v ∧ v < y ∨ y < v ∧ v < x

/-! ## Arithmetic progressions -/

/-- The first `n` values from `a` on, by steps of `s`. -/
def progression (a s : ℚ) (n : Nat) : List ℚ := (List.range n).map fun k : Nat ↦ a + k * s

section Progressions

variable {test : ℚ → Prop} {next : ℚ → ℚ → Prop} {a s : ℚ}

theorem progression_succ (a s : ℚ) (n : Nat) :
    progression a s (n + 1) = a :: progression (a + s) s n := by
  have hmove : ∀ k : Nat, a + (k + 1 : Nat) * s = a + s + k * s := by
    intro k
    push_cast
    ring
  simp only [progression, List.range_succ_eq_map, List.map_cons, List.map_map, Function.comp_def,
    Nat.cast_zero, zero_mul, add_zero, hmove]

theorem progression_inj {n m : Nat} : progression a s n = progression a s m ↔ n = m := by
  constructor
  · intro h
    have hlength := congrArg List.length h
    simpa [progression] using hlength
  · rintro rfl
    rfl

/-- A loop that adds `s` in every round visits a progression, up to the first value that fails. -/
theorem visits_progression (hnext : ∀ v v', next v v' ↔ v' = v + s) {n : Nat} {vs : List ℚ}
    (hgoes : ∀ k < n, test (a + k * s)) (hstops : ¬ test (a + n * s)) :
    Visits test next a vs ↔ vs = progression a s n := by
  induction n generalizing a vs with
  | zero =>
    simp only [Nat.cast_zero, zero_mul, add_zero] at hstops
    constructor
    · intro h
      cases h with
      | stop _ => rfl
      | round h _ _ => exact absurd h hstops
    · rintro rfl
      exact .stop hstops
  | succ n ih =>
    have hfirst : test a := by simpa using hgoes 0 (Nat.succ_pos n)
    have hmove : ∀ k : Nat, a + s + k * s = a + (k + 1 : Nat) * s := by
      intro k
      push_cast
      ring
    have hrest : ∀ vs, Visits test next (a + s) vs ↔ vs = progression (a + s) s n := by
      intro vs
      refine ih (fun k hk ↦ ?_) ?_
      · rw [hmove]
        exact hgoes (k + 1) (Nat.succ_lt_succ hk)
      · rw [hmove]
        exact hstops
    rw [progression_succ]
    constructor
    · intro h
      cases h with
      | stop h => exact absurd hfirst h
      | round _ hstep hvs =>
        obtain rfl := (hnext _ _).mp hstep
        rw [(hrest _).mp hvs]
    · rintro rfl
      exact .round hfirst ((hnext _ _).mpr rfl) ((hrest _).mpr rfl)

/-- Where the first of two tests is the weaker one, and both fail for good at some time, the loops
visit the same values unless some value passes only the weaker test. -/
theorem visits_compare {stronger : ℚ → Prop} {next' : ℚ → ℚ → Prop}
    (hnext : ∀ v v', next v v' ↔ v' = v + s) (hnext' : ∀ v v', next' v v' ↔ v' = v + s)
    (hweaker : ∀ v, stronger v → test v) (hback : ∀ v, test (v + s) → test v)
    (hfails : ∃ k : Nat, ¬ test (a + k * s)) :
    ∃ xs ys, (∀ vs, Visits test next a vs ↔ vs = xs) ∧
      (∀ vs, Visits stronger next' a vs ↔ vs = ys) ∧
      (xs = ys ↔ ∀ k : Nat, ¬ (test (a + k * s) ∧ ¬ stronger (a + k * s))) := by
  classical
  have hfails' : ∃ k : Nat, ¬ stronger (a + k * s) := hfails.imp fun _ h hs ↦ h (hweaker _ hs)
  -- The numbers of the rounds in which the tests fail for the first time.
  let n := Nat.find hfails
  let m := Nat.find hfails'
  have hn : ¬ test (a + n * s) := Nat.find_spec hfails
  have hm : ¬ stronger (a + m * s) := Nat.find_spec hfails'
  have hlate : ∀ j, ¬ test (a + (n + j : Nat) * s) := by
    intro j
    induction j with
    | zero => exact hn
    | succ j ih =>
      intro h
      refine ih (hback _ ?_)
      have hmove : a + (n + j : Nat) * s + s = a + (n + (j + 1) : Nat) * s := by
        push_cast
        ring
      rwa [hmove]
  refine ⟨progression a s n, progression a s m, fun vs ↦ ?_, fun vs ↦ ?_, ?_⟩
  · exact visits_progression hnext (fun k hk ↦ not_not.mp (Nat.find_min hfails hk)) hn
  · exact visits_progression hnext' (fun k hk ↦ not_not.mp (Nat.find_min hfails' hk)) hm
  rw [progression_inj]
  constructor
  · intro hnm k hk
    obtain hlt | hge := Nat.lt_or_ge k n
    · exact Nat.find_min hfails' (hnm ▸ hlt : k < m) hk.2
    · obtain ⟨j, rfl⟩ := Nat.exists_eq_add_of_le hge
      exact hlate j hk.1
  · intro h
    have hmn : m ≤ n := Nat.find_min' hfails' fun hs ↦ hn (hweaker _ hs)
    refine le_antisymm (Nat.find_min' hfails fun ht ↦ h m ⟨ht, hm⟩) hmn

end Progressions

/-! ## Reading the loop -/

/-- Whether a comparison of `v` with `b` holds. -/
def Holds (v b : ℚ) : Comparison → Prop
  | .less => v < b
  | .lessEqual => v ≤ b
  | .greater => v > b
  | .greaterEqual => v ≥ b

/-- The operator that makes a comparison. -/
def operatorOf : Comparison → Lexeme
  | .less => "<"
  | .lessEqual => "<="
  | .greater => ">"
  | .greaterEqual => ">="

theorem ofOperator?_eq_some {op : Lexeme} {c : Comparison}
    (h : Comparison.ofOperator? op = some c) : op = operatorOf c := by
  rw [Comparison.ofOperator?] at h
  split at h
  · cases h; assumption
  split at h
  · cases h; assumption
  split at h
  · cases h; assumption
  split at h
  · cases h; assumption
  · cases h

section Reading

variable {name : Lexeme} {test update : Option Expr} {c : Comparison} {bound : Expr}

theorem boundOf?_eq_some (h : Counting.boundOf? name test = some (c, bound)) :
    ∃ p q, test = some (.binary p (operatorOf c) (.name q name) bound) := by
  rw [Counting.boundOf?.eq_def] at h
  split at h
  · rename_i p op q n e
    split at h
    · rename_i hname
      obtain ⟨c', hop, hpair⟩ := Option.map_eq_some_iff.mp h
      cases hpair
      rw [hname, ofOperator?_eq_some hop]
      exact ⟨p, q, rfl⟩
    · cases h
  · cases h

variable {b v v' : ℚ}

theorem admits_iff (h : Counting.boundOf? name test = some (c, bound)) :
    (∃ e, test = some e ∧ Admits name b v e) ↔ Holds v b c := by
  obtain ⟨p, q, rfl⟩ := boundOf?_eq_some h
  constructor
  · rintro ⟨_, he, hadmits⟩
    cases he
    generalize hop : operatorOf c = op at hadmits
    cases hadmits with
    | less _ _ _ hv => cases c <;> cases hop; exact hv
    | lessEqual _ _ _ hv => cases c <;> cases hop; exact hv
    | greater _ _ _ hv => cases c <;> cases hop; exact hv
    | greaterEqual _ _ _ hv => cases c <;> cases hop; exact hv
  · intro hholds
    refine ⟨_, rfl, ?_⟩
    cases c with
    | less => exact .less p q bound hholds
    | lessEqual => exact .lessEqual p q bound hholds
    | greater => exact .greater p q bound hholds
    | greaterEqual => exact .greaterEqual p q bound hholds

/-- A known step is what the update adds, whichever way it is written. -/
theorem changes_iff {step : Int} (h : Counting.stepOf? name update = some step)
    (hop : ∀ p op side e, update = some (.update p op side e) → op = "++" ∨ op = "--") :
    (∃ e, update = some e ∧ Changes name v e v') ↔ v' = v + step := by
  rw [Counting.stepOf?.eq_def] at h
  split at h
  · rename_i p op side q n
    split at h
    · rename_i hname
      subst hname
      obtain rfl | rfl := hop p op side _ rfl
      · cases h
        constructor
        · rintro ⟨_, he, hchanges⟩
          cases he
          cases hchanges
          simp
        · rintro rfl
          exact ⟨_, rfl, by simpa using Changes.increment (v := v) p q side⟩
      · rw [if_neg (by decide)] at h
        cases h
        constructor
        · rintro ⟨_, he, hchanges⟩
          cases he
          cases hchanges
          simp [sub_eq_add_neg]
        · rintro rfl
          exact ⟨_, rfl, by simpa [sub_eq_add_neg] using Changes.decrement (v := v) p q side⟩
    · cases h
  · rename_i p op q n e
    split at h
    · rename_i hname
      subst hname
      split at h
      · rename_i hplus
        subst hplus
        obtain ⟨k, hk, rfl⟩ := Option.map_eq_some_iff.mp h
        constructor
        · rintro ⟨_, he, hchanges⟩
          cases he
          cases hchanges with
          | add _ _ hk' =>
            rw [hk] at hk'
            cases hk'
            simp
        · rintro rfl
          exact ⟨_, rfl, by simpa using Changes.add (v := v) p q hk⟩
      · split at h
        · rename_i hminus
          subst hminus
          obtain ⟨k, hk, rfl⟩ := Option.map_eq_some_iff.mp h
          constructor
          · rintro ⟨_, he, hchanges⟩
            cases he
            cases hchanges with
            | subtract _ _ hk' =>
              rw [hk] at hk'
              cases hk'
              simp [sub_eq_add_neg]
          · rintro rfl
            exact ⟨_, rfl, by simpa [sub_eq_add_neg] using Changes.subtract (v := v) p q hk⟩
        · cases h
    · cases h
  · cases h

theorem startsAt_of_startOf? {init : ForInit} {start : Expr}
    (h : Counting.startOf? init = some (name, start)) : StartsAt name start init := by
  rw [Counting.startOf?.eq_def] at h
  split at h
  · rename_i v
    obtain ⟨e, hvalue, hpair⟩ := Option.map_eq_some_iff.mp h
    cases hpair
    exact .declared v rfl hvalue
  · rename_i p op q n e
    split at h
    · rename_i hop
      cases h
      subst hop
      exact .assigned p q
    · cases h
  · cases h

/-- What is read off a loop that counts. -/
theorem ofLoop?_eq_some {init : ForInit} {c : Counting}
    (h : Counting.ofLoop? init test update = some c) :
    Counting.startOf? init = some (c.name, c.start) ∧
      Counting.boundOf? c.name test = some (c.comparison, c.bound) ∧
      Counting.stepOf? c.name update = some c.step ∧
      c.step ≠ 0 ∧ c.comparison.ascending = decide (0 < c.step) := by
  rw [Counting.ofLoop?] at h
  obtain ⟨⟨name, start⟩, hstart, h⟩ := Option.bind_eq_some_iff.mp h
  obtain ⟨⟨comparison, bound⟩, hbound, h⟩ := Option.bind_eq_some_iff.mp h
  obtain ⟨step, hstep, h⟩ := Option.bind_eq_some_iff.mp h
  split at h
  · rename_i hsign
    cases h
    exact ⟨hstart, hbound, hstep, hsign⟩
  · cases h

end Reading

/-! ## The last value -/

/-- What is added to the bound to have the last value. -/
def offset : Comparison → Int
  | .less => -1
  | .greater => 1
  | .lessEqual | .greaterEqual => 0

theorem limit_eq_ok {c : Counting} {limit : Target.Expr} (h : c.limit = .ok limit) :
    ∃ bound, lower c.bound = .ok bound ∧
      ∀ values, limit.value values = bound.value values + offset c.comparison := by
  have hshifted : ∀ delta, lowerShifted c.bound delta = .ok limit → ∃ bound,
      lower c.bound = .ok bound ∧ ∀ values, limit.value values = bound.value values + delta := by
    intro delta h
    rw [lowerShifted] at h
    cases hbound : lower c.bound with
    | error e =>
      rw [hbound] at h
      cases h
    | ok bound =>
      rw [hbound] at h
      cases h
      exact ⟨bound, rfl, fun values ↦ value_shift hbound delta⟩
  rw [Counting.limit] at h
  split at h
  · rename_i hc
    rw [hc]
    exact hshifted _ h
  · rename_i hc
    rw [hc]
    exact hshifted _ h
  · rename_i hc
    exact ⟨limit, h, fun values ↦ by simp [hc, offset]⟩
  · rename_i hc
    exact ⟨limit, h, fun values ↦ by simp [hc, offset]⟩

section Limits

variable {c : Comparison} {step : Int} {a b v : ℚ}

theorem withinLimit_of_pos {limit : ℚ} (h : 0 < step) : withinLimit limit step v ↔ v ≤ limit := by
  rw [withinLimit, if_pos h]

theorem withinLimit_of_neg {limit : ℚ} (h : step < 0) : withinLimit limit step v ↔ v ≥ limit := by
  rw [withinLimit, if_neg (not_lt.mpr (le_of_lt h))]

theorem step_pos_or_neg (hstep : step ≠ 0) (hsign : c.ascending = decide (0 < step)) :
    (c = .less ∨ c = .lessEqual) ∧ 0 < step ∨ (c = .greater ∨ c = .greaterEqual) ∧ step < 0 := by
  have hneg : c.ascending = false → step < 0 := by
    intro h
    rw [h] at hsign
    exact lt_of_le_of_ne (not_lt.mp (of_decide_eq_false hsign.symm)) hstep
  cases c with
  | less => exact .inl ⟨.inl rfl, of_decide_eq_true hsign.symm⟩
  | lessEqual => exact .inl ⟨.inr rfl, of_decide_eq_true hsign.symm⟩
  | greater => exact .inr ⟨.inl rfl, hneg rfl⟩
  | greaterEqual => exact .inr ⟨.inr rfl, hneg rfl⟩

variable (hsign : (c = .less ∨ c = .lessEqual) ∧ 0 < step ∨
  (c = .greater ∨ c = .greaterEqual) ∧ step < 0)

include hsign

/-- What the last value lets through, the comparison does too. -/
theorem holds_of_withinLimit (h : withinLimit (b + offset c) step v) : Holds v b c := by
  obtain ⟨rfl | rfl, hpos⟩ | ⟨rfl | rfl, hneg⟩ := hsign
  · rw [withinLimit_of_pos hpos] at h
    simp only [offset, Holds] at h ⊢
    push_cast at h
    linarith
  · rw [withinLimit_of_pos hpos] at h
    simpa [offset, Holds] using h
  · rw [withinLimit_of_neg hneg] at h
    simp only [offset, Holds] at h ⊢
    push_cast at h
    linarith
  · rw [withinLimit_of_neg hneg] at h
    simpa [offset, Holds] using h

/-- Only between the last value and the bound does the comparison let more through. -/
theorem holds_and_not_withinLimit :
    Holds v b c ∧ ¬ withinLimit (b + offset c) step v ↔ StrictlyBetween (b + offset c) b v := by
  obtain ⟨rfl | rfl, hpos⟩ | ⟨rfl | rfl, hneg⟩ := hsign
  · rw [withinLimit_of_pos hpos, StrictlyBetween, offset, Holds]
    push_cast
    constructor
    · rintro ⟨hlt, hgap⟩
      exact .inl ⟨not_le.mp hgap, hlt⟩
    · rintro (⟨hgap, hlt⟩ | ⟨hlt, hgap⟩)
      · exact ⟨hlt, not_le.mpr hgap⟩
      · linarith
  · rw [withinLimit_of_pos hpos, StrictlyBetween, offset, Holds]
    push_cast
    grind
  · rw [withinLimit_of_neg hneg, StrictlyBetween, offset, Holds]
    push_cast
    constructor
    · rintro ⟨hgt, hgap⟩
      exact .inr ⟨hgt, not_le.mp hgap⟩
    · rintro (⟨hgap, hlt⟩ | ⟨hlt, hgap⟩)
      · linarith
      · exact ⟨hlt, not_le.mpr hgap⟩
  · rw [withinLimit_of_neg hneg, StrictlyBetween, offset, Holds]
    push_cast
    grind

/-- A test that holds after a step held before it. -/
theorem holds_of_step (h : Holds (v + step) b c) : Holds v b c := by
  obtain ⟨hc, hpos⟩ | ⟨hc, hneg⟩ := hsign
  · have hstep : (0 : ℚ) < step := Int.cast_pos.mpr hpos
    obtain rfl | rfl := hc <;> simp only [Holds] at h ⊢ <;> linarith
  · have hstep : (step : ℚ) < 0 := Int.cast_lt_zero.mpr hneg
    obtain rfl | rfl := hc <;> simp only [Holds] at h ⊢ <;> linarith

/-- Every test fails in the end. -/
theorem exists_not_holds : ∃ k : Nat, ¬ Holds (a + k * step) b c := by
  obtain ⟨k, hk⟩ := exists_nat_gt |b - a|
  refine ⟨k, fun h ↦ ?_⟩
  have hfar := abs_lt.mp hk
  -- Each step goes at least one further.
  obtain ⟨hc, hpos⟩ | ⟨hc, hneg⟩ := hsign
  · have hstep : (1 : ℚ) ≤ step := by exact_mod_cast hpos
    have hmul : (k : ℚ) ≤ k * step := le_mul_of_one_le_right (Nat.cast_nonneg k) hstep
    obtain rfl | rfl := hc <;> simp only [Holds] at h <;> linarith
  · have hstep : (1 : ℚ) ≤ -step := by exact_mod_cast Int.neg_pos_of_neg hneg
    have hmul : (k : ℚ) ≤ k * -step := le_mul_of_one_le_right (Nat.cast_nonneg k) hstep
    obtain rfl | rfl := hc <;> simp only [Holds] at h <;> linarith

omit hsign in
/-- There is no integer between an integer and one next to it. -/
theorem not_strictlyBetween (m n : Int) : ¬ StrictlyBetween ((n : ℚ) + offset c) n m := by
  rw [StrictlyBetween]
  norm_cast
  cases c <;> simp only [offset] <;> omega

end Limits

/-! ## Updates -/

section Updates

variable {templates : Text → List Text → List Expr → Prop}

/-- An update is written with one of the two operators there are. -/
theorem operator_of_update {phrase : Grammar.Phrase} {ts : List Token}
    (h : Grammar.Written templates phrase ts) (hts : ∀ t ∈ ts, t.Spelled) {slot : Grammar.Slot}
    {p : Option Pos} {op : Lexeme} {side : Side} {e : Expr}
    (hphrase : phrase = .expr slot (.update p op side e)) : op = "++" ∨ op = "--" := by
  have hmark : ∀ t : Token, t.kind ∈ Grammar.updateOps → t.Spelled →
      t.lexeme = "++" ∨ t.lexeme = "--" := by
    intro t ht hspelled
    obtain hkind | hkind : t.kind = .mark .increment ∨ t.kind = .mark .decrement := by
      simpa [Grammar.updateOps] using ht
    · exact .inl (hspelled _ hkind)
    · exact .inr (hspelled _ hkind)
  induction h generalizing slot with
  | updateAfter _ t ht _ _ =>
    cases hphrase
    exact hmark t ht (hts t (by simp))
  | updateBefore _ t ht _ _ =>
    cases hphrase
    exact hmark t ht (hts t List.mem_cons_self)
  | parentheses l r hl hr _ ih =>
    cases hphrase
    exact ih (fun t ht ↦ hts t (by simp [ht])) rfl
  | toAssignment _ ih => cases hphrase; exact ih hts rfl
  | toConditional _ ih => cases hphrase; exact ih hts rfl
  | toBinary _ _ ih => cases hphrase; exact ih hts rfl
  | toUnary _ ih => cases hphrase; exact ih hts rfl
  | toSuffixed _ ih => cases hphrase; exact ih hts rfl
  | toIndexed _ ih => cases hphrase; exact ih hts rfl
  | toChained _ ih => cases hphrase; exact ih hts rfl
  | _ => cases hphrase

end Updates

/-! ## Counting loops -/

/-- The test compares the variable `name` with `bound`, from the side that a step with this sign
starts from. -/
inductive Approaches (name : Lexeme) (bound : Expr) (step : Int) : Option Expr → Prop where
  | up (p q : Option Pos) (op : Lexeme) (hop : op = "<" ∨ op = "<=") (hstep : 0 < step) :
      Approaches name bound step (some (.binary p op (.name q name) bound))
  | down (p q : Option Pos) (op : Lexeme) (hop : op = ">" ∨ op = ">=") (hstep : step < 0) :
      Approaches name bound step (some (.binary p op (.name q name) bound))

theorem approaches_of_boundOf? {name : Lexeme} {test : Option Expr} {c : Comparison} {bound : Expr}
    {step : Int} (h : Counting.boundOf? name test = some (c, bound))
    (hsign : (c = .less ∨ c = .lessEqual) ∧ 0 < step ∨
      (c = .greater ∨ c = .greaterEqual) ∧ step < 0) :
    Approaches name bound step test := by
  obtain ⟨p, q, rfl⟩ := boundOf?_eq_some h
  obtain ⟨rfl | rfl, hpos⟩ | ⟨rfl | rfl, hneg⟩ := hsign
  · exact .up p q _ (.inl rfl) hpos
  · exact .up p q _ (.inr rfl) hpos
  · exact .down p q _ (.inl rfl) hneg
  · exact .down p q _ (.inr rfl) hneg

/-- What is written for a loop that counts: the declaration of its variable, if the loop declares
it, and a `For` with the variable, its first value, its last value and, unless it is one, its
step. -/
theorem entries_of_lowerFor {init : ForInit} {test update : Option Expr}
    {body : Option Text → Generated} {c : Counting} {code : List Target.Code}
    (hcounts : Counting.ofLoop? init test update = some c)
    (h : lowerFor init test update body = .ok code) :
    ∃ start limit inside, lower c.start = .ok start ∧ c.limit = .ok limit ∧
      body none = .ok inside ∧
      Target.Code.entriesAll code =
        (counterLines init).map Target.outer ++
          Target.outer ("For " ++ c.name.spelled ++ " := " ++ start.print ++ " To " ++
            limit.print ++
              if c.step = 1 then [] else Text.ofString " Step " ++ Text.ofInt c.step) ::
          (Target.inside (Target.Code.entriesAll inside) ++ [Target.outer "Next"]) := by
  obtain ⟨start, limit, inside, hstart, hlimit, hinside, rfl⟩ :=
    lowerFor_counting_eq_ok hcounts h
  refine ⟨start, limit, inside, hstart, hlimit, hinside, ?_⟩
  have hdeclared : Target.Code.entriesAll (declaration init) =
      (counterLines init).map Target.outer := by
    cases init <;> rfl
  have hheader : Text.ofString "For " ++ c.header start limit =
      "For " ++ c.name.spelled ++ " := " ++ start.print ++ " To " ++ limit.print ++
        if c.step = 1 then [] else Text.ofString " Step " ++ Text.ofInt c.step := by
    rw [Counting.header]
    split <;> simp
  rw [Target.Code.entriesAll_append, hdeclared, ← hheader]
  simp [Target.Code.entriesAll, Target.Code.entries]

/-- **A loop that counts visits what the loop it becomes visits.**  For a `for` loop of a program
that counts, take any first value `a` of its variable and any values of its operands, and let `b` be
the value of the bound and `l` that of the last value.  Both loops visit finitely many values, and
they visit the same ones just if none of `a`, `a + step`, … lies strictly between `l` and `b`.  With
integers none does. -/
theorem counting_visits {source : Text} {p : Pos} {ts : List Token} {prog : Program}
    (hts : tokenize source p = .ok ts) (hparse : Grammar.parse ts = .ok prog)
    {q : Option Pos} {init : ForInit} {test update : Option Expr} {body : List Stmt}
    (hloop : .forLoop q init test update body ∈ Stmt.insideAll prog.body) {c : Counting}
    (hcounts : Counting.ofLoop? init test update = some c) {limit : Target.Expr}
    (hlimit : c.limit = .ok limit) :
    StartsAt c.name c.start init ∧ c.step ≠ 0 ∧ Approaches c.name c.bound c.step test ∧
      ∃ bound, lower c.bound = .ok bound ∧
        ∀ (values : Target.Expr → ℚ) (a b l : ℚ), bound.value values = b → limit.value values = l →
          ∃ xs ys, (∀ vs, LoopVisits c.name test update b a vs ↔ vs = xs) ∧
            (∀ vs, ForVisits l c.step a vs ↔ vs = ys) ∧
            (xs = ys ↔ ∀ k : Nat, ¬ StrictlyBetween l b (a + k * c.step)) ∧
            ∀ m n : Int, a = m → b = n → xs = ys := by
  obtain ⟨hstart, htest, hupdate, hstep, hascending⟩ := ofLoop?_eq_some hcounts
  obtain ⟨bound, hbound, hlast⟩ := limit_eq_ok hlimit
  have hsign := step_pos_or_neg hstep hascending
  have hoperator : ∀ p op side e, update = some (.update p op side e) → op = "++" ∨ op = "--" := by
    rintro p op side e rfl
    obtain ⟨ajar, us, hspelled, hwritten⟩ := Grammar.written_of_inside hts hparse hloop
    cases hwritten with
    | forLoop _ _ _ _ _ _ _ _ _ _ _ _ _ hwritten _ =>
      cases hwritten with
      | present hwritten =>
        exact operator_of_update hwritten (fun t ht ↦ hspelled t (by simp [ht])) rfl
  refine ⟨startsAt_of_startOf? hstart, hstep, approaches_of_boundOf? htest hsign, bound, hbound, ?_⟩
  rintro values a b l hb rfl
  rw [hlast, hb]
  have hadmits : ∀ v, (∃ e, test = some e ∧ Admits c.name b v e) ↔ Holds v b c.comparison :=
    fun v ↦ admits_iff htest
  obtain ⟨xs, ys, hxs, hys, hsame⟩ := visits_compare (a := a) (s := c.step)
    (fun v v' ↦ changes_iff hupdate hoperator) (fun v v' ↦ Iff.rfl)
    (fun v hv ↦ (hadmits v).mpr (holds_of_withinLimit hsign hv))
    (fun v hv ↦ (hadmits v).mpr (holds_of_step hsign ((hadmits _).mp hv)))
    ((exists_not_holds hsign).imp fun k hk h ↦ hk ((hadmits _).mp h))
  simp only [hadmits, holds_and_not_withinLimit hsign] at hsame
  refine ⟨xs, ys, hxs, hys, hsame, ?_⟩
  rintro m n rfl rfl
  refine hsame.mpr fun k ↦ ?_
  have hk := not_strictlyBetween (c := c.comparison) (m + k * c.step) n
  push_cast at hk
  exact hk

/-- The loop `for (i = 0; i < n; i += 2) x;` becomes `For i := 0 To (n - 1) Step 2`.  Where `n` is
`5 / 2`, only the first of them visits `2`. -/
theorem counting_visits_sample :
    let source : Text := "for(i=0;i<n;i+=2)x;"
    let test : Expr := .binary (some ⟨1, 9⟩) "<" (.name (some ⟨1, 9⟩) "i")
      (.name (some ⟨1, 11⟩) "n")
    let update : Expr := .assign (some ⟨1, 13⟩) "+=" (.name (some ⟨1, 13⟩) "i")
      (.number (some ⟨1, 16⟩) "2")
    let limit : Target.Expr := .binary "-" (.name "n") (.integer 1)
    ∃ ts prog loop c, tokenize source Pos.origin = .ok ts ∧ Grammar.parse ts = .ok prog ∧
      loop ∈ Stmt.insideAll prog.body ∧
      Counting.ofLoop? (.expr (.assign (some ⟨1, 5⟩) "=" (.name (some ⟨1, 5⟩) "i")
        (.number (some ⟨1, 7⟩) "0"))) (some test) (some update) = some c ∧
      c.limit = .ok limit ∧ c.step = 2 ∧
      ∃ xs ys, LoopVisits "i" (some test) (some update) (5 / 2) 0 xs ∧
        ForVisits (5 / 2 - 1) 2 0 ys ∧ xs ≠ ys := by
  intro source test update limit
  let init : ForInit := .expr (.assign (some ⟨1, 5⟩) "=" (.name (some ⟨1, 5⟩) "i")
    (.number (some ⟨1, 7⟩) "0"))
  let body : List Stmt := [.expr (some ⟨1, 18⟩) (.name (some ⟨1, 18⟩) "x")]
  let loop : Stmt := .forLoop (some ⟨1, 1⟩) init (some test) (some update) body
  let c : Counting := ⟨"i", .number (some ⟨1, 7⟩) "0", .less, .name (some ⟨1, 11⟩) "n", 2⟩
  let ts : List Token :=
    [⟨.keyword .forWord, "for", ⟨1, 1⟩⟩, ⟨.mark .openParen, "(", ⟨1, 4⟩⟩,
     ⟨.identifier, "i", ⟨1, 5⟩⟩, ⟨.mark .assign, "=", ⟨1, 6⟩⟩, ⟨.number, "0", ⟨1, 7⟩⟩,
     ⟨.mark .semicolon, ";", ⟨1, 8⟩⟩, ⟨.identifier, "i", ⟨1, 9⟩⟩, ⟨.mark .less, "<", ⟨1, 10⟩⟩,
     ⟨.identifier, "n", ⟨1, 11⟩⟩, ⟨.mark .semicolon, ";", ⟨1, 12⟩⟩, ⟨.identifier, "i", ⟨1, 13⟩⟩,
     ⟨.mark .plusEqual, "+=", ⟨1, 14⟩⟩, ⟨.number, "2", ⟨1, 16⟩⟩, ⟨.mark .closeParen, ")", ⟨1, 17⟩⟩,
     ⟨.identifier, "x", ⟨1, 18⟩⟩, ⟨.mark .semicolon, ";", ⟨1, 19⟩⟩]
  have hts : tokenize source Pos.origin = .ok ts := tokenize_of_toOption (by decide +kernel)
  have hparse : Grammar.parse ts = .ok ⟨some Pos.origin, [loop]⟩ := rfl
  have hloop : loop ∈ Stmt.insideAll [loop] := List.mem_cons_self
  have hcounts : Counting.ofLoop? init (some test) (some update) = some c := rfl
  have hlimit : c.limit = .ok limit := rfl
  obtain ⟨-, -, -, bound, hbound, hvisits⟩ := counting_visits hts hparse hloop hcounts hlimit
  cases hbound
  have hvalue : limit.value (fun _ ↦ 5 / 2) = 5 / 2 - 1 := by
    rw [Target.Expr.value_minus, Target.Expr.value_integer]
    rfl
  obtain ⟨xs, ys, hxs, hys, hsame, -⟩ := hvisits _ 0 (5 / 2) _ rfl hvalue
  refine ⟨ts, _, loop, c, hts, hparse, hloop, hcounts, hlimit, rfl, xs, ys, (hxs xs).mpr rfl,
    (hys ys).mpr rfl, fun h ↦ hsame.mp h 1 (.inl ?_)⟩
  norm_num [c]

end Advplc.Flow
