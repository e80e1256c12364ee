import Advplc.Proofs.Lowering.Bare
import Advplc.Proofs.Script.Parts

/-!
# What is refused

Every part of a tree is visited while code is generated for it, so code generation fails if and only
if some part is at fault.  Where nothing is unusable, that is a `push` with the wrong number of
arguments, and the failure says so.

`Judged` relates what a function makes of a tree to whether the tree has such a `push`.  It is
proved of one function after another, up to `lowerStmts_judged`.  A function that does one thing
after another is judged by the disjunction of what its parts are judged by (`Judged.bind`,
`Judged.both`), in the order in which it visits them, and `Expr.refused` and `Stmt.refused` are
brought into that order first.

Some functions pass over a part of the tree.  Of a loop that counts neither the update is written
nor the assignment and the comparison around its first value and its bound.  But what is passed over
holds no call: the variable is a name, and the update changes it by a numeral
(`Counting.parts_of_ofLoop?`).
-/

set_option autoImplicit false

namespace Advplc.Lowering

open Script (Expr Stmt ForInit)

/-- Whether something is made where nothing is `refused`, and otherwise fails because of a `push`
with the wrong number of arguments. -/
inductive Judged {ε α : Type} (cause : ε → Cause) : Except ε α → Bool → Prop where
  | ok (a : α) : Judged cause (.ok a) false
  | error {e : ε} {n : Nat} (h : cause e = .pushCount n) : Judged cause (.error e) true

namespace Judged

variable {ε α β : Type} {cause : ε → Cause} {x : Except ε α} {b c : Bool}

/-- What a tree is judged by may be written in another way. -/
theorem of_eq (h : Judged cause x b) (hbc : c = b) : Judged cause x c := hbc ▸ h

/-- One thing after another is refused if the first is, or the second behind it. -/
theorem bind {f : α → Except ε β} (hx : Judged cause x b)
    (hf : ∀ a, x = .ok a → Judged cause (f a) c) : Judged cause (x >>= f) (b || c) := by
  cases hx with
  | ok a => exact hf a rfl
  | error h => exact .error h

/-- What is made of a result does not change whether there is one. -/
theorem map (hx : Judged cause x b) (f : α → β) : Judged cause (do return f (← x)) b := by
  cases hx with
  | ok a => exact .ok (f a)
  | error h => exact .error h

theorem both {γ : Type} {y : Except ε β} (hx : Judged cause x b) (hy : Judged cause y c)
    (f : α → β → γ) : Judged cause (do return f (← x) (← y)) (b || c) :=
  hx.bind fun a _ ↦ hy.map (f a)

end Judged

/-! ## Expressions -/

/-- A `push` is known by the name of the method alone. -/
theorem Method.ofName?_eq_push {n : Lexeme} : Method.ofName? n = some .push ↔ n = "push" := by
  simp only [Method.ofName?]
  grind

/-- **A `push` wants one argument**, and no other method refuses any number of them. -/
theorem applyMethod_judged (m : Method) (pos : Option Pos) (receiver : Target.Expr)
    (args : List (Expr × Target.Expr)) : Judged Error.cause (applyMethod m pos receiver args)
      (m = .push ∧ args.length ≠ 1) := by
  cases m with
  | push =>
    match args with
    | [] => exact .error rfl
    | [a] => exact .ok _
    | a :: b :: args => exact .error rfl
  | substring =>
    match args with
    | [] | [_] | _ :: _ :: _ => exact .ok _
  | toUpperCase | toLowerCase | indexOf => exact .ok _

/-- As many arguments are made as there were. -/
theorem length_of_lowerAll {es : List Expr} {ts : List Target.Expr} (h : lowerAll es = .ok ts) :
    ts.length = es.length := by
  induction es generalizing ts with
  | nil =>
    cases h
    rfl
  | cons e es ih =>
    rw [lowerAll] at h
    cases he : lower e with
    | error f =>
      rw [he] at h
      cases h
    | ok t =>
      cases hes : lowerAll es with
      | error f =>
        rw [he, hes] at h
        cases h
      | ok ts' =>
        rw [he, hes] at h
        cases h
        simp [ih hes]

/-- In `this` there is nothing to refuse. -/
theorem refused_of_isThis {e : Expr} (h : isThis e = true) : e.refused = false := by
  cases e with
  | this => rfl
  | _ => cases h

/-- A call of a member: the arguments come first, then the object, and only then the arguments are
counted. -/
theorem lower_memberCall_judged {p q r : Option Pos} {o : Expr} {n : Lexeme} {as : List Expr}
    (hargs : Judged Error.cause (lowerAll as) (Expr.someRefused as))
    (ho : Judged Error.cause (lower o) o.refused) :
    Judged Error.cause (lower (.call p (.member q o n r) as))
      (Expr.call p (.member q o n r) as).refused := by
  -- The tree is judged from the outside inwards, and the code is made from the inside outwards.
  have horder : (Expr.call p (.member q o n r) as).refused = (Expr.someRefused as ||
      (o.refused || (Expr.call p (.member q o n r) as).miscounts false)) := by
    rw [Expr.refused, Expr.has_call, Expr.has_member]
    simp only [Expr.miscounts, Bool.false_or]
    ac_rfl
  rw [lower, horder]
  refine hargs.bind fun args hlower ↦ ?_
  have hpush := Method.ofName?_eq_push (n := n)
  cases hm : Method.ofName? n with
  -- The name is that of a method, and the arguments that are counted are those that were made.
  | some m =>
    refine ho.bind fun receiver _ ↦ (applyMethod_judged m o.pos receiver _).of_eq ?_
    have hlength : (as.zip args).length = as.length := by simp [length_of_lowerAll hlower]
    rw [hm, Option.some.injEq] at hpush
    simp [Expr.miscounts, hlength, hpush]
  -- No method has this name, so it is not `push`.
  | none =>
    have hn : n ≠ "push" := fun hn ↦ by simp [hpush.mpr hn] at hm
    have hone : (Expr.call p (.member q o n r) as).miscounts false = false := by
      simp [Expr.miscounts, hn]
    rw [hone, Bool.or_false]
    simp only
    split
    · exact (Judged.ok _).of_eq (refused_of_isThis ‹_›)
    · exact ho.map _

mutual

/-- **An expression is refused if and only if a call in it miscounts.** -/
theorem lower_judged (e : Expr) (h : e.Regular) : Judged Error.cause (lower e) e.refused := by
  cases e with
  | number | string | boolean | null | name | this => exact .ok _
  | foreign f => cases h
  -- A template with more holes than chunks would be unusable.
  | template p cs hs =>
    obtain ⟨hcount, hhs⟩ := Expr.regular_template.mp h
    rw [lower, Expr.refused, Expr.has_template]
    exact (lowerTemplate_judged cs hs (by omega) hhs).map _
  -- So would an operator that has no counterpart, and the others have one.
  | binary p op l r =>
    obtain ⟨hop, hl, hr⟩ := Expr.regular_binary.mp h
    obtain ⟨o, ho⟩ := Option.isSome_iff_exists.mp hop
    rw [lower, ho, Expr.refused, Expr.has_binary]
    exact (lower_judged l hl).both (lower_judged r hr) _
  | unary p op e =>
    obtain ⟨hop, he⟩ := Expr.regular_unary.mp h
    obtain ⟨o, ho⟩ := Option.isSome_iff_exists.mp hop
    rw [lower, ho, Expr.refused, Expr.has_unary]
    exact (lower_judged e he).map _
  | update p op side e =>
    rw [Expr.refused, Expr.has_update]
    cases side with
    | before => rw [lower]; exact (lower_judged e (Expr.regular_update.mp h)).map _
    | after => rw [lower]; exact (lower_judged e (Expr.regular_update.mp h)).map _
  | assign p op t v =>
    obtain ⟨hop, ht, hv⟩ := Expr.regular_assign.mp h
    obtain ⟨o, ho⟩ := Option.isSome_iff_exists.mp hop
    rw [lower, ho, Expr.refused, Expr.has_assign]
    exact (lower_judged t ht).both (lower_judged v hv) _
  | conditional p t y n =>
    obtain ⟨ht, hy, hn⟩ := Expr.regular_conditional.mp h
    rw [lower, Expr.refused, Expr.has_conditional]
    exact (lower_judged t ht).bind fun t' _ ↦
      (lower_judged y hy).both (lower_judged n hn) (Target.Expr.choice t')
  | object p ps =>
    rw [lower, Expr.refused, Expr.has_object]
    exact (lowerProperties_judged ps (Expr.regular_object.mp h)).map _
  | array p es =>
    rw [lower, Expr.refused, Expr.has_array]
    exact (lowerAll_judged es (Expr.regular_array.mp h)).map _
  | member p o n q =>
    have ho := lower_judged o (Expr.regular_member.mp h)
    rw [lower, Expr.refused, Expr.has_member]
    split
    · exact ho.map _
    · split
      · exact (Judged.ok _).of_eq (refused_of_isThis ‹_›)
      · exact ho.map _
  | index p o k =>
    obtain ⟨ho, hk⟩ := Expr.regular_index.mp h
    rw [lower, Expr.refused, Expr.has_index]
    exact (lower_judged o ho).both (lower_judged k hk) _
  -- Arguments come before what is called, whatever that is.
  | call p f as =>
    obtain ⟨hf, has⟩ := Expr.regular_call.mp h
    have hargs := lowerAll_judged as has
    cases f with
    | member q o n r =>
      exact lower_memberCall_judged hargs (lower_judged o (Expr.regular_member.mp hf))
    | name q n =>
      rw [lower, Expr.refused, Expr.has_call]
      exact hargs.map _
    | _ =>
      have hcallee := lower_judged _ hf
      rw [lower_call (by simp) (by simp), Expr.refused, Expr.has_call, Bool.or_comm (Expr.has _ _)]
      exact hargs.bind fun args _ ↦ hcallee.map fun f ↦ Target.Expr.call f args
  | new p f as =>
    obtain ⟨hf, has⟩ := Expr.regular_new.mp h
    have hcallee := lower_judged f hf
    rw [lower, Expr.refused, Expr.has_new, Bool.or_comm (Expr.has _ _)]
    exact (lowerAll_judged as has).bind fun args _ ↦
      hcallee.map fun f ↦ Target.Expr.construct f args

theorem lowerAll_judged (es : List Expr) (h : Expr.AllRegular es) :
    Judged Error.cause (lowerAll es) (Expr.someRefused es) := by
  cases es with
  | nil => exact .ok _
  | cons e es =>
    rw [Expr.allRegular_cons] at h
    rw [lowerAll, Expr.someRefused, Expr.someHas_cons]
    exact (lower_judged e h.1).both (lowerAll_judged es h.2) _

theorem lowerProperties_judged (ps : List (Lexeme × Expr))
    (h : Expr.AllRegular (ps.map Prod.snd)) :
    Judged Error.cause (lowerProperties ps) (Expr.someRefused (ps.map Prod.snd)) := by
  cases ps with
  | nil => exact .ok _
  | cons x ps =>
    obtain ⟨k, v⟩ := x
    rw [List.map_cons, Expr.allRegular_cons] at h
    rw [lowerProperties, List.map_cons, Expr.someRefused, Expr.someHas_cons]
    exact (lower_judged v h.1).both (lowerProperties_judged ps h.2) _

/-- The holes of a template are visited in turn, as long as there is a chunk for each. -/
theorem lowerTemplate_judged (cs : List Text) (hs : List Expr) (hcount : hs.length ≤ cs.length)
    (h : Expr.AllRegular hs) :
    Judged Error.cause (lowerTemplate cs hs) (Expr.someRefused hs) := by
  cases hs with
  | nil => rw [lowerTemplate]; exact .ok _
  | cons e es =>
    cases cs with
    | nil => cases hcount
    | cons c cs =>
      rw [Expr.allRegular_cons] at h
      rw [lowerTemplate, Expr.someRefused, Expr.someHas_cons]
      exact (lower_judged e h.1).both
        (lowerTemplate_judged cs es (Nat.le_of_succ_le_succ hcount) h.2) _

end

/-- An assignment as a statement visits the same two parts. -/
theorem lowerStatement_judged {e : Expr} (h : e.Regular) :
    Judged Error.cause (lowerStatement e) e.refused := by
  cases e with
  | assign p op t v =>
    obtain ⟨hop, ht, hv⟩ := Expr.regular_assign.mp h
    obtain ⟨o, ho⟩ := Option.isSome_iff_exists.mp hop
    rw [lowerStatement, lowerAssign, ho, Expr.refused, Expr.has_assign]
    exact (lower_judged t ht).both (lower_judged v hv) _
  | _ => exact lower_judged _ h

/-! ## Output -/

/-- An argument of an output statement.  Text is never refused. -/
theorem outputPieces_judged {e : Expr} (h : e.Regular) :
    Judged Error.cause (outputPieces e) e.refused := by
  cases e with
  | string p v => exact .ok _
  | template p cs hs =>
    obtain ⟨hcount, hhs⟩ := Expr.regular_template.mp h
    rw [outputPieces, Expr.refused, Expr.has_template]
    exact (lowerTemplate_judged cs hs (by omega) hhs).map _
  | _ =>
    rw [outputPieces_value (by simp) (by simp)]
    exact (lower_judged _ h).map _

theorem outputAll_judged {es : List Expr} (h : Expr.AllRegular es) :
    Judged Error.cause (outputAll es) (Expr.someRefused es) := by
  induction es with
  | nil => exact .ok _
  | cons e es ih =>
    rw [Expr.allRegular_cons] at h
    rw [outputAll, Expr.someRefused, Expr.someHas_cons]
    exact (outputPieces_judged h.1).both (ih h.2) _

/-- The arguments of an output statement, of which a single one is treated by itself. -/
theorem lowerOutput_judged {es : List Expr} (h : Expr.AllRegular es) :
    Judged Error.cause (lowerOutput es) (Expr.someRefused es) := by
  match es with
  | [] => exact .ok _
  | e :: e' :: es =>
    rw [lowerOutput_several]
    exact (outputAll_judged h).map _
  | [e] =>
    rw [Expr.allRegular_single] at h
    rw [Expr.someRefused, Expr.someHas_single]
    cases e with
    | string p v => exact .ok _
    | template p cs hs =>
      obtain ⟨hcount, hhs⟩ := Expr.regular_template.mp h
      rw [lowerOutput, Expr.has_template]
      exact (lowerTemplate_judged cs hs (by omega) hhs).map _
    | _ =>
      rw [lowerOutput_value (by simp) (by simp)]
      exact (lower_judged _ h).map _

/-! ## Statements without statements inside -/

/-- Why code generation stopped. -/
def Stuck.cause (s : Stuck) : Cause := s.error.cause

section Pieces

variable {b c : Bool}

/-- Printing what was made refuses nothing. -/
theorem value_judged {r : Except Error Target.Expr} (h : Judged Error.cause r b) :
    Judged Stuck.cause (value r) b := by
  cases h with
  | ok e => exact .ok _
  | error h => exact .error h

/-- Two pieces of code, one behind the other. -/
theorem sequence_judged {first second : Generated} (hfirst : Judged Stuck.cause first b)
    (hsecond : Judged Stuck.cause second c) :
    Judged Stuck.cause (sequence first second) (b || c) := by
  cases hfirst with
  | error h => exact .error h
  | ok cs =>
    cases hsecond with
    | ok ds => exact .ok _
    | error h => exact .error h

theorem nested_judged (header : Text) {body : Generated} (h : Judged Stuck.cause body b) :
    Judged Stuck.cause (nested header body) b := by
  cases h with
  | ok cs => exact .ok _
  | error h => exact .error h

/-- The first branch of an `if`, and those behind it. -/
theorem armed_judged {α : Type} (header : Text) {yes : Generated} {rest : Except Stuck α}
    (hyes : Judged Stuck.cause yes b) (hrest : Judged Stuck.cause rest c) :
    Judged Stuck.cause (armed header yes rest) (b || c) := by
  cases hyes with
  | error h => exact .error h
  | ok cs =>
    cases hrest with
    | ok a => exact .ok _
    | error h => exact .error h

end Pieces

theorem lowerVariable_judged {v : Script.Variable} (h : Expr.AllRegular v.value.toList) :
    Judged Stuck.cause (lowerVariable v) (Expr.someRefused v.value.toList) := by
  rw [lowerVariable]
  cases hv : v.value with
  | none => exact .ok _
  | some e =>
    rw [hv, Option.toList, Expr.allRegular_single] at h
    rw [Option.toList, Expr.someRefused, Expr.someHas_single]
    exact (value_judged (lower_judged e h)).map _

/-- Several elements that are appended are visited one by one. -/
theorem lowerPushes_judged (receiver : Text) {es : List Expr} (h : Expr.AllRegular es) :
    Judged Stuck.cause (lowerPushes receiver es) (Expr.someRefused es) := by
  induction es with
  | nil => exact .ok _
  | cons e es ih =>
    rw [Expr.allRegular_cons] at h
    rw [lowerPushes, Expr.someRefused, Expr.someHas_cons]
    exact sequence_judged ((value_judged (lower_judged e h.1)).map _) (ih h.2)

/-- An expression as a statement.  Here `push` may have any number of arguments but none, because
each becomes a line. -/
theorem lowerExprStmt_judged {p : Option Pos} {e : Expr} (h : e.Regular) :
    Judged Stuck.cause (lowerExprStmt e) (Stmt.expr p e).refused := by
  -- If it counts the same alone as inside, it is judged as an expression.
  have hline (halone : e.miscounts true = e.miscounts false) :
      Judged Stuck.cause (do return [.line (← value (lowerStatement e))] : Generated)
        (Stmt.expr p e).refused := by
    rw [Stmt.refused_expr, halone]
    exact (value_judged (lowerStatement_judged h)).map _
  cases e with
  | call q f as =>
    cases f with
    | member r o n t =>
      rw [lowerExprStmt]
      split
      · -- With several arguments the call itself is not at fault, but its parts may be.
        rename_i hseveral
        obtain ⟨hf, has⟩ := Expr.regular_call.mp h
        have ho := lower_judged o (Expr.regular_member.mp hf)
        have hnone : (Expr.call q (.member r o n t) as).miscounts true = false := by
          simp [Expr.miscounts, (appendsSeveral_call.mp hseveral).2]
        refine ((value_judged ho).bind fun receiver _ ↦
          lowerPushes_judged receiver has).of_eq ?_
        rw [Stmt.refused_expr, hnone, Expr.inside, Expr.inside, List.any_append]
        rfl
      · rename_i hone
        rw [appendsSeveral_call] at hone
        exact hline (Expr.miscounts_alone (by grind))
    | _ => exact hline rfl
  | _ => exact hline rfl

/-- An output statement. -/
theorem lowerOutputStmt_judged {es : List Expr} (h : Expr.AllRegular es) :
    Judged Stuck.cause (lowerOutputStmt es) (Expr.someRefused es) := by
  have hout := lowerOutput_judged h
  rw [lowerOutputStmt]
  generalize lowerOutput es = out at hout
  generalize Expr.someRefused es = b at hout ⊢
  cases hout with
  | ok o => exact .ok _
  | error h => exact .error h

/-! ## Loops -/

/-- A loop that counts begins with its first value. -/
theorem Counting.forms_of_startOf? {init : ForInit} {n : Lexeme} {e : Expr}
    (h : Counting.startOf? init = some (n, e)) :
    (∃ v, init = .variable v ∧ v.name = n ∧ v.value = some e) ∨
      ∃ p op q, init = .expr (.assign p op (.name q n) e) := by
  unfold Counting.startOf? at h
  split at h
  · rename_i v
    obtain ⟨e', hv, he⟩ := Option.map_eq_some_iff.mp h
    cases he
    exact .inl ⟨v, rfl, rfl, hv⟩
  · rename_i p op q n' e'
    split at h
    · cases h
      exact .inr ⟨p, op, q, rfl⟩
    · cases h
  · cases h

/-- The test of a loop that counts compares the variable with the bound. -/
theorem Counting.form_of_boundOf? {name : Lexeme} {test : Option Expr} {x : Comparison}
    {e : Expr} (h : Counting.boundOf? name test = some (x, e)) :
    ∃ p op q n, test = some (.binary p op (.name q n) e) := by
  unfold Counting.boundOf? at h
  split at h
  · rename_i p op q n e'
    split at h
    · obtain ⟨x', -, he⟩ := Option.map_eq_some_iff.mp h
      cases he
      exact ⟨p, op, q, n, rfl⟩
    · cases h
  · cases h

/-- The update of a loop that counts changes the variable by a number. -/
theorem Counting.forms_of_stepOf? {name : Lexeme} {update : Option Expr} {step : Int}
    (h : Counting.stepOf? name update = some step) :
    (∃ p op side q n, update = some (.update p op side (.name q n))) ∨
      ∃ p op q n e k, update = some (.assign p op (.name q n) e) ∧ natural? e = some k := by
  unfold Counting.stepOf? at h
  split at h
  · exact .inl ⟨_, _, _, _, _, rfl⟩
  · rename_i p op q n e
    refine .inr ⟨p, op, q, n, e, ?_⟩
    split at h
    · split at h
      · obtain ⟨k, hk, -⟩ := Option.map_eq_some_iff.mp h
        exact ⟨k, rfl, hk⟩
      · split at h
        · obtain ⟨k, hk, -⟩ := Option.map_eq_some_iff.mp h
          exact ⟨k, rfl, hk⟩
        · cases h
    · cases h
  · cases h

/-- All that is passed over of the beginning of a loop that counts is its variable. -/
theorem Counting.parts_of_startOf? {init : ForInit} {n : Lexeme} {e : Expr}
    (h : Counting.startOf? init = some (n, e)) :
    (Expr.AllRegular init.expr?.toList → e.Regular) ∧
      Expr.someRefused init.expr?.toList = e.refused := by
  obtain ⟨v, rfl, -, hv⟩ | ⟨p, op, q, rfl⟩ := forms_of_startOf? h
  · rw [ForInit.expr?, hv, Option.toList, Expr.allRegular_single, Expr.someRefused,
      Expr.someHas_single]
    exact ⟨id, rfl⟩
  · rw [ForInit.expr?, Option.toList, Expr.allRegular_single, Expr.someRefused,
      Expr.someHas_single, Expr.has_assign]
    exact ⟨fun hregular ↦ (Expr.regular_assign.mp hregular).2.2, rfl⟩

/-- All that is passed over of its test is the variable as well. -/
theorem Counting.parts_of_boundOf? {name : Lexeme} {test : Option Expr} {x : Comparison}
    {e : Expr} (h : Counting.boundOf? name test = some (x, e)) :
    (Expr.AllRegular test.toList → e.Regular) ∧ Expr.someRefused test.toList = e.refused := by
  obtain ⟨p, op, q, n, rfl⟩ := form_of_boundOf? h
  rw [Option.toList, Expr.allRegular_single, Expr.someRefused, Expr.someHas_single,
    Expr.has_binary]
  exact ⟨fun hregular ↦ (Expr.regular_binary.mp hregular).2.2, rfl⟩

/-- In a numeral there is nothing to refuse. -/
theorem refused_of_natural? {e : Expr} {k : Nat} (h : natural? e = some k) : e.refused = false := by
  cases e with
  | number p n => rfl
  | _ => cases h

/-- The update of a loop that counts holds no call. -/
theorem Counting.parts_of_stepOf? {name : Lexeme} {update : Option Expr} {step : Int}
    (h : Counting.stepOf? name update = some step) :
    Expr.someRefused update.toList = false := by
  obtain ⟨p, op, side, q, n, rfl⟩ | ⟨p, op, q, n, e, k, rfl, hk⟩ := forms_of_stepOf? h
  · -- The variable goes up or down by one.
    rfl
  · -- It goes up or down by a numeral.
    rw [Option.toList, Expr.someRefused, Expr.someHas_single, Expr.has_assign]
    exact refused_of_natural? hk

/-- What is visited of a loop that counts: its first value and its bound. -/
theorem Counting.parts_of_ofLoop? {init : ForInit} {test update : Option Expr} {c : Counting}
    (h : Counting.ofLoop? init test update = some c) :
    ((Expr.AllRegular init.expr?.toList → c.start.Regular) ∧
      Expr.someRefused init.expr?.toList = c.start.refused) ∧
    ((Expr.AllRegular test.toList → c.bound.Regular) ∧
      Expr.someRefused test.toList = c.bound.refused) ∧
    Expr.someRefused update.toList = false := by
  simp only [Counting.ofLoop?, Option.bind_eq_bind, Option.bind_eq_some_iff] at h
  obtain ⟨⟨name, start⟩, hstart, ⟨comparison, bound⟩, hbound, step, hstep, h⟩ := h
  split at h
  · cases h
    exact ⟨parts_of_startOf? hstart, parts_of_boundOf? hbound, parts_of_stepOf? hstep⟩
  · cases h

/-- The last value is the bound, moved by one if it must not be reached. -/
theorem Counting.limit_judged {c : Counting} (h : c.bound.Regular) :
    Judged Error.cause c.limit c.bound.refused := by
  have hbound := lower_judged c.bound h
  rw [Counting.limit]
  split
  · exact hbound.map _
  · exact hbound.map _
  · exact hbound
  · exact hbound

theorem lowerInit_judged {init : ForInit} (h : Expr.AllRegular init.expr?.toList) :
    Judged Stuck.cause (lowerInit init) (Expr.someRefused init.expr?.toList) := by
  cases init with
  | nothing => exact .ok _
  | «variable» v => exact lowerVariable_judged h
  | expr e =>
    rw [ForInit.expr?, Option.toList, Expr.allRegular_single] at h
    rw [ForInit.expr?, Option.toList, Expr.someRefused, Expr.someHas_single]
    exact (value_judged (lowerStatement_judged h)).map _

theorem lowerTest_judged {test : Option Expr} (h : Expr.AllRegular test.toList) :
    Judged Stuck.cause (lowerTest test) (Expr.someRefused test.toList) := by
  cases test with
  | none => exact .ok _
  | some e =>
    rw [Option.toList, Expr.allRegular_single] at h
    rw [Option.toList, Expr.someRefused, Expr.someHas_single]
    exact value_judged (lower_judged e h)

theorem lowerUpdate_judged {update : Option Expr} (h : Expr.AllRegular update.toList) :
    Judged Stuck.cause (lowerUpdate update) (Expr.someRefused update.toList) := by
  cases update with
  | none => exact .ok _
  | some e =>
    rw [Option.toList, Expr.allRegular_single] at h
    rw [Option.toList, Expr.someRefused, Expr.someHas_single]
    exact (value_judged (lowerStatement_judged h)).map _

theorem lowerFor_judged {init : ForInit} {test update : Option Expr} {b : Bool}
    {body : Option Text → Generated} (hinit : Expr.AllRegular init.expr?.toList)
    (htest : Expr.AllRegular test.toList) (hupdate : Expr.AllRegular update.toList)
    (hbody : ∀ inner, Judged Stuck.cause (body inner) b) :
    Judged Stuck.cause (lowerFor init test update body)
      (Expr.someRefused init.expr?.toList || (Expr.someRefused test.toList ||
        (Expr.someRefused update.toList || b))) := by
  rw [lowerFor]
  cases hc : Counting.ofLoop? init test update with
  -- Every part is visited, in the order in which the disjunction has them.
  | none =>
    refine sequence_judged (lowerInit_judged hinit) ?_
    exact (lowerTest_judged htest).bind fun test' _ ↦ (lowerUpdate_judged hupdate).bind
      fun update' _ ↦ (nested_judged _ (hbody update')).map _
  -- The bound is visited before the first value, so two parts of the disjunction change places.
  | some c =>
    obtain ⟨⟨hstart, hinit'⟩, ⟨hbound, htest'⟩, hupdate'⟩ := Counting.parts_of_ofLoop? hc
    have hlimit := Counting.limit_judged (hbound htest)
    have hfirst := lower_judged c.start (hstart hinit)
    rw [hinit', htest', hupdate', Bool.false_or, Bool.or_left_comm]
    generalize c.bound.refused = bound at hlimit ⊢
    generalize c.start.refused = start at hfirst ⊢
    simp only
    generalize c.limit = limit at hlimit ⊢
    generalize lower c.start = first at hfirst ⊢
    cases hlimit with
    | error h => exact .error h
    | ok last =>
      cases hfirst with
      | error h => exact .error h
      | ok first =>
        exact sequence_judged (.ok _) ((nested_judged _ (hbody none)).map _)

/-! ## Statements -/

mutual

/-- **Code is generated for a statement unless a part of it miscounts.** -/
theorem lowerStmt_judged (words : Text) (update : Option Text) (s : Stmt) (hs : s.native = true)
    (h : s.Regular) : Judged Stuck.cause (lowerStmt words update s) s.refused := by
  cases s with
  | lineComment | blockComment | importFrom | exportNames | breakLoop | continueLoop => exact .ok _
  | foreign f => cases hs
  -- What is exported is judged as it would be by itself.
  | exportDecl p s ns d => exact lowerStmt_judged words update s hs h
  | exportValue p e ns d =>
    rw [lowerStmt, Stmt.refused, Stmt.parts, Script.Part.any_within, Expr.someHas_single]
    exact (value_judged (lower_judged e (Stmt.regular_exportValue.mp h))).map _
  | «variable» v =>
    rw [lowerStmt, Stmt.refused, Stmt.parts, Script.Part.any_within]
    exact lowerVariable_judged (Stmt.regular_within.mp h)
  | output p form as =>
    rw [lowerStmt, Stmt.refused, Stmt.parts, Script.Part.any_within]
    exact lowerOutputStmt_judged (Stmt.regular_within.mp h)
  | function p n ps body =>
    rw [lowerStmt]
    exact (nested_judged _ (lowerStmts_judged words update body hs h)).map _
  | ret p v =>
    rw [Stmt.refused, Stmt.parts, Script.Part.any_within]
    cases v with
    | none => exact .ok _
    | some e =>
      have he := Expr.allRegular_single.mp (Stmt.regular_within.mp h)
      rw [lowerStmt, Option.toList, Expr.someHas_single]
      exact (value_judged (lower_judged e he)).map _
  -- Statements with statements inside: the test first, then the branches.
  | ifThen p t y =>
    rw [Stmt.native, Bool.and_eq_true] at hs
    obtain ⟨ht, hy⟩ := Stmt.regular_ifThen.mp h
    rw [lowerStmt, Stmt.refused_ifThen]
    exact (value_judged (lower_judged t ht)).bind fun test _ ↦
      (nested_judged _ (lowerStmts_judged words update y hs.2 hy)).map _
  | ifElse p t y n =>
    rw [Stmt.native, Bool.and_eq_true, Bool.and_eq_true] at hs
    obtain ⟨ht, hy, hn⟩ := Stmt.regular_ifElse.mp h
    rw [lowerStmt, Stmt.refused_ifElse]
    exact (value_judged (lower_judged t ht)).bind fun test _ ↦
      (armed_judged _ (lowerStmts_judged words update y hs.1.2 hy)
        (lowerElse_judged words update n hs.2 hn)).map _
  | forLoop p i t u b =>
    rw [Stmt.native, Bool.and_eq_true] at hs
    obtain ⟨hi, ht, hu, hb⟩ := Stmt.regular_forLoop.mp h
    rw [lowerStmt, Stmt.refused_forLoop]
    exact lowerFor_judged hi ht hu fun inner ↦ lowerStmts_judged words inner b hs.2 hb
  | whileLoop p t b =>
    rw [Stmt.native, Bool.and_eq_true] at hs
    obtain ⟨ht, hb⟩ := Stmt.regular_whileLoop.mp h
    rw [lowerStmt, Stmt.refused_whileLoop]
    exact (value_judged (lower_judged t ht)).bind fun test _ ↦
      (nested_judged _ (lowerStmts_judged words none b hs.2 hb)).map _
  | expr p e => exact lowerExprStmt_judged (Stmt.regular_expr.mp h)

/-- What stands behind `else`, where an `if` is no branch of its own. -/
theorem lowerElse_judged (words : Text) (update : Option Text) (ss : List Stmt)
    (hs : Stmt.nativeAll ss = true) (h : Stmt.AllRegular ss) :
    Judged Stuck.cause (lowerElse words update ss) (Stmt.someRefused ss) := by
  cases ss with
  | nil => exact .ok _
  | cons s ss =>
    rw [Stmt.nativeAll, Bool.and_eq_true] at hs
    rw [Stmt.allRegular_cons] at h
    rw [lowerElse, Stmt.someRefused_cons]
    split
    · rename_i hif
      obtain rfl := List.isEmpty_iff.mp hif.2
      exact (lowerElseIf_judged words update s hif.1 hs.1 h.1).of_eq (Bool.or_false _)
    · exact (nested_judged _ (sequence_judged (lowerStmt_judged words update s hs.1 h.1)
        (lowerStmts_judged words update ss hs.2 h.2))).map _

/-- An `if` behind `else` is judged like one that stands alone. -/
theorem lowerElseIf_judged (words : Text) (update : Option Text) (s : Stmt) (hif : s.isIf = true)
    (hs : s.native = true) (h : s.Regular) :
    Judged Stuck.cause (lowerElseIf words update s) s.refused := by
  cases s with
  | ifThen p t y =>
    rw [Stmt.native, Bool.and_eq_true] at hs
    obtain ⟨ht, hy⟩ := Stmt.regular_ifThen.mp h
    rw [lowerElseIf, Stmt.refused_ifThen]
    exact (value_judged (lower_judged t ht)).bind fun test _ ↦
      (nested_judged _ (lowerStmts_judged words update y hs.2 hy)).map _
  | ifElse p t y n =>
    rw [Stmt.native, Bool.and_eq_true, Bool.and_eq_true] at hs
    obtain ⟨ht, hy, hn⟩ := Stmt.regular_ifElse.mp h
    rw [lowerElseIf, Stmt.refused_ifElse]
    exact (value_judged (lower_judged t ht)).bind fun test _ ↦
      (armed_judged _ (lowerStmts_judged words update y hs.1.2 hy)
        (lowerElse_judged words update n hs.2 hn)).map _
  | _ => cases hif

theorem lowerStmts_judged (words : Text) (update : Option Text) (ss : List Stmt)
    (hs : Stmt.nativeAll ss = true) (h : Stmt.AllRegular ss) :
    Judged Stuck.cause (lowerStmts words update ss) (Stmt.someRefused ss) := by
  cases ss with
  | nil => exact .ok _
  | cons s ss =>
    rw [Stmt.nativeAll, Bool.and_eq_true] at hs
    rw [Stmt.allRegular_cons] at h
    rw [lowerStmts, Stmt.someRefused_cons]
    exact sequence_judged (lowerStmt_judged words update s hs.1 h.1)
      (lowerStmts_judged words update ss hs.2 h.2)

end

end Advplc.Lowering
