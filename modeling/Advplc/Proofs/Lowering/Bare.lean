import Advplc.Lowering.Session
import Advplc.Proofs.Script.Bare

/-!
# Generated code holds no position

Positions only go into the errors of code generation.  So a tree and the same tree without its
positions become the same code, or are both refused: this is what the lemmas `…_bare` say of one
function after another, up to `generate_congr` for whole programs.

What a function makes is compared by `Except.toOption`, which forgets the error; `toOption_bind`
carries the comparison from the parts to the whole.  Where a function looks at the shape of a tree
before it goes on, as those for calls, output and counting loops do, the shape has to be seen to be
the same, and that takes a case for each node it looks for.

There is one thing that is not compared.  A session that fails has written other lines than one that
succeeds, so two programs with the same code are only known to fail together
(`Session.generate_congr`).
-/

set_option autoImplicit false

namespace Advplc.Lowering

open Script (Expr Stmt)

variable {ε α β : Type}

@[simp] theorem toOption_ok (a : α) : (Except.ok a : Except ε α).toOption = some a := rfl

@[simp] theorem toOption_error (e : ε) : (Except.error e : Except ε α).toOption = none := rfl

@[simp] theorem toOption_pure (a : α) : (pure a : Except ε α).toOption = some a := rfl

/-- Forgetting the error commutes with going on, because what comes next does not see it. -/
theorem toOption_bind (x : Except ε α) (f : α → Except ε β) :
    (x >>= f).toOption = x.toOption.bind fun a ↦ (f a).toOption := by
  cases x <;> rfl

/-! ## Expressions -/

/-- Whether a tree is a numeral, and which, is seen without its position. -/
@[simp] theorem natural?_bare (e : Expr) : natural? e.bare = natural? e := by
  cases e with
  | number p n => cases n <;> rfl
  | _ => rfl

/-- Parentheses behind a unary operator depend on the shape of the operand alone. -/
@[simp] theorem startsWithOperator_bare (e : Expr) :
    startsWithOperator e.bare = startsWithOperator e := by cases e <;> rfl

@[simp] theorem isThis_bare (e : Expr) : isThis e.bare = isThis e := by cases e <;> rfl

/-- What a bound is shifted by is folded if the tree is a numeral. -/
theorem shift_bare (e : Expr) (t : Target.Expr) (delta : Int) :
    shift e.bare t delta = shift e t delta := by
  rw [shift, shift, natural?_bare]

/-- The same for the distance of two ends. -/
theorem distance_bare (start last : Expr) (s l : Target.Expr) :
    distance start.bare s last.bare l = distance start s last l := by
  rw [distance, distance, natural?_bare, natural?_bare]

/-- Whether a method can be applied, and what that gives, does not depend on positions. -/
theorem applyMethod_bare (m : Method) (p q : Option Pos) (receiver : Target.Expr)
    (as : List Expr) (args : List Target.Expr) :
    (applyMethod m p receiver ((Expr.bareAll as).zip args)).toOption =
      (applyMethod m q receiver (as.zip args)).toOption := by
  -- What is made of the arguments is all that most methods use.
  have hvalues : ((Expr.bareAll as).zip args).map Prod.snd = (as.zip args).map Prod.snd := by
    induction as generalizing args with
    | nil => rfl
    | cons a as ih =>
      cases args with
      | nil => rfl
      | cons x args => exact congrArg (x :: ·) (ih args)
  cases m with
  | toUpperCase => rfl
  | toLowerCase => rfl
  | indexOf => simp only [applyMethod, hvalues]
  -- The number of arguments decides, so each number that is told apart is a case of its own.
  | push =>
    match as, args with
    | [], _ | _ :: _, [] | [_], [_] | [_], _ :: _ :: _ | _ :: _ :: _, [_]
    | _ :: _ :: _, _ :: _ :: _ => rfl
  -- Here the trees of the arguments are looked at, to see whether they are numerals.
  | substring =>
    match as, args with
    | [], _ | _ :: _, [] => rfl
    | [a], x :: _ | a :: _ :: _, [x] =>
      simp only [applyMethod, Expr.bareAll, List.zip_cons_cons, List.zip_nil_left,
        List.zip_nil_right, shift_bare]
    | a :: b :: _, x :: y :: _ =>
      simp only [applyMethod, Expr.bareAll, List.zip_cons_cons, shift_bare, distance_bare]

/-- A call of what is neither a member nor a name. -/
theorem lower_call {p : Option Pos} {f : Expr} {as : List Expr}
    (hmember : ∀ q o n r, f ≠ .member q o n r) (hname : ∀ q n, f ≠ .name q n) :
    lower (.call p f as) = do
      let args ← lowerAll as
      return .call (← lower f) args := by
  rw [lower]
  · exact fun _ _ _ _ h ↦ hmember _ _ _ _ h
  · exact fun _ _ h ↦ hname _ _ h

mutual

/-- **An expression becomes the same code without its positions.** -/
theorem lower_bare (e : Expr) : (lower e.bare).toOption = (lower e).toOption := by
  cases e with
  | number | string | boolean | null | name | this | foreign => rfl
  | template p cs hs => simp only [lower, Expr.bare, toOption_bind, lowerTemplate_bare cs hs]
  | binary p op l r =>
    simp only [lower, Expr.bare]
    cases binaryOperators.lookup op with
    | none => rfl
    | some o => simp only [toOption_bind, lower_bare l, lower_bare r]
  | unary p op e =>
    simp only [lower, Expr.bare]
    cases unaryOperators.lookup op with
    | none => rfl
    | some o => simp only [toOption_bind, lower_bare e, unaryOperand, startsWithOperator_bare]
  | update p op side e => cases side <;> simp only [lower, Expr.bare, toOption_bind, lower_bare e]
  | assign p op t v =>
    simp only [lower, Expr.bare]
    cases assignmentOperators.lookup op with
    | none => rfl
    | some o => simp only [toOption_bind, lower_bare t, lower_bare v]
  | conditional p t y n =>
    simp only [lower, Expr.bare, toOption_bind, lower_bare t, lower_bare y, lower_bare n]
  | object p ps => simp only [lower, Expr.bare, toOption_bind, lowerProperties_bare ps]
  | array p es => simp only [lower, Expr.bare, toOption_bind, lowerAll_bare es]
  -- Fields of `this` are told from other members by the object, which is the same without
  -- positions.
  | member p o n q =>
    simp only [lower, Expr.bare, isThis_bare]
    split
    · simp only [toOption_bind, lower_bare o]
    · split
      · rfl
      · simp only [toOption_bind, lower_bare o]
  | index p o k => simp only [lower, Expr.bare, toOption_bind, lower_bare o, lower_bare k]
  -- What is called decides between a method, a member, a function by its name, and anything else.
  | call p f as =>
    have hf := lower_bare f
    cases f with
    | member q o n r =>
      simp only [lower, Expr.bare, isThis_bare, toOption_bind, lowerAll_bare as]
      congr 1
      funext args
      cases Method.ofName? n with
      | none =>
        simp only
        split
        · rfl
        · simp only [toOption_bind, lower_bare o]
      | some m =>
        simp only [toOption_bind, lower_bare o, applyMethod_bare m o.bare.pos o.pos]
    | name q n => simp only [lower, Expr.bare, toOption_bind, lowerAll_bare as]
    | _ =>
      rw [Expr.bare, lower_call (by simp [Expr.bare]) (by simp [Expr.bare]),
        lower_call (by simp) (by simp)]
      simp only [toOption_bind, lowerAll_bare as, hf]
  | new p f as => simp only [lower, Expr.bare, toOption_bind, lower_bare f, lowerAll_bare as]

theorem lowerAll_bare (es : List Expr) :
    (lowerAll (Expr.bareAll es)).toOption = (lowerAll es).toOption := by
  cases es with
  | nil => rfl
  | cons e es =>
    simp only [lowerAll, Expr.bareAll, toOption_bind, lower_bare e, lowerAll_bare es]

theorem lowerProperties_bare (ps : List (Lexeme × Expr)) :
    (lowerProperties (Expr.bareProperties ps)).toOption = (lowerProperties ps).toOption := by
  cases ps with
  | nil => rfl
  | cons x ps =>
    obtain ⟨k, v⟩ := x
    simp only [lowerProperties, Expr.bareProperties, toOption_bind, lower_bare v,
      lowerProperties_bare ps]

/-- Chunks and holes are gone through together, and a list of chunks that is too short fails in the
same way. -/
theorem lowerTemplate_bare (cs : List Text) (hs : List Expr) :
    (lowerTemplate cs (Expr.bareAll hs)).toOption = (lowerTemplate cs hs).toOption := by
  cases hs with
  | nil => rfl
  | cons e es =>
    cases cs with
    | nil => rfl
    | cons c cs =>
      simp only [lowerTemplate, Expr.bareAll, toOption_bind, lower_bare e, lowerTemplate_bare cs es]

end

/-- Assignments are written differently as statements; everything else is not. -/
theorem lowerStatement_bare (e : Expr) :
    (lowerStatement e.bare).toOption = (lowerStatement e).toOption := by
  cases e with
  | assign p op t v =>
    simp only [lowerStatement, Expr.bare, lowerAssign]
    cases assignmentOperators.lookup op with
    | none => rfl
    | some o => simp only [toOption_bind, lower_bare t, lower_bare v]
  | _ => exact lower_bare _

/-- An argument of an output statement that is not text. -/
theorem outputPieces_value {e : Expr} (hstring : ∀ p v, e ≠ .string p v)
    (htemplate : ∀ p cs hs, e ≠ .template p cs hs) :
    outputPieces e = do return [.value (← lower e)] := by
  rw [outputPieces]
  · exact fun _ _ h ↦ hstring _ _ h
  · exact fun _ _ _ h ↦ htemplate _ _ _ h

/-- An argument of an output statement. -/
theorem outputPieces_bare (e : Expr) :
    (outputPieces e.bare).toOption = (outputPieces e).toOption := by
  cases e with
  | string p v => rfl
  | template p cs hs =>
    simp only [outputPieces, Expr.bare, toOption_bind, lowerTemplate_bare cs hs]
  -- Neither text nor a template, with positions or without.
  | _ =>
    rw [outputPieces_value (by simp [Expr.bare]) (by simp [Expr.bare]),
      outputPieces_value (by simp) (by simp), toOption_bind, toOption_bind, lower_bare]

theorem outputAll_bare (es : List Expr) :
    (outputAll (Expr.bareAll es)).toOption = (outputAll es).toOption := by
  induction es with
  | nil => rfl
  | cons e es ih => simp only [outputAll, Expr.bareAll, toOption_bind, outputPieces_bare e, ih]

/-- A single argument of an output statement that is not text. -/
theorem lowerOutput_value {e : Expr} (hstring : ∀ p v, e ≠ .string p v)
    (htemplate : ∀ p cs hs, e ≠ .template p cs hs) :
    lowerOutput [e] = do return .value (← lower e) := by
  rw [lowerOutput]
  · exact fun _ _ h ↦ hstring _ _ h
  · exact fun _ _ _ h ↦ htemplate _ _ _ h

/-- With several arguments it does not matter what the first one is. -/
theorem lowerOutput_several (e e' : Expr) (es : List Expr) :
    lowerOutput (e :: e' :: es) = do return .pieces (← outputAll (e :: e' :: es)) := by
  rw [lowerOutput]
  all_goals simp

theorem lowerOutput_bare (es : List Expr) :
    (lowerOutput (Expr.bareAll es)).toOption = (lowerOutput es).toOption := by
  -- None, several and one argument are told apart, and one that is text is a case of its own.
  match es with
  | [] => rfl
  | e :: e' :: es =>
    have hall := outputAll_bare (e :: e' :: es)
    simp only [Expr.bareAll] at hall ⊢
    rw [lowerOutput_several, lowerOutput_several, toOption_bind, toOption_bind, hall]
  | [e] =>
    rw [Expr.bareAll, Expr.bareAll]
    cases e with
    | string p v => rfl
    | template p cs hs =>
      simp only [lowerOutput, Expr.bare, toOption_bind, lowerTemplate_bare cs hs]
    | _ =>
      rw [lowerOutput_value (by simp [Expr.bare]) (by simp [Expr.bare]),
        lowerOutput_value (by simp) (by simp), toOption_bind, toOption_bind, lower_bare]

/-! ## Counting loops -/

/-- The counting loop without positions. -/
def Counting.bare (c : Counting) : Counting :=
  { c with start := c.start.bare, bound := c.bound.bare }

/-- The first value of a loop that counts, and the variable that gets it. -/
theorem Counting.startOf?_bare (init : Script.ForInit) : Counting.startOf? init.bare =
    (Counting.startOf? init).map fun x ↦ (x.1, x.2.bare) := by
  cases init with
  | nothing => rfl
  | «variable» v =>
    simp only [Counting.startOf?, Script.ForInit.bare, Script.Variable.bare]
    cases v.value <;> rfl
  -- Only an assignment to a name is a first value.
  | expr e =>
    cases e with
    | assign p op t v =>
      cases t with
      | name q n =>
        simp only [Counting.startOf?, Script.ForInit.bare, Expr.bare]
        split <;> rfl
      | _ => rfl
    | _ => rfl

/-- The comparison of the variable with the bound. -/
theorem Counting.boundOf?_bare (name : Lexeme) (test : Option Expr) :
    Counting.boundOf? name (test.map Expr.bare) =
      (Counting.boundOf? name test).map fun x ↦ (x.1, x.2.bare) := by
  cases test with
  | none => rfl
  | some e =>
    cases e with
    | binary p op l r =>
      cases l with
      | name q n =>
        simp only [Counting.boundOf?, Option.map_some, Expr.bare]
        split
        · cases Comparison.ofOperator? op <;> rfl
        · rfl
      | _ => rfl
    | _ => rfl

/-- The step is a number, in which there is no position left. -/
theorem Counting.stepOf?_bare (name : Lexeme) (update : Option Expr) :
    Counting.stepOf? name (update.map Expr.bare) = Counting.stepOf? name update := by
  cases update with
  | none => rfl
  | some e =>
    cases e with
    | update p op side e => cases e <;> rfl
    | assign p op t v =>
      cases t with
      | name q n => simp only [Counting.stepOf?, Option.map_some, Expr.bare, natural?_bare]
      | _ => rfl
    | _ => rfl

/-- **Whether a loop counts does not depend on positions.** -/
theorem Counting.ofLoop?_bare (init : Script.ForInit) (test update : Option Expr) :
    Counting.ofLoop? init.bare (test.map Expr.bare) (update.map Expr.bare) =
      (Counting.ofLoop? init test update).map Counting.bare := by
  simp only [Counting.ofLoop?, Counting.startOf?_bare]
  -- What is looked for is found one after another, each by the name that was found first.
  cases Counting.startOf? init with
  | none => rfl
  | some x =>
    simp only [Option.map_some, Option.bind_eq_bind, Option.bind_some, Counting.boundOf?_bare]
    cases Counting.boundOf? x.1 test with
    | none => rfl
    | some y =>
      simp only [Option.map_some, Option.bind_some, Counting.stepOf?_bare]
      cases Counting.stepOf? x.1 update with
      | none => rfl
      | some step =>
        simp only [Option.bind_some]
        split <;> rfl

theorem Counting.limit_bare (c : Counting) : c.bare.limit.toOption = c.limit.toOption := by
  simp only [Counting.limit, Counting.bare]
  cases c.comparison with
  | less | greater => simp only [lowerShifted, toOption_bind, lower_bare, shift_bare]
  | lessEqual | greaterEqual => exact lower_bare c.bound

/-! ## Statements -/

section Pieces

/-- Printing what was made does not fail. -/
@[simp] theorem toOption_value (r : Except Error Target.Expr) :
    (value r).toOption = r.toOption.map Target.Expr.print := by
  cases r <;> rfl

/-- Of two pieces, the code is that of both.  What the first one has written when the second fails
is part of the error, and forgotten with it. -/
@[simp] theorem toOption_sequence (first second : Generated) : (sequence first second).toOption =
    first.toOption.bind fun cs ↦ second.toOption.map fun ds ↦ cs ++ ds := by
  cases first <;> cases second <;> rfl

/-- A header is written before what stands under it, and goes into the error if that fails. -/
@[simp] theorem toOption_nested (header : Text) (body : Generated) :
    (nested header body).toOption = body.toOption := by
  cases body <;> rfl

/-- The same for the first branch of an `if`, whose other branches come behind it. -/
@[simp] theorem toOption_armed (header : Text) (yes : Generated) (rest : Except Stuck α) :
    (armed header yes rest).toOption =
      yes.toOption.bind fun cs ↦ rest.toOption.map fun a ↦ (cs, a) := by
  cases yes <;> cases rest <;> rfl

end Pieces

theorem lowerVariable_bare (v : Script.Variable) :
    (lowerVariable v.bare).toOption = (lowerVariable v).toOption := by
  simp only [lowerVariable, Script.Variable.bare]
  cases v.value with
  | none => rfl
  | some e => simp only [Option.map_some, toOption_bind, toOption_value, lower_bare]

theorem lowerPushes_bare (receiver : Text) (es : List Expr) :
    (lowerPushes receiver (Expr.bareAll es)).toOption = (lowerPushes receiver es).toOption := by
  induction es with
  | nil => rfl
  | cons e es ih =>
    simp only [lowerPushes, Expr.bareAll, toOption_sequence, toOption_bind, toOption_value,
      lower_bare e, ih]

theorem length_bareAll (es : List Expr) : (Expr.bareAll es).length = es.length := by
  induction es with
  | nil => rfl
  | cons e es ih => rw [Expr.bareAll, List.length_cons, List.length_cons, ih]

/-- An expression as a statement, of which several elements that are appended become several
lines. -/
theorem lowerExprStmt_bare (e : Expr) :
    (lowerExprStmt e.bare).toOption = (lowerExprStmt e).toOption := by
  -- Everything but that is a single line.
  have hline : (do return [.line (← value (lowerStatement e.bare))] : Generated).toOption =
      (do return [.line (← value (lowerStatement e))] : Generated).toOption := by
    simp only [toOption_bind, toOption_value, lowerStatement_bare e]
  cases e with
  | call p f as =>
    cases f with
    | member q o n r =>
      -- Whether it is that kind of call is seen from a name and from the number of arguments.
      have hsame : appendsSeveral (.call none (.member none o.bare n none) (Expr.bareAll as)) =
          appendsSeveral (.call p (.member q o n r) as) := by
        simp only [appendsSeveral, isPush, length_bareAll]
      simp only [lowerExprStmt, Expr.bare, hsame]
      split
      · simp only [toOption_bind, toOption_value, lower_bare o, lowerPushes_bare]
      · exact hline
    | _ => exact hline
  | _ => exact hline

/-- An output statement is refused if and only if its arguments are. -/
theorem lowerOutputStmt_bare (es : List Expr) :
    (lowerOutputStmt (Expr.bareAll es)).toOption = (lowerOutputStmt es).toOption := by
  have hout := lowerOutput_bare es
  simp only [lowerOutputStmt]
  cases h : lowerOutput es <;> cases h' : lowerOutput (Expr.bareAll es) <;> simp_all

theorem lowerInit_bare (init : Script.ForInit) :
    (lowerInit init.bare).toOption = (lowerInit init).toOption := by
  cases init with
  | nothing => rfl
  | «variable» v => exact lowerVariable_bare v
  | expr e =>
    simp only [lowerInit, Script.ForInit.bare, toOption_bind, toOption_value, lowerStatement_bare e]

theorem declaration_bare (init : Script.ForInit) : declaration init.bare = declaration init := by
  cases init <;> rfl

theorem lowerTest_bare (test : Option Expr) :
    (lowerTest (test.map Expr.bare)).toOption = (lowerTest test).toOption := by
  cases test with
  | none => rfl
  | some e => simp only [lowerTest, Option.map_some, toOption_value, lower_bare e]

/-- The update of a loop, which is written where the loop goes round. -/
theorem lowerUpdate_bare (update : Option Expr) :
    (lowerUpdate (update.map Expr.bare)).toOption = (lowerUpdate update).toOption := by
  cases update with
  | none => rfl
  | some e =>
    simp only [lowerUpdate, Option.map_some, toOption_bind, toOption_value, lowerStatement_bare e]

/-- A `for` loop, if its bodies become the same code. -/
theorem lowerFor_bare (init : Script.ForInit) (test update : Option Expr)
    {body body' : Option Text → Generated}
    (hbody : ∀ inner, (body' inner).toOption = (body inner).toOption) :
    (lowerFor init.bare (test.map Expr.bare) (update.map Expr.bare) body').toOption =
      (lowerFor init test update body).toOption := by
  simp only [lowerFor, Counting.ofLoop?_bare]
  cases Counting.ofLoop? init test update with
  -- A loop that does not count becomes a loop with a test, and all its parts are written.
  | none =>
    simp only [Option.map_none, toOption_sequence, toOption_bind, lowerInit_bare, lowerTest_bare,
      lowerUpdate_bare, toOption_nested, hbody]
  -- Of a loop that counts, the first value and the bound are written, each of which may be refused.
  | some c =>
    have hlimit := c.limit_bare
    have hstart := lower_bare c.start
    have hheader : ∀ first last, c.bare.header first last = c.header first last := fun _ _ ↦ rfl
    have hbareStart : c.bare.start = c.start.bare := rfl
    simp only [Option.map_some, hheader, hbareStart, declaration_bare]
    -- The two runs are compared only by what they succeed with, so what they are is forgotten
    -- first.
    generalize c.bare.limit = l' at hlimit ⊢
    generalize lower c.start.bare = s' at hstart ⊢
    cases hl : c.limit with
    | error e =>
      cases l' with
      | error e' => rfl
      | ok last => rw [hl] at hlimit; cases hlimit
    | ok last =>
      cases l' with
      | error e' => rw [hl] at hlimit; cases hlimit
      | ok last' =>
        rw [hl] at hlimit
        cases hlimit
        cases hs : lower c.start with
        | error e =>
          cases s' with
          | error e' => rfl
          | ok first => rw [hs] at hstart; cases hstart
        | ok first =>
          cases s' with
          | error e' => rw [hs] at hstart; cases hstart
          | ok first' =>
            rw [hs] at hstart
            cases hstart
            simp only [toOption_sequence, toOption_bind, toOption_nested, hbody]

/-- Whether a statement is an `if` decides how it is written behind `else`. -/
theorem isIf_bare (s : Stmt) : s.bare.isIf = s.isIf := by cases s <;> rfl

theorem isEmpty_bareAll (ss : List Stmt) : (Stmt.bareAll ss).isEmpty = ss.isEmpty := by
  cases ss <;> rfl

/-- Whether a function ends with a `return` decides whether one is added. -/
theorem endsWithReturn_bare (body : List Stmt) :
    endsWithReturn (Stmt.bareAll body) = endsWithReturn body := by
  have hmap : ∀ ss : List Stmt, Stmt.bareAll ss = ss.map Stmt.bare := by
    intro ss
    induction ss with
    | nil => rfl
    | cons s ss ih => rw [Stmt.bareAll, ih, List.map_cons]
  have hreturn : ∀ s : Stmt, s.bare.isReturn = s.isReturn := fun s ↦ by cases s <;> rfl
  rw [endsWithReturn, endsWithReturn, hmap, List.getLast?_map]
  cases body.getLast? with
  | none => rfl
  | some s => exact hreturn s

mutual

/-- **A statement becomes the same code without its positions.** -/
theorem lowerStmt_bare (words : Text) (update : Option Text) (s : Stmt) :
    (lowerStmt words update s.bare).toOption = (lowerStmt words update s).toOption := by
  cases s with
  | lineComment | blockComment | importFrom | exportNames => rfl
  | breakLoop | continueLoop | foreign => rfl
  | exportDecl p s ns d => exact lowerStmt_bare words update s
  | exportValue p e ns d =>
    simp only [lowerStmt, Stmt.bare, toOption_bind, toOption_value, lower_bare e]
  | «variable» v => exact lowerVariable_bare v
  | output p form as => exact lowerOutputStmt_bare as
  -- Statements with statements inside: each piece of the code is the same, so their lines are.
  | function p n ps body =>
    simp only [lowerStmt, Stmt.bare, toOption_bind, toOption_nested, endsWithReturn_bare,
      lowerStmts_bare words update body]
  | ret p v =>
    cases v with
    | none => rfl
    | some e =>
      simp only [lowerStmt, Stmt.bare, Option.map_some, toOption_bind, toOption_value, lower_bare e]
  | ifThen p t y =>
    simp only [lowerStmt, Stmt.bare, toOption_bind, toOption_value, toOption_nested, lower_bare t,
      lowerStmts_bare words update y]
  | ifElse p t y n =>
    simp only [lowerStmt, Stmt.bare, toOption_bind, toOption_value, toOption_armed, lower_bare t,
      lowerStmts_bare words update y, lowerElse_bare words update n]
  | forLoop p i t u b =>
    simp only [lowerStmt, Stmt.bare]
    exact lowerFor_bare i t u fun inner ↦ lowerStmts_bare words inner b
  | whileLoop p t b =>
    simp only [lowerStmt, Stmt.bare, toOption_bind, toOption_value, toOption_nested, lower_bare t,
      lowerStmts_bare words none b]
  | expr p e => exact lowerExprStmt_bare e

/-- What stands behind `else`: an `if` goes on with the one before it, anything else is a branch. -/
theorem lowerElse_bare (words : Text) (update : Option Text) (ss : List Stmt) :
    (lowerElse words update (Stmt.bareAll ss)).toOption = (lowerElse words update ss).toOption := by
  cases ss with
  | nil => rfl
  | cons s ss =>
    simp only [lowerElse, Stmt.bareAll, isIf_bare, isEmpty_bareAll]
    split
    · exact lowerElseIf_bare words update s
    · simp only [toOption_bind, toOption_nested, toOption_sequence, lowerStmt_bare words update s,
        lowerStmts_bare words update ss]

theorem lowerElseIf_bare (words : Text) (update : Option Text) (s : Stmt) :
    (lowerElseIf words update s.bare).toOption = (lowerElseIf words update s).toOption := by
  cases s with
  | ifThen p t y =>
    simp only [lowerElseIf, Stmt.bare, toOption_bind, toOption_value, toOption_nested, lower_bare t,
      lowerStmts_bare words update y]
  | ifElse p t y n =>
    simp only [lowerElseIf, Stmt.bare, toOption_bind, toOption_value, toOption_armed, lower_bare t,
      lowerStmts_bare words update y, lowerElse_bare words update n]
  | _ => rfl

theorem lowerStmts_bare (words : Text) (update : Option Text) (ss : List Stmt) :
    (lowerStmts words update (Stmt.bareAll ss)).toOption =
      (lowerStmts words update ss).toOption := by
  cases ss with
  | nil => rfl
  | cons s ss =>
    simp only [lowerStmts, Stmt.bareAll, toOption_sequence, lowerStmt_bare words update s,
      lowerStmts_bare words update ss]

end

/-! ## Programs -/

/-- Code that cannot be generated completely makes writing it fail. -/
theorem Session.writeCode_error (s : Session) (k : Stuck) :
    ∃ s' f, s.writeCode (.error k) = (s', .error f) := by
  rw [Session.writeCode]
  cases hwrite : s.write k.entries with
  | mk s' r =>
    cases r with
    | ok u => exact ⟨_, _, rfl⟩
    | error f => exact ⟨_, _, rfl⟩

theorem Session.generate_congr (s : Session) {p q : Script.Program}
    (h : Stmt.bareAll p.body = Stmt.bareAll q.body) :
    (s.generate (.program p)).2.toOption = (s.generate (.program q)).2.toOption := by
  simp only [Session.generate]
  cases hheader : Session.header { s with lines := [], level := 0 } with
  | mk s' r =>
    cases r with
    | error f => rfl
    | ok u =>
      -- The code of both is that of their common bare tree.
      have hcode : (s'.code none p.body).toOption = (s'.code none q.body).toOption := by
        rw [Session.code, Session.code, ← lowerStmts_bare, h, lowerStmts_bare]
      simp only
      generalize s'.code none p.body = c at hcode ⊢
      generalize s'.code none q.body = d at hcode ⊢
      cases c with
      | ok c =>
        cases d with
        | ok d => cases hcode; rfl
        | error k => cases hcode
      | error k =>
        cases d with
        | ok d => cases hcode
        | error k' =>
          -- Both fail, but with lines and errors of their own.
          obtain ⟨_, _, hp⟩ := s'.writeCode_error k
          obtain ⟨_, _, hq⟩ := s'.writeCode_error k'
          simp only [hp, hq, toOption_error]

/-- **The file for a program does not depend on positions.** -/
theorem generate_congr (options : Target.Options) {p q : Script.Program}
    (h : Stmt.bareAll p.body = Stmt.bareAll q.body) :
    (generate options (.program p)).toOption = (generate options (.program q)).toOption := by
  simp only [generate, toOption_bind, Session.generate_congr _ h]

end Advplc.Lowering
