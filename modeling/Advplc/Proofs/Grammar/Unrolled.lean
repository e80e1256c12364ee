import Advplc.Proofs.Grammar.Agreement

/-!
# The grammar without counts

Every rule of the grammar takes at least one token when it succeeds, and comes back to itself only
after it has taken one.  So the unrolled families close: `expr`, `unary` and `stmt` satisfy the
equations that the grammar states, `expr_eq`, `unary_eq` and `stmt_eq`, and so do the repetitions
inside the rules (`callee_eq`, `suffixes_eq`, `chain_eq`).  From here on the number of tokens left
plays no role.

A rule is given the parsers for what stands inside it.  The lemmas `agree_…` say of one rule after
another that it answers the same with two of these if they agree on shorter streams.  They follow
the text of the rules: `bind_one` behind a step that takes a token, after which the stream is
shorter, and `bind_zero` behind one that may take none.  In `Agree k d` the number `d` is what the
rule takes at least, `0` or `1`.

A repetition is given by what it does once.  `calleeStep`, `suffixesStep` and `chainStep` are one
round each; `guarded_…` says that a round asks for the others only on a shorter stream, and
`unrolls_…` that the counted family is that round, unrolled.
-/

set_option autoImplicit false

namespace Advplc.Grammar

open Script Parse

/-! ## Expressions -/

/-- The parsers for inner expressions agree on streams of at most `k` tokens. -/
def Inner.Agree (k : Nat) (inner inner' : Inner) : Prop :=
  Parse.Agree k 1 inner.expr inner'.expr ∧ Parse.Agree k 1 inner.unary inner'.unary

section Expressions

variable {k : Nat} {inner inner' : Inner}

/-- A name behind a point is read without any expression. -/
theorem agree_propertyName : Agree k 1 propertyName propertyName := by
  refine agree_peekToken.bind_zero fun t ↦ ?_
  cases t with
  -- At the end of the stream an identifier is asked for in vain, and the error is the same.
  | none => exact (agree_expect _).bind_one fun _ _ ↦ Agree.pure _
  | some t =>
    refine Agree.ite ?_ ((agree_expect _).bind_one fun _ _ ↦ Agree.pure _)
    refine (agree_textFor _ _).bind_zero fun x ↦ Agree.ite ?_ ?_
    · exact agree_next.bind_one fun _ _ ↦ Agree.pure _
    · exact (agree_expect _).bind_one fun _ _ ↦ Agree.pure _

/-- What stands between the parentheses of a call may be nothing. -/
theorem agree_argumentList (h : inner.Agree k inner') :
    Agree k 0 (argumentList inner) (argumentList inner') :=
  (agree_check _).bind_zero fun _ ↦ Agree.ite (Agree.pure _) (agree_separated h.1).zero

/-- With its parentheses it is something, and the expressions inside are read on shorter streams. -/
theorem agree_arguments (h : ∀ j, j < k → inner.Agree j inner') :
    Agree k 1 (arguments inner) (arguments inner') := by
  refine (agree_expect _).bind_one fun _ _ ↦ ?_
  refine (agree_argumentList (h (k - 1) (by omega))).bind_zero fun _ ↦ ?_
  exact ((agree_expect _).bind_one fun _ _ ↦ Agree.pure _).zero

/-- The names behind the points of the callee of `new`. -/
def callee (e : Expr) : Parse Expr := withSize fun n ↦ calleeAt n e

/-- What `callee` does with the first point. -/
def calleeStep (further : Expr → Parse Expr) (e : Expr) : Parse Expr := do
  if ← atMark .dot then
    let _ ← next
    let (name, pos) ← propertyName
    further (.member e.pos e name pos)
  else return e

/-- A round takes the point and the name. -/
theorem guarded_calleeStep (K : Nat) : Guarded K 0 calleeStep calleeStep := by
  intro k hk P Q hPQ e
  refine (agree_check _).bind_zero fun _ ↦ Agree.ite ?_ (Agree.pure _)
  refine (agree_next.bind_one fun _ _ ↦ ?_).zero
  exact (agree_propertyName.bind_one fun x _ ↦ hPQ (k - 1 - 1) (by omega) _).zero

/-- The callee of `new` is unrolled by counting points. -/
theorem unrolls_calleeAt : Unrolls 0 calleeAt calleeStep where
  succ _ _ := rfl
  zero P e := by
    -- Without tokens there is no point, so a count of zero is enough.
    intro env env' ts halike hts
    obtain rfl : ts = [] := List.length_eq_zero_iff.mp (Nat.le_zero.mp hts)
    exact Agree.pure (k := 0) e env env' [] halike hts

theorem agree_callee (e : Expr) : Agree k 0 (callee e) (callee e) :=
  unrolls_calleeAt.agree_withSize unrolls_calleeAt (guarded_calleeStep k) e

/-- **The callee of `new` needs no count.** -/
theorem callee_eq (e : Expr) : callee e = calleeStep callee e :=
  unrolls_calleeAt.withSize_eq guarded_calleeStep e

/-- The arguments of `new` may be missing. -/
theorem agree_newArguments (h : ∀ j, j < k → inner.Agree j inner') :
    Agree k 0 (newArguments inner) (newArguments inner') :=
  (agree_check _).bind_zero fun _ ↦ Agree.ite (agree_arguments h).zero (Agree.pure _)

theorem agree_newExpr (h : ∀ j, j < k → inner.Agree j inner') :
    Agree k 1 (newExpr inner) (newExpr inner') := by
  refine (agree_expect _).bind_one fun t _ ↦ ((agree_expect _).bind_one fun name _ ↦ ?_).zero
  refine (agree_callee _).bind_zero fun e ↦ ?_
  exact (agree_newArguments fun j hj ↦ h j (by omega)).bind_zero fun _ ↦ Agree.pure _

theorem agree_stringValue (t : Token) : Agree k 0 (stringValue t) (stringValue t) :=
  (agree_textFor _ _).bind_zero fun _ ↦ Agree.pure _

theorem agree_propertyKey (kind : Kind) : Agree k 1 (propertyKey kind) (propertyKey kind) := by
  rw [propertyKey.eq_def]
  split
  · exact agree_next.bind_one fun t _ ↦ (agree_stringValue t).bind_zero fun _ ↦ Agree.pure _
  · exact agree_next.bind_one fun _ _ ↦ Agree.pure _
  · exact agree_propertyName.bind_one fun _ _ ↦ Agree.pure _

theorem agree_property (h : ∀ j, j < k → inner.Agree j inner') :
    Agree k 1 (property inner) (property inner') := by
  refine agree_peekToken.bind_zero fun t ↦ ?_
  cases t with
  | none =>
    refine agree_propertyName.bind_one fun x _ ↦ ((agree_expect _).bind_one fun _ _ ↦ ?_).zero
    exact (h (k - 1 - 1) (by omega)).1.zero.bind_zero fun _ ↦ Agree.pure _
  | some t =>
    refine (agree_propertyKey _).bind_one fun key _ ↦ (agree_check _).bind_zero fun _ ↦ ?_
    refine Agree.ite (Agree.pure _) ((agree_expect _).bind_one fun _ _ ↦ ?_).zero
    exact (h (k - 1 - 1) (by omega)).1.zero.bind_zero fun _ ↦ Agree.pure _

theorem agree_objectLiteral (h : ∀ j, j < k → inner.Agree j inner') :
    Agree k 1 (objectLiteral inner) (objectLiteral inner') := by
  refine (agree_expect _).bind_one fun _ _ ↦ ?_
  refine (agree_listed _ (agree_property fun j hj ↦ h j (by omega))).bind_zero fun _ ↦ ?_
  exact ((agree_expect _).bind_one fun _ _ ↦ Agree.pure _).zero

theorem agree_arrayLiteral (h : ∀ j, j < k → inner.Agree j inner') :
    Agree k 1 (arrayLiteral inner) (arrayLiteral inner') := by
  refine (agree_expect _).bind_one fun _ _ ↦ ?_
  refine (agree_listed _ (h (k - 1) (by omega)).1).bind_zero fun _ ↦ ?_
  exact ((agree_expect _).bind_one fun _ _ ↦ Agree.pure _).zero

/-- The holes of a template are shorter than it is, and filling them takes no token. -/
theorem fillOutline_alike {env env' : Context} (t : Token) (p : Pos) (b : Text)
    (h : ∀ source q, source.length < b.length → env.hole source q = env'.hole source q)
    (ts : List Token) :
    fillOutline t (.of p b) env ts = fillOutline t (.of p b) env' ts ∧
      (fillOutline t (.of p b) env ts).rest = ts := by
  -- By induction over the chunks and holes.  What comes behind a hole is filled in first, so that
  -- the answers for the rest can be compared before those for the hole.
  fun_induction Outline.of p b with
  | case1 => exact ⟨rfl, rfl⟩
  | case2 => exact ⟨rfl, rfl⟩
  | case3 p b behind hchunk start text rest hsource ih =>
    have hbehind := Outline.length_of_chunk hchunk
    have htext := Outline.length_of_source hsource
    obtain ⟨heq, hrest⟩ := ih fun source q hlt ↦ h source q (by omega)
    rw [fillOutline, bind_apply, bind_apply, hole, hole, ← h text start (by omega)]
    -- A hole that cannot be read ends the template, whatever stands behind it.
    cases env.hole text start with
    | error f => exact ⟨rfl, rfl⟩
    | ok e =>
      simp only [bind_apply, ← heq]
      cases hfill : fillOutline t (.of (start.advance (text ++ "\x7d")) rest) env ts with
      | error f rest' => exact ⟨rfl, by rw [hfill] at hrest; exact hrest⟩
      | ok filled rest' => exact ⟨rfl, by rw [hfill] at hrest; exact hrest⟩

/-- In contexts that are alike a template is filled in the same, and the stream is left as it is. -/
theorem templateLiteral_alike {env env' : Context} {t : Token} {ts : List Token}
    (h : env.Alike env' (t :: ts)) :
    templateLiteral t env ts = templateLiteral t env' ts ∧
      (templateLiteral t env ts).rest = ts := by
  rw [templateLiteral]
  cases hw : t.lexeme with
  | number n => exact ⟨rfl, rfl⟩
  | absent => exact ⟨rfl, rfl⟩
  | text w =>
    -- Without its two marks the text is shorter than the token, and that is the bound on the holes.
    have hle : (Text.trimEnds 1 w).length ≤ w.length := by
      rw [Text.trimEnds, List.length_take, List.length_drop]
      omega
    obtain ⟨heq, hrest⟩ := fillOutline_alike t ⟨t.pos.line, t.pos.column + 1⟩ (Text.trimEnds 1 w)
      (fun source q hlt ↦ h.hole t List.mem_cons_self w hw source q (by omega)) ts
    change (fillOutline t _ >>= _) env ts = (fillOutline t _ >>= _) env' ts ∧
      ((fillOutline t _ >>= _) env ts).rest = ts
    rw [bind_apply, bind_apply, ← heq]
    generalize fillOutline t _ env ts = filled at hrest
    cases filled with
    | ok filled rest => exact ⟨rfl, hrest⟩
    | error f rest => exact ⟨rfl, hrest⟩

/-- A template is filled in by the context and not from the stream.  Contexts that are alike treat a
text the same if it is shorter than that of some token, and the holes of a template are. -/
theorem agree_template : Agree k 1 (do let t ← next; templateLiteral t)
    (do let t ← next; templateLiteral t) :=
  agree_next_bind fun t env env' ts halike ↦ by
    obtain ⟨heq, hrest⟩ := templateLiteral_alike halike
    exact ⟨heq, hrest.symm ▸ List.suffix_rfl⟩

/-- The expressions that begin with a token of their own. -/
theorem agree_primary (h : ∀ j, j < k → inner.Agree j inner') :
    Agree k 1 (primary inner) (primary inner') := by
  refine agree_peek.bind_zero fun kind ↦ ?_
  -- One case for each kind of token, in the order of the rule.
  split
  · exact agree_next.bind_one fun _ _ ↦ Agree.pure _
  · exact agree_next.bind_one fun t _ ↦ (agree_stringValue t).bind_zero fun _ ↦ Agree.pure _
  · exact agree_template
  · exact agree_next.bind_one fun _ _ ↦ Agree.pure _
  · exact agree_next.bind_one fun _ _ ↦ Agree.pure _
  · exact agree_newExpr h
  · refine agree_next.bind_one fun _ _ ↦ (h (k - 1) (by omega)).1.zero.bind_zero fun _ ↦ ?_
    exact ((agree_expect _).bind_one fun _ _ ↦ Agree.pure _).zero
  · exact agree_objectLiteral h
  · exact agree_arrayLiteral h
  · exact agree_fail 1 _ _

/-- The members and calls behind an expression. -/
def suffixes (inner : Inner) (e : Expr) : Parse Expr := withSize fun n ↦ suffixesAt inner n e

/-- What `suffixes` does with the first of them. -/
def suffixesStep (inner : Inner) (further : Expr → Parse Expr) (e : Expr) : Parse Expr := do
  match ← peek with
  | .mark .dot =>
    let _ ← next
    let (name, pos) ← propertyName
    further (.member e.pos e name pos)
  | .mark .openBracket =>
    let _ ← next
    let key ← inner.expr
    let _ ← mark .closeBracket
    further (.index e.pos e key)
  | .mark .openParen =>
    let args ← arguments inner
    further (.call e.pos e args)
  | _ => return e

/-- A round takes a point and a name, a bracket with what stands in it, or the arguments of a
call. -/
theorem guarded_suffixesStep {K : Nat} (h : ∀ j, j < K → inner.Agree j inner') :
    Guarded K 0 (suffixesStep inner) (suffixesStep inner') := by
  intro k hk P Q hPQ e
  refine agree_peek.bind_zero fun kind ↦ ?_
  split
  · refine (agree_next.bind_one fun _ _ ↦ ?_).zero
    exact (agree_propertyName.bind_one fun x _ ↦ hPQ (k - 1 - 1) (by omega) _).zero
  · refine (agree_next.bind_one fun _ _ ↦ ?_).zero
    refine (h (k - 1) (by omega)).1.zero.bind_zero fun key ↦ ?_
    exact ((agree_expect _).bind_one fun _ _ ↦ hPQ (k - 1 - 1) (by omega) _).zero
  · refine ((agree_arguments fun j hj ↦ h j (by omega)).bind_one fun args _ ↦ ?_).zero
    exact hPQ (k - 1) (by omega) _
  · exact Agree.pure _

theorem unrolls_suffixesAt (inner : Inner) :
    Unrolls 0 (suffixesAt inner) (suffixesStep inner) where
  succ _ _ := rfl
  zero P e := by
    intro env env' ts halike hts
    obtain rfl : ts = [] := List.length_eq_zero_iff.mp (Nat.le_zero.mp hts)
    exact Agree.pure (k := 0) e env env' [] halike hts

/-- Members and calls behind an expression, with two parsers for inner expressions. -/
theorem agree_suffixes (h : ∀ j, j < k → inner.Agree j inner') (e : Expr) :
    Agree k 0 (suffixes inner e) (suffixes inner' e) :=
  (unrolls_suffixesAt inner).agree_withSize (unrolls_suffixesAt inner') (guarded_suffixesStep h) e

/-- **Members and calls need no count.** -/
theorem suffixes_eq (h : ∀ j, inner.Agree j inner) (e : Expr) :
    suffixes inner e = suffixesStep inner (suffixes inner) e :=
  (unrolls_suffixesAt inner).withSize_eq (fun _ ↦ guarded_suffixesStep fun j _ ↦ h j) e

theorem agree_suffixed (h : ∀ j, j < k → inner.Agree j inner') :
    Agree k 1 (suffixed inner) (suffixed inner') := by
  refine (agree_primary h).bind_one fun first _ ↦ ?_
  refine (agree_suffixes (fun j hj ↦ h j (by omega)) first).bind_zero fun e ↦ ?_
  refine (agree_check _).bind_zero fun _ ↦ Agree.ite ?_ (Agree.pure _)
  exact (agree_next.bind_one fun _ _ ↦ Agree.pure _).zero

/-- An operator in front asks for its operand on a shorter stream; otherwise the expression is read
as a whole. -/
theorem agree_unaryExpr (h : ∀ j, j < k → inner.Agree j inner') :
    Agree k 1 (unaryExpr inner) (unaryExpr inner') := by
  have hoperand : ∀ f : Token → Expr → Expr,
      Agree k 1 (do let op ← next; return f op (← inner.unary))
        (do let op ← next; return f op (← inner'.unary)) := fun f ↦
    agree_next.bind_one fun op _ ↦ (h (k - 1) (by omega)).2.zero.bind_zero fun _ ↦ Agree.pure _
  refine agree_peek.bind_zero fun kind ↦ ?_
  exact Agree.ite (hoperand fun op e ↦ .unary (some op.pos) op.lexeme e)
    (Agree.ite (hoperand fun op e ↦ .update (some op.pos) op.lexeme .before e) (agree_suffixed h))

/-- Further operands of one level behind an expression. -/
def chain (operand : Parse Expr) (ops : List Kind) (left : Expr) : Parse Expr :=
  withSize fun n ↦ chainAt operand ops n left

/-- What `chain` does with the first of them. -/
def chainStep (operand : Parse Expr) (ops : List Kind) (further : Expr → Parse Expr)
    (left : Expr) : Parse Expr := do
  if ← check ops then
    let op ← next
    let right ← operand
    further (.binary left.pos op.lexeme left right)
  else return left

section Chain

variable {operand operand' : Parse Expr} {ops : List Kind}

/-- A round takes an operator and an operand. -/
theorem guarded_chainStep {K : Nat} (h : ∀ j, j < K → Agree j 1 operand operand') :
    Guarded K 0 (chainStep operand ops) (chainStep operand' ops) := by
  intro k hk P Q hPQ left
  refine (agree_check _).bind_zero fun _ ↦ Agree.ite ?_ (Agree.pure _)
  refine (agree_next.bind_one fun op _ ↦ ?_).zero
  exact ((h (k - 1) (by omega)).bind_one fun right _ ↦ hPQ (k - 1 - 1) (by omega) _).zero

/-- The operands of a level are unrolled by counting operators.  The end of the stream must not be
one of them, or a count of zero would not be enough. -/
theorem unrolls_chainAt (hops : .endOfInput ∉ ops) :
    Unrolls 0 (chainAt operand ops) (chainStep operand ops) where
  succ _ _ := rfl
  zero P left := by
    intro env env' ts halike hts
    obtain rfl : ts = [] := List.length_eq_zero_iff.mp (Nat.le_zero.mp hts)
    have hstop : ¬ ops.contains .endOfInput = true := fun h ↦ hops (List.contains_iff_mem.mp h)
    have hstep : chainStep operand ops P left env' [] = .ok left [] := by
      show (if ops.contains .endOfInput = true then _ else pure left : Parse Expr) env' [] = _
      rw [if_neg hstop]
      rfl
    rw [hstep]
    exact Agree.pure (k := 0) left env env' [] halike hts

theorem agree_chain (hops : .endOfInput ∉ ops) (h : ∀ j, j < k → Agree j 1 operand operand')
    (left : Expr) : Agree k 0 (chain operand ops left) (chain operand' ops left) :=
  (unrolls_chainAt hops).agree_withSize (unrolls_chainAt hops) (guarded_chainStep h) left

/-- **The operands of a level need no count.** -/
theorem chain_eq (hops : .endOfInput ∉ ops) (h : ∀ k, Agree k 1 operand operand) (left : Expr) :
    chain operand ops left = chainStep operand ops (chain operand ops) left :=
  (unrolls_chainAt hops).withSize_eq (fun _ ↦ guarded_chainStep fun j _ ↦ h j) left

end Chain

/-- The levels are nested, so this goes by induction over them: an operand of one level is an
expression of the next. -/
theorem agree_binaryExpr {levels : List (List Kind)} (hlevels : ∀ ops ∈ levels, .endOfInput ∉ ops)
    (h : ∀ j, j < k → inner.Agree j inner') :
    Agree k 1 (binaryExpr inner levels) (binaryExpr inner' levels) := by
  induction levels generalizing k with
  | nil => exact agree_unaryExpr h
  | cons ops tighter ih =>
    have htighter : ∀ ops ∈ tighter, .endOfInput ∉ ops := fun o ho ↦
      hlevels o (List.mem_cons_of_mem _ ho)
    refine (ih htighter h).bind_one fun left _ ↦ ?_
    refine agree_chain (hlevels ops List.mem_cons_self) (fun j hj ↦ ?_) left
    exact ih htighter fun i hi ↦ h i (by omega)

/-- No level counts the end of the stream among its operators. -/
theorem endOfInput_not_mem_binaryLevels : ∀ ops ∈ binaryLevels, .endOfInput ∉ ops := by decide

theorem agree_conditionalExpr (h : ∀ j, j < k → inner.Agree j inner') :
    Agree k 1 (conditionalExpr inner) (conditionalExpr inner') := by
  refine (agree_binaryExpr endOfInput_not_mem_binaryLevels h).bind_one fun test _ ↦ ?_
  refine (agree_check _).bind_zero fun _ ↦ Agree.ite ?_ (Agree.pure _)
  refine (agree_next.bind_one fun _ _ ↦ ?_).zero
  refine (h (k - 1 - 1) (by omega)).1.zero.bind_zero fun yes ↦ ?_
  refine ((agree_expect _).bind_one fun _ _ ↦ ?_).zero
  exact (h (k - 1 - 1 - 1) (by omega)).1.zero.bind_zero fun no ↦ Agree.pure _

/-- What is assigned is an expression again. -/
theorem agree_assignmentExpr (h : ∀ j, j < k → inner.Agree j inner') :
    Agree k 1 (assignmentExpr inner) (assignmentExpr inner') := by
  refine (agree_conditionalExpr h).bind_one fun left _ ↦ ?_
  refine (agree_check _).bind_zero fun _ ↦ Agree.ite ?_ (Agree.pure _)
  refine (agree_next.bind_one fun op _ ↦ Agree.ite ?_ (agree_throw 0 _)).zero
  exact (h (k - 1 - 1) (by omega)).1.zero.bind_zero fun value ↦ Agree.pure _

end Expressions

/-! ### Closing the recursion of expressions

Expressions and operands of unary operators are unrolled together, so they are one family: the index
says which of the two is meant. -/

/-- An operand with the unary operators in front of it, over all the tokens that are left. -/
def unary : Parse Expr := closed unaryExpr

/-- The parsers for inner expressions, unrolled as far as the tokens go. -/
def whole : Inner := ⟨expr, unary⟩

theorem whole_expr : whole.expr = expr := rfl

theorem whole_unary : whole.unary = unary := rfl

/-- The two families of expressions, as one. -/
def nestAt (n : Nat) : Bool → Parse Expr
  | true => exprAt n
  | false => unaryAt n

/-- The two rules for expressions, as one. -/
def nestStep (P : Bool → Parse Expr) : Bool → Parse Expr
  | true => assignmentExpr ⟨P true, P false⟩
  | false => unaryExpr ⟨P true, P false⟩

/-- Each of the two rules asks for either of them only behind a token. -/
theorem guarded_nestStep (K : Nat) : Guarded K 1 nestStep nestStep := by
  intro k hk P Q hPQ i
  have hinner : ∀ j, j < k → Inner.Agree j ⟨P true, P false⟩ ⟨Q true, Q false⟩ := fun j hj ↦
    ⟨hPQ j hj true, hPQ j hj false⟩
  cases i with
  | true => exact agree_assignmentExpr hinner
  | false => exact agree_unaryExpr hinner

/-- The counted families are the rules, unrolled.  Where the count is zero, both fail, as the rules
do without tokens. -/
theorem unrolls_nestAt : Unrolls 1 nestAt nestStep where
  succ n i := by cases i <;> rfl
  zero P i := by
    intro env env' ts halike hts
    obtain rfl : ts = [] := List.length_eq_zero_iff.mp (Nat.le_zero.mp hts)
    cases i with
    | true => exact agree_fail (k := 0) 1 _ _ env env' [] halike hts
    | false => exact agree_fail (k := 0) 1 _ _ env env' [] halike hts

/-- Unrolling an expression further than the stream is long makes no difference. -/
theorem agree_exprAt {k n m : Nat} (hn : k ≤ n) (hm : k ≤ m) :
    Inner.Agree k ⟨exprAt n, unaryAt n⟩ ⟨exprAt m, unaryAt m⟩ := by
  have h := unrolls_nestAt.agree unrolls_nestAt (guarded_nestStep k) k (Nat.le_refl k) n m hn hm
  exact ⟨h true, h false⟩

/-- From a count on that is as large as the stream is long, the unrolled parsers are the closed
ones. -/
theorem agree_whole {k n : Nat} (hn : k ≤ n) : Inner.Agree k ⟨exprAt n, unaryAt n⟩ whole := by
  constructor
  · exact agree_withSize_right fun m hm ↦ (agree_exprAt (m := m + 1) (by omega) (by omega)).1
  · exact agree_withSize_right fun m hm ↦ (agree_exprAt (m := m + 1) (by omega) (by omega)).2

/-- The closed parsers for inner expressions take a token when they succeed. -/
theorem whole_agree (k : Nat) : whole.Agree k whole :=
  ⟨(agree_whole (Nat.le_refl k)).1.right, (agree_whole (Nat.le_refl k)).2.right⟩

/-- A rule closed off by the number of tokens left uses the closed parsers for inner
expressions. -/
theorem closed_eq {α : Type} {d : Nat} {rule : Inner → Parse α}
    (h : ∀ k inner inner', (∀ j, j < k → inner.Agree j inner') →
      Agree k d (rule inner) (rule inner')) : closed rule = rule whole :=
  eq_of_agree (d := d) fun _ ↦ agree_withSize_left fun n _ ↦
    h n _ _ fun _ hj ↦ agree_whole (Nat.le_of_lt hj)

/-- **An expression is read by the rule for assignments**, without a count. -/
theorem expr_eq : expr = assignmentExpr whole := closed_eq fun _ _ _ ↦ agree_assignmentExpr

/-- **An operand is read by the rule for unary operators**, without a count. -/
theorem unary_eq : unary = unaryExpr whole := closed_eq fun _ _ _ ↦ agree_unaryExpr

/-- Arguments are read in a statement as they are in an expression. -/
theorem closed_arguments : closed arguments = arguments whole :=
  closed_eq fun _ _ _ ↦ agree_arguments

theorem agree_expr (k : Nat) : Agree k 1 expr expr := (whole_agree k).1

/-! ## Statements -/

section Statements

variable {k : Nat}

/-- A comment is one token. -/
theorem agree_commentStmt : Agree k 1 commentStmt commentStmt :=
  agree_next.bind_one fun _ _ ↦ (agree_textFor _ _).bind_zero fun _ ↦
    Agree.ite (Agree.pure _) (Agree.pure _)

theorem agree_moduleSource : Agree k 1 moduleSource moduleSource :=
  (agree_expect _).bind_one fun t _ ↦ agree_stringValue t

/-- A name, and behind the word `as` another. -/
theorem agree_renamed : Agree k 1 renamed renamed := by
  refine (agree_expect _).bind_one fun _ _ ↦ (agree_atWord _).bind_zero fun _ ↦
    Agree.ite ?_ (Agree.pure _)
  refine (agree_next.bind_one fun _ _ ↦ ?_).zero
  exact ((agree_expect _).bind_one fun _ _ ↦ Agree.pure _).zero

theorem agree_namedSpecifier : Agree k 1 namedSpecifier namedSpecifier :=
  agree_renamed.bind_one fun _ _ ↦ Agree.pure _

theorem agree_importNamed : Agree k 1 importNamed importNamed :=
  (agree_expect _).bind_one fun _ _ ↦ (agree_listed _ agree_namedSpecifier).bind_zero fun _ ↦
    ((agree_expect _).bind_one fun _ _ ↦ Agree.pure _).zero

theorem agree_importNamespace : Agree k 1 importNamespace importNamespace :=
  (agree_expect _).bind_one fun _ _ ↦ ((agree_word _).bind_one fun _ _ ↦
    ((agree_expect _).bind_one fun _ _ ↦ Agree.pure _).zero).zero

theorem agree_importFurther : Agree k 1 importFurther importFurther :=
  (agree_check _).bind_zero fun _ ↦
    Agree.ite (agree_importNamespace.bind_one fun _ _ ↦ Agree.pure _) agree_importNamed

/-- What is imported begins with a brace, a star or a name. -/
theorem agree_importSpecifiers : Agree k 1 importSpecifiers importSpecifiers := by
  refine agree_peek.bind_zero fun kind ↦ ?_
  split
  · exact agree_importNamed
  · exact agree_importNamespace.bind_one fun _ _ ↦ Agree.pure _
  · refine (agree_expect _).bind_one fun _ _ ↦ (agree_check _).bind_zero fun _ ↦
      Agree.ite ?_ (Agree.pure _)
    refine (agree_next.bind_one fun _ _ ↦ ?_).zero
    exact agree_importFurther.zero.bind_zero fun _ ↦ Agree.pure _

theorem agree_importClause : Agree k 0 importClause importClause :=
  (agree_check _).bind_zero fun _ ↦ Agree.ite (Agree.pure _)
    (agree_importSpecifiers.bind_one fun _ _ ↦
      ((agree_expect _).bind_one fun _ _ ↦ Agree.pure _).zero).zero

theorem agree_importStmt : Agree k 1 importStmt importStmt := by
  refine (agree_expect _).bind_one fun _ _ ↦ agree_importClause.bind_zero fun _ ↦ ?_
  refine (agree_moduleSource.bind_one fun _ _ ↦ ?_).zero
  exact ((agree_expect _).bind_one fun _ _ ↦ Agree.pure _).zero

theorem agree_firstValue : Agree k 0 firstValue firstValue :=
  (agree_check _).bind_zero fun _ ↦ Agree.ite
    (agree_next.bind_one fun _ _ ↦ (agree_expr _).zero.bind_zero fun _ ↦ Agree.pure _).zero
    (Agree.pure _)

theorem agree_variableDecl : Agree k 1 variableDecl variableDecl :=
  agree_next.bind_one fun _ _ ↦ ((agree_expect _).bind_one fun _ _ ↦
    agree_firstValue.bind_zero fun _ ↦ Agree.pure _).zero

/-- A declaration takes its word, whatever comes behind it. -/
theorem agree_variableStmt : Agree k 1 variableStmt variableStmt :=
  agree_variableDecl.bind_one fun _ _ ↦ ((agree_expect _).bind_one fun _ _ ↦ Agree.pure _).zero

theorem agree_printStmt : Agree k 1 printStmt printStmt :=
  (agree_expect _).bind_one fun _ _ ↦ (agree_separated (agree_expr _)).zero.bind_zero fun _ ↦
    ((agree_expect _).bind_one fun _ _ ↦ Agree.pure _).zero

theorem agree_consoleStmt : Agree k 1 consoleStmt consoleStmt := by
  refine (agree_expect _).bind_one fun _ _ ↦ ?_
  rw [closed_arguments]
  refine (agree_arguments fun j _ ↦ whole_agree j).zero.bind_zero fun _ ↦ ?_
  exact ((agree_expect _).bind_one fun _ _ ↦ Agree.pure _).zero

/-- Where an expression may be missing, nothing need be taken. -/
theorem agree_exprUnless (close : Mark) : Agree k 0 (exprUnless close) (exprUnless close) :=
  (agree_check _).bind_zero fun _ ↦ Agree.ite (Agree.pure _)
    ((agree_expr _).zero.bind_zero fun _ ↦ Agree.pure _)

theorem agree_returnStmt : Agree k 1 returnStmt returnStmt :=
  (agree_expect _).bind_one fun _ _ ↦ (agree_exprUnless _).bind_zero fun _ ↦
    ((agree_expect _).bind_one fun _ _ ↦ Agree.pure _).zero

theorem agree_breakStmt : Agree k 1 breakStmt breakStmt :=
  agree_next.bind_one fun _ _ ↦ ((agree_expect _).bind_one fun _ _ ↦ Agree.pure _).zero

theorem agree_continueStmt : Agree k 1 continueStmt continueStmt :=
  agree_next.bind_one fun _ _ ↦ ((agree_expect _).bind_one fun _ _ ↦ Agree.pure _).zero

theorem agree_exprStmt : Agree k 1 exprStmt exprStmt :=
  agree_peekToken.bind_zero fun _ ↦ (agree_expr _).bind_one fun _ _ ↦
    ((agree_expect _).bind_one fun _ _ ↦ Agree.pure _).zero

theorem agree_exportedName : Agree k 1 exportedName exportedName := by
  refine agree_renamed.bind_one fun x _ ↦ ?_
  obtain ⟨name, _ | localName⟩ := x
  · exact Agree.pure _
  · exact Agree.pure _

/-- The beginning of a `for` loop may be missing. -/
theorem agree_forInit : Agree k 0 forInit forInit := by
  refine (agree_check _).bind_zero fun _ ↦ Agree.ite ?_ ?_
  · exact agree_variableDecl.zero.bind_zero fun _ ↦ Agree.pure _
  · refine (agree_exprUnless _).bind_zero fun e ↦ ?_
    cases e with
    | none => exact Agree.pure _
    | some e => exact Agree.pure _

theorem agree_parameterList : Agree k 0 parameterList parameterList :=
  (agree_check _).bind_zero fun _ ↦ Agree.ite (Agree.pure _)
    (agree_separated ((agree_expect _).bind_one fun _ _ ↦ Agree.pure _)).zero

theorem agree_condition : Agree k 1 condition condition :=
  (agree_expect _).bind_one fun _ _ ↦ (agree_expr _).zero.bind_zero fun _ ↦
    ((agree_expect _).bind_one fun _ _ ↦ Agree.pure _).zero

variable {inner inner' : Parse Stmt}

/-- Statements between braces stand behind the brace. -/
theorem agree_block (h : ∀ j, j < k → Agree j 1 inner inner') :
    Agree k 1 (block inner) (block inner') := by
  refine (agree_expect _).bind_one fun _ _ ↦ ?_
  refine (agree_untilKind (by decide) (h (k - 1) (by omega))).bind_zero fun _ ↦ ?_
  exact ((agree_expect _).bind_one fun _ _ ↦ Agree.pure _).zero

/-- A body may be read on all `k` tokens, since it stands behind others in every rule. -/
theorem agree_body (h : ∀ j, j ≤ k → Agree j 1 inner inner') :
    Agree k 1 (body inner) (body inner') :=
  (agree_check _).bind_zero fun _ ↦ Agree.ite (agree_block fun j hj ↦ h j (by omega))
    ((h k (Nat.le_refl k)).bind_one fun _ _ ↦ Agree.pure _)

theorem agree_functionDecl (h : ∀ j, j < k → Agree j 1 inner inner') :
    Agree k 1 (functionDecl inner) (functionDecl inner') := by
  refine (agree_expect _).bind_one fun _ _ ↦ ((agree_expect _).bind_one fun _ _ ↦
    ((agree_expect _).bind_one fun _ _ ↦ agree_parameterList.bind_zero fun _ ↦
    ((agree_expect _).bind_one fun _ _ ↦ ?_).zero).zero).zero
  exact (agree_block fun j hj ↦ h j (by omega)).zero.bind_zero fun _ ↦ Agree.pure _

/-- Behind `export` stands a function, a variable, an expression or a list of names. -/
theorem agree_exportStmt (h : ∀ j, j < k → Agree j 1 inner inner') :
    Agree k 1 (exportStmt inner) (exportStmt inner') := by
  have hfunction : ∀ f : Stmt → Stmt, ∀ j, j < k → Agree j 0
      (do return f (← functionDecl inner)) (do return f (← functionDecl inner')) := fun f j hj ↦
    (agree_functionDecl fun i hi ↦ h i (by omega)).zero.bind_zero fun _ ↦ Agree.pure _
  have hvariable : ∀ f : Variable → Stmt, ∀ j, Agree j 0
      (do return f (← variableStmt)) (do return f (← variableStmt)) := fun f j ↦
    agree_variableStmt.zero.bind_zero fun _ ↦ Agree.pure _
  refine (agree_expect _).bind_one fun t _ ↦ agree_peek.bind_zero fun kind ↦ ?_
  -- One case for each kind of token behind `export`; behind `default` there is one more choice.
  split
  · refine (agree_next.bind_one fun _ _ ↦ (agree_check _).bind_zero fun _ ↦ Agree.ite ?_ ?_).zero
    · exact hfunction (fun f ↦ .exportDecl (some t.pos) f [] true) _ (by omega)
    · exact (agree_expr _).zero.bind_zero fun _ ↦
        ((agree_expect _).bind_one fun _ _ ↦ Agree.pure _).zero
  · exact hfunction (fun f ↦ .exportDecl (some t.pos) f [] false) _ (by omega)
  · exact hvariable _ _
  · exact hvariable _ _
  · exact hvariable _ _
  · refine (agree_next.bind_one fun _ _ ↦ (agree_listed _ agree_exportedName).bind_zero fun _ ↦
      ((agree_expect _).bind_one fun _ _ ↦ ?_).zero).zero
    exact ((agree_expect _).bind_one fun _ _ ↦ Agree.pure _).zero
  · exact agree_fail 0 _ _

/-- Both branches of an `if` stand behind others of its tokens, so each may be read on all that is
left. -/
theorem agree_ifStmt (h : ∀ j, j < k → Agree j 1 inner inner') :
    Agree k 1 (ifStmt inner) (ifStmt inner') := by
  refine (agree_expect _).bind_one fun _ _ ↦ (agree_condition.bind_one fun _ _ ↦ ?_).zero
  refine ((agree_body fun j hj ↦ h j (by omega)).bind_one fun _ _ ↦ ?_).zero
  refine (agree_check _).bind_zero fun _ ↦ Agree.ite ?_ (Agree.pure _)
  refine (agree_next.bind_one fun _ _ ↦ ?_).zero
  exact (agree_body fun j hj ↦ h j (by omega)).zero.bind_zero fun _ ↦ Agree.pure _

theorem agree_forStmt (h : ∀ j, j < k → Agree j 1 inner inner') :
    Agree k 1 (forStmt inner) (forStmt inner') := by
  refine (agree_expect _).bind_one fun _ _ ↦ ((agree_expect _).bind_one fun _ _ ↦ ?_).zero
  refine agree_forInit.bind_zero fun _ ↦ ((agree_expect _).bind_one fun _ _ ↦ ?_).zero
  refine (agree_exprUnless _).bind_zero fun _ ↦ ((agree_expect _).bind_one fun _ _ ↦ ?_).zero
  refine (agree_exprUnless _).bind_zero fun _ ↦ ((agree_expect _).bind_one fun _ _ ↦ ?_).zero
  exact (agree_body fun j hj ↦ h j (by omega)).zero.bind_zero fun _ ↦ Agree.pure _

theorem agree_whileStmt (h : ∀ j, j < k → Agree j 1 inner inner') :
    Agree k 1 (whileStmt inner) (whileStmt inner') := by
  refine (agree_expect _).bind_one fun _ _ ↦ (agree_condition.bind_one fun _ _ ↦ ?_).zero
  exact (agree_body fun j hj ↦ h j (by omega)).zero.bind_zero fun _ ↦ Agree.pure _

/-- **The rule for a statement agrees** with itself where the parsers for inner statements do. -/
theorem agree_statementRule (h : ∀ j, j < k → Agree j 1 inner inner') (kind : Kind) :
    Agree k 1 (statementRule inner kind) (statementRule inner' kind) := by
  have hvariable : Agree k 1 (do return Stmt.variable (← variableStmt))
      (do return Stmt.variable (← variableStmt)) :=
    agree_variableStmt.bind_one fun _ _ ↦ Agree.pure _
  unfold statementRule
  split
  · exact agree_commentStmt
  · exact agree_commentStmt
  · exact agree_importStmt
  · exact agree_exportStmt h
  · exact hvariable
  · exact hvariable
  · exact hvariable
  · exact agree_printStmt
  · exact agree_consoleStmt
  · exact agree_functionDecl h
  · exact agree_returnStmt
  · exact agree_ifStmt h
  · exact agree_forStmt h
  · exact agree_whileStmt h
  · exact agree_breakStmt
  · exact agree_continueStmt
  · exact agree_exprStmt

theorem agree_statement (h : ∀ j, j < k → Agree j 1 inner inner') :
    Agree k 1 (statement inner) (statement inner') :=
  agree_peek.bind_zero (agree_statementRule h)

end Statements

/-! ### Closing the recursion of statements -/

/-- The rule for statements, as a rule of one family. -/
def stmtStep (P : Unit → Parse Stmt) (_ : Unit) : Parse Stmt := statement (P ())

/-- Statements in statements stand behind a token. -/
theorem guarded_stmtStep (K : Nat) : Guarded K 1 stmtStep stmtStep :=
  fun _ _ _ _ hPQ _ ↦ agree_statement fun j hj ↦ hPQ j hj ()

/-- The counted family is the rule, unrolled. -/
theorem unrolls_stmtAt : Unrolls 1 (fun n (_ : Unit) ↦ stmtAt n) stmtStep where
  succ _ _ := rfl
  zero P _ := by
    intro env env' ts halike hts
    obtain rfl : ts = [] := List.length_eq_zero_iff.mp (Nat.le_zero.mp hts)
    exact agree_exprStmt (k := 0) env env' [] halike hts

theorem agree_stmtAt {k n m : Nat} (hn : k ≤ n) (hm : k ≤ m) : Agree k 1 (stmtAt n) (stmtAt m) :=
  unrolls_stmtAt.agree unrolls_stmtAt (guarded_stmtStep k) k (Nat.le_refl k) n m hn hm ()

theorem agree_stmt_right {k n : Nat} (hn : k ≤ n) : Agree k 1 (stmtAt n) stmt :=
  agree_withSize_right fun m hm ↦ agree_stmtAt (m := m + 1) (by omega) (by omega)

theorem agree_stmt (k : Nat) : Agree k 1 stmt stmt := (agree_stmt_right (Nat.le_refl k)).right

/-- A rule closed off by the number of tokens left uses the closed parser for statements. -/
theorem enclosed_eq {α : Type} {d : Nat} {rule : Parse Stmt → Parse α}
    (h : ∀ k inner inner', (∀ j, j < k → Agree j 1 inner inner') →
      Agree k d (rule inner) (rule inner')) : enclosed rule = rule stmt :=
  eq_of_agree (d := d) fun _ ↦ agree_withSize_left fun n _ ↦
    h n _ _ fun _ hj ↦ agree_stmt_right (Nat.le_of_lt hj)

/-- **A statement is read by the rule for statements**, without a count. -/
theorem stmt_eq : stmt = statement stmt := enclosed_eq fun _ _ _ ↦ agree_statement

/-- A statement is read by the rule for its first token. -/
theorem stmt_apply (env : Context) (ts : List Token) :
    stmt env ts = statementRule stmt (nextKind ts) env ts :=
  congrFun (congrFun stmt_eq env) ts

end Advplc.Grammar
