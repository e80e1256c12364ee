import Mathlib.Data.List.Forall2
import Mathlib.Data.List.Infix
import Advplc.Proofs.Grammar.Unrolled
import Advplc.Proofs.Grammar.Written
import Advplc.Proofs.Script.Bare

/-!
# Every writing of a tree is parsed to that tree

Half of what it means that `Written` is the language of the grammar: on the tokens that write an
expression, the parser returns that expression and stops behind them, whatever follows
(`Written.taken`).  It is stated up to positions, since a writing does not fix where its tokens
stand.

A parser for a list or for a token is simply said to read its tokens (`Reads`).  The rules with a
loop behind their first operand need more, for they are entered once and not for each operator: what
they do on `a - b - c` cannot be put together from what they do on `a - b` and on `c`.  So `Takes`
says only where such a rule gets to by the end of the tokens, namely into its loop with the
expression in hand, and leaves open what the loop then does.  The restriction on the next kind
(`Slot.goesOn`) is for the rules that would otherwise take more than the writing.

There is one lemma for each way to write a phrase, and the theorem at the end hands each to the
lemma of its name.
-/

set_option autoImplicit false

namespace Advplc.Grammar

open Script Parse

variable {α : Type}

/-! ## Items with commas between them -/

/-- On the tokens `ts`, followed by anything whose next kind satisfies `follow`, `p` reads something
good and stops behind `ts`. -/
def Reads (env : Context) (p : Parse α) (good : α → Prop) (follow : Kind → Prop)
    (ts : List Token) : Prop :=
  ∃ a, good a ∧ ∀ rest, follow (nextKind rest) → p env (ts ++ rest) = .ok a rest

section Lists

variable {β : Type} {env : Context} {item : Parse β} {good : α → β → Prop} (follow : Kind → Prop)

/-- A list without a comma at its end.  The restriction on what may follow grows by the comma. -/
theorem reads_separated (hitem : ∀ k, Agree k 1 item item) (hcomma : follow (.mark .comma))
    {as : List α} {ts : List Token}
    (h : WrittenSeparated (fun a ts ↦ Reads env item (good a) follow ts) as ts) :
    Reads env (separated item) (List.Forall₂ good as)
      (fun k ↦ follow k ∧ k ≠ .mark .comma) ts := by
  induction h with
  | @last a ts ha =>
    obtain ⟨b, hb, hrun⟩ := ha
    refine ⟨[b], .cons hb .nil, fun rest hrest ↦ ?_⟩
    have hstop : nextKind rest ∉ [Kind.mark .comma] := by simpa using hrest.2
    rw [separated_eq hitem, separatedStep, bind_of_ok (hrun rest hrest.1), atMark,
      check_bind_of_not_mem hstop]
    rfl
  | @more c hc a as ts us ha has ih =>
    obtain ⟨b, hb, hrun⟩ := ha
    obtain ⟨bs, hbs, ih⟩ := ih
    refine ⟨b :: bs, .cons hb hbs, fun rest hrest ↦ ?_⟩
    have hgo : nextKind (c :: (us ++ rest)) ∈ [Kind.mark .comma] := by simpa using hc
    have hfollow : follow (nextKind (c :: (us ++ rest))) := by rwa [nextKind_cons, hc]
    rw [List.append_assoc, List.cons_append, separated_eq hitem, separatedStep,
      bind_of_ok (hrun _ hfollow), atMark, check_bind_of_mem hgo]
    simp only [if_true]
    rw [bind_of_ok (next_cons c env _), bind_of_ok (ih rest hrest)]
    rfl

/-- A list up to its closing mark, where the last comma may stand.  The items must not begin with
the mark. -/
theorem reads_listed (close : Mark) (hclose : close ≠ .comma) (hitem : ∀ k, Agree k 1 item item)
    (hcomma : follow (.mark .comma)) (hfollow : follow (.mark close)) {as : List α}
    {ts : List Token}
    (h : WrittenListed (fun a ts ↦ (∀ rest, nextKind (ts ++ rest) ≠ .mark close) ∧
      Reads env item (good a) follow ts) as ts) :
    Reads env (listed close item) (List.Forall₂ good as) (· = .mark close) ts := by
  induction h with
  | nil =>
    refine ⟨[], .nil, fun rest hrest ↦ ?_⟩
    have hgo : nextKind ([] ++ rest) ∈ [Kind.mark close] := by simpa using hrest
    rw [listed_eq close hitem, listedStep, atMark, check_bind_of_mem hgo]
    rfl
  | @last a ts ha =>
    obtain ⟨hstart, b, hb, hrun⟩ := ha
    refine ⟨[b], .cons hb .nil, fun rest hrest ↦ ?_⟩
    have hbegin : nextKind (ts ++ rest) ∉ [Kind.mark close] := by simpa using hstart rest
    have hstop : nextKind rest ∉ [Kind.mark .comma] := by simp [hrest, hclose]
    rw [listed_eq close hitem, listedStep, atMark, check_bind_of_not_mem hbegin]
    simp only [Bool.false_eq_true, if_false]
    rw [bind_of_ok (hrun rest (by rwa [hrest])), atMark, check_bind_of_not_mem hstop]
    rfl
  | @more c hc a as ts us ha has ih =>
    obtain ⟨hstart, b, hb, hrun⟩ := ha
    obtain ⟨bs, hbs, ih⟩ := ih
    refine ⟨b :: bs, .cons hb hbs, fun rest hrest ↦ ?_⟩
    have hgo : nextKind (c :: (us ++ rest)) ∈ [Kind.mark .comma] := by simpa using hc
    have hnext : follow (nextKind (c :: (us ++ rest))) := by rwa [nextKind_cons, hc]
    rw [List.append_assoc, List.cons_append]
    have hbegin : nextKind (ts ++ c :: (us ++ rest)) ∉ [Kind.mark close] := by
      simpa using hstart (c :: (us ++ rest))
    rw [listed_eq close hitem, listedStep, atMark, check_bind_of_not_mem hbegin]
    simp only [Bool.false_eq_true, if_false]
    rw [bind_of_ok (hrun _ hnext), atMark, check_bind_of_mem hgo]
    simp only [if_true]
    rw [bind_of_ok (next_cons c env _), bind_of_ok (ih rest hrest)]
    rfl

end Lists

/-! ## Slots -/

/-- The kinds that go on with an expression of the given levels: their operators, and suffixes. -/
def behindLevels (levels : List (List Kind)) : List Kind :=
  levels.flatten ++ [.mark .dot, .mark .openParen, .mark .openBracket] ++ updateOps

/-- The kinds that begin a primary expression. -/
def primaryStart : List Kind :=
  [.number, .string, .template, .identifier, .keyword .thisWord, .keyword .newWord,
   .mark .openParen, .mark .openBrace, .mark .openBracket]

namespace Slot

/-- The parser for the expressions of a slot. -/
def parser : Slot → Parse Expr
  | assignment => expr
  | conditional => conditionalExpr whole
  | binary levels => binaryExpr whole levels
  | suffixed => Grammar.suffixed whole
  | indexed | chained => Grammar.primary whole >>= suffixes whole
  | primary => Grammar.primary whole

/-- What the parser of a slot does once it has read an expression: the slots with a loop go on with
it. -/
def further : Slot → Expr → Parse Expr
  | binary (ops :: tighter) => chain (binaryExpr whole tighter) ops
  | indexed | chained => suffixes whole
  | _ => pure

/-- The kinds that must not follow an expression in a slot. -/
def goesOn : Slot → List Kind
  | assignment | conditional => assignmentOps ++ .mark .question :: behindLevels binaryLevels
  | binary (_ :: tighter) => behindLevels tighter
  | binary [] | suffixed => behindLevels []
  | indexed => [.mark .dot, .mark .openParen]
  | chained | primary => []

/-- The kinds with which an expression in a slot begins. -/
def starts : Slot → List Kind
  | assignment | conditional | binary _ => expressionStart
  | suffixed | indexed | chained | primary => primaryStart

end Slot

/-- An operator of one level does not go on with an expression of a tighter level. -/
theorem not_mem_behindLevels {ops : List Kind} {tighter : List (List Kind)}
    (h : ops :: tighter <:+ binaryLevels) : ∀ k ∈ ops, k ∉ behindLevels tighter := by
  have hall : ∀ levels ∈ binaryLevels.tails,
      ∀ k ∈ levels.headD [], k ∉ behindLevels levels.tail := by
    decide
  exact hall (ops :: tighter) ((List.mem_tails _ _).mpr h)

theorem endOfInput_not_mem_of_suffix {levels : List (List Kind)} (h : levels <:+ binaryLevels) :
    ∀ ops ∈ levels, .endOfInput ∉ ops :=
  fun ops hops ↦ endOfInput_not_mem_binaryLevels ops (h.subset hops)

/-! ## Expressions -/

/-- The context reads templates as `templates` describes them. -/
def Context.Fills (templates : Text → List Text → List Expr → Prop) (env : Context) : Prop :=
  ∀ w chunks holes, templates w chunks holes → ∀ t : Token, t.lexeme = .text w →
    ∃ e, e.bare = (Expr.template none chunks holes).bare ∧
      ∀ rest, templateLiteral t env rest = .ok e rest

/-- The list begins with a token of one of the given kinds. -/
def Begins (ks : List Kind) (ts : List Token) : Prop := ∃ t us, ts = t :: us ∧ t.kind ∈ ks

theorem Begins.nextKind_mem {ks : List Kind} {ts : List Token} (h : Begins ks ts)
    (rest : List Token) : nextKind (ts ++ rest) ∈ ks := by
  obtain ⟨t, us, rfl, ht⟩ := h
  exact ht

theorem Begins.append {ks : List Kind} {ts : List Token} (h : Begins ks ts) (us : List Token) :
    Begins ks (ts ++ us) := by
  obtain ⟨t, vs, rfl, ht⟩ := h
  exact ⟨t, vs ++ us, rfl, ht⟩

theorem Begins.mono {ks ks' : List Kind} {ts : List Token} (h : Begins ks ts)
    (hks : ∀ k ∈ ks, k ∈ ks') : Begins ks' ts := by
  obtain ⟨t, vs, rfl, ht⟩ := h
  exact ⟨t, vs, rfl, hks _ ht⟩

section Expressions

variable {env : Context} {ts us : List Token} {e : Expr}

/-- The parser of the slot takes `ts` for the expression `e`, and then does what it does behind an
expression. -/
def Takes (env : Context) (slot : Slot) (e : Expr) (ts : List Token) : Prop :=
  Begins slot.starts ts ∧ ∃ e', e'.bare = e.bare ∧ ∀ rest, nextKind rest ∉ slot.goesOn →
    slot.parser env (ts ++ rest) = slot.further e' env rest

/-- An expression is read up to anything that does not go on with it. -/
theorem Takes.reads (h : Takes env .assignment e ts) :
    Reads env expr (fun e' ↦ e'.bare = e.bare) (· ∉ Slot.assignment.goesOn) ts := h.2

/-- The chain of a level ends where no operator of the level follows. -/
theorem chain_stop {ops : List Kind} {tighter : List (List Kind)}
    (hlevels : ops :: tighter <:+ binaryLevels) {rest : List Token} (hrest : nextKind rest ∉ ops)
    (left : Expr) : chain (binaryExpr whole tighter) ops left env rest = .ok left rest := by
  have hops := endOfInput_not_mem_of_suffix hlevels
  have hagree : ∀ k, Agree k 1 (binaryExpr whole tighter) (binaryExpr whole tighter) := fun k ↦
    agree_binaryExpr (fun o ho ↦ hops o (List.mem_cons_of_mem _ ho)) fun j _ ↦ whole_agree j
  rw [chain_eq (hops ops List.mem_cons_self) hagree, chainStep, check_bind_of_not_mem hrest]
  rfl

/-- A binary expression is read up to anything that does not go on with it. -/
theorem Takes.binary_ok {levels : List (List Kind)} (hlevels : levels <:+ binaryLevels)
    (h : Takes env (.binary levels) e ts) : ∃ e', e'.bare = e.bare ∧ ∀ rest,
      nextKind rest ∉ behindLevels levels →
        binaryExpr whole levels env (ts ++ rest) = .ok e' rest := by
  obtain ⟨-, e', he, hrun⟩ := h
  refine ⟨e', he, fun rest hrest ↦ ?_⟩
  cases levels with
  | nil => exact hrun rest hrest
  | cons ops tighter =>
    have hops : nextKind rest ∉ ops := fun hmem ↦ hrest (by simp [behindLevels, hmem])
    have htighter : nextKind rest ∉ behindLevels tighter := fun hmem ↦ hrest (by
      simp only [behindLevels, List.flatten_cons, List.mem_append] at hmem ⊢
      tauto)
    exact (hrun rest htighter).trans (chain_stop hlevels hops e')

/-- The suffixes of an expression end where no suffix follows. -/
theorem suffixes_stop {rest : List Token}
    (hrest : nextKind rest ∉ [Kind.mark .dot, .mark .openBracket, .mark .openParen]) (e : Expr) :
    suffixes whole e env rest = .ok e rest := by
  rw [suffixes_eq whole_agree, suffixesStep, bind_of_ok (peek_apply env rest)]
  generalize nextKind rest = k at hrest
  split
  · exact absurd List.mem_cons_self hrest
  · simp at hrest
  · simp at hrest
  · rfl

/-! ### Each slot takes what the next tighter one takes -/

/-- Without an operator behind it, a conditional expression is left as it is. -/
theorem Takes.toAssignment (h : Takes env .conditional e ts) : Takes env .assignment e ts := by
  obtain ⟨hbegin, e', he, hrun⟩ := h
  refine ⟨hbegin, e', he, fun rest hrest ↦ ?_⟩
  have hops : nextKind rest ∉ assignmentOps := fun h ↦ hrest (List.mem_append_left _ h)
  have hleft : conditionalExpr whole env (ts ++ rest) = .ok e' rest :=
    hrun rest hrest
  show expr env (ts ++ rest) = .ok e' rest
  rw [expr_eq, assignmentExpr, bind_of_ok hleft, check_bind_of_not_mem hops]
  rfl

theorem Takes.toConditional (h : Takes env (.binary binaryLevels) e ts) :
    Takes env .conditional e ts := by
  obtain ⟨e', he, hrun⟩ := h.binary_ok List.suffix_rfl
  refine ⟨h.1, e', he, fun rest hrest ↦ ?_⟩
  have hquestion : nextKind rest ∉ [Kind.mark .question] := fun h ↦
    hrest (List.mem_append_right _ (List.mem_cons.mpr (.inl (List.mem_singleton.mp h))))
  have htest := hrun rest fun h ↦ hrest (List.mem_append_right _ (List.mem_cons_of_mem _ h))
  show conditionalExpr whole env (ts ++ rest) = .ok e' rest
  rw [conditionalExpr, bind_of_ok htest, atMark, check_bind_of_not_mem hquestion]
  rfl

/-- The first operand of a level enters the chain of that level, which has not begun yet. -/
theorem Takes.toBinary {ops : List Kind} {tighter : List (List Kind)}
    (hlevels : ops :: tighter <:+ binaryLevels) (h : Takes env (.binary tighter) e ts) :
    Takes env (.binary (ops :: tighter)) e ts := by
  obtain ⟨e', he, hrun⟩ := h.binary_ok ((List.suffix_cons ops tighter).trans hlevels)
  refine ⟨h.1, e', he, fun rest hrest ↦ ?_⟩
  exact bind_of_ok (hrun rest hrest) _

theorem Takes.toUnary (h : Takes env .suffixed e ts) : Takes env (.binary []) e ts := by
  obtain ⟨hbegin, e', he, hrun⟩ := h
  refine ⟨hbegin.mono (by decide), e', he, fun rest hrest ↦ ?_⟩
  have hall : ∀ k ∈ Slot.suffixed.starts, k ∉ unaryOps ∧ k ∉ updateOps := by decide
  obtain ⟨hunary, hupdate⟩ := hall _ (hbegin.nextKind_mem rest)
  show unaryExpr whole env (ts ++ rest) = .ok e' rest
  rw [unaryExpr, bind_of_ok (peek_apply env _), if_neg hunary, if_neg hupdate]
  exact hrun rest hrest

/-- What stands behind a primary expression and its suffixes. -/
theorem suffixed_eq : suffixed whole = primary whole >>= suffixes whole >>= fun e ↦ do
    if ← check updateOps then
      let op ← next
      return .update e.pos op.lexeme .after e
    else return e := bind_assoc _ _ _

theorem Takes.toSuffixed (h : Takes env .indexed e ts) : Takes env .suffixed e ts := by
  obtain ⟨hbegin, e', he, hrun⟩ := h
  refine ⟨hbegin, e', he, fun rest hrest ↦ ?_⟩
  have hall : ∀ k, k ∉ behindLevels [] → k ∉ [Kind.mark .dot, .mark .openParen] ∧
      k ∉ [Kind.mark .dot, .mark .openBracket, .mark .openParen] ∧ k ∉ updateOps := by
    intro k hk
    simp only [behindLevels, List.flatten_nil, List.nil_append, List.mem_append, not_or,
      List.mem_cons, List.not_mem_nil, or_false] at hk ⊢
    tauto
  obtain ⟨hindexed, hsuffix, hupdate⟩ := hall _ hrest
  have hchain : (primary whole >>= suffixes whole) env (ts ++ rest) = .ok e' rest :=
    (hrun rest hindexed).trans (suffixes_stop hsuffix e')
  show suffixed whole env (ts ++ rest) = .ok e' rest
  rw [suffixed_eq, bind_of_ok hchain, check_bind_of_not_mem hupdate]
  rfl

theorem Takes.toIndexed (h : Takes env .chained e ts) : Takes env .indexed e ts := by
  obtain ⟨hbegin, e', he, hrun⟩ := h
  exact ⟨hbegin, e', he, fun rest _ ↦ hrun rest (List.not_mem_nil)⟩

theorem Takes.toChained (h : Takes env .primary e ts) : Takes env .chained e ts := by
  obtain ⟨hbegin, e', he, hrun⟩ := h
  exact ⟨hbegin, e', he, fun rest _ ↦ bind_of_ok (hrun rest (List.not_mem_nil)) _⟩

/-! ### Operators -/

/-- Whether an expression can be assigned to does not depend on positions. -/
theorem isTarget_bare (e : Expr) : isTarget e.bare = isTarget e := by cases e <;> rfl

theorem Takes.assign {target value : Expr} {op : Token} (p : Option Pos)
    (hop : op.kind ∈ assignmentOps) (htarget : isTarget target = true)
    (hleft : Takes env (.binary binaryLevels) target ts) (hvalue : Takes env .assignment value us) :
    Takes env .assignment (.assign p op.lexeme target value) (ts ++ op :: us) := by
  obtain ⟨target', hsame, hrun⟩ := hleft.binary_ok List.suffix_rfl
  obtain ⟨-, value', hsame', hrun'⟩ := hvalue
  have htarget' : isTarget target' = true := by rw [← isTarget_bare, hsame, isTarget_bare, htarget]
  refine ⟨hleft.1.append _, .assign target'.pos op.lexeme target' value', ?_, fun rest hrest ↦ ?_⟩
  · simp [Expr.bare, hsame, hsame']
  rw [List.append_assoc, List.cons_append]
  have hall : ∀ k ∈ assignmentOps, k ∉ behindLevels binaryLevels ∧ k ∉ [Kind.mark .question] := by
    decide
  have hfirst := hrun (op :: (us ++ rest)) (hall _ hop).1
  have hsecond : expr env (us ++ rest) = .ok value' rest := hrun' rest hrest
  have hcondition : conditionalExpr whole env (ts ++ op :: (us ++ rest)) =
      .ok target' (op :: (us ++ rest)) := by
    rw [conditionalExpr, bind_of_ok hfirst, atMark, check_bind_of_not_mem (hall _ hop).2]
    rfl
  show expr env (ts ++ op :: (us ++ rest)) = _
  rw [expr_eq, assignmentExpr, bind_of_ok hcondition, check_bind_of_mem hop]
  simp only [if_true]
  rw [bind_of_ok (next_cons op env _), if_pos htarget', whole_expr, bind_of_ok hsecond]
  rfl

theorem Takes.conditional {test yes no : Expr} {q c : Token} {vs : List Token} (p : Option Pos)
    (hq : q.kind = .mark .question) (hc : c.kind = .mark .colon)
    (htest : Takes env (.binary binaryLevels) test ts) (hyes : Takes env .assignment yes us)
    (hno : Takes env .assignment no vs) :
    Takes env .conditional (.conditional p test yes no) (ts ++ q :: (us ++ c :: vs)) := by
  obtain ⟨test', htest', hrun⟩ := htest.binary_ok List.suffix_rfl
  obtain ⟨-, yes', hyes', hrunYes⟩ := hyes
  obtain ⟨-, no', hno', hrunNo⟩ := hno
  refine ⟨htest.1.append _, .conditional test'.pos test' yes' no', ?_, fun rest hrest ↦ ?_⟩
  · simp [Expr.bare, htest', hyes', hno']
  simp only [List.append_assoc, List.cons_append]
  have hfirst := hrun (q :: (us ++ c :: (vs ++ rest))) (by rw [nextKind_cons, hq]; decide)
  have hsecond : expr env (us ++ c :: (vs ++ rest)) = .ok yes' (c :: (vs ++ rest)) :=
    hrunYes _ (by rw [nextKind_cons, hc]; decide)
  have hthird : expr env (vs ++ rest) = .ok no' rest := hrunNo rest hrest
  show conditionalExpr whole env _ = _
  rw [conditionalExpr, bind_of_ok hfirst, atMark, check_bind_of_mem (by simp [hq])]
  simp only [if_true]
  rw [bind_of_ok (next_cons q env _), whole_expr, bind_of_ok hsecond, mark,
    bind_of_ok (expect_cons hc env _), bind_of_ok hthird]
  rfl

/-- The right operand is of a tighter level: it has been read to its end when the chain goes on. -/
theorem Takes.binary {l r : Expr} {op : Token} {ops : List Kind} {tighter : List (List Kind)}
    (p : Option Pos) (hlevels : ops :: tighter <:+ binaryLevels) (hop : op.kind ∈ ops)
    (hl : Takes env (.binary (ops :: tighter)) l ts) (hr : Takes env (.binary tighter) r us) :
    Takes env (.binary (ops :: tighter)) (.binary p op.lexeme l r) (ts ++ op :: us) := by
  obtain ⟨hbegin, l', hsame, hrun⟩ := hl
  have htighter : tighter <:+ binaryLevels := (List.suffix_cons ops tighter).trans hlevels
  obtain ⟨r', hsame', hrun'⟩ := hr.binary_ok htighter
  refine ⟨hbegin.append _, .binary l'.pos op.lexeme l' r', ?_, fun rest hrest ↦ ?_⟩
  · simp [Expr.bare, hsame, hsame']
  rw [List.append_assoc, List.cons_append]
  have hfirst : binaryExpr whole (ops :: tighter) env (ts ++ op :: (us ++ rest)) =
      chain (binaryExpr whole tighter) ops l' env (op :: (us ++ rest)) :=
    hrun _ (not_mem_behindLevels hlevels _ hop)
  -- The left operand leaves the rule in its chain, right before the operator; one round of the
  -- chain then reads the operator and the right operand.
  have hagree : ∀ k, Agree k 1 (binaryExpr whole tighter) (binaryExpr whole tighter) := fun k ↦
    agree_binaryExpr (endOfInput_not_mem_of_suffix htighter) fun j _ ↦ whole_agree j
  refine hfirst.trans ?_
  rw [chain_eq (endOfInput_not_mem_of_suffix hlevels ops List.mem_cons_self) hagree, chainStep,
    check_bind_of_mem hop]
  simp only [if_true]
  rw [bind_of_ok (next_cons op env _), bind_of_ok (hrun' rest hrest)]
  rfl

/-- The operand is read by an inner parser, which may be any that was unrolled often enough. -/
theorem Takes.unary {op : Token} (p : Option Pos) (hop : op.kind ∈ unaryOps)
    (he : Takes env (.binary []) e ts) :
    Takes env (.binary []) (.unary p op.lexeme e) (op :: ts) := by
  obtain ⟨-, e', hsame, hrun⟩ := he
  have hall : ∀ k ∈ unaryOps, k ∈ expressionStart := by decide
  refine ⟨⟨op, ts, rfl, hall _ hop⟩, .unary (some op.pos) op.lexeme e', ?_, fun rest hrest ↦ ?_⟩
  · simp [Expr.bare, hsame]
  have hoperand : Grammar.unary env (ts ++ rest) = .ok e' rest := by
    rw [unary_eq]
    exact hrun rest hrest
  show unaryExpr whole env (op :: (ts ++ rest)) = _
  rw [unaryExpr, bind_of_ok (peek_apply env _), nextKind_cons, if_pos hop,
    bind_of_ok (next_cons op env _), whole_unary, bind_of_ok hoperand]
  rfl

theorem Takes.updateBefore {op : Token} (p : Option Pos) (hop : op.kind ∈ updateOps)
    (he : Takes env (.binary []) e ts) :
    Takes env (.binary []) (.update p op.lexeme .before e) (op :: ts) := by
  obtain ⟨-, e', hsame, hrun⟩ := he
  have hall : ∀ k ∈ updateOps, k ∈ expressionStart ∧ k ∉ unaryOps := by decide
  refine ⟨⟨op, ts, rfl, (hall _ hop).1⟩, .update (some op.pos) op.lexeme .before e', ?_,
    fun rest hrest ↦ ?_⟩
  · simp [Expr.bare, hsame]
  have hoperand : Grammar.unary env (ts ++ rest) = .ok e' rest := by
    rw [unary_eq]
    exact hrun rest hrest
  show unaryExpr whole env (op :: (ts ++ rest)) = _
  rw [unaryExpr, bind_of_ok (peek_apply env _), nextKind_cons, if_neg (hall _ hop).2, if_pos hop,
    bind_of_ok (next_cons op env _), whole_unary, bind_of_ok hoperand]
  rfl

theorem Takes.updateAfter {op : Token} (p : Option Pos) (hop : op.kind ∈ updateOps)
    (he : Takes env .indexed e ts) :
    Takes env .suffixed (.update p op.lexeme .after e) (ts ++ [op]) := by
  obtain ⟨hbegin, e', hsame, hrun⟩ := he
  refine ⟨hbegin.append _, .update e'.pos op.lexeme .after e', ?_, fun rest hrest ↦ ?_⟩
  · simp [Expr.bare, hsame]
  have hall : ∀ k ∈ updateOps, k ∉ Slot.indexed.goesOn ∧
      k ∉ [Kind.mark .dot, .mark .openBracket, .mark .openParen] := by decide
  rw [List.append_assoc, List.singleton_append]
  have hstop : nextKind (op :: rest) ∉ [Kind.mark .dot, .mark .openBracket, .mark .openParen] :=
    (hall _ hop).2
  have hchain : (primary whole >>= suffixes whole) env (ts ++ op :: rest) = .ok e' (op :: rest) :=
    (hrun (op :: rest) (hall _ hop).1).trans (suffixes_stop hstop e')
  show suffixed whole env (ts ++ op :: rest) = _
  rw [suffixed_eq, bind_of_ok hchain, check_bind_of_mem hop]
  rfl

/-! ### Suffixes -/

theorem propertyName_cons {t : Token} (h : Token.NamesProperty t) (rest : List Token) :
    propertyName env (t :: rest) = .ok (t.lexeme, some t.pos) rest := by
  rw [propertyName, bind_of_ok (peekToken_apply env _)]
  simp only [List.head?_cons]
  by_cases hkind : t.kind = .identifier
  · rw [if_neg (not_not_intro hkind)]
    exact bind_of_ok (expect_cons hkind env rest) _
  · obtain ⟨w, hw, hname⟩ := h.resolve_left hkind
    rw [if_pos hkind, bind_of_ok (textFor_eq_ok.mpr ⟨hw, rfl⟩), if_pos hname,
      bind_of_ok (next_cons t env rest)]
    rfl

/-- A point goes on with an expression. -/
theorem suffixes_dot {d n : Token} (hd : d.kind = .mark .dot) (hn : Token.NamesProperty n)
    (e : Expr) (rest : List Token) : suffixes whole e env (d :: n :: rest) =
      suffixes whole (.member e.pos e n.lexeme (some n.pos)) env rest := by
  rw [suffixes_eq whole_agree, suffixesStep, bind_of_ok (peek_apply env _), nextKind_cons, hd]
  show (next >>= _) env (d :: n :: rest) = _
  rw [bind_of_ok (next_cons d env _), bind_of_ok (propertyName_cons hn rest)]

theorem Takes.member {d n : Token} (p q : Option Pos) (hd : d.kind = .mark .dot)
    (hn : Token.NamesProperty n) (he : Takes env .chained e ts) :
    Takes env .chained (.member p e n.lexeme q) (ts ++ [d, n]) := by
  obtain ⟨hbegin, e', hsame, hrun⟩ := he
  refine ⟨hbegin.append _, .member e'.pos e' n.lexeme (some n.pos), ?_, fun rest hrest ↦ ?_⟩
  · simp [Expr.bare, hsame]
  rw [List.append_assoc]
  exact (hrun _ List.not_mem_nil).trans (suffixes_dot hd hn e' rest)

/-- An index may follow a `new` without arguments; a point and a call may not, since `new` would
have taken them. -/
theorem Takes.index {k : Expr} {l r : Token} (p : Option Pos) (hl : l.kind = .mark .openBracket)
    (hr : r.kind = .mark .closeBracket) (he : Takes env .indexed e ts)
    (hk : Takes env .assignment k us) :
    Takes env .chained (.index p e k) (ts ++ l :: (us ++ [r])) := by
  obtain ⟨hbegin, e', hsame, hrun⟩ := he
  obtain ⟨-, k', hsame', hrun'⟩ := hk
  refine ⟨hbegin.append _, .index e'.pos e' k', ?_, fun rest hrest ↦ ?_⟩
  · simp [Expr.bare, hsame, hsame']
  simp only [List.append_assoc, List.cons_append, List.nil_append]
  have hkey : expr env (us ++ r :: rest) = .ok k' (r :: rest) :=
    hrun' _ (by rw [nextKind_cons, hr]; decide)
  refine (hrun _ (by rw [nextKind_cons, hl]; decide)).trans ?_
  show suffixes whole e' env (l :: (us ++ r :: rest)) = _
  rw [suffixes_eq whole_agree, suffixesStep, bind_of_ok (peek_apply env _), nextKind_cons, hl]
  show (next >>= _) env (l :: (us ++ r :: rest)) = _
  rw [bind_of_ok (next_cons l env _), whole_expr, bind_of_ok hkey, mark,
    bind_of_ok (expect_cons hr env rest)]
  rfl

/-- The parser for arguments takes `ts` for the expressions `es`. -/
def TakesArguments (env : Context) (es : List Expr) (ts : List Token) : Prop :=
  Reads env (argumentList whole) (fun es' ↦ Expr.bareAll es' = Expr.bareAll es)
    (· = .mark .closeParen) ts

/-- The parentheses around arguments, which one rule reads for calls and for `new`. -/
theorem arguments_of_takes {l r : Token} {es : List Expr} (hl : l.kind = .mark .openParen)
    (hr : r.kind = .mark .closeParen) (h : TakesArguments env es ts) : ∃ es',
      Expr.bareAll es' = Expr.bareAll es ∧
      ∀ rest, arguments whole env (l :: (ts ++ r :: rest)) = .ok es' rest := by
  obtain ⟨es', hsame, hrun⟩ := h
  refine ⟨es', hsame, fun rest ↦ ?_⟩
  rw [arguments, mark, bind_of_ok (expect_cons hl env _), bind_of_ok (hrun (r :: rest) hr), mark,
    bind_of_ok (expect_cons hr env rest)]
  rfl

theorem Takes.call {es : List Expr} {l r : Token} (p : Option Pos) (hl : l.kind = .mark .openParen)
    (hr : r.kind = .mark .closeParen) (he : Takes env .chained e ts)
    (hes : TakesArguments env es us) :
    Takes env .chained (.call p e es) (ts ++ l :: (us ++ [r])) := by
  obtain ⟨hbegin, e', hsame, hrun⟩ := he
  obtain ⟨es', hsame', hrun'⟩ := arguments_of_takes hl hr hes
  refine ⟨hbegin.append _, .call e'.pos e' es', ?_, fun rest hrest ↦ ?_⟩
  · simp [Expr.bare, hsame, hsame']
  simp only [List.append_assoc, List.cons_append, List.nil_append]
  refine (hrun _ List.not_mem_nil).trans ?_
  show suffixes whole e' env (l :: (us ++ r :: rest)) = _
  rw [suffixes_eq whole_agree, suffixesStep, bind_of_ok (peek_apply env _), nextKind_cons, hl]
  show (arguments whole >>= _) env (l :: (us ++ r :: rest)) = _
  rw [bind_of_ok (hrun' rest)]
  rfl

/-! ### Primary expressions -/

/-- A primary expression goes on with nothing. -/
theorem Takes.of_primary {e : Expr} (e' : Expr) (hbegin : Begins primaryStart ts)
    (hsame : e'.bare = e.bare) (hrun : ∀ rest, primary whole env (ts ++ rest) = .ok e' rest) :
    Takes env .primary e ts :=
  ⟨hbegin, e', hsame, fun rest _ ↦ hrun rest⟩

theorem stringValue_apply {t : Token} {w : Text} (hw : t.lexeme = .text w) (rest : List Token) :
    stringValue t env rest = .ok (Text.unescape (Text.trimEnds 1 w)) rest := by
  rw [stringValue, bind_of_ok (textFor_eq_ok.mpr ⟨hw, rfl⟩)]
  rfl

theorem Takes.number {t : Token} (p : Option Pos) (ht : t.kind = .number) :
    Takes env .primary (.number p t.lexeme) [t] := by
  refine .of_primary (.number (some t.pos) t.lexeme) ⟨t, [], rfl, by rw [ht]; decide⟩ ?_
    fun rest ↦ ?_
  · simp [Expr.bare]
  · rw [List.singleton_append, primary, bind_of_ok (peek_apply env _), nextKind_cons, ht]
    rfl

theorem Takes.string {t : Token} {w : Text} (p : Option Pos) (ht : t.kind = .string)
    (hw : t.lexeme = .text w) :
    Takes env .primary (.string p (Text.unescape (Text.trimEnds 1 w))) [t] := by
  refine .of_primary (.string (some t.pos) (Text.unescape (Text.trimEnds 1 w)))
    ⟨t, [], rfl, by rw [ht]; decide⟩ ?_ fun rest ↦ ?_
  · simp [Expr.bare]
  · rw [List.singleton_append, primary, bind_of_ok (peek_apply env _), nextKind_cons, ht]
    show (next >>= _) env (t :: rest) = _
    rw [bind_of_ok (next_cons t env rest), bind_of_ok (stringValue_apply hw rest)]
    rfl

theorem Takes.template {templates : Text → List Text → List Expr → Prop}
    (henv : env.Fills templates) {t : Token} {w : Text} {chunks : List Text}
    {holes : List Expr} (p : Option Pos)
    (ht : t.kind = .template) (hw : t.lexeme = .text w) (hholes : templates w chunks holes) :
    Takes env .primary (.template p chunks holes) [t] := by
  obtain ⟨e', hsame, hrun⟩ := henv w chunks holes hholes t hw
  refine .of_primary e' ⟨t, [], rfl, by rw [ht]; decide⟩ ?_ fun rest ↦ ?_
  · simp [Expr.bare, hsame]
  · rw [List.singleton_append, primary, bind_of_ok (peek_apply env _), nextKind_cons, ht]
    show (next >>= _) env (t :: rest) = _
    rw [bind_of_ok (next_cons t env rest)]
    exact hrun rest

/-- An identifier stands for what its text says. -/
theorem Takes.identifier {t : Token} (ht : t.kind = .identifier)
    (hsame : (identifierExpr t).bare = e.bare) : Takes env .primary e [t] := by
  refine .of_primary (identifierExpr t) ⟨t, [], rfl, by rw [ht]; decide⟩ hsame fun rest ↦ ?_
  rw [List.singleton_append, primary, bind_of_ok (peek_apply env _), nextKind_cons, ht]
  rfl

theorem Takes.this {t : Token} (p : Option Pos) (ht : t.kind = .keyword .thisWord) :
    Takes env .primary (.this p) [t] := by
  refine .of_primary (.this (some t.pos)) ⟨t, [], rfl, by rw [ht]; decide⟩ rfl fun rest ↦ ?_
  rw [List.singleton_append, primary, bind_of_ok (peek_apply env _), nextKind_cons, ht]
  rfl

theorem Takes.parentheses {l r : Token} (hl : l.kind = .mark .openParen)
    (hr : r.kind = .mark .closeParen) (he : Takes env .assignment e ts) :
    Takes env .primary e (l :: (ts ++ [r])) := by
  obtain ⟨-, e', hsame, hrun⟩ := he
  refine .of_primary e' ⟨l, ts ++ [r], rfl, by rw [hl]; decide⟩ hsame fun rest ↦ ?_
  have hinside : expr env (ts ++ r :: rest) = .ok e' (r :: rest) :=
    hrun _ (by rw [nextKind_cons, hr]; decide)
  simp only [List.cons_append, List.append_assoc, List.nil_append]
  rw [primary, bind_of_ok (peek_apply env _), nextKind_cons, hl]
  show (next >>= _) env (l :: (ts ++ r :: rest)) = _
  rw [bind_of_ok (next_cons l env _), whole_expr, bind_of_ok hinside, mark,
    bind_of_ok (expect_cons hr env rest)]
  rfl

/-- Lists of expressions that agree one by one agree up to positions. -/
theorem bareAll_of_forall₂ {es es' : List Expr}
    (h : List.Forall₂ (fun e e' ↦ e'.bare = e.bare) es es') :
    Expr.bareAll es' = Expr.bareAll es := by
  induction h with
  | nil => rfl
  | cons he _ ih => rw [Expr.bareAll, Expr.bareAll, he, ih]

theorem Takes.array {l r : Token} {es : List Expr} (p : Option Pos)
    (hl : l.kind = .mark .openBracket) (hr : r.kind = .mark .closeBracket)
    (hes : WrittenListed (Takes env .assignment) es ts) :
    Takes env .primary (.array p es) (l :: (ts ++ [r])) := by
  have hitems : Reads env (listed .closeBracket expr)
      (List.Forall₂ (fun e e' ↦ e'.bare = e.bare) es) (· = .mark .closeBracket) ts := by
    refine reads_listed (· ∉ Slot.assignment.goesOn) .closeBracket (by decide) agree_expr
      (by decide) (by decide) (hes.imp fun e us he ↦ ⟨fun rest ↦ ?_, he.2⟩)
    have hall : ∀ k ∈ expressionStart, k ≠ .mark .closeBracket := by decide
    exact hall _ (he.1.nextKind_mem rest)
  obtain ⟨es', hsame, hrun⟩ := hitems
  refine .of_primary (.array (some l.pos) es') ⟨l, ts ++ [r], rfl, by rw [hl]; decide⟩ ?_
    fun rest ↦ ?_
  · rw [Expr.bare, Expr.bare, bareAll_of_forall₂ hsame]
  simp only [List.cons_append, List.append_assoc, List.nil_append]
  rw [primary, bind_of_ok (peek_apply env _), nextKind_cons, hl]
  show arrayLiteral whole env (l :: (ts ++ r :: rest)) = _
  rw [arrayLiteral, mark, bind_of_ok (expect_cons hl env _), whole_expr,
    bind_of_ok (hrun (r :: rest) hr), mark, bind_of_ok (expect_cons hr env rest)]
  rfl

/-- The parser for properties takes `ts` for the property `x`. -/
def TakesProperty (env : Context) (x : Lexeme × Expr) (ts : List Token) : Prop :=
  (∀ rest, nextKind (ts ++ rest) ≠ .mark .closeBrace) ∧
    Reads env (property whole) (fun y ↦ y.1 = x.1 ∧ y.2.bare = x.2.bare)
      (· ∈ [Kind.mark .comma, .mark .closeBrace]) ts

theorem bareProperties_of_forall₂ {ps ps' : List (Lexeme × Expr)}
    (h : List.Forall₂ (fun x y ↦ y.1 = x.1 ∧ y.2.bare = x.2.bare) ps ps') :
    Expr.bareProperties ps' = Expr.bareProperties ps := by
  induction h with
  | nil => rfl
  | @cons x y _ _ hxy _ ih =>
    obtain ⟨k, e⟩ := x
    obtain ⟨k', e'⟩ := y
    simp only at hxy
    rw [Expr.bareProperties, Expr.bareProperties, hxy.1, hxy.2, ih]

theorem Takes.object {l r : Token} {ps : List (Lexeme × Expr)} (p : Option Pos)
    (hl : l.kind = .mark .openBrace) (hr : r.kind = .mark .closeBrace)
    (hps : WrittenListed (TakesProperty env) ps ts) :
    Takes env .primary (.object p ps) (l :: (ts ++ [r])) := by
  have hitem : ∀ k, Agree k 1 (property whole) (property whole) := fun k ↦
    agree_property fun j _ ↦ whole_agree j
  obtain ⟨ps', hsame, hrun⟩ := reads_listed _ .closeBrace (by decide) hitem (by decide)
    (by decide) hps
  refine .of_primary (.object (some l.pos) ps') ⟨l, ts ++ [r], rfl, by rw [hl]; decide⟩ ?_
    fun rest ↦ ?_
  · rw [Expr.bare, Expr.bare, bareProperties_of_forall₂ hsame]
  simp only [List.cons_append, List.append_assoc, List.nil_append]
  rw [primary, bind_of_ok (peek_apply env _), nextKind_cons, hl]
  show objectLiteral whole env (l :: (ts ++ r :: rest)) = _
  rw [objectLiteral, mark, bind_of_ok (expect_cons hl env _), bind_of_ok (hrun (r :: rest) hr),
    mark, bind_of_ok (expect_cons hr env rest)]
  rfl

/-- A key is settled by its first token, which is the only one. -/
theorem propertyKey_cons {t : Token} {key : Lexeme} (h : WritesKey t key) (rest : List Token) :
    propertyKey t.kind env (t :: rest) = .ok key rest := by
  cases h with
  | string w ht hw =>
    rw [ht, propertyKey, bind_of_ok (next_cons t env rest), bind_of_ok (stringValue_apply hw rest)]
    rfl
  | number ht =>
    rw [ht, propertyKey]
    rfl
  | name ht hkind =>
    rw [propertyKey]
    · rw [bind_of_ok (propertyName_cons ht rest)]
      rfl
    · intro h
      simp [h] at hkind
    · intro h
      simp [h] at hkind

theorem TakesProperty.keyed {k c : Token} {key : Lexeme} (hc : c.kind = .mark .colon)
    (hk : WritesKey k key) (he : Takes env .assignment e ts) :
    TakesProperty env (key, e) (k :: c :: ts) := by
  obtain ⟨-, e', hsame, hrun⟩ := he
  refine ⟨fun rest h ↦ ?_, (key, e'), ⟨rfl, hsame⟩, fun rest hrest ↦ ?_⟩
  · rw [List.cons_append, nextKind_cons] at h
    cases hk with
    | string w ht => rw [ht] at h; cases h
    | number ht => rw [ht] at h; cases h
    | name _ hkind => simp [h] at hkind
  have hall : ∀ k ∈ [Kind.mark .comma, .mark .closeBrace], k ∉ Slot.assignment.goesOn := by decide
  have hvalue : expr env (ts ++ rest) = .ok e' rest := hrun rest (hall _ hrest)
  -- A name with a colon behind it is no short form.
  have hcolon : nextKind (c :: (ts ++ rest)) ∉ [Kind.mark .comma, .mark .closeBrace] := by
    rw [nextKind_cons, hc]
    decide
  simp only [List.cons_append]
  rw [property, bind_of_ok (peekToken_apply env _)]
  show (propertyKey k.kind >>= _) env (k :: c :: (ts ++ rest)) = _
  rw [bind_of_ok (propertyKey_cons hk _), check_bind_of_not_mem hcolon,
    if_neg (by simp), mark, bind_of_ok (expect_cons hc env _), whole_expr, bind_of_ok hvalue]
  rfl

/-- A name alone stands for itself. -/
theorem TakesProperty.shorthand {t : Token} (p : Option Pos) (ht : t.kind = .identifier) :
    TakesProperty env (t.lexeme, .name p t.lexeme) [t] := by
  refine ⟨fun rest h ↦ ?_, (t.lexeme, .name (some t.pos) t.lexeme), ⟨rfl, ?_⟩, fun rest hrest ↦ ?_⟩
  · rw [List.singleton_append, nextKind_cons, ht] at h
    cases h
  · simp [Expr.bare]
  have hkey : WritesKey t t.lexeme := .name (.inl ht) (by rw [ht]; decide)
  rw [List.singleton_append, property, bind_of_ok (peekToken_apply env _)]
  show (propertyKey t.kind >>= _) env (t :: rest) = _
  rw [bind_of_ok (propertyKey_cons hkey rest), check_bind_of_mem hrest, if_pos ⟨ht, rfl⟩]
  rfl

theorem TakesArguments.none : TakesArguments env [] [] := by
  refine ⟨[], rfl, fun rest hrest ↦ ?_⟩
  have hclose : nextKind rest ∈ [Kind.mark .closeParen] := by simpa using hrest
  rw [List.nil_append, argumentList, atMark, check_bind_of_mem hclose]
  rfl

/-- One or more expressions are read up to anything that does not go on with them. -/
theorem reads_items {es : List Expr} (h : WrittenSeparated (Takes env .assignment) es ts) :
    Reads env (separated expr) (fun es' ↦ Expr.bareAll es' = Expr.bareAll es)
      (fun k ↦ k ∉ Slot.assignment.goesOn ∧ k ≠ .mark .comma) ts := by
  obtain ⟨es', hsame, hrun⟩ := reads_separated (· ∉ Slot.assignment.goesOn) agree_expr (by decide)
    (h.imp fun e us he ↦ he.2)
  exact ⟨es', bareAll_of_forall₂ hsame, hrun⟩

/-- A list that is not empty begins as its first item does. -/
theorem WrittenSeparated.begins {α : Type} {item : α → List Token → Prop} {ks : List Kind}
    (hitem : ∀ a us, item a us → Begins ks us) {as : List α}
    (h : WrittenSeparated item as ts) : Begins ks ts := by
  cases h with
  | last ha => exact hitem _ _ ha
  | more c hc ha _ => exact (hitem _ _ ha).append _

theorem TakesArguments.some {es : List Expr} (h : WrittenSeparated (Takes env .assignment) es ts) :
    TakesArguments env es ts := by
  obtain ⟨es', hsame, hrun⟩ := reads_items h
  refine ⟨es', hsame, fun rest hrest ↦ ?_⟩
  have hall : ∀ k ∈ expressionStart, k ∉ [Kind.mark .closeParen] := by decide
  have hstart : nextKind (ts ++ rest) ∉ [Kind.mark .closeParen] :=
    hall _ ((h.begins fun _ _ he ↦ he.1).nextKind_mem rest)
  rw [argumentList, atMark, check_bind_of_not_mem hstart]
  exact hrun rest (by rw [hrest]; decide)

/-! ### The callee of `new` -/

/-- The callee of `new`. -/
def calleeExpr : Parse Expr := do
  let name ← expect .identifier
  callee (.name (some name.pos) name.lexeme)

/-- The parser for the callee of `new` takes `ts` for `e`, and then looks for another name. -/
def TakesCallee (env : Context) (e : Expr) (ts : List Token) : Prop :=
  ∃ e', e'.bare = e.bare ∧ ∀ rest, calleeExpr env (ts ++ rest) = callee e' env rest

/-- The callee of `new` ends where no point follows. -/
theorem callee_stop {rest : List Token} (hrest : nextKind rest ≠ .mark .dot) (e : Expr) :
    callee e env rest = .ok e rest := by
  have hdot : nextKind rest ∉ [Kind.mark .dot] := by simpa using hrest
  rw [callee_eq, calleeStep, atMark, check_bind_of_not_mem hdot]
  rfl

theorem TakesCallee.name {t : Token} (p : Option Pos) (ht : t.kind = .identifier) :
    TakesCallee env (.name p t.lexeme) [t] := by
  refine ⟨.name (some t.pos) t.lexeme, by simp [Expr.bare], fun rest ↦ ?_⟩
  rw [List.singleton_append, calleeExpr, bind_of_ok (expect_cons ht env rest)]

theorem TakesCallee.member {d n : Token} (p q : Option Pos) (hd : d.kind = .mark .dot)
    (hn : Token.NamesProperty n) (he : TakesCallee env e ts) :
    TakesCallee env (.member p e n.lexeme q) (ts ++ [d, n]) := by
  obtain ⟨e', hsame, hrun⟩ := he
  refine ⟨.member e'.pos e' n.lexeme (some n.pos), by simp [Expr.bare, hsame], fun rest ↦ ?_⟩
  have hdot : nextKind (d :: n :: rest) ∈ [Kind.mark .dot] := by simpa using hd
  rw [List.append_assoc, hrun, callee_eq, calleeStep, atMark]
  show (check _ >>= _) env (d :: n :: rest) = _
  rw [check_bind_of_mem hdot]
  simp only [if_true]
  rw [bind_of_ok (next_cons d env _), bind_of_ok (propertyName_cons hn rest)]

/-- The rule for `new` reads its callee as one part. -/
theorem newExpr_eq : newExpr whole = (do
    let t ← keyword .newWord
    let c ← calleeExpr
    let args ← newArguments whole
    return .new (some t.pos) c args) :=
  congrArg (keyword .newWord >>= ·) (funext fun _ ↦ bind_assoc _ _ _)

theorem Takes.new {n l r : Token} {es : List Expr} (p : Option Pos)
    (hn : n.kind = .keyword .newWord) (hl : l.kind = .mark .openParen)
    (hr : r.kind = .mark .closeParen) (he : TakesCallee env e ts)
    (hes : TakesArguments env es us) :
    Takes env .primary (.new p e es) (n :: (ts ++ l :: (us ++ [r]))) := by
  obtain ⟨e', hsame, hrun⟩ := he
  obtain ⟨es', hsame', hrun'⟩ := arguments_of_takes hl hr hes
  refine .of_primary (.new (some n.pos) e' es') ⟨n, _, rfl, by rw [hn]; decide⟩ ?_ fun rest ↦ ?_
  · simp [Expr.bare, hsame, hsame']
  simp only [List.cons_append, List.append_assoc, List.nil_append]
  have hcallee := (hrun (l :: (us ++ r :: rest))).trans
    (callee_stop (by rw [nextKind_cons, hl]; decide) e')
  have hopen : nextKind (l :: (us ++ r :: rest)) ∈ [Kind.mark .openParen] := by simpa using hl
  have hargs : newArguments whole env (l :: (us ++ r :: rest)) = .ok es' rest := by
    rw [newArguments, atMark, check_bind_of_mem hopen]
    exact hrun' rest
  rw [primary, bind_of_ok (peek_apply env _), nextKind_cons, hn]
  show newExpr whole env _ = _
  rw [newExpr_eq, keyword, bind_of_ok (expect_cons hn env _), bind_of_ok hcallee, bind_of_ok hargs]
  rfl

/-- Without parentheses, `new` ends before anything that it would have taken for its callee or its
arguments. -/
theorem Takes.newBare {n : Token} (p : Option Pos) (hn : n.kind = .keyword .newWord)
    (he : TakesCallee env e ts) : Takes env .indexed (.new p e []) (n :: ts) := by
  obtain ⟨e', hsame, hrun⟩ := he
  refine ⟨⟨n, ts, rfl, by rw [hn]; decide⟩, .new (some n.pos) e' [], ?_, fun rest hrest ↦ ?_⟩
  · simp [Expr.bare, hsame]
  have hdot : nextKind rest ≠ .mark .dot := fun h ↦ hrest (by simp [Slot.goesOn, h])
  have hopen : nextKind rest ∉ [Kind.mark .openParen] := fun h ↦ hrest (List.mem_cons_of_mem _ h)
  have hcallee := (hrun rest).trans (callee_stop hdot e')
  have hargs : newArguments whole env rest = .ok [] rest := by
    rw [newArguments, atMark, check_bind_of_not_mem hopen]
    rfl
  have hprimary : primary whole env (n :: (ts ++ rest)) = .ok (.new (some n.pos) e' []) rest := by
    rw [primary, bind_of_ok (peek_apply env _), nextKind_cons, hn]
    show newExpr whole env _ = _
    rw [newExpr_eq, keyword, bind_of_ok (expect_cons hn env _), bind_of_ok hcallee,
      bind_of_ok hargs]
    rfl
  exact bind_of_ok hprimary _

/-! ### All expressions -/

/-- What the parser of a phrase does with its tokens. -/
def Phrase.Taken (env : Context) : Phrase → List Token → Prop
  | .expr slot e => Takes env slot e
  | .callee e => TakesCallee env e
  | .arguments es => TakesArguments env es
  | .items es => WrittenSeparated (Takes env .assignment) es
  | .elements es => WrittenListed (Takes env .assignment) es
  | .property key value => TakesProperty env (key, value)
  | .properties ps => WrittenListed (TakesProperty env) ps

/-- **Every writing of an expression is parsed to that expression**, positions apart. -/
theorem Written.taken {templates : Text → List Text → List Expr → Prop}
    (henv : env.Fills templates) {phrase : Phrase} (h : Written templates phrase ts) :
    phrase.Taken env ts := by
  induction h with
  | number p t ht => exact .number p ht
  | string p t w ht hw => exact .string p ht hw
  | template p t w chunks holes ht hw hholes => exact .template henv p ht hw hholes
  | trueWord p t ht hw => exact .identifier ht (by simp [identifierExpr, hw, Expr.bare])
  | falseWord p t ht hw =>
    refine .identifier ht ?_
    rw [identifierExpr, hw, if_neg (by decide), if_pos rfl]
    rfl
  | nullWord p t ht hw =>
    refine .identifier ht ?_
    have hfalse : t.lexeme ≠ "true" ∧ t.lexeme ≠ "false" := by
      rcases hw with hw | hw
      · rw [hw]; decide
      · rw [hw]; decide
    rw [identifierExpr, if_neg hfalse.1, if_neg hfalse.2, if_pos hw]
    rfl
  | name p t ht hw =>
    simp only [List.mem_cons, List.not_mem_nil, or_false, not_or] at hw
    exact .identifier ht (by simp [identifierExpr, hw, Expr.bare])
  | thisWord p t ht => exact .this p ht
  | object p l r hl hr _ ih => exact .object p hl hr ih
  | array p l r hl hr _ ih => exact .array p hl hr ih
  | new p n l r hn hl hr _ _ ihe ihes => exact .new p hn hl hr ihe ihes
  | parentheses l r hl hr _ ih => exact .parentheses hl hr ih
  | newBare p n hn _ ih => exact .newBare p hn ih
  | member p q d n hd hn _ ih => exact .member p q hd hn ih
  | index p l r hl hr _ _ ihe ihk => exact .index p hl hr ihe ihk
  | call p l r hl hr _ _ ihe ihes => exact .call p hl hr ihe ihes
  | updateAfter p op hop _ ih => exact .updateAfter p hop ih
  | updateBefore p op hop _ ih => exact .updateBefore p hop ih
  | unary p op hop _ ih => exact .unary p hop ih
  | binary p op hlevels hop _ _ ihl ihr => exact .binary p hlevels hop ihl ihr
  | conditional p q c hq hc _ _ _ iht ihy ihn => exact .conditional p hq hc iht ihy ihn
  | assign p op hop htarget _ _ ihl ihv => exact .assign p hop htarget ihl ihv
  | toAssignment _ ih => exact ih.toAssignment
  | toConditional _ ih => exact ih.toConditional
  | toBinary hlevels _ ih => exact ih.toBinary hlevels
  | toUnary _ ih => exact ih.toUnary
  | toSuffixed _ ih => exact ih.toSuffixed
  | toIndexed _ ih => exact ih.toIndexed
  | toChained _ ih => exact ih.toChained
  | calleeName p t ht => exact .name p ht
  | calleeMember p q d n hd hn _ ih => exact .member p q hd hn ih
  | noArguments => exact .none
  | someArguments _ ih => exact .some ih
  | lastItem _ ih => exact .last ih
  | moreItems c hc _ _ ihe ihes => exact .more c hc ihe ihes
  | noElements => exact .nil
  | lastElement _ ih => exact .last ih
  | moreElements c hc _ _ ihe ihes => exact .more c hc ihe ihes
  | keyed k c hc hk _ ih => exact .keyed hc hk ih
  | shorthand p t ht => exact .shorthand p ht
  | noProperties => exact .nil
  | lastProperty _ ih => exact .last ih
  | moreProperties c hc _ _ ih ihps => exact .more c hc ih ihps

end Expressions

end Advplc.Grammar
