import Advplc.Proofs.Grammar.Written

/-!
# How programs are written, and where

`Placed` is `Written` with positions: the tokens write the expression, and every node of it stands
where they say.  An expression stands at the first token that it was written with which is not an
opening parenthesis (`startOf`); the name of a property stands at the token of the name.
`PlacedStmt` says the same of statements, which stand at their first token, whatever that is.

A template carries its holes in the text of its one token, so where the expressions in the holes
stand is said by `templates`, which here relates the token itself to the chunks and holes that it
stands for.
-/

set_option autoImplicit false

namespace Advplc.Grammar

open Script

/-! ## Expressions -/

/-- The position of the first token that is not an opening parenthesis. -/
def startOf (ts : List Token) : Option Pos :=
  (ts.find? fun t ↦ t.kind ≠ .mark .openParen).map Token.pos

/-- The tokens that write an expression which stands where they do. -/
inductive Placed (templates : Token → List Text → List Expr → Prop) :
    Phrase → List Token → Prop where
  -- Literals, names, and what is closed off by its own marks.
  | number (t : Token) (ht : t.kind = .number) :
      Placed templates (.expr .primary (.number (some t.pos) t.lexeme)) [t]
  | string (t : Token) (w : Text) (ht : t.kind = .string) (hw : t.lexeme = .text w) :
      Placed templates
        (.expr .primary (.string (some t.pos) (Text.unescape (Text.trimEnds 1 w)))) [t]
  | template (t : Token) (w : Text) (chunks : List Text) (holes : List Expr)
      (ht : t.kind = .template) (hw : t.lexeme = .text w) (hholes : templates t chunks holes) :
      Placed templates (.expr .primary (.template (some t.pos) chunks holes)) [t]
  | trueWord (t : Token) (ht : t.kind = .identifier) (hw : t.lexeme = "true") :
      Placed templates (.expr .primary (.boolean (some t.pos) true)) [t]
  | falseWord (t : Token) (ht : t.kind = .identifier) (hw : t.lexeme = "false") :
      Placed templates (.expr .primary (.boolean (some t.pos) false)) [t]
  | nullWord (t : Token) (ht : t.kind = .identifier)
      (hw : t.lexeme = "null" ∨ t.lexeme = "undefined") :
      Placed templates (.expr .primary (.null (some t.pos))) [t]
  | name (t : Token) (ht : t.kind = .identifier)
      (hw : t.lexeme ∉ (["true", "false", "null", "undefined"] : List Lexeme)) :
      Placed templates (.expr .primary (.name (some t.pos) t.lexeme)) [t]
  | thisWord (t : Token) (ht : t.kind = .keyword .thisWord) :
      Placed templates (.expr .primary (.this (some t.pos))) [t]
  | object (l r : Token) (hl : l.kind = .mark .openBrace) (hr : r.kind = .mark .closeBrace)
      {ps : List (Lexeme × Expr)} {ts : List Token} (hps : Placed templates (.properties ps) ts) :
      Placed templates (.expr .primary (.object (some l.pos) ps)) (l :: (ts ++ [r]))
  | array (l r : Token) (hl : l.kind = .mark .openBracket) (hr : r.kind = .mark .closeBracket)
      {es : List Expr} {ts : List Token} (hes : Placed templates (.elements es) ts) :
      Placed templates (.expr .primary (.array (some l.pos) es)) (l :: (ts ++ [r]))
  | new (n l r : Token) (hn : n.kind = .keyword .newWord) (hl : l.kind = .mark .openParen)
      (hr : r.kind = .mark .closeParen) {e : Expr} {es : List Expr} {ts us : List Token}
      (he : Placed templates (.callee e) ts) (hes : Placed templates (.arguments es) us) :
      Placed templates (.expr .primary (.new (some n.pos) e es)) (n :: (ts ++ l :: (us ++ [r])))
  | parentheses (l r : Token) (hl : l.kind = .mark .openParen) (hr : r.kind = .mark .closeParen)
      {e : Expr} {ts : List Token} (he : Placed templates (.expr .assignment e) ts) :
      Placed templates (.expr .primary e) (l :: (ts ++ [r]))
  -- Suffixes.
  | newBare (n : Token) (hn : n.kind = .keyword .newWord) {e : Expr} {ts : List Token}
      (he : Placed templates (.callee e) ts) :
      Placed templates (.expr .indexed (.new (some n.pos) e [])) (n :: ts)
  | member (d n : Token) (hd : d.kind = .mark .dot) (hn : Token.NamesProperty n) {e : Expr}
      {ts : List Token} (he : Placed templates (.expr .chained e) ts) {p : Option Pos}
      (hp : p = startOf (ts ++ [d, n])) :
      Placed templates (.expr .chained (.member p e n.lexeme (some n.pos))) (ts ++ [d, n])
  | index (l r : Token) (hl : l.kind = .mark .openBracket) (hr : r.kind = .mark .closeBracket)
      {e k : Expr} {ts us : List Token} (he : Placed templates (.expr .indexed e) ts)
      (hk : Placed templates (.expr .assignment k) us) {p : Option Pos}
      (hp : p = startOf (ts ++ l :: (us ++ [r]))) :
      Placed templates (.expr .chained (.index p e k)) (ts ++ l :: (us ++ [r]))
  | call (l r : Token) (hl : l.kind = .mark .openParen) (hr : r.kind = .mark .closeParen)
      {e : Expr} {es : List Expr} {ts us : List Token}
      (he : Placed templates (.expr .chained e) ts) (hes : Placed templates (.arguments es) us)
      {p : Option Pos} (hp : p = startOf (ts ++ l :: (us ++ [r]))) :
      Placed templates (.expr .chained (.call p e es)) (ts ++ l :: (us ++ [r]))
  | updateAfter (op : Token) (hop : op.kind ∈ updateOps) {e : Expr} {ts : List Token}
      (he : Placed templates (.expr .indexed e) ts) {p : Option Pos}
      (hp : p = startOf (ts ++ [op])) :
      Placed templates (.expr .suffixed (.update p op.lexeme .after e)) (ts ++ [op])
  -- Operators in front, between two operands, and between three.
  | updateBefore (op : Token) (hop : op.kind ∈ updateOps) {e : Expr} {ts : List Token}
      (he : Placed templates (.expr (.binary []) e) ts) :
      Placed templates (.expr (.binary []) (.update (some op.pos) op.lexeme .before e)) (op :: ts)
  | unary (op : Token) (hop : op.kind ∈ unaryOps) {e : Expr} {ts : List Token}
      (he : Placed templates (.expr (.binary []) e) ts) :
      Placed templates (.expr (.binary []) (.unary (some op.pos) op.lexeme e)) (op :: ts)
  | binary (op : Token) {ops : List Kind} {tighter : List (List Kind)}
      (hlevels : ops :: tighter <:+ binaryLevels) (hop : op.kind ∈ ops) {l r : Expr}
      {ts us : List Token} (hl : Placed templates (.expr (.binary (ops :: tighter)) l) ts)
      (hr : Placed templates (.expr (.binary tighter) r) us) {p : Option Pos}
      (hp : p = startOf (ts ++ op :: us)) :
      Placed templates (.expr (.binary (ops :: tighter)) (.binary p op.lexeme l r))
        (ts ++ op :: us)
  | conditional (q c : Token) (hq : q.kind = .mark .question) (hc : c.kind = .mark .colon)
      {test yes no : Expr} {ts us vs : List Token}
      (htest : Placed templates (.expr (.binary binaryLevels) test) ts)
      (hyes : Placed templates (.expr .assignment yes) us)
      (hno : Placed templates (.expr .assignment no) vs) {p : Option Pos}
      (hp : p = startOf (ts ++ q :: (us ++ c :: vs))) :
      Placed templates (.expr .conditional (.conditional p test yes no))
        (ts ++ q :: (us ++ c :: vs))
  | assign (op : Token) (hop : op.kind ∈ assignmentOps) {target value : Expr}
      (htarget : isTarget target = true) {ts us : List Token}
      (hleft : Placed templates (.expr (.binary binaryLevels) target) ts)
      (hvalue : Placed templates (.expr .assignment value) us) {p : Option Pos}
      (hp : p = startOf (ts ++ op :: us)) :
      Placed templates (.expr .assignment (.assign p op.lexeme target value)) (ts ++ op :: us)
  -- Each slot takes what the next tighter one takes.
  | toAssignment {e : Expr} {ts : List Token} (h : Placed templates (.expr .conditional e) ts) :
      Placed templates (.expr .assignment e) ts
  | toConditional {e : Expr} {ts : List Token}
      (h : Placed templates (.expr (.binary binaryLevels) e) ts) :
      Placed templates (.expr .conditional e) ts
  | toBinary {ops : List Kind} {tighter : List (List Kind)}
      (hlevels : ops :: tighter <:+ binaryLevels) {e : Expr} {ts : List Token}
      (h : Placed templates (.expr (.binary tighter) e) ts) :
      Placed templates (.expr (.binary (ops :: tighter)) e) ts
  | toUnary {e : Expr} {ts : List Token} (h : Placed templates (.expr .suffixed e) ts) :
      Placed templates (.expr (.binary []) e) ts
  | toSuffixed {e : Expr} {ts : List Token} (h : Placed templates (.expr .indexed e) ts) :
      Placed templates (.expr .suffixed e) ts
  | toIndexed {e : Expr} {ts : List Token} (h : Placed templates (.expr .chained e) ts) :
      Placed templates (.expr .indexed e) ts
  | toChained {e : Expr} {ts : List Token} (h : Placed templates (.expr .primary e) ts) :
      Placed templates (.expr .chained e) ts
  -- The parts of expressions.
  | calleeName (t : Token) (ht : t.kind = .identifier) :
      Placed templates (.callee (.name (some t.pos) t.lexeme)) [t]
  | calleeMember (d n : Token) (hd : d.kind = .mark .dot) (hn : Token.NamesProperty n) {e : Expr}
      {ts : List Token} (he : Placed templates (.callee e) ts) {p : Option Pos}
      (hp : p = startOf (ts ++ [d, n])) :
      Placed templates (.callee (.member p e n.lexeme (some n.pos))) (ts ++ [d, n])
  | noArguments : Placed templates (.arguments []) []
  | someArguments {es : List Expr} {ts : List Token} (hes : Placed templates (.items es) ts) :
      Placed templates (.arguments es) ts
  | lastItem {e : Expr} {ts : List Token} (he : Placed templates (.expr .assignment e) ts) :
      Placed templates (.items [e]) ts
  | moreItems (c : Token) (hc : c.kind = .mark .comma) {e : Expr} {es : List Expr}
      {ts us : List Token} (he : Placed templates (.expr .assignment e) ts)
      (hes : Placed templates (.items es) us) : Placed templates (.items (e :: es)) (ts ++ c :: us)
  | noElements : Placed templates (.elements []) []
  | lastElement {e : Expr} {ts : List Token} (he : Placed templates (.expr .assignment e) ts) :
      Placed templates (.elements [e]) ts
  | moreElements (c : Token) (hc : c.kind = .mark .comma) {e : Expr} {es : List Expr}
      {ts us : List Token} (he : Placed templates (.expr .assignment e) ts)
      (hes : Placed templates (.elements es) us) :
      Placed templates (.elements (e :: es)) (ts ++ c :: us)
  | keyed (k c : Token) (hc : c.kind = .mark .colon) {key : Lexeme} (hk : WritesKey k key)
      {e : Expr} {ts : List Token} (he : Placed templates (.expr .assignment e) ts) :
      Placed templates (.property key e) (k :: c :: ts)
  | shorthand (t : Token) (ht : t.kind = .identifier) :
      Placed templates (.property t.lexeme (.name (some t.pos) t.lexeme)) [t]
  | noProperties : Placed templates (.properties []) []
  | lastProperty {k : Lexeme} {e : Expr} {ts : List Token}
      (h : Placed templates (.property k e) ts) : Placed templates (.properties [(k, e)]) ts
  | moreProperties (c : Token) (hc : c.kind = .mark .comma) {k : Lexeme} {e : Expr}
      {ps : List (Lexeme × Expr)} {ts us : List Token} (h : Placed templates (.property k e) ts)
      (hps : Placed templates (.properties ps) us) :
      Placed templates (.properties ((k, e) :: ps)) (ts ++ c :: us)

section Expressions

variable {templates : Token → List Text → List Expr → Prop} {ts : List Token}

/-- What is written and placed is written. -/
theorem Placed.written {templates' : Text → List Text → List Expr → Prop}
    (htemplates : ∀ t w cs hs, t.lexeme = .text w → templates t cs hs → templates' w cs hs)
    {phrase : Phrase} (h : Placed templates phrase ts) : Written templates' phrase ts := by
  induction h with
  | number t ht => exact .number _ t ht
  | string t w ht hw => exact .string _ t w ht hw
  | template t w cs hs ht hw hholes =>
    exact .template _ t w cs hs ht hw (htemplates t w cs hs hw hholes)
  | trueWord t ht hw => exact .trueWord _ t ht hw
  | falseWord t ht hw => exact .falseWord _ t ht hw
  | nullWord t ht hw => exact .nullWord _ t ht hw
  | name t ht hw => exact .name _ t ht hw
  | thisWord t ht => exact .thisWord _ t ht
  | object l r hl hr _ ih => exact .object _ l r hl hr ih
  | array l r hl hr _ ih => exact .array _ l r hl hr ih
  | new n l r hn hl hr _ _ ihe ihes => exact .new _ n l r hn hl hr ihe ihes
  | parentheses l r hl hr _ ih => exact .parentheses l r hl hr ih
  | newBare n hn _ ih => exact .newBare _ n hn ih
  | member d n hd hn _ _ ih => exact .member _ _ d n hd hn ih
  | index l r hl hr _ _ _ ihe ihk => exact .index _ l r hl hr ihe ihk
  | call l r hl hr _ _ _ ihe ihes => exact .call _ l r hl hr ihe ihes
  | updateAfter op hop _ _ ih => exact .updateAfter _ op hop ih
  | updateBefore op hop _ ih => exact .updateBefore _ op hop ih
  | unary op hop _ ih => exact .unary _ op hop ih
  | binary op hlevels hop _ _ _ ihl ihr => exact .binary _ op hlevels hop ihl ihr
  | conditional q c hq hc _ _ _ _ iht ihy ihn => exact .conditional _ q c hq hc iht ihy ihn
  | assign op hop htarget _ _ _ ihl ihv => exact .assign _ op hop htarget ihl ihv
  | toAssignment _ ih => exact .toAssignment ih
  | toConditional _ ih => exact .toConditional ih
  | toBinary hlevels _ ih => exact .toBinary hlevels ih
  | toUnary _ ih => exact .toUnary ih
  | toSuffixed _ ih => exact .toSuffixed ih
  | toIndexed _ ih => exact .toIndexed ih
  | toChained _ ih => exact .toChained ih
  | calleeName t ht => exact .calleeName _ t ht
  | calleeMember d n hd hn _ _ ih => exact .calleeMember _ _ d n hd hn ih
  | noArguments => exact .noArguments
  | someArguments _ ih => exact .someArguments ih
  | lastItem _ ih => exact .lastItem ih
  | moreItems c hc _ _ ihe ihes => exact .moreItems c hc ihe ihes
  | noElements => exact .noElements
  | lastElement _ ih => exact .lastElement ih
  | moreElements c hc _ _ ihe ihes => exact .moreElements c hc ihe ihes
  | keyed k c hc hk _ ih => exact .keyed k c hc hk ih
  | shorthand t ht => exact .shorthand _ t ht
  | noProperties => exact .noProperties
  | lastProperty _ ih => exact .lastProperty ih
  | moreProperties c hc _ _ ihp ihps => exact .moreProperties c hc ihp ihps

/-! ### The position of an expression -/

theorem startOf_cons_of_ne {t : Token} (ht : t.kind ≠ .mark .openParen) (ts : List Token) :
    startOf (t :: ts) = some t.pos := by
  rw [startOf, List.find?_cons_of_pos (by simpa using ht)]
  rfl

theorem startOf_cons_of_eq {t : Token} (ht : t.kind = .mark .openParen) (ts : List Token) :
    startOf (t :: ts) = startOf ts := by
  rw [startOf, List.find?_cons_of_neg (by simpa using ht), startOf]

/-- What begins later tokens makes no difference once there is a token to start at. -/
theorem startOf_append {p : Pos} (h : startOf ts = some p) (us : List Token) :
    startOf (ts ++ us) = some p := by
  obtain ⟨t, ht, rfl⟩ := Option.map_eq_some_iff.mp h
  rw [startOf, List.find?_append, ht]
  rfl

/-- The expression of a phrase that is one. -/
def Phrase.expr? : Phrase → Option Expr
  | .expr _ e | .callee e => some e
  | _ => none

theorem Placed.starts {phrase : Phrase} (h : Placed templates phrase ts) {e : Expr}
    (he : phrase.expr? = some e) : ∃ p, e.pos = some p ∧ startOf ts = some p := by
  -- A node that begins with a token of its own.
  have hfirst : ∀ {k : Kind} {t : Token}, t.kind = k → k ≠ .mark .openParen → ∀ us : List Token,
      ∃ p, some t.pos = some p ∧ startOf (t :: us) = some p :=
    fun ht hk us ↦ ⟨_, rfl, startOf_cons_of_ne (ht ▸ hk) us⟩
  -- A node that begins with an operand of its own.
  have hoperand : ∀ {p q : Option Pos} {us vs : List Token},
      (∃ r, q = some r ∧ startOf us = some r) →
      p = startOf (us ++ vs) → ∃ r, p = some r ∧ startOf (us ++ vs) = some r := by
    rintro p q us vs ⟨r, -, hstart⟩ hp
    exact ⟨r, hp.trans (startOf_append hstart vs), startOf_append hstart vs⟩
  have hnot : Kind.mark .openParen ∉ unaryOps ∧ Kind.mark .openParen ∉ updateOps := by decide
  induction h generalizing e with
  | number t ht | string t _ ht | template t _ _ _ ht | trueWord t ht | falseWord t ht
  | nullWord t ht | name t ht | thisWord t ht | calleeName t ht =>
    obtain rfl := Option.some.inj he
    exact hfirst ht (by decide) _
  | object l _ hl | array l _ hl =>
    obtain rfl := Option.some.inj he
    exact hfirst hl (by decide) _
  | new n _ _ hn | newBare n hn =>
    obtain rfl := Option.some.inj he
    exact hfirst hn (by decide) _
  | parentheses l r hl hr _ ih =>
    obtain ⟨p, hp, hstart⟩ := ih he
    exact ⟨p, hp, by rw [startOf_cons_of_eq hl, startOf_append hstart]⟩
  | member d n hd hn _ hp ih | calleeMember d n hd hn _ hp ih | updateAfter op hop _ hp ih =>
    obtain rfl := Option.some.inj he
    exact hoperand (ih rfl) hp
  | index l r hl hr _ _ hp ih | call l r hl hr _ _ hp ih =>
    obtain rfl := Option.some.inj he
    exact hoperand (ih rfl) hp
  | updateBefore op hop =>
    obtain rfl := Option.some.inj he
    exact hfirst rfl (fun h ↦ hnot.2 (h ▸ hop)) _
  | unary op hop =>
    obtain rfl := Option.some.inj he
    exact hfirst rfl (fun h ↦ hnot.1 (h ▸ hop)) _
  | binary op hlevels hop _ _ hp ih =>
    obtain rfl := Option.some.inj he
    exact hoperand (ih rfl) hp
  | conditional q c hq hc _ _ _ hp ih =>
    obtain rfl := Option.some.inj he
    exact hoperand (ih rfl) hp
  | assign op hop htarget _ _ hp ih =>
    obtain rfl := Option.some.inj he
    exact hoperand (ih rfl) hp
  | toAssignment _ ih | toConditional _ ih | toBinary _ _ ih | toUnary _ ih | toSuffixed _ ih
  | toIndexed _ ih | toChained _ ih => exact ih he
  | _ => cases he

/-- **An expression stands where its first token stands that is not an opening parenthesis.** -/
theorem Placed.pos_eq {phrase : Phrase} (h : Placed templates phrase ts) {e : Expr}
    (he : phrase.expr? = some e) (us : List Token) : e.pos = startOf (ts ++ us) := by
  obtain ⟨p, hp, hstart⟩ := h.starts he
  rw [hp, startOf_append hstart]

end Expressions

/-! ## Statements -/

section Statements

variable (templates : Token → List Text → List Expr → Prop)

/-- An expression, or nothing. -/
inductive PlacedOption : Option Expr → List Token → Prop where
  | absent : PlacedOption none []
  | present {e : Expr} {ts : List Token} (h : Placed templates (.expr .assignment e) ts) :
      PlacedOption (some e) ts

/-- The first value of a variable, if it has one. -/
inductive PlacedValue : Option Expr → List Token → Prop where
  | absent : PlacedValue none []
  | present (a : Token) (ha : a.kind = .mark .assign) {e : Expr} {ts : List Token}
      (h : Placed templates (.expr .assignment e) ts) : PlacedValue (some e) (a :: ts)

/-- The declaration of a variable, without the semicolon. -/
inductive PlacedVariable : Variable → List Token → Prop where
  | declared (w n : Token) (hw : w.kind ∈ declarationWords) (hn : n.kind = .identifier)
      {value : Option Expr} {ts : List Token} (h : PlacedValue templates value ts) :
      PlacedVariable ⟨some w.pos, n.lexeme, value, w.lexeme⟩ (w :: n :: ts)

/-- What a `for` loop does first. -/
inductive PlacedInit : ForInit → List Token → Prop where
  | nothing : PlacedInit .nothing []
  | variable {v : Variable} {ts : List Token} (h : PlacedVariable templates v ts) :
      PlacedInit (.variable v) ts
  | expr {e : Expr} {ts : List Token} (h : Placed templates (.expr .assignment e) ts) :
      PlacedInit (.expr e) ts

/-- The tokens that write a statement which stands where they do. -/
inductive PlacedStmt : Clause → List Token → Prop where
  | lineComment (t : Token) (w : Text) (ht : t.kind = .lineComment) (hw : t.lexeme = .text w) :
      PlacedStmt (.stmt false (.lineComment (some t.pos) (w.drop 2))) [t]
  | blockComment (t : Token) (w : Text) (ht : t.kind = .blockComment) (hw : t.lexeme = .text w) :
      PlacedStmt (.stmt false (.blockComment (some t.pos) (Text.trimEnds 2 w))) [t]
  | importFrom (i m e : Token) (w : Text) (hi : i.kind = .keyword .importWord)
      (hm : m.kind = .string) (hw : m.lexeme = .text w) (he : e.kind = .mark .semicolon)
      {specifiers : List Specifier} {ts : List Token} (h : WrittenImport specifiers ts) :
      PlacedStmt
        (.stmt false (.importFrom (some i.pos) (Text.unescape (Text.trimEnds 1 w)) specifiers))
        (i :: (ts ++ [m, e]))
  | exportDefaultFunction (q : Option Pos) (x d : Token) (hx : x.kind = .keyword .exportWord)
      (hd : d.kind = .keyword .defaultWord) {n : Lexeme} {ps : List Lexeme} {ss : List Stmt}
      {ts : List Token} (h : PlacedStmt (.stmt false (.function q n ps ss)) ts) :
      PlacedStmt (.stmt false (.exportDecl (some x.pos) (.function q n ps ss) [] true))
        (x :: d :: ts)
  | exportDefault (x d e : Token) (hx : x.kind = .keyword .exportWord)
      (hd : d.kind = .keyword .defaultWord) (he : e.kind = .mark .semicolon) {value : Expr}
      {ts : List Token} (h : Placed templates (.expr .assignment value) ts) :
      PlacedStmt (.stmt false (.exportValue (some x.pos) value [] true)) (x :: d :: (ts ++ [e]))
  | exportFunction (q : Option Pos) (x : Token) (hx : x.kind = .keyword .exportWord)
      {n : Lexeme} {ps : List Lexeme} {ss : List Stmt} {ts : List Token}
      (h : PlacedStmt (.stmt false (.function q n ps ss)) ts) :
      PlacedStmt (.stmt false (.exportDecl (some x.pos) (.function q n ps ss) [] false)) (x :: ts)
  | exportVariable (x e : Token) (hx : x.kind = .keyword .exportWord)
      (he : e.kind = .mark .semicolon) {v : Variable} {ts : List Token}
      (h : PlacedVariable templates v ts) :
      PlacedStmt (.stmt false (.exportDecl (some x.pos) (.variable v) [] false))
        (x :: (ts ++ [e]))
  | exportNames (x l r e : Token) (hx : x.kind = .keyword .exportWord)
      (hl : l.kind = .mark .openBrace) (hr : r.kind = .mark .closeBrace)
      (he : e.kind = .mark .semicolon) {ns : List Lexeme} {ts : List Token}
      (h : WrittenListed WrittenExported ns ts) :
      PlacedStmt (.stmt false (.exportNames (some x.pos) ns false)) (x :: l :: (ts ++ [r, e]))
  | variable (e : Token) (he : e.kind = .mark .semicolon) {v : Variable} {ts : List Token}
      (h : PlacedVariable templates v ts) : PlacedStmt (.stmt false (.variable v)) (ts ++ [e])
  | print (w e : Token) (hw : w.kind = .keyword .printWord) (he : e.kind = .mark .semicolon)
      {es : List Expr} {ts : List Token} (h : Placed templates (.items es) ts) :
      PlacedStmt (.stmt false (.output (some w.pos) .print es)) (w :: (ts ++ [e]))
  | console (w l r e : Token) (hw : w.kind = .consoleLog) (hl : l.kind = .mark .openParen)
      (hr : r.kind = .mark .closeParen) (he : e.kind = .mark .semicolon) {es : List Expr}
      {ts : List Token} (h : Placed templates (.arguments es) ts) :
      PlacedStmt (.stmt false (.output (some w.pos) .console es)) (w :: l :: (ts ++ [r, e]))
  | function (f n l r o c : Token) (hf : f.kind = .keyword .functionWord)
      (hn : n.kind = .identifier) (hl : l.kind = .mark .openParen) (hr : r.kind = .mark .closeParen)
      (ho : o.kind = .mark .openBrace) (hc : c.kind = .mark .closeBrace) {ps : List Lexeme}
      {ss : List Stmt} {ts us : List Token} (hps : WrittenParameters ps ts)
      (hss : PlacedStmt (.stmts ss) us) :
      PlacedStmt (.stmt false (.function (some f.pos) n.lexeme ps ss))
        (f :: n :: l :: (ts ++ r :: o :: (us ++ [c])))
  | ret (w e : Token) (hw : w.kind = .keyword .returnWord) (he : e.kind = .mark .semicolon)
      {value : Option Expr} {ts : List Token} (h : PlacedOption templates value ts) :
      PlacedStmt (.stmt false (.ret (some w.pos) value)) (w :: (ts ++ [e]))
  | ifThen (w l r : Token) (hw : w.kind = .keyword .ifWord) (hl : l.kind = .mark .openParen)
      (hr : r.kind = .mark .closeParen) {ajar : Bool} {test : Expr} {yes : List Stmt}
      {ts us : List Token} (htest : Placed templates (.expr .assignment test) ts)
      (hyes : PlacedStmt (.body ajar yes) us) :
      PlacedStmt (.stmt true (.ifThen (some w.pos) test yes)) (w :: l :: (ts ++ r :: us))
  | ifElse (w l r x : Token) (hw : w.kind = .keyword .ifWord) (hl : l.kind = .mark .openParen)
      (hr : r.kind = .mark .closeParen) (hx : x.kind = .keyword .elseWord) {ajar : Bool}
      {test : Expr} {yes no : List Stmt} {ts us vs : List Token}
      (htest : Placed templates (.expr .assignment test) ts)
      (hyes : PlacedStmt (.body false yes) us) (hno : PlacedStmt (.body ajar no) vs) :
      PlacedStmt (.stmt ajar (.ifElse (some w.pos) test yes no))
        (w :: l :: (ts ++ r :: (us ++ x :: vs)))
  | forLoop (w l m e r : Token) (hw : w.kind = .keyword .forWord) (hl : l.kind = .mark .openParen)
      (hm : m.kind = .mark .semicolon) (he : e.kind = .mark .semicolon)
      (hr : r.kind = .mark .closeParen) {ajar : Bool} {init : ForInit} {test update : Option Expr}
      {ss : List Stmt} {ts us vs ws : List Token} (hinit : PlacedInit templates init ts)
      (htest : PlacedOption templates test us) (hupdate : PlacedOption templates update vs)
      (hss : PlacedStmt (.body ajar ss) ws) :
      PlacedStmt (.stmt ajar (.forLoop (some w.pos) init test update ss))
        (w :: l :: (ts ++ m :: (us ++ e :: (vs ++ r :: ws))))
  | whileLoop (w l r : Token) (hw : w.kind = .keyword .whileWord) (hl : l.kind = .mark .openParen)
      (hr : r.kind = .mark .closeParen) {ajar : Bool} {test : Expr} {ss : List Stmt}
      {ts us : List Token} (htest : Placed templates (.expr .assignment test) ts)
      (hss : PlacedStmt (.body ajar ss) us) :
      PlacedStmt (.stmt ajar (.whileLoop (some w.pos) test ss)) (w :: l :: (ts ++ r :: us))
  | breakLoop (w e : Token) (hw : w.kind = .keyword .breakWord) (he : e.kind = .mark .semicolon) :
      PlacedStmt (.stmt false (.breakLoop (some w.pos))) [w, e]
  | continueLoop (w e : Token) (hw : w.kind = .keyword .continueWord)
      (he : e.kind = .mark .semicolon) :
      PlacedStmt (.stmt false (.continueLoop (some w.pos))) [w, e]
  | expr (e : Token) (he : e.kind = .mark .semicolon) {value : Expr} {t : Token} {ts : List Token}
      (h : Placed templates (.expr .assignment value) (t :: ts)) :
      PlacedStmt (.stmt false (.expr (some t.pos) value)) (t :: (ts ++ [e]))
  | nil : PlacedStmt (.stmts []) []
  | cons {ajar : Bool} {s : Stmt} {ss : List Stmt} {ts us : List Token}
      (hs : PlacedStmt (.stmt ajar s) ts) (hss : PlacedStmt (.stmts ss) us) :
      PlacedStmt (.stmts (s :: ss)) (ts ++ us)
  | braces (l r : Token) (hl : l.kind = .mark .openBrace) (hr : r.kind = .mark .closeBrace)
      {ss : List Stmt} {ts : List Token} (hss : PlacedStmt (.stmts ss) ts) :
      PlacedStmt (.body false ss) (l :: (ts ++ [r]))
  | single {ajar : Bool} {s : Stmt} {t : Token} {ts : List Token} (ht : t.kind ≠ .mark .openBrace)
      (hs : PlacedStmt (.stmt ajar s) (t :: ts)) : PlacedStmt (.body ajar [s]) (t :: ts)

end Statements

section Statements

variable {templates : Token → List Text → List Expr → Prop}
  {templates' : Text → List Text → List Expr → Prop}
  (htemplates : ∀ t w cs hs, t.lexeme = .text w → templates t cs hs → templates' w cs hs)
  {ts : List Token}

include htemplates

theorem PlacedOption.written {v : Option Expr} (h : PlacedOption templates v ts) :
    WrittenOption templates' v ts := by
  cases h with
  | absent => exact .absent
  | present h => exact .present (h.written htemplates)

theorem PlacedVariable.written {v : Variable} (h : PlacedVariable templates v ts) :
    WrittenVariable templates' v ts := by
  cases h with
  | declared w n hw hn h =>
    refine .declared _ w n hw hn ?_
    cases h with
    | absent => exact .absent
    | present a ha h => exact .present a ha (h.written htemplates)

theorem PlacedInit.written {i : ForInit} (h : PlacedInit templates i ts) :
    WrittenInit templates' i ts := by
  cases h with
  | nothing => exact .nothing
  | «variable» h => exact .variable (h.written htemplates)
  | expr h => exact .expr (h.written htemplates)

/-- What is written and placed is written. -/
theorem PlacedStmt.written {clause : Clause} (h : PlacedStmt templates clause ts) :
    WrittenStmt templates' clause ts := by
  induction h with
  | lineComment t w ht hw => exact .lineComment _ t w ht hw
  | blockComment t w ht hw => exact .blockComment _ t w ht hw
  | importFrom i m e w hi hm hw he h => exact .importFrom _ i m e w hi hm hw he h
  | exportDefaultFunction q x d hx hd _ ih => exact .exportDefaultFunction _ q x d hx hd ih
  | exportDefault x d e hx hd he h =>
    exact .exportDefault _ x d e hx hd he (h.written htemplates)
  | exportFunction q x hx _ ih => exact .exportFunction _ q x hx ih
  | exportVariable x e hx he h => exact .exportVariable _ x e hx he (h.written htemplates)
  | exportNames x l r e hx hl hr he h => exact .exportNames _ x l r e hx hl hr he h
  | «variable» e he h => exact .variable e he (h.written htemplates)
  | print w e hw he h => exact .print _ w e hw he (h.written htemplates)
  | console w l r e hw hl hr he h => exact .console _ w l r e hw hl hr he (h.written htemplates)
  | function f n l r o c hf hn hl hr ho hc hps _ ih =>
    exact .function _ f n l r o c hf hn hl hr ho hc hps ih
  | ret w e hw he h => exact .ret _ w e hw he (h.written htemplates)
  | ifThen w l r hw hl hr htest _ ih =>
    exact .ifThen _ w l r hw hl hr (htest.written htemplates) ih
  | ifElse w l r x hw hl hr hx htest _ _ ihyes ihno =>
    exact .ifElse _ w l r x hw hl hr hx (htest.written htemplates) ihyes ihno
  | forLoop w l m e r hw hl hm he hr hinit htest hupdate _ ih =>
    exact .forLoop _ w l m e r hw hl hm he hr (hinit.written htemplates)
      (htest.written htemplates) (hupdate.written htemplates) ih
  | whileLoop w l r hw hl hr htest _ ih =>
    exact .whileLoop _ w l r hw hl hr (htest.written htemplates) ih
  | breakLoop w e hw he => exact .breakLoop _ w e hw he
  | continueLoop w e hw he => exact .continueLoop _ w e hw he
  | expr e he h => exact .expr _ e he (h.written htemplates)
  | nil => exact .nil
  | cons _ _ ihs ihss => exact .cons ihs ihss
  | braces l r hl hr _ ih => exact .braces l r hl hr ih
  | single ht _ ih => exact .single ht ih

end Statements

section Statements

variable {templates : Token → List Text → List Expr → Prop} {ts : List Token}

/-- **A statement stands at its first token.** -/
theorem PlacedStmt.pos_eq {ajar : Bool} {s : Stmt} (h : PlacedStmt templates (.stmt ajar s) ts) :
    s.pos = ts.head?.map Token.pos := by
  cases h with
  | «variable» _ _ h => cases h; rfl
  | _ => rfl

end Statements

end Advplc.Grammar
