import Advplc.Grammar.Statement
import Advplc.Proofs.Script.Bare

/-!
# How programs are written

The grammar once more, as a relation: `Written` says which lists of tokens write an expression, and
`WrittenStmt` which ones write a statement.  Nothing is read here, so nothing has to be decided by
the next token; a tree has many writings, which differ in parentheses, in braces around a single
statement, and in a comma behind the last item of a list.

Positions are not part of the relation, neither those of the tokens nor those of the tree.  Apart
from them `Advplc.Proofs.Grammar.Completeness` shows that a writing of a tree is parsed to that
tree, and `Advplc.Proofs.Grammar.Soundness` that only writings are parsed.

## Slots

An expression is written for a `Slot`, a place that expressions binding tightly enough may take.
The slots are ordered from the loosest to the tightest.  Each node belongs to one slot and says in
which slots its operands stand; one rule after another lets a slot take what the next tighter slot
takes, and the last one takes any expression in parentheses.

The levels of the binary operators are one slot each, named by the levels from there on.  The slot
`binary []` is that of the operands of the tightest binary operators.
-/

set_option autoImplicit false

namespace Advplc.Grammar

open Script

/-! ## Expressions -/

/-- The places in which an expression can stand, the loosest first. -/
inductive Slot where
  | assignment
  | conditional
  /-- An operand of an operator that is looser than all of `levels`. -/
  | binary (levels : List (List Kind))
  /-- Behind the operators in front. -/
  | suffixed
  /-- Before a bracket or an update operator. -/
  | indexed
  /-- Before a point or an argument list as well. -/
  | chained
  | primary

/-- What is written: an expression in a slot, or a part of one. -/
inductive Phrase where
  | expr (slot : Slot) (e : Expr)
  /-- The callee of `new`. -/
  | callee (e : Expr)
  /-- What stands between the parentheses of a call. -/
  | arguments (es : List Expr)
  /-- Expressions with commas between them, at least one. -/
  | items (es : List Expr)
  /-- What stands between the brackets of an array. -/
  | elements (es : List Expr)
  | property (key : Lexeme) (value : Expr)
  /-- What stands between the braces of an object. -/
  | properties (ps : List (Lexeme × Expr))

/-- Whether a token can be the name of a property: an identifier, or anything that has the form of a
name. -/
def Token.NamesProperty (t : Token) : Prop :=
  t.kind = .identifier ∨ ∃ w, t.lexeme = .text w ∧ w.isName = true

/-- Whether a token writes the key of a property: a string, a numeral, or a name that does not close
the object. -/
inductive WritesKey (t : Token) : Lexeme → Prop where
  | string (w : Text) (ht : t.kind = .string) (hw : t.lexeme = .text w) :
      WritesKey t (.text (Text.unescape (Text.trimEnds 1 w)))
  | number (ht : t.kind = .number) : WritesKey t t.lexeme
  | name (ht : Token.NamesProperty t)
      (hkind : t.kind ∉ [Kind.string, .number, .mark .closeBrace]) : WritesKey t t.lexeme

/-- The tokens that write an expression.  `templates` says which chunks and holes a template
stands for. -/
inductive Written (templates : Text → List Text → List Expr → Prop) :
    Phrase → List Token → Prop where
  -- Literals, names, and what is closed off by its own marks.
  | number (p : Option Pos) (t : Token) (ht : t.kind = .number) :
      Written templates (.expr .primary (.number p t.lexeme)) [t]
  | string (p : Option Pos) (t : Token) (w : Text) (ht : t.kind = .string)
      (hw : t.lexeme = .text w) :
      Written templates (.expr .primary (.string p (Text.unescape (Text.trimEnds 1 w)))) [t]
  | template (p : Option Pos) (t : Token) (w : Text) (chunks : List Text) (holes : List Expr)
      (ht : t.kind = .template) (hw : t.lexeme = .text w) (hholes : templates w chunks holes) :
      Written templates (.expr .primary (.template p chunks holes)) [t]
  | trueWord (p : Option Pos) (t : Token) (ht : t.kind = .identifier) (hw : t.lexeme = "true") :
      Written templates (.expr .primary (.boolean p true)) [t]
  | falseWord (p : Option Pos) (t : Token) (ht : t.kind = .identifier) (hw : t.lexeme = "false") :
      Written templates (.expr .primary (.boolean p false)) [t]
  | nullWord (p : Option Pos) (t : Token) (ht : t.kind = .identifier)
      (hw : t.lexeme = "null" ∨ t.lexeme = "undefined") :
      Written templates (.expr .primary (.null p)) [t]
  | name (p : Option Pos) (t : Token) (ht : t.kind = .identifier)
      (hw : t.lexeme ∉ (["true", "false", "null", "undefined"] : List Lexeme)) :
      Written templates (.expr .primary (.name p t.lexeme)) [t]
  | thisWord (p : Option Pos) (t : Token) (ht : t.kind = .keyword .thisWord) :
      Written templates (.expr .primary (.this p)) [t]
  | object (p : Option Pos) (l r : Token) (hl : l.kind = .mark .openBrace)
      (hr : r.kind = .mark .closeBrace) {ps : List (Lexeme × Expr)} {ts : List Token}
      (hps : Written templates (.properties ps) ts) :
      Written templates (.expr .primary (.object p ps)) (l :: (ts ++ [r]))
  | array (p : Option Pos) (l r : Token) (hl : l.kind = .mark .openBracket)
      (hr : r.kind = .mark .closeBracket) {es : List Expr} {ts : List Token}
      (hes : Written templates (.elements es) ts) :
      Written templates (.expr .primary (.array p es)) (l :: (ts ++ [r]))
  | new (p : Option Pos) (n l r : Token) (hn : n.kind = .keyword .newWord)
      (hl : l.kind = .mark .openParen) (hr : r.kind = .mark .closeParen) {e : Expr}
      {es : List Expr} {ts us : List Token} (he : Written templates (.callee e) ts)
      (hes : Written templates (.arguments es) us) :
      Written templates (.expr .primary (.new p e es)) (n :: (ts ++ l :: (us ++ [r])))
  | parentheses (l r : Token) (hl : l.kind = .mark .openParen) (hr : r.kind = .mark .closeParen)
      {e : Expr} {ts : List Token} (he : Written templates (.expr .assignment e) ts) :
      Written templates (.expr .primary e) (l :: (ts ++ [r]))
  -- Suffixes.  A `new` without arguments would take a point or an argument list for its own.
  | newBare (p : Option Pos) (n : Token) (hn : n.kind = .keyword .newWord) {e : Expr}
      {ts : List Token} (he : Written templates (.callee e) ts) :
      Written templates (.expr .indexed (.new p e [])) (n :: ts)
  | member (p q : Option Pos) (d n : Token) (hd : d.kind = .mark .dot)
      (hn : Token.NamesProperty n) {e : Expr} {ts : List Token}
      (he : Written templates (.expr .chained e) ts) :
      Written templates (.expr .chained (.member p e n.lexeme q)) (ts ++ [d, n])
  | index (p : Option Pos) (l r : Token) (hl : l.kind = .mark .openBracket)
      (hr : r.kind = .mark .closeBracket) {e k : Expr} {ts us : List Token}
      (he : Written templates (.expr .indexed e) ts)
      (hk : Written templates (.expr .assignment k) us) :
      Written templates (.expr .chained (.index p e k)) (ts ++ l :: (us ++ [r]))
  | call (p : Option Pos) (l r : Token) (hl : l.kind = .mark .openParen)
      (hr : r.kind = .mark .closeParen) {e : Expr} {es : List Expr} {ts us : List Token}
      (he : Written templates (.expr .chained e) ts)
      (hes : Written templates (.arguments es) us) :
      Written templates (.expr .chained (.call p e es)) (ts ++ l :: (us ++ [r]))
  | updateAfter (p : Option Pos) (op : Token) (hop : op.kind ∈ updateOps) {e : Expr}
      {ts : List Token} (he : Written templates (.expr .indexed e) ts) :
      Written templates (.expr .suffixed (.update p op.lexeme .after e)) (ts ++ [op])
  -- Operators in front, between two operands, and between three.
  | updateBefore (p : Option Pos) (op : Token) (hop : op.kind ∈ updateOps) {e : Expr}
      {ts : List Token} (he : Written templates (.expr (.binary []) e) ts) :
      Written templates (.expr (.binary []) (.update p op.lexeme .before e)) (op :: ts)
  | unary (p : Option Pos) (op : Token) (hop : op.kind ∈ unaryOps) {e : Expr} {ts : List Token}
      (he : Written templates (.expr (.binary []) e) ts) :
      Written templates (.expr (.binary []) (.unary p op.lexeme e)) (op :: ts)
  | binary (p : Option Pos) (op : Token) {ops : List Kind} {tighter : List (List Kind)}
      (hlevels : ops :: tighter <:+ binaryLevels) (hop : op.kind ∈ ops) {l r : Expr}
      {ts us : List Token} (hl : Written templates (.expr (.binary (ops :: tighter)) l) ts)
      (hr : Written templates (.expr (.binary tighter) r) us) :
      Written templates (.expr (.binary (ops :: tighter)) (.binary p op.lexeme l r))
        (ts ++ op :: us)
  | conditional (p : Option Pos) (q c : Token) (hq : q.kind = .mark .question)
      (hc : c.kind = .mark .colon) {test yes no : Expr} {ts us vs : List Token}
      (htest : Written templates (.expr (.binary binaryLevels) test) ts)
      (hyes : Written templates (.expr .assignment yes) us)
      (hno : Written templates (.expr .assignment no) vs) :
      Written templates (.expr .conditional (.conditional p test yes no))
        (ts ++ q :: (us ++ c :: vs))
  | assign (p : Option Pos) (op : Token) (hop : op.kind ∈ assignmentOps) {target value : Expr}
      (htarget : isTarget target = true) {ts us : List Token}
      (hleft : Written templates (.expr (.binary binaryLevels) target) ts)
      (hvalue : Written templates (.expr .assignment value) us) :
      Written templates (.expr .assignment (.assign p op.lexeme target value)) (ts ++ op :: us)
  -- Each slot takes what the next tighter one takes.
  | toAssignment {e : Expr} {ts : List Token} (h : Written templates (.expr .conditional e) ts) :
      Written templates (.expr .assignment e) ts
  | toConditional {e : Expr} {ts : List Token}
      (h : Written templates (.expr (.binary binaryLevels) e) ts) :
      Written templates (.expr .conditional e) ts
  | toBinary {ops : List Kind} {tighter : List (List Kind)}
      (hlevels : ops :: tighter <:+ binaryLevels) {e : Expr} {ts : List Token}
      (h : Written templates (.expr (.binary tighter) e) ts) :
      Written templates (.expr (.binary (ops :: tighter)) e) ts
  | toUnary {e : Expr} {ts : List Token} (h : Written templates (.expr .suffixed e) ts) :
      Written templates (.expr (.binary []) e) ts
  | toSuffixed {e : Expr} {ts : List Token} (h : Written templates (.expr .indexed e) ts) :
      Written templates (.expr .suffixed e) ts
  | toIndexed {e : Expr} {ts : List Token} (h : Written templates (.expr .chained e) ts) :
      Written templates (.expr .indexed e) ts
  | toChained {e : Expr} {ts : List Token} (h : Written templates (.expr .primary e) ts) :
      Written templates (.expr .chained e) ts
  -- The parts of expressions.
  | calleeName (p : Option Pos) (t : Token) (ht : t.kind = .identifier) :
      Written templates (.callee (.name p t.lexeme)) [t]
  | calleeMember (p q : Option Pos) (d n : Token) (hd : d.kind = .mark .dot)
      (hn : Token.NamesProperty n) {e : Expr} {ts : List Token}
      (he : Written templates (.callee e) ts) :
      Written templates (.callee (.member p e n.lexeme q)) (ts ++ [d, n])
  | noArguments : Written templates (.arguments []) []
  | someArguments {es : List Expr} {ts : List Token} (hes : Written templates (.items es) ts) :
      Written templates (.arguments es) ts
  | lastItem {e : Expr} {ts : List Token} (he : Written templates (.expr .assignment e) ts) :
      Written templates (.items [e]) ts
  | moreItems (c : Token) (hc : c.kind = .mark .comma) {e : Expr} {es : List Expr}
      {ts us : List Token} (he : Written templates (.expr .assignment e) ts)
      (hes : Written templates (.items es) us) :
      Written templates (.items (e :: es)) (ts ++ c :: us)
  | noElements : Written templates (.elements []) []
  | lastElement {e : Expr} {ts : List Token} (he : Written templates (.expr .assignment e) ts) :
      Written templates (.elements [e]) ts
  | moreElements (c : Token) (hc : c.kind = .mark .comma) {e : Expr} {es : List Expr}
      {ts us : List Token} (he : Written templates (.expr .assignment e) ts)
      (hes : Written templates (.elements es) us) :
      Written templates (.elements (e :: es)) (ts ++ c :: us)
  | keyed (k c : Token) (hc : c.kind = .mark .colon) {key : Lexeme} (hk : WritesKey k key)
      {e : Expr} {ts : List Token} (he : Written templates (.expr .assignment e) ts) :
      Written templates (.property key e) (k :: c :: ts)
  | shorthand (p : Option Pos) (t : Token) (ht : t.kind = .identifier) :
      Written templates (.property t.lexeme (.name p t.lexeme)) [t]
  | noProperties : Written templates (.properties []) []
  | lastProperty {k : Lexeme} {e : Expr} {ts : List Token}
      (h : Written templates (.property k e) ts) : Written templates (.properties [(k, e)]) ts
  | moreProperties (c : Token) (hc : c.kind = .mark .comma) {k : Lexeme} {e : Expr}
      {ps : List (Lexeme × Expr)} {ts us : List Token} (h : Written templates (.property k e) ts)
      (hps : Written templates (.properties ps) us) :
      Written templates (.properties ((k, e) :: ps)) (ts ++ c :: us)

/-! ## Lists with commas -/

section Lists

variable {α : Type}

/-- One or more items with commas between them. -/
inductive WrittenSeparated (item : α → List Token → Prop) : List α → List Token → Prop where
  | last {a : α} {ts : List Token} (ha : item a ts) : WrittenSeparated item [a] ts
  | more (c : Token) (hc : c.kind = .mark .comma) {a : α} {as : List α} {ts us : List Token}
      (ha : item a ts) (has : WrittenSeparated item as us) :
      WrittenSeparated item (a :: as) (ts ++ c :: us)

/-- Items with commas between them, and possibly one behind the last. -/
inductive WrittenListed (item : α → List Token → Prop) : List α → List Token → Prop where
  | nil : WrittenListed item [] []
  | last {a : α} {ts : List Token} (ha : item a ts) : WrittenListed item [a] ts
  | more (c : Token) (hc : c.kind = .mark .comma) {a : α} {as : List α} {ts us : List Token}
      (ha : item a ts) (has : WrittenListed item as us) :
      WrittenListed item (a :: as) (ts ++ c :: us)

theorem WrittenSeparated.imp {item item' : α → List Token → Prop}
    (h : ∀ a ts, item a ts → item' a ts) {as : List α} {ts : List Token}
    (has : WrittenSeparated item as ts) : WrittenSeparated item' as ts := by
  induction has with
  | last ha => exact .last (h _ _ ha)
  | more c hc ha _ ih => exact .more c hc (h _ _ ha) ih

theorem WrittenListed.imp {item item' : α → List Token → Prop}
    (h : ∀ a ts, item a ts → item' a ts) {as : List α} {ts : List Token}
    (has : WrittenListed item as ts) : WrittenListed item' as ts := by
  induction has with
  | nil => exact .nil
  | last ha => exact .last (h _ _ ha)
  | more c hc ha _ ih => exact .more c hc (h _ _ ha) ih

end Lists

/-! ## Statements -/

section Statements

/-- A name, and another name for it behind the word `as`. -/
inductive WrittenRenamed : Lexeme × Option Lexeme → List Token → Prop where
  | plain (n : Token) (hn : n.kind = .identifier) : WrittenRenamed (n.lexeme, none) [n]
  | another (n a m : Token) (hn : n.kind = .identifier) (ha : a.kind = .identifier)
      (has : a.lexeme = "as") (hm : m.kind = .identifier) :
      WrittenRenamed (n.lexeme, some m.lexeme) [n, a, m]

/-- A name that is imported by its name. -/
inductive WrittenSpecifier : Specifier → List Token → Prop where
  | named {x : Lexeme × Option Lexeme} {ts : List Token} (h : WrittenRenamed x ts) :
      WrittenSpecifier ⟨"named", x.1, x.2.getD x.1⟩ ts

/-- A name of an export list. -/
inductive WrittenExported : Lexeme → List Token → Prop where
  | plain {n : Lexeme} {ts : List Token} (h : WrittenRenamed (n, none) ts) : WrittenExported n ts
  | another {n a : Lexeme} {ts : List Token} (h : WrittenRenamed (n, some a) ts) :
      WrittenExported (.text (n.spelled ++ " as " ++ a.spelled)) ts

/-- What is imported besides the default: names between braces, or the whole module. -/
inductive WrittenFurther : List Specifier → List Token → Prop where
  | named (l r : Token) (hl : l.kind = .mark .openBrace) (hr : r.kind = .mark .closeBrace)
      {specifiers : List Specifier} {ts : List Token}
      (h : WrittenListed WrittenSpecifier specifiers ts) :
      WrittenFurther specifiers (l :: (ts ++ [r]))
  | module (s a n : Token) (hs : s.kind = .mark .star) (ha : a.kind = .identifier)
      (has : a.lexeme = "as") (hn : n.kind = .identifier) :
      WrittenFurther [⟨"namespace", "*", n.lexeme⟩] [s, a, n]

/-- What is imported, up to the path of the module. -/
inductive WrittenImport : List Specifier → List Token → Prop where
  | nothing : WrittenImport [] []
  | further (f : Token) (hf : f.kind = .keyword .fromWord) {specifiers : List Specifier}
      {ts : List Token} (h : WrittenFurther specifiers ts) : WrittenImport specifiers (ts ++ [f])
  | default (n f : Token) (hn : n.kind = .identifier) (hf : f.kind = .keyword .fromWord) :
      WrittenImport [⟨"default", n.lexeme, n.lexeme⟩] [n, f]
  | both (n c f : Token) (hn : n.kind = .identifier) (hc : c.kind = .mark .comma)
      (hf : f.kind = .keyword .fromWord) {specifiers : List Specifier} {ts : List Token}
      (h : WrittenFurther specifiers ts) :
      WrittenImport (⟨"default", n.lexeme, n.lexeme⟩ :: specifiers) (n :: c :: (ts ++ [f]))

/-- The name of a parameter. -/
inductive WrittenParameter : Lexeme → List Token → Prop where
  | name (t : Token) (ht : t.kind = .identifier) : WrittenParameter t.lexeme [t]

/-- What stands between the parentheses of a function. -/
inductive WrittenParameters : List Lexeme → List Token → Prop where
  | empty : WrittenParameters [] []
  | nonempty {ps : List Lexeme} {ts : List Token} (h : WrittenSeparated WrittenParameter ps ts) :
      WrittenParameters ps ts

variable (templates : Text → List Text → List Expr → Prop)

/-- An expression, or nothing. -/
inductive WrittenOption : Option Expr → List Token → Prop where
  | absent : WrittenOption none []
  | present {e : Expr} {ts : List Token} (h : Written templates (.expr .assignment e) ts) :
      WrittenOption (some e) ts

/-- The first value of a variable, if it has one. -/
inductive WrittenValue : Option Expr → List Token → Prop where
  | absent : WrittenValue none []
  | present (a : Token) (ha : a.kind = .mark .assign) {e : Expr} {ts : List Token}
      (h : Written templates (.expr .assignment e) ts) : WrittenValue (some e) (a :: ts)

/-- The declaration of a variable, without the semicolon. -/
inductive WrittenVariable : Variable → List Token → Prop where
  | declared (p : Option Pos) (w n : Token) (hw : w.kind ∈ declarationWords)
      (hn : n.kind = .identifier) {value : Option Expr} {ts : List Token}
      (h : WrittenValue templates value ts) :
      WrittenVariable ⟨p, n.lexeme, value, w.lexeme⟩ (w :: n :: ts)

/-- What a `for` loop does first. -/
inductive WrittenInit : ForInit → List Token → Prop where
  | nothing : WrittenInit .nothing []
  | variable {v : Variable} {ts : List Token} (h : WrittenVariable templates v ts) :
      WrittenInit (.variable v) ts
  | expr {e : Expr} {ts : List Token} (h : Written templates (.expr .assignment e) ts) :
      WrittenInit (.expr e) ts

/-- What is written: a statement, a list of statements, or the body of a branch or a loop.  What is
`ajar` ends with an `if` that would take an `else` for its own. -/
inductive Clause where
  | stmt (ajar : Bool) (s : Stmt)
  | stmts (ss : List Stmt)
  | body (ajar : Bool) (ss : List Stmt)

/-- The tokens that write a statement. -/
inductive WrittenStmt : Clause → List Token → Prop where
  | lineComment (p : Option Pos) (t : Token) (w : Text) (ht : t.kind = .lineComment)
      (hw : t.lexeme = .text w) : WrittenStmt (.stmt false (.lineComment p (w.drop 2))) [t]
  | blockComment (p : Option Pos) (t : Token) (w : Text) (ht : t.kind = .blockComment)
      (hw : t.lexeme = .text w) :
      WrittenStmt (.stmt false (.blockComment p (Text.trimEnds 2 w))) [t]
  | importFrom (p : Option Pos) (i m e : Token) (w : Text) (hi : i.kind = .keyword .importWord)
      (hm : m.kind = .string) (hw : m.lexeme = .text w) (he : e.kind = .mark .semicolon)
      {specifiers : List Specifier} {ts : List Token} (h : WrittenImport specifiers ts) :
      WrittenStmt (.stmt false (.importFrom p (Text.unescape (Text.trimEnds 1 w)) specifiers))
        (i :: (ts ++ [m, e]))
  | exportDefaultFunction (p q : Option Pos) (x d : Token) (hx : x.kind = .keyword .exportWord)
      (hd : d.kind = .keyword .defaultWord) {n : Lexeme} {ps : List Lexeme} {ss : List Stmt}
      {ts : List Token} (h : WrittenStmt (.stmt false (.function q n ps ss)) ts) :
      WrittenStmt (.stmt false (.exportDecl p (.function q n ps ss) [] true)) (x :: d :: ts)
  | exportDefault (p : Option Pos) (x d e : Token) (hx : x.kind = .keyword .exportWord)
      (hd : d.kind = .keyword .defaultWord) (he : e.kind = .mark .semicolon) {value : Expr}
      {ts : List Token} (h : Written templates (.expr .assignment value) ts) :
      WrittenStmt (.stmt false (.exportValue p value [] true)) (x :: d :: (ts ++ [e]))
  | exportFunction (p q : Option Pos) (x : Token) (hx : x.kind = .keyword .exportWord)
      {n : Lexeme} {ps : List Lexeme} {ss : List Stmt} {ts : List Token}
      (h : WrittenStmt (.stmt false (.function q n ps ss)) ts) :
      WrittenStmt (.stmt false (.exportDecl p (.function q n ps ss) [] false)) (x :: ts)
  | exportVariable (p : Option Pos) (x e : Token) (hx : x.kind = .keyword .exportWord)
      (he : e.kind = .mark .semicolon) {v : Variable} {ts : List Token}
      (h : WrittenVariable templates v ts) :
      WrittenStmt (.stmt false (.exportDecl p (.variable v) [] false)) (x :: (ts ++ [e]))
  | exportNames (p : Option Pos) (x l r e : Token) (hx : x.kind = .keyword .exportWord)
      (hl : l.kind = .mark .openBrace) (hr : r.kind = .mark .closeBrace)
      (he : e.kind = .mark .semicolon) {ns : List Lexeme} {ts : List Token}
      (h : WrittenListed WrittenExported ns ts) :
      WrittenStmt (.stmt false (.exportNames p ns false)) (x :: l :: (ts ++ [r, e]))
  | variable (e : Token) (he : e.kind = .mark .semicolon) {v : Variable} {ts : List Token}
      (h : WrittenVariable templates v ts) : WrittenStmt (.stmt false (.variable v)) (ts ++ [e])
  | print (p : Option Pos) (w e : Token) (hw : w.kind = .keyword .printWord)
      (he : e.kind = .mark .semicolon) {es : List Expr} {ts : List Token}
      (h : Written templates (.items es) ts) :
      WrittenStmt (.stmt false (.output p .print es)) (w :: (ts ++ [e]))
  | console (p : Option Pos) (w l r e : Token) (hw : w.kind = .consoleLog)
      (hl : l.kind = .mark .openParen) (hr : r.kind = .mark .closeParen)
      (he : e.kind = .mark .semicolon) {es : List Expr} {ts : List Token}
      (h : Written templates (.arguments es) ts) :
      WrittenStmt (.stmt false (.output p .console es)) (w :: l :: (ts ++ [r, e]))
  | function (p : Option Pos) (f n l r o c : Token) (hf : f.kind = .keyword .functionWord)
      (hn : n.kind = .identifier) (hl : l.kind = .mark .openParen) (hr : r.kind = .mark .closeParen)
      (ho : o.kind = .mark .openBrace) (hc : c.kind = .mark .closeBrace) {ps : List Lexeme}
      {ss : List Stmt} {ts us : List Token} (hps : WrittenParameters ps ts)
      (hss : WrittenStmt (.stmts ss) us) :
      WrittenStmt (.stmt false (.function p n.lexeme ps ss))
        (f :: n :: l :: (ts ++ r :: o :: (us ++ [c])))
  | ret (p : Option Pos) (w e : Token) (hw : w.kind = .keyword .returnWord)
      (he : e.kind = .mark .semicolon) {value : Option Expr} {ts : List Token}
      (h : WrittenOption templates value ts) :
      WrittenStmt (.stmt false (.ret p value)) (w :: (ts ++ [e]))
  | ifThen (p : Option Pos) (w l r : Token) (hw : w.kind = .keyword .ifWord)
      (hl : l.kind = .mark .openParen) (hr : r.kind = .mark .closeParen) {ajar : Bool} {test : Expr}
      {yes : List Stmt} {ts us : List Token} (htest : Written templates (.expr .assignment test) ts)
      (hyes : WrittenStmt (.body ajar yes) us) :
      WrittenStmt (.stmt true (.ifThen p test yes)) (w :: l :: (ts ++ r :: us))
  | ifElse (p : Option Pos) (w l r x : Token) (hw : w.kind = .keyword .ifWord)
      (hl : l.kind = .mark .openParen) (hr : r.kind = .mark .closeParen)
      (hx : x.kind = .keyword .elseWord) {ajar : Bool} {test : Expr} {yes no : List Stmt}
      {ts us vs : List Token} (htest : Written templates (.expr .assignment test) ts)
      (hyes : WrittenStmt (.body false yes) us) (hno : WrittenStmt (.body ajar no) vs) :
      WrittenStmt (.stmt ajar (.ifElse p test yes no)) (w :: l :: (ts ++ r :: (us ++ x :: vs)))
  | forLoop (p : Option Pos) (w l m e r : Token) (hw : w.kind = .keyword .forWord)
      (hl : l.kind = .mark .openParen) (hm : m.kind = .mark .semicolon)
      (he : e.kind = .mark .semicolon) (hr : r.kind = .mark .closeParen) {ajar : Bool}
      {init : ForInit} {test update : Option Expr} {ss : List Stmt} {ts us vs ws : List Token}
      (hinit : WrittenInit templates init ts) (htest : WrittenOption templates test us)
      (hupdate : WrittenOption templates update vs) (hss : WrittenStmt (.body ajar ss) ws) :
      WrittenStmt (.stmt ajar (.forLoop p init test update ss))
        (w :: l :: (ts ++ m :: (us ++ e :: (vs ++ r :: ws))))
  | whileLoop (p : Option Pos) (w l r : Token) (hw : w.kind = .keyword .whileWord)
      (hl : l.kind = .mark .openParen) (hr : r.kind = .mark .closeParen) {ajar : Bool} {test : Expr}
      {ss : List Stmt} {ts us : List Token} (htest : Written templates (.expr .assignment test) ts)
      (hss : WrittenStmt (.body ajar ss) us) :
      WrittenStmt (.stmt ajar (.whileLoop p test ss)) (w :: l :: (ts ++ r :: us))
  | breakLoop (p : Option Pos) (w e : Token) (hw : w.kind = .keyword .breakWord)
      (he : e.kind = .mark .semicolon) : WrittenStmt (.stmt false (.breakLoop p)) [w, e]
  | continueLoop (p : Option Pos) (w e : Token) (hw : w.kind = .keyword .continueWord)
      (he : e.kind = .mark .semicolon) : WrittenStmt (.stmt false (.continueLoop p)) [w, e]
  | expr (p : Option Pos) (e : Token) (he : e.kind = .mark .semicolon) {value : Expr}
      {ts : List Token} (h : Written templates (.expr .assignment value) ts) :
      WrittenStmt (.stmt false (.expr p value)) (ts ++ [e])
  | nil : WrittenStmt (.stmts []) []
  | cons {ajar : Bool} {s : Stmt} {ss : List Stmt} {ts us : List Token}
      (hs : WrittenStmt (.stmt ajar s) ts) (hss : WrittenStmt (.stmts ss) us) :
      WrittenStmt (.stmts (s :: ss)) (ts ++ us)
  | braces (l r : Token) (hl : l.kind = .mark .openBrace) (hr : r.kind = .mark .closeBrace)
      {ss : List Stmt} {ts : List Token} (hss : WrittenStmt (.stmts ss) ts) :
      WrittenStmt (.body false ss) (l :: (ts ++ [r]))
  -- A brace would be taken for that of a block.
  | single {ajar : Bool} {s : Stmt} {t : Token} {ts : List Token} (ht : t.kind ≠ .mark .openBrace)
      (hs : WrittenStmt (.stmt ajar s) (t :: ts)) : WrittenStmt (.body ajar [s]) (t :: ts)

end Statements

/-! ## What is written holds no foreign thing -/

section Native

variable {templates : Text → List Text → List Expr → Prop} {ts : List Token}

/-- Whether no expression of a phrase holds a foreign thing. -/
def Phrase.native : Phrase → Bool
  | .expr _ e | .callee e | .property _ e => e.native
  | .arguments es | .items es | .elements es => Expr.nativeAll es
  | .properties ps => Expr.nativeProperties ps

/-- Whether no statement of a clause holds a foreign thing. -/
def Clause.native : Clause → Bool
  | .stmt _ s => s.native
  | .stmts ss | .body _ ss => Stmt.nativeAll ss

theorem Written.native (htemplates : ∀ w cs hs, templates w cs hs → Expr.nativeAll hs = true)
    {phrase : Phrase} (h : Written templates phrase ts) : phrase.native = true := by
  induction h with
  | template p t w cs hs ht hw hholes => exact htemplates w cs hs hholes
  | new _ _ _ _ _ _ _ _ _ ihe ihes => simp_all [Phrase.native, Expr.native]
  | index _ _ _ _ _ _ _ ihe ihk => simp_all [Phrase.native, Expr.native]
  | call _ _ _ _ _ _ _ ihe ihes => simp_all [Phrase.native, Expr.native]
  | binary _ _ _ _ _ _ ihl ihr => simp_all [Phrase.native, Expr.native]
  | conditional _ _ _ _ _ _ _ _ iht ihy ihn => simp_all [Phrase.native, Expr.native]
  | assign _ _ _ _ _ _ ihl ihv => simp_all [Phrase.native, Expr.native]
  | newBare _ _ _ _ ih => simp_all [Phrase.native, Expr.native, Expr.nativeAll]
  | lastItem _ ih => simp_all [Phrase.native, Expr.nativeAll]
  | moreItems _ _ _ _ ihe ihes => simp_all [Phrase.native, Expr.nativeAll]
  | lastElement _ ih => simp_all [Phrase.native, Expr.nativeAll]
  | moreElements _ _ _ _ ihe ihes => simp_all [Phrase.native, Expr.nativeAll]
  | lastProperty _ ih => simp_all [Phrase.native, Expr.nativeProperties]
  | moreProperties _ _ _ _ ih ihps => simp_all [Phrase.native, Expr.nativeProperties]
  | _ => first | rfl | assumption

theorem WrittenStmt.native (htemplates : ∀ w cs hs, templates w cs hs → Expr.nativeAll hs = true)
    {clause : Clause} (h : WrittenStmt templates clause ts) : clause.native = true := by
  have hoption : ∀ {v : Option Expr} {us : List Token}, WrittenOption templates v us →
      v.all Expr.native = true := by
    intro v us hv
    cases hv with
    | absent => rfl
    | present he => exact he.native htemplates
  have hvariable : ∀ {v : Variable} {us : List Token}, WrittenVariable templates v us →
      v.value.all Expr.native = true := by
    intro v us hv
    cases hv with
    | declared _ _ _ _ _ hv =>
      cases hv with
      | absent => rfl
      | present _ _ he => exact he.native htemplates
  induction h with
  | exportDefault _ _ _ _ _ _ _ h => exact h.native htemplates
  | exportVariable _ _ _ _ _ h => exact hvariable h
  | «variable» _ _ h => exact hvariable h
  | print _ _ _ _ _ h => exact h.native htemplates
  | console _ _ _ _ _ _ _ _ _ h => exact h.native htemplates
  | ret _ _ _ _ _ h => exact hoption h
  | ifThen _ _ _ _ _ _ _ htest _ ih =>
    have := htest.native htemplates
    simp_all [Clause.native, Stmt.native, Phrase.native]
  | ifElse _ _ _ _ _ _ _ _ _ htest _ _ ihyes ihno =>
    have := htest.native htemplates
    simp_all [Clause.native, Stmt.native, Phrase.native]
  | forLoop _ _ _ _ _ _ _ _ _ _ _ hinit htest hupdate _ ih =>
    have hi : ∀ {i : ForInit} {us : List Token}, WrittenInit templates i us → i.native = true := by
      intro i us hi
      cases hi with
      | nothing => rfl
      | «variable» h => exact hvariable h
      | expr h => exact h.native htemplates
    have := hi hinit
    have := hoption htest
    have := hoption hupdate
    simp_all [Clause.native, Stmt.native]
  | whileLoop _ _ _ _ _ _ _ htest _ ih =>
    have := htest.native htemplates
    simp_all [Clause.native, Stmt.native, Phrase.native]
  | expr _ _ _ h => exact h.native htemplates
  | cons _ _ ihs ihss => simp_all [Clause.native, Stmt.nativeAll]
  | single _ _ ih => simp_all [Clause.native, Stmt.nativeAll]
  | _ => first | rfl | assumption

end Native

end Advplc.Grammar
