import Advplc.Script.Syntax

/-!
# Descriptions of program trees

A tree has two descriptions.  The short one (`shown`) stays close to the source, marks the leaves by
their sort and leaves out the bodies of functions and loops; messages quote it.  The full one
(`inspected`) names every node and every part of it, in a fixed order, positions apart; two trees
that differ in more than positions have different full descriptions.
-/

set_option autoImplicit false

namespace Advplc.Script

/-! ## The shapes that descriptions are made of -/

/-- Items with commas between them. -/
def commas (items : List Text) : Text := Text.joinWith ", " items

/-- Items between parentheses. -/
def parens (items : List Text) : Text := "(" ++ commas items ++ ")"

/-- Items between brackets. -/
def brackets (items : List Text) : Text := "[" ++ commas items ++ "]"

/-- Items between braces, with a space inside each. -/
def block (items : List Text) : Text := "\x7b " ++ commas items ++ " \x7d"

/-- The place of a body that is left out. -/
def hiddenBody : Text := " \x7b…\x7d"

/-- A truth value. -/
def shownBool (b : Bool) : Text := if b then "True" else "False"

/-- One part of a node, `label=description`. -/
def part (label description : Text) : Text := label ++ "=" ++ description

/-- A node of the given sort with its parts. -/
def node (sort : Text) (parts : List Text) : Text := sort ++ parens parts

/-- The description of a part that may be missing. -/
def orNone {α : Type} (f : α → Text) : Option α → Text
  | some a => f a
  | none => "None"

/-! ## Sorts -/

/-- The sort of an expression. -/
def Expr.sort : Expr → Text
  | .number _ _ => "NumberLiteral"
  | .string _ _ => "StringLiteral"
  | .template _ _ _ => "TemplateLiteral"
  | .boolean _ _ => "BooleanLiteral"
  | .null _ => "NullLiteral"
  | .name _ _ => "Identifier"
  | .this _ => "ThisExpr"
  | .binary _ _ _ _ => "BinaryExpr"
  | .unary _ _ _ => "UnaryExpr"
  | .update _ _ _ _ => "UpdateExpr"
  | .assign _ _ _ _ => "AssignmentExpr"
  | .conditional _ _ _ _ => "ConditionalExpr"
  | .object _ _ => "ObjectLiteral"
  | .array _ _ => "ArrayLiteral"
  | .member _ _ _ _ | .index _ _ _ => "MemberExpr"
  | .call _ _ _ => "CallExpr"
  | .new _ _ _ => "NewExpr"
  | .foreign f => f.sort

/-- The sort of an output statement. -/
def Output.sort : Output → Text
  | .print => "Print"
  | .console => "ConsoleLog"

/-- The sort of a statement. -/
def Stmt.sort : Stmt → Text
  | .lineComment _ _ => "CommentLine"
  | .blockComment _ _ => "CommentBlock"
  | .importFrom _ _ _ => "ImportDecl"
  | .exportDecl _ _ _ _ | .exportValue _ _ _ _ | .exportNames _ _ _ => "ExportDecl"
  | .variable _ => "VarDecl"
  | .output _ form _ => form.sort
  | .function _ _ _ _ => "FunctionDecl"
  | .ret _ _ => "ReturnStmt"
  | .ifThen _ _ _ | .ifElse _ _ _ _ => "IfStmt"
  | .forLoop _ _ _ _ _ => "ForStmt"
  | .whileLoop _ _ _ => "WhileStmt"
  | .breakLoop _ => "BreakStmt"
  | .continueLoop _ => "ContinueStmt"
  | .expr _ _ => "ExpressionStmt"
  | .foreign f => f.sort

/-! ## Short descriptions -/

mutual

/-- The short description of an expression. -/
def Expr.shown : Expr → Text
  | .number _ n => "num(" ++ n.spelled ++ ")"
  | .string _ v => "str(" ++ v.quoted ++ ")"
  | .template _ chunks holes =>
    "template" ++ parens [brackets (chunks.map Text.quoted),
      brackets ((Expr.shownAll holes).map Text.quoted)]
  | .boolean _ v => "boolean(" ++ shownBool v ++ ")"
  | .null _ => "null"
  | .name _ n => "id(" ++ n.spelled ++ ")"
  | .this _ => "this"
  | .binary _ op l r => "(" ++ l.shown ++ " " ++ op.spelled ++ " " ++ r.shown ++ ")"
  | .unary _ op e => "(" ++ op.spelled ++ " " ++ e.shown ++ ")"
  | .update _ op .before e => "(" ++ op.spelled ++ e.shown ++ ")"
  | .update _ op .after e => "(" ++ e.shown ++ op.spelled ++ ")"
  | .assign _ op target v => target.shown ++ " " ++ op.spelled ++ " " ++ v.shown
  | .conditional _ test yes no =>
    "(" ++ test.shown ++ " ? " ++ yes.shown ++ " : " ++ no.shown ++ ")"
  | .object _ ps => "\x7b" ++ commas (Expr.shownProperties ps) ++ "\x7d"
  | .array _ es => brackets (Expr.shownAll es)
  | .member _ o n _ => o.shown ++ "." ++ n.spelled
  | .index _ o k => o.shown ++ "[" ++ k.shown ++ "]"
  | .call _ f as => f.shown ++ parens (Expr.shownAll as)
  | .new _ f as => "new " ++ f.shown ++ parens (Expr.shownAll as)
  | .foreign f => f.shown

/-- The short descriptions of expressions. -/
def Expr.shownAll : List Expr → List Text
  | [] => []
  | e :: es => e.shown :: Expr.shownAll es

/-- The short descriptions of the properties of an object. -/
def Expr.shownProperties : List (Lexeme × Expr) → List Text
  | [] => []
  | (k, v) :: ps => (k.spelled ++ ": " ++ v.shown) :: Expr.shownProperties ps

end

/-- The short description of a declaration. -/
def Variable.shown (v : Variable) : Text :=
  "(" ++ v.word.spelled ++ ") " ++ v.name.spelled ++
    match v.value with
    | some e => " <- " ++ e.shown
    | none => []

/-- The short description of the first part of a `for` loop. -/
def ForInit.shown : ForInit → Text
  | .nothing => "None"
  | .variable v => v.shown
  | .expr e => e.shown

/-- The word that an output statement begins with. -/
def Output.word : Output → Text
  | .print => "print"
  | .console => "console.log"

/-- The words that an export begins with. -/
def exportWords (byDefault : Bool) : Text := if byDefault then "export default " else "export "

mutual

/-- The short description of a statement. -/
def Stmt.shown : Stmt → Text
  | .lineComment _ t => "//" ++ t
  | .blockComment _ t => "/*" ++ t ++ "*/"
  | .importFrom _ source _ => "import " ++ source.quoted
  | .exportDecl _ s _ byDefault => exportWords byDefault ++ s.shown
  | .exportValue _ e _ byDefault => exportWords byDefault ++ e.shown
  | .exportNames _ names _ => "export " ++ block (names.map Lexeme.spelled)
  | .variable v => v.shown
  | .output _ form as => form.word ++ parens (Expr.shownAll as)
  | .function _ n ps _ =>
    "function " ++ n.spelled ++ parens (ps.map Lexeme.spelled) ++ hiddenBody
  | .ret _ (some e) => "return " ++ e.shown
  | .ret _ none => "return"
  | .ifThen _ test yes => "if(" ++ test.shown ++ ") " ++ block (Stmt.shownAll yes)
  | .ifElse _ test yes no =>
    "if(" ++ test.shown ++ ") " ++ block (Stmt.shownAll yes) ++ " else " ++
      block (Stmt.shownAll no)
  | .forLoop _ init test update _ =>
    "for(" ++ init.shown ++ "; " ++ orNone Expr.shown test ++ "; " ++
      orNone Expr.shown update ++ ")" ++ hiddenBody
  | .whileLoop _ test _ => "while(" ++ test.shown ++ ")" ++ hiddenBody
  | .breakLoop _ => "break"
  | .continueLoop _ => "continue"
  | .expr _ e => e.shown ++ ";"
  | .foreign f => f.shown

/-- The short descriptions of statements. -/
def Stmt.shownAll : List Stmt → List Text
  | [] => []
  | s :: ss => s.shown :: Stmt.shownAll ss

end

/-- The short description of a program. -/
def Program.shown (p : Program) : Text := "Program" ++ brackets (Stmt.shownAll p.body)

/-! ## Full descriptions -/

mutual

/-- The full description of an expression. -/
def Expr.inspected : Expr → Text
  | .number _ n => node "NumberLiteral" [part "value" n.inspected]
  | .string _ v => node "StringLiteral" [part "value" v.quoted]
  | .template _ chunks holes =>
    node "TemplateLiteral" [part "quasis" (brackets (chunks.map Text.quoted)),
      part "expressions" (brackets (Expr.inspectedAll holes))]
  | .boolean _ v => node "BooleanLiteral" [part "value" (shownBool v)]
  | .null _ => node "NullLiteral" []
  | .name _ n => node "Identifier" [part "name" n.inspected]
  | .this _ => node "ThisExpr" []
  | .binary _ op l r =>
    node "BinaryExpr" [part "operator" op.inspected, part "left" l.inspected,
      part "right" r.inspected]
  | .unary _ op e =>
    node "UnaryExpr" [part "operator" op.inspected, part "argument" e.inspected]
  | .update _ op side e =>
    node "UpdateExpr" [part "operator" op.inspected, part "argument" e.inspected,
      part "prefix" (shownBool (side = .before))]
  | .assign _ op target v =>
    node "AssignmentExpr" [part "operator" op.inspected, part "left" target.inspected,
      part "right" v.inspected]
  | .conditional _ test yes no =>
    node "ConditionalExpr" [part "test" test.inspected, part "consequent" yes.inspected,
      part "alternate" no.inspected]
  | .object _ ps =>
    node "ObjectLiteral" [part "properties" (brackets (Expr.inspectedProperties ps))]
  | .array _ es => node "ArrayLiteral" [part "elements" (brackets (Expr.inspectedAll es))]
  | .member _ o n _ =>
    node "MemberExpr" [part "object" o.inspected,
      part "property" (node "Identifier" [part "name" n.inspected]),
      part "computed" (shownBool false)]
  | .index _ o k =>
    node "MemberExpr" [part "object" o.inspected, part "property" k.inspected,
      part "computed" (shownBool true)]
  | .call _ f as =>
    node "CallExpr" [part "callee" f.inspected, part "arguments" (brackets (Expr.inspectedAll as))]
  | .new _ f as =>
    node "NewExpr" [part "callee" f.inspected, part "arguments" (brackets (Expr.inspectedAll as))]
  | .foreign f => f.inspected

/-- The full descriptions of expressions. -/
def Expr.inspectedAll : List Expr → List Text
  | [] => []
  | e :: es => e.inspected :: Expr.inspectedAll es

/-- The full descriptions of the properties of an object. -/
def Expr.inspectedProperties : List (Lexeme × Expr) → List Text
  | [] => []
  | (k, v) :: ps => parens [k.inspected, v.inspected] :: Expr.inspectedProperties ps

end

/-- The full description of a declaration. -/
def Variable.inspected (v : Variable) : Text :=
  node "VarDecl" [part "id" v.name.inspected, part "value" (orNone Expr.inspected v.value),
    part "kind" v.word.inspected]

/-- The full description of the first part of a `for` loop. -/
def ForInit.inspected : ForInit → Text
  | .nothing => "None"
  | .variable v => v.inspected
  | .expr e => e.inspected

/-- The full description of an imported name. -/
def Specifier.inspected (s : Specifier) : Text :=
  parens [s.form.inspected, s.name.inspected, s.localName.inspected]

/-- The full description of an export with the given declaration. -/
def inspectedExport (declaration : Text) (names : List Lexeme) (byDefault : Bool) : Text :=
  node "ExportDecl" [part "declaration" declaration,
    part "names" (brackets (names.map Lexeme.inspected)), part "default" (shownBool byDefault)]

mutual

/-- The full description of a statement. -/
def Stmt.inspected : Stmt → Text
  | .lineComment _ t => node "CommentLine" [part "value" t.quoted]
  | .blockComment _ t => node "CommentBlock" [part "value" t.quoted]
  | .importFrom _ source specifiers =>
    node "ImportDecl" [part "source" source.quoted,
      part "specifiers" (brackets (specifiers.map Specifier.inspected))]
  | .exportDecl _ s names byDefault => inspectedExport s.inspected names byDefault
  | .exportValue _ e names byDefault => inspectedExport e.inspected names byDefault
  | .exportNames _ names byDefault => inspectedExport "None" names byDefault
  | .variable v => v.inspected
  | .output _ form as => node form.sort [part "args" (brackets (Expr.inspectedAll as))]
  | .function _ n ps body =>
    node "FunctionDecl" [part "id" n.inspected,
      part "params" (brackets (ps.map Lexeme.inspected)),
      part "body" (brackets (Stmt.inspectedAll body))]
  | .ret _ v => node "ReturnStmt" [part "argument" (orNone Expr.inspected v)]
  | .ifThen _ test yes =>
    node "IfStmt" [part "test" test.inspected,
      part "consequent" (brackets (Stmt.inspectedAll yes)), part "alternate" "None"]
  | .ifElse _ test yes no =>
    node "IfStmt" [part "test" test.inspected,
      part "consequent" (brackets (Stmt.inspectedAll yes)),
      part "alternate" (brackets (Stmt.inspectedAll no))]
  | .forLoop _ init test update body =>
    node "ForStmt" [part "init" init.inspected, part "test" (orNone Expr.inspected test),
      part "update" (orNone Expr.inspected update),
      part "body" (brackets (Stmt.inspectedAll body))]
  | .whileLoop _ test body =>
    node "WhileStmt" [part "test" test.inspected, part "body" (brackets (Stmt.inspectedAll body))]
  | .breakLoop _ => node "BreakStmt" []
  | .continueLoop _ => node "ContinueStmt" []
  | .expr _ e => node "ExpressionStmt" [part "expression" e.inspected]
  | .foreign f => f.inspected

/-- The full descriptions of statements. -/
def Stmt.inspectedAll : List Stmt → List Text
  | [] => []
  | s :: ss => s.inspected :: Stmt.inspectedAll ss

end

/-- The full description of a program. -/
def Program.inspected (p : Program) : Text :=
  node "Program" [part "body" (brackets (Stmt.inspectedAll p.body))]

/-- The short description of a root. -/
def Root.shown : Root → Text
  | .program p => p.shown
  | .foreign f => f.shown

/-- The full description of a root. -/
def Root.inspected : Root → Text
  | .program p => p.inspected
  | .foreign f => f.inspected

end Advplc.Script
