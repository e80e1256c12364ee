import Advplc.Script.Show

/-!
# Equality of program trees

Two trees are the same when they agree in everything except positions.  Nodes of different sorts are
never the same.  Foreign things are compared by their identity; one that has none, like a node of an
unknown sort, is not the same as anything, and neither is a tree that holds it.
-/

set_option autoImplicit false

namespace Advplc.Script

/-- Whether two foreign things agree, positions apart. -/
def Foreign.same (f g : Foreign) : Bool := f.identity.isSome && f.identity = g.identity

mutual

/-- Whether two expressions agree, positions apart. -/
def Expr.same : Expr → Expr → Bool
  | .number _ n, .number _ n' => n = n'
  | .string _ v, .string _ v' => v = v'
  | .template _ cs hs, .template _ cs' hs' => cs = cs' && Expr.sameAll hs hs'
  | .boolean _ v, .boolean _ v' => v = v'
  | .null _, .null _ => true
  | .name _ n, .name _ n' => n = n'
  | .this _, .this _ => true
  | .binary _ op l r, .binary _ op' l' r' => op = op' && l.same l' && r.same r'
  | .unary _ op e, .unary _ op' e' => op = op' && e.same e'
  | .update _ op side e, .update _ op' side' e' => op = op' && side = side' && e.same e'
  | .assign _ op t v, .assign _ op' t' v' => op = op' && t.same t' && v.same v'
  | .conditional _ t y n, .conditional _ t' y' n' => t.same t' && y.same y' && n.same n'
  | .object _ ps, .object _ ps' => Expr.sameProperties ps ps'
  | .array _ es, .array _ es' => Expr.sameAll es es'
  | .member _ o n _, .member _ o' n' _ => o.same o' && n = n'
  | .index _ o k, .index _ o' k' => o.same o' && k.same k'
  | .call _ f as, .call _ f' as' => f.same f' && Expr.sameAll as as'
  | .new _ f as, .new _ f' as' => f.same f' && Expr.sameAll as as'
  | .foreign f, .foreign f' => f.same f'
  | _, _ => false

/-- Whether two lists of expressions agree, positions apart. -/
def Expr.sameAll : List Expr → List Expr → Bool
  | [], [] => true
  | e :: es, e' :: es' => e.same e' && Expr.sameAll es es'
  | _, _ => false

/-- Whether two lists of properties agree, positions apart. -/
def Expr.sameProperties : List (Lexeme × Expr) → List (Lexeme × Expr) → Bool
  | [], [] => true
  | (k, v) :: ps, (k', v') :: ps' => k = k' && v.same v' && Expr.sameProperties ps ps'
  | _, _ => false

end

/-- Whether two optional expressions agree, positions apart. -/
def sameOption : Option Expr → Option Expr → Bool
  | none, none => true
  | some e, some e' => e.same e'
  | _, _ => false

/-- Whether two declarations agree, positions apart. -/
def Variable.same (v w : Variable) : Bool :=
  v.name = w.name && sameOption v.value w.value && v.word = w.word

/-- Whether two first parts of a `for` loop agree, positions apart. -/
def ForInit.same : ForInit → ForInit → Bool
  | .nothing, .nothing => true
  | .variable v, .variable w => v.same w
  | .expr e, .expr e' => e.same e'
  | _, _ => false

mutual

/-- Whether two statements agree, positions apart. -/
def Stmt.same : Stmt → Stmt → Bool
  | .lineComment _ t, .lineComment _ t' => t = t'
  | .blockComment _ t, .blockComment _ t' => t = t'
  | .importFrom _ s is, .importFrom _ s' is' => s = s' && is = is'
  | .exportDecl _ s ns d, .exportDecl _ s' ns' d' => s.same s' && ns = ns' && d = d'
  | .exportValue _ e ns d, .exportValue _ e' ns' d' => e.same e' && ns = ns' && d = d'
  | .exportNames _ ns d, .exportNames _ ns' d' => ns = ns' && d = d'
  | .variable v, .variable v' => v.same v'
  | .output _ form as, .output _ form' as' => form = form' && Expr.sameAll as as'
  | .function _ n ps b, .function _ n' ps' b' => n = n' && ps = ps' && Stmt.sameAll b b'
  | .ret _ v, .ret _ v' => sameOption v v'
  | .ifThen _ t y, .ifThen _ t' y' => t.same t' && Stmt.sameAll y y'
  | .ifElse _ t y n, .ifElse _ t' y' n' => t.same t' && Stmt.sameAll y y' && Stmt.sameAll n n'
  | .forLoop _ i t u b, .forLoop _ i' t' u' b' =>
    i.same i' && sameOption t t' && sameOption u u' && Stmt.sameAll b b'
  | .whileLoop _ t b, .whileLoop _ t' b' => t.same t' && Stmt.sameAll b b'
  | .breakLoop _, .breakLoop _ => true
  | .continueLoop _, .continueLoop _ => true
  | .expr _ e, .expr _ e' => e.same e'
  | .foreign f, .foreign f' => f.same f'
  | _, _ => false

/-- Whether two lists of statements agree, positions apart. -/
def Stmt.sameAll : List Stmt → List Stmt → Bool
  | [], [] => true
  | s :: ss, s' :: ss' => s.same s' && Stmt.sameAll ss ss'
  | _, _ => false

end

/-- Whether two roots agree, positions apart. -/
def Root.same : Root → Root → Bool
  | .program p, .program q => Stmt.sameAll p.body q.body
  | .foreign f, .foreign g => f.same g
  | _, _ => false

end Advplc.Script
