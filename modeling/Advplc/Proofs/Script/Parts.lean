import Advplc.Lowering.Expr

/-!
# The expressions of a program

`Expr.inside` lists the expressions that stand inside an expression, at any depth, and `Stmt.parts`
those that stand in a statement, each with whether it is a statement of its own.

Two questions are asked of each of them.  Whether it is *unusable*, as only an expression put
together by hand can be.  And whether it *miscounts*: whether it is a `push` that appends another
number of elements than one, where several may be appended by a statement of their own.
-/

set_option autoImplicit false

namespace Advplc.Script

/-! ## Inside expressions -/

mutual

/-- The expressions inside an expression, at any depth. -/
def Expr.inside : Expr → List Expr
  | .number _ _ | .string _ _ | .boolean _ _ | .null _ | .name _ _ | .this _ | .foreign _ => []
  | .template _ _ hs => Expr.insideAll hs
  | .binary _ _ l r | .assign _ _ l r | .index _ l r => (l :: l.inside) ++ (r :: r.inside)
  | .unary _ _ e | .update _ _ _ e | .member _ e _ _ => e :: e.inside
  | .conditional _ t y n => (t :: t.inside) ++ (y :: y.inside) ++ (n :: n.inside)
  | .object _ ps => Expr.insideProperties ps
  | .array _ es => Expr.insideAll es
  | .call _ f as | .new _ f as => (f :: f.inside) ++ Expr.insideAll as

/-- The expressions of a list and those inside them. -/
def Expr.insideAll : List Expr → List Expr
  | [] => []
  | e :: es => (e :: e.inside) ++ Expr.insideAll es

/-- The values of properties and the expressions inside them. -/
def Expr.insideProperties : List (Lexeme × Expr) → List Expr
  | [] => []
  | (_, v) :: ps => (v :: v.inside) ++ Expr.insideProperties ps

end

/-- Whether an expression, or one inside it, has a property. -/
def Expr.has (p : Expr → Bool) (e : Expr) : Bool := (e :: e.inside).any p

/-- Whether an expression of a list, or one inside it, has a property. -/
def Expr.someHas (p : Expr → Bool) (es : List Expr) : Bool := (Expr.insideAll es).any p

section Has

variable (p : Expr → Bool) (q : Option Pos)

theorem Expr.has_template (cs : List Text) (hs : List Expr) : (Expr.template q cs hs).has p =
    (p (.template q cs hs) || Expr.someHas p hs) := rfl

theorem Expr.has_binary (op : Lexeme) (l r : Expr) : (Expr.binary q op l r).has p =
    (p (.binary q op l r) || (l.has p || r.has p)) :=
  congrArg (p _ || ·) List.any_append

theorem Expr.has_assign (op : Lexeme) (t v : Expr) : (Expr.assign q op t v).has p =
    (p (.assign q op t v) || (t.has p || v.has p)) :=
  congrArg (p _ || ·) List.any_append

theorem Expr.has_index (o k : Expr) : (Expr.index q o k).has p =
    (p (.index q o k) || (o.has p || k.has p)) :=
  congrArg (p _ || ·) List.any_append

theorem Expr.has_unary (op : Lexeme) (e : Expr) : (Expr.unary q op e).has p =
    (p (.unary q op e) || e.has p) := rfl

theorem Expr.has_update (op : Lexeme) (side : Side) (e : Expr) : (Expr.update q op side e).has p =
    (p (.update q op side e) || e.has p) := rfl

theorem Expr.has_member (o : Expr) (n : Lexeme) (r : Option Pos) : (Expr.member q o n r).has p =
    (p (.member q o n r) || o.has p) := rfl

theorem Expr.has_conditional (t y n : Expr) : (Expr.conditional q t y n).has p =
    (p (.conditional q t y n) || (t.has p || (y.has p || n.has p))) := by
  refine congrArg (p _ || ·) (List.any_append.trans ?_)
  rw [List.any_append, Bool.or_assoc]
  rfl

theorem Expr.has_array (es : List Expr) : (Expr.array q es).has p =
    (p (.array q es) || Expr.someHas p es) := rfl

theorem Expr.has_object (ps : List (Lexeme × Expr)) : (Expr.object q ps).has p =
    (p (.object q ps) || Expr.someHas p (ps.map Prod.snd)) := by
  have hvalues : Expr.insideProperties ps = Expr.insideAll (ps.map Prod.snd) := by
    induction ps with
    | nil => rfl
    | cons x ps ih => exact congrArg ((x.2 :: x.2.inside) ++ ·) ih
  exact congrArg (fun es : List Expr ↦ p _ || es.any p) hvalues

theorem Expr.has_call (f : Expr) (as : List Expr) : (Expr.call q f as).has p =
    (p (.call q f as) || (f.has p || Expr.someHas p as)) :=
  congrArg (p _ || ·) List.any_append

theorem Expr.has_new (f : Expr) (as : List Expr) : (Expr.new q f as).has p =
    (p (.new q f as) || (f.has p || Expr.someHas p as)) :=
  congrArg (p _ || ·) List.any_append

@[simp] theorem Expr.someHas_nil : Expr.someHas p [] = false := rfl

@[simp] theorem Expr.someHas_cons (e : Expr) (es : List Expr) :
    Expr.someHas p (e :: es) = (e.has p || Expr.someHas p es) :=
  List.any_append

theorem Expr.someHas_single (e : Expr) : Expr.someHas p [e] = e.has p := by
  rw [someHas_cons, someHas_nil, Bool.or_false]

end Has

/-- Whether an expression, apart from those inside it, has no counterpart: its operator has none, a
template has not one chunk more than it has holes, or it is none of the nodes. -/
def Expr.unusable : Expr → Bool
  | .binary _ op _ _ => (Lowering.binaryOperators.lookup op).isNone
  | .unary _ op _ => (Lowering.unaryOperators.lookup op).isNone
  | .assign _ op _ _ => (Lowering.assignmentOperators.lookup op).isNone
  | .template _ cs hs => cs.length ≠ hs.length + 1
  | .foreign _ => true
  | _ => false

/-- Whether an expression is a `push` with a number of arguments that it cannot have.  On its own as
a statement it may have several. -/
def Expr.miscounts (alone : Bool) : Expr → Bool
  | .call _ (.member _ _ n _) as => n = "push" ∧ as.length ≠ 1 ∧ ¬ (alone ∧ 1 < as.length)
  | _ => false

/-- Whether an expression, or one inside it, miscounts. -/
abbrev Expr.refused (e : Expr) : Bool := e.has (Expr.miscounts false)

/-- Whether an expression of a list, or one inside it, miscounts. -/
abbrev Expr.someRefused (es : List Expr) : Bool := Expr.someHas (Expr.miscounts false) es

/-- Whether neither an expression nor one inside it is unusable. -/
abbrev Expr.Regular (e : Expr) : Prop := e.has Expr.unusable = false

/-- Whether no expression of a list, nor one inside it, is unusable. -/
abbrev Expr.AllRegular (es : List Expr) : Prop := Expr.someHas Expr.unusable es = false

section Regular

variable {p q : Option Pos} {op n : Lexeme} {e l r t y o k f v : Expr} {es : List Expr}

theorem Expr.allRegular_cons :
    Expr.AllRegular (e :: es) ↔ e.Regular ∧ Expr.AllRegular es := by
  rw [AllRegular, someHas_cons, Bool.or_eq_false_iff]

theorem Expr.allRegular_single : Expr.AllRegular [e] ↔ e.Regular := by
  rw [AllRegular, someHas_single]

theorem Expr.regular_template {cs : List Text} : (Expr.template p cs es).Regular ↔
    cs.length = es.length + 1 ∧ Expr.AllRegular es := by
  rw [Regular, has_template, Bool.or_eq_false_iff]
  exact and_congr_left' (decide_eq_false_iff_not.trans Decidable.not_not)

theorem Expr.regular_binary : (Expr.binary p op l r).Regular ↔
    (Lowering.binaryOperators.lookup op).isSome = true ∧ l.Regular ∧ r.Regular := by
  rw [Regular, has_binary, Bool.or_eq_false_iff, Bool.or_eq_false_iff]
  exact and_congr_left' Option.isNone_eq_false_iff

theorem Expr.regular_unary : (Expr.unary p op e).Regular ↔
    (Lowering.unaryOperators.lookup op).isSome = true ∧ e.Regular := by
  rw [Regular, has_unary, Bool.or_eq_false_iff]
  exact and_congr_left' Option.isNone_eq_false_iff

theorem Expr.regular_assign : (Expr.assign p op t v).Regular ↔
    (Lowering.assignmentOperators.lookup op).isSome = true ∧ t.Regular ∧ v.Regular := by
  rw [Regular, has_assign, Bool.or_eq_false_iff, Bool.or_eq_false_iff]
  exact and_congr_left' Option.isNone_eq_false_iff

theorem Expr.regular_update {side : Side} : (Expr.update p op side e).Regular ↔ e.Regular :=
  Iff.rfl

theorem Expr.regular_conditional : (Expr.conditional p t y e).Regular ↔
    t.Regular ∧ y.Regular ∧ e.Regular := by
  rw [Regular, has_conditional, Bool.or_eq_false_iff, Bool.or_eq_false_iff, Bool.or_eq_false_iff]
  exact and_iff_right rfl

theorem Expr.regular_object {ps : List (Lexeme × Expr)} : (Expr.object p ps).Regular ↔
    Expr.AllRegular (ps.map Prod.snd) := by
  rw [Regular, has_object, Bool.or_eq_false_iff]
  exact and_iff_right rfl

theorem Expr.regular_array : (Expr.array p es).Regular ↔ Expr.AllRegular es := Iff.rfl

theorem Expr.regular_index : (Expr.index p o k).Regular ↔ o.Regular ∧ k.Regular := by
  rw [Regular, has_index, Bool.or_eq_false_iff, Bool.or_eq_false_iff]
  exact and_iff_right rfl

theorem Expr.regular_member : (Expr.member p o n q).Regular ↔ o.Regular := Iff.rfl

theorem Expr.regular_call : (Expr.call p f es).Regular ↔ f.Regular ∧ Expr.AllRegular es := by
  rw [Regular, has_call, Bool.or_eq_false_iff, Bool.or_eq_false_iff]
  exact and_iff_right rfl

theorem Expr.regular_new : (Expr.new p f es).Regular ↔ f.Regular ∧ Expr.AllRegular es := by
  rw [Regular, has_new, Bool.or_eq_false_iff, Bool.or_eq_false_iff]
  exact and_iff_right rfl

end Regular

/-- A `push` that is not one of several elements at once may stand anywhere. -/
theorem Expr.miscounts_alone {e : Expr} (h : ∀ p q o n r as, e = .call p (.member q o n r) as →
    ¬ (n = "push" ∧ 1 < as.length)) : e.miscounts true = e.miscounts false := by
  cases e with
  | call p f as =>
    cases f with
    | member q o n r =>
      have hone := h p q o n r as rfl
      simp only [miscounts, decide_eq_decide]
      grind
    | _ => rfl
  | _ => rfl

/-! ## In statements -/

/-- An expression of a program, and whether it is a statement of its own. -/
structure Part where
  /-- The expression. -/
  expr : Expr
  /-- Whether it is a statement of its own. -/
  alone : Bool

/-- Whether an expression of a program miscounts. -/
def Part.miscounts (x : Part) : Bool := x.expr.miscounts x.alone

/-- Whether an expression of a program, apart from those inside it, has no counterpart. -/
def Part.unusable (x : Part) : Bool := x.expr.unusable

/-- The parts of which none is a statement of its own. -/
def Part.within (es : List Expr) : List Part := es.map fun e ↦ ⟨e, false⟩

/-- The expression in the first part of a `for` loop, if there is one. -/
def ForInit.expr? : ForInit → Option Expr
  | .nothing => none
  | .variable v => v.value
  | .expr e => some e

mutual

/-- The expressions of a statement, at any depth. -/
def Stmt.parts : Stmt → List Part
  | .lineComment _ _ | .blockComment _ _ | .importFrom _ _ _ | .exportNames _ _ _ => []
  | .breakLoop _ | .continueLoop _ | .foreign _ => []
  | .exportDecl _ s _ _ => s.parts
  | .exportValue _ e _ _ => Part.within (Expr.insideAll [e])
  | .variable v => Part.within (Expr.insideAll v.value.toList)
  | .output _ _ as => Part.within (Expr.insideAll as)
  | .function _ _ _ b => Stmt.partsAll b
  | .ret _ v => Part.within (Expr.insideAll v.toList)
  | .ifThen _ t b | .whileLoop _ t b => Part.within (Expr.insideAll [t]) ++ Stmt.partsAll b
  | .ifElse _ t y n => Part.within (Expr.insideAll [t]) ++ Stmt.partsAll y ++ Stmt.partsAll n
  | .forLoop _ i t u b => Part.within (Expr.insideAll i.expr?.toList) ++
      Part.within (Expr.insideAll t.toList) ++ Part.within (Expr.insideAll u.toList) ++
      Stmt.partsAll b
  | .expr _ e => ⟨e, true⟩ :: Part.within e.inside

/-- The expressions of statements, at any depth. -/
def Stmt.partsAll : List Stmt → List Part
  | [] => []
  | s :: ss => s.parts ++ Stmt.partsAll ss

end

theorem Part.any_within (p : Part → Bool) (es : List Expr) :
    (Part.within (Expr.insideAll es)).any p = Expr.someHas (fun e ↦ p ⟨e, false⟩) es :=
  List.any_map

/-- Whether an expression of a statement miscounts. -/
abbrev Stmt.refused (s : Stmt) : Bool := s.parts.any Part.miscounts

/-- Whether an expression of some of the statements miscounts. -/
abbrev Stmt.someRefused (ss : List Stmt) : Bool := (Stmt.partsAll ss).any Part.miscounts

/-- Whether no expression of a statement is unusable. -/
abbrev Stmt.Regular (s : Stmt) : Prop := s.parts.any Part.unusable = false

/-- Whether no expression of the statements is unusable. -/
abbrev Stmt.AllRegular (ss : List Stmt) : Prop := (Stmt.partsAll ss).any Part.unusable = false

section Statements

variable {p : Option Pos} {e t : Expr} {v : Option Expr} {ss ss' : List Stmt}

theorem Stmt.someRefused_cons (s : Stmt) :
    Stmt.someRefused (s :: ss) = (s.refused || Stmt.someRefused ss) := List.any_append

theorem Stmt.refused_expr : (Stmt.expr p e).refused =
    (e.miscounts true || e.inside.any (Expr.miscounts false)) :=
  congrArg (e.miscounts true || ·) List.any_map

theorem Stmt.refused_ifThen :
    (Stmt.ifThen p t ss).refused = (t.refused || Stmt.someRefused ss) := by
  refine List.any_append.trans (congrArg (· || _) ?_)
  exact (Part.any_within _ [t]).trans (Expr.someHas_single _ t)

theorem Stmt.refused_whileLoop :
    (Stmt.whileLoop p t ss).refused = (t.refused || Stmt.someRefused ss) :=
  Stmt.refused_ifThen (p := p)

theorem Stmt.refused_ifElse : (Stmt.ifElse p t ss ss').refused =
    (t.refused || (Stmt.someRefused ss || Stmt.someRefused ss')) := by
  refine List.any_append.trans ?_
  rw [← Bool.or_assoc]
  exact congrArg (· || _) (Stmt.refused_ifThen (p := p))

theorem Stmt.refused_forLoop {i : ForInit} {u : Option Expr} :
    (Stmt.forLoop p i v u ss).refused = (Expr.someRefused i.expr?.toList ||
      (Expr.someRefused v.toList || (Expr.someRefused u.toList || Stmt.someRefused ss))) := by
  refine List.any_append.trans ?_
  rw [List.any_append, List.any_append, Part.any_within, Part.any_within, Part.any_within,
    Bool.or_assoc, Bool.or_assoc]
  rfl

theorem Stmt.allRegular_cons {s : Stmt} :
    Stmt.AllRegular (s :: ss) ↔ s.Regular ∧ Stmt.AllRegular ss := by
  rw [← Bool.or_eq_false_iff, ← List.any_append]
  rfl

theorem Stmt.regular_within {es : List Expr} :
    (Part.within (Expr.insideAll es)).any Part.unusable = false ↔ Expr.AllRegular es := by
  rw [Part.any_within]
  rfl

theorem Stmt.regular_expr : (Stmt.expr p e).Regular ↔ e.Regular := by
  have hinside : (Part.within e.inside).any Part.unusable = e.inside.any Expr.unusable :=
    List.any_map
  exact Iff.of_eq (congrArg (fun b ↦ (e.unusable || b) = false) hinside)

theorem Stmt.regular_exportValue {ns : List Lexeme} {d : Bool} :
    (Stmt.exportValue p e ns d).Regular ↔ e.Regular :=
  Stmt.regular_within.trans Expr.allRegular_single

theorem Stmt.regular_ifThen : (Stmt.ifThen p t ss).Regular ↔ t.Regular ∧ Stmt.AllRegular ss := by
  rw [← Expr.allRegular_single, ← Stmt.regular_within, ← Bool.or_eq_false_iff, ← List.any_append]
  rfl

theorem Stmt.regular_whileLoop :
    (Stmt.whileLoop p t ss).Regular ↔ t.Regular ∧ Stmt.AllRegular ss :=
  Stmt.regular_ifThen (p := p)

theorem Stmt.regular_ifElse : (Stmt.ifElse p t ss ss').Regular ↔
    t.Regular ∧ Stmt.AllRegular ss ∧ Stmt.AllRegular ss' := by
  rw [← and_assoc, ← Stmt.regular_ifThen (p := p), ← Bool.or_eq_false_iff, ← List.any_append]
  rfl

theorem Stmt.regular_forLoop {i : ForInit} {u : Option Expr} :
    (Stmt.forLoop p i v u ss).Regular ↔ Expr.AllRegular i.expr?.toList ∧
      Expr.AllRegular v.toList ∧ Expr.AllRegular u.toList ∧ Stmt.AllRegular ss := by
  rw [← and_assoc, ← and_assoc, ← Stmt.regular_within, ← Stmt.regular_within,
    ← Stmt.regular_within, ← Bool.or_eq_false_iff, ← Bool.or_eq_false_iff,
    ← Bool.or_eq_false_iff, ← List.any_append, ← List.any_append, ← List.any_append]
  rfl

end Statements

end Advplc.Script
