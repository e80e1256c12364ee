import Advplc.Script.Same

/-!
# Trees without positions

`bare` takes the positions out of a tree.  Two trees that hold no foreign thing are the same when
they are equal once bare (`Expr.same_iff`, `Stmt.same_iff`), so what is proved about trees up to
positions is proved as an equation between bare trees.
-/

set_option autoImplicit false

namespace Advplc.Script

/-! ## Taking positions out -/

mutual

/-- The expression without positions. -/
def Expr.bare : Expr → Expr
  | .number _ n => .number none n
  | .string _ v => .string none v
  | .template _ cs hs => .template none cs (Expr.bareAll hs)
  | .boolean _ v => .boolean none v
  | .null _ => .null none
  | .name _ n => .name none n
  | .this _ => .this none
  | .binary _ op l r => .binary none op l.bare r.bare
  | .unary _ op e => .unary none op e.bare
  | .update _ op side e => .update none op side e.bare
  | .assign _ op t v => .assign none op t.bare v.bare
  | .conditional _ t y n => .conditional none t.bare y.bare n.bare
  | .object _ ps => .object none (Expr.bareProperties ps)
  | .array _ es => .array none (Expr.bareAll es)
  | .member _ o n _ => .member none o.bare n none
  | .index _ o k => .index none o.bare k.bare
  | .call _ f as => .call none f.bare (Expr.bareAll as)
  | .new _ f as => .new none f.bare (Expr.bareAll as)
  | .foreign f => .foreign f

/-- The expressions without positions. -/
def Expr.bareAll : List Expr → List Expr
  | [] => []
  | e :: es => e.bare :: Expr.bareAll es

/-- The properties without positions. -/
def Expr.bareProperties : List (Lexeme × Expr) → List (Lexeme × Expr)
  | [] => []
  | (k, v) :: ps => (k, v.bare) :: Expr.bareProperties ps

end

/-- The declaration without positions. -/
def Variable.bare (v : Variable) : Variable := ⟨none, v.name, v.value.map Expr.bare, v.word⟩

/-- The first part of a `for` loop without positions. -/
def ForInit.bare : ForInit → ForInit
  | .nothing => .nothing
  | .variable v => .variable v.bare
  | .expr e => .expr e.bare

mutual

/-- The statement without positions. -/
def Stmt.bare : Stmt → Stmt
  | .lineComment _ t => .lineComment none t
  | .blockComment _ t => .blockComment none t
  | .importFrom _ m is => .importFrom none m is
  | .exportDecl _ s ns d => .exportDecl none s.bare ns d
  | .exportValue _ e ns d => .exportValue none e.bare ns d
  | .exportNames _ ns d => .exportNames none ns d
  | .variable v => .variable v.bare
  | .output _ form as => .output none form (Expr.bareAll as)
  | .function _ n ps b => .function none n ps (Stmt.bareAll b)
  | .ret _ v => .ret none (v.map Expr.bare)
  | .ifThen _ t y => .ifThen none t.bare (Stmt.bareAll y)
  | .ifElse _ t y n => .ifElse none t.bare (Stmt.bareAll y) (Stmt.bareAll n)
  | .forLoop _ i t u b =>
    .forLoop none i.bare (t.map Expr.bare) (u.map Expr.bare) (Stmt.bareAll b)
  | .whileLoop _ t b => .whileLoop none t.bare (Stmt.bareAll b)
  | .breakLoop _ => .breakLoop none
  | .continueLoop _ => .continueLoop none
  | .expr _ e => .expr none e.bare
  | .foreign f => .foreign f

/-- The statements without positions. -/
def Stmt.bareAll : List Stmt → List Stmt
  | [] => []
  | s :: ss => s.bare :: Stmt.bareAll ss

end

/-! ## Trees that hold no foreign thing -/

mutual

/-- Whether an expression holds no foreign thing. -/
def Expr.native : Expr → Bool
  | .number _ _ | .string _ _ | .boolean _ _ | .null _ | .name _ _ | .this _ => true
  | .template _ _ hs => Expr.nativeAll hs
  | .binary _ _ l r | .assign _ _ l r | .index _ l r => l.native && r.native
  | .unary _ _ e | .update _ _ _ e | .member _ e _ _ => e.native
  | .conditional _ t y n => t.native && y.native && n.native
  | .object _ ps => Expr.nativeProperties ps
  | .array _ es => Expr.nativeAll es
  | .call _ f as | .new _ f as => f.native && Expr.nativeAll as
  | .foreign _ => false

/-- Whether no expression holds a foreign thing. -/
def Expr.nativeAll : List Expr → Bool
  | [] => true
  | e :: es => e.native && Expr.nativeAll es

/-- Whether no property holds a foreign thing. -/
def Expr.nativeProperties : List (Lexeme × Expr) → Bool
  | [] => true
  | (_, v) :: ps => v.native && Expr.nativeProperties ps

end

/-- Whether a first part of a `for` loop holds no foreign thing. -/
def ForInit.native : ForInit → Bool
  | .nothing => true
  | .variable v => v.value.all Expr.native
  | .expr e => e.native

mutual

/-- Whether a statement holds no foreign thing. -/
def Stmt.native : Stmt → Bool
  | .lineComment _ _ | .blockComment _ _ | .importFrom _ _ _ | .exportNames _ _ _ => true
  | .breakLoop _ | .continueLoop _ => true
  | .exportDecl _ s _ _ => s.native
  | .exportValue _ e _ _ | .expr _ e => e.native
  | .variable v => v.value.all Expr.native
  | .output _ _ as => Expr.nativeAll as
  | .function _ _ _ b => Stmt.nativeAll b
  | .ret _ v => v.all Expr.native
  | .ifThen _ t b | .whileLoop _ t b => t.native && Stmt.nativeAll b
  | .ifElse _ t y n => t.native && Stmt.nativeAll y && Stmt.nativeAll n
  | .forLoop _ i t u b =>
    i.native && t.all Expr.native && u.all Expr.native && Stmt.nativeAll b
  | .foreign _ => false

/-- Whether no statement holds a foreign thing. -/
def Stmt.nativeAll : List Stmt → Bool
  | [] => true
  | s :: ss => s.native && Stmt.nativeAll ss

end

/-! ## Sameness as equality -/

mutual

theorem Expr.same_iff (e e' : Expr) (he : e.native = true) :
    e.same e' = true ↔ e.bare = e'.bare := by
  cases e with
  | number p n => cases e' <;> simp [Expr.same, Expr.bare]
  | string p v => cases e' <;> simp [Expr.same, Expr.bare]
  | template p cs hs =>
    rw [Expr.native] at he
    cases e' <;> simp [Expr.same, Expr.bare, Expr.sameAll_iff hs _ he]
  | boolean p v => cases e' <;> simp [Expr.same, Expr.bare]
  | null p => cases e' <;> simp [Expr.same, Expr.bare]
  | name p n => cases e' <;> simp [Expr.same, Expr.bare]
  | this p => cases e' <;> simp [Expr.same, Expr.bare]
  | binary p op l r =>
    rw [Expr.native, Bool.and_eq_true] at he
    cases e' <;>
      simp [Expr.same, Expr.bare, Expr.same_iff l _ he.1, Expr.same_iff r _ he.2, and_assoc]
  | unary p op e =>
    rw [Expr.native] at he
    cases e' <;> simp [Expr.same, Expr.bare, Expr.same_iff e _ he]
  | update p op side e =>
    rw [Expr.native] at he
    cases e' <;> simp [Expr.same, Expr.bare, Expr.same_iff e _ he, and_assoc]
  | assign p op t v =>
    rw [Expr.native, Bool.and_eq_true] at he
    cases e' <;>
      simp [Expr.same, Expr.bare, Expr.same_iff t _ he.1, Expr.same_iff v _ he.2, and_assoc]
  | conditional p t y n =>
    rw [Expr.native, Bool.and_eq_true, Bool.and_eq_true] at he
    cases e' <;>
      simp [Expr.same, Expr.bare, Expr.same_iff t _ he.1.1, Expr.same_iff y _ he.1.2,
        Expr.same_iff n _ he.2, and_assoc]
  | object p ps =>
    rw [Expr.native] at he
    cases e' <;> simp [Expr.same, Expr.bare, Expr.sameProperties_iff ps _ he]
  | array p es =>
    rw [Expr.native] at he
    cases e' <;> simp [Expr.same, Expr.bare, Expr.sameAll_iff es _ he]
  | member p o n q =>
    rw [Expr.native] at he
    cases e' <;> simp [Expr.same, Expr.bare, Expr.same_iff o _ he]
  | index p o k =>
    rw [Expr.native, Bool.and_eq_true] at he
    cases e' <;> simp [Expr.same, Expr.bare, Expr.same_iff o _ he.1, Expr.same_iff k _ he.2]
  | call p f as =>
    rw [Expr.native, Bool.and_eq_true] at he
    cases e' <;> simp [Expr.same, Expr.bare, Expr.same_iff f _ he.1, Expr.sameAll_iff as _ he.2]
  | new p f as =>
    rw [Expr.native, Bool.and_eq_true] at he
    cases e' <;> simp [Expr.same, Expr.bare, Expr.same_iff f _ he.1, Expr.sameAll_iff as _ he.2]
  | foreign f => cases he

theorem Expr.sameAll_iff (es es' : List Expr) (he : Expr.nativeAll es = true) :
    Expr.sameAll es es' = true ↔ Expr.bareAll es = Expr.bareAll es' := by
  cases es with
  | nil => cases es' <;> simp [Expr.sameAll, Expr.bareAll]
  | cons e es =>
    rw [Expr.nativeAll, Bool.and_eq_true] at he
    cases es' <;>
      simp [Expr.sameAll, Expr.bareAll, Expr.same_iff e _ he.1, Expr.sameAll_iff es _ he.2]

theorem Expr.sameProperties_iff (ps ps' : List (Lexeme × Expr))
    (he : Expr.nativeProperties ps = true) :
    Expr.sameProperties ps ps' = true ↔ Expr.bareProperties ps = Expr.bareProperties ps' := by
  cases ps with
  | nil => cases ps' <;> simp [Expr.sameProperties, Expr.bareProperties]
  | cons x ps =>
    obtain ⟨k, v⟩ := x
    rw [Expr.nativeProperties, Bool.and_eq_true] at he
    cases ps' <;>
      simp [Expr.sameProperties, Expr.bareProperties, Expr.same_iff v _ he.1,
        Expr.sameProperties_iff ps _ he.2, and_assoc]

end

theorem sameOption_iff (v v' : Option Expr) (hv : v.all Expr.native = true) :
    sameOption v v' = true ↔ v.map Expr.bare = v'.map Expr.bare := by
  cases v with
  | none => cases v' <;> simp [sameOption]
  | some e => cases v' <;> simp [sameOption, Expr.same_iff e _ hv]

theorem Variable.same_iff (v v' : Variable) (hv : v.value.all Expr.native = true) :
    v.same v' = true ↔ v.bare = v'.bare := by
  simp [Variable.same, Variable.bare, sameOption_iff _ _ hv, and_assoc]

theorem ForInit.same_iff (i i' : ForInit) (hi : i.native = true) :
    i.same i' = true ↔ i.bare = i'.bare := by
  cases i with
  | nothing => cases i' <;> simp [ForInit.same, ForInit.bare]
  | «variable» v => cases i' <;> simp [ForInit.same, ForInit.bare, Variable.same_iff v _ hi]
  | expr e => cases i' <;> simp [ForInit.same, ForInit.bare, Expr.same_iff e _ hi]

mutual

theorem Stmt.same_iff (s s' : Stmt) (hs : s.native = true) :
    s.same s' = true ↔ s.bare = s'.bare := by
  cases s with
  | lineComment p t => cases s' <;> simp [Stmt.same, Stmt.bare]
  | blockComment p t => cases s' <;> simp [Stmt.same, Stmt.bare]
  | importFrom p m is => cases s' <;> simp [Stmt.same, Stmt.bare]
  | exportDecl p s ns d =>
    rw [Stmt.native] at hs
    cases s' <;> simp [Stmt.same, Stmt.bare, Stmt.same_iff s _ hs, and_assoc]
  | exportValue p e ns d =>
    rw [Stmt.native] at hs
    cases s' <;> simp [Stmt.same, Stmt.bare, Expr.same_iff e _ hs, and_assoc]
  | exportNames p ns d => cases s' <;> simp [Stmt.same, Stmt.bare]
  | «variable» v =>
    rw [Stmt.native] at hs
    cases s' <;> simp [Stmt.same, Stmt.bare, Variable.same_iff v _ hs]
  | output p form as =>
    rw [Stmt.native] at hs
    cases s' <;> simp [Stmt.same, Stmt.bare, Expr.sameAll_iff as _ hs]
  | function p n ps b =>
    rw [Stmt.native] at hs
    cases s' <;> simp [Stmt.same, Stmt.bare, Stmt.sameAll_iff b _ hs, and_assoc]
  | ret p v =>
    rw [Stmt.native] at hs
    cases s' <;> simp [Stmt.same, Stmt.bare, sameOption_iff v _ hs]
  | ifThen p t y =>
    rw [Stmt.native, Bool.and_eq_true] at hs
    cases s' <;> simp [Stmt.same, Stmt.bare, Expr.same_iff t _ hs.1, Stmt.sameAll_iff y _ hs.2]
  | ifElse p t y n =>
    rw [Stmt.native, Bool.and_eq_true, Bool.and_eq_true] at hs
    cases s' <;>
      simp [Stmt.same, Stmt.bare, Expr.same_iff t _ hs.1.1, Stmt.sameAll_iff y _ hs.1.2,
        Stmt.sameAll_iff n _ hs.2, and_assoc]
  | forLoop p i t u b =>
    rw [Stmt.native, Bool.and_eq_true, Bool.and_eq_true, Bool.and_eq_true] at hs
    cases s' <;>
      simp [Stmt.same, Stmt.bare, ForInit.same_iff i _ hs.1.1.1, sameOption_iff t _ hs.1.1.2,
        sameOption_iff u _ hs.1.2, Stmt.sameAll_iff b _ hs.2, and_assoc]
  | whileLoop p t b =>
    rw [Stmt.native, Bool.and_eq_true] at hs
    cases s' <;> simp [Stmt.same, Stmt.bare, Expr.same_iff t _ hs.1, Stmt.sameAll_iff b _ hs.2]
  | breakLoop p => cases s' <;> simp [Stmt.same, Stmt.bare]
  | continueLoop p => cases s' <;> simp [Stmt.same, Stmt.bare]
  | expr p e =>
    rw [Stmt.native] at hs
    cases s' <;> simp [Stmt.same, Stmt.bare, Expr.same_iff e _ hs]
  | foreign f => cases hs

theorem Stmt.sameAll_iff (ss ss' : List Stmt) (hs : Stmt.nativeAll ss = true) :
    Stmt.sameAll ss ss' = true ↔ Stmt.bareAll ss = Stmt.bareAll ss' := by
  cases ss with
  | nil => cases ss' <;> simp [Stmt.sameAll, Stmt.bareAll]
  | cons s ss =>
    rw [Stmt.nativeAll, Bool.and_eq_true] at hs
    cases ss' <;>
      simp [Stmt.sameAll, Stmt.bareAll, Stmt.same_iff s _ hs.1, Stmt.sameAll_iff ss _ hs.2]

end

/-- **Programs without foreign things are the same when they are equal without positions.** -/
theorem Root.same_iff (p q : Program) (hp : Stmt.nativeAll p.body = true) :
    Root.same (.program p) (.program q) = true ↔ Stmt.bareAll p.body = Stmt.bareAll q.body :=
  Stmt.sameAll_iff p.body q.body hp

end Advplc.Script
