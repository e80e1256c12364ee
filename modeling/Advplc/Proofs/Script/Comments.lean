import Advplc.Proofs.Script.Bare

/-!
# Programs without their comments

Comments are statements, so a program without its comments is what is left when they are taken out
of every list of statements in it.  A branch or a loop keeps its body, which may have become empty.
-/

set_option autoImplicit false

namespace Advplc.Script

/-- Whether a statement is a comment. -/
def Stmt.isComment : Stmt → Bool
  | .lineComment _ _ | .blockComment _ _ => true
  | _ => false

mutual

/-- The statement without the comments in it. -/
def Stmt.withoutComments : Stmt → Stmt
  | .exportDecl p s ns d => .exportDecl p s.withoutComments ns d
  | .function p n ps b => .function p n ps (Stmt.withoutCommentsAll b)
  | .ifThen p t y => .ifThen p t (Stmt.withoutCommentsAll y)
  | .ifElse p t y n => .ifElse p t (Stmt.withoutCommentsAll y) (Stmt.withoutCommentsAll n)
  | .forLoop p i t u b => .forLoop p i t u (Stmt.withoutCommentsAll b)
  | .whileLoop p t b => .whileLoop p t (Stmt.withoutCommentsAll b)
  | s => s

/-- The statements that are not comments, without the comments in them. -/
def Stmt.withoutCommentsAll : List Stmt → List Stmt
  | [] => []
  | s :: ss =>
    if s.isComment then Stmt.withoutCommentsAll ss
    else s.withoutComments :: Stmt.withoutCommentsAll ss

end

/-- The program without its comments. -/
def Program.withoutComments (p : Program) : Program :=
  { p with body := Stmt.withoutCommentsAll p.body }

@[simp] theorem Stmt.withoutCommentsAll_nil : Stmt.withoutCommentsAll [] = [] := by
  rw [Stmt.withoutCommentsAll]

theorem Stmt.withoutCommentsAll_of_comment {s : Stmt} (h : s.isComment = true) (ss : List Stmt) :
    Stmt.withoutCommentsAll (s :: ss) = Stmt.withoutCommentsAll ss := by
  rw [Stmt.withoutCommentsAll, if_pos h]

theorem Stmt.withoutCommentsAll_cons {s : Stmt} (h : s.isComment = false) (ss : List Stmt) :
    Stmt.withoutCommentsAll (s :: ss) = s.withoutComments :: Stmt.withoutCommentsAll ss := by
  rw [Stmt.withoutCommentsAll, if_neg (by simp [h])]

/-- Whether a statement is neither a comment nor has statements inside. -/
def Stmt.isPlain : Stmt → Bool
  | .lineComment _ _ | .blockComment _ _ | .function _ _ _ _ | .ifThen _ _ _ | .ifElse _ _ _ _
  | .forLoop _ _ _ _ _ | .whileLoop _ _ _ => false
  | .exportDecl _ s _ _ => s.isPlain
  | _ => true

theorem Stmt.isComment_of_isPlain (s : Stmt) (hs : s.isPlain = true) : s.isComment = false := by
  cases s with
  | lineComment | blockComment => cases hs
  | _ => rfl

theorem Stmt.withoutComments_of_isPlain (s : Stmt) (hs : s.isPlain = true) :
    s.withoutComments = s := by
  cases s with
  | exportDecl p s ns d => rw [Stmt.withoutComments, Stmt.withoutComments_of_isPlain s hs]
  | function | ifThen | ifElse | forLoop | whileLoop => cases hs
  | _ => rfl

theorem Stmt.isPlain_bare (s : Stmt) : s.bare.isPlain = s.isPlain := by
  cases s with
  | exportDecl p s ns d => rw [Stmt.bare, Stmt.isPlain, Stmt.isPlain, Stmt.isPlain_bare s]
  | _ => rfl

mutual

theorem Stmt.native_withoutComments (s : Stmt) (h : s.native = true) :
    s.withoutComments.native = true := by
  cases s with
  | exportDecl p s ns d =>
    rw [Stmt.withoutComments, Stmt.native]
    exact Stmt.native_withoutComments s (by simpa [Stmt.native] using h)
  | function p n ps b =>
    rw [Stmt.withoutComments, Stmt.native]
    exact Stmt.nativeAll_withoutComments b (by simpa [Stmt.native] using h)
  | ifThen p t y =>
    rw [Stmt.native, Bool.and_eq_true] at h
    rw [Stmt.withoutComments, Stmt.native, h.1, Stmt.nativeAll_withoutComments y h.2]
    rfl
  | ifElse p t y n =>
    rw [Stmt.native, Bool.and_eq_true, Bool.and_eq_true] at h
    rw [Stmt.withoutComments, Stmt.native, h.1.1, Stmt.nativeAll_withoutComments y h.1.2,
      Stmt.nativeAll_withoutComments n h.2]
    rfl
  | forLoop p i t u b =>
    rw [Stmt.native, Bool.and_eq_true] at h
    rw [Stmt.withoutComments, Stmt.native, h.1, Stmt.nativeAll_withoutComments b h.2]
    rfl
  | whileLoop p t b =>
    rw [Stmt.native, Bool.and_eq_true] at h
    rw [Stmt.withoutComments, Stmt.native, h.1, Stmt.nativeAll_withoutComments b h.2]
    rfl
  | _ => exact h

theorem Stmt.nativeAll_withoutComments (ss : List Stmt) (h : Stmt.nativeAll ss = true) :
    Stmt.nativeAll (Stmt.withoutCommentsAll ss) = true := by
  cases ss with
  | nil =>
    rw [Stmt.withoutCommentsAll_nil]
    rfl
  | cons s ss =>
    rw [Stmt.nativeAll, Bool.and_eq_true] at h
    cases hs : s.isComment with
    | true =>
      rw [Stmt.withoutCommentsAll_of_comment hs]
      exact Stmt.nativeAll_withoutComments ss h.2
    | false =>
      rw [Stmt.withoutCommentsAll_cons hs, Stmt.nativeAll, Stmt.native_withoutComments s h.1,
        Stmt.nativeAll_withoutComments ss h.2]
      rfl

end

end Advplc.Script
