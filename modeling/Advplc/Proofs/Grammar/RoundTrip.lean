import Advplc.Proofs.Grammar.Completeness.Statement

/-!
# Every rendering of a program parses back to it

`Renders p ts` says that the tokens `ts` write the program `p`: each node with its own tokens, in
parentheses where it would otherwise stand in a slot that is too tight for it, and with whatever
further parentheses, braces and commas the grammar allows.  A program that is not well formed, with
an operator outside the tables, an assignment to something else than a name or a property, or a name
that is read as a literal, has no rendering.

`parse_rendering` is the round trip: whatever the rendering, the parser gives the program back.
-/

set_option autoImplicit false

namespace Advplc.Grammar

open Script

/-! ## Climbing -/

section Climbing

variable {templates : Text → List Text → List Expr → Prop} {e : Expr} {ts : List Token}

/-- An operand may stand on every level of binary operators. -/
theorem Written.climb {levels : List (List Kind)} (hlevels : levels <:+ binaryLevels)
    (h : Written templates (.expr (.binary []) e) ts) :
    Written templates (.expr (.binary levels) e) ts := by
  induction levels with
  | nil => exact h
  | cons ops tighter ih =>
    exact .toBinary hlevels (ih ((List.suffix_cons ops tighter).trans hlevels))

/-- What may stand on a level of binary operators may stand on every looser level. -/
theorem Written.loosen {levels : List (List Kind)} (hlevels : levels <:+ binaryLevels)
    (h : Written templates (.expr (.binary levels) e) ts) :
    Written templates (.expr (.binary binaryLevels) e) ts := by
  obtain ⟨looser, hall⟩ := hlevels
  suffices hclimb : ∀ pre, pre ++ levels <:+ binaryLevels →
      Written templates (.expr (.binary (pre ++ levels)) e) ts by
    have := hclimb looser (hall ▸ List.suffix_rfl)
    rwa [hall] at this
  intro pre hpre
  induction pre with
  | nil => exact h
  | cons ops pre ih => exact .toBinary hpre (ih ((List.suffix_cons ops _).trans hpre))

/-- A primary expression may be an operand. -/
theorem Written.ofPrimary (h : Written templates (.expr .primary e) ts) :
    Written templates (.expr (.binary []) e) ts :=
  .toUnary (.toSuffixed (.toIndexed (.toChained h)))

/-- A binary expression is an expression. -/
theorem Written.ofBinary (h : Written templates (.expr (.binary binaryLevels) e) ts) :
    Written templates (.expr .assignment e) ts := .toAssignment (.toConditional h)

end Climbing

/-! ## The round trip -/

/-- The tokens `ts` render the program `p`, which holds no template. -/
def Renders (p : Program) (ts : List Token) : Prop :=
  WrittenStmt (fun _ _ _ ↦ False) (.stmts p.body) ts

/-- **Every rendering of a program parses back to that program.** -/
theorem parse_rendering (p : Program) (ts : List Token) (h : Renders p ts) :
    ∃ q, parse ts = .ok q ∧ Root.same (.program p) (.program q) = true := by
  obtain ⟨q, hparse, hbare⟩ := parse_of_written h fun _ _ _ hfalse ↦ hfalse.elim
  have hnative := h.native fun _ _ _ hfalse ↦ hfalse.elim
  exact ⟨q, hparse, (Root.same_iff p q hnative).mpr hbare.symm⟩

/-- An identifier at the beginning of a source. -/
def identifierToken (n : Text) : Token := ⟨.identifier, n, Pos.origin⟩

/-- A mark at the beginning of a source. -/
def markToken (m : Mark) : Token := ⟨.mark m, m.spelling, Pos.origin⟩

/-- The program `if (a) x = (b || c) * -d; else x++;`, which has to keep its parentheses. -/
theorem parse_rendering_sample :
    let name (n : Text) : Expr := .name none n
    let p : Program := ⟨none, [.ifElse none (name "a")
      [.expr none (.assign none "=" (name "x") (.binary none "*"
        (.binary none "||" (name "b") (name "c")) (.unary none "-" (name "d"))))]
      [.expr none (.update none "++" .after (name "x"))]]⟩
    let ts : List Token :=
      [⟨.keyword .ifWord, "if", Pos.origin⟩, markToken .openParen, identifierToken "a",
       markToken .closeParen, identifierToken "x", markToken .assign, markToken .openParen,
       identifierToken "b", markToken .or, identifierToken "c", markToken .closeParen,
       markToken .star, markToken .minus, identifierToken "d", markToken .semicolon,
       ⟨.keyword .elseWord, "else", Pos.origin⟩, identifierToken "x", markToken .increment,
       markToken .semicolon]
    Renders p ts ∧ ∃ q, parse ts = .ok q ∧ Root.same (.program p) (.program q) = true := by
  intro name p ts
  have hname : ∀ n : Text, n ∉ (["true", "false", "null", "undefined"] : List Text) →
      Written (fun _ _ _ ↦ False) (.expr .primary (name n)) [identifierToken n] := by
    intro n hn
    refine .name none (identifierToken n) rfl ?_
    simpa [identifierToken] using hn
  have hor := Written.binary none (markToken .or) List.suffix_rfl (by decide)
    (.climb List.suffix_rfl (.ofPrimary (hname "b" (by decide))))
    (.climb (List.suffix_cons _ _) (.ofPrimary (hname "c" (by decide))))
  have hsum := Written.parentheses (markToken .openParen) (markToken .closeParen) rfl rfl
    hor.ofBinary
  have hminus := Written.unary none (markToken .minus) (by decide)
    (.ofPrimary (hname "d" (by decide)))
  have hlevel : [[Kind.mark .star, .mark .slash, .mark .percent]] <:+ binaryLevels := by decide
  have hproduct := Written.binary none (markToken .star) hlevel (by decide)
    (.toBinary hlevel hsum.ofPrimary) hminus
  have hassign := Written.assign none (markToken .assign) (by decide) rfl
    (.climb List.suffix_rfl (.ofPrimary (hname "x" (by decide))))
    (.ofBinary (.toBinary (by decide) (.toBinary (by decide) (.toBinary (by decide)
      (.toBinary (by decide) (.toBinary (by decide) hproduct))))))
  have hupdate := Written.updateAfter none (markToken .increment) (by decide)
    (.toIndexed (.toChained (hname "x" (by decide))))
  have hyes := WrittenStmt.expr none (markToken .semicolon) rfl hassign
  have hno := WrittenStmt.expr none (markToken .semicolon) rfl
    (.ofBinary (.climb List.suffix_rfl (.toUnary hupdate)))
  have hif := WrittenStmt.ifElse none ⟨.keyword .ifWord, "if", Pos.origin⟩ (markToken .openParen)
    (markToken .closeParen) ⟨.keyword .elseWord, "else", Pos.origin⟩ rfl rfl rfl rfl
    (.ofBinary (.climb List.suffix_rfl (.ofPrimary (hname "a" (by decide)))))
    (.single (by decide) hyes) (.single (by decide) hno)
  have hrenders : Renders p ts := .cons hif .nil
  exact ⟨hrenders, parse_rendering p ts hrenders⟩

end Advplc.Grammar
