import Advplc.Proofs.Layout
import Advplc.Proofs.Lowering.Session
import Advplc.Proofs.Target.Reading
import Advplc.Proofs.Text.Escape

/-!
# String contents

A text that is written as a string literal arrives in generated code as it was (`compile_string`).
On the way it is encoded four times: the literal is found by its quotes, its escapes are replaced,
its lines are taken apart, and each line is put between quotes that do not occur in it.
-/

set_option autoImplicit false

namespace Advplc

open Target (Operand)

/-- The literal with the given inside. -/
def literalText (quote : CodePoint) (inside : Text) : Text := quote :: inside ++ [quote]

/-- The source that assigns a literal to a variable. -/
def assignmentSource (literal : Text) : Text := "x = " ++ literal ++ ";"

/-- The forms of the tokens of that source. -/
def assignmentForms (literal : Text) : List (Kind × Lexeme) :=
  [(.identifier, "x"), (.mark .assign, "="), (.string, literal), (.mark .semicolon, ";")]

/-- The program of that source, if its literal stands for `value`. -/
def assignmentProgram (p q : Pos) (value : Text) : Script.Program :=
  ⟨some Pos.origin,
    [.expr (some p) (.assign (some p) "=" (.name (some p) "x") (.string (some q) value))]⟩

variable {quote : CodePoint} {inside value : Text}

theorem scans_assignment (hquote : quote = '"' ∨ quote = '\'')
    (h : Text.Spells quote inside value) :
    Scans none (assignmentSource (literalText quote inside))
      (assignmentForms (literalText quote inside)) := by
  have hlast : Scans (some .string) [.scalar ';'] [(.mark .semicolon, ";")] :=
    .token (n := 1) rfl (.done _)
  have hliteral : Scans (some (.mark .assign)) (literalText quote inside ++ [.scalar ';'])
      [(.string, literalText quote inside), (.mark .semicolon, ";")] := by
    refine .cons ?_ hlast
    rw [literalText, List.append_assoc]
    exact h.first? hquote _ [.scalar ';']
  have hassign : Scans (some .identifier)
      (.scalar '=' :: .scalar ' ' :: (literalText quote inside ++ [.scalar ';']))
      (assignmentForms (literalText quote inside)).tail :=
    .token (n := 1) rfl ((scans_cons_blank (by decide)).mpr hliteral)
  exact .token (n := 1) rfl ((scans_cons_blank (by decide)).mpr hassign)

theorem parse_assignment {ts : List Token} {literal : Text}
    (h : ts.map Token.form = assignmentForms literal) : ∃ p q, Grammar.parse ts =
      .ok (assignmentProgram p q (literal.trimEnds 1).unescape) := by
  obtain ⟨⟨_, _, p⟩, ts, rfl, hname, h⟩ := List.map_eq_cons_iff.mp h
  obtain ⟨⟨_, _, _⟩, ts, rfl, hassign, h⟩ := List.map_eq_cons_iff.mp h
  obtain ⟨⟨_, _, q⟩, ts, rfl, hstring, h⟩ := List.map_eq_cons_iff.mp h
  obtain ⟨⟨_, _, _⟩, ts, rfl, hend, h⟩ := List.map_eq_cons_iff.mp h
  obtain rfl := List.map_eq_nil_iff.mp h
  cases hname
  cases hassign
  cases hstring
  cases hend
  exact ⟨p, q, rfl⟩

theorem trimEnds_literalText (quote : CodePoint) (inside : Text) :
    (literalText quote inside).trimEnds 1 = inside := by
  simp [Text.trimEnds, literalText]

theorem lowerStmts_assignment (words : Text) (p q : Pos) (value : Text) :
    Lowering.lowerStmts words none (assignmentProgram p q value).body =
      .ok [.line ("x := " ++ (Target.Expr.ofText value).print)] := rfl

/-- **String contents survive the whole pipeline.**  If a text is written as a literal, then the
assignment of the literal is scanned with the literal as one string, read as an assignment of the
text, and compiled to an assignment of an expression that stands for the text, line break by line
break; and no literal in it contains its own quote or a line feed. -/
theorem compile_string (options : Target.Options) (indent : Text)
    (hindent : options.indent = some indent) (hknown : options.unknown = none)
    (hquote : quote = '"' ∨ quote = '\'') (h : Text.Spells quote inside value) :
    let source := assignmentSource (literalText quote inside)
    ∃ ts p q e os, tokenize source Pos.origin = .ok ts ∧
      ts.map Token.form = assignmentForms (literalText quote inside) ∧
      Grammar.parse ts = .ok (assignmentProgram p q value) ∧
      (compile options source).outcome =
        .ok (Target.file (Target.header options.since ++ [("x := " : Text) ++ e])) ∧
      Target.readString e = some os ∧ os.flatMap Operand.signs = Target.signs value ∧
      ∀ o ∈ os, o.Sound := by
  intro source
  have hreturn : (.scalar '\r') ∉ source := by
    have hinside := h.return_not_mem hquote
    obtain rfl | rfl := hquote <;>
      simp [source, assignmentSource, literalText, Text.ofString, hinside]
  have hscans : Scans none source.joinLineEnds (assignmentForms (literalText quote inside)) := by
    rw [joinLineEnds_of_not_mem hreturn]
    exact scans_assignment hquote h
  obtain ⟨ts, htokens, hforms⟩ := (tokenize_eq_ok_iff Pos.origin).mp hscans
  obtain ⟨p, q, hparse⟩ := parse_assignment hforms
  rw [trimEnds_literalText, h.unescape hquote] at hparse
  have hfile : Lowering.generate options (.program (assignmentProgram p q value)) =
      .ok (Target.file (Target.header options.since ++
        [("x := " : Text) ++ (Target.Expr.ofText value).print])) := by
    refine Lowering.generate_eq_ok_iff.mpr
      ⟨indent, _, hindent, hknown, lowerStmts_assignment _ p q value, ?_⟩
    exact congrArg (fun lines ↦ Target.file (_ ++ lines)) (Target.map_render_outer indent [_]).symm
  obtain ⟨os, hread, hsigns, hsound⟩ := Target.readString_ofText value
  exact ⟨ts, p, q, _, os, htokens, hforms, hparse,
    outcome_eq_ok_iff.mpr ⟨ts, _, htokens, hparse, hfile⟩, hread, hsigns, hsound⟩

/-- The literal `"\"'\u000a\\"`, whose value holds both quotes, a line feed and a backslash. -/
theorem compile_string_sample :
    let inside : Text := "\\\"'\\u000a\\\\"
    let value : Text := "\"'\n\\"
    let source := assignmentSource (literalText '"' inside)
    Text.Spells '"' inside value ∧
    ∃ ts p q e os, tokenize source Pos.origin = .ok ts ∧
      ts.map Token.form = assignmentForms (literalText '"' inside) ∧
      Grammar.parse ts = .ok (assignmentProgram p q value) ∧
      (compile {} source).outcome =
        .ok (Target.file (Target.header none ++ [("x := " : Text) ++ e])) ∧
      Target.readString e = some os ∧ os.flatMap Operand.signs = Target.signs value ∧
      ∀ o ∈ os, o.Sound := by
  intro inside value source
  have hspells : Text.Spells '"' inside value := by
    refine .escaped (.inr rfl) (.raw (by decide) (by decide) (by decide) (by decide) ?_)
    exact .numbered ⟨0, 0, 0, 10, by decide⟩ (.escaped (.inl rfl) .nil)
  exact ⟨hspells, compile_string {} "    " rfl rfl (.inl rfl) hspells⟩

end Advplc
