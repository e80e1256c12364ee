import Advplc.Compile
import Advplc.Proofs.Grammar.Faults
import Advplc.Proofs.Grammar.Regular
import Advplc.Proofs.Lowering.Refusal
import Advplc.Proofs.Lowering.Session

/-!
# How compilation can fail

A source fails in the lexer, in the grammar or in code generation.  In the grammar it fails with a
fault that says what was wanted, what was found and where (`reported_of_parse`).  In code generation
it fails for one reason only, a `push` that does not append exactly one element, and it does so
whenever the program holds such a `push` (`compile_fails`).

No other failure of code generation is left: what is parsed has no operator without a counterpart
and no node of an unknown sort (`regular_of_tokenize`), and the remaining ones are the fault of
options.
-/

set_option autoImplicit false

namespace Advplc

open Script Lowering

/-- Whether an error is an error of the lexer, a fault that says what was wanted, what was found and
where, or a `push` with the wrong number of arguments. -/
def CompileError.Documented : CompileError → Prop
  | lexical _ => True
  | grammatical f => f.Reported
  | generation f => ∃ n pos, f = .refused ⟨.pushCount n, pos⟩

section Generation

variable {options : Target.Options} {indent : Text} {source : Text} {ts : List Token} {p : Program}

/-- What becomes of a program that was parsed: a file, unless something in it is refused. -/
theorem generate_judged (hindent : options.indent = some indent) (hknown : options.unknown = none)
    (htokens : tokenize source Pos.origin = .ok ts) (hparse : Grammar.parse ts = .ok p) :
    (∃ file, Stmt.someRefused p.body = false ∧
      generate options (.program p) = .ok file) ∨
    ∃ n pos, Stmt.someRefused p.body = true ∧
      generate options (.program p) = .error (.refused ⟨.pushCount n, pos⟩) := by
  have hnative := Grammar.native_of_written (Grammar.written_of_tokenize htokens hparse)
  have hregular := Grammar.regular_of_tokenize htokens hparse
  have hcode := lowerStmts_judged options.functionWords none p.body hnative hregular
  rw [generate_eq hindent hknown]
  generalize lowerStmts options.functionWords none p.body = code at hcode
  generalize Stmt.someRefused p.body = refused at hcode
  cases hcode with
  | ok code => exact .inl ⟨_, rfl, rfl⟩
  | @error k n hcause =>
    refine .inr ⟨n, k.error.pos, rfl, ?_⟩
    rw [← hcause]
    rfl

end Generation

/-- **Compilation fails only in the documented ways.**  With an indentation, and without an option
that does not exist, a source is compiled to a file or fails with an error of the lexer, with a
fault that says what was wanted, what was found and where, or because of a `push` with the wrong
number of arguments.  Where the source is parsed, it fails for the last reason if and only if some
call of `push` in the program, at any depth, does not have one argument, and is not a statement of
its own with several. -/
theorem compile_fails (options : Target.Options) (indent source : Text)
    (hindent : options.indent = some indent) (hknown : options.unknown = none) :
    ((∃ file, (compile options source).outcome = .ok file) ∨
      ∃ e, (compile options source).outcome = .error e ∧ e.Documented) ∧
    ∀ ts p, tokenize source Pos.origin = .ok ts → Grammar.parse ts = .ok p →
      ((∃ n pos, (compile options source).outcome =
          .error (.generation (.refused ⟨.pushCount n, pos⟩))) ↔
        ∃ x ∈ Stmt.partsAll p.body, x.miscounts = true) := by
  cases htokens : tokenize source Pos.origin with
  | error e =>
    have hout : (compile options source).outcome = .error (.lexical e) := by rw [compile, htokens]
    refine ⟨.inr ⟨_, hout, trivial⟩, ?_⟩
    intro ts p h
    cases h
  | ok ts =>
    cases hparse : Grammar.parse ts with
    | error f =>
      have hout : (compile options source).outcome = .error (.grammatical f) := by
        simp only [compile, htokens, hparse]
      refine ⟨.inr ⟨_, hout, Grammar.reported_of_parse htokens hparse⟩, ?_⟩
      rintro _ p ⟨⟩ h
      rw [hparse] at h
      cases h
    | ok p =>
      have hout : (compile options source).outcome =
          (generate options (.program p)).mapError CompileError.generation := by
        simp only [compile, htokens, hparse]
      have hparts : Stmt.someRefused p.body = true ↔
          ∃ x ∈ Stmt.partsAll p.body, x.miscounts = true := List.any_eq_true
      have hjudged := generate_judged hindent hknown htokens hparse
      constructor
      · obtain ⟨file, -, hfile⟩ | ⟨n, pos, -, herror⟩ := hjudged
        · exact .inl ⟨file, by rw [hout, hfile]; rfl⟩
        · have hrefused : (compile options source).outcome =
              .error (.generation (.refused ⟨.pushCount n, pos⟩)) := by rw [hout, herror]; rfl
          exact .inr ⟨_, hrefused, n, pos, rfl⟩
      · rintro _ q ⟨⟩ h
        obtain rfl : p = q := Except.ok.inj (hparse.symm.trans h)
        rw [← hparts]
        obtain ⟨file, hrefused, hfile⟩ | ⟨n, pos, hrefused, herror⟩ := hjudged
        · rw [hout, hfile, hrefused]
          constructor
          · rintro ⟨_, _, h⟩
            cases h
          · intro h
            cases h
        · rw [hout, herror, hrefused]
          exact ⟨fun _ ↦ rfl, fun _ ↦ ⟨n, pos, rfl⟩⟩

/-- The source `a.push(1,2);x=a.push();`, where only the second `push` is refused. -/
theorem compile_fails_sample :
    let source : Text := "a.push(1,2);x=a.push();"
    let ts : List Token :=
      [⟨.identifier, "a", ⟨1, 1⟩⟩, ⟨.mark .dot, ".", ⟨1, 2⟩⟩, ⟨.identifier, "push", ⟨1, 3⟩⟩,
       ⟨.mark .openParen, "(", ⟨1, 7⟩⟩, ⟨.number, "1", ⟨1, 8⟩⟩, ⟨.mark .comma, ",", ⟨1, 9⟩⟩,
       ⟨.number, "2", ⟨1, 10⟩⟩, ⟨.mark .closeParen, ")", ⟨1, 11⟩⟩,
       ⟨.mark .semicolon, ";", ⟨1, 12⟩⟩, ⟨.identifier, "x", ⟨1, 13⟩⟩,
       ⟨.mark .assign, "=", ⟨1, 14⟩⟩, ⟨.identifier, "a", ⟨1, 15⟩⟩, ⟨.mark .dot, ".", ⟨1, 16⟩⟩,
       ⟨.identifier, "push", ⟨1, 17⟩⟩, ⟨.mark .openParen, "(", ⟨1, 21⟩⟩,
       ⟨.mark .closeParen, ")", ⟨1, 22⟩⟩, ⟨.mark .semicolon, ";", ⟨1, 23⟩⟩]
    tokenize source Pos.origin = .ok ts ∧ (∃ p, Grammar.parse ts = .ok p ∧
      (Stmt.partsAll p.body).map Script.Part.miscounts =
        [false, false, false, false, false, false, false, true, false, false]) ∧
      ∃ n pos, (compile {} source).outcome =
        .error (.generation (.refused ⟨.pushCount n, pos⟩)) := by
  intro source ts
  have htokens : tokenize source Pos.origin = .ok ts := tokenize_of_toOption (by decide +kernel)
  have hparse : ∃ p, Grammar.parse ts = .ok p ∧ (Stmt.partsAll p.body).map Script.Part.miscounts =
      [false, false, false, false, false, false, false, true, false, false] := ⟨_, rfl, rfl⟩
  obtain ⟨p, hp, hparts⟩ := hparse
  refine ⟨htokens, ⟨p, hp, hparts⟩, ?_⟩
  refine ((compile_fails {} _ source rfl rfl).2 ts p htokens hp).mpr ?_
  have hmem : true ∈ (Stmt.partsAll p.body).map Script.Part.miscounts := by
    rw [hparts]
    decide
  exact List.mem_map.mp hmem

end Advplc
