import Advplc.Compile
import Advplc.Proofs.Grammar.Places
import Advplc.Proofs.Lowering.Bare

/-!
# Layout has no influence on the file

A source is compiled to the same file when its tokens are written anew, one to a line
(`compile_relaid`).  What stands between the tokens is white space, which the lexer skips, and the
positions that change with it are not read by the parser, neither outside nor inside of templates,
and do not occur in generated code.

Carriage returns are excluded because the lexer drops those before a line feed: a comment that ends
with one would lose it once a line feed follows.
-/

set_option autoImplicit false

namespace Advplc

/-! ## Carriage returns -/

theorem joinLineEnds_of_not_mem {t : Text} (h : (.scalar '\r') ∉ t) : t.joinLineEnds = t := by
  fun_induction Text.joinLineEnds t with
  | case1 rest => simp at h
  | case2 c rest _ ih => rw [ih fun hrest ↦ h (List.mem_cons_of_mem c hrest)]
  | case3 => rfl

theorem Scans.mem_of_mem_spelled {before : Option Kind} {t : Text} {fs : List (Kind × Lexeme)}
    (h : Scans before t fs) {f : Kind × Lexeme} (hf : f ∈ fs) {c : CodePoint}
    (hc : c ∈ f.2.spelled) : c ∈ t := by
  induction h with
  | done => cases hf
  | blank _ _ ih => exact List.mem_of_mem_drop (ih hf)
  | token _ _ ih =>
    obtain rfl | hf := List.mem_cons.mp hf
    · exact List.mem_of_mem_take hc
    · exact List.mem_of_mem_drop (ih hf)

theorem mem_relaid {fs : List (Kind × Lexeme)} {c : CodePoint} (h : c ∈ relaid fs) :
    c = '\n' ∨ ∃ f ∈ fs, c ∈ f.2.spelled := by
  induction fs with
  | nil => cases h
  | cons f fs ih =>
    cases fs with
    | nil => exact .inr ⟨f, List.mem_singleton_self f, by simpa [relaid, Text.joinWith] using h⟩
    | cons g fs =>
      rw [relaid_cons, List.mem_append, List.mem_cons] at h
      obtain h | h | h := h
      · exact .inr ⟨f, List.mem_cons_self, h⟩
      · exact .inl h
      · obtain h | ⟨f', hf', h⟩ := ih h
        · exact .inl h
        · exact .inr ⟨f', List.mem_cons_of_mem f hf', h⟩

/-! ## Compiling a source that was laid out anew -/

theorem outcome_eq_ok_iff {options : Target.Options} {source file : Text} :
    (compile options source).outcome = .ok file ↔
      ∃ ts p, tokenize source Pos.origin = .ok ts ∧ Grammar.parse ts = .ok p ∧
        Lowering.generate options (.program p) = .ok file := by
  rw [compile]
  cases tokenize source Pos.origin with
  | error e => simp
  | ok ts =>
    cases hp : Grammar.parse ts with
    | error f => simp [hp]
    | ok p =>
      cases hfile : Lowering.generate options (.program p) <;> simp [hp, hfile, Except.mapError]

/-- **Layout has no influence on the result.**  If a source without carriage returns is compiled to
a file, then its tokens, written one to a line, are scanned to tokens of the same forms and compiled
to the same file. -/
theorem compile_relaid (options : Target.Options) (source file : Text)
    (hreturn : (.scalar '\r') ∉ source) (h : (compile options source).outcome = .ok file) :
    ∃ ts ts', tokenize source Pos.origin = .ok ts ∧
      tokenize (relaid (ts.map Token.form)) Pos.origin = .ok ts' ∧
      ts'.map Token.form = ts.map Token.form ∧
      (compile options (relaid (ts.map Token.form))).outcome = .ok file := by
  obtain ⟨ts, p, htokens, hparse, hfile⟩ := outcome_eq_ok_iff.mp h
  have hscans := (tokenize_eq_ok_iff Pos.origin).mpr ⟨ts, htokens, rfl⟩
  rw [joinLineEnds_of_not_mem hreturn] at hscans
  have hrelaid : (.scalar '\r') ∉ relaid (ts.map Token.form) := by
    intro hc
    obtain hc | ⟨f, hf, hc⟩ := mem_relaid hc
    · cases hc
    · exact hreturn (hscans.mem_of_mem_spelled hf hc)
  have hagain := scans_relaid hscans (Grammar.apart_of_parse htokens hparse)
  rw [← joinLineEnds_of_not_mem hrelaid] at hagain
  obtain ⟨ts', htokens', hforms⟩ := (tokenize_eq_ok_iff Pos.origin).mp hagain
  obtain ⟨q, hparse', hbare⟩ := Grammar.parse_recast htokens hforms hparse
  have hfile' := Lowering.generate_congr options hbare
  rw [hfile] at hfile'
  refine ⟨ts, ts', htokens, htokens', hforms, outcome_eq_ok_iff.mpr ⟨ts', q, htokens', hparse', ?_⟩⟩
  cases hq : Lowering.generate options (.program q) with
  | error e => rw [hq] at hfile'; cases hfile'
  | ok file' => rw [hq] at hfile'; cases hfile'; rfl

/-- The source `if(a)x=1;//c`, whose last token reaches to the end of its line. -/
theorem compile_relaid_sample :
    let source : Text := "if(a)x=1;//c"
    let file : Text :=
      Target.file (Target.header none ++ (["If a", "    x := 1", "EndIf", "// c"] : List Text))
    (compile {} source).outcome = .ok file ∧
      ∃ ts ts', tokenize source Pos.origin = .ok ts ∧
        tokenize (relaid (ts.map Token.form)) Pos.origin = .ok ts' ∧
        ts'.map Token.form = ts.map Token.form ∧
        (compile {} (relaid (ts.map Token.form))).outcome = .ok file := by
  intro source file
  let ts : List Token :=
    [⟨.keyword .ifWord, "if", ⟨1, 1⟩⟩, ⟨.mark .openParen, "(", ⟨1, 3⟩⟩,
     ⟨.identifier, "a", ⟨1, 4⟩⟩, ⟨.mark .closeParen, ")", ⟨1, 5⟩⟩, ⟨.identifier, "x", ⟨1, 6⟩⟩,
     ⟨.mark .assign, "=", ⟨1, 7⟩⟩, ⟨.number, "1", ⟨1, 8⟩⟩, ⟨.mark .semicolon, ";", ⟨1, 9⟩⟩,
     ⟨.lineComment, "//c", ⟨1, 10⟩⟩]
  have htokens : tokenize source Pos.origin = .ok ts := tokenize_of_toOption (by decide +kernel)
  have hcompiled : (compile {} source).outcome = .ok file :=
    outcome_eq_ok_iff.mpr ⟨ts, _, htokens, rfl, rfl⟩
  exact ⟨hcompiled, compile_relaid {} source file (by decide) hcompiled⟩

end Advplc
