import Advplc.Proofs.Grammar.Tidy
import Advplc.Proofs.Lowering.Lines.Statement
import Advplc.Proofs.Lowering.Session

/-!
# One entry, one line

A file is generated line by line, and a line should not go on in another one.  The texts of strings
and templates are taken apart where they have line feeds, but the keys of objects and the paths of
modules are written as they are.  If the options have no line feeds in them, then all lines of a
file stay on their lines if and only if these texts do (`generate_lines`).
-/

set_option autoImplicit false

namespace Advplc

/-- Whether the texts among the options stay on their lines. -/
structure Target.Options.OneLine (options : Options) : Prop where
  /-- The indentation does. -/
  indent : ∀ t ∈ options.indent, t.broken = false
  /-- The date does. -/
  since : ∀ t ∈ options.since, t.broken = false
  /-- The words before the name of a function do. -/
  functionWords : options.functionWords.broken = false

namespace Target

theorem broken_header {since : Option Text} (h : ∀ t ∈ since, t.broken = false) :
    (header since).any Text.broken = false := by
  rcases since with _ | t
  · decide +kernel
  · simp [header, headerTop, dateLine, headerEnd, h t rfl]

theorem broken_indented {indent : Text} (h : indent.broken = false) (level : Int) (t : Text) :
    (indented indent level t).broken = t.broken := by
  rw [indented]
  split
  · rename_i ht
    rw [List.isEmpty_iff.mp ht]
  · rw [Text.broken_append, Text.broken_times _ h, Bool.false_or]

end Target

namespace Lowering

/-- Indentation breaks no line. -/
theorem broken_codeLines {indent : Text} (h : indent.broken = false) (code : List Target.Code) :
    (codeLines indent code).any Text.broken = Target.Code.someBroken code := by
  rw [codeLines, Target.Code.someBroken, List.any_map]
  congr 1
  funext e
  exact Target.broken_indented h _ e.text

variable {source : Text} {start : Pos} {ts : List Token} {p : Script.Program} {s s' : Session}
  {file : Text}

/-- **The lines of a file go over several lines if and only if a text does that is written as it
is:** the key of an object or the path of a module. -/
theorem Session.generate_lines (hts : tokenize source start = .ok ts)
    (hp : Grammar.parse ts = .ok p) (hoptions : s.options.OneLine)
    (h : s.generate (.program p) = (s', .ok file)) :
    (∃ line ∈ s'.lines, line.broken = true) ↔ ∃ t ∈ verbatimAll p.body, t.broken = true := by
  obtain ⟨indent, code, hindent, hcode, hlines⟩ := Session.lines_of_generate h
  have hbreaks := breaksIn_none.mp (lowerStmts_breaks hoptions.functionWords none p.body
    (Grammar.tidy_of_parse hts hp) code hcode)
  rw [← List.any_eq_true, ← List.any_eq_true, hlines, List.any_append,
    Target.broken_header hoptions.since, broken_codeLines (hoptions.indent indent hindent), hbreaks,
    Bool.false_or]

/-- In `x={a:"b\nc"};` the escape is in a string, which is taken apart. -/
theorem Session.generate_lines_sample :
    let source : Text := "x=\x7ba:\"b\\nc\"\x7d;"
    ∃ ts p s file, tokenize source Pos.origin = .ok ts ∧ Grammar.parse ts = .ok p ∧
      Target.Options.OneLine {} ∧
      Session.generate { options := {} } (.program p) = (s, .ok file) ∧
      ((∃ line ∈ s.lines, line.broken = true) ↔ ∃ t ∈ verbatimAll p.body, t.broken = true) ∧
      ("a" : Text) ∈ verbatimAll p.body ∧ ¬ ∃ line ∈ s.lines, line.broken = true := by
  intro source
  let ts : List Token :=
    [⟨.identifier, "x", ⟨1, 1⟩⟩, ⟨.mark .assign, "=", ⟨1, 2⟩⟩, ⟨.mark .openBrace, "\x7b", ⟨1, 3⟩⟩,
     ⟨.identifier, "a", ⟨1, 4⟩⟩, ⟨.mark .colon, ":", ⟨1, 5⟩⟩, ⟨.string, "\"b\\nc\"", ⟨1, 6⟩⟩,
     ⟨.mark .closeBrace, "\x7d", ⟨1, 12⟩⟩, ⟨.mark .semicolon, ";", ⟨1, 13⟩⟩]
  have hts : tokenize source Pos.origin = .ok ts := tokenize_of_toOption (by decide +kernel)
  have hoptions : Target.Options.OneLine {} := ⟨by simp, by simp, by simp⟩
  have hiff := Session.generate_lines hts rfl hoptions (s := { options := {} }) rfl
  refine ⟨ts, _, _, _, hts, rfl, hoptions, rfl, hiff, ?_, ?_⟩
  · decide +kernel
  · decide +kernel

/-- In `x={"a\nb":1};` the escape is in a key, which goes over two lines. -/
theorem key_over_two_lines :
    let source : Text := "x=\x7b\"a\\nb\":1\x7d;"
    ∃ ts p s file, tokenize source Pos.origin = .ok ts ∧ Grammar.parse ts = .ok p ∧
      Target.Options.OneLine {} ∧
      Session.generate { options := {} } (.program p) = (s, .ok file) ∧
      ("x := \x7b\"a\nb\" => 1\x7d" : Text) ∈ s.lines ∧ ∃ line ∈ s.lines, line.broken = true := by
  intro source
  let ts : List Token :=
    [⟨.identifier, "x", ⟨1, 1⟩⟩, ⟨.mark .assign, "=", ⟨1, 2⟩⟩, ⟨.mark .openBrace, "\x7b", ⟨1, 3⟩⟩,
     ⟨.string, "\"a\\nb\"", ⟨1, 4⟩⟩, ⟨.mark .colon, ":", ⟨1, 10⟩⟩, ⟨.number, "1", ⟨1, 11⟩⟩,
     ⟨.mark .closeBrace, "\x7d", ⟨1, 12⟩⟩, ⟨.mark .semicolon, ";", ⟨1, 13⟩⟩]
  have hts : tokenize source Pos.origin = .ok ts := tokenize_of_toOption (by decide +kernel)
  have hoptions : Target.Options.OneLine {} := ⟨by simp, by simp, by simp⟩
  refine ⟨ts, _, _, _, hts, rfl, hoptions, rfl, ?_, ?_⟩
  · decide +kernel
  · decide +kernel

end Lowering

end Advplc
