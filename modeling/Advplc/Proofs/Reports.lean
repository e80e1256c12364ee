import Advplc.Proofs.Layout
import Advplc.Proofs.Lowering.Session
import Advplc.Proofs.Text.Blanks

/-!
# One comment line for every failure

`compileOrComment` answers a failure with a file that is one comment.  What the comment quotes comes
from the source, and may hold anything: the code point that begins no token and the text behind it,
the text of a token, a whole expression.  It is still one line, since the message is squeezed, and
it is not mistaken for code, since no file begins like it (`compileOrComment_reports`).
-/

set_option autoImplicit false

namespace Advplc

/-- The code points at which a line may be taken to end: line feed, carriage return, the two
tabulators that move on by lines and pages, the information separators, next line, and the
separators of lines and paragraphs. -/
def lineEnds : Text := "\n\r\x0b\x0c\x1c\x1d\x1e\u0085\u2028\u2029"

/-- Nothing at which a line may end is left in a comment about an error. -/
theorem notMem_lineEnds_of_errorComment (e : CompileError) :
    ∀ c ∈ errorComment e, c ∉ lineEnds := by
  have hblank : ∀ c ∈ lineEnds, c.isBlank = true ∧ c ≠ ' ' := by decide
  have hstart : ∀ c ∈ errorCommentStart, c ∉ lineEnds := by decide
  intro c hc
  rcases List.mem_append.mp hc with hc | hc
  · exact hstart c hc
  · intro hend
    obtain ⟨hb, hspace⟩ := hblank c hend
    exact hspace (Text.eq_space_of_mem_squeeze hc hb)

/-- A file begins with the first line of the header, which is no comment. -/
theorem not_errorCommentStart_of_generate {options : Target.Options} {p : Script.Program}
    {file : Text} (h : Lowering.generate options (.program p) = .ok file) :
    ¬ errorCommentStart <+: file := by
  obtain ⟨indent, code, -, -, -, rfl⟩ := Lowering.generate_eq_ok_iff.mp h
  rw [Target.file_eq_body (by simp [Target.header_ne_nil])]
  rintro ⟨rest, hrest⟩
  have hhead := congrArg List.head? hrest
  simp [errorCommentStart, Text.ofString, Target.body, Target.header, Target.headerTop] at hhead

/-- **A failure is reported as one comment line.**  Where a source is compiled to a file, the report
is the file, and it does not begin like a comment about an error.  Otherwise the report is the
beginning of such a comment and the message of the error, with every run of blanks as one space and
none at the ends; and nothing in it ends a line. -/
theorem compileOrComment_reports (options : Target.Options) (source : Text) :
    let report := (compileOrComment options source).outcome
    match (compile options source).outcome with
    | .ok file => report = file ∧ ¬ errorCommentStart <+: report
    | .error e => report = errorCommentStart ++ e.message.spaced.trim ∧
        ∀ c ∈ report, c ∉ lineEnds := by
  intro report
  rcases hcompile : (compile options source).outcome with e | file
  · have hreport : report = errorComment e := by
      simp only [report, compileOrComment, hcompile]
    refine ⟨?_, hreport ▸ notMem_lineEnds_of_errorComment e⟩
    rw [hreport, errorComment, Text.squeeze_eq]
  · have hreport : report = file := by
      simp only [report, compileOrComment, hcompile]
    obtain ⟨ts, p, -, -, hfile⟩ := outcome_eq_ok_iff.mp hcompile
    exact ⟨hreport, hreport ▸ not_errorCommentStart_of_generate hfile⟩

/-- The source `§`, a line separator, two blanks and `x`, which the message quotes. -/
theorem compileOrComment_reports_sample :
    let source : Text := "§\u2028  x"
    let comment : Text :=
      "// Error in transpilation: Unexpected character '§' at line 1, column 1 (context: \"§ x\")"
    (compileOrComment {} source).outcome = comment ∧ ∀ c ∈ comment, c ∉ lineEnds := by
  intro source comment
  let e : LexError := ⟨.scalar '§', ⟨1, 1⟩, "§\u2028  x"⟩
  have hscan : (scan source Pos.origin).error? = some e := by decide +kernel
  have herror : (compile {} source).outcome = .error (.lexical e) := by
    simp only [compile, tokenize, hscan]
  have hreport := compileOrComment_reports {} source
  simp only [herror, ← Text.squeeze_eq] at hreport
  have hcomment : errorCommentStart ++ (CompileError.lexical e).message.squeeze = comment := by
    decide +kernel
  rw [hcomment] at hreport
  exact ⟨hreport.1, hreport.1 ▸ hreport.2⟩

end Advplc
