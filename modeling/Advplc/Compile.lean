import Advplc.Grammar.Program
import Advplc.Log
import Advplc.Lowering.Session
import Advplc.Text.Blank

/-!
# Compiling a source

`compile` takes a source through all stages: scanning, parsing, generation.  The first stage that
fails decides the error.  `compileOrComment` never fails: it answers an error with a file that is
one comment line, which says what was wrong.
-/

set_option autoImplicit false

namespace Advplc

/-- Why a source cannot be compiled. -/
inductive CompileError where
  | lexical (e : LexError)
  | grammatical (f : Grammar.Fault)
  | generation (f : Lowering.Failure)

namespace CompileError

/-- What the error says. -/
def message : CompileError → Text
  | lexical e => e.message
  | grammatical f => f.message
  | generation f => f.message

/-- Whether the source is at fault, and not the options. -/
def isFlaw : CompileError → Bool
  | lexical _ | grammatical _ | generation (.refused _) => true
  | generation .noIndent | generation (.unknownOption _) => false

end CompileError

/-- The file for a source. -/
def compile (options : Target.Options) (source : Text) : Logged (Except CompileError Text) :=
  match tokenize source Pos.origin with
  | .error e => ⟨[], .error (.lexical e)⟩
  | .ok tokens =>
    let lexed : Record := ⟨.debug, "lexed " ++ Text.ofNat tokens.length ++ " tokens"⟩
    match Grammar.parse tokens with
    | .error f => ⟨[lexed], .error (.grammatical f)⟩
    | .ok p =>
      let parsed : Record :=
        ⟨.debug, "parsed " ++ Text.ofNat p.body.length ++ " top-level statements"⟩
      ⟨[lexed, parsed],
        (Lowering.generate options (.program p)).mapError CompileError.generation⟩

/-- What the comment in place of a file begins with. -/
def errorCommentStart : Text := "// Error in transpilation: "

/-- The comment in place of a file. -/
def errorComment (e : CompileError) : Text := errorCommentStart ++ e.message.squeeze

/-- What is reported about an error. -/
def errorRecord (e : CompileError) : Record :=
  if e.isFlaw then ⟨.error, "transpilation failed: " ++ e.message⟩
  else ⟨.error, "unexpected error during transpilation"⟩

/-- The file for a source, or a comment that says why there is none. -/
def compileOrComment (options : Target.Options) (source : Text) : Logged Text :=
  let r := compile options source
  match r.outcome with
  | .ok file => ⟨r.log, file⟩
  | .error e => ⟨r.log ++ [errorRecord e], errorComment e⟩

end Advplc
