import Advplc.Text.Basic

/-!
# Kinds of tokens

A kind says what a token is, independently of its text.  Reserved words and marks (operators and
punctuation) are two closed lists, each member with its spelling in the source and its name in
messages; names, literals and comments are kinds whose texts vary.  `Kind.endOfInput` stands for the
place behind the last token, and `Kind.other` for a kind that the lexer does not produce.

The order of `Keyword.all` and `Mark.all` is the order in which the lexer tries them.  For the marks
it matters: a mark has to come before every mark that begins it.
-/

set_option autoImplicit false

namespace Advplc

/-- The reserved words. -/
inductive Keyword where
  | importWord | exportWord | fromWord | defaultWord | constWord | letWord | varWord
  | functionWord | returnWord | ifWord | elseWord | forWord | whileWord | breakWord | continueWord
  | asyncWord | awaitWord | tryWord | catchWord | finallyWord | classWord | extendsWord
  | newWord | thisWord | printWord
deriving DecidableEq

namespace Keyword

/-- Every reserved word. -/
def all : List Keyword :=
  [.importWord, .exportWord, .fromWord, .defaultWord, .constWord, .letWord, .varWord,
   .functionWord, .returnWord, .ifWord, .elseWord, .forWord, .whileWord, .breakWord, .continueWord,
   .asyncWord, .awaitWord, .tryWord, .catchWord, .finallyWord, .classWord, .extendsWord,
   .newWord, .thisWord, .printWord]

/-- How a reserved word is written. -/
def spelling : Keyword → Text
  | importWord => "import"
  | exportWord => "export"
  | fromWord => "from"
  | defaultWord => "default"
  | constWord => "const"
  | letWord => "let"
  | varWord => "var"
  | functionWord => "function"
  | returnWord => "return"
  | ifWord => "if"
  | elseWord => "else"
  | forWord => "for"
  | whileWord => "while"
  | breakWord => "break"
  | continueWord => "continue"
  | asyncWord => "async"
  | awaitWord => "await"
  | tryWord => "try"
  | catchWord => "catch"
  | finallyWord => "finally"
  | classWord => "class"
  | extendsWord => "extends"
  | newWord => "new"
  | thisWord => "this"
  | printWord => "print"

/-- What a reserved word is called in messages. -/
def name : Keyword → Text
  | importWord => "IMPORT"
  | exportWord => "EXPORT"
  | fromWord => "FROM"
  | defaultWord => "DEFAULT"
  | constWord => "CONST"
  | letWord => "LET"
  | varWord => "VAR"
  | functionWord => "FUNCTION"
  | returnWord => "RETURN"
  | ifWord => "IF"
  | elseWord => "ELSE"
  | forWord => "FOR"
  | whileWord => "WHILE"
  | breakWord => "BREAK"
  | continueWord => "CONTINUE"
  | asyncWord => "ASYNC"
  | awaitWord => "AWAIT"
  | tryWord => "TRY"
  | catchWord => "CATCH"
  | finallyWord => "FINALLY"
  | classWord => "CLASS"
  | extendsWord => "EXTENDS"
  | newWord => "NEW"
  | thisWord => "THIS"
  | printWord => "PRINT"

theorem mem_all (k : Keyword) : k ∈ all := by cases k <;> decide

end Keyword

/-- The operators and the punctuation. -/
inductive Mark where
  | strictEqual | equal | strictNotEqual | notEqual | greaterEqual | lessEqual | arrow
  | and | or | plusEqual | minusEqual | timesEqual | divideEqual | increment | decrement
  | assign | plus | minus | star | slash | percent | greater | less | not
  | bitAnd | bitOr | bitXor | bitNot
  | openParen | closeParen | openBrace | closeBrace | openBracket | closeBracket
  | semicolon | comma | spread | dot | colon | question
deriving DecidableEq

namespace Mark

/-- Every mark, a longer one before those that begin it. -/
def all : List Mark :=
  [.strictEqual, .equal, .strictNotEqual, .notEqual, .greaterEqual, .lessEqual, .arrow,
   .and, .or, .plusEqual, .minusEqual, .timesEqual, .divideEqual, .increment, .decrement,
   .assign, .plus, .minus, .star, .slash, .percent, .greater, .less, .not,
   .bitAnd, .bitOr, .bitXor, .bitNot,
   .openParen, .closeParen, .openBrace, .closeBrace, .openBracket, .closeBracket,
   .semicolon, .comma, .spread, .dot, .colon, .question]

/-- How a mark is written. -/
def spelling : Mark → Text
  | strictEqual => "==="
  | equal => "=="
  | strictNotEqual => "!=="
  | notEqual => "!="
  | greaterEqual => ">="
  | lessEqual => "<="
  | arrow => "=>"
  | and => "&&"
  | or => "||"
  | plusEqual => "+="
  | minusEqual => "-="
  | timesEqual => "*="
  | divideEqual => "/="
  | increment => "++"
  | decrement => "--"
  | assign => "="
  | plus => "+"
  | minus => "-"
  | star => "*"
  | slash => "/"
  | percent => "%"
  | greater => ">"
  | less => "<"
  | not => "!"
  | bitAnd => "&"
  | bitOr => "|"
  | bitXor => "^"
  | bitNot => "~"
  | openParen => "("
  | closeParen => ")"
  | openBrace => "\x7b"
  | closeBrace => "\x7d"
  | openBracket => "["
  | closeBracket => "]"
  | semicolon => ";"
  | comma => ","
  | spread => "..."
  | dot => "."
  | colon => ":"
  | question => "?"

/-- What a mark is called in messages. -/
def name : Mark → Text
  | strictEqual => "STRICT_EQUAL"
  | equal => "EQUAL"
  | strictNotEqual => "STRICT_NOT_EQUAL"
  | notEqual => "NOT_EQUAL"
  | greaterEqual => "GREATER_EQUAL"
  | lessEqual => "LESS_EQUAL"
  | arrow => "ARROW"
  | and => "AND"
  | or => "OR"
  | plusEqual => "PLUS_EQUAL"
  | minusEqual => "MINUS_EQUAL"
  | timesEqual => "MULTIPLY_EQUAL"
  | divideEqual => "DIVIDE_EQUAL"
  | increment => "INCREMENT"
  | decrement => "DECREMENT"
  | assign => "EQUALS"
  | plus => "PLUS"
  | minus => "MINUS"
  | star => "STAR"
  | slash => "SLASH"
  | percent => "MODULO"
  | greater => "GREATER"
  | less => "LESS"
  | not => "NOT"
  | bitAnd => "BITWISE_AND"
  | bitOr => "BITWISE_OR"
  | bitXor => "BITWISE_XOR"
  | bitNot => "BITWISE_NOT"
  | openParen => "LPAREN"
  | closeParen => "RPAREN"
  | openBrace => "LBRACE"
  | closeBrace => "RBRACE"
  | openBracket => "LBRACKET"
  | closeBracket => "RBRACKET"
  | semicolon => "SEMICOLON"
  | comma => "COMMA"
  | spread => "SPREAD"
  | dot => "DOT"
  | colon => "COLON"
  | question => "QUESTION_MARK"

theorem mem_all (m : Mark) : m ∈ all := by cases m <;> decide

end Mark

/-- What a token is. -/
inductive Kind where
  | keyword (word : Keyword)
  | mark (m : Mark)
  | identifier
  | number
  | string
  | template
  | regex
  | consoleLog
  | lineComment
  | blockComment
  /-- The place behind the last token. -/
  | endOfInput
  /-- A kind of this name that the lexer does not produce. -/
  | other (name : Text)
deriving DecidableEq

namespace Kind

/-- The kinds of the tokens that the lexer produces. -/
def known : List Kind :=
  [.lineComment, .blockComment] ++ Keyword.all.map .keyword ++
    [.consoleLog, .regex, .identifier, .number, .string, .template] ++ Mark.all.map .mark

/-- What a kind is called in messages. -/
def name : Kind → Text
  | keyword word => word.name
  | mark m => m.name
  | identifier => "IDENTIFIER"
  | number => "NUMBER"
  | string => "STRING"
  | template => "TEMPLATE_STRING"
  | regex => "REGEX"
  | consoleLog => "CONSOLE_LOG"
  | lineComment => "COMMENT_LINE"
  | blockComment => "COMMENT_BLOCK"
  | endOfInput => "EOF"
  | other name => name

/-- The kind of this name: one of the known kinds where there is one. -/
def ofName (n : Text) : Kind :=
  ((.endOfInput :: known).find? fun k ↦ k.name = n).getD (.other n)

/-- Whether an operand may end with a token of this kind.  After such a token a slash divides; after
any other it may begin a regular expression. -/
def endsOperand : Kind → Bool
  | identifier | number | string | template | regex => true
  | mark .closeParen | mark .closeBracket | mark .increment | mark .decrement => true
  | keyword .thisWord => true
  | _ => false

end Kind

end Advplc
