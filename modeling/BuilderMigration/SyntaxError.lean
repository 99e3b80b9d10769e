/-! Why a text is not read as source code, and where. -/

namespace BuilderMigration

/-- The construct during which the text ended. -/
inductive Unfinished where
  | text | genericArguments | item | parameterList | afterDot
  | awaiting (what : String)
  deriving DecidableEq

/-- What is wrong at a place of the text. Texts of tokens are given as the tokens have them. -/
inductive SyntaxError.Cause where
  | openRawString
  | openComment
  | strayText (snippet : String)
  | endOfText (during : Unfinished)
  | expected (what found : String)
  | unexpectedToken (found : String)
  | mismatchedDelimiter (found : String)
  | unbalancedDelimiter (found : String)
  | missingPattern
  deriving DecidableEq

/-- A cause with its line and column; both are zero where the text simply ends. -/
structure SyntaxError where
  cause : SyntaxError.Cause
  line : Nat := 0
  column : Nat := 0
  deriving DecidableEq

namespace SyntaxError

/-- A fault that is noticed at the end of the text has no place. -/
def atEnd (during : Unfinished) : SyntaxError := { cause := .endOfText during }

def Cause.message : Cause → String
  | openRawString => "Unterminated raw string"
  | openComment => "Unterminated block comment"
  | strayText snippet => "Illegal character '" ++ snippet ++ "...'"
  | endOfText .text => "Unexpected End of File."
  | endOfText .genericArguments => "Unexpected End of File inside generic arguments."
  | endOfText .item => "Unexpected End of File inside item."
  | endOfText .parameterList => "Unexpected End of File in parameter list."
  | endOfText .afterDot => "Unexpected End of File after '.'."
  | endOfText (.awaiting what) => "Unexpected End of File, expected " ++ what ++ "."
  | expected what found => "Expected " ++ what ++ ", got '" ++ found ++ "'"
  | unexpectedToken found => "Unexpected token '" ++ found ++ "'"
  | mismatchedDelimiter found => "Mismatched delimiter '" ++ found ++ "'"
  | unbalancedDelimiter found => "Unbalanced delimiter '" ++ found ++ "'"
  | missingPattern => "Expected pattern"

/-- The wording of an error, with its place when it has a line. -/
def message (e : SyntaxError) : String :=
  if e.line = 0 then e.cause.message
  else e.cause.message ++ " (line " ++ toString e.line ++ ", col " ++ toString e.column ++ ")"

end SyntaxError

end BuilderMigration
