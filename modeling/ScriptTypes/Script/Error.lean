import ScriptTypes.Source.Span
import ScriptTypes.Token.Lexer

/-! Why a text is no script. -/

namespace ScriptTypes

inductive SyntaxError where
  | invalidToken (span : Span)
  | openString (span : Span)
  | openTemplate (span : Span)
  | unexpectedToken (found expected : String) (span : Span)
  | unexpectedEnd (expected : String) (span : Span)
deriving DecidableEq, Repr

namespace SyntaxError

def ofLexError (file : Nat) (e : LexError) : SyntaxError :=
  let span : Span := .ofRange file e.start e.stop
  match e.fault with
  | .unknown => .invalidToken span
  | .openString => .openString span
  | .openTemplate => .openTemplate span

def span : SyntaxError → Span
  | .invalidToken s | .openString s | .openTemplate s | .unexpectedToken _ _ s | .unexpectedEnd _ s => s

def message : SyntaxError → String
  | .invalidToken _ => "invalid token"
  | .openString _ => "unterminated string literal"
  | .openTemplate _ => "unterminated template literal"
  | .unexpectedToken found expected _ => "unexpected token `" ++ found ++ "`, expected " ++ expected
  | .unexpectedEnd expected _ => "unexpected end of input, expected " ++ expected

end SyntaxError

end ScriptTypes
