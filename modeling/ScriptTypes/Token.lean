import ScriptTypes.Number.Shortest
import ScriptTypes.Text.Quoted

/-! Tokens of scripts. Outside of templates they are names, literals, keywords and symbols; inside they are
pieces of text, escaped characters, the start of an interpolation and the closing backtick. -/

namespace ScriptTypes

inductive Keyword where
  | letWord | constWord | varWord | returnWord | ifWord | elseWord | whileWord | trueWord | falseWord
deriving DecidableEq, Repr

namespace Keyword

def all : List Keyword :=
  [.letWord, .constWord, .varWord, .returnWord, .ifWord, .elseWord, .whileWord, .trueWord, .falseWord]

def text : Keyword → String
  | .letWord => "let"
  | .constWord => "const"
  | .varWord => "var"
  | .returnWord => "return"
  | .ifWord => "if"
  | .elseWord => "else"
  | .whileWord => "while"
  | .trueWord => "true"
  | .falseWord => "false"

def ofText? (word : String) : Option Keyword :=
  all.find? fun k => k.text == word

end Keyword

/-- Words that cannot be identifiers. -/
def keywords : List String :=
  Keyword.all.map Keyword.text

inductive Symbol where
  | lBrace | rBrace | lBracket | rBracket | lParen | rParen
  | comma | semicolon | colon | dot | ellipsis | question | fatArrow
  | equals | doubleEq | tripleEq | notEq | notDoubleEq | lt | le | gt | ge
  | plus | minus | star | doubleStar | slash | percent | doubleAnd | doublePipe | bang | backtick
deriving DecidableEq, Repr

def Symbol.text : Symbol → String
  | .lBrace => "\x7b"
  | .rBrace => "\x7d"
  | .lBracket => "["
  | .rBracket => "]"
  | .lParen => "("
  | .rParen => ")"
  | .comma => ","
  | .semicolon => ";"
  | .colon => ":"
  | .dot => "."
  | .ellipsis => "..."
  | .question => "?"
  | .fatArrow => "=>"
  | .equals => "="
  | .doubleEq => "=="
  | .tripleEq => "==="
  | .notEq => "!="
  | .notDoubleEq => "!=="
  | .lt => "<"
  | .le => "<="
  | .gt => ">"
  | .ge => ">="
  | .plus => "+"
  | .minus => "-"
  | .star => "*"
  | .doubleStar => "**"
  | .slash => "/"
  | .percent => "%"
  | .doubleAnd => "&&"
  | .doublePipe => "||"
  | .bang => "!"
  | .backtick => "`"

inductive Token where
  | ident (name : String)
  | number (value : Magnitude)
  | string (value : String)
  | keyword (word : Keyword)
  | symbol (sym : Symbol)
  /-- Text of a template. -/
  | text (piece : String)
  /-- A character of a template written after a backslash, as it reads. -/
  | escaped (char : Char)
  | interpolation
  | templateEnd
deriving DecidableEq, Repr

namespace Token

/-- How a token is shown in messages. -/
def shown : Token → String
  | .ident name => name
  | .number value => value.text
  | .string value => Text.quoted value
  | .keyword word => word.text
  | .symbol sym => sym.text
  | .text piece => piece
  | .escaped char => String.ofList ['\x5c', char]
  | .interpolation => "$\x7b"
  | .templateEnd => "`"

/-- Tokens that stand inside a template. -/
def inTemplate : Token → Bool
  | .text _ | .escaped _ | .interpolation | .templateEnd => true
  | _ => false

end Token

/-- A token with the bytes it covers, and whether a line break lies between it and the token before. -/
structure Lexeme where
  token : Token
  start : Nat
  stop : Nat
  afterBreak : Bool
deriving DecidableEq, Repr

end ScriptTypes
