import ScriptTypes.Text.Escape
import ScriptTypes.Token

/-! The longest lexeme at the head of a text. A scan is given the first character and the text after it, and
says how many more characters belong to the lexeme. -/

namespace ScriptTypes

inductive LexFault where
  | unknown | openString | openTemplate
deriving DecidableEq, Repr

/-- What stands at the head of a text, with the number of its characters after the first. -/
inductive Scan where
  | gap (more : Nat)
  | token (token : Token) (more : Nat)
  | fault (fault : LexFault) (more : Nat)
deriving Repr

namespace Scan

def isBlank (c : Char) : Bool :=
  c == ' ' || c == '\t' || c == '\r' || c == '\n' || c == '\x0c'

def runLength (p : Char → Bool) (cs : List Char) : Nat :=
  (cs.takeWhile p).length

def word (c : Char) (cs : List Char) : Scan :=
  let name := String.ofList (c :: cs.takeWhile Text.isNamePart)
  let more := runLength Text.isNamePart cs
  match Keyword.ofText? name with
  | some k => .token (.keyword k) more
  | none => .token (.ident name) more

def isHexDigit (c : Char) : Bool :=
  c.isDigit || ('a' ≤ c && c ≤ 'f') || ('A' ≤ c && c ≤ 'F')

def digitValue (c : Char) : Nat :=
  if c.isDigit then c.toNat - 48 else if 'a' ≤ c then c.toNat - 87 else c.toNat - 55

def ofDigits (base : Nat) (cs : List Char) : Nat :=
  cs.foldl (fun n c => base * n + digitValue c) 0

/-- The length of an exponent, which is zero when there is none. -/
def exponentLength : List Char → Nat
  | e :: cs =>
      if e == 'e' || e == 'E' then
        match cs with
        | s :: ds =>
            if s == '+' || s == '-' then
              let n := runLength Char.isDigit ds
              if n = 0 then 0 else n + 2
            else
              let n := runLength Char.isDigit cs
              if n = 0 then 0 else n + 1
        | [] => 0
      else 0
  | [] => 0

/-- The value of an exponent with its letter. -/
def exponentValue : List Char → Int
  | _ :: '-' :: ds => -(ofDigits 10 ds : Int)
  | _ :: '+' :: ds => ofDigits 10 ds
  | _ :: ds => ofDigits 10 ds
  | [] => 0

/-- A number from its digits before and after the point and its exponent. -/
def decimalValue (whole fraction exponent : List Char) : Magnitude :=
  .ofDecimal (ofDigits 10 (whole ++ fraction)) (exponentValue exponent - fraction.length)

/-- The rest of a number after its point, which is preceded by the given number of further characters. -/
def afterPoint (whole cs : List Char) (before : Nat) : Scan :=
  let fraction := cs.takeWhile Char.isDigit
  let tail := cs.drop fraction.length
  let n := exponentLength tail
  .token (.number (decimalValue whole fraction (tail.take n))) (before + fraction.length + n)

/-- A hexadecimal literal has at most 64 bits. -/
def hexadecimal (digits : List Char) : Scan :=
  let n := ofDigits 16 digits
  if n < Nat.pow 2 64 then .token (.number (.ofNat n)) (digits.length + 1)
  else .fault .unknown (digits.length + 1)

def decimal (c : Char) (cs : List Char) : Scan :=
  let digits := cs.takeWhile Char.isDigit
  match cs.drop digits.length with
  | '.' :: rest => afterPoint (c :: digits) rest (digits.length + 1)
  | rest =>
      let n := exponentLength rest
      .token (.number (decimalValue (c :: digits) [] (rest.take n))) (digits.length + n)

def number (c : Char) (cs : List Char) : Scan :=
  match cs with
  | x :: ds =>
      let hex := ds.takeWhile isHexDigit
      if c == '0' && (x == 'x' || x == 'X') && !hex.isEmpty then hexadecimal hex else decimal c cs
  | [] => decimal c cs

/-- The length of the body of a string literal. A line feed ends it, also after a backslash. -/
def stringLength (quote : Char) : List Char → Nat
  | [] => 0
  | [c] => if c = quote || c = '\x5c' || c = '\n' then 0 else 1
  | c :: d :: cs =>
      if c = '\x5c' then if d = '\n' then 0 else stringLength quote cs + 2
      else if c = quote || c = '\n' then 0
      else stringLength quote (d :: cs) + 1

def string (quote : Char) (cs : List Char) : Scan :=
  let n := stringLength quote cs
  match cs.drop n with
  | c :: _ =>
      if c = quote then .token (.string (String.ofList (Text.unescapeChars (cs.take n)))) (n + 1)
      else .fault .openString n
  | [] => .fault .openString n

/-- The length of the rest of a block comment with its closing mark. -/
def commentLength : List Char → Option Nat
  | [] => none
  | [_] => none
  | c :: d :: cs => if c = '*' && d = '/' then some 2 else (commentLength (d :: cs)).map (· + 1)

def symbol (s : Symbol) (more : Nat) : Scan :=
  .token (.symbol s) more

def slash : List Char → Scan
  | '/' :: cs => .gap (1 + runLength (· ≠ '\n') cs)
  | '*' :: cs =>
      match commentLength cs with
      | some n => .gap (1 + n)
      | none => .fault .unknown (1 + cs.length)
  | _ => symbol .slash 0

def point (cs : List Char) : Scan :=
  match cs with
  | '.' :: '.' :: _ => symbol .ellipsis 2
  | c :: _ => if c.isDigit then afterPoint [] cs 0 else symbol .dot 0
  | [] => symbol .dot 0

/-- The longest lexeme outside of templates. -/
def plain (c : Char) (cs : List Char) : Scan :=
  if isBlank c then .gap (runLength isBlank cs)
  else if Text.isNameStart c then word c cs
  else if c.isDigit then number c cs
  else if c = '\x22' || c = '\x27' then string c cs
  else match c with
    | '\x7b' => symbol .lBrace 0
    | '\x7d' => symbol .rBrace 0
    | '[' => symbol .lBracket 0
    | ']' => symbol .rBracket 0
    | '(' => symbol .lParen 0
    | ')' => symbol .rParen 0
    | ',' => symbol .comma 0
    | ';' => symbol .semicolon 0
    | ':' => symbol .colon 0
    | '.' => point cs
    | '?' => symbol .question 0
    | '=' => match cs with
        | '=' :: '=' :: _ => symbol .tripleEq 2
        | '=' :: _ => symbol .doubleEq 1
        | '>' :: _ => symbol .fatArrow 1
        | _ => symbol .equals 0
    | '!' => match cs with
        | '=' :: '=' :: _ => symbol .notDoubleEq 2
        | '=' :: _ => symbol .notEq 1
        | _ => symbol .bang 0
    | '<' => match cs with
        | '=' :: _ => symbol .le 1
        | _ => symbol .lt 0
    | '>' => match cs with
        | '=' :: _ => symbol .ge 1
        | _ => symbol .gt 0
    | '+' => symbol .plus 0
    | '-' => symbol .minus 0
    | '*' => match cs with
        | '*' :: _ => symbol .doubleStar 1
        | _ => symbol .star 0
    | '/' => slash cs
    | '%' => symbol .percent 0
    | '&' => match cs with
        | '&' :: _ => symbol .doubleAnd 1
        | _ => .fault .unknown 0
    | '|' => match cs with
        | '|' :: _ => symbol .doublePipe 1
        | _ => .fault .unknown 0
    | '\x60' => symbol .backtick 0
    | _ => .fault .unknown 0

def isTemplateText (c : Char) : Bool :=
  c ≠ '\x60' && c ≠ '$' && c ≠ '\x5c'

/-- The longest lexeme inside a template. A dollar sign that starts no interpolation is text. -/
def template (c : Char) (cs : List Char) : Scan :=
  if c = '\x60' then .token .templateEnd 0
  else if c = '$' then
    match cs with
    | '\x7b' :: _ => .token .interpolation 1
    | _ => .token (.text "$") 0
  else if c = '\x5c' then
    match cs with
    | d :: _ => .token (.escaped (Text.escapedChar d)) 1
    | [] => .fault .unknown 0
  else .token (.text (String.ofList (c :: cs.takeWhile isTemplateText))) (runLength isTemplateText cs)

end Scan

end ScriptTypes
