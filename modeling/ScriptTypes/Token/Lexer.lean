import ScriptTypes.Text.Bytes
import ScriptTypes.Token.Scan

/-! From text to lexemes. Templates may hold scripts and scripts may hold templates, so the lexer is in one of two
modes and keeps a stack of the modes it has left. Outside of templates it counts the braces that are open: a
closing brace with none open ends the interpolation. -/

namespace ScriptTypes

inductive Mode where
  /-- Script text, with the number of braces opened since the mode was entered. -/
  | plain (braces : Nat)
  /-- Template text, with the offset of the opening backtick. -/
  | template (start : Nat)
deriving DecidableEq, Repr

/-- The mode the lexer is in and the modes it has left, the latest first. -/
structure Modes where
  current : Mode
  left : List Mode
deriving DecidableEq, Repr

namespace Modes

def initial : Modes := ⟨.plain 0, []⟩

def enterTemplate (start : Nat) : Modes → Modes
  | ⟨.plain n, left⟩ => ⟨.template start, .plain n :: left⟩
  | modes => modes

def leaveTemplate : Modes → Modes
  | ⟨.template _, .plain n :: left⟩ => ⟨.plain n, left⟩
  | modes => modes

def enterInterpolation : Modes → Modes
  | ⟨.template start, left⟩ => ⟨.plain 0, .template start :: left⟩
  | modes => modes

def leaveInterpolation : Modes → Modes
  | ⟨.plain _, .template start :: left⟩ => ⟨.template start, left⟩
  | modes => modes

def openBrace : Modes → Modes
  | ⟨.plain n, left⟩ => ⟨.plain (n + 1), left⟩
  | modes => modes

/-- A closing brace matches an open one, or ends the interpolation, or is left to the parser. -/
def closeBrace : Modes → Modes
  | ⟨.plain (n + 1), left⟩ => ⟨.plain n, left⟩
  | ⟨.plain 0, .template start :: left⟩ => leaveInterpolation ⟨.plain 0, .template start :: left⟩
  | modes => modes

/-- The modes after a token that starts at an offset. -/
def after (modes : Modes) (start : Nat) : Token → Modes
  | .symbol .backtick => modes.enterTemplate start
  | .symbol .lBrace => modes.openBrace
  | .symbol .rBrace => modes.closeBrace
  | .interpolation => modes.enterInterpolation
  | .templateEnd => modes.leaveTemplate
  | _ => modes

/-- The longest lexeme in the current mode. -/
def scan (modes : Modes) : Char → List Char → Scan :=
  match modes.current with
  | .plain _ => Scan.plain
  | .template _ => Scan.template

end Modes

structure LexError where
  fault : LexFault
  start : Nat
  stop : Nat
deriving DecidableEq, Repr

/-- The lexemes up to the end or the first error. -/
structure Lexed where
  lexemes : List Lexeme
  error : Option LexError
deriving DecidableEq, Repr

namespace Lexed

def cons (l : Lexeme) (x : Lexed) : Lexed :=
  ⟨l :: x.lexemes, x.error⟩

def atEnd (modes : Modes) : Lexed :=
  match modes.current with
  | .plain _ => ⟨[], none⟩
  | .template start => ⟨[], some ⟨.openTemplate, start, start + 1⟩⟩

/-- Read on from an offset. The flag says whether a line break has been passed since the last lexeme. -/
def read (modes : Modes) (afterBreak : Bool) (offset : Nat) : List Char → Lexed
  | [] => atEnd modes
  | c :: cs =>
      match modes.scan c cs with
      | .gap more =>
          let gap := c :: cs.take more
          read modes (afterBreak || gap.contains '\n') (offset + Text.byteLength gap) (cs.drop more)
      | .token token more =>
          let stop := offset + Text.byteLength (c :: cs.take more)
          cons ⟨token, offset, stop, afterBreak⟩ (read (modes.after offset token) false stop (cs.drop more))
      | .fault fault more => ⟨[], some ⟨fault, offset, offset + Text.byteLength (c :: cs.take more)⟩⟩
termination_by cs => cs.length
decreasing_by all_goals simp only [List.length_cons, List.length_drop]; omega

end Lexed

def lex (source : String) : Lexed :=
  Lexed.read .initial false 0 source.toList

end ScriptTypes
