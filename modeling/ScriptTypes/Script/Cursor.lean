import ScriptTypes.Script.Error
import ScriptTypes.Script.Tree

/-! A reading position among the lexemes of a script. What is read comes with a new position that is shown to be
nearer to the end, so that reading ends. -/

namespace ScriptTypes

/-- The file that is read and the length of its text. -/
structure Input where
  file : Nat
  length : Nat

structure Cursor where
  rest : List Lexeme
  last : Option Lexeme
  nextId : Nat

/-- The number of lexemes that are left. -/
def Cursor.size (c : Cursor) : Nat :=
  c.rest.length

/-- A value that has been read, leaving fewer lexemes than the bound. -/
structure Parsed (α : Type) (bound : Nat) where
  value : α
  next : Cursor
  within : next.size < bound

namespace Cursor

theorem size_lt_succ (c : Cursor) : c.size < c.size + 1 :=
  Nat.lt_succ_self c.size

theorem size_trans {c c₁ c₂ : Cursor} (h₂ : c₂.size < c₁.size) (h₁ : c₁.size < c.size) : c₂.size < c.size :=
  Nat.lt_trans h₂ h₁

def start (input : Input) (c : Cursor) : Nat :=
  match c.rest with
  | [] => input.length
  | l :: _ => l.start

/-- Where the last lexeme that was read ends. -/
def stop (c : Cursor) : Nat :=
  match c.last with
  | none => 0
  | some l => l.stop

def peek (c : Cursor) : Option Token :=
  c.rest.head?.map Lexeme.token

def isAt (c : Cursor) (s : Symbol) : Bool :=
  c.peek == some (.symbol s)

def span (input : Input) (start stop : Nat) : Position :=
  some (.ofRange input.file start stop)

/-- The span from an offset to the end of what has been read. -/
def spanFrom (input : Input) (start : Nat) (c : Cursor) : Position :=
  span input start c.stop

/-- Loose equality is no part of the language, and a reader who meets it is told so. -/
def expectation (expected : String) : Token → String
  | .symbol .doubleEq | .symbol .notEq => expected ++ " (only strict equality `===` and `!==` is supported)"
  | _ => expected

/-- The error at a lexeme, or at the end of the text. -/
def unexpectedAt (input : Input) (found : Option Lexeme) (expected : String) : SyntaxError :=
  match found with
  | some l => .unexpectedToken l.token.shown (expectation expected l.token) (.ofRange input.file l.start l.stop)
  | none => .unexpectedEnd expected (.ofRange input.file input.length input.length)

def unexpected (input : Input) (c : Cursor) (expected : String) : SyntaxError :=
  unexpectedAt input c.rest.head? expected

/-- Pass one lexeme. -/
def advance (c : Cursor) (l : Lexeme) (rest : List Lexeme) : Cursor :=
  { c with rest, last := some l }

/-- The next lexeme, if there is one. -/
def read (c : Cursor) : Option (Parsed Lexeme c.size) :=
  match h : c.rest with
  | [] => none
  | l :: rest => some ⟨l, c.advance l rest, by simp only [size, advance, h, List.length_cons]; omega⟩

def eat (c : Cursor) (s : Symbol) : Option (Parsed Unit c.size) :=
  match c.read with
  | some ⟨l, next, h⟩ => if l.token = .symbol s then some ⟨(), next, h⟩ else none
  | none => none

def expect (input : Input) (c : Cursor) (s : Symbol) : Except SyntaxError (Parsed Unit c.size) :=
  match c.eat s with
  | some p => .ok p
  | none => .error (c.unexpected input ("`" ++ s.text ++ "`"))

def eatKeyword (c : Cursor) (k : Keyword) : Option (Parsed Unit c.size) :=
  match c.read with
  | some ⟨l, next, h⟩ => if l.token = .keyword k then some ⟨(), next, h⟩ else none
  | none => none

/-- Pass a symbol that may be missing. -/
def skip {n : Nat} (c : Cursor) (s : Symbol) (h : c.size < n) : Parsed Unit n :=
  match c.eat s with
  | some ⟨(), next, h'⟩ => ⟨(), next, Nat.lt_trans h' h⟩
  | none => ⟨(), c, h⟩

def ident (input : Input) (c : Cursor) (expected : String) : Except SyntaxError (Parsed Ident c.size) :=
  match c.read with
  | some ⟨l, next, h⟩ =>
      match l.token with
      | .ident name => .ok ⟨⟨name, span input l.start l.stop⟩, next, h⟩
      | _ => .error (c.unexpected input expected)
  | none => .error (c.unexpected input expected)

/-- After a dot and as a key, a keyword is a name too. -/
def propertyName (input : Input) (c : Cursor) : Except SyntaxError (Parsed Ident c.size) :=
  match c.read with
  | some ⟨l, next, h⟩ =>
      match l.token with
      | .ident name => .ok ⟨⟨name, span input l.start l.stop⟩, next, h⟩
      | .keyword word => .ok ⟨⟨word.text, span input l.start l.stop⟩, next, h⟩
      | _ => .error (c.unexpected input "a property name")
  | none => .error (c.unexpected input "a property name")

/-- Build a node that covers what has been read from an offset on. Nodes are numbered as they are built. -/
def finish {α : Type} {n : Nat} (input : Input) (c : Cursor) (start : Nat) (build : Node → α)
    (h : c.size < n) : Parsed α n :=
  ⟨build ⟨c.nextId, c.spanFrom input start⟩, { c with nextId := c.nextId + 1 }, h⟩

/-- Whether an arrow follows the parenthesis that closes the given number of open ones. -/
def arrowAfter : Nat → List Lexeme → Bool
  | _, [] => false
  | depth, l :: rest =>
      match l.token with
      | .symbol .lParen => arrowAfter (depth + 1) rest
      | .symbol .rParen =>
          if depth ≤ 1 then (rest.head?.map Lexeme.token) == some (.symbol .fatArrow)
          else arrowAfter (depth - 1) rest
      | _ => arrowAfter depth rest

/-- Whether an arrow function starts here: a name or a parenthesis that an arrow follows. -/
def atArrow (c : Cursor) : Bool :=
  match c.rest with
  | [] => false
  | l :: rest =>
      match l.token with
      | .ident _ => (rest.head?.map Lexeme.token) == some (.symbol .fatArrow)
      | .symbol .lParen => arrowAfter 1 rest
      | _ => false

end Cursor

end ScriptTypes
