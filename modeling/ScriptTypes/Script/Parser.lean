import ScriptTypes.Script.Cursor

/-! From lexemes to syntax trees, by recursive descent. Each reader is given a cursor and returns a nearer one, so
the descent ends: every call either has fewer lexemes left or goes to a tighter construct.

Binary operators have seven levels, from `||` up to `**`. All associate to the left but the last. Semicolons may
be left out, and a line break after `return` ends the statement. -/

namespace ScriptTypes

/-- The operators of a level, from the loosest on. The tightest, `**`, is not among them. -/
def BinaryOp.ofSymbol? : Nat → Symbol → Option BinaryOp
  | 0, .doublePipe => some .or
  | 1, .doubleAnd => some .and
  | 2, .tripleEq => some .strictEq
  | 2, .notDoubleEq => some .strictNeq
  | 3, .lt => some .lt
  | 3, .gt => some .gt
  | 3, .le => some .le
  | 3, .ge => some .ge
  | 4, .plus => some .add
  | 4, .minus => some .sub
  | 5, .star => some .mul
  | 5, .slash => some .div
  | 5, .percent => some .rem
  | _, _ => none

def UnaryOp.ofSymbol? : Symbol → Option UnaryOp
  | .minus => some .neg
  | .plus => some .plus
  | .bang => some .not
  | _ => none

namespace Parser

abbrev Result (α : Type) (bound : Nat) := Except SyntaxError (Parsed α bound)

/-- The names of a pattern after its opening bracket, up to the closing one. -/
def patternIdents (input : Input) (close : Symbol) (c : Cursor) : Result (List Ident) c.size :=
  match c.eat close with
  | some ⟨(), c₁, h₁⟩ => .ok ⟨[], c₁, h₁⟩
  | none => do
      let ⟨id, c₁, h₁⟩ ← c.ident input "an identifier"
      match c₁.eat .comma with
      | some ⟨(), c₂, h₂⟩ =>
          let ⟨ids, c₃, h₃⟩ ← patternIdents input close c₂
          return ⟨id :: ids, c₃, by omega⟩
      | none =>
          let ⟨(), c₂, h₂⟩ ← c₁.expect input close
          return ⟨[id], c₂, by omega⟩
termination_by c.size

def pattern (input : Input) (c : Cursor) : Result Pattern c.size :=
  let start := c.start input
  match c.eat .lBrace with
  | some ⟨(), c₁, h₁⟩ => do
      let ⟨ids, c₂, h₂⟩ ← patternIdents input .rBrace c₁
      return ⟨.object ids (c₂.spanFrom input start), c₂, Cursor.size_trans h₂ h₁⟩
  | none =>
      match c.eat .lBracket with
      | some ⟨(), c₁, h₁⟩ => do
          let ⟨ids, c₂, h₂⟩ ← patternIdents input .rBracket c₁
          return ⟨.array ids (c₂.spanFrom input start), c₂, Cursor.size_trans h₂ h₁⟩
      | none => do
          let ⟨id, c₁, h₁⟩ ← c.ident input "an identifier or a pattern"
          return ⟨.ident id, c₁, h₁⟩

/-- Parameters after the opening parenthesis, up to the closing one. -/
def params (input : Input) (c : Cursor) : Result (List Pattern) c.size :=
  match c.eat .rParen with
  | some ⟨(), c₁, h₁⟩ => .ok ⟨[], c₁, h₁⟩
  | none => do
      let ⟨p, c₁, h₁⟩ ← pattern input c
      match c₁.eat .comma with
      | some ⟨(), c₂, h₂⟩ =>
          let ⟨ps, c₃, h₃⟩ ← params input c₂
          return ⟨p :: ps, c₃, by omega⟩
      | none =>
          let ⟨(), c₂, h₂⟩ ← c₁.expect input .rParen
          return ⟨[p], c₂, by omega⟩
termination_by c.size

/-- The parameters of an arrow function: a list in parentheses or one bare name. -/
def arrowParams (input : Input) (c : Cursor) : Result (List Pattern) c.size :=
  match c.eat .lParen with
  | some ⟨(), c₁, h₁⟩ => do
      let ⟨ps, c₂, h₂⟩ ← params input c₁
      return ⟨ps, c₂, by omega⟩
  | none => do
      let ⟨id, c₁, h₁⟩ ← c.ident input "a parameter"
      return ⟨[.ident id], c₁, h₁⟩

/-- End a statement, with its semicolon if there is one. -/
def finishStatement {n : Nat} (input : Input) (c : Cursor) (start : Nat) (build : Node → Stmt)
    (h : c.size < n) : Parsed (Option Stmt) n :=
  let ⟨(), c₁, h₁⟩ := c.skip .semicolon h
  c₁.finish input start (fun node => some (build node)) h₁

/-- The kind of declaration that a keyword starts. -/
def declKind? : Token → Option DeclKind
  | .keyword .letWord => some .letDecl
  | .keyword .constWord => some .constDecl
  | .keyword .varWord => some .varDecl
  | _ => none

/-- Whether a `return` has no value: at the end, before a line break, a semicolon or a closing brace. -/
def returnEnds (c : Cursor) : Bool :=
  match c.rest with
  | [] => true
  | l :: _ => l.afterBreak || l.token == .symbol .semicolon || l.token == .symbol .rBrace

/-- What a token is inside a template. -/
inductive Piece where
  | text (s : String)
  | interpolation
  | close

def piece? : Token → Option Piece
  | .text s => some (.text s)
  | .escaped char => some (.text (String.singleton char))
  | .interpolation => some .interpolation
  | .templateEnd => some .close
  | .ident _ | .number _ | .string _ | .keyword _ | .symbol _ => none

-- A call has fewer lexemes left, or as many and goes to a tighter one of 22 levels of constructs.
mutual

/-- A statement, or nothing for an empty one. -/
def statement (input : Input) (c : Cursor) : Result (Option Stmt) c.size :=
  let start := c.start input
  match c.read with
  | none => do
      let ⟨e, c₁, h₁⟩ ← assignment input c
      return finishStatement input c₁ start (.expr · e) h₁
  | some ⟨l, c₁, h₁⟩ =>
      match l.token with
      | .symbol .semicolon => .ok ⟨none, c₁, h₁⟩
      | .keyword .returnWord =>
          if returnEnds c₁ then .ok (finishStatement input c₁ start (.ret · none) h₁)
          else do
            let ⟨e, c₂, h₂⟩ ← assignment input c₁
            return finishStatement input c₂ start (.ret · (some e)) (by omega)
      | .symbol .lBrace => do
          let ⟨stmts, c₂, h₂⟩ ← block input c₁
          return finishStatement input c₂ start (.block · stmts) (by omega)
      | .keyword .ifWord => do
          let ⟨test, c₂, h₂⟩ ← parenthesized input c₁
          let ⟨consequent, c₃, h₃⟩ ← requiredStatement input c₂
          match c₃.eatKeyword .elseWord with
          | some ⟨(), c₄, h₄⟩ =>
              let ⟨alternate, c₅, h₅⟩ ← requiredStatement input c₄
              return finishStatement input c₅ start (.cond · test consequent (some alternate)) (by omega)
          | none => return finishStatement input c₃ start (.cond · test consequent none) (by omega)
      | .keyword .whileWord => do
          let ⟨test, c₂, h₂⟩ ← parenthesized input c₁
          let ⟨body, c₃, h₃⟩ ← requiredStatement input c₂
          return finishStatement input c₃ start (.loop · test body) (by omega)
      | token =>
          match declKind? token with
          | some kind => do
              let ⟨decls, c₂, h₂⟩ ← declarators input c₁
              return finishStatement input c₂ start (.decl · kind decls) (by omega)
          | none => do
              let ⟨e, c₂, h₂⟩ ← assignment input c
              return finishStatement input c₂ start (.expr · e) h₂
termination_by 22 * c.size + 20

/-- The statement under an `if` or a `while`, where an empty one is an empty block. -/
def requiredStatement (input : Input) (c : Cursor) : Result Stmt c.size := do
  let start := c.start input
  match ← statement input c with
  | ⟨some stmt, c₁, h₁⟩ => return ⟨stmt, c₁, h₁⟩
  | ⟨none, c₁, h₁⟩ => return c₁.finish input start (.block · []) h₁
termination_by 22 * c.size + 21

/-- The statements of a block after its opening brace, up to the closing one. -/
def block (input : Input) (c : Cursor) : Result (List Stmt) c.size :=
  match c.eat .rBrace with
  | some ⟨(), c₁, h₁⟩ => .ok ⟨[], c₁, h₁⟩
  | none =>
      if c.rest.isEmpty then .error (c.unexpected input "`\x7d`")
      else do
        let ⟨stmt, c₁, h₁⟩ ← statement input c
        let ⟨stmts, c₂, h₂⟩ ← block input c₁
        return ⟨stmt.toList ++ stmts, c₂, by omega⟩
termination_by 22 * c.size + 21

/-- One or more declarators between commas. -/
def declarators (input : Input) (c : Cursor) : Result (List Declarator) c.size := do
  let ⟨decl, c₁, h₁⟩ ← declarator input c
  match c₁.eat .comma with
  | some ⟨(), c₂, h₂⟩ =>
      let ⟨decls, c₃, h₃⟩ ← declarators input c₂
      return ⟨decl :: decls, c₃, by omega⟩
  | none => return ⟨[decl], c₁, h₁⟩
termination_by 22 * c.size + 18

def declarator (input : Input) (c : Cursor) : Result Declarator c.size := do
  let start := c.start input
  let ⟨p, c₁, h₁⟩ ← pattern input c
  match c₁.eat .equals with
  | some ⟨(), c₂, h₂⟩ =>
      let ⟨e, c₃, h₃⟩ ← assignment input c₂
      return ⟨.mk p (some e) (c₃.spanFrom input start), c₃, by omega⟩
  | none => return ⟨.mk p none (c₁.spanFrom input start), c₁, h₁⟩
termination_by 22 * c.size + 17

def parenthesized (input : Input) (c : Cursor) : Result Expr c.size := do
  let ⟨(), c₁, h₁⟩ ← c.expect input .lParen
  let ⟨e, c₂, h₂⟩ ← assignment input c₁
  let ⟨(), c₃, h₃⟩ ← c₂.expect input .rParen
  return ⟨e, c₃, by omega⟩
termination_by 22 * c.size + 17

/-- Any expression: an arrow function, an assignment or something tighter. -/
def assignment (input : Input) (c : Cursor) : Result Expr c.size :=
  if c.atArrow then arrow input c
  else do
    let start := c.start input
    let ⟨target, c₁, h₁⟩ ← conditional input c
    match c₁.eat .equals with
    | some ⟨(), c₂, h₂⟩ =>
        let ⟨value, c₃, h₃⟩ ← assignment input c₂
        return c₃.finish input start (.assign · target value) (by omega)
    | none => return ⟨target, c₁, h₁⟩
termination_by 22 * c.size + 16

def arrow (input : Input) (c : Cursor) : Result Expr c.size := do
  let start := c.start input
  let ⟨ps, c₁, h₁⟩ ← arrowParams input c
  let ⟨(), c₂, h₂⟩ ← c₁.expect input .fatArrow
  let bodyStart := c₂.start input
  match c₂.eat .lBrace with
  | some ⟨(), c₃, h₃⟩ =>
      let ⟨stmts, c₄, h₄⟩ ← block input c₃
      let body : Body := .block stmts (c₄.spanFrom input bodyStart)
      return c₄.finish input start (.arrow · ps body) (by omega)
  | none =>
      let ⟨e, c₃, h₃⟩ ← assignment input c₂
      return c₃.finish input start (.arrow · ps (.expr e)) (by omega)
termination_by 22 * c.size + 15

def conditional (input : Input) (c : Cursor) : Result Expr c.size := do
  let start := c.start input
  let ⟨test, c₁, h₁⟩ ← binary input 0 c
  match c₁.eat .question with
  | some ⟨(), c₂, h₂⟩ =>
      let ⟨consequent, c₃, h₃⟩ ← assignment input c₂
      let ⟨(), c₄, h₄⟩ ← c₃.expect input .colon
      let ⟨alternate, c₅, h₅⟩ ← assignment input c₄
      return c₅.finish input start (.conditional · test consequent alternate) (by omega)
  | none => return ⟨test, c₁, h₁⟩
termination_by 22 * c.size + 14

/-- Operators of a level and the tighter ones. -/
def binary (input : Input) (level : Nat) (c : Cursor) : Result Expr c.size :=
  if level < 6 then do
    let start := c.start input
    let ⟨left, c₁, h₁⟩ ← binary input (level + 1) c
    let ⟨e, c₂, h₂⟩ ← binaryTail input level start left c₁
    return ⟨e, c₂, by omega⟩
  else exponent input c
termination_by 22 * c.size + 7 + (6 - level)

/-- Further operands of a level after the first. -/
def binaryTail (input : Input) (level start : Nat) (left : Expr) (c : Cursor) : Result Expr (c.size + 1) :=
  match c.read with
  | some ⟨l, c₁, h₁⟩ =>
      match l.token with
      | .symbol s =>
          match BinaryOp.ofSymbol? level s with
          | some op => do
              let ⟨right, c₂, h₂⟩ ← binary input (level + 1) c₁
              let ⟨e, c₃, h₃⟩ := c₂.finish (n := c.size) input start (.binary · op left right) (by omega)
              let ⟨e', c₄, h₄⟩ ← binaryTail input level start e c₃
              return ⟨e', c₄, by omega⟩
          | none => .ok ⟨left, c, c.size_lt_succ⟩
      | _ => .ok ⟨left, c, c.size_lt_succ⟩
  | none => .ok ⟨left, c, c.size_lt_succ⟩
termination_by 22 * c.size

/-- Powers associate to the right. -/
def exponent (input : Input) (c : Cursor) : Result Expr c.size := do
  let start := c.start input
  let ⟨base, c₁, h₁⟩ ← unary input c
  match c₁.eat .doubleStar with
  | some ⟨(), c₂, h₂⟩ =>
      let ⟨power, c₃, h₃⟩ ← exponent input c₂
      return c₃.finish input start (.binary · .pow base power) (by omega)
  | none => return ⟨base, c₁, h₁⟩
termination_by 22 * c.size + 6

/-- A minus before a number belongs to the number. -/
def unary (input : Input) (c : Cursor) : Result Expr c.size :=
  let start := c.start input
  match c.read with
  | some ⟨l, c₁, h₁⟩ =>
      match l.token with
      | .symbol s =>
          match UnaryOp.ofSymbol? s with
          | some op => do
              match op, c₁.read with
              | .neg, some ⟨⟨.number n, _, _, _⟩, c₂, h₂⟩ =>
                  return c₂.finish input start (.literal · (.num true n)) (by omega)
              | _, _ =>
                  let ⟨arg, c₂, h₂⟩ ← unary input c₁
                  return c₂.finish input start (.unary · op arg) (by omega)
          | none => access input c
      | _ => access input c
  | none => access input c
termination_by 22 * c.size + 5

/-- Member accesses, calls and tagged templates. -/
def access (input : Input) (c : Cursor) : Result Expr c.size := do
  let start := c.start input
  let ⟨e, c₁, h₁⟩ ← primary input c
  let ⟨e', c₂, h₂⟩ ← accessTail input start e c₁
  return ⟨e', c₂, by omega⟩
termination_by 22 * c.size + 4

def accessTail (input : Input) (start : Nat) (e : Expr) (c : Cursor) : Result Expr (c.size + 1) :=
  match c.read with
  | some ⟨l, c₁, h₁⟩ =>
      match l.token with
      | .symbol .dot => do
          let ⟨label, c₂, h₂⟩ ← c₁.propertyName input
          let ⟨e₁, c₃, h₃⟩ := c₂.finish (n := c.size) input start (.member · e label) (by omega)
          let ⟨e₂, c₄, h₄⟩ ← accessTail input start e₁ c₃
          return ⟨e₂, c₄, by omega⟩
      | .symbol .lBracket => do
          let ⟨key, c₂, h₂⟩ ← assignment input c₁
          let ⟨(), c₃, h₃⟩ ← c₂.expect input .rBracket
          let ⟨e₁, c₄, h₄⟩ := c₃.finish (n := c.size) input start (.index · e key) (by omega)
          let ⟨e₂, c₅, h₅⟩ ← accessTail input start e₁ c₄
          return ⟨e₂, c₅, by omega⟩
      | .symbol .lParen => do
          let ⟨args, c₂, h₂⟩ ← exprs input .rParen c₁
          let ⟨e₁, c₃, h₃⟩ := c₂.finish (n := c.size) input start (.call · e args) (by omega)
          let ⟨e₂, c₄, h₄⟩ ← accessTail input start e₁ c₃
          return ⟨e₂, c₄, by omega⟩
      | .symbol .backtick => do
          let ⟨quasi, c₂, h₂⟩ ← template input c
          let ⟨e₁, c₃, h₃⟩ := c₂.finish (n := c.size) input start (.tagged · e quasi) (by omega)
          let ⟨e₂, c₄, h₄⟩ ← accessTail input start e₁ c₃
          return ⟨e₂, c₄, by omega⟩
      | _ => .ok ⟨e, c, by omega⟩
  | none => .ok ⟨e, c, by omega⟩
termination_by 22 * c.size + 3

/-- Expressions between commas up to a closing symbol. A comma may come last. -/
def exprs (input : Input) (close : Symbol) (c : Cursor) : Result (List Expr) c.size :=
  match c.eat close with
  | some ⟨(), c₁, h₁⟩ => .ok ⟨[], c₁, h₁⟩
  | none => do
      let ⟨e, c₁, h₁⟩ ← assignment input c
      match c₁.eat .comma with
      | some ⟨(), c₂, h₂⟩ =>
          let ⟨es, c₃, h₃⟩ ← exprs input close c₂
          return ⟨e :: es, c₃, by omega⟩
      | none =>
          let ⟨(), c₂, h₂⟩ ← c₁.expect input close
          return ⟨[e], c₂, by omega⟩
termination_by 22 * c.size + 17

def primary (input : Input) (c : Cursor) : Result Expr c.size :=
  let start := c.start input
  match c.read with
  | none => .error (c.unexpected input "an expression")
  | some ⟨l, c₁, h₁⟩ =>
      match l.token with
      | .symbol .backtick => do
          let ⟨quasi, c₂, h₂⟩ ← template input c
          return c₂.finish input start (.template · quasi) h₂
      | .ident name =>
          .ok (c₁.finish input start (.ident · ⟨name, Cursor.span input l.start l.stop⟩) h₁)
      | .number n => .ok (c₁.finish input start (.literal · (.num false n)) h₁)
      | .string s => .ok (c₁.finish input start (.literal · (.str s)) h₁)
      | .keyword .trueWord => .ok (c₁.finish input start (.literal · (.bool true)) h₁)
      | .keyword .falseWord => .ok (c₁.finish input start (.literal · (.bool false)) h₁)
      | .symbol .lParen => do
          let ⟨e, c₂, h₂⟩ ← assignment input c₁
          let ⟨(), c₃, h₃⟩ ← c₂.expect input .rParen
          return ⟨e, c₃, by omega⟩
      | .symbol .lBracket => do
          let ⟨es, c₂, h₂⟩ ← exprs input .rBracket c₁
          return c₂.finish input start (.array · es) (by omega)
      | .symbol .lBrace => do
          let ⟨props, c₂, h₂⟩ ← properties input c₁
          return c₂.finish input start (.object · props) (by omega)
      | _ => .error (c.unexpected input "an expression")
termination_by 22 * c.size + 2

/-- The properties of an object after its opening brace, up to the closing one. -/
def properties (input : Input) (c : Cursor) : Result (List Property) c.size :=
  match c.eat .rBrace with
  | some ⟨(), c₁, h₁⟩ => .ok ⟨[], c₁, h₁⟩
  | none => do
      let ⟨p, c₁, h₁⟩ ← property input c
      match c₁.eat .comma with
      | some ⟨(), c₂, h₂⟩ =>
          let ⟨ps, c₃, h₃⟩ ← properties input c₂
          return ⟨p :: ps, c₃, by omega⟩
      | none =>
          let ⟨(), c₂, h₂⟩ ← c₁.expect input .rBrace
          return ⟨[p], c₂, by omega⟩
termination_by 22 * c.size + 19

/-- A key with its value. A name alone stands for itself as key and as value. -/
def property (input : Input) (c : Cursor) : Result Property c.size := do
  let start := c.start input
  match c.read with
  | some ⟨⟨.string s, kStart, kStop, _⟩, c₁, h₁⟩ =>
      let ⟨value, c₂, h₂⟩ ← propertyValue input c₁
      let key : PropertyKey := .literal (.str s) (Cursor.span input kStart kStop)
      return ⟨.mk key value (c₂.spanFrom input start), c₂, by omega⟩
  | some ⟨⟨.number n, kStart, kStop, _⟩, c₁, h₁⟩ =>
      let ⟨value, c₂, h₂⟩ ← propertyValue input c₁
      let key : PropertyKey := .literal (.num false n) (Cursor.span input kStart kStop)
      return ⟨.mk key value (c₂.spanFrom input start), c₂, by omega⟩
  | some ⟨⟨.symbol .lBracket, _, _, _⟩, c₁, h₁⟩ =>
      let ⟨key, c₂, h₂⟩ ← assignment input c₁
      let ⟨(), c₃, h₃⟩ ← c₂.expect input .rBracket
      let ⟨value, c₄, h₄⟩ ← propertyValue input c₃
      return ⟨.mk (.computed key) value (c₄.spanFrom input start), c₄, by omega⟩
  | _ =>
      let ⟨id, c₁, h₁⟩ ← c.propertyName input
      if c₁.isAt .comma || c₁.isAt .rBrace then
        let value : Expr := .ident ⟨c₁.nextId, id.pos⟩ id
        return ⟨.mk (.ident id) value id.pos, { c₁ with nextId := c₁.nextId + 1 }, h₁⟩
      else
        let ⟨value, c₂, h₂⟩ ← propertyValue input c₁
        return ⟨.mk (.ident id) value (c₂.spanFrom input start), c₂, by omega⟩
termination_by 22 * c.size + 18

/-- The value of a property, after its colon. -/
def propertyValue (input : Input) (c : Cursor) : Result Expr c.size := do
  let ⟨(), c₁, h₁⟩ ← c.expect input .colon
  let ⟨e, c₂, h₂⟩ ← assignment input c₁
  return ⟨e, c₂, by omega⟩
termination_by 22 * c.size + 17

def template (input : Input) (c : Cursor) : Result Template c.size := do
  let start := c.start input
  let ⟨(), c₁, h₁⟩ ← c.expect input .backtick
  let ⟨(texts, es), c₂, h₂⟩ ← templateTail input "" c₁
  return ⟨.mk texts es (c₂.spanFrom input start), c₂, by omega⟩
termination_by 22 * c.size + 1

/-- The texts and expressions up to the closing backtick, given the text read since the last expression. -/
def templateTail (input : Input) (current : String) (c : Cursor) :
    Result (List String × List Expr) c.size :=
  match c.read with
  | some ⟨l, c₁, h₁⟩ =>
      match piece? l.token with
      | some (.text piece) => do
          let ⟨parts, c₂, h₂⟩ ← templateTail input (current ++ piece) c₁
          return ⟨parts, c₂, by omega⟩
      | some .interpolation => do
          let ⟨e, c₂, h₂⟩ ← assignment input c₁
          let ⟨(), c₃, h₃⟩ ← c₂.expect input .rBrace
          let ⟨(texts, es), c₄, h₄⟩ ← templateTail input "" c₃
          return ⟨(current :: texts, e :: es), c₄, by omega⟩
      | some .close => .ok ⟨([current], []), c₁, h₁⟩
      | none => .error (c.unexpected input "the end of the template literal")
  | none => .error (Cursor.unexpectedAt input c.last "the end of the template literal")
termination_by 22 * c.size + 17

end

/-- Statements up to the end. -/
def statements (input : Input) (c : Cursor) : Except SyntaxError (List Stmt) :=
  if c.rest.isEmpty then .ok []
  else do
    let ⟨stmt, c₁, _⟩ ← statement input c
    let stmts ← statements input c₁
    return stmt.toList ++ stmts
termination_by c.size

end Parser

/-- Read a script from the text of a file. -/
def Script.parse (file : Nat) (source : String) : Except SyntaxError Script :=
  let lexed := lex source
  match lexed.error with
  | some e => .error (.ofLexError file e)
  | none => do
      let input : Input := ⟨file, source.utf8ByteSize⟩
      let body ← Parser.statements input ⟨lexed.lexemes, none, 0⟩
      return ⟨body, Cursor.span input 0 input.length⟩

end ScriptTypes
