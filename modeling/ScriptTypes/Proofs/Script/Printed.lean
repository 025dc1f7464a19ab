import ScriptTypes.Proofs.Script.Operands
import ScriptTypes.Proofs.Token.Slices

/-! Trees printed as tokens. Every expression is in parentheses, and every statement is followed by a semicolon, so
that nothing is left to precedence. Names alone stand for properties whose key and value they are. -/

namespace ScriptTypes

/-! The printer. -/

namespace Token

def parens (ts : List Token) : List Token :=
  .symbol .lParen :: (ts ++ [.symbol .rParen])

def brackets (ts : List Token) : List Token :=
  .symbol .lBracket :: (ts ++ [.symbol .rBracket])

def braces (ts : List Token) : List Token :=
  .symbol .lBrace :: (ts ++ [.symbol .rBrace])

/-- Items with commas between them. -/
def commas : List (List Token) → List Token
  | [] => []
  | [ts] => ts
  | ts :: items => ts ++ .symbol .comma :: commas items

/-- A text of a template. There is no token for an empty one. -/
def ofQuasi (text : String) : List Token :=
  if text = "" then [] else [.text text]

end Token

def Literal.tokens : Literal → List Token
  | .num true n => [.symbol .minus, .number n]
  | .num false n => [.number n]
  | .str s => [.string s]
  | .bool true => [.keyword .trueWord]
  | .bool false => [.keyword .falseWord]

def DeclKind.word : DeclKind → Keyword
  | .letDecl => .letWord
  | .constDecl => .constWord
  | .varDecl => .varWord

def Pattern.tokens : Pattern → List Token
  | .ident id => [.ident id.label]
  | .object ids _ => Token.braces (Token.commas (ids.map fun id => [.ident id.label]))
  | .array ids _ => Token.brackets (Token.commas (ids.map fun id => [.ident id.label]))

/-- Whether a property is a name that stands for itself. -/
def PropertyKey.names : PropertyKey → Expr → Bool
  | .ident id, .ident _ id' => id.label == id'.label
  | _, _ => false

open Token

mutual

/-- An expression inside of its parentheses. -/
def Expr.tokens : Expr → List Token
  | .literal _ v => v.tokens
  | .ident _ id => [.ident id.label]
  | .array _ es => brackets (commas (tokensExprs es))
  | .object _ ps => braces (commas (tokensProperties ps))
  | .member _ o label => parens o.tokens ++ [.symbol .dot, ofWord label.label]
  | .index _ o k => parens o.tokens ++ brackets (parens k.tokens)
  | .binary _ op a b => parens a.tokens ++ .symbol op.symbol :: parens b.tokens
  | .unary _ op a => .symbol op.symbol :: parens a.tokens
  | .conditional _ t a b =>
      parens t.tokens ++ .symbol .question :: (parens a.tokens ++ .symbol .colon :: parens b.tokens)
  | .arrow _ ps body => parens (commas (ps.map Pattern.tokens)) ++ .symbol .fatArrow :: body.tokens
  | .call _ f as => parens f.tokens ++ parens (commas (tokensExprs as))
  | .template _ q => q.tokens
  | .tagged _ t q => parens t.tokens ++ q.tokens
  | .assign _ t v => parens t.tokens ++ .symbol .equals :: parens v.tokens

def tokensExprs : List Expr → List (List Token)
  | [] => []
  | e :: es => parens e.tokens :: tokensExprs es

def tokensProperties : List Property → List (List Token)
  | [] => []
  | .mk key value _ :: ps =>
      (if key.names value then key.tokens else key.tokens ++ .symbol .colon :: parens value.tokens) ::
        tokensProperties ps

def PropertyKey.tokens : PropertyKey → List Token
  | .ident id => [ofWord id.label]
  | .literal v _ => v.tokens
  | .computed e => brackets (parens e.tokens)

def Body.tokens : Body → List Token
  | .expr e => parens e.tokens
  | .block ss _ => braces (tokensStmts ss)

def Template.tokens : Template → List Token
  | .mk texts es _ => .symbol .backtick :: tokensQuasis texts es

/-- Texts and expressions by turns, up to the closing backtick. -/
def tokensQuasis (texts : List String) : List Expr → List Token
  | [] => ofQuasi (texts.headD "") ++ [.templateEnd]
  | e :: es =>
      ofQuasi (texts.headD "") ++
        .interpolation :: (parens e.tokens ++ .symbol .rBrace :: tokensQuasis texts.tail es)

/-- A statement with its semicolon. -/
def Stmt.tokens : Stmt → List Token
  | .decl _ kind ds => .keyword kind.word :: (commas (tokensDeclarators ds) ++ [.symbol .semicolon])
  | .expr _ e => parens e.tokens ++ [.symbol .semicolon]
  | .ret _ e => .keyword .returnWord :: (tokensOption e ++ [.symbol .semicolon])
  | .block _ ss => braces (tokensStmts ss) ++ [.symbol .semicolon]
  | .cond _ t a b =>
      .keyword .ifWord :: (parens (parens t.tokens) ++ (a.tokens ++ (tokensBranch b ++ [.symbol .semicolon])))
  | .loop _ t a => .keyword .whileWord :: (parens (parens t.tokens) ++ (a.tokens ++ [.symbol .semicolon]))

def tokensStmts : List Stmt → List Token
  | [] => []
  | s :: ss => s.tokens ++ tokensStmts ss

def Declarator.tokens : Declarator → List Token
  | .mk p none _ => p.tokens
  | .mk p (some e) _ => p.tokens ++ .symbol .equals :: parens e.tokens

def tokensDeclarators : List Declarator → List (List Token)
  | [] => []
  | d :: ds => d.tokens :: tokensDeclarators ds

def tokensOption : Option Expr → List Token
  | none => []
  | some e => parens e.tokens

def tokensBranch : Option Stmt → List Token
  | none => []
  | some s => .keyword .elseWord :: s.tokens

end

def Script.tokens (s : Script) : List Token :=
  tokensStmts s.body

end ScriptTypes
