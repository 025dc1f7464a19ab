import ScriptTypes.Number.Magnitude
import ScriptTypes.Source.Span

/-! Syntax trees of scripts. Every statement and expression carries its node, which has a number of its own in the
script and a position. The trees also hold what inference refuses, so that it can be refused by name. -/

namespace ScriptTypes

inductive Literal where
  | num (negative : Bool) (magnitude : Magnitude)
  | str (value : String)
  | bool (value : Bool)
deriving DecidableEq, Repr

inductive DeclKind where
  | letDecl | constDecl | varDecl
deriving DecidableEq, Repr

def DeclKind.text : DeclKind → String
  | .letDecl => "let"
  | .constDecl => "const"
  | .varDecl => "var"

inductive BinaryOp where
  | add | sub | mul | div | rem | pow
  | lt | gt | le | ge | strictEq | strictNeq | and | or
deriving DecidableEq, Repr

namespace BinaryOp

def text : BinaryOp → String
  | .add => "+"
  | .sub => "-"
  | .mul => "*"
  | .div => "/"
  | .rem => "%"
  | .pow => "**"
  | .lt => "<"
  | .gt => ">"
  | .le => "<="
  | .ge => ">="
  | .strictEq => "==="
  | .strictNeq => "!=="
  | .and => "&&"
  | .or => "||"

/-- Arithmetic works on numbers. The other operators compare two values of one type. -/
def isArithmetic : BinaryOp → Bool
  | .add | .sub | .mul | .div | .rem | .pow => true
  | _ => false

end BinaryOp

inductive UnaryOp where
  | neg | plus | not
deriving DecidableEq, Repr

def UnaryOp.text : UnaryOp → String
  | .neg => "-"
  | .plus => "+"
  | .not => "!"

/-- What a declaration or a parameter binds. -/
inductive Pattern where
  | ident (id : Ident)
  | object (ids : List Ident) (pos : Position)
  | array (ids : List Ident) (pos : Position)
deriving DecidableEq, Repr

def Pattern.pos : Pattern → Position
  | .ident id => id.pos
  | .object _ pos => pos
  | .array _ pos => pos

mutual

inductive Expr where
  | literal (node : Node) (value : Literal)
  | ident (node : Node) (id : Ident)
  | array (node : Node) (elems : List Expr)
  | object (node : Node) (props : List Property)
  | member (node : Node) (object : Expr) (label : Ident)
  | index (node : Node) (object : Expr) (key : Expr)
  | binary (node : Node) (op : BinaryOp) (left right : Expr)
  | unary (node : Node) (op : UnaryOp) (arg : Expr)
  | conditional (node : Node) (test consequent alternate : Expr)
  | arrow (node : Node) (params : List Pattern) (body : Body)
  | call (node : Node) (callee : Expr) (args : List Expr)
  | template (node : Node) (quasi : Template)
  | tagged (node : Node) (tag : Expr) (quasi : Template)
  | assign (node : Node) (target value : Expr)

inductive Property where
  | mk (key : PropertyKey) (value : Expr) (pos : Position)

inductive PropertyKey where
  | ident (id : Ident)
  | literal (value : Literal) (pos : Position)
  | computed (key : Expr)

inductive Body where
  | expr (value : Expr)
  | block (stmts : List Stmt) (pos : Position)

/-- A template has one text more than it has expressions. -/
inductive Template where
  | mk (texts : List String) (exprs : List Expr) (pos : Position)

inductive Stmt where
  | decl (node : Node) (kind : DeclKind) (declarators : List Declarator)
  | expr (node : Node) (value : Expr)
  | ret (node : Node) (value : Option Expr)
  | block (node : Node) (stmts : List Stmt)
  | cond (node : Node) (test : Expr) (consequent : Stmt) (alternate : Option Stmt)
  | loop (node : Node) (test : Expr) (body : Stmt)

inductive Declarator where
  | mk (pattern : Pattern) (init : Option Expr) (pos : Position)

end

def Expr.node : Expr → Node
  | .literal n _ | .ident n _ | .array n _ | .object n _ | .member n _ _ | .index n _ _ | .binary n _ _ _
  | .unary n _ _ | .conditional n _ _ _ | .arrow n _ _ | .call n _ _ | .template n _ | .tagged n _ _
  | .assign n _ _ => n

def Stmt.node : Stmt → Node
  | .decl n _ _ | .expr n _ | .ret n _ | .block n _ | .cond n _ _ _ | .loop n _ _ => n

structure Script where
  body : List Stmt
  pos : Position

end ScriptTypes
