import ScriptTypes.Typing.Basic

/-! Why inference stops. A type error leaves what has been inferred before it. An error of scope, such as an unknown
name or unsupported syntax, ends the run. -/

namespace ScriptTypes

inductive TypeError (V : Type) where
  | mismatch (left right : Ty V)
  | callArgument (call callee : Node) (calleeTyping : Typing V) (args : List (Typing V))
      (badArg : Option Nat) (cause : TypeError V)
  | arrayLiteral (node : Node) (elems : List (Typing V)) (cause : TypeError V)
  | noSuchProperty (node : Node) (record : Ty V) (label : Ident)
  | notAnObject (node : Node) (type : Ty V) (label : Ident)
deriving DecidableEq

inductive ScopeError (V : Type) where
  | unbound (id : Ident) (inScope : List String)
  | alreadyDefined (id : Ident) (previous : Position)
  | unsupported (description : String) (pos : Position)
  | duplicateLabel (label : Ident) (previous : Position)
  | invalidKey (pos : Position)
  | invalidAssumption (message : String) (pos : Position)
  | multipleRowVars (pos : Position) (record : Ty V)
deriving DecidableEq

inductive Failure (V : Type) where
  | type (error : TypeError V)
  | scope (error : ScopeError V)
  | unfinished

namespace TypeError

def map {V W : Type} (f : Kind → V → W) : TypeError V → TypeError W
  | .mismatch l r => .mismatch (l.map f) (r.map f)
  | .callArgument call callee t args bad cause =>
      .callArgument call callee (t.map f) (args.map (Typing.map f)) bad (cause.map f)
  | .arrayLiteral node elems cause => .arrayLiteral node (elems.map (Typing.map f)) (cause.map f)
  | .noSuchProperty node t label => .noSuchProperty node (t.map f) label
  | .notAnObject node t label => .notAnObject node (t.map f) label

end TypeError

namespace ScopeError

variable {V W : Type}

def map (f : Kind → V → W) : ScopeError V → ScopeError W
  | .unbound id inScope => .unbound id inScope
  | .alreadyDefined id previous => .alreadyDefined id previous
  | .unsupported description pos => .unsupported description pos
  | .duplicateLabel label previous => .duplicateLabel label previous
  | .invalidKey pos => .invalidKey pos
  | .invalidAssumption message pos => .invalidAssumption message pos
  | .multipleRowVars pos record => .multipleRowVars pos (record.map f)

def pos : ScopeError V → Position
  | .unbound id _ | .alreadyDefined id _ | .duplicateLabel id _ => id.pos
  | .unsupported _ pos | .invalidKey pos | .invalidAssumption _ pos | .multipleRowVars pos _ => pos

def message : ScopeError V → String
  | .unbound id _ => "unbound identifier `" ++ id.label ++ "`"
  | .alreadyDefined id _ => "`" ++ id.label ++ "` is already defined in this scope"
  | .unsupported description _ => "unsupported syntax: " ++ description
  | .duplicateLabel label _ => "duplicate property `" ++ label.label ++ "` in object literal"
  | .invalidKey _ => "object keys must be identifiers, strings or numbers"
  | .invalidAssumption message _ => "invalid assumption: " ++ message
  | .multipleRowVars _ _ => "record type with more than one row variable"

end ScopeError

def Ty.pos {V : Type} (t : Ty V) : Position :=
  t.src.bind Node.pos

namespace UnifyError

variable {V : Type}

/-- The failure where nothing more is known. -/
def plain : UnifyError V → Failure V
  | .mismatch l r => .type (.mismatch l r)
  | .multipleRowVars record => .scope (.multipleRowVars record.pos record)

/-- The failure of an array literal. -/
def inArray (node : Node) (elems : List (Typing V)) : UnifyError V → Failure V
  | .mismatch l r => .type (.arrayLiteral node elems (.mismatch l r))
  | e => e.plain

/-- Whether a type comes from the node of one side of a mismatch. -/
def sameOrigin (left right t : Ty V) : Bool :=
  t.src.isSome && (t.src == left.src || t.src == right.src)

variable {m : Type → Type} [Monad m] [Comparing m V]

/-- The index of the first type that is the same as one side of a mismatch. -/
def sameIndex? (left right : Ty V) (index : Nat) : List (Typing V) → m (Option Nat)
  | [] => pure none
  | arg :: args => do
      if ← arg.type.same left then pure (some index)
      else if ← arg.type.same right then pure (some index)
      else sameIndex? left right (index + 1) args

/-- The argument to blame for a mismatch: the first one that comes from the node of one side, or else the first
one whose type is one side. -/
def badArg? (left right : Ty V) (args : List (Typing V)) : m (Option Nat) :=
  match args.findIdx? fun arg => sameOrigin left right arg.type with
  | some index => pure (some index)
  | none => sameIndex? left right 0 args

/-- The failure of a call. -/
def inCall (call callee : Node) (calleeTyping : Typing V) (args : List (Typing V)) :
    UnifyError V → m (Failure V)
  | .mismatch l r => do
      return .type (.callArgument call callee calleeTyping args (← badArg? l r args) (.mismatch l r))
  | e => pure e.plain

end UnifyError

end ScriptTypes
