import ScriptTypes.Typing.Error

/-! Scopes: layers of names, the innermost first. Only the innermost layer grows, and a child scope keeps what it saw
when it was made. -/

namespace ScriptTypes

structure Scope (α : Type) where
  current : Assoc α
  outer : List (Assoc α)
deriving DecidableEq

namespace Scope

variable {α : Type}

def empty : Scope α := ⟨[], []⟩

def layers (s : Scope α) : List (Assoc α) :=
  s.current :: s.outer

def child (s : Scope α) : Scope α :=
  ⟨[], s.layers⟩

def insert (s : Scope α) (name : String) (a : α) : Scope α :=
  { s with current := Assoc.insert s.current name a }

/-- The innermost binding of a name. -/
def get? (s : Scope α) (name : String) : Option α :=
  s.layers.findSome? fun layer => Assoc.get? layer name

/-- The binding of a name in the innermost layer. -/
def here? (s : Scope α) (name : String) : Option α :=
  Assoc.get? s.current name

/-- Every name in sight once, innermost first. -/
def names (s : Scope α) : List String :=
  (s.layers.flatMap Assoc.keys).foldl (fun names name => if names.contains name then names else names ++ [name]) []

end Scope

/-- A name with its typing. An assumed typing is stated by the script and not inferred. -/
structure Bound (V : Type) where
  id : Ident
  typing : Typing V
  assumed : Bool
deriving DecidableEq

abbrev Env (V : Type) := Scope (Bound V)

namespace Env

variable {V : Type}

def lookup (env : Env V) (id : Ident) : Except (ScopeError V) (Typing V) :=
  match env.get? id.label with
  | some b => .ok b.typing
  | none => .error (.unbound id env.names)

/-- Bind a name, which must not be bound in the innermost layer. -/
def assign (env : Env V) (id : Ident) (t : Typing V) : Except (ScopeError V) (Env V) :=
  match env.here? id.label with
  | some previous => .error (.alreadyDefined id previous.id.pos)
  | none => .ok (env.insert id.label ⟨id, t, false⟩)

/-- State a typing, in place of any that the innermost layer has. -/
def assume (env : Env V) (id : Ident) (t : Typing V) : Env V :=
  env.insert id.label ⟨id, t, true⟩

/-- A name with an assumption in the innermost layer is not inferred. -/
def shouldInfer (env : Env V) (name : String) : Bool :=
  match env.here? name with
  | some b => !b.assumed
  | none => true

/-- The bindings of the innermost layer, in order of definition. -/
def bindings (env : Env V) : List (Ident × Typing V) :=
  env.current.map fun (_, b) => (b.id, b.typing)

end Env

end ScriptTypes
