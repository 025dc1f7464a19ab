import ScriptTypes.Unify.Requirements

/-! Typings. An expression has a type under requirements on the monomorphic names that it uses. -/

namespace ScriptTypes

structure Typing (V : Type) where
  needs : Requirements V
  type : Ty V
deriving DecidableEq

namespace Typing

variable {V W : Type}

/-- A typing that asks nothing of any name. -/
def closed (t : Ty V) : Typing V :=
  ⟨[], t⟩

def map (f : Kind → V → W) (t : Typing V) : Typing W :=
  ⟨t.needs.map fun (name, u) => (name, u.map f), t.type.map f⟩

/-- Copies of the entries over fresh variables. -/
def freshNeeds [DecidableEq V] : Requirements V → StateM (Supply × Renaming V) (Requirements VarId)
  | [] => pure []
  | (name, t) :: needs => do
      let t ← t.fresh
      let needs ← freshNeeds needs
      return (name, t) :: needs

/-- A copy over fresh variables. A variable that the requirements and the type share is still shared. -/
def instantiate [DecidableEq V] (t : Typing V) (supply : Supply) : Typing VarId × Supply :=
  let ((needs, type), supply, _) := (do return (← freshNeeds t.needs, ← t.type.fresh) :
    StateM (Supply × Renaming V) (Requirements VarId × Ty VarId)).run (supply, [])
  (⟨needs, type⟩, supply)

end Typing

end ScriptTypes
