import ScriptTypes.Typing.Scope

/-! Runs of inference. A run hands out fresh variables and gives problems to the solver. It remembers both, also when
it fails. -/

namespace ScriptTypes

/-- A problem that was given to the solver. -/
structure Problem where
  supply : Supply
  needs : List (Requirements VarId)
  extra : List (Constraint VarId)

/-- What a run has used up and done so far, the latest problem first. -/
structure Run where
  supply : Supply
  problems : List Problem

def Run.initial : Run := ⟨.initial, []⟩

abbrev Infer := ExceptT (Failure VarId) (StateM Run)

namespace Infer

def fail {α : Type} (e : ScopeError VarId) : Infer α :=
  throw (.scope e)

def unsupported {α : Type} (description : String) (pos : Position) : Infer α :=
  fail (.unsupported description pos)

def lift {α : Type} : Except (ScopeError VarId) α → Infer α
  | .ok a => pure a
  | .error e => fail e

def freshVar (src : Option Node) : Infer (Ty VarId) := do
  let run ← get
  let (v, supply) := run.supply.freshVar src
  set { run with supply }
  return v

def freshRowVar (src : Option Node) : Infer (RowVar VarId) := do
  let run ← get
  let (v, supply) := run.supply.freshRowVar src
  set { run with supply }
  return v

def instantiate {V : Type} [DecidableEq V] (t : Typing V) : Infer (Typing VarId) := do
  let run ← get
  let (t, supply) := t.instantiate run.supply
  set { run with supply }
  return t

/-- Settle requirements and constraints. What cannot be settled is explained by the construct at hand. -/
def settle (steps : Nat) (needs : List (Requirements VarId)) (extra : List (Constraint VarId))
    (explain : UnifyError VarId → Failure VarId) : Infer (List (Binding VarId)) := do
  let run ← get
  let (solution, supply) := Id.run (Requirements.unify steps run.supply needs extra)
  set { run with supply, problems := ⟨run.supply, needs, extra⟩ :: run.problems }
  match solution with
  | .solved bs => return bs
  | .failed e => throw (explain e)
  | .unfinished => throw .unfinished

end Infer

end ScriptTypes
