import ScriptTypes.Unify.Constraint

/-! Solving constraints. They are taken from a queue: one that holds already is dropped, a variable is bound and the
binding applied to all that wait, and a constraint between types of one form is split into smaller ones that
join the end of the queue. The answer is the list of bindings in the order in which they were made.

A variable may be bound to a type in which it occurs. Nothing then guarantees an end, so the number of steps is
limited, and running out of them is an outcome of its own. -/

namespace ScriptTypes

inductive Solution (V : Type) where
  | solved (bindings : List (Binding V))
  | failed (error : UnifyError V)
  | unfinished

/-- The solution with a binding that was made before. -/
def Solution.after {V : Type} (b : Binding V) : Solution V → Solution V
  | .solved bs => .solved (b :: bs)
  | .failed e => .failed e
  | .unfinished => .unfinished

/-- What one constraint leads to. -/
inductive Step (V : Type) where
  | drop
  | bind (b : Binding V)
  | split (cs : List (Constraint V))
  | fail (e : UnifyError V)

namespace Constraint

variable {V : Type} [Variable V]

/-- The step for two types that are not the same, where a variable stands on the left if there is one. -/
def stepApart (supply : Supply) (c : Constraint V) : Step V × Supply :=
  match c.left, c.right with
  | .var v s, _ => (.bind ⟨.type, v, s, c.right⟩, supply)
  | .rowVar v s, _ => (.bind ⟨.row, v, s, c.right⟩, supply)
  | .arrow d r _, .arrow d' r' _ =>
      if d.length == d'.length then (.split (⟨r, r'⟩ :: zip d d'), supply)
      else (.fail (.mismatch c.left c.right), supply)
  | .con n as _, .con n' as' _ =>
      if n == n' && as.length == as'.length then (.split (zip as as'), supply)
      else (.fail (.mismatch c.left c.right), supply)
  | .record _ _, .record _ _ =>
      match unifyRecords supply c.left c.right with
      | (.ok cs, supply) => (.split cs, supply)
      | (.error e, supply) => (.fail e, supply)
  | _, _ => (.fail (.mismatch c.left c.right), supply)

variable {m : Type → Type} [Monad m] [Comparing m V]

def step (supply : Supply) (c : Constraint V) : m (Step V × Supply) := do
  let c := c.orient
  if ← c.left.same c.right then pure (.drop, supply) else pure (c.stepApart supply)

end Constraint

/-- Solve a queue of constraints in at most the given number of steps. -/
def solve {V : Type} [Variable V] {m : Type → Type} [Monad m] [Comparing m V] :
    (steps : Nat) → Supply → List (Constraint V) → m (Solution V × Supply)
  | _, supply, [] => pure (.solved [], supply)
  | 0, supply, _ :: _ => pure (.unfinished, supply)
  | n + 1, supply, c :: cs => do
      match ← c.step supply with
      | (.drop, supply) => solve n supply cs
      | (.bind b, supply) =>
          let cs ← Constraint.substList b cs
          let (solution, supply) ← solve n supply cs
          return (solution.after b, supply)
      | (.split more, supply) => solve n supply (cs ++ more)
      | (.fail e, supply) => return (.failed e, supply)

end ScriptTypes
