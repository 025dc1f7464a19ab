import ScriptTypes.Unify.Solver

/-! What expressions ask of the names they use. A parameter has no type of its own while a body is read: each use
notes what it asks, and the notes are brought together where the parameter is bound. -/

namespace ScriptTypes

/-- The types asked of monomorphic names. -/
abbrev Requirements (V : Type) := Assoc (Ty V)

namespace Requirements

variable {V : Type}

/-- All that is asked of each name, names in the order in which they first come. -/
def uses (envs : List (Requirements V)) : Assoc (List (Ty V)) :=
  envs.flatten.foldl (fun uses (name, t) => Assoc.insert uses name ((Assoc.get? uses name).getD [] ++ [t])) []

/-- For each name a fresh variable that is to be the same as all that is asked of it. -/
def constraints [Variable V] (supply : Supply) : Assoc (List (Ty V)) → List (Constraint V) × Supply
  | [] => ([], supply)
  | (_, ts) :: uses =>
      let (v, supply) := supply.freshVar none
      let (cs, supply) := constraints supply uses
      (ts.map (⟨v, ·⟩) ++ cs, supply)

variable {m : Type → Type} [Monad m] [Comparing m V]

/-- Bring together what several expressions ask of names, and solve further constraints with that. -/
def unify [Variable V] (steps : Nat) (supply : Supply) (envs : List (Requirements V))
    (extra : List (Constraint V)) : m (Solution V × Supply) :=
  let (cs, supply) := constraints supply (uses envs)
  solve steps supply (cs ++ extra)

/-- Apply bindings to each entry. -/
def subst (bs : List (Binding V)) : Requirements V → m (Requirements V)
  | [] => pure []
  | (name, t) :: env => do
      let t ← t.substAll bs
      let env ← subst bs env
      return (name, t) :: env

/-- One map of all requirements after bindings. The last entry of a name counts. -/
def join (bs : List (Binding V)) (envs : List (Requirements V)) : m (Requirements V) := do
  return Assoc.ofEntries (← subst bs envs.flatten)

end Requirements

end ScriptTypes
