import ScriptTypes.Typing.Rule

/-! Checking statements. A statement changes the block in which it stands: it binds a name, adds a typing or returns.
All this is done in place, so what a statement has done to the block is still there when it fails. -/

namespace ScriptTypes

/-- A computation that changes a block in place. -/
abbrev Checking := ExceptT (Failure VarId) (StateT Block (StateM Run))

namespace Checking

/-- Inference as a part of it, which leaves the block alone. -/
instance : MonadLift Infer Checking where
  monadLift x := ExceptT.mk (StateT.lift (ExceptT.run x))

/-- The block as it is now. -/
def current : Checking Block :=
  ExceptT.lift get

def change (f : Block → Block) : Checking Unit :=
  ExceptT.lift (modify f)

/-- What a computation gives, with the block and the run that it leaves, also when it fails. -/
def outcome {α : Type} (x : Checking α) (b : Block) (r : Run) : (Except (Failure VarId) α × Block) × Run :=
  Id.run ((StateT.run (ExceptT.run x) b).run r)

/-- The block that a computation leads to. If it fails then nobody sees the block any more. -/
def blockFrom (x : Checking Unit) (b : Block) : Infer Block :=
  ExceptT.mk do
    let (result, b) ← StateT.run (ExceptT.run x) b
    return result.map fun _ => b

/-- A block within a block has a scope of its own. The typings of its statements and what they return belong to the
block around it. -/
def nested (x : Checking Unit) : Checking Unit :=
  ExceptT.mk do
    let b ← get
    let (result, inner) ← (StateT.run (ExceptT.run x) { b with env := b.env.child } : StateM Run _)
    set { b with typings := inner.typings, returned := inner.returned }
    return result

def addTyping (t : Typing VarId) : Checking Unit :=
  change fun b => { b with typings := b.typings ++ [t] }

/-- A declaration binds its name, unless an assumption of the name stands in the same scope. -/
def declare (id : Ident) (typing : Env VarId → Infer (Typing VarId)) : Checking Unit := do
  let env := (← current).env
  if env.shouldInfer id.label then
    let t ← typing env
    addTyping t
    let env ← Infer.lift ((← current).env.assign id t)
    change fun b => { b with env }

/-- State the type of a name. -/
def assume (id : Ident) (t : Typing VarId) : Checking Unit :=
  change fun b => { b with env := b.env.assume id t }

def giveBack (t : Typing VarId) : Checking Unit :=
  change fun b => { b with returned := some t }

end Checking

end ScriptTypes
