import ScriptTypes.Ty.Same

/-! Bindings of variables to types, and their application. A row variable inside a record that is bound to a
record gives way to the rows of it. What is put in is not gone through again. -/

namespace ScriptTypes

structure Binding (V : Type) where
  kind : Kind
  var : V
  /-- Where the variable that was bound comes from. -/
  src : Option Node
  value : Ty V

namespace Binding

variable {V : Type}

/-- The bound variable as a type. -/
def left (b : Binding V) : Ty V :=
  match b.kind with
  | .type => .var b.var b.src
  | .row => .rowVar b.var b.src

/-- The rows that take the place of a row variable. One that is bound to something else than a record or a row
variable stays. -/
def rowsFor (b : Binding V) (v : RowVar V) : List (Row V (Ty V)) :=
  match b.value with
  | .record rows _ => rows
  | .rowVar w s => [.var ⟨w, v.src.or s⟩]
  | _ => [.var v]

variable {m : Type → Type} [Monad m] [Comparing m V]

/-- Whether a variable is the bound one. -/
def hits (b : Binding V) (k : Kind) (v : V) : m Bool :=
  if b.kind = k then Comparing.same k b.var v else pure false

end Binding

namespace Ty

variable {V : Type} {m : Type → Type} [Monad m] [Comparing m V]

mutual

def subst (b : Binding V) : Ty V → m (Ty V)
  | .leaf l s => pure (.leaf l s)
  | .var v s => do if ← b.hits .type v then pure (b.value.inPlaceOf s) else pure (.var v s)
  | .rowVar v s => do if ← b.hits .row v then pure (b.value.inPlaceOf s) else pure (.rowVar v s)
  | .arrow d r s => do
      let d ← substList b d
      let r ← subst b r
      return .arrow d r s
  | .con n as s => do return .con n (← substList b as) s
  | .record rows s => do return .record (Row.merge (← substRows b rows)) s

def substList (b : Binding V) : List (Ty V) → m (List (Ty V))
  | [] => pure []
  | t :: ts => do
      let t ← subst b t
      let ts ← substList b ts
      return t :: ts

def substRows (b : Binding V) : List (Row V (Ty V)) → m (List (Row V (Ty V)))
  | [] => pure []
  | .fields fs :: rows => do
      let fs ← substFields b fs
      let rows ← substRows b rows
      return .fields fs :: rows
  | .var v :: rows => do
      let put ← if ← b.hits .row v.var then pure (b.rowsFor v) else pure [.var v]
      let rows ← substRows b rows
      return put ++ rows

def substFields (b : Binding V) : List (String × Ty V) → m (List (String × Ty V))
  | [] => pure []
  | (l, t) :: fs => do
      let t ← subst b t
      let fs ← substFields b fs
      return (l, t) :: fs

end

/-- Apply bindings one after the other. -/
def substAll (t : Ty V) : List (Binding V) → m (Ty V)
  | [] => pure t
  | b :: bs => do substAll (← subst b t) bs

end Ty

end ScriptTypes
