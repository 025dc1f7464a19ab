import ScriptTypes.Ty.Row

/-! Type terms over a set of variables: leaves, variables, functions, containers and extensible records. Each may
name the syntax node it comes from. That is for messages only and is never compared. -/

namespace ScriptTypes

/-- Type variables and row variables are apart. -/
inductive Kind where
  | type | row
deriving DecidableEq, Repr

inductive Leaf where
  | num | bool | str | undefined
deriving DecidableEq, Repr

def Leaf.text : Leaf → String
  | .num => "Num"
  | .bool => "Bool"
  | .str => "String"
  | .undefined => "Undefined"

inductive Ty (V : Type) where
  | leaf (leaf : Leaf) (src : Option Node)
  | var (v : V) (src : Option Node)
  | rowVar (v : V) (src : Option Node)
  | arrow (domain : List (Ty V)) (range : Ty V) (src : Option Node)
  | con (name : String) (args : List (Ty V)) (src : Option Node)
  | record (rows : List (Row V (Ty V))) (src : Option Node)

/-- Variables that inference makes are numbered, each kind by itself. -/
abbrev VarId := Nat

/-- Variables among which are the numbered ones. -/
class Variable (V : Type) where
  ofId : VarId → V

instance : Variable VarId := ⟨id⟩

namespace Ty

variable {V W : Type}

def src : Ty V → Option Node
  | .leaf _ s | .var _ s | .rowVar _ s | .arrow _ _ s | .con _ _ s | .record _ s => s

def withSrc (s : Option Node) : Ty V → Ty V
  | .leaf l _ => .leaf l s
  | .var v _ => .var v s
  | .rowVar v _ => .rowVar v s
  | .arrow d r _ => .arrow d r s
  | .con n as _ => .con n as s
  | .record rows _ => .record rows s

/-- The type put in the place of one that comes from the given node, whose origin it takes over. -/
def inPlaceOf (s : Option Node) (t : Ty V) : Ty V :=
  t.withSrc (s.or t.src)

def isVar : Ty V → Bool
  | .var _ _ | .rowVar _ _ => true
  | _ => false

def array (elem : Ty V) (src : Option Node) : Ty V :=
  .con "Array" [elem] src

/-- The record of the given rows with neighbouring sets of fields merged. -/
def ofRows (rows : List (Row V (Ty V))) : Ty V :=
  .record (Row.merge rows) none

def ofFields (fields : Assoc (Ty V)) (tail : Option (RowVar V)) : Ty V :=
  ofRows (Row.ofFields fields tail)

variable {m : Type → Type} [Monad m]

mutual

/-- Replace each variable, from left to right. All else stays. -/
def mapVars (f : Kind → V → m W) : Ty V → m (Ty W)
  | .leaf l s => pure (.leaf l s)
  | .var v s => do return .var (← f .type v) s
  | .rowVar v s => do return .rowVar (← f .row v) s
  | .arrow d r s => do
      let d ← mapVarsList f d
      let r ← mapVars f r
      return .arrow d r s
  | .con n as s => do return .con n (← mapVarsList f as) s
  | .record rows s => do return .record (← mapVarsRows f rows) s

def mapVarsList (f : Kind → V → m W) : List (Ty V) → m (List (Ty W))
  | [] => pure []
  | t :: ts => do
      let t ← mapVars f t
      let ts ← mapVarsList f ts
      return t :: ts

def mapVarsRows (f : Kind → V → m W) : List (Row V (Ty V)) → m (List (Row W (Ty W)))
  | [] => pure []
  | .fields fs :: rows => do
      let fs ← mapVarsFields f fs
      let rows ← mapVarsRows f rows
      return .fields fs :: rows
  | .var v :: rows => do
      let w ← f .row v.var
      let rows ← mapVarsRows f rows
      return .var ⟨w, v.src⟩ :: rows

def mapVarsFields (f : Kind → V → m W) : List (String × Ty V) → m (List (String × Ty W))
  | [] => pure []
  | (l, t) :: fs => do
      let t ← mapVars f t
      let fs ← mapVarsFields f fs
      return (l, t) :: fs

end

/-- Rename variables. -/
def map (f : Kind → V → W) (t : Ty V) : Ty W :=
  Id.run (t.mapVars fun k v => pure (f k v))

/-! Types are equal when they come from the same nodes too. -/

section Equality

variable [DecidableEq V]

mutual

def beq : Ty V → Ty V → Bool
  | .leaf l s, .leaf l' s' => l == l' && s == s'
  | .var v s, .var v' s' | .rowVar v s, .rowVar v' s' => v == v' && s == s'
  | .arrow d r s, .arrow d' r' s' => beqList d d' && beq r r' && s == s'
  | .con n as s, .con n' as' s' => n == n' && beqList as as' && s == s'
  | .record rows s, .record rows' s' => beqRows rows rows' && s == s'
  | _, _ => false

def beqList : List (Ty V) → List (Ty V) → Bool
  | [], [] => true
  | t :: ts, u :: us => beq t u && beqList ts us
  | _, _ => false

def beqRows : List (Row V (Ty V)) → List (Row V (Ty V)) → Bool
  | [], [] => true
  | .fields fs :: rows, .fields fs' :: rows' => beqFields fs fs' && beqRows rows rows'
  | .var v :: rows, .var v' :: rows' => v == v' && beqRows rows rows'
  | _, _ => false

def beqFields : List (String × Ty V) → List (String × Ty V) → Bool
  | [], [] => true
  | (l, t) :: fs, (l', t') :: fs' => l == l' && beq t t' && beqFields fs fs'
  | _, _ => false

end

mutual

theorem beq_iff : ∀ t u : Ty V, t.beq u = true ↔ t = u
  | .leaf .., u | .var .., u | .rowVar .., u => by cases u <;> simp [beq]
  | .arrow d r _, u => by cases u <;> simp [beq, beqList_iff d, beq_iff r, and_assoc]
  | .con _ as _, u => by cases u <;> simp [beq, beqList_iff as, and_assoc]
  | .record rows _, u => by cases u <;> simp [beq, beqRows_iff rows]

theorem beqList_iff : ∀ ts us : List (Ty V), beqList ts us = true ↔ ts = us
  | [], us => by cases us <;> simp [beqList]
  | t :: ts, us => by cases us <;> simp [beqList, beq_iff t, beqList_iff ts]

theorem beqRows_iff : ∀ rows rows' : List (Row V (Ty V)), beqRows rows rows' = true ↔ rows = rows'
  | [], rows' => by cases rows' <;> simp [beqRows]
  | .fields fs :: rows, [] | .var v :: rows, [] => by simp [beqRows]
  | .fields fs :: rows, row :: _ => by cases row <;> simp [beqRows, beqFields_iff fs, beqRows_iff rows]
  | .var _ :: rows, row :: _ => by cases row <;> simp [beqRows, beqRows_iff rows]

theorem beqFields_iff : ∀ fs fs' : List (String × Ty V), beqFields fs fs' = true ↔ fs = fs'
  | [], fs' => by cases fs' <;> simp [beqFields]
  | (_, _) :: _, [] => by simp [beqFields]
  | (_, t) :: fs, (_, _) :: _ => by simp [beqFields, beq_iff t, beqFields_iff fs]

end

instance : DecidableEq (Ty V) := fun t u => decidable_of_iff _ (beq_iff t u)

end Equality

end Ty

/-- The variable as a type, as constraints and bindings hold it. -/
def RowVar.toTy {V : Type} (v : RowVar V) : Ty V :=
  .rowVar v.var v.src

end ScriptTypes
