import ScriptTypes.Ty.Binding
import ScriptTypes.Ty.Supply

/-! Constraints between types, and what the constraint between two records amounts to. Labels of both records must
have the same type. A label of one record only must come from the row variable of the other, which gets a record
of those labels. If both sides need labels, the two row variables share a fresh tail. -/

namespace ScriptTypes

/-- Two types that should be made the same. -/
structure Constraint (V : Type) where
  left : Ty V
  right : Ty V

inductive UnifyError (V : Type) where
  | mismatch (left right : Ty V)
  | multipleRowVars (record : Ty V)

namespace Constraint

variable {V : Type}

/-- A lone variable stands on the left. -/
def orient (c : Constraint V) : Constraint V :=
  if c.right.isVar && !c.left.isVar then ⟨c.right, c.left⟩ else c

def subst {m : Type → Type} [Monad m] [Comparing m V] (b : Binding V) (c : Constraint V) :
    m (Constraint V) := do
  let left ← c.left.subst b
  let right ← c.right.subst b
  return ⟨left, right⟩

def substList {m : Type → Type} [Monad m] [Comparing m V] (b : Binding V) :
    List (Constraint V) → m (List (Constraint V))
  | [] => pure []
  | c :: cs => do
      let c ← c.subst b
      let cs ← substList b cs
      return c :: cs

/-- Types at equal places, as far as both lists go. -/
def zip : List (Ty V) → List (Ty V) → List (Constraint V)
  | t :: ts, u :: us => ⟨t, u⟩ :: zip ts us
  | _, _ => []

end Constraint

namespace FlatRecord

variable {V : Type}

/-- The labels of a record that another one has too, with both types. -/
def shared (r s : FlatRecord V (Ty V)) : List (Constraint V) :=
  r.fields.filterMap fun (label, t) => (Assoc.get? s.fields label).map fun u => ⟨t, u⟩

/-- The fields of a record that another one does not have. -/
def missingIn (r s : FlatRecord V (Ty V)) : Assoc (Ty V) :=
  r.fields.filter fun (label, _) => !Assoc.contains s.fields label

/-- The constraints on the row variables of two records, given the fields that each side lacks. -/
def tails [Variable V] (supply : Supply) (r s : FlatRecord V (Ty V)) (forLeft forRight : Assoc (Ty V)) :
    List (Constraint V) × Supply :=
  match r.tail, s.tail with
  | some v, some w =>
      match forLeft.isEmpty, forRight.isEmpty with
      | false, false =>
          let (tail, supply) := supply.freshRowVar none
          ([⟨v.toTy, .ofFields forLeft (some tail)⟩, ⟨w.toTy, .ofFields forRight (some tail)⟩], supply)
      | false, true => ([⟨v.toTy, .ofFields forLeft none⟩], supply)
      | true, false => ([⟨w.toTy, .ofFields forRight none⟩], supply)
      | true, true => ([⟨v.toTy, w.toTy⟩], supply)
  | none, some w =>
      if forRight.isEmpty then ([], supply) else ([⟨w.toTy, .ofFields forRight none⟩], supply)
  | some v, none =>
      if forLeft.isEmpty then ([], supply) else ([⟨v.toTy, .ofFields forLeft none⟩], supply)
  | none, none => ([], supply)

end FlatRecord

/-- The flat form of a record type. -/
def Ty.flatten {V : Type} (t : Ty V) : Except (UnifyError V) (FlatRecord V (Ty V)) :=
  match t with
  | .record rows _ =>
      match Row.flatten rows with
      | .ok r => .ok r
      | .error _ => .error (.multipleRowVars t)
  | t => .error (.mismatch t t)

/-- The constraints that two records amount to. A closed record cannot get labels. -/
def unifyRecords {V : Type} [Variable V] (supply : Supply) (left right : Ty V) :
    Except (UnifyError V) (List (Constraint V)) × Supply :=
  match left.flatten, right.flatten with
  | .ok r, .ok s =>
      let forRight := r.missingIn s
      let forLeft := s.missingIn r
      if (s.tail.isNone && !forRight.isEmpty) || (r.tail.isNone && !forLeft.isEmpty) then
        (.error (.mismatch left right), supply)
      else
        let (tails, supply) := FlatRecord.tails supply r s forLeft forRight
        (.ok (r.shared s ++ tails), supply)
  | .error e, _ => (.error e, supply)
  | _, .error e => (.error e, supply)

end ScriptTypes
