import ScriptTypes.Ty.Basic

/-! When two types are the same. Records are compared by what can be seen in them: the order of labels does not
matter. Comparing variables is left to the set of variables, which may learn from it and keep what it learned. -/

namespace ScriptTypes

/-- Variables that can be compared inside `m`. -/
class Comparing (m : Type → Type) (V : Type) where
  same : Kind → V → V → m Bool

/-- Numbered variables are the same when their numbers are. -/
instance {m : Type → Type} [Monad m] : Comparing m VarId where
  same _ v w := pure (v == w)

variable {m : Type → Type} [Monad m] {V : Type} [Comparing m V]

/-- Both records are closed, or both are open with the same variable. -/
def sameTail : Option (RowVar V) → Option (RowVar V) → m Bool
  | some v, some w => Comparing.same .row v.var w.var
  | none, none => pure true
  | _, _ => pure false

/-- Compare a record whose fields have been turned into tests with another one. The tails come first, then the
number of labels, then the fields in the order of the first record. Nothing is compared after a difference. -/
def sameRecord (tests : List (Row V (Ty V → m Bool))) (rows : List (Row V (Ty V))) : m Bool :=
  match Row.flatten tests, Row.flatten rows with
  | .ok r, .ok s => do
      if ← sameTail r.tail s.tail then
        if r.fields.length == s.fields.length then
          r.fields.allM fun (label, test) =>
            match Assoc.get? s.fields label with
            | some t => test t
            | none => pure false
        else pure false
      else pure false
  | _, _ => pure false

namespace Ty

mutual

def same : Ty V → Ty V → m Bool
  | .leaf l _, .leaf l' _ => pure (l == l')
  | .var v _, .var w _ => Comparing.same .type v w
  | .rowVar v _, .rowVar w _ => Comparing.same .row v w
  | .arrow d r _, .arrow d' r' _ =>
      if d.length == d'.length then do
        if ← sameList d d' then same r r' else pure false
      else pure false
  | .con n as _, .con n' as' _ =>
      if n == n' && as.length == as'.length then sameList as as' else pure false
  | .record rows _, .record rows' _ => sameRecord (rowTests rows) rows'
  | _, _ => pure false

def sameList : List (Ty V) → List (Ty V) → m Bool
  | t :: ts, u :: us => do
      if ← same t u then sameList ts us else pure false
  | _, _ => pure true

/-- The tests that the fields of another record must pass. -/
def rowTests : List (Row V (Ty V)) → List (Row V (Ty V → m Bool))
  | [] => []
  | .fields fs :: rows => .fields (fieldTests fs) :: rowTests rows
  | .var v :: rows => .var v :: rowTests rows

def fieldTests : List (String × Ty V) → List (String × (Ty V → m Bool))
  | [] => []
  | (l, t) :: fs => (l, same t) :: fieldTests fs

end

end Ty

end ScriptTypes
