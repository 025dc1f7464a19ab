import ScriptTypes.Text.Distance
import ScriptTypes.Text.LowerCase

/-! What may have been meant by a name that is not known. -/

namespace ScriptTypes.Suggestion

/-- How unlike two names are: their distance over the length of the longer one. -/
structure Difference where
  distance : Nat
  length : Nat
deriving DecidableEq, Repr

namespace Difference

def between (a b : String) : Difference :=
  ⟨Text.distance a.toList b.toList, max a.length b.length⟩

/-- At most half of the longer name is different. -/
def close (d : Difference) : Bool :=
  2 * d.distance ≤ d.length

def le (d e : Difference) : Bool :=
  d.distance * e.length ≤ e.distance * d.length

end Difference

/-- Of the names that are close to the input, the last of those that differ least. -/
def closest (input : String) (candidates : List String) : Option String :=
  let close := (candidates.map fun name => (name, Difference.between name input)).filter fun c => c.2.close
  let best := close.foldl (fun best c =>
    match best with
    | some b => if c.2.le b.2 then some c else some b
    | none => some c) none
  best.map Prod.fst

/-- The name most like the input. One that differs in case only comes before all others. -/
def best (candidates : List String) (input : String) : Option String :=
  let lower := Text.lowerCase input.toList
  (candidates.find? fun name => Text.lowerCase name.toList == lower).or (closest input candidates)

/-- The note that suggests a name, if there is one to suggest. -/
def notes (candidates : List String) (input : String) : List String :=
  match best candidates input with
  | some name => ["Did you mean `" ++ name ++ "`?"]
  | none => []

end ScriptTypes.Suggestion
