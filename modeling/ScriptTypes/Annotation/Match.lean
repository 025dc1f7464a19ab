import ScriptTypes.Annotation.Parser
import ScriptTypes.Ty.Printer

/-! Whether a type is what an annotation says, up to the names of variables. -/

namespace ScriptTypes.Annotation

/-- Compare an annotation with a type. Its variables belong to a scope of their own, in which none has a number
yet: each gets the number of the first variable it meets. -/
def agrees (a : Annotation) (scope : Nat) (t : Ty Ref) : StateM Slots Bool :=
  Ty.same (a.map fun _ name => Ref.named name scope) t

/-- Whether a type over numbered variables is what the annotation says. -/
def fits (a : Annotation) (t : Ty VarId) : Bool :=
  ((a.agrees 0 (t.map fun _ => Ref.id)).run []).1

def text (a : Annotation) : String :=
  (a.map fun _ => Atom.name).text

end ScriptTypes.Annotation
