import ScriptTypes.Annotation.Parser
import ScriptTypes.Script.Tree
import ScriptTypes.Text.Blank
import ScriptTypes.Typing.Run

/-! Assumptions: templates that state the type of a name. -/

namespace ScriptTypes

/-- The tag of a template that states the type of a name. -/
def assumeTag : String := "$assume"

namespace Infer

/-- The name and the annotation of an assumption: all before the first colon and all after it. -/
def splitAssumption (text : String) : Option (String × String) :=
  let cs := text.toList
  let name := cs.takeWhile (· ≠ ':')
  match cs.drop name.length with
  | _ :: annotation => some (String.ofList (Text.trimChars name), String.ofList annotation)
  | [] => none

/-- The name that a template states a type of, and the type. -/
def assumption : Template → Infer (Ident × Typing VarId)
  | .mk [text] [] pos => do
      let invalid {α : Type} (message : String) : Infer α := fail (.invalidAssumption message pos)
      match splitAssumption text with
      | none => invalid "expected `name: Type`"
      | some (name, annotation) =>
          if Text.isIdentifier name then
            match Annotation.compile annotation with
            | .ok t => return (⟨name, pos⟩, ← instantiate (.closed t))
            | .error e => invalid e.message
          else invalid ("`" ++ name ++ "` is not a valid identifier")
  | .mk _ _ pos => fail (.invalidAssumption "interpolation is not allowed in an assumption" pos)

end Infer

end ScriptTypes
