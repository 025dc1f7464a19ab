import ScriptTypes.Diagnostic.Basic
import ScriptTypes.Diagnostic.Suggestion
import ScriptTypes.Script.Error
import ScriptTypes.Ty.Printer
import ScriptTypes.Typing.Error

/-! Errors explained as diagnostics. All types of one diagnostic share a register of names. -/

namespace ScriptTypes

namespace SyntaxError

def notes : SyntaxError → List String
  | .openTemplate _ => ["Template literals are closed by a backtick (`)"]
  | _ => []

def diagnostic (e : SyntaxError) : Diagnostic :=
  ⟨e.message, [⟨.primary, e.span, ""⟩], e.notes⟩

end SyntaxError

namespace ScopeError

def labels : ScopeError Atom → List Label
  | .unbound id _ => Label.at? .primary id.pos "this identifier is unbound"
  | .alreadyDefined id previous =>
      Label.at? .primary id.pos "redefined here" ++ Label.at? .secondary previous "previously defined here"
  | .duplicateLabel label previous =>
      Label.at? .primary label.pos "duplicate property" ++ Label.at? .secondary previous "first defined here"
  | .invalidKey pos => Label.at? .primary pos "computed key"
  | .unsupported _ pos | .invalidAssumption _ pos | .multipleRowVars pos _ => Label.at? .primary pos ""

def notes : ScopeError Atom → List String
  | .unbound id inScope => Suggestion.notes inScope id.label
  | .alreadyDefined _ _ =>
      ["A name can only be bound once per scope. Shadowing is allowed in nested functions."]
  | .unsupported _ _ =>
      ["Only `let` bindings, expression statements and `return` are supported, with a subset of " ++
        "JavaScript expressions."]
  | .duplicateLabel _ _ => []
  | .invalidKey _ => ["The type of an object must be known statically: computed keys aren't supported."]
  | .invalidAssumption _ _ =>
      ["An assumption has the form $assume`name: Type`, for example $assume`parseInt: (String) => Num`."]
  | .multipleRowVars _ record => ["The record type is `" ++ record.text ++ "`"]

def diagnostic (e : ScopeError Atom) : Diagnostic :=
  ⟨e.message, e.labels, e.notes⟩

end ScopeError

/-- A number as a rank: 1st, 2nd, 3rd, 4th. -/
def ordinal (n : Nat) : String :=
  let ending :=
    if 11 ≤ n % 100 ∧ n % 100 ≤ 13 then "th"
    else if n % 10 = 1 then "st"
    else if n % 10 = 2 then "nd"
    else if n % 10 = 3 then "rd"
    else "th"
  toString n ++ ending

namespace TypeError

/-- Explaining needs names for variables and may add snippets. -/
abbrev Explain := StateT Names (StateM Files)

def shown (t : Ty Atom) : Explain String := fun names => pure (t.render.run names)

def expected (t : Ty Atom) : Explain String := do
  return "Expected an expression of type `" ++ (← shown t) ++ "`"

def found (t : Ty Atom) : Explain String := do
  return "Found an expression of type `" ++ (← shown t) ++ "`"

/-- Notes on what lies behind an error. -/
def causeNotes : TypeError Atom → Explain (List String)
  | .mismatch l r => do
      let left ← expected l
      let right ← found r
      return [left, right]
  | _ => pure []

def typeLabel (style : Style) (lead : String) (t : Ty Atom) : Explain (List Label) :=
  match t.pos with
  | some span => do return [⟨style, span, lead ++ "`" ++ (← shown t) ++ "`"⟩]
  | none => pure []

def message : TypeError Atom → String
  | .mismatch _ _ => "incompatible types"
  | .callArgument .. => "function called with incompatible arguments"
  | .arrayLiteral _ _ _ => "array elements have incompatible types"
  | .noSuchProperty _ _ label => "missing property `" ++ label.label ++ "`"
  | .notAnObject _ _ label => "property `" ++ label.label ++ "` accessed on a non-object"

/-- The argument that is blamed for a call, with its index. -/
def blamed (args : List (Typing Atom)) (badArg : Option Nat) : Option (Nat × Ty Atom) := do
  let index ← badArg
  let arg ← args[index]?
  return (index, arg.type)

/-- The main label of a call: the blamed argument, or else the call. -/
def callLabel (call : Node) : Option (Nat × Ty Atom) → Explain (List Label)
  | some (index, t) => do
      let text ← shown t
      let message := "the " ++ ordinal (index + 1) ++ " argument has type `" ++ text ++ "`"
      let label ← Label.atOr .primary t.pos text message
      return [label]
  | none => pure (Label.at? .primary call.pos "this call")

/-- The labels that can be seen in a record type. -/
def candidates : Ty Atom → List String
  | .record rows _ =>
      match Row.flatten rows with
      | .ok record => record.fields.keys
      | .error _ => []
  | _ => []

/-- The labels and the notes of an error. -/
def details : TypeError Atom → Explain (List Label × List String)
  | .mismatch l r => do
      let left ← expected l
      let right ← found r
      let first ← typeLabel .primary "this has type " l
      let second ← typeLabel .secondary "this has type " r
      return (first ++ second, [left, right, "These types are not compatible"])
  | .callArgument call callee calleeTyping args badArg cause => do
      let function ← shown calleeTyping.type
      let main ← callLabel call (blamed args badArg)
      let second := Label.at? .secondary callee.pos ("this function has type `" ++ function ++ "`")
      let types ← args.mapM fun arg => shown arg.type
      let note := "The function of type `" ++ function ++ "` was called with arguments of type `(" ++
        String.intercalate ", " types ++ ")`"
      return (main ++ second, note :: (← cause.causeNotes))
  | .arrayLiteral node elems cause => do
      let labels ← elems.mapM fun elem => typeLabel .secondary "has type " elem.type
      let notes ← cause.causeNotes
      return (Label.at? .primary node.pos "in this array" ++ labels.flatten,
        "All the elements of an array must have the same type" :: notes)
  | .noSuchProperty node record label => do
      let type ← shown record
      let pos := label.pos.or node.pos
      return (Label.at? .primary pos ("`" ++ label.label ++ "` is not a property of this object"),
        ("The object has type `" ++ type ++ "`") :: Suggestion.notes (candidates record) label.label)
  | .notAnObject node t _ => do
      let type ← shown t
      return (Label.at? .primary node.pos "this property access",
        ["The accessed expression has type `" ++ type ++ "`, which isn't an object type"])

def diagnostic (e : TypeError Atom) : StateM Files Diagnostic := do
  let ((labels, notes), _) ← e.details.run .initial
  return ⟨e.message, labels, notes⟩

end TypeError

end ScriptTypes
