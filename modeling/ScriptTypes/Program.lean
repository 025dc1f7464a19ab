import ScriptTypes.Diagnostic.Explain
import ScriptTypes.Script.Parser
import ScriptTypes.Typing.Infer

/-! Programs: from the text of a script to the types of its top-level names, or to an error. -/

namespace ScriptTypes

inductive Error where
  | parse (error : SyntaxError)
  | scope (error : ScopeError Atom)
  | type (error : TypeError Atom)
  /-- A text that cannot be read. -/
  | unreadable (message : String)
  /-- Inference that was given too few steps. -/
  | unfinished
deriving DecidableEq

/-- The explanation of an error about the given files. It may add files that hold snippets. -/
def Error.diagnostic : Error → StateM Files Diagnostic
  | .parse e => pure e.diagnostic
  | .scope e => pure e.diagnostic
  | .type e => e.diagnostic
  | .unreadable message => pure ⟨message, [], []⟩
  | .unfinished => pure ⟨"type inference takes too many steps", [], []⟩

/-- A variable of inference as it is shown. -/
def Atom.ofVar (_ : Kind) (v : VarId) : Atom := .id v

/-- What is known of a script that is well scoped: its names with their types, and what ended inference if anything
did. -/
structure Checked where
  bindings : List (String × Ty VarId)
  error : Option (TypeError VarId)

namespace Checked

def ofInferred (i : Inferred) : Checked :=
  ⟨i.env.bindings.map fun (id, t) => (id.label, t.type), i.error⟩

/-- Each name with the text of its type. Names of variables start anew for each. -/
def texts (c : Checked) : List (String × String) :=
  c.bindings.map fun (name, t) => (name, t.idText)

end Checked

/-- Parse a text and infer the types of its top-level names. -/
def check (text : String) : Except Error Checked :=
  match Script.parse 0 text with
  | .error e => .error (.parse e)
  | .ok script =>
      match script.infer Script.stepLimit with
      | .ok inferred => .ok (.ofInferred inferred)
      | .error (.scope e) => .error (.scope (e.map Atom.ofVar))
      | .error .unfinished => .error .unfinished

/-- The error of a text, if there is one. -/
def error? (text : String) : Option Error :=
  match check text with
  | .error e => some e
  | .ok checked => checked.error.map fun e => .type (e.map Atom.ofVar)

end ScriptTypes
