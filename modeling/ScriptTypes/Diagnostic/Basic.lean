import ScriptTypes.Source.File
import ScriptTypes.Text.Bytes

/-! Diagnostics: a message, labels that point into files, and notes. -/

namespace ScriptTypes

inductive Style where
  | primary | secondary
deriving DecidableEq, Repr

/-- A remark on a part of a file. The message may be empty. -/
structure Label where
  style : Style
  span : Span
  message : String
deriving DecidableEq, Repr

structure Diagnostic where
  message : String
  labels : List Label
  notes : List String
deriving DecidableEq, Repr

namespace Label

/-- The label at a position, if there is one. -/
def at? (style : Style) (pos : Position) (message : String) : List Label :=
  match pos with
  | some span => [⟨style, span, message⟩]
  | none => []

/-- The name of a file that only holds a type which no source shows. -/
def snippetName : String := "<unknown> (generated by type inference)"

/-- The span of a text that is put into a file of its own. -/
def snippet (text : String) : StateM Files Span := fun files =>
  (⟨files.length, 0, Text.byteLength text.toList⟩, files ++ [⟨snippetName, text⟩])

/-- The label at a position, or else at a snippet. -/
def atOr (style : Style) (pos : Position) (text message : String) : StateM Files Label :=
  match pos with
  | some span => pure ⟨style, span, message⟩
  | none => do return ⟨style, ← snippet text, message⟩

end Label

end ScriptTypes
