import ScriptTypes.Diagnostic.Basic
import ScriptTypes.Text.Json
import ScriptTypes.Text.Lines

/-! Diagnostics as text for a reader and as JSON for tools. In text, a label is shown below the line that it starts
on. -/

namespace ScriptTypes

namespace Diagnostic

def spaces (n : Nat) : String :=
  String.ofList (List.replicate n ' ')

/-- A line of a file as it is shown, without what ends it. -/
def shownLine (f : File) (n : Nat) : String :=
  String.ofList (((f.line n).toList.reverse.dropWhile fun c => c = '\n' || c = '\r' || c = '\x00').reverse)

/-- The number of characters under a label, at least one. A label of several lines is marked to the end of the
first. -/
def marks (line : String) (l : Location) : Nat :=
  let stop := if l.first.line = l.last.line then l.last.column else line.length + 1
  max 1 (stop - l.first.column)

/-- Labels with the files and places they point to. -/
def resolved (files : Files) (labels : List Label) : List (Label × File × Location) :=
  labels.filterMap fun label => do
    let file ← files[label.span.file]?
    let location ← label.span.location files
    return (label, file, location)

/-- The lines that show one label, with the margin that holds line numbers. -/
def labelLines (margin : String) : Label × File × Location → List String
  | (label, file, location) =>
      let number := toString location.first.line
      let line := shownLine file location.first.line
      let mark := match label.style with
        | .primary => '^'
        | .secondary => '-'
      let underline := spaces (location.first.column - 1) ++ String.ofList (List.replicate (marks line location) mark)
      let remark := if label.message.isEmpty then "" else " " ++ label.message
      [margin ++ " ┌─ " ++ location.text,
       margin ++ " │",
       spaces (margin.length - number.length) ++ number ++ " │ " ++ line,
       margin ++ " │ " ++ underline ++ remark]

/-- A note, whose lines after the first are indented. -/
def noteLines (margin note : String) : List String :=
  match Text.lines note with
  | [] => []
  | l :: ls => (margin ++ " = " ++ l) :: ls.map fun l => margin ++ "   " ++ l

/-- The text of a diagnostic. Line numbers of all labels stand in one column. -/
def text (files : Files) (d : Diagnostic) : String :=
  let labels := resolved files d.labels
  let width := (labels.map fun (_, _, location) => (toString location.first.line).length).foldl max 0
  let margin := spaces width
  let bar := if labels.isEmpty || d.notes.isEmpty then [] else [margin ++ " │"]
  let lines := ["error: " ++ d.message] ++ labels.flatMap (labelLines margin) ++ bar ++
    d.notes.flatMap (noteLines margin) ++ [""]
  String.join (lines.map fun l => l ++ "\n")

end Diagnostic

open Text

def Style.json : Style → String
  | .primary => Json.string "Primary"
  | .secondary => Json.string "Secondary"

/-- Files are counted from one. -/
def Label.json (l : Label) : String :=
  Json.object [("style", l.style.json), ("file_id", Json.number (l.span.file + 1)),
    ("range", Json.object [("start", Json.number l.span.start), ("end", Json.number l.span.stop)]),
    ("message", Json.string l.message)]

def Diagnostic.json (d : Diagnostic) : String :=
  Json.object [("severity", Json.string "Error"), ("code", "null"), ("message", Json.string d.message),
    ("labels", Json.array (d.labels.map Label.json)), ("notes", Json.array (d.notes.map Json.string))]

end ScriptTypes
