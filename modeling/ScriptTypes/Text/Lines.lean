/-! The lines of a text. -/

namespace ScriptTypes.Text

/-- A line without the carriage return before its end. -/
def withoutReturn (line : String) : String :=
  if line.endsWith "\r" then String.ofList line.toList.dropLast else line

/-- The lines of a text without what ends them: a line feed, or a carriage return and a line feed. What follows the
last end is a line if it is not empty. -/
def lines (text : String) : List String :=
  let pieces := text.splitOn "\n"
  let ended := pieces.dropLast.map withoutReturn
  let rest := pieces.getLastD ""
  if rest.isEmpty then ended else ended ++ [rest]

end ScriptTypes.Text
