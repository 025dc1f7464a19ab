/-! Backslash escapes of string literals, templates and quoted labels, as they are read. -/

namespace ScriptTypes.Text

/-- The character that a backslash followed by this one stands for. One without special meaning stands for
itself. -/
def escapedChar : Char → Char
  | 'n' => '\n'
  | 't' => '\t'
  | 'r' => '\r'
  | '0' => '\x00'
  | 'b' => '\x08'
  | 'f' => '\x0c'
  | 'v' => '\x0b'
  | c => c

/-- A backslash at the very end stands for itself. -/
def unescapeChars : List Char → List Char
  | [] => []
  | [c] => [c]
  | c :: d :: cs =>
      if c = '\x5c' then escapedChar d :: unescapeChars cs else c :: unescapeChars (d :: cs)

def unescape (s : String) : String :=
  String.ofList (unescapeChars s.toList)

end ScriptTypes.Text
