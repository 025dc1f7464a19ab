import ScriptTypes.Text.Hidden
import ScriptTypes.Text.Identifier

/-! Labels and strings as they are shown: in double quotes, with quotes, backslashes and characters that cannot
be seen written as escapes. -/

namespace ScriptTypes.Text

/-- How one character is shown between quotes. -/
def shownChar (c : Char) : List Char :=
  if c = '\x22' then ['\x5c', '\x22']
  else if c = '\x5c' then ['\x5c', '\x5c']
  else if c = '\n' then ['\x5c', 'n']
  else if c = '\r' then ['\x5c', 'r']
  else if c = '\t' then ['\x5c', 't']
  else if c = '\x00' then ['\x5c', '0']
  else if isHidden c then ['\x5c', 'u', '\x7b'] ++ Nat.toDigits 16 c.toNat ++ ['\x7d']
  else [c]

def quotedChars (cs : List Char) : List Char :=
  '\x22' :: cs.flatMap shownChar ++ ['\x22']

def quoted (s : String) : String :=
  String.ofList (quotedChars s.toList)

/-- A label is shown bare where it could be written so, and quoted elsewhere. -/
def shownLabel (label : String) : String :=
  if isIdentifier label then label else quoted label

end ScriptTypes.Text
