/-! Values written as JSON, without blanks between tokens. -/

namespace ScriptTypes.Text.Json

/-- A character between quotes. Only what must be escaped is. -/
def char (c : Char) : List Char :=
  if c = '\x22' then ['\x5c', '\x22']
  else if c = '\x5c' then ['\x5c', '\x5c']
  else if c = '\x08' then ['\x5c', 'b']
  else if c = '\t' then ['\x5c', 't']
  else if c = '\n' then ['\x5c', 'n']
  else if c = '\x0c' then ['\x5c', 'f']
  else if c = '\r' then ['\x5c', 'r']
  else if c.toNat < 0x10 then ['\x5c', 'u', '0', '0', '0'] ++ Nat.toDigits 16 c.toNat
  else if c.toNat < 0x20 then ['\x5c', 'u', '0', '0'] ++ Nat.toDigits 16 c.toNat
  else [c]

def string (s : String) : String :=
  String.ofList ('\x22' :: s.toList.flatMap char ++ ['\x22'])

def number (n : Nat) : String :=
  toString n

def array (items : List String) : String :=
  "[" ++ String.intercalate "," items ++ "]"

/-- Members stand in the order in which they are given. -/
def object (members : List (String × String)) : String :=
  "\x7b" ++ String.intercalate "," (members.map fun (key, value) => string key ++ ":" ++ value) ++ "\x7d"

end ScriptTypes.Text.Json
