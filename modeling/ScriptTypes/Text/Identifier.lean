/-! Names that can be written bare in a script: a letter, an underscore or a dollar sign, then any number of
those and of digits. Letters and digits are the ASCII ones. -/

namespace ScriptTypes.Text

def isNameStart (c : Char) : Bool :=
  c.isAlpha || c == '_' || c == '$'

def isNamePart (c : Char) : Bool :=
  c.isAlphanum || c == '_' || c == '$'

def isName : List Char → Bool
  | [] => false
  | c :: cs => isNameStart c && cs.all isNamePart

def isIdentifier (label : String) : Bool :=
  isName label.toList

/-- Labels in the order of their code points, each once. -/
def sortedLabels (labels : List String) : List String :=
  (labels.mergeSort fun a b => decide (a ≤ b)).eraseReps

end ScriptTypes.Text
