import ScriptTypes.Text.Bytes
import ScriptTypes.Token.Scan

/-! Tokens of annotations: names, quoted labels and a few symbols. Here a keyword is a name like any other, and a
quoted label may go over lines. -/

namespace ScriptTypes

namespace Scan

def isAnnotationBlank (c : Char) : Bool :=
  c == ' ' || c == '\t' || c == '\r' || c == '\n'

/-- The length of the body of a quoted label. Only a line feed after a backslash cannot stand in it. -/
def labelLength : List Char → Nat
  | [] => 0
  | [c] => if c = '\x22' || c = '\x5c' then 0 else 1
  | c :: d :: cs =>
      if c = '\x5c' then if d = '\n' then 0 else labelLength cs + 2
      else if c = '\x22' then 0
      else labelLength (d :: cs) + 1

def label (cs : List Char) : Scan :=
  let n := labelLength cs
  match cs.drop n with
  | '\x22' :: _ => .token (.string (String.ofList (Text.unescapeChars (cs.take n)))) (n + 1)
  | _ => .fault .unknown 0

/-- The longest lexeme of an annotation. -/
def annotation (c : Char) (cs : List Char) : Scan :=
  if isAnnotationBlank c then .gap (runLength isAnnotationBlank cs)
  else if Text.isNameStart c then
    .token (.ident (String.ofList (c :: cs.takeWhile Text.isNamePart))) (runLength Text.isNamePart cs)
  else match c with
    | '\x22' => label cs
    | '(' => symbol .lParen 0
    | ')' => symbol .rParen 0
    | '\x7b' => symbol .lBrace 0
    | '\x7d' => symbol .rBrace 0
    | ',' => symbol .comma 0
    | ':' => symbol .colon 0
    | '=' => match cs with
        | '>' :: _ => symbol .fatArrow 1
        | _ => .fault .unknown 0
    | '.' => match cs with
        | '.' :: '.' :: _ => symbol .ellipsis 2
        | _ => .fault .unknown 0
    | _ => .fault .unknown 0

end Scan

/-- A token of an annotation and the offset at which it starts. -/
structure AnnotationLexeme where
  token : Token
  start : Nat
deriving DecidableEq, Repr

/-- The lexemes of an annotation, or the offset of the first character that starts none. -/
def annotationLexemes (offset : Nat) : List Char → Except Nat (List AnnotationLexeme)
  | [] => .ok []
  | c :: cs =>
      match Scan.annotation c cs with
      | .gap more => annotationLexemes (offset + Text.byteLength (c :: cs.take more)) (cs.drop more)
      | .token token more => do
          let rest ← annotationLexemes (offset + Text.byteLength (c :: cs.take more)) (cs.drop more)
          return ⟨token, offset⟩ :: rest
      | .fault _ _ => .error offset
termination_by cs => cs.length
decreasing_by all_goals simp only [List.length_cons, List.length_drop]; omega

end ScriptTypes
