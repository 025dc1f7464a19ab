import ScriptTypes.Annotation.Lexer
import ScriptTypes.Ty.Basic

/-! Annotations: types as they are written. `Num`, `Bool`, `String` and `Undefined` are leaves, as are `Number`,
`Boolean` and `()`. Other names with a capital are containers, the rest are variables. A record may have one
row variable, with or without the three dots. -/

namespace ScriptTypes

/-- A type whose variables are known by the names they are written with. -/
abbrev Annotation := Ty String

inductive AnnotationError where
  | invalidToken (offset : Nat)
  | unexpectedToken (found expected : String) (offset : Nat)
  | unexpectedEnd (expected : String)
  | multipleRowVariables
deriving DecidableEq, Repr

def AnnotationError.message : AnnotationError → String
  | .invalidToken offset => "invalid character at offset " ++ toString offset
  | .unexpectedToken found expected offset =>
      "unexpected `" ++ found ++ "` at offset " ++ toString offset ++ ", expected " ++ expected
  | .unexpectedEnd expected => "unexpected end of annotation, expected " ++ expected
  | .multipleRowVariables => "a record type can't have more than one row variable"

namespace Annotation

/-- A value that has been read, leaving fewer lexemes than the bound. -/
structure Parsed (α : Type) (bound : Nat) where
  value : α
  rest : List AnnotationLexeme
  within : rest.length < bound

abbrev Result (α : Type) (bound : Nat) := Except AnnotationError (Parsed α bound)

def unexpected (ls : List AnnotationLexeme) (expected : String) : AnnotationError :=
  match ls with
  | [] => .unexpectedEnd expected
  | l :: _ => .unexpectedToken l.token.shown expected l.start

def eat (s : Symbol) (ls : List AnnotationLexeme) : Option (Parsed Unit ls.length) :=
  match ls with
  | [] => none
  | l :: rest => if l.token = .symbol s then some ⟨(), rest, by simp only [List.length_cons]; omega⟩ else none

def expect (s : Symbol) (ls : List AnnotationLexeme) : Result Unit ls.length :=
  match eat s ls with
  | some p => .ok p
  | none => .error (unexpected ls ("`" ++ s.text ++ "`"))

def leaf? : String → Option Leaf
  | "Num" => some .num
  | "Number" => some .num
  | "Bool" => some .bool
  | "Boolean" => some .bool
  | "String" => some .str
  | "Undefined" => some .undefined
  | _ => none

def isContainerName (name : String) : Bool :=
  match name.toList with
  | c :: _ => c.isUpper
  | [] => false

/-- What an item of a record type starts with: the name of a row variable or a label. -/
inductive Item where
  | rowVar (name : String)
  | label (name : String)

/-- A name that no colon follows is a row variable. -/
def item (ls : List AnnotationLexeme) : Result Item ls.length :=
  match ls with
  | ⟨.symbol .ellipsis, _⟩ :: ⟨.ident name, _⟩ :: rest =>
      .ok ⟨.rowVar name, rest, by simp only [List.length_cons]; omega⟩
  | ⟨.symbol .ellipsis, _⟩ :: rest => .error (unexpected rest "a row variable")
  | ⟨.ident name, _⟩ :: ⟨.symbol .colon, start⟩ :: rest =>
      .ok ⟨.label name, ⟨.symbol .colon, start⟩ :: rest, by simp only [List.length_cons]; omega⟩
  | ⟨.ident name, _⟩ :: rest => .ok ⟨.rowVar name, rest, by simp only [List.length_cons]; omega⟩
  | ⟨.string name, _⟩ :: rest => .ok ⟨.label name, rest, by simp only [List.length_cons]; omega⟩
  | ls => .error (unexpected ls "a label or a row variable")

mutual

def type (ls : List AnnotationLexeme) : Result (Ty String) ls.length :=
  match ls with
  | ⟨.symbol .lParen, _⟩ :: ls₁ => do
      let ⟨ts, ls₂, h₂⟩ ← types ls₁
      match eat .fatArrow ls₂ with
      | some ⟨(), ls₃, h₃⟩ =>
          let ⟨range, ls₄, h₄⟩ ← type ls₃
          return ⟨.arrow ts range none, ls₄, by simp only [List.length_cons]; omega⟩
      | none =>
          match ts with
          | [] => return ⟨.leaf .undefined none, ls₂, by simp only [List.length_cons]; omega⟩
          | [t] => return ⟨t, ls₂, by simp only [List.length_cons]; omega⟩
          | _ => throw (unexpected ls₂ "`=>`")
  | ⟨.symbol .lBrace, _⟩ :: ls₁ => do
      let ⟨t, ls₂, h₂⟩ ← record [] none ls₁
      return ⟨t, ls₂, by simp only [List.length_cons]; omega⟩
  | ⟨.ident name, _⟩ :: ls₁ =>
      match leaf? name with
      | some l => .ok ⟨.leaf l none, ls₁, by simp only [List.length_cons]; omega⟩
      | none =>
          if isContainerName name then
            match eat .lParen ls₁ with
            | some ⟨(), ls₂, h₂⟩ => do
                let ⟨args, ls₃, h₃⟩ ← types ls₂
                return ⟨.con name args none, ls₃, by simp only [List.length_cons]; omega⟩
            | none => .ok ⟨.con name [] none, ls₁, by simp only [List.length_cons]; omega⟩
          else .ok ⟨.var name none, ls₁, by simp only [List.length_cons]; omega⟩
  | ls => .error (unexpected ls "a type")
termination_by 3 * ls.length

/-- Types between commas, after an opening parenthesis and up to the closing one. -/
def types (ls : List AnnotationLexeme) : Result (List (Ty String)) ls.length :=
  match eat .rParen ls with
  | some ⟨(), ls₁, h₁⟩ => .ok ⟨[], ls₁, h₁⟩
  | none => do
      let ⟨t, ls₁, h₁⟩ ← type ls
      match eat .comma ls₁ with
      | some ⟨(), ls₂, h₂⟩ =>
          let ⟨ts, ls₃, h₃⟩ ← types ls₂
          return ⟨t :: ts, ls₃, by omega⟩
      | none =>
          let ⟨(), ls₂, h₂⟩ ← expect .rParen ls₁
          return ⟨[t], ls₂, by omega⟩
termination_by 3 * ls.length + 1

/-- The rest of a record type, given its fields and its row variable so far. -/
def record (fields : Assoc (Ty String)) (tail : Option (RowVar String)) (ls : List AnnotationLexeme) :
    Result (Ty String) ls.length :=
  match eat .rBrace ls with
  | some ⟨(), ls₁, h₁⟩ => .ok ⟨.ofFields fields tail, ls₁, h₁⟩
  | none => do
      match ← item ls with
      | ⟨.rowVar name, ls₁, h₁⟩ =>
          if tail.isSome then throw .multipleRowVariables
          let ⟨t, ls₂, h₂⟩ ← recordNext fields (some ⟨name, none⟩) ls₁
          return ⟨t, ls₂, by omega⟩
      | ⟨.label name, ls₁, h₁⟩ =>
          let ⟨(), ls₂, h₂⟩ ← expect .colon ls₁
          let ⟨t, ls₃, h₃⟩ ← type ls₂
          let ⟨t', ls₄, h₄⟩ ← recordNext (Assoc.insert fields name t) tail ls₃
          return ⟨t', ls₄, by omega⟩
termination_by 3 * ls.length + 1

/-- What follows an item: a comma and more, or the closing brace. -/
def recordNext (fields : Assoc (Ty String)) (tail : Option (RowVar String)) (ls : List AnnotationLexeme) :
    Result (Ty String) ls.length :=
  match eat .comma ls with
  | some ⟨(), ls₁, h₁⟩ => do
      let ⟨t, ls₂, h₂⟩ ← record fields tail ls₁
      return ⟨t, ls₂, by omega⟩
  | none => do
      let ⟨(), ls₁, h₁⟩ ← expect .rBrace ls
      return ⟨.ofFields fields tail, ls₁, h₁⟩
termination_by 3 * ls.length + 2

end

/-- Read an annotation. All of its tokens are read before its structure is looked at. -/
def compile (source : String) : Except AnnotationError Annotation :=
  match annotationLexemes 0 source.toList with
  | .error offset => .error (.invalidToken offset)
  | .ok ls => do
      let ⟨t, rest, _⟩ ← type ls
      match rest with
      | [] => return t
      | l :: _ => throw (.unexpectedToken l.token.shown "the end of the annotation" l.start)

end Annotation

end ScriptTypes
