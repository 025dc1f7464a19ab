import ScriptTypes.Layout
import ScriptTypes.Text.Quoted
import ScriptTypes.Ty.Ref

/-! Types as text. Numbered variables get letters in the order in which they are met, type variables from `a` on and
row variables from `r` on. Several types may share one register of names, so that a variable is called the same
in all of them. -/

namespace ScriptTypes

/-- The variables of each kind that have got a name, in order. -/
structure Names where
  types : List VarId
  rows : List VarId
deriving DecidableEq, Repr

namespace Names

def initial : Names := ⟨[], []⟩

def letters : Kind → List Char
  | .type => ['a', 'b', 'c', 'd', 'e', 'f', 'g', 'h', 'i', 'j', 'k', 'l', 'm', 'n', 'o', 'p', 'q']
  | .row => ['r', 's', 't', 'u', 'v', 'w', 'x', 'y', 'z']

/-- The names of a kind in order: its letters, then its letters with a `1`, then with a `2`, and so on. -/
def nth (k : Kind) (index : Nat) : String :=
  let ls := letters k
  let letter := ls.getD (index % ls.length) ' '
  match index / ls.length with
  | 0 => String.ofList [letter]
  | suffix => String.ofList [letter] ++ toString suffix

def known (names : Names) : Kind → List VarId
  | .type => names.types
  | .row => names.rows

def add (names : Names) (k : Kind) (id : VarId) : Names :=
  match k with
  | .type => { names with types := names.types ++ [id] }
  | .row => { names with rows := names.rows ++ [id] }

/-- The name of a variable. A variable without number keeps the name it was written with. -/
def name (k : Kind) : Atom → StateM Names String
  | .name s => pure s
  | .id i => fun names =>
      match (names.known k).idxOf? i with
      | some index => (nth k index, names)
      | none => (nth k (names.known k).length, names.add k i)

end Names

namespace Doc

def commaList (ds : List Doc) : Doc :=
  joined (.text "," ++ .line) ds

def field (label : String) (d : Doc) : Doc :=
  .text (Text.shownLabel label) ++ .text ":" ++ .text " " ++ d

/-- Row variables come before the fields. -/
def record (items : List Doc) : Doc :=
  if items.isEmpty then .text "\x7b\x7d"
  else .group (enclosed "\x7b" "\x7d" (.nest 2 (.line ++ commaList items) ++ .line))

def arrow (domain : List Doc) (range : Doc) : Doc :=
  .group (enclosed "(" ")" (.nest 2 (commaList domain)) ++ .text " " ++ .text "=>" ++ .line ++ range)

def container (name : String) (args : List Doc) : Doc :=
  if args.isEmpty then .text name
  else .group (.text name ++ enclosed "(" ")" (.nest 2 (commaList args)))

end Doc

namespace Ty

/-- The document of a record whose fields have been turned into makers of documents. -/
def recordDoc (rows : List (Row Atom (StateM Names Doc))) : StateM Names Doc := do
  let vars ← (Row.vars rows).mapM fun v => do
    return Doc.text ("..." ++ (← Names.name .row v.var))
  let fields ← (Row.visible rows).mapM fun (label, make) => do
    return Doc.field label (← make)
  return .record (vars ++ fields)

mutual

/-- Variables are named as the document is built: a domain before its range, row variables before fields. -/
def doc : Ty Atom → StateM Names Doc
  | .leaf l _ => pure (.text l.text)
  | .var v _ => do return .text (← Names.name .type v)
  | .rowVar v _ => do return .text (← Names.name .row v)
  | .arrow d r _ => do
      let d ← docList d
      let r ← doc r
      return .arrow d r
  | .con n as _ => do return .container n (← docList as)
  | .record rows _ => recordDoc (rowDocs rows)

def docList : List (Ty Atom) → StateM Names (List Doc)
  | [] => pure []
  | t :: ts => do
      let d ← doc t
      let ds ← docList ts
      return d :: ds

def rowDocs : List (Row Atom (Ty Atom)) → List (Row Atom (StateM Names Doc))
  | [] => []
  | .fields fs :: rows => .fields (fieldDocs fs) :: rowDocs rows
  | .var v :: rows => .var v :: rowDocs rows

def fieldDocs : List (String × Ty Atom) → List (String × StateM Names Doc)
  | [] => []
  | (l, t) :: fs => (l, doc t) :: fieldDocs fs

end

/-- The width at which types are broken over lines. -/
def width : Nat := 80

/-- The text of a type with the names of a register. -/
def render (t : Ty Atom) : StateM Names String := do
  return (← t.doc).render width

def text (t : Ty Atom) : String :=
  (t.render.run .initial).1

/-- The text of a type over numbered variables. -/
def idText (t : Ty VarId) : String :=
  (t.map fun _ => Atom.id).text

end Ty

end ScriptTypes
