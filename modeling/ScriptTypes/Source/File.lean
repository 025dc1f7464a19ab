import ScriptTypes.Source.Span

/-! Source files and the lines and columns of their offsets. A line ends after each line feed. Columns count
characters. Lines and columns start from one. -/

namespace ScriptTypes

structure File where
  name : String
  text : String
deriving DecidableEq, Repr

abbrev Files := List File

structure Place where
  line : Nat
  column : Nat
deriving DecidableEq, Repr

namespace Place

/-- The place just after a character. -/
def next (p : Place) (c : Char) : Place :=
  if c = '\n' then ⟨p.line + 1, 1⟩ else ⟨p.line, p.column + 1⟩

/-- The place that lies a number of bytes further on, unless that is past the end or inside a character. -/
def after (p : Place) : List Char → Nat → Option Place
  | _, 0 => some p
  | [], _ => none
  | c :: cs, n => if c.utf8Size ≤ n then (p.next c).after cs (n - c.utf8Size) else none

end Place

def File.place (f : File) (offset : Nat) : Option Place :=
  (Place.mk 1 1).after f.text.toList offset

/-- A line of a file, without its line feed. Lines are counted from one. -/
def File.line (f : File) (n : Nat) : String :=
  String.ofList ((lines f.text.toList).getD (n - 1) [])
where
  lines : List Char → List (List Char)
    | [] => [[]]
    | c :: cs =>
        if c = '\n' then [] :: lines cs
        else match lines cs with
          | [] => [[c]]
          | l :: ls => (c :: l) :: ls

structure Location where
  source : String
  first : Place
  last : Place
deriving DecidableEq, Repr

/-- Where a span lies for a reader. The two ends are found separately. -/
def Span.location (s : Span) (files : Files) : Option Location := do
  let f ← files[s.file]?
  let first ← f.place s.start
  let last ← f.place s.stop
  return ⟨f.name, first, last⟩

def Location.text (l : Location) : String :=
  l.source ++ ":" ++ toString l.first.line ++ ":" ++ toString l.first.column

end ScriptTypes
