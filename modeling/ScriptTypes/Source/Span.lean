/-! Places in source files. A span is a range of byte offsets in a file, its end being the offset after the last
byte. Positions, node references and identifiers are made of spans; a position may be missing. -/

namespace ScriptTypes

structure Span where
  file : Nat
  start : Nat
  stop : Nat
deriving DecidableEq, Repr

abbrev Position := Option Span

/-- A syntax node as others refer to it. -/
structure Node where
  id : Nat
  pos : Position
deriving DecidableEq, Repr

/-- A name together with where it is written. -/
structure Ident where
  label : String
  pos : Position
deriving DecidableEq, Repr

namespace Span

def greatestOffset : Nat := 4294967295

/-- Offsets have 32 bits: a number outside of them counts as the greatest offset. -/
def offset (n : Int) : Nat :=
  if 0 ≤ n ∧ n ≤ greatestOffset then n.toNat else greatestOffset

def ofRange (file : Nat) (start stop : Int) : Span :=
  ⟨file, offset start, offset stop⟩

/-- The least span that holds both, if they are in one file. -/
def fuse (s t : Span) : Option Span :=
  if s.file = t.file then some ⟨s.file, min s.start t.start, max s.stop t.stop⟩ else none

/-- The empty span where the given one starts. -/
def atStart (s : Span) : Span :=
  { s with stop := s.start }

end Span

namespace Position

/-- Spans of different files cannot be fused, so the first one stays. -/
def fuse : Position → Position → Position
  | some s, some t => some ((s.fuse t).getD s)
  | none, p => p
  | p, none => p

def or (p q : Position) : Position :=
  match p with
  | some s => some s
  | none => q

end Position

end ScriptTypes
