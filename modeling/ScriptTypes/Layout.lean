/-! Documents that are laid out on lines of a limited width. A line break in a group is a space as long as the group
fits on the line together with what follows it up to the next possible break. -/

namespace ScriptTypes

inductive Doc where
  | nil
  | text (s : String)
  | line
  | append (a b : Doc)
  | nest (indent : Nat) (d : Doc)
  | group (d : Doc)
deriving Repr

namespace Doc

instance : Append Doc := ⟨.append⟩

/-- Documents with a separator between them. -/
def joined (sep : Doc) : List Doc → Doc
  | [] => .nil
  | [d] => d
  | d :: ds => d ++ sep ++ joined sep ds

def enclosed (left right : String) (d : Doc) : Doc :=
  .text left ++ d ++ .text right

/-- Whether a document fits from a column on, followed by what the continuation stands for. The first line break
that is not flat ends the question. -/
def fits (width : Nat) : Doc → (flat : Bool) → (after : Nat → Bool) → (column : Nat) → Bool
  | .nil, _, after, column => after column
  | .text s, _, after, column => column + s.length ≤ width && after (column + s.length)
  | .line, true, after, column => column + 1 ≤ width && after (column + 1)
  | .line, false, _, _ => true
  | .append a b, flat, after, column => a.fits width flat (b.fits width flat after) column
  | .nest _ d, flat, after, column => d.fits width flat after column
  | .group d, flat, after, column => d.fits width flat after column

/-- Text and column reached, given whether what comes after fits from a column on. -/
def layout (width : Nat) : Doc → (flat : Bool) → (indent : Nat) → (after : Nat → Bool) → (column : Nat) →
    String × Nat
  | .nil, _, _, _, column => ("", column)
  | .text s, _, _, _, column => (s, column + s.length)
  | .line, true, _, _, column => (" ", column + 1)
  | .line, false, indent, _, _ => ("\n" ++ String.ofList (List.replicate indent ' '), indent)
  | .append a b, flat, indent, after, column =>
      let (s, column) := a.layout width flat indent (b.fits width false after) column
      let (t, column) := b.layout width flat indent after column
      (s ++ t, column)
  | .nest n d, flat, indent, after, column => d.layout width flat (indent + n) after column
  | .group d, true, indent, after, column => d.layout width true indent after column
  | .group d, false, indent, after, column =>
      d.layout width (d.fits width true after column) indent after column

def render (width : Nat) (d : Doc) : String :=
  (d.layout width false 0 (fun _ => true) 0).1

end Doc

end ScriptTypes
