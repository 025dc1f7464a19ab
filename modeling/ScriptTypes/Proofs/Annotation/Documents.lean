import Mathlib.Data.List.Forall2
import ScriptTypes.Proofs.Annotation.Lexing
import ScriptTypes.Ty.Printer

/-! The tokens of the documents that types are printed as. They are the same for all ways to lay a document out, where
at each line break there may be nothing, a space, or a new line with any indentation. -/

namespace ScriptTypes

namespace Doc

/-- What may stand at a line break. -/
inductive Break : List Char → Prop
  | nothing : Break []
  | space : Break [' ']
  | newline (indent : Nat) : Break ('\n' :: List.replicate indent ' ')

/-- The texts as which a document can be laid out. -/
def Lays : Doc → List Char → Prop
  | .nil, cs => cs = []
  | .text s, cs => cs = s.toList
  | .line, cs => Break cs
  | .append a b, cs => ∃ x y, a.Lays x ∧ b.Lays y ∧ cs = x ++ y
  | .nest _ d, cs => d.Lays cs
  | .group d, cs => d.Lays cs

theorem lays_layout (width : Nat) (d : Doc) (flat : Bool) (indent : Nat) (after : Nat → Bool) (column : Nat) :
    d.Lays (d.layout width flat indent after column).1.toList := by
  induction d generalizing flat indent after column with
  | nil => exact String.toList_empty
  | text s => rfl
  | line =>
      cases flat with
      | true =>
          have hspace : " ".toList = [' '] := by decide
          rw [layout, hspace]
          exact .space
      | false =>
          have hline : "\n".toList = ['\n'] := by decide
          rw [layout, String.toList_append, hline, String.toList_ofList]
          exact .newline indent
  | append a b iha ihb => exact ⟨_, _, iha .., ihb .., String.toList_append⟩
  | nest n d ih => exact ih ..
  | group d ih => cases flat <;> exact ih ..

/-- However wide the lines are, rendering lays the document out. -/
theorem lays_render (width : Nat) (d : Doc) : d.Lays (d.render width).toList :=
  lays_layout ..

theorem Break.blank {bs : List Char} (h : Break bs) : ∀ c ∈ bs, Scan.isAnnotationBlank c = true := by
  cases h with
  | nothing => nofun
  | space => simp [Scan.isAnnotationBlank]
  | newline indent =>
      intro c hc
      rcases List.mem_cons.mp hc with rfl | hc
      · rfl
      · rw [List.eq_of_mem_replicate hc]
        rfl

/-- Laid out in any way, the document has the given tokens, if no name goes on after it. -/
def Spells (d : Doc) (ts : List Token) : Prop :=
  ∀ cs, d.Lays cs → ∀ rest ts', EndsName rest → Tokenizes rest ts' → Tokenizes (cs ++ rest) (ts ++ ts')

/-- Lists of tokens with commas between them. -/
def commaTokens : List (List Token) → List Token
  | [] => []
  | [ts] => ts
  | ts :: tss => ts ++ .symbol .comma :: commaTokens tss

theorem commaTokens_cons_cons (ts us : List Token) (tss : List (List Token)) :
    commaTokens (ts :: us :: tss) = ts ++ .symbol .comma :: commaTokens (us :: tss) := rfl

theorem endsName_cons {c : Char} (h : Text.isNamePart c = false) (cs : List Char) : EndsName (c :: cs) := by
  rintro d ⟨⟩
  exact h

/-- A line break before a text that does not go on with a name. -/
theorem Break.endsName {bs rest : List Char} (h : Break bs) (hrest : EndsName rest) : EndsName (bs ++ rest) := by
  cases h with
  | nothing => exact hrest
  | space => exact endsName_cons rfl _
  | newline indent => exact endsName_cons rfl _

theorem spells_name {s : String} (hs : Text.isIdentifier s = true) : (text s).Spells [.ident s] := by
  rintro cs rfl rest ts' hrest h
  have hname := h.name hs hrest
  rw [String.ofList_toList] at hname
  exact hname

theorem spells_rowVar {s : String} (hs : Text.isIdentifier s = true) :
    (text ("..." ++ s)).Spells [.symbol .ellipsis, .ident s] := by
  rintro cs rfl rest ts' hrest h
  rw [String.toList_append, List.append_assoc]
  exact (spells_name hs _ rfl rest ts' hrest h).ellipsis

theorem spells_commaList {ds : List Doc} {tss : List (List Token)} (h : List.Forall₂ Spells ds tss) :
    (commaList ds).Spells (commaTokens tss) := by
  induction h with
  | nil =>
      rintro cs rfl rest ts' - h
      exact h
  | @cons d ts ds tss hd hds ih =>
      cases hds with
      | nil => exact hd
      | cons hd' hds =>
          rintro cs ⟨_, x, ⟨x₁, _, hx₁, ⟨_, bs, rfl, hbs, rfl⟩, rfl⟩, hx, rfl⟩ rest ts' hrest h
          have hmore := (ih x hx rest ts' hrest h).blanks hbs.blank
          have hcomma := hd x₁ hx₁ _ _ (endsName_cons rfl _) (hmore.symbol (c := ',') (s := .comma) (by decide))
          simpa [commaTokens] using hcomma

theorem spells_parens {d : Doc} {ts : List Token} (hd : d.Spells ts) :
    (enclosed "(" ")" d).Spells (.symbol .lParen :: ts ++ [.symbol .rParen]) := by
  rintro cs ⟨_, _, ⟨_, x, rfl, hx, rfl⟩, rfl, rfl⟩ rest ts' - h
  have hclose := hd x hx _ _ (endsName_cons rfl _) (h.symbol (c := ')') (s := .rParen) (by decide))
  simpa using hclose.symbol (c := '(') (s := .lParen) (by decide)

theorem spells_arrow {ds : List Doc} {tss : List (List Token)} (hds : List.Forall₂ Spells ds tss) {range : Doc}
    {ts : List Token} (hrange : range.Spells ts) :
    (arrow ds range).Spells (.symbol .lParen :: commaTokens tss ++ .symbol .rParen :: .symbol .fatArrow :: ts) := by
  rintro cs ⟨_, y, ⟨_, bs, ⟨_, _, ⟨x, _, hx, rfl, rfl⟩, rfl, rfl⟩, hbs, rfl⟩, hy, rfl⟩ rest ts' hrest h
  have harrow := ((hrange y hy rest ts' hrest h).blanks hbs.blank).fatArrow
  have hblank := harrow.blank (c := ' ') rfl
  have hdomain := spells_parens (spells_commaList hds) x hx _ _ (endsName_cons rfl _) hblank
  simpa using hdomain

theorem spells_container {name : String} (hname : Text.isIdentifier name = true) {ds : List Doc}
    {tss : List (List Token)} (hds : List.Forall₂ Spells ds tss) :
    (container name ds).Spells
      (.ident name :: if tss.isEmpty then [] else .symbol .lParen :: commaTokens tss ++ [.symbol .rParen]) := by
  cases hds with
  | nil => exact spells_name hname
  | cons hd hds =>
      rintro cs ⟨_, x, rfl, hx, rfl⟩ rest ts' hrest h
      have hargs := spells_parens (spells_commaList (.cons hd hds)) x hx rest ts' hrest h
      obtain ⟨_, _, ⟨_, y, rfl, -, rfl⟩, rfl, rfl⟩ := hx
      have hall := spells_name hname _ rfl _ _ (by simpa using endsName_cons rfl _) hargs
      simpa using hall

/-- The token of a label. -/
def labelToken (label : String) : Token :=
  if Text.isIdentifier label then .ident label else .string label

theorem spells_label (label : String) :
    (text (Text.shownLabel label)).Spells [labelToken (Text.readLabel label)] := by
  rintro cs rfl rest ts' hrest h
  rw [labelToken, Text.isIdentifier_readLabel, Text.shownLabel, Text.readLabel]
  split
  · rename_i hname
    exact spells_name hname _ rfl rest ts' hrest h
  · rw [Text.quoted, String.toList_ofList]
    exact h.reread _

theorem spells_field (label : String) {d : Doc} {ts : List Token} (hd : d.Spells ts) :
    (field label d).Spells (labelToken (Text.readLabel label) :: .symbol .colon :: ts) := by
  rintro cs ⟨_, x, ⟨_, _, ⟨_, _, rfl, rfl, rfl⟩, rfl, rfl⟩, hx, rfl⟩ rest ts' hrest h
  have hblank := (hd x hx rest ts' hrest h).blank (c := ' ') rfl
  have hcolon := hblank.symbol (c := ':') (s := .colon) (by decide)
  simpa using spells_label label _ rfl _ _ (endsName_cons rfl _) hcolon

theorem spells_record {ds : List Doc} {tss : List (List Token)} (hds : List.Forall₂ Spells ds tss) :
    (record ds).Spells (.symbol .lBrace :: commaTokens tss ++ [.symbol .rBrace]) := by
  have hclose {rest : List Char} {ts' : List Token} (h : Tokenizes rest ts') :
      Tokenizes ('\x7d' :: rest) (.symbol .rBrace :: ts') :=
    h.symbol (by decide)
  cases hds with
  | nil =>
      rintro cs rfl rest ts' - h
      simpa [commaTokens] using (hclose h).symbol (c := '\x7b') (s := .lBrace) (by decide)
  | cons hd hds =>
      rintro cs ⟨_, _, ⟨_, _, rfl, ⟨_, bs', ⟨bs, x, hbs, hx, rfl⟩, hbs', rfl⟩, rfl⟩, rfl, rfl⟩ rest ts' - h
      have hitems := spells_commaList (.cons hd hds) x hx _ _ (hbs'.endsName (endsName_cons rfl _))
        ((hclose h).blanks hbs'.blank)
      simpa using (hitems.blanks hbs.blank).symbol (c := '\x7b') (s := .lBrace) (by decide)

end Doc

end ScriptTypes
