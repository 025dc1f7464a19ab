import ScriptTypes.Proofs.Script.Nesting
import ScriptTypes.Proofs.Script.Parsing
import ScriptTypes.Proofs.Script.Relocate
import ScriptTypes.Proofs.Source.Span
import ScriptTypes.Proofs.Token.Embed

/-! A phrase at another place. What a phrase is read as depends on its own lexemes, and where it ends on the next one:
when other lexemes stand around it, before which it stops as well, it is read as the same tree with other positions and
numbers. -/

namespace ScriptTypes

/-- A span further on in its file. -/
def Span.shift (d : Nat) (s : Span) : Span :=
  .ofRange s.file (s.start + d : Nat) (s.stop + d : Nat)

/-- The symbols that go on with an operand. -/
def Symbol.accesses : List Symbol :=
  [.dot, .lBracket, .lParen, .backtick]

/-- Another place for lexemes: their offset there, the number of nodes before them, the lexeme before them and the
lexemes after them. -/
structure Frame where
  offset : Nat
  nodes : Nat
  before : Option Lexeme
  after : List Lexeme

namespace Frame

variable (F : Frame)

def pos (p : Position) : Position :=
  p.map (Span.shift F.offset)

def node (n : Node) : Node :=
  ⟨n.id + F.nodes, F.pos n.pos⟩

def cursor (c : Cursor) : Cursor :=
  ⟨c.rest.map (Lexeme.shift F.offset) ++ F.after, (c.last.map (Lexeme.shift F.offset)).or F.before,
    c.nextId + F.nodes⟩

def phrase : Phrase → Phrase
  | .binaryTail level start left => .binaryTail level (start + F.offset) (left.relocate F.node F.pos)
  | .accessTail start e => .accessTail (start + F.offset) (e.relocate F.node F.pos)
  | p => p

def value : (p : Phrase) → p.Value → (F.phrase p).Value
  | .names _, ids => ids.map (Ident.relocate F.pos)
  | .pattern, p => p.relocate F.pos
  | .params, ps | .arrowParams, ps => ps.map (Pattern.relocate F.pos)
  | .statement, s => relocateBranch F.node F.pos s
  | .required, s => s.relocate F.node F.pos
  | .block, ss => relocateStmts F.node F.pos ss
  | .declarators, ds => relocateDeclarators F.node F.pos ds
  | .declarator, d => d.relocate F.node F.pos
  | .exprs _, es => relocateExprs F.node F.pos es
  | .properties, ps => relocateProperties F.node F.pos ps
  | .property, p => p.relocate F.node F.pos
  | .template, q => q.relocate F.node F.pos
  | .templateTail _, parts => (parts.1, relocateExprs F.node F.pos parts.2)
  | .parenthesized, e | .assignment, e | .arrow, e | .conditional, e | .binary _, e | .binaryTail _ _ _, e
  | .exponent, e | .unary, e | .access, e | .accessTail _ _, e | .primary, e | .propertyValue, e =>
      e.relocate F.node F.pos

/-- The lexemes after come to a closing brace, before which every phrase stops. -/
def Closes : Prop :=
  F.after.head?.map Lexeme.token = some (.symbol .rBrace)

/-- The lexemes after do not go on with an access. -/
def NoAccess : Prop :=
  ∀ s ∈ Symbol.accesses, F.after.head?.map Lexeme.token ≠ some (.symbol s)

/-- Whether a phrase that ends with its lexemes ends there in the frame too. Phrases that end with a lexeme of their own
look no further. -/
def Stops : Phrase → Prop
  | .names _ | .pattern | .params | .arrowParams | .block | .parenthesized | .exprs _ | .primary | .properties
  | .template | .templateTail _ => True
  | .unary | .access | .accessTail _ _ => F.Closes ∨ F.NoAccess
  | _ => F.Closes

variable {F}

theorem pos_span {input input' : Input} (hfile : input'.file = input.file) (start stop : Nat) :
    F.pos (Cursor.span input start stop) = Cursor.span input' (start + F.offset) (stop + F.offset) := by
  rw [Cursor.span, Cursor.span, hfile, pos, Option.map_some, Span.shift, Span.ofRange, Span.ofRange, Span.offset_add,
    Span.offset_add]
  rfl

end Frame

/-! Steps of a cursor in a frame. -/

namespace Cursor

variable {F : Frame} {input input' : Input} {c c₁ : Cursor}

theorem Passes.framed {l : Lexeme} (h : c.Passes l c₁) : (F.cursor c).Passes (l.shift F.offset) (F.cursor c₁) where
  rest := by simp [Frame.cursor, h.rest]
  last := by simp [Frame.cursor, h.last]
  nextId := by simp [Frame.cursor, h.nextId]

theorem Takes.framed {t : Token} (h : c.Takes t c₁) : (F.cursor c).Takes t (F.cursor c₁) := by
  obtain ⟨l, hl, ht⟩ := h
  exact ⟨_, hl.framed, ht⟩

theorem TakesIdent.framed {id : Ident} (hfile : input'.file = input.file) (h : c.TakesIdent input id c₁) :
    (F.cursor c).TakesIdent input' (id.relocate F.pos) (F.cursor c₁) := by
  obtain ⟨l, hl, ht, hpos⟩ := h
  refine ⟨_, hl.framed, ht, ?_⟩
  rw [Ident.relocate, hpos]
  exact F.pos_span hfile l.start l.stop

theorem TakesLabel.framed {id : Ident} (hfile : input'.file = input.file) (h : c.TakesLabel input id c₁) :
    (F.cursor c).TakesLabel input' (id.relocate F.pos) (F.cursor c₁) := by
  obtain ⟨l, hl, ht, hpos⟩ := h
  refine ⟨_, hl.framed, ht, ?_⟩
  rw [Ident.relocate, hpos]
  exact F.pos_span hfile l.start l.stop

end Cursor

namespace Frame

variable {F : Frame} {input input' : Input} {c c₁ : Cursor}

/-- There is a next lexeme at the cursor, or a closing brace in the frame. -/
def Holds (F : Frame) (c : Cursor) : Prop :=
  c.rest = [] → F.Closes

theorem peek_cursor (hc : c.rest ≠ []) : (F.cursor c).peek = c.peek := by
  obtain ⟨l, ls, hls⟩ := List.exists_cons_of_ne_nil hc
  simp [Cursor.peek, cursor, hls, Lexeme.shift]

theorem peek_cursor_end (hc : c.rest = []) : (F.cursor c).peek = F.after.head?.map Lexeme.token := by
  simp [Cursor.peek, cursor, hc]

/-- The frame adds no token but the closing brace. -/
theorem peek_cursor_cases (hc : F.Holds c) :
    (F.cursor c).peek = c.peek ∨ c.peek = none ∧ (F.cursor c).peek = some (.symbol .rBrace) := by
  by_cases hnil : c.rest = []
  · exact .inr ⟨by rw [Cursor.peek, hnil]; rfl, (peek_cursor_end hnil).trans (hc hnil)⟩
  · exact .inl (peek_cursor hnil)

theorem peek_cursor_ne (hc : F.Holds c) {t : Token} (ht : t ≠ .symbol .rBrace) (h : c.peek ≠ some t) :
    (F.cursor c).peek ≠ some t := by
  rcases peek_cursor_cases hc with heq | ⟨-, heq⟩
  · rwa [heq]
  · rw [heq]
    exact fun hsome => ht (Option.some.inj hsome).symm

theorem isAt_cursor (hc : c.rest ≠ []) (s : Symbol) : (F.cursor c).isAt s = c.isAt s := by
  rw [Cursor.isAt, peek_cursor hc, Cursor.isAt]

theorem not_isAt_cursor (hc : F.Holds c) {s : Symbol} (hs : s ≠ .rBrace) (h : c.isAt s = false) :
    (F.cursor c).isAt s = false := by
  rw [Cursor.isAt, beq_eq_false_iff_ne] at h ⊢
  exact peek_cursor_ne hc (fun ht => hs (Token.symbol.inj ht)) h

theorem not_atAccess_cursor (hc : c.rest = [] → F.Closes ∨ F.NoAccess) (h : c.atAccess = false) :
    (F.cursor c).atAccess = false := by
  by_cases hnil : c.rest = []
  · have hends : ∀ s ∈ Symbol.accesses, (F.cursor c).isAt s = false := by
      intro s hs
      rw [Cursor.isAt, beq_eq_false_iff_ne, peek_cursor_end hnil]
      rcases hc hnil with hcloses | hno
      · rw [hcloses]
        rintro ⟨⟩
        simp [Symbol.accesses] at hs
      · exact hno s hs
    simp only [Cursor.atAccess, hends .dot (by decide), hends .lBracket (by decide), hends .lParen (by decide),
      hends .backtick (by decide), Bool.or_false]
  · simpa only [Cursor.atAccess, isAt_cursor hnil] using h

theorem binaryOp?_cursor (hc : F.Holds c) (level : Nat) : (F.cursor c).binaryOp? level = c.binaryOp? level := by
  rcases peek_cursor_cases hc with heq | ⟨hnone, heq⟩
  · rw [Cursor.binaryOp?, heq, Cursor.binaryOp?]
  · rw [Cursor.binaryOp?, heq, Cursor.binaryOp?, hnone]
    cases hop : BinaryOp.ofSymbol? level .rBrace with
    | none => exact hop
    | some op => cases BinaryOp.isAtom_of_ofSymbol? hop

theorem unaryOp?_cursor (hc : c.rest ≠ []) : (F.cursor c).unaryOp? = c.unaryOp? := by
  rw [Cursor.unaryOp?, peek_cursor hc, Cursor.unaryOp?]

theorem atNumber_cursor (hc : c.rest ≠ []) : (F.cursor c).atNumber = c.atNumber := by
  rw [Cursor.atNumber, peek_cursor hc, Cursor.atNumber]

theorem atStatement_cursor (hc : c.rest ≠ []) : (F.cursor c).atStatement = c.atStatement := by
  rw [Cursor.atStatement, peek_cursor hc, Cursor.atStatement]

theorem atShorthandEnd_cursor (hc : c.rest ≠ []) : (F.cursor c).atShorthandEnd = c.atShorthandEnd := by
  rw [Cursor.atShorthandEnd, isAt_cursor hc, isAt_cursor hc, Cursor.atShorthandEnd]

theorem start_cursor (input : Input) (hc : c.rest ≠ []) : (F.cursor c).start input' = c.start input + F.offset := by
  obtain ⟨l, ls, hls⟩ := List.exists_cons_of_ne_nil hc
  simp [Cursor.start, cursor, hls, Lexeme.shift]

theorem stop_cursor (hl : c.last ≠ none) : (F.cursor c).stop = c.stop + F.offset := by
  obtain ⟨l, hl⟩ := Option.ne_none_iff_exists'.mp hl
  simp [Cursor.stop, cursor, hl, Lexeme.shift]

theorem spanFrom_cursor (hfile : input'.file = input.file) (hl : c.last ≠ none) (start : Nat) :
    (F.cursor c).spanFrom input' (start + F.offset) = F.pos (c.spanFrom input start) := by
  rw [Cursor.spanFrom, stop_cursor hl, Cursor.spanFrom, F.pos_span hfile]

theorem node_cursor (hfile : input'.file = input.file) (hl : c.last ≠ none) (start : Nat) :
    (F.cursor c).node input' (start + F.offset) = F.node (c.node input start) := by
  rw [Cursor.node, spanFrom_cursor hfile hl]
  rfl

theorem tick_cursor (c : Cursor) : (F.cursor c).tick = F.cursor c.tick := by
  simp [Cursor.tick, cursor, Nat.add_right_comm]

theorem past_cursor (hc : F.Holds c) {s : Symbol} (hs : s ≠ .rBrace) :
    (F.cursor c).past s = F.cursor (c.past s) := by
  cases hat : c.isAt s with
  | true =>
      obtain ⟨c₁, h⟩ := Cursor.takes_of_peek (beq_iff_eq.mp hat)
      rw [Cursor.past, Cursor.past, h.eat, (h.framed (F := F)).eat]
  | false =>
      have hat' := not_isAt_cursor hc hs hat
      rw [Cursor.past, Cursor.past, Cursor.eat_eq_none_iff.mpr hat, Cursor.eat_eq_none_iff.mpr hat']

theorem returnEnds_cursor (hc : F.Holds c) : Parser.returnEnds (F.cursor c) = Parser.returnEnds c := by
  obtain ⟨rest, last, nextId⟩ := c
  cases rest with
  | nil =>
      have hcloses := hc rfl
      unfold Closes at hcloses
      cases hafter : F.after with
      | nil => simp [hafter] at hcloses
      | cons l after =>
          simp only [hafter, List.head?_cons, Option.map_some, Option.some.injEq] at hcloses
          simp [Parser.returnEnds, cursor, hafter, hcloses]
  | cons l rest => rfl

theorem arrowNext_cursor {ls : List Lexeme} (hls : ls = [] → F.Closes) :
    ((ls.map (Lexeme.shift F.offset) ++ F.after).head?.map Lexeme.token == some (.symbol .fatArrow)) =
      (ls.head?.map Lexeme.token == some (.symbol .fatArrow)) := by
  cases ls with
  | nil =>
      rw [List.map_nil, List.nil_append, hls rfl]
      rfl
  | cons l ls => rfl

end Frame

/-- Nested lexemes that start with a parenthesis hold the one that closes it. -/
theorem Nested.of_paren {l : Lexeme} {ls : List Lexeme} (h : Nested false (l :: ls)) (hl : l.token = .symbol .lParen) :
    ∃ inner l' ls', ls = inner ++ l' :: ls' ∧ Nested false inner ∧ l'.token = .symbol .rParen := by
  cases h with
  | atom hatom =>
      rw [hl] at hatom
      cases hatom
  | @pair b _ inner l' ls' hopen hinner hclose _ =>
      refine ⟨inner, l', ls', rfl, hinner, ?_⟩
      rw [hl] at hopen
      cases b with
      | paren => exact hclose
      | square => cases hopen
      | brace => cases hopen
  | template hopen =>
      rw [hl] at hopen
      cases hopen

theorem Nested.arrowAfter_close {inner ls : List Lexeme} {l : Lexeme} (h : Nested false inner)
    (hl : l.token = .symbol .rParen) :
    Cursor.arrowAfter 1 (inner ++ l :: ls) = (ls.head?.map Lexeme.token == some (.symbol .fatArrow)) := by
  rw [h.arrowAfter 0, Cursor.arrowAfter]
  simp [hl]

/-- Whether an arrow function starts is seen inside of the phrase. -/
theorem Frame.atArrow_cursor {F : Frame} {c c₁ : Cursor} (hcross : c.Crosses (Nested false) c₁)
    (hsize : c₁.size < c.size) (hend : F.Holds c₁) : (F.cursor c).atArrow = c.atArrow := by
  obtain ⟨seg, hseg, hnested⟩ := hcross
  cases seg with
  | nil =>
      rw [Cursor.size, Cursor.size, hseg, List.nil_append] at hsize
      exact absurd hsize (Nat.lt_irrefl _)
  | cons l ls =>
      have hrest {ls' : List Lexeme} (hnil : ls' ++ c₁.rest = []) : F.Closes := hend (List.append_eq_nil_iff.mp hnil).2
      rw [Cursor.atArrow, Cursor.atArrow, cursor, hseg]
      simp only [List.cons_append, List.map_cons, Lexeme.shift]
      split
      · exact arrowNext_cursor hrest
      · rename_i hl
        obtain ⟨inner, l', ls', rfl, hinner, hl'⟩ := hnested.of_paren hl
        have hclose : (l'.shift F.offset).token = .symbol .rParen := hl'
        rw [List.append_assoc, List.cons_append, hinner.arrowAfter_close hl', List.map_append, List.append_assoc,
          List.map_cons, List.cons_append, (hinner.shift F.offset).arrowAfter_close hclose]
        exact arrowNext_cursor hrest
      · rfl

theorem Reads.rest_ne_nil {input : Input} {p : Phrase} {c : Cursor} {v : p.Value} {c' : Cursor}
    (h : Reads input p c v c') (hp : p.isTail = false) : c.rest ≠ [] := by
  intro hnil
  have hlt := h.shrinks hp
  simp [Cursor.size, hnil] at hlt

theorem relocateStmts_toList_append {g : Node → Node} {h : Position → Position} (s : Option Stmt) (ss : List Stmt) :
    relocateStmts g h (s.toList ++ ss) = (relocateBranch g h s).toList ++ relocateStmts g h ss := by
  cases s <;> rfl

theorem Reads.last_ne_none {input : Input} {p : Phrase} {c : Cursor} {v : p.Value} {c' : Cursor}
    (h : Reads input p c v c') (hp : p.isTail = false) : c'.last ≠ none := by
  obtain ⟨_, l, -, -, hlast⟩ := h.onward.exists_last (h.shrinks hp)
  simp [hlast]

theorem Cursor.Takes.last_ne_none {c c₁ : Cursor} {t : Token} (h : c.Takes t c₁) : c₁.last ≠ none := by
  obtain ⟨l, hl, -⟩ := h
  simp [hl.last]

theorem Cursor.TakesLabel.last_ne_none {input : Input} {c c₁ : Cursor} {id : Ident} (h : c.TakesLabel input id c₁) :
    c₁.last ≠ none := by
  obtain ⟨l, hl, -⟩ := h
  simp [hl.last]

theorem Cursor.Onward.rest_eq_nil {c c' : Cursor} (h : c.Onward c') (hnil : c.rest = []) : c'.rest = [] :=
  List.suffix_nil.mp (hnil ▸ h.suffix)

namespace Frame

variable (F : Frame) {input input' : Input}

/-- What is read is read in the frame as it is read alone, if it stops there. -/
def Reframes (input' : Input) (p : Phrase) (c : Cursor) (v : p.Value) (c' : Cursor) : Prop :=
  (c'.rest = [] → F.Stops p) → Reads input' (F.phrase p) (F.cursor c) (F.value p v) (F.cursor c')

theorem spanFrom_start (hfile : input'.file = input.file) {c c₁ : Cursor} (hc : c.rest ≠ []) (hl : c₁.last ≠ none) :
    (F.cursor c₁).spanFrom input' ((F.cursor c).start input') = F.pos (c₁.spanFrom input (c.start input)) := by
  rw [F.start_cursor input hc, spanFrom_cursor hfile hl]

theorem node_start (hfile : input'.file = input.file) {c c₁ : Cursor} (hc : c.rest ≠ []) (hl : c₁.tick.last ≠ none) :
    (F.cursor c₁).node input' ((F.cursor c).start input') = F.node (c₁.node input (c.start input)) := by
  have hl : c₁.last ≠ none := hl
  rw [F.start_cursor input hc, node_cursor hfile hl]

/-- Where a statement ends, a semicolon may follow. -/
theorem past_of_stops {c : Cursor} (hends : (c.past .semicolon).tick.rest = [] → F.Closes) :
    F.Holds c ∧ (F.cursor c).past .semicolon = F.cursor (c.past .semicolon) := by
  have hholds : F.Holds c := fun hnil => hends ((c.onward_past .semicolon).rest_eq_nil hnil)
  exact ⟨hholds, F.past_cursor hholds (by decide)⟩

/-! Each phrase at a cursor, given that what is read from nearer cursors on is read in the frame. -/

section

variable {F} (hfile : input'.file = input.file) {c c' : Cursor}
  (ih : ∀ {p c₁ v c₂}, Reads input p c₁ v c₂ → c₁.size < c.size → F.Reframes input' p c₁ v c₂)

include hfile ih

theorem names_framed {s : Symbol} {v : List Ident} (h : Reads input (.names s) c v c') :
    F.Reframes input' (.names s) c v c' := by
  intro hend
  cases h with
  | namesEnd h₁ => exact .namesEnd h₁.framed
  | namesMore h₁ h₂ h₃ =>
      exact .namesMore (h₁.framed hfile) h₂.framed (ih h₃ (Cursor.size_trans h₂.size_lt h₁.size_lt) hend)
  | namesLast h₁ hn h₂ =>
      exact .namesLast (h₁.framed hfile) ((F.isAt_cursor h₂.rest_ne_nil _).trans hn) h₂.framed

theorem pattern_framed {v : Pattern} (h : Reads input .pattern c v c') : F.Reframes input' .pattern c v c' := by
  intro hend
  have hc := h.rest_ne_nil rfl
  have hl := h.last_ne_none rfl
  cases h with
  | objectPattern h₁ h₂ =>
      have h := Reads.objectPattern h₁.framed (ih h₂ h₁.size_lt hend)
      rw [F.spanFrom_start hfile hc hl] at h
      exact h
  | arrayPattern h₁ h₂ =>
      have h := Reads.arrayPattern h₁.framed (ih h₂ h₁.size_lt hend)
      rw [F.spanFrom_start hfile hc hl] at h
      exact h
  | identPattern h₁ => exact .identPattern (h₁.framed hfile)

theorem params_framed {v : List Pattern} (h : Reads input .params c v c') : F.Reframes input' .params c v c' := by
  intro hend
  cases h with
  | paramsEnd h₁ => exact .paramsEnd h₁.framed
  | paramsMore h₁ h₂ h₃ =>
      have hr₁ := pattern_framed hfile ih h₁ fun _ => trivial
      have hr₃ := ih h₃ (Cursor.size_trans h₂.size_lt (h₁.shrinks rfl)) hend
      exact .paramsMore hr₁ h₂.framed hr₃
  | paramsLast h₁ hn h₂ =>
      have hr₁ := pattern_framed hfile ih h₁ fun _ => trivial
      exact .paramsLast hr₁ ((F.isAt_cursor h₂.rest_ne_nil _).trans hn) h₂.framed

theorem arrowParams_framed {v : List Pattern} (h : Reads input .arrowParams c v c') :
    F.Reframes input' .arrowParams c v c' := by
  intro hend
  cases h with
  | paramList h₁ h₂ => exact .paramList h₁.framed (ih h₂ h₁.size_lt hend)
  | bareParam h₁ => exact .bareParam (h₁.framed hfile)

omit hfile in
theorem templateTail_framed {current : String} {v : List String × List Expr}
    (h : Reads input (.templateTail current) c v c') : F.Reframes input' (.templateTail current) c v c' := by
  intro hend
  cases h with
  | templateText h₁ ht h₂ => exact .templateText h₁.framed ht (ih h₂ h₁.size_lt fun _ => trivial)
  | interpolation h₁ h₂ h₃ h₄ =>
      have hr₂ := ih h₂ h₁.size_lt (absurd · h₃.rest_ne_nil)
      have htail := Cursor.size_trans h₃.size_lt (Cursor.size_trans (h₂.shrinks rfl) h₁.size_lt)
      have hr₄ := ih h₄ htail fun _ => trivial
      exact .interpolation h₁.framed hr₂ h₃.framed hr₄
  | templateEnd h₁ => exact .templateEnd h₁.framed

theorem template_framed {v : Template} (h : Reads input .template c v c') : F.Reframes input' .template c v c' := by
  intro hend
  have hc := h.rest_ne_nil rfl
  have hl := h.last_ne_none rfl
  cases h with
  | template h₁ h₂ =>
      have h := Reads.template h₁.framed (ih h₂ h₁.size_lt fun _ => trivial)
      rw [F.spanFrom_start hfile hc hl] at h
      exact h

omit hfile in
theorem parenthesized_framed {v : Expr} (h : Reads input .parenthesized c v c') :
    F.Reframes input' .parenthesized c v c' := by
  intro hend
  cases h with
  | parenthesized h₁ h₂ h₃ => exact .parenthesized h₁.framed (ih h₂ h₁.size_lt (absurd · h₃.rest_ne_nil)) h₃.framed

theorem primary_framed {v : Expr} (h : Reads input .primary c v c') : F.Reframes input' .primary c v c' := by
  intro hend
  have hc := h.rest_ne_nil rfl
  have hl := h.last_ne_none rfl
  cases h with
  | templateExpr h₁ =>
      have h := Reads.templateExpr (template_framed hfile ih h₁ fun _ => trivial)
      rw [F.node_start hfile hc hl, F.tick_cursor] at h
      exact h
  | ident h₁ =>
      have h := Reads.ident (h₁.framed (F := F) hfile)
      rw [F.node_start hfile hc hl, F.tick_cursor] at h
      exact h
  | literal h₁ hv =>
      have h : Reads input' .primary _ _ _ := .literal (h₁.framed (F := F)) hv
      rw [F.node_start hfile hc hl, F.tick_cursor] at h
      exact h
  | group h₁ h₂ h₃ => exact .group h₁.framed (ih h₂ h₁.size_lt (absurd · h₃.rest_ne_nil)) h₃.framed
  | array h₁ h₂ =>
      have h := Reads.array h₁.framed (ih h₂ h₁.size_lt fun _ => trivial)
      rw [F.node_start hfile hc hl, F.tick_cursor] at h
      exact h
  | object h₁ h₂ =>
      have h := Reads.object h₁.framed (ih h₂ h₁.size_lt fun _ => trivial)
      rw [F.node_start hfile hc hl, F.tick_cursor] at h
      exact h

theorem accessTail_framed {start : Nat} {e v : Expr} (h : Reads input (.accessTail start e) c v c') :
    F.Reframes input' (.accessTail start e) c v c' := by
  intro hend
  cases h with
  | member h₁ h₂ h₃ =>
      refine .member h₁.framed (h₂.framed hfile) ?_
      rw [Frame.node_cursor hfile h₂.last_ne_none, F.tick_cursor]
      exact ih h₃ (Cursor.size_trans h₂.size_lt h₁.size_lt) hend
  | index h₁ h₂ h₃ h₄ =>
      refine .index h₁.framed (ih h₂ h₁.size_lt (absurd · h₃.rest_ne_nil)) h₃.framed ?_
      rw [Frame.node_cursor hfile h₃.last_ne_none, F.tick_cursor]
      exact ih h₄ (Cursor.size_trans h₃.size_lt (Cursor.size_trans (h₂.shrinks rfl) h₁.size_lt)) hend
  | call h₁ h₂ h₃ =>
      refine .call h₁.framed (ih h₂ h₁.size_lt fun _ => trivial) ?_
      rw [Frame.node_cursor hfile (h₂.last_ne_none rfl), F.tick_cursor]
      exact ih h₃ (Cursor.size_trans (h₂.shrinks rfl) h₁.size_lt) hend
  | tagged h₁ h₂ =>
      refine .tagged (template_framed hfile ih h₁ fun _ => trivial) ?_
      rw [Frame.node_cursor hfile (h₁.last_ne_none rfl), F.tick_cursor]
      exact ih h₂ (h₁.shrinks rfl) hend
  | noAccess hn => exact .noAccess (F.not_atAccess_cursor hend hn)

theorem access_framed {v : Expr} (h : Reads input .access c v c') : F.Reframes input' .access c v c' := by
  intro hend
  cases h with
  | accessed h₁ h₂ =>
      refine .accessed (primary_framed hfile ih h₁ fun _ => trivial) ?_
      rw [F.start_cursor input (h₁.rest_ne_nil rfl)]
      exact ih h₂ (h₁.shrinks rfl) hend

theorem unary_framed {v : Expr} (h : Reads input .unary c v c') : F.Reframes input' .unary c v c' := by
  intro hend
  have hc := h.rest_ne_nil rfl
  have hl := h.last_ne_none rfl
  cases h with
  | negativeNumber h₁ h₂ =>
      have h : Reads input' .unary _ _ _ := .negativeNumber (h₁.framed (F := F)) h₂.framed
      rw [F.node_start hfile hc hl, F.tick_cursor] at h
      exact h
  | sign h₁ hop _ h₂ =>
      have h := Reads.sign h₁.framed hop (by rwa [F.atNumber_cursor (h₂.rest_ne_nil rfl)]) (ih h₂ h₁.size_lt hend)
      rw [F.node_start hfile hc hl, F.tick_cursor] at h
      exact h
  | noSign hn h₁ => exact .noSign ((F.unaryOp?_cursor (h₁.rest_ne_nil rfl)).trans hn) (access_framed hfile ih h₁ hend)

theorem exponent_framed {v : Expr} (h : Reads input .exponent c v c') : F.Reframes input' .exponent c v c' := by
  intro hend
  have hc := h.rest_ne_nil rfl
  have hl := h.last_ne_none rfl
  cases h with
  | power h₁ h₂ h₃ =>
      have hr₁ := unary_framed hfile ih h₁ (absurd · h₂.rest_ne_nil)
      have hr₃ := ih h₃ (Cursor.size_trans h₂.size_lt (h₁.shrinks rfl)) hend
      have h := Reads.power hr₁ h₂.framed hr₃
      rw [F.node_start hfile hc hl, F.tick_cursor] at h
      exact h
  | noPower h₁ hn =>
      exact .noPower (unary_framed hfile ih h₁ fun hnil => .inl (hend hnil)) (F.not_isAt_cursor hend (by decide) hn)

theorem binaryTail_framed {level start : Nat} {left v : Expr}
    (h : Reads input (.binaryTail level start left) c v c') :
    F.Reframes input' (.binaryTail level start left) c v c' := by
  intro hend
  cases h with
  | operator h₁ hop h₂ h₃ =>
      refine .operator h₁.framed hop (ih h₂ h₁.size_lt fun hnil => hend (h₃.onward.rest_eq_nil hnil)) ?_
      rw [Frame.node_cursor hfile (h₂.last_ne_none rfl), F.tick_cursor]
      exact ih h₃ (Cursor.size_trans (h₂.shrinks rfl) h₁.size_lt) hend
  | noOperator hn => exact .noOperator ((F.binaryOp?_cursor hend _).trans hn)

theorem binary_framed {level : Nat} {v : Expr} (h : Reads input (.binary level) c v c') :
    F.Reframes input' (.binary level) c v c' := by
  intro hend
  induction hk : 6 - level generalizing level v c' with
  | zero =>
      cases h with
      | operands hlevel => omega
      | tightest hlevel h₁ => exact .tightest hlevel (exponent_framed hfile ih h₁ hend)
  | succ k ihk =>
      cases h with
      | operands hlevel h₁ h₂ =>
          refine .operands hlevel (ihk h₁ (fun hnil => hend (h₂.onward.rest_eq_nil hnil)) (by omega)) ?_
          rw [F.start_cursor input (h₁.rest_ne_nil rfl)]
          exact ih h₂ (h₁.shrinks rfl) hend
      | tightest hlevel => omega

theorem conditional_framed {v : Expr} (h : Reads input .conditional c v c') :
    F.Reframes input' .conditional c v c' := by
  intro hend
  have hc := h.rest_ne_nil rfl
  have hl := h.last_ne_none rfl
  cases h with
  | ternary h₁ h₂ h₃ h₄ h₅ =>
      have hr₁ := binary_framed hfile ih h₁ (absurd · h₂.rest_ne_nil)
      have hbranch := Cursor.size_trans h₂.size_lt (h₁.shrinks rfl)
      have hr₃ := ih h₃ hbranch (absurd · h₄.rest_ne_nil)
      have hr₅ := ih h₅ (Cursor.size_trans h₄.size_lt (Cursor.size_trans (h₃.shrinks rfl) hbranch)) hend
      have h := Reads.ternary hr₁ h₂.framed hr₃ h₄.framed hr₅
      rw [F.node_start hfile hc hl, F.tick_cursor] at h
      exact h
  | noTernary h₁ hn => exact .noTernary (binary_framed hfile ih h₁ hend) (F.not_isAt_cursor hend (by decide) hn)

theorem arrow_framed {v : Expr} (h : Reads input .arrow c v c') : F.Reframes input' .arrow c v c' := by
  intro hend
  have hc := h.rest_ne_nil rfl
  have hl := h.last_ne_none rfl
  cases h with
  | blockArrow h₁ h₂ h₃ h₄ =>
      have hr₁ := arrowParams_framed hfile ih h₁ fun _ => trivial
      have hbody := Cursor.size_trans h₃.size_lt (Cursor.size_trans h₂.size_lt (h₁.shrinks rfl))
      have hr₄ := ih h₄ hbody fun _ => trivial
      have h := Reads.blockArrow hr₁ h₂.framed h₃.framed hr₄
      rw [F.node_start hfile hc hl, F.spanFrom_start hfile h₃.rest_ne_nil (h₄.last_ne_none rfl), F.tick_cursor] at h
      exact h
  | exprArrow h₁ h₂ hn h₃ =>
      have hn' := (F.isAt_cursor (h₃.rest_ne_nil rfl) _).trans hn
      have hr₁ := arrowParams_framed hfile ih h₁ fun _ => trivial
      have hr₃ := ih h₃ (Cursor.size_trans h₂.size_lt (h₁.shrinks rfl)) hend
      have h := Reads.exprArrow hr₁ h₂.framed hn' hr₃
      rw [F.node_start hfile hc hl, F.tick_cursor] at h
      exact h

theorem assignment_framed {v : Expr} (h : Reads input .assignment c v c') : F.Reframes input' .assignment c v c' := by
  intro hend
  have hc := h.rest_ne_nil rfl
  have hl := h.last_ne_none rfl
  cases h with
  | arrowExpr ha h₁ =>
      exact .arrowExpr ((F.atArrow_cursor h₁.crosses (h₁.shrinks rfl) hend).trans ha) (arrow_framed hfile ih h₁ hend)
  | assign ha h₁ h₂ h₃ =>
      have ha' := (F.atArrow_cursor h₁.crosses (h₁.shrinks rfl) (absurd · h₂.rest_ne_nil)).trans ha
      have hr₁ := conditional_framed hfile ih h₁ (absurd · h₂.rest_ne_nil)
      have hr₃ := ih h₃ (Cursor.size_trans h₂.size_lt (h₁.shrinks rfl)) hend
      have h := Reads.assign ha' hr₁ h₂.framed hr₃
      rw [F.node_start hfile hc hl, F.tick_cursor] at h
      exact h
  | noAssign ha h₁ hn =>
      have ha' := (F.atArrow_cursor h₁.crosses (h₁.shrinks rfl) hend).trans ha
      exact .noAssign ha' (conditional_framed hfile ih h₁ hend) (F.not_isAt_cursor hend (by decide) hn)

theorem exprs_framed {s : Symbol} {v : List Expr} (h : Reads input (.exprs s) c v c') :
    F.Reframes input' (.exprs s) c v c' := by
  intro hend
  cases h with
  | exprsEnd h₁ => exact .exprsEnd h₁.framed
  | exprsMore hn h₁ h₂ h₃ =>
      have hn' := (F.isAt_cursor (h₁.rest_ne_nil rfl) _).trans hn
      have hr₁ := assignment_framed hfile ih h₁ (absurd · h₂.rest_ne_nil)
      have hr₃ := ih h₃ (Cursor.size_trans h₂.size_lt (h₁.shrinks rfl)) hend
      exact .exprsMore hn' hr₁ h₂.framed hr₃
  | exprsLast hn h₁ hn₁ h₂ =>
      have hn' := (F.isAt_cursor (h₁.rest_ne_nil rfl) _).trans hn
      have hr₁ := assignment_framed hfile ih h₁ (absurd · h₂.rest_ne_nil)
      exact .exprsLast hn' hr₁ ((F.isAt_cursor h₂.rest_ne_nil _).trans hn₁) h₂.framed

omit hfile in
theorem propertyValue_framed {v : Expr} (h : Reads input .propertyValue c v c') :
    F.Reframes input' .propertyValue c v c' := by
  intro hend
  cases h with
  | propertyValue h₁ h₂ => exact .propertyValue h₁.framed (ih h₂ h₁.size_lt hend)

theorem property_framed {v : Property} (h : Reads input .property c v c') : F.Reframes input' .property c v c' := by
  intro hend
  have hc := h.rest_ne_nil rfl
  have hl := h.last_ne_none rfl
  cases h with
  | @literalKey _ l _ _ _ _ h₁ hv h₂ =>
      have hkey : Cursor.span input' (l.shift F.offset).start (l.shift F.offset).stop =
          F.pos (Cursor.span input l.start l.stop) := (F.pos_span hfile l.start l.stop).symm
      have h := Reads.literalKey (h₁.framed (F := F)) hv (ih h₂ h₁.size_lt hend)
      rw [F.spanFrom_start hfile hc hl] at h
      rw [hkey] at h
      exact h
  | computedKey h₁ h₂ h₃ h₄ =>
      have hr₂ := ih h₂ h₁.size_lt (absurd · h₃.rest_ne_nil)
      have hr₄ := ih h₄ (Cursor.size_trans h₃.size_lt (Cursor.size_trans (h₂.shrinks rfl) h₁.size_lt)) hend
      have h := Reads.computedKey h₁.framed hr₂ h₃.framed hr₄
      rw [F.spanFrom_start hfile hc hl] at h
      exact h
  | shorthand h₁ hshort =>
      have hc : _ ≠ [] := Cursor.rest_ne_nil_of_atShorthandEnd hshort
      have h := Reads.shorthand (h₁.framed (F := F) hfile) ((F.atShorthandEnd_cursor hc).trans hshort)
      rw [F.tick_cursor] at h
      exact h
  | namedKey h₁ hnamed h₂ =>
      have hnamed' := (F.atShorthandEnd_cursor (h₂.rest_ne_nil rfl)).trans hnamed
      have h := Reads.namedKey (h₁.framed hfile) hnamed' (ih h₂ h₁.size_lt hend)
      rw [F.spanFrom_start hfile hc hl] at h
      exact h

theorem properties_framed {v : List Property} (h : Reads input .properties c v c') :
    F.Reframes input' .properties c v c' := by
  intro hend
  cases h with
  | propertiesEnd h₁ => exact .propertiesEnd h₁.framed
  | propertiesMore h₁ h₂ h₃ =>
      refine cast (congrArg (Reads input' .properties _ · _) (relocateProperties_cons _ _).symm) ?_
      have hr₁ := property_framed hfile ih h₁ (absurd · h₂.rest_ne_nil)
      have hr₃ := ih h₃ (Cursor.size_trans h₂.size_lt (h₁.shrinks rfl)) hend
      exact .propertiesMore hr₁ h₂.framed hr₃
  | propertiesLast h₁ hn h₂ =>
      refine cast (congrArg (Reads input' .properties _ · _) (relocateProperties_cons _ _).symm) ?_
      have hr₁ := property_framed hfile ih h₁ (absurd · h₂.rest_ne_nil)
      exact .propertiesLast hr₁ ((F.isAt_cursor h₂.rest_ne_nil _).trans hn) h₂.framed

theorem declarator_framed {v : Declarator} (h : Reads input .declarator c v c') :
    F.Reframes input' .declarator c v c' := by
  intro hend
  have hc := h.rest_ne_nil rfl
  have hl := h.last_ne_none rfl
  cases h with
  | initialized h₁ h₂ h₃ =>
      have hr₁ := pattern_framed hfile ih h₁ fun _ => trivial
      have hr₃ := ih h₃ (Cursor.size_trans h₂.size_lt (h₁.shrinks rfl)) hend
      have h := Reads.initialized hr₁ h₂.framed hr₃
      rw [F.spanFrom_start hfile hc hl] at h
      exact h
  | uninitialized h₁ hn =>
      have hr₁ := pattern_framed hfile ih h₁ fun _ => trivial
      have h := Reads.uninitialized hr₁ (F.not_isAt_cursor hend (by decide) hn)
      rw [F.spanFrom_start hfile hc hl] at h
      exact h

theorem declarators_framed {v : List Declarator} (h : Reads input .declarators c v c') :
    F.Reframes input' .declarators c v c' := by
  intro hend
  cases h with
  | declaratorsMore h₁ h₂ h₃ =>
      have hr₁ := declarator_framed hfile ih h₁ (absurd · h₂.rest_ne_nil)
      have hr₃ := ih h₃ (Cursor.size_trans h₂.size_lt (h₁.shrinks rfl)) hend
      exact .declaratorsMore hr₁ h₂.framed hr₃
  | declaratorsLast h₁ hn =>
      exact .declaratorsLast (declarator_framed hfile ih h₁ hend) (F.not_isAt_cursor hend (by decide) hn)

theorem statement_framed {v : Option Stmt} (h : Reads input .statement c v c') :
    F.Reframes input' .statement c v c' := by
  intro hend
  have hc := h.rest_ne_nil rfl
  have hl := h.last_ne_none rfl
  cases h with
  | empty h₁ => exact .empty h₁.framed
  | returnNothing h₁ hends =>
      obtain ⟨hholds, hpast⟩ := F.past_of_stops hend
      have h : Reads input' .statement _ _ _ := .returnNothing h₁.framed ((F.returnEnds_cursor hholds).trans hends)
      rw [hpast, F.node_start hfile hc hl, F.tick_cursor] at h
      exact h
  | returnValue h₁ hends h₂ =>
      obtain ⟨hholds, hpast⟩ := F.past_of_stops hend
      have hvalue := (F.returnEnds_cursor (absurd · (h₂.rest_ne_nil rfl))).trans hends
      have h := Reads.returnValue h₁.framed hvalue (ih h₂ h₁.size_lt hholds)
      rw [hpast, F.node_start hfile hc hl, F.tick_cursor] at h
      exact h
  | blockStatement h₁ h₂ =>
      obtain ⟨-, hpast⟩ := F.past_of_stops hend
      have h := Reads.blockStatement h₁.framed (ih h₂ h₁.size_lt fun _ => trivial)
      rw [hpast, F.node_start hfile hc hl, F.tick_cursor] at h
      exact h
  | ifElse h₁ h₂ h₃ h₄ h₅ =>
      obtain ⟨hholds, hpast⟩ := F.past_of_stops hend
      have hr₂ := ih h₂ h₁.size_lt fun _ => trivial
      have hbranch := Cursor.size_trans (h₂.shrinks rfl) h₁.size_lt
      have hr₃ := ih h₃ hbranch (absurd · h₄.rest_ne_nil)
      have hr₅ := ih h₅ (Cursor.size_trans h₄.size_lt (Cursor.size_trans (h₃.shrinks rfl) hbranch)) hholds
      have h := Reads.ifElse h₁.framed hr₂ hr₃ h₄.framed hr₅
      rw [hpast, F.node_start hfile hc hl, F.tick_cursor] at h
      exact h
  | ifOnly h₁ h₂ h₃ hn =>
      obtain ⟨hholds, hpast⟩ := F.past_of_stops hend
      have hr₂ := ih h₂ h₁.size_lt fun _ => trivial
      have hr₃ := ih h₃ (Cursor.size_trans (h₂.shrinks rfl) h₁.size_lt) hholds
      have h := Reads.ifOnly h₁.framed hr₂ hr₃ (F.peek_cursor_ne hholds (by decide) hn)
      rw [hpast, F.node_start hfile hc hl, F.tick_cursor] at h
      exact h
  | whileLoop h₁ h₂ h₃ =>
      obtain ⟨hholds, hpast⟩ := F.past_of_stops hend
      have hr₂ := ih h₂ h₁.size_lt fun _ => trivial
      have hr₃ := ih h₃ (Cursor.size_trans (h₂.shrinks rfl) h₁.size_lt) hholds
      have h := Reads.whileLoop h₁.framed hr₂ hr₃
      rw [hpast, F.node_start hfile hc hl, F.tick_cursor] at h
      exact h
  | declaration h₁ hkind h₂ =>
      obtain ⟨hholds, hpast⟩ := F.past_of_stops hend
      have h := Reads.declaration h₁.framed hkind (ih h₂ h₁.size_lt hholds)
      rw [hpast, F.node_start hfile hc hl, F.tick_cursor] at h
      exact h
  | exprStatement hn h₁ =>
      obtain ⟨hholds, hpast⟩ := F.past_of_stops hend
      have h := Reads.exprStatement ((F.atStatement_cursor hc).trans hn) (assignment_framed hfile ih h₁ hholds)
      rw [hpast, F.node_start hfile hc hl, F.tick_cursor] at h
      exact h

theorem required_framed {v : Stmt} (h : Reads input .required c v c') : F.Reframes input' .required c v c' := by
  intro hend
  have hc := h.rest_ne_nil rfl
  have hl := h.last_ne_none rfl
  cases h with
  | requiredSome h₁ => exact .requiredSome (statement_framed hfile ih h₁ hend)
  | requiredNone h₁ =>
      have h := Reads.requiredNone (statement_framed hfile ih h₁ hend)
      rw [F.node_start hfile hc hl, F.tick_cursor] at h
      exact h

theorem block_framed {v : List Stmt} (h : Reads input .block c v c') : F.Reframes input' .block c v c' := by
  intro hend
  cases h with
  | blockEnd h₁ => exact .blockEnd h₁.framed
  | blockMore hn h₁ h₂ =>
      refine cast (congrArg (Reads input' .block _ · _) (relocateStmts_toList_append _ _).symm) ?_
      have hr₁ := statement_framed hfile ih h₁ (absurd · (h₂.rest_ne_nil rfl))
      have hr₂ := ih h₂ (h₁.shrinks rfl) hend
      exact .blockMore ((F.isAt_cursor (h₁.rest_ne_nil rfl) _).trans hn) hr₁ hr₂

theorem reframes_of_nearer {p : Phrase} {v : p.Value} (h : Reads input p c v c') : F.Reframes input' p c v c' := by
  cases p
  case names => exact names_framed hfile ih h
  case pattern => exact pattern_framed hfile ih h
  case params => exact params_framed hfile ih h
  case arrowParams => exact arrowParams_framed hfile ih h
  case statement => exact statement_framed hfile ih h
  case required => exact required_framed hfile ih h
  case block => exact block_framed hfile ih h
  case declarators => exact declarators_framed hfile ih h
  case declarator => exact declarator_framed hfile ih h
  case parenthesized => exact parenthesized_framed ih h
  case assignment => exact assignment_framed hfile ih h
  case arrow => exact arrow_framed hfile ih h
  case conditional => exact conditional_framed hfile ih h
  case binary => exact binary_framed hfile ih h
  case binaryTail => exact binaryTail_framed hfile ih h
  case exponent => exact exponent_framed hfile ih h
  case unary => exact unary_framed hfile ih h
  case access => exact access_framed hfile ih h
  case accessTail => exact accessTail_framed hfile ih h
  case exprs => exact exprs_framed hfile ih h
  case primary => exact primary_framed hfile ih h
  case properties => exact properties_framed hfile ih h
  case property => exact property_framed hfile ih h
  case propertyValue => exact propertyValue_framed ih h
  case template => exact template_framed hfile ih h
  case templateTail => exact templateTail_framed ih h

end

end Frame

/-- A phrase is read in a frame as it is read alone, if it stops there. -/
theorem Reads.framed {F : Frame} {input input' : Input} (hfile : input'.file = input.file) {p : Phrase} {c : Cursor}
    {v : p.Value} {c' : Cursor} (h : Reads input p c v c') : F.Reframes input' p c v c' := by
  refine Frame.reframes_of_nearer hfile ?_ h
  intro p₁ c₁ v₁ c₂ h₁ _
  exact h₁.framed hfile
termination_by c.size

end ScriptTypes
