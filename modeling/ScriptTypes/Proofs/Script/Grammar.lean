import ScriptTypes.Proofs.Script.Cursor
import ScriptTypes.Script.Parser

/-! The grammar of scripts as a relation. A phrase is read from a cursor on, giving its tree and the cursor after it.
Every production says which lexemes it takes, what must not stand where it stops, and how the node is numbered that it
builds. There is no order of attempts and no recursion bound in it: which production applies is seen from the next
lexemes. -/

namespace ScriptTypes

/-- The things that are read. A tail is read after the part it is given, and lists are read up to and with the symbol
that closes them. -/
inductive Phrase where
  | names (close : Symbol)
  | pattern
  | params
  | arrowParams
  | statement
  | required
  | block
  | declarators
  | declarator
  | parenthesized
  | assignment
  | arrow
  | conditional
  | binary (level : Nat)
  | binaryTail (level start : Nat) (left : Expr)
  | exponent
  | unary
  | access
  | accessTail (start : Nat) (e : Expr)
  | exprs (close : Symbol)
  | primary
  | properties
  | property
  | propertyValue
  | template
  | templateTail (current : String)

/-- What a phrase is read as. -/
@[reducible] def Phrase.Value : Phrase → Type
  | .names _ => List Ident
  | .pattern => Pattern
  | .params | .arrowParams => List Pattern
  | .statement => Option Stmt
  | .required => Stmt
  | .block => List Stmt
  | .declarators => List Declarator
  | .declarator => Declarator
  | .exprs _ => List Expr
  | .properties => List Property
  | .property => Property
  | .template => Template
  | .templateTail _ => List String × List Expr
  | .parenthesized | .assignment | .arrow | .conditional | .binary _ | .binaryTail _ _ _ | .exponent | .unary | .access
  | .accessTail _ _ | .primary | .propertyValue => Expr

/-- A tail may be empty. -/
def Phrase.isTail : Phrase → Bool
  | .binaryTail _ _ _ | .accessTail _ _ => true
  | _ => false

namespace Cursor

/-- The operator of a level that comes next. -/
def binaryOp? (level : Nat) (c : Cursor) : Option BinaryOp :=
  match c.peek with
  | some (.symbol s) => BinaryOp.ofSymbol? level s
  | _ => none

/-- The sign that comes next. -/
def unaryOp? (c : Cursor) : Option UnaryOp :=
  match c.peek with
  | some (.symbol s) => UnaryOp.ofSymbol? s
  | _ => none

/-- Whether the next lexeme is a number. -/
def atNumber (c : Cursor) : Bool :=
  match c.peek with
  | some (.number _) => true
  | _ => false

theorem takes_of_atNumber {c : Cursor} (h : c.atNumber = true) : ∃ n c₁, c.Takes (.number n) c₁ := by
  unfold atNumber at h
  split at h
  · rename_i n hpeek
    exact ⟨n, takes_of_peek hpeek⟩
  · cases h

/-- Whether the next lexeme goes on with an access: a dot, a bracket, a parenthesis or a backtick. -/
def atAccess (c : Cursor) : Bool :=
  c.isAt .dot || c.isAt .lBracket || c.isAt .lParen || c.isAt .backtick

/-- Whether the next lexeme starts a statement that is no expression. -/
def atStatement (c : Cursor) : Bool :=
  match c.peek with
  | some (.symbol .semicolon) | some (.symbol .lBrace) => true
  | some (.keyword .returnWord) | some (.keyword .ifWord) | some (.keyword .whileWord) => true
  | some t => (Parser.declKind? t).isSome
  | none => false

/-- Whether what has been read as a key is a whole property. -/
def atShorthandEnd (c : Cursor) : Bool :=
  c.isAt .comma || c.isAt .rBrace

theorem rest_ne_nil_of_atShorthandEnd {c : Cursor} (h : c.atShorthandEnd = true) : c.rest ≠ [] := by
  intro hnil
  simp [atShorthandEnd, isAt, peek, hnil] at h

end Cursor

/-- The value a literal token stands for in an expression. -/
def Literal.ofToken? : Token → Option Literal
  | .number n => some (.num false n)
  | .string s => some (.str s)
  | .keyword .trueWord => some (.bool true)
  | .keyword .falseWord => some (.bool false)
  | _ => none

/-- The literal a token stands for as the key of a property. -/
def Literal.ofKey? : Token → Option Literal
  | .number n => some (.num false n)
  | .string s => some (.str s)
  | _ => none

section

variable (input : Input)

/-- Reading a phrase from a cursor gives a tree and the cursor after it. -/
inductive Reads : (p : Phrase) → Cursor → p.Value → Cursor → Prop
  | namesEnd {s c c₁} (h₁ : c.Takes (.symbol s) c₁) : Reads (.names s) c [] c₁
  | namesMore {s c id c₁ c₂ ids c₃} (h₁ : c.TakesIdent input id c₁) (h₂ : c₁.Takes (.symbol .comma) c₂)
      (h₃ : Reads (.names s) c₂ ids c₃) : Reads (.names s) c (id :: ids) c₃
  | namesLast {s c id c₁ c₂} (h₁ : c.TakesIdent input id c₁) (hn : c₁.isAt .comma = false)
      (h₂ : c₁.Takes (.symbol s) c₂) : Reads (.names s) c [id] c₂
  | objectPattern {c c₁ ids c₂} (h₁ : c.Takes (.symbol .lBrace) c₁) (h₂ : Reads (.names .rBrace) c₁ ids c₂) :
      Reads .pattern c (.object ids (c₂.spanFrom input (c.start input))) c₂
  | arrayPattern {c c₁ ids c₂} (h₁ : c.Takes (.symbol .lBracket) c₁) (h₂ : Reads (.names .rBracket) c₁ ids c₂) :
      Reads .pattern c (.array ids (c₂.spanFrom input (c.start input))) c₂
  | identPattern {c id c₁} (h₁ : c.TakesIdent input id c₁) : Reads .pattern c (.ident id) c₁
  | paramsEnd {c c₁} (h₁ : c.Takes (.symbol .rParen) c₁) : Reads .params c [] c₁
  | paramsMore {c p c₁ c₂ ps c₃} (h₁ : Reads .pattern c p c₁) (h₂ : c₁.Takes (.symbol .comma) c₂)
      (h₃ : Reads .params c₂ ps c₃) : Reads .params c (p :: ps) c₃
  | paramsLast {c p c₁ c₂} (h₁ : Reads .pattern c p c₁) (hn : c₁.isAt .comma = false)
      (h₂ : c₁.Takes (.symbol .rParen) c₂) : Reads .params c [p] c₂
  | paramList {c c₁ ps c₂} (h₁ : c.Takes (.symbol .lParen) c₁) (h₂ : Reads .params c₁ ps c₂) :
      Reads .arrowParams c ps c₂
  | bareParam {c id c₁} (h₁ : c.TakesIdent input id c₁) : Reads .arrowParams c [.ident id] c₁
  | empty {c c₁} (h₁ : c.Takes (.symbol .semicolon) c₁) : Reads .statement c none c₁
  | returnNothing {c c₁} (h₁ : c.Takes (.keyword .returnWord) c₁) (hends : Parser.returnEnds c₁ = true) :
      Reads .statement c (some (.ret ((c₁.past .semicolon).node input (c.start input)) none)) (c₁.past .semicolon).tick
  | returnValue {c c₁ e c₂} (h₁ : c.Takes (.keyword .returnWord) c₁) (hends : Parser.returnEnds c₁ = false)
      (h₂ : Reads .assignment c₁ e c₂) :
      Reads .statement c (some (.ret ((c₂.past .semicolon).node input (c.start input)) (some e)))
        (c₂.past .semicolon).tick
  | blockStatement {c c₁ stmts c₂} (h₁ : c.Takes (.symbol .lBrace) c₁) (h₂ : Reads .block c₁ stmts c₂) :
      Reads .statement c (some (.block ((c₂.past .semicolon).node input (c.start input)) stmts))
        (c₂.past .semicolon).tick
  | ifElse {c c₁ test c₂ s c₃ c₄ s' c₅} (h₁ : c.Takes (.keyword .ifWord) c₁) (h₂ : Reads .parenthesized c₁ test c₂)
      (h₃ : Reads .required c₂ s c₃) (h₄ : c₃.Takes (.keyword .elseWord) c₄) (h₅ : Reads .required c₄ s' c₅) :
      Reads .statement c (some (.cond ((c₅.past .semicolon).node input (c.start input)) test s (some s')))
        (c₅.past .semicolon).tick
  | ifOnly {c c₁ test c₂ s c₃} (h₁ : c.Takes (.keyword .ifWord) c₁) (h₂ : Reads .parenthesized c₁ test c₂)
      (h₃ : Reads .required c₂ s c₃) (hn : c₃.peek ≠ some (.keyword .elseWord)) :
      Reads .statement c (some (.cond ((c₃.past .semicolon).node input (c.start input)) test s none))
        (c₃.past .semicolon).tick
  | whileLoop {c c₁ test c₂ s c₃} (h₁ : c.Takes (.keyword .whileWord) c₁) (h₂ : Reads .parenthesized c₁ test c₂)
      (h₃ : Reads .required c₂ s c₃) :
      Reads .statement c (some (.loop ((c₃.past .semicolon).node input (c.start input)) test s))
        (c₃.past .semicolon).tick
  | declaration {c t kind c₁ decls c₂} (h₁ : c.Takes t c₁) (hkind : Parser.declKind? t = some kind)
      (h₂ : Reads .declarators c₁ decls c₂) :
      Reads .statement c (some (.decl ((c₂.past .semicolon).node input (c.start input)) kind decls))
        (c₂.past .semicolon).tick
  | exprStatement {c e c₁} (hn : c.atStatement = false) (h₁ : Reads .assignment c e c₁) :
      Reads .statement c (some (.expr ((c₁.past .semicolon).node input (c.start input)) e)) (c₁.past .semicolon).tick
  | requiredSome {c s c₁} (h₁ : Reads .statement c (some s) c₁) : Reads .required c s c₁
  | requiredNone {c c₁} (h₁ : Reads .statement c none c₁) :
      Reads .required c (.block (c₁.node input (c.start input)) []) c₁.tick
  | blockEnd {c c₁} (h₁ : c.Takes (.symbol .rBrace) c₁) : Reads .block c [] c₁
  | blockMore {c s c₁ stmts c₂} (hn : c.isAt .rBrace = false) (h₁ : Reads .statement c s c₁)
      (h₂ : Reads .block c₁ stmts c₂) : Reads .block c (s.toList ++ stmts) c₂
  | declaratorsMore {c d c₁ c₂ ds c₃} (h₁ : Reads .declarator c d c₁) (h₂ : c₁.Takes (.symbol .comma) c₂)
      (h₃ : Reads .declarators c₂ ds c₃) : Reads .declarators c (d :: ds) c₃
  | declaratorsLast {c d c₁} (h₁ : Reads .declarator c d c₁) (hn : c₁.isAt .comma = false) :
      Reads .declarators c [d] c₁
  | initialized {c p c₁ c₂ e c₃} (h₁ : Reads .pattern c p c₁) (h₂ : c₁.Takes (.symbol .equals) c₂)
      (h₃ : Reads .assignment c₂ e c₃) :
      Reads .declarator c (.mk p (some e) (c₃.spanFrom input (c.start input))) c₃
  | uninitialized {c p c₁} (h₁ : Reads .pattern c p c₁) (hn : c₁.isAt .equals = false) :
      Reads .declarator c (.mk p none (c₁.spanFrom input (c.start input))) c₁
  | parenthesized {c c₁ e c₂ c₃} (h₁ : c.Takes (.symbol .lParen) c₁) (h₂ : Reads .assignment c₁ e c₂)
      (h₃ : c₂.Takes (.symbol .rParen) c₃) : Reads .parenthesized c e c₃
  | arrowExpr {c e c₁} (ha : c.atArrow = true) (h₁ : Reads .arrow c e c₁) : Reads .assignment c e c₁
  | assign {c target c₁ c₂ value c₃} (ha : c.atArrow = false) (h₁ : Reads .conditional c target c₁)
      (h₂ : c₁.Takes (.symbol .equals) c₂) (h₃ : Reads .assignment c₂ value c₃) :
      Reads .assignment c (.assign (c₃.node input (c.start input)) target value) c₃.tick
  | noAssign {c e c₁} (ha : c.atArrow = false) (h₁ : Reads .conditional c e c₁) (hn : c₁.isAt .equals = false) :
      Reads .assignment c e c₁
  | blockArrow {c ps c₁ c₂ c₃ stmts c₄} (h₁ : Reads .arrowParams c ps c₁) (h₂ : c₁.Takes (.symbol .fatArrow) c₂)
      (h₃ : c₂.Takes (.symbol .lBrace) c₃) (h₄ : Reads .block c₃ stmts c₄) :
      Reads .arrow c
        (.arrow (c₄.node input (c.start input)) ps (.block stmts (c₄.spanFrom input (c₂.start input)))) c₄.tick
  | exprArrow {c ps c₁ c₂ e c₃} (h₁ : Reads .arrowParams c ps c₁) (h₂ : c₁.Takes (.symbol .fatArrow) c₂)
      (hn : c₂.isAt .lBrace = false) (h₃ : Reads .assignment c₂ e c₃) :
      Reads .arrow c (.arrow (c₃.node input (c.start input)) ps (.expr e)) c₃.tick
  | ternary {c test c₁ c₂ e c₃ c₄ e' c₅} (h₁ : Reads (.binary 0) c test c₁) (h₂ : c₁.Takes (.symbol .question) c₂)
      (h₃ : Reads .assignment c₂ e c₃) (h₄ : c₃.Takes (.symbol .colon) c₄) (h₅ : Reads .assignment c₄ e' c₅) :
      Reads .conditional c (.conditional (c₅.node input (c.start input)) test e e') c₅.tick
  | noTernary {c e c₁} (h₁ : Reads (.binary 0) c e c₁) (hn : c₁.isAt .question = false) : Reads .conditional c e c₁
  | operands {level c left c₁ e c₂} (hlevel : level < 6) (h₁ : Reads (.binary (level + 1)) c left c₁)
      (h₂ : Reads (.binaryTail level (c.start input) left) c₁ e c₂) : Reads (.binary level) c e c₂
  | tightest {level c e c₁} (hlevel : ¬ level < 6) (h₁ : Reads .exponent c e c₁) : Reads (.binary level) c e c₁
  | operator {level start left c s op c₁ right c₂ e c₃} (h₁ : c.Takes (.symbol s) c₁)
      (hop : BinaryOp.ofSymbol? level s = some op) (h₂ : Reads (.binary (level + 1)) c₁ right c₂)
      (h₃ : Reads (.binaryTail level start (.binary (c₂.node input start) op left right)) c₂.tick e c₃) :
      Reads (.binaryTail level start left) c e c₃
  | noOperator {level start left c} (hn : c.binaryOp? level = none) : Reads (.binaryTail level start left) c left c
  | power {c base c₁ c₂ e c₃} (h₁ : Reads .unary c base c₁) (h₂ : c₁.Takes (.symbol .doubleStar) c₂)
      (h₃ : Reads .exponent c₂ e c₃) :
      Reads .exponent c (.binary (c₃.node input (c.start input)) .pow base e) c₃.tick
  | noPower {c e c₁} (h₁ : Reads .unary c e c₁) (hn : c₁.isAt .doubleStar = false) : Reads .exponent c e c₁
  | negativeNumber {c c₁ n c₂} (h₁ : c.Takes (.symbol .minus) c₁) (h₂ : c₁.Takes (.number n) c₂) :
      Reads .unary c (.literal (c₂.node input (c.start input)) (.num true n)) c₂.tick
  | sign {c s op c₁ e c₂} (h₁ : c.Takes (.symbol s) c₁) (hop : UnaryOp.ofSymbol? s = some op)
      (hn : ¬ (op = .neg ∧ c₁.atNumber = true)) (h₂ : Reads .unary c₁ e c₂) :
      Reads .unary c (.unary (c₂.node input (c.start input)) op e) c₂.tick
  | noSign {c e c₁} (hn : c.unaryOp? = none) (h₁ : Reads .access c e c₁) : Reads .unary c e c₁
  | accessed {c e c₁ e' c₂} (h₁ : Reads .primary c e c₁) (h₂ : Reads (.accessTail (c.start input) e) c₁ e' c₂) :
      Reads .access c e' c₂
  | member {start e c c₁ label c₂ e' c₃} (h₁ : c.Takes (.symbol .dot) c₁) (h₂ : c₁.TakesLabel input label c₂)
      (h₃ : Reads (.accessTail start (.member (c₂.node input start) e label)) c₂.tick e' c₃) :
      Reads (.accessTail start e) c e' c₃
  | index {start e c c₁ key c₂ c₃ e' c₄} (h₁ : c.Takes (.symbol .lBracket) c₁) (h₂ : Reads .assignment c₁ key c₂)
      (h₃ : c₂.Takes (.symbol .rBracket) c₃)
      (h₄ : Reads (.accessTail start (.index (c₃.node input start) e key)) c₃.tick e' c₄) :
      Reads (.accessTail start e) c e' c₄
  | call {start e c c₁ args c₂ e' c₃} (h₁ : c.Takes (.symbol .lParen) c₁) (h₂ : Reads (.exprs .rParen) c₁ args c₂)
      (h₃ : Reads (.accessTail start (.call (c₂.node input start) e args)) c₂.tick e' c₃) :
      Reads (.accessTail start e) c e' c₃
  | tagged {start e c quasi c₁ e' c₂} (h₁ : Reads .template c quasi c₁)
      (h₂ : Reads (.accessTail start (.tagged (c₁.node input start) e quasi)) c₁.tick e' c₂) :
      Reads (.accessTail start e) c e' c₂
  | noAccess {start e c} (hn : c.atAccess = false) : Reads (.accessTail start e) c e c
  | exprsEnd {s c c₁} (h₁ : c.Takes (.symbol s) c₁) : Reads (.exprs s) c [] c₁
  | exprsMore {s c e c₁ c₂ es c₃} (hn : c.isAt s = false) (h₁ : Reads .assignment c e c₁)
      (h₂ : c₁.Takes (.symbol .comma) c₂) (h₃ : Reads (.exprs s) c₂ es c₃) : Reads (.exprs s) c (e :: es) c₃
  | exprsLast {s c e c₁ c₂} (hn : c.isAt s = false) (h₁ : Reads .assignment c e c₁) (hn₁ : c₁.isAt .comma = false)
      (h₂ : c₁.Takes (.symbol s) c₂) : Reads (.exprs s) c [e] c₂
  | templateExpr {c quasi c₁} (h₁ : Reads .template c quasi c₁) :
      Reads .primary c (.template (c₁.node input (c.start input)) quasi) c₁.tick
  | ident {c id c₁} (h₁ : c.TakesIdent input id c₁) :
      Reads .primary c (.ident (c₁.node input (c.start input)) id) c₁.tick
  | literal {c t v c₁} (h₁ : c.Takes t c₁) (hv : Literal.ofToken? t = some v) :
      Reads .primary c (.literal (c₁.node input (c.start input)) v) c₁.tick
  | group {c c₁ e c₂ c₃} (h₁ : c.Takes (.symbol .lParen) c₁) (h₂ : Reads .assignment c₁ e c₂)
      (h₃ : c₂.Takes (.symbol .rParen) c₃) : Reads .primary c e c₃
  | array {c c₁ es c₂} (h₁ : c.Takes (.symbol .lBracket) c₁) (h₂ : Reads (.exprs .rBracket) c₁ es c₂) :
      Reads .primary c (.array (c₂.node input (c.start input)) es) c₂.tick
  | object {c c₁ ps c₂} (h₁ : c.Takes (.symbol .lBrace) c₁) (h₂ : Reads .properties c₁ ps c₂) :
      Reads .primary c (.object (c₂.node input (c.start input)) ps) c₂.tick
  | propertiesEnd {c c₁} (h₁ : c.Takes (.symbol .rBrace) c₁) : Reads .properties c [] c₁
  | propertiesMore {c p c₁ c₂ ps c₃} (h₁ : Reads .property c p c₁) (h₂ : c₁.Takes (.symbol .comma) c₂)
      (h₃ : Reads .properties c₂ ps c₃) : Reads .properties c (p :: ps) c₃
  | propertiesLast {c p c₁ c₂} (h₁ : Reads .property c p c₁) (hn : c₁.isAt .comma = false)
      (h₂ : c₁.Takes (.symbol .rBrace) c₂) : Reads .properties c [p] c₂
  | literalKey {c l v c₁ e c₂} (h₁ : c.Passes l c₁) (hv : Literal.ofKey? l.token = some v)
      (h₂ : Reads .propertyValue c₁ e c₂) :
      Reads .property c
        (.mk (.literal v (Cursor.span input l.start l.stop)) e (c₂.spanFrom input (c.start input))) c₂
  | computedKey {c c₁ key c₂ c₃ e c₄} (h₁ : c.Takes (.symbol .lBracket) c₁) (h₂ : Reads .assignment c₁ key c₂)
      (h₃ : c₂.Takes (.symbol .rBracket) c₃) (h₄ : Reads .propertyValue c₃ e c₄) :
      Reads .property c (.mk (.computed key) e (c₄.spanFrom input (c.start input))) c₄
  | shorthand {c id c₁} (h₁ : c.TakesLabel input id c₁) (hend : c₁.atShorthandEnd = true) :
      Reads .property c (.mk (.ident id) (.ident ⟨c₁.nextId, id.pos⟩ id) id.pos) c₁.tick
  | namedKey {c id c₁ e c₂} (h₁ : c.TakesLabel input id c₁) (hend : c₁.atShorthandEnd = false)
      (h₂ : Reads .propertyValue c₁ e c₂) :
      Reads .property c (.mk (.ident id) e (c₂.spanFrom input (c.start input))) c₂
  | propertyValue {c c₁ e c₂} (h₁ : c.Takes (.symbol .colon) c₁) (h₂ : Reads .assignment c₁ e c₂) :
      Reads .propertyValue c e c₂
  | template {c c₁ v c₂} (h₁ : c.Takes (.symbol .backtick) c₁) (h₂ : Reads (.templateTail "") c₁ v c₂) :
      Reads .template c (.mk v.1 v.2 (c₂.spanFrom input (c.start input))) c₂
  | templateText {current c t piece c₁ v c₂} (h₁ : c.Takes t c₁) (ht : Parser.piece? t = some (.text piece))
      (h₂ : Reads (.templateTail (current ++ piece)) c₁ v c₂) : Reads (.templateTail current) c v c₂
  | interpolation {current c c₁ e c₂ c₃ v c₄} (h₁ : c.Takes .interpolation c₁) (h₂ : Reads .assignment c₁ e c₂)
      (h₃ : c₂.Takes (.symbol .rBrace) c₃) (h₄ : Reads (.templateTail "") c₃ v c₄) :
      Reads (.templateTail current) c (current :: v.1, e :: v.2) c₄
  | templateEnd {current c c₁} (h₁ : c.Takes .templateEnd c₁) : Reads (.templateTail current) c ([current], []) c₁

end

/-! What can stand at the start of a phrase. -/

section

variable {input : Input} {c c' : Cursor}

theorem Reads.not_atParen {p : Pattern} (h : Reads input .pattern c p c') :
    c.isAt .rParen = false := by
  cases h with
  | objectPattern h₁ => exact h₁.isAt_ne nofun
  | arrayPattern h₁ => exact h₁.isAt_ne nofun
  | identPattern h₁ => exact h₁.isAt

theorem Reads.not_atBrace {p : Property} (h : Reads input .property c p c') :
    c.isAt .rBrace = false := by
  cases h with
  | @literalKey _ l _ _ _ _ h₁ hv =>
      refine Cursor.Takes.isAt_ne ⟨l, h₁, rfl⟩ ?_
      intro ht
      simp [ht, Literal.ofKey?] at hv
  | computedKey h₁ => exact h₁.isAt_ne nofun
  | shorthand h₁ => exact h₁.isAt
  | namedKey h₁ => exact h₁.isAt

theorem Reads.backtick {v : Template} (h : Reads input .template c v c') :
    ∃ l c₁, c.Passes l c₁ ∧ l.token = .symbol .backtick := by
  cases h with
  | template h₁ =>
      obtain ⟨l, hl, ht⟩ := h₁
      exact ⟨l, _, hl, ht⟩

end

theorem Reads.onward {input : Input} {p : Phrase} {c : Cursor} {v : p.Value} {c' : Cursor} (h : Reads input p c v c') :
    c.Onward c' := by
  induction h <;> grind [→ Cursor.Takes.onward, → Cursor.TakesLabel.onward, → Cursor.TakesIdent.onward,
    → Cursor.Passes.onward, → Cursor.Onward.trans, Cursor.Onward.refl, Cursor.onward_past, Cursor.onward_tick]

end ScriptTypes
