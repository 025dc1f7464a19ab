import ScriptTypes.Proofs.Script.Frame

/-! From tight constructs to loose ones. Where no operator, access or arrow follows, a primary expression is an operand
of every level and so an expression. An expression in parentheses is one whatever stands inside. -/

namespace ScriptTypes

/-! Operators. -/

def BinaryOp.symbol : BinaryOp → Symbol
  | .add => .plus
  | .sub => .minus
  | .mul => .star
  | .div => .slash
  | .rem => .percent
  | .pow => .doubleStar
  | .lt => .lt
  | .gt => .gt
  | .le => .le
  | .ge => .ge
  | .strictEq => .tripleEq
  | .strictNeq => .notDoubleEq
  | .and => .doubleAnd
  | .or => .doublePipe

def UnaryOp.symbol : UnaryOp → Symbol
  | .neg => .minus
  | .plus => .plus
  | .not => .bang

namespace BinaryOp

/-- The level of an operator. Powers are tighter than all others. -/
def level : BinaryOp → Nat
  | .or => 0
  | .and => 1
  | .strictEq | .strictNeq => 2
  | .lt | .gt | .le | .ge => 3
  | .add | .sub => 4
  | .mul | .div | .rem => 5
  | .pow => 6

theorem eq_of_ofSymbol? {k : Nat} {s : Symbol} {op : BinaryOp} (h : ofSymbol? k s = some op) :
    k = op.level ∧ s = op.symbol := by
  unfold ofSymbol? at h
  split at h <;> cases h <;> exact ⟨rfl, rfl⟩

theorem ofSymbol?_symbol {op : BinaryOp} (h : op ≠ .pow) : ofSymbol? op.level op.symbol = some op := by
  cases op <;> first | rfl | exact absurd rfl h

theorem level_lt {op : BinaryOp} (h : op ≠ .pow) : op.level < 6 := by
  cases op <;> first | decide | exact absurd rfl h

theorem symbol_injective : Function.Injective symbol := by
  intro op op' h
  cases op <;> cases op' <;> first | rfl | cases h

end BinaryOp

theorem UnaryOp.ofSymbol?_symbol (op : UnaryOp) : UnaryOp.ofSymbol? op.symbol = some op := by
  cases op <;> rfl

/-! Where expressions end. -/

namespace Symbol

/-- The symbols before which an expression ends. -/
def ends : Symbol → Bool
  | .rParen | .rBracket | .rBrace | .comma | .semicolon | .colon => true
  | _ => false

/-- The symbols before which an operand ends, whatever the operator before it. -/
def endsOperand (s : Symbol) : Bool :=
  s.ends || s == .question || s == .equals

end Symbol

theorem BinaryOp.endsOperand_symbol (op : BinaryOp) : op.symbol.endsOperand = false := by
  cases op <;> rfl

namespace Cursor

variable {c c₁ : Cursor} {P : Symbol → Bool}

theorem isAt_of_peek {t : Token} {s : Symbol} (h : c.peek = some t) (hs : t ≠ .symbol s) : c.isAt s = false := by
  simp [isAt, h, hs]

/-- One of some symbols comes next, or nothing at all. -/
def Before (P : Symbol → Bool) (c : Cursor) : Prop :=
  ∀ t, c.peek = some t → ∃ s, t = .symbol s ∧ P s = true

theorem Before.of_peek {s : Symbol} (h : c.peek = some (.symbol s)) (hs : P s = true) : c.Before P :=
  fun _ ht => ⟨s, (Option.some.inj (h.symm.trans ht)).symm, hs⟩

theorem Takes.before {s : Symbol} (h : c.Takes (.symbol s) c₁) (hs : P s = true) : c.Before P :=
  .of_peek h.peek hs

theorem Before.isAt (h : c.Before P) {s : Symbol} (hs : P s = false) : c.isAt s = false := by
  rw [Cursor.isAt, beq_eq_false_iff_ne]
  intro hpeek
  obtain ⟨s', hs', htrue⟩ := h _ hpeek
  cases hs'
  rw [hs] at htrue
  cases htrue

theorem Before.operand (h : c.Before Symbol.ends) : c.Before Symbol.endsOperand := by
  intro t ht
  obtain ⟨s, rfl, hs⟩ := h t ht
  exact ⟨s, rfl, by rw [Symbol.endsOperand, hs]; rfl⟩

theorem Before.atAccess (h : c.Before Symbol.endsOperand) : c.atAccess = false := by
  simp only [Cursor.atAccess, h.isAt (show Symbol.dot.endsOperand = false from rfl),
    h.isAt (show Symbol.lBracket.endsOperand = false from rfl),
    h.isAt (show Symbol.lParen.endsOperand = false from rfl),
    h.isAt (show Symbol.backtick.endsOperand = false from rfl), Bool.or_false]

theorem Before.binaryOp? (h : c.Before Symbol.endsOperand) (k : Nat) : c.binaryOp? k = none := by
  unfold Cursor.binaryOp?
  split
  · rename_i s hpeek
    cases hop : BinaryOp.ofSymbol? k s with
    | none => rfl
    | some op =>
        obtain ⟨-, rfl⟩ := BinaryOp.eq_of_ofSymbol? hop
        obtain ⟨s, heq, hs⟩ := h _ hpeek
        cases heq
        rw [op.endsOperand_symbol] at hs
        cases hs
  · rfl

/-- An operator is an operator of its own level only. -/
theorem binaryOp?_of_peek {op : BinaryOp} (h : c.peek = some (.symbol op.symbol)) {k : Nat} (hk : k ≠ op.level) :
    c.binaryOp? k = none := by
  simp only [binaryOp?, h]
  cases hop : BinaryOp.ofSymbol? k op.symbol with
  | none => rfl
  | some op' =>
      obtain ⟨rfl, hsymbol⟩ := BinaryOp.eq_of_ofSymbol? hop
      exact absurd (congrArg BinaryOp.level (BinaryOp.symbol_injective hsymbol)).symm hk

theorem atAccess_of_op {op : BinaryOp} (h : c.peek = some (.symbol op.symbol)) : c.atAccess = false := by
  cases op <;> simp [atAccess, isAt, h, BinaryOp.symbol]

/-- An arrow function starts with a name or a parenthesis. -/
theorem not_atArrow {t : Token} (h : c.peek = some t) (hname : ∀ name, t ≠ .ident name) (ht : t ≠ .symbol .lParen) :
    c.atArrow = false := by
  obtain ⟨c₁, l, hl, rfl⟩ := takes_of_peek h
  simp only [atArrow, hl.rest]

end Cursor

/-! From tight constructs to loose ones. -/

namespace Reads

variable {input : Input} {c c₁ : Cursor} {e : Expr}

theorem binary_of_tighter {k level : Nat} (h : Reads input (.binary k) c e c₁) (hlevel : level ≤ k) (hk : k ≤ 6)
    (hops : ∀ j, level ≤ j → j < k → c₁.binaryOp? j = none) : Reads input (.binary level) c e c₁ := by
  obtain ⟨d, rfl⟩ := Nat.exists_eq_add_of_le hlevel
  induction d with
  | zero => exact h
  | succ d ih =>
      have hstep : Reads input (.binary (level + d)) c e c₁ :=
        .operands (by omega) h (.noOperator (hops (level + d) (by omega) (by omega)))
      exact ih hstep (by omega) (by omega) fun j hj hlt => hops j hj (by omega)

theorem assignment_of_binary {k : Nat} (h : Reads input (.binary k) c e c₁) (hk : k ≤ 6) (ha : c.atArrow = false)
    (hend : c₁.Before Symbol.ends) : Reads input .assignment c e c₁ := by
  have hloosest := h.binary_of_tighter (Nat.zero_le k) hk fun j _ _ => hend.operand.binaryOp? j
  exact .noAssign ha (.noTernary hloosest (hend.isAt rfl)) (hend.isAt rfl)

theorem assignment_of_unary (h : Reads input .unary c e c₁) (ha : c.atArrow = false) (hend : c₁.Before Symbol.ends) :
    Reads input .assignment c e c₁ :=
  assignment_of_binary (.tightest (Nat.lt_irrefl 6) (.noPower h (hend.isAt rfl))) (Nat.le_refl 6) ha hend

theorem assignment_of_access (h : Reads input .access c e c₁) (hsign : c.unaryOp? = none) (ha : c.atArrow = false)
    (hend : c₁.Before Symbol.ends) : Reads input .assignment c e c₁ :=
  assignment_of_unary (.noSign hsign h) ha hend

theorem assignment_of_primary (h : Reads input .primary c e c₁) (hsign : c.unaryOp? = none) (ha : c.atArrow = false)
    (hend : c₁.Before Symbol.ends) : Reads input .assignment c e c₁ :=
  assignment_of_access (.accessed h (.noAccess hend.operand.atAccess)) hsign ha hend

theorem assignment_of_symbol {s : Symbol} (h : Reads input .primary c e c₁) (hpeek : c.peek = some (.symbol s))
    (hparen : s ≠ .lParen) (hsign : UnaryOp.ofSymbol? s = none) (hend : c₁.Before Symbol.ends) :
    Reads input .assignment c e c₁ := by
  have ha : c.atArrow = false := Cursor.not_atArrow hpeek nofun fun heq => hparen (Token.symbol.inj heq)
  exact h.assignment_of_primary (by rw [Cursor.unaryOp?, hpeek]; exact hsign) ha hend

end Reads

/-- An expression in parentheses. -/
structure Group (input : Input) (c : Cursor) (e : Expr) (c₁ : Cursor) : Prop where
  reads : Reads input .primary c e c₁
  paren : c.peek = some (.symbol .lParen)

namespace Group

variable {input : Input} {c c₁ : Cursor} {e : Expr}

theorem unaryOp? (h : Group input c e c₁) : c.unaryOp? = none := by
  simp [Cursor.unaryOp?, h.paren, UnaryOp.ofSymbol?]

/-- The arrow of a function would come right after the parentheses. -/
theorem atArrow (h : Group input c e c₁) : c.atArrow = c₁.isAt .fatArrow := by
  obtain ⟨hreads, hparen⟩ := h
  cases hreads with
  | @group _ c₂ _ c₃ _ h₁ h₂ h₃ =>
      obtain ⟨l, hl, ht⟩ := h₁
      obtain ⟨l', hl', ht'⟩ := h₃
      obtain ⟨inner, hinner, hnested⟩ := h₂.crosses
      simp only [Cursor.atArrow, hl.rest, ht, hinner, hl'.rest]
      exact hnested.arrowAfter_close ht'
  | templateExpr h₁ =>
      obtain ⟨l, _, hl, ht⟩ := h₁.backtick
      rw [hl.peek, ht] at hparen
      cases hparen
  | ident h₁ =>
      obtain ⟨l, hl, ht, -⟩ := h₁
      rw [hl.peek, ht] at hparen
      cases hparen
  | literal h₁ hv =>
      rw [h₁.peek] at hparen
      cases hparen
      cases hv
  | array h₁ _ =>
      rw [h₁.peek] at hparen
      cases hparen
  | object h₁ _ =>
      rw [h₁.peek] at hparen
      cases hparen

/-- An access to the expression in parentheses, which an arrow must not follow. -/
theorem access (h : Group input c e c₁) {e' : Expr} {c₂ : Cursor} (harrow : c₁.isAt .fatArrow = false)
    (htail : Reads input (.accessTail (c.start input) e) c₁ e' c₂) (hend : c₂.Before Symbol.ends) :
    Reads input .assignment c e' c₂ :=
  Reads.assignment_of_access (.accessed h.reads htail) h.unaryOp? (h.atArrow.trans harrow) hend

theorem unary (h : Group input c e c₁) (hn : c₁.atAccess = false) : Reads input .unary c e c₁ :=
  .noSign h.unaryOp? (.accessed h.reads (.noAccess hn))

/-- An operand, when no operator comes next that is as tight as asked for. -/
theorem operand (h : Group input c e c₁) {k : Nat} (hk : k ≤ 6) (hn : c₁.atAccess = false)
    (hpow : c₁.isAt .doubleStar = false) (hops : ∀ j, k ≤ j → c₁.binaryOp? j = none) :
    Reads input (.binary k) c e c₁ := by
  have htight : Reads input (.binary 6) c e c₁ := .tightest (Nat.lt_irrefl 6) (.noPower (h.unary hn) hpow)
  exact htight.binary_of_tighter hk (Nat.le_refl 6) fun j hj _ => hops j hj

theorem last (h : Group input c e c₁) {k : Nat} (hk : k ≤ 6) (hend : c₁.Before Symbol.endsOperand) :
    Reads input (.binary k) c e c₁ :=
  h.operand hk hend.atAccess (hend.isAt rfl) fun j _ => hend.binaryOp? j

theorem assignment (h : Group input c e c₁) (hend : c₁.Before Symbol.ends) : Reads input .assignment c e c₁ :=
  h.reads.assignment_of_primary h.unaryOp? (h.atArrow.trans (hend.isAt rfl)) hend

end Group

end ScriptTypes
