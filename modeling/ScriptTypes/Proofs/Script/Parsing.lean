import ScriptTypes.Proofs.Script.Returned

/-! The parser covers the grammar: what the productions read it returns. With what it returns being read by the grammar,
the two agree on every cursor, and a script is parsed as its statements are read. -/

namespace ScriptTypes

namespace Parser

theorem returned {α : Type} {n : Nat} {x : Result α n} {v : α} {c : Cursor}
    (h : x.map (fun r => (r.value, r.next)) = .ok (v, c)) : ∃ h, x = .ok ⟨v, c, h⟩ := by
  cases x with
  | error e => cases h
  | ok r =>
      cases h
      exact ⟨r.within, rfl⟩

theorem map_finishStatement {n : Nat} (input : Input) (c : Cursor) (start : Nat) (build : Node → Stmt) (h : c.size < n) :
    Except.map (fun r => (r.value, r.next)) (pure (finishStatement input c start build h) : Result (Option Stmt) n) =
      .ok (some (build ((c.past .semicolon).node input start)), (c.past .semicolon).tick) := by
  rw [finishStatement_eq input c start build h (Nat.lt_of_le_of_lt (size_past_le c .semicolon) h)]
  rfl

/-! Where a construct does not start, its reader goes on to the tighter one. -/

section

variable {input : Input} {c : Cursor}

theorem statement_eq_of_not_atStatement (h : c.atStatement = false) :
    statement input c =
      (assignment input c >>= fun r =>
        pure (finishStatement input r.next (c.start input) (.expr · r.value) r.within)) := by
  rw [statement]
  dsimp only
  split
  · rfl
  · rename_i l c₁ h₁ hread
    have hpeek := (Cursor.Passes.of_read hread).peek
    unfold Cursor.atStatement at h
    split <;> simp_all

theorem unary_eq_access (h : c.unaryOp? = none) : unary input c = access input c := by
  rw [unary]
  dsimp only
  split
  · rename_i l c₁ h₁ hread
    have hpeek := (Cursor.Passes.of_read hread).peek
    split
    · rename_i s ht
      simp only [Cursor.unaryOp?, hpeek, ht] at h
      simp only [h]
    · rfl
  · rfl

theorem binaryTail_eq_left {level start : Nat} {left : Expr} (h : c.binaryOp? level = none) :
    binaryTail input level start left c = .ok ⟨left, c, c.size_lt_succ⟩ := by
  rw [binaryTail]
  split
  · rename_i l c₁ h₁ hread
    have hpeek := (Cursor.Passes.of_read hread).peek
    split
    · rename_i s ht
      simp only [Cursor.binaryOp?, hpeek, ht] at h
      simp only [h]
    · rfl
  · rfl

theorem property_eq_of_label {id : Ident} {c₁ : Cursor} (h : c.TakesLabel input id c₁) :
    property input c = (c.propertyName input >>= fun r =>
      if r.next.isAt .comma || r.next.isAt .rBrace then
        pure ⟨.mk (.ident r.value) (.ident ⟨r.next.nextId, r.value.pos⟩ r.value) r.value.pos, r.next.tick, r.within⟩
      else propertyValue input r.next >>= fun e =>
        pure ⟨.mk (.ident r.value) e.value (e.next.spanFrom input (c.start input)), e.next,
          Nat.lt_trans e.within r.within⟩) := by
  obtain ⟨⟨t, start, stop, afterBreak⟩, hl, ht, -⟩ := h
  rw [property]
  rcases ht with ht | ⟨k, ht, -⟩ <;> cases ht <;> simp only [hl.read] <;> rfl

theorem accessTail_eq_self {start : Nat} {e : Expr} (h : c.atAccess = false) :
    accessTail input start e c = .ok ⟨e, c, c.size_lt_succ⟩ := by
  rw [accessTail]
  split
  · rename_i l c₁ h₁ hread
    have hpeek := (Cursor.Passes.of_read hread).peek
    simp only [Cursor.atAccess, Cursor.isAt, hpeek, Bool.or_eq_false_iff, beq_eq_false_iff_ne, ne_eq,
      Option.some.injEq] at h
    split <;> simp_all
  · rfl

end

/-- The parser returns what the grammar reads from where fewer lexemes are left. -/
def Covers (input : Input) (n : Nat) : Prop :=
  ∀ {p c v c'}, Reads input p c v c' → c.size < n → Returns input p c v c'

/-! Each phrase at a cursor, given that the parser covers the grammar from nearer cursors on. -/

section

variable {input : Input} {c c' : Cursor} (ih : Covers input c.size)

include ih

theorem names_returns {s : Symbol} {v : List Ident} (h : Reads input (.names s) c v c') :
    Returns input (.names s) c v c' := by
  apply returned
  cases h with
  | namesEnd h₁ =>
      rw [patternIdents, h₁.eat]
      rfl
  | namesMore h₁ h₂ h₃ =>
      obtain ⟨_, hr₃⟩ := ih h₃ (Cursor.size_trans h₂.size_lt h₁.size_lt)
      rw [patternIdents, Cursor.eat_eq_none_iff.mpr h₁.isAt]
      simp only [h₁.ident, h₂.eat, hr₃, ok_bind]
      rfl
  | namesLast h₁ hn h₂ =>
      rw [patternIdents, Cursor.eat_eq_none_iff.mpr h₁.isAt]
      simp only [h₁.ident, Cursor.eat_eq_none_iff.mpr hn, h₂.expect, ok_bind]
      rfl

theorem pattern_returns {v : Pattern} (h : Reads input .pattern c v c') : Returns input .pattern c v c' := by
  apply returned
  cases h with
  | objectPattern h₁ h₂ =>
      obtain ⟨_, hr₂⟩ := ih h₂ h₁.size_lt
      simp only [pattern, h₁.eat, hr₂, ok_bind]
      rfl
  | arrayPattern h₁ h₂ =>
      obtain ⟨_, hr₂⟩ := ih h₂ h₁.size_lt
      simp only [pattern, Cursor.eat_eq_none_iff.mpr (h₁.isAt_ne (s := .lBrace) (by decide)), h₁.eat, hr₂, ok_bind]
      rfl
  | identPattern h₁ =>
      simp only [pattern, Cursor.eat_eq_none_iff.mpr (h₁.isAt (s := .lBrace)),
        Cursor.eat_eq_none_iff.mpr (h₁.isAt (s := .lBracket)), h₁.ident, ok_bind]
      rfl

theorem params_returns {v : List Pattern} (h : Reads input .params c v c') : Returns input .params c v c' := by
  apply returned
  cases h with
  | paramsEnd h₁ =>
      rw [params, h₁.eat]
      rfl
  | paramsMore h₁ h₂ h₃ =>
      obtain ⟨hsize, hr₁⟩ := pattern_returns ih h₁
      obtain ⟨_, hr₃⟩ := ih h₃ (Cursor.size_trans h₂.size_lt hsize)
      rw [params, Cursor.eat_eq_none_iff.mpr h₁.not_atParen]
      simp only [hr₁, h₂.eat, hr₃, ok_bind]
      rfl
  | paramsLast h₁ hn h₂ =>
      obtain ⟨_, hr₁⟩ := pattern_returns ih h₁
      rw [params, Cursor.eat_eq_none_iff.mpr h₁.not_atParen]
      simp only [hr₁, Cursor.eat_eq_none_iff.mpr hn, h₂.expect, ok_bind]
      rfl

theorem arrowParams_returns {v : List Pattern} (h : Reads input .arrowParams c v c') :
    Returns input .arrowParams c v c' := by
  apply returned
  cases h with
  | paramList h₁ h₂ =>
      obtain ⟨_, hr₂⟩ := ih h₂ h₁.size_lt
      simp only [arrowParams, h₁.eat, hr₂, ok_bind]
      rfl
  | bareParam h₁ =>
      simp only [arrowParams, Cursor.eat_eq_none_iff.mpr (h₁.isAt (s := .lParen)), h₁.ident, ok_bind]
      rfl

theorem templateTail_returns {current : String} {v : List String × List Expr}
    (h : Reads input (.templateTail current) c v c') :
    Returns input (.templateTail current) c v c' := by
  apply returned
  cases h with
  | templateText h₁ ht h₂ =>
      obtain ⟨l, hl, rfl⟩ := h₁
      obtain ⟨_, hr₂⟩ := ih h₂ hl.size_lt
      rw [templateTail]
      simp only [hl.read, ht, hr₂, ok_bind]
      rfl
  | interpolation h₁ h₂ h₃ h₄ =>
      obtain ⟨l, hl, ht⟩ := h₁
      obtain ⟨hsize, hr₂⟩ := ih h₂ hl.size_lt
      obtain ⟨_, hr₄⟩ := ih h₄ (Cursor.size_trans h₃.size_lt (Cursor.size_trans hsize hl.size_lt))
      rw [templateTail]
      simp only [hl.read, ht, piece?, hr₂, h₃.expect, hr₄, ok_bind]
      rfl
  | templateEnd h₁ =>
      obtain ⟨l, hl, ht⟩ := h₁
      rw [templateTail]
      simp only [hl.read, ht, piece?]
      rfl

theorem template_returns {v : Template} (h : Reads input .template c v c') : Returns input .template c v c' := by
  apply returned
  cases h with
  | template h₁ h₂ =>
      obtain ⟨_, hr₂⟩ := ih h₂ h₁.size_lt
      simp only [template, h₁.expect, hr₂, ok_bind]
      rfl

theorem parenthesized_returns {v : Expr} (h : Reads input .parenthesized c v c') :
    Returns input .parenthesized c v c' := by
  apply returned
  cases h with
  | parenthesized h₁ h₂ h₃ =>
      obtain ⟨_, hr₂⟩ := ih h₂ h₁.size_lt
      simp only [parenthesized, h₁.expect, hr₂, h₃.expect, ok_bind]
      rfl

theorem primary_returns {v : Expr} (h : Reads input .primary c v c') : Returns input .primary c v c' := by
  apply returned
  cases h with
  | templateExpr h₁ =>
      obtain ⟨l, c₂, hl, ht⟩ := h₁.backtick
      obtain ⟨_, hr₁⟩ := template_returns ih h₁
      simp only [primary, hl.read, ht, hr₁, ok_bind]
      rfl
  | ident h₁ =>
      obtain ⟨l, hl, ht, hpos⟩ := h₁
      simp only [primary, hl.read, ht, ← hpos]
      rfl
  | literal h₁ hv =>
      obtain ⟨l, hl, rfl⟩ := h₁
      simp only [primary, hl.read]
      unfold Literal.ofToken? at hv
      split at hv <;> cases hv <;> rename_i ht <;> simp only [ht] <;> rfl
  | group h₁ h₂ h₃ =>
      obtain ⟨l, hl, ht⟩ := h₁
      obtain ⟨_, hr₂⟩ := ih h₂ hl.size_lt
      simp only [primary, hl.read, ht, hr₂, h₃.expect, ok_bind]
      rfl
  | array h₁ h₂ =>
      obtain ⟨l, hl, ht⟩ := h₁
      obtain ⟨_, hr₂⟩ := ih h₂ hl.size_lt
      simp only [primary, hl.read, ht, hr₂, ok_bind]
      rfl
  | object h₁ h₂ =>
      obtain ⟨l, hl, ht⟩ := h₁
      obtain ⟨_, hr₂⟩ := ih h₂ hl.size_lt
      simp only [primary, hl.read, ht, hr₂, ok_bind]
      rfl

theorem accessTail_returns {start : Nat} {e v : Expr} (h : Reads input (.accessTail start e) c v c') :
    Returns input (.accessTail start e) c v c' := by
  apply returned
  cases h with
  | member h₁ h₂ h₃ =>
      obtain ⟨l, hl, ht⟩ := h₁
      obtain ⟨_, hr₃⟩ := ih h₃ (Cursor.size_trans h₂.size_lt hl.size_lt)
      rw [accessTail]
      simp only [hl.read, ht, h₂.propertyName, ok_bind, Cursor.finish]
      simp only [Cursor.node, Cursor.tick] at hr₃
      simp only [hr₃, ok_bind]
      rfl
  | index h₁ h₂ h₃ h₄ =>
      obtain ⟨l, hl, ht⟩ := h₁
      obtain ⟨hsize, hr₂⟩ := ih h₂ hl.size_lt
      obtain ⟨_, hr₄⟩ := ih h₄ (Cursor.size_trans h₃.size_lt (Cursor.size_trans hsize hl.size_lt))
      rw [accessTail]
      simp only [hl.read, ht, hr₂, h₃.expect, ok_bind, Cursor.finish]
      simp only [Cursor.node, Cursor.tick] at hr₄
      simp only [hr₄, ok_bind]
      rfl
  | call h₁ h₂ h₃ =>
      obtain ⟨l, hl, ht⟩ := h₁
      obtain ⟨hsize, hr₂⟩ := ih h₂ hl.size_lt
      obtain ⟨_, hr₃⟩ := ih h₃ (Cursor.size_trans hsize hl.size_lt)
      rw [accessTail]
      simp only [hl.read, ht, hr₂, ok_bind, Cursor.finish]
      simp only [Cursor.node, Cursor.tick] at hr₃
      simp only [hr₃, ok_bind]
      rfl
  | tagged h₁ h₂ =>
      obtain ⟨l, c₂, hl, ht⟩ := h₁.backtick
      obtain ⟨hsize, hr₁⟩ := template_returns ih h₁
      obtain ⟨_, hr₂⟩ := ih h₂ hsize
      rw [accessTail]
      simp only [hl.read, ht, hr₁, ok_bind, Cursor.finish]
      simp only [Cursor.node, Cursor.tick] at hr₂
      simp only [hr₂, ok_bind]
      rfl
  | noAccess hn =>
      rw [accessTail_eq_self hn]
      rfl

theorem access_returns {v : Expr} (h : Reads input .access c v c') : Returns input .access c v c' := by
  apply returned
  cases h with
  | accessed h₁ h₂ =>
      obtain ⟨hsize, hr₁⟩ := primary_returns ih h₁
      obtain ⟨_, hr₂⟩ := ih h₂ hsize
      simp only [access, hr₁, hr₂, ok_bind]
      rfl

theorem unary_returns {v : Expr} (h : Reads input .unary c v c') : Returns input .unary c v c' := by
  apply returned
  cases h with
  | negativeNumber h₁ h₂ =>
      obtain ⟨l, hl, ht⟩ := h₁
      obtain ⟨⟨t, start, stop, afterBreak⟩, hl₂, rfl⟩ := h₂
      rw [unary]
      simp only [hl.read, ht, UnaryOp.ofSymbol?, hl₂.read]
      rfl
  | sign h₁ hop hn h₂ =>
      obtain ⟨l, hl, ht⟩ := h₁
      obtain ⟨_, hr₂⟩ := ih h₂ hl.size_lt
      rw [unary]
      simp only [hl.read, ht, hop]
      split
      · rename_i hread
        exact absurd ⟨rfl, by simp [Cursor.atNumber, (Cursor.Passes.of_read hread).peek]⟩ hn
      · simp only [hr₂, ok_bind]
        rfl
  | noSign hn h₁ =>
      obtain ⟨_, hr₁⟩ := access_returns ih h₁
      rw [unary_eq_access hn, hr₁]
      rfl

theorem exponent_returns {v : Expr} (h : Reads input .exponent c v c') : Returns input .exponent c v c' := by
  apply returned
  cases h with
  | power h₁ h₂ h₃ =>
      obtain ⟨hsize, hr₁⟩ := unary_returns ih h₁
      obtain ⟨_, hr₃⟩ := ih h₃ (Cursor.size_trans h₂.size_lt hsize)
      rw [exponent]
      simp only [hr₁, h₂.eat, hr₃, ok_bind]
      rfl
  | noPower h₁ hn =>
      obtain ⟨_, hr₁⟩ := unary_returns ih h₁
      rw [exponent]
      simp only [hr₁, Cursor.eat_eq_none_iff.mpr hn, ok_bind]
      rfl

theorem binaryTail_returns {level start : Nat} {left v : Expr} (h : Reads input (.binaryTail level start left) c v c') :
    Returns input (.binaryTail level start left) c v c' := by
  apply returned
  cases h with
  | operator h₁ hop h₂ h₃ =>
      obtain ⟨l, hl, ht⟩ := h₁
      obtain ⟨hsize, hr₂⟩ := ih h₂ hl.size_lt
      obtain ⟨_, hr₃⟩ := ih h₃ (Cursor.size_trans hsize hl.size_lt)
      rw [binaryTail]
      simp only [hl.read, ht, hop, hr₂, ok_bind, Cursor.finish]
      simp only [Cursor.node, Cursor.tick] at hr₃
      simp only [hr₃, ok_bind]
      rfl
  | noOperator hn =>
      rw [binaryTail_eq_left hn]
      rfl

/-- Seven levels are read at one cursor, so the induction is on the levels above. -/
theorem binary_returns {level : Nat} {v : Expr} (h : Reads input (.binary level) c v c') :
    Returns input (.binary level) c v c' := by
  induction hk : 6 - level generalizing level v c' with
  | zero =>
      cases h with
      | operands hlevel => omega
      | tightest hlevel h₁ =>
          obtain ⟨_, hr₁⟩ := exponent_returns ih h₁
          apply returned
          rw [binary, if_neg hlevel, hr₁]
          rfl
  | succ k ihk =>
      cases h with
      | operands hlevel h₁ h₂ =>
          obtain ⟨hsize, hr₁⟩ := ihk h₁ (by omega)
          obtain ⟨_, hr₂⟩ := ih h₂ hsize
          apply returned
          rw [binary, if_pos hlevel]
          simp only [hr₁, hr₂, ok_bind]
          rfl
      | tightest hlevel => omega

theorem conditional_returns {v : Expr} (h : Reads input .conditional c v c') : Returns input .conditional c v c' := by
  apply returned
  cases h with
  | ternary h₁ h₂ h₃ h₄ h₅ =>
      obtain ⟨htest, hr₁⟩ := binary_returns ih h₁
      have hbranch := Cursor.size_trans h₂.size_lt htest
      obtain ⟨he, hr₃⟩ := ih h₃ hbranch
      obtain ⟨_, hr₅⟩ := ih h₅ (Cursor.size_trans h₄.size_lt (Cursor.size_trans he hbranch))
      simp only [conditional, hr₁, h₂.eat, hr₃, h₄.expect, hr₅, ok_bind]
      rfl
  | noTernary h₁ hn =>
      obtain ⟨_, hr₁⟩ := binary_returns ih h₁
      simp only [conditional, hr₁, Cursor.eat_eq_none_iff.mpr hn, ok_bind]
      rfl

theorem arrow_returns {v : Expr} (h : Reads input .arrow c v c') : Returns input .arrow c v c' := by
  apply returned
  cases h with
  | blockArrow h₁ h₂ h₃ h₄ =>
      obtain ⟨hsize, hr₁⟩ := arrowParams_returns ih h₁
      obtain ⟨_, hr₄⟩ := ih h₄ (Cursor.size_trans h₃.size_lt (Cursor.size_trans h₂.size_lt hsize))
      simp only [arrow, hr₁, h₂.expect, h₃.eat, hr₄, ok_bind]
      rfl
  | exprArrow h₁ h₂ hn h₃ =>
      obtain ⟨hsize, hr₁⟩ := arrowParams_returns ih h₁
      obtain ⟨_, hr₃⟩ := ih h₃ (Cursor.size_trans h₂.size_lt hsize)
      simp only [arrow, hr₁, h₂.expect, Cursor.eat_eq_none_iff.mpr hn, hr₃, ok_bind]
      rfl

theorem assignment_returns {v : Expr} (h : Reads input .assignment c v c') : Returns input .assignment c v c' := by
  apply returned
  cases h with
  | arrowExpr ha h₁ =>
      obtain ⟨_, hr₁⟩ := arrow_returns ih h₁
      rw [assignment, if_pos ha, hr₁]
      rfl
  | assign ha h₁ h₂ h₃ =>
      obtain ⟨hsize, hr₁⟩ := conditional_returns ih h₁
      obtain ⟨_, hr₃⟩ := ih h₃ (Cursor.size_trans h₂.size_lt hsize)
      rw [assignment]
      simp only [ha, Bool.false_eq_true, if_false, hr₁, h₂.eat, hr₃, ok_bind]
      rfl
  | noAssign ha h₁ hn =>
      obtain ⟨_, hr₁⟩ := conditional_returns ih h₁
      rw [assignment]
      simp only [ha, Bool.false_eq_true, if_false, hr₁, Cursor.eat_eq_none_iff.mpr hn, ok_bind]
      rfl

theorem exprs_returns {s : Symbol} {v : List Expr} (h : Reads input (.exprs s) c v c') :
    Returns input (.exprs s) c v c' := by
  apply returned
  cases h with
  | exprsEnd h₁ =>
      rw [exprs, h₁.eat]
      rfl
  | exprsMore hn h₁ h₂ h₃ =>
      obtain ⟨hsize, hr₁⟩ := assignment_returns ih h₁
      obtain ⟨_, hr₃⟩ := ih h₃ (Cursor.size_trans h₂.size_lt hsize)
      rw [exprs, Cursor.eat_eq_none_iff.mpr hn]
      simp only [hr₁, h₂.eat, hr₃, ok_bind]
      rfl
  | exprsLast hn h₁ hn₁ h₂ =>
      obtain ⟨_, hr₁⟩ := assignment_returns ih h₁
      rw [exprs, Cursor.eat_eq_none_iff.mpr hn]
      simp only [hr₁, Cursor.eat_eq_none_iff.mpr hn₁, h₂.expect, ok_bind]
      rfl

theorem propertyValue_returns {v : Expr} (h : Reads input .propertyValue c v c') :
    Returns input .propertyValue c v c' := by
  apply returned
  cases h with
  | propertyValue h₁ h₂ =>
      obtain ⟨_, hr₂⟩ := ih h₂ h₁.size_lt
      simp only [propertyValue, h₁.expect, hr₂, ok_bind]
      rfl

theorem property_returns {v : Property} (h : Reads input .property c v c') : Returns input .property c v c' := by
  apply returned
  cases h with
  | @literalKey _ l _ _ _ _ h₁ hv h₂ =>
      obtain ⟨_, hr₂⟩ := ih h₂ h₁.size_lt
      obtain ⟨t, start, stop, afterBreak⟩ := l
      unfold Literal.ofKey? at hv
      split at hv <;> cases hv <;> rename_i ht <;> cases ht <;> simp only [property, h₁.read, hr₂, ok_bind] <;> rfl
  | computedKey h₁ h₂ h₃ h₄ =>
      obtain ⟨⟨t, start, stop, afterBreak⟩, hl, rfl⟩ := h₁
      obtain ⟨hsize, hr₂⟩ := ih h₂ hl.size_lt
      obtain ⟨_, hr₄⟩ := ih h₄ (Cursor.size_trans h₃.size_lt (Cursor.size_trans hsize hl.size_lt))
      simp only [property, hl.read, hr₂, h₃.expect, hr₄, ok_bind]
      rfl
  | shorthand h₁ hend =>
      rw [property_eq_of_label h₁]
      simp only [Cursor.atShorthandEnd] at hend
      simp only [h₁.propertyName, hend, if_true, ok_bind]
      rfl
  | namedKey h₁ hend h₂ =>
      obtain ⟨_, hr₂⟩ := ih h₂ h₁.size_lt
      rw [property_eq_of_label h₁]
      simp only [Cursor.atShorthandEnd] at hend
      simp only [h₁.propertyName, hend, Bool.false_eq_true, if_false, hr₂, ok_bind]
      rfl

theorem properties_returns {v : List Property} (h : Reads input .properties c v c') :
    Returns input .properties c v c' := by
  apply returned
  cases h with
  | propertiesEnd h₁ =>
      rw [properties, h₁.eat]
      rfl
  | propertiesMore h₁ h₂ h₃ =>
      obtain ⟨hsize, hr₁⟩ := property_returns ih h₁
      obtain ⟨_, hr₃⟩ := ih h₃ (Cursor.size_trans h₂.size_lt hsize)
      rw [properties, Cursor.eat_eq_none_iff.mpr h₁.not_atBrace]
      simp only [hr₁, h₂.eat, hr₃, ok_bind]
      rfl
  | propertiesLast h₁ hn h₂ =>
      obtain ⟨_, hr₁⟩ := property_returns ih h₁
      rw [properties, Cursor.eat_eq_none_iff.mpr h₁.not_atBrace]
      simp only [hr₁, Cursor.eat_eq_none_iff.mpr hn, h₂.expect, ok_bind]
      rfl

theorem declarator_returns {v : Declarator} (h : Reads input .declarator c v c') :
    Returns input .declarator c v c' := by
  apply returned
  cases h with
  | initialized h₁ h₂ h₃ =>
      obtain ⟨hsize, hr₁⟩ := pattern_returns ih h₁
      obtain ⟨_, hr₃⟩ := ih h₃ (Cursor.size_trans h₂.size_lt hsize)
      simp only [declarator, hr₁, h₂.eat, hr₃, ok_bind]
      rfl
  | uninitialized h₁ hn =>
      obtain ⟨_, hr₁⟩ := pattern_returns ih h₁
      simp only [declarator, hr₁, Cursor.eat_eq_none_iff.mpr hn, ok_bind]
      rfl

theorem declarators_returns {v : List Declarator} (h : Reads input .declarators c v c') :
    Returns input .declarators c v c' := by
  apply returned
  cases h with
  | declaratorsMore h₁ h₂ h₃ =>
      obtain ⟨hsize, hr₁⟩ := declarator_returns ih h₁
      obtain ⟨_, hr₃⟩ := ih h₃ (Cursor.size_trans h₂.size_lt hsize)
      rw [declarators]
      simp only [hr₁, h₂.eat, hr₃, ok_bind]
      rfl
  | declaratorsLast h₁ hn =>
      obtain ⟨_, hr₁⟩ := declarator_returns ih h₁
      rw [declarators]
      simp only [hr₁, Cursor.eat_eq_none_iff.mpr hn, ok_bind]
      rfl

theorem statement_returns {v : Option Stmt} (h : Reads input .statement c v c') :
    Returns input .statement c v c' := by
  apply returned
  cases h with
  | empty h₁ =>
      obtain ⟨l, hl, ht⟩ := h₁
      rw [statement]
      simp only [hl.read, ht]
      rfl
  | returnNothing h₁ hends =>
      obtain ⟨l, hl, ht⟩ := h₁
      rw [statement]
      simp only [hl.read, ht, hends, if_true]
      exact map_finishStatement ..
  | returnValue h₁ hends h₂ =>
      obtain ⟨l, hl, ht⟩ := h₁
      obtain ⟨_, hr₂⟩ := ih h₂ hl.size_lt
      rw [statement]
      simp only [hl.read, ht, hends, Bool.false_eq_true, if_false, hr₂, ok_bind, map_finishStatement]
  | blockStatement h₁ h₂ =>
      obtain ⟨l, hl, ht⟩ := h₁
      obtain ⟨_, hr₂⟩ := ih h₂ hl.size_lt
      rw [statement]
      simp only [hl.read, ht, hr₂, ok_bind, map_finishStatement]
  | ifElse h₁ h₂ h₃ h₄ h₅ =>
      obtain ⟨l, hl, ht⟩ := h₁
      obtain ⟨htest, hr₂⟩ := ih h₂ hl.size_lt
      have hbranch := Cursor.size_trans htest hl.size_lt
      obtain ⟨hs, hr₃⟩ := ih h₃ hbranch
      obtain ⟨_, hr₅⟩ := ih h₅ (Cursor.size_trans h₄.size_lt (Cursor.size_trans hs hbranch))
      rw [statement]
      simp only [hl.read, ht, hr₂, hr₃, h₄.eatKeyword, hr₅, ok_bind, map_finishStatement]
  | ifOnly h₁ h₂ h₃ hn =>
      obtain ⟨l, hl, ht⟩ := h₁
      obtain ⟨htest, hr₂⟩ := ih h₂ hl.size_lt
      obtain ⟨_, hr₃⟩ := ih h₃ (Cursor.size_trans htest hl.size_lt)
      rw [statement]
      simp only [hl.read, ht, hr₂, hr₃, Cursor.eatKeyword_eq_none_iff.mpr hn, ok_bind, map_finishStatement]
  | whileLoop h₁ h₂ h₃ =>
      obtain ⟨l, hl, ht⟩ := h₁
      obtain ⟨htest, hr₂⟩ := ih h₂ hl.size_lt
      obtain ⟨_, hr₃⟩ := ih h₃ (Cursor.size_trans htest hl.size_lt)
      rw [statement]
      simp only [hl.read, ht, hr₂, hr₃, ok_bind, map_finishStatement]
  | declaration h₁ hkind h₂ =>
      obtain ⟨l, hl, rfl⟩ := h₁
      obtain ⟨_, hr₂⟩ := ih h₂ hl.size_lt
      rw [statement]
      simp only [hl.read]
      split
      iterate 5
        rename_i ht
        rw [ht] at hkind
        cases hkind
      simp only [hkind, hr₂, ok_bind, map_finishStatement]
  | exprStatement hn h₁ =>
      obtain ⟨_, hr₁⟩ := assignment_returns ih h₁
      rw [statement_eq_of_not_atStatement hn]
      simp only [hr₁, ok_bind, map_finishStatement]

theorem required_returns {v : Stmt} (h : Reads input .required c v c') : Returns input .required c v c' := by
  apply returned
  cases h with
  | requiredSome h₁ =>
      obtain ⟨_, hr₁⟩ := statement_returns ih h₁
      simp only [requiredStatement, hr₁, ok_bind]
      rfl
  | requiredNone h₁ =>
      obtain ⟨_, hr₁⟩ := statement_returns ih h₁
      simp only [requiredStatement, hr₁, ok_bind]
      rfl

theorem block_returns {v : List Stmt} (h : Reads input .block c v c') : Returns input .block c v c' := by
  apply returned
  cases h with
  | blockEnd h₁ =>
      rw [block, h₁.eat]
      rfl
  | blockMore hn h₁ h₂ =>
      obtain ⟨hs, hr₁⟩ := statement_returns ih h₁
      obtain ⟨_, hr₂⟩ := ih h₂ hs
      rw [block, Cursor.eat_eq_none_iff.mpr hn]
      simp only [Cursor.isEmpty_of_size_lt hs, Bool.false_eq_true, if_false, hr₁, hr₂, ok_bind]
      rfl

theorem returns_of_nearer {p : Phrase} {v : p.Value} (h : Reads input p c v c') : Returns input p c v c' := by
  cases p
  case names => exact names_returns ih h
  case pattern => exact pattern_returns ih h
  case params => exact params_returns ih h
  case arrowParams => exact arrowParams_returns ih h
  case statement => exact statement_returns ih h
  case required => exact required_returns ih h
  case block => exact block_returns ih h
  case declarators => exact declarators_returns ih h
  case declarator => exact declarator_returns ih h
  case parenthesized => exact parenthesized_returns ih h
  case assignment => exact assignment_returns ih h
  case arrow => exact arrow_returns ih h
  case conditional => exact conditional_returns ih h
  case binary => exact binary_returns ih h
  case binaryTail => exact binaryTail_returns ih h
  case exponent => exact exponent_returns ih h
  case unary => exact unary_returns ih h
  case access => exact access_returns ih h
  case accessTail => exact accessTail_returns ih h
  case exprs => exact exprs_returns ih h
  case primary => exact primary_returns ih h
  case properties => exact properties_returns ih h
  case property => exact property_returns ih h
  case propertyValue => exact propertyValue_returns ih h
  case template => exact template_returns ih h
  case templateTail => exact templateTail_returns ih h

end

/-- What the grammar reads the parser returns. -/
theorem returns {input : Input} {p : Phrase} {c : Cursor} {v : p.Value} {c' : Cursor} (h : Reads input p c v c') :
    Returns input p c v c' := by
  apply returns_of_nearer _ h
  intro p₁ c₁ v₁ c₂ h₁ _
  exact returns h₁
termination_by c.size

theorem returns_iff {input : Input} {p : Phrase} {c : Cursor} {v : p.Value} {c' : Cursor} :
    Returns input p c v c' ↔ Reads input p c v c' :=
  ⟨follows input c, returns⟩

end Parser

section

variable {input : Input} {p : Phrase} {c : Cursor} {v : p.Value} {c' : Cursor}

/-- All phrases but the tails take a lexeme. -/
theorem Reads.size_lt (h : Reads input p c v c') : p.isTail = true ∨ c'.size < c.size := by
  have hreturns := Parser.returns h
  cases p <;> obtain ⟨hsize, -⟩ := hreturns <;> first | exact .inr hsize | exact .inl rfl

theorem Reads.shrinks (h : Reads input p c v c') (hp : p.isTail = false) : c'.size < c.size := by
  refine h.size_lt.resolve_left ?_
  rw [hp]
  exact Bool.false_ne_true

end

/-! Scripts are statements up to the end. -/

namespace Parser

variable {input : Input} {c c₁ : Cursor} {ss : List Stmt}

theorem statements_nil (h : c.rest = []) : statements input c = .ok [] := by
  rw [statements, h]
  rfl

theorem statements_cons {s : Option Stmt} (hs : Reads input .statement c s c₁) (hss : statements input c₁ = .ok ss) :
    statements input c = .ok (s.toList ++ ss) := by
  obtain ⟨hlt, hparsed⟩ := returns hs
  rw [statements, Cursor.isEmpty_of_size_lt hlt, hparsed]
  simp only [Bool.false_eq_true, if_false, ok_bind, hss]
  rfl

theorem statements_cases (h : statements input c = .ok ss) :
    (c.rest = [] ∧ ss = []) ∨ ∃ s c₁ ss', Reads input .statement c s c₁ ∧ c₁.size < c.size ∧
      statements input c₁ = .ok ss' ∧ ss = s.toList ++ ss' := by
  rw [statements] at h
  split at h
  · rename_i hnil
    cases h
    exact .inl ⟨List.isEmpty_iff.mp hnil, rfl⟩
  · obtain ⟨⟨s, c₁, h₁⟩, hs, h⟩ := bind_eq_ok h
    obtain ⟨ss', hss', h⟩ := bind_eq_ok h
    cases h
    exact .inr ⟨s, c₁, ss', follows input c ⟨h₁, hs⟩, h₁, hss', rfl⟩

end Parser

theorem Script.statements_of_parse {file : Nat} {source : String} {s : Script} (h : Script.parse file source = .ok s) :
    Parser.statements ⟨file, source.utf8ByteSize⟩ ⟨(lex source).lexemes, none, 0⟩ = .ok s.body ∧
      s.pos = some (.ofRange file 0 source.utf8ByteSize) := by
  unfold Script.parse at h
  dsimp only at h
  split at h
  · cases h
  · obtain ⟨body, hbody, h⟩ := bind_eq_ok h
    cases h
    exact ⟨hbody, rfl⟩

end ScriptTypes
