import ScriptTypes.Proofs.Except
import ScriptTypes.Proofs.Script.Grammar

/-! The parser keeps to the grammar: what its readers return for a phrase is read by a production. Each reader is taken
at a cursor, given that all of them keep to the grammar from nearer cursors on. -/

namespace ScriptTypes

namespace Parser

/-- What the reader of a phrase returns. -/
def Returns (input : Input) : (p : Phrase) → Cursor → p.Value → Cursor → Prop
  | .names s, c, v, c' => ∃ h, patternIdents input s c = .ok ⟨v, c', h⟩
  | .pattern, c, v, c' => ∃ h, pattern input c = .ok ⟨v, c', h⟩
  | .params, c, v, c' => ∃ h, params input c = .ok ⟨v, c', h⟩
  | .arrowParams, c, v, c' => ∃ h, arrowParams input c = .ok ⟨v, c', h⟩
  | .statement, c, v, c' => ∃ h, statement input c = .ok ⟨v, c', h⟩
  | .required, c, v, c' => ∃ h, requiredStatement input c = .ok ⟨v, c', h⟩
  | .block, c, v, c' => ∃ h, block input c = .ok ⟨v, c', h⟩
  | .declarators, c, v, c' => ∃ h, declarators input c = .ok ⟨v, c', h⟩
  | .declarator, c, v, c' => ∃ h, declarator input c = .ok ⟨v, c', h⟩
  | .parenthesized, c, v, c' => ∃ h, parenthesized input c = .ok ⟨v, c', h⟩
  | .assignment, c, v, c' => ∃ h, assignment input c = .ok ⟨v, c', h⟩
  | .arrow, c, v, c' => ∃ h, arrow input c = .ok ⟨v, c', h⟩
  | .conditional, c, v, c' => ∃ h, conditional input c = .ok ⟨v, c', h⟩
  | .binary level, c, v, c' => ∃ h, binary input level c = .ok ⟨v, c', h⟩
  | .binaryTail level start left, c, v, c' => ∃ h, binaryTail input level start left c = .ok ⟨v, c', h⟩
  | .exponent, c, v, c' => ∃ h, exponent input c = .ok ⟨v, c', h⟩
  | .unary, c, v, c' => ∃ h, unary input c = .ok ⟨v, c', h⟩
  | .access, c, v, c' => ∃ h, access input c = .ok ⟨v, c', h⟩
  | .accessTail start e, c, v, c' => ∃ h, accessTail input start e c = .ok ⟨v, c', h⟩
  | .exprs s, c, v, c' => ∃ h, exprs input s c = .ok ⟨v, c', h⟩
  | .primary, c, v, c' => ∃ h, primary input c = .ok ⟨v, c', h⟩
  | .properties, c, v, c' => ∃ h, properties input c = .ok ⟨v, c', h⟩
  | .property, c, v, c' => ∃ h, property input c = .ok ⟨v, c', h⟩
  | .propertyValue, c, v, c' => ∃ h, propertyValue input c = .ok ⟨v, c', h⟩
  | .template, c, v, c' => ∃ h, template input c = .ok ⟨v, c', h⟩
  | .templateTail current, c, v, c' => ∃ h, templateTail input current c = .ok ⟨v, c', h⟩

/-- Whatever is read from a cursor on is read by the grammar. -/
def Follows (input : Input) (c : Cursor) : Prop :=
  ∀ {p v c'}, Returns input p c v c' → Reads input p c v c'

theorem finishStatement_eq {n : Nat} (input : Input) (c : Cursor) (start : Nat) (build : Node → Stmt) (h : c.size < n)
    (hn : (c.past .semicolon).tick.size < n) :
    finishStatement input c start build h =
      ⟨some (build ((c.past .semicolon).node input start)), (c.past .semicolon).tick, hn⟩ := by
  have hnext := c.skip_next .semicolon h
  unfold finishStatement
  split
  rename_i heq
  rw [heq] at hnext
  cases hnext
  rfl

theorem size_past_le (c : Cursor) (s : Symbol) : (c.past s).size ≤ c.size := by
  unfold Cursor.past
  split
  · rename_i p _
    exact Nat.le_of_lt p.within
  · exact Nat.le_refl _

/-- The statement that has been finished, from what finishing it gives. -/
theorem of_finishStatement {n : Nat} {input : Input} {c c' : Cursor} {start : Nat} {build : Node → Stmt}
    {h : c.size < n} {v : Option Stmt} {hc : c'.size < n} (hf : finishStatement input c start build h = ⟨v, c', hc⟩) :
    v = some (build ((c.past .semicolon).node input start)) ∧ c' = (c.past .semicolon).tick := by
  rw [finishStatement_eq input c start build h (Nat.lt_of_le_of_lt (size_past_le c .semicolon) h)] at hf
  cases hf
  exact ⟨rfl, rfl⟩

/-! Each reader at a cursor, given that all readers follow the grammar from nearer cursors on. -/

section

variable {input : Input} {c c' : Cursor} (ih : ∀ c₁ : Cursor, c₁.size < c.size → Follows input c₁)

include ih

theorem names_reads {s : Symbol} {v : List Ident} {hc : c'.size < c.size}
    (h : patternIdents input s c = .ok ⟨v, c', hc⟩) : Reads input (.names s) c v c' := by
  rw [patternIdents] at h
  split at h
  · rename_i heat
    cases h
    exact .namesEnd (.of_eat heat)
  · obtain ⟨⟨id, c₁, h₁⟩, hid, h⟩ := bind_eq_ok h
    dsimp only at h
    split at h
    · rename_i c₂ h₂ hcomma
      obtain ⟨⟨ids, c₃, h₃⟩, hids, h⟩ := bind_eq_ok h
      cases h
      exact .namesMore (.of_ident hid) (.of_eat hcomma) (ih c₂ (by omega) ⟨h₃, hids⟩)
    · rename_i hcomma
      obtain ⟨⟨_, c₂, h₂⟩, hclose, h⟩ := bind_eq_ok h
      cases h
      exact .namesLast (.of_ident hid) (Cursor.eat_eq_none_iff.mp hcomma) (.of_expect hclose)

theorem pattern_reads {v : Pattern} {hc : c'.size < c.size} (h : pattern input c = .ok ⟨v, c', hc⟩) :
    Reads input .pattern c v c' := by
  rw [pattern] at h
  split at h
  · rename_i c₁ h₁ hopen
    obtain ⟨⟨ids, c₂, h₂⟩, hids, h⟩ := bind_eq_ok h
    cases h
    exact .objectPattern (.of_eat hopen) (ih c₁ h₁ ⟨h₂, hids⟩)
  · split at h
    · rename_i c₁ h₁ hopen
      obtain ⟨⟨ids, c₂, h₂⟩, hids, h⟩ := bind_eq_ok h
      cases h
      exact .arrayPattern (.of_eat hopen) (ih c₁ h₁ ⟨h₂, hids⟩)
    · obtain ⟨⟨id, c₁, h₁⟩, hid, h⟩ := bind_eq_ok h
      cases h
      exact .identPattern (.of_ident hid)

theorem params_reads {v : List Pattern} {hc : c'.size < c.size} (h : params input c = .ok ⟨v, c', hc⟩) :
    Reads input .params c v c' := by
  rw [params] at h
  split at h
  · rename_i heat
    cases h
    exact .paramsEnd (.of_eat heat)
  · obtain ⟨⟨p, c₁, h₁⟩, hp, h⟩ := bind_eq_ok h
    dsimp only at h
    split at h
    · rename_i c₂ h₂ hcomma
      obtain ⟨⟨ps, c₃, h₃⟩, hps, h⟩ := bind_eq_ok h
      cases h
      exact .paramsMore (pattern_reads ih hp) (.of_eat hcomma) (ih c₂ (by omega) ⟨h₃, hps⟩)
    · rename_i hcomma
      obtain ⟨⟨_, c₂, h₂⟩, hclose, h⟩ := bind_eq_ok h
      cases h
      exact .paramsLast (pattern_reads ih hp) (Cursor.eat_eq_none_iff.mp hcomma) (.of_expect hclose)

theorem arrowParams_reads {v : List Pattern} {hc : c'.size < c.size} (h : arrowParams input c = .ok ⟨v, c', hc⟩) :
    Reads input .arrowParams c v c' := by
  rw [arrowParams] at h
  split at h
  · rename_i c₁ h₁ hopen
    obtain ⟨⟨ps, c₂, h₂⟩, hps, h⟩ := bind_eq_ok h
    cases h
    exact .paramList (.of_eat hopen) (ih c₁ h₁ ⟨h₂, hps⟩)
  · obtain ⟨⟨id, c₁, h₁⟩, hid, h⟩ := bind_eq_ok h
    cases h
    exact .bareParam (.of_ident hid)

theorem templateTail_reads {current : String} {v : List String × List Expr} {hc : c'.size < c.size}
    (h : templateTail input current c = .ok ⟨v, c', hc⟩) : Reads input (.templateTail current) c v c' := by
  rw [templateTail] at h
  split at h
  · rename_i l c₁ h₁ hread
    have hl := Cursor.Passes.of_read hread
    split at h
    · rename_i piece hpiece
      obtain ⟨⟨parts, c₂, h₂⟩, hparts, h⟩ := bind_eq_ok h
      cases h
      exact .templateText ⟨l, hl, rfl⟩ hpiece (ih c₁ h₁ ⟨h₂, hparts⟩)
    · rename_i hpiece
      have ht : l.token = .interpolation := by
        unfold piece? at hpiece
        split at hpiece <;> simp_all
      obtain ⟨⟨e, c₂, h₂⟩, he, h⟩ := bind_eq_ok h
      obtain ⟨⟨_, c₃, h₃⟩, hclose, h⟩ := bind_eq_ok h
      obtain ⟨⟨⟨texts, es⟩, c₄, h₄⟩, hparts, h⟩ := bind_eq_ok h
      cases h
      exact .interpolation (v := (texts, es)) ⟨l, hl, ht⟩ (ih c₁ h₁ ⟨h₂, he⟩) (.of_expect hclose)
        (ih c₃ (by omega) ⟨h₄, hparts⟩)
    · rename_i hpiece
      have ht : l.token = .templateEnd := by
        unfold piece? at hpiece
        split at hpiece <;> simp_all
      cases h
      exact .templateEnd ⟨l, hl, ht⟩
    · cases h
  · cases h

theorem template_reads {v : Template} {hc : c'.size < c.size} (h : template input c = .ok ⟨v, c', hc⟩) :
    Reads input .template c v c' := by
  rw [template] at h
  obtain ⟨⟨_, c₁, h₁⟩, hopen, h⟩ := bind_eq_ok h
  obtain ⟨⟨⟨texts, es⟩, c₂, h₂⟩, hparts, h⟩ := bind_eq_ok h
  cases h
  exact .template (v := (texts, es)) (.of_expect hopen) (ih c₁ h₁ ⟨h₂, hparts⟩)

theorem parenthesized_reads {v : Expr} {hc : c'.size < c.size} (h : parenthesized input c = .ok ⟨v, c', hc⟩) :
    Reads input .parenthesized c v c' := by
  rw [parenthesized] at h
  obtain ⟨⟨_, c₁, h₁⟩, hopen, h⟩ := bind_eq_ok h
  obtain ⟨⟨e, c₂, h₂⟩, he, h⟩ := bind_eq_ok h
  obtain ⟨⟨_, c₃, h₃⟩, hclose, h⟩ := bind_eq_ok h
  cases h
  exact .parenthesized (.of_expect hopen) (ih c₁ h₁ ⟨h₂, he⟩) (.of_expect hclose)

theorem primary_reads {v : Expr} {hc : c'.size < c.size} (h : primary input c = .ok ⟨v, c', hc⟩) :
    Reads input .primary c v c' := by
  rw [primary] at h
  split at h
  · cases h
  · rename_i l c₁ h₁ hread
    have hl := Cursor.Passes.of_read hread
    split at h
    · obtain ⟨⟨quasi, c₂, h₂⟩, hquasi, h⟩ := bind_eq_ok h
      cases h
      exact .templateExpr (template_reads ih hquasi)
    · rename_i name ht
      cases h
      exact .ident ⟨l, hl, ht, rfl⟩
    · rename_i n ht
      cases h
      exact .literal ⟨l, hl, ht⟩ rfl
    · rename_i s ht
      cases h
      exact .literal ⟨l, hl, ht⟩ rfl
    · rename_i ht
      cases h
      exact .literal ⟨l, hl, ht⟩ rfl
    · rename_i ht
      cases h
      exact .literal ⟨l, hl, ht⟩ rfl
    · rename_i ht
      obtain ⟨⟨e, c₂, h₂⟩, he, h⟩ := bind_eq_ok h
      obtain ⟨⟨_, c₃, h₃⟩, hclose, h⟩ := bind_eq_ok h
      cases h
      exact .group ⟨l, hl, ht⟩ (ih c₁ h₁ ⟨h₂, he⟩) (.of_expect hclose)
    · rename_i ht
      obtain ⟨⟨es, c₂, h₂⟩, hes, h⟩ := bind_eq_ok h
      cases h
      exact .array ⟨l, hl, ht⟩ (ih c₁ h₁ ⟨h₂, hes⟩)
    · rename_i ht
      obtain ⟨⟨ps, c₂, h₂⟩, hps, h⟩ := bind_eq_ok h
      cases h
      exact .object ⟨l, hl, ht⟩ (ih c₁ h₁ ⟨h₂, hps⟩)
    · cases h

theorem accessTail_reads {start : Nat} {e v : Expr} {hc : c'.size < c.size + 1}
    (h : accessTail input start e c = .ok ⟨v, c', hc⟩) : Reads input (.accessTail start e) c v c' := by
  rw [accessTail] at h
  split at h
  · rename_i l c₁ h₁ hread
    have hl := Cursor.Passes.of_read hread
    split at h
    · rename_i ht
      obtain ⟨⟨label, c₂, h₂⟩, hlabel, h⟩ := bind_eq_ok h
      obtain ⟨⟨e₂, c₃, h₃⟩, he₂, h⟩ := bind_eq_ok h
      cases h
      have hsize : c₂.tick.size < c.size := Nat.lt_trans h₂ h₁
      exact .member ⟨l, hl, ht⟩ (.of_propertyName hlabel) (ih c₂.tick hsize ⟨h₃, he₂⟩)
    · rename_i ht
      obtain ⟨⟨key, c₂, h₂⟩, hkey, h⟩ := bind_eq_ok h
      obtain ⟨⟨_, c₃, h₃⟩, hclose, h⟩ := bind_eq_ok h
      obtain ⟨⟨e₂, c₄, h₄⟩, he₂, h⟩ := bind_eq_ok h
      cases h
      have hsize : c₃.tick.size < c.size := Nat.lt_trans h₃ (Nat.lt_trans h₂ h₁)
      exact .index ⟨l, hl, ht⟩ (ih c₁ h₁ ⟨h₂, hkey⟩) (.of_expect hclose) (ih c₃.tick hsize ⟨h₄, he₂⟩)
    · rename_i ht
      obtain ⟨⟨args, c₂, h₂⟩, hargs, h⟩ := bind_eq_ok h
      obtain ⟨⟨e₂, c₃, h₃⟩, he₂, h⟩ := bind_eq_ok h
      cases h
      have hsize : c₂.tick.size < c.size := Nat.lt_trans h₂ h₁
      exact .call ⟨l, hl, ht⟩ (ih c₁ h₁ ⟨h₂, hargs⟩) (ih c₂.tick hsize ⟨h₃, he₂⟩)
    · obtain ⟨⟨quasi, c₂, h₂⟩, hquasi, h⟩ := bind_eq_ok h
      obtain ⟨⟨e₂, c₃, h₃⟩, he₂, h⟩ := bind_eq_ok h
      cases h
      exact .tagged (template_reads ih hquasi) (ih c₂.tick h₂ ⟨h₃, he₂⟩)
    · cases h
      refine .noAccess ?_
      simp_all [Cursor.atAccess, Cursor.isAt, hl.peek]
  · rename_i hread
    cases h
    refine .noAccess ?_
    simp [Cursor.atAccess, Cursor.isAt, Cursor.peek, Cursor.read_eq_none_iff.mp hread]

theorem access_reads {v : Expr} {hc : c'.size < c.size} (h : access input c = .ok ⟨v, c', hc⟩) :
    Reads input .access c v c' := by
  rw [access] at h
  obtain ⟨⟨e, c₁, h₁⟩, he, h⟩ := bind_eq_ok h
  obtain ⟨⟨e', c₂, h₂⟩, he', h⟩ := bind_eq_ok h
  cases h
  exact .accessed (primary_reads ih he) (ih c₁ h₁ ⟨h₂, he'⟩)

theorem unary_reads {v : Expr} {hc : c'.size < c.size} (h : unary input c = .ok ⟨v, c', hc⟩) :
    Reads input .unary c v c' := by
  rw [unary] at h
  split at h
  · rename_i l c₁ h₁ hread
    have hl := Cursor.Passes.of_read hread
    split at h
    · rename_i s ht
      split at h
      · rename_i op hop
        split at h
        · rename_i n _ _ _ c₂ h₂ hread₂
          cases h
          have hs : s = .minus := by
            cases s <;> simp_all [UnaryOp.ofSymbol?]
          exact .negativeNumber ⟨l, hl, hs ▸ ht⟩ ⟨_, .of_read hread₂, rfl⟩
        · rename_i hn
          obtain ⟨⟨e, c₂, h₂⟩, he, h⟩ := bind_eq_ok h
          cases h
          refine .sign ⟨l, hl, ht⟩ hop ?_ (ih c₁ h₁ ⟨h₂, he⟩)
          rintro ⟨rfl, hnumber⟩
          obtain ⟨n, c₂, ⟨t, start, stop, afterBreak⟩, hl₂, ht₂⟩ := Cursor.takes_of_atNumber hnumber
          cases ht₂
          exact hn n start stop afterBreak c₂ hl₂.size_lt rfl hl₂.read
      · rename_i hop
        exact .noSign (by simp [Cursor.unaryOp?, hl.peek, ht, hop]) (access_reads ih h)
    · rename_i hs
      refine .noSign ?_ (access_reads ih h)
      unfold Cursor.unaryOp?
      split
      · rename_i s hpeek
        rw [hl.peek] at hpeek
        exact absurd (Option.some.inj hpeek) (hs s)
      · rfl
  · rename_i hread
    refine .noSign ?_ (access_reads ih h)
    simp [Cursor.unaryOp?, Cursor.peek, Cursor.read_eq_none_iff.mp hread]

theorem exponent_reads {v : Expr} {hc : c'.size < c.size} (h : exponent input c = .ok ⟨v, c', hc⟩) :
    Reads input .exponent c v c' := by
  rw [exponent] at h
  obtain ⟨⟨base, c₁, h₁⟩, hbase, h⟩ := bind_eq_ok h
  dsimp only at h
  split at h
  · rename_i c₂ h₂ heat
    obtain ⟨⟨e, c₃, h₃⟩, he, h⟩ := bind_eq_ok h
    cases h
    exact .power (unary_reads ih hbase) (.of_eat heat) (ih c₂ (by omega) ⟨h₃, he⟩)
  · rename_i heat
    cases h
    exact .noPower (unary_reads ih hbase) (Cursor.eat_eq_none_iff.mp heat)

theorem binaryTail_reads {level start : Nat} {left v : Expr} {hc : c'.size < c.size + 1}
    (h : binaryTail input level start left c = .ok ⟨v, c', hc⟩) :
    Reads input (.binaryTail level start left) c v c' := by
  rw [binaryTail] at h
  split at h
  · rename_i l c₁ h₁ hread
    have hl := Cursor.Passes.of_read hread
    split at h
    · rename_i s ht
      split at h
      · rename_i op hop
        obtain ⟨⟨right, c₂, h₂⟩, hright, h⟩ := bind_eq_ok h
        obtain ⟨⟨e, c₃, h₃⟩, he, h⟩ := bind_eq_ok h
        cases h
        have hsize : c₂.tick.size < c.size := Nat.lt_trans h₂ h₁
        exact .operator ⟨l, hl, ht⟩ hop (ih c₁ h₁ ⟨h₂, hright⟩) (ih c₂.tick hsize ⟨h₃, he⟩)
      · rename_i hop
        cases h
        exact .noOperator (by simp [Cursor.binaryOp?, hl.peek, ht, hop])
    · rename_i hs
      cases h
      refine .noOperator ?_
      unfold Cursor.binaryOp?
      split
      · rename_i s hpeek
        rw [hl.peek] at hpeek
        exact absurd (Option.some.inj hpeek) (hs s)
      · rfl
  · rename_i hread
    cases h
    refine .noOperator ?_
    simp [Cursor.binaryOp?, Cursor.peek, Cursor.read_eq_none_iff.mp hread]

/-- Seven levels are read at one cursor, so the induction is on the levels above. -/
theorem binary_reads {level : Nat} {v : Expr} {hc : c'.size < c.size} (h : binary input level c = .ok ⟨v, c', hc⟩) :
    Reads input (.binary level) c v c' := by
  induction hk : 6 - level generalizing level v c' with
  | zero =>
      have hlevel : ¬ level < 6 := by omega
      rw [binary, if_neg hlevel] at h
      exact .tightest hlevel (exponent_reads ih h)
  | succ k ihk =>
      have hlevel : level < 6 := by omega
      rw [binary, if_pos hlevel] at h
      obtain ⟨⟨left, c₁, h₁⟩, hleft, h⟩ := bind_eq_ok h
      obtain ⟨⟨e, c₂, h₂⟩, he, h⟩ := bind_eq_ok h
      cases h
      exact .operands hlevel (ihk hleft (by omega)) (ih c₁ h₁ ⟨h₂, he⟩)

theorem conditional_reads {v : Expr} {hc : c'.size < c.size} (h : conditional input c = .ok ⟨v, c', hc⟩) :
    Reads input .conditional c v c' := by
  rw [conditional] at h
  obtain ⟨⟨test, c₁, h₁⟩, htest, h⟩ := bind_eq_ok h
  dsimp only at h
  split at h
  · rename_i c₂ h₂ heat
    obtain ⟨⟨e, c₃, h₃⟩, he, h⟩ := bind_eq_ok h
    dsimp only at h
    obtain ⟨⟨_, c₄, h₄⟩, hcolon, h⟩ := bind_eq_ok h
    obtain ⟨⟨e', c₅, h₅⟩, he', h⟩ := bind_eq_ok h
    cases h
    exact .ternary (binary_reads ih htest) (.of_eat heat) (ih c₂ (by omega) ⟨h₃, he⟩) (.of_expect hcolon)
      (ih c₄ (by omega) ⟨h₅, he'⟩)
  · rename_i heat
    cases h
    exact .noTernary (binary_reads ih htest) (Cursor.eat_eq_none_iff.mp heat)

theorem arrow_reads {v : Expr} {hc : c'.size < c.size} (h : arrow input c = .ok ⟨v, c', hc⟩) :
    Reads input .arrow c v c' := by
  rw [arrow] at h
  obtain ⟨⟨ps, c₁, h₁⟩, hps, h⟩ := bind_eq_ok h
  obtain ⟨⟨_, c₂, h₂⟩, harrow, h⟩ := bind_eq_ok h
  dsimp only at h
  split at h
  · rename_i c₃ h₃ hopen
    obtain ⟨⟨stmts, c₄, h₄⟩, hstmts, h⟩ := bind_eq_ok h
    cases h
    exact .blockArrow (arrowParams_reads ih hps) (.of_expect harrow) (.of_eat hopen)
      (ih c₃ (by omega) ⟨h₄, hstmts⟩)
  · rename_i hopen
    obtain ⟨⟨e, c₃, h₃⟩, he, h⟩ := bind_eq_ok h
    cases h
    exact .exprArrow (arrowParams_reads ih hps) (.of_expect harrow) (Cursor.eat_eq_none_iff.mp hopen)
      (ih c₂ (by omega) ⟨h₃, he⟩)

theorem assignment_reads {v : Expr} {hc : c'.size < c.size} (h : assignment input c = .ok ⟨v, c', hc⟩) :
    Reads input .assignment c v c' := by
  rw [assignment] at h
  split at h
  · rename_i harrow
    exact .arrowExpr harrow (arrow_reads ih h)
  · rename_i harrow
    have harrow : c.atArrow = false := Bool.eq_false_iff.mpr harrow
    obtain ⟨⟨target, c₁, h₁⟩, htarget, h⟩ := bind_eq_ok h
    dsimp only at h
    split at h
    · rename_i c₂ h₂ heat
      obtain ⟨⟨e, c₃, h₃⟩, he, h⟩ := bind_eq_ok h
      cases h
      exact .assign harrow (conditional_reads ih htarget) (.of_eat heat) (ih c₂ (by omega) ⟨h₃, he⟩)
    · rename_i heat
      cases h
      exact .noAssign harrow (conditional_reads ih htarget) (Cursor.eat_eq_none_iff.mp heat)

theorem exprs_reads {s : Symbol} {v : List Expr} {hc : c'.size < c.size} (h : exprs input s c = .ok ⟨v, c', hc⟩) :
    Reads input (.exprs s) c v c' := by
  rw [exprs] at h
  split at h
  · rename_i heat
    cases h
    exact .exprsEnd (.of_eat heat)
  · rename_i heat
    obtain ⟨⟨e, c₁, h₁⟩, he, h⟩ := bind_eq_ok h
    dsimp only at h
    split at h
    · rename_i c₂ h₂ hcomma
      obtain ⟨⟨es, c₃, h₃⟩, hes, h⟩ := bind_eq_ok h
      cases h
      exact .exprsMore (Cursor.eat_eq_none_iff.mp heat) (assignment_reads ih he) (.of_eat hcomma)
        (ih c₂ (by omega) ⟨h₃, hes⟩)
    · rename_i hcomma
      obtain ⟨⟨_, c₂, h₂⟩, hclose, h⟩ := bind_eq_ok h
      cases h
      exact .exprsLast (Cursor.eat_eq_none_iff.mp heat) (assignment_reads ih he) (Cursor.eat_eq_none_iff.mp hcomma)
        (.of_expect hclose)

theorem propertyValue_reads {v : Expr} {hc : c'.size < c.size} (h : propertyValue input c = .ok ⟨v, c', hc⟩) :
    Reads input .propertyValue c v c' := by
  rw [propertyValue] at h
  obtain ⟨⟨_, c₁, h₁⟩, hcolon, h⟩ := bind_eq_ok h
  obtain ⟨⟨e, c₂, h₂⟩, he, h⟩ := bind_eq_ok h
  cases h
  exact .propertyValue (.of_expect hcolon) (ih c₁ h₁ ⟨h₂, he⟩)

theorem property_reads {v : Property} {hc : c'.size < c.size} (h : property input c = .ok ⟨v, c', hc⟩) :
    Reads input .property c v c' := by
  rw [property] at h
  split at h
  · rename_i c₁ h₁ hread
    obtain ⟨⟨e, c₂, h₂⟩, he, h⟩ := bind_eq_ok h
    cases h
    exact .literalKey (.of_read hread) rfl (ih c₁ h₁ ⟨h₂, he⟩)
  · rename_i c₁ h₁ hread
    obtain ⟨⟨e, c₂, h₂⟩, he, h⟩ := bind_eq_ok h
    cases h
    exact .literalKey (.of_read hread) rfl (ih c₁ h₁ ⟨h₂, he⟩)
  · rename_i c₁ h₁ hread
    obtain ⟨⟨key, c₂, h₂⟩, hkey, h⟩ := bind_eq_ok h
    obtain ⟨⟨_, c₃, h₃⟩, hclose, h⟩ := bind_eq_ok h
    obtain ⟨⟨e, c₄, h₄⟩, he, h⟩ := bind_eq_ok h
    cases h
    exact .computedKey ⟨_, .of_read hread, rfl⟩ (ih c₁ h₁ ⟨h₂, hkey⟩) (.of_expect hclose)
      (ih c₃ (by omega) ⟨h₄, he⟩)
  · obtain ⟨⟨id, c₁, h₁⟩, hid, h⟩ := bind_eq_ok h
    dsimp only at h
    split at h
    · rename_i hend
      cases h
      exact .shorthand (.of_propertyName hid) hend
    · rename_i hend
      obtain ⟨⟨e, c₂, h₂⟩, he, h⟩ := bind_eq_ok h
      cases h
      exact .namedKey (.of_propertyName hid) (Bool.eq_false_iff.mpr hend) (ih c₁ h₁ ⟨h₂, he⟩)

theorem properties_reads {v : List Property} {hc : c'.size < c.size} (h : properties input c = .ok ⟨v, c', hc⟩) :
    Reads input .properties c v c' := by
  rw [properties] at h
  split at h
  · rename_i heat
    cases h
    exact .propertiesEnd (.of_eat heat)
  · obtain ⟨⟨p, c₁, h₁⟩, hp, h⟩ := bind_eq_ok h
    dsimp only at h
    split at h
    · rename_i c₂ h₂ hcomma
      obtain ⟨⟨ps, c₃, h₃⟩, hps, h⟩ := bind_eq_ok h
      cases h
      exact .propertiesMore (property_reads ih hp) (.of_eat hcomma) (ih c₂ (by omega) ⟨h₃, hps⟩)
    · rename_i hcomma
      obtain ⟨⟨_, c₂, h₂⟩, hclose, h⟩ := bind_eq_ok h
      cases h
      exact .propertiesLast (property_reads ih hp) (Cursor.eat_eq_none_iff.mp hcomma) (.of_expect hclose)

theorem declarator_reads {v : Declarator} {hc : c'.size < c.size} (h : declarator input c = .ok ⟨v, c', hc⟩) :
    Reads input .declarator c v c' := by
  rw [declarator] at h
  obtain ⟨⟨p, c₁, h₁⟩, hp, h⟩ := bind_eq_ok h
  dsimp only at h
  split at h
  · rename_i c₂ h₂ heat
    obtain ⟨⟨e, c₃, h₃⟩, he, h⟩ := bind_eq_ok h
    cases h
    exact .initialized (pattern_reads ih hp) (.of_eat heat) (ih c₂ (by omega) ⟨h₃, he⟩)
  · rename_i heat
    cases h
    exact .uninitialized (pattern_reads ih hp) (Cursor.eat_eq_none_iff.mp heat)

theorem declarators_reads {v : List Declarator} {hc : c'.size < c.size} (h : declarators input c = .ok ⟨v, c', hc⟩) :
    Reads input .declarators c v c' := by
  rw [declarators] at h
  obtain ⟨⟨d, c₁, h₁⟩, hd, h⟩ := bind_eq_ok h
  dsimp only at h
  split at h
  · rename_i c₂ h₂ hcomma
    obtain ⟨⟨ds, c₃, h₃⟩, hds, h⟩ := bind_eq_ok h
    cases h
    exact .declaratorsMore (declarator_reads ih hd) (.of_eat hcomma) (ih c₂ (by omega) ⟨h₃, hds⟩)
  · rename_i hcomma
    cases h
    exact .declaratorsLast (declarator_reads ih hd) (Cursor.eat_eq_none_iff.mp hcomma)

theorem statement_reads {v : Option Stmt} {hc : c'.size < c.size} (h : statement input c = .ok ⟨v, c', hc⟩) :
    Reads input .statement c v c' := by
  rw [statement] at h
  split at h
  · rename_i hread
    obtain ⟨⟨e, c₁, h₁⟩, he, h⟩ := bind_eq_ok h
    obtain ⟨rfl, rfl⟩ := of_finishStatement (Except.ok.inj h)
    refine .exprStatement ?_ (assignment_reads ih he)
    simp [Cursor.atStatement, Cursor.peek, Cursor.read_eq_none_iff.mp hread]
  · rename_i l c₁ h₁ hread
    have hl := Cursor.Passes.of_read hread
    split at h
    · rename_i ht
      cases h
      exact .empty ⟨l, hl, ht⟩
    · rename_i ht
      split at h
      · rename_i hends
        obtain ⟨rfl, rfl⟩ := of_finishStatement (Except.ok.inj h)
        exact .returnNothing ⟨l, hl, ht⟩ hends
      · rename_i hends
        obtain ⟨⟨e, c₂, h₂⟩, he, h⟩ := bind_eq_ok h
        obtain ⟨rfl, rfl⟩ := of_finishStatement (Except.ok.inj h)
        exact .returnValue ⟨l, hl, ht⟩ (Bool.eq_false_iff.mpr hends) (ih c₁ h₁ ⟨h₂, he⟩)
    · rename_i ht
      obtain ⟨⟨stmts, c₂, h₂⟩, hstmts, h⟩ := bind_eq_ok h
      obtain ⟨rfl, rfl⟩ := of_finishStatement (Except.ok.inj h)
      exact .blockStatement ⟨l, hl, ht⟩ (ih c₁ h₁ ⟨h₂, hstmts⟩)
    · rename_i ht
      obtain ⟨⟨test, c₂, h₂⟩, htest, h⟩ := bind_eq_ok h
      obtain ⟨⟨s, c₃, h₃⟩, hs, h⟩ := bind_eq_ok h
      dsimp only at h
      split at h
      · rename_i c₄ h₄ helse
        obtain ⟨⟨s', c₅, h₅⟩, hs', h⟩ := bind_eq_ok h
        obtain ⟨rfl, rfl⟩ := of_finishStatement (Except.ok.inj h)
        exact .ifElse ⟨l, hl, ht⟩ (ih c₁ h₁ ⟨h₂, htest⟩) (ih c₂ (by omega) ⟨h₃, hs⟩) (.of_eatKeyword helse)
          (ih c₄ (by omega) ⟨h₅, hs'⟩)
      · rename_i helse
        obtain ⟨rfl, rfl⟩ := of_finishStatement (Except.ok.inj h)
        exact .ifOnly ⟨l, hl, ht⟩ (ih c₁ h₁ ⟨h₂, htest⟩) (ih c₂ (by omega) ⟨h₃, hs⟩)
          (Cursor.eatKeyword_eq_none_iff.mp helse)
    · rename_i ht
      obtain ⟨⟨test, c₂, h₂⟩, htest, h⟩ := bind_eq_ok h
      obtain ⟨⟨s, c₃, h₃⟩, hs, h⟩ := bind_eq_ok h
      obtain ⟨rfl, rfl⟩ := of_finishStatement (Except.ok.inj h)
      exact .whileLoop ⟨l, hl, ht⟩ (ih c₁ h₁ ⟨h₂, htest⟩) (ih c₂ (by omega) ⟨h₃, hs⟩)
    · rename_i hsemi hreturn hopen hif hwhile
      split at h
      · rename_i kind hkind
        obtain ⟨⟨decls, c₂, h₂⟩, hdecls, h⟩ := bind_eq_ok h
        obtain ⟨rfl, rfl⟩ := of_finishStatement (Except.ok.inj h)
        exact .declaration ⟨l, hl, rfl⟩ hkind (ih c₁ h₁ ⟨h₂, hdecls⟩)
      · rename_i hkind
        obtain ⟨⟨e, c₂, h₂⟩, he, h⟩ := bind_eq_ok h
        obtain ⟨rfl, rfl⟩ := of_finishStatement (Except.ok.inj h)
        refine .exprStatement ?_ (assignment_reads ih he)
        unfold Cursor.atStatement
        split <;> simp_all [hl.peek]

theorem required_reads {v : Stmt} {hc : c'.size < c.size} (h : requiredStatement input c = .ok ⟨v, c', hc⟩) :
    Reads input .required c v c' := by
  rw [requiredStatement] at h
  obtain ⟨⟨s, c₁, h₁⟩, hs, h⟩ := bind_eq_ok h
  cases s with
  | none =>
      cases h
      exact .requiredNone (statement_reads ih hs)
  | some s =>
      cases h
      exact .requiredSome (statement_reads ih hs)

theorem block_reads {v : List Stmt} {hc : c'.size < c.size} (h : block input c = .ok ⟨v, c', hc⟩) :
    Reads input .block c v c' := by
  rw [block] at h
  split at h
  · rename_i heat
    cases h
    exact .blockEnd (.of_eat heat)
  · rename_i heat
    split at h
    · cases h
    · obtain ⟨⟨s, c₁, h₁⟩, hs, h⟩ := bind_eq_ok h
      obtain ⟨⟨stmts, c₂, h₂⟩, hstmts, h⟩ := bind_eq_ok h
      cases h
      exact .blockMore (Cursor.eat_eq_none_iff.mp heat) (statement_reads ih hs) (ih c₁ h₁ ⟨h₂, hstmts⟩)

theorem follows_of_nearer : Follows input c := by
  rintro p v c' h
  cases p <;> obtain ⟨hc, h⟩ := h
  case names => exact names_reads ih h
  case pattern => exact pattern_reads ih h
  case params => exact params_reads ih h
  case arrowParams => exact arrowParams_reads ih h
  case statement => exact statement_reads ih h
  case required => exact required_reads ih h
  case block => exact block_reads ih h
  case declarators => exact declarators_reads ih h
  case declarator => exact declarator_reads ih h
  case parenthesized => exact parenthesized_reads ih h
  case assignment => exact assignment_reads ih h
  case arrow => exact arrow_reads ih h
  case conditional => exact conditional_reads ih h
  case binary => exact binary_reads ih h
  case binaryTail => exact binaryTail_reads ih h
  case exponent => exact exponent_reads ih h
  case unary => exact unary_reads ih h
  case access => exact access_reads ih h
  case accessTail => exact accessTail_reads ih h
  case exprs => exact exprs_reads ih h
  case primary => exact primary_reads ih h
  case properties => exact properties_reads ih h
  case property => exact property_reads ih h
  case propertyValue => exact propertyValue_reads ih h
  case template => exact template_reads ih h
  case templateTail => exact templateTail_reads ih h

end

/-- What the parser returns is read by the grammar. -/
theorem follows (input : Input) (c : Cursor) : Follows input c :=
  follows_of_nearer fun c₁ _ => follows input c₁
termination_by c.size

end Parser

end ScriptTypes
