import ScriptTypes.Proofs.Script.Marks
import ScriptTypes.Proofs.Script.Parsing

/-! Outlines of syntax trees. The outline of a statement or an expression keeps its mark and the outlines of its parts,
as they come in the source, and forgets what kind of construct it is. How a parser lays outlines over the lexemes that
it passes is one relation with few rules, from which follows what is to be known of positions and of numbers. -/

namespace ScriptTypes

/-- A part of a script: its mark, and the parts it is made of from left to right. -/
inductive Outline where
  | mk (mark : Mark) (parts : List Outline)

namespace Outline

def mark : Outline → Mark
  | .mk mark _ => mark

def parts : Outline → List Outline
  | .mk _ parts => parts

mutual

/-- A part and all that is inside of it, from left to right and what is inside before the whole. -/
def postorder : Outline → List Outline
  | .mk mark parts => postorders parts ++ [.mk mark parts]

def postorders : List Outline → List Outline
  | [] => []
  | o :: os => o.postorder ++ postorders os

end

theorem postorders_append (os os' : List Outline) : postorders (os ++ os') = postorders os ++ postorders os' := by
  induction os with
  | nil => rfl
  | cons o os ih => rw [List.cons_append, postorders, ih, postorders, List.append_assoc]

theorem postorders_singleton (o : Outline) : postorders [o] = postorders o.parts ++ [o] := by
  obtain ⟨mark, parts⟩ := o
  rw [postorders, postorder, postorders, List.append_nil]
  rfl

end Outline

/-! The outlines of trees. -/

def Ident.outline (id : Ident) : Outline :=
  .mk (.place id.pos) []

def Pattern.outline : Pattern → Outline
  | .ident id => id.outline
  | .object ids pos | .array ids pos => .mk (.place pos) (ids.map Ident.outline)

/-- Whether a name is written once for the key and the value of a property. -/
def Property.isShorthand : PropertyKey → Expr → Bool
  | .ident id, .ident _ id' => id = id'
  | _, _ => false

mutual

def Expr.outline : Expr → Outline
  | .literal node _ => .mk (.node node) []
  | .ident node id => .mk (.node node) [id.outline]
  | .array node es => .mk (.node node) (outlineExprs es)
  | .object node ps => .mk (.node node) (outlineProperties ps)
  | .member node o label => .mk (.node node) [o.outline, label.outline]
  | .index node o k => .mk (.node node) [o.outline, k.outline]
  | .binary node _ a b => .mk (.node node) [a.outline, b.outline]
  | .unary node _ a => .mk (.node node) [a.outline]
  | .conditional node t a b => .mk (.node node) [t.outline, a.outline, b.outline]
  | .arrow node ps body => .mk (.node node) (ps.map Pattern.outline ++ [body.outline])
  | .call node f as => .mk (.node node) (f.outline :: outlineExprs as)
  | .template node q => .mk (.node node) [q.outline]
  | .tagged node t q => .mk (.node node) [t.outline, q.outline]
  | .assign node t v => .mk (.node node) [t.outline, v.outline]

def outlineExprs : List Expr → List Outline
  | [] => []
  | e :: es => e.outline :: outlineExprs es

/-- A name that stands for the key as well is found in the value. -/
def Property.outline : Property → Outline
  | .mk key value pos =>
      .mk (.place pos) (if Property.isShorthand key value then [value.outline] else [key.outline, value.outline])

def outlineProperties : List Property → List Outline
  | [] => []
  | p :: ps => p.outline :: outlineProperties ps

def PropertyKey.outline : PropertyKey → Outline
  | .ident id => id.outline
  | .literal _ pos => .mk (.place pos) []
  | .computed e => e.outline

def Body.outline : Body → Outline
  | .expr e => e.outline
  | .block ss pos => .mk (.place pos) (outlineStmts ss)

def Template.outline : Template → Outline
  | .mk _ es pos => .mk (.place pos) (outlineExprs es)

def Stmt.outline : Stmt → Outline
  | .decl node _ ds => .mk (.node node) (outlineDeclarators ds)
  | .expr node e => .mk (.node node) [e.outline]
  | .ret node e => .mk (.node node) (outlineOption e)
  | .block node ss => .mk (.node node) (outlineStmts ss)
  | .cond node t a b => .mk (.node node) (t.outline :: a.outline :: outlineBranch b)
  | .loop node t a => .mk (.node node) [t.outline, a.outline]

def outlineStmts : List Stmt → List Outline
  | [] => []
  | s :: ss => s.outline :: outlineStmts ss

def Declarator.outline : Declarator → Outline
  | .mk p e pos => .mk (.place pos) (p.outline :: outlineOption e)

def outlineDeclarators : List Declarator → List Outline
  | [] => []
  | d :: ds => d.outline :: outlineDeclarators ds

def outlineOption : Option Expr → List Outline
  | none => []
  | some e => [e.outline]

def outlineBranch : Option Stmt → List Outline
  | none => []
  | some s => [s.outline]

end

/-- The outlines of the statements of a script. -/
def Script.outlines (s : Script) : List Outline :=
  outlineStmts s.body

theorem outlineStmts_toList_append (s : Option Stmt) (ss : List Stmt) :
    outlineStmts (s.toList ++ ss) = outlineBranch s ++ outlineStmts ss := by
  cases s <;> rfl

/-- The outlines of what a phrase is read as. -/
def Phrase.outlines : (p : Phrase) → p.Value → List Outline
  | .names _, ids => ids.map Ident.outline
  | .pattern, p => [p.outline]
  | .params, ps | .arrowParams, ps => ps.map Pattern.outline
  | .statement, s => outlineBranch s
  | .required, s => [s.outline]
  | .block, ss => outlineStmts ss
  | .declarators, ds => outlineDeclarators ds
  | .declarator, d => [d.outline]
  | .exprs _, es => outlineExprs es
  | .properties, ps => outlineProperties ps
  | .property, p => [p.outline]
  | .template, q => [q.outline]
  | .templateTail _, v => outlineExprs v.2
  | .parenthesized, e | .assignment, e | .arrow, e | .conditional, e | .binary _, e | .binaryTail _ _ _, e
  | .exponent, e | .unary, e | .access, e | .accessTail _ _, e | .primary, e | .propertyValue, e => [e.outline]

/-! Outlines over lexemes. -/

/-- Between two cursors lexemes are passed and outlines are laid over them. A part is built of the outlines laid since
a cursor, at least one lexeme further on. Its position goes from the one cursor to the other, and if it is a node then
it gets the next number. -/
inductive Lays (input : Input) : Cursor → List Outline → Cursor → Prop
  | stay (c : Cursor) : Lays input c [] c
  | pass {c l c₁} (h : c.Passes l c₁) : Lays input c [] c₁
  | append {c os c₁ os' c₂} (h : Lays input c os c₁) (h' : Lays input c₁ os' c₂) : Lays input c (os ++ os') c₂
  | node {c os c₁} (h : Lays input c os c₁) (hlt : c₁.size < c.size) :
      Lays input c [.mk (.node (c₁.node input (c.start input))) os] c₁.tick
  | place {c os c₁} (h : Lays input c os c₁) (hlt : c₁.size < c.size) :
      Lays input c [.mk (.place (c₁.spanFrom input (c.start input))) os] c₁

namespace Lays

variable {input : Input} {c c₁ c₂ : Cursor} {os : List Outline} {t : Token} {id : Ident}

theorem onward {c' : Cursor} (h : Lays input c os c') : c.Onward c' := by
  induction h with
  | stay c => exact .refl c
  | pass h => exact h.onward
  | append _ _ ih ih' => exact ih.trans ih'
  | node _ _ ih => exact ih.trans (Cursor.onward_tick _)
  | place _ _ ih => exact ih

theorem size_le {c' : Cursor} (h : Lays input c os c') : c'.size ≤ c.size :=
  h.onward.suffix.length_le

theorem shrinks {c' : Cursor} (h : Lays input c os c₁) (hlt : c'.size < c₁.size) : c'.size < c.size :=
  Nat.lt_of_lt_of_le hlt h.size_le

/-- Outlines after a lexeme of their own construct. -/
theorem after (ht : c.Takes t c₁) (h : Lays input c₁ os c₂) : Lays input c os c₂ := by
  obtain ⟨l, hl, -⟩ := ht
  exact .append (.pass hl) h

/-- Outlines before a lexeme of their own construct. -/
theorem before (h : Lays input c os c₁) (ht : c₁.Takes t c₂) : Lays input c os c₂ := by
  obtain ⟨l, hl, -⟩ := ht
  rw [← List.append_nil os]
  exact .append h (.pass hl)

theorem past (h : Lays input c os c₁) (s : Symbol) : Lays input c os (c₁.past s) := by
  unfold Cursor.past
  split
  · rename_i p hp
    exact h.before (.of_eat hp)
  · exact h

theorem passed {l : Lexeme} (h : c.Passes l c₁) :
    Lays input c [.mk (.place (Cursor.span input l.start l.stop)) []] c₁ := by
  have hplace : Lays input c [.mk (.place (c₁.spanFrom input (c.start input))) []] c₁ := .place (.pass h) h.size_lt
  rwa [Cursor.spanFrom, Cursor.stop, h.last, h.start] at hplace

theorem ident (h : c.TakesIdent input id c₁) : Lays input c [id.outline] c₁ := by
  obtain ⟨l, hl, -, hpos⟩ := h
  rw [Ident.outline, hpos]
  exact passed hl

theorem label (h : c.TakesLabel input id c₁) : Lays input c [id.outline] c₁ := by
  obtain ⟨l, hl, -, hpos⟩ := h
  rw [Ident.outline, hpos]
  exact passed hl

/-- A key with a value after it. -/
theorem property {key : PropertyKey} {e : Expr} (hpass : Lays input c [] c₁) (hkey : Lays input c [key.outline] c₁)
    (hvalue : Lays input c₁ [e.outline] c₂) (hlt : c₂.size < c.size) :
    Lays input c [(Property.mk key e (c₂.spanFrom input (c.start input))).outline] c₂ := by
  rw [Property.outline]
  split
  · exact (hpass.append hvalue).place hlt
  · exact (hkey.append hvalue).place hlt

/-- A name that is a key and a value. -/
theorem shorthand (h : c.TakesLabel input id c₁) :
    Lays input c [(Property.mk (.ident id) (.ident ⟨c₁.nextId, id.pos⟩ id) id.pos).outline] c₁.tick := by
  have hspan : c₁.spanFrom input (c.start input) = id.pos := by
    obtain ⟨l, hl, -, hpos⟩ := h
    rw [Cursor.spanFrom, Cursor.stop, hl.last, hl.start, hpos]
  have hvalue : Lays input c [.mk (.place id.pos) [.mk (.node ⟨c₁.nextId, id.pos⟩) [id.outline]]] c₁.tick := by
    rw [← hspan]
    exact ((label h).node h.size_lt).place h.size_lt
  rwa [Property.outline, Property.isShorthand, decide_eq_true rfl, if_pos rfl, Expr.outline]

end Lays

/-- What a phrase lays over its lexemes. A tail takes up what has been laid since an earlier cursor. -/
def Phrase.Laid (input : Input) : (p : Phrase) → Cursor → p.Value → Cursor → Prop
  | .binaryTail _ start left, c, e, c' | .accessTail start left, c, e, c' =>
      ∀ c₀ : Cursor, c₀.start input = start → Lays input c₀ [left.outline] c → Lays input c₀ [e.outline] c'
  | p, c, v, c' => Lays input c (p.outlines v) c'

theorem Reads.laid {input : Input} {p : Phrase} {c : Cursor} {v : p.Value} {c' : Cursor} (h : Reads input p c v c') :
    p.Laid input c v c' := by
  induction h with
  | namesEnd h₁ => exact (Lays.stay _).after h₁
  | namesMore h₁ h₂ _ ih => exact ((Lays.ident h₁).before h₂).append ih
  | namesLast h₁ _ h₂ => exact (Lays.ident h₁).before h₂
  | objectPattern h₁ h₂ ih => exact (Lays.after h₁ ih).place ((Reads.objectPattern h₁ h₂).shrinks rfl)
  | arrayPattern h₁ h₂ ih => exact (Lays.after h₁ ih).place ((Reads.arrayPattern h₁ h₂).shrinks rfl)
  | identPattern h₁ => exact Lays.ident h₁
  | paramsEnd h₁ => exact (Lays.stay _).after h₁
  | paramsMore _ h₂ _ ih₁ ih₃ => exact (Lays.before ih₁ h₂).append ih₃
  | paramsLast _ _ h₂ ih => exact Lays.before ih h₂
  | paramList h₁ _ ih => exact Lays.after h₁ ih
  | bareParam h₁ => exact Lays.ident h₁
  | empty h₁ => exact (Lays.stay _).after h₁
  | returnNothing h₁ hends =>
      have hlt := fun s => Nat.lt_of_le_of_lt (Parser.size_past_le _ s) h₁.size_lt
      exact (((Lays.stay _).after h₁).past .semicolon).node (hlt .semicolon)
  | returnValue h₁ hends h₂ ih =>
      exact ((Lays.after h₁ ih).past .semicolon).node ((Reads.returnValue h₁ hends h₂).shrinks rfl)
  | blockStatement h₁ h₂ ih =>
      exact ((Lays.after h₁ ih).past .semicolon).node ((Reads.blockStatement h₁ h₂).shrinks rfl)
  | ifElse h₁ h₂ h₃ h₄ h₅ ih₂ ih₃ ih₅ =>
      have hparts := Lays.append ih₂ ((Lays.before ih₃ h₄).append ih₅)
      exact ((hparts.after h₁).past .semicolon).node ((Reads.ifElse h₁ h₂ h₃ h₄ h₅).shrinks rfl)
  | ifOnly h₁ h₂ h₃ hn ih₂ ih₃ =>
      have hparts := Lays.append ih₂ ih₃
      exact ((hparts.after h₁).past .semicolon).node ((Reads.ifOnly h₁ h₂ h₃ hn).shrinks rfl)
  | whileLoop h₁ h₂ h₃ ih₂ ih₃ =>
      have hparts := Lays.append ih₂ ih₃
      exact ((hparts.after h₁).past .semicolon).node ((Reads.whileLoop h₁ h₂ h₃).shrinks rfl)
  | declaration h₁ hkind h₂ ih =>
      exact ((Lays.after h₁ ih).past .semicolon).node ((Reads.declaration h₁ hkind h₂).shrinks rfl)
  | exprStatement hn h₁ ih => exact (Lays.past ih .semicolon).node ((Reads.exprStatement hn h₁).shrinks rfl)
  | requiredSome _ ih => exact ih
  | requiredNone h₁ ih => exact Lays.node ih (h₁.shrinks rfl)
  | blockEnd h₁ => exact (Lays.stay _).after h₁
  | blockMore _ _ _ ih₁ ih₂ =>
      change Lays input _ (outlineStmts _) _
      rw [outlineStmts_toList_append]
      exact Lays.append ih₁ ih₂
  | declaratorsMore _ h₂ _ ih₁ ih₃ => exact (Lays.before ih₁ h₂).append ih₃
  | declaratorsLast _ _ ih => exact ih
  | initialized h₁ h₂ h₃ ih₁ ih₃ =>
      exact ((Lays.before ih₁ h₂).append ih₃).place ((Reads.initialized h₁ h₂ h₃).shrinks rfl)
  | uninitialized h₁ hn ih => exact Lays.place ih (h₁.shrinks rfl)
  | parenthesized h₁ _ h₃ ih => exact (Lays.after h₁ ih).before h₃
  | arrowExpr _ _ ih => exact ih
  | assign ha h₁ h₂ h₃ ih₁ ih₃ =>
      exact ((Lays.before ih₁ h₂).append ih₃).node ((Reads.assign ha h₁ h₂ h₃).shrinks rfl)
  | noAssign _ _ _ ih => exact ih
  | blockArrow h₁ h₂ h₃ h₄ ih₁ ih₄ =>
      have hbody := (Lays.after h₃ ih₄).place (Cursor.size_trans (h₄.shrinks rfl) h₃.size_lt)
      exact ((Lays.before ih₁ h₂).append hbody).node ((Reads.blockArrow h₁ h₂ h₃ h₄).shrinks rfl)
  | exprArrow h₁ h₂ hn h₃ ih₁ ih₃ =>
      exact ((Lays.before ih₁ h₂).append ih₃).node ((Reads.exprArrow h₁ h₂ hn h₃).shrinks rfl)
  | ternary h₁ h₂ h₃ h₄ h₅ ih₁ ih₃ ih₅ =>
      have hparts := (Lays.before ih₁ h₂).append ((Lays.before ih₃ h₄).append ih₅)
      exact hparts.node ((Reads.ternary h₁ h₂ h₃ h₄ h₅).shrinks rfl)
  | noTernary _ _ ih => exact ih
  | operands _ _ _ ih₁ ih₂ => exact ih₂ _ rfl ih₁
  | tightest _ _ ih => exact ih
  | operator h₁ _ h₂ _ ih₂ ih₃ =>
      rintro c₀ rfl hleft
      have hparts := (hleft.before h₁).append ih₂
      exact ih₃ c₀ rfl (hparts.node (hleft.shrinks (Cursor.size_trans (h₂.shrinks rfl) h₁.size_lt)))
  | noOperator => exact fun _ _ hleft => hleft
  | power h₁ h₂ h₃ ih₁ ih₃ =>
      exact ((Lays.before ih₁ h₂).append ih₃).node ((Reads.power h₁ h₂ h₃).shrinks rfl)
  | noPower _ _ ih => exact ih
  | negativeNumber h₁ h₂ =>
      exact (((Lays.stay _).after h₂).after h₁).node (Cursor.size_trans h₂.size_lt h₁.size_lt)
  | sign h₁ hop hn h₂ ih => exact (Lays.after h₁ ih).node ((Reads.sign h₁ hop hn h₂).shrinks rfl)
  | noSign _ _ ih => exact ih
  | accessed _ _ ih₁ ih₂ => exact ih₂ _ rfl ih₁
  | member h₁ h₂ _ ih =>
      rintro c₀ rfl hobject
      have hparts := (hobject.before h₁).append (.label h₂)
      exact ih c₀ rfl (hparts.node (hobject.shrinks (Cursor.size_trans h₂.size_lt h₁.size_lt)))
  | index h₁ h₂ h₃ _ ih₂ ih₄ =>
      rintro c₀ rfl hobject
      have hparts := (hobject.before h₁).append (Lays.before ih₂ h₃)
      have hkey := Cursor.size_trans (h₂.shrinks rfl) h₁.size_lt
      exact ih₄ c₀ rfl (hparts.node (hobject.shrinks (Cursor.size_trans h₃.size_lt hkey)))
  | call h₁ h₂ _ ih₂ ih₃ =>
      rintro c₀ rfl hcallee
      have hparts := (hcallee.before h₁).append ih₂
      exact ih₃ c₀ rfl (hparts.node (hcallee.shrinks (Cursor.size_trans (h₂.shrinks rfl) h₁.size_lt)))
  | tagged h₁ _ ih₁ ih₂ =>
      rintro c₀ rfl htag
      exact ih₂ c₀ rfl ((htag.append ih₁).node (htag.shrinks (h₁.shrinks rfl)))
  | noAccess => exact fun _ _ h => h
  | exprsEnd h₁ => exact (Lays.stay _).after h₁
  | exprsMore _ _ h₂ _ ih₁ ih₃ => exact (Lays.before ih₁ h₂).append ih₃
  | exprsLast _ _ _ h₂ ih => exact Lays.before ih h₂
  | templateExpr h₁ ih => exact Lays.node ih (h₁.shrinks rfl)
  | ident h₁ => exact (Lays.ident h₁).node h₁.size_lt
  | literal h₁ => exact ((Lays.stay _).after h₁).node h₁.size_lt
  | group h₁ _ h₃ ih => exact (Lays.after h₁ ih).before h₃
  | array h₁ h₂ ih => exact (Lays.after h₁ ih).node ((Reads.array h₁ h₂).shrinks rfl)
  | object h₁ h₂ ih => exact (Lays.after h₁ ih).node ((Reads.object h₁ h₂).shrinks rfl)
  | propertiesEnd h₁ => exact (Lays.stay _).after h₁
  | propertiesMore _ h₂ _ ih₁ ih₃ => exact (Lays.before ih₁ h₂).append ih₃
  | propertiesLast _ _ h₂ ih => exact Lays.before ih h₂
  | literalKey h₁ hv h₂ ih =>
      exact Lays.property (.pass h₁) (.passed h₁) ih ((Reads.literalKey h₁ hv h₂).shrinks rfl)
  | computedKey h₁ h₂ h₃ h₄ ih₂ ih₄ =>
      have hkey := (Lays.after h₁ ih₂).before h₃
      exact (hkey.append ih₄).place ((Reads.computedKey h₁ h₂ h₃ h₄).shrinks rfl)
  | shorthand h₁ => exact .shorthand h₁
  | namedKey h₁ hend h₂ ih =>
      have hpass := h₁
      obtain ⟨l, hl, -⟩ := hpass
      exact Lays.property (.pass hl) (.label h₁) ih ((Reads.namedKey h₁ hend h₂).shrinks rfl)
  | propertyValue h₁ _ ih => exact Lays.after h₁ ih
  | template h₁ h₂ ih => exact (Lays.after h₁ ih).place ((Reads.template h₁ h₂).shrinks rfl)
  | templateText h₁ _ _ ih => exact Lays.after h₁ ih
  | interpolation h₁ _ h₃ _ ih₂ ih₄ => exact ((Lays.after h₁ ih₂).before h₃).append ih₄
  | templateEnd h₁ => exact (Lays.stay _).after h₁

/-- The statements of a script are laid over its lexemes one after the other. -/
theorem Parser.statements_laid {input : Input} {c : Cursor} {ss : List Stmt} (h : statements input c = .ok ss) :
    ∃ c', Lays input c (outlineStmts ss) c' := by
  rcases statements_cases h with ⟨-, rfl⟩ | ⟨s, c₁, ss', hs, hlt, hss, rfl⟩
  · exact ⟨c, .stay c⟩
  · obtain ⟨c', hlaid⟩ := statements_laid hss
    rw [outlineStmts_toList_append]
    exact ⟨c', Lays.append hs.laid hlaid⟩
termination_by c.size

theorem Script.parse_laid {file : Nat} {source : String} {s : Script} (h : Script.parse file source = .ok s) :
    ∃ c', Lays ⟨file, source.utf8ByteSize⟩ ⟨(lex source).lexemes, none, 0⟩ s.outlines c' :=
  Parser.statements_laid (Script.statements_of_parse h).1

end ScriptTypes
