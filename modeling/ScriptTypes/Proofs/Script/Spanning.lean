import ScriptTypes.Proofs.Script.Marks
import ScriptTypes.Proofs.Script.Parsing

/-! The positions in a tree span the lexemes it was read from. Each of them starts where a lexeme starts and stops where
that lexeme or a later one stops. -/

namespace ScriptTypes

/-- A position spans some of the lexemes of a list that stand one after the other. -/
def Position.Spans (file : Nat) (ls : List Lexeme) (pos : Position) : Prop :=
  ∃ before first seg last after, ls = before ++ seg ++ after ∧ seg.head? = some first ∧ seg.getLast? = some last ∧
    pos = some (.ofRange file first.start last.stop)

theorem Position.Spans.mono {file : Nat} {ls ls' : List Lexeme} {pos : Position} (h : pos.Spans file ls)
    (hsub : ls <:+ ls') : pos.Spans file ls' := by
  obtain ⟨before, first, seg, last, after, rfl, h⟩ := h
  obtain ⟨more, rfl⟩ := hsub
  exact ⟨more ++ before, first, seg, last, after, by simp, h⟩

namespace Cursor

variable {input : Input} {c c₀ c₁ c₂ : Cursor} {ls : List Lexeme} {id : Ident}

theorem Passes.spans {l : Lexeme} (h : c.Passes l c₁) (hin : c.rest <:+ ls) :
    Position.Spans input.file ls (span input l.start l.stop) :=
  Position.Spans.mono ⟨[], l, [l], l, c₁.rest, h.rest, rfl, rfl, rfl⟩ hin

theorem TakesIdent.spans (h : c.TakesIdent input id c₁) (hin : c.rest <:+ ls) : id.pos.Spans input.file ls := by
  obtain ⟨l, hl, -, hpos⟩ := h
  rw [hpos]
  exact hl.spans hin

theorem TakesLabel.spans (h : c.TakesLabel input id c₁) (hin : c.rest <:+ ls) : id.pos.Spans input.file ls := by
  obtain ⟨l, hl, -, hpos⟩ := h
  rw [hpos]
  exact hl.spans hin

theorem Onward.spans (h : c.Onward c₁) (hlt : c₁.size < c.size) (hin : c.rest <:+ ls) :
    Position.Spans input.file ls (c₁.spanFrom input (c.start input)) := by
  obtain ⟨seg, last, hrest, hend, hlast⟩ := h.exists_last hlt
  cases seg with
  | nil => cases hend
  | cons first seg =>
      refine Position.Spans.mono ⟨[], first, first :: seg, last, c₁.rest, hrest, rfl, hend, ?_⟩ hin
      rw [spanFrom, stop, start, hlast, hrest]
      rfl

/-- What has been read from an earlier cursor on, after one more lexeme. -/
theorem Takes.spans (input : Input) {t : Token} (h : c.Takes t c₁) (h' : c₁.Onward c₂) (ho : c₀.Onward c)
    (hin : c₀.rest <:+ ls) : Position.Spans input.file ls (c₂.spanFrom input (c₀.start input)) := by
  refine (ho.trans (h.onward.trans h')).spans ?_ hin
  calc c₂.size
    _ ≤ c₁.size := h'.suffix.length_le
    _ < c.size := h.size_lt
    _ ≤ c₀.size := ho.suffix.length_le

end Cursor

/-- The marks span lexemes of a list. -/
def Mark.Span (file : Nat) (ls : List Lexeme) (ms : List Mark) : Prop :=
  ∀ m ∈ ms, m.pos.Spans file ls

namespace Mark.Span

variable {file : Nat} {ls : List Lexeme} {m : Mark} {ms ms' : List Mark}

theorem nil : Span file ls [] := nofun

theorem cons (hm : m.pos.Spans file ls) (hms : Span file ls ms) : Span file ls (m :: ms) :=
  List.forall_mem_cons.mpr ⟨hm, hms⟩

theorem one (hm : m.pos.Spans file ls) : Span file ls [m] := cons hm nil

theorem append (hms : Span file ls ms) (hms' : Span file ls ms') : Span file ls (ms ++ ms') :=
  List.forall_mem_append.mpr ⟨hms, hms'⟩

end Mark.Span

namespace Phrase

/-- The marks of what a phrase is read as. -/
def marks : (p : Phrase) → p.Value → List Mark
  | .names _, ids => Ident.marks ids
  | .pattern, p => p.marks
  | .params, ps | .arrowParams, ps => ps.flatMap Pattern.marks
  | .statement, s => marksBranch s
  | .required, s => s.marks
  | .block, ss => marksStmts ss
  | .declarators, ds => marksDeclarators ds
  | .declarator, d => d.marks
  | .exprs _, es => marksExprs es
  | .properties, ps => marksProperties ps
  | .property, p => p.marks
  | .template, q => q.marks
  | .templateTail _, v => marksExprs v.2
  | .parenthesized, e | .assignment, e | .arrow, e | .conditional, e | .binary _, e | .binaryTail _ _ _, e
  | .exponent, e | .unary, e | .access, e | .accessTail _ _, e | .primary, e | .propertyValue, e => e.marks

/-- A phrase is read from lexemes of a list on. A tail continues what has been read before, from a lexeme of the list
on. -/
def From (input : Input) (ls : List Lexeme) : Phrase → Cursor → Prop
  | .binaryTail _ start left, c | .accessTail start left, c =>
      Mark.Span input.file ls left.marks ∧ ∃ c₀ : Cursor, c₀.rest <:+ ls ∧ c₀.start input = start ∧ c₀.Onward c
  | _, c => c.rest <:+ ls

end Phrase

section

variable {input : Input} {p : Phrase} {c : Cursor} {v : p.Value} {c' : Cursor} {ls : List Lexeme}

theorem Reads.spans (h : Reads input p c v c') (hp : p.isTail = false) (hin : c.rest <:+ ls) :
    Position.Spans input.file ls (c'.spanFrom input (c.start input)) :=
  h.onward.spans (h.shrinks hp) hin

theorem Reads.marks_span (h : Reads input p c v c') (hin : p.From input ls c) :
    Mark.Span input.file ls (p.marks v) := by
  induction h with
  | namesEnd => exact .nil
  | namesMore h₁ h₂ _ ih => exact .cons (h₁.spans hin) (ih ((h₁.onward.trans h₂.onward).suffix.trans hin))
  | namesLast h₁ => exact .one (h₁.spans hin)
  | objectPattern h₁ h₂ ih =>
      exact (ih (h₁.onward.suffix.trans hin)).append (.one ((Reads.objectPattern h₁ h₂).spans rfl hin))
  | arrayPattern h₁ h₂ ih =>
      exact (ih (h₁.onward.suffix.trans hin)).append (.one ((Reads.arrayPattern h₁ h₂).spans rfl hin))
  | identPattern h₁ => exact .one (h₁.spans hin)
  | paramsEnd => exact .nil
  | paramsMore h₁ h₂ _ ih₁ ih₃ => exact (ih₁ hin).append (ih₃ ((h₁.onward.trans h₂.onward).suffix.trans hin))
  | paramsLast _ _ _ ih => exact (ih hin).append .nil
  | paramList h₁ _ ih => exact ih (h₁.onward.suffix.trans hin)
  | bareParam h₁ => exact .append (.one (h₁.spans hin)) .nil
  | empty => exact .nil
  | returnNothing h₁ hends => exact .append .nil (.one ((Reads.returnNothing h₁ hends).spans rfl hin))
  | returnValue h₁ hends h₂ ih =>
      exact (ih (h₁.onward.suffix.trans hin)).append (.one ((Reads.returnValue h₁ hends h₂).spans rfl hin))
  | blockStatement h₁ h₂ ih =>
      exact (ih (h₁.onward.suffix.trans hin)).append (.one ((Reads.blockStatement h₁ h₂).spans rfl hin))
  | ifElse h₁ h₂ h₃ h₄ h₅ ih₂ ih₃ ih₅ =>
      have hin₂ := h₁.onward.suffix.trans hin
      have hin₃ := h₂.onward.suffix.trans hin₂
      have hin₅ := (h₃.onward.trans h₄.onward).suffix.trans hin₃
      exact (((ih₂ hin₂).append (ih₃ hin₃)).append (ih₅ hin₅)).append
        (.one ((Reads.ifElse h₁ h₂ h₃ h₄ h₅).spans rfl hin))
  | ifOnly h₁ h₂ h₃ hn ih₂ ih₃ =>
      have hin₂ := h₁.onward.suffix.trans hin
      have hin₃ := h₂.onward.suffix.trans hin₂
      exact (((ih₂ hin₂).append (ih₃ hin₃)).append .nil).append (.one ((Reads.ifOnly h₁ h₂ h₃ hn).spans rfl hin))
  | whileLoop h₁ h₂ h₃ ih₂ ih₃ =>
      have hin₂ := h₁.onward.suffix.trans hin
      have hin₃ := h₂.onward.suffix.trans hin₂
      exact ((ih₂ hin₂).append (ih₃ hin₃)).append (.one ((Reads.whileLoop h₁ h₂ h₃).spans rfl hin))
  | declaration h₁ hkind h₂ ih =>
      exact (ih (h₁.onward.suffix.trans hin)).append (.one ((Reads.declaration h₁ hkind h₂).spans rfl hin))
  | exprStatement hn h₁ ih => exact (ih hin).append (.one ((Reads.exprStatement hn h₁).spans rfl hin))
  | requiredSome _ ih => exact ih hin
  | requiredNone h₁ => exact .append .nil (.one (h₁.spans rfl hin))
  | blockEnd => exact .nil
  | @blockMore _ s _ _ _ _ h₁ _ ih₁ ih₂ =>
      have hstmts := ih₂ (h₁.onward.suffix.trans hin)
      cases s with
      | none => exact hstmts
      | some s => exact (ih₁ hin).append hstmts
  | declaratorsMore h₁ h₂ _ ih₁ ih₃ => exact (ih₁ hin).append (ih₃ ((h₁.onward.trans h₂.onward).suffix.trans hin))
  | declaratorsLast _ _ ih => exact (ih hin).append .nil
  | initialized h₁ h₂ h₃ ih₁ ih₃ =>
      have hin₃ := (h₁.onward.trans h₂.onward).suffix.trans hin
      exact ((ih₁ hin).append (ih₃ hin₃)).append (.one ((Reads.initialized h₁ h₂ h₃).spans rfl hin))
  | uninitialized h₁ hn ih => exact ((ih hin).append .nil).append (.one ((Reads.uninitialized h₁ hn).spans rfl hin))
  | parenthesized h₁ _ _ ih => exact ih (h₁.onward.suffix.trans hin)
  | arrowExpr _ _ ih => exact ih hin
  | assign ha h₁ h₂ h₃ ih₁ ih₃ =>
      have hin₃ := (h₁.onward.trans h₂.onward).suffix.trans hin
      exact ((ih₁ hin).append (ih₃ hin₃)).append (.one ((Reads.assign ha h₁ h₂ h₃).spans rfl hin))
  | noAssign _ _ _ ih => exact ih hin
  | @blockArrow _ _ _ c₂ _ stmts c₄ h₁ h₂ h₃ h₄ ih₁ ih₄ =>
      have hin₂ := (h₁.onward.trans h₂.onward).suffix.trans hin
      have hbody : Mark.Span input.file ls (Body.block stmts (c₄.spanFrom input (c₂.start input))).marks :=
        (ih₄ (h₃.onward.suffix.trans hin₂)).append (.one (h₃.spans input h₄.onward (.refl c₂) hin₂))
      exact ((ih₁ hin).append hbody).append (.one ((Reads.blockArrow h₁ h₂ h₃ h₄).spans rfl hin))
  | exprArrow h₁ h₂ hn h₃ ih₁ ih₃ =>
      have hin₃ := (h₁.onward.trans h₂.onward).suffix.trans hin
      exact ((ih₁ hin).append (ih₃ hin₃)).append (.one ((Reads.exprArrow h₁ h₂ hn h₃).spans rfl hin))
  | ternary h₁ h₂ h₃ h₄ h₅ ih₁ ih₃ ih₅ =>
      have hin₃ := (h₁.onward.trans h₂.onward).suffix.trans hin
      have hin₅ := (h₃.onward.trans h₄.onward).suffix.trans hin₃
      exact (((ih₁ hin).append (ih₃ hin₃)).append (ih₅ hin₅)).append
        (.one ((Reads.ternary h₁ h₂ h₃ h₄ h₅).spans rfl hin))
  | noTernary _ _ ih => exact ih hin
  | operands _ h₁ _ ih₁ ih₂ => exact ih₂ ⟨ih₁ hin, _, hin, rfl, h₁.onward⟩
  | tightest _ _ ih => exact ih hin
  | operator h₁ _ h₂ _ ih₂ ih₃ =>
      obtain ⟨hleft, c₀, hin, rfl, ho⟩ := hin
      have hright := ih₂ ((ho.trans h₁.onward).suffix.trans hin)
      have hnode := h₁.spans input h₂.onward ho hin
      exact ih₃ ⟨(hleft.append hright).append (.one hnode), c₀, hin, rfl, ho.trans (h₁.onward.trans h₂.onward)⟩
  | noOperator => exact hin.1
  | power h₁ h₂ h₃ ih₁ ih₃ =>
      have hin₃ := (h₁.onward.trans h₂.onward).suffix.trans hin
      exact ((ih₁ hin).append (ih₃ hin₃)).append (.one ((Reads.power h₁ h₂ h₃).spans rfl hin))
  | noPower _ _ ih => exact ih hin
  | negativeNumber h₁ h₂ => exact .one ((Reads.negativeNumber h₁ h₂).spans rfl hin)
  | sign h₁ hop hn h₂ ih =>
      exact (ih (h₁.onward.suffix.trans hin)).append (.one ((Reads.sign h₁ hop hn h₂).spans rfl hin))
  | noSign _ _ ih => exact ih hin
  | accessed h₁ _ ih₁ ih₂ => exact ih₂ ⟨ih₁ hin, _, hin, rfl, h₁.onward⟩
  | member h₁ h₂ _ ih =>
      obtain ⟨hobject, c₀, hin, rfl, ho⟩ := hin
      have hlabel := h₂.spans ((ho.trans h₁.onward).suffix.trans hin)
      have hnode := h₁.spans input h₂.onward ho hin
      exact ih ⟨hobject.append (.cons hlabel (.one hnode)), c₀, hin, rfl, ho.trans (h₁.onward.trans h₂.onward)⟩
  | index h₁ h₂ h₃ _ ih₂ ih₄ =>
      obtain ⟨hobject, c₀, hin, rfl, ho⟩ := hin
      have hkey := ih₂ ((ho.trans h₁.onward).suffix.trans hin)
      have hclosed := h₂.onward.trans h₃.onward
      have hnode := h₁.spans input hclosed ho hin
      exact ih₄ ⟨(hobject.append hkey).append (.one hnode), c₀, hin, rfl, ho.trans (h₁.onward.trans hclosed)⟩
  | call h₁ h₂ _ ih₂ ih₃ =>
      obtain ⟨hcallee, c₀, hin, rfl, ho⟩ := hin
      have hargs := ih₂ ((ho.trans h₁.onward).suffix.trans hin)
      have hnode := h₁.spans input h₂.onward ho hin
      exact ih₃ ⟨(hcallee.append hargs).append (.one hnode), c₀, hin, rfl, ho.trans (h₁.onward.trans h₂.onward)⟩
  | tagged h₁ _ ih₁ ih₂ =>
      obtain ⟨htag, c₀, hin, rfl, ho⟩ := hin
      have hquasi := ih₁ (ho.suffix.trans hin)
      cases h₁ with
      | template hopen htail =>
          have hnode := hopen.spans input htail.onward ho hin
          exact ih₂ ⟨(htag.append hquasi).append (.one hnode), c₀, hin, rfl, ho.trans (hopen.onward.trans htail.onward)⟩
  | noAccess => exact hin.1
  | exprsEnd => exact .nil
  | exprsMore _ h₁ h₂ _ ih₁ ih₃ => exact (ih₁ hin).append (ih₃ ((h₁.onward.trans h₂.onward).suffix.trans hin))
  | exprsLast _ _ _ _ ih => exact (ih hin).append .nil
  | templateExpr h₁ ih => exact (ih hin).append (.one (h₁.spans rfl hin))
  | ident h₁ => exact .cons (h₁.spans hin) (.one ((Reads.ident h₁).spans rfl hin))
  | literal h₁ hv => exact .one ((Reads.literal h₁ hv).spans rfl hin)
  | group h₁ _ _ ih => exact ih (h₁.onward.suffix.trans hin)
  | array h₁ h₂ ih => exact (ih (h₁.onward.suffix.trans hin)).append (.one ((Reads.array h₁ h₂).spans rfl hin))
  | object h₁ h₂ ih => exact (ih (h₁.onward.suffix.trans hin)).append (.one ((Reads.object h₁ h₂).spans rfl hin))
  | propertiesEnd => exact .nil
  | propertiesMore h₁ h₂ _ ih₁ ih₃ => exact (ih₁ hin).append (ih₃ ((h₁.onward.trans h₂.onward).suffix.trans hin))
  | propertiesLast _ _ _ ih => exact (ih hin).append .nil
  | literalKey h₁ hv h₂ ih =>
      have hkey : Mark.Span input.file ls [.place _] := .one (h₁.spans hin)
      exact (hkey.append (ih (h₁.onward.suffix.trans hin))).append (.one ((Reads.literalKey h₁ hv h₂).spans rfl hin))
  | computedKey h₁ h₂ h₃ h₄ ih₂ ih₄ =>
      have hin₂ := h₁.onward.suffix.trans hin
      have hin₄ := (h₂.onward.trans h₃.onward).suffix.trans hin₂
      exact ((ih₂ hin₂).append (ih₄ hin₄)).append (.one ((Reads.computedKey h₁ h₂ h₃ h₄).spans rfl hin))
  | shorthand h₁ =>
      have hlabel := h₁.spans hin
      exact .cons hlabel (.cons hlabel (.cons hlabel (.one hlabel)))
  | namedKey h₁ hend h₂ ih =>
      have hkey : Mark.Span input.file ls [.place _] := .one (h₁.spans hin)
      exact (hkey.append (ih (h₁.onward.suffix.trans hin))).append (.one ((Reads.namedKey h₁ hend h₂).spans rfl hin))
  | propertyValue h₁ _ ih => exact ih (h₁.onward.suffix.trans hin)
  | template h₁ h₂ ih => exact (ih (h₁.onward.suffix.trans hin)).append (.one ((Reads.template h₁ h₂).spans rfl hin))
  | templateText h₁ _ _ ih => exact ih (h₁.onward.suffix.trans hin)
  | interpolation h₁ h₂ h₃ _ ih₂ ih₄ =>
      have hin₂ := h₁.onward.suffix.trans hin
      exact (ih₂ hin₂).append (ih₄ ((h₂.onward.trans h₃.onward).suffix.trans hin₂))
  | templateEnd => exact .nil

end

end ScriptTypes
