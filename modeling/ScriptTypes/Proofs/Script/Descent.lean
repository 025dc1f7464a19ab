import ScriptTypes.Proofs.Script.Parsing
import Mathlib.Logic.Relation

/-! The descent of the parser. A reader asks other readers for the parts of its phrase, one after the other, and what it
asks for depends on what has been read before. An error of a reader is either its own or that of a part. -/

namespace ScriptTypes

section

variable (input : Input)

/-- The reader of a phrase at a cursor asks for another phrase at another cursor. Patterns are left out: they ask for
nothing but names. -/
inductive Asks : Phrase → Cursor → Phrase → Cursor → Prop
  | returned {c c₁} (h₁ : c.Takes (.keyword .returnWord) c₁) (hends : Parser.returnEnds c₁ = false) :
      Asks .statement c .assignment c₁
  | braced {c c₁} (h₁ : c.Takes (.symbol .lBrace) c₁) : Asks .statement c .block c₁
  | ifTest {c c₁} (h₁ : c.Takes (.keyword .ifWord) c₁) : Asks .statement c .parenthesized c₁
  | consequent {c c₁ e c₂} (h₁ : c.Takes (.keyword .ifWord) c₁) (h₂ : Reads input .parenthesized c₁ e c₂) :
      Asks .statement c .required c₂
  | alternate {c c₁ e c₂ s c₃ c₄} (h₁ : c.Takes (.keyword .ifWord) c₁) (h₂ : Reads input .parenthesized c₁ e c₂)
      (h₃ : Reads input .required c₂ s c₃) (h₄ : c₃.Takes (.keyword .elseWord) c₄) : Asks .statement c .required c₄
  | whileTest {c c₁} (h₁ : c.Takes (.keyword .whileWord) c₁) : Asks .statement c .parenthesized c₁
  | whileBody {c c₁ e c₂} (h₁ : c.Takes (.keyword .whileWord) c₁) (h₂ : Reads input .parenthesized c₁ e c₂) :
      Asks .statement c .required c₂
  | declared {c t kind c₁} (h₁ : c.Takes t c₁) (hkind : Parser.declKind? t = some kind) :
      Asks .statement c .declarators c₁
  | bare {c} (hn : c.atStatement = false) : Asks .statement c .assignment c
  | required {c} : Asks .required c .statement c
  | blockHead {c} (hn : c.isAt .rBrace = false) (hrest : c.rest ≠ []) : Asks .block c .statement c
  | blockTail {c s c₁} (hn : c.isAt .rBrace = false) (h₁ : Reads input .statement c s c₁) : Asks .block c .block c₁
  | declaratorsHead {c} : Asks .declarators c .declarator c
  | declaratorsTail {c d c₁ c₂} (h₁ : Reads input .declarator c d c₁) (h₂ : c₁.Takes (.symbol .comma) c₂) :
      Asks .declarators c .declarators c₂
  | initial {c p c₁ c₂} (h₁ : Reads input .pattern c p c₁) (h₂ : c₁.Takes (.symbol .equals) c₂) :
      Asks .declarator c .assignment c₂
  | parenthesized {c c₁} (h₁ : c.Takes (.symbol .lParen) c₁) : Asks .parenthesized c .assignment c₁
  | arrow {c} (ha : c.atArrow = true) : Asks .assignment c .arrow c
  | target {c} (ha : c.atArrow = false) : Asks .assignment c .conditional c
  | assigned {c e c₁ c₂} (ha : c.atArrow = false) (h₁ : Reads input .conditional c e c₁)
      (h₂ : c₁.Takes (.symbol .equals) c₂) : Asks .assignment c .assignment c₂
  | arrowBlock {c ps c₁ c₂ c₃} (h₁ : Reads input .arrowParams c ps c₁) (h₂ : c₁.Takes (.symbol .fatArrow) c₂)
      (h₃ : c₂.Takes (.symbol .lBrace) c₃) : Asks .arrow c .block c₃
  | arrowExpr {c ps c₁ c₂} (h₁ : Reads input .arrowParams c ps c₁) (h₂ : c₁.Takes (.symbol .fatArrow) c₂)
      (hn : c₂.isAt .lBrace = false) : Asks .arrow c .assignment c₂
  | choice {c} : Asks .conditional c (.binary 0) c
  | chosen {c e c₁ c₂} (h₁ : Reads input (.binary 0) c e c₁) (h₂ : c₁.Takes (.symbol .question) c₂) :
      Asks .conditional c .assignment c₂
  | otherwise {c e c₁ c₂ e' c₃ c₄} (h₁ : Reads input (.binary 0) c e c₁) (h₂ : c₁.Takes (.symbol .question) c₂)
      (h₃ : Reads input .assignment c₂ e' c₃) (h₄ : c₃.Takes (.symbol .colon) c₄) : Asks .conditional c .assignment c₄
  | operand {level c} (hlevel : level < 6) : Asks (.binary level) c (.binary (level + 1)) c
  | operands {level c e c₁} (hlevel : level < 6) (h₁ : Reads input (.binary (level + 1)) c e c₁) :
      Asks (.binary level) c (.binaryTail level (c.start input) e) c₁
  | tightest {level c} (hlevel : ¬ level < 6) : Asks (.binary level) c .exponent c
  | rightOperand {level start left c s op c₁} (h₁ : c.Takes (.symbol s) c₁)
      (hop : BinaryOp.ofSymbol? level s = some op) : Asks (.binaryTail level start left) c (.binary (level + 1)) c₁
  | moreOperands {level start left c s op c₁ e c₂} (h₁ : c.Takes (.symbol s) c₁)
      (hop : BinaryOp.ofSymbol? level s = some op) (h₂ : Reads input (.binary (level + 1)) c₁ e c₂) :
      Asks (.binaryTail level start left) c
        (.binaryTail level start (.binary (c₂.node input start) op left e)) c₂.tick
  | base {c} : Asks .exponent c .unary c
  | power {c e c₁ c₂} (h₁ : Reads input .unary c e c₁) (h₂ : c₁.Takes (.symbol .doubleStar) c₂) :
      Asks .exponent c .exponent c₂
  | signed {c s op c₁} (h₁ : c.Takes (.symbol s) c₁) (hop : UnaryOp.ofSymbol? s = some op)
      (hn : ¬ (op = .neg ∧ c₁.atNumber = true)) : Asks .unary c .unary c₁
  | unsigned {c} (hn : c.unaryOp? = none) : Asks .unary c .access c
  | accessed {c} : Asks .access c .primary c
  | accesses {c e c₁} (h₁ : Reads input .primary c e c₁) : Asks .access c (.accessTail (c.start input) e) c₁
  | afterMember {start e c c₁ label c₂} (h₁ : c.Takes (.symbol .dot) c₁) (h₂ : c₁.TakesLabel input label c₂) :
      Asks (.accessTail start e) c (.accessTail start (.member (c₂.node input start) e label)) c₂.tick
  | key {start e c c₁} (h₁ : c.Takes (.symbol .lBracket) c₁) : Asks (.accessTail start e) c .assignment c₁
  | afterIndex {start e c c₁ key c₂ c₃} (h₁ : c.Takes (.symbol .lBracket) c₁) (h₂ : Reads input .assignment c₁ key c₂)
      (h₃ : c₂.Takes (.symbol .rBracket) c₃) :
      Asks (.accessTail start e) c (.accessTail start (.index (c₃.node input start) e key)) c₃.tick
  | arguments {start e c c₁} (h₁ : c.Takes (.symbol .lParen) c₁) : Asks (.accessTail start e) c (.exprs .rParen) c₁
  | afterCall {start e c c₁ args c₂} (h₁ : c.Takes (.symbol .lParen) c₁)
      (h₂ : Reads input (.exprs .rParen) c₁ args c₂) :
      Asks (.accessTail start e) c (.accessTail start (.call (c₂.node input start) e args)) c₂.tick
  | tagged {start e c} (h : c.isAt .backtick = true) : Asks (.accessTail start e) c .template c
  | afterTagged {start e c quasi c₁} (h₁ : Reads input .template c quasi c₁) :
      Asks (.accessTail start e) c (.accessTail start (.tagged (c₁.node input start) e quasi)) c₁.tick
  | exprsHead {s c} (hn : c.isAt s = false) : Asks (.exprs s) c .assignment c
  | exprsTail {s c e c₁ c₂} (hn : c.isAt s = false) (h₁ : Reads input .assignment c e c₁)
      (h₂ : c₁.Takes (.symbol .comma) c₂) : Asks (.exprs s) c (.exprs s) c₂
  | template {c} (h : c.isAt .backtick = true) : Asks .primary c .template c
  | group {c c₁} (h₁ : c.Takes (.symbol .lParen) c₁) : Asks .primary c .assignment c₁
  | elements {c c₁} (h₁ : c.Takes (.symbol .lBracket) c₁) : Asks .primary c (.exprs .rBracket) c₁
  | properties {c c₁} (h₁ : c.Takes (.symbol .lBrace) c₁) : Asks .primary c .properties c₁
  | propertiesHead {c} (hn : c.isAt .rBrace = false) : Asks .properties c .property c
  | propertiesTail {c p c₁ c₂} (h₁ : Reads input .property c p c₁) (h₂ : c₁.Takes (.symbol .comma) c₂) :
      Asks .properties c .properties c₂
  | literalValue {c l v c₁} (h₁ : c.Passes l c₁) (hv : Literal.ofKey? l.token = some v) :
      Asks .property c .propertyValue c₁
  | computedKey {c c₁} (h₁ : c.Takes (.symbol .lBracket) c₁) : Asks .property c .assignment c₁
  | computedValue {c c₁ e c₂ c₃} (h₁ : c.Takes (.symbol .lBracket) c₁) (h₂ : Reads input .assignment c₁ e c₂)
      (h₃ : c₂.Takes (.symbol .rBracket) c₃) : Asks .property c .propertyValue c₃
  | namedValue {c id c₁} (h₁ : c.TakesLabel input id c₁) (hend : c₁.atShorthandEnd = false) :
      Asks .property c .propertyValue c₁
  | value {c c₁} (h₁ : c.Takes (.symbol .colon) c₁) : Asks .propertyValue c .assignment c₁
  | templateTail {c c₁} (h₁ : c.Takes (.symbol .backtick) c₁) : Asks .template c (.templateTail "") c₁
  | afterText {current c t piece c₁} (h₁ : c.Takes t c₁) (ht : Parser.piece? t = some (.text piece)) :
      Asks (.templateTail current) c (.templateTail (current ++ piece)) c₁
  | interpolated {current c c₁} (h₁ : c.Takes .interpolation c₁) : Asks (.templateTail current) c .assignment c₁
  | afterInterpolation {current c c₁ e c₂ c₃} (h₁ : c.Takes .interpolation c₁) (h₂ : Reads input .assignment c₁ e c₂)
      (h₃ : c₂.Takes (.symbol .rBrace) c₃) : Asks (.templateTail current) c (.templateTail "") c₃

end

/-- The reader of a phrase fails at a cursor. -/
def Parser.Fails (input : Input) : Phrase → Cursor → SyntaxError → Prop
  | .names s, c, e => Parser.patternIdents input s c = .error e
  | .pattern, c, e => Parser.pattern input c = .error e
  | .params, c, e => Parser.params input c = .error e
  | .arrowParams, c, e => Parser.arrowParams input c = .error e
  | .statement, c, e => Parser.statement input c = .error e
  | .required, c, e => Parser.requiredStatement input c = .error e
  | .block, c, e => Parser.block input c = .error e
  | .declarators, c, e => Parser.declarators input c = .error e
  | .declarator, c, e => Parser.declarator input c = .error e
  | .parenthesized, c, e => Parser.parenthesized input c = .error e
  | .assignment, c, e => Parser.assignment input c = .error e
  | .arrow, c, e => Parser.arrow input c = .error e
  | .conditional, c, e => Parser.conditional input c = .error e
  | .binary level, c, e => Parser.binary input level c = .error e
  | .binaryTail level start left, c, e => Parser.binaryTail input level start left c = .error e
  | .exponent, c, e => Parser.exponent input c = .error e
  | .unary, c, e => Parser.unary input c = .error e
  | .access, c, e => Parser.access input c = .error e
  | .accessTail start a, c, e => Parser.accessTail input start a c = .error e
  | .exprs s, c, e => Parser.exprs input s c = .error e
  | .primary, c, e => Parser.primary input c = .error e
  | .properties, c, e => Parser.properties input c = .error e
  | .property, c, e => Parser.property input c = .error e
  | .propertyValue, c, e => Parser.propertyValue input c = .error e
  | .template, c, e => Parser.template input c = .error e
  | .templateTail current, c, e => Parser.templateTail input current c = .error e

/-- What an error says had been expected. -/
def SyntaxError.expected? : SyntaxError → Option String
  | .unexpectedToken _ expected _ | .unexpectedEnd expected _ => some expected
  | _ => none

/-- The error says that a template should have ended. -/
def SyntaxError.MissesTemplateEnd (e : SyntaxError) : Prop :=
  ∃ text, e.expected? = some text ∧ "the end of the template literal".toList <+: text.toList

theorem Cursor.not_missesTemplateEnd {input : Input} {found : Option Lexeme} {expected : String}
    (hfirst : ∃ a, expected.toList.head? = some a ∧ a ≠ 't') :
    ¬ (unexpectedAt input found expected).MissesTemplateEnd := by
  obtain ⟨a, ha, hne⟩ := hfirst
  rintro ⟨text, htext, suffix, hsuffix⟩
  have hhead : text.toList.head? = some a := by
    unfold unexpectedAt at htext
    split at htext
    · simp only [SyntaxError.expected?, Option.some.injEq] at htext
      subst htext
      unfold expectation
      split <;> simp [ha]
    · simp only [SyntaxError.expected?, Option.some.injEq] at htext
      rw [← htext, ha]
  rw [← hsuffix] at hhead
  exact hne (Option.some.inj hhead).symm

namespace Parser

section

variable {input : Input} {c : Cursor} {e : SyntaxError}

/-- An error of a reader's own. It is at the lexeme that the reader has come to, or at the end of the text, and what was
expected there is no end of a template. -/
def Refuses (input : Input) (c : Cursor) (e : SyntaxError) : Prop :=
  ∃ d expected, c.Onward d ∧ e = d.unexpected input expected ∧ ∃ a, expected.toList.head? = some a ∧ a ≠ 't'

theorem Refuses.not_missesTemplateEnd (h : Refuses input c e) : ¬ e.MissesTemplateEnd := by
  obtain ⟨d, expected, -, rfl, hfirst⟩ := h
  exact Cursor.not_missesTemplateEnd hfirst

theorem Refuses.after {c₁ : Cursor} (h : Refuses input c₁ e) (hc : c.Onward c₁) : Refuses input c e := by
  obtain ⟨d, expected, hd, h⟩ := h
  exact ⟨d, expected, hc.trans hd, h⟩

theorem refuses_unexpected {expected : String} (hfirst : ∃ a, expected.toList.head? = some a ∧ a ≠ 't') :
    Refuses input c (c.unexpected input expected) :=
  ⟨c, expected, .refl c, rfl, hfirst⟩

/-! Errors of the cursor itself, and of patterns. -/

theorem expect_error {s : Symbol} (h : c.expect input s = .error e) : Refuses input c e := by
  unfold Cursor.expect at h
  split at h
  · cases h
  · cases h
    exact refuses_unexpected ⟨'\x60', by simp, by decide⟩

theorem ident_error {expected : String} (hfirst : ∃ a, expected.toList.head? = some a ∧ a ≠ 't')
    (h : c.ident input expected = .error e) : Refuses input c e := by
  have herr : e = c.unexpected input expected := by
    unfold Cursor.ident at h
    split at h
    · split at h
      · cases h
      · exact (Except.error.inj h).symm
    · exact (Except.error.inj h).symm
  rw [herr]
  exact refuses_unexpected hfirst

theorem propertyName_error (h : c.propertyName input = .error e) : Refuses input c e := by
  have herr : e = c.unexpected input "a property name" := by
    unfold Cursor.propertyName at h
    split at h
    · split at h
      · cases h
      · cases h
      · exact (Except.error.inj h).symm
    · exact (Except.error.inj h).symm
  rw [herr]
  exact refuses_unexpected ⟨'a', rfl, by decide⟩

theorem patternIdents_error {c : Cursor} {s : Symbol} (h : patternIdents input s c = .error e) :
    Refuses input c e := by
  rw [patternIdents] at h
  split at h
  · cases h
  · rcases bind_eq_error h with h | ⟨⟨id, c₁, h₁⟩, hid, h⟩
    · exact ident_error ⟨'a', rfl, by decide⟩ h
    · have hid := (Cursor.TakesIdent.of_ident hid).onward
      dsimp only at h
      split at h
      · rename_i c₂ h₂ hcomma
        exact (patternIdents_error (error_of_bind h)).after
          (hid.trans (Cursor.Takes.of_eat hcomma).onward)
      · exact (expect_error (error_of_bind h)).after hid
termination_by c.size

theorem pattern_error (h : pattern input c = .error e) : Refuses input c e := by
  rw [pattern] at h
  split at h
  · rename_i hopen
    exact (patternIdents_error (error_of_bind h)).after (Cursor.Takes.of_eat hopen).onward
  · split at h
    · rename_i hopen
      exact (patternIdents_error (error_of_bind h)).after (Cursor.Takes.of_eat hopen).onward
    · exact ident_error ⟨'a', rfl, by decide⟩ (error_of_bind h)

theorem params_error {c : Cursor} (h : params input c = .error e) : Refuses input c e := by
  rw [params] at h
  split at h
  · cases h
  · rcases bind_eq_error h with h | ⟨⟨p, c₁, h₁⟩, hp, h⟩
    · exact pattern_error h
    · have hp : Reads input .pattern c p c₁ := follows input c ⟨h₁, hp⟩
      dsimp only at h
      split at h
      · rename_i c₂ h₂ hcomma
        exact (params_error (error_of_bind h)).after
          (hp.onward.trans (Cursor.Takes.of_eat hcomma).onward)
      · exact (expect_error (error_of_bind h)).after hp.onward
termination_by c.size

theorem arrowParams_error (h : arrowParams input c = .error e) : Refuses input c e := by
  rw [arrowParams] at h
  split at h
  · rename_i hopen
    exact (params_error (error_of_bind h)).after (Cursor.Takes.of_eat hopen).onward
  · exact ident_error ⟨'a', rfl, by decide⟩ (error_of_bind h)

/-- An error is a reader's own or that of a part. -/
def PassedOn (input : Input) (p : Phrase) (c : Cursor) (e : SyntaxError) : Prop :=
  Refuses input c e ∨ ∃ q d, Asks input p c q d ∧ Fails input q d e

/-! No reader misses the end of a template but the one of templates. -/

theorem template_error (h : template input c = .error e) : PassedOn input .template c e := by
  rw [template] at h
  rcases bind_eq_error h with h | ⟨⟨_, c₁, h₁⟩, hopen, h⟩
  · exact .inl (expect_error h)
  · exact .inr ⟨_, c₁, .templateTail (.of_expect hopen), error_of_bind h⟩

theorem templateTail_error {current : String} (h : templateTail input current c = .error e) :
    PassedOn input (.templateTail current) c e ∨ c.peek.bind piece? = none := by
  rw [templateTail] at h
  split at h
  · rename_i l c₁ h₁ hread
    have hl := Cursor.Passes.of_read hread
    split at h
    · rename_i piece hpiece
      exact .inl (.inr ⟨_, c₁, .afterText ⟨l, hl, rfl⟩ hpiece, error_of_bind h⟩)
    · rename_i hpiece
      have ht : l.token = .interpolation := by
        unfold piece? at hpiece
        split at hpiece <;> simp_all
      rcases bind_eq_error h with h | ⟨⟨e', c₂, h₂⟩, he', h⟩
      · exact .inl (.inr ⟨_, c₁, .interpolated ⟨l, hl, ht⟩, h⟩)
      · have he' : Reads input .assignment c₁ e' c₂ := follows input c₁ ⟨h₂, he'⟩
        rcases bind_eq_error h with h | ⟨⟨_, c₃, h₃⟩, hclose, h⟩
        · exact .inl (.inl ((expect_error h).after (hl.onward.trans he'.onward)))
        · exact .inl (.inr
            ⟨_, c₃, .afterInterpolation ⟨l, hl, ht⟩ he' (.of_expect hclose), error_of_bind h⟩)
    · cases h
    · rename_i hpiece
      exact .inr (by rw [hl.peek]; exact hpiece)
  · rename_i hread
    exact .inr (by simp [Cursor.peek, Cursor.read_eq_none_iff.mp hread])

theorem parenthesized_error (h : parenthesized input c = .error e) : PassedOn input .parenthesized c e := by
  rw [parenthesized] at h
  rcases bind_eq_error h with h | ⟨⟨_, c₁, h₁⟩, hopen, h⟩
  · exact .inl (expect_error h)
  · have hopen := Cursor.Takes.of_expect hopen
    rcases bind_eq_error h with h | ⟨⟨e', c₂, h₂⟩, he', h⟩
    · exact .inr ⟨_, c₁, .parenthesized hopen, h⟩
    · have he' : Reads input .assignment c₁ e' c₂ := follows input c₁ ⟨h₂, he'⟩
      exact .inl ((expect_error (error_of_bind h)).after (hopen.onward.trans he'.onward))

theorem primary_error (h : primary input c = .error e) : PassedOn input .primary c e := by
  rw [primary] at h
  split at h
  · cases h
    exact .inl (refuses_unexpected ⟨'a', rfl, by decide⟩)
  · rename_i l c₁ h₁ hread
    have hl := Cursor.Passes.of_read hread
    split at h
    · rename_i ht
      exact .inr ⟨_, c, .template (by simp [Cursor.isAt, hl.peek, ht]), error_of_bind h⟩
    iterate 5 cases h
    · rename_i ht
      rcases bind_eq_error h with h | ⟨⟨e', c₂, h₂⟩, he', h⟩
      · exact .inr ⟨_, c₁, .group ⟨l, hl, ht⟩, h⟩
      · have he' : Reads input .assignment c₁ e' c₂ := follows input c₁ ⟨h₂, he'⟩
        exact .inl ((expect_error (error_of_bind h)).after (hl.onward.trans he'.onward))
    · rename_i ht
      exact .inr ⟨_, c₁, .elements ⟨l, hl, ht⟩, error_of_bind h⟩
    · rename_i ht
      exact .inr ⟨_, c₁, .properties ⟨l, hl, ht⟩, error_of_bind h⟩
    · cases h
      exact .inl (refuses_unexpected ⟨'a', rfl, by decide⟩)

theorem accessTail_error {start : Nat} {a : Expr} (h : accessTail input start a c = .error e) :
    PassedOn input (.accessTail start a) c e := by
  rw [accessTail] at h
  split at h
  · rename_i l c₁ h₁ hread
    have hl := Cursor.Passes.of_read hread
    split at h
    · rename_i ht
      rcases bind_eq_error h with h | ⟨⟨label, c₂, h₂⟩, hlabel, h⟩
      · exact .inl ((propertyName_error h).after hl.onward)
      · exact .inr ⟨_, c₂.tick, .afterMember ⟨l, hl, ht⟩ (.of_propertyName hlabel), error_of_bind h⟩
    · rename_i ht
      rcases bind_eq_error h with h | ⟨⟨key, c₂, h₂⟩, hkey, h⟩
      · exact .inr ⟨_, c₁, .key ⟨l, hl, ht⟩, h⟩
      · have hkey : Reads input .assignment c₁ key c₂ := follows input c₁ ⟨h₂, hkey⟩
        rcases bind_eq_error h with h | ⟨⟨_, c₃, h₃⟩, hclose, h⟩
        · exact .inl ((expect_error h).after (hl.onward.trans hkey.onward))
        · exact .inr ⟨_, c₃.tick, .afterIndex ⟨l, hl, ht⟩ hkey (.of_expect hclose), error_of_bind h⟩
    · rename_i ht
      rcases bind_eq_error h with h | ⟨⟨args, c₂, h₂⟩, hargs, h⟩
      · exact .inr ⟨_, c₁, .arguments ⟨l, hl, ht⟩, h⟩
      · exact .inr
          ⟨_, c₂.tick, .afterCall ⟨l, hl, ht⟩ (follows input c₁ ⟨h₂, hargs⟩), error_of_bind h⟩
    · rename_i ht
      rcases bind_eq_error h with h | ⟨⟨quasi, c₂, h₂⟩, hquasi, h⟩
      · exact .inr ⟨_, c, .tagged (by simp [Cursor.isAt, hl.peek, ht]), h⟩
      · exact .inr ⟨_, c₂.tick, .afterTagged (follows input c ⟨h₂, hquasi⟩), error_of_bind h⟩
    · cases h
  · cases h

theorem access_error (h : access input c = .error e) : PassedOn input .access c e := by
  rw [access] at h
  rcases bind_eq_error h with h | ⟨⟨a, c₁, h₁⟩, ha, h⟩
  · exact .inr ⟨_, c, .accessed, h⟩
  · exact .inr ⟨_, c₁, .accesses (follows input c ⟨h₁, ha⟩), error_of_bind h⟩

theorem unary_error (h : unary input c = .error e) : PassedOn input .unary c e := by
  cases hop : c.unaryOp? with
  | none =>
      rw [unary_eq_access hop] at h
      exact .inr ⟨_, c, .unsigned hop, h⟩
  | some op =>
      rw [unary] at h
      split at h
      · rename_i l c₁ h₁ hread
        have hl := Cursor.Passes.of_read hread
        split at h
        · rename_i s ht
          split at h
          · rename_i op hop
            split at h
            · cases h
            · rename_i hn
              refine .inr ⟨_, c₁, .signed ⟨l, hl, ht⟩ hop ?_, error_of_bind h⟩
              rintro ⟨rfl, hnumber⟩
              obtain ⟨n, c₂, ⟨t, start, stop, afterBreak⟩, hl₂, ht₂⟩ := Cursor.takes_of_atNumber hnumber
              cases ht₂
              exact hn n start stop afterBreak c₂ hl₂.size_lt rfl hl₂.read
          · rename_i hnone
            simp [Cursor.unaryOp?, hl.peek, ht, hnone] at hop
        · rename_i hs
          unfold Cursor.unaryOp? at hop
          split at hop
          · rename_i s hpeek
            rw [hl.peek] at hpeek
            exact absurd (Option.some.inj hpeek) (hs s)
          · cases hop
      · rename_i hread
        simp [Cursor.unaryOp?, Cursor.peek, Cursor.read_eq_none_iff.mp hread] at hop

theorem exponent_error (h : exponent input c = .error e) : PassedOn input .exponent c e := by
  rw [exponent] at h
  rcases bind_eq_error h with h | ⟨⟨base, c₁, h₁⟩, hbase, h⟩
  · exact .inr ⟨_, c, .base, h⟩
  · dsimp only at h
    split at h
    · rename_i c₂ h₂ heat
      exact .inr ⟨_, c₂, .power (follows input c ⟨h₁, hbase⟩) (.of_eat heat), error_of_bind h⟩
    · cases h

theorem binaryTail_error {level start : Nat} {left : Expr} (h : binaryTail input level start left c = .error e) :
    PassedOn input (.binaryTail level start left) c e := by
  rw [binaryTail] at h
  split at h
  · rename_i l c₁ h₁ hread
    have hl := Cursor.Passes.of_read hread
    split at h
    · rename_i s ht
      split at h
      · rename_i op hop
        rcases bind_eq_error h with h | ⟨⟨right, c₂, h₂⟩, hright, h⟩
        · exact .inr ⟨_, c₁, .rightOperand ⟨l, hl, ht⟩ hop, h⟩
        · exact .inr ⟨_, c₂.tick, .moreOperands ⟨l, hl, ht⟩ hop (follows input c₁ ⟨h₂, hright⟩),
            error_of_bind h⟩
      · cases h
    · cases h
  · cases h

theorem binary_error {level : Nat} (h : binary input level c = .error e) : PassedOn input (.binary level) c e := by
  rw [binary] at h
  split at h
  · rename_i hlevel
    rcases bind_eq_error h with h | ⟨⟨left, c₁, h₁⟩, hleft, h⟩
    · exact .inr ⟨_, c, .operand hlevel, h⟩
    · exact .inr ⟨_, c₁, .operands hlevel (follows input c ⟨h₁, hleft⟩), error_of_bind h⟩
  · rename_i hlevel
    exact .inr ⟨_, c, .tightest hlevel, h⟩

theorem conditional_error (h : conditional input c = .error e) : PassedOn input .conditional c e := by
  rw [conditional] at h
  rcases bind_eq_error h with h | ⟨⟨test, c₁, h₁⟩, htest, h⟩
  · exact .inr ⟨_, c, .choice, h⟩
  · have htest : Reads input (.binary 0) c test c₁ := follows input c ⟨h₁, htest⟩
    dsimp only at h
    split at h
    · rename_i c₂ h₂ heat
      have hask := Cursor.Takes.of_eat heat
      rcases bind_eq_error h with h | ⟨⟨e', c₃, h₃⟩, he', h⟩
      · exact .inr ⟨_, c₂, .chosen htest hask, h⟩
      · have he' : Reads input .assignment c₂ e' c₃ := follows input c₂ ⟨h₃, he'⟩
        rcases bind_eq_error h with h | ⟨⟨_, c₄, h₄⟩, hcolon, h⟩
        · exact .inl ((expect_error h).after ((htest.onward.trans hask.onward).trans he'.onward))
        · exact .inr ⟨_, c₄, .otherwise htest hask he' (.of_expect hcolon), error_of_bind h⟩
    · cases h

theorem arrow_error (h : arrow input c = .error e) : PassedOn input .arrow c e := by
  rw [arrow] at h
  rcases bind_eq_error h with h | ⟨⟨ps, c₁, h₁⟩, hps, h⟩
  · exact .inl (arrowParams_error h)
  · have hps : Reads input .arrowParams c ps c₁ := follows input c ⟨h₁, hps⟩
    rcases bind_eq_error h with h | ⟨⟨_, c₂, h₂⟩, harrow, h⟩
    · exact .inl ((expect_error h).after hps.onward)
    · dsimp only at h
      split at h
      · rename_i c₃ h₃ hopen
        exact .inr ⟨_, c₃, .arrowBlock hps (.of_expect harrow) (.of_eat hopen), error_of_bind h⟩
      · rename_i hopen
        exact .inr ⟨_, c₂, .arrowExpr hps (.of_expect harrow) (Cursor.eat_eq_none_iff.mp hopen),
          error_of_bind h⟩

theorem assignment_error (h : assignment input c = .error e) : PassedOn input .assignment c e := by
  rw [assignment] at h
  split at h
  · rename_i ha
    exact .inr ⟨_, c, .arrow ha, h⟩
  · rename_i ha
    have ha : c.atArrow = false := Bool.eq_false_iff.mpr ha
    rcases bind_eq_error h with h | ⟨⟨target, c₁, h₁⟩, htarget, h⟩
    · exact .inr ⟨_, c, .target ha, h⟩
    · dsimp only at h
      split at h
      · rename_i c₂ h₂ heat
        exact .inr
          ⟨_, c₂, .assigned ha (follows input c ⟨h₁, htarget⟩) (.of_eat heat), error_of_bind h⟩
      · cases h

theorem exprs_error {s : Symbol} (h : exprs input s c = .error e) : PassedOn input (.exprs s) c e := by
  rw [exprs] at h
  split at h
  · cases h
  · rename_i heat
    have hn := Cursor.eat_eq_none_iff.mp heat
    rcases bind_eq_error h with h | ⟨⟨a, c₁, h₁⟩, ha, h⟩
    · exact .inr ⟨_, c, .exprsHead hn, h⟩
    · have ha : Reads input .assignment c a c₁ := follows input c ⟨h₁, ha⟩
      dsimp only at h
      split at h
      · rename_i c₂ h₂ hcomma
        exact .inr ⟨_, c₂, .exprsTail hn ha (.of_eat hcomma), error_of_bind h⟩
      · exact .inl ((expect_error (error_of_bind h)).after ha.onward)

theorem propertyValue_error (h : propertyValue input c = .error e) : PassedOn input .propertyValue c e := by
  rw [propertyValue] at h
  rcases bind_eq_error h with h | ⟨⟨_, c₁, h₁⟩, hcolon, h⟩
  · exact .inl (expect_error h)
  · exact .inr ⟨_, c₁, .value (.of_expect hcolon), error_of_bind h⟩

theorem property_error (h : property input c = .error e) : PassedOn input .property c e := by
  rw [property] at h
  split at h
  · rename_i c₁ h₁ hread
    exact .inr ⟨_, c₁, .literalValue (.of_read hread) rfl, error_of_bind h⟩
  · rename_i c₁ h₁ hread
    exact .inr ⟨_, c₁, .literalValue (.of_read hread) rfl, error_of_bind h⟩
  · rename_i c₁ h₁ hread
    have hopen := Cursor.Passes.of_read hread
    rcases bind_eq_error h with h | ⟨⟨key, c₂, h₂⟩, hkey, h⟩
    · exact .inr ⟨_, c₁, .computedKey ⟨_, hopen, rfl⟩, h⟩
    · have hkey : Reads input .assignment c₁ key c₂ := follows input c₁ ⟨h₂, hkey⟩
      rcases bind_eq_error h with h | ⟨⟨_, c₃, h₃⟩, hclose, h⟩
      · exact .inl ((expect_error h).after (hopen.onward.trans hkey.onward))
      · exact .inr
          ⟨_, c₃, .computedValue ⟨_, hopen, rfl⟩ hkey (.of_expect hclose), error_of_bind h⟩
  · rcases bind_eq_error h with h | ⟨⟨id, c₁, h₁⟩, hid, h⟩
    · exact .inl (propertyName_error h)
    · dsimp only at h
      split at h
      · cases h
      · rename_i hend
        exact .inr ⟨_, c₁, .namedValue (.of_propertyName hid) (Bool.eq_false_iff.mpr hend),
          error_of_bind h⟩

theorem properties_error (h : properties input c = .error e) : PassedOn input .properties c e := by
  rw [properties] at h
  split at h
  · cases h
  · rename_i heat
    rcases bind_eq_error h with h | ⟨⟨p, c₁, h₁⟩, hp, h⟩
    · exact .inr ⟨_, c, .propertiesHead (Cursor.eat_eq_none_iff.mp heat), h⟩
    · have hp : Reads input .property c p c₁ := follows input c ⟨h₁, hp⟩
      dsimp only at h
      split at h
      · rename_i c₂ h₂ hcomma
        exact .inr ⟨_, c₂, .propertiesTail hp (.of_eat hcomma), error_of_bind h⟩
      · exact .inl ((expect_error (error_of_bind h)).after hp.onward)

theorem declarator_error (h : declarator input c = .error e) : PassedOn input .declarator c e := by
  rw [declarator] at h
  rcases bind_eq_error h with h | ⟨⟨p, c₁, h₁⟩, hp, h⟩
  · exact .inl (pattern_error h)
  · dsimp only at h
    split at h
    · rename_i c₂ h₂ heat
      exact .inr ⟨_, c₂, .initial (follows input c ⟨h₁, hp⟩) (.of_eat heat), error_of_bind h⟩
    · cases h

theorem declarators_error (h : declarators input c = .error e) : PassedOn input .declarators c e := by
  rw [declarators] at h
  rcases bind_eq_error h with h | ⟨⟨d, c₁, h₁⟩, hd, h⟩
  · exact .inr ⟨_, c, .declaratorsHead, h⟩
  · dsimp only at h
    split at h
    · rename_i c₂ h₂ hcomma
      exact .inr
        ⟨_, c₂, .declaratorsTail (follows input c ⟨h₁, hd⟩) (.of_eat hcomma), error_of_bind h⟩
    · cases h

theorem statement_error (h : statement input c = .error e) : PassedOn input .statement c e := by
  cases hstmt : c.atStatement with
  | false =>
      rw [statement_eq_of_not_atStatement hstmt] at h
      exact .inr ⟨_, c, .bare hstmt, error_of_bind h⟩
  | true =>
      rw [statement] at h
      split at h
      · rename_i hread
        simp [Cursor.atStatement, Cursor.peek, Cursor.read_eq_none_iff.mp hread] at hstmt
      · rename_i l c₁ h₁ hread
        have hl := Cursor.Passes.of_read hread
        split at h
        · cases h
        · rename_i ht
          split at h
          · cases h
          · rename_i hends
            exact .inr
              ⟨_, c₁, .returned ⟨l, hl, ht⟩ (Bool.eq_false_iff.mpr hends), error_of_bind h⟩
        · rename_i ht
          exact .inr ⟨_, c₁, .braced ⟨l, hl, ht⟩, error_of_bind h⟩
        · rename_i ht
          rcases bind_eq_error h with h | ⟨⟨test, c₂, h₂⟩, htest, h⟩
          · exact .inr ⟨_, c₁, .ifTest ⟨l, hl, ht⟩, h⟩
          · have htest : Reads input .parenthesized c₁ test c₂ := follows input c₁ ⟨h₂, htest⟩
            rcases bind_eq_error h with h | ⟨⟨s, c₃, h₃⟩, hs, h⟩
            · exact .inr ⟨_, c₂, .consequent ⟨l, hl, ht⟩ htest, h⟩
            · dsimp only at h
              split at h
              · rename_i c₄ h₄ helse
                have hs : Reads input .required c₂ s c₃ := follows input c₂ ⟨h₃, hs⟩
                exact .inr
                  ⟨_, c₄, .alternate ⟨l, hl, ht⟩ htest hs (.of_eatKeyword helse), error_of_bind h⟩
              · cases h
        · rename_i ht
          rcases bind_eq_error h with h | ⟨⟨test, c₂, h₂⟩, htest, h⟩
          · exact .inr ⟨_, c₁, .whileTest ⟨l, hl, ht⟩, h⟩
          · exact .inr
              ⟨_, c₂, .whileBody ⟨l, hl, ht⟩ (follows input c₁ ⟨h₂, htest⟩), error_of_bind h⟩
        · split at h
          · rename_i kind hkind
            exact .inr ⟨_, c₁, .declared ⟨l, hl, rfl⟩ hkind, error_of_bind h⟩
          · rename_i hkind
            unfold Cursor.atStatement at hstmt
            rw [hl.peek] at hstmt
            split at hstmt <;> simp_all

theorem required_error (h : requiredStatement input c = .error e) : PassedOn input .required c e := by
  rw [requiredStatement] at h
  rcases bind_eq_error h with h | ⟨⟨s, c₁, h₁⟩, -, h⟩
  · exact .inr ⟨_, c, .required, h⟩
  · cases s <;> cases h

theorem block_error (h : block input c = .error e) : PassedOn input .block c e := by
  rw [block] at h
  split at h
  · cases h
  · rename_i heat
    have hn := Cursor.eat_eq_none_iff.mp heat
    split at h
    · cases h
      exact .inl (refuses_unexpected ⟨'\x60', rfl, by decide⟩)
    · rename_i hrest
      rcases bind_eq_error h with h | ⟨⟨s, c₁, h₁⟩, hs, h⟩
      · exact .inr ⟨_, c, .blockHead hn (by simpa using hrest), h⟩
      · exact .inr ⟨_, c₁, .blockTail hn (follows input c ⟨h₁, hs⟩), error_of_bind h⟩

end

end Parser

/-- How far a reader may go down at one cursor. -/
def Phrase.rank : Phrase → Nat
  | .names _ | .pattern | .params | .arrowParams => 0
  | .binaryTail _ _ _ => 0
  | .template => 1
  | .primary => 2
  | .accessTail _ _ => 3
  | .access => 4
  | .unary => 5
  | .exponent => 6
  | .binary level => 7 + (6 - level)
  | .conditional => 14
  | .arrow => 15
  | .assignment => 16
  | .declarator | .parenthesized | .exprs _ | .propertyValue | .templateTail _ => 17
  | .declarators | .property => 18
  | .properties => 19
  | .statement => 20
  | .required | .block => 21

theorem Asks.descends {input : Input} {p q : Phrase} {c d : Cursor} (h : Asks input p c q d) :
    d.size < c.size ∨ d.size = c.size ∧ q.rank < p.rank := by
  cases h <;> grind [→ Cursor.Takes.size_lt, → Cursor.TakesLabel.size_lt, → Cursor.Passes.size_lt, → Reads.size_lt,
    Phrase.rank, Phrase.isTail, Cursor.size_tick]

theorem Asks.onward {input : Input} {p q : Phrase} {c d : Cursor} (h : Asks input p c q d) : c.Onward d := by
  cases h <;> grind [→ Cursor.Takes.onward, → Cursor.TakesLabel.onward, → Cursor.Passes.onward, → Reads.onward,
    → Cursor.Onward.trans, Cursor.Onward.refl, Cursor.onward_tick]

namespace Parser

variable {input : Input}

/-- One reader asks for another, that one for the next, and so on. -/
def Reaches (input : Input) : Phrase × Cursor → Phrase × Cursor → Prop :=
  Relation.ReflTransGen fun x y => Asks input x.1 x.2 y.1 y.2

theorem Reaches.onward {x y : Phrase × Cursor} (h : Reaches input x y) : x.2.Onward y.2 := by
  induction h with
  | refl => exact .refl _
  | tail _ hasks ih => exact ih.trans hasks.onward

theorem passedOn {p : Phrase} {c : Cursor} {e : SyntaxError} (h : Fails input p c e) :
    PassedOn input p c e ∨ ∃ current, p = .templateTail current ∧ c.peek.bind piece? = none := by
  cases p
  case names => exact .inl (.inl (patternIdents_error h))
  case pattern => exact .inl (.inl (pattern_error h))
  case params => exact .inl (.inl (params_error h))
  case arrowParams => exact .inl (.inl (arrowParams_error h))
  case statement => exact .inl (statement_error h)
  case required => exact .inl (required_error h)
  case block => exact .inl (block_error h)
  case declarators => exact .inl (declarators_error h)
  case declarator => exact .inl (declarator_error h)
  case parenthesized => exact .inl (parenthesized_error h)
  case assignment => exact .inl (assignment_error h)
  case arrow => exact .inl (arrow_error h)
  case conditional => exact .inl (conditional_error h)
  case binary => exact .inl (binary_error h)
  case binaryTail => exact .inl (binaryTail_error h)
  case exponent => exact .inl (exponent_error h)
  case unary => exact .inl (unary_error h)
  case access => exact .inl (access_error h)
  case accessTail => exact .inl (accessTail_error h)
  case exprs => exact .inl (exprs_error h)
  case primary => exact .inl (primary_error h)
  case properties => exact .inl (properties_error h)
  case property => exact .inl (property_error h)
  case propertyValue => exact .inl (propertyValue_error h)
  case template => exact .inl (template_error h)
  case templateTail current => exact (templateTail_error h).imp id fun h => ⟨current, rfl, h⟩

/-- An error comes from a reader that was asked for and refuses what it has come to, or from a reader of templates that
stands at no part of one. The induction goes down with the readers. -/
theorem exists_refuses {p : Phrase} {c : Cursor} {e : SyntaxError} (h : Fails input p c e) :
    ∃ q d, Reaches input (p, c) (q, d) ∧
      (Refuses input d e ∨ ∃ current, q = .templateTail current ∧ d.peek.bind piece? = none) := by
  rcases passedOn h with (hrefuses | ⟨q, d, hasks, hfails⟩) | hend
  · exact ⟨p, c, .refl, .inl hrefuses⟩
  · have hdescends := hasks.descends
    obtain ⟨q', d', hreaches, h'⟩ := exists_refuses hfails
    exact ⟨q', d', .head hasks hreaches, h'⟩
  · exact ⟨p, c, .refl, .inr hend⟩
termination_by (c.size, p.rank)
decreasing_by exact Prod.lex_def.mpr hdescends

/-- An error that misses the end of a template comes from a reader of templates that stands at no part of one. -/
theorem exists_reaches {p : Phrase} {c : Cursor} {e : SyntaxError} (h : Fails input p c e)
    (hmiss : e.MissesTemplateEnd) :
    ∃ current d, Reaches input (p, c) (.templateTail current, d) ∧ d.peek.bind piece? = none := by
  obtain ⟨q, d, hreaches, hrefuses | ⟨current, rfl, hpeek⟩⟩ := exists_refuses h
  · exact absurd hmiss hrefuses.not_missesTemplateEnd
  · exact ⟨current, d, hreaches, hpeek⟩

end Parser

end ScriptTypes
