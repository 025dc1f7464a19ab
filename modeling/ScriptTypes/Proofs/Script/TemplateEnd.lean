import ScriptTypes.Proofs.Script.Descent
import ScriptTypes.Proofs.Script.Nesting
import ScriptTypes.Proofs.Token.Lossless

/-! Lexer and parser agree on where a template ends. The lexer counts braces and knows no grammar, the parser follows
the grammar and counts nothing. What the parser reads is nested well, so wherever it asks for a part of a template the
lexer was in that template. -/

namespace ScriptTypes

/-- Whether a phrase starts inside of a template. -/
def Phrase.inTemplate : Phrase → Bool
  | .templateTail _ => true
  | _ => false

namespace Cursor

/-- The lexemes before a cursor leave the lexer in script text, or in a template. -/
def Standing (ls : List Lexeme) (n : Bool) (c : Cursor) : Prop :=
  ∃ before start k left, ls = before ++ c.rest ∧ Modes.initial.along before = Modes.within start k left n

variable {input : Input} {ls : List Lexeme} {c c₁ c₂ c₃ : Cursor} {t : Token}

theorem Standing.cross (h : c.Standing ls false) (hcross : c.Crosses (Nested false) c₁) : c₁.Standing ls false := by
  obtain ⟨before, start, k, left, hls, hmodes⟩ := h
  obtain ⟨seg, hseg, hnested⟩ := hcross
  refine ⟨before ++ seg, start, k, left, by rw [hls, hseg, List.append_assoc], ?_⟩
  rw [Modes.along_append, hmodes]
  exact hnested.along start k left

theorem Standing.pass {n : Bool} {l : Lexeme} (h : c.Standing ls n) (hl : c.Passes l c₁) :
    ∃ before start k left, ls = before ++ c₁.rest ∧
      Modes.initial.along before = (Modes.within start k left n).after l.start l.token := by
  obtain ⟨before, start, k, left, hls, hmodes⟩ := h
  refine ⟨before ++ [l], start, k, left, by rw [hls, hl.rest, List.append_assoc]; rfl, ?_⟩
  rw [Modes.along_append, hmodes]
  rfl

theorem Standing.opened (b : Bracket) (h : c.Standing ls false) (ht : c.Takes (.symbol b.opening) c₁) :
    c₁.Standing ls false := by
  obtain ⟨l, hl, ht⟩ := ht
  obtain ⟨before, start, k, left, hls, hmodes⟩ := h.pass hl
  rw [ht] at hmodes
  cases b with
  | paren | square => exact ⟨before, start, k, left, hls, hmodes⟩
  | brace => exact ⟨before, start, k + 1, left, hls, hmodes⟩

theorem Standing.backtick (h : c.Standing ls false) (ht : c.Takes (.symbol .backtick) c₁) : c₁.Standing ls true := by
  obtain ⟨l, hl, ht⟩ := ht
  obtain ⟨before, start, k, left, hls, hmodes⟩ := h.pass hl
  rw [ht] at hmodes
  exact ⟨before, l.start, k, left, hls, hmodes⟩

theorem Standing.text {piece : String} (h : c.Standing ls true) (ht : c.Takes t c₁)
    (hpiece : Parser.piece? t = some (.text piece)) : c₁.Standing ls true := by
  obtain ⟨l, hl, rfl⟩ := ht
  obtain ⟨before, start, k, left, hls, hmodes⟩ := h.pass hl
  rw [Modes.after_text hpiece] at hmodes
  exact ⟨before, start, k, left, hls, hmodes⟩

theorem Standing.interpolation (h : c.Standing ls true) (ht : c.Takes .interpolation c₁) : c₁.Standing ls false := by
  obtain ⟨l, hl, ht⟩ := ht
  obtain ⟨before, start, k, left, hls, hmodes⟩ := h.pass hl
  rw [ht] at hmodes
  exact ⟨before, 0, 0, .template start :: .plain k :: left, hls, hmodes⟩

end Cursor

/-- What one interpolation does to the modes of the lexer: the lexemes inside are nested well, the lexer stays deeper
than the template all the while, and it goes back to where it was at the brace after them. -/
structure Interpolates (modes : Modes) (l : Lexeme) (inner : List Lexeme) : Prop where
  nested : Nested false inner
  deeper : ∀ part, part <+: inner → modes.left.length < (modes.along (l :: part)).left.length
  back : ∀ l', l'.token = .symbol .rBrace → modes.along (l :: (inner ++ [l'])) = modes

theorem Nested.interpolates {inner : List Lexeme} (h : Nested false inner) {l : Lexeme} (hl : l.token = .interpolation)
    (start k : Nat) (left : List Mode) : Interpolates (Modes.within start k left true) l inner := by
  have hkeeps := h.keeps 0 0 (.template start :: .plain k :: left)
  refine ⟨h, fun part hpart => ?_, fun l' hl' => ?_⟩
  · rw [Modes.along_cons, hl]
    exact hkeeps part hpart
  · rw [Modes.along_cons, Modes.along_append, hl]
    have halong := h.along 0 0 (.template start :: .plain k :: left)
    refine (congrArg (Modes.along · [l']) halong).trans ?_
    rw [Modes.along_cons, hl']
    rfl

theorem Cursor.Standing.afterInterpolation {ls : List Lexeme} {c c₁ c₂ c₃ : Cursor} (h : c.Standing ls true)
    (h₁ : c.Takes .interpolation c₁) (h₂ : c₁.Crosses (Nested false) c₂) (h₃ : c₂.Takes (.symbol .rBrace) c₃) :
    c₃.Standing ls true := by
  obtain ⟨before, start, k, left, hls, hmodes⟩ := h
  obtain ⟨l, hl, ht⟩ := h₁
  obtain ⟨inner, hinner, hnested⟩ := h₂
  obtain ⟨l', hl', ht'⟩ := h₃
  refine ⟨before ++ l :: (inner ++ [l']), start, k, left, ?_, ?_⟩
  · simp [hls, hl.rest, hinner, hl'.rest]
  · rw [Modes.along_append, hmodes]
    exact (hnested.interpolates ht start k left).back l' ht'

/-- A reader that is asked for stands as its phrase needs it. -/
theorem Asks.standing {input : Input} {p q : Phrase} {c d : Cursor} {ls : List Lexeme} (h : Asks input p c q d)
    (hc : c.Standing ls p.inTemplate) : d.Standing ls q.inTemplate := by
  cases h with
  | returned h₁ | ifTest h₁ | whileTest h₁ => exact hc.cross (h₁.atom rfl)
  | value h₁ => exact hc.cross (h₁.atom rfl)
  | declared h₁ hkind => exact hc.cross (h₁.atom (Parser.isAtom_of_declKind? hkind))
  | consequent h₁ h₂ | whileBody h₁ h₂ => exact (hc.cross (h₁.atom rfl)).cross h₂.crosses
  | alternate h₁ h₂ h₃ h₄ => exact (((hc.cross (h₁.atom rfl)).cross h₂.crosses).cross h₃.crosses).cross (h₄.atom rfl)
  | bare | required | blockHead | declaratorsHead | arrow | target | choice | operand | tightest | base | unsigned
  | accessed | tagged | exprsHead | template | propertiesHead => exact hc
  | blockTail _ h₁ => exact hc.cross h₁.crosses
  | operands _ h₁ => exact hc.cross h₁.crosses
  | accesses h₁ => exact hc.cross h₁.crosses
  | afterTagged h₁ => exact hc.cross h₁.crosses
  | declaratorsTail h₁ h₂ | initial h₁ h₂ | power h₁ h₂ | propertiesTail h₁ h₂ | chosen h₁ h₂ =>
      exact (hc.cross h₁.crosses).cross (h₂.atom rfl)
  | assigned _ h₁ h₂ | exprsTail _ h₁ h₂ => exact (hc.cross h₁.crosses).cross (h₂.atom rfl)
  | arrowExpr h₁ h₂ _ => exact (hc.cross h₁.crosses).cross (h₂.atom rfl)
  | arrowBlock h₁ h₂ h₃ => exact ((hc.cross h₁.crosses).cross (h₂.atom rfl)).opened .brace h₃
  | otherwise h₁ h₂ h₃ h₄ => exact (((hc.cross h₁.crosses).cross (h₂.atom rfl)).cross h₃.crosses).cross (h₄.atom rfl)
  | braced h₁ | properties h₁ => exact hc.opened .brace h₁
  | parenthesized h₁ | arguments h₁ | group h₁ => exact hc.opened .paren h₁
  | key h₁ | elements h₁ | computedKey h₁ => exact hc.opened .square h₁
  | rightOperand h₁ hop => exact hc.cross (h₁.atom (BinaryOp.isAtom_of_ofSymbol? hop))
  | moreOperands h₁ hop h₂ => exact (hc.cross (h₁.atom (BinaryOp.isAtom_of_ofSymbol? hop))).cross h₂.crosses
  | signed h₁ hop _ => exact hc.cross (h₁.atom (UnaryOp.isAtom_of_ofSymbol? hop))
  | afterMember h₁ h₂ => exact (hc.cross (h₁.atom rfl)).cross h₂.crosses
  | afterIndex h₁ h₂ h₃ => exact hc.cross (h₁.enclose .square (h₂.crosses.close h₃.closed))
  | afterCall h₁ h₂ => exact hc.cross (h₁.enclose .paren h₂.crosses)
  | literalValue h₁ hv => exact hc.cross (Cursor.Takes.atom ⟨_, h₁, rfl⟩ (Literal.isAtom_of_ofKey? hv))
  | computedValue h₁ h₂ h₃ => exact hc.cross (h₁.enclose .square (h₂.crosses.close h₃.closed))
  | namedValue h₁ _ => exact hc.cross h₁.crosses
  | templateTail h₁ => exact hc.backtick h₁
  | afterText h₁ ht => exact hc.text h₁ ht
  | interpolated h₁ => exact hc.interpolation h₁
  | afterInterpolation h₁ h₂ h₃ => exact hc.afterInterpolation h₁ h₂.crosses h₃

namespace Parser

theorem Reaches.standing {input : Input} {x y : Phrase × Cursor} {ls : List Lexeme} (h : Reaches input x y)
    (hx : x.2.Standing ls x.1.inTemplate) : y.2.Standing ls y.1.inTemplate := by
  induction h with
  | refl => exact hx
  | tail _ hasks ih => exact hasks.standing ih

/-- The cursors at which statements are read one after the other. -/
inductive Starts (input : Input) (c : Cursor) : Cursor → Prop
  | first : Starts input c c
  | next {d s d₁} (h : Starts input c d) (hrest : d.rest ≠ []) (hs : Reads input .statement d s d₁) : Starts input c d₁

theorem Starts.standing {input : Input} {c d : Cursor} {ls : List Lexeme} (h : Starts input c d)
    (hc : c.Standing ls false) : d.Standing ls false := by
  induction h with
  | first => exact hc
  | next _ _ hs ih => exact ih.cross hs.crosses

/-- A failure of a script is that of one of its statements. -/
theorem statements_error {input : Input} {c c₀ : Cursor} {e : SyntaxError} (h : statements input c = .error e)
    (hc : Starts input c₀ c) : ∃ d, Starts input c₀ d ∧ d.rest ≠ [] ∧ Fails input .statement d e := by
  rw [statements] at h
  split at h
  · cases h
  · rename_i hrest
    have hrest : c.rest ≠ [] := by simpa using hrest
    rcases bind_eq_error h with h | ⟨⟨s, c₁, h₁⟩, hs, h⟩
    · exact ⟨c, hc, hrest, h⟩
    · exact statements_error (error_of_bind h) (.next hc hrest (follows input c ⟨h₁, hs⟩))
termination_by c.size

end Parser

namespace Script

/-- The reader of a phrase is at work at a cursor when a script is parsed. -/
def ReadsAt (file : Nat) (source : String) (p : Phrase) (c : Cursor) : Prop :=
  (lex source).error = none ∧ ∃ d, Parser.Starts ⟨file, source.utf8ByteSize⟩ ⟨(lex source).lexemes, none, 0⟩ d ∧
    d.rest ≠ [] ∧ Parser.Reaches ⟨file, source.utf8ByteSize⟩ (.statement, d) (p, c)

theorem ReadsAt.standing {file : Nat} {source : String} {p : Phrase} {c : Cursor} (h : ReadsAt file source p c) :
    c.Standing (lex source).lexemes p.inTemplate := by
  obtain ⟨-, d, hstarts, -, hreaches⟩ := h
  exact hreaches.standing (hstarts.standing ⟨[], 0, 0, [], rfl, rfl⟩)

/-- In a text without lexical errors a template has a next lexeme, and it belongs to the template. -/
theorem exists_template_lexeme {source : String} {before rest : List Lexeme} (hnone : (lex source).error = none)
    (hls : (lex source).lexemes = before ++ rest) (hmode : (Modes.initial.along before).inTemplate = true) :
    ∃ l ls, rest = l :: ls ∧ l.token.inTemplate = true := by
  have hreading := Lexed.reading_start source.toList
  cases rest with
  | nil =>
      have hending := (lex_covers source).ending hreading
      rw [hnone, hls, List.append_nil] at hending
      rw [hending.1] at hmode
      cases hmode
  | cons l ls =>
      have hstands := (lex_covers source).stands hreading before l ls hls
      exact ⟨l, ls, rfl, hstands.mode.trans hmode⟩

theorem piece?_isSome {t : Token} (h : t.inTemplate = true) : (Parser.piece? t).isSome = true := by
  cases t <;> first | rfl | cases h

/-- Lexer and parser agree on where a template ends. No error says that a template should have ended: wherever the
reader of a template goes on, the next lexeme is one of the template, because an interpolation is nested well and the
brace after it is the one where the lexer goes back. -/
theorem parse_template_end (file : Nat) (source : String) :
    (∀ e, Script.parse file source = .error e → ¬ e.MissesTemplateEnd) ∧
      ∀ current c, ReadsAt file source (.templateTail current) c →
        ∃ before l c₁, (lex source).lexemes = before ++ c.rest ∧ c.Passes l c₁ ∧ l.token.inTemplate = true ∧
          (l.token = .interpolation → ∀ e c₂ h,
            Parser.assignment ⟨file, source.utf8ByteSize⟩ c₁ = .ok ⟨e, c₂, h⟩ →
              ∃ inner, c₁.rest = inner ++ c₂.rest ∧ Interpolates (Modes.initial.along before) l inner) := by
  have hvisits (current : String) (c : Cursor) (h : ReadsAt file source (.templateTail current) c) :
      ∃ before start k left l ls, (lex source).lexemes = before ++ c.rest ∧ c.rest = l :: ls ∧
        l.token.inTemplate = true ∧ Modes.initial.along before = Modes.within start k left true := by
    obtain ⟨before, start, k, left, hls, hmodes⟩ := h.standing
    obtain ⟨l, ls, hrest, hl⟩ := exists_template_lexeme h.1 hls (by rw [hmodes]; rfl)
    exact ⟨before, start, k, left, l, ls, hls, hrest, hl, hmodes⟩
  refine ⟨fun e he hmiss => ?_, fun current c h => ?_⟩
  · unfold Script.parse at he
    dsimp only at he
    split at he
    · rename_i lexError _
      cases he
      obtain ⟨text, htext, -⟩ := hmiss
      unfold SyntaxError.ofLexError at htext
      split at htext <;> cases htext
    · rename_i hnone
      rcases bind_eq_error he with he | ⟨_, -, he⟩
      · obtain ⟨d, hstarts, hrest, hfails⟩ := Parser.statements_error he .first
        obtain ⟨current, c, hreaches, hpeek⟩ := Parser.exists_reaches hfails hmiss
        obtain ⟨_, _, _, _, l, ls, -, hc, hl, -⟩ := hvisits current c ⟨hnone, d, hstarts, hrest, hreaches⟩
        have hsome := piece?_isSome hl
        rw [Cursor.peek, hc] at hpeek
        simp only [List.head?_cons, Option.map_some, Option.bind_some] at hpeek
        rw [hpeek] at hsome
        cases hsome
      · cases he
  · obtain ⟨before, start, k, left, l, ls, hls, hrest, hl, hmodes⟩ := hvisits current c h
    refine ⟨before, l, ⟨ls, some l, c.nextId⟩, hls, ⟨hrest, rfl, rfl⟩, hl, fun ht e c₂ h' he => ?_⟩
    have hreads : Reads _ .assignment _ e c₂ := Parser.follows _ _ ⟨h', he⟩
    obtain ⟨inner, hinner, hnested⟩ := hreads.crosses
    exact ⟨inner, hinner, hmodes ▸ hnested.interpolates ht start k left⟩

end Script

end ScriptTypes
