import ScriptTypes.Proofs.Script.Grammar
import ScriptTypes.Proofs.Token.Modes

/-! What a phrase reads is nested well. Brackets and backticks close in the order they were opened, so the lexemes of a
phrase leave the modes of the lexer as they were. -/

namespace ScriptTypes

inductive Bracket where
  | paren | square | brace

def Bracket.opening : Bracket → Symbol
  | .paren => .lParen
  | .square => .lBracket
  | .brace => .lBrace

def Bracket.closing : Bracket → Symbol
  | .paren => .rParen
  | .square => .rBracket
  | .brace => .rBrace

/-- A token that opens and closes nothing and stands outside of templates. -/
def Token.isAtom : Token → Bool
  | .ident _ | .number _ | .string _ | .keyword _ => true
  | .symbol .lParen | .symbol .rParen | .symbol .lBracket | .symbol .rBracket | .symbol .lBrace | .symbol .rBrace
  | .symbol .backtick => false
  | .symbol _ => true
  | .text _ | .escaped _ | .interpolation | .templateEnd => false

/-- Lexemes that are nested well. The flag says that they start inside of a template; they then go up to its end. -/
inductive Nested : Bool → List Lexeme → Prop
  | nil : Nested false []
  | atom {l ls} (hl : l.token.isAtom = true) (h : Nested false ls) : Nested false (l :: ls)
  | pair {b l inner l' ls} (hl : l.token = .symbol (Bracket.opening b)) (hi : Nested false inner)
      (hl' : l'.token = .symbol b.closing) (h : Nested false ls) : Nested false (l :: (inner ++ l' :: ls))
  | template {l inside ls} (hl : l.token = .symbol .backtick) (hi : Nested true inside) (h : Nested false ls) :
      Nested false (l :: (inside ++ ls))
  | text {l piece ls} (hl : Parser.piece? l.token = some (.text piece)) (h : Nested true ls) : Nested true (l :: ls)
  | interpolation {l inner l' ls} (hl : l.token = .interpolation) (hi : Nested false inner)
      (hl' : l'.token = .symbol .rBrace) (h : Nested true ls) : Nested true (l :: (inner ++ l' :: ls))
  | close {l} (hl : l.token = .templateEnd) : Nested true [l]

theorem Nested.append {n : Bool} {ls ls' : List Lexeme} (h : Nested n ls) (hn : n = false) (h' : Nested false ls') :
    Nested false (ls ++ ls') := by
  induction h with
  | nil => exact h'
  | atom hl _ ih => exact .atom hl (ih rfl)
  | pair hl hi hl' _ _ ih => simpa using .pair hl hi hl' (ih rfl)
  | template hl hi _ _ ih => simpa using .template hl hi (ih rfl)
  | text | interpolation | close => cases hn

theorem Modes.after_atom {modes : Modes} {start : Nat} {t : Token} (h : t.isAtom = true) :
    modes.after start t = modes := by
  unfold Modes.after
  split <;> simp_all [Token.isAtom]

theorem Modes.after_text {modes : Modes} {start : Nat} {t : Token} {piece : String}
    (h : Parser.piece? t = some (.text piece)) : modes.after start t = modes := by
  unfold Modes.after
  split <;> simp_all [Parser.piece?]

/-- The modes in script text, or in a template that starts there. -/
def Modes.within (start k : Nat) (left : List Mode) : Bool → Modes
  | false => ⟨.plain k, left⟩
  | true => ⟨.template start, .plain k :: left⟩

/-- Nested lexemes leave the modes as they were. A template that is open is left at its end. -/
theorem Nested.along {n : Bool} {ls : List Lexeme} (h : Nested n ls) (start k : Nat) (left : List Mode) :
    (Modes.within start k left n).along ls = ⟨.plain k, left⟩ := by
  induction h generalizing start k left with
  | nil => rfl
  | atom hl _ ih =>
      rw [Modes.along_cons, Modes.after_atom hl]
      exact ih start k left
  | @pair b l inner l' ls hl _ hl' _ ihi ih =>
      rw [Modes.along_cons, Modes.along_append, Modes.along_cons, hl, hl']
      have hinner (k : Nat) : (Modes.mk (.plain k) left).along inner = ⟨.plain k, left⟩ := ihi start k left
      -- Only braces are counted.
      cases b <;> exact (congrArg (fun m => (Modes.after m _ _).along ls) (hinner _)).trans (ih start k left)
  | @template l inside ls hl _ _ ihi ih =>
      rw [Modes.along_cons, Modes.along_append, hl]
      exact (congrArg (Modes.along · ls) (ihi l.start k left)).trans (ih start k left)
  | text hl _ ih =>
      rw [Modes.along_cons, Modes.after_text hl]
      exact ih start k left
  | @interpolation l inner l' ls hl _ hl' _ ihi ih =>
      rw [Modes.along_cons, Modes.along_append, Modes.along_cons, hl, hl']
      have hinner := ihi 0 0 (.template start :: .plain k :: left)
      exact (congrArg (fun m => (Modes.after m _ _).along ls) hinner).trans (ih start k left)
  | close hl =>
      rw [Modes.along_cons, hl]
      rfl

/-- The modes keep at least the given depth up to each of the lexemes. -/
def Modes.Keeps (depth : Nat) (modes : Modes) (ls : List Lexeme) : Prop :=
  ∀ part, part <+: ls → depth ≤ (modes.along part).left.length

theorem Modes.Keeps.nil {depth : Nat} {modes : Modes} (h : depth ≤ modes.left.length) : modes.Keeps depth [] := by
  intro part hpart
  rw [List.prefix_nil.mp hpart]
  exact h

theorem Modes.Keeps.cons {depth : Nat} {modes : Modes} {l : Lexeme} {ls : List Lexeme} (h : depth ≤ modes.left.length)
    (hls : (modes.after l.start l.token).Keeps depth ls) : modes.Keeps depth (l :: ls) := by
  intro part hpart
  rcases List.prefix_cons_iff.mp hpart with rfl | ⟨part', rfl, hpart'⟩
  · exact h
  · exact hls part' hpart'

theorem Modes.Keeps.tail {depth : Nat} {modes : Modes} {l : Lexeme} {ls : List Lexeme}
    (h : modes.Keeps depth (l :: ls)) :
    (modes.after l.start l.token).Keeps depth ls :=
  fun part hpart => h (l :: part) (List.cons_prefix_cons.mpr ⟨rfl, hpart⟩)

theorem Modes.Keeps.append {depth : Nat} {modes modes' : Modes} {ls ls' : List Lexeme} (h : modes.Keeps depth ls)
    (halong : modes.along ls = modes') (h' : modes'.Keeps depth ls') : modes.Keeps depth (ls ++ ls') := by
  induction ls generalizing modes with
  | nil =>
      subst halong
      exact h'
  | cons l ls ih => exact .cons (h [] List.nil_prefix) (ih h.tail halong)

theorem Modes.Keeps.mono {depth depth' : Nat} {modes : Modes} {ls : List Lexeme} (h : modes.Keeps depth ls)
    (hle : depth' ≤ depth) : modes.Keeps depth' ls :=
  fun part hpart => Nat.le_trans hle (h part hpart)

/-- Inside of nested lexemes the lexer never falls below the depth it had before them. -/
theorem Nested.keeps {n : Bool} {ls : List Lexeme} (h : Nested n ls) (start k : Nat) (left : List Mode) :
    (Modes.within start k left n).Keeps left.length ls := by
  induction h generalizing start k left with
  | nil => exact .nil (Nat.le_refl _)
  | atom hl _ ih =>
      refine .cons (Nat.le_refl _) ?_
      rw [Modes.after_atom hl]
      exact ih start k left
  | @pair b l inner l' ls hl hi hl' _ ihi ih =>
      have hrest (k' : Nat) (hk : (Modes.mk (.plain k') left).after l'.start l'.token = ⟨.plain k, left⟩) :
          (Modes.mk (.plain k') left).Keeps left.length (l' :: ls) :=
        .cons (Nat.le_refl _) (hk ▸ ih start k left)
      refine .cons (Nat.le_refl _) ?_
      rw [hl]
      cases b with
      | paren | square => exact (ihi start k left).append (hi.along start k left) (hrest k (by rw [hl']; rfl))
      | brace => exact (ihi start (k + 1) left).append (hi.along start (k + 1) left) (hrest (k + 1) (by rw [hl']; rfl))
  | @template l inside ls hl hi _ ihi ih =>
      refine .cons (Nat.le_refl _) ?_
      rw [hl]
      exact (ihi l.start k left).append (hi.along l.start k left) (ih start k left)
  | text hl _ ih =>
      refine .cons (Nat.le_succ _) ?_
      rw [Modes.after_text hl]
      exact ih start k left
  | @interpolation l inner l' ls hl hi hl' _ ihi ih =>
      have hinner : (Modes.mk (.plain 0) (.template start :: .plain k :: left)).Keeps left.length inner :=
        (ihi 0 0 _).mono (Nat.le_add_right _ 2)
      refine .cons (Nat.le_succ _) ?_
      rw [hl]
      refine hinner.append (hi.along 0 0 (.template start :: .plain k :: left)) (.cons (Nat.le_add_right _ 2) ?_)
      rw [hl']
      exact ih start k left
  | close hl =>
      refine .cons (Nat.le_succ _) (.nil ?_)
      rw [hl]
      exact Nat.le_refl _

theorem Cursor.arrowAfter_cons_of_ne {depth : Nat} {l : Lexeme} {ls : List Lexeme}
    (hopen : l.token ≠ .symbol .lParen) (hclose : l.token ≠ .symbol .rParen) :
    arrowAfter depth (l :: ls) = arrowAfter depth ls := by
  rw [arrowAfter]
  split <;> simp_all

/-- The search for the arrow after a parenthesis passes what is nested inside. -/
theorem Nested.arrowAfter {n : Bool} {ls : List Lexeme} (h : Nested n ls) (depth : Nat) (rest : List Lexeme) :
    Cursor.arrowAfter (depth + 1) (ls ++ rest) = Cursor.arrowAfter (depth + 1) rest := by
  induction h generalizing depth rest with
  | nil => rfl
  | atom hl _ ih =>
      rw [List.cons_append, Cursor.arrowAfter_cons_of_ne (by rintro ht; simp [ht, Token.isAtom] at hl)
        (by rintro ht; simp [ht, Token.isAtom] at hl)]
      exact ih depth rest
  | @pair b l inner l' ls hl _ hl' _ ihi ih =>
      rw [List.cons_append, List.append_assoc, List.cons_append]
      cases b with
      | paren =>
          have hdepth : ¬ depth + 1 + 1 ≤ 1 := by omega
          simp only [Cursor.arrowAfter, hl, Bracket.opening]
          rw [ihi, Cursor.arrowAfter]
          simp only [hl', Bracket.closing, hdepth, if_false]
          exact ih depth rest
      | square | brace =>
          rw [Cursor.arrowAfter_cons_of_ne (by simp [hl, Bracket.opening]) (by simp [hl, Bracket.opening]), ihi,
            Cursor.arrowAfter_cons_of_ne (by simp [hl', Bracket.closing]) (by simp [hl', Bracket.closing])]
          exact ih depth rest
  | template hl _ _ ihi ih =>
      rw [List.cons_append, List.append_assoc, Cursor.arrowAfter_cons_of_ne (by simp [hl]) (by simp [hl]), ihi]
      exact ih depth rest
  | text hl _ ih =>
      rw [List.cons_append, Cursor.arrowAfter_cons_of_ne (by rintro ht; simp [ht, Parser.piece?] at hl)
        (by rintro ht; simp [ht, Parser.piece?] at hl)]
      exact ih depth rest
  | interpolation hl _ hl' _ ihi ih =>
      rw [List.cons_append, List.append_assoc, List.cons_append,
        Cursor.arrowAfter_cons_of_ne (by simp [hl]) (by simp [hl]), ihi,
        Cursor.arrowAfter_cons_of_ne (by simp [hl']) (by simp [hl'])]
      exact ih depth rest
  | close hl => exact Cursor.arrowAfter_cons_of_ne (by simp [hl]) (by simp [hl])

/-- Lexemes that are nested well up to the symbol that closes them. -/
def Closed (s : Symbol) (ls : List Lexeme) : Prop :=
  ∃ inner l, ls = inner ++ [l] ∧ Nested false inner ∧ l.token = .symbol s

namespace Cursor

/-- Lexemes with a property lie between two cursors. -/
def Crosses (P : List Lexeme → Prop) (c c' : Cursor) : Prop :=
  ∃ ls, c.rest = ls ++ c'.rest ∧ P ls

variable {input : Input} {c c₁ c₂ : Cursor}

theorem Crosses.refl (c : Cursor) : c.Crosses (Nested false) c :=
  ⟨[], rfl, .nil⟩

theorem Crosses.trans (h : c.Crosses (Nested false) c₁) (h' : c₁.Crosses (Nested false) c₂) :
    c.Crosses (Nested false) c₂ := by
  obtain ⟨ls, hrest, hls⟩ := h
  obtain ⟨ls', hrest', hls'⟩ := h'
  exact ⟨ls ++ ls', by rw [hrest, hrest', List.append_assoc], hls.append rfl hls'⟩

theorem Crosses.close {s : Symbol} (h : c.Crosses (Nested false) c₁) (h' : c₁.Crosses (Closed s) c₂) :
    c.Crosses (Closed s) c₂ := by
  obtain ⟨ls, hrest, hls⟩ := h
  obtain ⟨ls', hrest', inner, l, rfl, hinner, hl⟩ := h'
  exact ⟨ls ++ (inner ++ [l]), by simp [hrest, hrest'], ls ++ inner, l, by simp, hls.append rfl hinner, hl⟩

theorem Takes.closed {s : Symbol} (h : c.Takes (.symbol s) c₁) : c.Crosses (Closed s) c₁ := by
  obtain ⟨l, hl, ht⟩ := h
  exact ⟨[l], hl.rest, [], l, rfl, .nil, ht⟩

theorem Takes.atom {t : Token} (h : c.Takes t c₁) (ht : t.isAtom = true) : c.Crosses (Nested false) c₁ := by
  obtain ⟨l, hl, rfl⟩ := h
  exact ⟨[l], hl.rest, .atom ht .nil⟩

theorem TakesIdent.crosses {id : Ident} (h : c.TakesIdent input id c₁) : c.Crosses (Nested false) c₁ := by
  obtain ⟨l, hl, ht, -⟩ := h
  exact Takes.atom ⟨l, hl, rfl⟩ (by rw [ht]; rfl)

theorem TakesLabel.crosses {id : Ident} (h : c.TakesLabel input id c₁) : c.Crosses (Nested false) c₁ := by
  obtain ⟨l, hl, ht, -⟩ := h
  refine Takes.atom ⟨l, hl, rfl⟩ ?_
  rcases ht with ht | ⟨k, ht, -⟩ <;> rw [ht] <;> rfl

/-- A bracket and what it encloses. -/
theorem Takes.enclose (b : Bracket) (h : c.Takes (.symbol b.opening) c₁) (h' : c₁.Crosses (Closed b.closing) c₂) :
    c.Crosses (Nested false) c₂ := by
  obtain ⟨l, hl, ht⟩ := h
  obtain ⟨ls, hrest, inner, l', rfl, hinner, hl'⟩ := h'
  refine ⟨l :: (inner ++ [l']), ?_, .pair ht hinner hl' .nil⟩
  rw [hl.rest, hrest]
  rfl

theorem past_crosses (c : Cursor) {s : Symbol} (hs : (Token.symbol s).isAtom = true) :
    c.Crosses (Nested false) (c.past s) := by
  unfold past
  split
  · rename_i p heat
    obtain ⟨u, c₁, h⟩ := p
    exact (Takes.of_eat heat).atom hs
  · exact .refl c

end Cursor

/-- How the lexemes of a phrase are nested: lists go up to the symbol that closes them, the tail of a template goes up
to its end. -/
def Phrase.Spans : Phrase → List Lexeme → Prop
  | .names s | .exprs s => Closed s
  | .params => Closed .rParen
  | .block | .properties => Closed .rBrace
  | .templateTail _ => Nested true
  | _ => Nested false

theorem BinaryOp.isAtom_of_ofSymbol? {level : Nat} {s : Symbol} {op : BinaryOp}
    (h : BinaryOp.ofSymbol? level s = some op) : (Token.symbol s).isAtom = true := by
  unfold BinaryOp.ofSymbol? at h
  split at h <;> first | rfl | cases h

theorem UnaryOp.isAtom_of_ofSymbol? {s : Symbol} {op : UnaryOp} (h : UnaryOp.ofSymbol? s = some op) :
    (Token.symbol s).isAtom = true := by
  unfold UnaryOp.ofSymbol? at h
  split at h <;> first | rfl | cases h

theorem Literal.isAtom_of_ofToken? {t : Token} {v : Literal} (h : Literal.ofToken? t = some v) : t.isAtom = true := by
  unfold Literal.ofToken? at h
  split at h <;> first | rfl | cases h

theorem Literal.isAtom_of_ofKey? {t : Token} {v : Literal} (h : Literal.ofKey? t = some v) : t.isAtom = true := by
  unfold Literal.ofKey? at h
  split at h <;> first | rfl | cases h

theorem Parser.isAtom_of_declKind? {t : Token} {kind : DeclKind} (h : Parser.declKind? t = some kind) :
    t.isAtom = true := by
  unfold Parser.declKind? at h
  split at h <;> first | rfl | cases h

/-- Every phrase is nested well, by induction on its productions. -/
theorem Reads.crosses {input : Input} {p : Phrase} {c : Cursor} {v : p.Value} {c' : Cursor} (h : Reads input p c v c') :
    c.Crosses p.Spans c' := by
  induction h with
  | namesEnd h₁ => exact h₁.closed
  | namesMore h₁ h₂ _ ih => exact (h₁.crosses.trans (h₂.atom rfl)).close ih
  | namesLast h₁ _ h₂ => exact h₁.crosses.close h₂.closed
  | objectPattern h₁ _ ih => exact h₁.enclose .brace ih
  | arrayPattern h₁ _ ih => exact h₁.enclose .square ih
  | identPattern h₁ => exact h₁.crosses
  | paramsEnd h₁ => exact h₁.closed
  | paramsMore _ h₂ _ ih₁ ih₃ => exact (ih₁.trans (h₂.atom rfl)).close ih₃
  | paramsLast _ _ h₂ ih => exact ih.close h₂.closed
  | paramList h₁ _ ih => exact h₁.enclose .paren ih
  | bareParam h₁ => exact h₁.crosses
  | empty h₁ => exact h₁.atom rfl
  | returnNothing h₁ _ => exact (h₁.atom rfl).trans (Cursor.past_crosses _ rfl)
  | returnValue h₁ _ _ ih => exact ((h₁.atom rfl).trans ih).trans (Cursor.past_crosses _ rfl)
  | blockStatement h₁ _ ih => exact (h₁.enclose .brace ih).trans (Cursor.past_crosses _ rfl)
  | ifElse h₁ _ _ h₄ _ ih₂ ih₃ ih₅ =>
      exact ((((h₁.atom rfl).trans ih₂).trans ih₃).trans ((h₄.atom rfl).trans ih₅)).trans (Cursor.past_crosses _ rfl)
  | ifOnly h₁ _ _ _ ih₂ ih₃ => exact (((h₁.atom rfl).trans ih₂).trans ih₃).trans (Cursor.past_crosses _ rfl)
  | whileLoop h₁ _ _ ih₂ ih₃ => exact (((h₁.atom rfl).trans ih₂).trans ih₃).trans (Cursor.past_crosses _ rfl)
  | declaration h₁ hkind _ ih =>
      exact ((h₁.atom (Parser.isAtom_of_declKind? hkind)).trans ih).trans (Cursor.past_crosses _ rfl)
  | exprStatement _ _ ih => exact ih.trans (Cursor.past_crosses _ rfl)
  | requiredSome _ ih => exact ih
  | requiredNone _ ih => exact ih
  | blockEnd h₁ => exact h₁.closed
  | blockMore _ _ _ ih₁ ih₂ => exact ih₁.close ih₂
  | declaratorsMore _ h₂ _ ih₁ ih₃ => exact (ih₁.trans (h₂.atom rfl)).trans ih₃
  | declaratorsLast _ _ ih => exact ih
  | initialized _ h₂ _ ih₁ ih₃ => exact (ih₁.trans (h₂.atom rfl)).trans ih₃
  | uninitialized _ _ ih => exact ih
  | parenthesized h₁ _ h₃ ih => exact h₁.enclose .paren (ih.close h₃.closed)
  | arrowExpr _ _ ih => exact ih
  | assign _ _ h₂ _ ih₁ ih₃ => exact (ih₁.trans (h₂.atom rfl)).trans ih₃
  | noAssign _ _ _ ih => exact ih
  | blockArrow _ h₂ h₃ _ ih₁ ih₄ => exact (ih₁.trans (h₂.atom rfl)).trans (h₃.enclose .brace ih₄)
  | exprArrow _ h₂ _ _ ih₁ ih₃ => exact (ih₁.trans (h₂.atom rfl)).trans ih₃
  | ternary _ h₂ _ h₄ _ ih₁ ih₃ ih₅ =>
      exact ((ih₁.trans (h₂.atom rfl)).trans ih₃).trans ((h₄.atom rfl).trans ih₅)
  | noTernary _ _ ih => exact ih
  | operands _ _ _ ih₁ ih₂ => exact ih₁.trans ih₂
  | tightest _ _ ih => exact ih
  | operator h₁ hop _ _ ih₂ ih₃ => exact ((h₁.atom (BinaryOp.isAtom_of_ofSymbol? hop)).trans ih₂).trans ih₃
  | noOperator _ => exact .refl _
  | power _ h₂ _ ih₁ ih₃ => exact (ih₁.trans (h₂.atom rfl)).trans ih₃
  | noPower _ _ ih => exact ih
  | negativeNumber h₁ h₂ => exact (h₁.atom rfl).trans (h₂.atom rfl)
  | sign h₁ hop _ _ ih => exact (h₁.atom (UnaryOp.isAtom_of_ofSymbol? hop)).trans ih
  | noSign _ _ ih => exact ih
  | accessed _ _ ih₁ ih₂ => exact ih₁.trans ih₂
  | member h₁ h₂ _ ih => exact ((h₁.atom rfl).trans h₂.crosses).trans ih
  | index h₁ _ h₃ _ ih₂ ih₄ => exact (h₁.enclose .square (ih₂.close h₃.closed)).trans ih₄
  | call h₁ _ _ ih₂ ih₃ => exact (h₁.enclose .paren ih₂).trans ih₃
  | tagged _ _ ih₁ ih₂ => exact ih₁.trans ih₂
  | noAccess _ => exact .refl _
  | exprsEnd h₁ => exact h₁.closed
  | exprsMore _ _ h₂ _ ih₁ ih₃ => exact (ih₁.trans (h₂.atom rfl)).close ih₃
  | exprsLast _ _ _ h₂ ih => exact ih.close h₂.closed
  | templateExpr _ ih => exact ih
  | ident h₁ => exact h₁.crosses
  | literal h₁ hv => exact h₁.atom (Literal.isAtom_of_ofToken? hv)
  | group h₁ _ h₃ ih => exact h₁.enclose .paren (ih.close h₃.closed)
  | array h₁ _ ih => exact h₁.enclose .square ih
  | object h₁ _ ih => exact h₁.enclose .brace ih
  | propertiesEnd h₁ => exact h₁.closed
  | propertiesMore _ h₂ _ ih₁ ih₃ => exact (ih₁.trans (h₂.atom rfl)).close ih₃
  | propertiesLast _ _ h₂ ih => exact ih.close h₂.closed
  | literalKey h₁ hv _ ih => exact (Cursor.Takes.atom ⟨_, h₁, rfl⟩ (Literal.isAtom_of_ofKey? hv)).trans ih
  | computedKey h₁ _ h₃ _ ih₂ ih₄ => exact (h₁.enclose .square (ih₂.close h₃.closed)).trans ih₄
  | shorthand h₁ _ => exact h₁.crosses
  | namedKey h₁ _ _ ih => exact h₁.crosses.trans ih
  | propertyValue h₁ _ ih => exact (h₁.atom rfl).trans ih
  | template h₁ _ ih =>
      obtain ⟨l, hl, ht⟩ := h₁
      obtain ⟨ls, hrest, hls⟩ := ih
      exact ⟨l :: (ls ++ []), by simp [hl.rest, hrest], .template ht hls .nil⟩
  | templateText h₁ ht _ ih =>
      obtain ⟨l, hl, rfl⟩ := h₁
      obtain ⟨ls, hrest, hls⟩ := ih
      exact ⟨l :: ls, by simp [hl.rest, hrest], .text ht hls⟩
  | interpolation h₁ _ h₃ _ ih₂ ih₄ =>
      obtain ⟨l, hl, ht⟩ := h₁
      obtain ⟨inner, hinner, hnested⟩ := ih₂
      obtain ⟨l', hl', ht'⟩ := h₃
      obtain ⟨ls, hrest, hls⟩ := ih₄
      exact ⟨l :: (inner ++ l' :: ls), by simp [hl.rest, hinner, hl'.rest, hrest], .interpolation ht hnested ht' hls⟩
  | templateEnd h₁ =>
      obtain ⟨l, hl, ht⟩ := h₁
      exact ⟨[l], hl.rest, .close ht⟩

end ScriptTypes
