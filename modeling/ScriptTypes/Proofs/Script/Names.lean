import ScriptTypes.Proofs.Script.Outline
import ScriptTypes.Proofs.Script.Reparsed
import ScriptTypes.Proofs.Token.Lossless

/-! The names in a script that was parsed. All of them are identifiers. A keyword occurs as the label of a property or a
member only, but such a label may stand for the value of its property as well, and so a keyword comes to be used like
the name of a variable. -/

namespace ScriptTypes

/-! Words of the lexer. -/

theorem Keyword.isIdentifier_text (k : Keyword) : Text.isIdentifier k.text = true := by
  cases k <;> rfl

theorem Keyword.not_mem_keywords {name : String} (h : ofText? name = none) : name ∉ keywords := by
  intro hmem
  obtain ⟨k, hk, rfl⟩ := List.mem_map.mp hmem
  exact List.find?_eq_none.mp h k hk (beq_self_eq_true _)

/-- A lexeme that is a name is an identifier and no keyword. -/
def Lexeme.WellNamed (l : Lexeme) : Prop :=
  ∀ name, l.token = .ident name → Text.isIdentifier name = true ∧ name ∉ keywords

theorem Token.of_ofWord {name name' : String} (h : ofWord name = .ident name') :
    name = name' ∧ name' ∉ keywords := by
  cases eq_of_ofWord h
  refine ⟨rfl, Keyword.not_mem_keywords ?_⟩
  unfold ofWord at h
  split at h
  · cases h
  · assumption

/-- A name goes on as far as it can. -/
theorem Text.isIdentifier_word {c : Char} (hc : isNameStart c = true) (cs : List Char) :
    isIdentifier (String.ofList (c :: cs.takeWhile isNamePart)) = true := by
  rw [isIdentifier, String.toList_ofList, isName, hc, Bool.true_and, List.all_eq_true]
  exact fun d => List.mem_takeWhile_imp

/-- Names are words outside of templates. -/
theorem Modes.scan_ident {modes : Modes} {c : Char} {cs : List Char} {name : String} {more : Nat}
    (h : modes.scan c cs = .token (.ident name) more) : Text.isIdentifier name = true ∧ name ∉ keywords := by
  obtain ⟨hslice, hmode⟩ : Scan.Fits modes.inTemplate c cs (.token (.ident name) more) := h ▸ modes.scan_fits c cs
  obtain ⟨current, left⟩ := modes
  cases current with
  | template start => cases hmode
  | plain n =>
      have hc : Text.isNameStart c = true := by
        by_contra hc
        simp only [Token.ofSlice, inTemplate, Bool.false_eq_true, if_false, Token.ofPlainSlice, hc] at hslice
        split at hslice
        · cases hslice
        · split at hslice <;> cases hslice
      change Scan.plain c cs = _ at h
      unfold Scan.plain at h
      by_cases hblank : Scan.isBlank c = true
      · rw [if_pos hblank] at h
        cases h
      · rw [if_neg hblank, if_pos hc, Scan.word_eq] at h
        injection h with hword
        obtain ⟨rfl, hfree⟩ := Token.of_ofWord hword
        exact ⟨Text.isIdentifier_word hc cs, hfree⟩

theorem Lexed.read_wellNamed (modes : Modes) (afterBreak : Bool) (offset : Nat) (text : List Char) :
    ∀ l ∈ (read modes afterBreak offset text).lexemes, l.WellNamed := by
  fun_induction read modes afterBreak offset text with
  | case1 modes =>
      unfold atEnd
      split <;> exact List.forall_mem_nil _
  | case2 _ _ _ _ _ _ _ _ ih => exact ih
  | case3 modes _ _ c cs token more hscan _ ih =>
      refine List.forall_mem_cons.mpr ⟨?_, ih⟩
      rintro name rfl
      exact Modes.scan_ident hscan
  | case4 => exact List.forall_mem_nil _

/-! Occurrences of names. -/

/-- What a name stands for: a value that is used, a value that is bound, a label, or the value of a property that is
known by its label. -/
inductive Role where
  | use | binder | label | shorthand
deriving DecidableEq, Repr

structure Occurrence where
  role : Role
  id : Ident
deriving DecidableEq, Repr

def Occurrence.bound (ids : List Ident) : List Occurrence :=
  ids.map (⟨.binder, ·⟩)

def Pattern.occurrences : Pattern → List Occurrence
  | .ident id => [⟨.binder, id⟩]
  | .object ids _ | .array ids _ => Occurrence.bound ids

mutual

def Expr.occurrences : Expr → List Occurrence
  | .literal _ _ => []
  | .ident _ id => [⟨.use, id⟩]
  | .array _ es => occurrencesExprs es
  | .object _ ps => occurrencesProperties ps
  | .member _ o label => o.occurrences ++ [⟨.label, label⟩]
  | .index _ o k => o.occurrences ++ k.occurrences
  | .binary _ _ a b => a.occurrences ++ b.occurrences
  | .unary _ _ a => a.occurrences
  | .conditional _ t a b => t.occurrences ++ a.occurrences ++ b.occurrences
  | .arrow _ ps body => ps.flatMap Pattern.occurrences ++ body.occurrences
  | .call _ f as => f.occurrences ++ occurrencesExprs as
  | .template _ q => q.occurrences
  | .tagged _ t q => t.occurrences ++ q.occurrences
  | .assign _ t v => t.occurrences ++ v.occurrences

def occurrencesExprs : List Expr → List Occurrence
  | [] => []
  | e :: es => e.occurrences ++ occurrencesExprs es

/-- The value of a property is its label if both are one word of the source. -/
def Property.occurrences : Property → List Occurrence
  | .mk key value _ =>
      key.occurrences ++
        if Property.isShorthand key value then value.occurrences.map (⟨.shorthand, ·.id⟩) else value.occurrences

def occurrencesProperties : List Property → List Occurrence
  | [] => []
  | p :: ps => p.occurrences ++ occurrencesProperties ps

def PropertyKey.occurrences : PropertyKey → List Occurrence
  | .ident id => [⟨.label, id⟩]
  | .literal _ _ => []
  | .computed e => e.occurrences

def Body.occurrences : Body → List Occurrence
  | .expr e => e.occurrences
  | .block ss _ => occurrencesStmts ss

def Template.occurrences : Template → List Occurrence
  | .mk _ es _ => occurrencesExprs es

def Stmt.occurrences : Stmt → List Occurrence
  | .decl _ _ ds => occurrencesDeclarators ds
  | .expr _ e => e.occurrences
  | .ret _ e => occurrencesOption e
  | .block _ ss => occurrencesStmts ss
  | .cond _ t a b => t.occurrences ++ a.occurrences ++ occurrencesBranch b
  | .loop _ t a => t.occurrences ++ a.occurrences

def occurrencesStmts : List Stmt → List Occurrence
  | [] => []
  | s :: ss => s.occurrences ++ occurrencesStmts ss

def Declarator.occurrences : Declarator → List Occurrence
  | .mk p e _ => p.occurrences ++ occurrencesOption e

def occurrencesDeclarators : List Declarator → List Occurrence
  | [] => []
  | d :: ds => d.occurrences ++ occurrencesDeclarators ds

def occurrencesOption : Option Expr → List Occurrence
  | none => []
  | some e => e.occurrences

def occurrencesBranch : Option Stmt → List Occurrence
  | none => []
  | some s => s.occurrences

end

/-- The word is the label and the value at once. -/
theorem Property.occurrences_shorthand (node : Node) (id : Ident) (pos : Position) :
    (Property.mk (.ident id) (.ident node id) pos).occurrences = [⟨.label, id⟩, ⟨.shorthand, id⟩] := by
  simp [Property.occurrences, PropertyKey.occurrences, Expr.occurrences, Property.isShorthand]

/-- The names in a script, in the order of the source. -/
def Script.occurrences (s : Script) : List Occurrence :=
  occurrencesStmts s.body

/-- The names in what a phrase is read as. -/
def Phrase.occurrences : (p : Phrase) → p.Value → List Occurrence
  | .names _, ids => Occurrence.bound ids
  | .pattern, p => p.occurrences
  | .params, ps | .arrowParams, ps => ps.flatMap Pattern.occurrences
  | .statement, s => occurrencesBranch s
  | .required, s => s.occurrences
  | .block, ss => occurrencesStmts ss
  | .declarators, ds => occurrencesDeclarators ds
  | .declarator, d => d.occurrences
  | .exprs _, es => occurrencesExprs es
  | .properties, ps => occurrencesProperties ps
  | .property, p => p.occurrences
  | .template, q => q.occurrences
  | .templateTail _, v => occurrencesExprs v.2
  | .parenthesized, e | .assignment, e | .arrow, e | .conditional, e | .binary _, e | .binaryTail _ _ _, e
  | .exponent, e | .unary, e | .access, e | .accessTail _ _, e | .primary, e | .propertyValue, e => e.occurrences

/-- The name is an identifier, and a keyword only as a label or for one. -/
def Occurrence.Allowed (o : Occurrence) : Prop :=
  Text.isIdentifier o.id.label = true ∧ (o.id.label ∈ keywords → o.role = .label ∨ o.role = .shorthand)

namespace Cursor

variable {input : Input} {c c₁ : Cursor} {ls : List Lexeme} {id : Ident}

theorem TakesIdent.allowed (h : c.TakesIdent input id c₁) (hls : ∀ l ∈ ls, l.WellNamed) (hin : c.rest <:+ ls)
    (role : Role) : Occurrence.Allowed ⟨role, id⟩ := by
  obtain ⟨l, hl, htoken, -⟩ := h
  have hmem : l ∈ ls := hin.subset (hl.rest ▸ List.mem_cons_self)
  obtain ⟨hname, hfree⟩ := hls l hmem id.label htoken
  exact ⟨hname, fun hkeyword => absurd hkeyword hfree⟩

theorem TakesLabel.allowed (h : c.TakesLabel input id c₁) (hls : ∀ l ∈ ls, l.WellNamed) (hin : c.rest <:+ ls)
    {role : Role} (hrole : role = .label ∨ role = .shorthand) : Occurrence.Allowed ⟨role, id⟩ := by
  obtain ⟨l, hl, htoken | ⟨k, -, hlabel⟩, hpos⟩ := h
  · exact TakesIdent.allowed ⟨l, hl, htoken, hpos⟩ hls hin role
  · exact ⟨by rw [hlabel]; exact k.isIdentifier_text, fun _ => hrole⟩

end Cursor

/-- All names of a list are allowed. -/
def Occurrence.AllAllowed (os : List Occurrence) : Prop :=
  ∀ o ∈ os, o.Allowed

namespace Occurrence.AllAllowed

variable {o : Occurrence} {os os' : List Occurrence}

theorem nil : AllAllowed [] := List.forall_mem_nil _

theorem cons (ho : o.Allowed) (hos : AllAllowed os) : AllAllowed (o :: os) :=
  List.forall_mem_cons.mpr ⟨ho, hos⟩

theorem one (ho : o.Allowed) : AllAllowed [o] := cons ho nil

theorem append (hos : AllAllowed os) (hos' : AllAllowed os') : AllAllowed (os ++ os') :=
  List.forall_mem_append.mpr ⟨hos, hos'⟩

theorem property {key : PropertyKey} {value : Expr} {pos : Position} (hkey : AllAllowed key.occurrences)
    (hvalue : AllAllowed value.occurrences) : AllAllowed (Property.mk key value pos).occurrences := by
  refine hkey.append ?_
  split
  · exact List.forall_mem_map.mpr fun o ho => ⟨(hvalue o ho).1, fun _ => .inr rfl⟩
  · exact hvalue

end Occurrence.AllAllowed

/-- What a tail is read after has allowed names only. -/
def Phrase.Continues : Phrase → Prop
  | .binaryTail _ _ left | .accessTail _ left => Occurrence.AllAllowed left.occurrences
  | _ => True

/-- Names are read from lexemes, which cannot be keywords except where a label is read. -/
theorem Reads.allowed {input : Input} {p : Phrase} {c : Cursor} {v : p.Value} {c' : Cursor} {ls : List Lexeme}
    (hls : ∀ l ∈ ls, l.WellNamed) (h : Reads input p c v c') (hin : c.rest <:+ ls) (hp : p.Continues) :
    Occurrence.AllAllowed (p.occurrences v) := by
  induction h with
  | namesEnd | paramsEnd | empty | returnNothing | requiredNone | blockEnd | negativeNumber | exprsEnd | literal
  | propertiesEnd | templateEnd => exact .nil
  | namesMore h₁ h₂ _ ih =>
      exact .cons (h₁.allowed hls hin .binder) (ih ((h₁.onward.trans h₂.onward).suffix.trans hin) trivial)
  | namesLast h₁ | identPattern h₁ | bareParam h₁ => exact .one (h₁.allowed hls hin .binder)
  | objectPattern h₁ _ ih | arrayPattern h₁ _ ih | paramList h₁ _ ih | blockStatement h₁ _ ih | declaration h₁ _ _ ih
  | returnValue h₁ _ _ ih | parenthesized h₁ _ _ ih | sign h₁ _ _ _ ih | group h₁ _ _ ih | array h₁ _ ih
  | object h₁ _ ih | propertyValue h₁ _ ih | template h₁ _ ih | templateText h₁ _ _ ih =>
      exact ih (h₁.onward.suffix.trans hin) trivial
  | arrowExpr _ _ ih | noAssign _ _ _ ih | noTernary _ _ ih | tightest _ _ ih | noPower _ _ ih | noSign _ _ ih
  | requiredSome _ ih | exprStatement _ _ ih | templateExpr _ ih => exact ih hin trivial
  | paramsMore h₁ h₂ _ ih₁ ih₃ | declaratorsMore h₁ h₂ _ ih₁ ih₃ | initialized h₁ h₂ _ ih₁ ih₃
  | propertiesMore h₁ h₂ _ ih₁ ih₃ | power h₁ h₂ _ ih₁ ih₃ =>
      exact (ih₁ hin trivial).append (ih₃ ((h₁.onward.trans h₂.onward).suffix.trans hin) trivial)
  | exprsMore _ h₁ h₂ _ ih₁ ih₃ | assign _ h₁ h₂ _ ih₁ ih₃ | exprArrow h₁ h₂ _ _ ih₁ ih₃ =>
      exact (ih₁ hin trivial).append (ih₃ ((h₁.onward.trans h₂.onward).suffix.trans hin) trivial)
  | paramsLast _ _ _ ih | declaratorsLast _ _ ih | uninitialized _ _ ih | exprsLast _ _ _ _ ih
  | propertiesLast _ _ _ ih =>
      exact (ih hin trivial).append .nil
  | ifElse h₁ h₂ h₃ h₄ _ ih₂ ih₃ ih₅ =>
      have hin₂ := h₁.onward.suffix.trans hin
      have hin₃ := h₂.onward.suffix.trans hin₂
      have hin₅ := (h₃.onward.trans h₄.onward).suffix.trans hin₃
      exact ((ih₂ hin₂ trivial).append (ih₃ hin₃ trivial)).append (ih₅ hin₅ trivial)
  | ifOnly h₁ h₂ _ _ ih₂ ih₃ =>
      have hin₂ := h₁.onward.suffix.trans hin
      exact ((ih₂ hin₂ trivial).append (ih₃ (h₂.onward.suffix.trans hin₂) trivial)).append .nil
  | whileLoop h₁ h₂ _ ih₂ ih₃ =>
      have hin₂ := h₁.onward.suffix.trans hin
      exact (ih₂ hin₂ trivial).append (ih₃ (h₂.onward.suffix.trans hin₂) trivial)
  | @blockMore _ s _ _ _ _ h₁ _ ih₁ ih₂ =>
      have hstmts := ih₂ (h₁.onward.suffix.trans hin) trivial
      cases s with
      | none => exact hstmts
      | some s => exact (ih₁ hin trivial).append hstmts
  | blockArrow h₁ h₂ h₃ _ ih₁ ih₄ =>
      have hin₄ := ((h₁.onward.trans h₂.onward).trans h₃.onward).suffix.trans hin
      exact (ih₁ hin trivial).append (ih₄ hin₄ trivial)
  | ternary h₁ h₂ h₃ h₄ _ ih₁ ih₃ ih₅ =>
      have hin₃ := (h₁.onward.trans h₂.onward).suffix.trans hin
      have hin₅ := (h₃.onward.trans h₄.onward).suffix.trans hin₃
      exact ((ih₁ hin trivial).append (ih₃ hin₃ trivial)).append (ih₅ hin₅ trivial)
  -- A tail goes on with the tree it is given, to which it has added what it has read.
  | operands _ h₁ _ ih₁ ih₂ | accessed h₁ _ ih₁ ih₂ => exact ih₂ (h₁.onward.suffix.trans hin) (ih₁ hin trivial)
  | operator h₁ _ h₂ _ ih₂ ih₃ | call h₁ h₂ _ ih₂ ih₃ =>
      have hin₂ := h₁.onward.suffix.trans hin
      exact ih₃ (h₂.onward.suffix.trans hin₂) (hp.append (ih₂ hin₂ trivial))
  | member h₁ h₂ _ ih =>
      have hin₂ := h₁.onward.suffix.trans hin
      exact ih (h₂.onward.suffix.trans hin₂) (hp.append (.one (h₂.allowed hls hin₂ (.inl rfl))))
  | index h₁ h₂ h₃ _ ih₂ ih₄ =>
      have hin₂ := h₁.onward.suffix.trans hin
      exact ih₄ ((h₂.onward.trans h₃.onward).suffix.trans hin₂) (hp.append (ih₂ hin₂ trivial))
  | tagged h₁ _ ih₁ ih₂ => exact ih₂ (h₁.onward.suffix.trans hin) (hp.append (ih₁ hin trivial))
  | noOperator | noAccess => exact hp
  | ident h₁ => exact .one (h₁.allowed hls hin .use)
  | literalKey h₁ _ _ ih =>
      rw [Phrase.occurrences]
      refine .property ?_ (ih (h₁.onward.suffix.trans hin) trivial)
      exact .nil
  | computedKey h₁ h₂ h₃ _ ih₂ ih₄ =>
      have hin₂ := h₁.onward.suffix.trans hin
      rw [Phrase.occurrences]
      refine .property ?_ (ih₄ ((h₂.onward.trans h₃.onward).suffix.trans hin₂) trivial)
      exact ih₂ hin₂ trivial
  | shorthand h₁ =>
      rw [Phrase.occurrences, Property.occurrences_shorthand]
      exact .cons (h₁.allowed hls hin (.inl rfl)) (.one (h₁.allowed hls hin (.inr rfl)))
  | namedKey h₁ _ _ ih =>
      rw [Phrase.occurrences]
      refine .property ?_ (ih (h₁.onward.suffix.trans hin) trivial)
      exact .one (h₁.allowed hls hin (.inl rfl))
  | interpolation h₁ h₂ h₃ _ ih₂ ih₄ =>
      have hin₂ := h₁.onward.suffix.trans hin
      exact (ih₂ hin₂ trivial).append (ih₄ ((h₂.onward.trans h₃.onward).suffix.trans hin₂) trivial)

theorem Parser.statements_allowed {input : Input} {c : Cursor} {ss : List Stmt} {ls : List Lexeme}
    (hls : ∀ l ∈ ls, l.WellNamed) (h : statements input c = .ok ss) (hin : c.rest <:+ ls) :
    Occurrence.AllAllowed (occurrencesStmts ss) := by
  rcases statements_cases h with ⟨-, rfl⟩ | ⟨s, c₁, ss, hs, hlt, hss, rfl⟩
  · exact .nil
  · have hrest := statements_allowed hls hss (hs.onward.suffix.trans hin)
    cases s with
    | none => exact hrest
    | some s => exact (hs.allowed hls hin trivial).append hrest
termination_by c.size

/-- All names in a script are identifiers. Values that are bound, and those that are used without being the value of a
shorthand property, have no keywords for names. -/
theorem Script.names_of_parse {file : Nat} {source : String} {s : Script} (h : Script.parse file source = .ok s) :
    ∀ o ∈ s.occurrences, Text.isIdentifier o.id.label = true ∧
      (o.id.label ∈ keywords → o.role = .label ∨ o.role = .shorthand) :=
  Parser.statements_allowed (Lexed.read_wellNamed _ _ _ _) (Script.statements_of_parse h).1 (List.suffix_refl _)

/-- A parameter is used as the value of a property that has a keyword for a label. -/
theorem Script.names_of_parse_keywordMember :
    Script.parse 0 "x=>(\x7bif:x\x7d).if" = .ok keywordMember ∧
      keywordMember.occurrences.map (fun o => (o.role, o.id.label)) =
        [(.binder, "x"), (.label, "if"), (.use, "x"), (.label, "if")] ∧
      ∀ o ∈ keywordMember.occurrences, Text.isIdentifier o.id.label = true ∧
        (o.id.label ∈ keywords → o.role = .label ∨ o.role = .shorthand) :=
  ⟨parse_keywordMember, by decide, names_of_parse parse_keywordMember⟩

set_option maxRecDepth 20000 in
/-- A keyword becomes the name of a value where it stands for a whole property, but not where it is written after the
label. -/
theorem Script.parse_keyword_shorthand :
    Script.parse 0 "let x = \x7b if \x7d;" =
        .ok ⟨[.decl ⟨2, some ⟨0, 0, 15⟩⟩ .letDecl [.mk (.ident ⟨"x", some ⟨0, 4, 5⟩⟩)
          (some (.object ⟨1, some ⟨0, 8, 14⟩⟩ [.mk (.ident ⟨"if", some ⟨0, 10, 12⟩⟩)
            (.ident ⟨0, some ⟨0, 10, 12⟩⟩ ⟨"if", some ⟨0, 10, 12⟩⟩) (some ⟨0, 10, 12⟩)])) (some ⟨0, 4, 14⟩)]],
          some ⟨0, 0, 15⟩⟩ ∧
      "if" ∈ keywords ∧ (Script.parse 0 "let x = \x7b if: if \x7d;").isOk = false := by
  refine ⟨by with_unfolding_all rfl, by decide, by decide +kernel⟩

end ScriptTypes
