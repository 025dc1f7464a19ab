import ScriptTypes.Proofs.Script.ReadBack

/-! Parsing undoes printing. That all trees of the parser can be read back from their printed forms follows by induction
on the productions they were read by. -/

namespace ScriptTypes

/-- What has been read for a phrase can be read back from its printed form. A tail is read after a part that can be. -/
def Phrase.Back : (p : Phrase) → p.Value → Prop
  | .names _, _ | .pattern, _ | .params, _ | .arrowParams, _ => True
  | .statement, none => True
  | .statement, some s => Stmt.Back s
  | .required, s => Stmt.Back s
  | .block, ss => ∀ s ∈ ss, Stmt.Back s
  | .declarators, ds => ds ≠ [] ∧ ∀ d ∈ ds, Declarator.Back d
  | .declarator, d => Declarator.Back d
  | .exprs _, es => ∀ e ∈ es, Expr.Back e
  | .properties, ps => ∀ p ∈ ps, Property.Back p
  | .property, p => Property.Back p
  | .template, q => Template.Back q
  | .templateTail _, parts => QuasisBack parts.1 parts.2
  | .binaryTail _ _ left, e | .accessTail _ left, e => Expr.Back left → Expr.Back e
  | .parenthesized, e | .assignment, e | .arrow, e | .conditional, e | .binary _, e | .exponent, e | .unary, e
  | .access, e | .primary, e | .propertyValue, e => Expr.Back e

/-- By induction on the productions. Those that build a node are each the lemma of that node, the others hand on what
they were given. -/
theorem Reads.back {input : Input} {p : Phrase} {c : Cursor} {v : p.Value} {c' : Cursor} (h : Reads input p c v c') :
    p.Back v := by
  induction h with
  | namesEnd | namesMore | namesLast | objectPattern | arrayPattern | identPattern | paramsEnd | paramsMore
  | paramsLast | paramList | bareParam | empty => trivial
  | returnNothing => exact .retNothing
  | returnValue _ _ _ ih => exact .retValue ih
  | blockStatement _ _ ih => exact .block ih
  | ifElse _ _ _ _ _ ih₂ ih₃ ih₅ => exact .ifElse ih₂ ih₃ ih₅
  | ifOnly _ _ _ _ ih₂ ih₃ => exact .ifOnly ih₂ ih₃
  | whileLoop _ _ _ ih₂ ih₃ => exact .loop ih₂ ih₃
  | @declaration _ _ kind _ _ _ _ _ _ ih => exact .decl kind ih.1 ih.2
  | exprStatement _ _ ih => exact .expr ih
  | requiredSome _ ih => exact ih
  | requiredNone => exact .block nofun
  | blockEnd => exact nofun
  | @blockMore _ s _ _ _ _ _ _ ih₁ ih₂ =>
      cases s with
      | none => exact ih₂
      | some s => exact List.forall_mem_cons.mpr ⟨ih₁, ih₂⟩
  | declaratorsMore _ _ _ ih₁ ih₃ => exact ⟨nofun, List.forall_mem_cons.mpr ⟨ih₁, ih₃.2⟩⟩
  | declaratorsLast _ _ ih => exact ⟨nofun, List.forall_mem_singleton.mpr ih⟩
  | @initialized _ p _ _ _ _ _ _ _ _ ih₃ => exact .initialized p ih₃ _
  | @uninitialized _ p => exact .uninitialized p _
  | parenthesized _ _ _ ih | group _ _ _ ih | propertyValue _ _ ih | tightest _ _ ih | noSign _ _ ih
  | arrowExpr _ _ ih | noAssign _ _ _ ih | noTernary _ _ ih | noPower _ _ ih => exact ih
  | assign _ _ _ _ ih₁ ih₃ => exact .assign ih₁ ih₃
  | @blockArrow _ ps _ _ _ _ _ _ _ _ _ _ ih₄ => exact .blockArrow ps ih₄ _
  | @exprArrow _ ps _ _ _ _ _ _ _ _ _ ih₃ => exact .exprArrow ps ih₃
  | ternary _ _ _ _ _ ih₁ ih₃ ih₅ => exact .conditional ih₁ ih₃ ih₅
  | operands _ _ _ ih₁ ih₂ => exact ih₂ ih₁
  | operator _ _ _ _ ih₂ ih₃ => exact fun hleft => ih₃ (.binary _ hleft ih₂)
  | noOperator => exact id
  | power _ _ _ ih₁ ih₃ => exact .binary .pow ih₁ ih₃
  | negativeNumber => exact .literal _
  | sign _ _ _ _ ih => exact .unary _ ih
  | accessed _ _ ih₁ ih₂ => exact ih₂ ih₁
  | member _ _ _ ih => exact fun ho => ih (.member ho _)
  | index _ _ _ _ ih₂ ih₄ => exact fun ho => ih₄ (.index ho ih₂)
  | call _ _ _ ih₂ ih₃ => exact fun hf => ih₃ (.call hf ih₂)
  | tagged _ _ ih₁ ih₂ => exact fun ht => ih₂ (.tagged ht ih₁)
  | noAccess => exact id
  | exprsEnd | propertiesEnd => exact nofun
  | exprsMore _ _ _ _ ih₁ ih₃ => exact List.forall_mem_cons.mpr ⟨ih₁, ih₃⟩
  | exprsLast _ _ _ _ ih => exact List.forall_mem_singleton.mpr ih
  | templateExpr _ ih => exact .template ih
  | ident => exact .ident _
  | literal => exact .literal _
  | array _ _ ih => exact .array ih
  | object _ _ ih => exact .object ih
  | propertiesMore _ _ _ ih₁ ih₃ => exact List.forall_mem_cons.mpr ⟨ih₁, ih₃⟩
  | propertiesLast _ _ _ ih => exact List.forall_mem_singleton.mpr ih
  | literalKey _ hv _ ih => exact .literalKey hv ih
  | computedKey _ _ _ _ ih₂ ih₄ => exact .computedKey ih₂ ih₄
  | shorthand => exact .shorthand (beq_self_eq_true _)
  | namedKey _ _ _ ih => exact .namedKey _ ih
  | template _ _ ih => exact .of_quasis ih _
  | templateText _ _ _ ih => exact ih
  | interpolation _ _ _ _ ih₂ ih₄ => exact .more _ ih₂ ih₄
  | templateEnd => exact .last _

namespace Parser

/-- All statements that the parser returns can be read back. -/
theorem back_of_statements {input : Input} {c : Cursor} {ss : List Stmt} (h : statements input c = .ok ss) :
    ∀ s ∈ ss, s.Back := by
  rcases statements_cases h with ⟨-, rfl⟩ | ⟨s, c₁, ss', hs, hlt, hss', rfl⟩
  · exact nofun
  · have hrest := back_of_statements hss'
    cases s with
    | none => exact hrest
    | some s => exact List.forall_mem_cons.mpr ⟨hs.back, hrest⟩
termination_by c.size

/-- Statements that can be read back are read one after the other, up to the end. -/
theorem statements_back (input : Input) {c : Cursor} {ss : List Stmt} (hss : ∀ s ∈ ss, s.Back)
    (hc : c.Shows (tokensStmts ss) []) :
    ∃ ss', statements input c = .ok ss' ∧ ss'.map Stmt.erase = ss.map Stmt.erase := by
  induction ss generalizing c with
  | nil => exact ⟨[], statements_nil hc.nil, rfl⟩
  | cons s ss ih =>
      obtain ⟨hs, hss⟩ := List.forall_mem_cons.mp hss
      obtain ⟨s', c₁, hreads, hc, hsame⟩ := hs.followed input hc
      obtain ⟨ss', hparsed, hsames⟩ := ih hss hc
      exact ⟨s' :: ss', statements_cons hreads hparsed, by rw [List.map_cons, hsame, hsames]; rfl⟩

end Parser

/-- Parsing undoes printing. A script that was parsed and is printed on one line, its lexemes at any offsets, is parsed
as the same script, up to nodes and positions. -/
theorem Script.statements_tokens {file : Nat} {source : String} {s : Script} (h : Script.parse file source = .ok s)
    {ls : List Lexeme} (htokens : ls.map Lexeme.token = s.tokens) (hline : ∀ l ∈ ls, l.afterBreak = false)
    (input : Input) :
    ∃ body, Parser.statements input ⟨ls, none, 0⟩ = .ok body ∧ Script.erase ⟨body, none⟩ = s.erase := by
  have hback := Parser.back_of_statements (Script.statements_of_parse h).1
  have hc : Cursor.Shows ⟨ls, none, 0⟩ s.tokens [] := ⟨ls, (List.append_nil ls).symm, htokens, hline⟩
  obtain ⟨body, hparsed, hsame⟩ := Parser.statements_back input hback hc
  refine ⟨body, hparsed, ?_⟩
  simp only [erase, relocate, relocateStmts_eq_map]
  exact congrArg (Script.mk · none) hsame

/-- A function that returns the member of an object, both named by a keyword. -/
def keywordMember : Script :=
  ⟨[.expr ⟨4, some ⟨0, 0, 14⟩⟩ (.arrow ⟨3, some ⟨0, 0, 14⟩⟩ [.ident ⟨"x", some ⟨0, 0, 1⟩⟩]
    (.expr (.member ⟨2, some ⟨0, 3, 14⟩⟩
      (.object ⟨1, some ⟨0, 4, 10⟩⟩ [.mk (.ident ⟨"if", some ⟨0, 5, 7⟩⟩)
        (.ident ⟨0, some ⟨0, 8, 9⟩⟩ ⟨"x", some ⟨0, 8, 9⟩⟩) (some ⟨0, 5, 9⟩)])
      ⟨"if", some ⟨0, 12, 14⟩⟩)))], some ⟨0, 0, 14⟩⟩

theorem parse_keywordMember : Script.parse 0 "x=>(\x7bif:x\x7d).if" = .ok keywordMember := by
  with_unfolding_all rfl

/-- The function and its body are in parentheses, and so are the object and the value of its property. -/
theorem Script.statements_tokens_keywordMember :
    keywordMember.tokens =
      [.symbol .lParen, .symbol .lParen, .ident "x", .symbol .rParen, .symbol .fatArrow, .symbol .lParen,
        .symbol .lParen, .symbol .lBrace, .keyword .ifWord, .symbol .colon, .symbol .lParen, .ident "x",
        .symbol .rParen, .symbol .rBrace, .symbol .rParen, .symbol .dot, .keyword .ifWord, .symbol .rParen,
        .symbol .rParen, .symbol .semicolon] ∧
    Script.parse 0 "x=>(\x7bif:x\x7d).if" = .ok keywordMember ∧
    ∃ body, Parser.statements ⟨0, 0⟩ ⟨keywordMember.tokens.map fun t => ⟨t, 0, 0, false⟩, none, 0⟩ = .ok body ∧
      Script.erase ⟨body, none⟩ = keywordMember.erase := by
  refine ⟨rfl, parse_keywordMember, Script.statements_tokens parse_keywordMember ?_ ?_ ⟨0, 0⟩⟩
  · rw [List.map_map]
    exact List.map_id _
  · exact List.forall_mem_map.mpr fun _ _ => rfl

end ScriptTypes
