import ScriptTypes.Proofs.Script.Trim
import ScriptTypes.Proofs.Typing.Over

/-! Inference stops at `return`. In a function, inference of a statement that reaches a `return` fails or gives what is
returned, so what stands after it has no part in the run: a script and the trimmed script have the same run, with the
same variables and the same problems, and so the same answer. -/

namespace ScriptTypes

variable {steps : Nat}

/-! Statements that reach a `return`. -/

mutual

theorem Stmt.returned_of_returns (s : Stmt) (hs : s.returns = true) {kind : BlockKind} {r r' : Run} {b b' : Block}
    (h : Returns (Infer.stmt steps kind b s) r b' r') : b'.returned.isSome = true := by
  match s with
  | .ret node (some e) =>
      obtain ⟨-, t, -, rfl⟩ := Returns.stmt_ret_iff.mp h
      rfl
  | .ret node none =>
      obtain ⟨-, rfl, -⟩ := Returns.stmt_retNothing_iff.mp h
      rfl
  | .block node ss =>
      obtain ⟨inner, hinner, rfl⟩ := Returns.stmt_block_iff.mp h
      rw [Stmt.returns] at hs
      have hsome : inner.returned.isSome = true := returned_of_stmtsReturn ss hs hinner
      exact hsome
  | .decl .. | .expr .. | .cond .. | .loop .. => cases hs

theorem returned_of_stmtsReturn (ss : List Stmt) (hss : stmtsReturn ss = true) {kind : BlockKind} {r r' : Run}
    {b b' : Block} (h : Returns (Infer.stmts steps kind b ss) r b' r') : b'.returned.isSome = true := by
  match ss with
  | [] => cases hss
  | s :: ss =>
      obtain ⟨b₁, r₁, hs, ⟨hsome, rfl, -⟩ | ⟨hnone, hrest⟩⟩ := Returns.stmts_cons_iff.mp h
      · exact hsome
      · rw [stmtsReturn, Bool.or_eq_true] at hss
        rcases hss with hret | hret
        · have hsome := s.returned_of_returns hret hs
          rw [hnone] at hsome
          cases hsome
        · exact returned_of_stmtsReturn ss hret hrest

end

/-- A statement that is refused is refused for the same reason. -/
theorem Stmt.Refused.trim {s : Stmt} {description : String} {pos : Position} (h : s.Refused description pos)
    (kind : BlockKind) : (s.trim kind).Refused description pos := by
  cases h with
  | otherDecl node hkind ds =>
      rw [Stmt.trim]
      exact .otherDecl node hkind _
  | uninitialized node id pos =>
      rw [Stmt.trim, trimDeclarators, trimDeclarators, trimOption]
      exact .uninitialized node id pos
  | destructuring node hp e pos =>
      rw [Stmt.trim, trimDeclarators, trimDeclarators]
      exact .destructuring node hp _ pos
  | @declarators node ds hds =>
      rw [Stmt.trim]
      exact .declarators node (by rwa [length_trimDeclarators])
  | cond node test yes no =>
      rw [Stmt.trim]
      exact .cond node _ _ _
  | loop node test body =>
      rw [Stmt.trim]
      exact .loop node _ _

namespace Infer

/-- Nothing after a statement that reaches a `return` is looked at. -/
theorem checkBlock_of_returns (kind : BlockKind) {s : Stmt} (hs : s.returns = true) (ss ss' : List Stmt) :
    checkBlock steps kind (s :: ss) = checkBlock steps kind (s :: ss') := by
  rw [checkBlock_cons, checkBlock_cons]
  refine Checking.bind_congr_of_outcome fun b r _ b' r' h => ?_
  have hreturned : b'.returned.isSome = true := s.returned_of_returns hs (returns_stmt h)
  have hstops : ¬ b'.returned.isNone = true := by simpa [← Option.isSome_iff_ne_none] using hreturned
  rw [Checking.outcome_current_bind, Checking.outcome_current_bind, if_neg hstops, if_neg hstops]

theorem checkBlock_trim {kind : BlockKind} {ss : List Stmt}
    (h : ∀ s ∈ ss, checkStmt steps kind (s.trim kind) = checkStmt steps kind s) :
    checkBlock steps kind (trimStmts kind ss) = checkBlock steps kind ss := by
  induction ss with
  | nil => rw [trimStmts]
  | cons s ss ih =>
      obtain ⟨hs, hss⟩ := List.forall_mem_cons.mp h
      have hcons : checkBlock steps kind (s.trim kind :: trimStmts kind ss) = checkBlock steps kind (s :: ss) := by
        rw [checkBlock_cons, checkBlock_cons, hs, ih hss]
      rw [trimStmts]
      split
      · rename_i hr
        rw [checkBlock_of_returns kind _ [] (trimStmts kind ss), hcons]
        rw [s.returns_trim]
        exact (Bool.and_eq_true_iff.mp hr).2
      · exact hcons

theorem exprs_trim {env : Env VarId} {es : List Expr} (h : ∀ e ∈ es, expr steps env e.trim = expr steps env e) :
    exprs steps env (trimExprs es) = exprs steps env es := by
  induction es with
  | nil => rw [trimExprs]
  | cons e es ih =>
      obtain ⟨he, hes⟩ := List.forall_mem_cons.mp h
      rw [trimExprs, exprs, exprs, he, ih hes]

theorem propertyLabel_trim (seen : Assoc Ident) (key : PropertyKey) :
    propertyLabel seen key.trim = propertyLabel seen key := by
  cases key with
  | computed e => rw [PropertyKey.trim, propertyLabel, propertyLabel, e.node_trim]
  | _ => rw [PropertyKey.trim]

theorem properties_trim {env : Env VarId} {ps : List Property}
    (h : ∀ p ∈ ps, expr steps env p.value.trim = expr steps env p.value) (seen : Assoc Ident) :
    properties steps env seen (trimProperties ps) = properties steps env seen ps := by
  induction ps generalizing seen with
  | nil => rw [trimProperties]
  | cons p ps ih =>
      cases p with
      | mk key value pos =>
          obtain ⟨hp, hps⟩ := List.forall_mem_cons.mp h
          have hvalue : expr steps env value.trim = expr steps env value := hp
          rw [trimProperties, properties, properties, propertyLabel_trim, hvalue]
          refine congrArg _ (funext fun id => ?_)
          rw [ih hps]

theorem expr_trim_refused {e : Expr} (he : e.Refused) (env : Env VarId) :
    expr steps env e.trim = expr steps env e := by
  cases he <;> rw [Expr.trim, expr, expr]

theorem assumption_trim (q : Template) : assumption q.trim = assumption q := by
  match q with
  | .mk [text] [] pos => rw [Template.trim, trimExprs]
  | .mk [text] (e :: es) pos => rw [Template.trim, trimExprs, assumption, assumption] <;> simp
  | .mk [] es pos => rw [Template.trim, assumption, assumption] <;> simp
  | .mk (t :: u :: texts) es pos => rw [Template.trim, assumption, assumption] <;> simp

/-- An expression as a statement: an assumption, a template that is refused, or a value. -/
theorem checkStmt_trim_expr {node : Node} {e : Expr} (kind : BlockKind)
    (he : ∀ env, expr steps env e.trim = expr steps env e) :
    checkStmt steps kind (.expr node e.trim) = checkStmt steps kind (.expr node e) := by
  cases e with
  | tagged n t q =>
      rw [Expr.trim]
      cases t with
      | ident n' tag => rw [Expr.trim, checkStmt, checkStmt, assumption_trim]
      | _ => rw [Expr.trim, checkStmt, checkStmt] <;> simp
  | literal | ident => rw [Expr.trim]
  | _ =>
      rw [Expr.trim] at he ⊢
      rw [checkStmt, checkStmt]
      · simp only [he]
      all_goals simp

/-- Trimming a part of a script does not change what inference does with it. -/
theorem trim_cases (steps : Nat) :
    SyntaxCases (fun e => ∀ env, expr steps env e.trim = expr steps env e)
      (fun body => ∀ scope, functionBody steps scope body.trim = functionBody steps scope body)
      (fun s => ∀ kind, checkStmt steps kind (s.trim kind) = checkStmt steps kind s) where
  literal node value env := by rw [Expr.trim]
  ident node id env := by rw [Expr.trim]
  array node es hes env := by rw [Expr.trim, expr, expr, exprs_trim fun e he => hes e he env]
  object node ps hps env := by rw [Expr.trim, expr, expr, properties_trim fun p hp => hps p hp env]
  member node e label he env := by rw [Expr.trim, expr, expr, he]
  binary node op a b ha hb env := by rw [Expr.trim, expr, expr, ha, hb, a.node_trim, b.node_trim]
  conditional node t a b ht ha hb env := by rw [Expr.trim, expr, expr, ht, ha, hb, t.node_trim]
  arrow node ps body hbody env := by
    rw [Expr.trim, expr, expr]
    refine congrArg _ (funext fun p => ?_)
    obtain ⟨scope, params⟩ := p
    exact congrArg (· >>= absTyping steps node params) (hbody scope)
  call node f as hf has env := by
    rw [Expr.trim, expr, expr, hf, exprs_trim fun a ha => has a ha env, f.node_trim]
  template node texts es pos hes env := by
    rw [Expr.trim, Template.trim, expr, expr, exprs_trim fun e he => hes e he env]
  refused e he := expr_trim_refused he
  exprBody e he scope := by rw [Body.trim, functionBody, functionBody, he]
  blockBody ss pos hss scope := by
    rw [Body.trim, functionBody, functionBody, checkBlock_trim fun s hs => hss s hs .function]
  letFunction node id fnode ps body pos hbody kind := by
    rw [Stmt.trim, trimDeclarators, trimDeclarators, trimOption, Expr.trim, checkStmt_letFunction,
      checkStmt_letFunction]
    refine congrArg (Checking.declare id) (funext fun env => ?_)
    rw [definition, definition]
    simp only [hbody]
  letValue node id e pos harrow he kind := by
    rw [Stmt.trim, trimDeclarators, trimDeclarators, trimOption, checkStmt_letValue _ _ _ _ (e.isArrow_trim.trans harrow),
      checkStmt_letValue _ _ _ _ harrow]
    simp only [he]
  expr node e he kind := by
    rw [Stmt.trim]
    exact checkStmt_trim_expr kind he
  ret node e he kind := by
    rw [Stmt.trim, trimOption]
    cases kind with
    | top => rw [checkStmt_ret_top, checkStmt_ret_top]
    | function =>
        rw [checkStmt_ret, checkStmt_ret]
        simp only [he]
  retNothing node kind := by rw [Stmt.trim, trimOption]
  block node ss hss kind := by
    rw [Stmt.trim, checkStmt_block, checkStmt_block, checkBlock_trim fun s hs => hss s hs kind]
  refusedStmt s description pos hs kind := by
    rw [checkStmt_refused steps kind hs, checkStmt_refused steps kind (hs.trim kind)]

end Infer

/-- Code after `return` is irrelevant. A trimmed script has none left, and inference does the same with it, step by
step, as with the script: it hands out the same variables, solves the same problems and gives the same answer. -/
theorem Script.infer_trim (s : Script) :
    s.trim.passes .reached = true ∧
      ∀ steps, s.trim.run steps = s.run steps ∧ s.trim.infer steps = s.infer steps := by
  refine ⟨s.passes_trim, fun steps => ?_⟩
  have hrun : s.trim.run steps = s.run steps := by
    rw [run, run, trim, Infer.checkBlock_trim fun t _ => (Infer.trim_cases steps).allStmt t .top]
  exact ⟨hrun, by rw [infer, infer, hrun]⟩

end ScriptTypes
