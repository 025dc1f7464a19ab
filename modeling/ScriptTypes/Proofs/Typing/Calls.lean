import ScriptTypes.Proofs.Typing.TopLevel

/-! The calls of a run. Inference of a script calls itself on the parts of the script, one after the other. A visit is
such a call together with the state of the run at that time, so that what holds of all calls of a run is shown once for
the statements of a script and once for each way in which a call makes another. -/

namespace ScriptTypes

/-- The values of properties up to the first one that has no label of its own. -/
def Property.values (seen : List String) : List Property → List Expr
  | [] => []
  | .mk key value _ :: ps =>
      match key.label? with
      | some label => if label ∈ seen then [] else value :: values (label :: seen) ps
      | none => []

/-- The expressions that are inferred for an expression, in this order and all in the environment of the whole. -/
def Expr.parts : Expr → List Expr
  | .array _ es => es
  | .object _ ps => Property.values [] ps
  | .member _ e _ => [e]
  | .binary _ _ a b => [a, b]
  | .conditional _ t a b => [t, a, b]
  | .call _ f as => f :: as
  | .template _ (.mk _ es _) => es
  | _ => []

/-- A call of inference, with what it is given. -/
inductive Call where
  | expr (env : Env VarId) (e : Expr)
  | body (scope : Env VarId) (body : Body)
  | definition (env : Env VarId) (id : Ident) (node : Node) (params : List Pattern) (body : Body)
  | stmt (kind : BlockKind) (b : Block) (s : Stmt)

inductive Answer where
  | typing (t : Typing VarId)
  | block (b : Block)

def Call.answer (steps : Nat) : Call → Infer Answer
  | .expr env e => do return .typing (← Infer.expr steps env e)
  | .body scope fbody => do return .typing (← Infer.functionBody steps scope fbody)
  | .definition env id node ps fbody => do return .typing (← Infer.definition steps env id node ps fbody)
  | .stmt kind b s => do return .block (← Infer.stmt steps kind b s)

theorem Call.returns_expr_iff {steps : Nat} {env : Env VarId} {e : Expr} {r r' : Run} {t : Typing VarId} :
    Returns ((Call.expr env e).answer steps) r (.typing t) r' ↔ Returns (Infer.expr steps env e) r t r' := by
  rw [answer, Returns.bind_iff]
  constructor
  · rintro ⟨u, r₁, hu, h⟩
    cases h
    exact hu
  · exact fun h => ⟨t, r', h, Returns.pure _ _⟩

/-- A call in a run. -/
structure Visit where
  /-- The parameters of the functions around the call, and the names that such functions are bound to. -/
  names : List String
  /-- The typings that the calls around it go on with when it is done. -/
  hand : List (Typing VarId)
  run : Run
  call : Call

/-- What a block has at hand besides its names. -/
def Block.held (b : Block) : List (Typing VarId) :=
  b.typings ++ b.returned.toList

/-- What functions have at hand of their parameters. -/
def Typing.ofParams (params : List (String × Ty VarId)) : List (Typing VarId) :=
  params.map fun p => .param p.1 p.2

/-- One call makes another, if those that it makes before return. -/
inductive Visit.Makes (steps : Nat) : Visit → Visit → Prop
  | part {names hand r r₁ env e before part after ts} (hparts : e.parts = before ++ part :: after)
      (hbefore : Returns (Infer.exprs steps env before) r ts r₁) :
      Makes steps ⟨names, hand, r, .expr env e⟩ ⟨names, ts ++ hand, r₁, .expr env part⟩
  | arrow {names hand r r₁ env scope node ps params body}
      (hbind : Returns (Infer.bindParams env.child ps) r (scope, params) r₁) :
      Makes steps ⟨names, hand, r, .expr env (.arrow node ps body)⟩
        ⟨Pattern.allLabels ps ++ names, Typing.ofParams params ++ hand, r₁, .body scope body⟩
  | exprBody {names hand r scope e} :
      Makes steps ⟨names, hand, r, .body scope (.expr e)⟩ ⟨names, hand, r, .expr scope e⟩
  | blockBody {names hand r r₁ scope b before s after pos}
      (hbefore : Returns (Infer.stmts steps .function ⟨scope, [], none⟩ before) r b r₁) (hb : b.returned = none) :
      Makes steps ⟨names, hand, r, .body scope (.block (before ++ s :: after) pos)⟩
        ⟨names, hand, r₁, .stmt .function b s⟩
  | definition {names hand r r₁ env id node scope ps params body}
      (hbind : Returns (Infer.bindDef env id ps) r (scope, params) r₁) :
      Makes steps ⟨names, hand, r, .definition env id node ps body⟩
        ⟨Pattern.allLabels ps ++ id.label :: names, Typing.ofParams params ++ hand, r₁, .body scope body⟩
  | letFunction {names hand r kind b node id fnode ps body pos} (hinfer : b.env.shouldInfer id.label = true) :
      Makes steps
        ⟨names, hand, r, .stmt kind b (.decl node .letDecl [.mk (.ident id) (some (.arrow fnode ps body)) pos])⟩
        ⟨names, b.held ++ hand, r, .definition b.env id fnode ps body⟩
  | letValue {names hand r kind b node id e pos} (hvalue : e.isArrow = false)
      (hinfer : b.env.shouldInfer id.label = true) :
      Makes steps ⟨names, hand, r, .stmt kind b (.decl node .letDecl [.mk (.ident id) (some e) pos])⟩
        ⟨names, b.held ++ hand, r, .expr b.env e⟩
  | expr {names hand r kind b node e} (hplain : ∀ n tag quasi, e ≠ .tagged n tag quasi) :
      Makes steps ⟨names, hand, r, .stmt kind b (.expr node e)⟩ ⟨names, b.held ++ hand, r, .expr b.env e⟩
  | ret {names hand r b node e} :
      Makes steps ⟨names, hand, r, .stmt .function b (.ret node (some e))⟩ ⟨names, b.held ++ hand, r, .expr b.env e⟩
  | block {names hand r r₁ kind b b₁ node before s after}
      (hbefore : Returns (Infer.stmts steps kind { b with env := b.env.child } before) r b₁ r₁)
      (hb : b₁.returned = none) :
      Makes steps ⟨names, hand, r, .stmt kind b (.block node (before ++ s :: after))⟩ ⟨names, hand, r₁, .stmt kind b₁ s⟩

/-- The calls of the run over a script, at any depth. -/
inductive Script.Visits (steps : Nat) (script : Script) : Visit → Prop
  | stmt {before s after b r} (hbody : script.body = before ++ s :: after)
      (hbefore : Infers steps ⟨.empty, [], none⟩ before .initial b r) :
      Visits steps script ⟨[], [], r, .stmt .top b s⟩
  | made {v v'} (hv : Visits steps script v) (hmakes : v.Makes steps v') : Visits steps script v'

/-- What every statement of a script satisfies in its turn, and what a call hands on to those that it makes, holds of
all calls of the run. -/
theorem Script.Visits.invariant {steps : Nat} {script : Script} {I : Visit → Prop}
    (hstmt : ∀ before s b r, Infers steps ⟨.empty, [], none⟩ before .initial b r → I ⟨[], [], r, .stmt .top b s⟩)
    (hmakes : ∀ v v', v.Makes steps v' → I v → I v') {v : Visit} (hv : script.Visits steps v) : I v := by
  induction hv with
  | stmt hbody hbefore => exact hstmt _ _ _ _ hbefore
  | made _ hm ih => exact hmakes _ _ hm ih

/-- The scope in which the body of `pair` is inferred. -/
def pairingScope : Env VarId :=
  ⟨[("x", ⟨⟨"x", none⟩, .param "x" (.var 1 none), false⟩)],
    [[("pair", ⟨⟨"pair", none⟩, .param "pair" (.var 0 none), false⟩)], []]⟩

/-- The first use of the parameter of `pair`. -/
theorem pairing_visits_use :
    pairing.Visits 20
      ⟨["x", "pair"], [.param "x" (.var 1 none)], Run.initial.skip 2, .expr pairingScope (pairing.use "x")⟩ := by
  have hscope : Returns (Infer.bindDef .empty ⟨"pair", none⟩ [.ident ⟨"x", none⟩]) .initial
    (pairingScope, [("x", .var 1 none)]) (Run.initial.skip 2) := rfl
  have hbefore : Returns (Infer.stmts 20 .function ⟨pairingScope, [], none⟩ []) (Run.initial.skip 2)
      ⟨pairingScope, [], none⟩ (Run.initial.skip 2) := by
    rw [Infer.stmts_nil]
    exact Returns.pure _ _
  have hnone : Returns (Infer.exprs 20 pairingScope []) (Run.initial.skip 2) [] (Run.initial.skip 2) := by
    rw [Infer.exprs]
    exact Returns.pure _ _
  have hstmt : pairing.Visits 20 ⟨[], [], .initial, .stmt .top ⟨.empty, [], none⟩ _⟩ :=
    .stmt (show pairing.body = [] ++ _ from rfl) (Infers.nil_iff.mpr ⟨rfl, rfl⟩)
  have hbody := (hstmt.made (.letFunction rfl)).made (.definition hscope)
  have harray := (hbody.made (.blockBody hbefore rfl)).made (.letValue rfl rfl)
  exact harray.made (.part rfl hnone)

end ScriptTypes
