import ScriptTypes.Proofs.Typing.Ensures
import ScriptTypes.Proofs.Typing.Syntax
import ScriptTypes.Typing.Infer

/-! Statements change the block in which they stand. Seen from outside a statement leads from one block to another, and
each kind of statement has an equation for that. A statement that fails has bound no name in its block: the names are
still those from before it, wherever in the statement the failure was. -/

namespace ScriptTypes

theorem Infer.ext {α : Type} {x y : Infer α} (h : ∀ r, x.outcome r = y.outcome r) : x = y :=
  funext h

namespace Checking

variable {α β : Type}

theorem outcome_bind (x : Checking α) (f : α → Checking β) (b : Block) (r : Run) :
    (x >>= f).outcome b r =
      match x.outcome b r with
      | ((.ok a, b₁), r₁) => (f a).outcome b₁ r₁
      | ((.error e, b₁), r₁) => ((.error e, b₁), r₁) := by
  change Id.run ((StateT.run (ExceptT.bindCont f (x.outcome b r).1.1) (x.outcome b r).1.2).run (x.outcome b r).2) = _
  obtain ⟨⟨result, b₁⟩, r₁⟩ := x.outcome b r
  cases result <;> rfl

theorem outcome_current_bind (f : Block → Checking α) (b : Block) (r : Run) :
    (current >>= f).outcome b r = (f b).outcome b r := rfl

/-- How a computation goes on matters only for what it may lead to. -/
theorem bind_congr_of_outcome {x : Checking α} {f g : α → Checking β}
    (h : ∀ b r a b' r', x.outcome b r = ((.ok a, b'), r') → (f a).outcome b' r' = (g a).outcome b' r') :
    x >>= f = x >>= g := by
  funext b r
  change (x >>= f).outcome b r = (x >>= g).outcome b r
  rw [outcome_bind, outcome_bind]
  cases hx : x.outcome b r with
  | mk result r₁ =>
      obtain ⟨result, b₁⟩ := result
      cases result with
      | error e => rfl
      | ok a => exact h b r a b₁ r₁ hx

theorem outcome_lift (x : Infer α) (b : Block) (r : Run) :
    (liftM x : Checking α).outcome b r = (((x.outcome r).1, b), (x.outcome r).2) := rfl

/-- Whatever becomes of a block within a block, the names around it stay. -/
theorem outcome_nested (x : Checking Unit) (b : Block) (r : Run) :
    x.nested.outcome b r =
      match x.outcome { b with env := b.env.child } r with
      | ((result, inner), r₁) => ((result, { inner with env := b.env }), r₁) := rfl

/-! The block that a computation leads to. -/

theorem outcome_blockFrom (x : Checking Unit) (b : Block) (r : Run) :
    (x.blockFrom b).outcome r =
      match x.outcome b r with
      | ((.ok _, b₁), r₁) => (.ok b₁, r₁)
      | ((.error e, _), r₁) => (.error e, r₁) := by
  change ((x.outcome b r).1.1.map fun _ => (x.outcome b r).1.2, (x.outcome b r).2) = _
  obtain ⟨⟨result, b₁⟩, r₁⟩ := x.outcome b r
  cases result <;> rfl

theorem blockFrom_bind (x : Checking Unit) (f : Unit → Checking Unit) (b : Block) :
    (x >>= f).blockFrom b = x.blockFrom b >>= fun b => (f ()).blockFrom b := by
  refine Infer.ext fun r => ?_
  rw [outcome_blockFrom, outcome_bind, Infer.outcome_bind, outcome_blockFrom]
  obtain ⟨⟨result, b₁⟩, r₁⟩ := x.outcome b r
  cases result with
  | error e => rfl
  | ok _ => exact (outcome_blockFrom _ b₁ r₁).symm

theorem blockFrom_lift_bind (x : Infer α) (f : α → Checking Unit) (b : Block) :
    (liftM x >>= f).blockFrom b = x >>= fun a => (f a).blockFrom b := by
  refine Infer.ext fun r => ?_
  rw [outcome_blockFrom, outcome_bind, Infer.outcome_bind, outcome_lift]
  obtain ⟨result, r₁⟩ := x.outcome r
  cases result with
  | error e => rfl
  | ok a => exact (outcome_blockFrom _ b r₁).symm

theorem blockFrom_current_bind (f : Block → Checking Unit) (b : Block) :
    (current >>= f).blockFrom b = (f b).blockFrom b := rfl

theorem blockFrom_change_bind (f : Block → Block) (g : Unit → Checking Unit) (b : Block) :
    (change f >>= g).blockFrom b = (g ()).blockFrom (f b) := rfl

theorem blockFrom_nested (x : Checking Unit) (b : Block) :
    x.nested.blockFrom b = x.blockFrom { b with env := b.env.child } >>= fun inner => pure { inner with env := b.env } := by
  refine Infer.ext fun r => ?_
  rw [outcome_blockFrom, Infer.outcome_bind, outcome_blockFrom, outcome_nested]
  obtain ⟨⟨result, inner⟩, r₁⟩ := x.outcome { b with env := b.env.child } r
  cases result <;> rfl

end Checking

namespace Infer

/-- A declaration, from the typing of its value. -/
def declare (b : Block) (id : Ident) (typing : Infer (Typing VarId)) : Infer Block := do
  if b.env.shouldInfer id.label then
    let t ← typing
    let env ← lift (b.env.assign id t)
    return { b with env, typings := b.typings ++ [t] }
  else return b

theorem blockFrom_declare (id : Ident) (typing : Env VarId → Infer (Typing VarId)) (b : Block) :
    (Checking.declare id typing).blockFrom b = declare b id (typing b.env) := by
  rw [Checking.declare, Checking.blockFrom_current_bind, declare]
  dsimp only
  split
  · rw [Checking.blockFrom_lift_bind]
    refine bind_congr fun t => ?_
    rw [Checking.addTyping, Checking.blockFrom_change_bind, Checking.blockFrom_current_bind,
      Checking.blockFrom_lift_bind]
    rfl
  · rfl

/-- A function bound to a name. -/
def definition (steps : Nat) (env : Env VarId) (id : Ident) (node : Node) (params : List Pattern) (body : Body) :
    Infer (Typing VarId) := do
  let (scope, params) ← bindDef env id params
  let t ← functionBody steps scope body
  defTyping steps id.label node params t

/-- What a `let` infers for its name. -/
def letTyping (steps : Nat) (env : Env VarId) (id : Ident) : Expr → Infer (Typing VarId)
  | .arrow node params body => definition steps env id node params body
  | e => expr steps env e

/-- The block that a statement leads to. -/
def stmt (steps : Nat) (kind : BlockKind) (b : Block) (s : Stmt) : Infer Block :=
  (checkStmt steps kind s).blockFrom b

/-- The block that statements lead to, up to the first that returns. -/
def stmts (steps : Nat) (kind : BlockKind) (b : Block) (ss : List Stmt) : Infer Block :=
  (checkBlock steps kind ss).blockFrom b

variable (steps : Nat) (kind : BlockKind) (b : Block)

theorem functionBody_block (scope : Env VarId) (ss : List Stmt) (pos : Position) :
    functionBody steps scope (.block ss pos) =
      stmts steps .function ⟨scope, [], none⟩ ss >>= fun b => blockTyping steps b := rfl

theorem checkBlock_nil : checkBlock steps kind [] = pure () := rfl

theorem checkBlock_cons (s : Stmt) (ss : List Stmt) :
    checkBlock steps kind (s :: ss) = (do
      checkStmt steps kind s
      if (← Checking.current).returned.isNone then checkBlock steps kind ss) := rfl

theorem stmts_nil : stmts steps kind b [] = pure b := rfl

theorem stmts_cons (s : Stmt) (ss : List Stmt) :
    stmts steps kind b (s :: ss) = (do
      let b ← stmt steps kind b s
      if b.returned.isSome then return b else stmts steps kind b ss) := by
  rw [stmts, checkBlock_cons, Checking.blockFrom_bind]
  refine bind_congr fun b₁ => ?_
  rw [Checking.blockFrom_current_bind]
  cases b₁.returned <;> rfl

theorem returns_stmt {steps : Nat} {kind : BlockKind} {s : Stmt} {b b' : Block} {r r' : Run} {u : Unit}
    (h : (checkStmt steps kind s).outcome b r = ((.ok u, b'), r')) : Returns (stmt steps kind b s) r b' r' := by
  change (stmt steps kind b s).outcome r = (.ok b', r')
  rw [stmt, Checking.outcome_blockFrom, h]

theorem stmt_fails {s : Stmt} {b b' : Block} {r r' : Run} {e : Failure VarId}
    (h : (checkStmt steps kind s).outcome b r = ((.error e, b'), r')) :
    (stmt steps kind b s).outcome r = (.error e, r') := by
  rw [stmt, Checking.outcome_blockFrom, h]

/-! Each kind of statement. -/

theorem checkStmt_letFunction (node fnode : Node) (id : Ident) (ps : List Pattern) (body : Body) (pos : Position) :
    checkStmt steps kind (.decl node .letDecl [.mk (.ident id) (some (.arrow fnode ps body)) pos]) =
      .declare id fun env => definition steps env id fnode ps body := rfl

theorem checkStmt_letValue (node : Node) (id : Ident) {e : Expr} (he : e.isArrow = false) (pos : Position) :
    checkStmt steps kind (.decl node .letDecl [.mk (.ident id) (some e) pos]) =
      .declare id fun env => expr steps env e := by
  cases e with
  | arrow => cases he
  | _ => rfl

theorem checkStmt_let (node : Node) (id : Ident) (e : Expr) (pos : Position) :
    checkStmt steps kind (.decl node .letDecl [.mk (.ident id) (some e) pos]) =
      .declare id fun env => letTyping steps env id e := by
  cases e with
  | arrow fnode ps body => exact checkStmt_letFunction steps kind node fnode id ps body pos
  | _ => exact checkStmt_letValue steps kind node id rfl pos

theorem checkStmt_expr (node : Node) {e : Expr} (he : ∀ n tag quasi, e ≠ .tagged n tag quasi) :
    checkStmt steps kind (.expr node e) = (do
      let t ← expr steps (← Checking.current).env e
      Checking.addTyping t) := by
  cases e with
  | tagged n tag quasi => exact (he n tag quasi rfl).elim
  | _ => rfl

theorem checkStmt_assume (node n n' : Node) {tag : Ident} (htag : tag.label = assumeTag) (quasi : Template) :
    checkStmt steps kind (.expr node (.tagged n (.ident n' tag) quasi)) = (do
      let (id, t) ← assumption quasi
      Checking.assume id t) :=
  if_pos htag

theorem checkStmt_tagged (node n : Node) {tag : Expr} (htag : ∀ n' id, tag = .ident n' id → id.label ≠ assumeTag)
    (quasi : Template) :
    checkStmt steps kind (.expr node (.tagged n tag quasi)) = liftM (unsupported "tagged templates" n.pos) := by
  cases tag with
  | ident n' id => exact if_neg (htag n' id rfl)
  | _ => rfl

theorem checkStmt_ret (node : Node) (e : Expr) :
    checkStmt steps .function (.ret node (some e)) = (do
      let t ← expr steps (← Checking.current).env e
      Checking.giveBack t) := rfl

theorem checkStmt_retNothing (node : Node) :
    checkStmt steps .function (.ret node none) = .giveBack (.closed (.leaf .undefined (some node))) := rfl

theorem checkStmt_ret_top (node : Node) (value : Option Expr) :
    checkStmt steps .top (.ret node value) = liftM (unsupported "`return` outside of a function" node.pos) := rfl

theorem checkStmt_block (node : Node) (ss : List Stmt) :
    checkStmt steps kind (.block node ss) = (checkBlock steps kind ss).nested := rfl

/-- A statement that is refused does nothing else. -/
theorem checkStmt_refused {s : Stmt} {description : String} {pos : Position} (hs : s.Refused description pos) :
    checkStmt steps kind s = liftM (unsupported description pos) := by
  cases hs with
  | otherDecl node hkind ds =>
      rw [checkStmt.eq_def]
      exact if_neg hkind
  | uninitialized | cond | loop => rfl
  | @destructuring node p hp e pos =>
      cases p with
      | ident id => exact (hp id rfl).elim
      | _ => rfl
  | @declarators node ds hds =>
      rw [checkStmt, if_pos rfl]
      all_goals
        intros
        subst ds
        exact hds rfl

theorem stmt_letFunction (node fnode : Node) (id : Ident) (ps : List Pattern) (body : Body) (pos : Position) :
    stmt steps kind b (.decl node .letDecl [.mk (.ident id) (some (.arrow fnode ps body)) pos]) =
      declare b id (definition steps b.env id fnode ps body) := by
  rw [stmt, checkStmt_letFunction, blockFrom_declare]

theorem stmt_letValue (node : Node) (id : Ident) {e : Expr} (he : e.isArrow = false) (pos : Position) :
    stmt steps kind b (.decl node .letDecl [.mk (.ident id) (some e) pos]) = declare b id (expr steps b.env e) := by
  rw [stmt, checkStmt_letValue steps kind node id he pos, blockFrom_declare]

theorem stmt_let (node : Node) (id : Ident) (e : Expr) (pos : Position) :
    stmt steps kind b (.decl node .letDecl [.mk (.ident id) (some e) pos]) =
      declare b id (letTyping steps b.env id e) := by
  rw [stmt, checkStmt_let, blockFrom_declare]

theorem stmt_expr (node : Node) {e : Expr} (he : ∀ n tag quasi, e ≠ .tagged n tag quasi) :
    stmt steps kind b (.expr node e) = do
      let t ← expr steps b.env e
      return { b with typings := b.typings ++ [t] } := by
  rw [stmt, checkStmt_expr steps kind node he, Checking.blockFrom_current_bind, Checking.blockFrom_lift_bind]
  rfl

theorem stmt_assume (node n n' : Node) {tag : Ident} (htag : tag.label = assumeTag) (quasi : Template) :
    stmt steps kind b (.expr node (.tagged n (.ident n' tag) quasi)) = do
      let (id, t) ← assumption quasi
      return { b with env := b.env.assume id t } := by
  rw [stmt, checkStmt_assume steps kind node n n' htag, Checking.blockFrom_lift_bind]
  rfl

theorem stmt_tagged (node n : Node) {tag : Expr} (htag : ∀ n' id, tag = .ident n' id → id.label ≠ assumeTag)
    (quasi : Template) : stmt steps kind b (.expr node (.tagged n tag quasi)) = unsupported "tagged templates" n.pos := by
  rw [stmt, checkStmt_tagged steps kind node n htag]
  rfl

theorem stmt_ret (node : Node) (e : Expr) :
    stmt steps .function b (.ret node (some e)) = do
      let t ← expr steps b.env e
      return { b with returned := some t } := by
  rw [stmt, checkStmt_ret, Checking.blockFrom_current_bind, Checking.blockFrom_lift_bind]
  rfl

theorem stmt_retNothing (node : Node) :
    stmt steps .function b (.ret node none) =
      pure { b with returned := some (.closed (.leaf .undefined (some node))) } := rfl

theorem stmt_ret_top (node : Node) (value : Option Expr) :
    stmt steps .top b (.ret node value) = unsupported "`return` outside of a function" node.pos := rfl

theorem stmt_block (node : Node) (ss : List Stmt) :
    stmt steps kind b (.block node ss) = do
      let inner ← stmts steps kind { b with env := b.env.child } ss
      return { inner with env := b.env } := by
  rw [stmt, checkStmt_block, Checking.blockFrom_nested]
  rfl

theorem stmt_refused {s : Stmt} {description : String} {pos : Position} (hs : s.Refused description pos) :
    stmt steps kind b s = unsupported description pos := by
  rw [stmt, checkStmt_refused steps kind hs]
  rfl

end Infer

/-! What is left of a block. -/

namespace Checking

variable {α β γ : Type}

/-- A computation leaves something of the block as it is, whether it fails or not. -/
def Keeps (view : Block → γ) (x : Checking α) : Prop :=
  ∀ b r, view (x.outcome b r).1.2 = view b

/-- A computation that fails has left the names of the block as they were. -/
def FailsClean (x : Checking α) : Prop :=
  ∀ b r e b' r', x.outcome b r = ((.error e, b'), r') → b'.env = b.env

theorem Keeps.lift (view : Block → γ) (x : Infer α) : Keeps view (liftM x : Checking α) :=
  fun _ _ => rfl

theorem Keeps.current (view : Block → γ) : Keeps view current :=
  fun _ _ => rfl

theorem Keeps.change {view : Block → γ} {f : Block → Block} (hf : ∀ b, view (f b) = view b) : Keeps view (change f) :=
  fun b _ => hf b

theorem Keeps.bind {view : Block → γ} {x : Checking α} {f : α → Checking β} (hx : Keeps view x)
    (hf : ∀ a, Keeps view (f a)) : Keeps view (x >>= f) := by
  intro b r
  have hleft := hx b r
  rw [outcome_bind]
  revert hleft
  obtain ⟨⟨result, b₁⟩, r₁⟩ := x.outcome b r
  cases result with
  | error e => exact id
  | ok a => exact (hf a b₁ r₁).trans

/-- A block within a block has names of its own. -/
theorem Keeps.nested_env (x : Checking Unit) : Keeps Block.env x.nested :=
  fun _ _ => rfl

theorem Keeps.nested_returned {x : Checking Unit} (hx : Keeps Block.returned x) : Keeps Block.returned x.nested :=
  fun b r => hx { b with env := b.env.child } r

theorem Keeps.failsClean {x : Checking α} (hx : Keeps Block.env x) : x.FailsClean := by
  intro b r e b' r' h
  have hleft := hx b r
  rwa [h] at hleft

theorem FailsClean.change (f : Block → Block) : (change f).FailsClean := by
  intro b r e b' r' h
  cases h

/-- A computation may change names once nothing of it can fail any more. -/
theorem FailsClean.bind {x : Checking α} {f : α → Checking β} (hx : Keeps Block.env x) (hf : ∀ a, (f a).FailsClean) :
    (x >>= f).FailsClean := by
  intro b r e b' r' h
  have hleft := hx b r
  rw [outcome_bind] at h
  revert hleft h
  obtain ⟨⟨result, b₁⟩, r₁⟩ := x.outcome b r
  cases result with
  | error e =>
      rintro ⟨⟩
      exact id
  | ok a => exact fun h => (hf a b₁ r₁ e b' r' h).trans

theorem FailsClean.unsupported (description : String) (pos : Position) :
    (liftM (Infer.unsupported description pos : Infer Unit) : Checking Unit).FailsClean :=
  (Keeps.lift _ _).failsClean

theorem FailsClean.declare (id : Ident) (typing : Env VarId → Infer (Typing VarId)) :
    (declare id typing).FailsClean := by
  refine .bind (.current _) fun b => ?_
  dsimp only
  split
  · refine .bind (.lift _ _) fun t => .bind (.change fun _ => rfl) fun _ => ?_
    exact .bind (.current _) fun b => .bind (.lift _ _) fun env => .change _
  · exact (Keeps.lift _ (pure ())).failsClean

end Checking

namespace Infer

variable (steps : Nat)

/-- A statement that fails leaves the names of its block, at the top level and in functions. -/
theorem checkStmt_failsClean (kind : BlockKind) (s : Stmt) : (checkStmt steps kind s).FailsClean := by
  cases s using Stmt.induction_on with
  | decl node id e pos =>
      rw [checkStmt_let]
      exact .declare _ _
  | assume node n n' tag quasi htag =>
      rw [checkStmt_assume steps kind node n n' htag]
      exact .bind (.lift _ _) fun p => .change _
  | tagged node n tag quasi htag =>
      rw [checkStmt_tagged steps kind node n htag]
      exact .unsupported _ _
  | expr node e he =>
      rw [checkStmt_expr steps kind node he]
      exact .bind (.current _) fun b => .bind (.lift _ _) fun t => .change _
  | ret node e =>
      cases kind with
      | top =>
          rw [checkStmt_ret_top]
          exact .unsupported _ _
      | function =>
          rw [checkStmt_ret]
          exact .bind (.current _) fun b => .bind (.lift _ _) fun t => .change _
  | retNothing node =>
      cases kind with
      | top =>
          rw [checkStmt_ret_top]
          exact .unsupported _ _
      | function =>
          rw [checkStmt_retNothing]
          exact .change _
  | block node ss =>
      rw [checkStmt_block]
      exact (Checking.Keeps.nested_env _).failsClean
  | refused s description pos hs =>
      rw [checkStmt_refused steps kind hs]
      exact .unsupported _ _

/-- The names are the same where a statement has failed. -/
theorem env_left {steps : Nat} {kind : BlockKind} {b : Block} {s : Stmt} {r r' : Run} {e : Failure VarId}
    (h : (stmt steps kind b s).outcome r = (.error e, r')) : ((checkStmt steps kind s).outcome b r).1.2.env = b.env := by
  have hclean := checkStmt_failsClean steps kind s b r
  rw [stmt, Checking.outcome_blockFrom] at h
  revert hclean h
  obtain ⟨⟨result, b'⟩, r₁⟩ := (checkStmt steps kind s).outcome b r
  intro h hclean
  cases result with
  | ok _ => cases h
  | error e => exact hclean e b' r₁ rfl

/-! Scripts. -/

theorem keepsReturned_declare (id : Ident) (typing : Env VarId → Infer (Typing VarId)) :
    (Checking.declare id typing).Keeps Block.returned := by
  refine .bind (.current _) fun b => ?_
  dsimp only
  split
  · refine .bind (.lift _ _) fun t => .bind (.change fun _ => rfl) fun _ => ?_
    exact .bind (.current _) fun b => .bind (.lift _ _) fun env => .change fun _ => rfl
  · exact .lift _ (pure ())

theorem checkBlock_keepsReturned {ss : List Stmt} (hss : ∀ s ∈ ss, (checkStmt steps .top s).Keeps Block.returned) :
    (checkBlock steps .top ss).Keeps Block.returned := by
  induction ss with
  | nil =>
      rw [checkBlock_nil]
      exact .lift _ (pure ())
  | cons s ss ih =>
      obtain ⟨hs, hss⟩ := List.forall_mem_cons.mp hss
      rw [checkBlock_cons]
      refine .bind hs fun _ => .bind (.current _) fun b => ?_
      split
      · exact ih hss
      · exact .lift _ (pure ())

/-- At the top level nothing returns. -/
theorem checkStmt_keepsReturned (s : Stmt) : (checkStmt steps .top s).Keeps Block.returned := by
  induction s using Stmt.induction_on with
  | decl node id e pos =>
      rw [checkStmt_let]
      exact keepsReturned_declare _ _
  | assume node n n' tag quasi htag =>
      rw [checkStmt_assume steps .top node n n' htag]
      exact .bind (.lift _ _) fun p => .change fun _ => rfl
  | tagged node n tag quasi htag =>
      rw [checkStmt_tagged steps .top node n htag]
      exact .lift _ _
  | expr node e he =>
      rw [checkStmt_expr steps .top node he]
      exact .bind (.current _) fun b => .bind (.lift _ _) fun t => .change fun _ => rfl
  | ret node e | retNothing node =>
      rw [checkStmt_ret_top]
      exact .lift _ _
  | block node ss ih =>
      rw [checkStmt_block]
      exact (checkBlock_keepsReturned steps ih).nested_returned
  | refused s description pos hs =>
      rw [checkStmt_refused steps .top hs]
      exact .lift _ _

/-- The statements of a script one by one, and the failure that ends them if there is one. -/
def script (b : Block) : List Stmt → Run → (Block × Option (Failure VarId)) × Run
  | [], r => ((b, none), r)
  | s :: ss, r =>
      match (checkStmt steps .top s).outcome b r with
      | ((.ok _, b₁), r₁) => script b₁ ss r₁
      | ((.error e, b₁), r₁) => ((b₁, some e), r₁)

/-- Seen from the block that its first statement leads to, or that it has left. -/
theorem script_cons (b : Block) (s : Stmt) (ss : List Stmt) (r : Run) :
    script steps b (s :: ss) r =
      match (stmt steps .top b s).outcome r with
      | (.ok b₁, r₁) => script steps b₁ ss r₁
      | (.error e, r₁) => ((((checkStmt steps .top s).outcome b r).1.2, some e), r₁) := by
  rw [script, stmt, Checking.outcome_blockFrom]
  obtain ⟨⟨result, b₁⟩, r₁⟩ := (checkStmt steps .top s).outcome b r
  cases result <;> rfl

/-- At the top level statements go on until one fails. -/
theorem outcome_checkBlock_cons (s : Stmt) (ss : List Stmt) {b : Block} (hb : b.returned = none) (r : Run) :
    (checkBlock steps .top (s :: ss)).outcome b r =
      match (checkStmt steps .top s).outcome b r with
      | ((.ok _, b₁), r₁) => (checkBlock steps .top ss).outcome b₁ r₁
      | ((.error e, b₁), r₁) => ((.error e, b₁), r₁) := by
  have hkeeps := checkStmt_keepsReturned steps s b r
  rw [checkBlock_cons, Checking.outcome_bind]
  revert hkeeps
  obtain ⟨⟨result, b₁⟩, r₁⟩ := (checkStmt steps .top s).outcome b r
  intro hkeeps
  cases result with
  | error e => rfl
  | ok _ =>
      have hgoes : b₁.returned.isNone = true := Option.isNone_iff_eq_none.mpr (hkeeps.trans hb)
      change (if b₁.returned.isNone then checkBlock steps .top ss else pure ()).outcome b₁ r₁ = _
      rw [if_pos hgoes]

theorem script_eq (ss : List Stmt) {b : Block} (hb : b.returned = none) (r : Run) :
    script steps b ss r =
      match (checkBlock steps .top ss).outcome b r with
      | ((.ok (), b₁), r₁) => ((b₁, none), r₁)
      | ((.error e, b₁), r₁) => ((b₁, some e), r₁) := by
  induction ss generalizing b r with
  | nil => rfl
  | cons s ss ih =>
      have hkeeps := checkStmt_keepsReturned steps s b r
      rw [outcome_checkBlock_cons steps s ss hb, script]
      revert hkeeps
      obtain ⟨⟨result, b₁⟩, r₁⟩ := (checkStmt steps .top s).outcome b r
      intro hkeeps
      cases result with
      | error e => rfl
      | ok _ => exact ih (hkeeps.trans hb) r₁

end Infer

theorem Script.run_eq (steps : Nat) (s : Script) :
    s.run steps = Infer.script steps ⟨.empty, [], none⟩ s.body .initial := by
  rw [Infer.script_eq steps s.body rfl]
  rfl

/-- How a run ends, and what is known of the script then. -/
theorem Script.infer_cases (steps : Nat) (s : Script) :
    ∃ b error r, s.run steps = ((b, error), r) ∧ s.infer steps = match error with
      | none => .ok ⟨b.env, none⟩
      | some (.type e) => .ok ⟨b.env, some e⟩
      | some (.scope e) => .error (.scope e)
      | some .unfinished => .error .unfinished := by
  refine ⟨(s.run steps).1.1, (s.run steps).1.2, (s.run steps).2, rfl, ?_⟩
  rw [infer]
  rcases (s.run steps).1 with ⟨b, _ | _ | _ | _⟩ <;> rfl

end ScriptTypes
