import ScriptTypes.Proofs.Typing.Calls
import ScriptTypes.Proofs.Typing.Stopping

/-! Whom a typing asks something of. A use of a parameter, or of a function in its own body, asks something of that
name, and what is asked goes up through all rules until the function ends that binds the name. So a typing only asks
something of names that are bound by functions around it, and at the top level it asks nothing. -/

namespace ScriptTypes

/-- Something is asked of certain names only. -/
def Typing.Asks (names : List String) (t : Typing VarId) : Prop :=
  ∀ k ∈ Assoc.keys t.needs, k ∈ names

structure Block.Asks (names : List String) (b : Block) : Prop where
  env : b.env.All (Typing.Asks names)
  typings : ∀ t ∈ b.typings, t.Asks names
  returned : ∀ t, b.returned = some t → t.Asks names

namespace Block

variable {names : List String}

theorem asks_scope {scope : Env VarId} (h : scope.All (Typing.Asks names)) : Asks names ⟨scope, [], none⟩ :=
  ⟨h, nofun, nofun⟩

theorem Asks.child {b : Block} (h : b.Asks names) : Asks names { b with env := b.env.child } :=
  ⟨h.env.child, h.typings, h.returned⟩

end Block

namespace Typing

variable {names : List String}

theorem asks_closed (t : Ty VarId) : (closed t).Asks names := nofun

theorem asks_param {x : String} (hx : x ∈ names) (t : Ty VarId) : (param x t).Asks names :=
  List.forall_mem_singleton.mpr hx

theorem Asks.imp {more : List String} {t : Typing VarId} (h : t.Asks names) (hn : names ⊆ more) : t.Asks more :=
  fun k hk => hn (h k hk)

/-- What is asked together was asked by one of several. -/
theorem asks_joinUnder {envs : List (Requirements VarId)} (h : ∀ env ∈ envs, ∀ k ∈ Assoc.keys env, k ∈ names)
    (bs : List (Binding VarId)) (t : Ty VarId) : Asks names ⟨Requirements.joinUnder bs envs, t⟩ := by
  intro k hk
  obtain ⟨u, hu⟩ := Assoc.mem_keys.mp (Requirements.mem_keys_joinUnder.mp hk)
  obtain ⟨env, henv, hu⟩ := List.mem_flatten.mp hu
  exact h env henv k (Assoc.mem_keys_of_mem hu)

end Typing

/-! What a computation gives whenever it returns, whatever run it starts from. -/

def Gives {α : Type} (x : Infer α) (P : α → Prop) : Prop :=
  ∀ r a r', Returns x r a r' → P a

namespace Gives

variable {α β : Type} {P : α → Prop} {Q : β → Prop} {names : List String} {steps : Nat} {env : Env VarId}

theorem pure {a : α} (h : P a) : Gives (pure a) P := by
  intro r b r' hb
  obtain ⟨rfl, -⟩ := Returns.pure_iff.mp hb
  exact h

theorem bind {x : Infer α} {f : α → Infer β} (hx : Gives x P) (hf : ∀ a, P a → Gives (f a) Q) :
    Gives (x >>= f) Q := by
  intro r b r' hb
  obtain ⟨a, r₁, ha, hb⟩ := Returns.bind_iff.mp hb
  exact hf a (hx r a r₁ ha) r₁ b r' hb

/-- What comes first has no part in what is given. -/
theorem after {x : Infer α} {f : α → Infer β} (hf : ∀ a, Gives (f a) Q) : Gives (x >>= f) Q :=
  bind (P := fun _ => True) (fun _ _ _ _ => trivial) fun a _ => hf a

theorem throw (e : Failure VarId) : Gives (throw e) P :=
  fun _ _ _ h => (Returns.not_throw h).elim

theorem unsupported (description : String) (pos : Position) : Gives (Infer.unsupported description pos) P := throw _

theorem lift {x : Except (ScopeError VarId) α} (h : ∀ a, x = .ok a → P a) : Gives (Infer.lift x) P :=
  fun _ a _ ha => h a (Returns.lift_iff.mp ha).1

theorem instantiate {V : Type} [DecidableEq V] {t : Typing V} (h : ∀ k ∈ Assoc.keys t.needs, k ∈ names) :
    Gives (Infer.instantiate t) (Typing.Asks names) := by
  rintro r u r' ⟨⟩
  intro k hk
  exact h k (Typing.keys_instantiate t r.supply ▸ hk)

/-! Scopes. -/

theorem lookup {P : Typing VarId → Prop} {id : Ident} (henv : env.All P) : Gives (Infer.lift (env.lookup id)) P := by
  refine lift fun t ht => ?_
  unfold Env.lookup at ht
  split at ht
  · cases ht
    exact henv.get? ‹_›
  · cases ht

theorem assign {P : Typing VarId → Prop} {id : Ident} {t : Typing VarId} (henv : env.All P) (ht : P t) :
    Gives (Infer.lift (env.assign id t)) (Env.All P) := by
  refine lift fun env' henv' => ?_
  obtain ⟨-, rfl⟩ := Env.assign_eq_ok.mp henv'
  exact henv.insert ht

/-- Each parameter asks something of itself. -/
theorem bindParams {ps : List Pattern} (henv : env.All (Typing.Asks names))
    (hps : ∀ x ∈ Pattern.allLabels ps, x ∈ names) :
    Gives (Infer.bindParams env ps) fun p => p.1.All (Typing.Asks names) ∧ Assoc.keys p.2 = Pattern.allLabels ps := by
  induction ps generalizing env with
  | nil => exact pure ⟨henv, rfl⟩
  | cons p ps ih =>
      cases p with
      | object ids pos => exact unsupported _ _
      | array ids pos => exact unsupported _ _
      | ident id =>
          obtain ⟨hid, hps⟩ := List.forall_mem_cons.mp hps
          refine after fun t => bind (assign henv (Typing.asks_param hid t)) fun scope hscope => ?_
          refine bind (ih hscope hps) fun p hp => pure ⟨hp.1, ?_⟩
          exact congrArg (id.label :: ·) hp.2

theorem bindDef {id : Ident} {ps : List Pattern} (henv : env.All (Typing.Asks names)) (hid : id.label ∈ names)
    (hps : ∀ x ∈ Pattern.allLabels ps, x ∈ names) :
    Gives (Infer.bindDef env id ps) fun p => p.1.All (Typing.Asks names) ∧ Assoc.keys p.2 = Pattern.allLabels ps :=
  after fun own => bind (assign henv.child (Typing.asks_param hid own)) fun _ hscope => bindParams hscope.child hps

/-! Rules. -/

/-- The common part of the rules: all that the parts ask is asked together. -/
theorem combine {needs : List (Requirements VarId)} {extra : List (Constraint VarId)}
    {explain : UnifyError VarId → Failure VarId} (h : ∀ env ∈ needs, ∀ k ∈ Assoc.keys env, k ∈ names)
    (type : List (Binding VarId) → Ty VarId) :
    Gives (do
      let bs ← Infer.settle steps needs extra explain
      return ⟨Requirements.joinUnder bs needs, type bs⟩) (Typing.Asks names) :=
  after fun bs => pure (Typing.asks_joinUnder h bs _)

theorem asks_needs {ts : List (Typing VarId)} (h : ∀ t ∈ ts, t.Asks names) :
    ∀ env ∈ ts.map Typing.needs, ∀ k ∈ Assoc.keys env, k ∈ names :=
  List.forall_mem_map.mpr h

theorem blockTyping {b : Block} (hb : b.Asks names) : Gives (Infer.blockTyping steps b) (Typing.Asks names) := by
  refine combine (List.forall_mem_append.mpr ⟨asks_needs hb.typings, List.forall_mem_singleton.mpr ?_⟩) _
  cases hr : b.returned with
  | none => exact Typing.asks_closed _
  | some t => exact hb.returned t hr

theorem memberTyping {node : Node} {object : Typing VarId} {label : Ident} (h : object.Asks names) :
    Gives (Infer.memberTyping steps node object label) (Typing.Asks names) := by
  unfold Infer.memberTyping
  split
  · split
    · exact throw _
    · split
      · exact pure h
      · exact throw _
      · exact after fun field => after fun rest => combine (List.forall_mem_singleton.mpr h) _
  · exact throw _

theorem binaryTyping {node leftNode rightNode : Node} {op : BinaryOp} {a b : Typing VarId} (ha : a.Asks names)
    (hb : b.Asks names) : Gives (Infer.binaryTyping steps node op leftNode rightNode a b) (Typing.Asks names) := by
  have hneeds := asks_needs (List.forall_mem_cons.mpr ⟨ha, List.forall_mem_singleton.mpr hb⟩)
  unfold Infer.binaryTyping
  split
  · exact combine hneeds _
  · exact after fun operand => combine hneeds _

theorem arrayTyping {node : Node} {elems : List (Typing VarId)} (h : ∀ t ∈ elems, t.Asks names) :
    Gives (Infer.arrayTyping steps node elems) (Typing.Asks names) :=
  after fun _ => combine (asks_needs h) _

theorem objectTyping {node : Node} {props : List (String × Typing VarId)} (h : ∀ p ∈ props, p.2.Asks names) :
    Gives (Infer.objectTyping steps node props) (Typing.Asks names) :=
  combine (List.forall_mem_map.mpr h) _

theorem conditionalTyping {node : Node} {t a b : Typing VarId} (ht : t.Asks names) (ha : a.Asks names)
    (hb : b.Asks names) : Gives (Infer.conditionalTyping steps node t a b) (Typing.Asks names) :=
  combine (asks_needs (List.forall_mem_cons.mpr
    ⟨ht, List.forall_mem_cons.mpr ⟨ha, List.forall_mem_singleton.mpr hb⟩⟩)) _

theorem callTyping {node calleeNode : Node} {callee : Typing VarId} {args : List (Typing VarId)}
    (hcallee : callee.Asks names) (hargs : ∀ t ∈ args, t.Asks names) :
    Gives (Infer.callTyping steps node calleeNode callee args) (Typing.Asks names) :=
  after fun _ => combine (List.forall_mem_append.mpr ⟨asks_needs hargs, List.forall_mem_singleton.mpr hcallee⟩) _

theorem templateTyping {node : Node} {parts : List (Typing VarId)} (h : ∀ t ∈ parts, t.Asks names) :
    Gives (Infer.templateTyping steps node parts) (Typing.Asks names) :=
  combine (asks_needs h) _

/-- Where a function ends nothing more is asked of its parameters. -/
theorem asks_dropParams {needs : Requirements VarId} (hd : Assoc.Distinct needs) {params : List (String × Ty VarId)}
    (h : ∀ k ∈ Assoc.keys needs, k ∈ Assoc.keys params ∨ k ∈ names) (t : Ty VarId) :
    Typing.Asks names ⟨Infer.dropParams needs params, t⟩ := by
  intro k hk
  obtain ⟨u, hu⟩ := Assoc.mem_keys.mp hk
  obtain ⟨hu, hnot⟩ := ((Infer.dropParams_spec hd params).2 _).mp hu
  exact (h k (Assoc.mem_keys_of_mem hu)).resolve_left hnot

theorem absTyping {node : Node} {params : List (String × Ty VarId)} {body : Typing VarId}
    (h : ∀ k ∈ Assoc.keys body.needs, k ∈ Assoc.keys params ∨ k ∈ names) :
    Gives (Infer.absTyping steps node params body) (Typing.Asks names) := by
  refine after fun bs => pure ?_
  rw [Infer.takeParams_fst]
  refine asks_dropParams (Requirements.joinUnder_distinct bs _) (fun k hk => h k ?_) _
  exact Typing.asks_joinUnder (List.forall_mem_singleton.mpr fun _ => id) bs body.type k hk

theorem defTyping {name : String} {node : Node} {params : List (String × Ty VarId)} {body : Typing VarId}
    (h : ∀ k ∈ Assoc.keys body.needs, k ∈ Assoc.keys params ∨ k = name ∨ k ∈ names) :
    Gives (Infer.defTyping steps name node params body) (Typing.Asks names) := by
  unfold Infer.defTyping
  split
  · -- the name of the function is one of its parameters
    rename_i hany
    have hname : name ∈ Assoc.keys params := by
      obtain ⟨p, hp, he⟩ := List.any_eq_true.mp hany
      exact List.mem_map.mpr ⟨p, hp, eq_of_beq he⟩
    refine after fun bs => pure (asks_dropParams (Requirements.joinUnder_distinct bs _) (fun k hk => ?_) _)
    have hk := Typing.asks_joinUnder (List.forall_mem_singleton.mpr fun _ => id) bs body.type k hk
    rcases h k hk with hk | rfl | hk
    · exact .inl hk
    · exact .inl hname
    · exact .inr hk
  · refine after fun bs => pure ?_
    have hd := Requirements.joinUnder_distinct bs
      [[(name, .arrow (params.map Prod.snd) body.type (some node))], body.needs]
    refine asks_dropParams (hd.erase name) (fun k hk => ?_) _
    obtain ⟨u, hu⟩ := Assoc.mem_keys.mp hk
    obtain ⟨hu, hne⟩ := (Assoc.mem_erase hd).mp hu
    have hk : k ∈ name :: Assoc.keys body.needs := Typing.asks_joinUnder (List.forall_mem_cons.mpr
      ⟨List.forall_mem_singleton.mpr List.mem_cons_self, List.forall_mem_singleton.mpr fun _ => List.mem_cons_of_mem _⟩)
      bs body.type k (Assoc.mem_keys_of_mem hu)
    rcases h k ((List.mem_cons.mp hk).resolve_left hne) with hk | hk | hk
    · exact .inl hk
    · exact (hne hk).elim
    · exact .inr hk

/-- A stated type asks nothing. -/
theorem assumption (quasi : Template) : Gives (Infer.assumption quasi) fun p => p.2.Asks names := by
  obtain ⟨texts, es, pos⟩ := quasi
  obtain ⟨_, _, _, t, -, -, -, -, h⟩ | ⟨message, h⟩ := Infer.assumption_cases texts es
  · rw [h]
    exact bind (instantiate nofun) fun _ ht => pure ht
  · rw [h es pos .rfl]
    exact throw _

theorem declare {b : Block} {id : Ident} {typing : Infer (Typing VarId)} (hb : b.Asks names)
    (ht : Gives typing (Typing.Asks names)) : Gives (Infer.declare b id typing) (Block.Asks names) := by
  unfold Infer.declare
  split
  · refine bind ht fun t ht => bind (assign hb.env ht) fun env henv => pure ?_
    exact ⟨henv, List.forall_mem_append.mpr ⟨hb.typings, List.forall_mem_singleton.mpr ht⟩, hb.returned⟩
  · exact pure hb

end Gives

/-! Every construct. -/

section Syntax

variable (steps : Nat)

def Expr.Asks (e : Expr) : Prop :=
  ∀ {names : List String} {env : Env VarId}, env.All (Typing.Asks names) →
    Gives (Infer.expr steps env e) (Typing.Asks names)

def Body.Asks (body : Body) : Prop :=
  ∀ {names : List String} {env : Env VarId}, env.All (Typing.Asks names) →
    Gives (Infer.functionBody steps env body) (Typing.Asks names)

def Stmt.Asks (s : Stmt) : Prop :=
  ∀ {names : List String} {kind : BlockKind} {b : Block}, b.Asks names →
    Gives (Infer.stmt steps kind b s) (Block.Asks names)

variable {steps} {names : List String} {env : Env VarId}

theorem Gives.exprs {es : List Expr} (hes : ∀ e ∈ es, e.Asks steps) (henv : env.All (Typing.Asks names)) :
    Gives (Infer.exprs steps env es) fun ts => ∀ t ∈ ts, t.Asks names := by
  induction es with
  | nil =>
      rw [Infer.exprs]
      exact pure (List.forall_mem_nil _)
  | cons e es ih =>
      obtain ⟨he, hes⟩ := List.forall_mem_cons.mp hes
      rw [Infer.exprs]
      exact bind (he henv) fun t ht => bind (ih hes) fun ts hts => pure (List.forall_mem_cons.mpr ⟨ht, hts⟩)

theorem Gives.properties {ps : List Property} (hps : ∀ p ∈ ps, p.value.Asks steps)
    (henv : env.All (Typing.Asks names)) (seen : Assoc Ident) :
    Gives (Infer.properties steps env seen ps) fun ts => ∀ p ∈ ts, p.2.Asks names := by
  induction ps generalizing seen with
  | nil =>
      rw [Infer.properties]
      exact pure (List.forall_mem_nil _)
  | cons p ps ih =>
      obtain ⟨key, value, pos⟩ := p
      obtain ⟨hp, hps⟩ := List.forall_mem_cons.mp hps
      rw [Infer.properties]
      refine after fun id => bind (hp henv) fun t ht => bind (ih hps _) fun ts hts => ?_
      exact pure (List.forall_mem_cons.mpr ⟨ht, hts⟩)

theorem Gives.stmts {ss : List Stmt} (hss : ∀ s ∈ ss, s.Asks steps) {kind : BlockKind} {b : Block} (hb : b.Asks names) :
    Gives (Infer.stmts steps kind b ss) (Block.Asks names) := by
  induction ss generalizing b with
  | nil =>
      rw [Infer.stmts_nil]
      exact pure hb
  | cons s ss ih =>
      obtain ⟨hs, hss⟩ := List.forall_mem_cons.mp hss
      rw [Infer.stmts_cons]
      refine bind (hs hb) fun b₁ hb₁ => ?_
      split
      · exact pure hb₁
      · exact ih hss hb₁

/-- More names are bound in the scope of a function. -/
theorem Gives.bindParams_child {ps : List Pattern} (henv : env.All (Typing.Asks names)) :
    Gives (Infer.bindParams env.child ps) fun p =>
      p.1.All (Typing.Asks (Pattern.allLabels ps ++ names)) ∧ Assoc.keys p.2 = Pattern.allLabels ps :=
  bindParams (henv.imp fun _ ht => ht.imp (List.subset_append_right _ _)).child fun _ => List.mem_append_left _

theorem Gives.bindDef_child {id : Ident} {ps : List Pattern} (henv : env.All (Typing.Asks names)) :
    Gives (Infer.bindDef env id ps) fun p =>
      p.1.All (Typing.Asks (Pattern.allLabels ps ++ id.label :: names)) ∧ Assoc.keys p.2 = Pattern.allLabels ps := by
  refine bindDef (henv.imp fun _ ht => ht.imp ?_) ?_ fun _ => List.mem_append_left _
  · exact fun k hk => List.mem_append_right _ (List.mem_cons_of_mem _ hk)
  · exact List.mem_append_right _ List.mem_cons_self

theorem Gives.definition {id : Ident} {node : Node} {ps : List Pattern} {body : Body} (hbody : body.Asks steps)
    (henv : env.All (Typing.Asks names)) : Gives (Infer.definition steps env id node ps body) (Typing.Asks names) := by
  refine bind (bindDef_child henv) ?_
  rintro ⟨scope, params⟩ ⟨hscope, hparams⟩
  refine bind (hbody hscope) fun t ht => defTyping fun k hk => ?_
  rw [hparams]
  simpa using ht k hk

theorem Stmt.asks_expr {node : Node} {e : Expr} (he : e.Asks steps) : (Stmt.expr node e).Asks steps := by
  intro names kind b hb
  obtain ⟨n, n', tag, quasi, rfl, htag⟩ | ⟨n, tag, quasi, rfl, htag⟩ | hplain := e.tagged_cases
  · rw [Infer.stmt_assume steps kind b node n n' htag]
    refine .bind (P := fun p => p.2.Asks names) (.assumption _) ?_
    rintro ⟨id, t⟩ ht
    exact .pure ⟨hb.env.insert ht, hb.typings, hb.returned⟩
  · rw [Infer.stmt_tagged steps kind b node n htag]
    exact .unsupported _ _
  · rw [Infer.stmt_expr steps kind b node hplain]
    refine .bind (he hb.env) fun t ht => .pure ⟨hb.env, ?_, hb.returned⟩
    exact List.forall_mem_append.mpr ⟨hb.typings, List.forall_mem_singleton.mpr ht⟩

theorem asks_cases (steps : Nat) : SyntaxCases (Expr.Asks steps) (Body.Asks steps) (Stmt.Asks steps) where
  literal node value names env henv := by
    rw [Infer.expr]
    exact .pure (Typing.asks_closed _)
  ident node id names env henv := by
    rw [Infer.expr]
    exact .bind (.lookup henv) fun t ht => .instantiate ht
  array node es hes names env henv := by
    rw [Infer.expr]
    exact .bind (.exprs hes henv) fun ts hts => .arrayTyping hts
  object node ps hps names env henv := by
    rw [Infer.expr]
    exact .bind (.properties hps henv []) fun ts hts => .objectTyping hts
  member node e label he names env henv := by
    rw [Infer.expr]
    exact .bind (he henv) fun t ht => .memberTyping ht
  binary node op a b ha hb names env henv := by
    rw [Infer.expr]
    exact .bind (ha henv) fun t ht => .bind (hb henv) fun u hu => .binaryTyping ht hu
  conditional node t a b ht ha hb names env henv := by
    rw [Infer.expr]
    exact .bind (ht henv) fun t ht => .bind (ha henv) fun a ha => .bind (hb henv) fun b hb =>
      .conditionalTyping ht ha hb
  arrow node ps body hbody names env henv := by
    rw [Infer.expr]
    refine .bind (.bindParams_child henv) ?_
    rintro ⟨scope, params⟩ ⟨hscope, hparams⟩
    refine .bind (hbody hscope) fun t ht => .absTyping fun k hk => ?_
    rw [hparams]
    exact List.mem_append.mp (ht k hk)
  call node f as hf has names env henv := by
    rw [Infer.expr]
    exact .bind (hf henv) fun t ht => .bind (.exprs has henv) fun ts hts => .callTyping ht hts
  template node texts es pos hes names env henv := by
    rw [Infer.expr]
    exact .bind (.exprs hes henv) fun ts hts => .templateTyping hts
  refused e he names env henv := fun _ _ _ h => (Returns.not_refused he h).elim
  exprBody e he names env henv := by
    rw [Infer.functionBody]
    exact he henv
  blockBody ss pos hss names env henv := by
    rw [Infer.functionBody_block]
    exact .bind (.stmts hss (Block.asks_scope henv)) fun b hb => .blockTyping hb
  letFunction node id fnode ps body pos hbody names kind b hb := by
    rw [Infer.stmt_letFunction]
    exact .declare hb (.definition hbody hb.env)
  letValue node id e pos hna he names kind b hb := by
    rw [Infer.stmt_letValue _ _ _ _ _ hna]
    exact .declare hb (he hb.env)
  expr node e he := Stmt.asks_expr he
  ret node e he names kind b hb r b' r' h := by
    obtain ⟨-, t, ht, rfl⟩ := Returns.stmt_ret_iff.mp h
    refine ⟨hb.env, hb.typings, ?_⟩
    rintro u ⟨⟩
    exact he hb.env r t r' ht
  retNothing node names kind b hb r b' r' h := by
    obtain ⟨-, rfl, -⟩ := Returns.stmt_retNothing_iff.mp h
    refine ⟨hb.env, hb.typings, ?_⟩
    rintro u ⟨⟩
    exact Typing.asks_closed _
  block node ss hss names kind b hb r b' r' h := by
    obtain ⟨inner, hinner, rfl⟩ := Returns.stmt_block_iff.mp h
    have hinner := Gives.stmts hss hb.child r inner r' hinner
    exact ⟨hb.env, hinner.typings, hinner.returned⟩
  refusedStmt s _ _ hs names kind b hb := fun _ _ _ h => (Returns.not_refusedStmt hs h).elim

end Syntax

/-! Calls. -/

/-- A call is given typings that ask something of certain names only. -/
def Call.Asks (names : List String) : Call → Prop
  | .expr env _ | .body env _ | .definition env _ _ _ _ => env.All (Typing.Asks names)
  | .stmt _ b _ => b.Asks names

/-- A call hands this on to those that it makes. -/
theorem Visit.Makes.asks {steps : Nat} {v v' : Visit} (h : v.Makes steps v') (hv : v.call.Asks v.names) :
    v'.call.Asks v'.names := by
  have hcases := asks_cases steps
  cases h with
  | part | exprBody => exact hv
  | arrow hbind => exact (Gives.bindParams_child hv _ _ _ hbind).1
  | definition hbind => exact (Gives.bindDef_child hv _ _ _ hbind).1
  | blockBody hbefore => exact Gives.stmts (hcases.allStmts _) (Block.asks_scope hv) _ _ _ hbefore
  | letFunction | letValue | expr | ret => exact Block.Asks.env hv
  | block hbefore => exact Gives.stmts (hcases.allStmts _) (Block.Asks.child hv) _ _ _ hbefore

/-- At the top level nothing is asked. -/
theorem Infers.asks {steps : Nat} {b b' : Block} {ss : List Stmt} {r r' : Run} (h : Infers steps b ss r b' r')
    (hb : b.Asks []) : b'.Asks [] := by
  induction ss generalizing b r with
  | nil =>
      obtain ⟨rfl, -⟩ := nil_iff.mp h
      exact hb
  | cons s ss ih =>
      obtain ⟨b₁, r₁, hs, hss⟩ := cons_iff.mp h
      exact ih hss ((asks_cases steps).allStmt s hb _ _ _ hs)

theorem Script.Visits.asks {steps : Nat} {script : Script} {v : Visit} (h : script.Visits steps v) :
    v.call.Asks v.names :=
  h.invariant (I := fun v => v.call.Asks v.names) (fun _ _ _ _ hbefore => hbefore.asks (Block.asks_scope Env.all_empty))
    fun _ _ => Visit.Makes.asks

theorem Call.asks_typing {steps : Nat} {names : List String} {c : Call} (hc : c.Asks names) {r r' : Run}
    {t : Typing VarId} (h : Returns (c.answer steps) r (.typing t) r') : t.Asks names := by
  have hcases := asks_cases steps
  cases c with
  | expr env e =>
      obtain ⟨u, r₁, hu, h⟩ := Returns.bind_iff.mp h
      cases h
      exact (hcases.allExpr e).1 hc _ _ _ hu
  | body scope body =>
      obtain ⟨u, r₁, hu, h⟩ := Returns.bind_iff.mp h
      cases h
      exact hcases.allBody body hc _ _ _ hu
  | definition env id node ps body =>
      obtain ⟨u, r₁, hu, h⟩ := Returns.bind_iff.mp h
      cases h
      exact Gives.definition (hcases.allBody body) hc _ _ _ hu
  | stmt kind b s =>
      obtain ⟨b', r₁, hb', h⟩ := Returns.bind_iff.mp h
      cases h

/-- All top-level names are closed: their typings ask nothing of any name. In the whole run, the typing that a call
returns asks something only of parameters, and of names bound to functions, whose functions are around the call. -/
theorem Script.bindings_closed (steps : Nat) (script : Script) :
    (∀ env error, script.infer steps = .ok ⟨env, error⟩ → ∀ e ∈ env.bindings, e.2.needs = []) ∧
      ∀ v, script.Visits steps v → ∀ t r', Returns (v.call.answer steps) v.run (.typing t) r' →
        ∀ k ∈ Assoc.keys t.needs, k ∈ v.names := by
  constructor
  · intro env error h e he
    obtain ⟨p, b, r, hinfers, rfl⟩ := infers_of_infer h
    obtain ⟨⟨name, bound⟩, hbound, rfl⟩ := List.mem_map.mp he
    have hasks := (hinfers.asks (Block.asks_scope Env.all_empty)).env
    have hkeys : Assoc.keys bound.typing.needs = [] :=
      List.eq_nil_iff_forall_not_mem.mpr fun k hk => List.not_mem_nil (hasks _ List.mem_cons_self _ hbound k hk)
    exact List.map_eq_nil_iff.mp hkeys
  · intro v hv t r' ht
    exact Call.asks_typing hv.asks ht

theorem Script.bindings_closed_pairing :
    (∀ e ∈ pairingEnv.bindings, e.2.needs = []) ∧
      Returns (Infer.expr 20 pairingScope (pairing.use "x")) (Run.initial.skip 2) (.param "x" (.var 2 none))
        (Run.initial.skip 3) ∧ "x" ∈ ["x", "pair"] := by
  have huse : Returns (Infer.expr 20 pairingScope (pairing.use "x")) (Run.initial.skip 2) (.param "x" (.var 2 none))
      (Run.initial.skip 3) := Returns.expr_ident_iff.mpr ⟨⟨⟨"x", none⟩, .param "x" (.var 1 none), false⟩, rfl, rfl⟩
  refine ⟨(bindings_closed 20 pairing).1 _ _ infer_pairing, huse, ?_⟩
  exact (bindings_closed 20 pairing).2 _ pairing_visits_use _ _ (Call.returns_expr_iff.mpr huse) "x" List.mem_cons_self

end ScriptTypes
