import ScriptTypes.Proofs.Typing.Simulation

/-! Nodes and positions are for messages only. Inference of two scripts that differ in nothing else takes the same
steps, hands out the same variables and comes to the same result, up to the nodes and positions in it. -/

namespace ScriptTypes

/-! Scopes. -/

def Scope.map {α β : Type} (f : α → β) (s : Scope α) : Scope β :=
  ⟨Assoc.mapValues f s.current, s.outer.map (Assoc.mapValues f)⟩

namespace Scope

variable {α β : Type} (f : α → β) (s : Scope α)

theorem layers_map : (s.map f).layers = s.layers.map (Assoc.mapValues f) := rfl

theorem get?_map (name : String) : (s.map f).get? name = (s.get? name).map f := by
  unfold get?
  rw [layers_map, List.findSome?_map]
  induction s.layers with
  | nil => rfl
  | cons layer layers ih =>
      rw [List.findSome?_cons, List.findSome?_cons, Function.comp, Assoc.get?_mapValues]
      cases Assoc.get? layer name with
      | none => exact ih
      | some a => rfl

theorem here?_map (name : String) : (s.map f).here? name = (s.here? name).map f := Assoc.get?_mapValues f s.current name

theorem insert_map (name : String) (a : α) : (s.insert name a).map f = (s.map f).insert name (f a) :=
  congrArg (Scope.mk · _) (Assoc.mapValues_insert f s.current name a)

theorem names_map : (s.map f).names = s.names := by
  have hkeys : (s.map f).layers.flatMap Assoc.keys = s.layers.flatMap Assoc.keys := by
    rw [layers_map, List.flatMap_map]
    simp only [Assoc.keys_mapValues]
  rw [names, names, hkeys]

end Scope

section Relocate

variable (g : Node → Node) (h : Position → Position)

/-- The same typing, with types that come from other nodes. -/
def Typing.relocate (t : Typing VarId) : Typing VarId :=
  t.relabel id (fun _ v => v) g

def Bound.relocate (b : Bound VarId) : Bound VarId :=
  ⟨b.id.relocate h, b.typing.relocate g, b.assumed⟩

def Env.relocate (env : Env VarId) : Env VarId :=
  env.map (Bound.relocate g h)

def Block.relocate (b : Block) : Block :=
  ⟨b.env.relocate g h, b.typings.map (Typing.relocate g), b.returned.map (Typing.relocate g)⟩

/-- A scope and the parameters bound in it. -/
def relocateParams (p : Env VarId × List (String × Ty VarId)) : Env VarId × List (String × Ty VarId) :=
  (p.1.relocate g h, Assoc.rename id (Ty.relabel (fun _ v => v) g) p.2)

variable {g h}

theorem Env.shouldInfer_relocate (env : Env VarId) (name : String) :
    (env.relocate g h).shouldInfer name = env.shouldInfer name := by
  unfold shouldInfer relocate
  rw [Scope.here?_map]
  cases env.here? name <;> rfl

end Relocate

/-- An annotation comes from no node. -/
theorem Annotation.reading_relabel (g : Node → Node) : Reading fun t => t.relabel (fun _ v => v) g = t where
  leaf l := by simp
  var name := by simp
  arrow {d r} hd hr := by rw [Ty.relabel_arrow, hr, List.map_congr_left hd, List.map_id', Option.map_none]
  con name {as} has := by rw [Ty.relabel_con, List.map_congr_left has, List.map_id', Option.map_none]
  record {fields tail} _ hfs htail := by
    have hfields : Assoc.mapValues (Ty.relabel (fun _ v => v) g) fields = fields := by
      refine (List.map_congr_left fun e he => ?_).trans (List.map_id fields)
      exact Prod.ext rfl (hfs e he)
    rw [Ty.relabel_ofFields, hfields]
    cases tail with
    | none => rfl
    | some v =>
        obtain ⟨v, src⟩ := v
        cases htail _ rfl
        rfl

/-! Runs. -/

/-- Runs that hand out the same variables, and come to the same up to a change of result. -/
def Echoes {α β : Type} (c : Sides) (x : Infer α) (x' : Infer β) (F : α → β) : Prop :=
  ∀ r r' : Run, c.Renames (fun _ v => v) r.supply r'.supply →
    Simulates c (fun _ v => v) r r' x x' fun _ _ a b => b = F a

namespace Echoes

variable {α β γ δ : Type} {c : Sides}

theorem pure {F : α → β} {a : α} {b : β} (h : b = F a) : Echoes c (pure a) (pure b) F :=
  fun _ _ hr => .pure hr h

theorem fail {F : α → β} {e e' : ScopeError VarId} (h : e.Alike c (fun _ v => v) e') :
    Echoes c (Infer.fail e) (Infer.fail e') F :=
  fun _ _ hr => .fail hr h

theorem unsupported {F : α → β} (text : String) (node : Node) :
    Echoes c (Infer.unsupported text node.pos) (Infer.unsupported text (c.node node).pos) F := by
  rw [c.pos_node]
  exact fun _ _ hr => .unsupported hr text node.pos

theorem lift {F : α → β} {x : Except (ScopeError VarId) α} {x' : Except (ScopeError VarId) β}
    (h : (∃ a, x = .ok a ∧ x' = .ok (F a)) ∨ ∃ e e', x = .error e ∧ x' = .error e' ∧ e.Alike c (fun _ v => v) e') :
    Echoes c (Infer.lift x) (Infer.lift x') F := by
  refine fun _ _ hr => .lift hr (h.imp_left ?_)
  rintro ⟨a, hx, hx'⟩
  exact ⟨a, F a, hx, hx', rfl⟩

theorem freshVar (src : Option Node) :
    Echoes c (Infer.freshVar src) (Infer.freshVar (src.map c.node)) (Ty.relabel (fun _ v => v) c.node) :=
  fun _ _ hr => (Simulates.freshVar hr src).imp fun _ _ h => h.2

theorem instantiate (t : Typing VarId) :
    Echoes c (Infer.instantiate t) (Infer.instantiate (t.relocate c.node)) (Typing.relocate c.node) :=
  fun _ _ hr => (Simulates.instantiate hr (fun _ _ _ => id) id t).imp fun _ _ h => h.2.1

theorem lookup (env : Env VarId) (id : Ident) :
    Echoes c (Infer.lift (env.lookup id)) (Infer.lift ((env.relocate c.node c.pos).lookup (id.relocate c.pos)))
      (Typing.relocate c.node) := by
  have hget : (env.relocate c.node c.pos).get? (id.relocate c.pos).label = _ := Scope.get?_map _ env id.label
  refine lift ?_
  unfold Env.lookup
  rw [hget]
  cases env.get? id.label with
  | some b => exact .inl ⟨_, rfl, rfl⟩
  | none => exact .inr ⟨_, _, rfl, rfl, rfl, fun _ => ⟨rfl, Scope.names_map _ env⟩⟩

theorem assign (env : Env VarId) (id : Ident) (t : Typing VarId) :
    Echoes c (Infer.lift (env.assign id t))
      (Infer.lift ((env.relocate c.node c.pos).assign (id.relocate c.pos) (t.relocate c.node)))
      (Env.relocate c.node c.pos) := by
  have hhere : (env.relocate c.node c.pos).here? (id.relocate c.pos).label = _ := Scope.here?_map _ env id.label
  refine lift ?_
  unfold Env.assign
  rw [hhere]
  cases env.here? id.label with
  | some b => exact .inr ⟨_, _, rfl, rfl, rfl, rfl, fun _ => rfl⟩
  | none => exact .inl ⟨_, rfl, congrArg Except.ok (Scope.insert_map _ env id.label ⟨id, t, false⟩).symm⟩

variable (hkept : c.kept)

include hkept

theorem bind {F : α → β} {G : γ → δ} {x : Infer α} {x' : Infer β} {k : α → Infer γ} {k' : β → Infer δ}
    (hx : Echoes c x x' F) (hk : ∀ a, Echoes c (k a) (k' (F a)) G) : Echoes c (x >>= k) (x' >>= k') G := by
  intro r r' hr
  refine .bind (hx r r' hr) ?_
  rintro g r₁ r₁' a b - hr₁ rfl
  cases hr₁.kept hkept
  exact hk a r₁ r₁' hr₁

/-- What the rules say of runs side by side, where names and variables are kept. -/
theorem of_mirrored {K : String → Prop} {x x' : Infer (Typing VarId)}
    (h : ∀ {r r' : Run}, c.Renames (fun _ v => v) r.supply r'.supply → c.Names id →
      Simulates c (fun _ v => v) r r' x x' fun g _ => Typing.Mirrored c id K g) :
    Echoes c x x' (Typing.relocate c.node) := by
  intro r r' hr
  refine (h hr ⟨Function.injective_id, fun _ => rfl⟩).imp ?_
  intro g r₁ t t' r₁' _ hr₁ ht
  rw [hr₁.kept hkept] at ht
  exact ht.eq

end Echoes

/-- A typing and its counterpart. -/
theorem Typing.mirrored_relocate (c : Sides) (t : Typing VarId) :
    t.Mirrored c id (fun _ => True) (fun _ v => v) (t.relocate c.node) := ⟨rfl, fun _ _ => trivial⟩

theorem Typing.allMirrored_relocate (c : Sides) (ts : List (Typing VarId)) :
    Typing.AllMirrored c id (fun _ => True) (fun _ v => v) ts (ts.map (Typing.relocate c.node)) :=
  ⟨rfl, fun _ _ _ _ => trivial⟩

/-! Every construct. -/

section Syntax

variable (c : Sides)

/-- Inference takes the same steps on an expression and on its counterpart. -/
def Expr.Echoed (e : Expr) : Prop :=
  ∀ env : Env VarId, Echoes c (Infer.expr c.steps env e)
    (Infer.expr c.steps' (env.relocate c.node c.pos) (e.relocate c.node c.pos)) (Typing.relocate c.node)

def Body.Echoed (body : Body) : Prop :=
  ∀ env : Env VarId, Echoes c (Infer.functionBody c.steps env body)
    (Infer.functionBody c.steps' (env.relocate c.node c.pos) (body.relocate c.node c.pos)) (Typing.relocate c.node)

def Stmt.Echoed (s : Stmt) : Prop :=
  ∀ (kind : BlockKind) (b : Block), Echoes c (Infer.stmt c.steps kind b s)
    (Infer.stmt c.steps' kind (b.relocate c.node c.pos) (s.relocate c.node c.pos)) (Block.relocate c.node c.pos)

variable {c} (hkept : c.kept)

namespace Echoes

theorem propertyLabel (seen : Assoc Ident) (key : PropertyKey) :
    Echoes c (Infer.propertyLabel seen key)
      (Infer.propertyLabel (Assoc.mapValues (Ident.relocate c.pos) seen) (key.relocate c.node c.pos))
      (Ident.relocate c.pos) := by
  have hcheck : ∀ id : Ident, Echoes c (Infer.propertyLabel.check seen id)
      (Infer.propertyLabel.check (Assoc.mapValues (Ident.relocate c.pos) seen) (id.relocate c.pos))
      (Ident.relocate c.pos) := by
    intro id
    have hseen : Assoc.get? (Assoc.mapValues (Ident.relocate c.pos) seen) (id.relocate c.pos).label = _ :=
      Assoc.get?_mapValues _ seen id.label
    unfold Infer.propertyLabel.check
    rw [hseen]
    cases Assoc.get? seen id.label with
    | some previous => exact fail ⟨rfl, rfl⟩
    | none => exact pure rfl
  cases key with
  | computed key =>
      refine fail ?_
      rw [Expr.node_relocate]
      exact c.pos_node key.node
  | ident id => exact hcheck id
  | literal value pos => exact hcheck ⟨value.label, pos⟩

include hkept

theorem bindParams (env : Env VarId) (ps : List Pattern) :
    Echoes c (Infer.bindParams env ps) (Infer.bindParams (env.relocate c.node c.pos) (ps.map (Pattern.relocate c.pos)))
      (relocateParams c.node c.pos) := by
  induction ps generalizing env with
  | nil => exact pure rfl
  | cons p ps ih =>
      cases p with
      | ident id =>
          refine bind hkept (freshVar none) fun t => bind hkept (assign env id ⟨[(id.label, t)], t⟩) fun scope => ?_
          exact bind hkept (ih scope) fun p => pure rfl
      | object ids pos => exact fun _ _ hr => .unsupported hr _ pos
      | array ids pos => exact fun _ _ hr => .unsupported hr _ pos

theorem bindDef (env : Env VarId) (id : Ident) (ps : List Pattern) :
    Echoes c (Infer.bindDef env id ps)
      (Infer.bindDef (env.relocate c.node c.pos) (id.relocate c.pos) (ps.map (Pattern.relocate c.pos)))
      (relocateParams c.node c.pos) := by
  refine bind hkept (freshVar none) fun t => bind hkept (assign env.child id ⟨[(id.label, t)], t⟩) fun scope => ?_
  exact bindParams hkept scope.child ps

theorem exprs {es : List Expr} (hes : ∀ e ∈ es, e.Echoed c) (env : Env VarId) :
    Echoes c (Infer.exprs c.steps env es)
      (Infer.exprs c.steps' (env.relocate c.node c.pos) (relocateExprs c.node c.pos es))
      (List.map (Typing.relocate c.node)) := by
  induction es with
  | nil =>
      rw [relocateExprs, Infer.exprs, Infer.exprs]
      exact pure rfl
  | cons e es ih =>
      obtain ⟨he, hes⟩ := List.forall_mem_cons.mp hes
      rw [relocateExprs, Infer.exprs, Infer.exprs]
      exact bind hkept (he env) fun t => bind hkept (ih hes) fun ts => pure rfl

theorem properties {ps : List Property} (hps : ∀ p ∈ ps, p.value.Echoed c) (env : Env VarId) (seen : Assoc Ident) :
    Echoes c (Infer.properties c.steps env seen ps)
      (Infer.properties c.steps' (env.relocate c.node c.pos) (Assoc.mapValues (Ident.relocate c.pos) seen)
        (relocateProperties c.node c.pos ps))
      (Assoc.mapValues (Typing.relocate c.node)) := by
  induction ps generalizing seen with
  | nil =>
      rw [relocateProperties, Infer.properties, Infer.properties]
      exact pure rfl
  | cons p ps ih =>
      obtain ⟨key, value, pos⟩ := p
      obtain ⟨hp, hps⟩ := List.forall_mem_cons.mp hps
      rw [relocateProperties, Infer.properties, Infer.properties]
      refine bind hkept (propertyLabel seen key) fun id => bind hkept (hp env) fun t => ?_
      have ih := ih hps (Assoc.insert seen id.label id)
      rw [Assoc.mapValues_insert] at ih
      exact bind hkept ih fun ts => pure rfl

theorem stmts {ss : List Stmt} (hss : ∀ s ∈ ss, s.Echoed c) (kind : BlockKind) (b : Block) :
    Echoes c (Infer.stmts c.steps kind b ss)
      (Infer.stmts c.steps' kind (b.relocate c.node c.pos) (relocateStmts c.node c.pos ss))
      (Block.relocate c.node c.pos) := by
  induction ss generalizing b with
  | nil =>
      rw [relocateStmts, Infer.stmts_nil, Infer.stmts_nil]
      exact pure rfl
  | cons s ss ih =>
      obtain ⟨hs, hss⟩ := List.forall_mem_cons.mp hss
      rw [relocateStmts, Infer.stmts_cons, Infer.stmts_cons]
      refine bind hkept (hs kind b) fun b₁ => ?_
      have hreturned : (b₁.relocate c.node c.pos).returned.isSome = b₁.returned.isSome := Option.isSome_map
      rw [hreturned]
      split
      · exact pure rfl
      · exact ih hss b₁

theorem definition {body : Body} (hbody : body.Echoed c) (env : Env VarId) (id : Ident) (node : Node)
    (ps : List Pattern) :
    Echoes c (Infer.definition c.steps env id node ps body)
      (Infer.definition c.steps' (env.relocate c.node c.pos) (id.relocate c.pos) (c.node node)
        (ps.map (Pattern.relocate c.pos)) (body.relocate c.node c.pos))
      (Typing.relocate c.node) := by
  refine bind hkept (bindDef hkept env id ps) ?_
  rintro ⟨scope, params⟩
  refine bind hkept (hbody scope) fun t => ?_
  exact of_mirrored hkept fun hr hid => .defTyping hr hid rfl (t.mirrored_relocate c)

theorem declare (b : Block) (id : Ident) {x x' : Infer (Typing VarId)} (h : Echoes c x x' (Typing.relocate c.node)) :
    Echoes c (Infer.declare b id x) (Infer.declare (b.relocate c.node c.pos) (id.relocate c.pos) x')
      (Block.relocate c.node c.pos) := by
  have hinfer : (b.relocate c.node c.pos).env.shouldInfer (id.relocate c.pos).label = b.env.shouldInfer id.label :=
    Env.shouldInfer_relocate b.env id.label
  unfold Infer.declare
  rw [hinfer]
  split
  · refine bind hkept h fun t => bind hkept (assign b.env id t) fun env => pure ?_
    simp [Block.relocate]
  · exact pure rfl

theorem assumption (quasi : Template) :
    Echoes c (Infer.assumption quasi) (Infer.assumption (quasi.relocate c.node c.pos))
      fun p => (p.1.relocate c.pos, p.2.relocate c.node) := by
  obtain ⟨texts, es, pos⟩ := quasi
  rw [Template.relocate]
  obtain ⟨_, _, _, t, -, rfl, -, ht, h⟩ | ⟨message, h⟩ := Infer.assumption_cases texts es
  · rw [relocateExprs, h, h]
    have ht : (Typing.closed t).relabel id (fun _ v => v) c.node = Typing.closed t :=
      congrArg Typing.closed (( Annotation.reading_relabel c.node).of_compile ht)
    refine bind hkept (F := Typing.relocate c.node) ?_ fun t => pure rfl
    intro r r' hr
    have hcopy := Simulates.instantiate hr (fun _ _ _ => id) id (Typing.closed t)
    rw [ht] at hcopy
    exact hcopy.imp fun _ _ h => h.2.1
  · rw [h es pos .rfl, h _ _ (by cases es <;> simp [relocateExprs])]
    exact fail ⟨rfl, rfl⟩

end Echoes

omit hkept in
/-- A statement that is refused is refused for the same reason, at the counterpart of the place. -/
theorem Stmt.Refused.relocate (c : Sides) {s : Stmt} {description : String} {pos : Position}
    (h : s.Refused description pos) : (s.relocate c.node c.pos).Refused description (c.pos pos) := by
  cases h with
  | otherDecl node hkind ds =>
      rw [Stmt.relocate, ← c.pos_node]
      exact .otherDecl _ hkind _
  | uninitialized node id pos =>
      rw [Stmt.relocate, relocateDeclarators, relocateDeclarators, Declarator.relocate, relocateOption]
      exact .uninitialized _ _ _
  | @destructuring node p hp e pos =>
      rw [Stmt.relocate, relocateDeclarators, relocateDeclarators, Declarator.relocate]
      cases p with
      | ident id => exact (hp id rfl).elim
      | object ids pos' | array ids pos' => exact .destructuring (c.node node) (by simp [Pattern.relocate]) _ _
  | @declarators node ds hds =>
      rw [Stmt.relocate, ← c.pos_node]
      exact .declarators _ (by rwa [relocateDeclarators_eq_map, List.length_map])
  | cond node test yes no =>
      rw [Stmt.relocate, ← c.pos_node]
      exact .cond _ _ _ _
  | loop node test body =>
      rw [Stmt.relocate, ← c.pos_node]
      exact .loop _ _ _

omit hkept in
theorem Expr.untagged_relocate (e : Expr) (h : ∀ n tag quasi, e ≠ .tagged n tag quasi) :
    ∀ n tag quasi, e.relocate c.node c.pos ≠ .tagged n tag quasi := by
  cases e with
  | tagged n tag quasi => exact (h n tag quasi rfl).elim
  | _ => simp [Expr.relocate]

omit hkept in
theorem Expr.unmarked_relocate (tag : Expr) (h : ∀ n id, tag = .ident n id → id.label ≠ assumeTag) :
    ∀ n id, tag.relocate c.node c.pos = .ident n id → id.label ≠ assumeTag := by
  cases tag with
  | ident n id =>
      rw [Expr.relocate]
      rintro _ _ ⟨⟩
      exact h n id rfl
  | _ => simp [Expr.relocate]

include hkept

theorem Stmt.echoed_expr {node : Node} {e : Expr} (he : e.Echoed c) : (Stmt.expr node e).Echoed c := by
  intro kind b
  rw [Stmt.relocate]
  obtain ⟨n, n', tag, quasi, rfl, htag⟩ | ⟨n, tag, quasi, rfl, htag⟩ | hplain := e.tagged_cases
  · have htag' : (tag.relocate c.pos).label = assumeTag := htag
    rw [Expr.relocate, Expr.relocate, Infer.stmt_assume _ kind b node n n' htag,
      Infer.stmt_assume _ kind _ _ _ _ htag']
    refine .bind hkept (.assumption hkept quasi) fun p => .pure ?_
    exact congrArg (Block.mk · _ _) (Scope.insert_map _ b.env p.1.label ⟨p.1, p.2, true⟩).symm
  · rw [Expr.relocate, Infer.stmt_tagged _ kind b node n htag, Infer.stmt_tagged _ kind _ _ _ (tag.unmarked_relocate htag)]
    exact .unsupported _ n
  · rw [Infer.stmt_expr _ kind b node hplain, Infer.stmt_expr _ kind _ _ (e.untagged_relocate hplain)]
    exact .bind hkept (he b.env) fun t => .pure (by simp [Block.relocate])

theorem echoed_cases : SyntaxCases (Expr.Echoed c) (Body.Echoed c) (Stmt.Echoed c) where
  literal node value env := by
    rw [Expr.relocate, Infer.expr, Infer.expr]
    exact .pure (congrArg Typing.closed (Ty.relabel_leaf _ c.node value.leaf (some node)).symm)
  ident node id env := by
    rw [Expr.relocate, Infer.expr, Infer.expr]
    exact .bind hkept (.lookup env id) fun t => .instantiate t
  array node es hes env := by
    rw [Expr.relocate, Infer.expr, Infer.expr]
    refine .bind hkept (.exprs hkept hes env) fun ts => ?_
    exact .of_mirrored hkept fun hr hid => .arrayTyping hr hid (Typing.allMirrored_relocate c ts)
  object node ps hps env := by
    rw [Expr.relocate, Infer.expr, Infer.expr]
    refine .bind hkept (.properties hkept hps env []) fun ts => ?_
    exact .of_mirrored hkept fun hr hid => .objectTyping (K := fun _ => True) hr hid rfl fun _ _ _ _ => trivial
  member node e label he env := by
    rw [Expr.relocate, Infer.expr, Infer.expr]
    refine .bind hkept (he env) fun t => ?_
    exact .of_mirrored hkept fun hr hid => .memberTyping hr hid (t.mirrored_relocate c)
  binary node op a b ha hb env := by
    rw [Expr.relocate, Infer.expr, Infer.expr, Expr.node_relocate, Expr.node_relocate]
    refine .bind hkept (ha env) fun t => .bind hkept (hb env) fun u => ?_
    exact .of_mirrored hkept fun hr hid => .binaryTyping hr hid (t.mirrored_relocate c) (u.mirrored_relocate c)
  conditional node t a b ht ha hb env := by
    rw [Expr.relocate, Infer.expr, Infer.expr, Expr.node_relocate]
    refine .bind hkept (ht env) fun t => .bind hkept (ha env) fun a => .bind hkept (hb env) fun b => ?_
    exact .of_mirrored hkept fun hr hid => .conditionalTyping hr hid (t.mirrored_relocate c) (a.mirrored_relocate c)
      (b.mirrored_relocate c)
  arrow node ps body hbody env := by
    rw [Expr.relocate, Infer.expr, Infer.expr]
    refine .bind hkept (.bindParams hkept env.child ps) ?_
    rintro ⟨scope, params⟩
    refine .bind hkept (hbody scope) fun t => ?_
    exact .of_mirrored hkept fun hr hid => .absTyping hr hid rfl (t.mirrored_relocate c)
  call node f as hf has env := by
    rw [Expr.relocate, Infer.expr, Infer.expr, Expr.node_relocate]
    refine .bind hkept (hf env) fun t => .bind hkept (.exprs hkept has env) fun ts => ?_
    exact .of_mirrored hkept fun hr hid =>
      .callTyping hr hid (t.mirrored_relocate c) (Typing.allMirrored_relocate c ts)
  template node texts es pos hes env := by
    rw [Expr.relocate, Template.relocate, Infer.expr, Infer.expr]
    refine .bind hkept (.exprs hkept hes env) fun ts => ?_
    exact .of_mirrored hkept fun hr hid => .templateTyping hr hid (Typing.allMirrored_relocate c ts)
  refused e he env := by
    cases he with
    | index node | unary node | tagged node | assign node =>
        rw [Expr.relocate, Infer.expr, Infer.expr]
        exact .unsupported _ node
  exprBody e he env := by
    rw [Body.relocate, Infer.functionBody, Infer.functionBody]
    exact he env
  blockBody ss pos hss env := by
    rw [Body.relocate, Infer.functionBody_block, Infer.functionBody_block]
    refine .bind hkept (.stmts hkept hss .function ⟨env, [], none⟩) fun b => ?_
    refine .of_mirrored hkept fun hr hid => .blockTyping hr hid (Typing.allMirrored_relocate c b.typings) ?_
    have hreturned := Typing.allMirrored_relocate c b.returned.toList
    rwa [← Option.toList_map] at hreturned
  letFunction node id fnode ps body pos hbody kind b := by
    simp only [Stmt.relocate, relocateDeclarators, Declarator.relocate, Pattern.relocate, relocateOption, Expr.relocate]
    rw [Infer.stmt_letFunction, Infer.stmt_letFunction]
    exact .declare hkept b id (.definition hkept hbody b.env id fnode ps)
  letValue node id e pos hna he kind b := by
    simp only [Stmt.relocate, relocateDeclarators, Declarator.relocate, Pattern.relocate, relocateOption]
    rw [Infer.stmt_letValue _ _ _ _ _ hna, Infer.stmt_letValue _ _ _ _ _ ((Expr.isArrow_relocate e).trans hna)]
    exact .declare hkept b id (he b.env)
  expr node e he := Stmt.echoed_expr hkept he
  ret node e he kind b := by
    rw [Stmt.relocate, relocateOption]
    cases kind with
    | top =>
        rw [Infer.stmt_ret_top, Infer.stmt_ret_top]
        exact .unsupported _ node
    | function =>
        rw [Infer.stmt_ret, Infer.stmt_ret]
        exact .bind hkept (he b.env) fun t => .pure rfl
  retNothing node kind b := by
    rw [Stmt.relocate, relocateOption]
    cases kind with
    | top =>
        rw [Infer.stmt_ret_top, Infer.stmt_ret_top]
        exact .unsupported _ node
    | function =>
        rw [Infer.stmt_retNothing, Infer.stmt_retNothing]
        refine .pure (congrArg (fun t => Block.mk _ _ (some (Typing.closed t))) ?_)
        exact (Ty.relabel_leaf _ c.node .undefined (some node)).symm
  block node ss hss kind b := by
    rw [Stmt.relocate, Infer.stmt_block, Infer.stmt_block]
    exact .bind hkept (.stmts hkept hss kind { b with env := b.env.child }) fun inner => .pure rfl
  refusedStmt s description pos hs kind b := by
    rw [Infer.stmt_refused _ kind b hs, Infer.stmt_refused _ kind _ (hs.relocate c)]
    exact fun _ _ hr => .unsupported hr _ pos

end Syntax

/-! Scripts. -/

/-- The statements of a script and their counterparts. -/
theorem Infer.script_echoes {c : Sides} (hkept : c.kept) (ss : List Stmt) {b b₁ b₁' : Block} {r r' r₁ r₁' : Run}
    (hr : c.Renames (fun _ v => v) r.supply r'.supply) {error error' : Option (Failure VarId)}
    (h : script c.steps b ss r = ((b₁, error), r₁))
    (h' : script c.steps' (b.relocate c.node c.pos) (relocateStmts c.node c.pos ss) r' = ((b₁', error'), r₁'))
    (hfin : c.first = true → error ≠ some .unfinished) (hfin' : c.first = false → error' ≠ some .unfinished) :
    b₁'.env = b₁.env.relocate c.node c.pos ∧ Option.Rel (Failure.Alike c fun _ v => v) error error' := by
  induction ss generalizing b r r' with
  | nil =>
      cases h
      rw [relocateStmts] at h'
      cases h'
      exact ⟨rfl, .none⟩
  | cons s ss ih =>
      rw [relocateStmts] at h'
      have hmirror := (echoed_cases hkept).allStmt s .top b r r' hr (fun hf => .of_script h (hfin hf))
        fun hf => .of_script h' (hfin' hf)
      rw [script_cons] at h h'
      generalize ho : (stmt c.steps .top b s).outcome r = o at hmirror h
      generalize ho' : (stmt _ .top (b.relocate c.node c.pos) (s.relocate c.node c.pos)).outcome r' = o' at hmirror h'
      cases hmirror with
      | ok hlater hr₁ hb =>
          cases hb
          cases hr₁.kept hkept
          exact ih hr₁ h h'
      | error r₁ r₁' hg hkept' he =>
          cases hkept' hkept
          cases h
          cases h'
          rw [env_left ho, env_left ho']
          exact ⟨rfl, .some he⟩

/-! What is left of results. -/

def Ty.erase (t : Ty VarId) : Ty VarId :=
  t.relabel (fun _ v => v) fun _ => .blank

def Typing.erase (t : Typing VarId) : Typing VarId :=
  t.relocate fun _ => .blank

/-- Which argument of a call is to blame is left out too. -/
def TypeError.erase : TypeError VarId → TypeError VarId
  | .mismatch l r => .mismatch l.erase r.erase
  | .callArgument _ _ t args _ cause => .callArgument .blank .blank t.erase (args.map Typing.erase) none cause.erase
  | .arrayLiteral _ elems cause => .arrayLiteral .blank (elems.map Typing.erase) cause.erase
  | .noSuchProperty _ t label => .noSuchProperty .blank t.erase label.erase
  | .notAnObject _ t label => .notAnObject .blank t.erase label.erase

def ScopeError.erase : ScopeError VarId → ScopeError VarId
  | .unbound id names => .unbound id.erase names
  | .alreadyDefined id _ => .alreadyDefined id.erase none
  | .unsupported text _ => .unsupported text none
  | .duplicateLabel label _ => .duplicateLabel label.erase none
  | .invalidKey _ => .invalidKey none
  | .invalidAssumption text _ => .invalidAssumption text none
  | .multipleRowVars _ t => .multipleRowVars none t.erase

/-- The result of a script without nodes and positions. -/
def eraseResult : Except Refusal Inferred → Except Refusal Inferred
  | .ok ⟨env, error⟩ => .ok ⟨env.relocate (fun _ => .blank) fun _ => none, error.map TypeError.erase⟩
  | .error (.scope e) => .error (.scope e.erase)
  | .error .unfinished => .error .unfinished

/-- Leave out which argument of a call is to blame. -/
def TypeError.unblame : TypeError VarId → TypeError VarId
  | .callArgument call callee t args _ cause => .callArgument call callee t args none cause.unblame
  | .arrayLiteral node elems cause => .arrayLiteral node elems cause.unblame
  | e => e

def unblameResult : Except Refusal Inferred → Except Refusal Inferred
  | .ok ⟨env, error⟩ => .ok ⟨env, error.map TypeError.unblame⟩
  | .error e => .error e

/-- A run over a script, next to the one over the script without its nodes and positions. -/
def Sides.blank (steps : Nat) (first : Bool) : Sides where
  steps := steps
  steps' := steps
  first := first
  lower := ⟨fun _ => Nat.le_refl steps, fun _ => Nat.le_refl steps⟩
  node _ := .blank
  pos _ := none
  pos_node _ := rfl
  pos_none := rfl
  kept := True

section Blank

variable {steps : Nat} {first : Bool}

theorem Typing.AllAlike.eq_erase {ts ts' : List (Typing VarId)}
    (h : AllAlike (.blank steps first) (fun _ v => v) ts ts') : ts' = ts.map Typing.erase := by
  obtain ⟨φ, hφ, rfl⟩ := h
  cases hφ.kept trivial
  rfl

theorem TypeError.Alike.unblame_eq {e e' : TypeError VarId} (h : e.Alike (.blank steps first) (fun _ v => v) e') :
    e'.unblame = e.erase := by
  induction e generalizing e' with
  | mismatch l r =>
      cases e' with
      | mismatch =>
          obtain ⟨rfl, rfl⟩ := h
          rfl
      | _ => exact h.elim
  | callArgument call callee t args bad cause ih =>
      cases e' with
      | callArgument =>
          obtain ⟨⟨rfl, rfl, -⟩, hts, hcause⟩ := h
          obtain ⟨rfl, rfl⟩ := List.cons.inj hts.eq_erase
          exact congrArg (callArgument _ _ _ _ none) (ih hcause)
      | _ => exact h.elim
  | arrayLiteral node elems cause ih =>
      cases e' with
      | arrayLiteral =>
          obtain ⟨rfl, hts, hcause⟩ := h
          cases hts.eq_erase
          exact congrArg (arrayLiteral _ _) (ih hcause)
      | _ => exact h.elim
  | noSuchProperty node t label =>
      cases e' with
      | noSuchProperty =>
          obtain ⟨rfl, rfl, rfl⟩ := h
          rfl
      | _ => exact h.elim
  | notAnObject node t label =>
      cases e' with
      | notAnObject =>
          obtain ⟨rfl, rfl, rfl⟩ := h
          rfl
      | _ => exact h.elim

theorem ScopeError.Alike.eq_erase {e e' : ScopeError VarId} (h : e.Alike (.blank steps first) (fun _ v => v) e') :
    e' = e.erase := by
  cases e with
  | unbound id names =>
      cases e' with
      | unbound id' =>
          obtain ⟨label, pos⟩ := id'
          obtain ⟨rfl, hkept⟩ := h
          obtain ⟨rfl, rfl⟩ := hkept trivial
          rfl
      | _ => exact h.elim
  | alreadyDefined id previous =>
      cases e' with
      | alreadyDefined id' =>
          obtain ⟨label, pos⟩ := id'
          obtain ⟨rfl, rfl, hkept⟩ := h
          cases hkept trivial
          rfl
      | _ => exact h.elim
  | unsupported text pos =>
      cases e' with
      | unsupported =>
          obtain ⟨rfl, rfl⟩ := h
          rfl
      | _ => exact h.elim
  | duplicateLabel label previous =>
      cases e' with
      | duplicateLabel =>
          obtain ⟨rfl, rfl⟩ := h
          rfl
      | _ => exact h.elim
  | invalidKey pos =>
      cases e' with
      | invalidKey =>
          cases h
          rfl
      | _ => exact h.elim
  | invalidAssumption text pos =>
      cases e' with
      | invalidAssumption =>
          obtain ⟨rfl, rfl⟩ := h
          rfl
      | _ => exact h.elim
  | multipleRowVars pos t =>
      cases e' with
      | multipleRowVars =>
          obtain ⟨rfl, rfl⟩ := h
          rfl
      | _ => exact h.elim

end Blank

/-- The runs over a script and over the script without its nodes and positions, where one of them ends. -/
theorem Script.run_erase {steps : Nat} {s : Script} {b b' : Block} {error error' : Option (Failure VarId)} {r r' : Run}
    (h : s.run steps = ((b, error), r)) (h' : s.erase.run steps = ((b', error'), r'))
    (hfin : error ≠ some .unfinished ∨ error' ≠ some .unfinished) :
    ∃ first, b'.env = b.env.relocate (fun _ => .blank) (fun _ => none) ∧
      Option.Rel (Failure.Alike (.blank steps first) fun _ v => v) error error' := by
  have hr : (Sides.blank steps true).Renames (fun _ v => v) Run.initial.supply Run.initial.supply :=
    ⟨⟨fun _ => Function.injective_id, fun _ => rfl, fun _ => rfl⟩, fun _ => rfl⟩
  rw [run_eq] at h h'
  rcases hfin with hfin | hfin
  · exact ⟨true, Infer.script_echoes (c := .blank steps true) trivial s.body hr h h' (fun _ => hfin) nofun⟩
  · exact ⟨false, Infer.script_echoes (c := .blank steps false) trivial s.body ⟨hr.toRenames, fun _ => rfl⟩ h h' nofun
      fun _ => hfin⟩

/-- A script without its nodes and positions has the same result, apart from nodes and positions. -/
theorem Script.infer_erase (steps : Nat) (s : Script) :
    unblameResult (s.erase.infer steps) = eraseResult (s.infer steps) := by
  obtain ⟨b, error, r, h, hinfer⟩ := s.infer_cases steps
  obtain ⟨b', error', r', h', hinfer'⟩ := s.erase.infer_cases steps
  rw [hinfer, hinfer']
  by_cases hfin : error ≠ some .unfinished ∨ error' ≠ some .unfinished
  · obtain ⟨first, henv, herror⟩ := run_erase h h' hfin
    cases herror with
    | none => simp only [unblameResult, eraseResult, henv, Option.map_none]
    | @some e e' he =>
        cases e with
        | type e =>
            cases e' with
            | type e' =>
                simp only [unblameResult, eraseResult, Option.map_some, TypeError.Alike.unblame_eq he, henv]
            | _ => exact he.elim
        | scope e =>
            cases e' with
            | scope e' =>
                cases ScopeError.Alike.eq_erase he
                rfl
            | _ => exact he.elim
        | unfinished => exact he.elim
  · obtain ⟨he, he'⟩ := not_or.mp hfin
    cases not_not.mp he
    cases not_not.mp he'
    rfl

/-- Nodes and positions are for messages only. Scripts that are the same without them have the same result without them:
the same names with the same typings over the same variables, and the same error if there is one. Only which argument of
a call is to blame may differ. -/
theorem Script.infer_eq_of_erase_eq (steps : Nat) {s s' : Script} (h : s.erase = s'.erase) :
    eraseResult (s.infer steps) = eraseResult (s'.infer steps) := by
  rw [← infer_erase, ← infer_erase, h]

/-- `let add = (a, b) => a + b; add(1, "one");` with the given nodes. -/
def Script.blaming (node : Nat → Node) : Script where
  body := [
    .decl (node 0) .letDecl [.mk (.ident ⟨"add", none⟩) (some (.arrow (node 1) [.ident ⟨"a", none⟩, .ident ⟨"b", none⟩]
      (.expr (.binary (node 2) .add (.ident (node 3) ⟨"a", none⟩) (.ident (node 4) ⟨"b", none⟩))))) none],
    .expr (node 5) (.call (node 6) (.ident (node 7) ⟨"add", none⟩)
      [.literal (node 8) (.num false (.finite 1 0)), .literal (node 9) (.str "one")])]
  pos := none

/-- The argument that a result blames. -/
def blamed? : Except Refusal Inferred → Option Nat
  | .ok ⟨_, some (.callArgument _ _ _ _ bad _)⟩ => bad
  | _ => none

/-- With all nodes the same, the first argument is to blame and not the second one. Nothing else differs. -/
theorem Script.infer_eq_of_erase_eq_blaming :
    (blaming (⟨·, none⟩)).erase = (blaming fun _ => .blank).erase ∧
      blamed? ((blaming (⟨·, none⟩)).infer 20) = some 1 ∧ blamed? ((blaming fun _ => .blank).infer 20) = some 0 ∧
      eraseResult ((blaming (⟨·, none⟩)).infer 20) = eraseResult ((blaming fun _ => .blank).infer 20) :=
  ⟨rfl, by decide +kernel, by decide +kernel, infer_eq_of_erase_eq 20 rfl⟩

end ScriptTypes
