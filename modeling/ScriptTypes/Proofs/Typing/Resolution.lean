import ScriptTypes.Proofs.Typing.Lexical
import ScriptTypes.Proofs.Typing.Stopping

/-! Names are resolved lexically. The layers of an environment hold the names that are in sight by the syntax, so the
first identifier that is not in sight is the one that inference stops at, with the names that are in sight there. -/

namespace ScriptTypes

/-! Environments and what is in sight. -/

theorem Scope.names_eq {α : Type} (s : Scope α) : s.names = (s.layers.map Assoc.keys).flatten.eraseDups := by
  rw [names, List.flatMap_def]
  generalize (s.layers.map Assoc.keys).flatten = xs
  induction xs using List.reverseRecOn with
  | nil => rfl
  | append_singleton xs x ih =>
      rw [List.foldl_append, ih, List.eraseDups_append]
      by_cases hx : x ∈ xs <;> simp [hx, List.removeAll, List.eraseDups_cons]

/-- The layers of an environment bind what is in sight, and the innermost one assumes what is stated. -/
structure Env.Sees (env : Env VarId) (σ : Sight) : Prop where
  layers : env.layers.map Assoc.keys = σ.layers
  stated : ∀ x, env.shouldInfer x = false ↔ x ∈ σ.stated

namespace Env.Sees

variable {env : Env VarId} {σ : Sight}

theorem empty : Env.Sees .empty .empty where
  layers := rfl
  stated := by simp [shouldInfer, Scope.here?, Scope.empty, Assoc.get?, Sight.empty]

theorem child (h : env.Sees σ) : Env.Sees env.child (σ.inner []) where
  layers := congrArg ([] :: ·) h.layers
  stated := by simp [shouldInfer, Scope.here?, Scope.child, Assoc.get?, Sight.inner, Sight.bindAll]

theorem here (h : env.Sees σ) : Assoc.keys env.current = σ.here := (List.cons.inj h.layers).1

theorem names (h : env.Sees σ) : env.names = σ.names := by
  rw [Scope.names_eq, h.layers, Sight.names]

theorem get?_eq_none (h : env.Sees σ) {x : String} : env.get? x = none ↔ ¬ σ.Binds x := by
  simp only [Scope.get?, List.findSome?_eq_none_iff, Assoc.get?_eq_none_iff, Sight.Binds, ← h.layers, List.mem_map]
  grind

theorem layers_insert (h : env.Sees σ) (x : String) (b : Bound VarId) :
    (env.insert x b).layers.map Assoc.keys = (σ.bind x).layers := by
  have houter := (List.cons.inj h.layers).2
  simp only [Scope.layers, Scope.insert, List.map_cons, Assoc.keys_insert, h.here, houter, Sight.bind, Sight.layers]

theorem assign (h : env.Sees σ) {id : Ident} {t : Typing VarId} {env' : Env VarId} (ha : env.assign id t = .ok env') :
    env'.Sees (σ.bind id.label) := by
  obtain ⟨hnone, rfl⟩ := assign_eq_ok.mp ha
  refine ⟨h.layers_insert _ _, fun x => ?_⟩
  change _ ↔ x ∈ σ.stated
  rw [← h.stated, shouldInfer, shouldInfer, here?_insert]
  by_cases hx : x = id.label
  · simp [hx, hnone]
  · simp [hx]

theorem assume (h : env.Sees σ) (id : Ident) (t : Typing VarId) :
    (env.assume id t).Sees { σ.bind id.label with stated := id.label :: σ.stated } := by
  refine ⟨h.layers_insert _ _, fun x => ?_⟩
  rw [List.mem_cons, ← h.stated, shouldInfer, shouldInfer, Env.assume, here?_insert]
  by_cases hx : x = id.label <;> simp [hx]

/-- A name with a stated type is bound already. -/
theorem bind_of_stated (h : env.Sees σ) {x : String} (hx : x ∈ σ.stated) : env.Sees (σ.bind x) := by
  have hhere : x ∈ σ.here := by
    have hshould := (h.stated x).mpr hx
    rw [shouldInfer] at hshould
    split at hshould
    · rename_i b hb
      rw [← h.here]
      exact Assoc.mem_keys_of_mem (Assoc.mem_of_get? hb)
    · cases hshould
  rwa [Sight.bind, if_pos hhere]

end Env.Sees

/-! Looking names up. -/

def Use.Bound (u : Use) : Prop :=
  u.sight.Binds u.id.label

/-- The first of some uses that is not bound has the identifier, with the names in sight. -/
def Misses (us : List Use) (id : Ident) (names : List String) : Prop :=
  ∃ before u after, us = before ++ u :: after ∧ (∀ v ∈ before, v.Bound) ∧ ¬ u.Bound ∧ u.id = id ∧ u.sight.names = names

theorem Misses.append_right {us : List Use} {id : Ident} {names : List String} (h : Misses us id names)
    (us' : List Use) : Misses (us ++ us') id names := by
  obtain ⟨before, u, after, rfl, h⟩ := h
  exact ⟨before, u, after ++ us', by simp, h⟩

theorem Misses.append_left {us us' : List Use} {id : Ident} {names : List String} (hus : ∀ u ∈ us, u.Bound)
    (h : Misses us' id names) : Misses (us ++ us') id names := by
  obtain ⟨before, u, after, rfl, hbefore, h⟩ := h
  exact ⟨us ++ before, u, after, by simp, List.forall_mem_append.mpr ⟨hus, hbefore⟩, h⟩

/-- A computation that looks up some names one after the other. It returns something only if all are bound, and what it
returns has a property. It stops with an unbound identifier only at the first one that is not bound. -/
structure Resolves {α : Type} (x : Infer α) (us : List Use) (Q : α → Prop) : Prop where
  returns : ∀ {r a r'}, x.outcome r = (.ok a, r') → (∀ u ∈ us, u.Bound) ∧ Q a
  unbound : ∀ {r id names r'}, x.outcome r = (.error (.scope (.unbound id names)), r') → Misses us id names

/-- A failure that is not about an unbound identifier. -/
def Failure.Other (e : Failure VarId) : Prop :=
  ∀ id names, e ≠ .scope (.unbound id names)

namespace Resolves

variable {α β : Type} {x : Infer α} {f : α → Infer β} {us us' : List Use} {Q : α → Prop} {R : β → Prop}

theorem pure {a : α} (h : Q a) : Resolves (pure a) [] Q where
  returns hrun := by
    cases hrun
    exact ⟨nofun, h⟩
  unbound hrun := by cases hrun

/-- Nothing is said of what is never reached. -/
theorem throw {e : Failure VarId} (he : e.Other) : Resolves (throw e) us Q where
  returns hrun := by cases hrun
  unbound hrun := by
    cases hrun
    exact (he _ _ rfl).elim

theorem unsupported (description : String) (pos : Position) : Resolves (Infer.unsupported description pos) us Q :=
  throw nofun

theorem bind (hx : Resolves x us Q) (hf : ∀ a, Q a → Resolves (f a) us' R) : Resolves (x >>= f) (us ++ us') R where
  returns {r b r'} hrun := by
    rw [Infer.outcome_bind] at hrun
    split at hrun
    · rename_i a r₁ hxrun
      obtain ⟨hus, ha⟩ := hx.returns hxrun
      obtain ⟨hus', hb⟩ := (hf a ha).returns hrun
      exact ⟨List.forall_mem_append.mpr ⟨hus, hus'⟩, hb⟩
    · cases hrun
  unbound {r id names r'} hrun := by
    rw [Infer.outcome_bind] at hrun
    split at hrun
    · rename_i a r₁ hxrun
      obtain ⟨hus, ha⟩ := hx.returns hxrun
      exact ((hf a ha).unbound hrun).append_left hus
    · rename_i e r₁ hxrun
      cases hrun
      exact (hx.unbound hxrun).append_right us'

/-- What comes last looks up nothing. -/
theorem last (hx : Resolves x us Q) (hf : ∀ a, Q a → Resolves (f a) [] R) : Resolves (x >>= f) us R := by
  have h := hx.bind hf
  rwa [List.append_nil] at h

end Resolves

/-- A computation that looks up no names. -/
def Infer.Quiet {α : Type} (x : Infer α) : Prop :=
  Resolves x [] fun _ => True

theorem UnifyError.plain_other (e : UnifyError VarId) : e.plain.Other := by
  cases e <;> nofun

theorem UnifyError.inArray_other (node : Node) (elems : List (Typing VarId)) (e : UnifyError VarId) :
    (e.inArray node elems).Other := by
  cases e <;> nofun

theorem UnifyError.inCall_other (call callee : Node) (t : Typing VarId) (args : List (Typing VarId))
    (e : UnifyError VarId) : (Id.run (e.inCall call callee t args)).Other := by
  cases e <;> nofun

namespace Infer.Quiet

variable {α β : Type}

theorem of_outcome {x : Infer α} (h : ∀ r e r', x.outcome r = (.error e, r') → e.Other) : Quiet x where
  returns _ := ⟨nofun, trivial⟩
  unbound hrun := (h _ _ _ hrun _ _ rfl).elim

theorem pure (a : α) : Quiet (pure a) := Resolves.pure trivial

theorem throw {e : Failure VarId} (he : e.Other) : Quiet (throw e : Infer α) := Resolves.throw he

theorem bind {x : Infer α} {f : α → Infer β} (hx : Quiet x) (hf : ∀ a, Quiet (f a)) : Quiet (x >>= f) :=
  Resolves.bind hx fun a _ => hf a

theorem freshVar (src : Option Node) : Quiet (freshVar src) := of_outcome fun _ _ _ hrun => by cases hrun

theorem freshRowVar (src : Option Node) : Quiet (freshRowVar src) := of_outcome fun _ _ _ hrun => by cases hrun

theorem instantiate {V : Type} [DecidableEq V] (t : Typing V) : Quiet (instantiate t) :=
  of_outcome fun _ _ _ hrun => by cases hrun

theorem settle (steps : Nat) (needs : List (Requirements VarId)) (extra : List (Constraint VarId))
    {explain : UnifyError VarId → Failure VarId} (h : ∀ e, (explain e).Other) :
    Quiet (settle steps needs extra explain) := by
  refine of_outcome fun r e r' hrun => ?_
  rw [outcome_settle] at hrun
  obtain ⟨hresult, -⟩ := Prod.mk.inj hrun
  split at hresult
  · cases hresult
  · cases hresult
    exact h _
  · cases hresult
    nofun

section

variable (steps : Nat)

theorem blockTyping (b : Block) : Quiet (blockTyping steps b) :=
  bind (settle _ _ _ UnifyError.plain_other) fun _ => pure _

theorem defTyping (name : String) (node : Node) (params : List (String × Ty VarId)) (body : Typing VarId) :
    Quiet (defTyping steps name node params body) := by
  unfold Infer.defTyping
  simp only
  split <;> exact bind (settle _ _ _ UnifyError.plain_other) fun _ => pure _

theorem absTyping (node : Node) (params : List (String × Ty VarId)) (body : Typing VarId) :
    Quiet (absTyping steps node params body) :=
  bind (settle _ _ _ UnifyError.plain_other) fun _ => pure _

theorem memberTyping (node : Node) (object : Typing VarId) (label : Ident) :
    Quiet (memberTyping steps node object label) := by
  unfold Infer.memberTyping
  split
  · split
    · exact throw (UnifyError.plain_other _)
    · split
      · exact pure _
      · exact throw nofun
      · refine bind (freshVar _) fun field => bind (freshRowVar _) fun rest => ?_
        exact bind (settle _ _ _ UnifyError.plain_other) fun _ => pure _
  · exact throw nofun

theorem binaryTyping (node : Node) (op : BinaryOp) (leftNode rightNode : Node) (left right : Typing VarId) :
    Quiet (binaryTyping steps node op leftNode rightNode left right) := by
  unfold Infer.binaryTyping
  simp only
  split
  · exact bind (settle _ _ _ UnifyError.plain_other) fun _ => pure _
  · exact bind (freshVar _) fun _ => bind (settle _ _ _ UnifyError.plain_other) fun _ => pure _

theorem arrayTyping (node : Node) (elems : List (Typing VarId)) : Quiet (arrayTyping steps node elems) :=
  bind (freshVar _) fun _ => bind (settle _ _ _ (UnifyError.inArray_other node elems)) fun _ => pure _

theorem objectTyping (node : Node) (props : List (String × Typing VarId)) : Quiet (objectTyping steps node props) :=
  bind (settle _ _ _ UnifyError.plain_other) fun _ => pure _

theorem conditionalTyping (testNode : Node) (test consequent alternate : Typing VarId) :
    Quiet (conditionalTyping steps testNode test consequent alternate) :=
  bind (settle _ _ _ UnifyError.plain_other) fun _ => pure _

theorem callTyping (node calleeNode : Node) (callee : Typing VarId) (args : List (Typing VarId)) :
    Quiet (callTyping steps node calleeNode callee args) := by
  refine bind (freshVar _) fun _ => bind (settle _ _ _ ?_) fun _ => pure _
  exact UnifyError.inCall_other node calleeNode callee args

theorem templateTyping (node : Node) (parts : List (Typing VarId)) : Quiet (templateTyping steps node parts) :=
  bind (settle _ _ _ UnifyError.plain_other) fun _ => pure _

end

end Infer.Quiet

/-! Scopes. -/

namespace Resolves

variable {env : Env VarId} {σ : Sight}

theorem lookup (h : env.Sees σ) (id : Ident) : Resolves (Infer.lift (env.lookup id)) [⟨id, σ⟩] fun _ => True := by
  rw [Env.lookup]
  cases hget : env.get? id.label with
  | some b =>
      have hbound : σ.Binds id.label := by
        by_contra hn
        rw [h.get?_eq_none.mpr hn] at hget
        cases hget
      exact ⟨fun _ => ⟨List.forall_mem_singleton.mpr hbound, trivial⟩, fun hrun => by cases hrun⟩
  | none =>
      constructor
      · intro r a r' hrun
        cases hrun
      · intro r id' names r' hrun
        cases hrun
        exact ⟨[], ⟨id, σ⟩, [], rfl, List.forall_mem_nil _, h.get?_eq_none.mp hget, rfl, h.names.symm⟩

theorem assign (h : env.Sees σ) (id : Ident) (t : Typing VarId) :
    Resolves (Infer.lift (env.assign id t)) [] fun env' => env'.Sees (σ.bind id.label) := by
  cases hassign : env.assign id t with
  | ok env' => exact pure (h.assign hassign)
  | error e =>
      refine throw ?_
      rw [Env.assign] at hassign
      split at hassign
      · cases hassign
        intro id' names h
        cases h
      · cases hassign

theorem bindParams (h : env.Sees σ) (ps : List Pattern) :
    Resolves (Infer.bindParams env ps) [] fun p => p.1.Sees (σ.bindAll (Pattern.allLabels ps)) := by
  induction ps generalizing env σ with
  | nil => exact pure h
  | cons p ps ih =>
      cases p with
      | object ids pos => exact unsupported _ _
      | array ids pos => exact unsupported _ _
      | ident id =>
          rw [Infer.bindParams]
          refine bind (Infer.Quiet.freshVar none) fun t _ => bind (assign h id _) fun scope hscope => ?_
          refine bind (ih hscope) ?_
          rintro ⟨scope', params⟩ hscope'
          exact pure hscope'

theorem bindDef (h : env.Sees σ) (id : Ident) (ps : List Pattern) :
    Resolves (Infer.bindDef env id ps) []
      fun p => p.1.Sees ((σ.inner [id.label]).inner (Pattern.allLabels ps)) :=
  bind (Infer.Quiet.freshVar none) fun _ _ => bind (assign h.child id _) fun _ hscope => bindParams hscope.child ps

theorem assumption (quasi : Template) :
    Resolves (Infer.assumption quasi) (quasi.uses σ) fun p => quasi.assumed = [p.1.label] := by
  obtain ⟨texts, es, pos⟩ := quasi
  obtain ⟨text, _, _, t, rfl, rfl, hsplit, -, h⟩ | ⟨message, h⟩ := Infer.assumption_cases texts es
  · rw [h]
    refine bind (Infer.Quiet.instantiate _) fun t _ => pure ?_
    rw [Template.assumed, hsplit]
    rfl
  · rw [h es pos .rfl]
    exact throw nofun

theorem propertyLabel (seen : Assoc Ident) (key : PropertyKey) :
    Resolves (Infer.propertyLabel seen key) (key.uses σ) fun _ => True := by
  have hcheck (id : Ident) : Resolves (Infer.propertyLabel.check seen id) [] fun _ => True := by
    unfold Infer.propertyLabel.check
    split
    · exact throw nofun
    · exact pure trivial
  cases key with
  | computed key => exact throw nofun
  | ident id => exact hcheck id
  | literal value pos => exact hcheck _

end Resolves

/-! Every construct. -/

/-- A block after statements: what is in sight, and whether it has returned, which never happens at the top level. -/
structure Block.Follows (kind : BlockKind) (σ : Sight) (returns : Bool) (b : Block) : Prop where
  sees : b.env.Sees σ
  returned : b.returned.isSome = returns
  top : kind = .top → b.returned = none

section Syntax

variable (steps : Nat)

def Expr.Resolved (e : Expr) : Prop :=
  ∀ {env : Env VarId} {σ : Sight}, env.Sees σ → Resolves (Infer.expr steps env e) (e.uses σ) fun _ => True

def Body.Resolved (body : Body) : Prop :=
  ∀ {env : Env VarId} {σ : Sight}, env.Sees σ → Resolves (Infer.functionBody steps env body) (body.uses σ) fun _ => True

def Stmt.Resolved (s : Stmt) : Prop :=
  ∀ {kind : BlockKind} {b : Block} {σ : Sight}, b.env.Sees σ → b.returned = none →
    Resolves (Infer.stmt steps kind b s) (s.uses σ) (Block.Follows kind (σ.after s) s.returns)

variable {steps} {env : Env VarId} {σ : Sight}

theorem Resolves.exprs {es : List Expr} (hes : ∀ e ∈ es, e.Resolved steps) (h : env.Sees σ) :
    Resolves (Infer.exprs steps env es) (usesInExprs σ es) fun _ => True := by
  induction es with
  | nil =>
      rw [Infer.exprs]
      exact pure trivial
  | cons e es ih =>
      obtain ⟨he, hes⟩ := List.forall_mem_cons.mp hes
      rw [Infer.exprs]
      exact bind (he h) fun t _ => last (ih hes) fun ts _ => pure trivial

theorem Resolves.properties {ps : List Property} (hps : ∀ p ∈ ps, p.value.Resolved steps) (h : env.Sees σ)
    (seen : Assoc Ident) :
    Resolves (Infer.properties steps env seen ps) (usesInProperties σ ps) fun _ => True := by
  induction ps generalizing seen with
  | nil =>
      rw [Infer.properties]
      exact pure trivial
  | cons p ps ih =>
      obtain ⟨key, value, pos⟩ := p
      obtain ⟨hp, hps⟩ := List.forall_mem_cons.mp hps
      rw [Infer.properties, usesInProperties, Property.uses, List.append_assoc]
      refine bind (propertyLabel seen key) fun id _ => bind (hp h) fun t _ => ?_
      exact last (ih hps _) fun ts _ => pure trivial

theorem Resolves.stmts {ss : List Stmt} (hss : ∀ s ∈ ss, s.Resolved steps) {kind : BlockKind} {b : Block}
    (h : b.env.Sees σ) (hnone : b.returned = none) :
    Resolves (Infer.stmts steps kind b ss) (usesInStmts σ ss)
      fun b' => b'.returned.isSome = stmtsReturn ss ∧ (kind = .top → b'.returned = none) := by
  induction ss generalizing b σ with
  | nil =>
      rw [Infer.stmts_nil]
      exact pure ⟨by rw [hnone]; rfl, fun _ => hnone⟩
  | cons s ss ih =>
      obtain ⟨hs, hss⟩ := List.forall_mem_cons.mp hss
      rw [Infer.stmts_cons, usesInStmts, stmtsReturn]
      refine bind (hs h hnone) fun b₁ hb₁ => ?_
      rw [hb₁.returned]
      cases hreturns : s.returns with
      | true => exact pure ⟨hb₁.returned.trans hreturns, hb₁.top⟩
      | false =>
          have hgoes : b₁.returned = none := by
            rw [← Option.not_isSome_iff_eq_none, hb₁.returned, hreturns]
            exact Bool.false_ne_true
          exact ih hss hb₁.sees hgoes

theorem Resolves.declare {b : Block} {id : Ident} {typing : Infer (Typing VarId)} {us : List Use} {kind : BlockKind}
    (h : b.env.Sees σ) (hnone : b.returned = none) (htyping : Resolves typing us fun _ => True) :
    Resolves (Infer.declare b id typing) (if id.label ∈ σ.stated then [] else us)
      (Block.Follows kind (σ.bind id.label) false) := by
  have hreturned {b' : Block} (heq : b'.returned = b.returned) : b'.returned.isSome = false := by rw [heq, hnone]; rfl
  unfold Infer.declare
  by_cases hstated : id.label ∈ σ.stated
  · rw [if_pos hstated, (h.stated id.label).mpr hstated]
    exact pure ⟨h.bind_of_stated hstated, hreturned rfl, fun _ => hnone⟩
  · have hinfer : b.env.shouldInfer id.label = true := by
      rw [← Bool.not_eq_false, h.stated]
      exact hstated
    rw [if_neg hstated, hinfer]
    refine last htyping fun t _ => bind (assign h id t) fun env' henv' => ?_
    exact pure ⟨henv', hreturned rfl, fun _ => hnone⟩

theorem Stmt.resolved_expr {node : Node} {e : Expr} (he : e.Resolved steps) : (Stmt.expr node e).Resolved steps := by
  intro kind b σ h hnone
  have hreturned : b.returned.isSome = false := by rw [hnone]; rfl
  obtain ⟨n, n', tag, quasi, rfl, htag⟩ | ⟨n, tag, quasi, rfl, htag⟩ | hplain := e.tagged_cases
  · have hmarker : (Expr.ident n' tag).isMarker = true := decide_eq_true htag
    rw [Infer.stmt_assume steps kind b node n n' htag, Stmt.uses, if_pos hmarker]
    refine .last (.assumption quasi) ?_
    rintro ⟨id, t⟩ hid
    refine .pure ⟨?_, hreturned, fun _ => hnone⟩
    rw [Sight.after, Stmt.bound, Stmt.assumed, if_pos hmarker, hid]
    exact h.assume id t
  · rw [Infer.stmt_tagged steps kind b node n htag]
    exact .unsupported _ _
  · rw [Infer.stmt_expr steps kind b node hplain, Stmt.uses_expr hplain, Sight.after_expr hplain]
    exact .last (he h) fun t _ => .pure ⟨h, hreturned, fun _ => hnone⟩

theorem resolved_cases : SyntaxCases (Expr.Resolved steps) (Body.Resolved steps) (Stmt.Resolved steps) where
  literal node value env σ h := by
    rw [Infer.expr]
    exact .pure trivial
  ident node id env σ h := by
    rw [Infer.expr]
    exact .last (.lookup h id) fun t _ => Infer.Quiet.instantiate t
  array node es hes env σ h := by
    rw [Infer.expr]
    exact .last (.exprs hes h) fun ts _ => Infer.Quiet.arrayTyping ..
  object node ps hps env σ h := by
    rw [Infer.expr]
    exact .last (.properties hps h []) fun ts _ => Infer.Quiet.objectTyping ..
  member node e label he env σ h := by
    rw [Infer.expr]
    exact .last (he h) fun t _ => Infer.Quiet.memberTyping ..
  binary node op a b ha hb env σ h := by
    rw [Infer.expr]
    exact .bind (ha h) fun t _ => .last (hb h) fun u _ => Infer.Quiet.binaryTyping ..
  conditional node t a b ht ha hb env σ h := by
    rw [Infer.expr]
    exact .bind (ht h) fun t _ => .bind (ha h) fun a _ => .last (hb h) fun b _ => Infer.Quiet.conditionalTyping ..
  arrow node ps body hbody env σ h := by
    rw [Infer.expr]
    refine .bind (.bindParams h.child ps) ?_
    rintro ⟨scope, params⟩ hscope
    exact .last (hbody hscope) fun t _ => Infer.Quiet.absTyping ..
  call node f as hf has env σ h := by
    rw [Infer.expr]
    exact .bind (hf h) fun t _ => .last (.exprs has h) fun ts _ => Infer.Quiet.callTyping ..
  template node texts es pos hes env σ h := by
    rw [Infer.expr]
    exact .last (.exprs hes h) fun ts _ => Infer.Quiet.templateTyping ..
  refused e he env σ h := by
    cases he with
    | index | unary | tagged | assign =>
        rw [Infer.expr]
        exact .unsupported _ _
  exprBody e he env σ h := by
    rw [Infer.functionBody]
    exact he h
  blockBody ss pos hss env σ h := by
    rw [Infer.functionBody_block]
    exact .last (.stmts hss h rfl) fun b _ => Infer.Quiet.blockTyping ..
  letFunction node id fnode ps body pos hbody kind b σ h hnone := by
    have huses : (Stmt.decl node .letDecl [.mk (.ident id) (some (.arrow fnode ps body)) pos]).uses σ =
        if id.label ∈ σ.stated then [] else body.uses ((σ.inner [id.label]).inner (Pattern.allLabels ps)) := by
      simp [Stmt.uses, usesInDeclarators, Declarator.uses, Sight.states, Pattern.labels]
    rw [Infer.stmt_letFunction, huses]
    refine .declare h hnone (.bind (.bindDef h id ps) ?_)
    rintro ⟨scope, params⟩ hscope
    exact .last (hbody hscope) fun t _ => Infer.Quiet.defTyping ..
  letValue node id e pos hna he kind b σ h hnone := by
    have huses : (Stmt.decl node .letDecl [.mk (.ident id) (some e) pos]).uses σ =
        if id.label ∈ σ.stated then [] else e.uses σ := by
      cases e with
      | arrow => cases hna
      | _ => simp [Stmt.uses, usesInDeclarators, Declarator.uses, usesInOption, Sight.states]
    rw [Infer.stmt_letValue _ _ _ _ _ hna, huses]
    exact .declare h hnone (he h)
  expr node e he := Stmt.resolved_expr he
  ret node e he kind b σ h hnone := by
    cases kind with
    | top =>
        rw [Infer.stmt_ret_top]
        exact .unsupported _ _
    | function =>
        rw [Infer.stmt_ret]
        exact .last (he h) fun t _ => .pure ⟨h, rfl, fun h => by cases h⟩
  retNothing node kind b σ h hnone := by
    cases kind with
    | top =>
        rw [Infer.stmt_ret_top]
        exact .unsupported _ _
    | function =>
        rw [Infer.stmt_retNothing]
        exact .pure ⟨h, rfl, fun h => by cases h⟩
  block node ss hss kind b σ h hnone := by
    rw [Infer.stmt_block]
    exact .last (.stmts hss h.child hnone) fun inner hinner => .pure ⟨h, hinner.1, hinner.2⟩
  refusedStmt s description pos hs kind b σ h hnone := by
    rw [Infer.stmt_refused steps kind b hs]
    exact .unsupported _ _

theorem Stmt.resolved (s : Stmt) : s.Resolved steps :=
  resolved_cases.allStmt s

end Syntax

/-! Scripts. -/

section

variable {steps : Nat} {b b' : Block} {σ : Sight} {ss : List Stmt} {r r' : Run}

/-- At the top level no statement returns. -/
theorem Infers.bound (h : b.env.Sees σ) (hnone : b.returned = none) (hinfers : Infers steps b ss r b' r') :
    ∀ u ∈ usesInStmts σ ss, u.Bound := by
  induction ss generalizing b σ r with
  | nil => nofun
  | cons s ss ih =>
      obtain ⟨b₁, r₁, hs, hss⟩ := cons_iff.mp hinfers
      obtain ⟨huses, hb₁⟩ := (s.resolved h hnone).returns hs
      have hgoes : s.returns = false := by rw [← hb₁.returned, hb₁.top rfl]; rfl
      rw [usesInStmts, hgoes]
      exact List.forall_mem_append.mpr ⟨huses, ih hb₁.sees (hb₁.top rfl) hss⟩

theorem Fails.misses (h : b.env.Sees σ) (hnone : b.returned = none) {id : Ident} {names : List String}
    (hfails : Fails steps b ss r b' (.scope (.unbound id names)) r') : Misses (usesInStmts σ ss) id names := by
  induction ss generalizing b σ r with
  | nil => cases hfails
  | cons s ss ih =>
      have hs : Resolves (Infer.stmt steps .top b s) (s.uses σ) _ := s.resolved h hnone
      rw [usesInStmts]
      obtain hstmt | ⟨b₁, r₁, hstmt, hss⟩ := fails_cons_iff.mp hfails
      · exact (hs.unbound (Infer.stmt_fails steps .top hstmt)).append_right _
      · obtain ⟨huses, hb₁⟩ := hs.returns hstmt
        have hgoes : s.returns = false := by rw [← hb₁.returned, hb₁.top rfl]; rfl
        rw [hgoes]
        exact (ih hb₁.sees (hb₁.top rfl) hss).append_left huses

end

namespace Script

theorem infer_eq_scopeError_iff {steps : Nat} {s : Script} {e : ScopeError VarId} :
    s.infer steps = .error (.scope e) ↔ ∃ b r, Fails steps ⟨.empty, [], none⟩ s.body .initial b (.scope e) r := by
  obtain ⟨b, error, r, hrun, hinfer⟩ := s.infer_cases steps
  rw [run_eq] at hrun
  simp only [hinfer, Fails, hrun]
  cases error with
  | none => simp
  | some f => cases f <;> simp

/-- Names are resolved lexically. An unbound identifier is reported at the first use in checked code that is not bound
there, with the names in sight, each once and innermost first. If inference succeeds then every use is bound. -/
theorem infer_resolves_lexically (steps : Nat) (s : Script) :
    (∀ id names, s.infer steps = .error (.scope (.unbound id names)) →
      ∃ before u after, s.uses = before ++ u :: after ∧ (∀ v ∈ before, v.sight.Binds v.id.label) ∧
        u.id = id ∧ ¬ u.sight.Binds id.label ∧ names = u.sight.names ∧ u.sight.Lists names) ∧
      ∀ env, s.infer steps = .ok ⟨env, none⟩ → ∀ u ∈ s.uses, u.sight.Binds u.id.label := by
  constructor
  · intro id names h
    obtain ⟨b, r, hfails⟩ := infer_eq_scopeError_iff.mp h
    obtain ⟨before, u, after, huses, hbefore, hu, rfl, rfl⟩ := hfails.misses .empty rfl
    exact ⟨before, u, after, huses, hbefore, rfl, hu, rfl, u.sight.lists_names⟩
  · intro env h
    obtain ⟨b, r, hinfers, -⟩ := infer_eq_ok_iff.mp h
    exact hinfers.bound .empty rfl

/-- A function that returns a name of a block inside it. -/
def escaping : Script where
  body :=
    [pairing.declare "flag" (.literal pairing.node (.bool true)),
    pairing.declare "f" (.arrow pairing.node [.ident ⟨"x", none⟩] (.block
      [.expr pairing.node (.tagged pairing.node (.ident pairing.node ⟨assumeTag, none⟩) (.mk ["y:a"] [] none)),
      .block pairing.node [pairing.declare "inner" (.array pairing.node [pairing.use "x", pairing.use "flag"])],
      .ret pairing.node (some (pairing.use "inner"))] none))]
  pos := none

theorem infer_resolves_lexically_escaping :
    escaping.infer 20 = .error (.scope (.unbound ⟨"inner", none⟩ ["x", "y", "f", "flag"])) ∧
      (∃ before u after, escaping.uses = before ++ u :: after ∧ (∀ v ∈ before, v.sight.Binds v.id.label) ∧
        u.id = ⟨"inner", none⟩ ∧ ¬ u.sight.Binds "inner" ∧ ["x", "y", "f", "flag"] = u.sight.names ∧
        u.sight.Lists ["x", "y", "f", "flag"]) ∧
      pairing.infer 20 = .ok ⟨pairingEnv, none⟩ ∧ ∀ u ∈ pairing.uses, u.sight.Binds u.id.label := by
  have hunbound : escaping.infer 20 = .error (.scope (.unbound ⟨"inner", none⟩ ["x", "y", "f", "flag"])) := by decide +kernel
  exact ⟨hunbound, (infer_resolves_lexically 20 escaping).1 _ _ hunbound, infer_pairing,
    (infer_resolves_lexically 20 pairing).2 _ infer_pairing⟩

end Script

end ScriptTypes
