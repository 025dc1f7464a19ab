import ScriptTypes.Proofs.Annotation.Shape
import ScriptTypes.Proofs.Typing.Ensures
import ScriptTypes.Proofs.Typing.Inversion

/-! The variables and the shape of all types that a run of inference meets. From an environment over a set of variables
that grows with the supply, every call gives a typing over the set. -/

namespace ScriptTypes

variable {X : Supply → Kind × VarId → Prop}

/-- A typing over the set of a run. -/
abbrev Typing.In (X : Supply → Kind × VarId → Prop) (r : Run) (t : Typing VarId) : Prop :=
  t.Over (X r.supply)

/-- A block over the set of a run. -/
abbrev Block.In (X : Supply → Kind × VarId → Prop) (r : Run) (b : Block) : Prop :=
  b.Over (X r.supply)

/-- A scope and the parameters bound in it, over the set of a run. -/
def ParamsIn (X : Supply → Kind × VarId → Prop) (r : Run) (p : Env VarId × List (String × Ty VarId)) : Prop :=
  Env.Over (X r.supply) p.1 ∧ ∀ e ∈ p.2, e.2.Over (X r.supply)

theorem Requirements.over_joinUnder {Y : Kind × VarId → Prop} {bs : List (Binding VarId)}
    (hbs : ∀ b ∈ bs, b.value.Over Y) {envs : List (Requirements VarId)} (h : ∀ env ∈ envs, ∀ e ∈ env, e.2.Over Y) :
    ∀ e ∈ joinUnder bs envs, e.2.Over Y := by
  rintro ⟨name, t⟩ ht
  obtain ⟨u, hu, rfl⟩ := mem_joinUnder ht
  exact .under hbs (forall_mem_flatten.mpr h _ hu)

namespace Env

variable {P : Typing VarId → Prop} {Y : Kind × VarId → Prop} {env : Env VarId}

/-- The typings of all names in sight, also of those that are hidden, have a property. -/
def All (P : Typing VarId → Prop) (env : Env VarId) : Prop :=
  ∀ layer ∈ env.layers, ∀ e ∈ layer, P e.2.typing

theorem all_empty : All P .empty := by
  intro layer hl
  cases List.mem_singleton.mp hl
  nofun

theorem All.imp {Q : Typing VarId → Prop} (h : All P env) (hPQ : ∀ t, P t → Q t) : All Q env :=
  fun layer hl e he => hPQ _ (h layer hl e he)

theorem All.child (h : All P env) : All P env.child :=
  List.forall_mem_cons.mpr ⟨nofun, h⟩

theorem All.insert (h : All P env) {name : String} {b : Bound VarId} (hb : P b.typing) : All P (env.insert name b) := by
  obtain ⟨hcurrent, houter⟩ := List.forall_mem_cons.mp h
  refine List.forall_mem_cons.mpr ⟨?_, houter⟩
  rintro ⟨k, b'⟩ hk
  rcases Assoc.mem_of_mem_insert hk with ⟨-, rfl⟩ | hk
  · exact hb
  · exact hcurrent _ hk

theorem All.get? (h : All P env) {name : String} {b : Bound VarId} (hb : env.get? name = some b) : P b.typing := by
  obtain ⟨layer, hl, hb⟩ := List.exists_of_findSome?_eq_some hb
  exact h layer hl _ (Assoc.mem_of_get? hb)

theorem over_empty : Env.Over Y .empty := all_empty

theorem Over.child (h : Env.Over Y env) : Env.Over Y env.child := All.child h

theorem Over.insert (h : Env.Over Y env) {name : String} {b : Bound VarId} (hb : b.typing.Over Y) :
    Env.Over Y (env.insert name b) := All.insert h hb

theorem Over.get? (h : Env.Over Y env) {name : String} {b : Bound VarId} (hb : env.get? name = some b) :
    b.typing.Over Y := All.get? h hb

end Env

theorem Block.over_empty {Y : Kind × VarId → Prop} : Block.Over Y ⟨.empty, [], none⟩ :=
  ⟨Env.over_empty, List.forall_mem_nil _, nofun⟩

namespace Ensures

variable {r : Run} {α : Type} {env : Env VarId} {steps : Nat}

theorem assign {id : Ident} {t : Typing VarId} (henv : Env.Over (X r.supply) env) (ht : t.Over (X r.supply)) :
    Ensures X r (Infer.lift (env.assign id t)) fun r' env' => Env.Over (X r'.supply) env' := by
  unfold Env.assign
  split
  · exact lift nofun fun e he => by cases he; nofun
  · refine lift ?_ nofun
    rintro env' ⟨⟩
    exact henv.insert ht

theorem lookup {id : Ident} (henv : Env.Over (X r.supply) env) :
    Ensures X r (Infer.lift (env.lookup id)) (Typing.In X) := by
  unfold Env.lookup
  split
  · rename_i b hb
    refine lift ?_ nofun
    rintro t ⟨⟩
    exact henv.get? hb
  · exact lift nofun fun e he => by cases he; nofun

variable (hX : Growing X)

include hX

theorem bindParams {ps : List Pattern} (henv : Env.Over (X r.supply) env) :
    Ensures X r (Infer.bindParams env ps) (ParamsIn X) := by
  induction ps generalizing r env with
  | nil => exact pure ⟨henv, nofun⟩
  | cons p ps ih =>
      cases p with
      | object ids pos => exact unsupported _ _
      | array ids pos => exact unsupported _ _
      | ident id =>
          refine bind (freshVar hX none) ?_
          intro r₁ t hgo ht
          refine bind (assign (henv.imp fun _ => hX.mono hgo.le) ⟨List.forall_mem_singleton.mpr ht, ht⟩) ?_
          intro r₂ scope hgo₂ hscope
          refine bind (ih hscope) ?_
          rintro r₃ ⟨scope', params⟩ hgo₃ ⟨hscope', hparams⟩
          exact pure ⟨hscope', List.forall_mem_cons.mpr ⟨ht.imp fun _ => hX.mono (hgo₂.trans hgo₃).le, hparams⟩⟩

theorem bindDef {id : Ident} {ps : List Pattern} (henv : Env.Over (X r.supply) env) :
    Ensures X r (Infer.bindDef env id ps) (ParamsIn X) := by
  refine bind (freshVar hX none) ?_
  intro r₁ own hgo hown
  refine bind (assign (Env.Over.imp (fun _ => hX.mono hgo.le) henv).child ⟨List.forall_mem_singleton.mpr hown, hown⟩) ?_
  intro r₂ scope hgo₂ hscope
  exact bindParams hX hscope.child

/-- The common part of the rules: requirements and constraints are settled, and what comes of them is returned. -/
theorem combine {needs : List (Requirements VarId)} {extra : List (Constraint VarId)}
    {explain : UnifyError VarId → Failure VarId} {type : List (Binding VarId) → Ty VarId}
    (hneeds : ∀ env ∈ needs, ∀ e ∈ env, e.2.Over (X r.supply)) (hextra : ∀ c ∈ extra, c.Over (X r.supply))
    (hexplain : ∀ l r, (explain (.mismatch l r)).Ordinary)
    (htype : ∀ (r' : Run) bs, r.Goes X r' → (∀ b ∈ bs, b.value.Over (X r'.supply)) → (type bs).Over (X r'.supply)) :
    Ensures X r (do
      let bs ← Infer.settle steps needs extra explain
      return ⟨Requirements.joinUnder bs needs, type bs⟩) (Typing.In X) := by
  refine bind (settle hX hneeds hextra hexplain) ?_
  intro r₁ bs hgo hbs
  refine pure ⟨Requirements.over_joinUnder hbs ?_, htype r₁ bs hgo hbs⟩
  exact fun env henv e he => (hneeds env henv e he).imp fun _ => hX.mono hgo.le

/-- A type over the set stays over it under the bindings that come of settling. -/
theorem under_later {t : Ty VarId} (ht : t.Over (X r.supply)) (r' : Run) (bs : List (Binding VarId)) (hgo : r.Goes X r')
    (hbs : ∀ b ∈ bs, b.value.Over (X r'.supply)) : (t.under bs).Over (X r'.supply) :=
  .under hbs (ht.imp fun _ => hX.mono hgo.le)

omit hX in
theorem needs_over {ts : List (Typing VarId)} (h : ∀ t ∈ ts, t.In X r) :
    ∀ env ∈ ts.map Typing.needs, ∀ e ∈ env, e.2.Over (X r.supply) :=
  List.forall_mem_map.mpr fun t ht => (h t ht).needs

theorem blockTyping {b : Block} (hb : b.In X r) : Ensures X r (Infer.blockTyping steps b) (Typing.In X) := by
  have hreturned : (b.returned.getD (.closed (.leaf .undefined none))).In X r := by
    cases h : b.returned with
    | none => exact Typing.over_closed (Ty.over_leaf _ _)
    | some t => exact hb.returned t h
  refine combine hX ?_ nofun nofun (under_later hX hreturned.type)
  exact List.forall_mem_append.mpr ⟨needs_over hb.typings, List.forall_mem_singleton.mpr hreturned.needs⟩

omit hX in
theorem over_dropParams {Y : Kind × VarId → Prop} {needs : Requirements VarId} (params : List (String × Ty VarId))
    (h : ∀ e ∈ needs, e.2.Over Y) : ∀ e ∈ Infer.dropParams needs params, e.2.Over Y := by
  unfold Infer.dropParams
  induction params generalizing needs with
  | nil => exact h
  | cons p params ih =>
      refine ih ?_
      intro e he
      exact h e (Assoc.mem_of_mem_erase he)

theorem defTyping {name : String} {node : Node} {params : List (String × Ty VarId)} {body : Typing VarId}
    (hparams : ∀ e ∈ params, e.2.Over (X r.supply)) (hbody : body.In X r) :
    Ensures X r (Infer.defTyping steps name node params body) (Typing.In X) := by
  have ht : (Ty.arrow (params.map Prod.snd) body.type (some node)).Over (X r.supply) :=
    Ty.over_arrow.mpr ⟨List.forall_mem_map.mpr hparams, hbody.type⟩
  have hasked : ∀ env ∈ params.map (fun p => [p]), ∀ e ∈ env, e.2.Over (X r.supply) :=
    List.forall_mem_map.mpr fun p hp => List.forall_mem_singleton.mpr (hparams p hp)
  have hlast : ∀ env ∈ [body.needs], ∀ e ∈ env, e.2.Over (X r.supply) := List.forall_mem_singleton.mpr hbody.needs
  have hown : ∀ e ∈ [(name, Ty.arrow (params.map Prod.snd) body.type (some node))], e.2.Over (X r.supply) :=
    List.forall_mem_singleton.mpr ht
  unfold Infer.defTyping
  simp only
  split
  · refine bind (settle hX (List.forall_mem_append.mpr ⟨hasked, hlast⟩) nofun nofun) ?_
    intro r₁ bs hgo hbs
    refine pure ⟨over_dropParams params (Requirements.over_joinUnder hbs ?_), under_later hX ht r₁ bs hgo hbs⟩
    exact fun env henv e he => (hlast env henv e he).imp fun _ => hX.mono hgo.le
  · refine bind (settle hX (List.forall_mem_cons.mpr ⟨hown, List.forall_mem_append.mpr ⟨hasked, hlast⟩⟩) nofun nofun) ?_
    intro r₁ bs hgo hbs
    have hneeds : ∀ e ∈ Requirements.joinUnder bs [[(name, Ty.arrow (params.map Prod.snd) body.type (some node))],
        body.needs], e.2.Over (X r₁.supply) := by
      refine Requirements.over_joinUnder hbs ?_
      intro env henv e he
      have hold := List.forall_mem_cons.mpr ⟨hown, hlast⟩ env henv e he
      exact hold.imp fun _ => hX.mono hgo.le
    refine pure ⟨over_dropParams params fun e he => hneeds e (Assoc.mem_of_mem_erase he), ?_⟩
    cases hg : Assoc.get? (Requirements.joinUnder bs [[(name, Ty.arrow (params.map Prod.snd) body.type (some node))],
        body.needs]) name with
    | none => exact under_later hX ht r₁ bs hgo hbs
    | some t => exact hneeds _ (Assoc.mem_of_get? hg)

omit hX in
theorem over_takeParams {Y : Kind × VarId → Prop} {bs : List (Binding VarId)} (hbs : ∀ b ∈ bs, b.value.Over Y)
    {needs : Requirements VarId} {params : List (String × Ty VarId)} (hneeds : ∀ e ∈ needs, e.2.Over Y)
    (hparams : ∀ e ∈ params, e.2.Over Y) :
    (∀ e ∈ (Infer.takeParams bs needs params).1, e.2.Over Y) ∧
      ∀ t ∈ (Infer.takeParams bs needs params).2, t.Over Y := by
  induction params generalizing needs with
  | nil => exact ⟨hneeds, nofun⟩
  | cons p params ih =>
      obtain ⟨name, t⟩ := p
      obtain ⟨ht, hparams⟩ := List.forall_mem_cons.mp hparams
      obtain ⟨hrest, hus⟩ := ih (fun e he => hneeds e (Assoc.mem_of_mem_erase he)) hparams
      refine ⟨hrest, List.forall_mem_cons.mpr ⟨?_, hus⟩⟩
      cases hg : Assoc.get? needs name with
      | none => exact .under hbs ht
      | some u => exact hneeds _ (Assoc.mem_of_get? hg)

theorem absTyping {node : Node} {params : List (String × Ty VarId)} {body : Typing VarId}
    (hparams : ∀ e ∈ params, e.2.Over (X r.supply)) (hbody : body.In X r) :
    Ensures X r (Infer.absTyping steps node params body) (Typing.In X) := by
  have hasked : ∀ env ∈ params.map (fun p => [p]), ∀ e ∈ env, e.2.Over (X r.supply) :=
    List.forall_mem_map.mpr fun p hp => List.forall_mem_singleton.mpr (hparams p hp)
  have hlast : ∀ env ∈ [body.needs], ∀ e ∈ env, e.2.Over (X r.supply) := List.forall_mem_singleton.mpr hbody.needs
  refine bind (settle hX (List.forall_mem_append.mpr ⟨hasked, hlast⟩) nofun nofun) ?_
  intro r₁ bs hgo hbs
  have hneeds := Requirements.over_joinUnder hbs fun env henv e he =>
    (hlast env henv e he).imp fun _ => hX.mono hgo.le
  obtain ⟨hrest, hdomain⟩ := over_takeParams hbs hneeds fun e he => (hparams e he).imp fun _ => hX.mono hgo.le
  exact pure ⟨hrest, Ty.over_arrow.mpr ⟨hdomain, under_later hX hbody.type r₁ bs hgo hbs⟩⟩

/-- A record has a flat form, so member access never meets several row variables. -/
theorem memberTyping {node : Node} {object : Typing VarId} {label : Ident} (h : object.In X r) :
    Ensures X r (Infer.memberTyping steps node object label) (Typing.In X) := by
  unfold Infer.memberTyping
  split
  · rename_i rows s ht
    have hrecord := h.type
    rw [ht] at hrecord
    cases hrecord.shape with
    | @record fs tail _ _ _ hd =>
        have hfields := ((Ty.over_record hd).mp hrecord).1
        rw [Row.flatten_ofFields hd]
        simp only
        cases hg : Assoc.get? fs label.label with
        | some t => exact pure ⟨h.needs, hfields _ (Assoc.mem_of_get? hg)⟩
        | none =>
            cases tail with
            | none => exact throw nofun
            | some v =>
                refine bind (freshVar hX (some node)) ?_
                intro r₁ field hgo hfield
                refine bind (freshRowVar hX (some node)) ?_
                intro r₂ rest hgo₂ hrest
                have hle := (hgo.trans hgo₂).le
                have hfield := hfield.imp fun _ => hX.mono hgo₂.le
                refine combine hX ?_ ?_ nofun (under_later hX hfield)
                · exact List.forall_mem_singleton.mpr fun e he => (h.needs e he).imp fun _ => hX.mono hle
                · refine List.forall_mem_singleton.mpr ⟨h.type.imp fun _ => hX.mono hle, ?_⟩
                  have hd : Assoc.Distinct [(label.label, field)] := List.nodup_singleton _
                  rw [Ty.ofFields_eq]
                  refine (Ty.over_record hd).mpr ⟨List.forall_mem_singleton.mpr hfield, ?_⟩
                  rintro v ⟨⟩
                  exact hrest
  · exact throw nofun

theorem binaryTyping {node leftNode rightNode : Node} {op : BinaryOp} {a b : Typing VarId} (ha : a.In X r)
    (hb : b.In X r) : Ensures X r (Infer.binaryTyping steps node op leftNode rightNode a b) (Typing.In X) := by
  have hneeds : ∀ env ∈ [a.needs, b.needs], ∀ e ∈ env, e.2.Over (X r.supply) :=
    List.forall_mem_cons.mpr ⟨ha.needs, List.forall_mem_singleton.mpr hb.needs⟩
  unfold Infer.binaryTyping
  simp only
  split
  · refine combine hX hneeds ?_ nofun fun _ _ _ _ => Ty.over_leaf _ _
    exact List.forall_mem_cons.mpr ⟨⟨ha.type, Ty.over_leaf _ _⟩,
      List.forall_mem_singleton.mpr ⟨hb.type, Ty.over_leaf _ _⟩⟩
  · refine bind (freshVar hX (some node)) ?_
    intro r₁ operand hgo hoperand
    refine combine hX ?_ ?_ nofun fun _ _ _ _ => Ty.over_leaf _ _
    · exact fun env henv e he => (hneeds env henv e he).imp fun _ => hX.mono hgo.le
    · exact List.forall_mem_cons.mpr ⟨⟨ha.type.imp fun _ => hX.mono hgo.le, hoperand⟩,
        List.forall_mem_singleton.mpr ⟨hb.type.imp fun _ => hX.mono hgo.le, hoperand⟩⟩

theorem arrayTyping {node : Node} {elems : List (Typing VarId)} (h : ∀ t ∈ elems, t.In X r) :
    Ensures X r (Infer.arrayTyping steps node elems) (Typing.In X) := by
  refine bind (freshVar hX (some node)) ?_
  intro r₁ elem hgo helem
  have h : ∀ t ∈ elems, t.In X r₁ := fun t ht => (h t ht).imp fun _ => hX.mono hgo.le
  refine combine hX (needs_over h) ?_ nofun fun r' bs hgo' hbs => Ty.over_array.mpr (under_later hX helem r' bs hgo' hbs)
  exact List.forall_mem_map.mpr fun t ht => ⟨helem, (h t ht).type⟩

theorem objectTyping {node : Node} {props : List (String × Typing VarId)} (hd : Assoc.Distinct props)
    (h : ∀ p ∈ props, p.2.In X r) : Ensures X r (Infer.objectTyping steps node props) (Typing.In X) := by
  refine combine hX (List.forall_mem_map.mpr fun p hp => (h p hp).needs) nofun nofun ?_
  intro r' bs hgo hbs
  rw [Ty.ofFields_eq]
  refine Ty.Over.withSrc ((Ty.over_record ?_).mpr ⟨?_, nofun⟩) _
  · exact hd.mapValues fun t => t.type.under bs
  · exact List.forall_mem_map.mpr fun p hp => under_later hX (h p hp).type r' bs hgo hbs

theorem conditionalTyping {node : Node} {t a b : Typing VarId} (ht : t.In X r) (ha : a.In X r) (hb : b.In X r) :
    Ensures X r (Infer.conditionalTyping steps node t a b) (Typing.In X) := by
  refine combine hX ?_ ?_ nofun (under_later hX ha.type)
  · exact List.forall_mem_cons.mpr ⟨ht.needs,
      List.forall_mem_cons.mpr ⟨ha.needs, List.forall_mem_singleton.mpr hb.needs⟩⟩
  · exact List.forall_mem_cons.mpr ⟨⟨ht.type, Ty.over_leaf _ _⟩, List.forall_mem_singleton.mpr ⟨ha.type, hb.type⟩⟩

theorem callTyping {node calleeNode : Node} {callee : Typing VarId} {args : List (Typing VarId)}
    (hcallee : callee.In X r) (hargs : ∀ t ∈ args, t.In X r) :
    Ensures X r (Infer.callTyping steps node calleeNode callee args) (Typing.In X) := by
  refine bind (freshVar hX (some node)) ?_
  intro r₁ result hgo hresult
  have hcallee : callee.In X r₁ := hcallee.imp fun _ => hX.mono hgo.le
  have hargs : ∀ t ∈ args, t.In X r₁ := fun t ht => (hargs t ht).imp fun _ => hX.mono hgo.le
  refine combine hX ?_ ?_ nofun (under_later hX hresult)
  · exact List.forall_mem_append.mpr ⟨needs_over hargs, List.forall_mem_singleton.mpr hcallee.needs⟩
  · refine List.forall_mem_singleton.mpr ⟨hcallee.type, Ty.over_arrow.mpr ⟨?_, hresult⟩⟩
    exact List.forall_mem_map.mpr fun t ht => (hargs t ht).type

theorem templateTyping {node : Node} {parts : List (Typing VarId)} (h : ∀ t ∈ parts, t.In X r) :
    Ensures X r (Infer.templateTyping steps node parts) (Typing.In X) :=
  combine hX (needs_over h) nofun nofun fun _ _ _ _ => Ty.over_leaf _ _

theorem assumption (quasi : Template) :
    Ensures X r (Infer.assumption quasi) fun r' p => p.2.In X r' := by
  obtain ⟨texts, es, pos⟩ := quasi
  obtain ⟨_, _, _, t, -, -, -, ht, h⟩ | ⟨message, h⟩ := Infer.assumption_cases texts es
  · rw [h]
    refine bind (instantiate hX nofun ( Annotation.compile_canonical ht)) ?_
    intro r₁ u hgo hu
    exact pure hu
  · rw [h es pos .rfl]
    exact fail nofun

omit hX in
theorem propertyLabel (seen : Assoc Ident) (key : PropertyKey) :
    Ensures X r (Infer.propertyLabel seen key) fun _ id => id.label ∉ Assoc.keys seen := by
  have hcheck : ∀ id : Ident, Ensures X r (Infer.propertyLabel.check seen id) fun _ id => id.label ∉ Assoc.keys seen := by
    intro id
    unfold Infer.propertyLabel.check
    split
    · exact fail nofun
    · rename_i hnone
      exact pure (Assoc.get?_eq_none_iff.mp hnone)
  cases key with
  | computed key => exact fail nofun
  | ident id => exact hcheck id
  | literal value pos => exact hcheck _

end Ensures

/-! What is done in place. -/

/-- From a run and a block over the set, a computation goes on. The block that it leaves is over the set, whether it
fails or not, and it fails ordinarily. -/
structure Upholds {α : Type} (X : Supply → Kind × VarId → Prop) (r : Run) (b : Block) (x : Checking α) : Prop where
  goes : r.Goes X (x.outcome b r).2
  left : (x.outcome b r).1.2.In X (x.outcome b r).2
  ordinary : ∀ e, (x.outcome b r).1.1 = .error e → e.Ordinary

namespace Upholds

variable {α β : Type} {r : Run} {b : Block}

theorem of_outcome {x : Checking α} {result : Except (Failure VarId) α} {b' : Block} {r' : Run}
    (h : x.outcome b r = ((result, b'), r')) (hgo : r.Goes X r') (hleft : b'.In X r')
    (herr : ∀ e, result = .error e → e.Ordinary) : Upholds X r b x := by
  refine ⟨?_, ?_, ?_⟩ <;> rw [h]
  · exact hgo
  · exact hleft
  · exact herr

/-- The rest of a computation. -/
theorem rest {x y : Checking α} {r₁ : Run} {b₁ : Block} (h : x.outcome b r = y.outcome b₁ r₁)
    (hgo : r.Goes X r₁) (hy : Upholds X r₁ b₁ y) : Upholds X r b x := by
  refine ⟨?_, ?_, ?_⟩ <;> rw [h]
  · exact hgo.trans hy.goes
  · exact hy.left
  · exact hy.ordinary

theorem blockFrom {x : Checking Unit} (h : Upholds X r b x) : Ensures X r (x.blockFrom b) (Block.In X) := by
  obtain ⟨hgo, hleft, herr⟩ := h
  unfold Ensures
  rw [Checking.outcome_blockFrom]
  revert hgo hleft herr
  obtain ⟨⟨result, b₁⟩, r₁⟩ := x.outcome b r
  intro hgo hleft herr
  cases result with
  | error e =>
      refine ⟨hgo, nofun, ?_⟩
      rintro f ⟨⟩
      exact herr e rfl
  | ok a =>
      refine ⟨hgo, ?_, nofun⟩
      rintro b' ⟨⟩
      exact hleft

theorem bind {x : Checking α} {f : α → Checking β} (hx : Upholds X r b x)
    (hf : ∀ r₁ b₁ a, b₁.In X r₁ → Upholds X r₁ b₁ (f a)) : Upholds X r b (x >>= f) := by
  obtain ⟨hgo, hleft, herr⟩ := hx
  have hbind := Checking.outcome_bind x f b r
  revert hgo hleft herr hbind
  obtain ⟨⟨result, b₁⟩, r₁⟩ := x.outcome b r
  intro hgo hleft herr hbind
  cases result with
  | error e => exact .of_outcome hbind hgo hleft fun f hf => herr f (by cases hf; rfl)
  | ok a => exact .rest hbind hgo (hf r₁ b₁ a hleft)

theorem done (hb : b.In X r) (a : α) : Upholds X r b (pure a : Checking α) :=
  ⟨.refl r, hb, nofun⟩

theorem current_bind {f : Block → Checking α} (h : Upholds X r b (f b)) : Upholds X r b (Checking.current >>= f) :=
  .rest (Checking.outcome_bind ..) (.refl r) h

theorem change {f : Block → Block} (h : (f b).In X r) : Upholds X r b (Checking.change f) :=
  ⟨.refl r, h, nofun⟩

theorem change_bind {f : Block → Block} {g : Unit → Checking α} (h : Upholds X r (f b) (g ())) :
    Upholds X r b (Checking.change f >>= g) :=
  .rest (Checking.outcome_bind ..) (.refl r) h

theorem unsupported (hb : b.In X r) (description : String) (pos : Position) :
    Upholds X r b (liftM (Infer.unsupported description pos : Infer α) : Checking α) :=
  .of_outcome rfl (.refl r) hb (by rintro e ⟨⟩; nofun)

variable (hX : Growing X)

include hX

/-- Inference in between leaves the block to what comes after it. -/
theorem lift_bind {x : Infer α} {f : α → Checking β} {Q : Run → α → Prop} (hb : b.In X r) (hx : Ensures X r x Q)
    (hf : ∀ r₁ a, b.In X r₁ → Q r₁ a → Upholds X r₁ b (f a)) : Upholds X r b (liftM x >>= f) := by
  obtain ⟨hgo, hok, herr⟩ := hx
  have hbind := Checking.outcome_bind (liftM x) f b r
  rw [Checking.outcome_lift] at hbind
  revert hgo hok herr hbind
  obtain ⟨result, r₁⟩ := x.outcome r
  intro hgo hok herr hbind
  have hb₁ : b.In X r₁ := hb.imp fun _ => hX.mono hgo.le
  cases result with
  | error e => exact .of_outcome hbind hgo hb₁ fun f hf => herr f (by cases hf; rfl)
  | ok a => exact .rest hbind hgo (hf r₁ a hb₁ (hok a rfl))

theorem nested {x : Checking Unit} (hb : b.In X r) (hx : Upholds X r { b with env := b.env.child } x) :
    Upholds X r b x.nested where
  goes := hx.goes
  left := ⟨Env.Over.imp (fun _ => hX.mono hx.goes.le) hb.env, hx.left.typings, hx.left.returned⟩
  ordinary := hx.ordinary

theorem declare {id : Ident} {typing : Env VarId → Infer (Typing VarId)} (hb : b.In X r)
    (h : Ensures X r (typing b.env) (Typing.In X)) : Upholds X r b (Checking.declare id typing) := by
  refine .current_bind ?_
  dsimp only
  split
  · refine .lift_bind hX hb h fun r₁ t hb₁ ht => ?_
    have hadded : ({ b with typings := b.typings ++ [t] } : Block).In X r₁ :=
      ⟨hb₁.env, List.forall_mem_append.mpr ⟨hb₁.typings, List.forall_mem_singleton.mpr ht⟩, hb₁.returned⟩
    refine .change_bind (.current_bind (.lift_bind hX hadded (.assign hadded.env ht) fun r₂ env hb₂ henv => ?_))
    exact .change ⟨henv, hb₂.typings, hb₂.returned⟩
  · exact .done hb ()

end Upholds

/-! Every construct. -/

section Syntax

variable (X) (steps : Nat)

/-- An expression has a typing over the set, in any environment over it. -/
def Expr.Over (e : Expr) : Prop :=
  ∀ {r : Run} {env : Env VarId}, Env.Over (X r.supply) env → Ensures X r (Infer.expr steps env e) (Typing.In X)

def Body.Over (body : Body) : Prop :=
  ∀ {r : Run} {env : Env VarId}, Env.Over (X r.supply) env → Ensures X r (Infer.functionBody steps env body) (Typing.In X)

/-- A statement leaves a block over the set. -/
def Stmt.Over (s : Stmt) : Prop :=
  ∀ {r : Run} {kind : BlockKind} {b : Block}, b.In X r → Upholds X r b (Infer.checkStmt steps kind s)

variable {X} {steps} (hX : Growing X) {r : Run} {env : Env VarId}

include hX

theorem Ensures.exprs {es : List Expr} (hes : ∀ e ∈ es, e.Over X steps) (henv : Env.Over (X r.supply) env) :
    Ensures X r (Infer.exprs steps env es) fun r' ts => ∀ t ∈ ts, t.In X r' := by
  induction es generalizing r with
  | nil =>
      rw [Infer.exprs]
      exact pure (List.forall_mem_nil _)
  | cons e es ih =>
      obtain ⟨he, hes⟩ := List.forall_mem_cons.mp hes
      rw [Infer.exprs]
      refine bind (he henv) ?_
      intro r₁ t hgo ht
      refine bind (ih hes (Env.Over.imp (fun _ => hX.mono hgo.le) henv)) ?_
      intro r₂ ts hgo₂ hts
      exact pure (List.forall_mem_cons.mpr ⟨ht.imp fun _ => hX.mono hgo₂.le, hts⟩)

/-- The labels of properties are distinct, so they make a record. -/
theorem Ensures.properties {ps : List Property} (hps : ∀ p ∈ ps, p.value.Over X steps)
    (henv : Env.Over (X r.supply) env) (seen : Assoc Ident) :
    Ensures X r (Infer.properties steps env seen ps) fun r' ts =>
      (Assoc.Distinct ts ∧ ∀ k ∈ Assoc.keys ts, k ∉ Assoc.keys seen) ∧ ∀ p ∈ ts, p.2.In X r' := by
  induction ps generalizing r seen with
  | nil =>
      rw [Infer.properties]
      exact pure ⟨⟨Assoc.distinct_nil, List.forall_mem_nil _⟩, List.forall_mem_nil _⟩
  | cons p ps ih =>
      obtain ⟨key, value, pos⟩ := p
      obtain ⟨hp, hps⟩ := List.forall_mem_cons.mp hps
      rw [Infer.properties]
      refine bind (propertyLabel seen key) ?_
      intro r₁ id hgo hid
      refine bind (hp (Env.Over.imp (fun _ => hX.mono hgo.le) henv)) ?_
      intro r₂ t hgo₂ ht
      refine bind (ih hps (Env.Over.imp (fun _ => hX.mono (hgo.trans hgo₂).le) henv) _) ?_
      rintro r₃ ts hgo₃ ⟨⟨hd, hnew⟩, hts⟩
      simp only [Assoc.mem_keys_insert, not_or] at hnew
      refine pure ⟨⟨Assoc.distinct_cons.mpr ⟨fun hk => (hnew _ hk).1 rfl, hd⟩, ?_⟩, ?_⟩
      · exact List.forall_mem_cons.mpr ⟨hid, fun k hk => (hnew k hk).2⟩
      · exact List.forall_mem_cons.mpr ⟨ht.imp fun _ => hX.mono hgo₃.le, hts⟩

omit hX in
theorem Upholds.stmts {ss : List Stmt} (hss : ∀ s ∈ ss, s.Over X steps) {kind : BlockKind} {b : Block} (hb : b.In X r) :
    Upholds X r b (Infer.checkBlock steps kind ss) := by
  induction ss generalizing r b with
  | nil =>
      rw [Infer.checkBlock_nil]
      exact .done hb ()
  | cons s ss ih =>
      obtain ⟨hs, hss⟩ := List.forall_mem_cons.mp hss
      rw [Infer.checkBlock_cons]
      refine .bind (hs hb) fun r₁ b₁ _ hb₁ => .current_bind ?_
      split
      · exact ih hss hb₁
      · exact .done hb₁ ()

/-- A function bound to a name, from what is known of its body. -/
theorem Ensures.definition {id : Ident} {node : Node} {ps : List Pattern} {body : Body} (hbody : body.Over X steps)
    (henv : Env.Over (X r.supply) env) :
    Ensures X r (Infer.definition steps env id node ps body) (Typing.In X) := by
  refine bind (bindDef hX henv) ?_
  rintro r₁ ⟨scope, params⟩ hgo ⟨hscope, hparams⟩
  refine bind (hbody hscope) ?_
  intro r₂ t hgo₂ ht
  exact defTyping hX (fun e he => (hparams e he).imp fun _ => hX.mono hgo₂.le) ht

theorem Stmt.over_expr {node : Node} {e : Expr} (he : e.Over X steps) : (Stmt.expr node e).Over X steps := by
  intro r kind b hb
  obtain ⟨n, n', tag, quasi, rfl, htag⟩ | ⟨n, tag, quasi, rfl, htag⟩ | hplain := e.tagged_cases
  · rw [Infer.checkStmt_assume steps kind node n n' htag]
    refine .lift_bind hX hb (.assumption hX quasi) ?_
    rintro r₁ ⟨id, t⟩ hb₁ ht
    exact .change ⟨hb₁.env.insert ht, hb₁.typings, hb₁.returned⟩
  · rw [Infer.checkStmt_tagged steps kind node n htag]
    exact .unsupported hb _ _
  · rw [Infer.checkStmt_expr steps kind node hplain]
    refine .current_bind (.lift_bind hX hb (he hb.env) fun r₁ t hb₁ ht => .change ?_)
    exact ⟨hb₁.env, List.forall_mem_append.mpr ⟨hb₁.typings, List.forall_mem_singleton.mpr ht⟩, hb₁.returned⟩

theorem over_cases : SyntaxCases (Expr.Over X steps) (Body.Over X steps) (Stmt.Over X steps) where
  literal node value r env henv := by
    rw [Infer.expr]
    exact .pure (Typing.over_closed (Ty.over_leaf _ _))
  ident node id r env henv := by
    rw [Infer.expr]
    refine .bind (.lookup henv) ?_
    intro r₁ t hgo ht
    exact .instantiate hX (fun e he => (ht.needs e he).shape) ht.type.shape
  array node es hes r env henv := by
    rw [Infer.expr]
    refine .bind (.exprs hX hes henv) ?_
    intro r₁ ts hgo hts
    exact .arrayTyping hX hts
  object node ps hps r env henv := by
    rw [Infer.expr]
    refine .bind (.properties hX hps henv []) ?_
    rintro r₁ ts hgo ⟨⟨hd, -⟩, hts⟩
    exact .objectTyping hX hd hts
  member node e label he r env henv := by
    rw [Infer.expr]
    refine .bind (he henv) ?_
    intro r₁ t hgo ht
    exact .memberTyping hX ht
  binary node op a b ha hb r env henv := by
    rw [Infer.expr]
    refine .bind (ha henv) ?_
    intro r₁ t hgo ht
    refine .bind (hb (Env.Over.imp (fun _ => hX.mono hgo.le) henv)) ?_
    intro r₂ u hgo₂ hu
    exact .binaryTyping hX (ht.imp fun _ => hX.mono hgo₂.le) hu
  conditional node t a b ht ha hb r env henv := by
    rw [Infer.expr]
    refine .bind (ht henv) ?_
    intro r₁ t hgo ht
    refine .bind (ha (Env.Over.imp (fun _ => hX.mono hgo.le) henv)) ?_
    intro r₂ a hgo₂ ha
    refine .bind (hb (Env.Over.imp (fun _ => hX.mono (hgo.trans hgo₂).le) henv)) ?_
    intro r₃ b hgo₃ hb
    exact .conditionalTyping hX (ht.imp fun _ => hX.mono (hgo₂.trans hgo₃).le) (ha.imp fun _ => hX.mono hgo₃.le) hb
  arrow node ps body hbody r env henv := by
    rw [Infer.expr]
    refine .bind (.bindParams hX henv.child) ?_
    rintro r₁ ⟨scope, params⟩ hgo ⟨hscope, hparams⟩
    refine .bind (hbody hscope) ?_
    intro r₂ t hgo₂ ht
    exact .absTyping hX (fun e he => (hparams e he).imp fun _ => hX.mono hgo₂.le) ht
  call node f as hf has r env henv := by
    rw [Infer.expr]
    refine .bind (hf henv) ?_
    intro r₁ t hgo ht
    refine .bind (.exprs hX has (Env.Over.imp (fun _ => hX.mono hgo.le) henv)) ?_
    intro r₂ ts hgo₂ hts
    exact .callTyping hX (ht.imp fun _ => hX.mono hgo₂.le) hts
  template node texts es pos hes r env henv := by
    rw [Infer.expr]
    refine .bind (.exprs hX hes henv) ?_
    intro r₁ ts hgo hts
    exact .templateTyping hX hts
  refused e he r env henv := by
    cases he with
    | index | unary | tagged | assign =>
        rw [Infer.expr]
        exact .unsupported _ _
  exprBody e he r env henv := by
    rw [Infer.functionBody]
    exact he henv
  blockBody ss pos hss r env henv := by
    rw [Infer.functionBody]
    refine .bind (Upholds.stmts hss (b := ⟨env, [], none⟩) ⟨henv, List.forall_mem_nil _, by simp⟩).blockFrom ?_
    intro r₁ b hgo hb
    exact .blockTyping hX hb
  letFunction node id fnode ps body pos hbody r kind b hb := by
    rw [Infer.checkStmt_letFunction]
    exact .declare hX hb (.definition hX hbody hb.env)
  letValue node id e pos hna he r kind b hb := by
    rw [Infer.checkStmt_letValue _ _ _ _ hna]
    exact .declare hX hb (he hb.env)
  expr node e he := Stmt.over_expr hX he
  ret node e he r kind b hb := by
    cases kind with
    | top =>
        rw [Infer.checkStmt_ret_top]
        exact .unsupported hb _ _
    | function =>
        rw [Infer.checkStmt_ret]
        refine .current_bind (.lift_bind hX hb (he hb.env) fun r₁ t hb₁ ht => .change ⟨hb₁.env, hb₁.typings, ?_⟩)
        rintro u ⟨⟩
        exact ht
  retNothing node r kind b hb := by
    cases kind with
    | top =>
        rw [Infer.checkStmt_ret_top]
        exact .unsupported hb _ _
    | function =>
        rw [Infer.checkStmt_retNothing]
        refine .change ⟨hb.env, hb.typings, ?_⟩
        rintro u ⟨⟩
        exact Typing.over_closed (Ty.over_leaf _ _)
  block node ss hss r kind b hb := by
    rw [Infer.checkStmt_block]
    exact .nested hX hb (.stmts hss ⟨hb.env.child, hb.typings, hb.returned⟩)
  refusedStmt s description pos hs r kind b hb := by
    rw [Infer.checkStmt_refused steps kind hs]
    exact .unsupported hb _ _

end Syntax

/-! Scripts. -/

/-- The statements of a script, whether one of them fails or not. -/
theorem Infer.script_over (hX : Growing X) (steps : Nat) (ss : List Stmt) {r : Run} {b : Block} (hb : b.In X r)
    {b' : Block} {error : Option (Failure VarId)} {r' : Run} (h : script steps b ss r = ((b', error), r')) :
    r.Goes X r' ∧ b'.In X r' ∧ ∀ e, error = some e → e.Ordinary := by
  induction ss generalizing r b with
  | nil =>
      cases h
      exact ⟨.refl _, hb, nofun⟩
  | cons s ss ih =>
      have hs : s.Over X steps := (over_cases hX).allStmt s
      obtain ⟨hgo, hleft, herr⟩ : Upholds X r b (checkStmt steps .top s) := hs hb
      rw [script] at h
      revert h hgo hleft herr
      obtain ⟨⟨result, b₁⟩, r₁⟩ := (checkStmt steps .top s).outcome b r
      intro h hgo hleft herr
      cases result with
      | ok _ =>
          obtain ⟨hgo', hb', herror⟩ := ih hleft h
          exact ⟨hgo.trans hgo', hb', herror⟩
      | error e =>
          cases h
          refine ⟨hgo, hleft, ?_⟩
          rintro e ⟨⟩
          exact herr e rfl

end ScriptTypes
