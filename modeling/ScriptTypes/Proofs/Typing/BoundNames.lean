import ScriptTypes.Program
import ScriptTypes.Proofs.Typing.RenamedScopes

/-! The names of parameters do not matter. A script is inferred next to the same script with another name for a
parameter of some functions. Both come to the same result up to variables, if binders of the old name are kept apart. -/

namespace ScriptTypes

/-! Every construct. -/

section Syntax

variable (x y : String) (n m : Nat)

/-- Names in sight at some point of a run, and their counterparts. -/
structure Region.Ready (region : Region) (picked : Bool) (names : List String) (r : Run) (env env' : Env VarId) :
    Prop where
  sees : region.Sees x y picked names env env'
  issued : Env.Over r.supply.Issued env

/-- The typing of an expression does not depend on the names of parameters. -/
def Expr.Follows (e : Expr) : Prop :=
  ∀ (region : Region) (picked : Bool) (pick : Pick) (around : List String) (env env' : Env VarId)
    (f : Kind → VarId → VarId) (r r' : Run), (Sides.renamed n m).Renames f r.supply r'.supply →
    region.Ready x y picked e.free r env env' → e.passes (.lacks y) around = true → e.separate x region pick = true →
    Simulates (.renamed n m) f r r' (Infer.expr n env e) (Infer.expr m env' (e.rename x y picked pick))
      fun g _ => Typing.Mirrored (.renamed n m) (turn x y region.picked) (region.Asks x y e.free) g

def Body.Follows (body : Body) : Prop :=
  ∀ (region : Region) (picked held : Bool) (pick : Pick) (around : List String) (env env' : Env VarId)
    (f : Kind → VarId → VarId) (r r' : Run), (Sides.renamed n m).Renames f r.supply r'.supply →
    region.Ready x y picked body.free r env env' → region.SameHere x y held env env' →
    body.passes (.lacks y) around = true → body.separate x region pick held = true →
    Simulates (.renamed n m) f r r' (Infer.functionBody n env body)
      (Infer.functionBody m env' (body.rename x y picked pick))
      fun g _ => Typing.Mirrored (.renamed n m) (turn x y region.picked) (region.Asks x y body.free) g

/-- A statement goes on from a block and its counterpart to such blocks, and binds the same name if it binds one. -/
def Stmt.Follows (s : Stmt) : Prop :=
  ∀ (region : Region) (picked held : Bool) (pick : Pick) (around : List String) (kind : BlockKind) (K : String → Prop)
    (b b' : Block) (f : Kind → VarId → VarId) (r r' : Run), (Sides.renamed n m).Renames f r.supply r'.supply →
    b.Stays (.renamed n m) (turn x y region.picked) K f r b' → region.Sees x y picked s.free b.env b'.env →
    region.SameHere x y held b.env b'.env → (∀ k, region.Asks x y s.free k → K k) →
    s.passes (.lacks y) around = true → s.separate x region pick = true → (held && x ∈ Stmt.declared [s]) = false →
    Simulates (.renamed n m) f r r' (Infer.stmt n kind b s) (Infer.stmt m kind b' (s.rename x y picked pick))
      fun g r₁ b₁ b₁' => b₁.Stays (.renamed n m) (turn x y region.picked) K g r₁ b₁' ∧
        region.Binds x y s b.env b'.env b₁.env b₁'.env

variable {x y n m} {region : Region} {picked : Bool} {pick : Pick} {around names : List String} {r r' : Run}
  {env env' : Env VarId} {f : Kind → VarId → VarId}

theorem Region.Ready.later (h : region.Ready x y picked names r env env') {g : Kind → VarId → VarId} {r₁ : Run}
    (hl : Later f r.supply g r₁.supply) : region.Ready x y picked names r₁ env env' :=
  ⟨h.sees, Env.Over.imp (fun _ => growing_issued.mono hl.le) h.issued⟩

/-- An expression as a part of a construct that uses more names. -/
theorem Expr.Follows.part {e : Expr} (he : e.Follows x y n m) (hr : (Sides.renamed n m).Renames f r.supply r'.supply)
    (henv : region.Ready x y picked names r env env') (hsub : e.free ⊆ names)
    (hpass : e.passes (.lacks y) around = true) (hsep : e.separate x region pick = true) :
    Simulates (.renamed n m) f r r' (Infer.expr n env e) (Infer.expr m env' (e.rename x y picked pick))
      fun g r₁ => Typing.Stays (.renamed n m) (turn x y region.picked) (region.Asks x y names) g r₁ := by
  have hover : Ensures Supply.Issued r (Infer.expr n env e) (Typing.In Supply.Issued) :=
    ((over_cases growing_issued).allExpr e).1 henv.issued
  have hsim := he region picked pick around env env' f r r' hr ⟨henv.sees.mono hsub, henv.issued⟩ hpass hsep
  refine (hsim.ensures hover).imp ?_
  rintro g r₁ t t' r₁' hlater hr₁ ⟨ht, hover⟩
  exact ⟨ht.imp fun k hk => ⟨rfl, hk.mono hsub⟩, hover⟩

namespace Simulates

variable (hr : (Sides.renamed n m).Renames f r.supply r'.supply)

include hr

theorem exprs {es : List Expr} (hes : ∀ e ∈ es, e.Follows x y n m)
    (henv : region.Ready x y picked names r env env') (hsub : freeExprs es ⊆ names)
    (hpass : exprsPass (.lacks y) around es = true) (hsep : separateExprs x region pick es = true) :
    Simulates (.renamed n m) f r r' (Infer.exprs n env es) (Infer.exprs m env' (renameExprs x y picked pick es))
      fun g _ => Typing.AllMirrored (.renamed n m) (turn x y region.picked) (region.Asks x y names) g := by
  induction es generalizing f r r' pick with
  | nil =>
      rw [renameExprs, Infer.exprs, Infer.exprs]
      exact pure hr ⟨rfl, List.forall_mem_nil _⟩
  | cons e es ih =>
      obtain ⟨he, hes⟩ := List.forall_mem_cons.mp hes
      rw [exprsPass, Bool.and_eq_true] at hpass
      rw [separateExprs, Bool.and_eq_true] at hsep
      rw [renameExprs, Infer.exprs, Infer.exprs]
      refine bind (he.part hr henv (List.Subset.trans (List.subset_append_left ..) hsub) hpass.1 hsep.1) ?_
      intro g r₁ r₁' t t' hlater hr₁ ht
      refine bind (ih hr₁ hes (henv.later hlater) (List.Subset.trans (List.subset_append_right ..) hsub)
        hpass.2 hsep.2) ?_
      intro g₂ r₂ r₂' ts ts' hlater₂ hr₂ hts
      exact pure hr₂ (.cons (ht.later hlater₂).mirrored hts)

theorem propertyLabel (seen : Assoc Ident) (key : PropertyKey) :
    Simulates (.renamed n m) f r r' (Infer.propertyLabel seen key)
      (Infer.propertyLabel seen (key.rename x y picked pick)) fun g _ id id' => g = f ∧ id' = id := by
  have hcheck : ∀ id : Ident, Simulates (.renamed n m) f r r' (Infer.propertyLabel.check seen id)
      (Infer.propertyLabel.check seen id) fun g _ id id' => g = f ∧ id' = id := by
    intro id
    unfold Infer.propertyLabel.check
    split
    · exact fail hr ⟨rfl, rfl⟩
    · exact pure hr ⟨rfl, rfl⟩
  cases key with
  | ident id => exact hcheck id
  | literal value pos => exact hcheck _
  | computed key =>
      refine fail hr ?_
      rw [Expr.node_rename]
      rfl

theorem properties {ps : List Property} (hps : ∀ p ∈ ps, p.value.Follows x y n m)
    (henv : region.Ready x y picked names r env env') (hsub : freeProperties ps ⊆ names)
    (hpass : propertiesPass (.lacks y) around ps = true) (hsep : separateProperties x region pick ps = true)
    (seen : Assoc Ident) :
    Simulates (.renamed n m) f r r' (Infer.properties n env seen ps)
      (Infer.properties m env' seen (renameProperties x y picked pick ps)) fun g _ ts ts' =>
        ts' = Assoc.mapValues (Typing.relabel (turn x y region.picked) g fun n => n) ts ∧
          ∀ p ∈ ts, ∀ k ∈ Assoc.keys p.2.needs, region.Asks x y names k := by
  induction ps generalizing f r r' pick seen with
  | nil =>
      rw [renameProperties, Infer.properties, Infer.properties]
      exact pure hr ⟨rfl, List.forall_mem_nil _⟩
  | cons p ps ih =>
      obtain ⟨key, value, pos⟩ := p
      obtain ⟨hp, hps⟩ := List.forall_mem_cons.mp hps
      obtain ⟨hsub, hrest⟩ := List.append_subset.mp hsub
      rw [propertiesPass, Property.passes, Bool.and_eq_true, Bool.and_eq_true] at hpass
      rw [separateProperties, Bool.and_eq_true] at hsep
      rw [renameProperties, Infer.properties, Infer.properties]
      refine bind (propertyLabel hr seen key) ?_
      rintro g r₁ r₁' id id' hlater hr₁ ⟨rfl, rfl⟩
      refine bind (hp.part hr₁ (henv.later hlater) (List.append_subset.mp hsub).2 hpass.1.2 hsep.1) ?_
      intro g₂ r₂ r₂' t t' hlater₂ hr₂ ht
      refine bind (ih hr₂ hps (henv.later (hlater.trans hlater₂)) hrest hpass.2 hsep.2 _) ?_
      rintro g₃ r₃ r₃' ts ts' hlater₃ hr₃ ⟨rfl, hts⟩
      obtain ⟨rfl, hasks⟩ := (ht.later hlater₃).mirrored
      exact pure hr₃ ⟨rfl, List.forall_mem_cons.mpr ⟨hasks, hts⟩⟩

end Simulates

theorem Body.Follows.stays {held : Bool} {body : Body} (hbody : body.Follows x y n m)
    (hr : (Sides.renamed n m).Renames f r.supply r'.supply) (henv : region.Ready x y picked body.free r env env')
    (hhere : region.SameHere x y held env env') (hpass : body.passes (.lacks y) around = true)
    (hsep : body.separate x region pick held = true) :
    Simulates (.renamed n m) f r r' (Infer.functionBody n env body)
      (Infer.functionBody m env' (body.rename x y picked pick))
      fun g r₁ => Typing.Stays (.renamed n m) (turn x y region.picked) (region.Asks x y body.free) g r₁ := by
  have hover : Ensures Supply.Issued r (Infer.functionBody n env body) (Typing.In Supply.Issued) :=
    (over_cases growing_issued).allBody body henv.issued
  have hsim := hbody region picked held pick around env env' f r r' hr henv hhere hpass hsep
  exact (hsim.ensures hover).imp fun _ _ h => ⟨h.1, h.2⟩

/-- A function without a name. -/
theorem Body.Follows.arrow {body : Body} (hbody : body.Follows x y n m) {node : Node} {ps : List Pattern} :
    (Expr.arrow node ps body).Follows x y n m := by
  intro region picked pick around env env' f r r' hr henv hpass hsep
  obtain ⟨hps, hpass⟩ := Expr.passes_arrow hpass
  have hps : y ∉ Pattern.allLabels ps := of_decide_eq_true hps
  rw [Expr.separate, Bool.and_eq_true] at hsep
  obtain ⟨hadmits, hsep⟩ := hsep
  have hsees := henv.sees
  rw [Expr.free] at hsees ⊢
  rw [Expr.rename, Infer.expr, Infer.expr]
  refine .bind ((Simulates.bindArrow hr hps hsees hadmits).ensures (.bindParams growing_issued henv.issued.child)) ?_
  rintro g r₁ r₁' ⟨scope, params⟩ ⟨scope', params'⟩ hlater hr₁ ⟨⟨rfl, hopens, hkeys⟩, hscope, hparams⟩
  refine .bind (hbody.stays hr₁ ⟨hopens.sees, hscope⟩ hopens.here hpass hsep) ?_
  intro g₂ r₂ r₂' t t' hlater₂ hr₂ ht
  have hnames := Sides.names_turn n m x y (region.inside x pick [] (Pattern.allLabels ps)).picked
  have hrenamed := hopens.params.trans (Assoc.rename_later hparams hlater₂ _ fun n => n).symm
  refine (Simulates.absTyping hr₂ hnames hrenamed ht.mirrored).imp ?_
  intro g₃ r₃ u u' r₃' _ _ hu
  refine hu.imp ?_
  rintro k ⟨hk, hnot⟩
  rw [hkeys] at hnot
  simpa only [List.append_nil] using hk.of_inside (by rwa [List.append_nil])

/-- A function bound to a name. If the name is the old name of its parameters, it is hidden by them on one side only. -/
theorem Body.Follows.definition {body : Body} (hbody : body.Follows x y n m) (node : Node) {id : Ident}
    (hy : id.label ≠ y) {ps : List Pattern} (hps : y ∉ Pattern.allLabels ps)
    (hr : (Sides.renamed n m).Renames f r.supply r'.supply)
    (henv : region.Ready x y picked (body.free.filter (· ∉ Pattern.allLabels ps ++ [id.label])) r env env')
    (hpass : body.passes (.lacks y) around = true)
    (hadmits : region.admits (region.inside x pick [id.label] (Pattern.allLabels ps))
      (body.free.filter (· ∉ Pattern.allLabels ps ++ [id.label])) = true)
    (hsep : body.separate x (region.inside x pick [id.label] (Pattern.allLabels ps)) (pick.at 0)
      (pick [] && x ∈ Pattern.allLabels ps) = true) :
    Simulates (.renamed n m) f r r' (Infer.definition n env id node ps body)
      (Infer.definition m env' id node (ps.map (Pattern.rename x y (pick [])))
        (body.rename x y (pick.within x [id.label] (Pattern.allLabels ps) picked) (pick.at 0)))
      fun g _ => Typing.Mirrored (.renamed n m) (turn x y region.picked)
        (region.Asks x y (body.free.filter (· ∉ Pattern.allLabels ps ++ [id.label]))) g := by
  refine .bind ((Simulates.bindDef hr hy hps henv.sees hadmits).ensures (.bindDef growing_issued henv.issued)) ?_
  rintro g r₁ r₁' ⟨scope, params⟩ ⟨scope', params'⟩ hlater hr₁ ⟨⟨rfl, hopens, hkeys⟩, hscope, hparams⟩
  refine .bind (hbody.stays hr₁ ⟨hopens.sees, hscope⟩ hopens.here hpass hsep) ?_
  intro g₂ r₂ r₂' t t' hlater₂ hr₂ ht
  have hrenamed := hopens.params.trans (Assoc.rename_later hparams hlater₂ _ fun n => n).symm
  have hover : ∀ e ∈ params, e.2.Over r₂.supply.Issued :=
    fun e he => (hparams e he).imp fun _ => growing_issued.mono hlater₂.le
  have hkeys : Assoc.keys params = Pattern.allLabels ps := hkeys
  have hyparams : y ∉ Assoc.keys params := by rwa [hkeys]
  refine (Simulates.defTyping_turn hr₂ hy hyparams hrenamed ht (fun k hk => hk.1) hover ?_).imp ?_
  · intro hown
    rw [hkeys]
    by_contra hnot
    exact hown (turn_within_of_own hy hnot (List.mem_singleton_self _) region.picked)
  · intro g₃ r₃ u u' r₃' _ _ hu
    refine hu.imp ?_
    rintro k ⟨hk, hne, hnot⟩
    rw [hkeys] at hnot
    exact hk.of_inside (by simpa using And.intro hnot hne)

namespace Simulates

variable (hr : (Sides.renamed n m).Renames f r.supply r'.supply)

include hr

/-- A declaration, where the name stays the same. -/
theorem declare {s : Stmt} {id : Ident} (hbound : s.bound = [id.label]) {K : String → Prop} {b b' : Block}
    (hb : b.Stays (.renamed n m) (turn x y region.picked) K f r b')
    (hhere : Option.Rel (Bound.Alike (turn x y region.picked)) (b.env.here? id.label) (b'.env.here? id.label))
    (hK : ∀ k, region.Asks x y s.free k → K k) {typing typing' : Infer (Typing VarId)}
    (ht : Simulates (.renamed n m) f r r' typing typing'
      fun g _ => Typing.Mirrored (.renamed n m) (turn x y region.picked) (region.Asks x y s.free) g)
    (hover : Ensures Supply.Issued r typing (Typing.In Supply.Issued)) :
    Simulates (.renamed n m) f r r' (Infer.declare b id typing) (Infer.declare b' id typing') fun g r₁ b₁ b₁' =>
      b₁.Stays (.renamed n m) (turn x y region.picked) K g r₁ b₁' ∧
        region.Binds x y s b.env b'.env b₁.env b₁'.env := by
  have hinfer : b'.env.shouldInfer id.label = b.env.shouldInfer id.label := by
    unfold Env.shouldInfer
    generalize b.env.here? id.label = o, b'.env.here? id.label = o' at hhere
    cases hhere with
    | none => rfl
    | some h => exact congrArg not h.assumed
  unfold Infer.declare
  rw [hinfer]
  split
  · refine bind (ht.ensures hover) ?_
    rintro g r₁ r₁' t t' hlater hr₁ ⟨ht, hover⟩
    refine bind (assign hr₁ id id rfl hhere t t') ?_
    rintro g r₂ r₂' env env' hlater₂ hr₂ ⟨rfl, rfl, rfl⟩
    have ht₁ : t.Stays (.renamed n m) (turn x y region.picked) K g r₁ t' := ⟨ht.imp fun k hk => ⟨rfl, hK k hk⟩, hover⟩
    have ht₂ := ht₁.later hlater₂
    have hb₂ := hb.later (hlater.trans hlater₂)
    refine pure hr₂ ⟨(hb₂.push ht₂).withEnv (hb₂.issued.env.insert ht₂.issued) _, .name hbound rfl ?_ ht.asks⟩
    exact ⟨rfl, rfl, ⟨g, hr₂.injective, ht.eq⟩, nofun⟩
  · rename_i hassumed
    refine pure hr ⟨hb, .nothing ?_⟩
    rw [hbound]
    refine List.forall_mem_singleton.mpr ?_
    unfold Env.shouldInfer at hassumed
    generalize b.env.here? id.label = o, b'.env.here? id.label = o' at hhere hassumed
    cases hhere with
    | none => exact absurd rfl hassumed
    | @some c c' h =>
        refine ⟨c, c', rfl, rfl, h, h.stated ?_⟩
        simpa using hassumed

/-- An assumption. Nothing in it is renamed. -/
theorem assumption (φ : String → String) (quasi : Template) :
    Simulates (.renamed n m) f r r' (Infer.assumption quasi) (Infer.assumption (quasi.rename x y picked pick))
      fun g _ p p' => g = f ∧ quasi.assumed = [p.1.label] ∧ p.2.needs = [] ∧
        p' = (p.1, p.2.relabel φ f fun n => n) := by
  obtain ⟨texts, es, pos⟩ := quasi
  rw [Template.rename]
  obtain ⟨text, _, _, t, rfl, rfl, hsplit, -, h⟩ | ⟨message, h⟩ := Infer.assumption_cases texts es
  · rw [renameExprs, h]
    have hid : (Typing.closed t).relabel φ (fun _ v => v) (fun n => n) = Typing.closed t :=
      congrArg Typing.closed t.relabel_id
    have hcopy := instantiate hr (fun _ _ _ => id) φ (Typing.closed t)
    rw [show (Typing.closed t).relabel φ (fun _ v => v) (Sides.renamed n m).node = _ from hid] at hcopy
    refine bind hcopy ?_
    rintro g r₁ r₁' u u' _ hr₁ ⟨rfl, rfl, hkeys⟩
    refine pure hr₁ ⟨rfl, ?_, List.map_eq_nil_iff.mp hkeys, rfl⟩
    rw [Template.assumed, hsplit]
    rfl
  · rw [h es pos .rfl, h _ pos (by cases es <;> simp [renameExprs])]
    exact fail hr ⟨rfl, rfl⟩

/-- Statements, in a scope that may hold a parameter of a picked function. -/
theorem stmts {ss : List Stmt} (hss : ∀ s ∈ ss, s.Follows x y n m) {held : Bool} {kind : BlockKind}
    {K : String → Prop} {b b' : Block} (hb : b.Stays (.renamed n m) (turn x y region.picked) K f r b')
    (hsees : region.Sees x y picked (freeStmts ss) b.env b'.env) (hhere : region.SameHere x y held b.env b'.env)
    (hK : ∀ k, region.Asks x y (freeStmts ss) k → K k) (hpass : stmtsPass (.lacks y) around ss = true)
    (hsep : separateStmts x region pick held ss = true) :
    Simulates (.renamed n m) f r r' (Infer.stmts n kind b ss) (Infer.stmts m kind b' (renameStmts x y picked pick ss))
      fun g r₁ => Block.Stays (.renamed n m) (turn x y region.picked) K g r₁ := by
  induction ss generalizing region picked pick held b b' f r r' with
  | nil =>
      rw [renameStmts, Infer.stmts_nil, Infer.stmts_nil]
      exact pure hr hb
  | cons s ss ih =>
      obtain ⟨hs, hss⟩ := List.forall_mem_cons.mp hss
      rw [freeStmts] at hsees hK
      rw [stmtsPass, Bool.and_eq_true] at hpass
      simp only [separateStmts, Bool.and_eq_true, Bool.not_eq_true'] at hsep
      obtain ⟨⟨hsep, hheld⟩, hseps⟩ := hsep
      have hbound : y ∉ s.bound := Stmt.not_mem_bound_of_passes hpass.1
      rw [renameStmts, Infer.stmts_cons, Infer.stmts_cons]
      refine bind (hs region picked held (pick.at 0) around kind K b b' f r r' hr hb (hsees.mono ?_) hhere ?_
        hpass.1 hsep hheld) ?_
      · exact List.subset_append_left _ _
      · exact fun k hk => hK k (hk.mono (List.subset_append_left _ _))
      · rintro g r₁ r₁' b₁ b₁' hlater hr₁ ⟨hb₁, hbinds⟩
        rw [hb₁.returned_isSome]
        split
        · exact pure hr₁ hb₁
        · have hb₁ : b₁.Stays (.renamed n m) (turn x y (region.after s).picked) K g r₁ b₁' := hb₁
          have hrest := hsees.mono (List.subset_append_right s.free _)
          have hsim := ih hr₁ hss hb₁ (hrest.after hbound hbinds) (hhere.after hbound hbinds)
            (fun k hk => hK k hk.of_after) hpass.2 hseps
          exact hsim

end Simulates

/-! Expressions. -/

namespace Expr.Follows

variable {node : Node}

theorem literal {value : Literal} : (Expr.literal node value).Follows x y n m := by
  intro region picked pick around env env' f r r' hr henv hpass hsep
  rw [Expr.rename, Infer.expr, Infer.expr]
  refine .pure hr ⟨?_, List.forall_mem_nil _⟩
  exact congrArg Typing.closed (Ty.relabel_leaf f (fun n => n) value.leaf (some node)).symm

theorem ident {id : Ident} : (Expr.ident node id).Follows x y n m := by
  intro region picked pick around env env' f r r' hr henv hpass hsep
  rw [Expr.passes, Bool.and_eq_true] at hpass
  have hy : id.label ≠ y := of_decide_eq_true hpass.1
  rw [Expr.rename, Infer.expr, Infer.expr]
  exact .use hr hy henv.sees

theorem array {es : List Expr} (hes : ∀ e ∈ es, e.Follows x y n m) : (Expr.array node es).Follows x y n m := by
  intro region picked pick around env env' f r r' hr henv hpass hsep
  rw [Expr.passes, Bool.and_eq_true] at hpass
  rw [Expr.rename, Infer.expr, Infer.expr]
  refine .bind (.exprs hr hes henv (List.Subset.refl _) hpass.2 hsep) ?_
  intro g r₁ r₁' ts ts' _ hr₁ hts
  exact .arrayTyping hr₁ (Sides.names_turn ..) hts

theorem object {ps : List Property} (hps : ∀ p ∈ ps, p.value.Follows x y n m) :
    (Expr.object node ps).Follows x y n m := by
  intro region picked pick around env env' f r r' hr henv hpass hsep
  rw [Expr.passes, Bool.and_eq_true] at hpass
  rw [Expr.rename, Infer.expr, Infer.expr]
  refine .bind (.properties hr hps henv (List.Subset.refl _) hpass.2 hsep []) ?_
  rintro g r₁ r₁' ts ts' _ hr₁ ⟨heq, hasks⟩
  exact .objectTyping hr₁ (Sides.names_turn ..) heq hasks

theorem member {e : Expr} {label : Ident} (he : e.Follows x y n m) : (Expr.member node e label).Follows x y n m := by
  intro region picked pick around env env' f r r' hr henv hpass hsep
  rw [Expr.passes, Bool.and_eq_true] at hpass
  rw [Expr.rename, Infer.expr, Infer.expr]
  refine .bind (he.part hr henv (List.Subset.refl _) hpass.2 hsep) ?_
  intro g r₁ r₁' t t' _ hr₁ ht
  exact .memberTyping hr₁ (Sides.names_turn ..) ht.mirrored

theorem binary {op : BinaryOp} {a b : Expr} (ha : a.Follows x y n m) (hb : b.Follows x y n m) :
    (Expr.binary node op a b).Follows x y n m := by
  intro region picked pick around env env' f r r' hr henv hpass hsep
  rw [Expr.passes, Bool.and_eq_true, Bool.and_eq_true] at hpass
  rw [Expr.separate, Bool.and_eq_true] at hsep
  rw [Expr.rename, Infer.expr, Infer.expr, Expr.node_rename, Expr.node_rename]
  refine .bind (ha.part hr henv (List.subset_append_left _ _) hpass.2.1 hsep.1) ?_
  intro g r₁ r₁' t t' hlater hr₁ ht
  refine .bind (hb.part hr₁ (henv.later hlater) (List.subset_append_right _ _) hpass.2.2 hsep.2) ?_
  intro g₂ r₂ r₂' u u' hlater₂ hr₂ hu
  exact .binaryTyping hr₂ (Sides.names_turn ..) (ht.later hlater₂).mirrored hu.mirrored

theorem conditional {t a b : Expr} (ht : t.Follows x y n m) (ha : a.Follows x y n m) (hb : b.Follows x y n m) :
    (Expr.conditional node t a b).Follows x y n m := by
  intro region picked pick around env env' f r r' hr henv hpass hsep
  simp only [Expr.passes, Bool.and_eq_true] at hpass
  simp only [Expr.separate, Bool.and_eq_true] at hsep
  obtain ⟨-, ⟨hpt, hpa⟩, hpb⟩ := hpass
  obtain ⟨⟨hst, hsa⟩, hsb⟩ := hsep
  have htest : t.free ⊆ (Expr.conditional node t a b).free := by
    rw [Expr.free, List.append_assoc]
    exact List.subset_append_left _ _
  have hyes : a.free ⊆ (Expr.conditional node t a b).free := by
    rw [Expr.free]
    exact List.Subset.trans (List.subset_append_right _ _) (List.subset_append_left _ _)
  have hno : b.free ⊆ (Expr.conditional node t a b).free := by
    rw [Expr.free]
    exact List.subset_append_right _ _
  rw [Expr.rename, Infer.expr, Infer.expr, Expr.node_rename]
  refine .bind (ht.part hr henv htest hpt hst) ?_
  intro g r₁ r₁' t t' hlater hr₁ ht
  refine .bind (ha.part hr₁ (henv.later hlater) hyes hpa hsa) ?_
  intro g₂ r₂ r₂' u u' hlater₂ hr₂ hu
  refine .bind (hb.part hr₂ (henv.later (hlater.trans hlater₂)) hno hpb hsb) ?_
  intro g₃ r₃ r₃' v v' hlater₃ hr₃ hv
  exact .conditionalTyping hr₃ (Sides.names_turn ..) (ht.later (hlater₂.trans hlater₃)).mirrored
    (hu.later hlater₃).mirrored hv.mirrored

theorem call {e : Expr} {es : List Expr} (he : e.Follows x y n m) (hes : ∀ e ∈ es, e.Follows x y n m) :
    (Expr.call node e es).Follows x y n m := by
  intro region picked pick around env env' f r r' hr henv hpass hsep
  rw [Expr.passes, Bool.and_eq_true, Bool.and_eq_true] at hpass
  rw [Expr.separate, Bool.and_eq_true] at hsep
  rw [Expr.rename, Infer.expr, Infer.expr, Expr.node_rename]
  refine .bind (he.part hr henv (List.subset_append_left _ _) hpass.2.1 hsep.1) ?_
  intro g r₁ r₁' t t' hlater hr₁ ht
  refine .bind (.exprs hr₁ hes (henv.later hlater) (List.subset_append_right _ _) hpass.2.2 hsep.2) ?_
  intro g₂ r₂ r₂' ts ts' hlater₂ hr₂ hts
  exact .callTyping hr₂ (Sides.names_turn ..) (ht.later hlater₂).mirrored hts

theorem template {texts : List String} {es : List Expr} {pos : Position} (hes : ∀ e ∈ es, e.Follows x y n m) :
    (Expr.template node (.mk texts es pos)).Follows x y n m := by
  intro region picked pick around env env' f r r' hr henv hpass hsep
  rw [Expr.passes, Template.passes, Bool.and_eq_true] at hpass
  rw [Expr.rename, Template.rename, Infer.expr, Infer.expr]
  refine .bind (.exprs hr hes henv (List.Subset.refl _) hpass.2 hsep) ?_
  intro g r₁ r₁' ts ts' _ hr₁ hts
  exact .templateTyping hr₁ (Sides.names_turn ..) hts

theorem refused {e : Expr} (he : e.Refused) : e.Follows x y n m := by
  intro region picked pick around env env' f r r' hr henv hpass hsep
  cases he with
  | index node | unary node | tagged node | assign node =>
      rw [Expr.rename, Infer.expr, Infer.expr]
      exact .unsupported hr _ node.pos

end Expr.Follows

theorem Body.Follows.expr {e : Expr} (he : e.Follows x y n m) : (Body.expr e).Follows x y n m := by
  intro region picked held pick around env env' f r r' hr henv hhere hpass hsep
  rw [Body.rename, Infer.functionBody, Infer.functionBody]
  exact he region picked pick around env env' f r r' hr henv hpass hsep

theorem Body.Follows.block {ss : List Stmt} {pos : Position} (hss : ∀ s ∈ ss, s.Follows x y n m) :
    (Body.block ss pos).Follows x y n m := by
  intro region picked held pick around env env' f r r' hr henv hhere hpass hsep
  rw [Body.rename, Infer.functionBody_block, Infer.functionBody_block]
  have hb : Block.Stays (.renamed n m) (turn x y region.picked) (region.Asks x y (freeStmts ss)) f r
      ⟨env, [], none⟩ ⟨env', [], none⟩ :=
    ⟨⟨rfl, List.forall_mem_nil _⟩, ⟨rfl, List.forall_mem_nil _⟩, henv.issued, List.forall_mem_nil _, by simp⟩
  refine .bind (.stmts hr hss hb henv.sees hhere (fun k hk => hk) hpass hsep) ?_
  intro g r₁ r₁' b b' _ hr₁ hb
  exact .blockTyping hr₁ (Sides.names_turn ..) hb.typings hb.returned

/-! Statements. -/

/-- A statement that is refused is refused for the same reason. -/
theorem Stmt.Refused.rename {s : Stmt} {description : String} {pos : Position} (h : s.Refused description pos)
    (picked : Bool) (pick : Pick) : (s.rename x y picked pick).Refused description pos := by
  cases h with
  | otherDecl node hkind ds =>
      rw [Stmt.rename]
      exact .otherDecl node hkind _
  | uninitialized node id pos =>
      rw [Stmt.rename, renameDeclarators, renameDeclarators, Declarator.rename, renameOption]
      · exact .uninitialized node id pos
      · simp
  | @destructuring node p hp e pos =>
      obtain ⟨e', he'⟩ := Declarator.rename_pattern x y picked (pick.at 0) p e pos
      rw [Stmt.rename, renameDeclarators, renameDeclarators, he']
      exact .destructuring node hp e' pos
  | declarators node hds =>
      rw [Stmt.rename]
      exact .declarators node (by rwa [length_renameDeclarators])
  | cond node test yes no =>
      rw [Stmt.rename]
      exact .cond node _ _ _
  | loop node test body =>
      rw [Stmt.rename]
      exact .loop node _ _

theorem Expr.untagged_rename (e : Expr) (h : ∀ n tag quasi, e ≠ .tagged n tag quasi) :
    ∀ n tag quasi, e.rename x y picked pick ≠ .tagged n tag quasi := by
  cases e with
  | tagged n tag quasi => exact (h n tag quasi rfl).elim
  | _ => simp [Expr.rename]

theorem Expr.isMarker_eq_false {tag : Expr} (h : ∀ n id, tag = .ident n id → id.label ≠ assumeTag) :
    tag.isMarker = false := by
  cases tag with
  | ident n id => exact decide_eq_false (h n id rfl)
  | _ => rfl

/-- No name becomes the tag of assumptions. -/
theorem Expr.unmarked_rename (hassume : y ≠ assumeTag) (tag : Expr)
    (h : ∀ n id, tag = .ident n id → id.label ≠ assumeTag) :
    ∀ n id, tag.rename x y picked pick = .ident n id → id.label ≠ assumeTag := by
  cases tag with
  | ident n id =>
      rw [Expr.rename]
      rintro _ _ ⟨⟩
      rw [Ident.rename]
      split
      · exact hassume
      · exact h n id rfl
  | _ => simp [Expr.rename]

namespace Stmt.Follows

variable {node : Node}

theorem letFunction {id : Ident} {fnode : Node} {ps : List Pattern} {body : Body} {pos : Position}
    (hbody : body.Follows x y n m) :
    (Stmt.decl node .letDecl [.mk (.ident id) (some (.arrow fnode ps body)) pos]).Follows x y n m := by
  intro region picked held pick around kind K b b' f r r' hr hb hsees hhere hK hpass hsep hheld
  obtain ⟨hbound, hps, hpass⟩ := Stmt.passes_letFunction hpass
  have hy : id.label ≠ y := fun h => of_decide_eq_true hbound (List.mem_singleton.mpr h.symm)
  obtain ⟨hadmits, hsep⟩ := Stmt.separate_letFunction hsep
  have henv : region.Ready x y picked _ r b.env b'.env := ⟨hsees, hb.issued.env⟩
  rw [Stmt.free_letFunction] at henv
  rw [Stmt.rename_letFunction, Infer.stmt_letFunction, Infer.stmt_letFunction]
  refine .declare hr Stmt.bound_let hb (hhere.declared hy hheld) hK ?_ ?_
  · rw [Stmt.free_letFunction]
    exact hbody.definition fnode hy (of_decide_eq_true hps) hr henv hpass hadmits hsep
  · exact .definition growing_issued ((over_cases growing_issued).allBody body) hb.issued.env

theorem letValue {id : Ident} {e : Expr} {pos : Position} (hna : e.isArrow = false) (he : e.Follows x y n m) :
    (Stmt.decl node .letDecl [.mk (.ident id) (some e) pos]).Follows x y n m := by
  intro region picked held pick around kind K b b' f r r' hr hb hsees hhere hK hpass hsep hheld
  have hbound := Stmt.not_mem_bound_of_passes hpass
  have hy : id.label ≠ y := fun h => hbound (List.mem_singleton.mpr h.symm)
  have hpass := Stmt.passes_letValue hna hpass
  have hsep := Stmt.separate_letValue hna hsep
  rw [Stmt.rename_letValue hna, Infer.stmt_letValue _ _ _ _ _ hna,
    Infer.stmt_letValue _ _ _ _ _ ((Expr.isArrow_rename e).trans hna)]
  refine .declare hr Stmt.bound_let hb (hhere.declared hy hheld) hK ?_ ?_
  · rw [Stmt.free_letValue hna] at hsees ⊢
    exact he region picked (pick.at 0) around b.env b'.env f r r' hr ⟨hsees, hb.issued.env⟩ hpass hsep
  · exact ((over_cases growing_issued).allExpr e).1 hb.issued.env

/-- An assumption stands for itself. -/
theorem assume {n₁ n₂ : Node} {tag : Ident} (htag : tag.label = assumeTag) {quasi : Template} :
    (Stmt.expr node (.tagged n₁ (.ident n₂ tag) quasi)).Follows x y n m := by
  intro region picked held pick around kind K b b' f r r' hr hb hsees hhere hK hpass hsep hheld
  have hmarker : (Expr.ident n₂ tag).isMarker = true := decide_eq_true htag
  rw [Stmt.rename, Expr.rename, if_pos hmarker, Infer.stmt_assume _ _ _ _ _ _ htag,
    Infer.stmt_assume _ _ _ _ _ _ htag]
  have hover : Ensures Supply.Issued r (Infer.assumption quasi) fun r₁ p => p.2.In Supply.Issued r₁ :=
    .assumption growing_issued quasi
  refine .bind ((Simulates.assumption hr (turn x y region.picked) quasi).ensures hover) ?_
  rintro g r₁ r₁' ⟨id, t⟩ _ hlater hr₁ ⟨⟨rfl, hassumed, hneeds, rfl⟩, ht⟩
  have hneeds : t.needs = [] := hneeds
  have hb₁ := hb.later hlater
  refine .pure hr₁ ⟨hb₁.withEnv (hb₁.issued.env.insert ht) _, .name (l := id.label) ?_ rfl ?_ ?_⟩
  · rw [Stmt.bound, if_pos hmarker, hassumed]
  · exact ⟨rfl, rfl, ⟨g, hr₁.injective, rfl⟩, fun _ => hneeds⟩
  · rw [hneeds]
    exact List.forall_mem_nil _

theorem tagged (hassume : y ≠ assumeTag) {n₁ : Node} {tag : Expr}
    (htag : ∀ n id, tag = .ident n id → id.label ≠ assumeTag) {quasi : Template} :
    (Stmt.expr node (.tagged n₁ tag quasi)).Follows x y n m := by
  intro region picked held pick around kind K b b' f r r' hr hb hsees hhere hK hpass hsep hheld
  have hmarker := Expr.isMarker_eq_false htag
  rw [Stmt.rename, Expr.rename, if_neg (by simp [hmarker]), Infer.stmt_tagged _ _ _ _ _ htag,
    Infer.stmt_tagged _ _ _ _ _ (tag.unmarked_rename hassume htag)]
  exact .unsupported hr _ n₁.pos

theorem value {e : Expr} (hplain : ∀ n tag quasi, e ≠ .tagged n tag quasi) (he : e.Follows x y n m) :
    (Stmt.expr node e).Follows x y n m := by
  intro region picked held pick around kind K b b' f r r' hr hb hsees hhere hK hpass hsep hheld
  rw [Stmt.passes.eq_def, Bool.and_eq_true] at hpass
  rw [Stmt.rename, Infer.stmt_expr _ _ _ _ hplain, Infer.stmt_expr _ _ _ _ (e.untagged_rename hplain)]
  refine .bind (he.part hr ⟨hsees, hb.issued.env⟩ (List.Subset.refl _) hpass.2 hsep) ?_
  intro g r₁ r₁' t t' hlater hr₁ ht
  refine .pure hr₁ ⟨(hb.later hlater).push ⟨ht.mirrored.imp fun k hk => ⟨rfl, hK k hk⟩, ht.issued⟩, .nothing ?_⟩
  rw [Stmt.bound_expr hplain]
  exact List.forall_mem_nil _

theorem expr (hassume : y ≠ assumeTag) {e : Expr} (he : e.Follows x y n m) : (Stmt.expr node e).Follows x y n m := by
  obtain ⟨n₁, n₂, tag, quasi, rfl, htag⟩ | ⟨n₁, tag, quasi, rfl, htag⟩ | hplain := e.tagged_cases
  · exact assume htag
  · exact tagged hassume htag
  · exact value hplain he

theorem ret {e : Expr} (he : e.Follows x y n m) : (Stmt.ret node (some e)).Follows x y n m := by
  intro region picked held pick around kind K b b' f r r' hr hb hsees hhere hK hpass hsep hheld
  rw [Stmt.rename, renameOption]
  cases kind with
  | top =>
      rw [Infer.stmt_ret_top, Infer.stmt_ret_top]
      exact .unsupported hr _ node.pos
  | function =>
      rw [Stmt.passes.eq_def, Bool.and_eq_true] at hpass
      rw [Infer.stmt_ret, Infer.stmt_ret]
      refine .bind (he.part hr ⟨hsees, hb.issued.env⟩ (List.Subset.refl _) hpass.2 hsep) ?_
      intro g r₁ r₁' t t' hlater hr₁ ht
      refine .pure hr₁ ⟨(hb.later hlater).give ⟨ht.mirrored.imp fun k hk => ⟨rfl, hK k hk⟩, ht.issued⟩, .nothing ?_⟩
      exact List.forall_mem_nil _

theorem retNothing : (Stmt.ret node none).Follows x y n m := by
  intro region picked held pick around kind K b b' f r r' hr hb hsees hhere hK hpass hsep hheld
  rw [Stmt.rename, renameOption]
  cases kind with
  | top =>
      rw [Infer.stmt_ret_top, Infer.stmt_ret_top]
      exact .unsupported hr _ node.pos
  | function =>
      rw [Infer.stmt_retNothing, Infer.stmt_retNothing]
      refine .pure hr ⟨hb.give ⟨⟨?_, List.forall_mem_nil _⟩, Typing.over_closed (Ty.over_leaf _ _)⟩, .nothing ?_⟩
      · exact congrArg Typing.closed (Ty.relabel_leaf f (fun n => n) .undefined (some node)).symm
      · exact List.forall_mem_nil _

theorem block {ss : List Stmt} (hss : ∀ s ∈ ss, s.Follows x y n m) : (Stmt.block node ss).Follows x y n m := by
  intro region picked held pick around kind K b b' f r r' hr hb hsees hhere hK hpass hsep hheld
  rw [Stmt.passes.eq_def, Bool.and_eq_true] at hpass
  rw [Stmt.rename, Infer.stmt_block, Infer.stmt_block]
  refine .bind (.stmts hr hss (hb.withEnv hb.issued.env.child b'.env.child) hsees
    (Region.SameHere.child region false b.env b'.env) hK hpass.2 hsep) ?_
  intro g r₁ r₁' inner inner' hlater hr₁ hinner
  refine .pure hr₁ ⟨hinner.withEnv (hb.later hlater).issued.env b'.env, .nothing ?_⟩
  exact List.forall_mem_nil _

theorem refused {s : Stmt} {description : String} {pos : Position} (hs : s.Refused description pos) :
    s.Follows x y n m := by
  intro region picked held pick around kind K b b' f r r' hr hb hsees hhere hK hpass hsep hheld
  rw [Infer.stmt_refused _ _ _ hs, Infer.stmt_refused _ _ _ (hs.rename picked pick)]
  exact .unsupported hr description pos

end Stmt.Follows

theorem follows_cases (hassume : y ≠ assumeTag) :
    SyntaxCases (Expr.Follows x y n m) (Body.Follows x y n m) (Stmt.Follows x y n m) where
  literal _ _ := .literal
  ident _ _ := .ident
  array _ _ := .array
  object _ _ := .object
  member _ _ _ := .member
  binary _ _ _ _ := .binary
  conditional _ _ _ _ := .conditional
  arrow _ _ _ hbody := hbody.arrow
  call _ _ _ := .call
  template _ _ _ _ := .template
  refused _ := .refused
  exprBody _ := .expr
  blockBody _ _ := .block
  letFunction _ _ _ _ _ _ := .letFunction
  letValue _ _ _ _ := .letValue
  expr _ _ := .expr hassume
  ret _ _ := .ret
  retNothing _ := .retNothing
  block _ _ := .block
  refusedStmt _ _ _ := .refused

end Syntax

/-! Scripts. -/

/-- The same names in the same order, with the same typings up to variables. -/
def Env.SameNames (env env' : Env VarId) : Prop :=
  List.Forall₂ (fun e e' => e'.1 = e.1 ∧ e'.2.id = e.2.id ∧ ∃ h : Kind → VarId → VarId,
    (∀ k, Function.Injective (h k)) ∧ e'.2.typing = e.2.typing.relabel id h fun n => n) env.current env'.current

theorem Env.SameNames.insert {env env' : Env VarId} (h : env.SameNames env') (l : String) {b b' : Bound VarId}
    (hid : b'.id = b.id) (hb : ∃ h : Kind → VarId → VarId, (∀ k, Function.Injective (h k)) ∧
      b'.typing = b.typing.relabel id h fun n => n) : Env.SameNames (env.insert l b) (env'.insert l b') := by
  obtain ⟨current, outer⟩ := env
  obtain ⟨current', outer'⟩ := env'
  unfold SameNames at h ⊢
  simp only [Scope.insert] at h ⊢
  induction h with
  | nil => exact .cons ⟨rfl, hid, hb⟩ .nil
  | @cons e e' es es' he hes ih =>
      obtain ⟨k, c⟩ := e
      obtain ⟨k', c'⟩ := e'
      obtain ⟨rfl, hc⟩ := he
      simp only [Assoc.insert]
      split
      · exact .cons ⟨rfl, hid, hb⟩ hes
      · exact .cons ⟨rfl, hc⟩ ih

theorem Region.Binds.sameNames {x y : String} {region : Region} (hregion : region.picked = false) {s : Stmt}
    {env env' env₁ env₁' : Env VarId} (hb : region.Binds x y s env env' env₁ env₁') (h : env.SameNames env') :
    env₁.SameNames env₁' := by
  cases hb with
  | nothing => exact h
  | @name l b b' _ hid halike _ =>
      have htyping := halike.typing
      rw [hregion] at htyping
      exact h.insert l hid htyping

/-- The statements of a script and of the renamed one. At the top level, no name belongs to a parameter. -/
theorem Infer.script_follows {x y : String} (hassume : y ≠ assumeTag) {n m : Nat} {ss : List Stmt} {region : Region}
    (hregion : region.picked = false) {pick : Pick} {around : List String} {b b' b₁ b₁' : Block}
    {f : Kind → VarId → VarId} {r r' r₁ r₁' : Run} (hr : (Sides.renamed n m).Renames f r.supply r'.supply)
    (hb : b.Stays (.renamed n m) (turn x y region.picked) (fun _ => True) f r b')
    (hsees : region.Sees x y false (freeStmts ss) b.env b'.env) (hhere : region.SameHere x y false b.env b'.env)
    (hnames : b.env.SameNames b'.env) (hpass : stmtsPass (.lacks y) around ss = true)
    (hsep : separateStmts x region pick false ss = true) {error error' : Option (Failure VarId)}
    (h : script n b ss r = ((b₁, error), r₁))
    (h' : script m b' (renameStmts x y false pick ss) r' = ((b₁', error'), r₁'))
    (hfin : n < m → error ≠ some .unfinished) (hfin' : ¬ n < m → error' ≠ some .unfinished) :
    b₁.env.SameNames b₁'.env ∧ ∃ g : Kind → VarId → VarId, (∀ k, Function.Injective (g k)) ∧
      Option.Rel (Failure.Alike (.renamed n m) g) error error' := by
  induction ss generalizing region pick b b' f r r' with
  | nil =>
      cases h
      rw [renameStmts] at h'
      cases h'
      exact ⟨hnames, f, hr.injective, .none⟩
  | cons s ss ih =>
      rw [stmtsPass, Bool.and_eq_true] at hpass
      simp only [separateStmts, Bool.and_eq_true, Bool.not_eq_true'] at hsep
      obtain ⟨⟨hsep, hheld⟩, hseps⟩ := hsep
      have hbound : y ∉ s.bound := Stmt.not_mem_bound_of_passes hpass.1
      rw [renameStmts] at h'
      have hmirror := (follows_cases hassume).allStmt s region false false (pick.at 0) around .top (fun _ => True) b b'
        f r r' hr hb (hsees.mono (List.subset_append_left _ _)) hhere (fun _ _ => trivial) hpass.1 hsep hheld
        (fun hf => .of_script h (hfin (of_decide_eq_true hf)))
        fun hf => .of_script h' (hfin' (of_decide_eq_false hf))
      rw [script_cons] at h h'
      generalize ho : (stmt n .top b s).outcome r = o at hmirror h
      generalize ho' : (stmt m .top b' (s.rename x y false (pick.at 0))).outcome r' = o' at hmirror h'
      cases hmirror with
      | @ok g c c' r₂ r₂' hlater hr₂ hc =>
          obtain ⟨hc, hbinds⟩ := hc
          have hrest := hsees.mono (List.subset_append_right s.free _)
          have hafter : (region.after s).picked = false := hregion
          exact ih hafter hr₂ hc (hrest.after hbound hbinds) (hhere.after hbound hbinds)
            (hbinds.sameNames hregion hnames) hpass.2 hseps h h'
      | error r₂ r₂' hg _ he =>
          cases h
          cases h'
          rw [env_left ho, env_left ho']
          exact ⟨hnames, _, hg, .some he⟩

/-- The answers to a script and to a renamed one: the same names with the same types up to variables, and errors of the
same kind at the same nodes if there are any. -/
inductive SameAnswer (c : Sides) : Except Refusal Inferred → Except Refusal Inferred → Prop
  | done {env env' : Env VarId} : env.SameNames env' → SameAnswer c (.ok ⟨env, none⟩) (.ok ⟨env', none⟩)
  | typeError {env env' : Env VarId} {g : Kind → VarId → VarId} {e e' : TypeError VarId} : env.SameNames env' →
      (∀ k, Function.Injective (g k)) → e.Alike c g e' → SameAnswer c (.ok ⟨env, some e⟩) (.ok ⟨env', some e'⟩)
  | scopeError {g : Kind → VarId → VarId} {e e' : ScopeError VarId} : (∀ k, Function.Injective (g k)) →
      e.Alike c g e' → SameAnswer c (.error (.scope e)) (.error (.scope e'))

/-- Of the two runs, only the one with the lower limit has to come to an end. -/
theorem Script.sameAnswer_rename {x y : String} (hassume : y ≠ assumeTag) {pick : Pick} {s : Script}
    (hlacks : s.passes (.lacks y) = true) (hsep : s.separate x pick = true) {n m : Nat}
    (hn : n < m → s.infer n ≠ .error .unfinished) (hm : ¬ n < m → (s.rename x y pick).infer m ≠ .error .unfinished) :
    SameAnswer (.renamed n m) (s.infer n) ((s.rename x y pick).infer m) := by
  obtain ⟨b, error, r, h, hinfer⟩ := s.infer_cases n
  obtain ⟨b', error', r', h', hinfer'⟩ := (s.rename x y pick).infer_cases m
  rw [hinfer] at hn ⊢
  rw [hinfer'] at hm ⊢
  have hr : (Sides.renamed n m).Renames (fun _ v => v) Run.initial.supply Run.initial.supply :=
    ⟨⟨fun _ => Function.injective_id, fun _ => rfl, fun _ => rfl⟩, fun _ => rfl⟩
  have hfin : n < m → error ≠ some .unfinished := fun hlt he => hn hlt (by rw [he])
  have hfin' : ¬ n < m → error' ≠ some .unfinished := fun hlt he => hm hlt (by rw [he])
  have hstart : Block.Stays (.renamed n m) (turn x y false) (fun _ => True) (fun _ v => v) .initial
      ⟨.empty, [], none⟩ ⟨.empty, [], none⟩ := ⟨⟨rfl, nofun⟩, ⟨rfl, nofun⟩, Block.over_empty⟩
  have hregion : (Region.mk false []).picked = false := rfl
  rw [run_eq] at h h'
  obtain ⟨hnames, g, hg, herror⟩ := Infer.script_follows hassume hregion hr hstart (fun _ _ _ => .none)
    (fun _ _ => .none) .nil hlacks hsep h h' hfin hfin'
  cases herror with
  | none => exact .done hnames
  | @some e e' he =>
      cases e with
      | type e =>
          cases e' with
          | type e' => exact .typeError hnames hg he
          | _ => exact he.elim
      | scope e =>
          cases e' with
          | scope e' => exact .scopeError hg he
          | _ => exact he.elim
      | unfinished => exact he.elim

theorem SameAnswer.finished {c : Sides} {a a' : Except Refusal Inferred} (h : SameAnswer c a a') :
    a ≠ .error .unfinished ∧ a' ≠ .error .unfinished := by
  cases h with
  | done | typeError | scopeError => exact ⟨nofun, nofun⟩

/-- Inference does not depend on the names of parameters, where binders of the old name are kept apart. One script comes
to an end if and only if the other one does, and then both have the same answer. -/
theorem Script.infer_rename {x y : String} (hassume : y ≠ assumeTag) {pick : Pick} {s : Script}
    (hlacks : s.passes (.lacks y) = true) (hsep : s.separate x pick = true) :
    ((∃ n, s.infer n ≠ .error .unfinished) ↔ ∃ m, (s.rename x y pick).infer m ≠ .error .unfinished) ∧
      ∀ n m, s.infer n ≠ .error .unfinished → (s.rename x y pick).infer m ≠ .error .unfinished →
        SameAnswer (.renamed n m) (s.infer n) ((s.rename x y pick).infer m) := by
  refine ⟨⟨?_, ?_⟩, fun n m hn hm => sameAnswer_rename hassume hlacks hsep (fun _ => hn) fun _ => hm⟩
  · rintro ⟨n, hn⟩
    have hlt : n < n + 1 := Nat.lt_succ_self n
    exact ⟨n + 1, (sameAnswer_rename hassume hlacks hsep (fun _ => hn) (absurd hlt)).finished.2⟩
  · rintro ⟨m, hm⟩
    exact ⟨m, (sameAnswer_rename hassume hlacks hsep (fun h => absurd h (Nat.lt_irrefl m)) fun _ => hm).finished.1⟩

/-- The top-level names of a script with the texts of their types. -/
def Script.texts? (steps : Nat) (s : Script) : Option (List (String × String)) :=
  (s.infer steps).toOption.map fun i => (Checked.ofInferred i).texts

theorem Script.finished_of_texts? {steps : Nat} {s : Script} {texts : List (String × String)}
    (h : s.texts? steps = some texts) : s.infer steps ≠ .error .unfinished := by
  intro he
  rw [texts?, he] at h
  cases h

/-- `let f = (f) => { let g = () => f; return [g(), ((f) => f)(g())]; };` -/
def Script.shadowing : Script where
  body := [.decl .blank .letDecl [.mk (.ident ⟨"f", none⟩) (some (.arrow .blank [.ident ⟨"f", none⟩] (.block [
    .decl .blank .letDecl [.mk (.ident ⟨"g", none⟩) (some (.arrow .blank [] (.expr (.ident .blank ⟨"f", none⟩)))) none],
    .ret .blank (some (.array .blank [
      .call .blank (.ident .blank ⟨"g", none⟩) [],
      .call .blank (.arrow .blank [.ident ⟨"f", none⟩] (.expr (.ident .blank ⟨"f", none⟩)))
        [.call .blank (.ident .blank ⟨"g", none⟩) []]]))] none))) none]]
  pos := none

/-- The parameter of the outer function hides its name, and no longer does so under another name. A function inside has
a parameter of the old name. -/
theorem Script.infer_rename_shadowing :
    ("y" ≠ assumeTag ∧ shadowing.passes (.lacks "y") = true ∧ shadowing.separate "f" (· == [0, 0]) = true) ∧
      shadowing.texts? 20 = some [("f", "(a) => Array(a)")] ∧
      (shadowing.rename "f" "y" (· == [0, 0])).texts? 20 = some [("f", "(a) => Array(a)")] ∧
      SameAnswer (.renamed 20 20) (shadowing.infer 20) ((shadowing.rename "f" "y" (· == [0, 0])).infer 20) := by
  have htexts : shadowing.texts? 20 = some [("f", "(a) => Array(a)")] := by decide +kernel
  have htexts' : (shadowing.rename "f" "y" (· == [0, 0])).texts? 20 = some [("f", "(a) => Array(a)")] := by decide +kernel
  have hname : "y" ≠ assumeTag := by decide
  have hlacks : shadowing.passes (.lacks "y") = true := by decide
  have hsep : shadowing.separate "f" (· == [0, 0]) = true := by decide
  exact ⟨⟨hname, hlacks, hsep⟩, htexts, htexts', (infer_rename hname hlacks hsep).2 20 20 (finished_of_texts? htexts)
    (finished_of_texts? htexts')⟩

/-- The types of the top-level names. -/
def topTypes : Except Refusal Inferred → List (Ty VarId)
  | .ok i => i.env.bindings.map fun b => b.2.type
  | .error _ => []

theorem SameAnswer.types {c : Sides} {a a' : Except Refusal Inferred} (h : SameAnswer c a a') :
    List.Forall₂ (fun t t' : Ty VarId => ∃ f : Kind → VarId → VarId, (∀ k, Function.Injective (f k)) ∧
      t' = t.relabel f fun n => n) (topTypes a) (topTypes a') := by
  have hnames : ∀ {env env' : Env VarId}, env.SameNames env' →
      List.Forall₂ (fun t t' : Ty VarId => ∃ f : Kind → VarId → VarId, (∀ k, Function.Injective (f k)) ∧
        t' = t.relabel f fun n => n) (env.bindings.map fun b => b.2.type) (env'.bindings.map fun b => b.2.type) := by
    intro env env' h
    unfold Env.bindings
    rw [List.map_map, List.map_map]
    refine List.forall₂_map_left_iff.mpr (List.forall₂_map_right_iff.mpr (h.imp ?_))
    rintro e e' ⟨-, -, f, hf, htyping⟩
    exact ⟨f, hf, congrArg Typing.type htyping⟩
  cases h with
  | done h => exact hnames h
  | typeError h => exact hnames h
  | scopeError => exact .nil

/-- `let f = (x) => { let g = () => x; return (x) => [x, g()]; };` -/
def Script.capturing : Script where
  body := [.decl .blank .letDecl [.mk (.ident ⟨"f", none⟩) (some (.arrow .blank [.ident ⟨"x", none⟩] (.block [
    .decl .blank .letDecl [.mk (.ident ⟨"g", none⟩) (some (.arrow .blank [] (.expr (.ident .blank ⟨"x", none⟩)))) none],
    .ret .blank (some (.arrow .blank [.ident ⟨"x", none⟩] (.expr (.array .blank [
      .ident .blank ⟨"x", none⟩, .call .blank (.ident .blank ⟨"g", none⟩) []]))))] none))) none]]
  pos := none

/-- What `g` asks of the outer `x` is taken from the inner one, unless that has another name. -/
theorem Script.infer_mixes_binders :
    capturing.passes (.lacks "y") = true ∧ capturing.texts? 20 = some [("f", "(a) => (b) => Array(b)")] ∧
      (capturing.rename "x" "y" (· == [0, 0, 0, 1, 0])).texts? 20 = some [("f", "(a) => (a) => Array(a)")] ∧
      ¬ SameAnswer (.renamed 20 20) (capturing.infer 20)
        ((capturing.rename "x" "y" (· == [0, 0, 0, 1, 0])).infer 20) := by
  refine ⟨by decide, by decide +kernel, by decide +kernel, fun h => ?_⟩
  have htypes : topTypes (capturing.infer 20) = [.arrow [.var 3 none] (.arrow [.var 9 (some .blank)]
      (.array (.var 9 (some .blank)) (some .blank)) (some .blank)) (some .blank)] := by decide +kernel
  have htypes' : topTypes ((capturing.rename "x" "y" (· == [0, 0, 0, 1, 0])).infer 20) =
      [.arrow [.var 9 (some .blank)] (.arrow [.var 9 (some .blank)]
        (.array (.var 9 (some .blank)) (some .blank)) (some .blank)) (some .blank)] := by decide +kernel
  have hsame := h.types
  rw [htypes, htypes'] at hsame
  obtain ⟨⟨f, hf, he⟩, -⟩ := List.forall₂_cons.mp hsame
  have hvars : 9 = f .type 3 ∧ 9 = f .type 9 := by simpa [Ty.array, Ty.vars, Ty.varsList] using congrArg Ty.vars he
  exact absurd (hf .type (hvars.1.symm.trans hvars.2)) (by decide)

/-- `let f = (x) => { let x = true; return x; };` -/
def Script.redeclaring : Script where
  body := [.decl .blank .letDecl [.mk (.ident ⟨"f", none⟩) (some (.arrow .blank [.ident ⟨"x", none⟩] (.block [
    .decl .blank .letDecl [.mk (.ident ⟨"x", none⟩) (some (.literal .blank (.bool true))) none],
    .ret .blank (some (.ident .blank ⟨"x", none⟩))] none))) none]]
  pos := none

-- A parameter is declared in the scope of the body. So a declaration of the same name there is refused.
example : Script.redeclaring.texts? 20 = none ∧
    (Script.redeclaring.rename "x" "y" (· == [0, 0])).texts? 20 = some [("f", "(a) => Bool")] := by
  decide +kernel

end ScriptTypes
