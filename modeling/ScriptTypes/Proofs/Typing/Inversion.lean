import ScriptTypes.Proofs.Typing.InPlace
import ScriptTypes.Proofs.Typing.Rules

/-! Inference of each construct, taken apart. -/

namespace ScriptTypes

namespace Returns

variable {steps : Nat} {kind : BlockKind} {b b' : Block} {r r' : Run}

/-! Constructs that are refused. -/

theorem not_refused {env : Env VarId} {e : Expr} {t : Typing VarId} (he : e.Refused) :
    ¬ Returns (Infer.expr steps env e) r t r' := by
  cases he <;> simp [Infer.expr, not_unsupported]

theorem not_refusedStmt {s : Stmt} {description : String} {pos : Position} (hs : s.Refused description pos) :
    ¬ Returns (Infer.stmt steps kind b s) r b' r' := by
  rw [Infer.stmt_refused steps kind b hs]
  exact not_unsupported

/-! Constructs that have a rule. -/

theorem stmt_expr_iff {names : List String} {node : Node} {e : Expr}
    (h : Lint.noAssume.stmt names (.expr node e) = true) :
    Returns (Infer.stmt steps kind b (.expr node e)) r b' r' ↔
      ∃ t, Returns (Infer.expr steps b.env e) r t r' ∧ b' = { b with typings := b.typings ++ [t] } := by
  obtain ⟨n, n', tag, quasi, rfl, htag⟩ | ⟨n, tag, quasi, rfl, htag⟩ | he := e.tagged_cases
  · simp [Lint.noAssume, htag] at h
  · -- A tag that is not an assumption is refused as a statement and as an expression.
    refine iff_of_false ?_ ?_
    · rw [Infer.stmt_tagged steps kind b node n htag]
      exact not_unsupported
    · rintro ⟨u, hu, -⟩
      exact not_refused (.tagged n tag quasi) hu
  · rw [Infer.stmt_expr steps kind b node he, bind_iff]
    constructor
    · rintro ⟨t, r₁, ht, h⟩
      obtain ⟨rfl, rfl⟩ := pure_iff.mp h
      exact ⟨t, ht, rfl⟩
    · rintro ⟨t, ht, rfl⟩
      exact ⟨t, r', ht, pure _ _⟩

theorem stmt_ret_iff {node : Node} {e : Expr} :
    Returns (Infer.stmt steps kind b (.ret node (some e))) r b' r' ↔
      kind = .function ∧ ∃ t, Returns (Infer.expr steps b.env e) r t r' ∧ b' = { b with returned := some t } := by
  cases kind with
  | top =>
      rw [Infer.stmt_ret_top]
      exact iff_of_false not_unsupported (by simp)
  | function =>
      rw [Infer.stmt_ret, bind_iff]
      constructor
      · rintro ⟨t, r₁, ht, h⟩
        obtain ⟨rfl, rfl⟩ := pure_iff.mp h
        exact ⟨rfl, t, ht, rfl⟩
      · rintro ⟨-, t, ht, rfl⟩
        exact ⟨t, r', ht, pure _ _⟩

theorem stmt_retNothing_iff {node : Node} :
    Returns (Infer.stmt steps kind b (.ret node none)) r b' r' ↔
      kind = .function ∧ b' = { b with returned := some (.closed (.leaf .undefined (some node))) } ∧ r' = r := by
  cases kind with
  | top =>
      rw [Infer.stmt_ret_top]
      exact iff_of_false not_unsupported (by simp)
  | function =>
      rw [Infer.stmt_retNothing, pure_iff]
      simp

theorem stmt_block_iff {node : Node} {ss : List Stmt} :
    Returns (Infer.stmt steps kind b (.block node ss)) r b' r' ↔
      ∃ inner, Returns (Infer.stmts steps kind { b with env := b.env.child } ss) r inner r' ∧
        b' = { inner with env := b.env } := by
  rw [Infer.stmt_block, bind_iff]
  constructor
  · rintro ⟨inner, r₁, hi, h⟩
    obtain ⟨rfl, rfl⟩ := pure_iff.mp h
    exact ⟨inner, hi, rfl⟩
  · rintro ⟨inner, hi, rfl⟩
    exact ⟨inner, r', hi, pure _ _⟩

theorem stmts_cons_iff {s : Stmt} {ss : List Stmt} :
    Returns (Infer.stmts steps kind b (s :: ss)) r b' r' ↔
      ∃ b₁ r₁, Returns (Infer.stmt steps kind b s) r b₁ r₁ ∧
        (b₁.returned.isSome = true ∧ b' = b₁ ∧ r' = r₁ ∨
          b₁.returned = none ∧ Returns (Infer.stmts steps kind b₁ ss) r₁ b' r') := by
  rw [Infer.stmts_cons, bind_iff]
  refine exists_congr fun b₁ => exists_congr fun r₁ => and_congr_right fun _ => ?_
  cases h : b₁.returned with
  | none => simp
  | some t => simp [pure_iff]

theorem propertyLabel {seen : Assoc Ident} {key : PropertyKey} {id : Ident}
    (h : Returns (Infer.propertyLabel seen key) r id r') :
    key.label? = some id.label ∧ id.label ∉ Assoc.keys seen ∧ r' = r := by
  have hcheck : ∀ {id' : Ident}, Returns (Infer.propertyLabel.check seen id') r id r' →
      id = id' ∧ id'.label ∉ Assoc.keys seen ∧ r' = r := by
    intro id' h
    rw [Infer.propertyLabel.check] at h
    cases hg : Assoc.get? seen id'.label with
    | some previous =>
        rw [hg] at h
        exact (not_throw h).elim
    | none =>
        rw [hg] at h
        obtain ⟨rfl, rfl⟩ := pure_iff.mp h
        exact ⟨rfl, Assoc.get?_eq_none_iff.mp hg, rfl⟩
  cases key with
  | computed e => exact (not_throw h).elim
  | ident id' =>
      obtain ⟨rfl, hn, rfl⟩ := hcheck h
      exact ⟨rfl, hn, rfl⟩
  | literal value pos =>
      obtain ⟨rfl, hn, rfl⟩ := hcheck h
      exact ⟨rfl, hn, rfl⟩

theorem of_propertyLabel {seen : Assoc Ident} {key : PropertyKey} {label : String} (h : key.label? = some label)
    (hn : label ∉ Assoc.keys seen) (r : Run) :
    ∃ id, id.label = label ∧ Returns (Infer.propertyLabel seen key) r id r := by
  have hcheck : ∀ {id : Ident}, id.label = label → Returns (Infer.propertyLabel.check seen id) r id r := by
    intro id hid
    rw [Infer.propertyLabel.check, Assoc.get?_eq_none_iff.mpr (hid ▸ hn)]
    exact pure id r
  cases key with
  | computed e => cases h
  | ident id => exact ⟨id, Option.some.inj h, hcheck (Option.some.inj h)⟩
  | literal value pos => exact ⟨⟨value.label, pos⟩, Option.some.inj h, hcheck (Option.some.inj h)⟩

/-- A name that an assumption stands for is left as it is. -/
theorem declare_cases {id : Ident} {x : Infer (Typing VarId)}
    (h : Returns (Infer.declare b id x) r b' r') :
    (∃ c, b.env.here? id.label = some c ∧ c.assumed = true ∧ b' = b) ∨
      ∃ t, Returns x r t r' ∧ b.env.here? id.label = none ∧
        b' = { b with env := b.env.insert id.label ⟨id, t, false⟩, typings := b.typings ++ [t] } := by
  rw [Infer.declare] at h
  split at h
  · obtain ⟨t, r₁, ht, h⟩ := bind_iff.mp h
    obtain ⟨env, r₂, hlift, hpure⟩ := bind_iff.mp h
    obtain ⟨hassign, rfl⟩ := lift_iff.mp hlift
    obtain ⟨hnone, rfl⟩ := Env.assign_eq_ok.mp hassign
    obtain ⟨rfl, rfl⟩ := pure_iff.mp hpure
    exact .inr ⟨t, ht, hnone, rfl⟩
  · rename_i hskip
    obtain ⟨rfl, -⟩ := pure_iff.mp h
    rw [Env.shouldInfer] at hskip
    cases hc : b'.env.here? id.label with
    | none => simp [hc] at hskip
    | some c => exact .inl ⟨c, rfl, by simpa [hc] using hskip, rfl⟩

/-- A name can be declared where no assumption stands and the innermost layer does not have it. -/
theorem declare_iff {names : List String} {id : Ident} {x : Infer (Typing VarId)} (henv : b.env.Within names) :
    Returns (Infer.declare b id x) r b' r' ↔
      ∃ t, Returns x r t r' ∧ id.label ∉ Assoc.keys b.env.current ∧
        b' = { b with env := b.env.insert id.label ⟨id, t, false⟩, typings := b.typings ++ [t] } := by
  constructor
  · intro h
    obtain ⟨c, hc, hassumed, -⟩ | ⟨t, ht, hnone, rfl⟩ := declare_cases h
    · rw [(henv _ c (Env.get?_of_here? hc)).1] at hassumed
      cases hassumed
    · exact ⟨t, ht, Env.here?_eq_none.mp hnone, rfl⟩
  · rintro ⟨t, ht, hnone, rfl⟩
    have hhere := Env.here?_eq_none.mpr hnone
    have hinfer : b.env.shouldInfer id.label = true := by rw [Env.shouldInfer, hhere]
    rw [Infer.declare, if_pos hinfer]
    exact ht.bind ((lift_iff.mpr ⟨Env.assign_eq_ok.mpr ⟨hhere, rfl⟩, rfl⟩).bind (pure _ _))

theorem exprs_cons_iff {env : Env VarId} {e : Expr} {es : List Expr} {ts : List (Typing VarId)} :
    Returns (Infer.exprs steps env (e :: es)) r ts r' ↔
      ∃ t us r₁, Returns (Infer.expr steps env e) r t r₁ ∧ Returns (Infer.exprs steps env es) r₁ us r' ∧
        ts = t :: us := by
  rw [Infer.exprs, bind_iff]
  constructor
  · rintro ⟨t, r₁, ht, h⟩
    obtain ⟨us, r₂, hus, h⟩ := bind_iff.mp h
    obtain ⟨rfl, rfl⟩ := pure_iff.mp h
    exact ⟨t, us, r₁, ht, hus, rfl⟩
  · rintro ⟨t, us, r₁, ht, hus, rfl⟩
    exact ⟨t, r₁, ht, hus.bind (pure _ _)⟩

theorem properties_cons {env : Env VarId} {seen : Assoc Ident} {key : PropertyKey} {value : Expr} {pos : Position}
    {props : List Property} {ts : List (String × Typing VarId)}
    (h : Returns (Infer.properties steps env seen (.mk key value pos :: props)) r ts r') :
    ∃ id t us r₁, key.label? = some id.label ∧ id.label ∉ Assoc.keys seen ∧
      Returns (Infer.expr steps env value) r t r₁ ∧
      Returns (Infer.properties steps env (Assoc.insert seen id.label id) props) r₁ us r' ∧
      ts = (id.label, t) :: us := by
  rw [Infer.properties] at h
  obtain ⟨id, r₁, hid, hrest⟩ := bind_iff.mp h
  obtain ⟨hlabel, hnew, rfl⟩ := propertyLabel hid
  obtain ⟨t, r₂, ht, hrest⟩ := bind_iff.mp hrest
  obtain ⟨us, r₃, hus, hpure⟩ := bind_iff.mp hrest
  obtain ⟨rfl, rfl⟩ := pure_iff.mp hpure
  exact ⟨id, t, us, r₂, hlabel, hnew, ht, hus, rfl⟩

/-- The labels of an object are distinct. -/
theorem properties_distinct {env : Env VarId} {seen : Assoc Ident} {props : List Property}
    {ts : List (String × Typing VarId)} (h : Returns (Infer.properties steps env seen props) r ts r') :
    Assoc.Distinct ts ∧ ∀ x ∈ Assoc.keys ts, x ∉ Assoc.keys seen := by
  induction props generalizing seen r ts with
  | nil =>
      rw [Infer.properties] at h
      obtain ⟨rfl, -⟩ := pure_iff.mp h
      exact ⟨Assoc.distinct_nil, by simp [Assoc.keys]⟩
  | cons p props ih =>
      cases p with
      | mk key value pos =>
          obtain ⟨id, t, us, r₁, -, hnew, -, hus, rfl⟩ := properties_cons h
          obtain ⟨hd, hseen⟩ := ih hus
          refine ⟨Assoc.distinct_cons.mpr ⟨fun hm => ?_, hd⟩, List.forall_mem_cons.mpr ⟨hnew, fun x hx hm => ?_⟩⟩
          · exact hseen _ hm (Assoc.mem_keys_insert.mpr (.inl rfl))
          · exact hseen x hx (Assoc.mem_keys_insert.mpr (.inr hm))

theorem expr_ident_iff {env : Env VarId} {node : Node} {id : Ident} {t : Typing VarId} :
    Returns (Infer.expr steps env (.ident node id)) r t r' ↔
      ∃ b, env.get? id.label = some b ∧ Returns (Infer.instantiate b.typing) r t r' := by
  rw [Infer.expr, bind_iff]
  constructor
  · rintro ⟨u, r₁, hu, h⟩
    obtain ⟨hlookup, rfl⟩ := lift_iff.mp hu
    rw [Env.lookup] at hlookup
    cases hg : env.get? id.label with
    | none =>
        rw [hg] at hlookup
        cases hlookup
    | some b =>
        rw [hg] at hlookup
        cases hlookup
        exact ⟨b, rfl, h⟩
  · rintro ⟨b, hg, h⟩
    refine ⟨b.typing, r, lift_iff.mpr ⟨?_, rfl⟩, h⟩
    rw [Env.lookup, hg]

/-- A member is taken from a record that has it, when types are closed. -/
theorem memberTyping {node : Node} {object t : Typing VarId} {label : Ident} (hc : object.type.Closed)
    (h : Returns (Infer.memberTyping steps node object label) r t r') :
    ∃ fs u, object.type.mono = .record (Assoc.sort (Assoc.mapValues Ty.mono fs)) none ∧ Assoc.Distinct fs ∧
      Assoc.get? fs label.label = some u ∧ u.Closed ∧ t = ⟨object.needs, u⟩ ∧ r' = r := by
  rw [Infer.memberTyping] at h
  cases object with
  | mk needs type =>
      cases hc with
      | leaf => exact (not_throw h).elim
      | var => exact (not_throw h).elim
      | rowVar _ _ hr => exact hr.elim
      | arrow => exact (not_throw h).elim
      | con => exact (not_throw h).elim
      | @record fs tail s ht hfs hd =>
          obtain rfl := Ty.tail_eq_none ht
          simp only [Row.flatten_ofFields hd] at h
          cases hg : Assoc.get? fs label.label with
          | none =>
              simp only [hg] at h
              exact (not_throw h).elim
          | some u =>
              simp only [hg] at h
              obtain ⟨rfl, rfl⟩ := pure_iff.mp h
              exact ⟨fs, u, Ty.mono_record hd none s, hd, hg, hfs _ (Assoc.mem_of_get? hg), rfl, rfl⟩

end Returns

/-! Functions. -/

/-- A computation types a function: its body is typed in a scope where some names are monomorphic, and the function is
closed over them. -/
structure TypesFunction (x : Nat → Infer (Typing VarId)) (env : Env VarId) (bound : List String) (ids : List Ident)
    (body : Body) (r : Run) (first : VarId) (scope : Env VarId) (start : Run)
    (asked : Typing VarId → Assoc (Ty VarId)) (result : Typing VarId → List (Binding VarId) → Typing VarId) :
    Prop where
  le : r.Le start
  fresh : r.supply.types ≤ first
  room : first + ids.length ≤ start.supply.types
  hides : Hides env bound scope
  here : ∀ y, y ∈ Assoc.keys scope.current ↔ y ∈ ids.map Ident.label
  abstracts : ∀ {names : List String} {u : Typing VarId}, u.Within names →
    Abstracts bound (paramsFrom first ids) u (asked u) (result u)
  returns_iff : ∀ {steps t r'}, Returns (x steps) r t r' ↔
    ∃ u r₁, Returns (Infer.functionBody steps scope body) start u r₁ ∧
      Returns (Infer.close steps (asked u) u (result u)) r₁ t r'

section Functions

variable {steps : Nat} {r r' : Run} {t : Typing VarId} {env : Env VarId} {body : Body}

/-- Once the parameters are bound there is only one way on. -/
theorem Returns.function_iff {binds : Infer (Env VarId × Assoc (Ty VarId))} {scope : Env VarId}
    {params : Assoc (Ty VarId)} {start : Run} (hbind : Returns binds r (scope, params) start)
    (typing : Assoc (Ty VarId) → Typing VarId → Infer (Typing VarId)) :
    Returns (binds >>= fun p => Infer.functionBody steps p.1 body >>= fun t => typing p.2 t) r t r' ↔
      ∃ u r₁, Returns (Infer.functionBody steps scope body) start u r₁ ∧ Returns (typing params u) r₁ t r' := by
  constructor
  · intro h
    obtain ⟨p, r₁, hp, h⟩ := bind_iff.mp h
    obtain ⟨rfl, rfl⟩ := hbind.unique hp
    exact bind_iff.mp h
  · rintro ⟨u, r₁, hu, ht⟩
    exact hbind.bind (hu.bind ht)

/-- Parameters are distinct names. -/
theorem Returns.bindParams_params {scope : Env VarId} {ps : List Pattern} {p : Env VarId × Assoc (Ty VarId)}
    (h : Returns (Infer.bindParams scope ps) r p r') :
    ∃ ids : List Ident, ps = ids.map .ident ∧ (ids.map Ident.label).Nodup := by
  obtain ⟨ids, rfl, hp, -, hd, -⟩ := bindParams h
  rw [hp, Assoc.Distinct, keys_paramsFrom] at hd
  exact ⟨ids, rfl, hd⟩

theorem Returns.expr_arrow_params {node : Node} {ps : List Pattern}
    (h : Returns (Infer.expr steps env (.arrow node ps body)) r t r') :
    ∃ ids : List Ident, ps = ids.map .ident ∧ (ids.map Ident.label).Nodup := by
  rw [Infer.expr] at h
  obtain ⟨p, r₁, hp, -⟩ := bind_iff.mp h
  exact bindParams_params hp

theorem Returns.definition_params {id : Ident} {node : Node} {ps : List Pattern}
    (h : Returns (Infer.definition steps env id node ps body) r t r') :
    ∃ ids : List Ident, ps = ids.map .ident ∧ (ids.map Ident.label).Nodup := by
  obtain ⟨p, r₁, hp, -⟩ := bind_iff.mp h
  exact bindParams_params (bindDef_iff.mp hp)

variable {ids : List Ident} (hd : (ids.map Ident.label).Nodup) (body)

include hd

theorem typesFunction_arrow (env : Env VarId) (node : Node) (r : Run) :
    ∃ first scope start asked result,
      TypesFunction (Infer.expr · env (.arrow node (ids.map .ident) body)) env (ids.map Ident.label) ids body r
        first scope start asked result := by
  obtain ⟨scope, hbind⟩ := @Returns.of_bindParams env.child ids r hd (by simp [Scope.child, Assoc.keys])
  have hb := Returns.bindsParams hbind
  refine ⟨r.supply.types, scope, r.skip ids.length, fun _ => paramsFrom r.supply.types ids,
    fun u => Infer.absResult node (paramsFrom r.supply.types ids) u, r.le_skip _, Nat.le_refl _, Nat.le_refl _,
    ⟨hb.hides.hidden, hb.hides.other⟩, fun y => ?_, fun hu => absResult_abstracts hu hd node, fun {steps t r'} => ?_⟩
  · rw [hb.here, keys_paramsFrom]
    simp [Scope.child, Assoc.keys]
  · rw [Infer.expr]
    refine (Returns.function_iff hbind fun params u => Infer.absTyping steps node params u).trans ?_
    simp only [Infer.absTyping_eq]

theorem typesFunction_def (env : Env VarId) (id : Ident) (node : Node) (r : Run) :
    ∃ first scope start asked result,
      TypesFunction (Infer.definition · env id node (ids.map .ident) body) env (ids.map Ident.label ++ [id.label]) ids
        body r first scope start asked result := by
  obtain ⟨scope, hparams⟩ := @Returns.of_bindParams (ownScope env id r.supply.types) ids (r.skip 1) hd
    (by simp [ownScope, Scope.child, Assoc.keys])
  have hbind := Returns.bindDef_iff.mpr hparams
  have hb := Returns.bindsParams hparams
  let params := paramsFrom (r.skip 1).supply.types ids
  refine ⟨(r.skip 1).supply.types, scope, (r.skip 1).skip ids.length,
    fun u => Infer.askedDef id.label (.arrow (params.map Prod.snd) u.type (some node)) params,
    fun u => Infer.defResult id.label (.arrow (params.map Prod.snd) u.type (some node)) params u,
    (r.le_skip 1).trans (Run.le_skip _ _), (r.le_skip 1).types, Nat.le_refl _, hb.hides_own,
    fun y => ?_, fun hu => defResult_abstracts hu hd id.label node, fun {steps t r'} => ?_⟩
  · rw [hb.here, keys_paramsFrom]
    simp [ownScope, Scope.child, Assoc.keys]
  · refine (Returns.function_iff hbind fun params u => Infer.defTyping steps id.label node params u).trans ?_
    simp only [Infer.defTyping_eq, params]

end Functions

end ScriptTypes
