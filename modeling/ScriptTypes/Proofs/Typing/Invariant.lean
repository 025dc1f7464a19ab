import ScriptTypes.Proofs.Typing.Inversion

/-! What inference keeps. In a script without assumptions all types are closed, all variables have been handed out by
the run, and a typing asks something only of the monomorphic names in sight. -/

namespace ScriptTypes

theorem Typing.fits_closed {n : Nat} {t : Ty VarId} (h : t.Fits n) (names : List String) :
    (Typing.closed t).Fits names n :=
  ⟨within_closed h.closed, List.forall_mem_nil _, h.below⟩

namespace Block

structure Fits (names : List String) (n : Nat) (b : Block) : Prop where
  env : b.env.Within names
  typings : ∀ t ∈ b.typings, t.Fits names n
  returned : ∀ t, b.returned = some t → t.Fits names n

/-- What a computation of a block from another leaves. Only in a function something is returned. -/
structure Kept (names : List String) (kind : BlockKind) (r : Run) (b : Block) (r' : Run) (b' : Block) : Prop where
  le : r.Le r'
  fits : b'.Fits names r'.supply.types
  grows : ∀ t ∈ b.typings, t ∈ b'.typings
  returned : kind = .top → b'.returned = b.returned

variable {names : List String} {kind : BlockKind} {r r' : Run} {b b' : Block}

theorem Fits.le {n m : Nat} (h : b.Fits names n) (hnm : n ≤ m) : b.Fits names m :=
  ⟨h.env, fun t ht => (h.typings t ht).le hnm, fun t ht => (h.returned t ht).le hnm⟩

theorem Fits.result {n : Nat} (h : b.Fits names n) : b.result.Fits names n := by
  rw [Block.result]
  cases hb : b.returned with
  | none => exact Typing.fits_closed (.leaf _ _ _) names
  | some t => exact h.returned t hb

theorem Fits.child {n : Nat} (h : b.Fits names n) : Fits names n ⟨b.env.child, b.typings, b.returned⟩ :=
  ⟨h.env.child, h.typings, h.returned⟩

theorem Kept.refl (h : b.Fits names r.supply.types) : Kept names kind r b r b :=
  ⟨.refl r, h, fun _ => id, fun _ => rfl⟩

theorem Kept.trans {r₁ : Run} {b₁ : Block} (h : Kept names kind r b r₁ b₁)
    (h' : Kept names kind r₁ b₁ r' b') : Kept names kind r b r' b' :=
  ⟨h.le.trans h'.le, h'.fits, fun t ht => h'.grows t (h.grows t ht),
    fun hk => (h'.returned hk).trans (h.returned hk)⟩

theorem Kept.typing {t : Typing VarId} (hb : b.Fits names r.supply.types) (h : ScriptTypes.Kept names r t r') :
    Kept names kind r b r' { b with typings := b.typings ++ [t] } := by
  have hb' := hb.le h.le.types
  refine ⟨h.le, ⟨hb'.env, ?_, hb'.returned⟩, fun u hu => List.mem_append_left _ hu, fun _ => rfl⟩
  exact List.forall_mem_append.mpr ⟨hb'.typings, List.forall_mem_singleton.mpr h.fits⟩

theorem Kept.declare {t : Typing VarId} (hb : b.Fits names r.supply.types) (h : ScriptTypes.Kept names r t r')
    (id : Ident) : Kept names kind r b r'
      { b with env := b.env.insert id.label ⟨id, t, false⟩, typings := b.typings ++ [t] } := by
  have hk : Kept names kind r b r' { b with typings := b.typings ++ [t] } := .typing hb h
  exact ⟨hk.le, ⟨hb.env.insert rfl h.fits.within, hk.fits.typings, hk.fits.returned⟩, hk.grows, hk.returned⟩

theorem Kept.returning {t : Typing VarId} (hb : b.Fits names r.supply.types) (h : ScriptTypes.Kept names r t r') :
    Kept names .function r b r' { b with returned := some t } := by
  have hb' := hb.le h.le.types
  refine ⟨h.le, ⟨hb'.env, hb'.typings, fun u hu => ?_⟩, fun _ => id, by simp⟩
  cases hu
  exact h.fits

end Block

/-- All that a block asks is met. -/
structure Block.Meets (θ : Assignment) (M : String → Mono) (b : Block) : Prop where
  typings : ∀ t ∈ b.typings, Requirements.Meets θ M t.needs
  returned : ∀ t, b.returned = some t → Requirements.Meets θ M t.needs

def Block.returns (θ : Assignment) (b : Block) : Option Mono :=
  b.returned.map fun t => t.type.mono.subst θ

theorem Block.Meets.typing {b : Block} {env : Env VarId} {t : Typing VarId} {θ : Assignment} {M : String → Mono}
    (h : Block.Meets θ M ⟨env, b.typings ++ [t], b.returned⟩) : Requirements.Meets θ M t.needs :=
  h.typings t (List.mem_append_right _ (List.mem_singleton_self t))

/-- What a block gives is what it returned, or else nothing. -/
theorem Block.result_type (b : Block) (θ : Assignment) :
    b.result.type.mono.subst θ = (b.returns θ).getD (.leaf .undefined) := by
  rw [result, returns]
  cases b.returned with
  | none => simp [Typing.closed]
  | some t => rfl

/-! What is shown by induction on syntax. -/

def Expr.Keeps (l : Lint) (e : Expr) : Prop :=
  ∀ {names : List String} {env : Env VarId} {steps : Nat} {r r' : Run} {t : Typing VarId},
    e.passes l names = true → env.Within names → Returns (Infer.expr steps env e) r t r' → Kept names r t r'

def Body.Keeps (l : Lint) (body : Body) : Prop :=
  ∀ {names : List String} {scope : Env VarId} {steps : Nat} {r r' : Run} {t : Typing VarId},
    body.passes l names = true → scope.Within names → Returns (Infer.functionBody steps scope body) r t r' →
      Kept names r t r'

def Stmt.Keeps (l : Lint) (s : Stmt) : Prop :=
  ∀ {names : List String} {kind : BlockKind} {steps : Nat} {r r' : Run} {b b' : Block},
    s.passes l names = true → b.Fits names r.supply.types → Returns (Infer.stmt steps kind b s) r b' r' →
      Block.Kept names kind r b r' b'

section Lists

variable {l : Lint} {names : List String} {env : Env VarId} {steps : Nat} {r r' : Run}

theorem Returns.exprs_kept {es : List Expr} (hes : ∀ e ∈ es, e.Keeps l) (hp : ∀ e ∈ es, e.passes l names = true)
    (henv : env.Within names) {ts : List (Typing VarId)} (h : Returns (Infer.exprs steps env es) r ts r') :
    r.Le r' ∧ ∀ t ∈ ts, t.Fits names r'.supply.types := by
  induction es generalizing r ts with
  | nil =>
      rw [Infer.exprs] at h
      obtain ⟨rfl, rfl⟩ := pure_iff.mp h
      exact ⟨.refl _, by simp⟩
  | cons e es ih =>
      obtain ⟨he, hes⟩ := List.forall_mem_cons.mp hes
      obtain ⟨hpe, hps⟩ := List.forall_mem_cons.mp hp
      obtain ⟨t, us, r₁, ht, hus, rfl⟩ := exprs_cons_iff.mp h
      have hk := he hpe henv ht
      obtain ⟨hle, hfits⟩ := ih hes hps hus
      exact ⟨hk.le.trans hle, List.forall_mem_cons.mpr ⟨hk.fits.le hle.types, hfits⟩⟩

theorem Returns.properties_kept {ps : List Property} (hps : ∀ p ∈ ps, p.value.Keeps l)
    (hp : ∀ p ∈ ps, p.value.passes l names = true) (henv : env.Within names) {seen : Assoc Ident}
    {ts : List (String × Typing VarId)} (h : Returns (Infer.properties steps env seen ps) r ts r') :
    r.Le r' ∧ ∀ p ∈ ts, p.2.Fits names r'.supply.types := by
  induction ps generalizing r ts seen with
  | nil =>
      rw [Infer.properties] at h
      obtain ⟨rfl, rfl⟩ := pure_iff.mp h
      exact ⟨.refl _, by simp⟩
  | cons p ps ih =>
      obtain ⟨key, value, pos⟩ := p
      obtain ⟨hv, hps⟩ := List.forall_mem_cons.mp hps
      obtain ⟨hpv, hpp⟩ := List.forall_mem_cons.mp hp
      obtain ⟨id, t, us, r₁, -, -, ht, hus, rfl⟩ := properties_cons h
      have hk := hv hpv henv ht
      obtain ⟨hle, hfits⟩ := ih hps hpp hus
      exact ⟨hk.le.trans hle, List.forall_mem_cons.mpr ⟨hk.fits.le hle.types, hfits⟩⟩

theorem Returns.stmts_kept {ss : List Stmt} (hss : ∀ s ∈ ss, s.Keeps l) (hp : ∀ s ∈ ss, s.passes l names = true)
    {kind : BlockKind} {b b' : Block} (hb : b.Fits names r.supply.types)
    (h : Returns (Infer.stmts steps kind b ss) r b' r') : Block.Kept names kind r b r' b' := by
  induction ss generalizing r b with
  | nil =>
      rw [Infer.stmts_nil] at h
      obtain ⟨rfl, rfl⟩ := pure_iff.mp h
      exact .refl hb
  | cons s ss ih =>
      obtain ⟨hs, hss⟩ := List.forall_mem_cons.mp hss
      obtain ⟨hps, hpss⟩ := List.forall_mem_cons.mp hp
      obtain ⟨b₁, r₁, hb₁, ⟨-, rfl, rfl⟩ | ⟨-, hrest⟩⟩ := stmts_cons_iff.mp h
      · exact hs hps hb hb₁
      · have hk := hs hps hb hb₁
        exact hk.trans (ih hss hpss hk.fits hrest)

end Lists

namespace TypesFunction

variable {x : Nat → Infer (Typing VarId)} {env : Env VarId} {bound : List String} {ids : List Ident} {body : Body}
  {r : Run} {first : VarId} {scope : Env VarId} {start : Run} {asked : Typing VarId → Assoc (Ty VarId)}
  {result : Typing VarId → List (Binding VarId) → Typing VarId}
  (hf : TypesFunction x env bound ids body r first scope start asked result)

include hf

theorem below_params {r₁ : Run} (h : start.Le r₁) : Requirements.Below r₁.supply.types (paramsFrom first ids) :=
  (below_paramsFrom first ids).le (Nat.le_trans hf.room h.types)

theorem kept {l : Lint} {names : List String} (hbody : body.Keeps l) (hp : body.passes l (bound ++ names) = true)
    (henv : env.Within names) {steps : Nat} {t : Typing VarId} {r' : Run} (h : Returns (x steps) r t r') :
    Kept names r t r' := by
  obtain ⟨u, r₁, hu, hclose⟩ := hf.returns_iff.mp h
  have hk := hbody hp (hf.hides.within henv) hu
  have hkept := Returns.close_kept (hf.abstracts hk.fits.within) hk.fits.within (hf.below_params hk.le)
    hk.fits.below hclose
  exact ⟨(hf.le.trans hk.le).trans hkept.le, hkept.fits⟩

end TypesFunction

namespace Expr.Keeps

variable {l : Lint} {node : Node}

theorem literal {value : Literal} : (Expr.literal node value).Keeps l := by
  intro names env steps r r' t _ _ h
  rw [Infer.expr] at h
  obtain ⟨rfl, rfl⟩ := Returns.pure_iff.mp h
  exact ⟨.refl _, Typing.fits_closed (.leaf _ _ _) names⟩

theorem ident {id : Ident} : (Expr.ident node id).Keeps l := by
  intro names env steps r r' t _ henv h
  obtain ⟨b, hb, h⟩ := Returns.expr_ident_iff.mp h
  obtain ⟨hle, hw, hbelow⟩ := Returns.instantiate_within (henv _ b hb).2 h
  exact ⟨hle, hw, hbelow⟩

theorem array {es : List Expr} (hes : ∀ e ∈ es, e.Keeps l) : (Expr.array node es).Keeps l := by
  intro names env steps r r' t hp henv h
  simp only [passes, Bool.and_eq_true, exprsPass_iff] at hp
  rw [Infer.expr] at h
  obtain ⟨ts, r₁, hts, h⟩ := Returns.bind_iff.mp h
  obtain ⟨hle, hfits⟩ := Returns.exprs_kept hes hp.2 henv hts
  exact ((combines_array hfits node).kept h).after hle

theorem object {ps : List Property} (hps : ∀ p ∈ ps, p.value.Keeps l) : (Expr.object node ps).Keeps l := by
  intro names env steps r r' t hp henv h
  rw [passes, Bool.and_eq_true] at hp
  rw [Infer.expr] at h
  obtain ⟨ts, r₁, hts, h⟩ := Returns.bind_iff.mp h
  obtain ⟨hle, hfits⟩ := Returns.properties_kept hps (forall_of_propertiesPass hp.2) henv hts
  exact ((combines_object hfits (Returns.properties_distinct hts).1 node).kept h).after hle

theorem member {e : Expr} {label : Ident} (he : e.Keeps l) : (Expr.member node e label).Keeps l := by
  intro names env steps r r' t hp henv h
  rw [passes, Bool.and_eq_true] at hp
  rw [Infer.expr] at h
  obtain ⟨u, r₁, hu, hm⟩ := Returns.bind_iff.mp h
  have hk := he hp.2 henv hu
  obtain ⟨fs, v, htype, -, hg, hv, rfl, rfl⟩ := Returns.memberTyping hk.fits.within.type hm
  refine ⟨hk.le, ⟨hk.fits.within.needs, hv⟩, hk.fits.below.needs, fun w hw => hk.fits.below.type w ?_⟩
  rw [htype, Mono.mem_vars_record]
  exact ⟨_, Assoc.mem_sort.mpr (Assoc.mem_mapValues.mpr ⟨v, Assoc.mem_of_get? hg, rfl⟩), hw⟩

theorem binary {op : BinaryOp} {a b : Expr} (ha : a.Keeps l) (hb : b.Keeps l) : (Expr.binary node op a b).Keeps l := by
  intro names env steps r r' t hp henv h
  simp only [passes, Bool.and_eq_true] at hp
  rw [Infer.expr] at h
  obtain ⟨ta, r₁, hta, h⟩ := Returns.bind_iff.mp h
  obtain ⟨tb, r₂, htb, h⟩ := Returns.bind_iff.mp h
  have hka := ha hp.2.1 henv hta
  have hkb := hb hp.2.2 henv htb
  have hfits := hka.fits.le hkb.le.types
  refine Kept.after ?_ (hka.le.trans hkb.le)
  cases hop : op.isArithmetic with
  | true => exact (combines_arithmetic hfits hkb.fits hop node a.node b.node).kept h
  | false => exact (combines_comparison hfits hkb.fits hop node a.node b.node).kept h

theorem conditional {c a b : Expr} (hc : c.Keeps l) (ha : a.Keeps l) (hb : b.Keeps l) :
    (Expr.conditional node c a b).Keeps l := by
  intro names env steps r r' t hp henv h
  simp only [passes, Bool.and_eq_true] at hp
  rw [Infer.expr] at h
  obtain ⟨tc, r₁, htc, h⟩ := Returns.bind_iff.mp h
  obtain ⟨ta, r₂, hta, h⟩ := Returns.bind_iff.mp h
  obtain ⟨tb, r₃, htb, h⟩ := Returns.bind_iff.mp h
  have hkc := hc hp.2.1.1 henv htc
  have hka := ha hp.2.1.2 henv hta
  have hkb := hb hp.2.2 henv htb
  have hle := hka.le.trans hkb.le
  exact ((combines_conditional (hkc.fits.le hle.types) (hka.fits.le hkb.le.types) hkb.fits c.node).kept h).after
    (hkc.le.trans hle)

theorem arrow {ps : List Pattern} {body : Body} (hbody : body.Keeps l) : (Expr.arrow node ps body).Keeps l := by
  intro names env steps r r' t hp henv h
  obtain ⟨ids, rfl, hd⟩ := Returns.expr_arrow_params h
  obtain ⟨first, scope, start, asked, result, hf⟩ := typesFunction_arrow body hd env node r
  have hpb := (passes_arrow hp).2
  rw [Pattern.allLabels_ident] at hpb
  exact hf.kept hbody hpb henv h

theorem call {f : Expr} {as : List Expr} (hf : f.Keeps l) (has : ∀ a ∈ as, a.Keeps l) :
    (Expr.call node f as).Keeps l := by
  intro names env steps r r' t hp henv h
  simp only [passes, Bool.and_eq_true, exprsPass_iff] at hp
  rw [Infer.expr] at h
  obtain ⟨tf, r₁, htf, h⟩ := Returns.bind_iff.mp h
  obtain ⟨ts, r₂, hts, h⟩ := Returns.bind_iff.mp h
  have hkf := hf hp.2.1 henv htf
  obtain ⟨hle, hfits⟩ := Returns.exprs_kept has hp.2.2 henv hts
  exact ((combines_call (hkf.fits.le hle.types) hfits node f.node).kept h).after (hkf.le.trans hle)

theorem template {texts : List String} {es : List Expr} {pos : Position} (hes : ∀ e ∈ es, e.Keeps l) :
    (Expr.template node (.mk texts es pos)).Keeps l := by
  intro names env steps r r' t hp henv h
  simp only [passes, Template.passes, Bool.and_eq_true, exprsPass_iff] at hp
  rw [Infer.expr] at h
  obtain ⟨ts, r₁, hts, h⟩ := Returns.bind_iff.mp h
  obtain ⟨hle, hfits⟩ := Returns.exprs_kept hes hp.2 henv hts
  exact ((combines_template hfits node).kept h).after hle

theorem refused {e : Expr} (he : e.Refused) : e.Keeps l := by
  intro names env steps r r' t _ _ h
  exact (Returns.not_refused he h).elim

end Expr.Keeps

theorem Body.Keeps.expr {l : Lint} {e : Expr} (he : e.Keeps l) : (Body.expr e).Keeps l := by
  intro names scope steps r r' t hp hs h
  rw [passes] at hp
  rw [Infer.functionBody] at h
  exact he hp hs h

theorem Body.Keeps.block {l : Lint} {ss : List Stmt} {pos : Position} (hss : ∀ s ∈ ss, s.Keeps l) :
    (Body.block ss pos).Keeps l := by
  intro names scope steps r r' t hp hs h
  rw [passes, stmtsPass_iff] at hp
  rw [Infer.functionBody_block] at h
  obtain ⟨b, r₁, hb, h⟩ := Returns.bind_iff.mp h
  have hkb := Returns.stmts_kept hss hp ⟨hs, List.forall_mem_nil _, by simp⟩ hb
  exact ((combines_block hkb.fits.typings hkb.fits.result).kept h).after hkb.le

namespace Stmt.Keeps

variable {l : Lint} {node : Node}

theorem letFunction {id : Ident} {fnode : Node} {ps : List Pattern} {body : Body} {pos : Position}
    (hbody : body.Keeps l) :
    (Stmt.decl node .letDecl [.mk (.ident id) (some (.arrow fnode ps body)) pos]).Keeps l := by
  intro names kind steps r r' b b' hp hb h
  rw [Infer.stmt_letFunction, Returns.declare_iff hb.env] at h
  obtain ⟨t, ht, -, rfl⟩ := h
  obtain ⟨ids, rfl, hd⟩ := Returns.definition_params ht
  obtain ⟨first, scope, start, asked, result, hf⟩ := typesFunction_def body hd b.env id fnode r
  have hpb := (passes_letFunction hp).2.2
  rw [Pattern.allLabels_ident] at hpb
  exact .declare hb (hf.kept hbody hpb hb.env ht) id

theorem letValue {id : Ident} {e : Expr} {pos : Position} (hne : e.isArrow = false) (he : e.Keeps l) :
    (Stmt.decl node .letDecl [.mk (.ident id) (some e) pos]).Keeps l := by
  intro names kind steps r r' b b' hp hb h
  rw [Infer.stmt_letValue steps kind b node id hne, Returns.declare_iff hb.env] at h
  obtain ⟨t, ht, -, rfl⟩ := h
  exact .declare hb (he (passes_letValue hne hp) hb.env ht) id

theorem expr (hl : l.Implies .noAssume) {e : Expr} (he : e.Keeps l) : (Stmt.expr node e).Keeps l := by
  intro names kind steps r r' b b' hp hb h
  rw [passes, Bool.and_eq_true] at hp
  obtain ⟨t, ht, rfl⟩ := (Returns.stmt_expr_iff (hl.stmt hp.1)).mp h
  exact .typing hb (he hp.2 hb.env ht)

theorem ret {e : Expr} (he : e.Keeps l) : (Stmt.ret node (some e)).Keeps l := by
  intro names kind steps r r' b b' hp hb h
  rw [passes, Bool.and_eq_true] at hp
  obtain ⟨rfl, t, ht, rfl⟩ := Returns.stmt_ret_iff.mp h
  exact .returning hb (he hp.2 hb.env ht)

theorem retNothing : (Stmt.ret node none).Keeps l := by
  intro names kind steps r r' b b' _ hb h
  obtain ⟨rfl, rfl, rfl⟩ := Returns.stmt_retNothing_iff.mp h
  exact .returning hb ⟨.refl _, Typing.fits_closed (.leaf _ _ _) names⟩

theorem block {ss : List Stmt} (hss : ∀ s ∈ ss, s.Keeps l) : (Stmt.block node ss).Keeps l := by
  intro names kind steps r r' b b' hp hb h
  rw [passes, Bool.and_eq_true, stmtsPass_iff] at hp
  obtain ⟨inner, hi, rfl⟩ := Returns.stmt_block_iff.mp h
  have hk := Returns.stmts_kept hss hp.2 hb.child hi
  exact ⟨hk.le, ⟨hb.env, hk.fits.typings, hk.fits.returned⟩, hk.grows, hk.returned⟩

theorem refused {s : Stmt} {description : String} {pos : Position} (hs : s.Refused description pos) : s.Keeps l := by
  intro names kind steps r r' b b' _ _ h
  exact (Returns.not_refusedStmt hs h).elim

end Stmt.Keeps

theorem keeps_cases {l : Lint} (hl : l.Implies .noAssume) :
    SyntaxCases (Expr.Keeps l) (Body.Keeps l) (Stmt.Keeps l) where
  literal _ _ := Expr.Keeps.literal
  ident _ _ := Expr.Keeps.ident
  array _ _ := .array
  object _ _ := .object
  member _ _ _ := .member
  binary _ _ _ _ := .binary
  conditional _ _ _ _ := .conditional
  arrow _ _ _ := .arrow
  call _ _ _ := .call
  template _ _ _ _ := .template
  refused _ := .refused
  exprBody _ := .expr
  blockBody _ _ := .block
  letFunction _ _ _ _ _ _ := .letFunction
  letValue _ _ _ _ := .letValue
  expr _ _ := .expr hl
  ret _ _ := .ret
  retNothing _ := Stmt.Keeps.retNothing
  block _ _ := .block
  refusedStmt _ _ _ := .refused

section Keeps

variable {l : Lint} (hl : l.Implies .noAssume)

include hl

theorem Expr.keeps (e : Expr) : e.Keeps l := ((keeps_cases hl).allExpr e).1

theorem Body.keeps (body : Body) : body.Keeps l := (keeps_cases hl).allBody body

theorem Stmt.keeps (s : Stmt) : s.Keeps l := (keeps_cases hl).allStmt s

end Keeps

end ScriptTypes
