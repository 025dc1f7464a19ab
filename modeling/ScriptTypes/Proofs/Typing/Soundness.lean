import ScriptTypes.Proofs.Typing.TopLevel

/-! Soundness of inference. A typing stands for all types that it takes when its variables are chosen, as long as the
choice gives the monomorphic names the types that the typing asks of them. Each of these types can be derived. -/

namespace ScriptTypes

/-- A context gives each name in sight all types that its typing stands for, when the monomorphic names have certain
types. -/
def Grounds (env : Env VarId) (Γ : Context) (M : String → Mono) : Prop :=
  ∀ y b, env.get? y = some b → ∃ σ, Assoc.get? Γ y = some σ ∧
    ∀ θ : Assignment, θ.Proper → Requirements.Meets θ M b.typing.needs → σ.Instance (b.typing.type.mono.subst θ)

namespace Grounds

variable {env scope : Env VarId} {Γ Γ' : Context} {M M' : String → Mono} {names bound : List String}

theorem hides (h : Grounds env Γ M) (hh : Hides env bound scope) (henv : env.Within names)
    (hapart : ∀ x ∈ bound, x ∉ names) (hother : ∀ x ∉ bound, M' x = M x) (hΓ : Γ.Extends bound M' Γ') :
    Grounds scope Γ' M' := by
  intro y b hb
  by_cases hy : y ∈ bound
  · obtain ⟨id, v, he⟩ := hh.hidden y hy
    cases he.symm.trans hb
    refine ⟨.mono (M' y), (hΓ y).trans (if_pos hy), fun θ _ hM => ?_⟩
    exact Scheme.instance_mono.mpr (Typing.meets_param.mp hM)
  · rw [hh.other y hy] at hb
    obtain ⟨σ, hσ, hinst⟩ := h y b hb
    refine ⟨σ, (hΓ y).trans ((if_neg hy).trans hσ), fun θ hθ hM => hinst θ hθ fun e he => ?_⟩
    -- What is asked of names outside does not change.
    have hx : e.1 ∉ bound := fun hm => hapart _ hm ((henv y b hb).2.needs.keys _ (Assoc.mem_keys_of_mem he))
    rw [hM e he, hother _ hx]

theorem insert (h : Grounds env Γ M) {x : String} {b : Bound VarId} {σ : Scheme}
    (hσ : ∀ θ : Assignment, θ.Proper → Requirements.Meets θ M b.typing.needs →
      σ.Instance (b.typing.type.mono.subst θ)) : Grounds (env.insert x b) ((x, σ) :: Γ) M := by
  intro y c hc
  rw [Env.get?_insert] at hc
  by_cases hy : y = x
  · subst hy
    rw [if_pos rfl] at hc
    cases hc
    exact ⟨σ, if_pos rfl, hσ⟩
  · rw [if_neg hy] at hc
    obtain ⟨τ, hτ, hinst⟩ := h y c hc
    exact ⟨τ, (if_neg (Ne.symm hy)).trans hτ, hinst⟩

end Grounds

/-! Generalisation. -/

namespace Assignment

/-- An assignment on certain variables. All others are moved up. -/
def spread (θ : Assignment) (fixed : List VarId) (n : Nat) : Assignment :=
  fun v => if v ∈ fixed then θ v else .var (n + v)

/-- Types for variables that were moved up. -/
def gather (θ : Assignment) (n : Nat) : Assignment :=
  fun w => if n ≤ w then θ (w - n) else .var w

variable {θ θ₁ : Assignment} {fixed : List VarId} {n : Nat} {v : VarId}

theorem spread_of_mem (h : v ∈ fixed) : θ.spread fixed n v = θ v := if_pos h

theorem spread_of_not_mem (h : v ∉ fixed) : θ.spread fixed n v = .var (n + v) := if_neg h

theorem Proper.spread (h : θ.Proper) (fixed : List VarId) (n : Nat) : (θ.spread fixed n).Proper := by
  intro v
  by_cases hv : v ∈ fixed
  · rw [spread_of_mem hv]
    exact h v
  · rw [spread_of_not_mem hv]
    exact .var _

theorem gather_of_lt (h : v < n) : θ.gather n v = .var v := if_neg (Nat.not_le_of_lt h)

theorem gather_add : θ.gather n (n + v) = θ v := by
  rw [gather, if_pos (Nat.le_add_right n v), Nat.add_sub_cancel_left]

theorem Proper.gather (h : θ.Proper) (n : Nat) : (θ.gather n).Proper := by
  intro w
  by_cases hw : n ≤ w
  · rw [Assignment.gather, if_pos hw]
    exact h _
  · rw [Assignment.gather, if_neg hw]
    exact .var w

/-- What was spread is gathered by an assignment that agrees on the fixed variables. -/
theorem spread_gather (hn : ∀ v ∈ fixed, (θ v).Below n) (hsame : ∀ v ∈ fixed, θ₁ v = θ v) :
    (θ.spread fixed n).then (θ₁.gather n) = θ₁ := by
  funext v
  by_cases hv : v ∈ fixed
  · rw [Assignment.then, spread_of_mem hv, hsame v hv]
    exact (Mono.subst_congr fun w hw => gather_of_lt (hn v hv w hw)).trans (Mono.subst_self _)
  · rw [Assignment.then, spread_of_not_mem hv, Mono.subst_var, gather_add]

end Assignment

theorem exists_above (vs : List VarId) : ∃ n : Nat, ∀ v ∈ vs, v < n := by
  induction vs with
  | nil => exact ⟨0, by simp⟩
  | cons w vs ih =>
      obtain ⟨n, hn⟩ := ih
      refine ⟨max (w + 1) n, List.forall_mem_cons.mpr ⟨?_, fun v hv => ?_⟩⟩
      · exact Nat.lt_of_succ_le (le_max_left _ _)
      · exact Nat.lt_of_lt_of_le (hn v hv) (le_max_right _ _)

/-- Among the types that a typing stands for is one whose generalisation has them all. Its variables are those that
are chosen freely, moved away from all others. -/
theorem Context.exists_generalize (Γ : Context) {t : Typing VarId} {M : String → Mono} {θ : Assignment}
    (hθ : θ.Proper) (hM : Requirements.Meets θ M t.needs) :
    ∃ θ₀ : Assignment, θ₀.Proper ∧ Requirements.Meets θ₀ M t.needs ∧
      ∀ θ₁ : Assignment, θ₁.Proper → Requirements.Meets θ₁ M t.needs →
        (Γ.generalize (t.type.mono.subst θ₀)).Instance (t.type.mono.subst θ₁) := by
  obtain ⟨fixed, hfixed⟩ : ∃ fixed, fixed = t.needs.flatMap fun e => e.2.mono.vars := ⟨_, rfl⟩
  obtain ⟨n, hn⟩ := exists_above (Γ.free ++ fixed.flatMap fun v => (θ v).vars)
  obtain ⟨hfree, hrange⟩ := List.forall_mem_append.mp hn
  refine ⟨θ.spread fixed n, hθ.spread fixed n, hM.congr fun e he v hv => ?_, fun θ₁ hθ₁ hM₁ => ?_⟩
  · exact Assignment.spread_of_mem (hfixed ▸ List.mem_flatMap.mpr ⟨e, he, hv⟩)
  · refine Scheme.instance_generalize.mpr ⟨θ₁.gather n, hθ₁.gather n, fun v hv => ?_, ?_⟩
    · exact Assignment.gather_of_lt (hfree v hv)
    · rw [← Assignment.subst_then, Assignment.spread_gather]
      · exact fun v hv w hw => hrange w (List.mem_flatMap.mpr ⟨v, hv, hw⟩)
      · -- Both choices meet the requirements, so they agree on the variables there.
        intro v hv
        obtain ⟨e, he, hv⟩ := List.mem_flatMap.mp (hfixed ▸ hv)
        exact Mono.eq_of_subst_eq ((hM₁ e he).trans (hM e he).symm) v hv

/-! What is shown by induction on syntax. -/

def Expr.Sound (l : Lint) (e : Expr) : Prop :=
  ∀ {names : List String} {env : Env VarId} {Γ : Context} {M : String → Mono} {steps : Nat} {r r' : Run}
    {t : Typing VarId}, e.passes l names = true → env.Within names → Grounds env Γ M →
      Returns (Infer.expr steps env e) r t r' → r'.Acyclic steps →
      ∀ θ : Assignment, θ.Proper → Requirements.Meets θ M t.needs → HasType Γ e (t.type.mono.subst θ)

def Body.Sound (l : Lint) (body : Body) : Prop :=
  ∀ {names : List String} {scope : Env VarId} {Γ : Context} {M : String → Mono} {steps : Nat} {r r' : Run}
    {t : Typing VarId}, body.passes l names = true → scope.Within names → Grounds scope Γ M →
      Returns (Infer.functionBody steps scope body) r t r' → r'.Acyclic steps →
      ∀ θ : Assignment, θ.Proper → Requirements.Meets θ M t.needs → HasBody Γ body (t.type.mono.subst θ)

def Stmt.Sound (l : Lint) (s : Stmt) : Prop :=
  ∀ {names : List String} {kind : BlockKind} {Γ : Context} {M : String → Mono} {steps : Nat} {r r' : Run}
    {b b' : Block}, s.passes l names = true → b.Fits names r.supply.types → b.returned = none →
      Grounds b.env Γ M → Returns (Infer.stmt steps kind b s) r b' r' → r'.Acyclic steps →
      ∀ θ : Assignment, θ.Proper → b'.Meets θ M → ∃ Γ', HasStmt Γ s Γ' (b'.returns θ) ∧ Grounds b'.env Γ' M

section Parts

variable {l : Lint} (hl : l.Implies .noAssume) {names : List String} {env : Env VarId} {Γ : Context}
  {M : String → Mono} {steps : Nat} {r r' : Run} (hac : r'.Acyclic steps) {θ : Assignment} (hθ : θ.Proper)

include hl hac hθ

theorem Returns.exprs_sound {es : List Expr} (hes : ∀ e ∈ es, e.Sound l) (hp : ∀ e ∈ es, e.passes l names = true)
    (henv : env.Within names) (hg : Grounds env Γ M) {ts : List (Typing VarId)}
    (h : Returns (Infer.exprs steps env es) r ts r') (hM : ∀ t ∈ ts, Requirements.Meets θ M t.needs) :
    HasTypes Γ es (ts.map fun t => t.type.mono.subst θ) := by
  induction es generalizing r ts with
  | nil =>
      rw [Infer.exprs] at h
      obtain ⟨rfl, -⟩ := pure_iff.mp h
      exact .nil
  | cons e es ih =>
      obtain ⟨he, hes⟩ := List.forall_mem_cons.mp hes
      obtain ⟨hpe, hps⟩ := List.forall_mem_cons.mp hp
      obtain ⟨t, us, r₁, ht, hus, rfl⟩ := exprs_cons_iff.mp h
      obtain ⟨hMt, hMus⟩ := List.forall_mem_cons.mp hM
      have hle := (exprs_kept (fun e _ => e.keeps hl) hps henv hus).1
      exact .cons (he hpe henv hg ht (hac.le hle) θ hθ hMt) (ih hes hps hus hMus)

theorem Returns.properties_sound {ps : List Property} (hps : ∀ p ∈ ps, p.value.Sound l)
    (hp : ∀ p ∈ ps, p.value.passes l names = true) (henv : env.Within names) (hg : Grounds env Γ M)
    {seen : Assoc Ident} {ts : List (String × Typing VarId)}
    (h : Returns (Infer.properties steps env seen ps) r ts r')
    (hM : ∀ p ∈ ts, Requirements.Meets θ M p.2.needs) :
    HasFields Γ ps (Assoc.mapValues (fun t => t.type.mono.subst θ) ts) := by
  induction ps generalizing r ts seen with
  | nil =>
      rw [Infer.properties] at h
      obtain ⟨rfl, -⟩ := pure_iff.mp h
      exact .nil
  | cons p ps ih =>
      obtain ⟨key, value, pos⟩ := p
      obtain ⟨hv, hps⟩ := List.forall_mem_cons.mp hps
      obtain ⟨hpv, hpp⟩ := List.forall_mem_cons.mp hp
      obtain ⟨id, t, us, r₁, hlabel, -, ht, hus, rfl⟩ := properties_cons h
      obtain ⟨hMt, hMus⟩ := List.forall_mem_cons.mp hM
      have hle := (properties_kept (fun p _ => p.value.keeps hl) hpp henv hus).1
      exact .cons hlabel (hv hpv henv hg ht (hac.le hle) θ hθ hMt) (ih hps hpp hus hMus)

theorem Returns.stmts_sound {ss : List Stmt} (hss : ∀ s ∈ ss, s.Sound l) (hp : ∀ s ∈ ss, s.passes l names = true)
    {kind : BlockKind} {b b' : Block} (hb : b.Fits names r.supply.types) (hnone : b.returned = none)
    (hg : Grounds b.env Γ M) (h : Returns (Infer.stmts steps kind b ss) r b' r') (hM : b'.Meets θ M) :
    ∃ Γ', HasStmts Γ ss Γ' (b'.returns θ) := by
  induction ss generalizing r b Γ with
  | nil =>
      rw [Infer.stmts_nil] at h
      obtain ⟨rfl, -⟩ := pure_iff.mp h
      rw [Block.returns, hnone]
      exact ⟨Γ, .nil⟩
  | cons s ss ih =>
      obtain ⟨hs, hss⟩ := List.forall_mem_cons.mp hss
      obtain ⟨hps, hpss⟩ := List.forall_mem_cons.mp hp
      obtain ⟨b₁, r₁, hb₁, ⟨hsome, rfl, rfl⟩ | ⟨hnone₁, hrest⟩⟩ := stmts_cons_iff.mp h
      · obtain ⟨Γ', hstmt, -⟩ := hs hps hb hnone hg hb₁ hac θ hθ hM
        obtain ⟨t, ht⟩ := Option.isSome_iff_exists.mp hsome
        rw [Block.returns, ht] at hstmt ⊢
        exact ⟨Γ', .returned hstmt⟩
      · have hk := s.keeps hl hps hb hb₁
        have hkrest := stmts_kept (fun s _ => s.keeps hl) hpss hk.fits hrest
        have hM₁ : b₁.Meets θ M := ⟨fun t ht => hM.typings t (hkrest.grows t ht), by simp [hnone₁]⟩
        obtain ⟨Γ₁, hstmt, hg₁⟩ := hs hps hb hnone hg hb₁ (hac.le hkrest.le) θ hθ hM₁
        obtain ⟨Γ', hstmts⟩ := ih hss hpss hk.fits hnone₁ hg₁ hrest
        rw [Block.returns, hnone₁] at hstmt
        exact ⟨Γ', .next hstmt hstmts⟩

end Parts

theorem HasTypes.const {Γ : Context} {es : List Expr} {us : List Mono} {t : Mono} (h : HasTypes Γ es us)
    (hu : ∀ u ∈ us, u = t) : HasTypes Γ es (es.map fun _ => t) := by
  induction es generalizing us with
  | nil => exact .nil
  | cons e es ih =>
      cases h with
      | cons he hes =>
          obtain ⟨rfl, hu⟩ := List.forall_mem_cons.mp hu
          exact .cons he (ih hes hu)

/-- Types of a function are types of its parameters and its body, in a context where the names that it binds are
monomorphic. -/
theorem TypesFunction.sound {x : Nat → Infer (Typing VarId)} {env : Env VarId} {bound : List String}
    {ids : List Ident} {body : Body} {r : Run} {first : VarId} {scope : Env VarId} {start : Run}
    {asked : Typing VarId → Assoc (Ty VarId)} {result : Typing VarId → List (Binding VarId) → Typing VarId}
    (hf : TypesFunction x env bound ids body r first scope start asked result) {l : Lint}
    (hl : l.Implies .noAssume) (hbody : body.Sound l) {names : List String}
    (hp : body.passes l (bound ++ names) = true) (hapart : ∀ y ∈ bound, y ∉ names) (henv : env.Within names)
    {Γ : Context} {M : String → Mono} (hg : Grounds env Γ M) {steps : Nat} {r' : Run} {t : Typing VarId}
    (h : Returns (x steps) r t r') (hac : r'.Acyclic steps) {θ : Assignment} (hθ : θ.Proper)
    (hM : Requirements.Meets θ M t.needs) :
    ∃ (M' : String → Mono) (res : Mono),
      t.type.mono.subst θ = .arrow (ids.map fun id => M' id.label) res ∧ (∀ id ∈ ids, (M' id.label).Proper) ∧
      (∀ y ∈ bound, y ∉ ids.map Ident.label → M' y = .arrow (ids.map fun id => M' id.label) res) ∧
      ∀ Γ', Γ.Extends bound M' Γ' → HasBody Γ' body res := by
  obtain ⟨u, r₁, hu, hclose⟩ := hf.returns_iff.mp h
  have hscope := hf.hides.within henv
  have hk := body.keeps hl hp hscope hu
  have ha := hf.abstracts hk.fits.within
  have hle := (Returns.close_kept ha hk.fits.within (hf.below_params hk.le) hk.fits.below hclose).le
  obtain ⟨θ', M', hθ', hMbody, hother, hown, hproper, htype⟩ :=
    Returns.close_sound ha hk.fits.within hac hclose hθ hM
  rw [map_paramsFrom] at htype
  refine ⟨M', u.type.mono.subst θ', htype, fun id hid => ?_, fun y hy hn => ?_, fun Γ' hΓ => ?_⟩
  · have hm : id.label ∈ Assoc.keys (paramsFrom first ids) := by
      rw [keys_paramsFrom]
      exact List.mem_map_of_mem hid
    obtain ⟨w, hw⟩ := Assoc.mem_keys.mp hm
    exact hproper _ hw
  · rw [← htype]
    exact hown y hy (by rwa [keys_paramsFrom])
  · exact hbody hp hscope (hg.hides hf.hides henv hapart hother hΓ) hu (hac.le hle) θ' hθ' hMbody

namespace Expr.Sound

variable {l : Lint} (hl : l.Implies .noAssume) {node : Node}

theorem literal {value : Literal} : (Expr.literal node value).Sound l := by
  intro names env Γ M steps r r' t _ _ _ h _ θ _ _
  rw [Infer.expr] at h
  obtain ⟨rfl, -⟩ := Returns.pure_iff.mp h
  simpa [Typing.closed] using HasType.literal

theorem ident {id : Ident} : (Expr.ident node id).Sound l := by
  intro names env Γ M steps r r' t _ henv hg h _ θ hθ hM
  obtain ⟨b, hb, h⟩ := Returns.expr_ident_iff.mp h
  obtain ⟨σ, hσ, hinst⟩ := hg _ b hb
  obtain ⟨θ', hθ', htype, hneeds⟩ := Returns.instantiate_sound (henv _ b hb).2 h hθ
  rw [htype]
  exact .ident hσ (hinst θ' hθ' (hneeds M hM))

theorem refused {e : Expr} (he : e.Refused) : e.Sound l := by
  intro names env Γ M steps r r' t _ _ _ h
  exact (Returns.not_refused he h).elim

include hl

theorem array {es : List Expr} (hes : ∀ e ∈ es, e.Sound l) : (Expr.array node es).Sound l := by
  intro names env Γ M steps r r' t hp henv hg h hac θ hθ hM
  simp only [passes, Bool.and_eq_true, exprsPass_iff] at hp
  rw [Infer.expr] at h
  obtain ⟨ts, r₁, hts, h⟩ := Returns.bind_iff.mp h
  obtain ⟨-, hfits⟩ := Returns.exprs_kept (fun e _ => e.keeps hl) hp.2 henv hts
  have hc := combines_array hfits node
  obtain ⟨θ', hθ', hneeds, hextra, htype⟩ := hc.sound h hac hθ hM
  have hall := Returns.exprs_sound hl (hac.le (hc.kept h).le) hθ' hes hp.2 henv hg hts
    (List.forall_mem_map.mp hneeds)
  rw [htype]
  simp only [Combination.array, Ty.array, Ty.mono_con, List.map_cons, List.map_nil, Mono.subst_con]
  refine .array ?_ (hall.const (List.forall_mem_map.mpr fun u hu => ?_))
  · simpa using hθ' _
  · exact (List.forall_mem_map.mp hextra u hu).symm

theorem object {ps : List Property} (hps : ∀ p ∈ ps, p.value.Sound l) : (Expr.object node ps).Sound l := by
  intro names env Γ M steps r r' t hp henv hg h hac θ hθ hM
  rw [passes, Bool.and_eq_true] at hp
  have hpp := forall_of_propertiesPass hp.2
  rw [Infer.expr] at h
  obtain ⟨ts, r₁, hts, h⟩ := Returns.bind_iff.mp h
  obtain ⟨-, hfits⟩ := Returns.properties_kept (fun p _ => p.value.keeps hl) hpp henv hts
  have hd := (Returns.properties_distinct hts).1
  have hc := combines_object hfits hd node
  obtain ⟨θ', hθ', hneeds, -, htype⟩ := hc.sound h hac hθ hM
  rw [htype, Combination.object_type hd]
  exact .object (Returns.properties_sound hl (hac.le (hc.kept h).le) hθ' hps hpp henv hg hts
    (List.forall_mem_map.mp hneeds)) (hd.mapValues _)

theorem member {e : Expr} {label : Ident} (he : e.Sound l) : (Expr.member node e label).Sound l := by
  intro names env Γ M steps r r' t hp henv hg h hac θ hθ hM
  rw [passes, Bool.and_eq_true] at hp
  rw [Infer.expr] at h
  obtain ⟨u, r₁, hu, hm⟩ := Returns.bind_iff.mp h
  have hk := e.keeps hl hp.2 henv hu
  obtain ⟨fs, v, htype, hd, hget, -, rfl, rfl⟩ := Returns.memberTyping hk.fits.within.type hm
  have ho := he hp.2 henv hg hu hac θ hθ hM
  rw [htype, Mono.subst_record] at ho
  refine .member ho ?_
  rw [Assoc.get?_mapValues, Assoc.get?_sort (hd.mapValues _), Assoc.get?_mapValues, hget]
  rfl

theorem binary {op : BinaryOp} {a b : Expr} (ha : a.Sound l) (hb : b.Sound l) : (Expr.binary node op a b).Sound l := by
  intro names env Γ M steps r r' t hp henv hg h hac θ hθ hM
  simp only [passes, Bool.and_eq_true] at hp
  rw [Infer.expr] at h
  obtain ⟨ta, r₁, hta, h⟩ := Returns.bind_iff.mp h
  obtain ⟨tb, r₂, htb, h⟩ := Returns.bind_iff.mp h
  have hka := a.keeps hl hp.2.1 henv hta
  have hkb := b.keeps hl hp.2.2 henv htb
  have hfits := hka.fits.le hkb.le.types
  have hparts : ∀ θ' : Assignment, θ'.Proper → r₂.Acyclic steps →
      (∀ env ∈ [ta.needs, tb.needs], Requirements.Meets θ' M env) →
      HasType Γ a (ta.type.mono.subst θ') ∧ HasType Γ b (tb.type.mono.subst θ') := by
    intro θ' hθ' hac₂ hneeds
    obtain ⟨hMa, hMb⟩ := List.forall_mem_cons.mp hneeds
    exact ⟨ha hp.2.1 henv hg hta (hac₂.le hkb.le) θ' hθ' hMa,
      hb hp.2.2 henv hg htb hac₂ θ' hθ' (List.forall_mem_singleton.mp hMb)⟩
  cases hop : op.isArithmetic with
  | true =>
      have hc := combines_arithmetic hfits hkb.fits hop node a.node b.node
      obtain ⟨θ', hθ', hneeds, hextra, htype⟩ := hc.sound h hac hθ hM
      obtain ⟨hta', htb'⟩ := hparts θ' hθ' (hac.le (hc.kept h).le) hneeds
      simp only [Combination.arithmetic, List.forall_mem_cons, Constraint.Unifies, Ty.mono_leaf,
        Mono.subst_leaf] at hextra htype
      rw [htype]
      exact .arithmetic hop (hextra.1 ▸ hta') (hextra.2.1 ▸ htb')
  | false =>
      have hc := combines_comparison hfits hkb.fits hop node a.node b.node
      obtain ⟨θ', hθ', hneeds, hextra, htype⟩ := hc.sound h hac hθ hM
      obtain ⟨hta', htb'⟩ := hparts θ' hθ' (hac.le (hc.kept h).le) hneeds
      simp only [Combination.comparison, List.forall_mem_cons, Constraint.Unifies, Ty.mono_leaf,
        Mono.subst_leaf] at hextra htype
      rw [htype]
      exact .comparison hop hta' ((hextra.1.trans hextra.2.1.symm) ▸ htb')

theorem conditional {c a b : Expr} (hc : c.Sound l) (ha : a.Sound l) (hb : b.Sound l) :
    (Expr.conditional node c a b).Sound l := by
  intro names env Γ M steps r r' t hp henv hg h hac θ hθ hM
  simp only [passes, Bool.and_eq_true] at hp
  rw [Infer.expr] at h
  obtain ⟨tc, r₁, htc, h⟩ := Returns.bind_iff.mp h
  obtain ⟨ta, r₂, hta, h⟩ := Returns.bind_iff.mp h
  obtain ⟨tb, r₃, htb, h⟩ := Returns.bind_iff.mp h
  have hkc := c.keeps hl hp.2.1.1 henv htc
  have hka := a.keeps hl hp.2.1.2 henv hta
  have hkb := b.keeps hl hp.2.2 henv htb
  have hle := hka.le.trans hkb.le
  have hcom := combines_conditional (hkc.fits.le hle.types) (hka.fits.le hkb.le.types) hkb.fits c.node
  obtain ⟨θ', hθ', hneeds, hextra, htype⟩ := hcom.sound h hac hθ hM
  have hac₃ := hac.le (hcom.kept h).le
  simp only [Combination.conditional, List.forall_mem_cons, Constraint.Unifies, Ty.mono_leaf,
    Mono.subst_leaf] at hneeds hextra htype
  have htest := hc hp.2.1.1 henv hg htc (hac₃.le hle) θ' hθ' hneeds.1
  have hother := hb hp.2.2 henv hg htb hac₃ θ' hθ' hneeds.2.2.1
  rw [htype]
  exact .conditional (hextra.1 ▸ htest) (ha hp.2.1.2 henv hg hta (hac₃.le hkb.le) θ' hθ' hneeds.2.1)
    (hextra.2.1 ▸ hother)

theorem arrow (hapart : l.Implies .apart) {ps : List Pattern} {body : Body} (hbody : body.Sound l) :
    (Expr.arrow node ps body).Sound l := by
  intro names env Γ M steps r r' t hp henv hg h hac θ hθ hM
  obtain ⟨ids, rfl, hd⟩ := Returns.expr_arrow_params h
  obtain ⟨first, scope, start, asked, result, hf⟩ := typesFunction_arrow body hd env node r
  obtain ⟨hpe, hpb⟩ := passes_arrow hp
  rw [Pattern.allLabels_ident] at hpb
  obtain ⟨M', res, htype, hproper, -, hbody⟩ :=
    hf.sound hl hbody hpb (Lint.apart_arrow (hapart.expr hpe)) henv hg h hac hθ hM
  rw [htype]
  exact .arrow (by simp) (List.forall_mem_map.mpr hproper) (hbody _ (Γ.extends_params ids M'))

theorem call {f : Expr} {as : List Expr} (hf : f.Sound l) (has : ∀ a ∈ as, a.Sound l) :
    (Expr.call node f as).Sound l := by
  intro names env Γ M steps r r' t hp henv hg h hac θ hθ hM
  simp only [passes, Bool.and_eq_true, exprsPass_iff] at hp
  rw [Infer.expr] at h
  obtain ⟨tf, r₁, htf, h⟩ := Returns.bind_iff.mp h
  obtain ⟨ts, r₂, hts, h⟩ := Returns.bind_iff.mp h
  have hkf := f.keeps hl hp.2.1 henv htf
  obtain ⟨hle, hfits⟩ := Returns.exprs_kept (fun e _ => e.keeps hl) hp.2.2 henv hts
  have hc := combines_call (hkf.fits.le hle.types) hfits node f.node
  obtain ⟨θ', hθ', hneeds, hextra, htype⟩ := hc.sound h hac hθ hM
  have hac₂ := hac.le (hc.kept h).le
  obtain ⟨hMs, hMf⟩ := List.forall_mem_append.mp hneeds
  have hargs := Returns.exprs_sound hl hac₂ hθ' has hp.2.2 henv hg hts (List.forall_mem_map.mp hMs)
  have hcallee := hf hp.2.1 henv hg htf (hac₂.le hle) θ' hθ' (List.forall_mem_singleton.mp hMf)
  have hfun := List.forall_mem_singleton.mp hextra
  rw [Constraint.Unifies] at hfun
  rw [hfun, Ty.mono_arrow, Mono.subst_arrow, List.map_map, List.map_map] at hcallee
  rw [htype]
  exact .call hcallee hargs

theorem template {texts : List String} {es : List Expr} {pos : Position} (hes : ∀ e ∈ es, e.Sound l) :
    (Expr.template node (.mk texts es pos)).Sound l := by
  intro names env Γ M steps r r' t hp henv hg h hac θ hθ hM
  simp only [passes, Template.passes, Bool.and_eq_true, exprsPass_iff] at hp
  rw [Infer.expr] at h
  obtain ⟨ts, r₁, hts, h⟩ := Returns.bind_iff.mp h
  obtain ⟨-, hfits⟩ := Returns.exprs_kept (fun e _ => e.keeps hl) hp.2 henv hts
  have hc := combines_template hfits node
  obtain ⟨θ', hθ', hneeds, -, htype⟩ := hc.sound h hac hθ hM
  rw [htype, Combination.template, Ty.mono_leaf, Mono.subst_leaf]
  exact .template (Returns.exprs_sound hl (hac.le (hc.kept h).le) hθ' hes hp.2 henv hg hts
    (List.forall_mem_map.mp hneeds))

end Expr.Sound

theorem Body.Sound.expr {l : Lint} {e : Expr} (he : e.Sound l) : (Body.expr e).Sound l := by
  intro names scope Γ M steps r r' t hp hs hg h hac θ hθ hM
  rw [passes] at hp
  rw [Infer.functionBody] at h
  exact .expr (he hp hs hg h hac θ hθ hM)

theorem Body.Sound.block {l : Lint} (hl : l.Implies .noAssume) {ss : List Stmt} {pos : Position}
    (hss : ∀ s ∈ ss, s.Sound l) : (Body.block ss pos).Sound l := by
  intro names scope Γ M steps r r' t hp hs hg h hac θ hθ hM
  rw [passes, stmtsPass_iff] at hp
  rw [Infer.functionBody_block] at h
  obtain ⟨b, r₁, hb, h⟩ := Returns.bind_iff.mp h
  have hstart : Block.Fits names r.supply.types ⟨scope, [], none⟩ := ⟨hs, List.forall_mem_nil _, by simp⟩
  have hk := Returns.stmts_kept (fun s _ => s.keeps hl) hp hstart hb
  have hc := combines_block hk.fits.typings hk.fits.result
  obtain ⟨θ', hθ', hneeds, -, htype⟩ := hc.sound h hac hθ hM
  obtain ⟨hMs, hMr⟩ := List.forall_mem_append.mp hneeds
  have hMb : b.Meets θ' M := by
    refine ⟨List.forall_mem_map.mp hMs, fun t ht => ?_⟩
    have hr := List.forall_mem_singleton.mp hMr
    rwa [Block.result, ht] at hr
  obtain ⟨Γ', hstmts⟩ := Returns.stmts_sound hl (hac.le (hc.kept h).le) hθ' hss hp hstart rfl hg hb hMb
  rw [htype, Combination.block, Block.result_type]
  exact .block hstmts

/-- A declaration binds a name to a typing, and any type that the typing stands for may be generalised for it. -/
def Stmt.Declares (l : Lint) (s : Stmt) (id : Ident) : Prop :=
  ∀ {names : List String} {kind : BlockKind} {Γ : Context} {M : String → Mono} {steps : Nat} {r r' : Run}
    {b b' : Block}, s.passes l names = true → b.Fits names r.supply.types → Grounds b.env Γ M →
      Returns (Infer.stmt steps kind b s) r b' r' → r'.Acyclic steps →
      ∃ t, id.label ∉ Assoc.keys b.env.current ∧
        b' = ⟨b.env.insert id.label ⟨id, t, false⟩, b.typings ++ [t], b.returned⟩ ∧
        ∀ θ : Assignment, θ.Proper → Requirements.Meets θ M t.needs →
          HasStmt Γ s ((id.label, Γ.generalize (t.type.mono.subst θ)) :: Γ) none

namespace Stmt.Declares

variable {l : Lint} {node : Node} {id : Ident} {pos : Position}

theorem function (hl : l.Implies .noAssume) (hapart : l.Implies .apart) {fnode : Node} {ps : List Pattern} {body : Body}
    (hbody : body.Sound l) :
    (Stmt.decl node .letDecl [.mk (.ident id) (some (.arrow fnode ps body)) pos]).Declares l id := by
  intro names kind Γ M steps r r' b b' hp hb hg h hac
  rw [Infer.stmt_letFunction, Returns.declare_iff hb.env] at h
  obtain ⟨t, ht, hnew, rfl⟩ := h
  obtain ⟨ids, rfl, hd⟩ := Returns.definition_params ht
  obtain ⟨first, scope, start, asked, result, hf⟩ := typesFunction_def body hd b.env id fnode r
  obtain ⟨hps, hpe, hpb⟩ := passes_letFunction hp
  rw [Pattern.allLabels_ident] at hpb
  have hnames : ∀ y ∈ ids.map Ident.label ++ [id.label], y ∉ names := List.forall_mem_append.mpr
    ⟨Lint.apart_arrow (hapart.expr hpe), List.forall_mem_singleton.mpr (Lint.apart_letFunction (hapart.stmt hps))⟩
  refine ⟨t, hnew, rfl, fun θ hθ hM => ?_⟩
  obtain ⟨M', res, htype, hproper, hown, hbody⟩ := hf.sound hl hbody hpb hnames hb.env hg ht hac hθ hM
  rw [htype]
  exact .letFunction (by simp) (List.forall_mem_map.mpr hproper) (hbody _ (Γ.extends_own ids (hown _ (by simp))))

theorem value {e : Expr} (hne : e.isArrow = false) (he : e.Sound l) :
    (Stmt.decl node .letDecl [.mk (.ident id) (some e) pos]).Declares l id := by
  intro names kind Γ M steps r r' b b' hp hb hg h hac
  rw [Infer.stmt_letValue steps kind b node id hne, Returns.declare_iff hb.env] at h
  obtain ⟨t, ht, hnew, rfl⟩ := h
  exact ⟨t, hnew, rfl, fun θ hθ hM => .letValue hne (he (passes_letValue hne hp) hb.env hg ht hac θ hθ hM)⟩

theorem sound {s : Stmt} (hs : s.Declares l id) : s.Sound l := by
  intro names kind Γ M steps r r' b b' hp hb hnone hg h hac θ hθ hM
  obtain ⟨t, -, rfl, hall⟩ := hs hp hb hg h hac
  obtain ⟨θ₀, hθ₀, hM₀, hinst⟩ := Γ.exists_generalize hθ hM.typing
  refine ⟨_, ?_, hg.insert hinst⟩
  rw [Block.returns, hnone]
  exact hall θ₀ hθ₀ hM₀

end Stmt.Declares

namespace Stmt.Sound

variable {l : Lint} {node : Node}

theorem expr (hl : l.Implies .noAssume) {e : Expr} (he : e.Sound l) : (Stmt.expr node e).Sound l := by
  intro names kind Γ M steps r r' b b' hp hb hnone hg h hac θ hθ hM
  rw [passes, Bool.and_eq_true] at hp
  obtain ⟨t, ht, rfl⟩ := (Returns.stmt_expr_iff (hl.stmt hp.1)).mp h
  refine ⟨Γ, ?_, hg⟩
  rw [Block.returns, hnone]
  exact .expr (he hp.2 hb.env hg ht hac θ hθ hM.typing)

theorem ret {e : Expr} (he : e.Sound l) : (Stmt.ret node (some e)).Sound l := by
  intro names kind Γ M steps r r' b b' hp hb _ hg h hac θ hθ hM
  rw [passes, Bool.and_eq_true] at hp
  obtain ⟨-, t, ht, rfl⟩ := Returns.stmt_ret_iff.mp h
  exact ⟨Γ, .ret (he hp.2 hb.env hg ht hac θ hθ (hM.returned t rfl)), hg⟩

theorem retNothing : (Stmt.ret node none).Sound l := by
  intro names kind Γ M steps r r' b b' _ _ _ hg h _ θ _ _
  obtain ⟨-, rfl, -⟩ := Returns.stmt_retNothing_iff.mp h
  refine ⟨Γ, ?_, hg⟩
  simpa [Block.returns, Typing.closed] using HasStmt.retNothing

theorem block (hl : l.Implies .noAssume) {ss : List Stmt} (hss : ∀ s ∈ ss, s.Sound l) :
    (Stmt.block node ss).Sound l := by
  intro names kind Γ M steps r r' b b' hp hb hnone hg h hac θ hθ hM
  rw [passes, Bool.and_eq_true, stmtsPass_iff] at hp
  obtain ⟨inner, hi, rfl⟩ := Returns.stmt_block_iff.mp h
  obtain ⟨Γ', hstmts⟩ := Returns.stmts_sound hl hac hθ hss hp.2 hb.child hnone hg hi ⟨hM.typings, hM.returned⟩
  exact ⟨Γ, .block hstmts, hg⟩

theorem refused {s : Stmt} {description : String} {pos : Position} (hs : s.Refused description pos) : s.Sound l := by
  intro names kind Γ M steps r r' b b' _ _ _ _ h
  exact (Returns.not_refusedStmt hs h).elim

end Stmt.Sound

theorem sound_cases {l : Lint} (hl : l.Implies .noAssume) (hapart : l.Implies .apart) :
    SyntaxCases (Expr.Sound l) (Body.Sound l) (Stmt.Sound l) where
  literal _ _ := Expr.Sound.literal
  ident _ _ := Expr.Sound.ident
  array _ _ := .array hl
  object _ _ := .object hl
  member _ _ _ := .member hl
  binary _ _ _ _ := .binary hl
  conditional _ _ _ _ := .conditional hl
  arrow _ _ _ := .arrow hl hapart
  call _ _ _ := .call hl
  template _ _ _ _ := .template hl
  refused _ := .refused
  exprBody _ := .expr
  blockBody _ _ := .block hl
  letFunction _ _ _ _ _ _ hbody := Stmt.Declares.sound (Stmt.Declares.function hl hapart hbody)
  letValue _ _ _ _ hne he := Stmt.Declares.sound (Stmt.Declares.value hne he)
  expr _ _ := .expr hl
  ret _ _ := .ret
  retNothing _ := Stmt.Sound.retNothing
  block _ _ := .block hl
  refusedStmt _ _ _ := .refused

/-! Scripts. -/

theorem Stmt.declares {l : Lint} (hl : l.Implies .noAssume) (hapart : l.Implies .apart) (node : Node) (id : Ident)
    (e : Expr) (pos : Position) : (Stmt.decl node .letDecl [.mk (.ident id) (some e) pos]).Declares l id := by
  cases hne : e.isArrow with
  | false => exact Declares.value hne ((sound_cases hl hapart).allExpr e).1
  | true =>
      cases e with
      | arrow fnode ps body => exact Declares.function hl hapart ((sound_cases hl hapart).allBody body)
      | _ => cases hne

section Scripts

variable {l : Lint} (hl : l.Implies .noAssume) (hapart : l.Implies .apart) {steps : Nat} {r r' : Run} {b b' : Block}
  {M : String → Mono}

include hl hapart

/-- A statement at the top level. -/
theorem Returns.stmt_top {s : Stmt} (hp : s.passes l [] = true) (hb : b.Fits [] r.supply.types)
    (hnone : b.returned = none) (hg : Grounds b.env (Env.context b.env) M)
    (h : Returns (Infer.stmt steps .top b s) r b' r') (hac : r'.Acyclic steps) :
    HasStmt (Env.context b.env) s (Env.context b'.env) none ∧ Grounds b'.env (Env.context b'.env) M := by
  have hk := s.keeps hl hp hb h
  have hM : b'.Meets .var M := by
    refine ⟨fun t ht => ?_, fun t ht => ?_⟩
    · rw [(hk.fits.typings t ht).within.needs.eq_nil]
      exact List.forall_mem_nil _
    · rw [hk.returned rfl, hnone] at ht
      cases ht
  obtain ⟨Γ', hstmt, hg'⟩ := (sound_cases hl hapart).allStmt s hp hb hnone hg h hac .var .var hM
  rw [Block.returns, hk.returned rfl, hnone] at hstmt
  cases s using Stmt.induction_on with
  | decl node id e pos =>
      obtain ⟨t, hnew, rfl, hall⟩ := Stmt.declares hl hapart node id e pos hp hb hg h hac
      have hdecl := hall .var .var hM.typing
      rw [Mono.subst_self, Env.generalize_context] at hdecl
      rw [Env.context_insert hnew]
      refine ⟨hdecl, hg.insert fun θ hθ _ => Scheme.instance_generalize.mpr ⟨θ, hθ, ?_, rfl⟩⟩
      simp [Context.free]
  | assume | tagged | expr =>
      rw [Stmt.passes, Bool.and_eq_true] at hp
      obtain ⟨t, -, rfl⟩ := (stmt_expr_iff (hl.stmt hp.1)).mp h
      cases hstmt with
      | expr he => exact ⟨.expr he, hg⟩
  | block =>
      obtain ⟨inner, -, rfl⟩ := stmt_block_iff.mp h
      cases hstmt with
      | block hss => exact ⟨.block hss, hg⟩
  | ret | retNothing => cases hstmt
  | refused s description pos hs => exact (not_refusedStmt hs h).elim

theorem Infers.sound {ss : List Stmt} (hp : ∀ s ∈ ss, s.passes l [] = true) (hb : b.Fits [] r.supply.types)
    (hnone : b.returned = none) (hg : Grounds b.env (Env.context b.env) M) (h : Infers steps b ss r b' r')
    (hac : r'.Acyclic steps) : HasStmts (Env.context b.env) ss (Env.context b'.env) none := by
  induction ss generalizing r b with
  | nil =>
      obtain ⟨rfl, -⟩ := nil_iff.mp h
      exact .nil
  | cons s ss ih =>
      obtain ⟨hps, hpss⟩ := List.forall_mem_cons.mp hp
      obtain ⟨b₁, r₁, hb₁, hrest⟩ := cons_iff.mp h
      have hk := s.keeps hl hps hb hb₁
      have hac₁ := hac.le (hrest.kept hl hpss hk.fits).le
      obtain ⟨hstmt, hg₁⟩ := Returns.stmt_top hl hapart hps hb hnone hg hb₁ hac₁
      exact .next hstmt (ih hpss hk.fits ((hk.returned rfl).trans hnone) hg₁ hrest)

end Scripts

/-- When inference of a script ends without an error, and no unification in the run bound a variable to a type in
which it occurs, then the script is well typed, and each of its top-level names has exactly the generalisation of the
type that was inferred for it. The script makes no assumptions, and binds no monomorphic name again as a parameter or
as the name of a function. -/
theorem Script.infer_sound {steps : Nat} {s : Script} {env : Env VarId}
    (hp : s.passes (Lint.noAssume.and .apart) = true) (h : s.infer steps = .ok ⟨env, none⟩)
    (hac : ∀ p ∈ (s.run steps).2.problems, p.Acyclic steps) : s.Derives env.context := by
  obtain ⟨b, r, hinfers, rfl⟩ := infer_eq_ok_iff.mp h
  have hrun : (s.run steps).2 = r := by
    rw [run_eq]
    exact congrArg Prod.snd hinfers
  have hg : Grounds .empty [] fun _ => .leaf .undefined := by
    intro y b hb
    rw [Env.get?_empty] at hb
    cases hb
  exact hinfers.sound (Lint.Implies.refl _).and_left (Lint.Implies.refl _).and_right (stmtsPass_iff.mp hp)
    (Block.fits_empty _) rfl hg (hrun ▸ hac)

theorem Script.infer_sound_pairing :
    pairing.Derives [("texts", ⟨[], .con "Array" [.leaf .str]⟩), ("flags", ⟨[], .con "Array" [.leaf .bool]⟩),
      ("pair", ⟨[6, 6], .arrow [.var 6] (.con "Array" [.var 6])⟩)] := by
  have htypes : pairingEnv.types = [
      ("pair", .arrow [.var 6 none] (.array (.var 6 (some pairing.node)) (some pairing.node)) (some pairing.node)),
      ("flags", .array (.leaf .bool (some pairing.node)) (some pairing.node)),
      ("texts", .array (.leaf .str (some pairing.node)) (some pairing.node))] := by decide +kernel
  have hacyclic : ∀ p ∈ (pairing.run 20).2.problems, p.Acyclic 20 := by decide +kernel
  have hsound := infer_sound (by decide) infer_pairing hacyclic
  rw [Env.context, htypes] at hsound
  exact hsound

end ScriptTypes
