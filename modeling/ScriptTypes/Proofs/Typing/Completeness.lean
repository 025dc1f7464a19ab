import ScriptTypes.Proofs.Typing.TopLevel

/-! Completeness of inference. When an expression has a type, inference finds a typing that stands for it: some choice
of its variables gives the type, and gives the monomorphic names the types that they have. So the types that are
found are most general. -/

namespace ScriptTypes

/-- A computation returns when its limit of steps is high enough. What it returns is described under an assignment
that keeps all variables handed out before. -/
def Finds {α : Type} (x : Nat → Infer α) (r : Run) (θ₀ : Assignment) (P : α → Run → Assignment → Prop) : Prop :=
  ∃ a r' θ, Reaches x r a r' ∧ r.Le r' ∧ θ.AgreeBelow r.supply.types θ₀ ∧ P a r' θ

namespace Finds

variable {α β : Type} {x : Nat → Infer α} {r : Run} {θ₀ : Assignment} {P : α → Run → Assignment → Prop}
  {Q : β → Run → Assignment → Prop}

theorem pure {a : α} (h : P a r θ₀) : Finds (fun _ => pure a) r θ₀ P :=
  ⟨a, r, θ₀, .of_returns (Returns.pure a r), .refl r, .refl, h⟩

/-- What comes first returns without a change. -/
theorem after {x : Infer α} {a : α} {f : Nat → α → Infer β} (hx : Returns x r a r) (hf : Finds (f · a) r θ₀ Q) :
    Finds (fun steps => x >>= f steps) r θ₀ Q := by
  obtain ⟨b, r', θ, hreach, hle, hagree, hb⟩ := hf
  exact ⟨b, r', θ, (Reaches.of_returns hx).bind hreach, hle, hagree, hb⟩

theorem bind {f : Nat → α → Infer β} (h : Finds x r θ₀ P)
    (hf : ∀ a r₁ θ₁, r.Le r₁ → θ₁.AgreeBelow r.supply.types θ₀ → P a r₁ θ₁ → Finds (f · a) r₁ θ₁ Q) :
    Finds (fun steps => x steps >>= f steps) r θ₀ Q := by
  obtain ⟨a, r₁, θ₁, hx, hle, hagree, ha⟩ := h
  obtain ⟨b, r₂, θ₂, hy, hle', hagree', hb⟩ := hf a r₁ θ₁ hle hagree ha
  exact ⟨b, r₂, θ₂, hx.bind hy, hle.trans hle', (hagree'.le hle.types).trans hagree, hb⟩

/-- Another computation returns whenever the first does. -/
theorem map {y : Nat → Infer β} {g : α → β} (h : Finds x r θ₀ P)
    (hy : ∀ {steps a r'}, Returns (x steps) r a r' → Returns (y steps) r (g a) r')
    (hQ : ∀ {a r' θ}, r.Le r' → θ.AgreeBelow r.supply.types θ₀ → P a r' θ → Q (g a) r' θ) : Finds y r θ₀ Q := by
  obtain ⟨a, r', θ, ⟨limit, hx⟩, hle, hagree, ha⟩ := h
  exact ⟨g a, r', θ, ⟨limit, fun steps hge => hy (hx steps hge)⟩, hle, hagree, hQ hle hagree ha⟩

end Finds

/-- A typing stands for a type: under an assignment it has the type, and asks for the types that monomorphic names
have. -/
structure Typing.Stands (names : List String) (n : Nat) (θ : Assignment) (M : String → Mono) (T : Typing VarId)
    (t : Mono) : Prop where
  fits : T.Fits names n
  needs : Requirements.Meets θ M T.needs
  type : T.type.mono.subst θ = t

theorem Typing.Stands.agree {names : List String} {n m : Nat} {θ θ' : Assignment} {M : String → Mono}
    {T : Typing VarId} {t : Mono} (h : T.Stands names n θ M t) (hnm : n ≤ m) (hθ : θ'.AgreeBelow n θ) :
    T.Stands names m θ' M t :=
  ⟨h.fits.le hnm, h.needs.agree h.fits.below.needs hθ, (h.fits.below.type.subst_eq hθ).trans h.type⟩

/-- Each name of a context is in sight, with a typing that stands for all instances of its scheme. The types of
monomorphic names are over the variables of the context. -/
structure Covers (names : List String) (env : Env VarId) (Γ : Context) (M : String → Mono) : Prop where
  typing : ∀ {y σ}, Assoc.get? Γ y = some σ → ∃ b, env.get? y = some b ∧ ∀ t, σ.Instance t →
    ∃ θ, Requirements.Meets θ M b.typing.needs ∧ b.typing.type.mono.subst θ = t
  fixed : ∀ x ∈ names, ∀ v ∈ (M x).vars, v ∈ Γ.free

namespace Covers

variable {env scope : Env VarId} {Γ Γ' : Context} {M M' : String → Mono} {names bound : List String}

theorem child (h : Covers names env Γ M) : Covers names env.child Γ M := ⟨h.typing, h.fixed⟩

theorem hides (h : Covers names env Γ M) (hh : Hides env bound scope) (henv : env.Within names)
    (hapart : ∀ x ∈ bound, x ∉ names) (hother : ∀ x ∉ bound, M' x = M x) (hΓ : Γ.Extends bound M' Γ')
    (hsub : Γ ⊆ Γ') : Covers (bound ++ names) scope Γ' M' := by
  constructor
  · intro y σ hσ
    rw [hΓ y] at hσ
    by_cases hy : y ∈ bound
    · obtain ⟨id, v, hb⟩ := hh.hidden y hy
      rw [if_pos hy] at hσ
      cases hσ
      refine ⟨_, hb, fun t ht => ⟨fun _ => M' y, Typing.meets_param.mpr ?_, ?_⟩⟩
      · rw [Ty.mono_var, Mono.subst_var]
      · rw [Scheme.instance_mono.mp ht, Typing.param, Ty.mono_var, Mono.subst_var]
    · rw [if_neg hy] at hσ
      obtain ⟨b, hb, hall⟩ := h.typing hσ
      refine ⟨b, (hh.other y hy).trans hb, fun t ht => ?_⟩
      obtain ⟨θ, hM, htype⟩ := hall t ht
      refine ⟨θ, fun e he => ?_, htype⟩
      -- What is asked of names outside does not change.
      have hx : e.1 ∉ bound := fun hm => hapart _ hm ((henv y b hb).2.needs.keys _ (Assoc.mem_keys_of_mem he))
      rw [hM e he, hother _ hx]
  · intro x hx v hv
    by_cases hb : x ∈ bound
    · exact Context.mem_free_of_mono ((hΓ x).trans (if_pos hb)) hv
    · rw [hother x hb] at hv
      exact Context.free_subset hsub (h.fixed x ((List.mem_append.mp hx).resolve_left hb) v hv)

/-- A name is declared with a typing that stands for a type, and the type is generalised for it. -/
theorem declare (h : Covers names env Γ M) {n : Nat} {θ : Assignment} {T : Typing VarId} {t : Mono}
    (hT : T.Stands names n θ M t) (id : Ident) :
    Covers names (env.insert id.label ⟨id, T, false⟩) ((id.label, Γ.generalize t) :: Γ) M := by
  refine ⟨fun {y σ} hσ => ?_, fun x hx v hv => Context.free_subset (List.subset_cons_self _ _) (h.fixed x hx v hv)⟩
  rw [Assoc.get?] at hσ
  rw [Env.get?_insert]
  by_cases hy : id.label = y
  · rw [if_pos hy] at hσ
    cases hσ
    rw [if_pos hy.symm]
    refine ⟨_, rfl, fun u hu => ?_⟩
    obtain ⟨φ, -, hφ, rfl⟩ := Scheme.instance_generalize.mp hu
    refine ⟨θ.then φ, fun e he => ?_, ?_⟩
    · -- Variables of monomorphic types are not generalised.
      rw [Assignment.subst_then, hT.needs e he]
      refine (Mono.subst_congr fun v hv => hφ v ?_).trans (Mono.subst_self _)
      exact h.fixed e.1 (hT.fits.within.needs.keys _ (Assoc.mem_keys_of_mem he)) v hv
    · rw [Assignment.subst_then, hT.type]
  · rw [if_neg hy] at hσ
    rw [if_neg (Ne.symm hy)]
    exact h.typing hσ

end Covers

/-! What is shown by induction on syntax. -/

def Expr.Complete (l : Lint) (e : Expr) : Prop :=
  ∀ {names : List String} {env : Env VarId} {Γ : Context} {M : String → Mono} {t : Mono},
    e.passes l names = true → env.Within names → Covers names env Γ M → HasType Γ e t →
      ∀ (r : Run) (θ₀ : Assignment),
        Finds (Infer.expr · env e) r θ₀ fun T r' θ => T.Stands names r'.supply.types θ M t

def Body.Complete (l : Lint) (body : Body) : Prop :=
  ∀ {names : List String} {scope : Env VarId} {Γ : Context} {M : String → Mono} {t : Mono},
    body.passes l names = true → scope.Within names → Covers names scope Γ M →
      body.declared.Nodup → (∀ x ∈ body.declared, x ∉ Assoc.keys scope.current) → HasBody Γ body t →
      ∀ (r : Run) (θ₀ : Assignment),
        Finds (Infer.functionBody · scope body) r θ₀ fun T r' θ => T.Stands names r'.supply.types θ M t

/-- A block in which all types are found, so far. -/
structure Block.Stands (names : List String) (n : Nat) (θ : Assignment) (M : String → Mono) (b : Block)
    (Γ : Context) (returned : Option Mono) : Prop where
  fits : b.Fits names n
  meets : b.Meets θ M
  returns : b.returns θ = returned
  covers : Covers names b.env Γ M

/-- At most one name is declared, among certain ones. -/
def Env.Declares (env : Env VarId) (labels : List String) (env' : Env VarId) : Prop :=
  env' = env ∨ ∃ id t, id.label ∈ labels ∧ env' = env.insert id.label ⟨id, t, false⟩

def Stmt.Complete (l : Lint) (s : Stmt) : Prop :=
  ∀ {names : List String} {kind : BlockKind} {Γ Γ' : Context} {M : String → Mono} {returned : Option Mono} {b : Block}
    {r : Run} {θ₀ : Assignment}, s.passes l names = true → b.Stands names r.supply.types θ₀ M Γ none →
      (∀ x ∈ Stmt.declared [s], x ∉ Assoc.keys b.env.current) → kind = .function ∨ returned = none →
      HasStmt Γ s Γ' returned →
        Finds (Infer.stmt · kind b s) r θ₀ fun b' r' θ => b'.Stands names r'.supply.types θ M Γ' returned ∧
          b.env.Declares (Stmt.declared [s]) b'.env

/-! Rules, lists of parts, and functions. -/

theorem Combines.finds {names : List String} {x : Nat → Infer (Typing VarId)} {r start : Run} {c : Combination}
    (hx : Combines names x r c start) {θ₀ θ : Assignment} (hagree : θ.AgreeBelow r.supply.types θ₀)
    {M : String → Mono} (hM : ∀ env ∈ c.needs, Requirements.Meets θ M env) (hθ : ∀ d ∈ c.extra, d.Unifies θ)
    {t : Mono} (ht : c.type.mono.subst θ = t) :
    Finds x r θ₀ fun T r' θ' => T.Stands names r'.supply.types θ' M t := by
  obtain ⟨T, r', hreach, θ', hagree', hneeds, htype⟩ := hx.complete hM hθ
  obtain ⟨limit, hl⟩ := hreach
  have hk := hx.kept (hl limit le_rfl)
  exact ⟨T, r', θ', ⟨limit, hl⟩, hk.le, (hagree'.le hx.le.types).trans hagree, hk.fits, hneeds, htype.trans ht⟩

/-- An assignment with another type for the next variable. -/
theorem Assignment.AgreeBelow.next (r : Run) (θ : Assignment) (t : Mono) :
    AgreeBelow r.supply.types (Function.update θ r.supply.types t) θ :=
  fun _ hv => Function.update_of_ne (Nat.ne_of_lt hv) _ _

section Lists

variable {names : List String} {n : Nat} {θ : Assignment} {M : String → Mono}

/-- Typings stand for the types at their places. -/
def AllStand (names : List String) (n : Nat) (θ : Assignment) (M : String → Mono) (Ts : List (Typing VarId))
    (ts : List Mono) : Prop :=
  List.Forall₂ (fun T t => T.Stands names n θ M t) Ts ts

theorem AllStand.agree {m : Nat} {θ' : Assignment} {Ts : List (Typing VarId)} {ts : List Mono}
    (h : AllStand names n θ M Ts ts) (hnm : n ≤ m) (hθ : θ'.AgreeBelow n θ) : AllStand names m θ' M Ts ts :=
  List.Forall₂.imp (fun _ _ hT => hT.agree hnm hθ) h

theorem AllStand.forall {Ts : List (Typing VarId)} {ts : List Mono} (h : AllStand names n θ M Ts ts) :
    (∀ T ∈ Ts, T.Fits names n) ∧ (∀ env ∈ Ts.map Typing.needs, Requirements.Meets θ M env) ∧
      (Ts.map fun T => T.type.mono.subst θ) = ts := by
  induction h with
  | nil => simp
  | cons hT _ ih =>
      obtain ⟨hfits, hM, htypes⟩ := ih
      exact ⟨List.forall_mem_cons.mpr ⟨hT.fits, hfits⟩, List.forall_mem_cons.mpr ⟨hT.needs, hM⟩,
        List.cons_eq_cons.mpr ⟨hT.type, htypes⟩⟩

/-- Labelled typings stand for the types of the fields at their places. -/
def FieldsStand (names : List String) (n : Nat) (θ : Assignment) (M : String → Mono)
    (Ts : List (String × Typing VarId)) (fields : Assoc Mono) : Prop :=
  List.Forall₂ (fun p f => p.1 = f.1 ∧ p.2.Stands names n θ M f.2) Ts fields

theorem FieldsStand.forall {Ts : List (String × Typing VarId)} {fields : Assoc Mono}
    (h : FieldsStand names n θ M Ts fields) :
    (∀ p ∈ Ts, p.2.Fits names n) ∧ (∀ p ∈ Ts, Requirements.Meets θ M p.2.needs) ∧
      Assoc.mapValues (fun T => T.type.mono.subst θ) Ts = fields := by
  induction h with
  | nil => simp
  | cons hT _ ih =>
      obtain ⟨hfits, hM, htypes⟩ := ih
      refine ⟨List.forall_mem_cons.mpr ⟨hT.2.fits, hfits⟩, List.forall_mem_cons.mpr ⟨hT.2.needs, hM⟩, ?_⟩
      exact List.cons_eq_cons.mpr ⟨Prod.ext hT.1 hT.2.type, htypes⟩

variable {l : Lint} {env : Env VarId} {Γ : Context} (henv : env.Within names) (hc : Covers names env Γ M)

include henv hc

theorem finds_exprs {es : List Expr} (hes : ∀ e ∈ es, e.Complete l) (hp : ∀ e ∈ es, e.passes l names = true)
    {ts : List Mono} (h : HasTypes Γ es ts) (r : Run) (θ₀ : Assignment) :
    Finds (Infer.exprs · env es) r θ₀ fun Ts r' θ => AllStand names r'.supply.types θ M Ts ts := by
  induction es generalizing ts r θ₀ with
  | nil =>
      cases h
      simp only [Infer.exprs]
      exact .pure .nil
  | cons e es ih =>
      obtain ⟨he, hes⟩ := List.forall_mem_cons.mp hes
      obtain ⟨hpe, hps⟩ := List.forall_mem_cons.mp hp
      cases h with
      | cons ht hts =>
          simp only [Infer.exprs]
          refine (he hpe henv hc ht r θ₀).bind fun T r₁ θ₁ _ _ hT => ?_
          refine (ih hes hps hts r₁ θ₁).bind fun Ts r₂ θ₂ hle hagree hTs => ?_
          exact .pure (.cons (hT.agree hle.types hagree) hTs)

theorem finds_properties {ps : List Property} (hps : ∀ p ∈ ps, p.value.Complete l)
    (hp : ∀ p ∈ ps, p.value.passes l names = true) {fields : Assoc Mono} (h : HasFields Γ ps fields)
    (hd : Assoc.Distinct fields) {seen : Assoc Ident} (hnew : ∀ x ∈ Assoc.keys fields, x ∉ Assoc.keys seen)
    (r : Run) (θ₀ : Assignment) :
    Finds (Infer.properties · env seen ps) r θ₀ fun Ts r' θ => FieldsStand names r'.supply.types θ M Ts fields := by
  induction ps generalizing fields seen r θ₀ with
  | nil =>
      cases h
      simp only [Infer.properties]
      exact .pure .nil
  | cons p ps ih =>
      obtain ⟨key, value, pos⟩ := p
      obtain ⟨hv, hps⟩ := List.forall_mem_cons.mp hps
      obtain ⟨hpv, hpp⟩ := List.forall_mem_cons.mp hp
      cases h with
      | @cons _ _ _ _ _ label t fields hlabel ht hfields =>
          obtain ⟨hfresh, hdist⟩ := Assoc.distinct_cons.mp hd
          obtain ⟨hn, hrest⟩ := List.forall_mem_cons.mp hnew
          obtain ⟨id, rfl, hid⟩ := Returns.of_propertyLabel hlabel hn r
          have hnew' : ∀ x ∈ Assoc.keys fields, x ∉ Assoc.keys (Assoc.insert seen id.label id) := by
            intro x hx hm
            rcases Assoc.mem_keys_insert.mp hm with rfl | hm
            · exact hfresh hx
            · exact hrest x hx hm
          simp only [Infer.properties]
          refine .after hid ((hv hpv henv hc ht r θ₀).bind fun T r₁ θ₁ _ _ hT => ?_)
          refine (ih hps hpp hfields hdist hnew' r₁ θ₁).bind fun Ts r₂ θ₂ hle hagree hTs => ?_
          exact .pure (.cons ⟨rfl, hT.agree hle.types hagree⟩ hTs)

end Lists

/-- Parameters can be given their types without a change to older variables. -/
theorem exists_meets_params (M : String → Mono) (θ₀ : Assignment) (n : VarId) (ids : List Ident) :
    ∃ θ : Assignment, θ.AgreeBelow n θ₀ ∧ Requirements.Meets θ M (paramsFrom n ids) := by
  induction ids generalizing n θ₀ with
  | nil => exact ⟨θ₀, .refl, List.forall_mem_nil _⟩
  | cons id ids ih =>
      obtain ⟨θ, hagree, hM⟩ := ih (Function.update θ₀ n (M id.label)) (n + 1)
      refine ⟨θ, fun v hv => ?_, List.forall_mem_cons.mpr ⟨?_, hM⟩⟩
      · rw [hagree v (Nat.lt_succ_of_lt hv), Function.update_of_ne (Nat.ne_of_lt hv)]
      · rw [Ty.mono_var, Mono.subst_var, hagree n (Nat.lt_succ_self n), Function.update_self]

/-- Types of the parameters and of the body of a function, in a context where the names that it binds are
monomorphic, make a type of the function. -/
theorem TypesFunction.finds {x : Nat → Infer (Typing VarId)} {env : Env VarId} {bound : List String}
    {ids : List Ident} {body : Body} {r : Run} {first : VarId} {scope : Env VarId} {start : Run}
    {asked : Typing VarId → Assoc (Ty VarId)} {result : Typing VarId → List (Binding VarId) → Typing VarId}
    (hf : TypesFunction x env bound ids body r first scope start asked result) {names : List String}
    {M M' : String → Mono} {res : Mono} (hother : ∀ y ∉ bound, M' y = M y)
    (hown : ∀ y ∈ bound, y ∉ ids.map Ident.label → M' y = .arrow (ids.map fun id => M' id.label) res)
    (hbody : ∀ θ₁, Finds (Infer.functionBody · scope body) start θ₁
      fun T r' θ => T.Stands (bound ++ names) r'.supply.types θ M' res) (θ₀ : Assignment) :
    Finds x r θ₀ fun T r' θ => T.Stands names r'.supply.types θ M (.arrow (ids.map fun id => M' id.label) res) := by
  obtain ⟨θ₁, hagree₁, hMparams⟩ := exists_meets_params M' θ₀ first ids
  obtain ⟨u, r₁, θ₂, hu, hle, hagree₂, hstands⟩ := hbody θ₁
  have ha := hf.abstracts hstands.fits.within
  have hroom := hf.below_params hle
  have hMparams₂ : Requirements.Meets θ₂ M' (paramsFrom first ids) :=
    hMparams.agree ((below_paramsFrom first ids).le hf.room) hagree₂
  have hmap := map_paramsFrom first ids M'
  have hown' : ∀ y ∈ bound, y ∉ Assoc.keys (paramsFrom first ids) →
      M' y = .arrow ((paramsFrom first ids).map fun p => M' p.1) (u.type.mono.subst θ₂) := by
    intro y hy hn
    rw [keys_paramsFrom] at hn
    rw [hmap, hstands.type]
    exact hown y hy hn
  obtain ⟨T, r', hreach, θ', hagree, hneeds, htype⟩ :=
    Reaches.close ha hstands.fits.within hstands.needs hMparams₂ hown' hother hroom hstands.fits.below
  obtain ⟨limit, hl⟩ := hreach
  have hk := Returns.close_kept ha hstands.fits.within hroom hstands.fits.below (hl limit le_rfl)
  refine ⟨T, r', θ', ?_, (hf.le.trans hle).trans hk.le, fun v hv => ?_, hk.fits, hneeds, ?_⟩
  · obtain ⟨limit', hl'⟩ := hu
    refine ⟨max limit limit', fun steps hge => hf.returns_iff.mpr ⟨u, r₁, hl' steps ?_, hl steps ?_⟩⟩
    · exact le_trans (le_max_right _ _) hge
    · exact le_trans (le_max_left _ _) hge
  · have hv₁ := Nat.lt_of_lt_of_le hv hf.le.types
    rw [hagree v (Nat.lt_of_lt_of_le hv₁ hle.types), hagree₂ v hv₁,
      hagree₁ v (Nat.lt_of_lt_of_le hv hf.fresh)]
  · rw [htype, hmap, hstands.type]

theorem TypesFunction.complete {x : Nat → Infer (Typing VarId)} {env : Env VarId} {bound : List String}
    {ids : List Ident} {body : Body} {r : Run} {first : VarId} {scope : Env VarId} {start : Run}
    {asked : Typing VarId → Assoc (Ty VarId)} {result : Typing VarId → List (Binding VarId) → Typing VarId}
    (hf : TypesFunction x env bound ids body r first scope start asked result) {l : Lint} (hbody : body.Complete l)
    {names : List String} (hp : body.passes l (bound ++ names) = true) (hapart : ∀ y ∈ bound, y ∉ names)
    (hd : (ids.map Ident.label ++ body.declared).Nodup) (henv : env.Within names) {Γ Γ' : Context}
    {M M' : String → Mono} (hc : Covers names env Γ M) (hother : ∀ y ∉ bound, M' y = M y) {res : Mono}
    (hown : ∀ y ∈ bound, y ∉ ids.map Ident.label → M' y = .arrow (ids.map fun id => M' id.label) res)
    (hΓ : Γ.Extends bound M' Γ') (hsub : Γ ⊆ Γ') (h : HasBody Γ' body res) (θ₀ : Assignment) :
    Finds x r θ₀ fun T r' θ => T.Stands names r'.supply.types θ M (.arrow (ids.map fun id => M' id.label) res) := by
  obtain ⟨-, hdb, hdisj⟩ := List.nodup_append'.mp hd
  refine hf.finds hother hown (fun θ₁ => ?_) θ₀
  refine hbody hp (hf.hides.within henv) (hc.hides hf.hides henv hapart hother hΓ hsub) hdb (fun y hy hm => ?_) h
    start θ₁
  exact hdisj ((hf.here y).mp hm) hy

/-- Parameters without repetition can be given any types, whatever others have. -/
theorem exists_types {ids : List Ident} (hd : (ids.map Ident.label).Nodup) {ts : List Mono}
    (hlen : ids.length = ts.length) (M : String → Mono) :
    ∃ M' : String → Mono, (ids.map fun id => M' id.label) = ts ∧ ∀ y ∉ ids.map Ident.label, M' y = M y := by
  induction ids generalizing ts with
  | nil =>
      obtain rfl := List.eq_nil_of_length_eq_zero hlen.symm
      exact ⟨M, rfl, fun _ _ => rfl⟩
  | cons id ids ih =>
      cases ts with
      | nil => cases hlen
      | cons t ts =>
          obtain ⟨hid, hd⟩ := List.nodup_cons.mp hd
          obtain ⟨M', hmap, hother⟩ := ih hd (Nat.succ.inj hlen)
          refine ⟨Function.update M' id.label t, ?_, fun y hy => ?_⟩
          · rw [List.map_cons, Function.update_self, ← hmap]
            refine congrArg (t :: ·) (List.map_congr_left fun id' hm => Function.update_of_ne ?_ _ _)
            exact fun he => hid (he ▸ List.mem_map_of_mem hm)
          · obtain ⟨hne, hy⟩ := not_or.mp (mt List.mem_cons.mpr hy)
            rw [Function.update_of_ne hne, hother y hy]

namespace Expr.Complete

variable {l : Lint} {node : Node}

theorem literal {value : Literal} : (Expr.literal node value).Complete l := by
  intro names env Γ M t _ _ _ h r θ₀
  cases h
  simp only [Infer.expr]
  exact .pure ⟨Typing.fits_closed (.leaf _ _ _) names, List.forall_mem_nil _, by simp [Typing.closed]⟩

theorem ident {id : Ident} : (Expr.ident node id).Complete l := by
  intro names env Γ M t _ henv hc h r θ₀
  cases h with
  | ident hσ hinst =>
      obtain ⟨b, hb, hall⟩ := hc.typing hσ
      obtain ⟨θ, hM, htype⟩ := hall t hinst
      have hi : Returns (Infer.instantiate b.typing) r _ _ := Returns.instantiate_iff.mpr ⟨rfl, rfl⟩
      obtain ⟨hle, hw, hbelow⟩ := Returns.instantiate_within (henv _ b hb).2 hi
      obtain ⟨θ', hagree, hsame, hneeds⟩ := Returns.instantiate_complete (henv _ b hb).2 hi θ₀ θ
      have hreach : Reaches (Infer.expr · env (.ident node id)) r _ _ :=
        ⟨0, fun steps _ => Returns.expr_ident_iff.mpr ⟨b, hb, hi⟩⟩
      exact ⟨_, _, θ', hreach, hle, hagree, ⟨hw, hbelow⟩, hneeds M hM, hsame.trans htype⟩

theorem array {es : List Expr} (hes : ∀ e ∈ es, e.Complete l) : (Expr.array node es).Complete l := by
  intro names env Γ M t hp henv hc h r θ₀
  simp only [passes, Bool.and_eq_true, exprsPass_iff] at hp
  cases h with
  | @array _ _ _ t _ hts =>
      simp only [Infer.expr]
      refine (finds_exprs henv hc hes hp.2 hts r θ₀).bind fun Ts r₁ θ₁ _ _ hTs => ?_
      have hnext := Assignment.AgreeBelow.next r₁ θ₁ t
      obtain ⟨hfits, hM, htypes⟩ := (hTs.agree le_rfl hnext).forall
      refine (combines_array hfits node).finds hnext hM (List.forall_mem_map.mpr fun T hT => ?_) ?_
      · have hm := List.mem_map_of_mem (f := fun T => T.type.mono.subst (Function.update θ₁ r₁.supply.types t)) hT
        rw [htypes] at hm
        obtain ⟨e, -, he⟩ := List.mem_map.mp hm
        rw [Constraint.Unifies, Ty.mono_var, Mono.subst_var, Function.update_self]
        exact he
      · simp [Combination.array, Ty.array]

theorem object {ps : List Property} (hps : ∀ p ∈ ps, p.value.Complete l) : (Expr.object node ps).Complete l := by
  intro names env Γ M t hp henv hc h r θ₀
  rw [passes, Bool.and_eq_true] at hp
  cases h with
  | @object _ _ _ fields hfields hd =>
      simp only [Infer.expr]
      refine (finds_properties henv hc hps (forall_of_propertiesPass hp.2) hfields hd (by simp [Assoc.keys]) r
        θ₀).bind fun Ts r₁ θ₁ _ _ hTs => ?_
      obtain ⟨hfits, hM, rfl⟩ := hTs.forall
      have hdT : Assoc.Distinct Ts := by rwa [Assoc.Distinct, Assoc.keys_mapValues] at hd
      exact (combines_object hfits hdT node).finds .refl (List.forall_mem_map.mpr hM) (List.forall_mem_nil _)
        (Combination.object_type hdT node θ₁)

theorem binary {op : BinaryOp} {a b : Expr} (ha : a.Complete l) (hb : b.Complete l) :
    (Expr.binary node op a b).Complete l := by
  intro names env Γ M t hp henv hc h r θ₀
  simp only [passes, Bool.and_eq_true] at hp
  simp only [Infer.expr]
  cases h with
  | arithmetic hop h₁ h₂ =>
      refine (ha hp.2.1 henv hc h₁ r θ₀).bind fun ta r₁ θ₁ _ _ hta => ?_
      refine (hb hp.2.2 henv hc h₂ r₁ θ₁).bind fun tb r₂ θ₂ hle hagree htb => ?_
      have hta' := hta.agree hle.types hagree
      refine (combines_arithmetic hta'.fits htb.fits hop node a.node b.node).finds .refl ?_ ?_ ?_
      · exact List.forall_mem_cons.mpr ⟨hta'.needs, List.forall_mem_singleton.mpr htb.needs⟩
      · simp [Combination.arithmetic, Constraint.Unifies, hta'.type, htb.type]
      · simp [Combination.arithmetic]
  | @comparison _ _ _ _ _ t hop h₁ h₂ =>
      refine (ha hp.2.1 henv hc h₁ r θ₀).bind fun ta r₁ θ₁ _ _ hta => ?_
      refine (hb hp.2.2 henv hc h₂ r₁ θ₁).bind fun tb r₂ θ₂ hle hagree htb => ?_
      have hnext := Assignment.AgreeBelow.next r₂ θ₂ t
      have hta' := (hta.agree hle.types hagree).agree le_rfl hnext
      have htb' := htb.agree le_rfl hnext
      refine (combines_comparison hta'.fits htb'.fits hop node a.node b.node).finds hnext ?_ ?_ ?_
      · exact List.forall_mem_cons.mpr ⟨hta'.needs, List.forall_mem_singleton.mpr htb'.needs⟩
      · simp [Combination.comparison, Constraint.Unifies, hta'.type, htb'.type]
      · simp [Combination.comparison]

theorem conditional {c a b : Expr} (hc : c.Complete l) (ha : a.Complete l) (hb : b.Complete l) :
    (Expr.conditional node c a b).Complete l := by
  intro names env Γ M t hp henv hcov h r θ₀
  simp only [passes, Bool.and_eq_true] at hp
  cases h with
  | conditional h₁ h₂ h₃ =>
      simp only [Infer.expr]
      refine (hc hp.2.1.1 henv hcov h₁ r θ₀).bind fun tc r₁ θ₁ _ _ htc => ?_
      refine (ha hp.2.1.2 henv hcov h₂ r₁ θ₁).bind fun ta r₂ θ₂ hle hagree hta => ?_
      refine (hb hp.2.2 henv hcov h₃ r₂ θ₂).bind fun tb r₃ θ₃ hle' hagree' htb => ?_
      have htc' := (htc.agree hle.types hagree).agree hle'.types hagree'
      have hta' := hta.agree hle'.types hagree'
      refine (combines_conditional htc'.fits hta'.fits htb.fits c.node).finds .refl ?_ ?_ hta'.type
      · exact List.forall_mem_cons.mpr
          ⟨htc'.needs, List.forall_mem_cons.mpr ⟨hta'.needs, List.forall_mem_singleton.mpr htb.needs⟩⟩
      · simp [Combination.conditional, Constraint.Unifies, htc'.type, hta'.type, htb.type]

theorem arrow (hapart : l.Implies .apart) (hdistinct : l.Implies .distinct) {ps : List Pattern} {body : Body}
    (hbody : body.Complete l) : (Expr.arrow node ps body).Complete l := by
  intro names env Γ M t hp henv hc h r θ₀
  cases h with
  | @arrow _ _ ids ts _ res hlen hts h =>
      obtain ⟨hpe, hpb⟩ := passes_arrow hp
      rw [Pattern.allLabels_ident] at hpb
      have hd := Lint.distinct_arrow (hdistinct.expr hpe)
      have hids := (List.nodup_append'.mp hd).1
      obtain ⟨M', rfl, hother⟩ := exists_types hids hlen M
      obtain ⟨first, scope, start, asked, result, hf⟩ := typesFunction_arrow body hids env node r
      exact hf.complete hbody hpb (Lint.apart_arrow (hapart.expr hpe)) hd henv hc hother
        (fun y hy hn => (hn hy).elim) (Γ.extends_params ids M') (List.subset_append_right _ _) h θ₀

theorem call {f : Expr} {as : List Expr} (hf : f.Complete l) (has : ∀ a ∈ as, a.Complete l) :
    (Expr.call node f as).Complete l := by
  intro names env Γ M t hp henv hc h r θ₀
  simp only [passes, Bool.and_eq_true, exprsPass_iff] at hp
  cases h with
  | @call _ _ _ _ ts _ h₁ h₂ =>
      simp only [Infer.expr]
      refine (hf hp.2.1 henv hc h₁ r θ₀).bind fun tf r₁ θ₁ _ _ htf => ?_
      refine (finds_exprs henv hc has hp.2.2 h₂ r₁ θ₁).bind fun Ts r₂ θ₂ hle hagree hTs => ?_
      have hnext := Assignment.AgreeBelow.next r₂ θ₂ t
      have htf' := (htf.agree hle.types hagree).agree le_rfl hnext
      obtain ⟨hfits, hM, htypes⟩ := (hTs.agree le_rfl hnext).forall
      refine (combines_call htf'.fits hfits node f.node).finds hnext ?_ (List.forall_mem_singleton.mpr ?_) ?_
      · exact List.forall_mem_append.mpr ⟨hM, List.forall_mem_singleton.mpr htf'.needs⟩
      · rw [Constraint.Unifies, htf'.type, Ty.mono_arrow, Mono.subst_arrow, List.map_map, List.map_map, ← htypes]
        simp [Function.comp_def]
      · simp [Combination.call]

theorem template {texts : List String} {es : List Expr} {pos : Position} (hes : ∀ e ∈ es, e.Complete l) :
    (Expr.template node (.mk texts es pos)).Complete l := by
  intro names env Γ M t hp henv hc h r θ₀
  simp only [passes, Template.passes, Bool.and_eq_true, exprsPass_iff] at hp
  cases h with
  | template hts =>
      simp only [Infer.expr]
      refine (finds_exprs henv hc hes hp.2 hts r θ₀).bind fun Ts r₁ θ₁ _ _ hTs => ?_
      obtain ⟨hfits, hM, -⟩ := hTs.forall
      exact (combines_template hfits node).finds .refl hM (List.forall_mem_nil _) (by simp [Combination.template])

/-- Inference takes a member only from what it knows to be a record, so members are left out. -/
theorem member (hmember : l.Implies .noMember) {e : Expr} {label : Ident} :
    (Expr.member node e label).Complete l := by
  intro names env Γ M t hp
  rw [passes, Bool.and_eq_true] at hp
  cases hmember.expr hp.1

theorem refused {e : Expr} (he : e.Refused) : e.Complete l := by
  intro names env Γ M t _ _ _ h
  cases he <;> cases h

end Expr.Complete

namespace Block.Stands

variable {names : List String} {n m : Nat} {θ θ' : Assignment} {M : String → Mono} {b : Block} {Γ : Context}
  {returned : Option Mono}

theorem agree (h : b.Stands names n θ M Γ returned) (hnm : n ≤ m) (hθ : θ'.AgreeBelow n θ) :
    b.Stands names m θ' M Γ returned := by
  refine ⟨h.fits.le hnm, ⟨fun t ht => ?_, fun t ht => ?_⟩, ?_, h.covers⟩
  · exact (h.meets.typings t ht).agree (h.fits.typings t ht).below.needs hθ
  · exact (h.meets.returned t ht).agree (h.fits.returned t ht).below.needs hθ
  · rw [← h.returns, Block.returns, Block.returns]
    cases hb : b.returned with
    | none => rfl
    | some t => exact congrArg some ((h.fits.returned t hb).below.type.subst_eq hθ)

theorem returned_eq_none (h : b.Stands names n θ M Γ none) : b.returned = none :=
  Option.map_eq_none_iff.mp h.returns

theorem child (h : b.Stands names n θ M Γ returned) :
    Block.Stands names n θ M ⟨b.env.child, b.typings, b.returned⟩ Γ returned :=
  ⟨h.fits.child, ⟨h.meets.typings, h.meets.returned⟩, h.returns, h.covers.child⟩

theorem typing (h : b.Stands names n θ M Γ returned) {T : Typing VarId} {t : Mono} (hT : T.Stands names n θ M t) :
    Block.Stands names n θ M ⟨b.env, b.typings ++ [T], b.returned⟩ Γ returned where
  fits := ⟨h.fits.env, List.forall_mem_append.mpr ⟨h.fits.typings, List.forall_mem_singleton.mpr hT.fits⟩,
    h.fits.returned⟩
  meets := ⟨List.forall_mem_append.mpr ⟨h.meets.typings, List.forall_mem_singleton.mpr hT.needs⟩, h.meets.returned⟩
  returns := h.returns
  covers := h.covers

theorem declare (h : b.Stands names n θ M Γ returned) {T : Typing VarId} {t : Mono} (hT : T.Stands names n θ M t)
    (id : Ident) :
    Block.Stands names n θ M ⟨b.env.insert id.label ⟨id, T, false⟩, b.typings ++ [T], b.returned⟩
      ((id.label, Γ.generalize t) :: Γ) returned where
  fits := ⟨h.fits.env.insert rfl hT.fits.within, (h.typing hT).fits.typings, h.fits.returned⟩
  meets := ⟨(h.typing hT).meets.typings, h.meets.returned⟩
  returns := h.returns
  covers := h.covers.declare hT id

theorem returning (h : b.Stands names n θ M Γ returned) {T : Typing VarId} {t : Mono} (hT : T.Stands names n θ M t) :
    Block.Stands names n θ M ⟨b.env, b.typings, some T⟩ Γ (some t) where
  fits := ⟨h.fits.env, h.fits.typings, fun u hu => by cases hu; exact hT.fits⟩
  meets := ⟨h.meets.typings, fun u hu => by cases hu; exact hT.needs⟩
  returns := congrArg some hT.type
  covers := h.covers

end Block.Stands

theorem Env.Declares.mem_keys {env env' : Env VarId} {labels : List String} (h : env.Declares labels env')
    {x : String} (hx : x ∈ Assoc.keys env'.current) : x ∈ Assoc.keys env.current ∨ x ∈ labels := by
  rcases h with rfl | ⟨id, t, hid, rfl⟩
  · exact .inl hx
  · rcases Assoc.mem_keys_insert.mp hx with rfl | hx
    · exact .inr hid
    · exact .inl hx

theorem Stmt.declared_cons (s : Stmt) (ss : List Stmt) :
    Stmt.declared (s :: ss) = Stmt.declared [s] ++ Stmt.declared ss := by
  rw [declared, declared, declared, List.flatMap_cons, List.flatMap_singleton]

section Statements

variable {l : Lint} {names : List String} {kind : BlockKind} {Γ Γ' : Context} {M : String → Mono}
  {returned : Option Mono} {b : Block} {r : Run} {θ₀ : Assignment}

theorem finds_declare (hb : b.Stands names r.supply.types θ₀ M Γ none) {id : Ident}
    (hnew : id.label ∉ Assoc.keys b.env.current) {x : Nat → Infer (Typing VarId)} {t : Mono}
    (hx : Finds x r θ₀ fun T r' θ => T.Stands names r'.supply.types θ M t) :
    Finds (fun steps => Infer.declare b id (x steps)) r θ₀ fun b' r' θ =>
      b'.Stands names r'.supply.types θ M ((id.label, Γ.generalize t) :: Γ) none ∧
        b.env.Declares [id.label] b'.env := by
  refine hx.map (fun h => (Returns.declare_iff hb.fits.env).mpr ⟨_, h, hnew, rfl⟩) fun hle hagree hT => ?_
  exact ⟨(hb.agree hle.types hagree).declare hT id, .inr ⟨id, _, List.mem_singleton_self _, rfl⟩⟩

theorem finds_stmts {ss : List Stmt} (hss : ∀ s ∈ ss, s.Complete l) (hp : ∀ s ∈ ss, s.passes l names = true)
    (hb : b.Stands names r.supply.types θ₀ M Γ none) (hd : (Stmt.declared ss).Nodup)
    (hnew : ∀ x ∈ Stmt.declared ss, x ∉ Assoc.keys b.env.current) (hkind : kind = .function ∨ returned = none)
    (h : HasStmts Γ ss Γ' returned) :
    Finds (Infer.stmts · kind b ss) r θ₀ fun b' r' θ => b'.Stands names r'.supply.types θ M Γ' returned := by
  induction ss generalizing b r θ₀ Γ with
  | nil =>
      cases h
      simp only [Infer.stmts_nil]
      exact .pure hb
  | cons s ss ih =>
      obtain ⟨hs, hss⟩ := List.forall_mem_cons.mp hss
      obtain ⟨hps, hpss⟩ := List.forall_mem_cons.mp hp
      rw [Stmt.declared_cons] at hd hnew
      obtain ⟨-, hd, hdisj⟩ := List.nodup_append'.mp hd
      obtain ⟨hnews, hnewss⟩ := List.forall_mem_append.mp hnew
      simp only [Infer.stmts_cons]
      cases h with
      | next h₁ h₂ =>
          refine (hs hps hb hnews (.inr rfl) h₁).bind fun b₁ r₁ θ₁ _ _ hb₁ => ?_
          simp only [hb₁.1.returned_eq_none, Option.isSome_none, Bool.false_eq_true, if_false]
          refine ih hss hpss hb₁.1 hd (fun x hx hm => ?_) h₂
          exact (hb₁.2.mem_keys hm).elim (hnewss x hx) fun hm => hdisj hm hx
      | returned h₁ =>
          refine (hs hps hb hnews hkind h₁).bind fun b₁ r₁ θ₁ _ _ hb₁ => ?_
          have hsome : b₁.returned.isSome = true := by
            rw [← Option.isSome_map, ← Block.returns, hb₁.1.returns]
            rfl
          simp only [hsome, if_true]
          exact .pure hb₁.1

end Statements

theorem Body.Complete.expr {l : Lint} {e : Expr} (he : e.Complete l) : (Body.expr e).Complete l := by
  intro names scope Γ M t hp hs hc _ _ h r θ₀
  rw [passes] at hp
  simp only [Infer.functionBody]
  cases h with
  | expr h => exact he hp hs hc h r θ₀

theorem Body.Complete.block {l : Lint} {ss : List Stmt} {pos : Position} (hss : ∀ s ∈ ss, s.Complete l) :
    (Body.block ss pos).Complete l := by
  intro names scope Γ M t hp hs hc hd hnew h r θ₀
  rw [passes, stmtsPass_iff] at hp
  cases h with
  | block h =>
      simp only [Infer.functionBody_block]
      have hstart : Block.Stands names r.supply.types θ₀ M ⟨scope, [], none⟩ _ none :=
        ⟨⟨hs, List.forall_mem_nil _, by simp⟩, ⟨List.forall_mem_nil _, by simp⟩, rfl, hc⟩
      refine (finds_stmts hss hp hstart hd hnew (.inl rfl) h).bind fun b r₁ θ₁ _ _ hb => ?_
      refine (combines_block hb.fits.typings hb.fits.result).finds .refl ?_ (List.forall_mem_nil _) ?_
      · refine List.forall_mem_append.mpr ⟨List.forall_mem_map.mpr hb.meets.typings, List.forall_mem_singleton.mpr ?_⟩
        rw [Block.result]
        cases hr : b.returned with
        | none => exact List.forall_mem_nil _
        | some T => exact hb.meets.returned T hr
      · rw [Combination.block, Block.result_type, hb.returns]

namespace Stmt.Complete

variable {l : Lint} {node : Node}

theorem letFunction (hapart : l.Implies .apart) (hdistinct : l.Implies .distinct) {id : Ident} {fnode : Node}
    {ps : List Pattern} {body : Body} {pos : Position} (hbody : body.Complete l) :
    (Stmt.decl node .letDecl [.mk (.ident id) (some (.arrow fnode ps body)) pos]).Complete l := by
  intro names kind Γ Γ' M returned b r θ₀ hp hb hnew _ h
  simp only [Infer.stmt_letFunction]
  cases h with
  | letValue hne => cases hne
  | @letFunction _ _ _ _ ids ts _ res _ hlen hts h =>
      obtain ⟨hps, hpe, hpb⟩ := passes_letFunction hp
      rw [Pattern.allLabels_ident] at hpb
      have hd := Lint.distinct_arrow (hdistinct.expr hpe)
      have hids := (List.nodup_append'.mp hd).1
      -- Outside of its parameters the function is monomorphic under its own name.
      obtain ⟨M', hmap, hparams⟩ := exists_types hids hlen (Function.update M id.label (.arrow ts res))
      subst hmap
      have hother : ∀ y ∉ ids.map Ident.label ++ [id.label], M' y = M y := by
        intro y hy
        rw [List.mem_append, List.mem_singleton, not_or] at hy
        rw [hparams y hy.1, Function.update_of_ne hy.2]
      have hown : id.label ∉ ids.map Ident.label → M' id.label = .arrow (ids.map fun id => M' id.label) res :=
        fun hn => (hparams _ hn).trans (Function.update_self _ _ _)
      have hnames : ∀ y ∈ ids.map Ident.label ++ [id.label], y ∉ names := List.forall_mem_append.mpr
        ⟨Lint.apart_arrow (hapart.expr hpe), List.forall_mem_singleton.mpr (Lint.apart_letFunction (hapart.stmt hps))⟩
      obtain ⟨first, scope, start, asked, result, hf⟩ := typesFunction_def body hids b.env id fnode r
      refine finds_declare hb (hnew _ (by simp [declared, Pattern.labels])) ?_
      refine hf.complete hbody hpb hnames hd hb.fits.env hb.covers hother (fun y hy hn => ?_) (Γ.extends_own ids hown)
        (List.subset_append_of_subset_right _ (List.subset_cons_self _ _)) h θ₀
      have he : y = id.label := List.mem_singleton.mp ((List.mem_append.mp hy).resolve_left hn)
      exact he ▸ hown (he ▸ hn)

theorem letValue {id : Ident} {e : Expr} {pos : Position} (hne : e.isArrow = false) (he : e.Complete l) :
    (Stmt.decl node .letDecl [.mk (.ident id) (some e) pos]).Complete l := by
  intro names kind Γ Γ' M returned b r θ₀ hp hb hnew _ h
  simp only [Infer.stmt_letValue _ kind b node id hne]
  cases h with
  | letFunction => cases hne
  | letValue _ h =>
      exact finds_declare hb (hnew _ (by simp [declared, Pattern.labels]))
        (he (passes_letValue hne hp) hb.fits.env hb.covers h r θ₀)

theorem expr (hl : l.Implies .noAssume) {e : Expr} (he : e.Complete l) : (Stmt.expr node e).Complete l := by
  intro names kind Γ Γ' M returned b r θ₀ hp hb _ _ h
  rw [passes, Bool.and_eq_true] at hp
  cases h with
  | expr h =>
      refine (he hp.2 hb.fits.env hb.covers h r θ₀).map
        (fun h => (Returns.stmt_expr_iff (hl.stmt hp.1)).mpr ⟨_, h, rfl⟩) fun hle hagree hT => ?_
      exact ⟨(hb.agree hle.types hagree).typing hT, .inl rfl⟩

theorem ret {e : Expr} (he : e.Complete l) : (Stmt.ret node (some e)).Complete l := by
  intro names kind Γ Γ' M returned b r θ₀ hp hb _ hkind h
  rw [passes, Bool.and_eq_true] at hp
  cases h with
  | ret h =>
      refine (he hp.2 hb.fits.env hb.covers h r θ₀).map
        (fun h => Returns.stmt_ret_iff.mpr ⟨hkind.resolve_right (by simp), _, h, rfl⟩) fun hle hagree hT => ?_
      exact ⟨(hb.agree hle.types hagree).returning hT, .inl rfl⟩

theorem retNothing : (Stmt.ret node none).Complete l := by
  intro names kind Γ Γ' M returned b r θ₀ _ hb _ hkind h
  cases h with
  | retNothing =>
      have hreturns := fun steps => (@Returns.stmt_retNothing_iff steps kind b _ r r node).mpr
        ⟨hkind.resolve_right (by simp), rfl, rfl⟩
      have hT : (Typing.closed (.leaf .undefined (some node))).Stands names r.supply.types θ₀ M (.leaf .undefined) :=
        ⟨Typing.fits_closed (.leaf _ _ _) names, List.forall_mem_nil _, by simp [Typing.closed]⟩
      exact ⟨_, r, θ₀, ⟨0, fun steps _ => hreturns steps⟩, .refl r, .refl, hb.returning hT, .inl rfl⟩

theorem block (hdistinct : l.Implies .distinct) {ss : List Stmt} (hss : ∀ s ∈ ss, s.Complete l) :
    (Stmt.block node ss).Complete l := by
  intro names kind Γ Γ' M returned b r θ₀ hp hb _ hkind h
  rw [passes, Bool.and_eq_true, stmtsPass_iff] at hp
  have hd : (declared ss).Nodup := by simpa [Lint.distinct] using hdistinct.stmt hp.1
  cases h with
  | block h =>
      refine (finds_stmts hss hp.2 hb.child hd (by simp [Scope.child, Assoc.keys]) hkind h).map
        (fun h => Returns.stmt_block_iff.mpr ⟨_, h, rfl⟩) fun hle hagree hi => ?_
      exact ⟨⟨⟨hb.fits.env, hi.fits.typings, hi.fits.returned⟩, ⟨hi.meets.typings, hi.meets.returned⟩, hi.returns,
        hb.covers⟩, .inl rfl⟩

theorem refused {s : Stmt} {description : String} {pos : Position} (hs : s.Refused description pos) : s.Complete l := by
  intro names kind Γ Γ' M returned b r θ₀ _ _ _ _ h
  cases hs with
  | otherDecl node hkind => cases h <;> exact (hkind rfl).elim
  | destructuring node hp => cases h <;> exact (hp _ rfl).elim
  | declarators node hds => cases h <;> exact (hds rfl).elim
  | uninitialized | cond | loop => cases h

end Stmt.Complete

theorem complete_cases {l : Lint} (hl : l.Implies .noAssume) (hapart : l.Implies .apart)
    (hmember : l.Implies .noMember) (hdistinct : l.Implies .distinct) :
    SyntaxCases (Expr.Complete l) (Body.Complete l) (Stmt.Complete l) where
  literal _ _ := Expr.Complete.literal
  ident _ _ := Expr.Complete.ident
  array _ _ := .array
  object _ _ := .object
  member _ _ _ _ := Expr.Complete.member hmember
  binary _ _ _ _ := .binary
  conditional _ _ _ _ := .conditional
  arrow _ _ _ := .arrow hapart hdistinct
  call _ _ _ := .call
  template _ _ _ _ := .template
  refused _ := .refused
  exprBody _ := .expr
  blockBody _ _ := .block
  letFunction _ _ _ _ _ _ := .letFunction hapart hdistinct
  letValue _ _ _ _ := .letValue
  expr _ _ := .expr hl
  ret _ _ := .ret
  retNothing _ := Stmt.Complete.retNothing
  block _ _ := .block hdistinct
  refusedStmt _ _ _ := .refused

/-! Scripts. -/

/-- A scope of one layer, with each name under its own label. -/
structure Env.Single (env : Env VarId) : Prop where
  outer : env.outer = []
  labels : ∀ e ∈ env.current, e.2.id.label = e.1

namespace Env.Single

variable {env env' : Env VarId}

theorem declares (h : env.Single) {labels : List String} (hd : env.Declares labels env') : env'.Single := by
  rcases hd with rfl | ⟨id, t, -, rfl⟩
  · exact h
  · refine ⟨h.outer, ?_⟩
    rintro ⟨x, b⟩ hb
    rcases Assoc.mem_of_mem_insert hb with ⟨rfl, rfl⟩ | hb
    · rfl
    · exact h.labels _ hb

theorem get?_types (h : env.Single) {x : String} {b : Bound VarId} (hb : env.get? x = some b) :
    Assoc.get? env.types x = some b.typing.type := by
  have htypes : env.types = Assoc.mapValues (fun b => b.typing.type) env.current := by
    rw [types, bindings, List.map_map]
    exact List.map_congr_left fun e he => congrArg (·, e.2.typing.type) (h.labels e he)
  have hcurrent : Assoc.get? env.current x = some b := by
    simpa [Scope.get?, Scope.layers, h.outer] using hb
  rw [htypes, Assoc.get?_mapValues, hcurrent]
  rfl

end Env.Single

/-- All statements of a well typed script are inferred. -/
theorem Infers.complete {l : Lint} (hl : l.Implies .noAssume) (hapart : l.Implies .apart)
    (hmember : l.Implies .noMember) (hdistinct : l.Implies .distinct) {ss : List Stmt}
    (hp : ∀ s ∈ ss, s.passes l [] = true) {M : String → Mono} {Γ Γ' : Context} {b : Block} {r : Run}
    {θ₀ : Assignment} (hb : b.Stands [] r.supply.types θ₀ M Γ none) (hsingle : b.env.Single)
    (hd : (Stmt.declared ss).Nodup) (hnew : ∀ x ∈ Stmt.declared ss, x ∉ Assoc.keys b.env.current)
    (h : HasStmts Γ ss Γ' none) :
    ∃ limit b' r', (∀ steps ≥ limit, Infers steps b ss r b' r') ∧ b'.env.Single ∧ Covers [] b'.env Γ' M := by
  induction ss generalizing b r θ₀ Γ with
  | nil =>
      cases h
      exact ⟨0, b, r, fun _ _ => nil_iff.mpr ⟨rfl, rfl⟩, hsingle, hb.covers⟩
  | cons s ss ih =>
      obtain ⟨hps, hpss⟩ := List.forall_mem_cons.mp hp
      rw [Stmt.declared_cons] at hd hnew
      obtain ⟨-, hd, hdisj⟩ := List.nodup_append'.mp hd
      obtain ⟨hnews, hnewss⟩ := List.forall_mem_append.mp hnew
      cases h with
      | next h₁ h₂ =>
          obtain ⟨b₁, r₁, θ₁, ⟨limit, hl₁⟩, -, -, hb₁, hdecl⟩ :=
            (complete_cases hl hapart hmember hdistinct).allStmt s hps hb hnews (.inr rfl) h₁
          have hnew₁ : ∀ x ∈ Stmt.declared ss, x ∉ Assoc.keys b₁.env.current :=
            fun x hx hm => (hdecl.mem_keys hm).elim (hnewss x hx) fun hm => hdisj hm hx
          obtain ⟨limit', b', r', hl', hrest⟩ := ih hpss hb₁ (hsingle.declares hdecl) hd hnew₁ h₂
          refine ⟨max limit limit', b', r', fun steps hge => cons_iff.mpr ⟨b₁, r₁, hl₁ steps ?_, hl' steps ?_⟩, hrest⟩
          · exact le_trans (le_max_left _ _) hge
          · exact le_trans (le_max_right _ _) hge

/-- A well typed script is inferred without an error once the limit of steps is high enough, and each type that a
top-level name can be given is an instance of the type that was inferred for it. The script makes no assumptions,
takes no members, binds no name twice in a scope, and binds no monomorphic name again as a parameter or as the name of
a function. -/
theorem Script.infer_complete {s : Script}
    (hp : s.passes ((Lint.noAssume.and .apart).and (Lint.noMember.and .distinct)) = true)
    (hd : (Stmt.declared s.body).Nodup) (h : ∃ Γ, s.Derives Γ) :
    ∃ limit env, (∀ steps ≥ limit, s.infer steps = .ok ⟨env, none⟩) ∧
      ∀ Γ, s.Derives Γ → ∀ x σ, Assoc.get? Γ x = some σ →
        ∃ T, Assoc.get? env.types x = some T ∧ ∀ t, σ.Instance t → ∃ φ : Assignment, t = T.mono.subst φ := by
  have hall : ∀ Γ, s.Derives Γ → ∃ limit b r,
      (∀ steps ≥ limit, Infers steps ⟨.empty, [], none⟩ s.body .initial b r) ∧ b.env.Single ∧
        Covers [] b.env Γ fun _ => .leaf .undefined := by
    intro Γ hΓ
    have hstart :
        Block.Stands [] Run.initial.supply.types .var (fun _ => .leaf .undefined) ⟨.empty, [], none⟩ [] none :=
      ⟨Block.fits_empty _, ⟨List.forall_mem_nil _, by simp⟩, rfl, ⟨by simp [Assoc.get?], by simp⟩⟩
    exact Infers.complete (Lint.Implies.refl _).and_left.and_left (Lint.Implies.refl _).and_right.and_left
      (Lint.Implies.refl _).and_left.and_right (Lint.Implies.refl _).and_right.and_right (stmtsPass_iff.mp hp) hstart
      ⟨rfl, List.forall_mem_nil _⟩ hd (by simp [Scope.empty, Assoc.keys]) hΓ
  obtain ⟨Γ₀, h₀⟩ := h
  obtain ⟨limit, b, r, hl, hsingle, -⟩ := hall Γ₀ h₀
  refine ⟨limit, b.env, fun steps hge => infer_eq_ok_iff.mpr ⟨b, r, hl steps hge, rfl⟩, fun Γ hΓ x σ hσ => ?_⟩
  obtain ⟨limit', b', r', hl', -, hcovers⟩ := hall Γ hΓ
  -- Runs with the same limit are the same.
  have hsame := (hl (max limit limit') (le_max_left _ _)).symm.trans (hl' (max limit limit') (le_max_right _ _))
  cases hsame
  obtain ⟨c, hc, hinst⟩ := hcovers.typing hσ
  refine ⟨c.typing.type, hsingle.get?_types hc, fun t ht => ?_⟩
  obtain ⟨φ, -, hφ⟩ := hinst t ht
  exact ⟨φ, hφ.symm⟩

theorem derives_pairing : ∃ Γ, pairing.Derives Γ := by
  have hx : ∀ Γ : Context, HasType (("x", .mono (.var 0)) :: Γ) (pairing.use "x") (.var 0) :=
    fun Γ => .ident rfl (Scheme.instance_mono.mpr rfl)
  have huse : ∀ (Γ : Context) (u : Mono), u.Proper → Assoc.get? Γ "pair" =
      some (Context.generalize [] (.arrow [.var 0] (.con "Array" [.var 0]))) →
      HasType Γ (pairing.use "pair") (.arrow [u] (.con "Array" [u])) := by
    intro Γ u hu hget
    refine .ident hget (Scheme.instance_generalize.mpr ⟨fun _ => u, fun _ => hu, by simp [Context.free], by simp⟩)
  refine ⟨_, .next (@HasStmt.letFunction _ _ _ _ [⟨"x", none⟩] [.var 0] _ (.con "Array" [.var 0]) _ rfl ?_ ?_)
    (.next (.letValue rfl (.call (huse _ _ (.leaf .bool) rfl) (.cons .literal .nil)))
      (.next (.letValue rfl (.call (huse _ _ (.leaf .str) rfl) (.cons .literal .nil))) .nil))⟩
  · simpa using Mono.Proper.var 0
  · refine .block (.next (.letValue rfl (.array (.var 0) (.cons (hx _) (.cons (hx _) .nil)))) (.returned (.ret ?_)))
    exact .ident rfl (Scheme.instance_generalize.mpr ⟨.var, .var, fun _ _ => rfl, (Mono.subst_self _).symm⟩)

theorem Script.infer_complete_pairing :
    ∃ limit env, (∀ steps ≥ limit, pairing.infer steps = .ok ⟨env, none⟩) ∧
      ∀ Γ, pairing.Derives Γ → ∀ x σ, Assoc.get? Γ x = some σ →
        ∃ T, Assoc.get? env.types x = some T ∧ ∀ t, σ.Instance t → ∃ φ : Assignment, t = T.mono.subst φ :=
  infer_complete (by decide) (by decide) derives_pairing

end ScriptTypes
