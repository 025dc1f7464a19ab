import ScriptTypes.Proofs.Typing.Operations
import ScriptTypes.Proofs.Typing.Syntax

/-! Names in sight. Lookups after each way to bind a name, and what binding parameters leaves: each has a fresh
variable for its type, which is also what it asks of itself. -/

namespace ScriptTypes

namespace Env

variable {env env' : Env VarId}

theorem get?_empty (y : String) : Scope.get? (.empty : Env VarId) y = none := rfl

theorem get?_child (env : Env VarId) (y : String) : env.child.get? y = env.get? y := rfl

theorem get?_insert (env : Env VarId) (x : String) (b : Bound VarId) (y : String) :
    (env.insert x b).get? y = if y = x then some b else env.get? y := by
  simp only [Scope.get?, Scope.layers, Scope.insert, List.findSome?_cons]
  by_cases h : y = x
  · subst h
    simp [Assoc.get?_insert_self]
  · simp [Assoc.get?_insert_of_ne _ _ (Ne.symm h), h]

theorem here?_insert (env : Env VarId) (x : String) (b : Bound VarId) (y : String) :
    (env.insert x b).here? y = if y = x then some b else env.here? y := by
  simp only [Scope.here?, Scope.insert]
  by_cases h : y = x
  · subst h
    simp [Assoc.get?_insert_self]
  · simp [Assoc.get?_insert_of_ne _ _ (Ne.symm h), h]

theorem get?_of_here? {y : String} {b : Bound VarId} (h : env.here? y = some b) : env.get? y = some b := by
  rw [Scope.here?] at h
  simp [Scope.get?, Scope.layers, h]

theorem assign_eq_ok {id : Ident} {t : Typing VarId} :
    env.assign id t = .ok env' ↔ env.here? id.label = none ∧ env' = env.insert id.label ⟨id, t, false⟩ := by
  rw [assign]
  cases h : env.here? id.label with
  | some b => simp
  | none => simp [eq_comm]

/-- No name is assumed, and all typings ask something of certain names only. -/
def Within (names : List String) (env : Env VarId) : Prop :=
  ∀ y b, env.get? y = some b → b.assumed = false ∧ b.typing.Within names

theorem Within.child {names : List String} (h : Within names env) : Within names env.child := h

theorem Within.insert {names : List String} (h : Within names env) {x : String} {b : Bound VarId}
    (ha : b.assumed = false) (hb : b.typing.Within names) : Within names (env.insert x b) := by
  intro y c hc
  rw [get?_insert] at hc
  split at hc
  · cases hc
    exact ⟨ha, hb⟩
  · exact h y c hc

end Env

namespace Typing

/-- The typing of a monomorphic name. -/
def param (x : String) (t : Ty VarId) : Typing VarId :=
  ⟨[(x, t)], t⟩

theorem within_param {names : List String} {x : String} {t : Ty VarId} (hx : x ∈ names) (ht : t.Closed) :
    (param x t).Within names :=
  ⟨⟨by simpa [param, Requirements.Closed] using ht, by simpa [param, Assoc.keys] using hx⟩, ht⟩

theorem meets_param {x : String} {t : Ty VarId} {θ : Assignment} {M : String → Mono} :
    Requirements.Meets θ M (param x t).needs ↔ t.mono.subst θ = M x := by
  simp [Requirements.Meets, param]

end Typing

/-! Parameters. -/

/-- The types of parameters, numbered from a variable on. -/
def paramsFrom (n : VarId) : List Ident → Assoc (Ty VarId)
  | [] => []
  | id :: ids => (id.label, .var n none) :: paramsFrom (n + 1) ids

theorem keys_paramsFrom (n : VarId) (ids : List Ident) : Assoc.keys (paramsFrom n ids) = ids.map Ident.label := by
  induction ids generalizing n with
  | nil => rfl
  | cons id ids ih => exact congrArg (id.label :: ·) (ih (n + 1))

theorem map_paramsFrom {α : Type} (n : VarId) (ids : List Ident) (f : String → α) :
    ((paramsFrom n ids).map fun p => f p.1) = ids.map fun id => f id.label := by
  have h := congrArg (List.map f) (keys_paramsFrom n ids)
  simpa only [Assoc.keys, List.map_map, Function.comp_def] using h

theorem mem_paramsFrom {n : VarId} {ids : List Ident} {x : String} {t : Ty VarId} (h : (x, t) ∈ paramsFrom n ids) :
    ∃ v, t = .var v none ∧ n ≤ v ∧ v < n + ids.length := by
  induction ids generalizing n with
  | nil => cases h
  | cons id ids ih =>
      rcases List.mem_cons.mp h with he | h
      · cases he
        exact ⟨n, rfl, Nat.le_refl _, by simp⟩
      · obtain ⟨v, hv, hle, hlt⟩ := ih h
        refine ⟨v, hv, Nat.le_of_succ_le hle, ?_⟩
        rwa [List.length_cons, Nat.add_comm ids.length, ← Nat.add_assoc]

/-- A scope after parameters have been bound in another one. -/
structure BindsParams (scope : Env VarId) (params : Assoc (Ty VarId)) (scope' : Env VarId) : Prop where
  param : ∀ {x t}, (x, t) ∈ params → ∃ id, scope'.get? x = some ⟨id, .param x t, false⟩
  other : ∀ {x}, x ∉ Assoc.keys params → scope'.get? x = scope.get? x
  here : ∀ x, x ∈ Assoc.keys scope'.current ↔ x ∈ Assoc.keys scope.current ∨ x ∈ Assoc.keys params

theorem BindsParams.nil (scope : Env VarId) : BindsParams scope [] scope :=
  ⟨by simp, fun _ => rfl, by simp [Assoc.keys]⟩

theorem BindsParams.cons {scope scope' : Env VarId} {id : Ident} {t : Ty VarId} {params : Assoc (Ty VarId)}
    (hid : id.label ∉ Assoc.keys params)
    (h : BindsParams (scope.insert id.label ⟨id, .param id.label t, false⟩) params scope') :
    BindsParams scope ((id.label, t) :: params) scope' where
  param {x u} hx := by
    rcases List.mem_cons.mp hx with he | hx
    · cases he
      refine ⟨id, ?_⟩
      rw [h.other hid, Env.get?_insert, if_pos rfl]
    · exact h.param hx
  other {x} hx := by
    rw [h.other fun hm => hx (List.mem_cons_of_mem _ hm), Env.get?_insert, if_neg]
    rintro rfl
    exact hx List.mem_cons_self
  here x := by
    rw [h.here, Scope.insert, Assoc.mem_keys_insert]
    simp only [Assoc.keys, List.map_cons, List.mem_cons]
    tauto

theorem Env.here?_eq_none {env : Env VarId} {x : String} : env.here? x = none ↔ x ∉ Assoc.keys env.current :=
  Assoc.get?_eq_none_iff

/-- Parameters that can be bound are identifiers, no two alike. -/
theorem Returns.bindParams {ps : List Pattern} {scope scope' : Env VarId} {params : Assoc (Ty VarId)} {r r' : Run}
    (h : Returns (Infer.bindParams scope ps) r (scope', params) r') :
    ∃ ids : List Ident, ps = ids.map .ident ∧ params = paramsFrom r.supply.types ids ∧ r' = r.skip ids.length ∧
      Assoc.Distinct params ∧ (∀ x ∈ Assoc.keys params, x ∉ Assoc.keys scope.current) ∧
      BindsParams scope params scope' := by
  induction ps generalizing scope params r with
  | nil =>
      obtain ⟨he, rfl⟩ := pure_iff.mp h
      cases he
      exact ⟨[], rfl, rfl, rfl, Assoc.distinct_nil, by simp [Assoc.keys], .nil _⟩
  | cons p ps ih =>
      cases p with
      | object ids pos => exact (not_unsupported h).elim
      | array ids pos => exact (not_unsupported h).elim
      | ident id =>
          rw [Infer.bindParams] at h
          obtain ⟨t, r₁, ht, h⟩ := bind_iff.mp h
          obtain ⟨rfl, rfl⟩ := freshVar_iff.mp ht
          obtain ⟨scope₁, r₂, hs, h⟩ := bind_iff.mp h
          obtain ⟨hassign, rfl⟩ := lift_iff.mp hs
          obtain ⟨hnone, rfl⟩ := Env.assign_eq_ok.mp hassign
          obtain ⟨⟨scope₂, rest⟩, r₃, hrest, h⟩ := bind_iff.mp h
          obtain ⟨he, rfl⟩ := pure_iff.mp h
          cases he
          obtain ⟨ids, rfl, rfl, rfl, hd, hnew, hb⟩ := ih hrest
          have hid : id.label ∉ Assoc.keys (paramsFrom (r.supply.types + 1) ids) := by
            intro hm
            exact hnew _ hm (Assoc.mem_keys_insert.mpr (.inl rfl))
          refine ⟨id :: ids, rfl, rfl, ?_, Assoc.distinct_cons.mpr ⟨hid, hd⟩, ?_, .cons hid hb⟩
          · exact (Run.skip_skip r 1 ids.length).trans (congrArg r.skip (Nat.add_comm 1 ids.length))
          · intro x hx hcur
            rcases List.mem_cons.mp hx with rfl | hx
            · exact Env.here?_eq_none.mp hnone hcur
            · exact hnew x hx (Assoc.mem_keys_insert.mpr (.inr hcur))

theorem Returns.bindsParams {ps : List Pattern} {scope scope' : Env VarId} {params : Assoc (Ty VarId)} {r r' : Run}
    (h : Returns (Infer.bindParams scope ps) r (scope', params) r') : BindsParams scope params scope' := by
  obtain ⟨ids, -, -, -, -, -, hb⟩ := bindParams h
  exact hb

/-- Identifiers can be bound as parameters when no two are alike and none is bound yet. -/
theorem Returns.of_bindParams {scope : Env VarId} {ids : List Ident} {r : Run} (hd : (ids.map Ident.label).Nodup)
    (hnew : ∀ id ∈ ids, id.label ∉ Assoc.keys scope.current) :
    ∃ scope', Returns (Infer.bindParams scope (ids.map .ident)) r
      (scope', paramsFrom r.supply.types ids) (r.skip ids.length) := by
  induction ids generalizing scope r with
  | nil => exact ⟨scope, rfl⟩
  | cons id ids ih =>
      obtain ⟨hid, hd⟩ := List.nodup_cons.mp hd
      obtain ⟨hnone, hnew⟩ := List.forall_mem_cons.mp hnew
      have hnew' : ∀ id' ∈ ids, id'.label ∉
          Assoc.keys (scope.insert id.label ⟨id, .param id.label (.var r.supply.types none), false⟩).current := by
        intro id' hm hk
        rcases Assoc.mem_keys_insert.mp hk with he | hk
        · exact hid (he ▸ List.mem_map_of_mem hm)
        · exact hnew id' hm hk
      obtain ⟨scope', hs⟩ := @ih _ (r.skip 1) hd hnew'
      refine ⟨scope', ?_⟩
      rw [List.map_cons, Infer.bindParams]
      refine (freshVar_iff.mpr ⟨rfl, rfl⟩).bind ((lift_iff.mpr ⟨?_, rfl⟩).bind (hs.bind ?_))
      · exact Env.assign_eq_ok.mpr ⟨Env.here?_eq_none.mpr hnone, rfl⟩
      · refine pure_iff.mpr ⟨rfl, ?_⟩
        rw [Run.skip_skip, List.length_cons, Nat.add_comm]

/-- The scope in which the parameters of a function bound to a name are bound. -/
def ownScope (env : Env VarId) (id : Ident) (v : VarId) : Env VarId :=
  (env.child.insert id.label ⟨id, .param id.label (.var v none), false⟩).child

theorem get?_ownScope (env : Env VarId) (id : Ident) (v : VarId) (y : String) :
    (ownScope env id v).get? y =
      if y = id.label then some ⟨id, .param id.label (.var v none), false⟩ else env.get? y :=
  (Env.get?_child _ y).trans (Env.get?_insert env.child _ _ y)

theorem Returns.bindDef_iff {env scope : Env VarId} {id : Ident} {ps : List Pattern} {params : Assoc (Ty VarId)}
    {r r' : Run} :
    Returns (Infer.bindDef env id ps) r (scope, params) r' ↔
      Returns (Infer.bindParams (ownScope env id r.supply.types) ps) (r.skip 1) (scope, params) r' := by
  rw [Infer.bindDef, bind_iff]
  constructor
  · rintro ⟨t, r₁, ht, h⟩
    obtain ⟨rfl, rfl⟩ := freshVar_iff.mp ht
    obtain ⟨scope₁, r₂, hlift, h⟩ := bind_iff.mp h
    obtain ⟨hassign, rfl⟩ := lift_iff.mp hlift
    obtain ⟨-, rfl⟩ := Env.assign_eq_ok.mp hassign
    exact h
  · intro h
    refine ⟨_, _, freshVar_iff.mpr ⟨rfl, rfl⟩, (lift_iff.mpr ⟨?_, rfl⟩).bind h⟩
    exact Env.assign_eq_ok.mpr ⟨rfl, rfl⟩

/-- A scope in which some names are monomorphic and all others are as around it. -/
structure Hides (env : Env VarId) (bound : List String) (scope : Env VarId) : Prop where
  hidden : ∀ y ∈ bound, ∃ id v, scope.get? y = some ⟨id, .param y (.var v none), false⟩
  other : ∀ y ∉ bound, scope.get? y = env.get? y

theorem Hides.within {env scope : Env VarId} {bound names : List String} (h : Hides env bound scope)
    (henv : env.Within names) : scope.Within (bound ++ names) := by
  intro y b hb
  by_cases hy : y ∈ bound
  · obtain ⟨id, v, he⟩ := h.hidden y hy
    cases he.symm.trans hb
    exact ⟨rfl, Typing.within_param (List.mem_append_left _ hy) (.var v none)⟩
  · rw [h.other y hy] at hb
    exact ⟨(henv y b hb).1, (henv y b hb).2.imp fun x hx => List.mem_append_right _ hx⟩

theorem BindsParams.hides {scope scope' : Env VarId} {n : VarId} {ids : List Ident}
    (h : BindsParams scope (paramsFrom n ids) scope') : Hides scope (ids.map Ident.label) scope' := by
  rw [← keys_paramsFrom n ids]
  refine ⟨fun y hy => ?_, fun y hy => h.other hy⟩
  obtain ⟨t, ht⟩ := Assoc.mem_keys.mp hy
  obtain ⟨v, rfl, -⟩ := mem_paramsFrom ht
  obtain ⟨id, he⟩ := h.param ht
  exact ⟨id, v, he⟩

theorem BindsParams.hides_own {env scope' : Env VarId} {own : Ident} {w n : VarId} {ids : List Ident}
    (h : BindsParams (ownScope env own w) (paramsFrom n ids) scope') :
    Hides env (ids.map Ident.label ++ [own.label]) scope' := by
  obtain ⟨hbound, hother⟩ := h.hides
  refine ⟨fun y hy => ?_, fun y hy => ?_⟩
  · by_cases hm : y ∈ ids.map Ident.label
    · exact hbound y hm
    · have hown : y = own.label := by simpa [hm] using hy
      refine ⟨own, w, ?_⟩
      rw [hother y hm, get?_ownScope, if_pos hown, hown]
  · rw [List.mem_append, List.mem_singleton, not_or] at hy
    rw [hother y hy.1, get?_ownScope, if_neg hy.2]

end ScriptTypes
