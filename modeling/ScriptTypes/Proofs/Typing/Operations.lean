import ScriptTypes.Proofs.Ty.Copies
import ScriptTypes.Proofs.Typing.Returns

/-! The two operations of a run that matter for types: using a name through a fresh copy of its typing, and settling
requirements. Of each is said what it keeps, what an assignment of the result says about the parts, and how an
assignment of the parts extends to the result. -/

namespace ScriptTypes

theorem Assignment.proper_ofBindings {bs : List (Binding VarId)} (hbs : ∀ b ∈ bs, b.Closed) :
    (ofBindings bs).Proper := by
  induction bs with
  | nil => exact .var
  | cons b bs ih =>
      obtain ⟨hb, hbs⟩ := List.forall_mem_cons.mp hbs
      refine Proper.then (fun v => ?_) (ih hbs)
      by_cases hv : v = b.var
      · rw [hv, Binding.assignment, Function.update_self]
        exact hb.value.proper
      · rw [Binding.assignment, Function.update_of_ne hv]
        exact .var v

/-- Two assignments do not differ below a bound. -/
def Assignment.AgreeBelow (n : Nat) (θ θ' : Assignment) : Prop :=
  ∀ v < n, θ v = θ' v

theorem Mono.Below.subst_eq {n : Nat} {t : Mono} (h : t.Below n) {θ θ' : Assignment}
    (hθ : Assignment.AgreeBelow n θ θ') : t.subst θ = t.subst θ' :=
  subst_congr fun v hv => hθ v (h v hv)

namespace Assignment.AgreeBelow

variable {n m : Nat} {θ θ₁ θ₂ : Assignment}

theorem refl : AgreeBelow n θ θ := fun _ _ => rfl

theorem trans (h : AgreeBelow n θ θ₁) (h' : AgreeBelow n θ₁ θ₂) : AgreeBelow n θ θ₂ :=
  fun v hv => (h v hv).trans (h' v hv)

theorem le (h : AgreeBelow m θ θ₁) (hn : n ≤ m) : AgreeBelow n θ θ₁ :=
  fun v hv => h v (Nat.lt_of_lt_of_le hv hn)

end Assignment.AgreeBelow

namespace Requirements

theorem Meets.congr {θ θ' : Assignment} {M : String → Mono} {env : Requirements VarId} (h : Meets θ M env)
    (hθ : ∀ e ∈ env, ∀ v ∈ e.2.mono.vars, θ' v = θ v) : Meets θ' M env :=
  fun e he => (Mono.subst_congr (hθ e he)).trans (h e he)

theorem Meets.agree {n : Nat} {θ θ' : Assignment} {M : String → Mono} {env : Requirements VarId}
    (h : Meets θ M env) (hb : Below n env) (hθ : Assignment.AgreeBelow n θ' θ) : Meets θ' M env :=
  h.congr fun e he v hv => hθ v (hb e he v hv)

end Requirements

/-- Closed types are asked, of certain names only. -/
structure Requirements.Within (names : List String) (env : Requirements VarId) : Prop where
  closed : Closed env
  keys : ∀ x ∈ Assoc.keys env, x ∈ names

namespace Typing

structure Within (names : List String) (t : Typing VarId) : Prop where
  needs : t.needs.Within names
  type : t.type.Closed

structure Below (n : Nat) (t : Typing VarId) : Prop where
  needs : Requirements.Below n t.needs
  type : t.type.mono.Below n

theorem Below.le {n m : Nat} {t : Typing VarId} (h : t.Below n) (hnm : n ≤ m) : t.Below m :=
  ⟨fun e he => (h.needs e he).le hnm, h.type.le hnm⟩

theorem Within.imp {names more : List String} {t : Typing VarId} (h : t.Within names)
    (hn : ∀ x ∈ names, x ∈ more) : t.Within more :=
  ⟨⟨h.needs.closed, fun x hx => hn x (h.needs.keys x hx)⟩, h.type⟩

theorem within_closed {names : List String} {t : Ty VarId} (h : t.Closed) : (closed t).Within names :=
  ⟨⟨by simp [closed, Requirements.Closed], by simp [closed, Assoc.keys]⟩, h⟩

end Typing

/-- What a run has done stays done. -/
structure Run.Le (r r' : Run) : Prop where
  types : r.supply.types ≤ r'.supply.types
  problems : ∀ p ∈ r.problems, p ∈ r'.problems

theorem Run.Le.refl (r : Run) : r.Le r := ⟨Nat.le_refl _, fun _ => id⟩

theorem Run.Le.trans {r r₁ r₂ : Run} (h : r.Le r₁) (h' : r₁.Le r₂) : r.Le r₂ :=
  ⟨Nat.le_trans h.types h'.types, fun p hp => h'.problems p (h.problems p hp)⟩

theorem Run.le_skip (r : Run) (n : Nat) : r.Le (r.skip n) := ⟨Nat.le_add_right _ _, fun _ => id⟩

/-! Copies of typings. -/

theorem Typing.Within.map {names : List String} {t : Typing VarId} (h : t.Within names) (f : Kind → VarId → VarId) :
    (t.map f).Within names := by
  refine ⟨⟨List.forall_mem_map.mpr fun e he => ?_, ?_⟩, ?_⟩
  · change (e.2.map f).Closed
    rw [Ty.map_eq_relabel]
    exact (h.needs.closed e he).relabel
  · change ∀ x ∈ Assoc.keys (Assoc.mapValues (Ty.map f) t.needs), x ∈ names
    rw [Assoc.keys_mapValues]
    exact h.needs.keys
  · rw [Typing.map, Ty.map_eq_relabel]
    exact h.type.relabel

theorem Typing.Within.below {names : List String} {t : Typing VarId} (h : t.Within names) {s : Supply}
    (hvars : ∀ x ∈ t.vars, s.Issued x) : t.Below s.types := by
  refine ⟨fun e he v hv => ?_, fun v hv => ?_⟩
  · have hmem : (Kind.type, v) ∈ e.2.vars := (h.needs.closed e he).mem_vars_iff.mpr ⟨rfl, hv⟩
    exact hvars _ (List.mem_append.mpr (.inl (List.mem_flatMap.mpr ⟨e, he, hmem⟩)))
  · exact hvars _ (List.mem_append.mpr (.inr (h.type.mem_vars_iff.mpr ⟨rfl, hv⟩)))

/-- The types of a renamed type are those that the type has once its variables are renamed. -/
theorem Ty.Shaped.mono_map_subst {t : Ty VarId} (h : t.Closed) (f : Kind → VarId → VarId) (θ : Assignment) :
    (t.map f).mono.subst θ = t.mono.subst fun v => θ (f .type v) := by
  rw [Ty.map_eq_relabel, Ty.mono_relabel h, Mono.subst_subst]
  simp only [Mono.subst_var]

theorem Requirements.meets_map {env : Requirements VarId} (h : env.Closed) (f : Kind → VarId → VarId) {θ : Assignment}
    {M : String → Mono} :
    Meets θ M (Assoc.mapValues (Ty.map f) env) ↔ Meets (fun v => θ (f .type v)) M env := by
  refine List.forall_mem_map.trans (forall₂_congr fun e he => ?_)
  rw [(h e he).mono_map_subst]

/-- Any types for what is copied to new variables are those of the copy for some assignment that keeps all older
variables. -/
theorem Assignment.exists_renamed {f : VarId → VarId} (hf : Function.Injective f) {n : Nat} (hnew : ∀ v, n ≤ f v)
    (θ₀ θ : Assignment) : ∃ θ' : Assignment, AgreeBelow n θ' θ₀ ∧ ∀ v, θ' (f v) = θ v := by
  refine ⟨Function.extend f θ θ₀, fun w hw => ?_, hf.extend_apply θ θ₀⟩
  refine Function.extend_apply' θ θ₀ w ?_
  rintro ⟨v, rfl⟩
  exact Nat.not_lt.mpr (hnew v) hw

section Instantiate

variable {names : List String} {t u : Typing VarId} {r r' : Run} (ht : t.Within names)
  (h : Returns (Infer.instantiate t) r u r')

include ht h

theorem Returns.instantiate_within : r.Le r' ∧ u.Within names ∧ u.Below r'.supply.types := by
  obtain ⟨rfl, rfl⟩ := instantiate_iff.mp h
  have hwithin : (t.instantiate r.supply).1.Within names := by
    obtain ⟨f, -, -, hcopy⟩ := t.exists_instantiate_eq_map r.supply
    rw [hcopy]
    exact ht.map f
  refine ⟨⟨(t.instantiate_le r.supply).types, fun _ => id⟩, hwithin, hwithin.below ?_⟩
  exact fun x hx => (t.instantiate_new r.supply x hx).2

/-- Types of the copy are types of the original. -/
theorem Returns.instantiate_sound {θ : Assignment} (hθ : θ.Proper) :
    ∃ θ' : Assignment, θ'.Proper ∧ u.type.mono.subst θ = t.type.mono.subst θ' ∧
      ∀ M, Requirements.Meets θ M u.needs → Requirements.Meets θ' M t.needs := by
  obtain ⟨rfl, rfl⟩ := instantiate_iff.mp h
  obtain ⟨f, -, -, hcopy⟩ := t.exists_instantiate_eq_map r.supply
  rw [hcopy]
  exact ⟨fun v => θ (f .type v), fun v => hθ _, ht.type.mono_map_subst f θ,
    fun M => (Requirements.meets_map ht.needs.closed f).mp⟩

/-- Types of the original are types of the copy. -/
theorem Returns.instantiate_complete (θ₀ θ : Assignment) :
    ∃ θ' : Assignment, Assignment.AgreeBelow r.supply.types θ' θ₀ ∧ u.type.mono.subst θ' = t.type.mono.subst θ ∧
      ∀ M, Requirements.Meets θ M t.needs → Requirements.Meets θ' M u.needs := by
  obtain ⟨rfl, rfl⟩ := instantiate_iff.mp h
  obtain ⟨f, hf, hnew, hcopy⟩ := t.exists_instantiate_eq_map r.supply
  obtain ⟨θ', hagree, hθ'⟩ := Assignment.exists_renamed (hf .type) (fun v => Nat.not_lt.mp (hnew .type v)) θ₀ θ
  have hback : (fun v => θ' (f .type v)) = θ := funext hθ'
  rw [hcopy]
  refine ⟨θ', hagree, ?_, fun M hM => (Requirements.meets_map ht.needs.closed f).mpr ?_⟩
  · rw [← hback]
    exact ht.type.mono_map_subst f θ'
  · rwa [hback]

end Instantiate

/-! Settled requirements. -/

theorem Assignment.ofBindings_below {n : Nat} {bs : List (Binding VarId)} (h : ∀ b ∈ bs, b.value.mono.Below n) :
    ∀ v < n, (ofBindings bs v).Below n := by
  induction bs with
  | nil =>
      intro v hv w hw
      rwa [Mono.mem_vars_var.mp hw]
  | cons b bs ih =>
      obtain ⟨hb, hbs⟩ := List.forall_mem_cons.mp h
      intro v hv
      change ((b.assignment v).subst (ofBindings bs)).Below n
      refine Mono.Below.subst ?_ (ih hbs)
      by_cases he : v = b.var
      · rwa [he, Binding.assignment, Function.update_self]
      · rw [Binding.assignment, Function.update_of_ne he]
        intro w hw
        rwa [Mono.mem_vars_var.mp hw]

theorem Ty.under_below {n : Nat} {bs : List (Binding VarId)} (hbs : ∀ b ∈ bs, b.Closed)
    (hb : ∀ b ∈ bs, b.value.mono.Below n) {t : Ty VarId} (ht : t.Closed) (hn : t.mono.Below n) :
    (t.under bs).mono.Below n := by
  rw [mono_under hbs ht.canonical]
  exact hn.subst (Assignment.ofBindings_below hb)

theorem Ty.mono_under_subst {bs : List (Binding VarId)} (hbs : ∀ b ∈ bs, b.Closed) {t : Ty VarId}
    (ht : t.Closed) (θ : Assignment) :
    (t.under bs).mono.subst θ = t.mono.subst ((Assignment.ofBindings bs).then θ) := by
  rw [mono_under hbs ht.canonical, Assignment.subst_then]

namespace Requirements

variable {envs : List (Requirements VarId)} {bs : List (Binding VarId)}

theorem Within.joinUnder {names : List String} (hbs : ∀ b ∈ bs, b.Closed)
    (henvs : ∀ env ∈ envs, Within names env) : (joinUnder bs envs).Within names := by
  refine ⟨.joinUnder hbs fun env he => (henvs env he).closed, fun x hx => ?_⟩
  obtain ⟨t, ht⟩ := Assoc.mem_keys.mp (mem_keys_joinUnder.mp hx)
  obtain ⟨env, henv, ht⟩ := List.mem_flatten.mp ht
  exact (henvs env henv).keys x (Assoc.mem_keys_of_mem ht)

theorem Below.joinUnder {n : Nat} (hbs : ∀ b ∈ bs, b.Closed) (hb : ∀ b ∈ bs, b.value.mono.Below n)
    (henvs : ∀ env ∈ envs, Closed env) (hn : ∀ env ∈ envs, Below n env) : Below n (joinUnder bs envs) := by
  rintro ⟨name, t⟩ ht
  obtain ⟨u, hu, rfl⟩ := mem_joinUnder ht
  exact Ty.under_below hbs hb (forall_mem_flatten.mpr henvs _ hu) (forall_mem_flatten.mpr hn _ hu)

theorem Below.le {n m : Nat} {env : Requirements VarId} (h : Below n env) (hnm : n ≤ m) : Below m env :=
  fun e he => (h e he).le hnm

end Requirements

theorem Constraint.Below.le {n m : Nat} {c : Constraint VarId} (h : c.Below n) (hnm : n ≤ m) : c.Below m :=
  ⟨h.left.le hnm, h.right.le hnm⟩

/-- No binding of the solution of a problem is cyclic. -/
def Problem.Acyclic (steps : Nat) (p : Problem) : Prop :=
  ∀ bs supply, Id.run (Requirements.unify steps p.supply p.needs p.extra) = (.solved bs, supply) →
    ∀ b ∈ bs, ¬ b.Cyclic

def Run.Acyclic (steps : Nat) (r : Run) : Prop :=
  ∀ p ∈ r.problems, p.Acyclic steps

theorem Run.Acyclic.le {steps : Nat} {r r' : Run} (h : r'.Acyclic steps) (hr : r.Le r') : r.Acyclic steps :=
  fun p hp => h p (hr.problems p hp)

section Settle

variable {steps : Nat} {needs : List (Requirements VarId)} {extra : List (Constraint VarId)}
  {explain : UnifyError VarId → Failure VarId} {bs : List (Binding VarId)} {r r' : Run}
  (hneeds : ∀ env ∈ needs, Requirements.Closed env) (hextra : ∀ c ∈ extra, c.Closed)

include hneeds hextra

theorem Returns.settle_le (h : Returns (Infer.settle steps needs extra explain) r bs r') : r.Le r' := by
  obtain ⟨supply, hrun, rfl⟩ := settle_iff.mp h
  obtain ⟨rfl, -⟩ := Requirements.unify_settled hneeds hextra hrun
  exact ⟨Nat.le_add_right _ _, fun p hp => List.mem_cons_of_mem _ hp⟩

theorem Returns.settle_settled (h : Returns (Infer.settle steps needs extra explain) r bs r') :
    Requirements.Settled r'.supply.types needs extra bs := by
  obtain ⟨supply, hrun, rfl⟩ := settle_iff.mp h
  exact (Requirements.unify_settled hneeds hextra hrun).2

omit hneeds hextra in
theorem Returns.settle_acyclic (h : Returns (Infer.settle steps needs extra explain) r bs r')
    (hac : r'.Acyclic steps) : ∀ b ∈ bs, ¬ b.Cyclic := by
  obtain ⟨supply, hrun, rfl⟩ := settle_iff.mp h
  exact hac _ List.mem_cons_self bs supply hrun

/-- Types that meet requirements and further constraints are found. -/
theorem Reaches.settle {θ : Assignment} {M : String → Mono}
    (hM : ∀ env ∈ needs, Requirements.Meets θ M env) (hθ : ∀ c ∈ extra, c.Unifies θ)
    (hbelow : ∀ env ∈ needs, Requirements.Below r.supply.types env)
    (hbextra : ∀ c ∈ extra, c.Below r.supply.types) :
    ∃ bs r', (∀ explain, Reaches (Infer.settle · needs extra explain) r bs r') ∧
      ∃ θ' : Assignment, θ'.AgreeBelow r.supply.types θ ∧ (Assignment.ofBindings bs).then θ' = θ' := by
  obtain ⟨limit, bs, hrun, θ', hagree, hthen⟩ :=
    Requirements.unify_of_meets hneeds hextra hM hθ hbelow hbextra
  exact ⟨bs, _, fun explain => ⟨limit, fun steps hge => Returns.settle_iff.mpr ⟨_, hrun steps hge, rfl⟩⟩,
    θ', hagree, hthen⟩

end Settle

end ScriptTypes
