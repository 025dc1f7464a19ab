import ScriptTypes.Proofs.Unify.Solver

/-! Bringing requirements together. What is asked of each name is collected under one fresh variable, so bindings that
solve the collected constraints give all entries of a name the same type. Conversely types that meet all
requirements are found by the solver. -/

namespace ScriptTypes

namespace Requirements

/-! What is asked of each name. -/

section Uses

variable {V : Type}

/-- Add what an entry asks to what is asked of its name. -/
def note (uses : Assoc (List (Ty V))) (e : String × Ty V) : Assoc (List (Ty V)) :=
  Assoc.insert uses e.1 ((Assoc.get? uses e.1).getD [] ++ [e.2])

/-- The types asked of a name. -/
def asked (uses : Assoc (List (Ty V))) (name : String) : List (Ty V) :=
  (Assoc.get? uses name).getD []

theorem mem_asked_note {uses : Assoc (List (Ty V))} {e : String × Ty V} {name : String} {t : Ty V} :
    t ∈ asked (note uses e) name ↔ t ∈ asked uses name ∨ (name, t) = e := by
  obtain ⟨k, u⟩ := e
  by_cases h : k = name
  · subst h
    simp [asked, note, Assoc.get?_insert_self]
  · simp [asked, note, Assoc.get?_insert_of_ne _ _ h, Ne.symm h]

theorem foldl_note (entries : List (String × Ty V)) {uses : Assoc (List (Ty V))} (hu : Assoc.Distinct uses) :
    Assoc.Distinct (entries.foldl note uses) ∧ ∀ name t,
      t ∈ asked (entries.foldl note uses) name ↔ t ∈ asked uses name ∨ (name, t) ∈ entries := by
  induction entries generalizing uses with
  | nil => exact ⟨hu, by simp⟩
  | cons e entries ih =>
      have hn : Assoc.Distinct (note uses e) := hu.insert _ _
      obtain ⟨hd, hm⟩ := ih hn
      refine ⟨hd, fun name t => ?_⟩
      rw [List.foldl_cons, hm, mem_asked_note, List.mem_cons, or_assoc]

theorem uses_distinct (envs : List (Requirements V)) : Assoc.Distinct (uses envs) :=
  (foldl_note envs.flatten Assoc.distinct_nil).1

/-- Exactly the entries of the environments are asked. -/
theorem mem_uses {envs : List (Requirements V)} {name : String} {t : Ty V} :
    (∃ ts, (name, ts) ∈ uses envs ∧ t ∈ ts) ↔ (name, t) ∈ envs.flatten := by
  have h : t ∈ asked (uses envs) name ↔ t ∈ asked ([] : Assoc (List (Ty V))) name ∨ (name, t) ∈ envs.flatten :=
    (foldl_note envs.flatten Assoc.distinct_nil).2 name t
  rw [asked, asked, Assoc.get?, Option.getD_none, or_iff_right List.not_mem_nil] at h
  rw [← h]
  constructor
  · rintro ⟨ts, hts, ht⟩
    rwa [Assoc.get?_of_mem (uses_distinct envs) hts]
  · intro ht
    cases hg : Assoc.get? (uses envs) name with
    | none =>
        rw [hg] at ht
        cases ht
    | some ts =>
        rw [hg] at ht
        exact ⟨ts, Assoc.mem_of_get? hg, ht⟩

end Uses

/-! The constraints of the collected requirements. -/

/-- The supply after one fresh type variable for each of so many names. -/
def skip (supply : Supply) (n : Nat) : Supply :=
  { supply with types := supply.types + n }

theorem constraints_supply (supply : Supply) (us : Assoc (List (Ty VarId))) :
    (constraints supply us).2 = skip supply us.length := by
  induction us generalizing supply with
  | nil => rfl
  | cons u us ih =>
      change (constraints (skip supply 1) us).2 = _
      rw [ih]
      simp only [skip, List.length_cons, Nat.add_assoc, Nat.add_comm]

theorem constraints_cons (supply : Supply) (name : String) (ts : List (Ty VarId)) (us : Assoc (List (Ty VarId))) :
    (constraints supply ((name, ts) :: us)).1 =
      ts.map (⟨.var supply.types none, ·⟩) ++ (constraints (skip supply 1) us).1 := rfl

/-- Every constraint has a fresh variable on the left and an entry on the right. -/
theorem mem_constraints {supply : Supply} {us : Assoc (List (Ty VarId))} {c : Constraint VarId}
    (h : c ∈ (constraints supply us).1) :
    (∃ v, supply.types ≤ v ∧ v < supply.types + us.length ∧ c.left = .var v none) ∧ ∃ u ∈ us, c.right ∈ u.2 := by
  induction us generalizing supply with
  | nil => cases h
  | cons u us ih =>
      obtain ⟨name, ts⟩ := u
      rw [constraints_cons, List.mem_append, List.mem_map] at h
      rcases h with ⟨t, ht, rfl⟩ | h
      · exact ⟨⟨_, Nat.le_refl _, by simp, rfl⟩, (name, ts), List.mem_cons_self, ht⟩
      · obtain ⟨⟨v, hle, hlt, hv⟩, w, hw, ht⟩ := ih h
        refine ⟨⟨v, Nat.le_of_succ_le hle, ?_, hv⟩, w, List.mem_cons_of_mem _ hw, ht⟩
        rwa [List.length_cons, Nat.add_comm us.length, ← Nat.add_assoc]

/-- An assignment that unifies the constraints gives all types asked of a name the same monotype. -/
theorem eq_of_constraints {supply : Supply} {us : Assoc (List (Ty VarId))} {σ : Assignment}
    (h : ∀ c ∈ (constraints supply us).1, c.Unifies σ) {name : String} {ts : List (Ty VarId)}
    (hts : (name, ts) ∈ us) {t u : Ty VarId} (ht : t ∈ ts) (hu : u ∈ ts) : t.mono.subst σ = u.mono.subst σ := by
  induction us generalizing supply with
  | nil => cases hts
  | cons w us ih =>
      obtain ⟨name', ts'⟩ := w
      rw [constraints_cons, List.forall_mem_append, List.forall_mem_map] at h
      rcases List.mem_cons.mp hts with he | hts
      · cases he
        exact (h.1 t ht).symm.trans (h.1 u hu)
      · exact ih h.2 hts

/-- Monotypes that meet what is asked of names extend to an assignment that unifies the constraints. -/
theorem constraints_unifiable {supply : Supply} {us : Assoc (List (Ty VarId))} {θ : Assignment}
    {M : String → Mono} (hM : ∀ u ∈ us, ∀ t ∈ u.2, t.mono.subst θ = M u.1)
    (hb : ∀ u ∈ us, ∀ t ∈ u.2, t.mono.Below supply.types) :
    ∃ θ' : Assignment, (∀ v < supply.types, θ' v = θ v) ∧ ∀ c ∈ (constraints supply us).1, c.Unifies θ' := by
  induction us generalizing supply θ with
  | nil => exact ⟨θ, fun _ _ => rfl, fun c hc => by cases hc⟩
  | cons u us ih =>
      obtain ⟨name, ts⟩ := u
      obtain ⟨hMu, hM⟩ := List.forall_mem_cons.mp hM
      obtain ⟨hbu, hb⟩ := List.forall_mem_cons.mp hb
      have agree : ∀ v < supply.types, Function.update θ supply.types (M name) v = θ v :=
        fun v hv => Function.update_of_ne (Nat.ne_of_lt hv) _ _
      obtain ⟨θ', hle, hθ'⟩ := @ih (skip supply 1) (Function.update θ supply.types (M name))
        (fun u hu t ht => (Mono.subst_congr fun v hv => agree v (hb u hu t ht v hv)).trans (hM u hu t ht))
        (fun u hu t ht => (hb u hu t ht).le (Nat.le_succ _))
      refine ⟨θ', fun v hv => (hle v (Nat.lt_succ_of_lt hv)).trans (agree v hv), ?_⟩
      rw [constraints_cons, List.forall_mem_append, List.forall_mem_map]
      refine ⟨fun t ht => ?_, hθ'⟩
      have hv : θ' supply.types = M name :=
        (hle supply.types (Nat.lt_succ_self _)).trans (Function.update_self ..)
      rw [Constraint.Unifies, Ty.mono_var, Mono.subst_var, hv, ← hMu t ht]
      refine Mono.subst_congr fun v hv => ?_
      have hlt := hbu t ht v hv
      exact ((hle v (Nat.lt_succ_of_lt hlt)).trans (agree v hlt)).symm

/-! Joined requirements. -/

theorem run_subst (bs : List (Binding VarId)) (env : Requirements VarId) :
    Id.run (subst bs env) = Assoc.mapValues (·.under bs) env := by
  induction env with
  | nil => rfl
  | cons e env ih =>
      rw [Assoc.mapValues_cons, ← ih]
      rfl

theorem joinUnder_eq (bs : List (Binding VarId)) (envs : List (Requirements VarId)) :
    joinUnder bs envs = Assoc.ofEntries (Assoc.mapValues (·.under bs) envs.flatten) := by
  rw [← run_subst]
  rfl

theorem joinUnder_distinct (bs : List (Binding VarId)) (envs : List (Requirements VarId)) :
    Assoc.Distinct (joinUnder bs envs) := by
  rw [joinUnder_eq]
  exact Assoc.distinct_ofEntries _

theorem mem_joinUnder {bs : List (Binding VarId)} {envs : List (Requirements VarId)} {name : String}
    {t : Ty VarId} (h : (name, t) ∈ joinUnder bs envs) : ∃ u, (name, u) ∈ envs.flatten ∧ u.under bs = t := by
  rw [joinUnder_eq] at h
  exact Assoc.mem_mapValues.mp (Assoc.mem_of_mem_ofEntries h)

theorem mem_keys_joinUnder {bs : List (Binding VarId)} {envs : List (Requirements VarId)} {name : String} :
    name ∈ Assoc.keys (joinUnder bs envs) ↔ name ∈ Assoc.keys envs.flatten := by
  rw [joinUnder_eq, Assoc.mem_keys_ofEntries, Assoc.keys_mapValues]

/-! Settling. -/

def Closed (env : Requirements VarId) : Prop :=
  ∀ e ∈ env, e.2.Closed

def Below (n : Nat) (env : Requirements VarId) : Prop :=
  ∀ e ∈ env, e.2.mono.Below n

/-- Monotypes of names are as they are asked to be. -/
def Meets (θ : Assignment) (M : String → Mono) (env : Requirements VarId) : Prop :=
  ∀ e ∈ env, e.2.mono.subst θ = M e.1

theorem forall_mem_flatten {P : String × Ty VarId → Prop} {envs : List (Requirements VarId)} :
    (∀ e ∈ envs.flatten, P e) ↔ ∀ env ∈ envs, ∀ e ∈ env, P e := by
  simp only [List.mem_flatten, forall_exists_index, and_imp]
  exact ⟨fun h env henv e he => h e env henv he, fun h e env henv he => h env henv e he⟩

/-- The entries that are asked of names in some environments. -/
theorem mem_uses_flatten {envs : List (Requirements VarId)} {u : String × List (Ty VarId)} {t : Ty VarId}
    (hu : u ∈ uses envs) (ht : t ∈ u.2) : (u.1, t) ∈ envs.flatten :=
  mem_uses.mp ⟨u.2, hu, ht⟩

/-- What the bindings that settle requirements and further constraints are like. -/
structure Settled (n : Nat) (envs : List (Requirements VarId)) (extra : List (Constraint VarId))
    (bs : List (Binding VarId)) : Prop where
  closed : ∀ b ∈ bs, b.Closed
  below : (∀ env ∈ envs, Below n env) → (∀ c ∈ extra, c.Below n) → ∀ b ∈ bs, b.value.mono.Below n
  extra : (∀ b ∈ bs, ¬ b.Cyclic) → ∀ c ∈ extra, c.Unifies (.ofBindings bs)
  needs : (∀ b ∈ bs, ¬ b.Cyclic) → ∀ name t u, (name, t) ∈ envs.flatten → (name, u) ∈ envs.flatten →
    t.mono.subst (.ofBindings bs) = u.mono.subst (.ofBindings bs)

section Unify

variable {envs : List (Requirements VarId)} {extra : List (Constraint VarId)}
  (henvs : ∀ env ∈ envs, Closed env) (hextra : ∀ c ∈ extra, c.Closed)

include henvs hextra

theorem constraints_closed (supply : Supply) :
    ∀ c ∈ (constraints supply (uses envs)).1 ++ extra, c.Closed := by
  refine List.forall_mem_append.mpr ⟨fun c hc => ?_, hextra⟩
  obtain ⟨⟨v, -, -, hv⟩, u, hu, ht⟩ := mem_constraints hc
  refine ⟨?_, forall_mem_flatten.mpr henvs _ (mem_uses_flatten hu ht)⟩
  rw [hv]
  exact .var v none

theorem unify_settled {steps : Nat} {supply supply' : Supply} {bs : List (Binding VarId)}
    (h : Id.run (unify steps supply envs extra) = (.solved bs, supply')) :
    supply' = skip supply (uses envs).length ∧ Settled supply'.types envs extra bs := by
  obtain ⟨hs, hsolved⟩ := solve_solved (constraints_closed henvs hextra supply) h
  rw [constraints_supply] at hs
  refine ⟨hs, hsolved.closed, fun hbelow hbextra b hb => ?_, fun hac => ?_, fun hac name t u ht hu => ?_⟩
  · refine (hsolved.below _ (List.forall_mem_append.mpr ⟨fun c hc => ?_, hbextra⟩) b hb).2
    obtain ⟨⟨v, -, hlt, hv⟩, u, hu, ht⟩ := mem_constraints hc
    refine ⟨?_, forall_mem_flatten.mpr hbelow _ (mem_uses_flatten hu ht)⟩
    rw [hv, Ty.mono_var, hs]
    intro w hw
    rw [Mono.mem_vars_var.mp hw]
    exact hlt
  · exact (List.forall_mem_append.mp (hsolved.unifies hac)).2
  · obtain ⟨ts, hts, ht⟩ := mem_uses.mpr ht
    obtain ⟨us, hus, hu⟩ := mem_uses.mpr hu
    have he := (Assoc.get?_of_mem (uses_distinct envs) hus).symm.trans
      (Assoc.get?_of_mem (uses_distinct envs) hts)
    cases he
    exact eq_of_constraints (List.forall_mem_append.mp (hsolved.unifies hac)).1 hts ht hu

/-- Types of names that meet all requirements make settling succeed, and they are met by what it leaves. -/
theorem unify_of_meets {supply : Supply} {θ : Assignment} {M : String → Mono}
    (hM : ∀ env ∈ envs, Meets θ M env) (hθ : ∀ c ∈ extra, c.Unifies θ)
    (hbelow : ∀ env ∈ envs, Below supply.types env) (hbextra : ∀ c ∈ extra, c.Below supply.types) :
    ∃ limit bs, (∀ steps ≥ limit,
        Id.run (unify steps supply envs extra) = (.solved bs, skip supply (uses envs).length)) ∧
      ∃ θ' : Assignment, (∀ v < supply.types, θ' v = θ v) ∧ (Assignment.ofBindings bs).then θ' = θ' := by
  obtain ⟨θ', hagree, hunif⟩ := constraints_unifiable
    (fun u hu t ht => forall_mem_flatten.mpr hM (u.1, t) (mem_uses_flatten hu ht))
    (fun u hu t ht => forall_mem_flatten.mpr hbelow (u.1, t) (mem_uses_flatten hu ht))
  have hextra' : ∀ c ∈ extra, c.Unifies θ' := by
    intro c hc
    have hb := hbextra c hc
    rw [Constraint.Unifies, Mono.subst_congr fun v hv => hagree v (hb.left v hv),
      Mono.subst_congr fun v hv => hagree v (hb.right v hv)]
    exact hθ c hc
  obtain ⟨bs, hrun, hbs⟩ := solve_of_unifies (constraints supply (uses envs)).2
    (constraints_closed henvs hextra supply) (List.forall_mem_append.mpr ⟨hunif, hextra'⟩)
  rw [← constraints_supply]
  exact ⟨_, bs, hrun, θ', hagree, Assignment.ofBindings_then hbs⟩

end Unify

section Join

variable {n : Nat} {envs : List (Requirements VarId)} {extra : List (Constraint VarId)}
  {bs : List (Binding VarId)}

/-- What meets the joined requirements meets all that were joined. -/
theorem Settled.meets (hs : Settled n envs extra bs) (hac : ∀ b ∈ bs, ¬ b.Cyclic)
    (henvs : ∀ env ∈ envs, Closed env) {θ : Assignment} {M : String → Mono}
    (hM : Meets θ M (joinUnder bs envs)) : ∀ env ∈ envs, Meets ((Assignment.ofBindings bs).then θ) M env := by
  refine forall_mem_flatten.mp ?_
  rintro ⟨name, t⟩ ht
  obtain ⟨kept, hkept⟩ := Assoc.mem_keys.mp (mem_keys_joinUnder.mpr (Assoc.mem_keys_of_mem ht))
  obtain ⟨u, hu, rfl⟩ := mem_joinUnder hkept
  have hk := hM _ hkept
  rw [Ty.mono_under hs.closed (forall_mem_flatten.mpr henvs _ hu).canonical] at hk
  rw [Assignment.subst_then, hs.needs hac name t u ht hu]
  exact hk

/-- An assignment that agrees with the bindings meets what they leave of requirements that it meets. -/
theorem Meets.joinUnder (hbs : ∀ b ∈ bs, b.Closed) (henvs : ∀ env ∈ envs, Closed env) {θ : Assignment}
    {M : String → Mono} (hθ : (Assignment.ofBindings bs).then θ = θ) (hM : ∀ env ∈ envs, Meets θ M env) :
    Meets θ M (joinUnder bs envs) := by
  rintro ⟨name, t⟩ ht
  obtain ⟨u, hu, rfl⟩ := mem_joinUnder ht
  rw [Ty.mono_under hbs (forall_mem_flatten.mpr henvs _ hu).canonical, ← Assignment.subst_then, hθ]
  exact forall_mem_flatten.mpr hM _ hu

theorem Closed.joinUnder (hbs : ∀ b ∈ bs, b.Closed) (henvs : ∀ env ∈ envs, Closed env) :
    Closed (joinUnder bs envs) := by
  rintro ⟨name, t⟩ ht
  obtain ⟨u, hu, rfl⟩ := mem_joinUnder ht
  exact (forall_mem_flatten.mpr henvs _ hu).under hbs

end Join

end Requirements

theorem Ty.alike_under {bs : List (Binding VarId)} (hbs : ∀ b ∈ bs, b.Closed) {t u : Ty VarId} (ht : t.Closed)
    (hu : u.Closed) (h : t.mono.subst (.ofBindings bs) = u.mono.subst (.ofBindings bs)) :
    (t.under bs).Alike (u.under bs) := by
  rwa [alike_iff (ht.under hbs).canonical (hu.under hbs).canonical, mono_under hbs ht.canonical,
    mono_under hbs hu.canonical]

/-- When the solver ends on closed constraints without binding a variable to a type in which it occurs, both sides of
every constraint are the same under its bindings. So when requirements have been settled, all entries of a
name are the same, and the joined requirements hold one of them. -/
theorem solve_sound {cs extra : List (Constraint VarId)} {envs : List (Requirements VarId)}
    (hcs : ∀ c ∈ cs, c.Closed) (hextra : ∀ c ∈ extra, c.Closed) (henvs : ∀ env ∈ envs, ∀ e ∈ env, e.2.Closed) :
    (∀ steps supply bs supply', Id.run (solve steps supply cs) = (.solved bs, supply') →
      (∀ b ∈ bs, ¬ b.Cyclic) → ∀ c ∈ cs, (c.left.under bs).Alike (c.right.under bs)) ∧
    ∀ steps supply bs supply', Id.run (Requirements.unify steps supply envs extra) = (.solved bs, supply') →
      (∀ b ∈ bs, ¬ b.Cyclic) →
      (∀ c ∈ extra, (c.left.under bs).Alike (c.right.under bs)) ∧
      ∀ name t, (name, t) ∈ envs.flatten →
        (∀ u, (name, u) ∈ envs.flatten → (t.under bs).Alike (u.under bs)) ∧
        ∃ kept, Assoc.get? (Requirements.joinUnder bs envs) name = some kept ∧ kept.Alike (t.under bs) := by
  constructor
  · intro steps supply bs supply' h hac c hc
    have hs := (solve_solved hcs h).2
    exact Ty.alike_under hs.closed (hcs c hc).left (hcs c hc).right (hs.unifies hac c hc)
  · intro steps supply bs supply' h hac
    have hs := (Requirements.unify_settled henvs hextra h).2
    have hclosed := Requirements.forall_mem_flatten.mpr henvs
    constructor
    · intro c hc
      exact Ty.alike_under hs.closed (hextra c hc).left (hextra c hc).right (hs.extra hac c hc)
    · intro name t ht
      have entries : ∀ t u, (name, t) ∈ envs.flatten → (name, u) ∈ envs.flatten →
          (t.under bs).Alike (u.under bs) :=
        fun t u ht hu => Ty.alike_under hs.closed (hclosed _ ht) (hclosed _ hu) (hs.needs hac name t u ht hu)
      refine ⟨fun u hu => entries t u ht hu, ?_⟩
      obtain ⟨kept, hkept⟩ := Assoc.exists_get?_of_mem_keys
        (Requirements.mem_keys_joinUnder.mpr (Assoc.mem_keys_of_mem ht))
      obtain ⟨u, hu, rfl⟩ := Requirements.mem_joinUnder (Assoc.mem_of_get? hkept)
      exact ⟨_, hkept, entries u t hu ht⟩

/-- Two environments that ask different things of one name. -/
def sharedName : List (Requirements VarId) :=
  [[("f", .var 0 none)], [("n", .var 1 none), ("f", .arrow [.var 1 none] (.leaf .num none) none)]]

/-- The bindings that settle them, with the result of `f` asked to be as its argument. -/
def sharedNameBindings : List (Binding VarId) :=
  [⟨.type, 2, none, .var 0 none⟩, ⟨.type, 0, none, .arrow [.var 1 none] (.leaf .num none) none⟩,
   ⟨.type, 3, none, .var 1 none⟩, ⟨.type, 1, none, .leaf .num none⟩]

theorem solve_sound_sharedName :
    Id.run (Requirements.unify 9 ⟨2, 0⟩ sharedName [⟨.var 1 none, .leaf .num none⟩]) =
      (.solved sharedNameBindings, ⟨4, 0⟩) ∧
    (Ty.under (.var 0 none) sharedNameBindings).Alike
      (Ty.under (.arrow [.var 1 none] (.leaf .num none) none) sharedNameBindings) := by
  have hrun : Id.run (Requirements.unify 9 ⟨2, 0⟩ sharedName [⟨.var 1 none, .leaf .num none⟩]) =
      (.solved sharedNameBindings, ⟨4, 0⟩) := rfl
  have hv : ∀ v : VarId, (Ty.var v none).Closed := fun v => .var v none
  have hf : (Ty.arrow [.var 1 none] (.leaf .num none) none : Ty VarId).Closed :=
    .arrow _ (List.forall_mem_singleton.mpr (hv 1)) (.leaf _ _)
  have henvs : ∀ env ∈ sharedName, ∀ e ∈ env, e.2.Closed := by
    refine List.forall_mem_cons.mpr ⟨?_, List.forall_mem_singleton.mpr ?_⟩
    · exact List.forall_mem_singleton.mpr (hv 0)
    · exact List.forall_mem_cons.mpr ⟨hv 1, List.forall_mem_singleton.mpr hf⟩
  have hextra : ∀ c ∈ [Constraint.mk (.var 1 none) (.leaf .num none)], c.Closed :=
    List.forall_mem_singleton.mpr ⟨hv 1, .leaf _ _⟩
  have hac : ∀ b ∈ sharedNameBindings, ¬ b.Cyclic := by
    simp [sharedNameBindings, Binding.Cyclic, Ty.vars, Ty.varsList]
  have hsettled := (solve_sound crossedQueue_closed hextra henvs).2 _ _ _ _ hrun hac
  exact ⟨hrun, (hsettled.2 "f" _ (by simp [sharedName])).1 _ (by simp [sharedName])⟩

end ScriptTypes
