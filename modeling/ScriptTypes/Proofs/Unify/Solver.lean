import ScriptTypes.Proofs.Unify.Step

/-! The solver on closed constraints. When it ends without binding a variable to a type in which the variable occurs,
its bindings solve all constraints. When the constraints have a solution at all, it ends, makes no such binding, and
every solution factors through its bindings. -/

namespace ScriptTypes

namespace Binding

variable {b : Binding VarId}

theorem Closed.cyclic_iff (h : b.Closed) : b.Cyclic ↔ b.var ∈ b.value.mono.vars := by
  rw [Cyclic, h.kind, h.value.mem_vars_iff]
  simp

/-- A binding that is not cyclic makes its variable and its value equal. -/
theorem assignment_value (h : b.var ∉ b.value.mono.vars) : b.value.mono.subst b.assignment = b.value.mono := by
  refine (Mono.subst_congr fun v hv => ?_).trans (Mono.subst_self _)
  exact Function.update_of_ne (fun he : v = b.var => h (he ▸ hv)) _ _

/-- An assignment that fulfils a binding does not see it. -/
theorem assignment_then {θ : Assignment} (h : θ b.var = b.value.mono.subst θ) : b.assignment.then θ = θ := by
  funext v
  rw [Assignment.then, assignment]
  by_cases hv : v = b.var
  · rw [hv, Function.update_self, h]
  · rw [Function.update_of_ne hv, Mono.subst_var]

end Binding

namespace Constraint

theorem run_substList (b : Binding VarId) (cs : List (Constraint VarId)) :
    Id.run (substList b cs) = cs.map fun c => Id.run (c.subst b) := by
  induction cs with
  | nil => rfl
  | cons c cs ih =>
      rw [List.map_cons, ← ih]
      rfl

variable {b : Binding VarId} (hb : b.Closed)

include hb

theorem Closed.subst {c : Constraint VarId} (hc : c.Closed) : (Id.run (c.subst b)).Closed :=
  ⟨hc.left.subst hb.kind hb.value, hc.right.subst hb.kind hb.value⟩

theorem unifies_subst {c : Constraint VarId} (hc : c.Closed) (σ : Assignment) :
    (Id.run (c.subst b)).Unifies σ ↔ c.Unifies (b.assignment.then σ) := by
  change (Id.run (c.left.subst b)).mono.subst σ = (Id.run (c.right.subst b)).mono.subst σ ↔ _
  rw [Ty.mono_subst hb.kind hc.left.canonical, Ty.mono_subst hb.kind hc.right.canonical, Unifies,
    Assignment.subst_then, Assignment.subst_then]

theorem Below.subst {n : Nat} {c : Constraint VarId} (hc : c.Closed) (hn : c.Below n)
    (hv : b.value.mono.Below n) : (Id.run (c.subst b)).Below n := by
  have hσ : ∀ v < n, (b.assignment v).Below n := by
    intro v hvn
    by_cases h : v = b.var
    · rwa [h, Binding.assignment, Function.update_self]
    · rw [Binding.assignment, Function.update_of_ne h]
      intro w hw
      rwa [Mono.mem_vars_var.mp hw]
  constructor
  · change (Id.run (c.left.subst b)).mono.Below n
    rw [Ty.mono_subst hb.kind hc.left.canonical]
    exact hn.left.subst hσ
  · change (Id.run (c.right.subst b)).mono.Below n
    rw [Ty.mono_subst hb.kind hc.right.canonical]
    exact hn.right.subst hσ

theorem weight_subst {cs : List (Constraint VarId)} (hcs : ∀ c ∈ cs, c.Closed) (σ : Assignment) :
    weight σ (cs.map fun c => Id.run (c.subst b)) = weight (b.assignment.then σ) cs := by
  induction cs with
  | nil => rfl
  | cons c cs ih =>
      obtain ⟨hc, hcs⟩ := List.forall_mem_cons.mp hcs
      rw [List.map_cons, weight, weight, ih hcs]
      change ((Id.run (c.left.subst b)).mono.subst σ).size + _ = _
      rw [Ty.mono_subst hb.kind hc.left.canonical, Assignment.subst_then]

end Constraint

/-- What is left of a queue after a step on its first constraint. -/
def Step.resume (steps : Nat) (supply : Supply) (cs : List (Constraint VarId)) :
    Step VarId → Solution VarId × Supply
  | .drop => Id.run (solve steps supply cs)
  | .bind b =>
      let (solution, supply) := Id.run (solve steps supply (cs.map fun c => Id.run (c.subst b)))
      (solution.after b, supply)
  | .split more => Id.run (solve steps supply (cs ++ more))
  | .fail e => (.failed e, supply)

theorem run_solve_nil (steps : Nat) (supply : Supply) :
    Id.run (solve (V := VarId) steps supply []) = (.solved [], supply) := by
  cases steps <;> rfl

/-- Solving a queue of closed constraints takes one step and resumes. -/
theorem run_solve_succ {c : Constraint VarId} (hc : c.Closed) (supply : Supply) (cs : List (Constraint VarId)) :
    ∃ st, c.Leads st ∧ ∀ steps, Id.run (solve (steps + 1) supply (c :: cs)) = st.resume steps supply cs := by
  obtain ⟨st, hst, hl⟩ := hc.step supply
  refine ⟨st, hl, fun steps => ?_⟩
  rw [solve, Id.run_bind, hst]
  cases st with
  | drop => rfl
  | bind b =>
      simp only [Step.resume, ← Constraint.run_substList]
      rfl
  | split more => rfl
  | fail e => rfl

/-! Soundness. -/

/-- What the bindings that solve a queue are like. -/
structure Constraint.Solved (cs : List (Constraint VarId)) (bs : List (Binding VarId)) : Prop where
  closed : ∀ b ∈ bs, b.Closed
  below : ∀ n, (∀ c ∈ cs, c.Below n) → ∀ b ∈ bs, b.var < n ∧ b.value.mono.Below n
  unifies : (∀ b ∈ bs, ¬ b.Cyclic) → ∀ c ∈ cs, c.Unifies (.ofBindings bs)

namespace Constraint.Solved

variable {c : Constraint VarId} {cs : List (Constraint VarId)} {bs : List (Binding VarId)}

theorem nil : Solved [] [] := ⟨by simp, by simp, by simp⟩

theorem drop (h : c.left.mono = c.right.mono) (hs : Solved cs bs) : Solved (c :: cs) bs where
  closed := hs.closed
  below n hn := hs.below n fun d hd => hn d (List.mem_cons_of_mem _ hd)
  unifies hb := List.forall_mem_cons.mpr ⟨congrArg (Mono.subst _) h, hs.unifies hb⟩

theorem split {more : List (Constraint VarId)} (hu : ∀ σ, c.Unifies σ ↔ ∀ d ∈ more, d.Unifies σ)
    (hn : ∀ n, c.Below n → ∀ d ∈ more, d.Below n) (hs : Solved (cs ++ more) bs) : Solved (c :: cs) bs where
  closed := hs.closed
  below n hcs := by
    obtain ⟨hc, hcs⟩ := List.forall_mem_cons.mp hcs
    exact hs.below n (List.forall_mem_append.mpr ⟨hcs, hn n hc⟩)
  unifies hb := by
    obtain ⟨hcs, hmore⟩ := List.forall_mem_append.mp (hs.unifies hb)
    exact List.forall_mem_cons.mpr ⟨(hu _).mpr hmore, hcs⟩

theorem bind {b : Binding VarId} (hb : b.Closed) (hu : ∀ σ, c.Unifies σ ↔ σ b.var = b.value.mono.subst σ)
    (hn : ∀ n, c.Below n → b.var < n ∧ b.value.mono.Below n) (hcs : ∀ d ∈ cs, d.Closed)
    (hs : Solved (cs.map fun d => Id.run (d.subst b)) bs) : Solved (c :: cs) (b :: bs) where
  closed := List.forall_mem_cons.mpr ⟨hb, hs.closed⟩
  below n hbelow := by
    obtain ⟨hc, hrest⟩ := List.forall_mem_cons.mp hbelow
    refine List.forall_mem_cons.mpr ⟨hn n hc, hs.below n (List.forall_mem_map.mpr fun d hd => ?_)⟩
    exact (hrest d hd).subst hb (hcs d hd) (hn n hc).2
  unifies hac := by
    obtain ⟨hbc, hac⟩ := List.forall_mem_cons.mp hac
    refine List.forall_mem_cons.mpr ⟨(hu _).mpr ?_, fun d hd => ?_⟩
    · have hv := Binding.assignment_value fun hm => hbc (hb.cyclic_iff.mpr hm)
      rw [Assignment.ofBindings, Assignment.subst_then, hv, Assignment.then, Binding.assignment,
        Function.update_self]
    · rw [Assignment.ofBindings, ← unifies_subst hb (hcs d hd)]
      exact hs.unifies hac _ (List.mem_map_of_mem hd)

end Constraint.Solved

/-- When the solver ends with bindings, they solve the queue. -/
theorem solve_solved {steps : Nat} {supply supply' : Supply} {cs : List (Constraint VarId)}
    {bs : List (Binding VarId)} (hcs : ∀ c ∈ cs, c.Closed)
    (h : Id.run (solve steps supply cs) = (.solved bs, supply')) : supply' = supply ∧ Constraint.Solved cs bs := by
  induction steps generalizing cs bs with
  | zero =>
      cases cs with
      | nil =>
          rw [run_solve_nil] at h
          cases h
          exact ⟨rfl, .nil⟩
      | cons c cs => cases h
  | succ steps ih =>
      cases cs with
      | nil =>
          rw [run_solve_nil] at h
          cases h
          exact ⟨rfl, .nil⟩
      | cons c cs =>
          obtain ⟨hc, hcs⟩ := List.forall_mem_cons.mp hcs
          obtain ⟨st, hl, hst⟩ := run_solve_succ hc supply cs
          rw [hst steps] at h
          cases hl with
          | drop he => exact (ih hcs h).imp_right (.drop he)
          | @bind b hb _ hu hn =>
              rw [Step.resume] at h
              cases hr : Id.run (solve steps supply (cs.map fun d => Id.run (d.subst b))) with
              | mk solution rest =>
                  rw [hr] at h
                  cases solution with
                  | solved bs =>
                      cases h
                      exact (ih (List.forall_mem_map.mpr fun d hd => (hcs d hd).subst hb) hr).imp_right
                        (.bind hb hu hn hcs)
                  | failed e => cases h
                  | unfinished => cases h
          | split hm hu _ hn => exact (ih (List.forall_mem_append.mpr ⟨hcs, hm⟩) h).imp_right (.split hu hn)
          | fail => cases h

/-! Completeness. A solution of the queue bounds the number of steps: each step leaves a queue that is smaller under
that solution, and the solution does not see the bindings that are made. -/

/-- A binding that a solution agrees with. -/
structure Binding.Absorbed (θ : Assignment) (b : Binding VarId) : Prop where
  acyclic : ¬ b.Cyclic
  absorbs : b.assignment.then θ = θ

theorem Assignment.ofBindings_then {θ : Assignment} {bs : List (Binding VarId)}
    (h : ∀ b ∈ bs, b.Absorbed θ) : (ofBindings bs).then θ = θ := by
  induction bs with
  | nil => rfl
  | cons b bs ih =>
      obtain ⟨hb, hbs⟩ := List.forall_mem_cons.mp h
      funext v
      change ((b.assignment v).subst (ofBindings bs)).subst θ = θ v
      rw [← Assignment.subst_then, ih hbs]
      exact congrFun hb.absorbs v

theorem Solution.foldr_after_solved (made bs : List (Binding VarId)) :
    made.foldr after (.solved bs) = .solved (made ++ bs) := by
  induction made with
  | nil => rfl
  | cons b made ih => rw [List.foldr_cons, ih, after, List.cons_append]

theorem Solution.eq_failed_of_foldr_after {made : List (Binding VarId)} {solution : Solution VarId}
    {e : UnifyError VarId} (h : made.foldr after solution = .failed e) : solution = .failed e := by
  induction made with
  | nil => exact h
  | cons b made ih =>
      rw [List.foldr_cons] at h
      cases hr : made.foldr after solution with
      | solved bs => rw [hr] at h; cases h
      | failed e' => rw [hr] at h; cases h; exact ih hr
      | unfinished => rw [hr] at h; cases h

/-- With a solution at hand, a step leaves a smaller queue with that solution. -/
theorem solve_advances {θ : Assignment} (supply : Supply) {c : Constraint VarId} {cs : List (Constraint VarId)}
    (hcs : ∀ d ∈ c :: cs, d.Closed) (hθ : ∀ d ∈ c :: cs, d.Unifies θ) :
    ∃ (rest : List (Constraint VarId)) (made : List (Binding VarId)),
      (∀ d ∈ rest, d.Closed) ∧ (∀ d ∈ rest, d.Unifies θ) ∧
      Constraint.weight θ rest < Constraint.weight θ (c :: cs) ∧ (∀ b ∈ made, b.Absorbed θ) ∧
      ∀ steps, Id.run (solve (steps + 1) supply (c :: cs)) =
        (made.foldr Solution.after (Id.run (solve steps supply rest)).1, (Id.run (solve steps supply rest)).2) := by
  obtain ⟨hc, hcs⟩ := List.forall_mem_cons.mp hcs
  obtain ⟨hθc, hθ⟩ := List.forall_mem_cons.mp hθ
  obtain ⟨st, hl, hst⟩ := run_solve_succ hc supply cs
  have hpos := Mono.size_pos (c.left.mono.subst θ)
  cases hl with
  | drop =>
      refine ⟨cs, [], hcs, hθ, ?_, by simp, hst⟩
      rw [Constraint.weight]
      omega
  | @bind b hb hne hu _ =>
      have hbθ := (hu θ).mp hθc
      have hthen := Binding.assignment_then hbθ
      refine ⟨cs.map fun d => Id.run (Constraint.subst b d), [b], ?_, ?_, ?_, ?_, hst⟩
      · exact List.forall_mem_map.mpr fun d hd => (hcs d hd).subst hb
      · refine List.forall_mem_map.mpr fun d hd => (Constraint.unifies_subst hb (hcs d hd) θ).mpr ?_
        rw [hthen]
        exact hθ d hd
      · rw [Constraint.weight_subst hb hcs, hthen, Constraint.weight]
        omega
      · refine List.forall_mem_singleton.mpr ⟨fun hcyc => ?_, hthen⟩
        exact Mono.not_mem_vars_of_subst_eq hne hbθ (hb.cyclic_iff.mp hcyc)
  | @split more hm hu hlt _ =>
      refine ⟨cs ++ more, [], List.forall_mem_append.mpr ⟨hcs, hm⟩,
        List.forall_mem_append.mpr ⟨hθ, (hu θ).mp hθc⟩, ?_, by simp, hst⟩
      have hlt := hlt θ hθc
      rw [Constraint.weight_append, Constraint.weight]
      omega
  | fail hno => exact (hno θ hθc).elim

/-- Any solution of a queue makes the solver end, with bindings that it agrees with. -/
theorem solve_of_unifies {θ : Assignment} (supply : Supply) {cs : List (Constraint VarId)}
    (hcs : ∀ c ∈ cs, c.Closed) (hθ : ∀ c ∈ cs, c.Unifies θ) :
    ∃ bs, (∀ steps ≥ Constraint.weight θ cs, Id.run (solve steps supply cs) = (.solved bs, supply)) ∧
      ∀ b ∈ bs, b.Absorbed θ := by
  induction hw : Constraint.weight θ cs using Nat.strong_induction_on generalizing cs with
  | h w ih =>
      cases cs with
      | nil => exact ⟨[], fun steps _ => run_solve_nil steps supply, by simp⟩
      | cons c cs =>
          obtain ⟨rest, made, hrest, hθ, hlt, hmade, hst⟩ := solve_advances supply hcs hθ
          obtain ⟨bs, hrun, hbs⟩ := ih _ (hw ▸ hlt) hrest hθ rfl
          refine ⟨made ++ bs, fun steps hge => ?_, List.forall_mem_append.mpr ⟨hmade, hbs⟩⟩
          obtain ⟨n, rfl⟩ : ∃ n, steps = n + 1 := ⟨steps - 1, by omega⟩
          rw [hst, hrun n (by omega), Solution.foldr_after_solved]

/-- The solver does not fail on a queue that has a solution. -/
theorem solve_not_failed {θ : Assignment} {steps : Nat} {supply supply' : Supply}
    {cs : List (Constraint VarId)} {e : UnifyError VarId} (hcs : ∀ c ∈ cs, c.Closed)
    (hθ : ∀ c ∈ cs, c.Unifies θ) : Id.run (solve steps supply cs) ≠ (.failed e, supply') := by
  induction steps generalizing cs with
  | zero =>
      intro h
      cases cs with
      | nil => cases h
      | cons c cs => cases h
  | succ steps ih =>
      intro h
      cases cs with
      | nil => cases h
      | cons c cs =>
          obtain ⟨rest, made, hrest, hθ, -, -, hst⟩ := solve_advances supply hcs hθ
          rw [hst] at h
          refine ih hrest hθ (Prod.ext_iff.mpr ⟨?_, (Prod.ext_iff.mp h).2⟩)
          exact Solution.eq_failed_of_foldr_after (Prod.ext_iff.mp h).1

/-- A substitution of types for type variables makes both sides of every constraint the same. -/
def Constraint.UnifiedBy (θ : VarId → Ty VarId) (cs : List (Constraint VarId)) : Prop :=
  (∀ v, (θ v).Canonical) ∧ ∀ c ∈ cs, (c.left.replace θ).Alike (c.right.replace θ)

theorem Constraint.UnifiedBy.unifies {θ : VarId → Ty VarId} {cs : List (Constraint VarId)}
    (hcs : ∀ c ∈ cs, c.Closed) (h : UnifiedBy θ cs) : ∀ c ∈ cs, c.Unifies fun v => (θ v).mono := by
  intro c hc
  have hl := (hcs c hc).left.canonical
  have hr := (hcs c hc).right.canonical
  rw [Unifies, ← Ty.mono_replace hl, ← Ty.mono_replace hr]
  exact (Ty.alike_iff (hl.replace h.1) (hr.replace h.1)).mp (h.2 c hc)

/-- If a queue of closed constraints has a unifier, the solver ends given enough steps, binds no variable to a type in
which it occurs, and the unifier factors through its bindings. So a queue on which the solver fails has none. -/
theorem solve_most_general {cs : List (Constraint VarId)} (hcs : ∀ c ∈ cs, c.Closed) (supply : Supply) :
    (∀ θ, Constraint.UnifiedBy θ cs →
      ∃ limit bs, (∀ steps ≥ limit, Id.run (solve steps supply cs) = (.solved bs, supply)) ∧
        (∀ b ∈ bs, ¬ b.Cyclic) ∧ ∀ t : Ty VarId, t.Canonical → ((t.under bs).replace θ).Alike (t.replace θ)) ∧
    ∀ steps e supply', Id.run (solve steps supply cs) = (.failed e, supply') →
      ¬ ∃ θ, Constraint.UnifiedBy θ cs := by
  constructor
  · intro θ hθ
    obtain ⟨bs, hrun, hbs⟩ := solve_of_unifies supply hcs (hθ.unifies hcs)
    refine ⟨_, bs, hrun, fun b hb => (hbs b hb).acyclic, fun t ht => ?_⟩
    have hclosed := (solve_solved hcs (hrun _ le_rfl)).2.closed
    rw [Ty.alike_iff ((ht.under hclosed).replace hθ.1) (ht.replace hθ.1), Ty.mono_replace (ht.under hclosed),
      Ty.mono_replace ht, Ty.mono_under hclosed ht, ← Assignment.subst_then, Assignment.ofBindings_then hbs]
  · rintro steps e supply' hrun ⟨θ, hθ⟩
    exact solve_not_failed hcs (hθ.unifies hcs) hrun

/-- Two functions, and two records whose labels stand in different orders. -/
def crossedQueue : List (Constraint VarId) :=
  [⟨.arrow [.var 0 none] (.var 1 none) none, .arrow [.array (.var 1 none) none] (.leaf .num none) none⟩,
   ⟨.record [.fields [("a", .var 0 none), ("b", .var 2 none)]] none,
    .record [.fields [("b", .var 1 none), ("a", .var 3 none)]] none⟩]

def crossedUnifier (v : VarId) : Ty VarId :=
  if v = 0 ∨ v = 3 then .array (.leaf .num none) none else .leaf .num none

theorem crossedQueue_closed : ∀ c ∈ crossedQueue, c.Closed := by
  have hv : ∀ v : VarId, (Ty.var v none).Closed := fun v => .var v none
  have ha : ∀ t : Ty VarId, t.Closed → (t.array none).Closed :=
    fun t ht => .con _ _ (List.forall_mem_singleton.mpr ht)
  have hr : ∀ l k v w, Assoc.Distinct [(l, Ty.var v none), (k, Ty.var w none)] →
      (Ty.record [.fields [(l, Ty.var v none), (k, Ty.var w none)]] none : Ty VarId).Closed :=
    fun l k v w hd => Ty.closed_record none (by simp [hv]) hd
  refine List.forall_mem_cons.mpr ⟨⟨?_, ?_⟩, List.forall_mem_singleton.mpr ⟨?_, ?_⟩⟩
  · exact .arrow _ (List.forall_mem_singleton.mpr (hv 0)) (hv 1)
  · exact .arrow _ (List.forall_mem_singleton.mpr (ha _ (hv 1))) (.leaf _ _)
  · exact hr _ _ _ _ (by decide)
  · exact hr _ _ _ _ (by decide)

theorem crossedQueue_unifiedBy : Constraint.UnifiedBy crossedUnifier crossedQueue := by
  refine ⟨fun v => ?_, by decide⟩
  rw [crossedUnifier]
  split
  · exact .con _ _ (List.forall_mem_singleton.mpr (.leaf _ _))
  · exact .leaf _ _

theorem solve_most_general_crossed :
    ∃ limit bs, (∀ steps ≥ limit, Id.run (solve steps .initial crossedQueue) = (.solved bs, .initial)) ∧
      (∀ b ∈ bs, ¬ b.Cyclic) ∧
      ∀ t : Ty VarId, t.Canonical → ((t.under bs).replace crossedUnifier).Alike (t.replace crossedUnifier) :=
  (solve_most_general crossedQueue_closed .initial).1 crossedUnifier crossedQueue_unifiedBy

end ScriptTypes
