import ScriptTypes.Proofs.Unify.Requirements

/-! What a run of inference gives. Each operation of a run has one statement about when it returns and with what, so
that longer computations are taken apart without unfolding them. -/

namespace ScriptTypes

/-- A computation, started with one run, gives a value and another run. -/
def Returns {α : Type} (x : Infer α) (r : Run) (a : α) (r' : Run) : Prop :=
  Id.run ((ExceptT.run x).run r) = (.ok a, r')

/-- A run that has handed out some more type variables. -/
def Run.skip (r : Run) (n : Nat) : Run :=
  { r with supply := Requirements.skip r.supply n }

theorem Run.skip_skip (r : Run) (n m : Nat) : (r.skip n).skip m = r.skip (n + m) := by
  simp only [skip, Requirements.skip, Nat.add_assoc]

namespace Returns

variable {α β : Type} {r r' : Run}

theorem unique {x : Infer α} {a b : α} {r₁ r₂ : Run} (h : Returns x r a r₁) (h' : Returns x r b r₂) :
    a = b ∧ r₁ = r₂ := by
  have he := h.symm.trans h'
  simpa using he

theorem pure_iff {a b : α} : Returns (pure a) r b r' ↔ b = a ∧ r' = r := by
  constructor
  · intro h
    cases h
    exact ⟨rfl, rfl⟩
  · rintro ⟨rfl, rfl⟩
    rfl

theorem pure (a : α) (r : Run) : Returns (pure a) r a r := rfl

theorem bind_iff {x : Infer α} {f : α → Infer β} {b : β} :
    Returns (x >>= f) r b r' ↔ ∃ a r₁, Returns x r a r₁ ∧ Returns (f a) r₁ b r' := by
  change Id.run ((ExceptT.bindCont f (Id.run ((ExceptT.run x).run r)).1).run
    (Id.run ((ExceptT.run x).run r)).2) = (.ok b, r') ↔ _
  constructor
  · intro h
    cases hx : Id.run ((ExceptT.run x).run r) with
    | mk result r₁ =>
        rw [hx] at h
        cases result with
        | error e => cases h
        | ok a => exact ⟨a, r₁, hx, h⟩
  · rintro ⟨a, r₁, hx, hf⟩
    rw [Returns] at hx
    rw [hx]
    exact hf

theorem bind {x : Infer α} {f : α → Infer β} {a : α} {b : β} {r₁ : Run} (h : Returns x r a r₁)
    (hf : Returns (f a) r₁ b r') : Returns (x >>= f) r b r' :=
  bind_iff.mpr ⟨a, r₁, h, hf⟩

theorem not_throw {e : Failure VarId} {a : α} : ¬ Returns (throw e) r a r' := by
  intro h
  cases h

theorem not_unsupported {description : String} {pos : Position} {a : α} :
    ¬ Returns (Infer.unsupported description pos) r a r' := not_throw

theorem lift_iff {x : Except (ScopeError VarId) α} {a : α} :
    Returns (Infer.lift x) r a r' ↔ x = .ok a ∧ r' = r := by
  cases x with
  | ok b =>
      refine pure_iff.trans (and_congr_left fun _ => ?_)
      rw [Except.ok.injEq, eq_comm]
  | error e =>
      refine iff_of_false not_throw ?_
      rintro ⟨h, -⟩
      cases h

theorem freshVar_iff {src : Option Node} {t : Ty VarId} :
    Returns (Infer.freshVar src) r t r' ↔
      t = .var r.supply.types src ∧ r' = r.skip 1 := by
  constructor
  · intro h
    cases h
    exact ⟨rfl, rfl⟩
  · rintro ⟨rfl, rfl⟩
    rfl

theorem instantiate_iff {t u : Typing VarId} :
    Returns (Infer.instantiate t) r u r' ↔
      u = (t.instantiate r.supply).1 ∧ r' = { r with supply := (t.instantiate r.supply).2 } := by
  constructor
  · intro h
    cases h
    exact ⟨rfl, rfl⟩
  · rintro ⟨rfl, rfl⟩
    rfl

variable {steps : Nat} {needs : List (Requirements VarId)} {extra : List (Constraint VarId)}
  {explain : UnifyError VarId → Failure VarId} {bs : List (Binding VarId)}

/-- What settling returns is read off the solution, once the problem is remembered. -/
theorem settle_iff_solution :
    Returns (Infer.settle steps needs extra explain) r bs r' ↔
      Returns (match (Id.run (Requirements.unify steps r.supply needs extra)).1 with
        | .solved bs => Pure.pure bs
        | .failed e => throw (explain e)
        | .unfinished => throw .unfinished)
        ⟨(Id.run (Requirements.unify steps r.supply needs extra)).2,
          ⟨r.supply, needs, extra⟩ :: r.problems⟩ bs r' := Iff.rfl

theorem settle_iff :
    Returns (Infer.settle steps needs extra explain) r bs r' ↔
      ∃ supply, Id.run (Requirements.unify steps r.supply needs extra) = (.solved bs, supply) ∧
        r' = ⟨supply, ⟨r.supply, needs, extra⟩ :: r.problems⟩ := by
  rw [settle_iff_solution]
  cases hu : Id.run (Requirements.unify steps r.supply needs extra) with
  | mk solution supply =>
      cases solution with
      | solved bs' =>
          rw [pure_iff]
          simp [eq_comm, and_comm]
      | failed e => exact iff_of_false not_throw (by simp)
      | unfinished => exact iff_of_false not_throw (by simp)

end Returns

/-- A computation returns once its limit of steps is high enough, and a higher limit does not change what. -/
def Reaches {α : Type} (x : Nat → Infer α) (r : Run) (a : α) (r' : Run) : Prop :=
  ∃ limit, ∀ steps ≥ limit, Returns (x steps) r a r'

namespace Reaches

variable {α β : Type} {r r₁ r' : Run}

theorem of_returns {x : Infer α} {a : α} (h : Returns x r a r') : Reaches (fun _ => x) r a r' :=
  ⟨0, fun _ _ => h⟩

theorem bind {x : Nat → Infer α} {f : Nat → α → Infer β} {a : α} {b : β} (h : Reaches x r a r₁)
    (hf : Reaches (f · a) r₁ b r') : Reaches (fun steps => x steps >>= f steps) r b r' := by
  obtain ⟨n, hn⟩ := h
  obtain ⟨m, hm⟩ := hf
  refine ⟨max n m, fun steps hge => (hn steps ?_).bind (hm steps ?_)⟩
  · exact le_trans (le_max_left n m) hge
  · exact le_trans (le_max_right n m) hge

end Reaches

end ScriptTypes
