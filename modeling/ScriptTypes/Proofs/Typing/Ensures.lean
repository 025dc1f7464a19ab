import ScriptTypes.Proofs.Typing.Returns
import ScriptTypes.Proofs.Unify.Shape

/-! What a computation of inference ensures about the variables in sight, whether it returns or fails. The variables
are in a set that grows with the supply. Every problem given to the solver is over the set, and so is what the solver
makes of it, so no record ever has more than one row variable. -/

namespace ScriptTypes

/-! Data over a set of variables. -/

structure Typing.Over (X : Kind × VarId → Prop) (t : Typing VarId) : Prop where
  needs : ∀ e ∈ t.needs, e.2.Over X
  type : t.type.Over X

/-- The typings of all names in sight, also of those that are hidden. -/
def Env.Over (X : Kind × VarId → Prop) (env : Env VarId) : Prop :=
  ∀ layer ∈ env.layers, ∀ e ∈ layer, e.2.typing.Over X

structure Block.Over (X : Kind × VarId → Prop) (b : Block) : Prop where
  env : b.env.Over X
  typings : ∀ t ∈ b.typings, t.Over X
  returned : ∀ t, b.returned = some t → t.Over X

/-- The requirements and constraints of a problem, which are over what had been handed out when it was given. -/
structure Problem.Over (X : Supply → Kind × VarId → Prop) (p : Problem) : Prop where
  needs : ∀ env ∈ p.needs, ∀ e ∈ env, e.2.Over (X p.supply)
  extra : ∀ c ∈ p.extra, c.Over (X p.supply)

/-- The solver when it is given a problem. -/
def Problem.start (p : Problem) : Solving :=
  let (cs, supply) := Requirements.constraints p.supply (Requirements.uses p.needs)
  .start supply (cs ++ p.extra)

section Imp

variable {X Y : Kind × VarId → Prop} (hXY : ∀ x, X x → Y x)

include hXY

theorem Typing.Over.imp {t : Typing VarId} (h : t.Over X) : t.Over Y :=
  ⟨fun e he => (h.needs e he).imp hXY, h.type.imp hXY⟩

theorem Env.Over.imp {env : Env VarId} (h : Env.Over X env) : Env.Over Y env :=
  fun layer hl e he => (h layer hl e he).imp hXY

theorem Block.Over.imp {b : Block} (h : b.Over X) : b.Over Y :=
  ⟨Env.Over.imp hXY h.env, fun t ht => (h.typings t ht).imp hXY, fun t ht => (h.returned t ht).imp hXY⟩

end Imp

theorem Typing.over_closed {X : Kind × VarId → Prop} {t : Ty VarId} (h : t.Over X) : (Typing.closed t).Over X :=
  ⟨nofun, h⟩

/-! Problems. -/

section Problems

variable {X : Supply → Kind × VarId → Prop} (hX : Growing X)

include hX

theorem Requirements.constraints_over {supply : Supply} {us : Assoc (List (Ty VarId))}
    (h : ∀ u ∈ us, ∀ t ∈ u.2, t.Over (X supply)) :
    supply.Le (constraints supply us).2 ∧ ∀ c ∈ (constraints supply us).1, c.Over (X (constraints supply us).2) := by
  induction us generalizing supply with
  | nil => exact ⟨.refl _, nofun⟩
  | cons u us ih =>
      obtain ⟨name, ts⟩ := u
      obtain ⟨hts, hus⟩ := List.forall_mem_cons.mp h
      have hnext := supply.le_next .type
      obtain ⟨hle, hcs⟩ := ih fun u hu t ht => (hus u hu t ht).imp fun _ => hX.mono hnext
      refine ⟨hnext.trans hle, List.forall_mem_append.mpr ⟨?_, hcs⟩⟩
      refine List.forall_mem_map.mpr fun t ht => ⟨?_, ?_⟩
      · exact Ty.over_var (hX.mono hle (hX.fresh supply .type)) none
      · exact (hts t ht).imp fun _ => hX.mono (hnext.trans hle)

/-- The solver is given constraints over the set. -/
theorem Problem.Over.start {p : Problem} (h : p.Over X) : p.supply.Le p.start.supply ∧ p.start.Over X := by
  have hus : ∀ u ∈ Requirements.uses p.needs, ∀ t ∈ u.2, t.Over (X p.supply) := by
    intro u hu t ht
    exact Requirements.forall_mem_flatten.mpr h.needs _ (Requirements.mem_uses_flatten hu ht)
  obtain ⟨hle, hcs⟩ := Requirements.constraints_over hX hus
  refine ⟨hle, .start (List.forall_mem_append.mpr ⟨hcs, ?_⟩)⟩
  intro c hc
  exact ⟨(h.extra c hc).left.imp fun _ => hX.mono hle, (h.extra c hc).right.imp fun _ => hX.mono hle⟩

end Problems

/-! The outcome of a computation. -/

namespace Infer

variable {α β : Type}

/-- What a computation gives from a run on, and the run it leads to. -/
def outcome (x : Infer α) (r : Run) : Except (Failure VarId) α × Run :=
  Id.run ((ExceptT.run x).run r)

theorem outcome_bind (x : Infer α) (f : α → Infer β) (r : Run) :
    (x >>= f).outcome r =
      match x.outcome r with
      | (.ok a, r₁) => (f a).outcome r₁
      | (.error e, r₁) => (.error e, r₁) := by
  change Id.run ((ExceptT.bindCont f (x.outcome r).1).run (x.outcome r).2) = _
  cases x.outcome r with
  | mk result r₁ => cases result <;> rfl

theorem outcome_instantiate {V : Type} [DecidableEq V] (t : Typing V) (r : Run) :
    (instantiate t).outcome r = (.ok (t.instantiate r.supply).1, { r with supply := (t.instantiate r.supply).2 }) := rfl

/-- Settling is solving, with the problem remembered. -/
theorem outcome_settle (steps : Nat) (needs : List (Requirements VarId)) (extra : List (Constraint VarId))
    (explain : UnifyError VarId → Failure VarId) (r : Run) :
    (settle steps needs extra explain).outcome r =
      (match ((Problem.start ⟨r.supply, needs, extra⟩).outcome steps).1 with
        | .solved bs => .ok bs
        | .failed e => .error (explain e)
        | .unfinished => .error .unfinished,
        ⟨((Problem.start ⟨r.supply, needs, extra⟩).outcome steps).2, ⟨r.supply, needs, extra⟩ :: r.problems⟩) := by
  change ((match ((Problem.start ⟨r.supply, needs, extra⟩).outcome steps).1 with
    | .solved bs => pure bs
    | .failed e => throw (explain e)
    | .unfinished => throw .unfinished : Infer (List (Binding VarId))).outcome
      ⟨((Problem.start ⟨r.supply, needs, extra⟩).outcome steps).2, ⟨r.supply, needs, extra⟩ :: r.problems⟩) = _
  cases ((Problem.start ⟨r.supply, needs, extra⟩).outcome steps).1 <;> rfl

end Infer

/-! What a computation ensures. -/

/-- A run that goes on hands out more variables, and gives problems over the set to the solver. -/
structure Run.Goes (X : Supply → Kind × VarId → Prop) (r r' : Run) : Prop where
  le : r.supply.Le r'.supply
  problems : ∀ p ∈ r'.problems, p ∈ r.problems ∨ p.Over X

/-- A failure that is not about a record with several row variables. -/
def Failure.Ordinary (e : Failure VarId) : Prop :=
  ∀ pos record, e ≠ .scope (.multipleRowVars pos record)

/-- From a run, a computation goes on. It returns something with a property that may depend on the run it leads to, or
it fails ordinarily. -/
def Ensures {α : Type} (X : Supply → Kind × VarId → Prop) (r : Run) (x : Infer α) (Q : Run → α → Prop) : Prop :=
  r.Goes X (x.outcome r).2 ∧ (∀ a, (x.outcome r).1 = .ok a → Q (x.outcome r).2 a) ∧
    ∀ e, (x.outcome r).1 = .error e → e.Ordinary

variable {X : Supply → Kind × VarId → Prop}

theorem Run.Goes.refl (r : Run) : r.Goes X r := ⟨.refl _, fun _ => .inl⟩

theorem Run.Goes.trans {r r₁ r₂ : Run} (h : r.Goes X r₁) (h' : r₁.Goes X r₂) : r.Goes X r₂ where
  le := h.le.trans h'.le
  problems p hp := (h'.problems p hp).elim (h.problems p) .inr

namespace Ensures

variable {α β : Type} {r : Run}

theorem of_ok {x : Infer α} {a : α} {r' : Run} {Q : Run → α → Prop} (hrun : x.outcome r = (.ok a, r'))
    (hgo : r.Goes X r') (h : Q r' a) : Ensures X r x Q := by
  unfold Ensures
  rw [hrun]
  refine ⟨hgo, ?_, nofun⟩
  rintro b ⟨⟩
  exact h

theorem of_error {x : Infer α} {e : Failure VarId} {r' : Run} {Q : Run → α → Prop}
    (hrun : x.outcome r = (.error e, r')) (hgo : r.Goes X r') (h : e.Ordinary) : Ensures X r x Q := by
  unfold Ensures
  rw [hrun]
  refine ⟨hgo, nofun, ?_⟩
  rintro f ⟨⟩
  exact h

theorem pure {a : α} {Q : Run → α → Prop} (h : Q r a) : Ensures X r (pure a) Q := of_ok rfl (.refl r) h

theorem throw {e : Failure VarId} {Q : Run → α → Prop} (h : e.Ordinary) : Ensures X r (throw e) Q :=
  of_error rfl (.refl r) h

theorem bind {x : Infer α} {f : α → Infer β} {Q : Run → α → Prop} {R : Run → β → Prop} (hx : Ensures X r x Q)
    (hf : ∀ r₁ a, r.Goes X r₁ → Q r₁ a → Ensures X r₁ (f a) R) : Ensures X r (x >>= f) R := by
  obtain ⟨hgo, hok, herr⟩ := hx
  have hbind := Infer.outcome_bind x f r
  cases hrun : x.outcome r with
  | mk result r₁ =>
      rw [hrun] at hgo hok herr hbind
      cases result with
      | error e => exact of_error hbind hgo (herr e rfl)
      | ok a =>
          obtain ⟨hgo', hok', herr'⟩ := hf r₁ a hgo (hok a rfl)
          unfold Ensures
          rw [hbind]
          exact ⟨hgo.trans hgo', hok', herr'⟩

theorem unsupported (description : String) (pos : Position) {Q : Run → α → Prop} :
    Ensures X r (Infer.unsupported description pos) Q := throw nofun

theorem fail {e : ScopeError VarId} {Q : Run → α → Prop} (h : ∀ pos record, e ≠ .multipleRowVars pos record) :
    Ensures X r (Infer.fail e) Q := by
  refine throw ?_
  rintro pos record ⟨⟩
  exact h pos record rfl

theorem lift {x : Except (ScopeError VarId) α} {Q : Run → α → Prop} (hok : ∀ a, x = .ok a → Q r a)
    (herr : ∀ e, x = .error e → ∀ pos record, e ≠ .multipleRowVars pos record) :
    Ensures X r (Infer.lift x) Q := by
  cases x with
  | ok a => exact pure (hok a rfl)
  | error e => exact fail (herr e rfl)

section Growing

variable (hX : Growing X)

include hX

theorem freshVar (src : Option Node) :
    Ensures X r (Infer.freshVar src) fun r' t => t.Over (X r'.supply) :=
  of_ok rfl ⟨r.supply.le_next .type, fun _ => .inl⟩ (Ty.over_var (hX.fresh r.supply .type) src)

theorem freshRowVar (src : Option Node) :
    Ensures X r (Infer.freshRowVar src) fun r' v => X r'.supply (.row, v.var) :=
  of_ok rfl ⟨r.supply.le_next .row, fun _ => .inl⟩ (hX.fresh r.supply .row)

/-- The copy of a typing is over the set, whatever variables the typing has. -/
theorem instantiate {V : Type} [DecidableEq V] {t : Typing V} (hneeds : ∀ e ∈ t.needs, e.2.Canonical)
    (htype : t.type.Canonical) :
    Ensures X r (Infer.instantiate t) fun r' u => u.Over (X r'.supply) := by
  obtain ⟨f, hf⟩ := (Renaming.after (r.supply, []) t.vars).2.exists_follows
  have hcopy : (t.instantiate r.supply).1 = t.map f := congrArg Prod.fst (Typing.instantiate_eq_map hf)
  have hvars := Typing.vars_instantiate hX t r.supply
  have hshape : ∀ u : Ty V, u.Canonical → (u.map f).Canonical := by
    intro u hu
    rw [Ty.map_eq_relabel]
    exact hu.relabel
  refine of_ok (Infer.outcome_instantiate t r) ⟨t.instantiate_le r.supply, fun _ => .inl⟩ ?_
  rw [hcopy] at hvars ⊢
  refine ⟨List.forall_mem_map.mpr fun e he => ⟨hshape e.2 (hneeds e he), ?_⟩, hshape t.type htype, ?_⟩
  · intro x hx
    exact hvars x (List.mem_append.mpr (.inl (List.mem_flatMap.mpr ⟨_, List.mem_map.mpr ⟨e, he, rfl⟩, hx⟩)))
  · intro x hx
    exact hvars x (List.mem_append.mpr (.inr hx))

/-- Settling a problem over the set gives bindings to types over it. -/
theorem settle {steps : Nat} {needs : List (Requirements VarId)} {extra : List (Constraint VarId)}
    {explain : UnifyError VarId → Failure VarId} (hneeds : ∀ env ∈ needs, ∀ e ∈ env, e.2.Over (X r.supply))
    (hextra : ∀ c ∈ extra, c.Over (X r.supply)) (hexplain : ∀ l r, (explain (.mismatch l r)).Ordinary) :
    Ensures X r (Infer.settle steps needs extra explain) fun r' bs => ∀ b ∈ bs, b.value.Over (X r'.supply) := by
  have hp : Problem.Over X ⟨r.supply, needs, extra⟩ := ⟨hneeds, hextra⟩
  obtain ⟨hle, hstart⟩ := hp.start hX
  have hout := Solving.outcome_le (Problem.start ⟨r.supply, needs, extra⟩) steps
  have hrun := Infer.outcome_settle steps needs extra explain r
  cases ho : (Problem.start ⟨r.supply, needs, extra⟩).outcome steps with
  | mk solution supply =>
      rw [ho] at hout hrun
      have hgo : r.Goes X ⟨supply, ⟨r.supply, needs, extra⟩ :: r.problems⟩ := by
        refine ⟨hle.trans hout, ?_⟩
        intro p hp'
        rcases List.mem_cons.mp hp' with rfl | hp'
        · exact .inr hp
        · exact .inl hp'
      cases solution with
      | solved bs =>
          obtain ⟨t, ht, -, rfl, rfl⟩ := Solving.through_of_solved ho
          exact of_ok hrun hgo ((Solving.over_invariant hX).through hstart ht).made
      | failed e =>
          obtain ⟨t, c, cs, ht, hq, hturn⟩ := Solving.through_of_failed ho
          have hc : c.Over (X t.supply) :=
            ((Solving.over_invariant hX).through hstart ht).queue c (hq ▸ List.mem_cons_self)
          have hc := Constraint.of_orient (P := fun c => c.Over (X t.supply)) hc fun h => ⟨h.right, h.left⟩
          obtain ⟨l, r', rfl⟩ := (hc.turn hX hturn).2.2 e rfl
          exact of_error hrun hgo (hexplain l r')
      | unfinished => exact of_error hrun hgo nofun

end Growing

end Ensures

end ScriptTypes
