import ScriptTypes.Proofs.Ty.Relabel
import ScriptTypes.Proofs.Typing.Calls
import ScriptTypes.Proofs.Typing.Over
import ScriptTypes.Proofs.Unify.Records
import ScriptTypes.Proofs.Unify.Termination
import ScriptTypes.Ty.Ref

/-! Fresh variables of a whole run. Every variable in use has been handed out by the supply of its time, and no supply
hands out a variable twice. -/

namespace ScriptTypes

/-! What is handed out. -/

/-- The constraints that two records amount to are about their variables, and at most about a new one. -/
theorem vars_of_unifyRecords {s s' : Supply} {l r : Ty VarId} (hl : l.Canonical) (hr : r.Canonical)
    {cs : List (Constraint VarId)} (h : unifyRecords s l r = (.ok cs, s')) :
    ∀ c ∈ cs, ∀ x ∈ c.vars, x ∈ l.vars ∨ x ∈ r.vars ∨ ¬ s.Issued x := by
  intro c hc x hx
  have hl : l.Over fun x => x ∈ l.vars ∨ x ∈ r.vars := ⟨hl, fun _ => .inl⟩
  have hr : r.Over fun x => x ∈ l.vars ∨ x ∈ r.vars := ⟨hr, fun _ => .inr⟩
  have hcs : ∀ c ∈ cs, c.Over fun x => x ∈ l.vars ∨ x ∈ r.vars ∨ ¬ s.Issued x := by
    refine over_of_unifyRecords (fun x hx => ?_) (fun _ => .inr (.inr (s.next_not_issued .row))) hl hr h
    exact hx.imp_right .inl
  rcases List.mem_append.mp hx with hx | hx
  · exact (hcs c hc).left.vars x hx
  · exact (hcs c hc).right.vars x hx

/-! Solving. -/

/-- All constraints that wait and all bindings are over what has been handed out, and so are the variables bound. -/
abbrev Solving.Issued (s : Solving) : Prop :=
  s.Holds (fun supply c => c.Over supply.Issued) fun supply b =>
    b.value.Over supply.Issued ∧ supply.Issued (b.kind, b.var)

theorem Solving.issued_invariant :
    Invariant (fun supply c => c.Over supply.Issued) fun supply b =>
      b.value.Over supply.Issued ∧ supply.Issued (b.kind, b.var) where
  later := (over_invariant growing_issued).later
  laterMade hle h := ⟨(over_invariant growing_issued).laterMade hle h.1, growing_issued.mono hle h.2⟩
  swap := (over_invariant growing_issued).swap
  subst hb h := h.subst hb.1
  bind h hturn := by
    refine ⟨(over_invariant growing_issued).bind h hturn, ?_⟩
    cases hturn with
    | bindType v s => exact h.left.vars _ (by simp [Ty.vars])
    | bindRow v s => exact h.left.vars _ (by simp [Ty.vars])
  split := (over_invariant growing_issued).split

/-- From a problem on, the solver only meets variables that have been handed out. -/
theorem Problem.Over.through_issued {p : Problem} (hp : p.Over Supply.Issued) {state : Solving}
    (h : p.start.Through state) : p.supply.Le state.supply ∧ state.Issued := by
  obtain ⟨hle, hstart⟩ := hp.start growing_issued
  exact ⟨hle.trans h.le, Solving.issued_invariant.through (.start hstart.queue) h⟩

/-- Comparing types over numbered variables gives no number to any variable of an annotation. -/
theorem Ty.same_numbered (t u : Ty VarId) (slots : Slots) :
    ((t.relabel (fun _ v => Ref.id v) id).same (u.relabel (fun _ v => Ref.id v) id) : StateM Slots Bool).run slots =
      (Id.run (t.same u), slots) := by
  rw [same_relabel fun _ _ _ => rfl]
  rfl

/-! Calls. -/

section Calls

variable (Y : Kind × VarId → Prop)

/-- What a call is given is over a set of variables. -/
def Call.Over : Call → Prop
  | .expr env _ | .body env _ | .definition env _ _ _ _ => env.Over Y
  | .stmt _ b _ => b.Over Y

def Answer.Over : Answer → Prop
  | .typing t => t.Over Y
  | .block b => b.Over Y

/-- All that is in use at a call is over a set of variables. -/
structure Visit.Over (v : Visit) : Prop where
  call : v.call.Over Y
  hand : ∀ t ∈ v.hand, t.Over Y

variable {Y} {Z : Kind × VarId → Prop} (hYZ : ∀ x, Y x → Z x)

include hYZ

theorem Call.Over.imp {c : Call} (h : c.Over Y) : c.Over Z := by
  cases c with
  | expr | body | definition => exact Env.Over.imp hYZ h
  | stmt => exact Block.Over.imp hYZ h

theorem Visit.Over.imp {v : Visit} (h : v.Over Y) : v.Over Z :=
  ⟨h.call.imp hYZ, fun t ht => (h.hand t ht).imp hYZ⟩

end Calls

theorem Block.over_scope {Y : Kind × VarId → Prop} {env : Env VarId} (h : env.Over Y) : Block.Over Y ⟨env, [], none⟩ :=
  ⟨h, nofun, nofun⟩

theorem Block.Over.child {Y : Kind × VarId → Prop} {b : Block} (h : b.Over Y) :
    Block.Over Y { b with env := b.env.child } :=
  ⟨h.env.child, h.typings, h.returned⟩

theorem Block.Over.held {Y : Kind × VarId → Prop} {b : Block} (h : b.Over Y) : ∀ t ∈ b.held, t.Over Y := by
  refine List.forall_mem_append.mpr ⟨h.typings, ?_⟩
  intro t ht
  exact h.returned t (Option.mem_toList.mp ht)

theorem Typing.over_ofParams {Y : Kind × VarId → Prop} {params : List (String × Ty VarId)}
    (h : ∀ e ∈ params, e.2.Over Y) : ∀ t ∈ Typing.ofParams params, t.Over Y :=
  List.forall_mem_map.mpr fun e he => ⟨List.forall_mem_singleton.mpr (h e he), h e he⟩

section Growing

variable {X : Supply → Kind × VarId → Prop}

/-- What a computation ensures where it returns. -/
theorem Ensures.returns {α : Type} {r r' : Run} {x : Infer α} {a : α} {Q : Run → α → Prop} (h : Ensures X r x Q)
    (hx : Returns x r a r') : r.Goes X r' ∧ Q r' a := by
  have ho : x.outcome r = (.ok a, r') := hx
  obtain ⟨hgo, hok, -⟩ := h
  rw [ho] at hgo hok
  exact ⟨hgo, hok a rfl⟩

variable (hX : Growing X) {steps : Nat}

include hX

/-- A call goes on from what it is given, and its answer is over what has been handed out then. -/
theorem Call.ensures {c : Call} {r : Run} (hc : c.Over (X r.supply)) :
    Ensures X r (c.answer steps) fun r' a => a.Over (X r'.supply) := by
  have hcases : SyntaxCases (Expr.Over X steps) (Body.Over X steps) (Stmt.Over X steps) := over_cases hX
  cases c with
  | expr env e => exact .bind ((hcases.allExpr e).1 hc) fun _ _ _ ht => .pure ht
  | body scope body => exact .bind (hcases.allBody body hc) fun _ _ _ ht => .pure ht
  | definition env id node ps body =>
      exact .bind (.definition hX (hcases.allBody body) hc) fun _ _ _ ht => .pure ht
  | stmt kind b s => exact .bind (Upholds.blockFrom (hcases.allStmt s hc)) fun _ _ _ hb => .pure hb

/-- What a call makes comes later, and what is in use then has been handed out by then. -/
theorem Visit.Makes.over {v v' : Visit} (h : v.Makes steps v') (hv : v.Over (X v.run.supply)) :
    v.run.supply.Le v'.run.supply ∧ v'.Over (X v'.run.supply) := by
  have hcases : SyntaxCases (Expr.Over X steps) (Body.Over X steps) (Stmt.Over X steps) := over_cases hX
  obtain ⟨hcall, hhand⟩ := hv
  have hlater : ∀ {r r' : Run} {hand : List (Typing VarId)}, r.supply.Le r'.supply →
      (∀ t ∈ hand, t.Over (X r.supply)) → ∀ t ∈ hand, t.Over (X r'.supply) :=
    fun hle hhand t ht => (hhand t ht).imp fun _ => hX.mono hle
  cases h with
  | part hparts hbefore =>
      obtain ⟨hgo, hts⟩ := (Ensures.exprs hX (fun e _ => (hcases.allExpr e).1) hcall).returns hbefore
      exact ⟨hgo.le, Env.Over.imp (fun _ => hX.mono hgo.le) hcall,
        List.forall_mem_append.mpr ⟨hts, hlater hgo.le hhand⟩⟩
  | arrow hbind =>
      obtain ⟨hgo, hscope, hparams⟩ := (Ensures.bindParams hX (Env.Over.child hcall)).returns hbind
      exact ⟨hgo.le, hscope, List.forall_mem_append.mpr ⟨Typing.over_ofParams hparams, hlater hgo.le hhand⟩⟩
  | exprBody => exact ⟨.refl _, hcall, hhand⟩
  | blockBody hbefore =>
      obtain ⟨hgo, hb⟩ := (Upholds.stmts (hcases.allStmts _) (Block.over_scope hcall)).blockFrom.returns hbefore
      exact ⟨hgo.le, hb, hlater hgo.le hhand⟩
  | definition hbind =>
      obtain ⟨hgo, hscope, hparams⟩ := (Ensures.bindDef hX hcall).returns hbind
      exact ⟨hgo.le, hscope, List.forall_mem_append.mpr ⟨Typing.over_ofParams hparams, hlater hgo.le hhand⟩⟩
  | letFunction | letValue | expr | ret =>
      exact ⟨.refl _, Block.Over.env hcall, List.forall_mem_append.mpr ⟨Block.Over.held hcall, hhand⟩⟩
  | block hbefore =>
      obtain ⟨hgo, hb⟩ := (Upholds.stmts (hcases.allStmts _) (Block.Over.child hcall)).blockFrom.returns hbefore
      exact ⟨hgo.le, hb, hlater hgo.le hhand⟩

theorem Script.Visits.over {script : Script} {v : Visit} (hv : script.Visits steps v) : v.Over (X v.run.supply) := by
  refine hv.invariant (I := fun v => v.Over (X v.run.supply)) ?_ fun v v' hm hv => (hm.over hX hv).2
  intro before s b r hbefore
  exact ⟨(Infer.script_over hX steps before Block.over_empty hbefore).2.1, nofun⟩

end Growing

/-- Freshness over a whole run. At every call, the variables in use have been handed out before, and so have those of
its answer when it is done. The supplies of later calls have handed out no less. The solver too meets only such
variables from each problem on. So whatever a later supply hands out is new: single variables, copies of typings and
the row variable that two records share. All variables are numbered, and comparing them has no effect. -/
theorem Script.variables_fresh (steps : Nat) (script : Script) :
    (∀ v, script.Visits steps v →
      v.Over v.run.supply.Issued ∧ v.run.supply.Le ((v.call.answer steps).outcome v.run).2.supply ∧
        v.Over ((v.call.answer steps).outcome v.run).2.supply.Issued ∧
        (∀ a r', (v.call.answer steps).outcome v.run = (.ok a, r') → a.Over r'.supply.Issued) ∧
        ∀ v', v.Makes steps v' → v.run.supply.Le v'.run.supply) ∧
    (∀ p ∈ (script.run steps).2.problems, p.Over Supply.Issued ∧
      ∀ state, p.start.Through state → p.supply.Le state.supply ∧ state.Issued) ∧
    (∀ s s' : Supply, s.Le s' →
      (∀ k, ¬ s.Issued (k, (s'.next k).1)) ∧
      (∀ t : Typing VarId, ∀ x ∈ (t.instantiate s').1.vars, ¬ s.Issued x) ∧
      ∀ l r : Ty VarId, l.Canonical → r.Canonical → ∀ cs s'', unifyRecords s' l r = (.ok cs, s'') →
        ∀ c ∈ cs, ∀ x ∈ c.vars, x ∈ l.vars ∨ x ∈ r.vars ∨ ¬ s.Issued x) ∧
    ∀ (t u : Ty VarId) (slots : Slots),
      ((t.relabel (fun _ v => Ref.id v) id).same (u.relabel (fun _ v => Ref.id v) id) : StateM Slots Bool).run slots =
        (Id.run (t.same u), slots) := by
  refine ⟨?_, ?_, ?_, Ty.same_numbered⟩
  · intro v hv
    have hover := hv.over growing_issued
    obtain ⟨hgo, hok, -⟩ : Ensures Supply.Issued v.run (v.call.answer steps) fun r' a => a.Over r'.supply.Issued :=
      Call.ensures growing_issued hover.call
    refine ⟨hover, hgo.le, hover.imp fun _ => growing_issued.mono hgo.le, ?_, ?_⟩
    · intro a r' ho
      rw [ho] at hok
      exact hok a rfl
    · intro v' hmakes
      exact (hmakes.over growing_issued hover).1
  · intro p hp
    rw [run_eq] at hp
    obtain ⟨hgo, -⟩ := Infer.script_over growing_issued steps script.body Block.over_empty (r := .initial) rfl
    have hover : p.Over Supply.Issued := (hgo.problems p hp).resolve_left List.not_mem_nil
    exact ⟨hover, fun state => hover.through_issued⟩
  · intro s s' hle
    refine ⟨fun k => hle.not_issued (s'.next_not_issued k), fun t x hx => hle.not_issued ?_, ?_⟩
    · exact (t.instantiate_new s' x hx).1
    · intro l r hl hr cs s'' h c hc x hx
      exact (vars_of_unifyRecords hl hr h c hc x hx).imp_right (.imp_right hle.not_issued)

/-- The first use of the parameter of `pair`, its copy, and a variable that is handed out after it. -/
theorem Script.variables_fresh_pairing :
    (⟨["x", "pair"], [.param "x" (.var 1 none)], Run.initial.skip 2, .expr pairingScope (pairing.use "x")⟩ :
      Visit).Over (Run.initial.skip 2).supply.Issued ∧
    (Typing.param "x" (.var 2 none)).Over (Run.initial.skip 3).supply.Issued ∧
    ¬ (Run.initial.skip 2).supply.Issued (.type, ((Run.initial.skip 3).supply.next .type).1) := by
  obtain ⟨hvisits, -, hnew, -⟩ := variables_fresh 20 pairing
  obtain ⟨hover, -, -, hanswer, -⟩ := hvisits _ pairing_visits_use
  exact ⟨hover, hanswer (.typing (.param "x" (.var 2 none))) (Run.initial.skip 3) rfl,
    (hnew _ _ ⟨by decide, by decide⟩).1 .type⟩

end ScriptTypes
