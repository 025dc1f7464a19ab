import ScriptTypes.Proofs.Typing.Over

/-! Records stay in canonical shape: at most one row variable, followed by one set of fields. This is said of all typings
that inference makes or stores, and of all constraints and bindings that the solver handles on the way. -/

namespace ScriptTypes

/-- The types of a typing are canonical, at any depth. -/
structure Typing.Canonical (t : Typing VarId) : Prop where
  needs : ∀ e ∈ t.needs, e.2.Canonical
  type : t.type.Canonical

def Env.Canonical (env : Env VarId) : Prop :=
  ∀ layer ∈ env.layers, ∀ e ∈ layer, e.2.typing.Canonical

structure Block.Canonical (b : Block) : Prop where
  env : b.env.Canonical
  typings : ∀ t ∈ b.typings, t.Canonical
  returned : ∀ t, b.returned = some t → t.Canonical

structure Solving.Canonical (s : Solving) : Prop where
  queue : ∀ c ∈ s.queue, c.Canonical
  made : ∀ b ∈ s.made, b.value.Canonical

/-- A problem whose constraints and bindings are canonical, in every state of the solver. -/
def Problem.Canonical (p : Problem) : Prop :=
  ∀ state, p.start.Through state → state.Canonical

/-- From a run whose problems are canonical, a computation leads to such a run. What it returns has a property, and its
failure is not about a record with several row variables. -/
def Infer.KeepsShape {α : Type} (x : Infer α) (P : α → Prop) : Prop :=
  ∀ r : Run, (∀ p ∈ r.problems, p.Canonical) →
    (∀ p ∈ (x.outcome r).2.problems, p.Canonical) ∧ (∀ a, (x.outcome r).1 = .ok a → P a) ∧
      ∀ e, (x.outcome r).1 = .error e → e.Ordinary

/-! Canonical data is data over the set of all variables. -/

theorem Typing.over_anyVar {supply : Supply} {t : Typing VarId} : t.Over (anyVar supply) ↔ t.Canonical := by
  constructor
  · exact fun h => ⟨fun e he => (h.needs e he).shape, h.type.shape⟩
  · exact fun h => ⟨fun e he => Ty.over_anyVar.mpr (h.needs e he), Ty.over_anyVar.mpr h.type⟩

theorem Env.over_anyVar {supply : Supply} {env : Env VarId} : Env.Over (anyVar supply) env ↔ env.Canonical :=
  forall₄_congr fun _ _ _ _ => Typing.over_anyVar

theorem Block.over_anyVar {supply : Supply} {b : Block} : b.Over (anyVar supply) ↔ b.Canonical := by
  constructor
  · intro h
    exact ⟨Env.over_anyVar.mp h.env, fun t ht => Typing.over_anyVar.mp (h.typings t ht),
      fun t ht => Typing.over_anyVar.mp (h.returned t ht)⟩
  · intro h
    exact ⟨Env.over_anyVar.mpr h.env, fun t ht => Typing.over_anyVar.mpr (h.typings t ht),
      fun t ht => Typing.over_anyVar.mpr (h.returned t ht)⟩

theorem Problem.Over.canonical {p : Problem} (h : p.Over anyVar) : p.Canonical := by
  intro state hstate
  have h := (Solving.over_invariant growing_anyVar).through (h.start growing_anyVar).2 hstate
  exact ⟨fun c hc => (h.queue c hc).canonical, fun b hb => (h.made b hb).shape⟩

theorem Run.Goes.canonical {r r' : Run} (h : r.Goes anyVar r') (hr : ∀ p ∈ r.problems, p.Canonical) :
    ∀ p ∈ r'.problems, p.Canonical := by
  intro p hp
  exact (h.problems p hp).elim (hr p) Problem.Over.canonical

theorem Ensures.keepsShape {α : Type} {x : Infer α} {Q : Run → α → Prop} {P : α → Prop}
    (h : ∀ r, Ensures anyVar r x Q) (hQ : ∀ r a, Q r a → P a) : x.KeepsShape P := by
  intro r hr
  obtain ⟨hgo, hok, herr⟩ := h r
  exact ⟨hgo.canonical hr, fun a ha => hQ _ a (hok a ha), herr⟩

/-! What the parts of inference keep. -/

section Parts

variable (steps : Nat) {env : Env VarId}

theorem Infer.expr_keepsShape (henv : env.Canonical) (e : Expr) :
    (expr steps env e).KeepsShape Typing.Canonical := by
  apply Ensures.keepsShape (Q := Typing.In anyVar)
  · intro r
    exact ((over_cases growing_anyVar).allExpr e).1 (Env.over_anyVar.mpr henv)
  · exact fun r t => Typing.over_anyVar.mp

theorem Infer.functionBody_keepsShape (henv : env.Canonical) (body : Body) :
    (functionBody steps env body).KeepsShape Typing.Canonical := by
  apply Ensures.keepsShape (Q := Typing.In anyVar)
  · intro r
    exact (over_cases growing_anyVar).allBody body (Env.over_anyVar.mpr henv)
  · exact fun r t => Typing.over_anyVar.mp

theorem Infer.memberTyping_keepsShape {object : Typing VarId} (h : object.Canonical) (node : Node) (label : Ident) :
    (memberTyping steps node object label).KeepsShape Typing.Canonical := by
  apply Ensures.keepsShape (Q := Typing.In anyVar)
  · intro r
    exact .memberTyping growing_anyVar (Typing.over_anyVar.mpr h)
  · exact fun r t => Typing.over_anyVar.mp

theorem Infer.bindParams_keepsShape (henv : env.Canonical) (ps : List Pattern) :
    (bindParams env ps).KeepsShape fun p => p.1.Canonical ∧ ∀ e ∈ p.2, e.2.Canonical := by
  apply Ensures.keepsShape (Q := ParamsIn anyVar)
  · intro r
    exact .bindParams growing_anyVar (Env.over_anyVar.mpr henv)
  · exact fun r p hp => ⟨Env.over_anyVar.mp hp.1, fun e he => (hp.2 e he).shape⟩

theorem Infer.definition_keepsShape (henv : env.Canonical) (id : Ident) (node : Node) (ps : List Pattern)
    (body : Body) : (definition steps env id node ps body).KeepsShape Typing.Canonical := by
  apply Ensures.keepsShape (Q := Typing.In anyVar)
  · intro r
    exact .definition growing_anyVar ((over_cases growing_anyVar).allBody body) (Env.over_anyVar.mpr henv)
  · exact fun r t => Typing.over_anyVar.mp

theorem Infer.stmt_keepsShape {b : Block} (hb : b.Canonical) (kind : BlockKind) (s : Stmt) :
    (stmt steps kind b s).KeepsShape Block.Canonical := by
  apply Ensures.keepsShape (Q := Block.In anyVar)
  · intro r
    exact Upholds.blockFrom ((over_cases growing_anyVar).allStmt s (Block.over_anyVar.mpr hb))
  · exact fun r b => Block.over_anyVar.mp

end Parts

theorem Script.run_keepsShape (steps : Nat) (s : Script) :
    (s.run steps).1.1.Canonical ∧ (∀ p ∈ (s.run steps).2.problems, p.Canonical) ∧
      ∀ e, (s.run steps).1.2 = some e → e.Ordinary := by
  rw [run_eq]
  obtain ⟨hgo, hb, herr⟩ := Infer.script_over growing_anyVar steps s.body Block.over_empty rfl
  exact ⟨Block.over_anyVar.mp hb, hgo.canonical nofun, herr⟩

theorem Script.infer_ne_multipleRowVars {steps : Nat} {s : Script}
    (h : ∀ e, (s.run steps).1.2 = some e → e.Ordinary) (pos : Position) (record : Ty VarId) :
    s.infer steps ≠ .error (.scope (.multipleRowVars pos record)) := by
  unfold Script.infer
  split
  · nofun
  · nofun
  · rename_i e heq
    rintro ⟨⟩
    exact h _ (congrArg Prod.snd heq) pos record rfl
  · nofun

/-- Records stay in canonical shape through a whole run. Each part of inference gives canonical typings from canonical
ones, in canonical scopes, and no part or script ever fails for a record with several row variables. -/
theorem Script.records_stay_canonical (steps : Nat) :
    (∀ env : Env VarId, env.Canonical →
      (∀ e, (Infer.expr steps env e).KeepsShape Typing.Canonical) ∧
      (∀ body, (Infer.functionBody steps env body).KeepsShape Typing.Canonical) ∧
      (∀ ps, (Infer.bindParams env ps).KeepsShape fun p => p.1.Canonical ∧ ∀ e ∈ p.2, e.2.Canonical) ∧
      ∀ id node ps body, (Infer.definition steps env id node ps body).KeepsShape Typing.Canonical) ∧
    (∀ object : Typing VarId, object.Canonical →
      ∀ node label, (Infer.memberTyping steps node object label).KeepsShape Typing.Canonical) ∧
    (∀ b : Block, b.Canonical → ∀ kind s, (Infer.stmt steps kind b s).KeepsShape Block.Canonical) ∧
    ∀ s : Script,
      (s.run steps).1.1.Canonical ∧ (∀ p ∈ (s.run steps).2.problems, p.Canonical) ∧
        ∀ pos record, s.infer steps ≠ .error (.scope (.multipleRowVars pos record)) := by
  refine ⟨?_, ?_, ?_, ?_⟩
  · intro env henv
    refine ⟨?_, ?_, ?_, ?_⟩
    · exact Infer.expr_keepsShape steps henv
    · exact Infer.functionBody_keepsShape steps henv
    · exact Infer.bindParams_keepsShape henv
    · exact Infer.definition_keepsShape steps henv
  · intro object h
    exact Infer.memberTyping_keepsShape steps h
  · intro b hb
    exact Infer.stmt_keepsShape steps hb
  · intro s
    obtain ⟨hb, hps, herr⟩ := s.run_keepsShape steps
    exact ⟨hb, hps, infer_ne_multipleRowVars herr⟩

/-- An object with a label `x` and others that are not known. -/
def openObject : Typing VarId :=
  .closed (.record (Row.ofFields [("x", .var 0 none)] (some ⟨0, none⟩)) none)

theorem canonical_openObject : openObject.Canonical := by
  refine ⟨List.forall_mem_nil _, .record _ _ (fun _ => trivial) ?_ ?_⟩
  · exact List.forall_mem_singleton.mpr (.var 0 none)
  · exact List.nodup_singleton _

theorem Block.canonical_empty : Block.Canonical ⟨.empty, [], none⟩ :=
  Block.over_anyVar.mp (Block.over_empty (Y := anyVar Run.initial.supply))

theorem Script.records_stay_canonical_openObject :
    (Infer.expr 20 .empty (.object ⟨0, none⟩ [])).KeepsShape Typing.Canonical ∧
      (Infer.memberTyping 20 ⟨0, none⟩ openObject ⟨"y", none⟩).KeepsShape Typing.Canonical ∧
      (Infer.stmt 20 .top ⟨.empty, [], none⟩ (.block ⟨0, none⟩ [])).KeepsShape Block.Canonical := by
  obtain ⟨henv, hobject, hblock, -⟩ := records_stay_canonical 20
  exact ⟨(henv _ Block.canonical_empty.env).1 _, hobject _ canonical_openObject _ _, hblock _ Block.canonical_empty _ _⟩

end ScriptTypes
