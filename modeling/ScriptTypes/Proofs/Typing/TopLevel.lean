import ScriptTypes.Proofs.Typing.Declarative
import ScriptTypes.Proofs.Typing.Invariant
import ScriptTypes.Proofs.Typing.Over

/-! Scripts. A script is inferred when each of its statements is. At the top level no name is monomorphic, so typings
ask nothing, and the types of names are generalised over all their variables. -/

namespace ScriptTypes

theorem Block.fits_empty (n : Nat) : Block.Fits [] n ⟨.empty, [], none⟩ := by
  refine ⟨fun y b hb => ?_, List.forall_mem_nil _, by simp⟩
  rw [Env.get?_empty] at hb
  cases hb

/-- All statements of a script are inferred, from a block and a run to others. -/
def Infers (steps : Nat) (b : Block) (ss : List Stmt) (r : Run) (b' : Block) (r' : Run) : Prop :=
  Infer.script steps b ss r = ((b', none), r')

namespace Infers

variable {steps : Nat} {b b' : Block} {r r' : Run}

theorem nil_iff : Infers steps b [] r b' r' ↔ b' = b ∧ r' = r := by
  constructor
  · intro h
    cases h
    exact ⟨rfl, rfl⟩
  · rintro ⟨rfl, rfl⟩
    rfl

theorem cons_iff {s : Stmt} {ss : List Stmt} :
    Infers steps b (s :: ss) r b' r' ↔
      ∃ b₁ r₁, Returns (Infer.stmt steps .top b s) r b₁ r₁ ∧ Infers steps b₁ ss r₁ b' r' := by
  rw [Infers, Infer.script_cons]
  cases hx : (Infer.stmt steps .top b s).outcome r with
  | mk outcome r₁ =>
      cases outcome with
      | ok b₁ =>
          refine ⟨fun h => ⟨b₁, r₁, hx, h⟩, ?_⟩
          rintro ⟨b₂, r₂, h₁, h₂⟩
          cases hx.symm.trans h₁
          exact h₂
      | error e =>
          refine iff_of_false (fun h => by cases h) ?_
          rintro ⟨b₂, r₂, h₁, -⟩
          cases hx.symm.trans h₁

theorem kept {l : Lint} (hl : l.Implies .noAssume) {ss : List Stmt} (hp : ∀ s ∈ ss, s.passes l [] = true)
    (hb : b.Fits [] r.supply.types) (h : Infers steps b ss r b' r') : Block.Kept [] .top r b r' b' := by
  induction ss generalizing r b with
  | nil =>
      obtain ⟨rfl, rfl⟩ := nil_iff.mp h
      exact .refl hb
  | cons s ss ih =>
      obtain ⟨hps, hpss⟩ := List.forall_mem_cons.mp hp
      obtain ⟨b₁, r₁, hb₁, hrest⟩ := cons_iff.mp h
      have hk := s.keeps hl hps hb hb₁
      exact hk.trans (ih hpss hk.fits hrest)

end Infers

theorem Script.infer_eq_ok_iff {steps : Nat} {s : Script} {env : Env VarId} :
    s.infer steps = .ok ⟨env, none⟩ ↔
      ∃ b r, Infers steps ⟨.empty, [], none⟩ s.body .initial b r ∧ b.env = env := by
  obtain ⟨b, error, r, hrun, hinfer⟩ := s.infer_cases steps
  rw [run_eq] at hrun
  simp only [hinfer, Infers, hrun]
  cases error with
  | none => simp
  | some f => cases f <;> simp

/-- The names of the innermost layer with their types, in order of definition. -/
def Env.types (env : Env VarId) : Assoc (Ty VarId) :=
  env.bindings.map fun p => (p.1.label, p.2.type)

/-- The names of the innermost layer with their types, generalised over all variables, the latest first. -/
def Env.context (env : Env VarId) : Context :=
  (env.types.map fun p => (p.1, Context.generalize [] p.2.mono)).reverse

namespace Env

theorem context_insert {env : Env VarId} {id : Ident} (h : id.label ∉ Assoc.keys env.current) (t : Typing VarId) :
    context (env.insert id.label ⟨id, t, false⟩) =
      (id.label, Context.generalize [] t.type.mono) :: env.context := by
  simp [context, types, bindings, Scope.insert, Assoc.insert_of_not_mem h]

theorem free_context (env : Env VarId) : env.context.free = [] := by
  refine List.flatMap_eq_nil_iff.mpr fun e he => ?_
  simp only [context, List.mem_reverse, List.mem_map] at he
  obtain ⟨p, -, rfl⟩ := he
  simp [Scheme.free, Context.generalize, Context.free]

theorem generalize_context (env : Env VarId) (t : Mono) : env.context.generalize t = Context.generalize [] t := by
  rw [Context.generalize, free_context]
  rfl

end Env

theorem Requirements.Within.eq_nil {env : Requirements VarId} (h : env.Within []) : env = [] := by
  cases env with
  | nil => rfl
  | cons e env => exact (List.not_mem_nil (h.keys e.1 List.mem_cons_self)).elim

instance (b : Binding VarId) : Decidable b.Cyclic :=
  inferInstanceAs (Decidable ((b.kind, b.var) ∈ b.value.vars))

/-- No binding of a solution is cyclic. -/
def Solution.Acyclic : Solution VarId → Prop
  | .solved bs => ∀ b ∈ bs, ¬ b.Cyclic
  | _ => True

instance : (solution : Solution VarId) → Decidable solution.Acyclic
  | .solved bs => inferInstanceAs (Decidable (∀ b ∈ bs, ¬ b.Cyclic))
  | .failed _ => .isTrue trivial
  | .unfinished => .isTrue trivial

theorem Problem.acyclic_iff {steps : Nat} {p : Problem} :
    p.Acyclic steps ↔ (Id.run (Requirements.unify steps p.supply p.needs p.extra)).1.Acyclic := by
  rw [Acyclic]
  cases Id.run (Requirements.unify steps p.supply p.needs p.extra) with
  | mk solution supply => cases solution <;> simp [Solution.Acyclic]

instance (steps : Nat) (p : Problem) : Decidable (p.Acyclic steps) :=
  decidable_of_iff _ Problem.acyclic_iff.symm

/-- A function from any type to arrays, used at two types. -/
def pairing : Script where
  body :=
    [declare "pair" (.arrow node [.ident ⟨"x", none⟩] (.block
      [declare "both" (.array node [use "x", use "x"]), .ret node (some (use "both"))] none)),
    declare "flags" (.call node (use "pair") [.literal node (.bool true)]),
    declare "texts" (.call node (use "pair") [.literal node (.str "a")])]
  pos := none
where
  node : Node := ⟨0, none⟩
  use (label : String) : Expr := .ident node ⟨label, none⟩
  declare (label : String) (e : Expr) : Stmt := .decl node .letDecl [.mk (.ident ⟨label, none⟩) (some e) none]

def pairingEnv : Env VarId :=
  match pairing.infer 20 with
  | .ok i => i.env
  | .error _ => .empty

theorem infer_pairing : pairing.infer 20 = .ok ⟨pairingEnv, none⟩ := by decide +kernel

end ScriptTypes
