import ScriptTypes.Proofs.Ty.Mono
import ScriptTypes.Proofs.Typing.Syntax

/-! The type system of scripts as rules. Parameters are monomorphic. A name bound by `let` has the generalisation of
the type of its value, and a function bound by `let` is monomorphic in its own body. Records are closed. Nothing
here computes a type: where a rule needs one, any closed type may be taken. -/

namespace ScriptTypes

/-- A type with some of its variables to be chosen at each use. -/
structure Scheme where
  vars : List VarId
  type : Mono

namespace Scheme

/-- A scheme without choice. -/
def mono (t : Mono) : Scheme :=
  ⟨[], t⟩

/-- Closed types for the variables to be chosen make the scheme this type. -/
def Instance (σ : Scheme) (t : Mono) : Prop :=
  ∃ φ : Assignment, φ.Proper ∧ (∀ v ∉ σ.vars, φ v = .var v) ∧ t = σ.type.subst φ

def free (σ : Scheme) : List VarId :=
  σ.type.vars.filter (· ∉ σ.vars)

end Scheme

/-- Names with their schemes, the latest first. -/
abbrev Context := Assoc Scheme

namespace Context

def free (Γ : Context) : List VarId :=
  Γ.flatMap fun e => e.2.free

/-- All variables of a type may be chosen that do not belong to the context. -/
def generalize (Γ : Context) (t : Mono) : Scheme :=
  ⟨t.vars.filter (· ∉ Γ.free), t⟩

/-- Parameters with their types. -/
def params (ids : List Ident) (ts : List Mono) : Context :=
  (ids.zip ts).map fun p => (p.1.label, .mono p.2)

theorem free_subset {Γ Γ' : Context} (h : Γ ⊆ Γ') : Γ.free ⊆ Γ'.free := by
  intro v hv
  obtain ⟨e, he, hv⟩ := List.mem_flatMap.mp hv
  exact List.mem_flatMap.mpr ⟨e, h he, hv⟩

theorem mem_free_of_mono {Γ : Context} {x : String} {t : Mono} (h : Assoc.get? Γ x = some (.mono t)) {v : VarId}
    (hv : v ∈ t.vars) : v ∈ Γ.free :=
  List.mem_flatMap.mpr ⟨_, Assoc.mem_of_get? h, List.mem_filter.mpr ⟨hv, by simp [Scheme.mono]⟩⟩

/-- A context with further monomorphic names. -/
def Extends (Γ : Context) (bound : List String) (M : String → Mono) (Γ' : Context) : Prop :=
  ∀ y, Assoc.get? Γ' y = if y ∈ bound then some (.mono (M y)) else Assoc.get? Γ y

theorem extends_params (Γ : Context) (ids : List Ident) (M : String → Mono) :
    Γ.Extends (ids.map Ident.label) M (params ids (ids.map fun id => M id.label) ++ Γ) := by
  intro y
  induction ids with
  | nil => rfl
  | cons id ids ih =>
      by_cases h : id.label = y
      · simp [params, Assoc.get?, h]
      · have h' : y ≠ id.label := Ne.symm h
        simpa [params, Assoc.get?, h, h'] using ih

theorem extends_own (Γ : Context) (ids : List Ident) {M : String → Mono} {own : String} {t : Mono}
    (h : own ∉ ids.map Ident.label → M own = t) :
    Γ.Extends (ids.map Ident.label ++ [own]) M (params ids (ids.map fun id => M id.label) ++ (own, .mono t) :: Γ) := by
  intro y
  rw [extends_params]
  by_cases hy : y ∈ ids.map Ident.label
  · rw [if_pos hy, if_pos (List.mem_append_left _ hy)]
  · rw [if_neg hy, Assoc.get?]
    by_cases ho : own = y
    · subst ho
      rw [if_pos rfl, if_pos (by simp), h hy]
    · rw [if_neg ho, if_neg]
      simp only [List.mem_append, List.mem_singleton, not_or]
      exact ⟨hy, Ne.symm ho⟩

end Context

namespace Scheme

theorem instance_mono {t u : Mono} : (mono t).Instance u ↔ u = t := by
  constructor
  · rintro ⟨φ, -, hφ, rfl⟩
    exact (Mono.subst_congr fun v _ => hφ v (by simp [mono])).trans (Mono.subst_self t)
  · rintro rfl
    exact ⟨.var, .var, fun _ _ => rfl, (Mono.subst_self _).symm⟩

/-- Types for all variables but those of the context make an instance. -/
theorem instance_generalize {Γ : Context} {t u : Mono} :
    (Γ.generalize t).Instance u ↔ ∃ φ : Assignment, φ.Proper ∧ (∀ v ∈ Γ.free, φ v = .var v) ∧ u = t.subst φ := by
  constructor
  · rintro ⟨φ, hφ, hid, rfl⟩
    refine ⟨φ, hφ, fun v hv => hid v ?_, rfl⟩
    simp [Context.generalize, hv]
  · rintro ⟨φ, hφ, hid, rfl⟩
    refine ⟨fun v => if v ∈ (Γ.generalize t).vars then φ v else .var v, fun v => ?_, fun v hv => if_neg hv, ?_⟩
    · beta_reduce
      split
      · exact hφ v
      · exact .var v
    · refine Mono.subst_congr fun v hv => ?_
      by_cases hf : v ∈ Γ.free
      · rw [hid v hf, ite_self]
      · exact (if_pos (List.mem_filter.mpr ⟨hv, decide_eq_true hf⟩)).symm

end Scheme

mutual

inductive HasType : Context → Expr → Mono → Prop
  | literal {Γ : Context} {node : Node} {value : Literal} : HasType Γ (.literal node value) (.leaf value.leaf)
  | ident {Γ : Context} {node : Node} {id : Ident} {σ : Scheme} {t : Mono} :
      Assoc.get? Γ id.label = some σ → σ.Instance t → HasType Γ (.ident node id) t
  | arithmetic {Γ : Context} {node : Node} {op : BinaryOp} {left right : Expr} :
      op.isArithmetic = true → HasType Γ left (.leaf .num) → HasType Γ right (.leaf .num) →
      HasType Γ (.binary node op left right) (.leaf .num)
  | comparison {Γ : Context} {node : Node} {op : BinaryOp} {left right : Expr} {t : Mono} :
      op.isArithmetic = false → HasType Γ left t → HasType Γ right t →
      HasType Γ (.binary node op left right) (.leaf .bool)
  | array {Γ : Context} {node : Node} {elems : List Expr} {t : Mono} :
      t.Proper → HasTypes Γ elems (elems.map fun _ => t) → HasType Γ (.array node elems) (.con "Array" [t])
  | object {Γ : Context} {node : Node} {props : List Property} {fields : Assoc Mono} :
      HasFields Γ props fields → Assoc.Distinct fields →
      HasType Γ (.object node props) (.record (Assoc.sort fields) none)
  | member {Γ : Context} {node : Node} {object : Expr} {label : Ident} {fields : Assoc Mono} {t : Mono} :
      HasType Γ object (.record fields none) → Assoc.get? fields label.label = some t →
      HasType Γ (.member node object label) t
  | conditional {Γ : Context} {node : Node} {test consequent alternate : Expr} {t : Mono} :
      HasType Γ test (.leaf .bool) → HasType Γ consequent t → HasType Γ alternate t →
      HasType Γ (.conditional node test consequent alternate) t
  | arrow {Γ : Context} {node : Node} {ids : List Ident} {ts : List Mono} {body : Body} {r : Mono} :
      ids.length = ts.length → (∀ t ∈ ts, t.Proper) → HasBody (Context.params ids ts ++ Γ) body r →
      HasType Γ (.arrow node (ids.map .ident) body) (.arrow ts r)
  | call {Γ : Context} {node : Node} {callee : Expr} {args : List Expr} {ts : List Mono} {r : Mono} :
      HasType Γ callee (.arrow ts r) → HasTypes Γ args ts → HasType Γ (.call node callee args) r
  | template {Γ : Context} {node : Node} {texts : List String} {parts : List Expr} {pos : Position}
      {ts : List Mono} : HasTypes Γ parts ts → HasType Γ (.template node (.mk texts parts pos)) (.leaf .str)

/-- Each expression has the type at its place. -/
inductive HasTypes : Context → List Expr → List Mono → Prop
  | nil {Γ : Context} : HasTypes Γ [] []
  | cons {Γ : Context} {e : Expr} {es : List Expr} {t : Mono} {ts : List Mono} :
      HasType Γ e t → HasTypes Γ es ts → HasTypes Γ (e :: es) (t :: ts)

/-- The labels of properties with the types of their values. -/
inductive HasFields : Context → List Property → Assoc Mono → Prop
  | nil {Γ : Context} : HasFields Γ [] []
  | cons {Γ : Context} {key : PropertyKey} {value : Expr} {pos : Position} {props : List Property}
      {label : String} {t : Mono} {fields : Assoc Mono} :
      key.label? = some label → HasType Γ value t → HasFields Γ props fields →
      HasFields Γ (.mk key value pos :: props) ((label, t) :: fields)

/-- A block without a `return` gives nothing. -/
inductive HasBody : Context → Body → Mono → Prop
  | expr {Γ : Context} {e : Expr} {t : Mono} : HasType Γ e t → HasBody Γ (.expr e) t
  | block {Γ Γ' : Context} {ss : List Stmt} {pos : Position} {returned : Option Mono} :
      HasStmts Γ ss Γ' returned → HasBody Γ (.block ss pos) (returned.getD (.leaf .undefined))

/-- A statement gives the context of those after it, and the type that it returns if it returns. -/
inductive HasStmt : Context → Stmt → Context → Option Mono → Prop
  | letFunction {Γ : Context} {node fnode : Node} {id : Ident} {ids : List Ident} {ts : List Mono} {body : Body}
      {r : Mono} {pos : Position} :
      ids.length = ts.length → (∀ t ∈ ts, t.Proper) →
      HasBody (Context.params ids ts ++ (id.label, .mono (.arrow ts r)) :: Γ) body r →
      HasStmt Γ (.decl node .letDecl [.mk (.ident id) (some (.arrow fnode (ids.map .ident) body)) pos])
        ((id.label, Γ.generalize (.arrow ts r)) :: Γ) none
  | letValue {Γ : Context} {node : Node} {id : Ident} {e : Expr} {t : Mono} {pos : Position} :
      e.isArrow = false → HasType Γ e t →
      HasStmt Γ (.decl node .letDecl [.mk (.ident id) (some e) pos]) ((id.label, Γ.generalize t) :: Γ) none
  | expr {Γ : Context} {node : Node} {e : Expr} {t : Mono} : HasType Γ e t → HasStmt Γ (.expr node e) Γ none
  | ret {Γ : Context} {node : Node} {e : Expr} {t : Mono} :
      HasType Γ e t → HasStmt Γ (.ret node (some e)) Γ (some t)
  | retNothing {Γ : Context} {node : Node} : HasStmt Γ (.ret node none) Γ (some (.leaf .undefined))
  | block {Γ Γ' : Context} {node : Node} {ss : List Stmt} {returned : Option Mono} :
      HasStmts Γ ss Γ' returned → HasStmt Γ (.block node ss) Γ returned

/-- Statements up to the first that returns. -/
inductive HasStmts : Context → List Stmt → Context → Option Mono → Prop
  | nil {Γ : Context} : HasStmts Γ [] Γ none
  | next {Γ Γ₁ Γ₂ : Context} {s : Stmt} {ss : List Stmt} {returned : Option Mono} :
      HasStmt Γ s Γ₁ none → HasStmts Γ₁ ss Γ₂ returned → HasStmts Γ (s :: ss) Γ₂ returned
  | returned {Γ Γ' : Context} {s : Stmt} {ss : List Stmt} {t : Mono} :
      HasStmt Γ s Γ' (some t) → HasStmts Γ (s :: ss) Γ' (some t)

end

/-- A script is well typed when its statements are. The context has the types of its top-level names. -/
def Script.Derives (s : Script) (Γ : Context) : Prop :=
  HasStmts [] s.body Γ none

end ScriptTypes
