import ScriptTypes.Proofs.Ty.Same
import ScriptTypes.Typing.Rule

/-! Bindings of type variables, seen on monotypes. Applying a list of bindings one after the other amounts to one
assignment, and so does replacing all type variables at once. -/

namespace ScriptTypes

/-- A binding of a type variable to a closed type. -/
structure Binding.Closed (b : Binding VarId) : Prop where
  kind : b.kind = .type
  value : b.value.Closed

/-- The bound variable occurs in what it is bound to. -/
def Binding.Cyclic (b : Binding VarId) : Prop :=
  (b.kind, b.var) ∈ b.value.vars

/-- The type that a binding puts in the place of each type variable. -/
def Binding.replacement (b : Binding VarId) (v : VarId) : Ty VarId :=
  if v = b.var then b.value else .var v none

/-- What a binding makes of each variable. -/
def Binding.assignment (b : Binding VarId) : Assignment :=
  Function.update .var b.var b.value.mono

namespace Assignment

/-- What bindings make of each variable, one after the other. -/
def ofBindings : List (Binding VarId) → Assignment
  | [] => .var
  | b :: bs => b.assignment.then (ofBindings bs)

theorem subst_then (t : Mono) (σ τ : Assignment) : t.subst (σ.then τ) = (t.subst σ).subst τ :=
  (t.subst_subst σ τ).symm

end Assignment

theorem Row.merge_ofFields {V α : Type} (fs : Assoc α) (tail : Option (RowVar V)) :
    Row.merge (Row.ofFields fs tail) = Row.ofFields fs tail := by
  cases tail <;> simp only [Row.ofFields, Row.merge, Row.mergeAfter]

namespace Ty

/-! All type variables replaced at once. -/

section Replace

variable {V : Type}

mutual

def replace (θ : V → Ty V) : Ty V → Ty V
  | .leaf l s => .leaf l s
  | .var v s => (θ v).inPlaceOf s
  | .rowVar v s => .rowVar v s
  | .arrow d r s => .arrow (replaceList θ d) (replace θ r) s
  | .con n as s => .con n (replaceList θ as) s
  | .record rows s => .record (replaceRows θ rows) s

def replaceList (θ : V → Ty V) : List (Ty V) → List (Ty V)
  | [] => []
  | t :: ts => replace θ t :: replaceList θ ts

def replaceRows (θ : V → Ty V) : List (Row V (Ty V)) → List (Row V (Ty V))
  | [] => []
  | .fields fs :: rows => .fields (replaceFields θ fs) :: replaceRows θ rows
  | .var v :: rows => .var v :: replaceRows θ rows

def replaceFields (θ : V → Ty V) : List (String × Ty V) → List (String × Ty V)
  | [] => []
  | (l, t) :: fs => (l, replace θ t) :: replaceFields θ fs

end

section

attribute [local simp] replace replaceRows

theorem replaceList_eq (θ : V → Ty V) (ts : List (Ty V)) : replaceList θ ts = ts.map (replace θ) := by
  induction ts with
  | nil => rfl
  | cons t ts ih => simp only [replaceList, ih, List.map_cons]

theorem replaceFields_eq (θ : V → Ty V) (fs : Assoc (Ty V)) :
    replaceFields θ fs = Assoc.mapValues (replace θ) fs := by
  induction fs with
  | nil => rfl
  | cons f fs ih => simp only [replaceFields, ih, Assoc.mapValues_cons]

@[simp] theorem replace_leaf (θ : V → Ty V) (l : Leaf) (s : Option Node) : (leaf l s).replace θ = leaf l s := by simp

@[simp] theorem replace_var (θ : V → Ty V) (v : V) (s : Option Node) :
    (var v s).replace θ = (θ v).inPlaceOf s := by simp

@[simp] theorem replace_rowVar (θ : V → Ty V) (v : V) (s : Option Node) :
    (rowVar v s).replace θ = rowVar v s := by simp

@[simp] theorem replace_arrow (θ : V → Ty V) (d : List (Ty V)) (r : Ty V) (s : Option Node) :
    (arrow d r s).replace θ = arrow (d.map (replace θ)) (r.replace θ) s := by simp [replaceList_eq]

@[simp] theorem replace_con (θ : V → Ty V) (n : String) (as : List (Ty V)) (s : Option Node) :
    (con n as s).replace θ = con n (as.map (replace θ)) s := by simp [replaceList_eq]

@[simp] theorem replace_record (θ : V → Ty V) (fs : Assoc (Ty V)) (tail : Option (RowVar V)) (s : Option Node) :
    (record (Row.ofFields fs tail) s).replace θ =
      record (Row.ofFields (Assoc.mapValues (replace θ) fs) tail) s := by
  cases tail <;> simp [Row.ofFields, replaceFields_eq]

end

theorem Shaped.replace {rows : Prop} {t : Ty V} (ht : t.Shaped rows) {θ : V → Ty V}
    (hθ : ∀ v, (θ v).Shaped rows) : (t.replace θ).Shaped rows := by
  induction ht with
  | leaf l s => exact .leaf l s
  | var v s => exact (hθ v).withSrc _
  | rowVar v s hr => exact .rowVar v s hr
  | arrow s _ _ ihd ihr =>
      rw [replace_arrow]
      refine .arrow s ?_ ihr
      intro t ht
      obtain ⟨u, hu, rfl⟩ := List.mem_map.mp ht
      exact ihd u hu
  | con n s _ ih =>
      rw [replace_con]
      refine .con n s ?_
      intro t ht
      obtain ⟨u, hu, rfl⟩ := List.mem_map.mp ht
      exact ih u hu
  | record tail s ht _ hd ih =>
      rw [replace_record]
      refine .record tail s ht ?_ (hd.mapValues _)
      intro f hf
      obtain ⟨g, hg, rfl⟩ := List.mem_map.mp hf
      exact ih g hg

end Replace

theorem mono_replace {t : Ty VarId} (ht : t.Canonical) (θ : VarId → Ty VarId) :
    (t.replace θ).mono = t.mono.subst fun v => (θ v).mono := by
  induction ht with
  | leaf l s => rw [replace_leaf, mono_leaf, Mono.subst_leaf]
  | var v s => rw [replace_var, mono_inPlaceOf, mono_var, Mono.subst_var]
  | rowVar v s _ => rw [replace_rowVar, mono_rowVar, Mono.subst_rowVar]
  | arrow s _ _ ihd ihr =>
      rw [replace_arrow, mono_arrow, mono_arrow, Mono.subst_arrow, ihr, List.map_map, List.map_map]
      exact congrArg (Mono.arrow · _) (List.map_congr_left ihd)
  | con n s _ ih =>
      rw [replace_con, mono_con, mono_con, Mono.subst_con, List.map_map, List.map_map]
      exact congrArg (Mono.con n) (List.map_congr_left ih)
  | record tail s _ _ hd ih =>
      rw [replace_record, mono_record (hd.mapValues _), mono_record hd, Mono.subst_record,
        ← Assoc.sort_mapValues]
      refine congrArg (fun fs => Mono.record (Assoc.sort fs) _) ?_
      simp only [Assoc.mapValues, List.map_map]
      exact List.map_congr_left fun f hf => congrArg (Prod.mk f.1) (ih f hf)

/-! One binding. -/

theorem run_substList (b : Binding VarId) (ts : List (Ty VarId)) :
    Id.run (substList b ts) = ts.map fun t => Id.run (t.subst b) := by
  induction ts with
  | nil => rfl
  | cons t ts ih =>
      rw [List.map_cons, ← ih]
      rfl

theorem run_substFields (b : Binding VarId) (fs : Assoc (Ty VarId)) :
    Id.run (substFields b fs) = Assoc.mapValues (fun t => Id.run (t.subst b)) fs := by
  induction fs with
  | nil => rfl
  | cons f fs ih =>
      rw [Assoc.mapValues_cons, ← ih]
      rfl

theorem run_subst_leaf (b : Binding VarId) (l : Leaf) (s : Option Node) :
    Id.run ((leaf l s).subst b) = leaf l s := rfl

theorem run_subst_arrow (b : Binding VarId) (d : List (Ty VarId)) (r : Ty VarId) (s : Option Node) :
    Id.run ((arrow d r s).subst b) = arrow (d.map fun t => Id.run (t.subst b)) (Id.run (r.subst b)) s := by
  rw [← run_substList]
  rfl

theorem run_subst_con (b : Binding VarId) (n : String) (as : List (Ty VarId)) (s : Option Node) :
    Id.run ((con n as s).subst b) = con n (as.map fun t => Id.run (t.subst b)) s := by
  rw [← run_substList]
  rfl

section TypeBinding

variable {b : Binding VarId} (hk : b.kind = .type)

include hk

theorem run_subst_var (v : VarId) (s : Option Node) :
    Id.run ((var v s).subst b) = if v = b.var then b.value.inPlaceOf s else var v s := by
  rw [subst, Binding.hits, if_pos hk]
  by_cases h : v = b.var
  · rw [if_pos h]
    change Id.run (if (b.var == v) = true then _ else _) = _
    rw [if_pos (beq_iff_eq.mpr h.symm)]
    rfl
  · rw [if_neg h]
    change Id.run (if (b.var == v) = true then _ else _) = _
    rw [if_neg (fun he => h (beq_iff_eq.mp he).symm)]
    rfl

theorem run_subst_rowVar (v : VarId) (s : Option Node) : Id.run ((rowVar v s).subst b) = rowVar v s := by
  rw [subst, Binding.hits, if_neg (by simp [hk])]
  rfl

theorem run_substRows (fs : Assoc (Ty VarId)) (tail : Option (RowVar VarId)) :
    Id.run (substRows b (Row.ofFields fs tail)) =
      Row.ofFields (Assoc.mapValues (fun t => Id.run (t.subst b)) fs) tail := by
  rw [← run_substFields]
  cases tail with
  | none =>
      simp only [Row.ofFields, substRows]
      rfl
  | some v =>
      simp only [Row.ofFields, substRows, Binding.hits, hk]
      rfl

theorem run_subst_record (fs : Assoc (Ty VarId)) (tail : Option (RowVar VarId)) (s : Option Node) :
    Id.run ((record (Row.ofFields fs tail) s).subst b) =
      record (Row.ofFields (Assoc.mapValues (fun t => Id.run (t.subst b)) fs) tail) s := by
  rw [← Row.merge_ofFields (Assoc.mapValues _ fs) tail, ← run_substRows hk]
  rfl

/-- Substitution for a type variable replaces it and nothing else. -/
theorem Shaped.run_subst {rows : Prop} {t : Ty VarId} (ht : t.Shaped rows) :
    Id.run (t.subst b) = t.replace b.replacement := by
  induction ht with
  | leaf l s => rw [run_subst_leaf, replace_leaf]
  | var v s =>
      rw [run_subst_var hk, replace_var, Binding.replacement]
      by_cases h : v = b.var
      · rw [if_pos h, if_pos h]
      · rw [if_neg h, if_neg h, inPlaceOf, Ty.src, Option.or_none, Ty.withSrc]
  | rowVar v s _ => rw [run_subst_rowVar hk, replace_rowVar]
  | arrow s _ _ ihd ihr =>
      rw [run_subst_arrow, replace_arrow, ihr]
      exact congrArg (Ty.arrow · _ s) (List.map_congr_left ihd)
  | con n s _ ih =>
      rw [run_subst_con, replace_con]
      exact congrArg (Ty.con n · s) (List.map_congr_left ih)
  | record tail s _ _ _ ih =>
      rw [run_subst_record hk, replace_record]
      refine congrArg (fun fs => Ty.record (Row.ofFields fs tail) s) ?_
      exact List.map_congr_left fun f hf => congrArg (Prod.mk f.1) (ih f hf)

theorem Shaped.subst {rows : Prop} {t : Ty VarId} (ht : t.Shaped rows) (hv : b.value.Shaped rows) :
    (Id.run (t.subst b)).Shaped rows := by
  rw [ht.run_subst hk]
  refine ht.replace fun v => ?_
  rw [Binding.replacement]
  split
  · exact hv
  · exact .var v none

theorem mono_subst {t : Ty VarId} (ht : t.Canonical) :
    (Id.run (t.subst b)).mono = t.mono.subst b.assignment := by
  rw [ht.run_subst hk, mono_replace ht]
  refine congrArg t.mono.subst (funext fun v => ?_)
  by_cases h : v = b.var
  · rw [Binding.replacement, if_pos h, Binding.assignment, h, Function.update_self]
  · rw [Binding.replacement, if_neg h, Binding.assignment, Function.update_of_ne h, mono_var]

end TypeBinding

theorem under_nil (t : Ty VarId) : t.under [] = t := rfl

theorem under_cons (t : Ty VarId) (b : Binding VarId) (bs : List (Binding VarId)) :
    t.under (b :: bs) = (Id.run (t.subst b)).under bs := rfl

theorem under_leaf (l : Leaf) (s : Option Node) (bs : List (Binding VarId)) : (leaf l s).under bs = leaf l s := by
  induction bs with
  | nil => exact under_nil _
  | cons b bs ih => rw [under_cons, run_subst_leaf, ih]

theorem under_arrow (d : List (Ty VarId)) (r : Ty VarId) (s : Option Node) (bs : List (Binding VarId)) :
    (arrow d r s).under bs = arrow (d.map (·.under bs)) (r.under bs) s := by
  induction bs generalizing d r with
  | nil => simp only [under_nil, List.map_id']
  | cons b bs ih => simp only [under_cons, run_subst_arrow, ih, List.map_map, Function.comp_def]

theorem under_con (n : String) (as : List (Ty VarId)) (s : Option Node) (bs : List (Binding VarId)) :
    (con n as s).under bs = con n (as.map (·.under bs)) s := by
  induction bs generalizing as with
  | nil => simp only [under_nil, List.map_id']
  | cons b bs ih => simp only [under_cons, run_subst_con, ih, List.map_map, Function.comp_def]

section Bindings

variable {bs : List (Binding VarId)} (hbs : ∀ b ∈ bs, b.Closed)

include hbs

theorem Shaped.under {rows : Prop} {t : Ty VarId} (ht : t.Shaped rows) : (t.under bs).Shaped rows := by
  induction bs generalizing t with
  | nil => rwa [under_nil]
  | cons b bs ih =>
      have hb := hbs b List.mem_cons_self
      rw [under_cons]
      exact ih (fun c hc => hbs c (List.mem_cons_of_mem _ hc)) (ht.subst hb.kind (hb.value.imp False.elim))

/-- Bindings applied one after the other are one assignment on monotypes. -/
theorem mono_under {t : Ty VarId} (ht : t.Canonical) : (t.under bs).mono = t.mono.subst (.ofBindings bs) := by
  induction bs generalizing t with
  | nil => rw [under_nil, Assignment.ofBindings, Mono.subst_self]
  | cons b bs ih =>
      have hb := hbs b List.mem_cons_self
      rw [under_cons, ih (fun c hc => hbs c (List.mem_cons_of_mem _ hc)) (ht.subst hb.kind hb.value.canonical),
        mono_subst hb.kind ht, Assignment.ofBindings, Assignment.subst_then]

end Bindings

end Ty

end ScriptTypes
