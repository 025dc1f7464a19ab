import ScriptTypes.Proofs.Assoc
import ScriptTypes.Ty.Basic

/-! Monotypes: what comparison sees of a type. The origin of a type is gone and the labels of a record stand in their
order, so that two types are the same when their monotypes are equal. Assignments give a monotype to every type
variable at once. -/

namespace ScriptTypes

inductive Mono where
  | leaf (leaf : Leaf)
  | var (v : VarId)
  | rowVar (v : VarId)
  | arrow (domain : List Mono) (range : Mono)
  | con (name : String) (args : List Mono)
  | record (fields : List (String × Mono)) (tail : Option VarId)

/-- A monotype for every type variable. -/
abbrev Assignment := VarId → Mono

namespace Mono

theorem ind {P : Mono → Prop} (leaf : ∀ l, P (.leaf l)) (var : ∀ v, P (.var v)) (rowVar : ∀ v, P (.rowVar v))
    (arrow : ∀ d r, (∀ t ∈ d, P t) → P r → P (.arrow d r)) (con : ∀ n as, (∀ t ∈ as, P t) → P (.con n as))
    (record : ∀ fs tail, (∀ f ∈ fs, P f.2) → P (.record fs tail)) (t : Mono) : P t :=
  @Mono.rec P (fun ts => ∀ t ∈ ts, P t) (fun fs => ∀ f ∈ fs, P f.2) (fun f => P f.2)
    leaf var rowVar arrow con record
    (fun _ h => by cases h)
    (fun _ _ ht hts u hu => (List.mem_cons.mp hu).elim (fun h => h ▸ ht) (hts u))
    (fun _ h => by cases h)
    (fun _ _ hf hfs g hg => (List.mem_cons.mp hg).elim (fun h => h ▸ hf) (hfs g))
    (fun _ _ h => h) t

/-! Substitution. -/

mutual

def subst (σ : Assignment) : Mono → Mono
  | .leaf l => .leaf l
  | .var v => σ v
  | .rowVar v => .rowVar v
  | .arrow d r => .arrow (substList σ d) (subst σ r)
  | .con n as => .con n (substList σ as)
  | .record fs tail => .record (substFields σ fs) tail

def substList (σ : Assignment) : List Mono → List Mono
  | [] => []
  | t :: ts => subst σ t :: substList σ ts

def substFields (σ : Assignment) : List (String × Mono) → List (String × Mono)
  | [] => []
  | (l, t) :: fs => (l, subst σ t) :: substFields σ fs

end

section

attribute [local simp] subst

theorem substList_eq (σ : Assignment) (ts : List Mono) : substList σ ts = ts.map (subst σ) := by
  induction ts with
  | nil => rfl
  | cons t ts ih => simp only [substList, ih, List.map_cons]

theorem substFields_eq (σ : Assignment) (fs : List (String × Mono)) :
    substFields σ fs = Assoc.mapValues (subst σ) fs := by
  induction fs with
  | nil => rfl
  | cons f fs ih => simp only [substFields, ih, Assoc.mapValues, List.map_cons]

@[simp] theorem subst_leaf (σ : Assignment) (l : Leaf) : (leaf l).subst σ = leaf l := by simp

@[simp] theorem subst_var (σ : Assignment) (v : VarId) : (var v).subst σ = σ v := by simp

@[simp] theorem subst_rowVar (σ : Assignment) (v : VarId) : (rowVar v).subst σ = rowVar v := by simp

@[simp] theorem subst_arrow (σ : Assignment) (d : List Mono) (r : Mono) :
    (arrow d r).subst σ = arrow (d.map (subst σ)) (r.subst σ) := by simp [substList_eq]

@[simp] theorem subst_con (σ : Assignment) (n : String) (as : List Mono) :
    (con n as).subst σ = con n (as.map (subst σ)) := by simp [substList_eq]

@[simp] theorem subst_record (σ : Assignment) (fs : List (String × Mono)) (tail : Option VarId) :
    (record fs tail).subst σ = record (Assoc.mapValues (subst σ) fs) tail := by simp [substFields_eq]

end

/-! Type variables. -/

mutual

def vars : Mono → List VarId
  | .leaf _ | .rowVar _ => []
  | .var v => [v]
  | .arrow d r => varsList d ++ vars r
  | .con _ as => varsList as
  | .record fs _ => varsFields fs

def varsList : List Mono → List VarId
  | [] => []
  | t :: ts => vars t ++ varsList ts

def varsFields : List (String × Mono) → List VarId
  | [] => []
  | (_, t) :: fs => vars t ++ varsFields fs

end

section

attribute [local simp] vars varsList varsFields

theorem mem_varsList {ts : List Mono} {v : VarId} : v ∈ varsList ts ↔ ∃ t ∈ ts, v ∈ t.vars := by
  induction ts with
  | nil => simp
  | cons t ts ih => simp [ih]

theorem mem_varsFields {fs : List (String × Mono)} {v : VarId} :
    v ∈ varsFields fs ↔ ∃ f ∈ fs, v ∈ f.2.vars := by
  induction fs with
  | nil => simp
  | cons f fs ih => simp [ih]

@[simp] theorem mem_vars_leaf {l : Leaf} {v : VarId} : v ∈ (leaf l).vars ↔ False := by simp

@[simp] theorem mem_vars_var {w v : VarId} : v ∈ (var w).vars ↔ v = w := by simp

@[simp] theorem mem_vars_rowVar {w v : VarId} : v ∈ (rowVar w).vars ↔ False := by simp

@[simp] theorem mem_vars_arrow {d : List Mono} {r : Mono} {v : VarId} :
    v ∈ (arrow d r).vars ↔ (∃ t ∈ d, v ∈ t.vars) ∨ v ∈ r.vars := by simp [mem_varsList]

@[simp] theorem mem_vars_con {n : String} {as : List Mono} {v : VarId} :
    v ∈ (con n as).vars ↔ ∃ t ∈ as, v ∈ t.vars := by simp [mem_varsList]

@[simp] theorem mem_vars_record {fs : List (String × Mono)} {tail : Option VarId} {v : VarId} :
    v ∈ (record fs tail).vars ↔ ∃ f ∈ fs, v ∈ f.2.vars := by simp [mem_varsFields]

end

/-- Only the variables that occur matter. -/
theorem subst_congr {t : Mono} {σ τ : Assignment} (h : ∀ v ∈ t.vars, σ v = τ v) : t.subst σ = t.subst τ := by
  induction t using ind with
  | leaf l => simp
  | var v => simpa using h v (by simp)
  | rowVar v => simp
  | arrow d r ihd ihr =>
      have hd : d.map (subst σ) = d.map (subst τ) := List.map_congr_left fun t ht =>
        ihd t ht fun v hv => h v (mem_vars_arrow.mpr (.inl ⟨t, ht, hv⟩))
      simp only [subst_arrow, hd, ihr fun v hv => h v (mem_vars_arrow.mpr (.inr hv))]
  | con n as ih =>
      have has : as.map (subst σ) = as.map (subst τ) := List.map_congr_left fun t ht =>
        ih t ht fun v hv => h v (mem_vars_con.mpr ⟨t, ht, hv⟩)
      simp only [subst_con, has]
  | record fs tail ih =>
      have hfs : Assoc.mapValues (subst σ) fs = Assoc.mapValues (subst τ) fs :=
        List.map_congr_left fun f hf =>
          congrArg (Prod.mk f.1) (ih f hf fun v hv => h v (mem_vars_record.mpr ⟨f, hf, hv⟩))
      simp only [subst_record, hfs]

/-- All variables that occur matter. -/
theorem eq_of_subst_eq {t : Mono} {σ τ : Assignment} (h : t.subst σ = t.subst τ) : ∀ v ∈ t.vars, σ v = τ v := by
  induction t using ind with
  | leaf l => simp
  | var w => simpa using h
  | rowVar w => simp
  | arrow d r ihd ihr =>
      rw [subst_arrow, subst_arrow, arrow.injEq] at h
      intro v hv
      rcases mem_vars_arrow.mp hv with ⟨t, ht, hv⟩ | hv
      · exact ihd t ht (List.map_inj_left.mp h.1 t ht) v hv
      · exact ihr h.2 v hv
  | con n as ih =>
      rw [subst_con, subst_con, con.injEq] at h
      intro v hv
      obtain ⟨t, ht, hv⟩ := mem_vars_con.mp hv
      exact ih t ht (List.map_inj_left.mp h.2 t ht) v hv
  | record fs tail ih =>
      rw [subst_record, subst_record, record.injEq] at h
      intro v hv
      obtain ⟨f, hf, hv⟩ := mem_vars_record.mp hv
      exact ih f hf (congrArg Prod.snd (List.map_inj_left.mp h.1 f hf)) v hv

@[simp] theorem subst_self (t : Mono) : t.subst var = t := by
  induction t using ind with
  | leaf l => simp
  | var v => simp
  | rowVar v => simp
  | arrow d r ihd ihr =>
      have hd : d.map (subst var) = d := (List.map_congr_left (g := id) ihd).trans (List.map_id d)
      simp only [subst_arrow, hd, ihr]
  | con n as ih =>
      have has : as.map (subst var) = as := (List.map_congr_left (g := id) ih).trans (List.map_id as)
      simp only [subst_con, has]
  | record fs tail ih =>
      have hfs : Assoc.mapValues (subst var) fs = fs :=
        (List.map_congr_left (g := id) fun f hf => congrArg (Prod.mk f.1) (ih f hf)).trans (List.map_id fs)
      simp only [subst_record, hfs]

theorem subst_subst (t : Mono) (σ τ : Assignment) :
    (t.subst σ).subst τ = t.subst fun v => (σ v).subst τ := by
  induction t using ind with
  | leaf l => simp
  | var v => simp
  | rowVar v => simp
  | arrow d r ihd ihr =>
      simp only [subst_arrow, List.map_map, ihr, arrow.injEq, and_true]
      exact List.map_congr_left ihd
  | con n as ih =>
      simp only [subst_con, List.map_map, con.injEq, true_and]
      exact List.map_congr_left ih
  | record fs tail ih =>
      simp only [subst_record, Assoc.mapValues, List.map_map, record.injEq, and_true]
      exact List.map_congr_left fun f hf => congrArg (Prod.mk f.1) (ih f hf)

theorem mem_vars_subst {t : Mono} {σ : Assignment} {v : VarId} :
    v ∈ (t.subst σ).vars ↔ ∃ w ∈ t.vars, v ∈ (σ w).vars := by
  induction t using ind with
  | leaf l => simp
  | var w => simp
  | rowVar w => simp
  | arrow d r ihd ihr =>
      simp only [subst_arrow, mem_vars_arrow, List.mem_map, exists_exists_and_eq_and, ihr]
      constructor
      · rintro (⟨t, ht, hv⟩ | ⟨w, hw, hv⟩)
        · obtain ⟨w, hw, hv⟩ := (ihd t ht).mp hv
          exact ⟨w, .inl ⟨t, ht, hw⟩, hv⟩
        · exact ⟨w, .inr hw, hv⟩
      · rintro ⟨w, ⟨t, ht, hw⟩ | hw, hv⟩
        · exact .inl ⟨t, ht, (ihd t ht).mpr ⟨w, hw, hv⟩⟩
        · exact .inr ⟨w, hw, hv⟩
  | con n as ih =>
      simp only [subst_con, mem_vars_con, List.mem_map, exists_exists_and_eq_and]
      constructor
      · rintro ⟨t, ht, hv⟩
        obtain ⟨w, hw, hv⟩ := (ih t ht).mp hv
        exact ⟨w, ⟨t, ht, hw⟩, hv⟩
      · rintro ⟨w, ⟨t, ht, hw⟩, hv⟩
        exact ⟨t, ht, (ih t ht).mpr ⟨w, hw, hv⟩⟩
  | record fs tail ih =>
      simp only [subst_record, mem_vars_record, Assoc.mapValues, List.mem_map, exists_exists_and_eq_and]
      constructor
      · rintro ⟨f, hf, hv⟩
        obtain ⟨w, hw, hv⟩ := (ih f hf).mp hv
        exact ⟨w, ⟨f, hf, hw⟩, hv⟩
      · rintro ⟨w, ⟨f, hf, hw⟩, hv⟩
        exact ⟨f, hf, (ih f hf).mpr ⟨w, hw, hv⟩⟩

/-- Every type variable is below a bound. -/
def Below (n : Nat) (t : Mono) : Prop :=
  ∀ v ∈ t.vars, v < n

theorem Below.le {n m : Nat} {t : Mono} (h : t.Below n) (hnm : n ≤ m) : t.Below m :=
  fun v hv => Nat.lt_of_lt_of_le (h v hv) hnm

theorem Below.subst {n : Nat} {t : Mono} (h : t.Below n) {σ : Assignment} (hσ : ∀ v < n, (σ v).Below n) :
    (t.subst σ).Below n := by
  intro v hv
  obtain ⟨w, hw, hv⟩ := mem_vars_subst.mp hv
  exact hσ w (h w hw) v hv

/-! Size. -/

mutual

/-- The number of constructors. -/
def size : Mono → Nat
  | .leaf _ | .var _ | .rowVar _ => 1
  | .arrow d r => 1 + sizeList d + size r
  | .con _ as => 1 + sizeList as
  | .record fs _ => 1 + sizeFields fs

def sizeList : List Mono → Nat
  | [] => 0
  | t :: ts => size t + sizeList ts

def sizeFields : List (String × Mono) → Nat
  | [] => 0
  | (_, t) :: fs => size t + sizeFields fs

end

theorem sizeFields_perm {fs gs : List (String × Mono)} (h : fs.Perm gs) : sizeFields fs = sizeFields gs := by
  induction h with
  | nil => rfl
  | cons f _ ih => simp only [sizeFields, ih]
  | swap f g fs =>
      simp only [sizeFields]
      omega
  | trans _ _ ih₁ ih₂ => exact ih₁.trans ih₂

theorem size_pos (t : Mono) : 0 < t.size := by
  cases t <;> simp only [size] <;> omega

theorem size_subst_le_sizeList {t : Mono} {ts : List Mono} (h : t ∈ ts) (σ : Assignment) :
    (t.subst σ).size ≤ sizeList (ts.map (subst σ)) := by
  induction ts with
  | nil => cases h
  | cons u us ih =>
      simp only [List.map_cons, sizeList]
      rcases List.mem_cons.mp h with rfl | h
      · omega
      · have hle := ih h
        omega

theorem size_subst_le_sizeFields {f : String × Mono} {fs : List (String × Mono)} (h : f ∈ fs)
    (σ : Assignment) : (f.2.subst σ).size ≤ sizeFields (Assoc.mapValues (subst σ) fs) := by
  induction fs with
  | nil => cases h
  | cons g gs ih =>
      change _ ≤ (g.2.subst σ).size + sizeFields (Assoc.mapValues (subst σ) gs)
      rcases List.mem_cons.mp h with rfl | h
      · omega
      · have hle := ih h
        omega

/-- A variable that occurs is at most as large as the whole, whatever is assigned to it. -/
theorem size_le_of_mem_vars {t : Mono} {v : VarId} (h : v ∈ t.vars) (σ : Assignment) :
    (σ v).size ≤ (t.subst σ).size := by
  induction t using ind with
  | leaf l => simp at h
  | var w =>
      cases mem_vars_var.mp h
      simp
  | rowVar w => simp at h
  | arrow d r ihd ihr =>
      simp only [subst_arrow, size]
      rcases mem_vars_arrow.mp h with ⟨t, ht, hv⟩ | hv
      · have hle := ihd t ht hv
        have hs := size_subst_le_sizeList ht σ
        omega
      · have hle := ihr hv
        omega
  | con n as ih =>
      simp only [subst_con, size]
      obtain ⟨t, ht, hv⟩ := mem_vars_con.mp h
      have hle := ih t ht hv
      have hs := size_subst_le_sizeList ht σ
      omega
  | record fs tail ih =>
      simp only [subst_record, size]
      obtain ⟨f, hf, hv⟩ := mem_vars_record.mp h
      have hle := ih f hf hv
      have hs := size_subst_le_sizeFields hf σ
      omega

/-- No assignment equates a variable with a larger type in which it occurs. -/
theorem not_mem_vars_of_subst_eq {t : Mono} {v : VarId} {σ : Assignment} (hne : t ≠ var v)
    (h : σ v = t.subst σ) : v ∉ t.vars := by
  intro hv
  cases t with
  | leaf l => simp at hv
  | var w => exact hne (congrArg var (mem_vars_var.mp hv).symm)
  | rowVar w => simp at hv
  | arrow d r =>
      have hs := congrArg size h
      simp only [subst_arrow, size] at hs
      rcases mem_vars_arrow.mp hv with ⟨t, ht, hv⟩ | hv
      · have hle := size_le_of_mem_vars hv σ
        have hl := size_subst_le_sizeList ht σ
        omega
      · have hle := size_le_of_mem_vars hv σ
        omega
  | con n as =>
      have hs := congrArg size h
      simp only [subst_con, size] at hs
      obtain ⟨t, ht, hv⟩ := mem_vars_con.mp hv
      have hle := size_le_of_mem_vars hv σ
      have hl := size_subst_le_sizeList ht σ
      omega
  | record fs tail =>
      have hs := congrArg size h
      simp only [subst_record, size] at hs
      obtain ⟨f, hf, hv⟩ := mem_vars_record.mp hv
      have hle := size_le_of_mem_vars hv σ
      have hl := size_subst_le_sizeFields hf σ
      omega

/-! Closed types. -/

/-- A type without row variables, the labels of each record in order. -/
inductive Proper : Mono → Prop
  | leaf (l : Leaf) : Proper (.leaf l)
  | var (v : VarId) : Proper (.var v)
  | arrow {d : List Mono} {r : Mono} : (∀ t ∈ d, Proper t) → Proper r → Proper (.arrow d r)
  | con {n : String} {as : List Mono} : (∀ t ∈ as, Proper t) → Proper (.con n as)
  | record {fs : List (String × Mono)} : (∀ f ∈ fs, Proper f.2) → Assoc.Ordered fs → Proper (.record fs none)

theorem Proper.subst {t : Mono} (h : t.Proper) {σ : Assignment} (hσ : ∀ v, (σ v).Proper) :
    (t.subst σ).Proper := by
  induction h with
  | leaf l => simpa using Proper.leaf l
  | var v => simpa using hσ v
  | arrow _ _ ihd ihr =>
      simp only [subst_arrow]
      refine .arrow ?_ ihr
      intro t ht
      obtain ⟨u, hu, rfl⟩ := List.mem_map.mp ht
      exact ihd u hu
  | con _ ih =>
      simp only [subst_con]
      refine .con ?_
      intro t ht
      obtain ⟨u, hu, rfl⟩ := List.mem_map.mp ht
      exact ih u hu
  | record _ ho ih =>
      simp only [subst_record]
      refine .record ?_ (ho.mapValues _)
      intro f hf
      obtain ⟨g, hg, rfl⟩ := List.mem_map.mp hf
      exact ih g hg

end Mono

/-- Closed types for all variables. -/
def Assignment.Proper (θ : Assignment) : Prop :=
  ∀ v, (θ v).Proper

/-- First one assignment, then another. -/
def Assignment.then (σ τ : Assignment) : Assignment :=
  fun v => (σ v).subst τ

theorem Assignment.Proper.then {σ τ : Assignment} (hσ : σ.Proper) (hτ : τ.Proper) : (σ.then τ).Proper :=
  fun v => (hσ v).subst hτ

end ScriptTypes
