import ScriptTypes.Proofs.Ty.Mono

/-! Shapes of types. The records that inference builds have at most one row variable, followed by one set of fields.
Types without row variables are closed. Every type has a monotype, and on types of these shapes it keeps all but
origins and the order of labels. -/

namespace ScriptTypes

namespace Ty

variable {V : Type}

/-- Every record has at most one row variable, followed by one set of fields with distinct labels. Row variables are
there only if they are allowed. -/
inductive Shaped (rows : Prop) : Ty V → Prop
  | leaf (l : Leaf) (s : Option Node) : Shaped rows (.leaf l s)
  | var (v : V) (s : Option Node) : Shaped rows (.var v s)
  | rowVar (v : V) (s : Option Node) : rows → Shaped rows (.rowVar v s)
  | arrow {d : List (Ty V)} {r : Ty V} (s : Option Node) :
      (∀ t ∈ d, Shaped rows t) → Shaped rows r → Shaped rows (.arrow d r s)
  | con (n : String) {as : List (Ty V)} (s : Option Node) :
      (∀ t ∈ as, Shaped rows t) → Shaped rows (.con n as s)
  | record {fs : Assoc (Ty V)} (tail : Option (RowVar V)) (s : Option Node) :
      (tail.isSome → rows) → (∀ f ∈ fs, Shaped rows f.2) → Assoc.Distinct fs →
      Shaped rows (.record (Row.ofFields fs tail) s)

/-- The shape of every type that inference may meet. -/
abbrev Canonical (t : Ty V) : Prop :=
  t.Shaped True

/-- There is no row variable, and every record is one set of fields. -/
abbrev Closed (t : Ty V) : Prop :=
  t.Shaped False

variable {rows : Prop}

theorem Shaped.imp {t : Ty V} {more : Prop} (h : t.Shaped rows) (hr : rows → more) : t.Shaped more := by
  induction h with
  | leaf l s => exact .leaf l s
  | var v s => exact .var v s
  | rowVar v s h => exact .rowVar v s (hr h)
  | arrow s _ _ ihd ihr => exact .arrow s ihd ihr
  | con n s _ ih => exact .con n s ih
  | record tail s ht _ hd ih => exact .record tail s (fun h => hr (ht h)) ih hd

theorem Shaped.canonical {t : Ty V} (h : t.Shaped rows) : t.Canonical := h.imp fun _ => trivial

theorem Shaped.withSrc {t : Ty V} (h : t.Shaped rows) (s : Option Node) : (t.withSrc s).Shaped rows := by
  cases h with
  | leaf l => exact .leaf l s
  | var v => exact .var v s
  | rowVar v _ hr => exact .rowVar v s hr
  | arrow _ hd hr => exact .arrow s hd hr
  | con n _ h => exact .con n s h
  | record tail _ ht h hd => exact .record tail s ht h hd

theorem closed_record {fs : Assoc (Ty V)} (s : Option Node) (h : ∀ f ∈ fs, f.2.Closed)
    (hd : Assoc.Distinct fs) : (record [.fields fs] s).Closed :=
  .record none s (fun ht => by cases ht) h hd

theorem tail_eq_none {tail : Option (RowVar V)} (h : tail.isSome → False) : tail = none :=
  Option.not_isSome_iff_eq_none.mp h

/-! Variables, with their kinds. -/

mutual

def vars : Ty V → List (Kind × V)
  | .leaf _ _ => []
  | .var v _ => [(.type, v)]
  | .rowVar v _ => [(.row, v)]
  | .arrow d r _ => varsList d ++ vars r
  | .con _ as _ => varsList as
  | .record rows _ => varsRows rows

def varsList : List (Ty V) → List (Kind × V)
  | [] => []
  | t :: ts => vars t ++ varsList ts

def varsRows : List (Row V (Ty V)) → List (Kind × V)
  | [] => []
  | .fields fs :: rows => varsFields fs ++ varsRows rows
  | .var v :: rows => (.row, v.var) :: varsRows rows

def varsFields : List (String × Ty V) → List (Kind × V)
  | [] => []
  | (_, t) :: fs => vars t ++ varsFields fs

end

theorem mem_varsList {ts : List (Ty V)} {x : Kind × V} : x ∈ varsList ts ↔ ∃ t ∈ ts, x ∈ t.vars := by
  induction ts with
  | nil => simp [varsList]
  | cons t ts ih => simp [varsList, ih]

theorem mem_varsFields {fs : Assoc (Ty V)} {x : Kind × V} : x ∈ varsFields fs ↔ ∃ f ∈ fs, x ∈ f.2.vars := by
  induction fs with
  | nil => simp [varsFields]
  | cons f fs ih => simp [varsFields, ih]

/-! The monotype of a type. -/

mutual

def mono : Ty VarId → Mono
  | .leaf l _ => .leaf l
  | .var v _ => .var v
  | .rowVar v _ => .rowVar v
  | .arrow d r _ => .arrow (monoList d) (mono r)
  | .con n as _ => .con n (monoList as)
  | .record rows _ =>
      .record (Assoc.sort (Row.visible (monoRows rows))) ((Row.vars rows).head?.map RowVar.var)

def monoList : List (Ty VarId) → List Mono
  | [] => []
  | t :: ts => mono t :: monoList ts

def monoRows : List (Row VarId (Ty VarId)) → List (Row VarId Mono)
  | [] => []
  | .fields fs :: rows => .fields (monoFields fs) :: monoRows rows
  | .var v :: rows => .var v :: monoRows rows

def monoFields : List (String × Ty VarId) → List (String × Mono)
  | [] => []
  | (l, t) :: fs => (l, mono t) :: monoFields fs

end

section

attribute [local simp] mono

theorem monoList_eq (ts : List (Ty VarId)) : monoList ts = ts.map mono := by
  induction ts with
  | nil => rfl
  | cons t ts ih => simp only [monoList, ih, List.map_cons]

theorem monoFields_eq (fs : Assoc (Ty VarId)) : monoFields fs = Assoc.mapValues mono fs := by
  induction fs with
  | nil => rfl
  | cons f fs ih => simp only [monoFields, ih, Assoc.mapValues, List.map_cons]

@[simp] theorem mono_leaf (l : Leaf) (s : Option Node) : (leaf l s).mono = .leaf l := by simp

@[simp] theorem mono_var (v : VarId) (s : Option Node) : (var v s).mono = .var v := by simp

@[simp] theorem mono_rowVar (v : VarId) (s : Option Node) : (rowVar v s).mono = .rowVar v := by simp

@[simp] theorem mono_arrow (d : List (Ty VarId)) (r : Ty VarId) (s : Option Node) :
    (arrow d r s).mono = .arrow (d.map mono) r.mono := by simp [monoList_eq]

@[simp] theorem mono_con (n : String) (as : List (Ty VarId)) (s : Option Node) :
    (con n as s).mono = .con n (as.map mono) := by simp [monoList_eq]

end

theorem mono_record {fs : Assoc (Ty VarId)} (h : Assoc.Distinct fs) (tail : Option (RowVar VarId))
    (s : Option Node) :
    (record (Row.ofFields fs tail) s).mono =
      .record (Assoc.sort (Assoc.mapValues mono fs)) (tail.map RowVar.var) := by
  have he : Assoc.extend [] (Assoc.mapValues mono fs) = Assoc.mapValues mono fs :=
    Assoc.ofEntries_of_distinct (h.mapValues mono)
  cases tail with
  | none =>
      simp only [Row.ofFields, mono, monoRows, monoFields_eq, Row.visible, Row.visibleFrom, he, Row.vars,
        List.head?_nil, Option.map_none]
  | some v =>
      simp only [Row.ofFields, mono, monoRows, monoFields_eq, Row.visible, Row.visibleFrom, he, Row.vars,
        List.head?_cons, Option.map_some]

@[simp] theorem mono_withSrc (t : Ty VarId) (s : Option Node) : (t.withSrc s).mono = t.mono := by
  cases t <;> simp only [withSrc, mono]

@[simp] theorem mono_inPlaceOf (t : Ty VarId) (s : Option Node) : (t.inPlaceOf s).mono = t.mono :=
  mono_withSrc t _

theorem Shaped.proper {t : Ty VarId} (h : t.Closed) : t.mono.Proper := by
  induction h with
  | leaf l s => simpa using Mono.Proper.leaf l
  | var v s => simpa using Mono.Proper.var v
  | rowVar v s hr => exact hr.elim
  | arrow s _ _ ihd ihr =>
      rw [mono_arrow]
      refine .arrow ?_ ihr
      intro t ht
      obtain ⟨u, hu, rfl⟩ := List.mem_map.mp ht
      exact ihd u hu
  | con n s _ ih =>
      rw [mono_con]
      refine .con ?_
      intro t ht
      obtain ⟨u, hu, rfl⟩ := List.mem_map.mp ht
      exact ih u hu
  | record tail s ht _ hd ih =>
      rw [mono_record hd, tail_eq_none ht]
      refine .record ?_ (hd.mapValues mono).ordered_sort
      intro f hf
      obtain ⟨g, hg, rfl⟩ := List.mem_map.mp (Assoc.mem_sort.mp hf)
      exact ih g hg

/-- A closed type and its monotype have the same variables. -/
theorem Shaped.mem_vars_iff {t : Ty VarId} (h : t.Closed) {k : Kind} {v : VarId} :
    (k, v) ∈ t.vars ↔ k = .type ∧ v ∈ t.mono.vars := by
  induction h with
  | leaf l s => simp [vars]
  | var w s => simp [vars]
  | rowVar w s hr => exact hr.elim
  | arrow s _ _ ihd ihr =>
      rw [vars, List.mem_append, mem_varsList, ihr, mono_arrow, Mono.mem_vars_arrow]
      constructor
      · rintro (⟨t, ht, hv⟩ | ⟨hk, hv⟩)
        · obtain ⟨hk, hv⟩ := (ihd t ht).mp hv
          exact ⟨hk, .inl ⟨t.mono, List.mem_map.mpr ⟨t, ht, rfl⟩, hv⟩⟩
        · exact ⟨hk, .inr hv⟩
      · rintro ⟨hk, ⟨u, hu, hv⟩ | hv⟩
        · obtain ⟨t, ht, rfl⟩ := List.mem_map.mp hu
          exact .inl ⟨t, ht, (ihd t ht).mpr ⟨hk, hv⟩⟩
        · exact .inr ⟨hk, hv⟩
  | con n s _ ih =>
      rw [vars, mem_varsList, mono_con, Mono.mem_vars_con]
      constructor
      · rintro ⟨t, ht, hv⟩
        obtain ⟨hk, hv⟩ := (ih t ht).mp hv
        exact ⟨hk, t.mono, List.mem_map.mpr ⟨t, ht, rfl⟩, hv⟩
      · rintro ⟨hk, u, hu, hv⟩
        obtain ⟨t, ht, rfl⟩ := List.mem_map.mp hu
        exact ⟨t, ht, (ih t ht).mpr ⟨hk, hv⟩⟩
  | record tail s ht _ hd ih =>
      rw [mono_record hd, Mono.mem_vars_record, tail_eq_none ht]
      simp only [Row.ofFields, vars, varsRows, List.append_nil, mem_varsFields]
      constructor
      · rintro ⟨f, hf, hv⟩
        obtain ⟨hk, hv⟩ := (ih f hf).mp hv
        exact ⟨hk, (f.1, f.2.mono), Assoc.mem_sort.mpr (List.mem_map.mpr ⟨f, hf, rfl⟩), hv⟩
      · rintro ⟨hk, g, hg, hv⟩
        obtain ⟨f, hf, rfl⟩ := List.mem_map.mp (Assoc.mem_sort.mp hg)
        exact ⟨f, hf, (ih f hf).mpr ⟨hk, hv⟩⟩

end Ty

end ScriptTypes
