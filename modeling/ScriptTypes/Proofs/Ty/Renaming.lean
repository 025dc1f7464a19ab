import ScriptTypes.Proofs.Ty.Shape

/-! Renaming. The variables of a type get others, and the nodes it comes from may be moved as well. Records are laid out
in the same way before and after. -/

namespace ScriptTypes

theorem Ty.ind {V : Type} {P : Ty V → Prop} (leaf : ∀ l s, P (.leaf l s)) (var : ∀ v s, P (.var v s))
    (rowVar : ∀ v s, P (.rowVar v s)) (arrow : ∀ d r s, (∀ t ∈ d, P t) → P r → P (.arrow d r s))
    (con : ∀ n as s, (∀ t ∈ as, P t) → P (.con n as s))
    (record : ∀ rows s, (∀ fs, Row.fields fs ∈ rows → ∀ f ∈ fs, P f.2) → P (.record rows s)) (t : Ty V) : P t :=
  @Ty.rec V P (fun ts => ∀ t ∈ ts, P t) (fun rows => ∀ fs, Row.fields fs ∈ rows → ∀ f ∈ fs, P f.2)
    (fun row => ∀ fs, row = .fields fs → ∀ f ∈ fs, P f.2) (fun fs => ∀ f ∈ fs, P f.2) (fun f => P f.2)
    leaf var rowVar arrow con record
    (fun _ h => by cases h)
    (fun _ _ ht hts u hu => (List.mem_cons.mp hu).elim (fun h => h ▸ ht) (hts u))
    (fun _ h => by cases h)
    (fun _ _ hrow hrows fs hfs => (List.mem_cons.mp hfs).elim (fun h => hrow fs h.symm) (hrows fs))
    (fun _ hfs _ h => by cases h; exact hfs)
    (fun _ _ h => by cases h)
    (fun _ h => by cases h)
    (fun _ _ hf hfs g hg => (List.mem_cons.mp hg).elim (fun h => h ▸ hf) (hfs g))
    (fun _ _ h => h) t

/-- A renaming that keeps the variables of each kind apart keeps all apart. -/
theorem Kind.renamed_injective {V W : Type} {f : Kind → V → W} (hf : ∀ k, Function.Injective (f k)) :
    Function.Injective fun x : Kind × V => (x.1, f x.1 x.2) := by
  rintro ⟨k, v⟩ ⟨k', v'⟩ he
  simp only [Prod.mk.injEq] at he
  obtain ⟨rfl, he⟩ := he
  rw [hf k he]

/-! Rows. -/

def RowVar.relabel {V W : Type} (f : Kind → V → W) (g : Node → Node) (v : RowVar V) : RowVar W :=
  ⟨f .row v.var, v.src.map g⟩

def FlatRecord.map {V W α β : Type} (f : RowVar V → RowVar W) (g : α → β) (r : FlatRecord V α) : FlatRecord W β :=
  ⟨Assoc.mapValues g r.fields, r.tail.map f⟩

namespace Row

variable {V W α β : Type} (f : RowVar V → RowVar W) (g : α → β)

def map : Row V α → Row W β
  | .fields fs => .fields (Assoc.mapValues g fs)
  | .var v => .var (f v)

theorem vars_map (rows : List (Row V α)) : vars (rows.map (map f g)) = (vars rows).map f := by
  induction rows with
  | nil => rfl
  | cons row rows ih =>
      cases row with
      | fields fs => exact ih
      | var v => exact congrArg (f v :: ·) ih

theorem visibleFrom_map (seen : Assoc α) (rows : List (Row V α)) :
    visibleFrom (Assoc.mapValues g seen) (rows.map (map f g)) = Assoc.mapValues g (visibleFrom seen rows) := by
  induction rows generalizing seen with
  | nil => rfl
  | cons row rows ih =>
      cases row with
      | fields fs =>
          simp only [List.map_cons, map, visibleFrom]
          rw [← Assoc.mapValues_extend, ih]
      | var v => exact ih seen

theorem visible_map (rows : List (Row V α)) : visible (rows.map (map f g)) = Assoc.mapValues g (visible rows) :=
  visibleFrom_map f g [] rows

theorem flatten_map (rows : List (Row V α)) :
    flatten (rows.map (map f g)) =
      match flatten rows with
      | .ok r => .ok (r.map f g)
      | .error vs => .error (vs.map f) := by
  unfold flatten
  rw [vars_map, visible_map]
  cases vars rows with
  | nil => rfl
  | cons v vs =>
      cases vs with
      | nil => rfl
      | cons w ws => rfl

mutual

theorem merge_map : ∀ rows : List (Row V α), merge (rows.map (map f g)) = (merge rows).map (map f g)
  | [] => by simp only [List.map_nil, merge]
  | .var v :: rows => by simp only [List.map_cons, map, merge, merge_map rows]
  | .fields fs :: rows => by simp only [List.map_cons, map, merge, mergeAfter_map fs rows]

theorem mergeAfter_map : ∀ (fs : Assoc α) (rows : List (Row V α)),
    mergeAfter (Assoc.mapValues g fs) (rows.map (map f g)) = (mergeAfter fs rows).map (map f g)
  | fs, [] => by simp only [List.map_nil, List.map_cons, mergeAfter, map]
  | fs, .var v :: rows => by simp only [List.map_cons, map, mergeAfter, merge_map rows]
  | fs, .fields gs :: rows => by
      simp only [List.map_cons, map, mergeAfter]
      rw [← Assoc.mapValues_extend, mergeAfter_map (Assoc.extend fs gs) rows]

end

theorem ofFields_map (fs : Assoc α) (tail : Option (RowVar V)) :
    (ofFields fs tail).map (map f g) = ofFields (Assoc.mapValues g fs) (tail.map f) := by
  cases tail with
  | none => rfl
  | some v => rfl

end Row

/-! Types. -/

namespace Ty

section Relabel

variable {V W : Type} (f : Kind → V → W) (g : Node → Node)

mutual

/-- Rename variables, and the nodes that types come from. -/
def relabel : Ty V → Ty W
  | .leaf l s => .leaf l (s.map g)
  | .var v s => .var (f .type v) (s.map g)
  | .rowVar v s => .rowVar (f .row v) (s.map g)
  | .arrow d r s => .arrow (relabelList d) (relabel r) (s.map g)
  | .con n as s => .con n (relabelList as) (s.map g)
  | .record rows s => .record (relabelRows rows) (s.map g)

def relabelList : List (Ty V) → List (Ty W)
  | [] => []
  | t :: ts => relabel t :: relabelList ts

def relabelRows : List (Row V (Ty V)) → List (Row W (Ty W))
  | [] => []
  | .fields fs :: rows => .fields (relabelFields fs) :: relabelRows rows
  | .var v :: rows => .var (v.relabel f g) :: relabelRows rows

def relabelFields : List (String × Ty V) → List (String × Ty W)
  | [] => []
  | (l, t) :: fs => (l, relabel t) :: relabelFields fs

end

theorem relabelList_eq (ts : List (Ty V)) : relabelList f g ts = ts.map (relabel f g) := by
  induction ts with
  | nil => rfl
  | cons t ts ih => rw [relabelList, ih, List.map_cons]

theorem relabelFields_eq (fs : Assoc (Ty V)) : relabelFields f g fs = Assoc.mapValues (relabel f g) fs := by
  induction fs with
  | nil => rfl
  | cons e fs ih => rw [relabelFields, ih, Assoc.mapValues_cons]

@[simp] theorem relabel_leaf (l : Leaf) (s : Option Node) : (leaf l s).relabel f g = leaf l (s.map g) := by
  rw [relabel]

@[simp] theorem relabel_var (v : V) (s : Option Node) : (var v s).relabel f g = var (f .type v) (s.map g) := by
  rw [relabel]

@[simp] theorem relabel_rowVar (v : V) (s : Option Node) : (rowVar v s).relabel f g = rowVar (f .row v) (s.map g) := by
  rw [relabel]

@[simp] theorem relabel_arrow (d : List (Ty V)) (r : Ty V) (s : Option Node) :
    (arrow d r s).relabel f g = arrow (d.map (relabel f g)) (r.relabel f g) (s.map g) := by
  rw [relabel, relabelList_eq]

@[simp] theorem relabel_con (n : String) (as : List (Ty V)) (s : Option Node) :
    (con n as s).relabel f g = con n (as.map (relabel f g)) (s.map g) := by
  rw [relabel, relabelList_eq]

@[simp] theorem relabel_record (rows : List (Row V (Ty V))) (s : Option Node) :
    (record rows s).relabel f g = record (rows.map (Row.map (RowVar.relabel f g) (relabel f g))) (s.map g) := by
  have hrows : relabelRows f g rows = rows.map (Row.map (RowVar.relabel f g) (relabel f g)) := by
    induction rows with
    | nil => rfl
    | cons row rows ih =>
        cases row with
        | fields fs => rw [relabelRows, ih, relabelFields_eq, List.map_cons, Row.map]
        | var v => rw [relabelRows, ih, List.map_cons, Row.map]
  rw [relabel, hrows]

theorem relabel_array (t : Ty V) (s : Option Node) : (t.array s).relabel f g = (t.relabel f g).array (s.map g) :=
  relabel_con f g _ _ _

theorem relabel_toTy (v : RowVar V) : v.toTy.relabel f g = (v.relabel f g).toTy := relabel_rowVar f g _ _

theorem relabel_ofFields (fs : Assoc (Ty V)) (tail : Option (RowVar V)) :
    (ofFields fs tail).relabel f g = ofFields (Assoc.mapValues (relabel f g) fs) (tail.map (RowVar.relabel f g)) := by
  rw [ofFields, ofRows, relabel_record, ← Row.merge_map, Row.ofFields_map]
  rfl

@[simp] theorem src_relabel (t : Ty V) : (t.relabel f g).src = t.src.map g := by
  cases t <;> simp [src]

@[simp] theorem isVar_relabel (t : Ty V) : (t.relabel f g).isVar = t.isVar := by
  cases t <;> simp [isVar]

theorem withSrc_relabel (t : Ty V) (s : Option Node) :
    (t.relabel f g).withSrc (s.map g) = (t.withSrc s).relabel f g := by
  cases t <;> simp [withSrc]

theorem inPlaceOf_relabel (t : Ty V) (s : Option Node) :
    (t.relabel f g).inPlaceOf (s.map g) = (t.inPlaceOf s).relabel f g := by
  rw [inPlaceOf, inPlaceOf, src_relabel, ← Option.map_or, withSrc_relabel]

theorem relabel_id (t : Ty V) : t.relabel (fun _ v => v) id = t := by
  induction t using ind with
  | leaf l s => simp
  | var v s => simp
  | rowVar v s => simp
  | arrow d r s ihd ihr => rw [relabel_arrow, ihr, List.map_congr_left ihd, List.map_id', Option.map_id, id]
  | con n as s ih => rw [relabel_con, List.map_congr_left ih, List.map_id', Option.map_id, id]
  | record rows s ih =>
      rw [relabel_record, Option.map_id, id]
      refine congrArg (record · s) ((List.map_congr_left ?_).trans (List.map_id rows))
      intro row hrow
      cases row with
      | fields fs =>
          refine congrArg Row.fields ((List.map_congr_left ?_).trans (List.map_id fs))
          intro e he
          exact Prod.ext rfl (ih fs hrow e he)
      | var v => simp [Row.map, RowVar.relabel]

theorem relabel_relabel {X : Type} (f' : Kind → W → X) (g' : Node → Node) (t : Ty V) :
    (t.relabel f g).relabel f' g' = t.relabel (fun k v => f' k (f k v)) (g' ∘ g) := by
  induction t using ind with
  | leaf l s => simp
  | var v s => simp
  | rowVar v s => simp
  | arrow d r s ihd ihr =>
      simp only [relabel_arrow, List.map_map, Option.map_map, ihr]
      exact congrArg (arrow · _ _) (List.map_congr_left ihd)
  | con n as s ih =>
      simp only [relabel_con, List.map_map, Option.map_map]
      exact congrArg (con n · _) (List.map_congr_left ih)
  | record rows s ih =>
      simp only [relabel_record, List.map_map, Option.map_map]
      refine congrArg (record · _) (List.map_congr_left ?_)
      intro row hrow
      cases row with
      | fields fs =>
          simp only [Function.comp_apply, Row.map, Assoc.mapValues, List.map_map]
          exact congrArg Row.fields (List.map_congr_left fun e he => Prod.ext rfl (ih fs hrow e he))
      | var v => simp [Row.map, RowVar.relabel]

theorem mem_varsRows {rows : List (Row V (Ty V))} {x : Kind × V} :
    x ∈ varsRows rows ↔ (∃ fs, .fields fs ∈ rows ∧ x ∈ varsFields fs) ∨ ∃ v, .var v ∈ rows ∧ x = (.row, v.var) := by
  induction rows with
  | nil => simp [varsRows]
  | cons row rows ih =>
      cases row with
      | fields fs => simp [varsRows, ih, or_and_right, exists_or, or_assoc]
      | var v => simp [varsRows, ih, or_and_right, exists_or, or_left_comm]

mutual

/-- The variables of a renamed type are those of the type, renamed. -/
theorem vars_relabel (t : Ty V) : (t.relabel f g).vars = t.vars.map fun x => (x.1, f x.1 x.2) := by
  match t with
  | .leaf l s | .var v s | .rowVar v s => rfl
  | .arrow d r s => rw [relabel, vars, vars, varsList_relabel d, vars_relabel r, List.map_append]
  | .con n as s => rw [relabel, vars, vars, varsList_relabel as]
  | .record rows s => rw [relabel, vars, vars, varsRows_relabel rows]

theorem varsList_relabel (ts : List (Ty V)) :
    varsList (relabelList f g ts) = (varsList ts).map fun x => (x.1, f x.1 x.2) := by
  match ts with
  | [] => rfl
  | t :: ts => rw [relabelList, varsList, varsList, vars_relabel t, varsList_relabel ts, List.map_append]

theorem varsRows_relabel (rows : List (Row V (Ty V))) :
    varsRows (relabelRows f g rows) = (varsRows rows).map fun x => (x.1, f x.1 x.2) := by
  match rows with
  | [] => rfl
  | .fields fs :: rows =>
      rw [relabelRows, varsRows, varsRows, varsFields_relabel fs, varsRows_relabel rows, List.map_append]
  | .var v :: rows => rw [relabelRows, varsRows, varsRows, varsRows_relabel rows, List.map_cons, RowVar.relabel]

theorem varsFields_relabel (fs : List (String × Ty V)) :
    varsFields (relabelFields f g fs) = (varsFields fs).map fun x => (x.1, f x.1 x.2) := by
  match fs with
  | [] => rfl
  | (l, t) :: fs => rw [relabelFields, varsFields, varsFields, vars_relabel t, varsFields_relabel fs, List.map_append]

end

/-! Renaming without a change of nodes, as it is run. -/

mutual

theorem map_eq_relabel (t : Ty V) : t.map f = t.relabel f id := by
  match t with
  | .leaf l s => rw [relabel, Option.map_id, id]; rfl
  | .var v s => rw [relabel, Option.map_id, id]; rfl
  | .rowVar v s => rw [relabel, Option.map_id, id]; rfl
  | .arrow d r s =>
      rw [relabel, Option.map_id, id, ← map_eq_relabel r, ← mapVarsList_eq_relabel d]
      rfl
  | .con n as s =>
      rw [relabel, Option.map_id, id, ← mapVarsList_eq_relabel as]
      rfl
  | .record rows s =>
      rw [relabel, Option.map_id, id, ← mapVarsRows_eq_relabel rows]
      rfl

theorem mapVarsList_eq_relabel (ts : List (Ty V)) :
    Id.run (mapVarsList (fun k v => pure (f k v)) ts) = relabelList f id ts := by
  match ts with
  | [] => rfl
  | t :: ts =>
      rw [relabelList, ← map_eq_relabel t, ← mapVarsList_eq_relabel ts]
      rfl

theorem mapVarsRows_eq_relabel (rows : List (Row V (Ty V))) :
    Id.run (mapVarsRows (fun k v => pure (f k v)) rows) = relabelRows f id rows := by
  match rows with
  | [] => rfl
  | .fields fs :: rows =>
      rw [relabelRows, ← mapVarsFields_eq_relabel fs, ← mapVarsRows_eq_relabel rows]
      rfl
  | .var v :: rows =>
      rw [relabelRows, RowVar.relabel, Option.map_id, id, ← mapVarsRows_eq_relabel rows]
      rfl

theorem mapVarsFields_eq_relabel (fs : List (String × Ty V)) :
    Id.run (mapVarsFields (fun k v => pure (f k v)) fs) = relabelFields f id fs := by
  match fs with
  | [] => rfl
  | (l, t) :: fs =>
      rw [relabelFields, ← map_eq_relabel t, ← mapVarsFields_eq_relabel fs]
      rfl

end

variable {f g}

/-- Only the variables of a type matter. -/
theorem relabel_congr {h : Kind → V → W} {t : Ty V} (hvars : ∀ x ∈ t.vars, f x.1 x.2 = h x.1 x.2) :
    t.relabel f g = t.relabel h g := by
  induction t using ind with
  | leaf l s => simp
  | var v s => simpa using hvars (.type, v) (by simp [vars])
  | rowVar v s => simpa using hvars (.row, v) (by simp [vars])
  | arrow d r s ihd ihr =>
      simp only [vars, List.mem_append, mem_varsList] at hvars
      rw [relabel_arrow, relabel_arrow, ihr fun x hx => hvars x (.inr hx)]
      refine congrArg (arrow · _ _) (List.map_congr_left ?_)
      intro t ht
      exact ihd t ht fun x hx => hvars x (.inl ⟨t, ht, hx⟩)
  | con n as s ih =>
      simp only [vars, mem_varsList] at hvars
      rw [relabel_con, relabel_con]
      refine congrArg (con n · _) (List.map_congr_left ?_)
      intro t ht
      exact ih t ht fun x hx => hvars x ⟨t, ht, hx⟩
  | record rows s ih =>
      simp only [vars, mem_varsRows, mem_varsFields] at hvars
      rw [relabel_record, relabel_record]
      refine congrArg (record · _) (List.map_congr_left ?_)
      intro row hrow
      cases row with
      | fields fs =>
          refine congrArg Row.fields (List.map_congr_left ?_)
          intro e he
          exact Prod.ext rfl (ih fs hrow e he fun x hx => hvars x (.inl ⟨fs, hrow, e, he, hx⟩))
      | var v =>
          exact congrArg (fun w => Row.var ⟨w, v.src.map g⟩) (hvars (.row, v.var) (.inr ⟨v, hrow, rfl⟩))

theorem mem_vars_relabel {t : Ty V} {x : Kind × W} (h : x ∈ (t.relabel f g).vars) : ∃ v, x = (x.1, f x.1 v) := by
  rw [vars_relabel] at h
  obtain ⟨y, -, rfl⟩ := List.mem_map.mp h
  exact ⟨y.2, rfl⟩

theorem Shaped.relabel {rows : Prop} {t : Ty V} (h : t.Shaped rows) : (t.relabel f g).Shaped rows := by
  induction h with
  | leaf l s =>
      rw [relabel_leaf]
      exact .leaf l _
  | var v s =>
      rw [relabel_var]
      exact .var _ _
  | rowVar v s hr =>
      rw [relabel_rowVar]
      exact .rowVar _ _ hr
  | arrow s _ _ ihd ihr =>
      rw [relabel_arrow]
      exact .arrow _ (List.forall_mem_map.mpr ihd) ihr
  | con n s _ ih =>
      rw [relabel_con]
      exact .con n _ (List.forall_mem_map.mpr ih)
  | record tail s ht _ hd ih =>
      rw [relabel_record, Row.ofFields_map]
      refine .record _ _ ?_ (List.forall_mem_map.mpr ih) (hd.mapValues _)
      rw [Option.isSome_map]
      exact ht

end Relabel

theorem mono_relabel {t : Ty VarId} (ht : t.Closed) (f : Kind → VarId → VarId) (g : Node → Node) :
    (t.relabel f g).mono = t.mono.subst fun v => .var (f .type v) := by
  induction ht with
  | leaf l s => simp
  | var v s => simp
  | rowVar v s hr => exact hr.elim
  | arrow s _ _ ihd ihr =>
      simp only [relabel_arrow, mono_arrow, Mono.subst_arrow, ihr, List.map_map]
      exact congrArg (Mono.arrow · _) (List.map_congr_left ihd)
  | con n s _ ih =>
      simp only [relabel_con, mono_con, Mono.subst_con, List.map_map]
      exact congrArg (Mono.con n) (List.map_congr_left ih)
  | record tail s ht _ hd ih =>
      rw [tail_eq_none ht, relabel_record, Row.ofFields_map, mono_record (hd.mapValues _), mono_record hd,
        Mono.subst_record, ← Assoc.sort_mapValues]
      refine congrArg (fun fs => Mono.record (Assoc.sort fs) none) ?_
      simp only [Assoc.mapValues, List.map_map]
      exact List.map_congr_left fun e he => congrArg (Prod.mk e.1) (ih e he)

end Ty

end ScriptTypes
