import ScriptTypes.Proofs.Ty.Binding

/-! Bindings of row variables. A record is opened at its row variable: what the variable becomes gives further fields
below those of the record, and a new tail. So the shape of records is kept by bindings of both kinds. -/

namespace ScriptTypes

theorem Binding.run_hits (b : Binding VarId) (k : Kind) (v : VarId) :
    Id.run (b.hits k v) = decide (b.kind = k ∧ v = b.var) := by
  rw [hits]
  by_cases hk : b.kind = k
  · rw [if_pos hk]
    change (b.var == v) = _
    by_cases hv : v = b.var
    · simp [hk, hv]
    · simp [hk, hv, Ne.symm hv]
  · rw [if_neg hk]
    simp [hk]

/-- The rows that a row becomes under a binding. -/
def Binding.substRow (b : Binding VarId) : Row VarId (Ty VarId) → List (Row VarId (Ty VarId))
  | .fields fs => [.fields (Assoc.mapValues (fun t => Id.run (t.subst b)) fs)]
  | .var v => if b.kind = .row ∧ v.var = b.var then b.rowsFor v else [.var v]

namespace Ty

/-- What a type that comes in the place of a row variable brings into the record of that variable. -/
def rest {V : Type} (v : RowVar V) : Ty V → FlatRecord V (Ty V)
  | .record rows _ => ⟨Row.visible rows, (Row.vars rows).head?⟩
  | .rowVar w s => ⟨[], some ⟨w, s⟩⟩
  | _ => ⟨[], some v⟩

theorem rest_record {V : Type} {fs : Assoc (Ty V)} (h : Assoc.Distinct fs) (v : RowVar V)
    (tail : Option (RowVar V)) (s : Option Node) : rest v (.record (Row.ofFields fs tail) s) = ⟨fs, tail⟩ := by
  have he : Assoc.extend [] fs = fs := Assoc.ofEntries_of_distinct h
  cases tail with
  | none => simp only [rest, Row.ofFields, Row.visible, Row.visibleFrom, he, Row.vars, List.head?_nil]
  | some w => simp only [rest, Row.ofFields, Row.visible, Row.visibleFrom, he, Row.vars, List.head?_cons]

/-- What comes into a record of canonical shape has that shape. -/
theorem Shaped.rest {V : Type} {t : Ty V} (h : t.Canonical) (v : RowVar V) :
    Assoc.Distinct (t.rest v).fields ∧ ∀ f ∈ (t.rest v).fields, f.2.Canonical := by
  cases h with
  | record tail s _ hfs hd =>
      rw [rest_record hd]
      exact ⟨hd, hfs⟩
  | leaf | var | rowVar | arrow | con => exact ⟨Assoc.distinct_nil, by simp [Ty.rest]⟩

section Subst

variable (b : Binding VarId)

theorem run_subst_type (v : VarId) (s : Option Node) :
    Id.run ((var v s).subst b) = if b.kind = .type ∧ v = b.var then b.value.inPlaceOf s else var v s := by
  rw [subst, Id.run_bind, Binding.run_hits]
  by_cases h : b.kind = .type ∧ v = b.var
  · rw [if_pos (decide_eq_true h), if_pos h]
    rfl
  · rw [if_neg (by simpa using h), if_neg h]
    rfl

theorem run_subst_row (v : VarId) (s : Option Node) :
    Id.run ((rowVar v s).subst b) = if b.kind = .row ∧ v = b.var then b.value.inPlaceOf s else rowVar v s := by
  rw [subst, Id.run_bind, Binding.run_hits]
  by_cases h : b.kind = .row ∧ v = b.var
  · rw [if_pos (decide_eq_true h), if_pos h]
    rfl
  · rw [if_neg (by simpa using h), if_neg h]
    rfl

theorem run_substRows_eq (rows : List (Row VarId (Ty VarId))) :
    Id.run (substRows b rows) = rows.flatMap b.substRow := by
  induction rows with
  | nil => rfl
  | cons row rows ih =>
      rw [List.flatMap_cons, ← ih]
      cases row with
      | fields fs =>
          rw [Binding.substRow, ← run_substFields]
          rfl
      | var v =>
          rw [Binding.substRow, substRows]
          change Id.run (if Id.run (b.hits .row v.var) = true then _ else _) = _
          rw [Binding.run_hits]
          by_cases h : b.kind = .row ∧ v.var = b.var
          · rw [if_pos (decide_eq_true h), if_pos h]
            rfl
          · rw [if_neg (by simpa using h), if_neg h]
            rfl

theorem run_subst_rows (rows : List (Row VarId (Ty VarId))) (s : Option Node) :
    Id.run ((record rows s).subst b) = record (Row.merge (rows.flatMap b.substRow)) s := by
  rw [← run_substRows_eq]
  rfl

/-- A closed record stays closed. -/
theorem run_subst_shut (fs : Assoc (Ty VarId)) (s : Option Node) :
    Id.run ((record (Row.ofFields fs none) s).subst b) =
      record (Row.ofFields (Assoc.mapValues (fun t => Id.run (t.subst b)) fs) none) s := by
  rw [← run_substFields, ← Row.merge_ofFields (Id.run (substFields b fs)) none]
  rfl

/-- The rows that a binding puts in the place of a row variable, before the fields of the record. -/
theorem merge_rowsFor {b : Binding VarId} (hb : b.value.Canonical) (v : RowVar VarId) {fs : Assoc (Ty VarId)}
    (hfs : Assoc.Distinct fs) :
    Row.merge (b.rowsFor v ++ [.fields fs]) =
      Row.ofFields (Assoc.extend ((b.value.inPlaceOf v.src).rest v).fields fs) ((b.value.inPlaceOf v.src).rest v).tail := by
  have he : Assoc.extend [] fs = fs := Assoc.ofEntries_of_distinct hfs
  obtain ⟨k, x, o, value⟩ := b
  cases hb with
  | @record gs tail s _ _ hd =>
      rw [inPlaceOf, withSrc, rest_record hd]
      cases tail with
      | none => rfl
      | some w => rfl
  | leaf | var | rowVar | arrow | con =>
      simp only [Binding.rowsFor, inPlaceOf, withSrc, Ty.src, Ty.rest, he]
      rfl

/-- An open record gets what its row variable becomes. -/
theorem run_subst_open {b : Binding VarId} (hb : b.value.Canonical) {fs : Assoc (Ty VarId)}
    (hfs : Assoc.Distinct fs) (v : RowVar VarId) (s : Option Node) :
    Id.run ((record (Row.ofFields fs (some v)) s).subst b) =
      record (Row.ofFields
        (Assoc.extend ((Id.run (v.toTy.subst b)).rest v).fields
          (Assoc.mapValues (fun t => Id.run (t.subst b)) fs))
        ((Id.run (v.toTy.subst b)).rest v).tail) s := by
  have hd := hfs.mapValues fun t => Id.run (t.subst b)
  rw [RowVar.toTy, run_subst_row]
  have hrows : Id.run (substRows b (Row.ofFields fs (some v))) =
      (if b.kind = .row ∧ v.var = b.var then b.rowsFor v else [.var v]) ++
        [.fields (Assoc.mapValues (fun t => Id.run (t.subst b)) fs)] := by
    rw [← run_substFields, Row.ofFields, substRows, Id.run_bind, Binding.run_hits]
    by_cases h : b.kind = .row ∧ v.var = b.var
    · rw [if_pos (decide_eq_true h), if_pos h]
      rfl
    · rw [if_neg (by simpa using h), if_neg h]
      rfl
  change record (Row.merge (Id.run (substRows b (Row.ofFields fs (some v))))) s = _
  rw [hrows]
  by_cases h : b.kind = .row ∧ v.var = b.var
  · rw [if_pos h, if_pos h, merge_rowsFor hb v hd]
  · rw [if_neg h, if_neg h, Ty.rest]
    simp only [show Assoc.extend [] _ = _ from Assoc.ofEntries_of_distinct hd]
    rfl

/-- A binding of either kind to a canonical type keeps the canonical shape. -/
theorem canonical_subst {b : Binding VarId} (hb : b.value.Canonical) {t : Ty VarId} (ht : t.Canonical) :
    (Id.run (t.subst b)).Canonical := by
  induction ht with
  | leaf l s => exact .leaf l s
  | var v s =>
      rw [run_subst_type]
      split
      · exact hb.withSrc _
      · exact .var v s
  | rowVar v s h =>
      rw [run_subst_row]
      split
      · exact hb.withSrc _
      · exact .rowVar v s h
  | arrow s _ _ ihd ihr =>
      rw [run_subst_arrow]
      refine .arrow s ?_ ihr
      intro t ht
      obtain ⟨u, hu, rfl⟩ := List.mem_map.mp ht
      exact ihd u hu
  | con n s _ ih =>
      rw [run_subst_con]
      refine .con n s ?_
      intro t ht
      obtain ⟨u, hu, rfl⟩ := List.mem_map.mp ht
      exact ih u hu
  | @record fs tail s _ _ hd ih =>
      have hfs : ∀ f ∈ Assoc.mapValues (fun t => Id.run (t.subst b)) fs, f.2.Canonical := by
        intro f hf
        obtain ⟨t, ht, he⟩ := Assoc.mem_mapValues.mp hf
        rw [← he]
        exact ih _ ht
      cases tail with
      | none =>
          rw [run_subst_shut]
          exact .record none s (fun _ => trivial) hfs (hd.mapValues _)
      | some v =>
          have hrow : (Id.run (v.toTy.subst b)).Canonical := by
            rw [RowVar.toTy, run_subst_row]
            split
            · exact hb.withSrc _
            · exact .rowVar v.var v.src trivial
          obtain ⟨hdist, hrest⟩ := hrow.rest v
          rw [run_subst_open hb hd]
          refine .record _ s (fun _ => trivial) ?_ (hdist.extend _)
          intro f hf
          exact (Assoc.mem_of_mem_extend hf).elim (hrest f) (hfs f)

theorem canonical_under {bs : List (Binding VarId)} (hbs : ∀ b ∈ bs, b.value.Canonical) {t : Ty VarId}
    (ht : t.Canonical) : (t.under bs).Canonical := by
  induction bs generalizing t with
  | nil => rwa [under_nil]
  | cons b bs ih =>
      obtain ⟨hb, hbs⟩ := List.forall_mem_cons.mp hbs
      rw [under_cons]
      exact ih hbs (canonical_subst hb ht)

end Subst

end Ty

end ScriptTypes
