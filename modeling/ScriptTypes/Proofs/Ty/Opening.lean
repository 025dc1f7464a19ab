import ScriptTypes.Proofs.Ty.Kinds

/-! Records under bindings. The fields of a record stay in sight, and below them comes what its row variable brings. Two
records are the same when they show the same type at every label and end in the same variable, so types that are the
same stay so under bindings. -/

namespace ScriptTypes

namespace Ty

/-- Two records are the same when all labels and the row variable are. -/
theorem mono_record_eq_iff {fs gs : Assoc (Ty VarId)} (hf : Assoc.Distinct fs) (hg : Assoc.Distinct gs)
    {v w : Option (RowVar VarId)} {s s' : Option Node} :
    (record (Row.ofFields fs v) s).mono = (record (Row.ofFields gs w) s').mono ↔
      (∀ k, (Assoc.get? fs k).map mono = (Assoc.get? gs k).map mono) ∧ v.map RowVar.var = w.map RowVar.var := by
  rw [mono_record hf, mono_record hg, Mono.record.injEq, Assoc.sort_eq_iff (hf.mapValues mono) (hg.mapValues mono)]
  simp only [Assoc.get?_mapValues]

/-- A type that stands for a row brings the same into every record. -/
theorem HasKind.rest_eq {t : Ty VarId} (h : t.HasKind .row) (v w : RowVar VarId) : t.rest v = t.rest w := by
  rcases h.isRow with ⟨u, s, rfl⟩ | ⟨rows, s, rfl⟩
  · rfl
  · rfl

/-- Types that are the same bring the same into a record. -/
theorem rest_congr {t u : Ty VarId} (ht : t.Canonical) (hu : u.Canonical) (h : t.mono = u.mono) {v w : RowVar VarId}
    (hv : v.var = w.var) :
    (∀ k, (Assoc.get? (t.rest v).fields k).map mono = (Assoc.get? (u.rest w).fields k).map mono) ∧
      (t.rest v).tail.map RowVar.var = (u.rest w).tail.map RowVar.var := by
  cases ht with
  | record tail s _ _ hd =>
      cases hu with
      | record tail' s' _ _ hd' =>
          rw [rest_record hd, rest_record hd']
          exact (mono_record_eq_iff hd hd').mp h
      | leaf | var | rowVar | arrow | con => simp [mono_record hd] at h
  | rowVar x s =>
      cases hu with
      | rowVar y s' =>
          simp only [mono_rowVar, Mono.rowVar.injEq] at h
          simp [rest, h]
      | record tail' s' _ _ hd' => simp [mono_record hd'] at h
      | leaf | var | arrow | con => simp at h
  | leaf | var | arrow | con =>
      cases hu with
      | record tail' s' _ _ hd' => simp [mono_record hd'] at h
      | rowVar => simp at h
      | leaf | var | arrow | con => simp [rest, hv]

/-- What is below the fields of a record, under bindings. -/
def restUnder (bs : List (Binding VarId)) : Option (RowVar VarId) → FlatRecord VarId (Ty VarId)
  | none => ⟨[], none⟩
  | some v => (v.toTy.under bs).rest v

theorem under_shut (fs : Assoc (Ty VarId)) (s : Option Node) (bs : List (Binding VarId)) :
    (record (Row.ofFields fs none) s).under bs = record (Row.ofFields (Assoc.mapValues (·.under bs) fs) none) s := by
  induction bs generalizing fs with
  | nil => simp only [under_nil, Assoc.mapValues, List.map_id']
  | cons b bs ih =>
      rw [under_cons, run_subst_shut, ih]
      simp only [under_cons, Assoc.mapValues, List.map_map, Function.comp_def]

section Bindings

variable {bs : List (Binding VarId)} (hbs : ∀ b ∈ bs, b.value.Canonical ∧ b.Kinded)

include hbs

/-- What a row variable brings, it brings through what it is bound to first. -/
theorem restUnder_cons {b : Binding VarId} (hb : b.Kinded) (v w : RowVar VarId) :
    restUnder (b :: bs) (some v) = ((Id.run (v.toTy.subst b)).under bs).rest w := by
  have hkind : (Id.run (v.toTy.subst b)).HasKind .row := .subst hb (.rowVar v.var v.src)
  rw [restUnder, under_cons]
  exact (hkind.under fun b hb => (hbs b hb).2).rest_eq v w

/-- The fields of an open record stay, and what the row variable brings comes below them. -/
theorem under_open {fs : Assoc (Ty VarId)} (hd : Assoc.Distinct fs) (v : RowVar VarId) (s : Option Node) :
    ∃ gs, Assoc.Distinct gs ∧ (record (Row.ofFields fs (some v)) s).under bs =
        record (Row.ofFields gs (restUnder bs (some v)).tail) s ∧
      ∀ k, Assoc.get? gs k = ((Assoc.get? fs k).map (·.under bs)).or (Assoc.get? (restUnder bs (some v)).fields k) := by
  induction bs generalizing fs v s with
  | nil =>
      refine ⟨fs, hd, rfl, ?_⟩
      intro k
      simp [restUnder, RowVar.toTy, rest, Assoc.get?, under_nil]
  | cons b bs ih =>
      obtain ⟨⟨hb, hkb⟩, hbs⟩ := List.forall_mem_cons.mp hbs
      have hd₁ := hd.mapValues fun t => Id.run (t.subst b)
      have hrow : (Id.run (v.toTy.subst b)).HasKind .row := .subst hkb (.rowVar v.var v.src)
      have hcan : (Id.run (v.toTy.subst b)).Canonical := canonical_subst hb (.rowVar v.var v.src trivial)
      have hrest := fun w => restUnder_cons hbs hkb v w
      rw [under_cons, run_subst_open hb hd]
      generalize Id.run (v.toTy.subst b) = t at hrow hcan hrest ⊢
      cases hcan with
      | rowVar w s' =>
          -- The variable becomes another one, and there are no new fields.
          obtain ⟨gs, hgs, hrec, hget⟩ := ih hbs hd₁ ⟨w, s'⟩ s
          have he : restUnder bs (some ⟨w, s'⟩) = restUnder (b :: bs) (some v) := (hrest _).symm
          rw [he] at hrec hget
          refine ⟨gs, hgs, ?_, ?_⟩
          · rw [← hrec, rest]
            exact congrArg (fun fs => (record (Row.ofFields fs _) s).under bs) (Assoc.ofEntries_of_distinct hd₁)
          · intro k
            rw [hget, Assoc.get?_mapValues, Option.map_map]
            rfl
      | @record hs tail s' _ _ hdh =>
          have hfields : ∀ k, Assoc.get? (Assoc.extend hs (Assoc.mapValues (fun t => Id.run (t.subst b)) fs)) k =
              ((Assoc.get? fs k).map fun t => Id.run (t.subst b)).or (Assoc.get? hs k) := by
            intro k
            rw [Assoc.get?_extend _ hd₁, Assoc.get?_mapValues]
          rw [rest_record hdh]
          cases tail with
          | none =>
              have he : restUnder (b :: bs) (some v) = ⟨Assoc.mapValues (·.under bs) hs, none⟩ := by
                rw [hrest v, under_shut, rest_record (hdh.mapValues _)]
              refine ⟨_, (hdh.extend (Assoc.mapValues (fun t => Id.run (t.subst b)) fs)).mapValues (·.under bs), ?_, ?_⟩
              · rw [he]
                exact under_shut _ s bs
              · intro k
                rw [he, Assoc.get?_mapValues, hfields, Assoc.get?_mapValues]
                cases Assoc.get? fs k <;> rfl
          | some w =>
              obtain ⟨gs, hgs, hrec, hget⟩ := ih hbs (hdh.extend (Assoc.mapValues (fun t => Id.run (t.subst b)) fs)) w s
              obtain ⟨hs', hhs, hrec', hget'⟩ := ih hbs hdh w s'
              have he : restUnder (b :: bs) (some v) = ⟨hs', (restUnder bs (some w)).tail⟩ := by
                rw [hrest v, hrec', rest_record hhs]
              refine ⟨gs, hgs, ?_, ?_⟩
              · rw [he]
                exact hrec
              · intro k
                rw [he, hget, hfields, hget']
                cases Assoc.get? fs k <;> rfl
      | leaf | var | arrow | con => cases hrow

/-- The record that a record comes to under bindings. -/
theorem under_ofFields {fs : Assoc (Ty VarId)} (hd : Assoc.Distinct fs) (tail : Option (RowVar VarId))
    (s : Option Node) :
    ∃ gs, Assoc.Distinct gs ∧ (record (Row.ofFields fs tail) s).under bs =
        record (Row.ofFields gs (restUnder bs tail).tail) s ∧
      ∀ k, Assoc.get? gs k = ((Assoc.get? fs k).map (·.under bs)).or (Assoc.get? (restUnder bs tail).fields k) := by
  cases tail with
  | none =>
      refine ⟨_, hd.mapValues _, under_shut fs s bs, ?_⟩
      intro k
      rw [Assoc.get?_mapValues, restUnder, Assoc.get?, Option.or_none]
  | some v => exact under_open hbs hd v s

/-- Records are the same under bindings when all labels are, those of the record before those that are below. -/
theorem mono_under_record_eq_iff {fs gs : Assoc (Ty VarId)} (hf : Assoc.Distinct fs) (hg : Assoc.Distinct gs)
    {v w : Option (RowVar VarId)} {s s' : Option Node} :
    ((record (Row.ofFields fs v) s).under bs).mono = ((record (Row.ofFields gs w) s').under bs).mono ↔
      (∀ k, (((Assoc.get? fs k).map (·.under bs)).or (Assoc.get? (restUnder bs v).fields k)).map mono =
        (((Assoc.get? gs k).map (·.under bs)).or (Assoc.get? (restUnder bs w).fields k)).map mono) ∧
      (restUnder bs v).tail.map RowVar.var = (restUnder bs w).tail.map RowVar.var := by
  obtain ⟨fs', hf', hfrec, hfget⟩ := under_ofFields hbs hf v s
  obtain ⟨gs', hg', hgrec, hgget⟩ := under_ofFields hbs hg w s'
  rw [hfrec, hgrec, mono_record_eq_iff hf' hg']
  simp only [hfget, hgget]

end Bindings

theorem map_mono_congr {f : Ty VarId → Ty VarId} {ts us : List (Ty VarId)} (h : ts.map mono = us.map mono)
    (hf : ∀ t ∈ ts, ∀ u ∈ us, t.mono = u.mono → (f t).mono = (f u).mono) :
    (ts.map f).map mono = (us.map f).map mono := by
  induction ts generalizing us with
  | nil =>
      cases us with
      | nil => rfl
      | cons u us => cases h
  | cons t ts ih =>
      cases us with
      | nil => cases h
      | cons u us =>
          simp only [List.map_cons, List.cons.injEq] at h ⊢
          refine ⟨hf t List.mem_cons_self u List.mem_cons_self h.1, ih h.2 ?_⟩
          intro t ht u hu
          exact hf t (List.mem_cons_of_mem _ ht) u (List.mem_cons_of_mem _ hu)

theorem get?_map_congr {f : Ty VarId → Ty VarId} {fs gs : Assoc (Ty VarId)}
    (h : ∀ k, (Assoc.get? fs k).map mono = (Assoc.get? gs k).map mono)
    (hf : ∀ k t u, Assoc.get? fs k = some t → Assoc.get? gs k = some u → t.mono = u.mono → (f t).mono = (f u).mono)
    (k : String) : ((Assoc.get? fs k).map f).map mono = ((Assoc.get? gs k).map f).map mono := by
  have hk := h k
  have hfk := hf k
  cases hfs : Assoc.get? fs k with
  | none =>
      cases hgs : Assoc.get? gs k with
      | none => rfl
      | some u => simp [hfs, hgs] at hk
  | some t =>
      cases hgs : Assoc.get? gs k with
      | none => simp [hfs, hgs] at hk
      | some u =>
          simp only [hfs, hgs, Option.map_some, Option.some.injEq] at hk ⊢
          exact hfk t u hfs hgs hk

theorem mono_subst_row {v w : VarId} (h : v = w) (b : Binding VarId) (s s' : Option Node) :
    (Id.run ((rowVar v s).subst b)).mono = (Id.run ((rowVar w s').subst b)).mono := by
  rw [run_subst_row, run_subst_row, h]
  split
  · rw [mono_inPlaceOf, mono_inPlaceOf]
  · rw [mono_rowVar, mono_rowVar]

/-- Types that are the same stay the same under a binding. -/
theorem mono_subst_congr {b : Binding VarId} (hb : b.value.Canonical) {t u : Ty VarId} (ht : t.Canonical)
    (hu : u.Canonical) (h : t.mono = u.mono) : (Id.run (t.subst b)).mono = (Id.run (u.subst b)).mono := by
  induction ht generalizing u with
  | leaf l s => cases hu <;> simp_all [mono_record, run_subst_leaf]
  | var v s =>
      cases hu with
      | var w s' =>
          simp only [mono_var, Mono.var.injEq] at h
          rw [run_subst_type, run_subst_type, h]
          split
          · rw [mono_inPlaceOf, mono_inPlaceOf]
          · rfl
      | record tail' s' _ _ hd' => simp [mono_record hd'] at h
      | leaf | rowVar | arrow | con => simp at h
  | rowVar v s =>
      cases hu with
      | rowVar w s' =>
          simp only [mono_rowVar, Mono.rowVar.injEq] at h
          exact mono_subst_row h b s s'
      | record tail' s' _ _ hd' => simp [mono_record hd'] at h
      | leaf | var | arrow | con => simp at h
  | arrow s _ _ ihd ihr =>
      cases hu with
      | arrow s' hd' hr' =>
          simp only [mono_arrow, Mono.arrow.injEq] at h
          rw [run_subst_arrow, run_subst_arrow, mono_arrow, mono_arrow, ihr hr' h.2]
          rw [map_mono_congr h.1 fun t ht u hu => ihd t ht (hd' u hu)]
      | record tail' s' _ _ hd' => simp [mono_record hd'] at h
      | leaf | var | rowVar | con => simp at h
  | con n s _ ih =>
      cases hu with
      | con n' s' h' =>
          simp only [mono_con, Mono.con.injEq] at h
          rw [run_subst_con, run_subst_con, mono_con, mono_con, h.1]
          rw [map_mono_congr h.2 fun t ht u hu => ih t ht (h' u hu)]
      | record tail' s' _ _ hd' => simp [mono_record hd'] at h
      | leaf | var | rowVar | arrow => simp at h
  | record tail s _ hc hd ih =>
      cases hu with
      | record tail' s' _ hc' hd' =>
          obtain ⟨hget, htail⟩ := (mono_record_eq_iff hd hd').mp h
          have hfields := get?_map_congr (f := fun t => Id.run (t.subst b)) hget fun k t u ht hu =>
            ih _ (Assoc.mem_of_get? ht) (hc' _ (Assoc.mem_of_get? hu))
          cases tail with
          | none =>
              cases tail' with
              | some w => cases htail
              | none =>
                  rw [run_subst_shut, run_subst_shut, mono_record_eq_iff (hd.mapValues _) (hd'.mapValues _)]
                  simp only [Assoc.get?_mapValues]
                  exact ⟨hfields, trivial⟩
          | some v =>
              cases tail' with
              | none => cases htail
              | some w =>
                  have hvw : v.var = w.var := Option.some.inj htail
                  have hrow : ∀ v : RowVar VarId, (Id.run (v.toTy.subst b)).Canonical :=
                    fun v => canonical_subst hb (.rowVar v.var v.src trivial)
                  obtain ⟨hrest, htail⟩ := rest_congr (hrow v) (hrow w) (mono_subst_row hvw b v.src w.src) hvw
                  rw [run_subst_open hb hd, run_subst_open hb hd', mono_record_eq_iff (((hrow v).rest v).1.extend _)
                    (((hrow w).rest w).1.extend _)]
                  refine ⟨?_, htail⟩
                  intro k
                  rw [Assoc.get?_extend _ (hd.mapValues _), Assoc.get?_extend _ (hd'.mapValues _), Option.map_or,
                    Option.map_or, Assoc.get?_mapValues, Assoc.get?_mapValues, hfields]
                  exact congrArg _ (hrest k)
      | leaf | var | rowVar | arrow | con => simp [mono_record hd] at h

theorem mono_under_congr {bs : List (Binding VarId)} (hbs : ∀ b ∈ bs, b.value.Canonical) {t u : Ty VarId}
    (ht : t.Canonical) (hu : u.Canonical) (h : t.mono = u.mono) : (t.under bs).mono = (u.under bs).mono := by
  induction bs generalizing t u with
  | nil => exact h
  | cons b bs ih =>
      obtain ⟨hb, hbs⟩ := List.forall_mem_cons.mp hbs
      rw [under_cons, under_cons]
      exact ih hbs (canonical_subst hb ht) (canonical_subst hb hu) (mono_subst_congr hb ht hu h)

theorem alike_under_iff {bs : List (Binding VarId)} (hbs : ∀ b ∈ bs, b.value.Canonical) {t u : Ty VarId}
    (ht : t.Canonical) (hu : u.Canonical) : (t.under bs).Alike (u.under bs) ↔ (t.under bs).mono = (u.under bs).mono :=
  alike_iff (canonical_under hbs ht) (canonical_under hbs hu)

/-- A binding for a variable that does not occur leaves a type as it is. -/
theorem subst_of_not_mem {b : Binding VarId} (hb : b.value.Canonical) {t : Ty VarId} (ht : t.Canonical)
    (h : (b.kind, b.var) ∉ t.vars) : Id.run (t.subst b) = t := by
  induction ht with
  | leaf l s => exact run_subst_leaf b l s
  | var v s =>
      rw [run_subst_type, if_neg]
      rintro ⟨hk, hv⟩
      exact h (by simp [vars, hk, hv])
  | rowVar v s =>
      rw [run_subst_row, if_neg]
      rintro ⟨hk, hv⟩
      exact h (by simp [vars, hk, hv])
  | arrow s _ _ ihd ihr =>
      rw [vars, List.mem_append, mem_varsList, not_or] at h
      rw [run_subst_arrow, ihr h.2, List.map_congr_left fun t ht => ihd t ht fun hm => h.1 ⟨t, ht, hm⟩, List.map_id']
  | con n s _ ih =>
      rw [vars, mem_varsList] at h
      rw [run_subst_con, List.map_congr_left fun t ht => ih t ht fun hm => h ⟨t, ht, hm⟩, List.map_id']
  | @record fs tail s _ _ hd ih =>
      rw [mem_vars_ofFields, not_or] at h
      have hfields : Assoc.mapValues (fun t => Id.run (t.subst b)) fs = fs := by
        refine (List.map_congr_left ?_).trans (List.map_id fs)
        intro f hf
        exact Prod.ext rfl (ih f hf fun hm => h.2 ⟨f, hf, hm⟩)
      cases tail with
      | none => rw [run_subst_shut, hfields]
      | some v =>
          have hmiss : ¬ (b.kind = .row ∧ v.var = b.var) := fun hit => h.1 ⟨v, rfl, by rw [hit.1, hit.2]⟩
          rw [run_subst_open hb hd, hfields, RowVar.toTy, run_subst_row, if_neg hmiss]
          exact congrArg (fun fs => record (Row.ofFields fs (some v)) s) (Assoc.ofEntries_of_distinct hd)

end Ty

end ScriptTypes
