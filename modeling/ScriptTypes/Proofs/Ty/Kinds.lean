import Mathlib.Data.List.Perm.Subperm
import ScriptTypes.Proofs.Ty.Joins
import ScriptTypes.Proofs.Ty.Rows

/-! Kinds. A row variable stands only where a row may stand, and a record stands for a row as well as for a type.
Bindings that keep to kinds keep kinds, and the variable that such a binding is for is gone afterwards. -/

namespace ScriptTypes

namespace Ty

variable {V : Type}

/-- Row variables are rows of records, or stand alone where a row is wanted. -/
inductive HasKind : Kind → Ty V → Prop
  | leaf (l : Leaf) (s : Option Node) : HasKind .type (.leaf l s)
  | var (v : V) (s : Option Node) : HasKind .type (.var v s)
  | rowVar (v : V) (s : Option Node) : HasKind .row (.rowVar v s)
  | arrow {d : List (Ty V)} {r : Ty V} (s : Option Node) :
      (∀ t ∈ d, HasKind .type t) → HasKind .type r → HasKind .type (.arrow d r s)
  | con (n : String) {as : List (Ty V)} (s : Option Node) :
      (∀ t ∈ as, HasKind .type t) → HasKind .type (.con n as s)
  | record (k : Kind) {rows : List (Row V (Ty V))} (s : Option Node) :
      (∀ fs, Row.fields fs ∈ rows → ∀ f ∈ fs, HasKind .type f.2) → HasKind k (.record rows s)

theorem HasKind.withSrc {k : Kind} {t : Ty V} (h : t.HasKind k) (s : Option Node) : (t.withSrc s).HasKind k := by
  cases h with
  | leaf l => exact .leaf l s
  | var v => exact .var v s
  | rowVar v => exact .rowVar v s
  | arrow _ hd hr => exact .arrow s hd hr
  | con n _ h => exact .con n s h
  | record k _ h => exact .record k s h

theorem HasKind.fields {k : Kind} {rows : List (Row V (Ty V))} {s : Option Node} (h : (Ty.record rows s).HasKind k) :
    ∀ fs, Row.fields fs ∈ rows → ∀ f ∈ fs, f.2.HasKind .type := by
  cases h with
  | record _ _ h => exact h

theorem hasKind_ofFields {k : Kind} {fs : Assoc (Ty V)} {tail : Option (RowVar V)} {s : Option Node} :
    (record (Row.ofFields fs tail) s).HasKind k ↔ ∀ f ∈ fs, f.2.HasKind .type := by
  constructor
  · intro h
    apply h.fields
    cases tail with
    | none => exact List.mem_singleton_self _
    | some v => exact List.mem_cons_of_mem _ (List.mem_singleton_self _)
  · intro h
    apply HasKind.record
    intro gs hgs
    cases tail with
    | none =>
        cases List.mem_singleton.mp hgs
        exact h
    | some v =>
        rcases List.mem_cons.mp hgs with he | hgs
        · cases he
        · cases List.mem_singleton.mp hgs
          exact h

/-- What can be put for a row variable of a record. -/
def IsRow (t : Ty V) : Prop :=
  (∃ v s, t = .rowVar v s) ∨ ∃ rows s, t = .record rows s

theorem HasKind.isRow {t : Ty V} (h : t.HasKind .row) : t.IsRow := by
  cases h with
  | rowVar v s => exact .inl ⟨v, s, rfl⟩
  | record _ s => exact .inr ⟨_, s, rfl⟩

instance : DecidablePred (IsRow (V := V))
  | .rowVar v s => .isTrue (.inl ⟨v, s, rfl⟩)
  | .record rows s => .isTrue (.inr ⟨rows, s, rfl⟩)
  | .leaf _ _ | .var _ _ | .arrow _ _ _ | .con _ _ _ => .isFalse (by rintro (⟨_, _, ⟨⟩⟩ | ⟨_, _, ⟨⟩⟩))

end Ty

namespace Row

variable {V α : Type}

theorem mem_visibleFrom {seen : Assoc α} {rows : List (Row V α)} {e : String × α} (h : e ∈ visibleFrom seen rows) :
    e ∈ seen ∨ ∃ fs, .fields fs ∈ rows ∧ e ∈ fs := by
  induction rows generalizing seen with
  | nil => exact .inl h
  | cons row rows ih =>
      cases row with
      | fields fs =>
          rcases ih h with hs | ⟨gs, hgs, he⟩
          · rcases Assoc.mem_of_mem_extend hs with hs | hs
            · exact .inl hs
            · exact .inr ⟨fs, List.mem_cons_self, hs⟩
          · exact .inr ⟨gs, List.mem_cons_of_mem _ hgs, he⟩
      | var v =>
          rcases ih h with hs | ⟨gs, hgs, he⟩
          · exact .inl hs
          · exact .inr ⟨gs, List.mem_cons_of_mem _ hgs, he⟩

theorem distinct_visibleFrom {seen : Assoc α} (h : Assoc.Distinct seen) (rows : List (Row V α)) :
    Assoc.Distinct (visibleFrom seen rows) := by
  induction rows generalizing seen with
  | nil => exact h
  | cons row rows ih =>
      cases row with
      | fields fs => exact ih (h.extend fs)
      | var v => exact ih h

/-- A field that can be seen stands in one of the rows. -/
theorem mem_visible {rows : List (Row V α)} {e : String × α} (h : e ∈ visible rows) :
    ∃ fs, .fields fs ∈ rows ∧ e ∈ fs := by
  rcases mem_visibleFrom h with hs | he
  · cases hs
  · exact he

theorem mem_of_flatten {rows : List (Row V α)} {r : FlatRecord V α} (h : flatten rows = .ok r) {e : String × α}
    (he : e ∈ r.fields) : ∃ fs, .fields fs ∈ rows ∧ e ∈ fs := by
  refine mem_visible ?_
  unfold flatten at h
  split at h
  · cases h
    exact he
  · cases h
    exact he
  · cases h

end Row

/-- A binding puts types for type variables and rows for row variables. -/
def Binding.Kinded (b : Binding VarId) : Prop :=
  b.value.HasKind b.kind

theorem Binding.Kinded.isRow {b : Binding VarId} (hb : b.Kinded) (hk : b.kind = .row) : b.value.IsRow := by
  rw [Binding.Kinded, hk] at hb
  exact hb.isRow

namespace Ty

variable {b : Binding VarId}

/-- The fields of rows after a binding are those of the rows before, or come with the value of the binding. -/
theorem mem_substRows {rows : List (Row VarId (Ty VarId))} {gs : Assoc (Ty VarId)}
    (h : Row.fields gs ∈ rows.flatMap b.substRow) {f : String × Ty VarId} (hf : f ∈ gs) :
    (∃ fs t, Row.fields fs ∈ rows ∧ (f.1, t) ∈ fs ∧ f.2 = Id.run (t.subst b)) ∨
      ∃ rows' s fs, b.value = .record rows' s ∧ Row.fields fs ∈ rows' ∧ f ∈ fs := by
  obtain ⟨row, hrow, h⟩ := List.mem_flatMap.mp h
  cases row with
  | fields fs =>
      cases List.mem_singleton.mp h
      obtain ⟨t, ht, he⟩ := Assoc.mem_mapValues.mp hf
      exact .inl ⟨fs, t, hrow, ht, he.symm⟩
  | var v =>
      rw [Binding.substRow] at h
      split at h
      · unfold Binding.rowsFor at h
        split at h
        · rename_i rows' s hv
          exact .inr ⟨rows', s, gs, hv, h, hf⟩
        · cases List.mem_singleton.mp h
        · cases List.mem_singleton.mp h
      · cases List.mem_singleton.mp h

theorem HasKind.subst (hb : b.Kinded) {k : Kind} {t : Ty VarId} (h : t.HasKind k) :
    (Id.run (t.subst b)).HasKind k := by
  induction h with
  | leaf l s => exact .leaf l s
  | var v s =>
      rw [run_subst_type]
      split
      · rename_i hit
        rw [Binding.Kinded, hit.1] at hb
        exact hb.withSrc _
      · exact .var v s
  | rowVar v s =>
      rw [run_subst_row]
      split
      · rename_i hit
        rw [Binding.Kinded, hit.1] at hb
        exact hb.withSrc _
      · exact .rowVar v s
  | arrow s _ _ ihd ihr =>
      rw [run_subst_arrow]
      exact .arrow s (List.forall_mem_map.mpr ihd) ihr
  | con n s _ ih =>
      rw [run_subst_con]
      exact .con n s (List.forall_mem_map.mpr ih)
  | record k s _ ih =>
      rw [run_subst_rows]
      refine .record k s ?_
      intro gs hgs f hf
      obtain ⟨fs, hfs, hf⟩ := Row.mem_of_joins (Row.joins_merge _) hgs hf
      rcases mem_substRows hfs hf with ⟨hs, t, hhs, ht, he⟩ | ⟨rows', s', hs, hv, hhs, hf⟩
      · rw [he]
        exact ih hs hhs _ ht
      · rw [Binding.Kinded, hv] at hb
        exact hb.fields hs hhs f hf

theorem HasKind.under {bs : List (Binding VarId)} (hbs : ∀ b ∈ bs, b.Kinded) {k : Kind} {t : Ty VarId}
    (h : t.HasKind k) : (t.under bs).HasKind k := by
  induction bs generalizing t with
  | nil => exact h
  | cons b bs ih =>
      obtain ⟨hb, hbs⟩ := List.forall_mem_cons.mp hbs
      rw [under_cons]
      exact ih hbs (h.subst hb)

/-! Variables after a binding. -/

theorem vars_withSrc {V : Type} (t : Ty V) (s : Option Node) : (t.withSrc s).vars = t.vars := by
  cases t <;> rfl

theorem mem_vars_ofFields {V : Type} {fs : Assoc (Ty V)} {tail : Option (RowVar V)} {s : Option Node}
    {x : Kind × V} :
    x ∈ (record (Row.ofFields fs tail) s).vars ↔
      (∃ v, tail = some v ∧ x = (.row, v.var)) ∨ ∃ f ∈ fs, x ∈ f.2.vars := by
  cases tail with
  | none => simp [Row.ofFields, vars, varsRows, mem_varsFields]
  | some v => simp [Row.ofFields, vars, varsRows, mem_varsFields]

/-! Merging of rows, where a later field may hide an earlier one, adds no occurrence of a variable. -/

section Merging

variable {V : Type} [DecidableEq V] (x : Kind × V)

theorem count_varsFields_insert (fs : Assoc (Ty V)) (l : String) (t : Ty V) :
    (varsFields (Assoc.insert fs l t)).count x ≤ (varsFields fs).count x + t.vars.count x := by
  induction fs with
  | nil => simp [Assoc.insert, varsFields]
  | cons f fs ih =>
      obtain ⟨k, u⟩ := f
      by_cases h : k = l
      · simp only [Assoc.insert, if_pos h, varsFields, List.count_append]
        omega
      · simp only [Assoc.insert, if_neg h, varsFields, List.count_append]
        omega

theorem count_varsFields_extend (fs gs : Assoc (Ty V)) :
    (varsFields (Assoc.extend fs gs)).count x ≤ (varsFields fs).count x + (varsFields gs).count x := by
  induction gs generalizing fs with
  | nil => simp [Assoc.extend, varsFields]
  | cons g gs ih =>
      have hinsert := count_varsFields_insert x fs g.1 g.2
      have hextend := ih (Assoc.insert fs g.1 g.2)
      simp only [Assoc.extend, varsFields, List.count_append]
      omega

/-- A join may drop occurrences, as those in a field that is hidden. -/
theorem count_varsRows_join {rows rows' : List (Row V (Ty V))} (h : Row.Joins rows rows') :
    (varsRows rows').count x ≤ (varsRows rows).count x := by
  induction h with
  | join fs gs rows =>
      have hextend := count_varsFields_extend x fs gs
      simp only [varsRows, List.count_append]
      omega
  | cons row _ ih =>
      cases row with
      | fields fs =>
          simp only [varsRows, List.count_append]
          omega
      | var v =>
          simp only [varsRows, List.count_cons]
          omega

theorem count_varsRows_joins {rows rows' : List (Row V (Ty V))} (h : Relation.ReflTransGen Row.Joins rows rows') :
    (varsRows rows').count x ≤ (varsRows rows).count x := by
  induction h with
  | refl => exact Nat.le_refl _
  | tail _ hstep ih => exact (count_varsRows_join x hstep).trans ih

theorem varsRows_merge_subperm (rows : List (Row V (Ty V))) : (varsRows (Row.merge rows)).Subperm (varsRows rows) :=
  List.subperm_ext_iff.mpr fun x _ => count_varsRows_joins x (Row.joins_merge rows)

end Merging

theorem varsRows_append {V : Type} (rows rows' : List (Row V (Ty V))) :
    varsRows (rows ++ rows') = varsRows rows ++ varsRows rows' := by
  induction rows with
  | nil => rfl
  | cons row rows ih => cases row <;> simp [varsRows, ih]

end Ty

/-! Each occurrence of the bound variable gives way to a copy of the value. -/

namespace Binding

variable {b : Binding VarId}

/-- What comes in the place of a variable. A row variable of a record stays if the value is no row. -/
def varsFor (b : Binding VarId) (x : Kind × VarId) : List (Kind × VarId) :=
  if x = (b.kind, b.var) then
    if b.kind = .row → b.value.IsRow then b.value.vars else x :: b.value.vars
  else [x]

theorem varsFor_of_ne {x : Kind × VarId} (h : x ≠ (b.kind, b.var)) : b.varsFor x = [x] := if_neg h

theorem varsFor_bound (h : b.kind = .row → b.value.IsRow) : b.varsFor (b.kind, b.var) = b.value.vars := by
  rw [varsFor, if_pos rfl, if_pos h]

theorem vars_subperm_varsFor (b : Binding VarId) : b.value.vars.Subperm (b.varsFor (b.kind, b.var)) := by
  rw [varsFor, if_pos rfl]
  split
  · exact .refl _
  · exact .cons_self

end Binding

namespace Ty

variable {b : Binding VarId}

theorem varsRows_rowsFor (hk : b.kind = .row) {v : RowVar VarId} (hv : v.var = b.var) :
    (varsRows (b.rowsFor v)).Subperm (b.varsFor (b.kind, b.var)) := by
  by_cases hrow : b.value.IsRow
  · rw [Binding.varsFor_bound fun _ => hrow]
    obtain ⟨w, s, hvalue⟩ | ⟨rows, s, hvalue⟩ := hrow
    · rw [Binding.rowsFor, hvalue]
      exact .refl _
    · rw [Binding.rowsFor, hvalue]
      exact .refl _
  · have hstays : b.rowsFor v = [.var v] := by
      unfold Binding.rowsFor
      split
      · rename_i rows s hvalue
        exact absurd (.inr ⟨rows, s, hvalue⟩) hrow
      · rename_i w s hvalue
        exact absurd (.inl ⟨w, s, hvalue⟩) hrow
      · rfl
    rw [hstays, Binding.varsFor, if_pos rfl, if_neg fun h => hrow (h hk), varsRows, varsRows, hk, hv]
    exact List.singleton_subperm_iff.mpr List.mem_cons_self

mutual

/-- The variables after a binding are, each as often as it occurs, among those that come in the place of the variables
before. Hidden fields are lost. -/
theorem vars_subst_subperm (b : Binding VarId) (t : Ty VarId) :
    (Id.run (t.subst b)).vars.Subperm (t.vars.flatMap b.varsFor) := by
  match t with
  | .leaf l s => exact .refl _
  | .var v s =>
      rw [run_subst_type, vars, List.flatMap_singleton]
      split
      · rename_i hit
        rw [inPlaceOf, vars_withSrc, ← hit.1, hit.2]
        exact b.vars_subperm_varsFor
      · rename_i hit
        rw [Binding.varsFor_of_ne fun he => hit ⟨(congrArg Prod.fst he).symm, congrArg Prod.snd he⟩]
        exact .refl _
  | .rowVar v s =>
      rw [run_subst_row, vars, List.flatMap_singleton]
      split
      · rename_i hit
        rw [inPlaceOf, vars_withSrc, ← hit.1, hit.2]
        exact b.vars_subperm_varsFor
      · rename_i hit
        rw [Binding.varsFor_of_ne fun he => hit ⟨(congrArg Prod.fst he).symm, congrArg Prod.snd he⟩]
        exact .refl _
  | .arrow d r s =>
      rw [vars, List.flatMap_append]
      exact (varsList_subst_subperm b d).append (vars_subst_subperm b r)
  | .con n as s => exact varsList_subst_subperm b as
  | .record rows s => exact (varsRows_merge_subperm _).trans (varsRows_subst_subperm b rows)

theorem varsList_subst_subperm (b : Binding VarId) (ts : List (Ty VarId)) :
    (varsList (Id.run (substList b ts))).Subperm ((varsList ts).flatMap b.varsFor) := by
  match ts with
  | [] => exact .refl _
  | t :: ts =>
      rw [varsList, List.flatMap_append]
      exact (vars_subst_subperm b t).append (varsList_subst_subperm b ts)

theorem varsRows_subst_subperm (b : Binding VarId) (rows : List (Row VarId (Ty VarId))) :
    (varsRows (Id.run (substRows b rows))).Subperm ((varsRows rows).flatMap b.varsFor) := by
  match rows with
  | [] => exact .refl _
  | .fields fs :: rows =>
      rw [varsRows, List.flatMap_append]
      exact (varsFields_subst_subperm b fs).append (varsRows_subst_subperm b rows)
  | .var v :: rows =>
      rw [run_substRows_eq, List.flatMap_cons, ← run_substRows_eq, varsRows_append, varsRows, List.flatMap_cons]
      refine .append ?_ (varsRows_subst_subperm b rows)
      rw [Binding.substRow]
      split
      · rename_i hit
        rw [← hit.1, hit.2]
        exact varsRows_rowsFor hit.1 hit.2
      · rename_i hit
        rw [Binding.varsFor_of_ne fun he => hit ⟨(congrArg Prod.fst he).symm, congrArg Prod.snd he⟩]
        exact .refl _

theorem varsFields_subst_subperm (b : Binding VarId) (fs : Assoc (Ty VarId)) :
    (varsFields (Id.run (substFields b fs))).Subperm ((varsFields fs).flatMap b.varsFor) := by
  match fs with
  | [] => exact .refl _
  | (l, t) :: fs =>
      rw [varsFields, List.flatMap_append]
      exact (vars_subst_subperm b t).append (varsFields_subst_subperm b fs)

end

/-- A variable after a binding comes with the value, or it was there before and, if rows are put for row variables, is
not the bound one. -/
theorem mem_vars_subst {t : Ty VarId} {x : Kind × VarId} (h : x ∈ (Id.run (t.subst b)).vars) :
    (x ∈ t.vars ∧ ((b.kind = .row → b.value.IsRow) → x ≠ (b.kind, b.var))) ∨
      ((b.kind, b.var) ∈ t.vars ∧ x ∈ b.value.vars) := by
  obtain ⟨y, hy, hx⟩ := List.mem_flatMap.mp ((vars_subst_subperm b t).subset h)
  unfold Binding.varsFor at hx
  split at hx
  · subst y
    split at hx
    · exact .inr ⟨hy, hx⟩
    · rename_i hrow
      rcases List.mem_cons.mp hx with rfl | hx
      · exact .inl ⟨hy, fun h => absurd h hrow⟩
      · exact .inr ⟨hy, hx⟩
  · rename_i hne
    cases List.mem_singleton.mp hx
    exact .inl ⟨hy, fun _ => hne⟩

/-- What there is of the bound variable afterwards is in the copies of the value. -/
theorem count_vars_subst (h : b.kind = .row → b.value.IsRow) (t : Ty VarId) :
    (Id.run (t.subst b)).vars.count (b.kind, b.var) ≤
      t.vars.count (b.kind, b.var) * b.value.vars.count (b.kind, b.var) := by
  refine ((vars_subst_subperm b t).count_le _).trans (Nat.le_of_eq ?_)
  induction t.vars with
  | nil => simp
  | cons x xs ih =>
      rw [List.flatMap_cons, List.count_append, ih, List.count_cons, Nat.add_mul, Nat.add_comm]
      by_cases hx : x = (b.kind, b.var)
      · rw [hx, Binding.varsFor_bound h, beq_self_eq_true, if_pos rfl, Nat.one_mul]
      · rw [Binding.varsFor_of_ne hx, List.count_singleton, beq_false_of_ne hx, if_neg Bool.false_ne_true, Nat.zero_mul]

end Ty

end ScriptTypes
