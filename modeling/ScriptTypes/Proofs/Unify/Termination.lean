import Mathlib.Algebra.GroupWithZero.Nat
import Mathlib.Algebra.Order.BigOperators.Group.List
import Mathlib.Data.Finset.Card
import ScriptTypes.Proofs.Unify.Shape

/-! When the solver ends. A turn that binds a variable takes it out of all that waits, and a turn that splits a
constraint leaves less to do, unless it makes a fresh row variable. So without cyclic bindings the turns end exactly
when the row variables that are made are bounded. They need not be: two records that share a row variable and have a
label each that the other lacks are split for ever. -/

namespace ScriptTypes

/-! The bulk of a type. -/

namespace Ty

variable {V : Type}

mutual

/-- A record is bulkier than the row variables and fields that splitting leaves of them. -/
def bulk : Ty V → Nat
  | .leaf _ _ | .var _ _ | .rowVar _ _ => 1
  | .arrow d r _ => 1 + bulkList d + bulk r
  | .con _ as _ => 1 + bulkList as
  | .record rows _ => 2 + bulkRows rows

def bulkList : List (Ty V) → Nat
  | [] => 0
  | t :: ts => bulk t + bulkList ts

def bulkRows : List (Row V (Ty V)) → Nat
  | [] => 0
  | .fields fs :: rows => bulkFields fs + bulkRows rows
  | .var _ :: rows => 1 + bulkRows rows

def bulkFields : List (String × Ty V) → Nat
  | [] => 0
  | (_, t) :: fs => bulk t + bulkFields fs

end

theorem bulk_pos (t : Ty V) : 0 < t.bulk := by
  cases t <;> simp only [bulk] <;> omega

theorem bulkFields_eq (fs : Assoc (Ty V)) : bulkFields fs = (fs.map fun f => f.2.bulk).sum := by
  induction fs with
  | nil => rfl
  | cons f fs ih => rw [bulkFields, ih, List.map_cons, List.sum_cons]

theorem bulk_ofFields (fs : Assoc (Ty V)) (tail : Option (RowVar V)) (s : Option Node) :
    (record (Row.ofFields fs tail) s).bulk = 2 + tail.toList.length + bulkFields fs := by
  cases tail with
  | none => simp [Row.ofFields, bulk, bulkRows]
  | some v => simp [Row.ofFields, bulk, bulkRows]; omega

end Ty

namespace Constraint

variable {V : Type}

def bulk (c : Constraint V) : Nat :=
  c.left.bulk + c.right.bulk

def vars (c : Constraint V) : List (Kind × V) :=
  c.left.vars ++ c.right.vars

theorem bulk_zip_le (ts us : List (Ty V)) :
    ((zip ts us).map bulk).sum ≤ Ty.bulkList ts + Ty.bulkList us := by
  induction ts generalizing us with
  | nil => exact Nat.zero_le _
  | cons t ts ih =>
      cases us with
      | nil => exact Nat.zero_le _
      | cons u us =>
          have hrest := ih us
          simp only [zip, List.map_cons, List.sum_cons, bulk, Ty.bulkList]
          omega

theorem bulk_orient (c : Constraint V) : c.orient.bulk = c.bulk := by
  unfold orient
  split
  · exact Nat.add_comm _ _
  · rfl

theorem mem_vars_orient {c : Constraint V} {x : Kind × V} : x ∈ c.orient.vars ↔ x ∈ c.vars := by
  unfold orient
  split
  · simp only [vars, List.mem_append, or_comm]
  · rfl

end Constraint

/-! Splitting records. -/

theorem sum_map_le_of_subset {α : Type} {l m : List α} (hl : l.Nodup) (h : l ⊆ m) (f : α → Nat) :
    (l.map f).sum ≤ (m.map f).sum := by
  obtain ⟨k, hk, hsub⟩ := List.subperm_of_subset hl h
  rw [← (hk.map f).sum_eq]
  exact (hsub.map f).sum_le_sum (fun _ _ => Nat.zero_le _)

namespace FlatRecord

variable {V : Type} {r s : FlatRecord V (Ty V)}

/-- Each field of a record is shared or is missing in the other. -/
theorem bulk_left (r s : FlatRecord V (Ty V)) :
    ((r.shared s).map fun c => c.left.bulk).sum + Ty.bulkFields (r.missingIn s) = Ty.bulkFields r.fields := by
  obtain ⟨fs, tail⟩ := r
  unfold shared missingIn
  simp only
  induction fs with
  | nil => rfl
  | cons f fs ih =>
      obtain ⟨l, t⟩ := f
      cases hg : Assoc.get? s.fields l with
      | none =>
          have hc : Assoc.contains s.fields l = false := by simp [Assoc.contains, hg]
          simp [hg, hc, Ty.bulkFields]
          omega
      | some u =>
          have hc : Assoc.contains s.fields l = true := by simp [Assoc.contains, hg]
          simp [hg, hc, Ty.bulkFields]
          omega

/-- The fields that a record shares with another, as the other has them. -/
theorem bulk_right (hf : Assoc.Distinct r.fields) (hg : Assoc.Distinct s.fields) :
    ((r.shared s).map fun c => c.right.bulk).sum + Ty.bulkFields (s.missingIn r) ≤ Ty.bulkFields s.fields := by
  let theirs : Assoc (Ty V) := (Assoc.keys r.fields).filterMap fun l => (Assoc.get? s.fields l).map fun u => (l, u)
  have hshared : ((r.shared s).map fun c => c.right.bulk) = theirs.map fun f => f.2.bulk := by
    simp only [shared, theirs, Assoc.keys, List.map_filterMap, List.filterMap_map, Option.map_map, Function.comp_def]
  have hmem : ∀ {l t u}, (t, u) ∈ (Assoc.get? s.fields l).map (fun u => (l, u)) → t = l ∧ (l, u) ∈ s.fields := by
    intro l t u h
    obtain ⟨u', hu, he⟩ := Option.map_eq_some_iff.mp h
    cases he
    exact ⟨rfl, Assoc.mem_of_get? hu⟩
  have htheirs : ∀ f ∈ theirs, f ∈ s.fields ∧ f.1 ∈ Assoc.keys r.fields := by
    rintro ⟨t, u⟩ hf
    obtain ⟨l, hl, h⟩ := List.mem_filterMap.mp hf
    obtain ⟨rfl, hs⟩ := hmem h
    exact ⟨hs, hl⟩
  -- These and the fields that the other has alone are different fields of it.
  have hnodup : (theirs ++ s.missingIn r).Nodup := by
    refine List.Nodup.append ?_ ?_ ?_
    · refine List.Nodup.filterMap ?_ hf
      rintro l l' ⟨t, u⟩ h h'
      exact (hmem h).1.symm.trans (hmem h').1
    · exact List.Nodup.of_map _ (missingIn_distinct hg)
    · intro f hf hm
      exact (mem_missingIn.mp hm).2 (htheirs f hf).2
  rw [hshared, Ty.bulkFields_eq, Ty.bulkFields_eq, ← List.sum_append, ← List.map_append]
  apply sum_map_le_of_subset hnodup
  apply List.append_subset.mpr
  exact ⟨fun f hf => (htheirs f hf).1, fun f hm => (mem_missingIn.mp hm).1⟩

/-- Unless they make a fresh row variable, constraints on row variables have little more than the missing fields. -/
theorem bulk_tails [Variable V] {supply : Supply} {forLeft forRight : Assoc (Ty V)}
    (h : (tails supply r s forLeft forRight).2.rows = supply.rows) :
    ((tails supply r s forLeft forRight).1.map Constraint.bulk).sum ≤
      3 + Ty.bulkFields forLeft + Ty.bulkFields forRight := by
  have hrecord : ∀ (v : RowVar V) fs, Constraint.bulk ⟨v.toTy, .ofFields fs none⟩ = 3 + Ty.bulkFields fs := by
    intro v fs
    rw [Constraint.bulk, Ty.ofFields_eq, Ty.bulk_ofFields]
    simp only [RowVar.toTy, Ty.bulk, Option.toList_none, List.length_nil]
    omega
  unfold tails at h ⊢
  split at h
  · split at h
    · exact absurd h (Nat.succ_ne_self _)
    · simp [hrecord]
    · simp [hrecord]
    · simp [Constraint.bulk, RowVar.toTy, Ty.bulk]
      omega
  · split
    · simp
    · simp [hrecord]
  · split
    · simp
    · simp [hrecord]
  · simp

end FlatRecord

/-- Two records are bulkier than the constraints that they amount to without a fresh row variable. -/
theorem bulk_unifyRecords {V : Type} [Variable V] {fs gs : Assoc (Ty V)} {v w : Option (RowVar V)}
    {s s' : Option Node} {supply supply' : Supply} {cs : List (Constraint V)} (hf : Assoc.Distinct fs)
    (hg : Assoc.Distinct gs)
    (h : unifyRecords supply (.record (Row.ofFields fs v) s) (.record (Row.ofFields gs w) s') = (.ok cs, supply'))
    (hrows : supply'.rows = supply.rows) :
    (cs.map Constraint.bulk).sum <
      (Ty.record (Row.ofFields fs v) s).bulk + (Ty.record (Row.ofFields gs w) s').bulk := by
  rw [unifyRecords_ofFields hf hg] at h
  simp only at h
  split at h
  · cases h
  · cases h
    have hleft := FlatRecord.bulk_left ⟨fs, v⟩ ⟨gs, w⟩
    have hright := FlatRecord.bulk_right (r := ⟨fs, v⟩) (s := ⟨gs, w⟩) hf hg
    have htails := FlatRecord.bulk_tails hrows
    simp only at hleft hright
    have hshared : ∀ cs : List (Constraint V), (cs.map Constraint.bulk).sum =
        (cs.map fun c => c.left.bulk).sum + (cs.map fun c => c.right.bulk).sum := by
      intro cs
      rw [← List.sum_map_add]
      rfl
    rw [List.map_append, List.sum_append, hshared, Ty.bulk_ofFields, Ty.bulk_ofFields]
    omega

namespace Constraint

variable {c : Constraint VarId} {supply supply' : Supply} {more : List (Constraint VarId)}

/-- A binding is for a variable of the constraint, and to a side of it. -/
theorem Turn.vars_bind {b : Binding VarId} (h : Turn supply c (.bind b) supply') :
    (b.kind, b.var) ∈ c.vars ∧ ∀ x ∈ b.value.vars, x ∈ c.vars := by
  cases h with
  | bindType v s => exact ⟨List.mem_append_left _ (List.mem_singleton_self _), fun x => List.mem_append_right _⟩
  | bindRow v s => exact ⟨List.mem_append_left _ (List.mem_singleton_self _), fun x => List.mem_append_right _⟩

/-- A split without a fresh row variable leaves less. -/
theorem Turn.bulk_split (h : Turn supply c (.split more) supply') (hc : c.Canonical)
    (hrows : supply'.rows = supply.rows) : (more.map bulk).sum < c.bulk := by
  obtain ⟨hl, hr⟩ := hc
  cases h with
  | @arrow d d' r r' s s' _ =>
      have hzip := bulk_zip_le d d'
      simp only [List.map_cons, List.sum_cons, bulk, Ty.bulk] at hzip ⊢
      omega
  | @con n as as' s s' _ =>
      have hzip := bulk_zip_le as as'
      simp only [bulk, Ty.bulk] at hzip ⊢
      omega
  | record hu =>
      cases hl with
      | record _ _ _ _ hf =>
          cases hr with
          | record _ _ _ _ hg => exact bulk_unifyRecords hf hg hu hrows

/-- A split has no variables but those that were there, and the fresh row variable that it may take. -/
theorem Turn.vars_split (h : Turn supply c (.split more) supply') (hc : c.Canonical) {d : Constraint VarId}
    (hd : d ∈ more) {x : Kind × VarId} (hx : x ∈ d.vars) :
    x ∈ c.vars ∨ (x = (.row, supply.rows) ∧ supply' = (supply.next .row).2) := by
  obtain ⟨hl, hr⟩ := hc
  rw [vars, List.mem_append] at hx ⊢
  cases h with
  | arrow r r' s s' _ =>
      simp only [Ty.vars, List.mem_append, Ty.mem_varsList]
      rcases List.mem_cons.mp hd with rfl | hd
      · exact .inl (hx.imp .inr .inr)
      · exact .inl (hx.imp (fun hx => .inl ⟨_, (mem_zip hd).1, hx⟩) fun hx => .inl ⟨_, (mem_zip hd).2, hx⟩)
  | con n s s' _ =>
      simp only [Ty.vars, Ty.mem_varsList]
      exact .inl (hx.imp (fun hx => ⟨_, (mem_zip hd).1, hx⟩) fun hx => ⟨_, (mem_zip hd).2, hx⟩)
  | record hu =>
      cases hl with
      | @record fs v _ _ _ hf =>
          cases hr with
          | @record gs w _ _ _ hg =>
              simp only [Ty.mem_vars_ofFields]
              rcases mem_of_unifyRecords hf hg hu hd with ⟨l, hl, hr⟩ | ⟨⟨y, hy, hdl⟩, hdr⟩
              · exact .inl (hx.imp (fun hx => .inr ⟨_, hl, hx⟩) fun hx => .inr ⟨_, hr, hx⟩)
              · rcases hx with hx | hx
                · rw [hdl, RowVar.toTy, Ty.vars, List.mem_singleton] at hx
                  exact .inl (hy.imp (fun hy => .inl ⟨y, hy, hx⟩) fun hy => .inl ⟨y, hy, hx⟩)
                · rcases hdr with ⟨z, hz, hdr⟩ | ⟨hs, tail, hdr, -, hsub, hfresh⟩
                  · rw [hdr, RowVar.toTy, Ty.vars, List.mem_singleton] at hx
                    exact .inl (.inr (.inl ⟨z, hz, hx⟩))
                  · rw [hdr, Ty.mem_vars_ofFields] at hx
                    rcases hx with ⟨z, hz, hx⟩ | ⟨f, hf, hx⟩
                    · obtain ⟨rfl, hsupply⟩ := hfresh z hz
                      exact .inr ⟨hx, hsupply⟩
                    · exact .inl (hsub.imp (fun hsub => .inr ⟨f, hsub hf, hx⟩) fun hsub => .inr ⟨f, hsub hf, hx⟩)

/-- A binding, not to a type in which its variable occurs, takes the variable out of a constraint. -/
theorem mem_vars_subst {b : Binding VarId} (hk : b.Kinded) (hb : ¬ b.Cyclic) {x : Kind × VarId}
    (hx : x ∈ (Id.run (c.subst b)).vars) : x ≠ (b.kind, b.var) ∧ (x ∈ c.vars ∨ x ∈ b.value.vars) := by
  have hside : ∀ u : Ty VarId, (∀ y ∈ u.vars, y ∈ c.vars) → x ∈ (Id.run (u.subst b)).vars →
      x ≠ (b.kind, b.var) ∧ (x ∈ c.vars ∨ x ∈ b.value.vars) := by
    intro u hsub hx
    rcases Ty.mem_vars_subst hx with ⟨hx, hne⟩ | ⟨-, hx⟩
    · exact ⟨hne hk.isRow, .inl (hsub x hx)⟩
    · refine ⟨?_, .inr hx⟩
      rintro rfl
      exact hb hx
  rcases List.mem_append.mp hx with hx | hx
  · exact hside _ (fun y => List.mem_append_left _) hx
  · exact hside _ (fun y => List.mem_append_right _) hx

end Constraint

/-! The measure. -/

namespace Solving

variable {s t : Solving}

/-- The variables of all that waits. -/
def vars (s : Solving) : Finset (Kind × VarId) :=
  (s.queue.flatMap Constraint.vars).toFinset

def bulk (s : Solving) : Nat :=
  (s.queue.map Constraint.bulk).sum

theorem mem_vars {x : Kind × VarId} : x ∈ s.vars ↔ ∃ c ∈ s.queue, x ∈ c.vars := by
  rw [vars, List.mem_toFinset, List.mem_flatMap]

/-- A turn that binds a variable, not to a type in which it occurs, takes it out of the queue. -/
theorem vars_bind {c : Constraint VarId} {cs : List (Constraint VarId)} {b : Binding VarId}
    (hturn : Constraint.Turn s.supply c.orient (.bind b) t.supply) (hq : s.queue = c :: cs)
    (htq : t.queue = cs.map fun d => Id.run (d.subst b)) (hs : s.Kinded) (hb : ¬ b.Cyclic) :
    t.vars.card < s.vars.card := by
  have hqueue := hs.queue
  rw [hq] at hqueue
  obtain ⟨hc, hcs⟩ := List.forall_mem_cons.mp hqueue
  have hc : c.orient.Canonical ∧ c.orient.Kinded :=
    Constraint.of_orient (P := fun c => c.Canonical ∧ c.Kinded) hc (kinded_invariant.swap (s := s.supply))
  obtain ⟨hvalue, hkinded⟩ := kinded_invariant.bind hc hturn
  have hhere := hturn.vars_bind
  simp only [Constraint.mem_vars_orient] at hhere
  have hmem : (b.kind, b.var) ∈ s.vars := mem_vars.mpr ⟨c, hq ▸ List.mem_cons_self, hhere.1⟩
  apply Finset.card_lt_card
  refine Finset.ssubset_of_subset_of_ssubset ?_ (Finset.erase_ssubset hmem)
  intro x hx
  obtain ⟨d', hd', hx⟩ := mem_vars.mp hx
  rw [htq] at hd'
  obtain ⟨d, hd, rfl⟩ := List.mem_map.mp hd'
  obtain ⟨hne, hx⟩ := Constraint.mem_vars_subst hkinded hb hx
  refine Finset.mem_erase.mpr ⟨hne, ?_⟩
  rcases hx with hx | hx
  · exact mem_vars.mpr ⟨d, hq ▸ List.mem_cons_of_mem _ hd, hx⟩
  · exact mem_vars.mpr ⟨c, hq ▸ List.mem_cons_self, hhere.2 x hx⟩

/-- A turn makes a fresh row variable, or leaves fewer variables, or leaves no others and less to do. -/
theorem next?_decreases (hs : s.Kinded) (hn : s.next? = some t) (hac : ∀ b ∈ t.made, ¬ b.Cyclic) :
    s.supply.rows < t.supply.rows ∨
      (t.supply.rows = s.supply.rows ∧
        (t.vars.card < s.vars.card ∨ (t.vars.card ≤ s.vars.card ∧ t.bulk < s.bulk))) := by
  rcases (next?_le hn).rows.lt_or_eq with hlt | hrows
  · exact .inl hlt
  · refine .inr ⟨hrows.symm, ?_⟩
    obtain ⟨c, cs, hq, hcase⟩ := next?_cases hn
    have hc : c.Canonical := (hs.queue c (hq ▸ List.mem_cons_self)).1
    have hc : c.orient.Canonical := Constraint.of_orient hc fun h => ⟨h.right, h.left⟩
    rcases hcase with ⟨-, htq, -⟩ | ⟨b, hturn, htq, htm⟩ | ⟨more, hturn, htq, -⟩
    · refine .inr ⟨?_, ?_⟩
      · apply Finset.card_le_card
        intro x hx
        obtain ⟨d, hd, hx⟩ := mem_vars.mp hx
        exact mem_vars.mpr ⟨d, hq ▸ List.mem_cons_of_mem _ (htq ▸ hd), hx⟩
      · have hpos := c.left.bulk_pos
        simp only [bulk, htq, hq, List.map_cons, List.sum_cons, Constraint.bulk]
        omega
    · refine .inl (vars_bind hturn hq htq hs (hac b ?_))
      rw [htm]
      exact List.mem_append_right _ (List.mem_singleton_self _)
    · refine .inr ⟨?_, ?_⟩
      · apply Finset.card_le_card
        intro x hx
        obtain ⟨d, hd, hx⟩ := mem_vars.mp hx
        rw [htq] at hd
        rcases List.mem_append.mp hd with hd | hd
        · exact mem_vars.mpr ⟨d, hq ▸ List.mem_cons_of_mem _ hd, hx⟩
        · rcases hturn.vars_split hc hd hx with hx | ⟨-, hfresh⟩
          · exact mem_vars.mpr ⟨c, hq ▸ List.mem_cons_self, Constraint.mem_vars_orient.mp hx⟩
          · rw [hfresh] at hrows
            exact absurd hrows.symm (Nat.succ_ne_self _)
      · have hless := hturn.bulk_split hc hrows.symm
        rw [Constraint.bulk_orient] at hless
        simp only [bulk, htq, hq, List.map_cons, List.map_append, List.sum_cons, List.sum_append]
        omega

/-- Without cyclic bindings, the turns end if the row variables that are made are bounded. -/
theorem ends_of_rows_le {s : Solving} (hs : s.Kinded) (hac : ∀ t, s.Through t → ∀ b ∈ t.made, ¬ b.Cyclic) {n : Nat}
    (hn : ∀ t, s.Through t → t.supply.rows ≤ n) : s.Ends := by
  cases ht : s.next? with
  | none => exact ⟨s, .refl, ht⟩
  | some t =>
      have hst : s.Through t := .next .refl ht
      have hdec := next?_decreases hs ht (hac t hst)
      have hbound := hn t hst
      have hends : t.Ends := ends_of_rows_le (kinded_invariant.next hs ht)
        (fun u hu => hac u (hst.trans hu)) fun u hu => hn u (hst.trans hu)
      obtain ⟨u, hu, hnone⟩ := hends
      exact ⟨u, hst.trans hu, hnone⟩
termination_by (n - s.supply.rows, s.vars.card, s.bulk)
decreasing_by
  rcases hdec with hrows | ⟨hrows, hvars | ⟨hvars, hbulk⟩⟩
  · exact .left _ _ (Nat.sub_lt_sub_left (Nat.lt_of_lt_of_le hrows hbound) hrows)
  · rw [hrows]
    exact .right _ (.left _ _ hvars)
  · rw [hrows]
    rcases hvars.lt_or_eq with hvars | hvars
    · exact .right _ (.left _ _ hvars)
    · rw [hvars]
      exact .right _ (.right _ hbulk)

/-- When the turns end, the row variables that were made by then are all. -/
theorem Ends.rows_le (h : s.Ends) : ∃ n, ∀ t, s.Through t → t.supply.rows ≤ n := by
  obtain ⟨u, hu, hnone⟩ := h
  refine ⟨u.supply.rows, ?_⟩
  intro t ht
  rcases ht.total hu with htu | hut
  · exact htu.le.rows
  · rcases hut.eq_or_next with rfl | ⟨t', hn, -⟩
    · exact le_rfl
    · cases hnone.symm.trans hn

theorem ends_iff_rows_le (hs : s.Kinded) (hac : ∀ t, s.Through t → ∀ b ∈ t.made, ¬ b.Cyclic) :
    s.Ends ↔ ∃ n, ∀ t, s.Through t → t.supply.rows ≤ n :=
  ⟨Ends.rows_le, fun ⟨_, hn⟩ => ends_of_rows_le hs hac hn⟩

end Solving

/-- Without cyclic bindings, solving constraints that keep to kinds comes to an answer, the same for every limit that is
high enough, exactly when the row variables that are made on the way are bounded. -/
theorem solve_ends_iff {supply : Supply} {cs : List (Constraint VarId)} (hcs : ∀ c ∈ cs, c.Canonical ∧ c.Kinded)
    (hac : ∀ state, (Solving.start supply cs).Through state → ∀ b ∈ state.made, ¬ b.Cyclic) :
    (∃ limit solution supply', solution ≠ .unfinished ∧
        ∀ steps ≥ limit, Id.run (solve steps supply cs) = (solution, supply')) ↔
      ∃ n, ∀ state, (Solving.start supply cs).Through state → state.supply.rows ≤ n := by
  have hstart : (Solving.start supply cs).Kinded := .start hcs
  rw [← Solving.ends_iff_rows_le hstart hac, Solving.ends_iff]
  rfl

theorem solve_ends_iff_crossing :
    (∃ limit solution supply, solution ≠ .unfinished ∧
        ∀ steps ≥ limit, Id.run (solve steps ⟨0, 2⟩ [crossing]) = (solution, supply)) ↔
      ∃ n, ∀ state, (Solving.start ⟨0, 2⟩ [crossing]).Through state → state.supply.rows ≤ n := by
  refine solve_ends_iff (List.forall_mem_singleton.mpr crossing_kinded) ?_
  intro state hstate b hb
  exact crossed_acyclic b (Solving.made_subset_of_solved outcome_crossing hstate hb)

/-! Records that are split for ever. -/

namespace Constraint

/-- Two records with one row variable, and a label each that the other lacks. -/
def twins (x y : String) (v : VarId) : Constraint VarId :=
  ⟨.oneField x v, .oneField y v⟩

theorem step_twins {x y : String} (hxy : x ≠ y) (v : VarId) (supply : Supply) :
    Id.run ((twins x y v).step supply) =
      (.split [⟨.rowVar v none, .oneField y supply.rows⟩, ⟨.rowVar v none, .oneField x supply.rows⟩],
        (supply.next .row).2) := by
  have hsingle : ∀ z : String, Assoc.Distinct [(z, Ty.leaf (V := VarId) .num none)] :=
    fun z => List.nodup_singleton _
  have hapart : ¬ (twins x y v).orient.left.Alike (twins x y v).orient.right := by
    change ¬ (Ty.oneField x v).Alike (.oneField y v)
    rw [Ty.alike_iff (Ty.canonical_oneField x v) (Ty.canonical_oneField y v), Ty.oneField, Ty.oneField,
      Ty.mono_record (hsingle x), Ty.mono_record (hsingle y)]
    intro h
    injection h with h
    have hx : (x, Mono.leaf .num) ∈ Assoc.sort (Assoc.mapValues Ty.mono [(x, .leaf .num none)]) := by simp
    rw [h, Assoc.mem_sort] at hx
    exact hxy (by simpa using hx)
  have hmissing : ∀ {z z' : String} (u u' : Option (RowVar VarId)), z ≠ z' →
      FlatRecord.missingIn ⟨[(z, .leaf .num none)], u⟩ ⟨[(z', .leaf .num none)], u'⟩ = [(z, .leaf .num none)] := by
    intro z z' u u' h
    simp [FlatRecord.missingIn, Assoc.contains, Assoc.get?, h.symm]
  have hshared : ∀ u u' : Option (RowVar VarId),
      FlatRecord.shared ⟨[(x, .leaf .num none)], u⟩ ⟨[(y, .leaf .num none)], u'⟩ = [] := by
    intro u u'
    simp [FlatRecord.shared, Assoc.get?, hxy.symm]
  have hsplit := unifyRecords_ofFields (hsingle x) (hsingle y) (some ⟨v, none⟩) (some ⟨v, none⟩) none none supply
  simp only [hmissing _ _ hxy, hmissing _ _ hxy.symm, hshared] at hsplit
  rw [run_step, if_neg hapart]
  change stepApart supply ⟨.oneField x v, .oneField y v⟩ = _
  simp only [Ty.oneField, stepApart, hsplit]
  rfl

/-- The row variable is bound, and what waits is such a pair again. -/
theorem step_bind (y : String) (v w : VarId) (supply : Supply) :
    Id.run (step supply ⟨.rowVar v none, .oneField y w⟩) = (.bind ⟨.row, v, none, .oneField y w⟩, supply) := by
  rw [run_step]
  rfl

theorem subst_twins (x y : String) {v w : VarId} (hvw : v ≠ w) :
    Id.run (subst ⟨.row, v, none, .oneField y w⟩ ⟨.rowVar v none, .oneField x w⟩) = twins y x w := by
  have hleft : Id.run ((Ty.rowVar v none).subst ⟨.row, v, none, .oneField y w⟩) = .oneField y w := by
    rw [Ty.run_subst_row, if_pos ⟨rfl, rfl⟩]
    rfl
  have hright : Id.run ((Ty.oneField x w).subst ⟨.row, v, none, .oneField y w⟩) = .oneField x w := by
    have hmiss : ¬ (Kind.row = .row ∧ w = v) := fun h => hvw h.2.symm
    have hd : Assoc.Distinct [(x, Ty.leaf (V := VarId) .num none)] := List.nodup_singleton _
    have hopen := Ty.run_subst_open (b := ⟨.row, v, none, .oneField y w⟩) (Ty.canonical_oneField y w) hd ⟨w, none⟩ none
    rw [RowVar.toTy, Ty.run_subst_row, if_neg hmiss] at hopen
    exact hopen
  exact congrArg₂ Constraint.mk hleft hright

end Constraint

namespace Solving

/-- The states of the solver on such a pair. -/
inductive Endless : Solving → Prop
  | split {x y : String} {v : VarId} {supply : Supply} {made : List (Binding VarId)} : x ≠ y → v < supply.rows →
      (∀ b ∈ made, ¬ b.Cyclic) → Endless ⟨supply, [.twins x y v], made⟩
  | bind {x y : String} {v w : VarId} {supply : Supply} {made : List (Binding VarId)} : x ≠ y → v ≠ w →
      w < supply.rows → (∀ b ∈ made, ¬ b.Cyclic) →
      Endless ⟨supply, [⟨.rowVar v none, .oneField y w⟩, ⟨.rowVar v none, .oneField x w⟩], made⟩

theorem Endless.next {s : Solving} (h : s.Endless) : ∃ t, s.next? = some t ∧ t.Endless := by
  cases h with
  | @split x y v supply made hxy hv hmade =>
      refine ⟨⟨(supply.next .row).2, _, made⟩, ?_, .bind hxy hv.ne (Nat.lt_succ_self supply.rows) hmade⟩
      simp only [next?, Constraint.step_twins hxy]
      rfl
  | @bind x y v w supply made hxy hvw hw hmade =>
      refine ⟨⟨supply, _, made ++ [⟨.row, v, none, .oneField y w⟩]⟩, ?_, .split hxy.symm hw ?_⟩
      · simp only [next?, Constraint.step_bind, List.map_cons, List.map_nil, Constraint.subst_twins x y hvw]
      · exact List.forall_mem_append.mpr ⟨hmade, List.forall_mem_singleton.mpr (Binding.not_cyclic_oneField y hvw)⟩

theorem Endless.through {s t : Solving} (h : s.Endless) (ht : s.Through t) : t.Endless := by
  refine ht.keeps h ?_
  intro t u ht hn
  obtain ⟨u', hn', hu⟩ := ht.next
  cases hn.symm.trans hn'
  exact hu

theorem Endless.not_ends {s : Solving} (h : s.Endless) : ¬ s.Ends := by
  rintro ⟨t, ht, hnone⟩
  obtain ⟨u, hn, -⟩ := (h.through ht).next
  cases hnone.symm.trans hn

theorem Endless.acyclic {s : Solving} (h : s.Endless) : ∀ b ∈ s.made, ¬ b.Cyclic := by
  cases h with
  | split _ _ hmade => exact hmade
  | bind _ _ _ hmade => exact hmade

end Solving

/-- Records that share a row variable and have a label each that the other lacks are split for ever, though no binding
is cyclic. -/
theorem solve_twins {x y : String} (hxy : x ≠ y) {v : VarId} {supply : Supply} (hv : v < supply.rows) :
    (∀ steps, (Id.run (solve steps supply [.twins x y v])).1 = .unfinished) ∧
      ∀ state, (Solving.start supply [.twins x y v]).Through state → ∀ b ∈ state.made, ¬ b.Cyclic := by
  have h : (Solving.start supply [.twins x y v]).Endless := .split hxy hv (List.forall_mem_nil _)
  refine ⟨?_, ?_⟩
  · intro steps
    rw [← Solving.outcome_start]
    exact Solving.outcome_of_not_ends h.not_ends steps
  · intro state hstate
    exact (h.through hstate).acyclic

theorem solve_twins_xy :
    (∀ steps, (Id.run (solve steps ⟨0, 1⟩ [.twins "x" "y" 0])).1 = .unfinished) ∧
      ∀ state, (Solving.start ⟨0, 1⟩ [.twins "x" "y" 0]).Through state → ∀ b ∈ state.made, ¬ b.Cyclic :=
  solve_twins (by decide) (by decide)

end ScriptTypes
