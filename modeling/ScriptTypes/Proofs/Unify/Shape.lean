import ScriptTypes.Proofs.Ty.Kinds
import ScriptTypes.Proofs.Unify.Machine

/-! Shapes and kinds in the solver. Constraints between canonical types lead to such constraints and to bindings to
such types only, so the constraint between two records always has a flat form on both sides. Likewise constraints that
keep to kinds lead to such constraints and bindings. -/

namespace ScriptTypes

theorem Ty.ofFields_eq {V : Type} (fs : Assoc (Ty V)) (tail : Option (RowVar V)) :
    Ty.ofFields fs tail = .record (Row.ofFields fs tail) none := by
  unfold Ty.ofFields Ty.ofRows
  rw [Row.merge_ofFields]

namespace FlatRecord

variable {V : Type} {r s : FlatRecord V (Ty V)}

theorem mem_of_mem_shared {c : Constraint V} (h : c ∈ r.shared s) :
    ∃ l, (l, c.left) ∈ r.fields ∧ Assoc.get? s.fields l = some c.right := by
  unfold shared at h
  obtain ⟨⟨l, t⟩, ht, he⟩ := List.mem_filterMap.mp h
  obtain ⟨u, hu, rfl⟩ := Option.map_eq_some_iff.mp he
  exact ⟨l, ht, hu⟩

theorem mem_missingIn {f : String × Ty V} : f ∈ r.missingIn s ↔ f ∈ r.fields ∧ f.1 ∉ Assoc.keys s.fields := by
  unfold missingIn
  rw [List.mem_filter, Bool.not_eq_true', ← Bool.not_eq_true, Assoc.contains_iff]

theorem missingIn_distinct (h : Assoc.Distinct r.fields) : Assoc.Distinct (r.missingIn s) :=
  List.Nodup.sublist (List.filter_sublist.map Prod.fst) h

/-- What a constraint on row variables looks like. Its records are closed, or end in a fresh variable. -/
theorem mem_of_mem_tails [Variable V] {supply : Supply} {forLeft forRight : Assoc (Ty V)} {c : Constraint V}
    (h : c ∈ (tails supply r s forLeft forRight).1) :
    (∃ v, (r.tail = some v ∨ s.tail = some v) ∧ c.left = v.toTy) ∧
      ((∃ w, s.tail = some w ∧ c.right = w.toTy) ∨
        ∃ tail, (∀ v, tail = some v → v = (supply.freshRowVar none).1 ∧
            (tails supply r s forLeft forRight).2 = (supply.next .row).2) ∧
          (c.right = .ofFields forLeft tail ∨ c.right = .ofFields forRight tail)) := by
  unfold tails at h ⊢
  split at h
  · rename_i v w hv hw
    simp only [hv, hw]
    split at h
    · have hfresh : ∀ u : RowVar V, some (supply.freshRowVar none).1 = some u → u = (supply.freshRowVar none).1 ∧
          (supply.next .row).2 = (supply.next .row).2 := by
        rintro u ⟨⟩
        exact ⟨rfl, rfl⟩
      rcases List.mem_cons.mp h with rfl | h
      · exact ⟨⟨v, .inl rfl, rfl⟩, .inr ⟨_, hfresh, .inl rfl⟩⟩
      · cases List.mem_singleton.mp h
        exact ⟨⟨w, .inr rfl, rfl⟩, .inr ⟨_, hfresh, .inr rfl⟩⟩
    · cases List.mem_singleton.mp h
      exact ⟨⟨v, .inl rfl, rfl⟩, .inr ⟨none, nofun, .inl rfl⟩⟩
    · cases List.mem_singleton.mp h
      exact ⟨⟨w, .inr rfl, rfl⟩, .inr ⟨none, nofun, .inr rfl⟩⟩
    · cases List.mem_singleton.mp h
      exact ⟨⟨v, .inl rfl, rfl⟩, .inl ⟨w, rfl, rfl⟩⟩
  · rename_i w hv hw
    simp only [hv, hw]
    split at h
    · cases h
    · cases List.mem_singleton.mp h
      exact ⟨⟨w, .inr rfl, rfl⟩, .inr ⟨none, nofun, .inr rfl⟩⟩
  · rename_i v hv hw
    simp only [hv, hw]
    split at h
    · cases h
    · cases List.mem_singleton.mp h
      exact ⟨⟨v, .inl rfl, rfl⟩, .inr ⟨none, nofun, .inl rfl⟩⟩
  · cases h

end FlatRecord

/-! Records of canonical shape. -/

section Records

variable {V : Type} [Variable V] {fs gs : Assoc (Ty V)}

/-- Records of canonical shape have flat forms, and those decide. -/
theorem unifyRecords_ofFields (hf : Assoc.Distinct fs) (hg : Assoc.Distinct gs) (v w : Option (RowVar V))
    (s s' : Option Node) (supply : Supply) :
    unifyRecords supply (.record (Row.ofFields fs v) s) (.record (Row.ofFields gs w) s') =
      let r : FlatRecord V (Ty V) := ⟨fs, v⟩
      let t : FlatRecord V (Ty V) := ⟨gs, w⟩
      if (w.isNone && !(r.missingIn t).isEmpty) || (v.isNone && !(t.missingIn r).isEmpty) then
        (.error (.mismatch (.record (Row.ofFields fs v) s) (.record (Row.ofFields gs w) s')), supply)
      else
        (.ok (r.shared t ++ (FlatRecord.tails supply r t (t.missingIn r) (r.missingIn t)).1),
          (FlatRecord.tails supply r t (t.missingIn r) (r.missingIn t)).2) := by
  unfold unifyRecords Ty.flatten
  simp only [Row.flatten_ofFields hf, Row.flatten_ofFields hg]

omit [Variable V] in
theorem Row.distinct_of_flatten {α : Type} {rows : List (Row V α)} {r : FlatRecord V α}
    (h : Row.flatten rows = .ok r) : Assoc.Distinct r.fields := by
  unfold Row.flatten at h
  split at h <;> cases h <;> exact Row.distinct_visibleFrom Assoc.distinct_nil rows

/-- A constraint that two records amount to is between the types of a label, or is for a row variable. -/
theorem mem_of_unifyRecords_flat {rows rows' : List (Row V (Ty V))} {s s' : Option Node} {supply supply' : Supply}
    {cs : List (Constraint V)} (h : unifyRecords supply (.record rows s) (.record rows' s') = (.ok cs, supply')) :
    ∃ r t, Row.flatten rows = .ok r ∧ Row.flatten rows' = .ok t ∧ ∀ c ∈ cs,
      (∃ l, (l, c.left) ∈ r.fields ∧ (l, c.right) ∈ t.fields) ∨
        (∃ x, (r.tail = some x ∨ t.tail = some x) ∧ c.left = x.toTy) ∧
          ((∃ x, t.tail = some x ∧ c.right = x.toTy) ∨
            ∃ hs tail, c.right = .record (Row.ofFields hs tail) none ∧ Assoc.Distinct hs ∧
              (hs ⊆ r.fields ∨ hs ⊆ t.fields) ∧
              ∀ x, tail = some x → x = (supply.freshRowVar none).1 ∧ supply' = (supply.next .row).2) := by
  have hsub : ∀ (r t : FlatRecord V (Ty V)), r.missingIn t ⊆ r.fields := by
    intro r t f hm
    exact (FlatRecord.mem_missingIn.mp hm).1
  unfold unifyRecords Ty.flatten at h
  cases hr : Row.flatten rows with
  | error vs =>
      simp only [hr] at h
      cases h
  | ok r =>
      cases ht : Row.flatten rows' with
      | error vs =>
          simp only [hr, ht] at h
          cases h
      | ok t =>
          simp only [hr, ht] at h
          refine ⟨r, t, rfl, rfl, fun c hc => ?_⟩
          split at h
          · cases h
          · cases h
            rcases List.mem_append.mp hc with hc | hc
            · obtain ⟨l, hl, hr⟩ := FlatRecord.mem_of_mem_shared hc
              exact .inl ⟨l, hl, Assoc.mem_of_get? hr⟩
            · obtain ⟨hl, hx | ⟨tail, hfresh, hc | hc⟩⟩ := FlatRecord.mem_of_mem_tails hc
              · exact .inr ⟨hl, .inl hx⟩
              · rw [Ty.ofFields_eq] at hc
                exact .inr ⟨hl, .inr ⟨_, tail, hc, FlatRecord.missingIn_distinct (Row.distinct_of_flatten ht),
                  .inr (hsub t r), hfresh⟩⟩
              · rw [Ty.ofFields_eq] at hc
                exact .inr ⟨hl, .inr ⟨_, tail, hc, FlatRecord.missingIn_distinct (Row.distinct_of_flatten hr),
                  .inl (hsub r t), hfresh⟩⟩

/-- The same for records of canonical shape, which are flat already. -/
theorem mem_of_unifyRecords {v w : Option (RowVar V)} {s s' : Option Node} {supply supply' : Supply}
    {cs : List (Constraint V)} (hf : Assoc.Distinct fs) (hg : Assoc.Distinct gs)
    (h : unifyRecords supply (.record (Row.ofFields fs v) s) (.record (Row.ofFields gs w) s') = (.ok cs, supply'))
    {c : Constraint V} (hc : c ∈ cs) :
    (∃ l, (l, c.left) ∈ fs ∧ (l, c.right) ∈ gs) ∨
      (∃ x, (v = some x ∨ w = some x) ∧ c.left = x.toTy) ∧
        ((∃ x, w = some x ∧ c.right = x.toTy) ∨
          ∃ hs tail, c.right = .record (Row.ofFields hs tail) none ∧ Assoc.Distinct hs ∧ (hs ⊆ fs ∨ hs ⊆ gs) ∧
            ∀ x, tail = some x → x = (supply.freshRowVar none).1 ∧ supply' = (supply.next .row).2) := by
  obtain ⟨r, t, hr, ht, hcs⟩ := mem_of_unifyRecords_flat h
  cases (Row.flatten_ofFields hf v).symm.trans hr
  cases (Row.flatten_ofFields hg w).symm.trans ht
  exact hcs c hc

/-- Two records of canonical shape fail to unify in one way only. -/
theorem eq_mismatch_of_unifyRecords {v w : Option (RowVar V)} {s s' : Option Node} {supply supply' : Supply}
    {e : UnifyError V} (hf : Assoc.Distinct fs) (hg : Assoc.Distinct gs)
    (h : unifyRecords supply (.record (Row.ofFields fs v) s) (.record (Row.ofFields gs w) s') = (.error e, supply')) :
    ∃ l r, e = .mismatch l r := by
  rw [unifyRecords_ofFields hf hg] at h
  simp only at h
  split at h
  · cases h
    exact ⟨_, _, rfl⟩
  · cases h

end Records

/-! Constraints over a set of variables. -/

structure Constraint.Canonical (c : Constraint VarId) : Prop where
  left : c.left.Canonical
  right : c.right.Canonical

/-- Both sides are canonical types over a set of variables. -/
structure Constraint.Over (X : Kind × VarId → Prop) (c : Constraint VarId) : Prop where
  left : c.left.Over X
  right : c.right.Over X

theorem Constraint.Canonical.over {c : Constraint VarId} (h : c.Canonical) (s : Supply) : c.Over (anyVar s) :=
  ⟨Ty.over_anyVar.mpr h.left, Ty.over_anyVar.mpr h.right⟩

namespace Constraint.Over

variable {X : Kind × VarId → Prop}

theorem canonical {c : Constraint VarId} (h : c.Over X) : c.Canonical := ⟨h.left.shape, h.right.shape⟩

theorem zip {ts us : List (Ty VarId)} (hts : ∀ t ∈ ts, t.Over X) (hus : ∀ u ∈ us, u.Over X) :
    ∀ c ∈ Constraint.zip ts us, c.Over X :=
  fun _ hc => ⟨hts _ (mem_zip hc).1, hus _ (mem_zip hc).2⟩

theorem subst {b : Binding VarId} (hb : b.value.Over X) {c : Constraint VarId} (h : c.Over X) :
    (Id.run (c.subst b)).Over X :=
  ⟨.subst hb h.left, .subst hb h.right⟩

/-- Records over a set amount to constraints over it, but for the row variable that splitting them may take. -/
theorem records {Y : Kind × VarId → Prop} (hXY : ∀ x, X x → Y x) {rows rows' : List (Row VarId (Ty VarId))}
    {s s' : Option Node} {supply supply' : Supply} {cs : List (Constraint VarId)}
    (hfresh : supply' = (supply.next .row).2 → Y (.row, (supply.next .row).1))
    (hl : (Ty.record rows s).Over X) (hr : (Ty.record rows' s').Over X)
    (h : unifyRecords supply (.record rows s) (.record rows' s') = (.ok cs, supply')) : ∀ c ∈ cs, c.Over Y := by
  intro c hc
  have hrow : ∀ x : RowVar VarId, X (.row, x.var) → x.toTy.Over Y := fun x hx => Ty.over_rowVar (hXY _ hx) x.src
  obtain ⟨hsl, hvl⟩ := hl
  obtain ⟨hsr, hvr⟩ := hr
  cases hsl with
  | @record fs v _ _ hcf hf =>
      cases hsr with
      | @record gs w _ _ hcg hg =>
          obtain ⟨hfs, hv⟩ := (Ty.over_record (s := s) hf).mp ⟨.record v s (fun _ => trivial) hcf hf, hvl⟩
          obtain ⟨hgs, hw⟩ := (Ty.over_record (s := s') hg).mp ⟨.record w s' (fun _ => trivial) hcg hg, hvr⟩
          rcases mem_of_unifyRecords hf hg h hc with ⟨l, hl, hr⟩ | ⟨⟨x, hx, hcl⟩, hcr⟩
          · exact ⟨(hfs _ hl).imp hXY, (hgs _ hr).imp hXY⟩
          · refine ⟨?_, ?_⟩
            · rw [hcl]
              exact hrow x (hx.elim (hv x) (hw x))
            · rcases hcr with ⟨y, hy, hcr⟩ | ⟨hs, tail, hcr, hd, hsub, htail⟩
              · rw [hcr]
                exact hrow y (hw y hy)
              · rw [hcr]
                refine (Ty.over_record hd).mpr ⟨?_, ?_⟩
                · intro f hf
                  have hover := hsub.elim (fun hsub => hfs f (hsub hf)) fun hsub => hgs f (hsub hf)
                  exact hover.imp hXY
                · intro y hy
                  obtain ⟨rfl, hsupply⟩ := htail y hy
                  exact hfresh hsupply

/-- A step on a constraint over a growing set binds to a type over the set, or splits into constraints over it. -/
theorem turn {X : Supply → Kind × VarId → Prop} (hX : Growing X) {c : Constraint VarId} {supply supply' : Supply}
    (h : c.Over (X supply)) {st : Step VarId} (hturn : Turn supply c st supply') :
    (∀ b, st = .bind b → b.value.Over (X supply')) ∧ (∀ more, st = .split more → ∀ d ∈ more, d.Over (X supply')) ∧
      ∀ e, st = .fail e → ∃ l r, e = .mismatch l r := by
  have hle := hturn.le
  obtain ⟨hl, hr⟩ := h
  cases hturn with
  | drop => exact ⟨nofun, nofun, nofun⟩
  | bindType v s =>
      refine ⟨?_, nofun, nofun⟩
      rintro b ⟨⟩
      exact hr
  | bindRow v s =>
      refine ⟨?_, nofun, nofun⟩
      rintro b ⟨⟩
      exact hr
  | arrow r r' s s' =>
      refine ⟨nofun, ?_, nofun⟩
      rintro more ⟨⟩
      obtain ⟨hd, hr₁⟩ := Ty.over_arrow.mp hl
      obtain ⟨hd', hr₂⟩ := Ty.over_arrow.mp hr
      exact List.forall_mem_cons.mpr ⟨⟨hr₁, hr₂⟩, .zip hd hd'⟩
  | con n s s' =>
      refine ⟨nofun, ?_, nofun⟩
      rintro more ⟨⟩
      exact .zip (Ty.over_con.mp hl) (Ty.over_con.mp hr)
  | record hu =>
      refine ⟨nofun, ?_, nofun⟩
      rintro more ⟨⟩
      exact records (fun _ => hX.mono hle) (fun he => he ▸ hX.fresh supply .row) hl hr hu
  | stuck hu =>
      refine ⟨nofun, nofun, ?_⟩
      rintro e ⟨⟩
      cases hl.shape with
      | record _ _ _ _ hf =>
          cases hr.shape with
          | record _ _ _ _ hg => exact eq_mismatch_of_unifyRecords hf hg hu
  | mismatch c =>
      refine ⟨nofun, nofun, ?_⟩
      rintro e ⟨⟩
      exact ⟨_, _, rfl⟩

end Constraint.Over

/-! Constraints that keep to kinds. -/

/-- Both sides stand for types, or both stand for rows. -/
def Constraint.Kinded (c : Constraint VarId) : Prop :=
  ∃ k, c.left.HasKind k ∧ c.right.HasKind k

namespace Constraint.Kinded

theorem zip {ts us : List (Ty VarId)} (hts : ∀ t ∈ ts, t.HasKind .type) (hus : ∀ u ∈ us, u.HasKind .type) :
    ∀ c ∈ Constraint.zip ts us, c.Kinded :=
  fun _ hc => ⟨.type, hts _ (mem_zip hc).1, hus _ (mem_zip hc).2⟩

theorem subst {b : Binding VarId} (hb : b.Kinded) {c : Constraint VarId} (h : c.Kinded) :
    (Id.run (c.subst b)).Kinded := by
  obtain ⟨k, hl, hr⟩ := h
  exact ⟨k, hl.subst hb, hr.subst hb⟩

/-- A step on a constraint that keeps to kinds gives a binding or constraints that do. -/
theorem turn {c : Constraint VarId} (h : c.Kinded) {supply supply' : Supply} {st : Step VarId}
    (hturn : Turn supply c st supply') :
    (∀ b, st = .bind b → b.Kinded) ∧ ∀ more, st = .split more → ∀ d ∈ more, d.Kinded := by
  obtain ⟨k, hl, hr⟩ := h
  cases hturn with
  | drop => exact ⟨nofun, nofun⟩
  | bindType v s =>
      refine ⟨?_, nofun⟩
      rintro b ⟨⟩
      cases hl
      exact hr
  | bindRow v s =>
      refine ⟨?_, nofun⟩
      rintro b ⟨⟩
      cases hl
      exact hr
  | arrow r r' s s' =>
      refine ⟨nofun, ?_⟩
      rintro more ⟨⟩
      cases hl with
      | arrow _ hd hr₁ =>
          cases hr with
          | arrow _ hd' hr₂ => exact List.forall_mem_cons.mpr ⟨⟨.type, hr₁, hr₂⟩, .zip hd hd'⟩
  | con n s s' =>
      refine ⟨nofun, ?_⟩
      rintro more ⟨⟩
      cases hl with
      | con _ _ has =>
          cases hr with
          | con _ _ has' => exact .zip has has'
  | record hu =>
      refine ⟨nofun, ?_⟩
      rintro more ⟨⟩ d hd
      obtain ⟨r, t, hrf, htf, hmore⟩ := mem_of_unifyRecords_flat hu
      have hfs : ∀ f ∈ r.fields, f.2.HasKind .type := by
        intro f hf
        obtain ⟨fs, hfs, hf⟩ := Row.mem_of_flatten hrf hf
        exact hl.fields fs hfs f hf
      have hgs : ∀ f ∈ t.fields, f.2.HasKind .type := by
        intro f hf
        obtain ⟨fs, hfs, hf⟩ := Row.mem_of_flatten htf hf
        exact hr.fields fs hfs f hf
      rcases hmore d hd with ⟨l, hl, hr⟩ | ⟨⟨x, -, hx⟩, hy⟩
      · exact ⟨.type, hfs _ hl, hgs _ hr⟩
      · refine ⟨.row, hx ▸ .rowVar x.var x.src, ?_⟩
        rcases hy with ⟨y, -, hy⟩ | ⟨hs, tail, hy, -, hsub, -⟩
        · exact hy ▸ .rowVar y.var y.src
        · rw [hy]
          apply Ty.hasKind_ofFields.mpr
          intro f hf
          exact hsub.elim (fun hsub => hfs f (hsub hf)) (fun hsub => hgs f (hsub hf))
  | stuck | mismatch => exact ⟨nofun, nofun⟩

end Constraint.Kinded

/-! All states that a queue goes through. -/

namespace Solving

/-- All constraints that wait and all bindings are over a set of variables. -/
abbrev Over (X : Supply → Kind × VarId → Prop) (s : Solving) : Prop :=
  s.Holds (fun supply c => c.Over (X supply)) fun supply b => b.value.Over (X supply)

theorem over_invariant {X : Supply → Kind × VarId → Prop} (hX : Growing X) :
    Invariant (fun supply c => c.Over (X supply)) fun supply b => b.value.Over (X supply) where
  later hle h := ⟨h.left.imp fun _ => hX.mono hle, h.right.imp fun _ => hX.mono hle⟩
  laterMade hle h := h.imp fun _ => hX.mono hle
  swap h := ⟨h.right, h.left⟩
  subst hb h := h.subst hb
  bind h hturn := (h.turn hX hturn).1 _ rfl
  split h hturn := (h.turn hX hturn).2.1 _ rfl

/-- All constraints that wait and all bindings are between canonical types and keep to kinds. -/
abbrev Kinded (s : Solving) : Prop :=
  s.Holds (fun _ c => c.Canonical ∧ c.Kinded) fun _ b => b.value.Canonical ∧ b.Kinded

theorem canonical_invariant : Invariant (fun _ c => c.Canonical) fun _ b => b.value.Canonical where
  later _ h := h
  laterMade _ h := h
  swap h := ⟨h.right, h.left⟩
  subst hb h := ⟨Ty.canonical_subst hb h.left, Ty.canonical_subst hb h.right⟩
  bind h hturn := (((h.over _).turn growing_anyVar hturn).1 _ rfl).shape
  split h hturn d hd := (((h.over _).turn growing_anyVar hturn).2.1 _ rfl d hd).canonical

/-- Constraints that keep to kinds lead to such constraints and bindings only, whatever the shape of their records. -/
theorem kinds_invariant : Invariant (fun _ c => c.Kinded) fun _ b => b.Kinded where
  later _ h := h
  laterMade _ h := h
  swap h := h.imp fun _ => And.symm
  subst hb h := h.subst hb
  bind h hturn := (h.turn hturn).1 _ rfl
  split h hturn := (h.turn hturn).2 _ rfl

theorem kinded_invariant :
    Invariant (fun _ c => c.Canonical ∧ c.Kinded) fun _ b => b.value.Canonical ∧ b.Kinded :=
  canonical_invariant.and kinds_invariant

end Solving

/-! Open records with one label. -/

/-- A record with one label and a row variable. -/
def Ty.oneField (x : String) (v : VarId) : Ty VarId :=
  .record (Row.ofFields [(x, .leaf .num none)] (some ⟨v, none⟩)) none

theorem Ty.hasKind_oneField (k : Kind) (x : String) (v : VarId) : (Ty.oneField x v).HasKind k :=
  Ty.hasKind_ofFields.mpr (List.forall_mem_singleton.mpr (.leaf _ _))

theorem Ty.canonical_oneField (x : String) (v : VarId) : (Ty.oneField x v).Canonical :=
  .record _ _ (fun _ => trivial) (List.forall_mem_singleton.mpr (.leaf _ _)) (List.nodup_singleton _)

theorem Binding.not_cyclic_oneField (y : String) {v w : VarId} (hvw : v ≠ w) :
    ¬ (Binding.mk .row v none (.oneField y w)).Cyclic := by
  rw [Binding.Cyclic, Ty.oneField, Ty.mem_vars_ofFields]
  simp [Ty.vars, hvw]

/-- Two open records with a label each that the other lacks. -/
def crossing : Constraint VarId :=
  ⟨.oneField "x" 0, .oneField "y" 1⟩

theorem crossing_kinded : crossing.Canonical ∧ crossing.Kinded := by
  refine ⟨⟨Ty.canonical_oneField "x" 0, Ty.canonical_oneField "y" 1⟩, .type, ?_, ?_⟩
  · exact Ty.hasKind_oneField .type "x" 0
  · exact Ty.hasKind_oneField .type "y" 1

/-- Each record gets the label that it lacks, and both get the same row variable. -/
def crossed : List (Binding VarId) :=
  [⟨.row, 0, none, .oneField "y" 2⟩, ⟨.row, 1, none, .oneField "x" 2⟩]

theorem outcome_crossing : (Solving.start ⟨0, 2⟩ [crossing]).outcome 3 = (.solved crossed, ⟨0, 3⟩) := by
  rfl

theorem crossed_acyclic : ∀ b ∈ crossed, ¬ b.Cyclic := by
  intro b hb
  rcases List.mem_cons.mp hb with rfl | hb
  · exact Binding.not_cyclic_oneField "y" (by decide)
  · cases List.mem_singleton.mp hb
    exact Binding.not_cyclic_oneField "x" (by decide)

theorem crossed_kinded : ∀ b ∈ crossed, b.value.Canonical ∧ b.Kinded := by
  intro b hb
  rcases List.mem_cons.mp hb with rfl | hb
  · exact ⟨Ty.canonical_oneField "y" 2, Ty.hasKind_oneField .row "y" 2⟩
  · cases List.mem_singleton.mp hb
    exact ⟨Ty.canonical_oneField "x" 2, Ty.hasKind_oneField .row "x" 2⟩

end ScriptTypes
