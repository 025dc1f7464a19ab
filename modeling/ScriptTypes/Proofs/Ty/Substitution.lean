import ScriptTypes.Proofs.Ty.Opening

/-! Laws of bindings. Being alike is an equivalence that bindings respect, and a binding whose variable is not in its
value takes the variable out once and for all. -/

namespace ScriptTypes

namespace Ty

variable {b : Binding VarId} {t u w : Ty VarId}

theorem Alike.refl (ht : t.Canonical) : t.Alike t := (alike_iff ht ht).mpr rfl

theorem Alike.symm (ht : t.Canonical) (hu : u.Canonical) (h : t.Alike u) : u.Alike t :=
  (alike_iff hu ht).mpr ((alike_iff ht hu).mp h).symm

theorem Alike.trans (ht : t.Canonical) (hu : u.Canonical) (hw : w.Canonical) (htu : t.Alike u) (huw : u.Alike w) :
    t.Alike w :=
  (alike_iff ht hw).mpr (((alike_iff ht hu).mp htu).trans ((alike_iff hu hw).mp huw))

/-- Whatever the order of labels, fields that come with the value are hidden by those of both records. -/
theorem Alike.subst (hb : b.value.Canonical) (ht : t.Canonical) (hu : u.Canonical) (h : t.Alike u) :
    (Id.run (t.subst b)).Alike (Id.run (u.subst b)) :=
  (alike_iff (canonical_subst hb ht) (canonical_subst hb hu)).mpr (mono_subst_congr hb ht hu ((alike_iff ht hu).mp h))

/-- Being alike is a congruence for every binding to a type of canonical shape, on types of that shape. -/
theorem alike_congruence (hb : b.value.Canonical) :
    (Equivalence fun t u : {t : Ty VarId // t.Canonical} => t.1.Alike u.1) ∧
      ∀ t u : {t : Ty VarId // t.Canonical}, t.1.Alike u.1 → (Id.run (t.1.subst b)).Alike (Id.run (u.1.subst b)) := by
  refine ⟨⟨?_, ?_, ?_⟩, ?_⟩
  · intro t
    exact .refl t.2
  · intro t u
    exact .symm t.2 u.2
  · intro t u w
    exact .trans t.2 u.2 w.2
  · intro t u
    exact .subst hb t.2 u.2

/-- A row variable that is bound to `{ ...s, y: Bool, z: Num }`. -/
def sharing : Binding VarId :=
  ⟨.row, 0, none, record [.var ⟨1, none⟩, .fields [("y", leaf .bool none), ("z", leaf .num none)]] none⟩

/-- Two records list their labels in different orders, and what comes in shares one with them. -/
theorem alike_congruence_sharing :
    sharing.value.Canonical ∧
      (Id.run (subst sharing
        (record [.var ⟨0, none⟩, .fields [("x", leaf .num none), ("y", leaf .str none)]] none))).Alike
      (Id.run (subst sharing
        (record [.var ⟨0, none⟩, .fields [("y", leaf .str none), ("x", leaf .num none)]] none))) := by
  have hopen (v : VarId) (l l' : String) (a a' : Leaf) (hl : l ≠ l') :
      (record [.var ⟨v, none⟩, .fields [(l, leaf a none), (l', leaf a' none)]] none).Canonical := by
    refine .record (some ⟨v, none⟩) none (fun _ => trivial) ?_ (by simpa [Assoc.Distinct, Assoc.keys] using hl)
    exact List.forall_mem_cons.mpr ⟨.leaf a none, List.forall_mem_singleton.mpr (.leaf a' none)⟩
  have hvalue : sharing.value.Canonical := hopen 1 "y" "z" .bool .num (by decide)
  refine ⟨hvalue, ?_⟩
  exact (alike_congruence hvalue).2 ⟨_, hopen 0 "x" "y" .num .str (by decide)⟩
    ⟨_, hopen 0 "y" "x" .str .num (by decide)⟩ rfl

theorem not_mem_vars_subst (hb : ¬ b.Cyclic) (hrow : b.kind = .row → b.value.IsRow) (t : Ty VarId) :
    (b.kind, b.var) ∉ (Id.run (t.subst b)).vars := by
  intro h
  rcases mem_vars_subst h with ⟨-, hne⟩ | ⟨-, hcyclic⟩
  · exact hne hrow rfl
  · exact hb hcyclic

/-- A type stays as it is if and only if the variable does not occur in it. -/
theorem subst_eq_self_iff (hb : ¬ b.Cyclic) (hrow : b.kind = .row → b.value.IsRow) (hv : b.value.Canonical)
    (ht : t.Canonical) : Id.run (t.subst b) = t ↔ (b.kind, b.var) ∉ t.vars := by
  refine ⟨?_, subst_of_not_mem hv ht⟩
  intro h
  rw [← h]
  exact not_mem_vars_subst hb hrow t

/-- A binding takes its variable out of every type, and brings no variables but those of its value, in the place of
the one that goes. Afterwards there is nothing left for it to do. -/
theorem subst_eliminates (hb : ¬ b.Cyclic) (hrow : b.kind = .row → b.value.IsRow) (t : Ty VarId) :
    (b.kind, b.var) ∉ (Id.run (t.subst b)).vars ∧
      (∀ x ∈ (Id.run (t.subst b)).vars, x ∈ t.vars ∨ ((b.kind, b.var) ∈ t.vars ∧ x ∈ b.value.vars)) ∧
      (b.value.Canonical → t.Canonical →
        (Id.run (t.subst b) = t ↔ (b.kind, b.var) ∉ t.vars) ∧
          (Id.run ((Id.run (t.subst b)).subst b)).Alike (Id.run (t.subst b))) := by
  refine ⟨not_mem_vars_subst hb hrow t, ?_, ?_⟩
  · intro x hx
    exact (mem_vars_subst hx).imp_left And.left
  · intro hv ht
    have hcanonical := canonical_subst hv ht
    have hagain : Id.run ((Id.run (t.subst b)).subst b) = Id.run (t.subst b) :=
      (subst_eq_self_iff hb hrow hv hcanonical).mpr (not_mem_vars_subst hb hrow t)
    rw [hagain]
    exact ⟨subst_eq_self_iff hb hrow hv ht, .refl hcanonical⟩

/-- A row variable that is bound to `{ ...s, y: a }`. -/
def spliced : Binding VarId :=
  ⟨.row, 0, none, record [.var ⟨1, none⟩, .fields [("y", var 2 none)]] none⟩

/-- The variable at two depths, `{ ...r, y: { ...r, x: Num } }`. -/
def nested : Ty VarId :=
  record [.var ⟨0, none⟩, .fields [("y", record [.var ⟨0, none⟩, .fields [("x", leaf .num none)]] none)]] none

/-- What comes in is hidden in the outer record and not in the inner one. -/
theorem subst_eliminates_nested :
    ¬ spliced.Cyclic ∧ spliced.value.IsRow ∧ spliced.value.Canonical ∧ nested.Canonical ∧
      (.row, 0) ∉ (Id.run (nested.subst spliced)).vars ∧ Id.run (nested.subst spliced) ≠ nested ∧
      (Id.run ((Id.run (nested.subst spliced)).subst spliced)).Alike (Id.run (nested.subst spliced)) := by
  have hb : ¬ spliced.Cyclic := by
    unfold Binding.Cyclic
    decide
  have hrow : spliced.value.IsRow := .inr ⟨_, _, rfl⟩
  have hopen {t : Ty VarId} (v : VarId) (l : String) (ht : t.Canonical) :
      (record [.var ⟨v, none⟩, .fields [(l, t)]] none).Canonical :=
    .record (some ⟨v, none⟩) none (fun _ => trivial) (List.forall_mem_singleton.mpr ht) (List.nodup_singleton l)
  have hvalue : spliced.value.Canonical := hopen 1 "y" (.var 2 none)
  have ht : nested.Canonical := hopen 0 "y" (hopen 0 "x" (.leaf .num none))
  obtain ⟨hgone, -, hlaws⟩ := subst_eliminates hb (fun _ => hrow) nested
  obtain ⟨hself, hagain⟩ := hlaws hvalue ht
  exact ⟨hb, hrow, hvalue, ht, hgone, fun h => hself.mp h (by decide), hagain⟩

end Ty

end ScriptTypes
