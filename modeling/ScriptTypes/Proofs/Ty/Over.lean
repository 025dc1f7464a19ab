import ScriptTypes.Proofs.Ty.Copies
import ScriptTypes.Proofs.Ty.Kinds

/-! Types over a set of variables. The set may grow with the supply that hands variables out: then fresh variables are
in it, bindings to types over the set keep types over it, and copies of types are over it. -/

namespace ScriptTypes

/-- A set of variables for each supply that only grows, and has the variables handed out. -/
structure Growing (X : Supply → Kind × VarId → Prop) : Prop where
  mono {s s' : Supply} {x : Kind × VarId} : s.Le s' → X s x → X s' x
  fresh (s : Supply) (k : Kind) : X (s.next k).2 (k, (s.next k).1)

/-- All variables. -/
def anyVar (_ : Supply) (_ : Kind × VarId) : Prop := True

theorem growing_anyVar : Growing anyVar where
  mono _ _ := trivial
  fresh _ _ := trivial

theorem growing_issued : Growing Supply.Issued where
  mono h hx := h.issued hx
  fresh := Supply.next_issued

namespace Ty

/-- A canonical type whose variables are all in a set. -/
structure Over (X : Kind × VarId → Prop) (t : Ty VarId) : Prop where
  shape : t.Canonical
  vars : ∀ x ∈ t.vars, X x

variable {X : Kind × VarId → Prop}

theorem Over.imp {Y : Kind × VarId → Prop} {t : Ty VarId} (h : t.Over X) (hXY : ∀ x, X x → Y x) : t.Over Y :=
  ⟨h.shape, fun x hx => hXY x (h.vars x hx)⟩

theorem over_anyVar {supply : Supply} {t : Ty VarId} : t.Over (anyVar supply) ↔ t.Canonical :=
  ⟨Over.shape, fun h => ⟨h, fun _ _ => trivial⟩⟩

theorem over_leaf (l : Leaf) (s : Option Node) : (leaf l s).Over X := ⟨.leaf l s, nofun⟩

theorem over_var {v : VarId} (h : X (.type, v)) (s : Option Node) : (var v s).Over X :=
  ⟨.var v s, List.forall_mem_singleton.mpr h⟩

theorem over_rowVar {v : VarId} (h : X (.row, v)) (s : Option Node) : (rowVar v s).Over X :=
  ⟨.rowVar v s trivial, List.forall_mem_singleton.mpr h⟩

theorem over_arrow {d : List (Ty VarId)} {r : Ty VarId} {s : Option Node} :
    (arrow d r s).Over X ↔ (∀ t ∈ d, t.Over X) ∧ r.Over X := by
  constructor
  · rintro ⟨hs, hv⟩
    simp only [Ty.vars, List.mem_append, mem_varsList] at hv
    cases hs with
    | arrow _ hd hr =>
        refine ⟨?_, hr, fun x hx => hv x (.inr hx)⟩
        intro t ht
        exact ⟨hd t ht, fun x hx => hv x (.inl ⟨t, ht, hx⟩)⟩
  · rintro ⟨hd, hr⟩
    refine ⟨.arrow s (fun t ht => (hd t ht).shape) hr.shape, ?_⟩
    intro x hx
    simp only [Ty.vars, List.mem_append, mem_varsList] at hx
    rcases hx with ⟨t, ht, hx⟩ | hx
    · exact (hd t ht).vars x hx
    · exact hr.vars x hx

theorem over_con {n : String} {as : List (Ty VarId)} {s : Option Node} :
    (con n as s).Over X ↔ ∀ t ∈ as, t.Over X := by
  constructor
  · rintro ⟨hs, hv⟩ t ht
    simp only [Ty.vars, mem_varsList] at hv
    cases hs with
    | con _ _ has => exact ⟨has t ht, fun x hx => hv x ⟨t, ht, hx⟩⟩
  · intro h
    refine ⟨.con n s fun t ht => (h t ht).shape, ?_⟩
    intro x hx
    simp only [Ty.vars, mem_varsList] at hx
    obtain ⟨t, ht, hx⟩ := hx
    exact (h t ht).vars x hx

theorem over_array {t : Ty VarId} {s : Option Node} : (t.array s).Over X ↔ t.Over X := by
  rw [array, over_con, List.forall_mem_singleton]

theorem over_record {fs : Assoc (Ty VarId)} {tail : Option (RowVar VarId)} {s : Option Node}
    (hd : Assoc.Distinct fs) :
    (record (Row.ofFields fs tail) s).Over X ↔ (∀ f ∈ fs, f.2.Over X) ∧ ∀ v, tail = some v → X (.row, v.var) := by
  constructor
  · rintro ⟨hs, hv⟩
    have hshape := (hs.rest ⟨0, none⟩).2
    rw [rest_record hd] at hshape
    constructor
    · intro f hf
      exact ⟨hshape f hf, fun x hx => hv x (mem_vars_ofFields.mpr (.inr ⟨f, hf, hx⟩))⟩
    · intro v htail
      exact hv _ (mem_vars_ofFields.mpr (.inl ⟨v, htail, rfl⟩))
  · rintro ⟨hfs, htail⟩
    refine ⟨.record tail s (fun _ => trivial) (fun f hf => (hfs f hf).shape) hd, ?_⟩
    intro x hx
    rcases mem_vars_ofFields.mp hx with ⟨v, hv, rfl⟩ | ⟨f, hf, hx⟩
    · exact htail v hv
    · exact (hfs f hf).vars x hx

theorem Over.withSrc {t : Ty VarId} (h : t.Over X) (s : Option Node) : (t.withSrc s).Over X := by
  refine ⟨h.shape.withSrc s, ?_⟩
  rw [vars_withSrc]
  exact h.vars

theorem Over.subst {b : Binding VarId} (hb : b.value.Over X) {t : Ty VarId} (h : t.Over X) :
    (Id.run (t.subst b)).Over X := by
  refine ⟨canonical_subst hb.shape h.shape, ?_⟩
  intro x hx
  rcases mem_vars_subst hx with ⟨hx, -⟩ | ⟨-, hx⟩
  · exact h.vars x hx
  · exact hb.vars x hx

theorem Over.under {bs : List (Binding VarId)} (hbs : ∀ b ∈ bs, b.value.Over X) {t : Ty VarId} (h : t.Over X) :
    (t.under bs).Over X := by
  induction bs generalizing t with
  | nil => exact h
  | cons b bs ih =>
      obtain ⟨hb, hbs⟩ := List.forall_mem_cons.mp hbs
      rw [under_cons]
      exact ih hbs (.subst hb h)

end Ty

/-! Copies. The variables that a renaming has given are in the set, so those of a copy are. -/

section Copies

variable {V : Type} [DecidableEq V] {X : Supply → Kind × VarId → Prop} (hX : Growing X)

include hX

theorem given_after (s : Supply) (xs : List (Kind × V)) {k : Kind} {v : V} {w : VarId}
    (h : (Renaming.after (s, []) xs).2.find? k v = some w) : X (Renaming.after (s, []) xs).1 (k, w) := by
  refine Renaming.after_invariant (I := fun c => ∀ k v w, c.2.find? k v = some w → X c.1 (k, w)) ?_ nofun xs k v w h
  intro c k v hc
  cases hv : c.2.find? k v with
  | some w => rwa [Renaming.run_rename_of_some hv]
  | none =>
      rw [Renaming.run_rename_of_none hv]
      intro k' u w hu
      rw [Renaming.find?_cons] at hu
      split at hu
      · rename_i he
        cases he
        cases hu
        exact hX.fresh c.1 k
      · exact hX.mono (c.1.le_next k) (hc k' u w hu)

/-- Every copy is over the set, whatever variables the typing has. -/
theorem Typing.vars_instantiate (t : Typing V) (s : Supply) :
    ∀ x ∈ (t.instantiate s).1.vars, X (t.instantiate s).2 x := by
  obtain ⟨hs, hgiven⟩ := t.instantiate_given s
  intro x hx
  obtain ⟨v, hv⟩ := hgiven x hx
  rw [hs]
  exact given_after hX s t.vars hv

end Copies

end ScriptTypes
