import ScriptTypes.Proofs.Ty.Opening
import ScriptTypes.Proofs.Ty.Over
import ScriptTypes.Proofs.Ty.Renaming

/-! Types under other variables and other nodes. Nothing that is done with types looks at the variables themselves or
at the nodes: bindings are applied, types compared and copies made in the same way under every renaming that keeps
variables apart. -/

namespace ScriptTypes

/-! Bindings. -/

def Binding.relabel {V W : Type} (f : Kind → V → W) (g : Node → Node) (b : Binding V) : Binding W :=
  ⟨b.kind, f b.kind b.var, b.src.map g, b.value.relabel f g⟩

namespace Ty

variable {f : Kind → VarId → VarId}

theorem rowsFor_relabel (g : Node → Node) (b : Binding VarId) (v : RowVar VarId) :
    (b.relabel f g).rowsFor (v.relabel f g) = (b.rowsFor v).map (Row.map (RowVar.relabel f g) (relabel f g)) := by
  cases h : b.value with
  | record rows s => simp [Binding.rowsFor, Binding.relabel, h]
  | rowVar w s => simp [Binding.rowsFor, Binding.relabel, h, Row.map, RowVar.relabel, Option.map_or]
  | _ => simp [Binding.rowsFor, Binding.relabel, h, Row.map]

variable (hf : ∀ k, Function.Injective (f k))

include hf

theorem hits_relabel_iff {g : Node → Node} {b : Binding VarId} {k : Kind} {v : VarId} :
    (b.relabel f g).kind = k ∧ f k v = (b.relabel f g).var ↔ b.kind = k ∧ v = b.var := by
  refine and_congr_right ?_
  intro hk
  cases hk
  exact (hf b.kind).eq_iff

/-- Applying a binding commutes with renaming. -/
theorem subst_relabel (g : Node → Node) (b : Binding VarId) (t : Ty VarId) :
    Id.run ((t.relabel f g).subst (b.relabel f g)) = (Id.run (t.subst b)).relabel f g := by
  induction t using ind with
  | leaf l s =>
      rw [relabel_leaf]
      exact (relabel_leaf f g l s).symm
  | var v s =>
      rw [relabel_var, run_subst_type, run_subst_type, if_congr (hits_relabel_iff hf) rfl rfl, apply_ite (relabel f g),
        ← inPlaceOf_relabel, relabel_var]
      rfl
  | rowVar v s =>
      rw [relabel_rowVar, run_subst_row, run_subst_row, if_congr (hits_relabel_iff hf) rfl rfl, apply_ite (relabel f g),
        ← inPlaceOf_relabel, relabel_rowVar]
      rfl
  | arrow d r s ihd ihr =>
      rw [relabel_arrow, run_subst_arrow, run_subst_arrow, relabel_arrow, ihr, List.map_map, List.map_map]
      exact congrArg (arrow · _ _) (List.map_congr_left ihd)
  | con n as s ih =>
      rw [relabel_con, run_subst_con, run_subst_con, relabel_con, List.map_map, List.map_map]
      exact congrArg (con n · _) (List.map_congr_left ih)
  | record rows s ih =>
      rw [relabel_record, run_subst_rows, run_subst_rows, relabel_record, ← Row.merge_map, List.flatMap_map,
        List.map_flatMap]
      refine congrArg (fun rows => record (Row.merge rows) (s.map g)) (List.flatMap_congr ?_)
      intro row hrow
      cases row with
      | fields fs =>
          refine congrArg (fun fs => [Row.fields fs]) ?_
          simp only [Assoc.mapValues, List.map_map]
          exact List.map_congr_left fun e he => Prod.ext rfl (ih fs hrow e he)
      | var v =>
          simp only [Row.map, Binding.substRow]
          rw [apply_ite (List.map _), ← rowsFor_relabel]
          exact if_congr (hits_relabel_iff hf) rfl rfl

theorem under_relabel (g : Node → Node) (t : Ty VarId) (bs : List (Binding VarId)) :
    (t.relabel f g).under (bs.map (Binding.relabel f g)) = (t.under bs).relabel f g := by
  induction bs generalizing t with
  | nil => rfl
  | cons b bs ih => rw [List.map_cons, under_cons, under_cons, subst_relabel hf, ih]

end Ty

/-! Comparison. -/

/-- A relation between tests that are run in two ways. Answers that are known beforehand are related, and so are tests
one after the other if each is. -/
structure Tests {m m' : Type → Type} [Monad m] [Monad m'] (R : m Bool → m' Bool → Prop) : Prop where
  pure (b : Bool) : R (pure b) (pure b)
  and {x y : m Bool} {x' y' : m' Bool} : R x x' → R y y' →
    R (x >>= fun b => if b = true then y else Pure.pure false)
      (x' >>= fun b => if b = true then y' else Pure.pure false)

namespace Ty

theorem rowTests_eq {m : Type → Type} [Monad m] {V : Type} [Comparing m V] (rows : List (Row V (Ty V))) :
    rowTests (m := m) rows = rows.map (Row.map id fun t => same t) := by
  induction rows with
  | nil => rfl
  | cons row rows ih =>
      cases row with
      | fields fs => rw [rowTests, ih, fieldTests_eq, List.map_cons, Row.map]
      | var v => rw [rowTests, ih, List.map_cons, Row.map, id]

section Tests

variable {m m' : Type → Type} [Monad m] [Monad m'] {R : m Bool → m' Bool → Prop} (hR : Tests R)

include hR

theorem tests_ite {c : Prop} [Decidable c] {x : m Bool} {x' : m' Bool} (h : R x x') :
    R (if c then x else pure false) (if c then x' else pure false) := by
  split
  · exact h
  · exact hR.pure false

theorem tests_allM {α β γ : Type} {l : γ → α} {l' : γ → β} {p : α → m Bool} {p' : β → m' Bool} {cs : List γ}
    (h : ∀ c ∈ cs, R (p (l c)) (p' (l' c))) : R ((cs.map l).allM p) ((cs.map l').allM p') := by
  induction cs with
  | nil => exact hR.pure true
  | cons c cs ih =>
      obtain ⟨hc, hcs⟩ := List.forall_mem_cons.mp h
      have hand := hR.and hc (ih hcs)
      have hif : ∀ {n : Type → Type} [Monad n] (b : Bool) (x : n Bool),
          (if b = true then x else pure false) = match b with | true => x | false => pure false := by
        intro n _ b x
        cases b <;> rfl
      simp only [hif] at hand
      exact hand

/-! Two types, each under two renamings. If the variables are compared alike, the types are. -/

variable {U W V V' : Type} [Comparing m V] [Comparing m' V'] {f : Kind → U → V} {f' : Kind → U → V'} {h : Kind → W → V}
  {h' : Kind → W → V'} {g g' : Node → Node}
  (hvar : ∀ k u w, R (Comparing.same k (f k u) (h k w)) (Comparing.same k (f' k u) (h' k w)))

theorem tests_sameList {ts : List (Ty U)} {us : List (Ty W)}
    (ih : ∀ t ∈ ts, ∀ u : Ty W, R ((t.relabel f g).same (u.relabel h g)) ((t.relabel f' g').same (u.relabel h' g'))) :
    R (sameList (ts.map (relabel f g)) (us.map (relabel h g)))
      (sameList (ts.map (relabel f' g')) (us.map (relabel h' g'))) := by
  induction ts generalizing us with
  | nil => exact hR.pure true
  | cons t ts iht =>
      cases us with
      | nil => exact hR.pure true
      | cons u us =>
          obtain ⟨ht, hts⟩ := List.forall_mem_cons.mp ih
          simp only [List.map_cons, sameList]
          exact hR.and (ht u) (iht hts)

include hvar

theorem tests_sameTail (v : Option (RowVar U)) (w : Option (RowVar W)) :
    R (sameTail (v.map (RowVar.relabel f g)) (w.map (RowVar.relabel h g)))
      (sameTail (v.map (RowVar.relabel f' g')) (w.map (RowVar.relabel h' g'))) := by
  cases v with
  | none =>
      cases w with
      | none => exact hR.pure true
      | some w => exact hR.pure false
  | some v =>
      cases w with
      | none => exact hR.pure false
      | some w => exact hvar .row v.var w.var

theorem tests_sameRecord {rows : List (Row U (Ty U))} {rows' : List (Row W (Ty W))}
    (ih : ∀ fs, Row.fields fs ∈ rows → ∀ e ∈ fs, ∀ u : Ty W,
      R ((e.2.relabel f g).same (u.relabel h g)) ((e.2.relabel f' g').same (u.relabel h' g'))) :
    R (sameRecord (rowTests (rows.map (Row.map (RowVar.relabel f g) (relabel f g))))
        (rows'.map (Row.map (RowVar.relabel h g) (relabel h g))))
      (sameRecord (rowTests (rows.map (Row.map (RowVar.relabel f' g') (relabel f' g'))))
        (rows'.map (Row.map (RowVar.relabel h' g') (relabel h' g')))) := by
  rw [rowTests_eq, rowTests_eq, sameRecord, sameRecord]
  simp only [Row.flatten_map]
  cases hr : Row.flatten rows with
  | error vs => exact hR.pure false
  | ok r =>
      cases Row.flatten rows' with
      | error vs => exact hR.pure false
      | ok r' =>
          simp only [FlatRecord.map, Option.map_id, id_eq, Assoc.mapValues, List.length_map, List.map_map]
          refine hR.and (tests_sameTail hR hvar r.tail r'.tail) (tests_ite hR (tests_allM hR ?_))
          intro e he
          obtain ⟨fs, hfs, he⟩ := Row.mem_of_flatten hr he
          simp only [Function.comp_apply]
          rw [← Assoc.mapValues, ← Assoc.mapValues, Assoc.get?_mapValues, Assoc.get?_mapValues]
          cases Assoc.get? r'.fields e.1 with
          | none => exact hR.pure false
          | some u => exact ih fs hfs e he u

/-- By induction on the first type: a test of two types is made of tests of variables, one after the other. -/
theorem tests_same (t : Ty U) (u : Ty W) :
    R ((t.relabel f g).same (u.relabel h g)) ((t.relabel f' g').same (u.relabel h' g')) := by
  induction t using ind generalizing u with
  | leaf l s =>
      cases u with
      | leaf l' s' =>
          simp only [relabel_leaf, same]
          exact hR.pure _
      | var | rowVar | arrow | con | record =>
          simp only [relabel_leaf, relabel_var, relabel_rowVar, relabel_arrow, relabel_con, relabel_record, same]
          exact hR.pure false
  | var v s =>
      cases u with
      | var w s' =>
          simp only [relabel_var, same]
          exact hvar .type v w
      | leaf | rowVar | arrow | con | record =>
          simp only [relabel_leaf, relabel_var, relabel_rowVar, relabel_arrow, relabel_con, relabel_record, same]
          exact hR.pure false
  | rowVar v s =>
      cases u with
      | rowVar w s' =>
          simp only [relabel_rowVar, same]
          exact hvar .row v w
      | leaf | var | arrow | con | record =>
          simp only [relabel_leaf, relabel_var, relabel_rowVar, relabel_arrow, relabel_con, relabel_record, same]
          exact hR.pure false
  | arrow d r s ihd ihr =>
      cases u with
      | arrow d' r' s' =>
          simp only [relabel_arrow, same, List.length_map]
          exact tests_ite hR (hR.and (tests_sameList hR ihd) (ihr r'))
      | leaf | var | rowVar | con | record =>
          simp only [relabel_leaf, relabel_var, relabel_rowVar, relabel_arrow, relabel_con, relabel_record, same]
          exact hR.pure false
  | con n as s ih =>
      cases u with
      | con n' as' s' =>
          simp only [relabel_con, same, List.length_map]
          exact tests_ite hR (tests_sameList hR ih)
      | leaf | var | rowVar | arrow | record =>
          simp only [relabel_leaf, relabel_var, relabel_rowVar, relabel_arrow, relabel_con, relabel_record, same]
          exact hR.pure false
  | record rows s ih =>
      cases u with
      | record rows' s' =>
          simp only [relabel_record, same]
          exact tests_sameRecord hR hvar ih
      | leaf | var | rowVar | arrow | con =>
          simp only [relabel_leaf, relabel_var, relabel_rowVar, relabel_arrow, relabel_con, relabel_record, same]
          exact hR.pure false

end Tests

/-- Comparison does not see a renaming. Where the comparison of two renamed variables is a test and nothing more, so is
that of two renamed types. -/
theorem same_relabel {m : Type → Type} [Monad m] [LawfulMonad m] {V : Type} [Comparing m V] {f : Kind → VarId → V}
    (hf : ∀ k v w, (Comparing.same k (f k v) (f k w) : m Bool) = pure (v == w)) (g : Node → Node) (t u : Ty VarId) :
    ((t.relabel f g).same (u.relabel f g) : m Bool) = pure (Id.run (t.same u)) := by
  have hR : Tests fun (x : m Bool) (y : Id Bool) => x = pure (Id.run y) := by
    refine ⟨fun _ => rfl, ?_⟩
    rintro _ _ x y rfl rfl
    rw [pure_bind, Id.run_bind]
    cases Id.run x <;> rfl
  have h : ((t.relabel f g).same (u.relabel f g) : m Bool) =
      pure (Id.run ((t.relabel (fun _ v => v) id).same (u.relabel (fun _ v => v) id))) :=
    tests_same hR hf t u
  rwa [relabel_id, relabel_id] at h

theorem same_relabel_of_injective {f : Kind → VarId → VarId} (hf : ∀ k, Function.Injective (f k)) (g : Node → Node)
    (t u : Ty VarId) : Id.run ((t.relabel f g).same (u.relabel f g)) = Id.run (t.same u) := by
  refine congrArg Id.run (same_relabel (m := Id) (fun k v w => ?_) g t u)
  exact congrArg pure (Bool.eq_iff_iff.mpr (by simp [(hf k).eq_iff]))

end Ty

/-! Copies. -/

/-- A renaming that keeps variables apart, and takes the variables that one supply will hand out to those of another
one, in order. -/
structure Supply.Renames (f : Kind → VarId → VarId) (s s' : Supply) : Prop where
  injective : ∀ k, Function.Injective (f k)
  types : ∀ i : Nat, f .type (s.types + i) = s'.types + i
  rows : ∀ i : Nat, f .row (s.rows + i) = s'.rows + i

theorem Supply.Renames.next {f : Kind → VarId → VarId} {s s' : Supply} (h : s.Renames f s') (k : Kind) :
    (s'.next k).1 = f k (s.next k).1 ∧ (s.next k).2.Renames f (s'.next k).2 := by
  cases k with
  | type =>
      refine ⟨(h.types 0).symm, h.injective, ?_, h.rows⟩
      intro i
      change f .type (s.types + 1 + i) = s'.types + 1 + i
      rw [Nat.add_assoc, h.types, Nat.add_assoc]
  | row =>
      refine ⟨(h.rows 0).symm, h.injective, h.types, ?_⟩
      intro i
      change f .row (s.rows + 1 + i) = s'.rows + 1 + i
      rw [Nat.add_assoc, h.rows, Nat.add_assoc]

section Copy

variable {V W : Type} (f : Kind → V → W) (f' : Kind → VarId → VarId)

/-- Two states of copying, the second one over renamed variables. -/
structure Mirrors (c : Supply × Renaming V) (c' : Supply × Renaming W) : Prop where
  supply : c.1.Renames f' c'.1
  given : c'.2 = c.2.map fun e => ((e.1.1, f e.1.1 e.1.2), f' e.1.1 e.2)

variable {f f'} [DecidableEq V] [DecidableEq W] (hf : ∀ k, Function.Injective (f k))

include hf

theorem find?_map (r : Renaming V) (k : Kind) (v : V) :
    Renaming.find? (r.map fun e => ((e.1.1, f e.1.1 e.1.2), f' e.1.1 e.2)) k (f k v) =
      (Renaming.find? r k v).map (f' k) := by
  induction r with
  | nil => rfl
  | cons e r ih =>
      rw [List.map_cons, Renaming.find?_cons, Renaming.find?_cons, ih, apply_ite (Option.map (f' k))]
      by_cases h : (k, v) = e.1
      · rw [if_pos h, if_pos (by rw [← h]), ← h, Option.map_some]
      · rw [if_neg h, if_neg fun he => h (Kind.renamed_injective hf he)]

theorem Mirrors.find? {c : Supply × Renaming V} {c' : Supply × Renaming W} (h : Mirrors f f' c c') (k : Kind) (v : V) :
    c'.2.find? k (f k v) = (c.2.find? k v).map (f' k) := by
  rw [h.given]
  exact find?_map hf c.2 k v

theorem Mirrors.rename {c : Supply × Renaming V} {c' : Supply × Renaming W} (h : Mirrors f f' c c') (k : Kind) (v : V) :
    Mirrors f f' (Id.run ((Renaming.rename k v).run c)).2 (Id.run ((Renaming.rename k (f k v)).run c')).2 := by
  have hfind := h.find? hf k v
  cases hv : c.2.find? k v with
  | some w =>
      rw [hv] at hfind
      rwa [Renaming.run_rename_of_some hv, Renaming.run_rename_of_some hfind]
  | none =>
      rw [hv] at hfind
      rw [Renaming.run_rename_of_none hv, Renaming.run_rename_of_none hfind]
      obtain ⟨hnext, hsupply⟩ := h.supply.next k
      refine ⟨hsupply, ?_⟩
      rw [List.map_cons, ← h.given, hnext]

theorem Mirrors.after {c : Supply × Renaming V} {c' : Supply × Renaming W} (h : Mirrors f f' c c')
    (xs : List (Kind × V)) :
    Mirrors f f' (Renaming.after c xs) (Renaming.after c' (xs.map fun x => (x.1, f x.1 x.2))) := by
  induction xs generalizing c c' with
  | nil => exact h
  | cons x xs ih => exact ih (h.rename hf x.1 x.2)

end Copy

/-! Typings. -/

/-- Rename the names that something is asked of, all variables, and the nodes that types come from. -/
def Typing.relabel {V W : Type} (φ : String → String) (f : Kind → V → W) (g : Node → Node) (t : Typing V) : Typing W :=
  ⟨Assoc.rename φ (Ty.relabel f g) t.needs, t.type.relabel f g⟩

theorem Typing.vars_relabel {V W : Type} (φ : String → String) (f : Kind → V → W) (g : Node → Node) (t : Typing V) :
    (t.relabel φ f g).vars = t.vars.map fun x => (x.1, f x.1 x.2) := by
  simp only [vars, relabel, Assoc.rename, Ty.vars_relabel, List.flatMap_map, List.map_append, List.map_flatMap]

/-- The copy of a renamed typing is the renamed copy. -/
theorem Typing.instantiate_relabel {V W : Type} [DecidableEq V] [DecidableEq W] {f : Kind → V → W}
    (hf : ∀ k, Function.Injective (f k)) {f' : Kind → VarId → VarId} {s s' : Supply} (h : s.Renames f' s')
    (φ : String → String) (g : Node → Node) (t : Typing V) :
    ((t.relabel φ f g).instantiate s').1 = (t.instantiate s).1.relabel φ f' g ∧
      (t.instantiate s).2.Renames f' ((t.relabel φ f g).instantiate s').2 := by
  have hafter : Mirrors f f' (Renaming.after (s, []) t.vars) (Renaming.after (s', []) (t.relabel φ f g).vars) := by
    rw [vars_relabel]
    exact Mirrors.after hf ⟨h, rfl⟩ t.vars
  obtain ⟨ρ, hρ⟩ := (Renaming.after (s, []) t.vars).2.exists_follows
  obtain ⟨ρ', hρ'⟩ := (Renaming.after (s', []) (t.relabel φ f g).vars).2.exists_follows
  rw [instantiate_eq_map hρ, instantiate_eq_map hρ']
  refine ⟨?_, hafter.supply⟩
  -- Renaming and copying come to the same as copying and renaming, at each variable that is copied.
  have hpart : ∀ u : Ty V, (∀ x ∈ u.vars, x ∈ t.vars) → (u.relabel f g).map ρ' = (u.map ρ).relabel f' g := by
    intro u hu
    rw [Ty.map_eq_relabel, Ty.map_eq_relabel, Ty.relabel_relabel, Ty.relabel_relabel]
    refine Ty.relabel_congr ?_
    intro x hx
    obtain ⟨w, hw⟩ := Renaming.exists_find?_after (s, []) (hu x hx)
    have hw' := hafter.find? hf x.1 x.2
    rw [hw, Option.map_some] at hw'
    rw [hρ _ _ _ hw, hρ' _ _ _ hw']
  refine congrArg₂ Typing.mk ?_ (hpart t.type fun x hx => List.mem_append.mpr (.inr hx))
  simp only [relabel, map, Assoc.rename, List.map_map]
  refine List.map_congr_left ?_
  intro e he
  exact Prod.ext rfl (hpart e.2 fun x hx => List.mem_append.mpr (.inl (List.mem_flatMap.mpr ⟨e, he, hx⟩)))

end ScriptTypes
