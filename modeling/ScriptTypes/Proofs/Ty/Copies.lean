import ScriptTypes.Proofs.Ty.Renaming
import ScriptTypes.Typing.Basic

/-! Copies over fresh variables. Copying gives the variables of a type fresh ones, from left to right, and what it has
given it keeps. So all that is copied in one go is renamed by one renaming. Different variables of a kind get different
fresh ones, which the supply has not handed out before: copies share variables exactly where the originals do, and two
copies share none. -/

namespace ScriptTypes

namespace Supply

/-- A later supply has handed out more. -/
structure Le (s s' : Supply) : Prop where
  types : s.types ≤ s'.types
  rows : s.rows ≤ s'.rows

theorem Le.refl (s : Supply) : s.Le s := ⟨Nat.le_refl _, Nat.le_refl _⟩

theorem Le.trans {s s₁ s₂ : Supply} (h : s.Le s₁) (h' : s₁.Le s₂) : s.Le s₂ :=
  ⟨Nat.le_trans h.types h'.types, Nat.le_trans h.rows h'.rows⟩

theorem le_next (s : Supply) (k : Kind) : s.Le (s.next k).2 := by
  cases k with
  | type => exact ⟨Nat.le_succ _, Nat.le_refl _⟩
  | row => exact ⟨Nat.le_refl _, Nat.le_succ _⟩

/-- The variables that a supply has handed out. -/
def Issued (s : Supply) : Kind × VarId → Prop
  | (.type, v) => v < s.types
  | (.row, v) => v < s.rows

theorem Le.issued {s s' : Supply} (h : s.Le s') {x : Kind × VarId} (hx : s.Issued x) : s'.Issued x := by
  obtain ⟨k, v⟩ := x
  cases k with
  | type => exact Nat.lt_of_lt_of_le hx h.types
  | row => exact Nat.lt_of_lt_of_le hx h.rows

theorem Le.not_issued {s s' : Supply} (h : s.Le s') {x : Kind × VarId} (hx : ¬ s'.Issued x) : ¬ s.Issued x :=
  fun hs => hx (h.issued hs)

theorem next_not_issued (s : Supply) (k : Kind) : ¬ s.Issued (k, (s.next k).1) := by
  cases k <;> exact Nat.lt_irrefl _

theorem next_issued (s : Supply) (k : Kind) : (s.next k).2.Issued (k, (s.next k).1) := by
  cases k <;> exact Nat.lt_succ_self _

/-- The variables of the first supply, moved up to those that another one still has. -/
def shift (s : Supply) : Kind → VarId → VarId
  | .type, v => s.types + v
  | .row, v => s.rows + v

theorem shift_injective (s : Supply) (k : Kind) : Function.Injective (s.shift k) := by
  cases k <;> exact fun _ _ => Nat.add_left_cancel

theorem shift_not_issued (s : Supply) (k : Kind) (v : VarId) : ¬ s.Issued (k, s.shift k v) := by
  cases k <;> exact Nat.not_lt.mpr (Nat.le_add_right _ _)

end Supply

namespace Renaming

variable {V : Type} [DecidableEq V]

theorem find?_cons (r : Renaming V) (x : Kind × V) (w : VarId) (k : Kind) (v : V) :
    find? ((x, w) :: r) k v = if (k, v) = x then some w else r.find? k v := by
  by_cases h : (k, v) = x
  · rw [if_pos h, find?, h, List.lookup_cons_self]
  · rw [if_neg h, find?, List.lookup_cons, beq_eq_false_iff_ne.mpr h]
    rfl

/-- A variable that has a fresh one keeps it, any other one gets the next of the supply. -/
theorem run_rename (c : Supply × Renaming V) (k : Kind) (v : V) :
    Id.run ((rename k v).run c) =
      match c.2.find? k v with
      | some w => (w, c)
      | none => ((c.1.next k).1, ((c.1.next k).2, ((k, v), (c.1.next k).1) :: c.2)) := by
  obtain ⟨s, r⟩ := c
  rfl

theorem run_rename_of_some {c : Supply × Renaming V} {k : Kind} {v : V} {w : VarId} (h : c.2.find? k v = some w) :
    Id.run ((rename k v).run c) = (w, c) := by
  rw [run_rename, h]

theorem run_rename_of_none {c : Supply × Renaming V} {k : Kind} {v : V} (h : c.2.find? k v = none) :
    Id.run ((rename k v).run c) = ((c.1.next k).1, ((c.1.next k).2, ((k, v), (c.1.next k).1) :: c.2)) := by
  rw [run_rename, h]

/-- The state after variables have got fresh ones, one after the other. -/
def after (c : Supply × Renaming V) : List (Kind × V) → Supply × Renaming V
  | [] => c
  | x :: xs => after (Id.run ((rename x.1 x.2).run c)).2 xs

theorem after_append (c : Supply × Renaming V) (xs ys : List (Kind × V)) :
    after c (xs ++ ys) = after (after c xs) ys := by
  induction xs generalizing c with
  | nil => rfl
  | cons x xs ih => exact ih _

/-- What holds of a state and is kept when a variable gets a fresh one holds of all later states. -/
theorem after_invariant {I : Supply × Renaming V → Prop}
    (hI : ∀ c k v, I c → I (Id.run ((rename k v).run c)).2) {c : Supply × Renaming V} (h : I c)
    (xs : List (Kind × V)) : I (after c xs) := by
  induction xs generalizing c with
  | nil => exact h
  | cons x xs ih => exact ih (hI c x.1 x.2 h)

theorem find?_rename (c : Supply × Renaming V) (k : Kind) (v : V) :
    (Id.run ((rename k v).run c)).2.2.find? k v = some (Id.run ((rename k v).run c)).1 := by
  cases h : c.2.find? k v with
  | some w =>
      rw [run_rename_of_some h]
      exact h
  | none =>
      rw [run_rename_of_none h]
      exact (find?_cons _ _ _ k v).trans (if_pos rfl)

theorem find?_of_find? {c : Supply × Renaming V} {k : Kind} {v : V} {w : VarId} (h : c.2.find? k v = some w)
    (xs : List (Kind × V)) : (after c xs).2.find? k v = some w := by
  refine after_invariant (I := fun c => c.2.find? k v = some w) ?_ h xs
  intro c k' v' h
  cases h' : c.2.find? k' v' with
  | some w' => rwa [run_rename_of_some h']
  | none =>
      rw [run_rename_of_none h']
      refine (find?_cons _ _ _ k v).trans ?_
      rw [if_neg, h]
      rintro ⟨⟩
      cases h.symm.trans h'

theorem exists_find?_after (c : Supply × Renaming V) {xs : List (Kind × V)} {x : Kind × V} (hx : x ∈ xs) :
    ∃ w, (after c xs).2.find? x.1 x.2 = some w := by
  induction xs generalizing c with
  | nil => cases hx
  | cons y xs ih =>
      rcases List.mem_cons.mp hx with rfl | hx
      · exact ⟨_, find?_of_find? (find?_rename c x.1 x.2) xs⟩
      · exact ih _ hx

/-- The variables given are new since a supply, and no two of a kind are the same. -/
structure FreshSince (s : Supply) (c : Supply × Renaming V) : Prop where
  le : s.Le c.1
  new {k : Kind} {v : V} {w : VarId} : c.2.find? k v = some w → ¬ s.Issued (k, w) ∧ c.1.Issued (k, w)
  injective {k : Kind} {v v' : V} {w : VarId} : c.2.find? k v = some w → c.2.find? k v' = some w → v = v'

theorem freshSince_start (s : Supply) : FreshSince s (s, ([] : Renaming V)) := ⟨.refl s, nofun, nofun⟩

theorem FreshSince.rename {s : Supply} {c : Supply × Renaming V} (h : FreshSince s c) (k : Kind) (v : V) :
    FreshSince s (Id.run ((Renaming.rename k v).run c)).2 := by
  cases hv : c.2.find? k v with
  | some w => rwa [run_rename_of_some hv]
  | none =>
      rw [run_rename_of_none hv]
      have hnew : ¬ s.Issued (k, (c.1.next k).1) := h.le.not_issued (c.1.next_not_issued k)
      -- What was given before has been handed out, so the new variable is another one.
      have hother : ∀ {u w}, c.2.find? k u = some w → w ≠ (c.1.next k).1 := by
        rintro u w hu rfl
        exact c.1.next_not_issued k (h.new hu).2
      refine ⟨h.le.trans (c.1.le_next k), ?_, ?_⟩
      · intro k' u w hu
        rw [find?_cons] at hu
        split at hu
        · rename_i he
          cases he
          cases hu
          exact ⟨hnew, c.1.next_issued k⟩
        · exact ⟨(h.new hu).1, (c.1.le_next k).issued (h.new hu).2⟩
      · intro k' u u' w hu hu'
        rw [find?_cons] at hu hu'
        split at hu <;> split at hu'
        · rename_i he he'
          cases he
          cases he'
          rfl
        · rename_i he _
          cases he
          cases hu
          exact absurd rfl (hother hu')
        · rename_i _ he
          cases he
          cases hu'
          exact absurd rfl (hother hu)
        · exact h.injective hu hu'

theorem FreshSince.after {s : Supply} {c : Supply × Renaming V} (h : FreshSince s c) (xs : List (Kind × V)) :
    FreshSince s (after c xs) :=
  after_invariant (fun _ k v h => h.rename k v) h xs

/-- A renaming of all variables that gives what has been given. -/
def Follows (r : Renaming V) (f : Kind → V → VarId) : Prop :=
  ∀ k v w, r.find? k v = some w → f k v = w

theorem Follows.of_after {c : Supply × Renaming V} {xs : List (Kind × V)} {f : Kind → V → VarId}
    (h : (Renaming.after c xs).2.Follows f) : c.2.Follows f :=
  fun k v w hv => h k v w (find?_of_find? hv xs)

/-- What has been given, and for all other variables something else. -/
def orElse (r : Renaming V) (other : Kind → V → VarId) (k : Kind) (v : V) : VarId :=
  (r.find? k v).getD (other k v)

theorem follows_orElse (r : Renaming V) (other : Kind → V → VarId) : r.Follows (r.orElse other) := by
  intro k v w h
  rw [orElse, h, Option.getD_some]

theorem exists_follows (r : Renaming V) : ∃ f, r.Follows f := ⟨_, r.follows_orElse fun _ _ => 0⟩

theorem FreshSince.orElse_not_issued {s : Supply} {c : Supply × Renaming VarId} (h : FreshSince s c) (k : Kind)
    (v : VarId) : ¬ s.Issued (k, c.2.orElse c.1.shift k v) := by
  unfold orElse
  cases hv : c.2.find? k v with
  | some w => exact (h.new hv).1
  | none => exact h.le.not_issued (c.1.shift_not_issued k v)

/-- Variables that were given and variables still to come are different. -/
theorem FreshSince.orElse_injective {s : Supply} {c : Supply × Renaming VarId} (h : FreshSince s c) (k : Kind) :
    Function.Injective (c.2.orElse c.1.shift k) := by
  intro v v' he
  have hne : ∀ {u u' w}, c.2.find? k u = some w → w ≠ c.1.shift k u' := by
    rintro u u' w hu rfl
    exact c.1.shift_not_issued k u' (h.new hu).2
  unfold orElse at he
  cases hv : c.2.find? k v with
  | some w =>
      cases hv' : c.2.find? k v' with
      | some w' =>
          rw [hv, hv', Option.getD_some, Option.getD_some] at he
          exact h.injective hv (he ▸ hv')
      | none =>
          rw [hv, hv', Option.getD_some, Option.getD_none] at he
          exact absurd he (hne hv)
  | none =>
      cases hv' : c.2.find? k v' with
      | some w' =>
          rw [hv, hv', Option.getD_some, Option.getD_none] at he
          exact absurd he.symm (hne hv')
      | none =>
          rw [hv, hv', Option.getD_none, Option.getD_none] at he
          exact c.1.shift_injective k he

/-- What is returned while variables get fresh ones depends on all that are given in the end. -/
def Copies {α : Type} (x : StateM (Supply × Renaming V) α) (xs : List (Kind × V)) (F : (Kind → V → VarId) → α) : Prop :=
  ∀ c, (Id.run (x.run c)).2 = after c xs ∧ ∀ f, (after c xs).2.Follows f → (Id.run (x.run c)).1 = F f

theorem Copies.pure {α : Type} (a : α) : Copies (V := V) (pure a) [] fun _ => a := fun _ => ⟨rfl, fun _ _ => rfl⟩

theorem Copies.bind {α β : Type} {x : StateM (Supply × Renaming V) α} {y : α → StateM (Supply × Renaming V) β}
    {xs ys : List (Kind × V)} {F : (Kind → V → VarId) → α} {G : α → (Kind → V → VarId) → β} (hx : Copies x xs F)
    (hy : ∀ a, Copies (y a) ys (G a)) : Copies (x >>= y) (xs ++ ys) fun f => G (F f) f := by
  intro c
  obtain ⟨hstate, hvalue⟩ := hx c
  obtain ⟨hstate', hvalue'⟩ := hy (Id.run (x.run c)).1 (Id.run (x.run c)).2
  rw [hstate, ← after_append] at hstate' hvalue'
  refine ⟨?_, fun f hf => ?_⟩
  · rw [← hstate', ← hstate]
    rfl
  · change _ = G (F f) f
    rw [← hvalue f (Follows.of_after (after_append c xs ys ▸ hf)), ← hvalue' f hf, ← hstate]
    rfl

theorem copies_rename (k : Kind) (v : V) : Copies (rename k v) [(k, v)] fun f => f k v :=
  fun c => ⟨rfl, fun _ hf => (hf _ _ _ (find?_rename c k v)).symm⟩

end Renaming

namespace Ty

open Renaming

variable {V : Type} [DecidableEq V]

theorem copies_list {ts : List (Ty V)} (h : ∀ t ∈ ts, Copies t.fresh t.vars fun f => t.relabel f id) :
    Copies (mapVarsList rename ts) (varsList ts) fun f => ts.map (relabel f id) := by
  induction ts with
  | nil => exact .pure []
  | cons t ts ih =>
      obtain ⟨ht, hts⟩ := List.forall_mem_cons.mp h
      rw [mapVarsList, varsList, ← List.append_nil (varsList ts)]
      exact ht.bind fun t => (ih hts).bind fun ts => .pure (t :: ts)

theorem copies_fields {fs : Assoc (Ty V)} (h : ∀ e ∈ fs, Copies e.2.fresh e.2.vars fun f => e.2.relabel f id) :
    Copies (mapVarsFields rename fs) (varsFields fs) fun f => Assoc.mapValues (relabel f id) fs := by
  induction fs with
  | nil => exact .pure []
  | cons e fs ih =>
      obtain ⟨he, hfs⟩ := List.forall_mem_cons.mp h
      rw [mapVarsFields, varsFields, ← List.append_nil (varsFields fs)]
      exact he.bind fun t => (ih hfs).bind fun fs => .pure ((e.1, t) :: fs)

theorem copies_rows {rows : List (Row V (Ty V))}
    (h : ∀ fs, Row.fields fs ∈ rows → ∀ e ∈ fs, Copies e.2.fresh e.2.vars fun f => e.2.relabel f id) :
    Copies (mapVarsRows rename rows) (varsRows rows)
      fun f => rows.map (Row.map (RowVar.relabel f id) (relabel f id)) := by
  induction rows with
  | nil => exact .pure []
  | cons row rows ih =>
      have ih := ih fun fs hfs => h fs (List.mem_cons_of_mem _ hfs)
      cases row with
      | fields fs =>
          rw [mapVarsRows, varsRows, ← List.append_nil (varsRows rows)]
          exact (copies_fields (h fs List.mem_cons_self)).bind fun fs => ih.bind fun rows => .pure (.fields fs :: rows)
      | var v =>
          rw [mapVarsRows, varsRows, ← List.append_nil (varsRows rows)]
          simp only [List.map_cons, Row.map, RowVar.relabel, Option.map_id, id]
          exact (copies_rename .row v.var).bind fun w => ih.bind fun rows => .pure (.var ⟨w, v.src⟩ :: rows)

/-- A copy is a renaming of the type, by any renaming that gives what was given. -/
theorem copies_fresh (t : Ty V) : Copies t.fresh t.vars fun f => t.relabel f id := by
  induction t using ind with
  | leaf l s =>
      simp only [relabel_leaf, Option.map_id, id]
      exact .pure (leaf l s)
  | var v s =>
      simp only [relabel_var, Option.map_id, id]
      exact (copies_rename .type v).bind fun w => .pure (var w s)
  | rowVar v s =>
      simp only [relabel_rowVar, Option.map_id, id]
      exact (copies_rename .row v).bind fun w => .pure (rowVar w s)
  | arrow d r s ihd ihr =>
      simp only [relabel_arrow, Option.map_id, id]
      rw [fresh, mapVars, vars, ← List.append_nil r.vars]
      exact (copies_list ihd).bind fun d => ihr.bind fun r => .pure (arrow d r s)
  | con n as s ih =>
      simp only [relabel_con, Option.map_id, id]
      rw [fresh, mapVars, vars, ← List.append_nil (varsList as)]
      exact (copies_list ih).bind fun as => .pure (con n as s)
  | record rows s ih =>
      simp only [relabel_record, Option.map_id, id]
      rw [fresh, mapVars, vars, ← List.append_nil (varsRows rows)]
      exact (copies_rows ih).bind fun rows => .pure (record rows s)

end Ty

namespace Typing

open Renaming

/-- The variables of a typing. -/
def vars {V : Type} (t : Typing V) : List (Kind × V) :=
  t.needs.flatMap (fun e => e.2.vars) ++ t.type.vars

theorem vars_map {V W : Type} (f : Kind → V → W) (t : Typing V) :
    (t.map f).vars = t.vars.map fun x => (x.1, f x.1 x.2) := by
  simp only [vars, map, Ty.map_eq_relabel, Ty.vars_relabel, List.flatMap_map, List.map_append, List.map_flatMap]

variable {V : Type} [DecidableEq V]

/-- The entries of requirements are copied as the fields of a record are. -/
theorem freshNeeds_eq (env : Requirements V) : freshNeeds env = Ty.mapVarsFields Renaming.rename env := by
  induction env with
  | nil => rfl
  | cons e env ih =>
      rw [freshNeeds, ih]
      rfl

theorem copies_needs (env : Requirements V) :
    Copies (freshNeeds env) (env.flatMap fun e => e.2.vars) fun f => Assoc.mapValues (Ty.map f) env := by
  have hvars : Ty.varsFields env = env.flatMap fun e => e.2.vars := by
    induction env with
    | nil => rfl
    | cons e env ih => rw [Ty.varsFields, ih, List.flatMap_cons]
  have hmap : ∀ f : Kind → V → VarId, Ty.map f = Ty.relabel f id := fun f => funext (Ty.map_eq_relabel f)
  simp only [hmap]
  rw [freshNeeds_eq, ← hvars]
  exact Ty.copies_fields fun e _ => e.2.copies_fresh

/-- The requirements and the type are copied in one go. -/
theorem instantiate_eq_map {t : Typing V} {s : Supply} {f : Kind → V → VarId}
    (hf : (after (s, []) t.vars).2.Follows f) : t.instantiate s = (t.map f, (after (s, []) t.vars).1) := by
  obtain ⟨hstate, hvalue⟩ := (copies_needs t.needs).bind
    (fun needs => t.type.copies_fresh.bind fun type => .pure (needs, type)) (s, [])
  rw [List.append_nil] at hstate hvalue
  have hvalue : _ = (Assoc.mapValues (Ty.map f) t.needs, t.type.relabel f id) := hvalue f hf
  rw [← Ty.map_eq_relabel] at hvalue
  exact Prod.ext (congrArg (fun p => Typing.mk p.1 p.2) hvalue) (congrArg Prod.fst hstate)

/-- The variables of a copy are those that have been given. -/
theorem instantiate_given (t : Typing V) (s : Supply) :
    (t.instantiate s).2 = (after (s, []) t.vars).1 ∧
      ∀ x ∈ (t.instantiate s).1.vars, ∃ v, (after (s, []) t.vars).2.find? x.1 v = some x.2 := by
  obtain ⟨f, hf⟩ := (after (s, []) t.vars).2.exists_follows
  rw [instantiate_eq_map hf, vars_map]
  refine ⟨rfl, ?_⟩
  intro x hx
  obtain ⟨y, hy, rfl⟩ := List.mem_map.mp hx
  obtain ⟨w, hw⟩ := exists_find?_after (s, []) hy
  exact ⟨y.2, by rw [hf _ _ _ hw, hw]⟩

theorem instantiate_le (t : Typing V) (s : Supply) : s.Le (t.instantiate s).2 := by
  rw [(t.instantiate_given s).1]
  exact ((freshSince_start s).after t.vars).le

theorem instantiate_new (t : Typing V) (s : Supply) :
    ∀ x ∈ (t.instantiate s).1.vars, ¬ s.Issued x ∧ (t.instantiate s).2.Issued x := by
  obtain ⟨hs, hgiven⟩ := t.instantiate_given s
  intro x hx
  obtain ⟨v, hv⟩ := hgiven x hx
  rw [hs]
  exact ((freshSince_start s).after t.vars).new hv

theorem keys_instantiate (t : Typing V) (s : Supply) :
    Assoc.keys (t.instantiate s).1.needs = Assoc.keys t.needs := by
  obtain ⟨f, hf⟩ := (after (s, []) t.vars).2.exists_follows
  rw [instantiate_eq_map hf]
  exact Assoc.keys_mapValues _ t.needs

/-- A copy is a renaming that keeps variables apart and has new variables only. -/
theorem exists_instantiate_eq_map (t : Typing VarId) (s : Supply) :
    ∃ f : Kind → VarId → VarId, (∀ k, Function.Injective (f k)) ∧ (∀ k v, ¬ s.Issued (k, f k v)) ∧
      (t.instantiate s).1 = t.map f := by
  have hfresh := (freshSince_start s).after t.vars
  refine ⟨_, hfresh.orElse_injective, hfresh.orElse_not_issued, ?_⟩
  exact congrArg Prod.fst (instantiate_eq_map (follows_orElse _ _))

/-- Instantiation renames a typing: variables of a kind are kept apart, and all get new ones. So a copy shares variables
exactly where the typing does, and copies made later share none with it. -/
theorem instantiate_fresh_copy (t : Typing VarId) (s : Supply) :
    ∃ f : Kind → VarId → VarId, (∀ k, Function.Injective (f k)) ∧ (t.instantiate s).1 = t.map f ∧
      (∀ x ∈ t.vars, ¬ s.Issued (x.1, f x.1 x.2) ∧ (t.instantiate s).2.Issued (x.1, f x.1 x.2)) ∧
      (∀ i j : Nat, (t.instantiate s).1.vars[i]? = (t.instantiate s).1.vars[j]? ↔ t.vars[i]? = t.vars[j]?) ∧
      ∀ s', (t.instantiate s).2.Le s' → ∀ x ∈ (t.instantiate s).1.vars, x ∉ (t.instantiate s').1.vars := by
  obtain ⟨f, hinjective, -, hcopy⟩ := t.exists_instantiate_eq_map s
  have hnew := t.instantiate_new s
  refine ⟨f, hinjective, hcopy, ?_, ?_, ?_⟩
  · intro x hx
    refine hnew _ ?_
    rw [hcopy, vars_map]
    exact List.mem_map.mpr ⟨x, hx, rfl⟩
  · intro i j
    rw [hcopy, vars_map, List.getElem?_map, List.getElem?_map]
    exact (Option.map_injective (Kind.renamed_injective hinjective)).eq_iff
  · intro s' hle x hx hx'
    exact (t.instantiate_new s' x hx').1 (hle.issued (hnew x hx).2)

/-- A variable that what is needed shares with the type. -/
example :
    (Typing.mk [("f", .arrow [.var 0 none] (.var 1 none) none)] (.record [.var ⟨0, none⟩, .fields [("x", .var 0 none)]] none)
      : Typing VarId).instantiate ⟨2, 1⟩ =
      (⟨[("f", .arrow [.var 2 none] (.var 3 none) none)], .record [.var ⟨1, none⟩, .fields [("x", .var 2 none)]] none⟩,
        ⟨4, 2⟩) :=
  rfl

end Typing

end ScriptTypes
