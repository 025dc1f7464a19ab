import ScriptTypes.Annotation.Match
import ScriptTypes.Proofs.Ty.Relabel

/-! What an annotation says of a type. While the two are compared the names get numbers one after the other, and the
answer is the same as if all numbers had been chosen beforehand: the type is an instance of the annotation. -/

namespace ScriptTypes

namespace Slots

theorem get?_cons_self (k : Kind) (scope : Nat) (name : String) (i : VarId) (slots : Slots) :
    Slots.get? (((k, scope, name), i) :: slots) k scope name = some i := by
  simp [Slots.get?]

theorem get?_cons_of_ne {k k' : Kind} {scope scope' : Nat} {name name' : String}
    (h : (k', scope', name') ≠ (k, scope, name)) (i : VarId) (slots : Slots) :
    Slots.get? (((k, scope, name), i) :: slots) k' scope' name' = slots.get? k' scope' name' := by
  rw [Slots.get?, List.lookup_cons, beq_eq_false_iff_ne.mpr h]
  rfl

/-- Numbers are kept, and are given to no name of another scope. -/
structure Extends (scope : Nat) (slots later : Slots) : Prop where
  kept {k : Kind} {own : Nat} {name : String} {i : VarId} :
    slots.get? k own name = some i → later.get? k own name = some i
  frame (k : Kind) {own : Nat} (name : String) : own ≠ scope → later.get? k own name = slots.get? k own name

/-- The names of a scope have no other numbers than the chosen ones. -/
def Obey (slots : Slots) (scope : Nat) (σ : Kind → String → VarId) : Prop :=
  ∀ k name i, slots.get? k scope name = some i → σ k name = i

variable {scope : Nat} {σ : Kind → String → VarId} {slots later : Slots}

theorem Extends.refl (scope : Nat) (slots : Slots) : Extends scope slots slots := ⟨id, fun _ _ _ _ => rfl⟩

theorem Extends.trans {last : Slots} (h : Extends scope slots later) (h' : Extends scope later last) :
    Extends scope slots last :=
  ⟨fun hi => h'.kept (h.kept hi), fun k _ name hown => (h'.frame k name hown).trans (h.frame k name hown)⟩

theorem extends_cons {k : Kind} {name : String} (h : slots.get? k scope name = none) (i : VarId) :
    Extends scope slots (((k, scope, name), i) :: slots) := by
  constructor
  · intro k' own name' j hj
    have hne : (k', own, name') ≠ (k, scope, name) := by
      rintro ⟨⟩
      cases h.symm.trans hj
    exact (get?_cons_of_ne hne i slots).trans hj
  · intro k' own name' hown
    exact get?_cons_of_ne (fun he => hown (congrArg (·.2.1) he)) i slots

theorem Extends.obey (h : Extends scope slots later) (hσ : later.Obey scope σ) : slots.Obey scope σ :=
  fun k name i hi => hσ k name i (h.kept hi)

theorem obey_of_fresh (hfresh : ∀ k name, slots.get? k scope name = none) (σ : Kind → String → VarId) :
    slots.Obey scope σ := by
  intro k name i hi
  cases (hfresh k name).symm.trans hi

/-- The choice that was made in the end. -/
def chosen (slots : Slots) (scope : Nat) (k : Kind) (name : String) : VarId :=
  (slots.get? k scope name).getD 0

theorem obey_chosen (slots : Slots) (scope : Nat) : slots.Obey scope (slots.chosen scope) := by
  intro k name i hi
  rw [chosen, hi, Option.getD_some]

/-- A test that gives numbers to names, against the same test where the numbers are chosen beforehand. As long as the
choice is obeyed, the one is passed and the choice still obeyed if and only if the other is passed. -/
structure Decides (scope : Nat) (σ : Kind → String → VarId) (x : StateM Slots Bool) (y : Id Bool) : Prop where
  grows (slots : Slots) : Extends scope slots (x slots).2
  passes_iff {slots : Slots} : slots.Obey scope σ → (Id.run y = true ↔ (x slots).1 = true ∧ (x slots).2.Obey scope σ)

theorem tests_decides (scope : Nat) (σ : Kind → String → VarId) : Tests (Decides scope σ) := by
  constructor
  · intro b
    exact ⟨.refl scope, fun h => ⟨fun hb => ⟨hb, h⟩, And.left⟩⟩
  · intro x y x' y' hx hy
    have hrun (slots : Slots) : (x >>= fun b => if b = true then y else pure false) slots =
        if (x slots).1 = true then y (x slots).2 else (false, (x slots).2) := by
      change (if (x slots).1 = true then y else pure false) (x slots).2 = _
      split <;> rfl
    constructor
    · intro slots
      rw [hrun]
      split
      · exact (hx.grows slots).trans (hy.grows _)
      · exact hx.grows slots
    · intro slots h
      rw [Ty.run_if_eq_true, hx.passes_iff h, hrun]
      split
      · rename_i hpass
        -- The second test extends the numbers of the first, so a choice that is obeyed in the end was obeyed between.
        constructor
        · rintro ⟨⟨-, hmid⟩, hy'⟩
          exact (hy.passes_iff hmid).mp hy'
        · rintro ⟨hb, hlast⟩
          have hmid := (hy.grows _).obey hlast
          exact ⟨⟨hpass, hmid⟩, (hy.passes_iff hmid).mpr ⟨hb, hlast⟩⟩
      · rename_i hfail
        exact ⟨fun h => absurd h.1.1 hfail, fun h => absurd h.1 Bool.false_ne_true⟩

/-- A name is compared with the variable of its slot, and given one if it has none. -/
theorem same_named (k : Kind) (name : String) (scope : Nat) (i : VarId) (slots : Slots) :
    (Comparing.same k (Ref.named name scope) (Ref.id i) : StateM Slots Bool) slots =
      match slots.get? k scope name with
      | some j => (j == i, slots)
      | none => (true, ((k, scope, name), i) :: slots) := by
  change Ref.same k (.named name scope) (.id i) slots = _
  simp only [Ref.same, Ref.id?]
  cases slots.get? k scope name <;> rfl

/-- A name meets a numbered variable: it has the number, or gets it. -/
theorem decides_same (scope : Nat) (σ : Kind → String → VarId) (k : Kind) (name : String) (i : VarId) :
    Decides scope σ (Comparing.same k (Ref.named name scope) (Ref.id i)) (Comparing.same k (σ k name) i) := by
  have hchosen : Id.run (Comparing.same k (σ k name) i) = true ↔ σ k name = i := beq_iff_eq
  constructor
  · intro slots
    rw [same_named]
    cases hget : slots.get? k scope name with
    | some j => exact .refl scope slots
    | none => exact extends_cons hget i
  · intro slots h
    rw [hchosen, same_named]
    cases hget : slots.get? k scope name with
    | some j =>
        rw [h k name j hget, beq_iff_eq, and_iff_left h]
    | none =>
        refine ⟨fun hσ => ⟨rfl, ?_⟩, fun hcons => hcons.2 k name i (get?_cons_self k scope name i slots)⟩
        intro k' name' j hj
        by_cases heq : (k', scope, name') = (k, scope, name)
        · cases heq
          cases (get?_cons_self k scope name i slots).symm.trans hj
          exact hσ
        · exact h k' name' j ((get?_cons_of_ne heq i slots).symm.trans hj)

end Slots

namespace Annotation

variable {slots : Slots} {scope : Nat}

theorem decides_agrees (a : Annotation) (t : Ty VarId) (scope : Nat) (σ : Kind → String → VarId) :
    Slots.Decides scope σ (a.agrees scope (t.map fun _ => Ref.id)) ((a.map σ).same t) := by
  have h : Slots.Decides scope σ
      (Ty.same (a.relabel (fun _ name => Ref.named name scope) id) (t.relabel (fun _ => Ref.id) id))
      (Ty.same (a.relabel σ id) (t.relabel (fun _ v => v) id)) :=
    Ty.tests_same (Slots.tests_decides scope σ) (Slots.decides_same scope σ) a t
  rwa [Ty.relabel_id, ← Ty.map_eq_relabel, ← Ty.map_eq_relabel, ← Ty.map_eq_relabel] at h

/-- The choice is the one that was made in the end. -/
theorem agrees_eq_true_iff (a : Annotation) (t : Ty VarId) (hfresh : ∀ k name, slots.get? k scope name = none) :
    ((a.agrees scope (t.map fun _ => Ref.id)).run slots).1 = true ↔
      ∃ σ : Kind → String → VarId, (a.map σ).Alike t := by
  constructor
  · intro h
    exact ⟨_, ((decides_agrees a t scope _).passes_iff (Slots.obey_of_fresh hfresh _)).mpr
      ⟨h, Slots.obey_chosen _ scope⟩⟩
  · rintro ⟨σ, hσ⟩
    exact (((decides_agrees a t scope σ).passes_iff (Slots.obey_of_fresh hfresh σ)).mp hσ).1

/-- An annotation agrees with a type if and only if the type is an instance of it, one number for each of its names.
Names are looked up in a scope where none has a number yet: the numbers of all others, those that the annotation has
elsewhere among them, stay as they are and do not matter. -/
theorem agrees_iff_instance (a : Annotation) (t : Ty VarId) (hfresh : ∀ k name, slots.get? k scope name = none) :
    (((a.agrees scope (t.map fun _ => Ref.id)).run slots).1 = true ↔
        ∃ σ : Kind → String → VarId, (a.map σ).Alike t) ∧
      (∀ k own name, own ≠ scope →
        ((a.agrees scope (t.map fun _ => Ref.id)).run slots).2.get? k own name = slots.get? k own name) ∧
      ((a.agrees scope (t.map fun _ => Ref.id)).run slots).1 = a.fits t := by
  refine ⟨agrees_eq_true_iff a t hfresh, ?_, ?_⟩
  · intro k own name hown
    exact ((decides_agrees a t scope fun _ _ => 0).grows slots).frame k name hown
  · rw [Bool.eq_iff_iff, agrees_eq_true_iff a t hfresh, fits, agrees_eq_true_iff a t fun _ _ => rfl]

/-- A name that stands twice, and that has got a number in another scope. -/
theorem agrees_iff_instance_name_twice :
    (∀ k name, Slots.get? [((.type, 0, "a"), 5)] k 1 name = none) ∧
      (∃ σ : Kind → String → VarId,
        (Ty.map σ (.arrow [.var "a" none]
          (.record [.var ⟨"r", none⟩, .fields [("x", .var "a" none)]] none) none)).Alike
          (.arrow [.var 7 none] (.record [.fields [("x", .var 7 none)], .var ⟨3, none⟩] none) none)) ∧
      ¬ ∃ σ : Kind → String → VarId,
        (Ty.map σ (.arrow [.var "a" none]
          (.record [.var ⟨"r", none⟩, .fields [("x", .var "a" none)]] none) none)).Alike
          (.arrow [.var 7 none] (.record [.var ⟨3, none⟩, .fields [("x", .var 8 none)]] none) none) := by
  have hfresh (k : Kind) (name : String) : Slots.get? [((.type, 0, "a"), 5)] k 1 name = none :=
    Slots.get?_cons_of_ne (by simp) 5 []
  refine ⟨hfresh, (agrees_iff_instance _ _ hfresh).1.mp (by decide), fun h => ?_⟩
  exact absurd ((agrees_iff_instance _ _ hfresh).1.mpr h) (by decide)

end Annotation

end ScriptTypes
