import Mathlib.Data.List.Chain
import Mathlib.Logic.Relation
import ScriptTypes.Proofs.Assoc
import ScriptTypes.Ty.Row

/-! Merging of rows, step by step. Two neighbouring sets of fields are joined, and then others, until no two sets are
neighbours. What holds of one join holds of merging: no field is made up, the row variables stay as they are, and the
same fields can be seen. -/

namespace ScriptTypes

open Relation (ReflTransGen)

namespace Row

variable {V α : Type}

/-- A set of fields is a map, with no label twice. -/
def IsMap : Row V α → Prop
  | .fields fs => Assoc.Distinct fs
  | .var _ => True

instance : DecidablePred (IsMap (V := V) (α := α))
  | .fields fs => inferInstanceAs (Decidable (Assoc.Distinct fs))
  | .var _ => inferInstanceAs (Decidable True)

def isVar : Row V α → Bool
  | .fields _ => false
  | .var _ => true

/-- No two sets of fields are neighbours. -/
def Apart (rows : List (Row V α)) : Prop :=
  rows.IsChain fun row next => row.isVar || next.isVar

/-- Two neighbouring sets of fields become one. -/
inductive Joins : List (Row V α) → List (Row V α) → Prop
  | join (fs gs rows) : Joins (.fields fs :: .fields gs :: rows) (.fields (Assoc.extend fs gs) :: rows)
  | cons (row) {rows rows'} (h : Joins rows rows') : Joins (row :: rows) (row :: rows')

namespace Joins

variable {rows rows' : List (Row V α)}

theorem mem (h : Joins rows rows') {gs : Assoc α} (hgs : .fields gs ∈ rows') {f : String × α} (hf : f ∈ gs) :
    ∃ fs, .fields fs ∈ rows ∧ f ∈ fs := by
  induction h with
  | join fs gs' rows =>
      rcases List.mem_cons.mp hgs with he | hgs
      · cases he
        rcases Assoc.mem_of_mem_extend hf with hf | hf
        · exact ⟨fs, List.mem_cons_self, hf⟩
        · exact ⟨gs', List.mem_cons_of_mem _ List.mem_cons_self, hf⟩
      · exact ⟨gs, List.mem_cons_of_mem _ (List.mem_cons_of_mem _ hgs), hf⟩
  | cons row _ ih =>
      rcases List.mem_cons.mp hgs with he | hgs
      · exact ⟨gs, he ▸ List.mem_cons_self, hf⟩
      · obtain ⟨fs, hfs, hf⟩ := ih hgs
        exact ⟨fs, List.mem_cons_of_mem _ hfs, hf⟩

theorem vars (h : Joins rows rows') : vars rows' = vars rows := by
  induction h with
  | join fs gs rows => rfl
  | cons row _ ih =>
      cases row with
      | fields fs => exact ih
      | var v => exact congrArg (v :: ·) ih

theorem isMap (h : Joins rows rows') (hrows : ∀ row ∈ rows, row.IsMap) : ∀ row ∈ rows', row.IsMap := by
  induction h with
  | join fs gs rows =>
      obtain ⟨hfs, hrows⟩ := List.forall_mem_cons.mp hrows
      exact List.forall_mem_cons.mpr ⟨Assoc.Distinct.extend hfs gs, (List.forall_mem_cons.mp hrows).2⟩
  | cons row _ ih =>
      obtain ⟨hrow, hrows⟩ := List.forall_mem_cons.mp hrows
      exact List.forall_mem_cons.mpr ⟨hrow, ih hrows⟩

theorem visibleFrom (h : Joins rows rows') (hrows : ∀ row ∈ rows, row.IsMap) (seen : Assoc α) :
    visibleFrom seen rows' = visibleFrom seen rows := by
  induction h generalizing seen with
  | join fs gs rows =>
      -- A label that the first set had twice would be found at the wrong one of its places.
      have hfs : Assoc.Distinct fs := (List.forall_mem_cons.mp hrows).1
      simp only [Row.visibleFrom, Assoc.extend_extend hfs]
  | cons row _ ih =>
      have ih := ih (List.forall_mem_cons.mp hrows).2
      cases row with
      | fields fs => exact ih (Assoc.extend seen fs)
      | var v => exact ih seen

end Joins

theorem mem_of_joins {rows rows' : List (Row V α)} (h : ReflTransGen Joins rows rows') {gs : Assoc α}
    (hgs : .fields gs ∈ rows') {f : String × α} (hf : f ∈ gs) : ∃ fs, .fields fs ∈ rows ∧ f ∈ fs := by
  induction h generalizing gs with
  | refl => exact ⟨gs, hgs, hf⟩
  | tail _ hstep ih =>
      obtain ⟨fs, hfs, hf⟩ := hstep.mem hgs hf
      exact ih hfs hf

theorem vars_of_joins {rows rows' : List (Row V α)} (h : ReflTransGen Joins rows rows') : vars rows' = vars rows := by
  induction h with
  | refl => rfl
  | tail _ hstep ih => exact hstep.vars.trans ih

theorem visible_of_joins {rows rows' : List (Row V α)} (h : ReflTransGen Joins rows rows')
    (hrows : ∀ row ∈ rows, row.IsMap) : (∀ row ∈ rows', row.IsMap) ∧ visible rows' = visible rows := by
  induction h with
  | refl => exact ⟨hrows, rfl⟩
  | tail _ hstep ih => exact ⟨hstep.isMap ih.1, (hstep.visibleFrom ih.1 []).trans ih.2⟩

theorem joins_cons (row : Row V α) {rows rows' : List (Row V α)} (h : ReflTransGen Joins rows rows') :
    ReflTransGen Joins (row :: rows) (row :: rows') :=
  h.lift (row :: ·) fun _ _ => Joins.cons row

mutual

/-- Merging is a number of joins. -/
theorem joins_merge : ∀ rows : List (Row V α), ReflTransGen Joins rows (merge rows)
  | [] => by rw [merge]
  | .var v :: rows => by
      rw [merge]
      exact joins_cons (.var v) (joins_merge rows)
  | .fields fs :: rows => by
      rw [merge]
      exact joins_mergeAfter fs rows

theorem joins_mergeAfter : ∀ (fs : Assoc α) (rows : List (Row V α)),
    ReflTransGen Joins (.fields fs :: rows) (mergeAfter fs rows)
  | fs, [] => by rw [mergeAfter]
  | fs, .var v :: rows => by
      rw [mergeAfter]
      exact joins_cons (.fields fs) (joins_cons (.var v) (joins_merge rows))
  | fs, .fields gs :: rows => by
      rw [mergeAfter]
      exact .head (.join fs gs rows) (joins_mergeAfter (Assoc.extend fs gs) rows)

end

theorem apart_var_cons (v : RowVar V) {rows : List (Row V α)} (h : Apart rows) : Apart (.var v :: rows) :=
  List.isChain_cons.mpr ⟨fun _ _ => rfl, h⟩

mutual

theorem apart_merge : ∀ rows : List (Row V α), Apart (merge rows)
  | [] => by
      rw [merge]
      exact .nil
  | .var v :: rows => by
      rw [merge]
      exact apart_var_cons v (apart_merge rows)
  | .fields fs :: rows => by
      rw [merge]
      exact apart_mergeAfter fs rows

theorem apart_mergeAfter : ∀ (fs : Assoc α) (rows : List (Row V α)), Apart (mergeAfter fs rows)
  | fs, [] => by
      rw [mergeAfter]
      exact .singleton _
  | fs, .var v :: rows => by
      rw [mergeAfter]
      exact .cons_cons rfl (apart_var_cons v (apart_merge rows))
  | fs, .fields gs :: rows => by
      rw [mergeAfter]
      exact apart_mergeAfter (Assoc.extend fs gs) rows

end

/-- Rows without neighbouring sets stay as they are. -/
theorem merge_of_apart {rows : List (Row V α)} (h : Apart rows) : merge rows = rows := by
  match rows with
  | [] => rw [merge]
  | .var v :: rows =>
      have hrows : Apart rows := (List.isChain_cons.mp h).2
      rw [merge, merge_of_apart hrows]
  | [.fields fs] => rw [merge, mergeAfter]
  | .fields fs :: .var v :: rows =>
      have hrows : Apart rows := (List.isChain_cons.mp (List.isChain_cons.mp h).2).2
      rw [merge, mergeAfter, merge_of_apart hrows]
  | .fields fs :: .fields gs :: rows => cases (List.isChain_cons_cons.mp h).1

end Row

end ScriptTypes
