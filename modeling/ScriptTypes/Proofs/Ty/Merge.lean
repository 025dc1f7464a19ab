import ScriptTypes.Proofs.Ty.Joins
import ScriptTypes.Proofs.Ty.Register

/-! Rows that are merged. The flat form of a record has its row variable, and its labels where they come first with the
types that come last. It is the same before and after merging, and it is what is printed. -/

namespace ScriptTypes

namespace Row

variable {V α : Type}

def labels : Row V α → List String
  | .fields fs => Assoc.keys fs
  | .var _ => []

def get? (k : String) : Row V α → Option α
  | .fields fs => Assoc.get? fs k
  | .var _ => none

/-- The flat form of rows has their only variable if there is one, their labels in the order in which they come first,
and for each label what comes last. -/
structure FlatForm (rows : List (Row V α)) (r : FlatRecord V α) : Prop where
  tail : vars rows = r.tail.toList
  labels : Assoc.keys r.fields = (rows.flatMap labels).eraseDups
  types (k : String) : Assoc.get? r.fields k = rows.reverse.findSome? (get? k)

theorem keys_visibleFrom {seen : Assoc α} {ks : List String} (h : Assoc.keys seen = ks.eraseDups)
    (rows : List (Row V α)) : Assoc.keys (visibleFrom seen rows) = (ks ++ rows.flatMap labels).eraseDups := by
  induction rows generalizing seen ks with
  | nil => rw [visibleFrom, List.flatMap_nil, List.append_nil, h]
  | cons row rows ih =>
      cases row with
      | fields fs =>
          rw [visibleFrom, ih (Assoc.keys_extend_eraseDups h fs), List.flatMap_cons, List.append_assoc]
          rfl
      | var v => exact ih h

theorem get?_visibleFrom (seen : Assoc α) {rows : List (Row V α)} (h : ∀ row ∈ rows, row.IsMap) (k : String) :
    Assoc.get? (visibleFrom seen rows) k = (rows.reverse.findSome? (get? k)).or (Assoc.get? seen k) := by
  induction rows generalizing seen with
  | nil => rfl
  | cons row rows ih =>
      obtain ⟨hrow, hrows⟩ := List.forall_mem_cons.mp h
      rw [List.reverse_cons, List.findSome?_append, Option.or_assoc]
      cases row with
      | fields fs =>
          have hfs : Assoc.Distinct fs := hrow
          rw [visibleFrom, ih _ hrows, Assoc.get?_extend seen hfs]
          simp [get?]
      | var v =>
          rw [visibleFrom, ih _ hrows]
          simp [get?]

theorem eq_of_flatten {rows : List (Row V α)} {r : FlatRecord V α} (h : flatten rows = .ok r) :
    vars rows = r.tail.toList ∧ visible rows = r.fields := by
  unfold flatten at h
  split at h
  · rename_i hvars
    cases h
    exact ⟨hvars, rfl⟩
  · rename_i v hvars
    cases h
    exact ⟨hvars, rfl⟩
  · cases h

theorem flatten_eq_ok_iff {rows : List (Row V α)} (h : ∀ row ∈ rows, row.IsMap) (r : FlatRecord V α) :
    flatten rows = .ok r ↔ FlatForm rows r := by
  have hnone : Assoc.keys ([] : Assoc α) = List.eraseDups [] := rfl
  have hkeys : Assoc.keys (visible rows) = (rows.flatMap labels).eraseDups := keys_visibleFrom hnone rows
  have hget (k : String) : Assoc.get? (visible rows) k = rows.reverse.findSome? (get? k) := by
    rw [visible, get?_visibleFrom [] h, Assoc.get?, Option.or_none]
  constructor
  · intro hr
    obtain ⟨hvars, hfields⟩ := eq_of_flatten hr
    exact ⟨hvars, hfields ▸ hkeys, hfields ▸ hget⟩
  · rintro ⟨htail, hlabels, htypes⟩
    have hfields : visible rows = r.fields := by
      refine Assoc.eq_of_keys (distinct_visibleFrom Assoc.distinct_nil rows) (hkeys.trans hlabels.symm) fun k => ?_
      rw [hget, htypes]
    obtain ⟨fields, tail⟩ := r
    cases tail with
    | none => simp only [flatten, htail, Option.toList_none, hfields]
    | some v => simp only [flatten, htail, Option.toList_some, hfields]

theorem flatten_eq_error_iff (rows : List (Row V α)) (vs : List (RowVar V)) :
    flatten rows = .error vs ↔ vs = vars rows ∧ 1 < vs.length := by
  unfold flatten
  cases vars rows with
  | nil => simp +contextual
  | cons v ws =>
      cases ws with
      | nil => simp +contextual
      | cons w ws =>
          constructor
          · rintro ⟨⟩
            exact ⟨rfl, by simp⟩
          · rintro ⟨rfl, -⟩
            rfl

end Row

namespace Ty

variable {V : Type} (shown : Kind → V → Atom)

/-- The document of a record with the given row variables and fields, where variables are shown as they are known. -/
def itemsDoc (vars : List (RowVar V)) (fields : Assoc (Ty V)) : StateM Names Doc := do
  let vars ← vars.mapM fun v => return Doc.text ("..." ++ (← Names.name .row (shown .row v.var)))
  let fields ← fields.mapM fun f => return Doc.field f.1 (← (f.2.map shown).doc)
  return Doc.record (vars ++ fields)

theorem doc_map_record (rows : List (Row V (Ty V))) (s : Option Node) :
    ((record rows s).map shown).doc = itemsDoc shown (Row.vars rows) (Row.visible rows) := by
  simp only [itemsDoc, map_eq_relabel, relabel_record]
  rw [doc_record, Row.vars_map, Row.visible_map]
  simp only [Assoc.mapValues, List.mapM_map]
  rfl

end Ty

/-- Merging does not change a record. The flat form of rows of maps is the same before and after, and so are the
variables where there are too many for it. Merged rows have no two neighbouring sets, which are maps again, they keep
the row variables in order, and they are merged no further. What is printed stays the same as well, and it is the flat
form wherever there is one. -/
theorem Row.merge_keeps_record {V : Type} (rows : List (Row V (Ty V))) (h : ∀ row ∈ rows, row.IsMap) :
    (flatten (merge rows) = flatten rows ∧ (∀ r, flatten rows = .ok r ↔ FlatForm rows r) ∧
        ∀ vs, flatten rows = .error vs ↔ vs = vars rows ∧ 1 < vs.length) ∧
      (Apart (merge rows) ∧ (∀ row ∈ merge rows, row.IsMap) ∧ vars (merge rows) = vars rows ∧
        merge (merge rows) = merge rows) ∧
      ∀ (shown : Kind → V → Atom) (s : Option Node),
        ((Ty.record (merge rows) s).map shown).doc = ((Ty.record rows s).map shown).doc ∧
          ∀ r, flatten rows = .ok r →
            ((Ty.record rows s).map shown).doc = Ty.itemsDoc shown r.tail.toList r.fields := by
  obtain ⟨hmaps, hvisible⟩ := visible_of_joins (joins_merge rows) h
  have hvars := vars_of_joins (joins_merge rows)
  refine ⟨⟨?_, flatten_eq_ok_iff h, flatten_eq_error_iff rows⟩,
    ⟨apart_merge rows, hmaps, hvars, merge_of_apart (apart_merge rows)⟩, fun shown s => ⟨?_, fun r hr => ?_⟩⟩
  · rw [flatten, flatten, hvars, hvisible]
  · rw [Ty.doc_map_record, Ty.doc_map_record, hvars, hvisible]
  · obtain ⟨htail, hfields⟩ := eq_of_flatten hr
    rw [Ty.doc_map_record, htail, hfields]

/-- The rows `{ x: Num, y: String }`, `{ y: Bool, z: Num }`, `...r` and `{ x: String }`. -/
def Row.shadowing : List (Row Atom (Ty Atom)) :=
  [.fields [("x", .leaf .num none), ("y", .leaf .str none)], .fields [("y", .leaf .bool none), ("z", .leaf .num none)],
    .var ⟨.name "r", none⟩, .fields [("x", .leaf .str none)]]

/-- A label is hidden by a neighbour, another one across the variable, and both keep their places. -/
theorem Row.merge_keeps_record_shadowing :
    (∀ row ∈ shadowing, row.IsMap) ∧
      flatten (merge shadowing) =
        .ok ⟨[("x", .leaf .str none), ("y", .leaf .bool none), ("z", .leaf .num none)], some ⟨.name "r", none⟩⟩ ∧
      Apart (merge shadowing) ∧ ¬ Apart shadowing ∧
      ((Ty.record (merge shadowing) none).map fun _ v => v).doc =
        Ty.itemsDoc (fun _ v => v) [⟨.name "r", none⟩]
          [("x", .leaf .str none), ("y", .leaf .bool none), ("z", .leaf .num none)] := by
  have hmaps : ∀ row ∈ shadowing, row.IsMap := by decide
  obtain ⟨⟨hflat, -⟩, ⟨hapart, -⟩, hdoc⟩ := merge_keeps_record shadowing hmaps
  obtain ⟨hmerged, hprinted⟩ := hdoc (fun _ v => v) none
  exact ⟨hmaps, hflat.trans rfl, hapart, by unfold Apart; decide, hmerged.trans (hprinted _ rfl)⟩

end ScriptTypes
