import ScriptTypes.Proofs.Ty.Shape
import ScriptTypes.Ty.Same

/-! Comparison finds out exactly whether two types have one monotype. So it is an equivalence on types whose records
have at most one row variable, and it may be reasoned about as equality. -/

namespace ScriptTypes

/-- The flat form of rows that have at most one variable, followed by one set of fields. -/
theorem Row.flatten_ofFields {V α : Type} {fs : Assoc α} (h : Assoc.Distinct fs) (tail : Option (RowVar V)) :
    Row.flatten (Row.ofFields fs tail) = .ok ⟨fs, tail⟩ := by
  have he : Assoc.extend [] fs = fs := Assoc.ofEntries_of_distinct h
  cases tail with
  | none => simp only [Row.flatten, Row.ofFields, Row.vars, Row.visible, Row.visibleFrom, he]
  | some v => simp only [Row.flatten, Row.ofFields, Row.vars, Row.visible, Row.visibleFrom, he]

namespace Ty

/-- Comparison says that two types are the same. -/
def Alike (t u : Ty VarId) : Prop :=
  Id.run (t.same u) = true

instance (t u : Ty VarId) : Decidable (t.Alike u) :=
  inferInstanceAs (Decidable (Id.run (t.same u) = true))

theorem run_if_eq_true {x y : Id Bool} :
    Id.run (x >>= fun b => if b = true then y else pure false) = true ↔ Id.run x = true ∧ Id.run y = true := by
  change (if Id.run x = true then y else pure false : Id Bool) = true ↔ _
  by_cases h : Id.run x = true
  · rw [if_pos h]
    exact ⟨fun hy => ⟨h, hy⟩, fun hy => hy.2⟩
  · rw [if_neg h]
    exact ⟨fun hf => (by cases hf), fun hxy => absurd hxy.1 h⟩

theorem allM_eq_true {α : Type} {p : α → Id Bool} {as : List α} :
    Id.run (as.allM p) = true ↔ ∀ a ∈ as, Id.run (p a) = true := by
  induction as with
  | nil => exact ⟨fun _ _ h => (by cases h), fun _ => rfl⟩
  | cons a as ih =>
      rw [List.forall_mem_cons, ← ih]
      change (match Id.run (p a) with | true => as.allM p | false => pure false : Id Bool) = true ↔ _
      cases Id.run (p a) with
      | true => exact ⟨fun h => ⟨rfl, h⟩, fun h => h.2⟩
      | false => exact ⟨fun h => (by cases h), fun h => (by cases h.1)⟩

theorem sameList_eq_true {ts us : List (Ty VarId)}
    (ih : ∀ t ∈ ts, ∀ u ∈ us, t.Alike u ↔ t.mono = u.mono) (hl : ts.length = us.length) :
    Id.run (sameList ts us) = true ↔ ts.map mono = us.map mono := by
  induction ts generalizing us with
  | nil =>
      cases us with
      | nil => exact ⟨fun _ => rfl, fun _ => rfl⟩
      | cons u us => cases hl
  | cons t ts iht =>
      cases us with
      | nil => cases hl
      | cons u us =>
          have htu := ih t List.mem_cons_self u List.mem_cons_self
          have hrest := iht (fun t ht u hu => ih t (List.mem_cons_of_mem _ ht) u (List.mem_cons_of_mem _ hu))
            (Nat.succ.inj hl)
          rw [sameList, run_if_eq_true, hrest, List.map_cons, List.map_cons, List.cons.injEq, ← htu, Alike]

theorem fieldTests_eq {m : Type → Type} [Monad m] {V : Type} [Comparing m V] (fs : Assoc (Ty V)) :
    fieldTests (m := m) fs = Assoc.mapValues (fun t => same t) fs := by
  induction fs with
  | nil => rfl
  | cons f fs ih => simp only [fieldTests, ih, Assoc.mapValues, List.map_cons]

theorem rowTests_ofFields (fs : Assoc (Ty VarId)) (tail : Option (RowVar VarId)) :
    rowTests (m := Id) (Row.ofFields fs tail) = Row.ofFields (Assoc.mapValues (fun t => same t) fs) tail := by
  cases tail with
  | none => simp only [Row.ofFields, rowTests, fieldTests_eq]
  | some v => simp only [Row.ofFields, rowTests, fieldTests_eq]

theorem sameTail_eq_true {v w : Option (RowVar VarId)} :
    Id.run (sameTail v w) = true ↔ v.map RowVar.var = w.map RowVar.var := by
  cases v with
  | none => cases w <;> simp [sameTail]
  | some v => cases w <;> simp [sameTail, Comparing.same]

/-- Two sets of fields of one length agree when one of them has what the other one has. -/
theorem sort_mono_eq_iff {fs gs : Assoc (Ty VarId)} (hf : Assoc.Distinct fs) (hg : Assoc.Distinct gs) :
    Assoc.sort (Assoc.mapValues mono fs) = Assoc.sort (Assoc.mapValues mono gs) ↔
      fs.length = gs.length ∧ ∀ l t, (l, t) ∈ fs → ∃ u, Assoc.get? gs l = some u ∧ t.mono = u.mono := by
  rw [Assoc.sort_eq_iff (hf.mapValues mono) (hg.mapValues mono)]
  constructor
  · intro h
    have hp := Assoc.perm_of_get? (hf.mapValues mono) (hg.mapValues mono) h
    refine ⟨by simpa [Assoc.mapValues] using hp.length_eq, ?_⟩
    intro l t ht
    have hk := h l
    rw [Assoc.get?_mapValues, Assoc.get?_mapValues, Assoc.get?_of_mem hf ht] at hk
    obtain ⟨u, hu, he⟩ := Option.map_eq_some_iff.mp hk.symm
    exact ⟨u, hu, he.symm⟩
  · rintro ⟨hl, h⟩ l
    rw [Assoc.get?_mapValues, Assoc.get?_mapValues]
    cases hfl : Assoc.get? fs l with
    | some t =>
        obtain ⟨u, hu, he⟩ := h l t (Assoc.mem_of_get? hfl)
        rw [hu, Option.map_some, Option.map_some, he]
    | none =>
        have hsub : Assoc.keys fs ⊆ Assoc.keys gs := by
          intro k hk
          obtain ⟨t, ht⟩ := Assoc.mem_keys.mp hk
          obtain ⟨u, hu, _⟩ := h k t ht
          exact Assoc.mem_keys_of_mem (Assoc.mem_of_get? hu)
        -- As many keys, so there is none that only the second one has.
        have hperm : (Assoc.keys fs).Perm (Assoc.keys gs) :=
          (List.subperm_of_subset hf hsub).perm_of_length_le (by simp [Assoc.keys, hl])
        have hgl : Assoc.get? gs l = none :=
          Assoc.get?_eq_none_iff.mpr fun hk => Assoc.get?_eq_none_iff.mp hfl (hperm.mem_iff.mpr hk)
        rw [hgl, Option.map_none]

theorem same_record_eq_true {fs gs : Assoc (Ty VarId)} (hf : Assoc.Distinct fs) (hg : Assoc.Distinct gs)
    (ih : ∀ f ∈ fs, ∀ u : Ty VarId, u.Canonical → (f.2.Alike u ↔ f.2.mono = u.mono))
    (hgs : ∀ g ∈ gs, g.2.Canonical) (v w : Option (RowVar VarId)) (s s' : Option Node) :
    (record (Row.ofFields fs v) s).Alike (record (Row.ofFields gs w) s') ↔
      (record (Row.ofFields fs v) s).mono = (record (Row.ofFields gs w) s').mono := by
  rw [mono_record hf, mono_record hg, Mono.record.injEq, sort_mono_eq_iff hf hg, and_comm, ← sameTail_eq_true]
  rw [Alike, same, rowTests_ofFields, sameRecord, Row.flatten_ofFields (hf.mapValues _), Row.flatten_ofFields hg]
  simp only [run_if_eq_true]
  refine and_congr_right fun _ => ?_
  have hlen : (Assoc.mapValues (fun t => same (m := Id) t) fs).length = fs.length := List.length_map _
  by_cases hl : fs.length = gs.length
  · rw [if_pos (by simp [hlen, hl]), allM_eq_true]
    simp only [hl, true_and]
    constructor
    · intro h l t ht
      have htest := h (l, same t) (Assoc.mem_mapValues.mpr ⟨t, ht, rfl⟩)
      cases hg : Assoc.get? gs l with
      | none => simp [hg] at htest
      | some u =>
          simp only [hg] at htest
          exact ⟨u, rfl, (ih _ ht u (hgs _ (Assoc.mem_of_get? hg))).mp htest⟩
    · rintro h ⟨l, test⟩ htest
      obtain ⟨t, ht, rfl⟩ := Assoc.mem_mapValues.mp htest
      obtain ⟨u, hu, he⟩ := h l t ht
      simp only [hu]
      exact (ih _ ht u (hgs _ (Assoc.mem_of_get? hu))).mpr he
  · rw [if_neg (by simp [hlen, hl])]
    simp [hl]

/-- Two types are the same exactly when their monotypes are equal. -/
theorem alike_iff {t u : Ty VarId} (ht : t.Canonical) (hu : u.Canonical) : t.Alike u ↔ t.mono = u.mono := by
  induction ht generalizing u with
  | leaf l s => cases hu <;> simp [Alike, same, mono_record, *]
  | var v s => cases hu <;> simp [Alike, same, Comparing.same, mono_record, *]
  | rowVar v s _ => cases hu <;> simp [Alike, same, Comparing.same, mono_record, *]
  | @arrow d r s hd hr ihd ihr =>
      cases hu with
      | @arrow d' r' s' hd' hr' =>
          rw [Alike, same, mono_arrow, mono_arrow, Mono.arrow.injEq, ← ihr hr']
          by_cases hl : d.length = d'.length
          · rw [if_pos (by simp [hl]), run_if_eq_true,
              sameList_eq_true (fun t ht u hu => ihd t ht (hd' u hu)) hl, Alike]
          · rw [if_neg (by simp [hl])]
            constructor
            · intro h
              cases h
            · intro h
              exact absurd (by simpa using congrArg List.length h.1) hl
      | leaf | var | rowVar | con | record => simp [Alike, same, mono_record, *]
  | @con n as s h ih =>
      cases hu with
      | @con n' as' s' h' =>
          rw [Alike, same, mono_con, mono_con, Mono.con.injEq]
          by_cases hn : n = n' ∧ as.length = as'.length
          · obtain ⟨rfl, hl⟩ := hn
            rw [if_pos (by simp [hl]), sameList_eq_true (fun t ht u hu => ih t ht (h' u hu)) hl]
            simp
          · rw [if_neg (by simpa using hn)]
            constructor
            · intro hf
              cases hf
            · intro he
              exact absurd ⟨he.1, by simpa using congrArg List.length he.2⟩ hn
      | leaf | var | rowVar | arrow | record => simp [Alike, same, mono_record, *]
  | record tail s _ h hd ih =>
      cases hu with
      | record tail' s' _ h' hd' =>
          exact same_record_eq_true hd hd' (fun f hf u hu => ih f hf hu) h' tail tail' s s'
      | leaf | var | rowVar | con | arrow => simp [Alike, same, mono_record, *]

end Ty

end ScriptTypes
