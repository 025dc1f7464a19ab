import ScriptTypes.Proofs.Unify.Shape

/-! Kinds are kept apart while constraints are solved. Nothing in a type says of which kind a variable is: a record
stands for a type and for a row, and constraints between row variables wait in the same queue as those between types.
Still a row variable is only ever bound to a row, so that its binding leaves none of its occurrences. -/

namespace ScriptTypes

/-- What a state of the solver says of kinds. -/
structure Solving.KindsApart (s : Solving) : Prop where
  waiting : ∀ c ∈ s.queue, c.Kinded
  types : ∀ b ∈ s.made, b.kind = .type → ∀ v src, b.value ≠ .rowVar v src
  rows : ∀ b ∈ s.made, b.kind = .row → (∃ v src, b.value = .rowVar v src) ∨ ∃ rows src, b.value = .record rows src
  /-- The rows of the value take the place of a row variable. It never stays for want of rows. -/
  spliced : ∀ b ∈ s.made, b.kind = .row → ∀ v : RowVar VarId,
    (∃ w src, b.value = .rowVar w src ∧ b.rowsFor v = [.var ⟨w, v.src.or src⟩]) ∨
      ∃ src, b.value = .record (b.rowsFor v) src
  /-- There is no more of a bound variable afterwards than what copies of the value bring. -/
  replaced : ∀ b ∈ s.made, ∀ t : Ty VarId,
    (Id.run (t.subst b)).vars.count (b.kind, b.var) ≤
      t.vars.count (b.kind, b.var) * b.value.vars.count (b.kind, b.var)

theorem Solving.Holds.kindsApart {s : Solving} (h : s.Holds (fun _ c => c.Kinded) fun _ b => b.Kinded) :
    s.KindsApart where
  waiting := h.queue
  types b hb hk v src hv := by
    have hkinded := h.made b hb
    rw [Binding.Kinded, hk, hv] at hkinded
    cases hkinded
  rows b hb hk := (h.made b hb).isRow hk
  spliced b hb hk v := by
    obtain ⟨w, src, hv⟩ | ⟨rows, src, hv⟩ := (h.made b hb).isRow hk
    · exact .inl ⟨w, src, hv, by rw [Binding.rowsFor, hv]⟩
    · exact .inr ⟨src, by rw [Binding.rowsFor, hv]⟩
  replaced b hb t := Ty.count_vars_subst (h.made b hb).isRow t

/-- Constraints that keep to kinds are solved by steps that keep kinds apart, up to any state that the solver comes
through. -/
theorem Solving.through_kindsApart {supply : Supply} {cs : List (Constraint VarId)} (hcs : ∀ c ∈ cs, c.Kinded)
    {s : Solving} (hs : (Solving.start supply cs).Through s) :
    (∃ n, ∀ steps, Id.run (solve (steps + n) supply cs) = s.outcome steps) ∧ s.KindsApart := by
  constructor
  · obtain ⟨n, hn⟩ := hs.outcome
    refine ⟨n, fun steps => ?_⟩
    rw [← hn steps, Solving.outcome_start]
  · exact (Solving.kinds_invariant.through (.start hcs) hs).kindsApart

/-- The last state of two open records that cross, where both row variables are bound to records. -/
theorem Solving.through_kindsApart_crossing :
    (Solving.start ⟨0, 2⟩ [crossing]).Through ⟨⟨0, 3⟩, [], crossed⟩ ∧ Solving.KindsApart ⟨⟨0, 3⟩, [], crossed⟩ := by
  obtain ⟨s, hs, hqueue, hmade, hsupply⟩ := Solving.through_of_solved outcome_crossing
  obtain ⟨supply, queue, made⟩ := s
  subst hqueue hmade hsupply
  exact ⟨hs, (Solving.through_kindsApart (List.forall_mem_singleton.mpr crossing_kinded.2) hs).2⟩

end ScriptTypes
