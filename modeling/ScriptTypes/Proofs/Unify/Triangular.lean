import ScriptTypes.Proofs.Ty.Opening
import ScriptTypes.Proofs.Unify.Termination

/-! The bindings of the solver are triangular: once a variable is bound, it is met neither in what waits nor in a later
binding. So applying all of them in order takes every bound variable out of a type, and doing so twice is doing it
once. -/

namespace ScriptTypes

/-- A bound variable is bound once, and does not occur in what is bound later. -/
def Triangular (bs : List (Binding VarId)) : Prop :=
  bs.Pairwise fun b b' => (b.kind, b.var) ≠ (b'.kind, b'.var) ∧ (b.kind, b.var) ∉ b'.value.vars

theorem Triangular.nodup {bs : List (Binding VarId)} (h : Triangular bs) : (bs.map fun b => (b.kind, b.var)).Nodup :=
  List.pairwise_map.mpr (h.imp And.left)

theorem Triangular.append_singleton {bs : List (Binding VarId)} (h : Triangular bs) {b' : Binding VarId}
    (hb' : ∀ b ∈ bs, (b.kind, b.var) ≠ (b'.kind, b'.var) ∧ (b.kind, b.var) ∉ b'.value.vars) :
    Triangular (bs ++ [b']) := by
  refine List.pairwise_append.mpr ⟨h, List.pairwise_singleton _ _, ?_⟩
  intro b hb c hc
  cases List.mem_singleton.mp hc
  exact hb' b hb

/-! Types under triangular bindings. -/

namespace Ty

variable {bs : List (Binding VarId)} {t : Ty VarId}

/-- A variable under bindings was there before, or comes with one of them. -/
theorem mem_vars_under (hbs : ∀ b ∈ bs, b.value.Canonical) (ht : t.Canonical) {x : Kind × VarId}
    (h : x ∈ (t.under bs).vars) : x ∈ t.vars ∨ ∃ b ∈ bs, x ∈ b.value.vars := by
  have hover : (t.under bs).Over fun y => y ∈ t.vars ∨ ∃ b ∈ bs, y ∈ b.value.vars :=
    .under (fun b hb => ⟨hbs b hb, fun y hy => .inr ⟨b, hb, hy⟩⟩) ⟨ht, fun y hy => .inl hy⟩
  exact hover.vars x h

/-- Bindings for variables that do not occur leave a type as it is. -/
theorem under_of_not_mem (hbs : ∀ b ∈ bs, b.value.Canonical) (ht : t.Canonical)
    (h : ∀ b ∈ bs, (b.kind, b.var) ∉ t.vars) : t.under bs = t := by
  induction bs with
  | nil => exact under_nil t
  | cons b bs ih =>
      obtain ⟨hb, hbs⟩ := List.forall_mem_cons.mp hbs
      obtain ⟨hbt, h⟩ := List.forall_mem_cons.mp h
      rw [under_cons, subst_of_not_mem hb ht hbt]
      exact ih hbs h

/-- No bound variable is left. -/
theorem not_mem_vars_under (hbs : ∀ b ∈ bs, b.value.Canonical ∧ b.Kinded) (hac : ∀ b ∈ bs, ¬ b.Cyclic)
    (htri : Triangular bs) (ht : t.Canonical) : ∀ b ∈ bs, (b.kind, b.var) ∉ (t.under bs).vars := by
  induction bs generalizing t with
  | nil => nofun
  | cons b bs ih =>
      obtain ⟨⟨hb, hk⟩, hbs⟩ := List.forall_mem_cons.mp hbs
      obtain ⟨hacb, hac⟩ := List.forall_mem_cons.mp hac
      obtain ⟨hlater, htri⟩ := List.pairwise_cons.mp htri
      rw [under_cons]
      refine List.forall_mem_cons.mpr ⟨?_, ih hbs hac htri (canonical_subst hb ht)⟩
      -- The first variable goes with its own binding, and none of the others brings it back.
      intro hmem
      rcases mem_vars_under (fun c hc => (hbs c hc).1) (canonical_subst hb ht) hmem with hmem | ⟨c, hc, hmem⟩
      · rcases mem_vars_subst hmem with ⟨-, hne⟩ | ⟨-, hcyclic⟩
        · exact hne hk.isRow rfl
        · exact hacb hcyclic
      · exact (hlater c hc).2 hmem

theorem under_under (hbs : ∀ b ∈ bs, b.value.Canonical ∧ b.Kinded) (hac : ∀ b ∈ bs, ¬ b.Cyclic)
    (htri : Triangular bs) (ht : t.Canonical) : (t.under bs).under bs = t.under bs := by
  have hcanonical : ∀ b ∈ bs, b.value.Canonical := fun b hb => (hbs b hb).1
  exact under_of_not_mem hcanonical (canonical_under hcanonical ht) (not_mem_vars_under hbs hac htri ht)

end Ty

/-! Turns. -/

namespace Solving

/-- The bound variables have been handed out, are in nothing that waits, and their bindings are triangular. -/
structure Eliminated (s : Solving) : Prop where
  issued : ∀ b ∈ s.made, s.supply.Issued (b.kind, b.var)
  gone : ∀ b ∈ s.made, ∀ c ∈ s.queue, (b.kind, b.var) ∉ c.vars
  triangular : Triangular s.made

theorem eliminated_start (supply : Supply) (cs : List (Constraint VarId)) : (start supply cs).Eliminated :=
  ⟨nofun, nofun, .nil⟩

variable {s t : Solving}

/-- A variable that has been handed out is not a fresh one. -/
theorem ne_fresh_of_issued {supply : Supply} {x : Kind × VarId} (h : supply.Issued x) : x ≠ (.row, supply.rows) := by
  rintro rfl
  exact Nat.lt_irrefl _ h

theorem Eliminated.next (hk : s.Kinded) (ho : s.Over Supply.Issued) (h : s.Eliminated) (hn : s.next? = some t)
    (hac : ∀ b ∈ t.made, ¬ b.Cyclic) : t.Eliminated := by
  have hle := next?_le hn
  have hissued : ∀ b ∈ s.made, t.supply.Issued (b.kind, b.var) :=
    fun b hb => growing_issued.mono hle (h.issued b hb)
  obtain ⟨c, cs, hq, hcase⟩ := next?_cases hn
  have hgone := h.gone
  simp only [hq, List.forall_mem_cons] at hgone
  have hqueue := hk.queue
  rw [hq] at hqueue
  obtain ⟨hc, hcs⟩ := List.forall_mem_cons.mp hqueue
  have hc : c.orient.Canonical ∧ c.orient.Kinded :=
    Constraint.of_orient (P := fun c => c.Canonical ∧ c.Kinded) hc (kinded_invariant.swap (s := s.supply))
  rcases hcase with ⟨-, htq, htm⟩ | ⟨b', hturn, htq, htm⟩ | ⟨more, hturn, htq, htm⟩
  · refine ⟨htm ▸ hissued, ?_, htm ▸ h.triangular⟩
    rw [htm, htq]
    exact fun b hb => (hgone b hb).2
  · obtain ⟨hvalue, hkinded⟩ := kinded_invariant.bind hc hturn
    obtain ⟨hvar, hvars⟩ := hturn.vars_bind
    simp only [Constraint.mem_vars_orient] at hvar hvars
    have hover := ho.queue c (hq ▸ List.mem_cons_self)
    have hlater : ∀ b ∈ s.made, (b.kind, b.var) ≠ (b'.kind, b'.var) ∧ (b.kind, b.var) ∉ b'.value.vars := by
      refine fun b hb => ⟨?_, fun hmem => (hgone b hb).1 (hvars _ hmem)⟩
      intro he
      exact (hgone b hb).1 (he ▸ hvar)
    have hacb' : ¬ b'.Cyclic := hac b' (htm ▸ List.mem_append_right _ (List.mem_singleton_self _))
    refine ⟨?_, ?_, htm ▸ h.triangular.append_singleton hlater⟩
    · rw [htm]
      refine List.forall_mem_append.mpr ⟨hissued, List.forall_mem_singleton.mpr (growing_issued.mono hle ?_)⟩
      exact (List.mem_append.mp hvar).elim (hover.left.vars _) (hover.right.vars _)
    · rw [htm, htq]
      intro b hb d' hd' hmem
      obtain ⟨d, hd, rfl⟩ := List.mem_map.mp hd'
      obtain ⟨hne, hmem⟩ := Constraint.mem_vars_subst hkinded hacb' hmem
      rcases List.mem_append.mp hb with hb | hb
      · rcases hmem with hmem | hmem
        · exact (hgone b hb).2 d hd hmem
        · exact (hlater b hb).2 hmem
      · cases List.mem_singleton.mp hb
        exact hne rfl
  · refine ⟨htm ▸ hissued, ?_, htm ▸ h.triangular⟩
    rw [htm, htq]
    intro b hb
    refine List.forall_mem_append.mpr ⟨(hgone b hb).2, ?_⟩
    intro d hd hmem
    rcases hturn.vars_split hc.1 hd hmem with hmem | ⟨he, -⟩
    · exact (hgone b hb).1 (Constraint.mem_vars_orient.mp hmem)
    · exact ne_fresh_of_issued (h.issued b hb) he

/-- As long as no variable is bound to a type in which it occurs, all bound variables are out of the way. -/
theorem Eliminated.through (hk : s.Kinded) (ho : s.Over Supply.Issued) (h : s.Eliminated) (ht : s.Through t)
    (hac : ∀ u, s.Through u → ∀ b ∈ u.made, ¬ b.Cyclic) : t.Eliminated := by
  induction ht with
  | refl => exact h
  | next hu hn ih =>
      exact .next (kinded_invariant.through hk hu) ((over_invariant growing_issued).through ho hu) ih hn
        (hac _ (hu.next hn))

end Solving

/-- The bindings that the solver ends with, none of them to a type in which its variable occurs, are triangular: a
variable is bound once and does not come back later. No bound variable is left in a type to which all of them have been
applied, and applying them once more gives the same type. -/
theorem solve_triangular {supply : Supply} {cs : List (Constraint VarId)}
    (hcs : ∀ c ∈ cs, c.Kinded ∧ c.Over supply.Issued) {steps : Nat} {bs : List (Binding VarId)} {supply' : Supply}
    (h : Id.run (solve steps supply cs) = (.solved bs, supply')) (hac : ∀ b ∈ bs, ¬ b.Cyclic) :
    Triangular bs ∧ (bs.map fun b => (b.kind, b.var)).Nodup ∧
      ∀ t : Ty VarId, t.Canonical →
        (∀ b ∈ bs, (b.kind, b.var) ∉ (t.under bs).vars) ∧ ((t.under bs).under bs).Alike (t.under bs) := by
  rw [← Solving.outcome_start] at h
  have hkinded : (Solving.start supply cs).Kinded := .start fun c hc => ⟨(hcs c hc).2.canonical, (hcs c hc).1⟩
  have hover : (Solving.start supply cs).Over Supply.Issued := .start fun c hc => (hcs c hc).2
  have hacyclic : ∀ u, (Solving.start supply cs).Through u → ∀ b ∈ u.made, ¬ b.Cyclic :=
    fun u hu b hb => hac b (Solving.made_subset_of_solved h hu hb)
  obtain ⟨t, ht, -, rfl, -⟩ := Solving.through_of_solved h
  have htri := (Solving.Eliminated.through hkinded hover (Solving.eliminated_start supply cs) ht hacyclic).triangular
  have hmade := (Solving.kinded_invariant.through hkinded ht).made
  refine ⟨htri, htri.nodup, fun u hu => ⟨Ty.not_mem_vars_under hmade hac htri hu, ?_⟩⟩
  have hcanonical := Ty.canonical_under (fun b hb => (hmade b hb).1) hu
  rw [Ty.under_under hmade hac htri hu]
  exact (Ty.alike_iff hcanonical hcanonical).mpr rfl

/-- Two open records that cross: each row variable is bound to what the other record has, and neither comes back. -/
theorem solve_triangular_crossing :
    Id.run (solve 3 ⟨0, 2⟩ [crossing]) = (.solved crossed, ⟨0, 3⟩) ∧ Triangular crossed ∧
      (∀ b ∈ crossed, (b.kind, b.var) ∉ (crossing.left.under crossed).vars) ∧
      ((crossing.left.under crossed).under crossed).Alike (crossing.left.under crossed) := by
  have hover : ∀ c ∈ [crossing], c.Kinded ∧ c.Over (Supply.Issued ⟨0, 2⟩) := by
    refine List.forall_mem_singleton.mpr ⟨crossing_kinded.2, ⟨crossing_kinded.1.left, ?_⟩, crossing_kinded.1.right, ?_⟩
    · exact List.forall_mem_singleton.mpr (by decide : 0 < 2)
    · exact List.forall_mem_singleton.mpr (by decide : 1 < 2)
  obtain ⟨htri, -, happlied⟩ := solve_triangular hover outcome_crossing crossed_acyclic
  obtain ⟨hgone, hsame⟩ := happlied crossing.left crossing_kinded.1.left
  exact ⟨outcome_crossing, htri, hgone, hsame⟩

end ScriptTypes
