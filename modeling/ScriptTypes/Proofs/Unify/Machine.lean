import ScriptTypes.Proofs.Ty.Over
import ScriptTypes.Proofs.Unify.Solver

/-! The solver one turn at a time. A turn takes the first constraint of the queue, and what it can do with it is said
once, by the rules of `Turn`. What every turn keeps holds in all states that a queue goes through, and the outcome of
solving is that of the state where it ends. -/

namespace ScriptTypes

theorem FlatRecord.tails_le {V : Type} [Variable V] (supply : Supply) (r s : FlatRecord V (Ty V))
    (forLeft forRight : Assoc (Ty V)) : supply.Le (tails supply r s forLeft forRight).2 := by
  unfold tails
  split
  · split
    · exact supply.le_next .row
    · exact .refl _
    · exact .refl _
    · exact .refl _
  · split
    · exact .refl _
    · exact .refl _
  · split
    · exact .refl _
    · exact .refl _
  · exact .refl _

theorem unifyRecords_le {V : Type} [Variable V] (supply : Supply) (left right : Ty V) :
    supply.Le (unifyRecords supply left right).2 := by
  unfold unifyRecords
  split
  · simp only
    split
    · exact .refl _
    · exact FlatRecord.tails_le _ _ _ _ _
  · exact .refl _
  · exact .refl _

/-- What a turn does with a constraint that has a lone variable, if any, on the left. -/
inductive Constraint.Turn (supply : Supply) : Constraint VarId → Step VarId → Supply → Prop
  | drop {c : Constraint VarId} : c.left.Alike c.right → Turn supply c .drop supply
  | bindType (v : VarId) (s : Option Node) {t : Ty VarId} : ¬ (Ty.var v s).Alike t →
      Turn supply ⟨.var v s, t⟩ (.bind ⟨.type, v, s, t⟩) supply
  | bindRow (v : VarId) (s : Option Node) {t : Ty VarId} : ¬ (Ty.rowVar v s).Alike t →
      Turn supply ⟨.rowVar v s, t⟩ (.bind ⟨.row, v, s, t⟩) supply
  | arrow {d d' : List (Ty VarId)} (r r' : Ty VarId) (s s' : Option Node) : d.length = d'.length →
      Turn supply ⟨.arrow d r s, .arrow d' r' s'⟩ (.split (⟨r, r'⟩ :: zip d d')) supply
  | con (n : String) {as as' : List (Ty VarId)} (s s' : Option Node) : as.length = as'.length →
      Turn supply ⟨.con n as s, .con n as' s'⟩ (.split (zip as as')) supply
  | record {rows rows' : List (Row VarId (Ty VarId))} {s s' : Option Node} {cs : List (Constraint VarId)}
      {supply' : Supply} : unifyRecords supply (.record rows s) (.record rows' s') = (.ok cs, supply') →
      Turn supply ⟨.record rows s, .record rows' s'⟩ (.split cs) supply'
  | stuck {rows rows' : List (Row VarId (Ty VarId))} {s s' : Option Node} {e : UnifyError VarId}
      {supply' : Supply} : unifyRecords supply (.record rows s) (.record rows' s') = (.error e, supply') →
      Turn supply ⟨.record rows s, .record rows' s'⟩ (.fail e) supply'
  | mismatch (c : Constraint VarId) : Turn supply c (.fail (.mismatch c.left c.right)) supply

namespace Constraint

variable {c : Constraint VarId}

theorem turn_stepApart (h : ¬ c.left.Alike c.right) (supply : Supply) :
    Turn supply c (c.stepApart supply).1 (c.stepApart supply).2 := by
  obtain ⟨l, r⟩ := c
  cases l with
  | var v s => exact .bindType v s h
  | rowVar v s => exact .bindRow v s h
  | leaf l s => exact .mismatch _
  | arrow d t s =>
      cases r with
      | arrow d' t' s' =>
          simp only [stepApart]
          split
          · rename_i hl
            exact .arrow t t' s s' (by simpa using hl)
          · exact .mismatch _
      | leaf | var | rowVar | con | record => exact .mismatch _
  | con n as s =>
      cases r with
      | con n' as' s' =>
          simp only [stepApart]
          split
          · rename_i hn
            obtain ⟨rfl, hl⟩ : n = n' ∧ as.length = as'.length := by simpa using hn
            exact .con n s s' hl
          · exact .mismatch _
      | leaf | var | rowVar | arrow | record => exact .mismatch _
  | record rows s =>
      cases r with
      | record rows' s' =>
          simp only [stepApart]
          split
          · rename_i cs supply' he
            exact .record he
          · rename_i e supply' he
            exact .stuck he
      | leaf | var | rowVar | arrow | con => exact .mismatch _

theorem turn_step (c : Constraint VarId) (supply : Supply) :
    Turn supply c.orient (Id.run (c.step supply)).1 (Id.run (c.step supply)).2 := by
  rw [run_step]
  split
  · rename_i h
    exact .drop h
  · rename_i h
    exact turn_stepApart h supply

theorem Turn.le {supply supply' : Supply} {st : Step VarId} (h : Turn supply c st supply') : supply.Le supply' := by
  cases h with
  | @record rows rows' s s' _ _ hu =>
      have hle := unifyRecords_le supply (.record rows s) (.record rows' s')
      rwa [hu] at hle
  | @stuck rows rows' s s' _ _ hu =>
      have hle := unifyRecords_le supply (.record rows s) (.record rows' s')
      rwa [hu] at hle
  | drop | bindType | bindRow | arrow | con | mismatch => exact .refl _

/-- What holds of a constraint either way round holds of it when a lone variable stands on the left. -/
theorem of_orient {P : Constraint VarId → Prop} (h : P c) (hswap : P c → P ⟨c.right, c.left⟩) : P c.orient := by
  unfold orient
  split
  · exact hswap h
  · exact h

end Constraint

/-- The solver between two turns, with the bindings that it has made so far. -/
structure Solving where
  supply : Supply
  queue : List (Constraint VarId)
  made : List (Binding VarId)

namespace Solving

/-- A queue before the first turn. -/
def start (supply : Supply) (queue : List (Constraint VarId)) : Solving :=
  ⟨supply, queue, []⟩

/-- One turn. There is none on an empty queue or a constraint that fails. -/
def next? (s : Solving) : Option Solving :=
  match s.queue with
  | [] => none
  | c :: cs =>
      match Id.run (c.step s.supply) with
      | (.drop, supply) => some ⟨supply, cs, s.made⟩
      | (.bind b, supply) => some ⟨supply, cs.map fun d => Id.run (d.subst b), s.made ++ [b]⟩
      | (.split more, supply) => some ⟨supply, cs ++ more, s.made⟩
      | (.fail _, _) => none

/-- The states that the solver goes through. -/
inductive Through (s : Solving) : Solving → Prop
  | refl : Through s s
  | next {t u : Solving} : Through s t → t.next? = some u → Through s u

variable {s t u : Solving}

theorem Through.trans (h : Through s t) (h' : Through t u) : Through s u := by
  induction h' with
  | refl => exact h
  | next _ hn ih => exact ih.next hn

/-- The turns to a state other than the first start with one that goes on. -/
theorem Through.eq_or_next (h : Through s t) : s = t ∨ ∃ u, s.next? = some u ∧ Through u t := by
  induction h with
  | refl => exact .inl rfl
  | next _ hn ih =>
      rcases ih with rfl | ⟨u, hu, hut⟩
      · exact .inr ⟨_, hn, .refl⟩
      · exact .inr ⟨u, hu, hut.next hn⟩

/-- What every turn keeps holds in all states to come. -/
theorem Through.keeps {P : Solving → Prop} (h : Through s t) (hs : P s)
    (hstep : ∀ t u, P t → t.next? = some u → P u) : P t := by
  induction h with
  | refl => exact hs
  | next _ hn ih => exact hstep _ _ ih hn

/-- Of two states that a queue goes through, one comes before the other. -/
theorem Through.total {u : Solving} (h : s.Through t) (h' : s.Through u) : t.Through u ∨ u.Through t := by
  induction h with
  | refl => exact .inl h'
  | next _ hn ih =>
      rcases ih with ih | ih
      · rcases ih.eq_or_next with rfl | ⟨t', hn', ht'⟩
        · exact .inr (.next .refl hn)
        · cases hn.symm.trans hn'
          exact .inl ht'
      · exact .inr (ih.next hn)

/-- What a turn that goes on has done. -/
theorem next?_cases (h : s.next? = some t) :
    ∃ c cs, s.queue = c :: cs ∧
      ((Constraint.Turn s.supply c.orient .drop t.supply ∧ t.queue = cs ∧ t.made = s.made) ∨
        (∃ b, Constraint.Turn s.supply c.orient (.bind b) t.supply ∧
          t.queue = cs.map (fun d => Id.run (d.subst b)) ∧ t.made = s.made ++ [b]) ∨
        ∃ more, Constraint.Turn s.supply c.orient (.split more) t.supply ∧ t.queue = cs ++ more ∧
          t.made = s.made) := by
  obtain ⟨supply, queue, made⟩ := s
  unfold next? at h
  cases queue with
  | nil => cases h
  | cons c cs =>
      have hturn := c.turn_step supply
      refine ⟨c, cs, rfl, ?_⟩
      simp only at h
      split at h
      · rename_i supply' he
        rw [he] at hturn
        cases h
        exact .inl ⟨hturn, rfl, rfl⟩
      · rename_i b supply' he
        rw [he] at hturn
        cases h
        exact .inr (.inl ⟨b, hturn, rfl, rfl⟩)
      · rename_i more supply' he
        rw [he] at hturn
        cases h
        exact .inr (.inr ⟨more, hturn, rfl, rfl⟩)
      · cases h

theorem next?_le (h : s.next? = some t) : s.supply.Le t.supply := by
  obtain ⟨c, cs, -, ⟨hturn, -⟩ | ⟨b, hturn, -⟩ | ⟨more, hturn, -⟩⟩ := next?_cases h
  · exact hturn.le
  · exact hturn.le
  · exact hturn.le

theorem Through.le (h : Through s t) : s.supply.Le t.supply := by
  induction h with
  | refl => exact .refl _
  | next _ hn ih => exact ih.trans (next?_le hn)

theorem Through.made_subset (h : Through s t) : s.made ⊆ t.made := by
  induction h with
  | refl => exact List.Subset.refl _
  | next _ hn ih =>
      obtain ⟨c, cs, -, ⟨-, -, hm⟩ | ⟨b, -, -, hm⟩ | ⟨more, -, -, hm⟩⟩ := next?_cases hn
      · rwa [hm]
      · rw [hm]
        exact List.Subset.trans ih (List.subset_append_left _ _)
      · rwa [hm]

/-- Where a turn does not go on, the queue is empty or its first constraint fails. -/
theorem next?_eq_none (h : s.next? = none) :
    s.queue = [] ∨ ∃ c cs e supply, s.queue = c :: cs ∧ Id.run (c.step s.supply) = (.fail e, supply) ∧
      Constraint.Turn s.supply c.orient (.fail e) supply := by
  obtain ⟨supply, queue, made⟩ := s
  unfold next? at h
  cases queue with
  | nil => exact .inl rfl
  | cons c cs =>
      have hturn := c.turn_step supply
      simp only at h
      split at h
      · cases h
      · cases h
      · cases h
      · rename_i e supply' he
        rw [he] at hturn
        exact .inr ⟨c, cs, e, supply', rfl, he, hturn⟩

/-- A property of constraints and one of bindings that no turn breaks. Both may depend on what has been handed out. -/
structure Invariant (P : Supply → Constraint VarId → Prop) (Q : Supply → Binding VarId → Prop) : Prop where
  later {s s' : Supply} {c : Constraint VarId} : s.Le s' → P s c → P s' c
  laterMade {s s' : Supply} {b : Binding VarId} : s.Le s' → Q s b → Q s' b
  swap {s : Supply} {c : Constraint VarId} : P s c → P s ⟨c.right, c.left⟩
  subst {s : Supply} {b : Binding VarId} {c : Constraint VarId} : Q s b → P s c → P s (Id.run (c.subst b))
  bind {s s' : Supply} {c : Constraint VarId} {b : Binding VarId} : P s c → Constraint.Turn s c (.bind b) s' → Q s' b
  split {s s' : Supply} {c : Constraint VarId} {more : List (Constraint VarId)} : P s c →
    Constraint.Turn s c (.split more) s' → ∀ d ∈ more, P s' d

theorem Invariant.and {P P' : Supply → Constraint VarId → Prop} {Q Q' : Supply → Binding VarId → Prop}
    (h : Invariant P Q) (h' : Invariant P' Q') :
    Invariant (fun s c => P s c ∧ P' s c) fun s b => Q s b ∧ Q' s b where
  later hle hc := ⟨h.later hle hc.1, h'.later hle hc.2⟩
  laterMade hle hb := ⟨h.laterMade hle hb.1, h'.laterMade hle hb.2⟩
  swap hc := ⟨h.swap hc.1, h'.swap hc.2⟩
  subst hb hc := ⟨h.subst hb.1 hc.1, h'.subst hb.2 hc.2⟩
  bind hc hturn := ⟨h.bind hc.1 hturn, h'.bind hc.2 hturn⟩
  split hc hturn d hd := ⟨h.split hc.1 hturn d hd, h'.split hc.2 hturn d hd⟩

/-- All constraints that wait have a property, and all bindings made have one. -/
structure Holds (P : Supply → Constraint VarId → Prop) (Q : Supply → Binding VarId → Prop) (s : Solving) : Prop where
  queue : ∀ c ∈ s.queue, P s.supply c
  made : ∀ b ∈ s.made, Q s.supply b

section Holds

variable {P : Supply → Constraint VarId → Prop} {Q : Supply → Binding VarId → Prop}

theorem Holds.start {supply : Supply} {cs : List (Constraint VarId)} (h : ∀ c ∈ cs, P supply c) :
    Holds P Q (start supply cs) :=
  ⟨h, nofun⟩

theorem Invariant.next (hi : Invariant P Q) (h : Holds P Q s) (hn : s.next? = some t) : Holds P Q t := by
  obtain ⟨c, cs, hq, hcase⟩ := next?_cases hn
  have hle := next?_le hn
  have hqueue := h.queue
  rw [hq] at hqueue
  obtain ⟨hc, hcs⟩ := List.forall_mem_cons.mp hqueue
  have hc := Constraint.of_orient hc hi.swap
  have hcs : ∀ d ∈ cs, P t.supply d := fun d hd => hi.later hle (hcs d hd)
  have hmade : ∀ b ∈ s.made, Q t.supply b := fun b hb => hi.laterMade hle (h.made b hb)
  rcases hcase with ⟨-, htq, htm⟩ | ⟨b, hturn, htq, htm⟩ | ⟨more, hturn, htq, htm⟩
  · constructor
    · rwa [htq]
    · rwa [htm]
  · have hb := hi.bind hc hturn
    constructor
    · rw [htq]
      exact List.forall_mem_map.mpr fun d hd => hi.subst hb (hcs d hd)
    · rw [htm]
      exact List.forall_mem_append.mpr ⟨hmade, List.forall_mem_singleton.mpr hb⟩
  · constructor
    · rw [htq]
      exact List.forall_mem_append.mpr ⟨hcs, hi.split hc hturn⟩
    · rwa [htm]

/-- What no turn breaks holds in all states to come. -/
theorem Invariant.through (hi : Invariant P Q) (h : Holds P Q s) (ht : Through s t) : Holds P Q t :=
  ht.keeps h fun _ _ hu hn => hi.next hu hn

end Holds

/-! The outcome. -/

/-- What solving comes to from a state on, with the bindings made before. -/
def outcome (steps : Nat) (s : Solving) : Solution VarId × Supply :=
  let (solution, supply) := Id.run (solve steps s.supply s.queue)
  (s.made.foldr Solution.after solution, supply)

theorem outcome_start (steps : Nat) (supply : Supply) (queue : List (Constraint VarId)) :
    (start supply queue).outcome steps = Id.run (solve steps supply queue) := rfl

/-- A turn takes one step and leaves the outcome. -/
theorem outcome_succ (h : s.next? = some t) (steps : Nat) : s.outcome (steps + 1) = t.outcome steps := by
  obtain ⟨supply, queue, made⟩ := s
  unfold next? at h
  cases queue with
  | nil => cases h
  | cons c cs =>
      simp only at h
      unfold outcome
      simp only [solve, Id.run_bind]
      split at h
      · rename_i supply' he
        rw [he]
        cases h
        rfl
      · rename_i b supply' he
        rw [he]
        cases h
        simp only [Id.run_bind, Constraint.run_substList, Id.run_pure, List.foldr_append, List.foldr_cons,
          List.foldr_nil]
      · rename_i more supply' he
        rw [he]
        cases h
        rfl
      · cases h

theorem outcome_nil (h : s.queue = []) (steps : Nat) : s.outcome steps = (.solved s.made, s.supply) := by
  unfold outcome
  rw [h, run_solve_nil]
  simp only [Solution.foldr_after_solved, List.append_nil]

theorem foldr_after_failed (made : List (Binding VarId)) (e : UnifyError VarId) :
    made.foldr Solution.after (.failed e) = .failed e := by
  induction made with
  | nil => rfl
  | cons b made ih => rw [List.foldr_cons, ih, Solution.after]

theorem foldr_after_unfinished (made : List (Binding VarId)) :
    made.foldr Solution.after .unfinished = .unfinished := by
  induction made with
  | nil => rfl
  | cons b made ih => rw [List.foldr_cons, ih, Solution.after]

theorem outcome_fail {c : Constraint VarId} {cs : List (Constraint VarId)} {e : UnifyError VarId}
    {supply : Supply} (hq : s.queue = c :: cs) (he : Id.run (c.step s.supply) = (.fail e, supply)) (steps : Nat) :
    s.outcome (steps + 1) = (.failed e, supply) := by
  unfold outcome
  rw [hq, solve, Id.run_bind, he]
  simp only [Id.run_pure, foldr_after_failed]

theorem outcome_zero (h : s.queue ≠ []) : s.outcome 0 = (.unfinished, s.supply) := by
  unfold outcome
  cases hq : s.queue with
  | nil => exact absurd hq h
  | cons c cs => simp only [solve, Id.run_pure, foldr_after_unfinished]

/-- The turns up to a state take their steps and leave the outcome. -/
theorem Through.outcome (h : Through s t) : ∃ n, ∀ steps, s.outcome (steps + n) = t.outcome steps := by
  induction h with
  | refl => exact ⟨0, fun _ => rfl⟩
  | next _ hn ih =>
      obtain ⟨n, ih⟩ := ih
      refine ⟨n + 1, ?_⟩
      intro steps
      rw [← outcome_succ hn steps, ← ih, Nat.add_right_comm, Nat.add_assoc]

/-- There is an end to the turns. -/
def Ends (s : Solving) : Prop :=
  ∃ t, Through s t ∧ t.next? = none

/-- In the state where the turns end, one step gives the outcome. -/
theorem outcome_of_next?_eq_none (h : s.next? = none) :
    ∃ solution supply, solution ≠ .unfinished ∧ ∀ steps ≥ 1, s.outcome steps = (solution, supply) := by
  rcases next?_eq_none h with hq | ⟨c, cs, e, supply, hq, he, -⟩
  · exact ⟨.solved s.made, s.supply, nofun, fun steps _ => outcome_nil hq steps⟩
  · refine ⟨.failed e, supply, nofun, ?_⟩
    intro steps hs
    obtain ⟨n, rfl⟩ : ∃ n, steps = n + 1 := ⟨steps - 1, by omega⟩
    exact outcome_fail hq he n

/-- Without an end to the turns, no number of steps is enough. -/
theorem outcome_of_not_ends (h : ¬ s.Ends) (steps : Nat) : (s.outcome steps).1 = .unfinished := by
  induction steps generalizing s with
  | zero =>
      have hq : s.queue ≠ [] := by
        intro hq
        refine h ⟨s, .refl, ?_⟩
        unfold next?
        rw [hq]
      rw [outcome_zero hq]
  | succ steps ih =>
      cases hn : s.next? with
      | none => exact absurd ⟨s, .refl, hn⟩ h
      | some t =>
          rw [outcome_succ hn]
          apply ih
          rintro ⟨u, hu, hnone⟩
          exact h ⟨u, (Through.refl.next hn).trans hu, hnone⟩

/-- The turns end exactly when enough steps give an outcome, and more of them the same one. -/
theorem ends_iff :
    s.Ends ↔
      ∃ limit solution supply, solution ≠ .unfinished ∧ ∀ steps ≥ limit, s.outcome steps = (solution, supply) := by
  constructor
  · rintro ⟨t, ht, hnone⟩
    obtain ⟨n, hn⟩ := ht.outcome
    obtain ⟨solution, supply, hne, hout⟩ := outcome_of_next?_eq_none hnone
    refine ⟨n + 1, solution, supply, hne, ?_⟩
    intro steps hs
    obtain ⟨k, rfl⟩ : ∃ k, steps = k + n := ⟨steps - n, by omega⟩
    rw [hn, hout k (by omega)]
  · rintro ⟨limit, solution, supply, hne, hout⟩
    by_contra h
    have hlimit := outcome_of_not_ends h limit
    rw [hout limit le_rfl] at hlimit
    exact hne hlimit

/-- When the solver ends with bindings, it has gone through turns that made them. -/
theorem through_of_solved {steps : Nat} {bs : List (Binding VarId)} {supply : Supply}
    (h : s.outcome steps = (.solved bs, supply)) :
    ∃ t, Through s t ∧ t.queue = [] ∧ t.made = bs ∧ t.supply = supply := by
  induction steps generalizing s with
  | zero =>
      by_cases hq : s.queue = []
      · rw [outcome_nil hq] at h
        cases h
        exact ⟨s, .refl, hq, rfl, rfl⟩
      · rw [outcome_zero hq] at h
        cases h
  | succ steps ih =>
      cases hn : s.next? with
      | none =>
          rcases next?_eq_none hn with hq | ⟨c, cs, e, supply', hq, he, -⟩
          · rw [outcome_nil hq] at h
            cases h
            exact ⟨s, .refl, hq, rfl, rfl⟩
          · rw [outcome_fail hq he] at h
            cases h
      | some u =>
          rw [outcome_succ hn] at h
          obtain ⟨t, ht, hend⟩ := ih h
          exact ⟨t, (Through.refl.next hn).trans ht, hend⟩

/-- The bindings of a state are among those that the solver ends with. -/
theorem made_subset_of_solved {steps : Nat} {bs : List (Binding VarId)} {supply : Supply}
    (h : s.outcome steps = (.solved bs, supply)) (ht : Through s t) : t.made ⊆ bs := by
  obtain ⟨u, hu, hq, rfl, -⟩ := through_of_solved h
  rcases ht.total hu with htu | hut
  · exact htu.made_subset
  · rcases hut.eq_or_next with rfl | ⟨t', hn, -⟩
    · exact List.Subset.refl _
    · unfold next? at hn
      rw [hq] at hn
      cases hn

/-- When the solver fails, it has come to a constraint that fails. -/
theorem through_of_failed {steps : Nat} {e : UnifyError VarId} {supply : Supply}
    (h : s.outcome steps = (.failed e, supply)) :
    ∃ t c cs, Through s t ∧ t.queue = c :: cs ∧ Constraint.Turn t.supply c.orient (.fail e) supply := by
  induction steps generalizing s with
  | zero =>
      by_cases hq : s.queue = []
      · rw [outcome_nil hq] at h
        cases h
      · rw [outcome_zero hq] at h
        cases h
  | succ steps ih =>
      cases hn : s.next? with
      | none =>
          rcases next?_eq_none hn with hq | ⟨c, cs, e', supply', hq, he, hturn⟩
          · rw [outcome_nil hq] at h
            cases h
          · rw [outcome_fail hq he] at h
            cases h
            exact ⟨s, c, cs, .refl, hq, hturn⟩
      | some u =>
          rw [outcome_succ hn] at h
          obtain ⟨t, c, cs, ht, hfail⟩ := ih h
          exact ⟨t, c, cs, (Through.refl.next hn).trans ht, hfail⟩

/-- Whatever the outcome, the supply that is left is a later one. -/
theorem outcome_le (s : Solving) (steps : Nat) : s.supply.Le (s.outcome steps).2 := by
  induction steps generalizing s with
  | zero =>
      by_cases hq : s.queue = []
      · rw [outcome_nil hq]
        exact .refl _
      · rw [outcome_zero hq]
        exact .refl _
  | succ steps ih =>
      cases hn : s.next? with
      | none =>
          rcases next?_eq_none hn with hq | ⟨c, cs, e, supply, hq, he, hturn⟩
          · rw [outcome_nil hq]
            exact .refl _
          · rw [outcome_fail hq he]
            exact hturn.le
      | some u =>
          rw [outcome_succ hn]
          exact (next?_le hn).trans (ih u)

end Solving

end ScriptTypes
