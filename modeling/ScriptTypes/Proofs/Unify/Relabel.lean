import ScriptTypes.Proofs.Ty.Relabel
import ScriptTypes.Proofs.Typing.Ensures

/-! Solving under other variables and nodes. The solver takes the same turns on renamed constraints and comes to the
renamed outcome, as long as the two supplies hand out corresponding variables. What is asked of names may be renamed
along with the names. -/

namespace ScriptTypes

section Relabel

variable {V W : Type} (f : Kind → V → W) (g : Node → Node)

def Constraint.relabel (c : Constraint V) : Constraint W :=
  ⟨c.left.relabel f g, c.right.relabel f g⟩

def UnifyError.relabel : UnifyError V → UnifyError W
  | .mismatch l r => .mismatch (l.relabel f g) (r.relabel f g)
  | .multipleRowVars t => .multipleRowVars (t.relabel f g)

def Step.relabel : Step V → Step W
  | .drop => .drop
  | .bind b => .bind (b.relabel f g)
  | .split cs => .split (cs.map (Constraint.relabel f g))
  | .fail e => .fail (e.relabel f g)

def FlatRecord.relabel (r : FlatRecord V (Ty V)) : FlatRecord W (Ty W) :=
  r.map (RowVar.relabel f g) (Ty.relabel f g)

def Solution.relabel : Solution V → Solution W
  | .solved bs => .solved (bs.map (Binding.relabel f g))
  | .failed e => .failed (e.relabel f g)
  | .unfinished => .unfinished

end Relabel

/-! Records. -/

section Records

variable {V W : Type} (f : Kind → V → W) (g : Node → Node)

theorem Ty.flatten_relabel (t : Ty V) :
    (t.relabel f g).flatten =
      match t.flatten with
      | .ok r => .ok (r.relabel f g)
      | .error e => .error (e.relabel f g) := by
  cases t with
  | record rows s =>
      simp only [relabel_record, flatten, Row.flatten_map]
      cases Row.flatten rows with
      | ok r => rfl
      | error vs => simp only [UnifyError.relabel, relabel_record]
  | _ => simp [flatten, UnifyError.relabel]

namespace FlatRecord

variable (r s : FlatRecord V (Ty V))

theorem shared_relabel :
    (r.relabel f g).shared (s.relabel f g) = (r.shared s).map (Constraint.relabel f g) := by
  simp only [shared, FlatRecord.relabel, FlatRecord.map, Assoc.mapValues, List.filterMap_map, List.map_filterMap]
  refine List.filterMap_congr fun e _ => ?_
  rw [← Assoc.mapValues, Function.comp, Assoc.get?_mapValues]
  cases Assoc.get? s.fields e.1 <;> rfl

theorem missingIn_relabel :
    (r.relabel f g).missingIn (s.relabel f g) = Assoc.mapValues (Ty.relabel f g) (r.missingIn s) := by
  simp only [missingIn, FlatRecord.relabel, FlatRecord.map, Assoc.mapValues, List.filter_map]
  refine congrArg (List.map _) (List.filter_congr fun e _ => ?_)
  rw [← Assoc.mapValues, Function.comp, Assoc.contains, Assoc.contains, Assoc.get?_mapValues, Option.isSome_map]

end FlatRecord

end Records

section Turns

variable {f : Kind → VarId → VarId} {g : Node → Node} {s s' : Supply}

theorem Assoc.isEmpty_mapValues {α β : Type} (g : α → β) (m : Assoc α) : (Assoc.mapValues g m).isEmpty = m.isEmpty := by
  cases m <;> rfl

theorem FlatRecord.tails_relabel (h : s.Renames f s') (r q : FlatRecord VarId (Ty VarId))
    (forLeft forRight : Assoc (Ty VarId)) :
    (tails s' (r.relabel f g) (q.relabel f g) (Assoc.mapValues (Ty.relabel f g) forLeft)
        (Assoc.mapValues (Ty.relabel f g) forRight)).1 = (tails s r q forLeft forRight).1.map (Constraint.relabel f g) ∧
      (tails s r q forLeft forRight).2.Renames f
        (tails s' (r.relabel f g) (q.relabel f g) (Assoc.mapValues (Ty.relabel f g) forLeft)
          (Assoc.mapValues (Ty.relabel f g) forRight)).2 := by
  have hof := Ty.relabel_ofFields f g
  obtain ⟨hnext, hlater⟩ := h.next .row
  obtain ⟨fs, v⟩ := r
  obtain ⟨gs, w⟩ := q
  cases v with
  | none =>
      cases w with
      | none => exact ⟨rfl, h⟩
      | some w =>
          simp only [tails, FlatRecord.relabel, FlatRecord.map, Option.map_none, Option.map_some,
            Assoc.isEmpty_mapValues]
          cases forRight.isEmpty with
          | true => exact ⟨rfl, h⟩
          | false => exact ⟨by simp [Constraint.relabel, hof, Ty.relabel_toTy], h⟩
  | some v =>
      cases w with
      | none =>
          simp only [tails, FlatRecord.relabel, FlatRecord.map, Option.map_none, Option.map_some,
            Assoc.isEmpty_mapValues]
          cases forLeft.isEmpty with
          | true => exact ⟨rfl, h⟩
          | false => exact ⟨by simp [Constraint.relabel, hof, Ty.relabel_toTy], h⟩
      | some w =>
          simp only [tails, FlatRecord.relabel, FlatRecord.map, Option.map_some, Assoc.isEmpty_mapValues]
          cases forLeft.isEmpty with
          | true =>
              cases forRight.isEmpty with
              | true => exact ⟨rfl, h⟩
              | false => exact ⟨by simp [Constraint.relabel, hof, Ty.relabel_toTy], h⟩
          | false =>
              cases forRight.isEmpty with
              | true => exact ⟨by simp [Constraint.relabel, hof, Ty.relabel_toTy], h⟩
              | false =>
                  -- Both sides lack labels: the new tail is the next row variable of either supply.
                  have htail : (s'.freshRowVar none).1 = RowVar.relabel f g (s.freshRowVar none).1 :=
                    congrArg (RowVar.mk · none) hnext
                  refine ⟨?_, hlater⟩
                  simp only [List.map_cons, List.map_nil, Constraint.relabel, hof, Ty.relabel_toTy, Option.map_some,
                    htail]

theorem unifyRecords_relabel (h : s.Renames f s') (left right : Ty VarId) :
    (unifyRecords s' (left.relabel f g) (right.relabel f g)).1 =
        (match (unifyRecords s left right).1 with
        | .ok cs => .ok (cs.map (Constraint.relabel f g))
        | .error e => .error (e.relabel f g)) ∧
      (unifyRecords s left right).2.Renames f (unifyRecords s' (left.relabel f g) (right.relabel f g)).2 := by
  unfold unifyRecords
  rw [Ty.flatten_relabel, Ty.flatten_relabel]
  cases left.flatten with
  | error e => exact ⟨rfl, h⟩
  | ok r =>
      cases right.flatten with
      | error e => exact ⟨rfl, h⟩
      | ok q =>
          obtain ⟨htails, hs⟩ := FlatRecord.tails_relabel h r q (q.missingIn r) (r.missingIn q)
          have hr : (r.relabel f g).tail.isNone = r.tail.isNone := Option.isNone_map
          have hq : (q.relabel f g).tail.isNone = q.tail.isNone := Option.isNone_map
          simp only [FlatRecord.missingIn_relabel, Assoc.isEmpty_mapValues, hr, hq]
          split
          · exact ⟨rfl, h⟩
          · refine ⟨?_, hs⟩
            simp only [htails, FlatRecord.shared_relabel, List.map_append]

namespace Constraint

theorem orient_relabel (c : Constraint VarId) : (c.relabel f g).orient = c.orient.relabel f g := by
  unfold orient
  simp only [relabel, Ty.isVar_relabel]
  split <;> rfl

theorem zip_relabel (ts us : List (Ty VarId)) :
    zip (ts.map (Ty.relabel f g)) (us.map (Ty.relabel f g)) = (zip ts us).map (relabel f g) := by
  induction ts generalizing us with
  | nil => rfl
  | cons t ts ih =>
      cases us with
      | nil => rfl
      | cons u us => exact congrArg ((relabel f g ⟨t, u⟩) :: ·) (ih us)

theorem stepApart_relabel (h : s.Renames f s') (c : Constraint VarId) :
    ((c.relabel f g).stepApart s').1 = (c.stepApart s).1.relabel f g ∧
      (c.stepApart s).2.Renames f ((c.relabel f g).stepApart s').2 := by
  obtain ⟨l, r⟩ := c
  cases l with
  | var v src => exact ⟨rfl, h⟩
  | rowVar v src => exact ⟨rfl, h⟩
  | leaf l src => exact ⟨rfl, h⟩
  | arrow d t src =>
      cases r with
      | arrow d' t' src' =>
          simp only [relabel, Ty.relabel_arrow, stepApart, List.length_map, zip_relabel]
          split
          · exact ⟨rfl, h⟩
          · exact ⟨by simp [Step.relabel, UnifyError.relabel], h⟩
      | _ =>
          exact ⟨by simp [relabel, stepApart, Step.relabel, UnifyError.relabel], by simpa [relabel, stepApart] using h⟩
  | con n as src =>
      cases r with
      | con n' as' src' =>
          simp only [relabel, Ty.relabel_con, stepApart, List.length_map, zip_relabel]
          split
          · exact ⟨rfl, h⟩
          · exact ⟨by simp [Step.relabel, UnifyError.relabel], h⟩
      | _ =>
          exact ⟨by simp [relabel, stepApart, Step.relabel, UnifyError.relabel], by simpa [relabel, stepApart] using h⟩
  | record rows src =>
      cases r with
      | record rows' src' =>
          have hu := unifyRecords_relabel (g := g) h (.record rows src) (.record rows' src')
          simp only [relabel, Ty.relabel_record, stepApart] at hu ⊢
          generalize unifyRecords s (.record rows src) (.record rows' src') = u at hu ⊢
          generalize unifyRecords (V := VarId) s' _ _ = u' at hu ⊢
          obtain ⟨result, t⟩ := u
          obtain ⟨result', t'⟩ := u'
          obtain ⟨rfl, ht⟩ := hu
          cases result with
          | ok cs => exact ⟨rfl, ht⟩
          | error e => exact ⟨rfl, ht⟩
      | _ =>
          exact ⟨by simp [relabel, stepApart, Step.relabel, UnifyError.relabel], by simpa [relabel, stepApart] using h⟩

theorem subst_relabel (hf : ∀ k, Function.Injective (f k)) (b : Binding VarId) (c : Constraint VarId) :
    Id.run ((c.relabel f g).subst (b.relabel f g)) = (Id.run (c.subst b)).relabel f g :=
  congrArg₂ Constraint.mk (Ty.subst_relabel hf g b c.left) (Ty.subst_relabel hf g b c.right)

/-- A step on a renamed constraint is the renamed step. -/
theorem step_relabel (h : s.Renames f s') (c : Constraint VarId) :
    (Id.run ((c.relabel f g).step s')).1 = (Id.run (c.step s)).1.relabel f g ∧
      (Id.run (c.step s)).2.Renames f (Id.run ((c.relabel f g).step s')).2 := by
  rw [run_step, run_step, orient_relabel]
  have hsame : (c.orient.relabel f g).left.Alike (c.orient.relabel f g).right ↔ c.orient.left.Alike c.orient.right :=
    Bool.eq_iff_iff.mp (Ty.same_relabel_of_injective h.injective g c.orient.left c.orient.right)
  by_cases halike : c.orient.left.Alike c.orient.right
  · rw [if_pos halike, if_pos (hsame.mpr halike)]
    exact ⟨rfl, h⟩
  · rw [if_neg halike, if_neg (mt hsame.mp halike)]
    exact stepApart_relabel h c.orient

end Constraint

end Turns

/-! Runs of the solver. -/

/-- Two states of the solver, the second one over renamed variables. -/
structure Solving.Renamed (f : Kind → VarId → VarId) (g : Node → Node) (s s' : Solving) : Prop where
  supply : s.supply.Renames f s'.supply
  queue : s'.queue = s.queue.map (Constraint.relabel f g)
  made : s'.made = s.made.map (Binding.relabel f g)

namespace Solving

variable {f : Kind → VarId → VarId} {g : Node → Node} {s s' : Solving}

/-- Renamed states take corresponding turns. -/
theorem Renamed.next? (h : s.Renamed f g s') {t : Solving} (hn : s.next? = some t) :
    ∃ t', s'.next? = some t' ∧ t.Renamed f g t' := by
  obtain ⟨supply, queue, made⟩ := s
  obtain ⟨supply', queue', made'⟩ := s'
  obtain ⟨hs, rfl, rfl⟩ := h
  cases queue with
  | nil => cases hn
  | cons c cs =>
      unfold Solving.next? at hn ⊢
      have hstep := Constraint.step_relabel (g := g) hs c
      simp only [List.map_cons] at hn ⊢
      cases hrun : Id.run (c.step supply) with
      | mk st later =>
          cases hrun' : Id.run ((c.relabel f g).step supply') with
          | mk st' later' =>
              rw [hrun, hrun'] at hstep
              rw [hrun] at hn
              obtain ⟨rfl, hlater⟩ := hstep
              cases st with
              | drop =>
                  cases hn
                  exact ⟨_, rfl, hlater, rfl, rfl⟩
              | bind b =>
                  cases hn
                  refine ⟨_, rfl, hlater, ?_, ?_⟩
                  · simp only [List.map_map]
                    exact List.map_congr_left fun d _ => Constraint.subst_relabel hs.injective b d
                  · rw [List.map_append, List.map_singleton]
              | split more =>
                  cases hn
                  exact ⟨_, rfl, hlater, List.map_append.symm, rfl⟩
              | fail e => cases hn

/-- Renamed states have renamed outcomes, whatever the limit of steps is. -/
theorem Renamed.outcome (h : s.Renamed f g s') (steps : Nat) :
    (s'.outcome steps).1 = (s.outcome steps).1.relabel f g ∧ (s.outcome steps).2.Renames f (s'.outcome steps).2 := by
  have hnil : ∀ {s s' : Solving} {steps : Nat}, s.Renamed f g s' → s.queue = [] →
      (s'.outcome steps).1 = (s.outcome steps).1.relabel f g ∧ (s.outcome steps).2.Renames f (s'.outcome steps).2 := by
    intro s s' steps h hq
    have hq' : s'.queue = [] := by rw [h.queue, hq, List.map_nil]
    rw [outcome_nil hq, outcome_nil hq', h.made]
    exact ⟨rfl, h.supply⟩
  induction steps generalizing s s' with
  | zero =>
      by_cases hq : s.queue = []
      · exact hnil h hq
      · have hq' : s'.queue ≠ [] := by simpa [h.queue] using hq
        rw [outcome_zero hq, outcome_zero hq']
        exact ⟨rfl, h.supply⟩
  | succ steps ih =>
      cases hn : s.next? with
      | some t =>
          obtain ⟨t', hn', ht⟩ := h.next? hn
          rw [outcome_succ hn, outcome_succ hn']
          exact ih ht
      | none =>
          rcases next?_eq_none hn with hq | ⟨c, cs, e, supply, hq, he, -⟩
          · exact hnil h hq
          · have hq' : s'.queue = c.relabel f g :: cs.map (Constraint.relabel f g) := by rw [h.queue, hq, List.map_cons]
            obtain ⟨hstep, hlater⟩ := Constraint.step_relabel (g := g) h.supply c
            rw [he] at hstep hlater
            have he' : Id.run ((c.relabel f g).step s'.supply) =
                (.fail (e.relabel f g), (Id.run ((c.relabel f g).step s'.supply)).2) :=
              Prod.ext hstep rfl
            rw [outcome_fail hq he, outcome_fail hq' he']
            exact ⟨rfl, hlater⟩

/-- A higher limit of steps does not change an outcome. -/
theorem outcome_of_le {n m : Nat} (h : (s.outcome n).1 ≠ .unfinished) (hnm : n ≤ m) : s.outcome m = s.outcome n := by
  induction n generalizing s m with
  | zero =>
      by_cases hq : s.queue = []
      · rw [outcome_nil hq, outcome_nil hq]
      · exact absurd (congrArg Prod.fst (outcome_zero hq)) h
  | succ n ih =>
      obtain ⟨k, rfl⟩ : ∃ k, m = k + 1 := ⟨m - 1, by omega⟩
      cases hn : s.next? with
      | some t =>
          rw [outcome_succ hn] at h ⊢
          rw [outcome_succ hn]
          exact ih h (Nat.le_of_succ_le_succ hnm)
      | none =>
          obtain ⟨solution, supply, -, hout⟩ := outcome_of_next?_eq_none hn
          rw [hout _ (Nat.succ_pos k), hout _ (Nat.succ_pos n)]

/-- Of two renamed states, one has an outcome, and not with the higher limit of steps. Then both have, and
correspondingly. -/
theorem Renamed.outcome_of_lower (h : s.Renamed f g s') {n m : Nat} {first : Bool}
    (hlower : (first = true → n ≤ m) ∧ (first = false → m ≤ n)) (hn : first = true → (s.outcome n).1 ≠ .unfinished)
    (hm : first = false → (s'.outcome m).1 ≠ .unfinished) :
    (s.outcome n).1 ≠ .unfinished ∧ (s'.outcome m).1 = (s.outcome n).1.relabel f g ∧
      (s.outcome n).2.Renames f (s'.outcome m).2 := by
  cases first with
  | true =>
      have hfin := hn rfl
      refine ⟨hfin, ?_⟩
      rw [← outcome_of_le hfin (hlower.1 rfl)]
      exact h.outcome m
  | false =>
      have hfin : (s.outcome m).1 ≠ .unfinished := by
        intro he
        apply hm rfl
        rw [(h.outcome m).1, he, Solution.relabel]
      rw [outcome_of_le hfin (hlower.2 rfl)]
      exact ⟨hfin, h.outcome m⟩

end Solving

/-! Requirements. -/

namespace Requirements

variable {φ : String → String} (hφ : Function.Injective φ) {f : Kind → VarId → VarId} {g : Node → Node}

include hφ

theorem note_rename (us : Assoc (List (Ty VarId))) (e : String × Ty VarId) :
    note (Assoc.rename φ (List.map (Ty.relabel f g)) us) (φ e.1, e.2.relabel f g) =
      Assoc.rename φ (List.map (Ty.relabel f g)) (note us e) := by
  unfold note
  rw [← Assoc.insert_rename hφ, Assoc.get?_rename hφ]
  cases Assoc.get? us e.1 with
  | none => rfl
  | some ts => simp

theorem uses_rename (envs : List (Requirements VarId)) :
    uses (envs.map (Assoc.rename φ (Ty.relabel f g))) = Assoc.rename φ (List.map (Ty.relabel f g)) (uses envs) := by
  have hfold : ∀ (es : List (String × Ty VarId)) (us : Assoc (List (Ty VarId))),
      (Assoc.rename φ (Ty.relabel f g) es).foldl note (Assoc.rename φ (List.map (Ty.relabel f g)) us) =
        Assoc.rename φ (List.map (Ty.relabel f g)) (es.foldl note us) := by
    intro es
    induction es with
    | nil => exact fun _ => rfl
    | cons e es ih =>
        intro us
        rw [List.foldl_cons, ← ih, ← note_rename hφ]
        rfl
  have hflat : (envs.map (Assoc.rename φ (Ty.relabel f g))).flatten = Assoc.rename φ (Ty.relabel f g) envs.flatten :=
    List.map_flatten.symm
  change (envs.map _).flatten.foldl note [] = _
  rw [hflat]
  exact hfold envs.flatten []

omit hφ in
theorem constraints_rename {s s' : Supply} (h : s.Renames f s') (us : Assoc (List (Ty VarId))) :
    (constraints s' (Assoc.rename φ (List.map (Ty.relabel f g)) us)).1 =
        (constraints s us).1.map (Constraint.relabel f g) ∧
      (constraints s us).2.Renames f (constraints s' (Assoc.rename φ (List.map (Ty.relabel f g)) us)).2 := by
  induction us generalizing s s' with
  | nil => exact ⟨rfl, h⟩
  | cons u us ih =>
      obtain ⟨name, ts⟩ := u
      obtain ⟨hnext, hlater⟩ := h.next .type
      obtain ⟨hcs, hend⟩ := ih hlater
      refine ⟨?_, hend⟩
      change (ts.map (Ty.relabel f g)).map (fun t => (⟨.var (s'.next .type).1 none, t⟩ : Constraint VarId)) ++
        (constraints (s'.next .type).2 (Assoc.rename φ (List.map (Ty.relabel f g)) us)).1 =
          (ts.map (fun t => (⟨.var (s.next .type).1 none, t⟩ : Constraint VarId)) ++
            (constraints (s.next .type).2 us).1).map (Constraint.relabel f g)
      rw [hcs, hnext, List.map_append, List.map_map, List.map_map]
      rfl

/-- Requirements under renamed names and variables come together in the same way. -/
theorem joinUnder_rename (hf : ∀ k, Function.Injective (f k)) (bs : List (Binding VarId))
    (envs : List (Requirements VarId)) :
    joinUnder (bs.map (Binding.relabel f g)) (envs.map (Assoc.rename φ (Ty.relabel f g))) =
      Assoc.rename φ (Ty.relabel f g) (joinUnder bs envs) := by
  have hentries : Assoc.mapValues (·.under (bs.map (Binding.relabel f g)))
      (envs.map (Assoc.rename φ (Ty.relabel f g))).flatten =
        Assoc.rename φ (Ty.relabel f g) (Assoc.mapValues (·.under bs) envs.flatten) := by
    have hflat : (envs.map (Assoc.rename φ (Ty.relabel f g))).flatten = Assoc.rename φ (Ty.relabel f g) envs.flatten :=
      List.map_flatten.symm
    rw [hflat]
    simp only [Assoc.mapValues, Assoc.rename, List.map_map]
    exact List.map_congr_left fun e _ => Prod.ext rfl (Ty.under_relabel hf g e.2 bs)
  rw [joinUnder_eq, joinUnder_eq, hentries, Assoc.ofEntries_rename hφ]

end Requirements

theorem Problem.le_start (p : Problem) : p.supply.Le p.start.supply := by
  change p.supply.Le (Requirements.constraints p.supply (Requirements.uses p.needs)).2
  rw [Requirements.constraints_supply]
  exact ⟨Nat.le_add_right _ _, Nat.le_refl _⟩

/-- A problem under renamed names and variables is given to the solver as the renamed problem. -/
theorem Problem.start_renamed {φ : String → String} (hφ : Function.Injective φ) {f : Kind → VarId → VarId}
    {g : Node → Node} {s s' : Supply} (h : s.Renames f s') (needs : List (Requirements VarId))
    (extra : List (Constraint VarId)) :
    (start ⟨s, needs, extra⟩).Renamed f g
      (start ⟨s', needs.map (Assoc.rename φ (Ty.relabel f g)), extra.map (Constraint.relabel f g)⟩) := by
  obtain ⟨hcs, hs⟩ := Requirements.constraints_rename (φ := φ) h (Requirements.uses needs)
  unfold start
  rw [Requirements.uses_rename hφ]
  refine ⟨hs, ?_, rfl⟩
  change (Requirements.constraints s' _).1 ++ _ = ((Requirements.constraints s _).1 ++ extra).map _
  rw [hcs, List.map_append]

end ScriptTypes
