import ScriptTypes.Proofs.Typing.Simulation

/-! A function that asks something of its own name, where nothing else does. What it asks is settled in one step, which
binds a variable that nothing else has. So a function whose parameter hides its name has the typing that it would have
under another name of that parameter, up to variables. -/

namespace ScriptTypes

/-! Leaving out a variable. -/

/-- The renaming that goes on past the next type variable of the other side. -/
def skipping (f : Kind → VarId → VarId) (s : Supply) : Kind → VarId → VarId
  | .type, v => if v < s.types then f .type v else f .type v + 1
  | .row, v => f .row v

theorem skipping_of_lt (f : Kind → VarId → VarId) {s : Supply} {v : VarId} (hv : v < s.types) :
    skipping f s .type v = f .type v := if_pos hv

theorem skipping_of_not_lt (f : Kind → VarId → VarId) {s : Supply} {v : VarId} (hv : ¬ v < s.types) :
    skipping f s .type v = f .type v + 1 := if_neg hv

theorem later_skipping (f : Kind → VarId → VarId) (s : Supply) : Later f s (skipping f s) s := by
  refine ⟨.refl s, ?_⟩
  rintro ⟨k, v⟩ hv
  cases k with
  | type => exact skipping_of_lt f hv
  | row => rfl

section Skipping

variable {f : Kind → VarId → VarId} {s s' : Supply} (h : s.Renames f s')

include h

/-- Variables that have been handed out are renamed to such. -/
theorem Supply.Renames.lt {v : Nat} (hv : v < s.types) : f .type v < s'.types := by
  by_contra hge
  obtain ⟨i, hi⟩ := Nat.exists_eq_add_of_le (Nat.not_lt.mp hge)
  have hvi : v = s.types + i := h.injective .type (hi.trans (h.types i).symm)
  rw [hvi] at hv
  exact absurd hv (Nat.not_lt.mpr (Nat.le_add_right _ _))

theorem Supply.Renames.le {v : Nat} (hv : ¬ v < s.types) : s'.types ≤ f .type v := by
  obtain ⟨i, rfl⟩ := Nat.exists_eq_add_of_le (Nat.not_lt.mp hv)
  rw [h.types]
  exact Nat.le_add_right _ _

theorem skipping_ne (v : VarId) : skipping f s .type v ≠ s'.types := by
  by_cases hv : v < s.types
  · rw [skipping_of_lt f hv]
    exact Nat.ne_of_lt (h.lt hv)
  · rw [skipping_of_not_lt f hv]
    exact Nat.ne_of_gt (Nat.lt_succ_of_le (h.le hv))

theorem renames_skipping : s.Renames (skipping f s) (Requirements.skip s' 1) where
  injective k := by
    cases k with
    | row => exact h.injective .row
    | type =>
        intro v w hvw
        by_cases hv : v < s.types
        · by_cases hw : w < s.types
          · rw [skipping_of_lt f hv, skipping_of_lt f hw] at hvw
            exact h.injective .type hvw
          · rw [skipping_of_lt f hv, skipping_of_not_lt f hw] at hvw
            have hlt := h.lt hv
            rw [hvw] at hlt
            exact absurd hlt (Nat.not_lt.mpr (Nat.le_succ_of_le (h.le hw)))
        · by_cases hw : w < s.types
          · rw [skipping_of_not_lt f hv, skipping_of_lt f hw] at hvw
            have hlt := h.lt hw
            rw [← hvw] at hlt
            exact absurd hlt (Nat.not_lt.mpr (Nat.le_succ_of_le (h.le hv)))
          · rw [skipping_of_not_lt f hv, skipping_of_not_lt f hw] at hvw
            exact h.injective .type (Nat.succ.inj hvw)
  types i := by
    have hi : ¬ s.types + i < s.types := Nat.not_lt.mpr (Nat.le_add_right _ _)
    change skipping f s .type (s.types + i) = s'.types + 1 + i
    rw [skipping_of_not_lt f hi, h.types, Nat.add_right_comm]
  rows := h.rows

/-- A binding of the variable that is left out changes nothing. -/
theorem subst_skipping {t u : Ty VarId} (ht : t.Canonical) (hu : u.Canonical) (g : Node → Node) (src : Option Node) :
    Id.run ((t.relabel (skipping f s) g).subst ⟨.type, s'.types, src, u⟩) = t.relabel (skipping f s) g := by
  refine Ty.subst_of_not_mem hu ht.relabel ?_
  intro hm
  obtain ⟨v, hv⟩ := Ty.mem_vars_relabel hm
  exact skipping_ne h v (Prod.mk.inj hv).2.symm

end Skipping

/-! A name that is asked for once. -/

theorem Assoc.extend_cons_of_not_mem {α : Type} {k : String} {n : Assoc α} (hk : k ∉ Assoc.keys n) (m : Assoc α)
    (a : α) :
    Assoc.extend ((k, a) :: m) n = (k, a) :: Assoc.extend m n := by
  induction n generalizing m with
  | nil => rfl
  | cons e n ih =>
      obtain ⟨l, b⟩ := e
      have hne : k ≠ l := fun he => hk (by simp [Assoc.keys, he])
      have hrest : k ∉ Assoc.keys n := fun hm => hk (List.mem_cons_of_mem _ hm)
      rw [Assoc.extend, Assoc.insert, if_neg hne, ih hrest, Assoc.extend]

theorem Assoc.any_iff {α : Type} {m : Assoc α} {k : String} : (m.any fun e => e.1 == k) = true ↔ k ∈ Assoc.keys m := by
  simp [Assoc.keys]

namespace Requirements

theorem foldl_note_cons {name : String} {es : List (String × Ty VarId)} (h : name ∉ Assoc.keys es)
    (ts : List (Ty VarId)) (us : Assoc (List (Ty VarId))) :
    es.foldl note ((name, ts) :: us) = (name, ts) :: es.foldl note us := by
  induction es generalizing us with
  | nil => rfl
  | cons e es ih =>
      have hne : name ≠ e.1 := fun he => h (by simp [Assoc.keys, he])
      have hrest : name ∉ Assoc.keys es := fun hm => h (List.mem_cons_of_mem _ hm)
      have hnote : note ((name, ts) :: us) e = (name, ts) :: note us e := by
        simp [note, Assoc.insert, Assoc.get?, hne]
      rw [List.foldl_cons, hnote, ih hrest, List.foldl_cons]

theorem uses_cons {name : String} {envs : List (Requirements VarId)} (h : name ∉ Assoc.keys envs.flatten)
    (t : Ty VarId) : uses ([(name, t)] :: envs) = (name, [t]) :: uses envs :=
  foldl_note_cons h [t] []

theorem joinUnder_cons {name : String} {envs : List (Requirements VarId)} (h : name ∉ Assoc.keys envs.flatten)
    (t : Ty VarId) (bs : List (Binding VarId)) :
    joinUnder bs ([(name, t)] :: envs) = (name, t.under bs) :: joinUnder bs envs := by
  have hkeys : name ∉ Assoc.keys (Assoc.mapValues (·.under bs) envs.flatten) := by rwa [Assoc.keys_mapValues]
  rw [joinUnder_eq, joinUnder_eq]
  exact Assoc.extend_cons_of_not_mem hkeys [] (t.under bs)

end Requirements

/-- Where a name is asked for once, the first turn settles that. -/
theorem Problem.next?_own {s : Supply} {name : String} {t : Ty VarId} (ht : t.isVar = false)
    {needs : List (Requirements VarId)} (hname : name ∉ Assoc.keys needs.flatten)
    (hfree : ∀ c ∈ (start ⟨Requirements.skip s 1, needs, []⟩).queue, Id.run (c.subst ⟨.type, s.types, none, t⟩) = c) :
    (start ⟨s, [(name, t)] :: needs, []⟩).next? =
      some { start ⟨Requirements.skip s 1, needs, []⟩ with made := [⟨.type, s.types, none, t⟩] } := by
  have hqueue : start ⟨s, [(name, t)] :: needs, []⟩ =
      ⟨(start ⟨Requirements.skip s 1, needs, []⟩).supply,
        ⟨.var s.types none, t⟩ :: (start ⟨Requirements.skip s 1, needs, []⟩).queue, []⟩ := by
    unfold start
    rw [Requirements.uses_cons hname]
    rfl
  have hstep : ∀ supply, Id.run (Constraint.step supply ⟨.var s.types none, t⟩) =
      (.bind ⟨.type, s.types, none, t⟩, supply) := by
    intro supply
    have horient : Constraint.orient ⟨.var s.types none, t⟩ = ⟨.var s.types none, t⟩ := by
      simp [Constraint.orient, ht]
    have hapart : ¬ (Ty.var s.types none).Alike t := by
      cases t with
      | var => cases ht
      | _ => simp [Ty.Alike, Ty.same]
    rw [Constraint.run_step, horient, if_neg hapart]
    rfl
  rw [hqueue, Solving.next?]
  simp only [hstep, List.map_congr_left hfree, List.map_id', List.nil_append]

/-- A state with one turn before the renamed state. Of the two, one has an outcome: the first one with a lower limit of
steps, or the second one with a limit that is not the higher one. Then both have. -/
theorem Solving.Renamed.outcome_after {f : Kind → VarId → VarId} {g : Node → Node} {s s' t : Solving}
    {b : Binding VarId} (h : s.Renamed f g s') (hmade : s'.made = []) (ht : t.next? = some { s' with made := [b] })
    {n m : Nat} {first : Bool} (hlower : (first = true → n < m) ∧ (first = false → m ≤ n))
    (hn : first = true → (s.outcome n).1 ≠ .unfinished) (hm : first = false → (t.outcome m).1 ≠ .unfinished) :
    (s.outcome n).1 ≠ .unfinished ∧ (t.outcome m).1 = ((s.outcome n).1.relabel f g).after b ∧
      (s.outcome n).2.Renames f (t.outcome m).2 := by
  have hmake : ∀ k, Solving.outcome k { s' with made := [b] } = ((s'.outcome k).1.after b, (s'.outcome k).2) := by
    intro k
    simp only [Solving.outcome, hmade, List.foldr_cons, List.foldr_nil]
  cases m with
  | zero =>
      have hq : t.queue ≠ [] := by
        intro hq
        rw [Solving.next?, hq] at ht
        cases ht
      cases first with
      | true => exact absurd (hlower.1 rfl) (Nat.not_lt_zero n)
      | false => exact absurd (congrArg Prod.fst (outcome_zero hq)) (hm rfl)
  | succ m =>
      rw [outcome_succ ht, hmake] at hm ⊢
      have hlower : (first = true → n ≤ m) ∧ (first = false → m ≤ n) :=
        ⟨fun hf => Nat.le_of_lt_succ (hlower.1 hf), fun hf => Nat.le_of_succ_le (hlower.2 hf)⟩
      obtain ⟨hne, hsolution, hsupply⟩ := h.outcome_of_lower hlower hn fun hf he => hm hf (by rw [he]; rfl)
      exact ⟨hne, by rw [hsolution], hsupply⟩

namespace Simulates

variable {c : Sides} (hlower : c.first = true → c.steps < c.steps') (hkept : ¬ c.kept) {f : Kind → VarId → VarId}
  {r r' : Run} (hr : c.Renames f r.supply r'.supply) {φ : String → String} (hφ : c.Names φ)

include hlower hkept hr hφ

/-- Settling a problem, and the renamed problem where one more name is asked for. The renaming goes on past the variable
of that name. -/
theorem settle_own {needs : List (Requirements VarId)} (hneeds : ∀ env ∈ needs, ∀ e ∈ env, e.2.Over r.supply.Issued)
    {name : String} (hname : name ∉ Assoc.keys (needs.map (Assoc.rename φ (Ty.relabel f c.node))).flatten)
    {t : Ty VarId} (ht : t.Over r.supply.Issued) (hvar : t.isVar = false) :
    Simulates c f r r' (Infer.settle c.steps needs [] UnifyError.plain)
      (Infer.settle c.steps' ([(name, t.relabel f c.node)] :: needs.map (Assoc.rename φ (Ty.relabel f c.node))) []
        UnifyError.plain)
      fun g _ bs bs' => g = skipping f r.supply ∧
        bs' = ⟨.type, r'.supply.types, none, t.relabel f c.node⟩ :: bs.map (Binding.relabel g c.node) := by
  have hskip := renames_skipping hr.toRenames
  have hneeds' : needs.map (Assoc.rename φ (Ty.relabel f c.node)) =
      needs.map (Assoc.rename φ (Ty.relabel (skipping f r.supply) c.node)) :=
    List.map_congr_left fun env henv => (Assoc.rename_later (hneeds env henv) (later_skipping f r.supply) φ c.node).symm
  have hstart : (Problem.start ⟨r.supply, needs, []⟩).Renamed (skipping f r.supply) c.node
      (Problem.start ⟨Requirements.skip r'.supply 1, needs.map (Assoc.rename φ (Ty.relabel f c.node)), []⟩) := by
    rw [hneeds']
    exact Problem.start_renamed hφ.injective hskip needs []
  have hover : (Problem.start ⟨r.supply, needs, []⟩).Over Supply.Issued :=
    (Problem.Over.start growing_issued ⟨hneeds, List.forall_mem_nil _⟩).2
  have hfirst := Problem.next?_own (s := r'.supply) (t := t.relabel f c.node) (by rw [Ty.isVar_relabel, hvar]) hname (by
    rw [hstart.queue]
    refine List.forall_mem_map.mpr fun d hd => ?_
    have hd := hover.queue d hd
    exact congrArg₂ Constraint.mk (subst_skipping hr.toRenames hd.left.shape ht.shape.relabel c.node none)
      (subst_skipping hr.toRenames hd.right.shape ht.shape.relabel c.node none))
  have hle := (Problem.le_start ⟨r.supply, needs, []⟩).trans (Solving.outcome_le _ c.steps)
  intro hfin hfin'
  unfold Infer.Finishes at hfin hfin'
  rw [Infer.outcome_settle] at hfin hfin' ⊢
  rw [Infer.outcome_settle]
  obtain ⟨hne, hsolution, hsupply⟩ := hstart.outcome_after rfl hfirst ⟨hlower, c.lower.2⟩
    (fun h he => hfin h (by rw [he])) (fun h he => hfin' h (by rw [he]))
  rw [hsolution]
  cases ho : ((Problem.start ⟨r.supply, needs, []⟩).outcome c.steps).1 with
  | solved bs => exact .ok ⟨hle, (later_skipping f r.supply).agrees⟩ ⟨hsupply, (absurd · hkept)⟩ ⟨rfl, rfl⟩
  | failed e => exact .error _ _ hskip.injective (absurd · hkept) (UnifyError.plain_alike c _ e)
  | unfinished => exact absurd ho hne

/-- A function whose parameter hides its name, and the function whose renamed parameter does not. -/
theorem defTyping_own {K : String → Prop} {name : String} {node : Node} {params params' : List (String × Ty VarId)}
    {body body' : Typing VarId} (hparams : params' = Assoc.rename φ (Ty.relabel f c.node) params)
    (hbody : body.Mirrored c φ K f body') (hover : ∀ e ∈ params, e.2.Over r.supply.Issued)
    (hbodyOver : body.Over r.supply.Issued) (hhidden : name ∈ Assoc.keys params) (hshown : name ∉ Assoc.keys params')
    (hname : name ∉ Assoc.keys body'.needs) :
    Simulates c f r r' (Infer.defTyping c.steps name node params body)
      (Infer.defTyping c.steps' name (c.node node) params' body')
      fun g _ => Typing.Mirrored c φ (fun k => K k ∧ k ∉ Assoc.keys params) g := by
  obtain ⟨rfl, hasks⟩ := hbody
  subst hparams
  have ht : (Ty.arrow (params.map Prod.snd) body.type (some node)).Over r.supply.Issued :=
    Ty.over_arrow.mpr ⟨List.forall_mem_map.mpr hover, hbodyOver.type⟩
  have htype : Ty.arrow ((Assoc.rename φ (Ty.relabel f c.node) params).map Prod.snd) (body.relabel φ f c.node).type
      (some (c.node node)) =
      (Ty.arrow (params.map Prod.snd) body.type (some node)).relabel f c.node := by
    simp [Assoc.rename, Typing.relabel]
  have hany : (params.any fun p => p.1 == name) = true := Assoc.any_iff.mpr hhidden
  have hnone : ¬ ((Assoc.rename φ (Ty.relabel f c.node) params).any fun p => p.1 == name) = true :=
    mt Assoc.any_iff.mp hshown
  have hneeds : (Assoc.rename φ (Ty.relabel f c.node) params).map (fun p => [p]) ++ [(body.relabel φ f c.node).needs] =
      (params.map (fun p => [p]) ++ [body.needs]).map (Assoc.rename φ (Ty.relabel f c.node)) := by
    simp [Assoc.rename, Typing.relabel]
  have hflat : name ∉ Assoc.keys
      ((params.map (fun p => [p]) ++ [body.needs]).map (Assoc.rename φ (Ty.relabel f c.node))).flatten := by
    rw [← hneeds]
    simpa [Assoc.keys] using And.intro hshown hname
  rw [Infer.defTyping_eq, Infer.defTyping_eq, htype]
  unfold Infer.askedDef Infer.close
  rw [if_pos hany, if_neg hnone, List.map_cons, List.cons_append, hneeds]
  refine bind (settle_own hlower hkept hr hφ ?_ hflat ht rfl) ?_
  · refine List.forall_mem_append.mpr ⟨?_, List.forall_mem_singleton.mpr hbodyOver.needs⟩
    exact List.forall_mem_map.mpr fun p hp => List.forall_mem_singleton.mpr (hover p hp)
  · rintro g r₁ r₁' bs bs' hlater hr₁ ⟨rfl, rfl⟩
    have hlater := later_skipping f r.supply
    have hunder : ∀ u : Ty VarId, u.Over r.supply.Issued →
        (u.relabel f c.node).under
          (⟨.type, r'.supply.types, none, (Ty.arrow (params.map Prod.snd) body.type (some node)).relabel f c.node⟩ ::
            bs.map (Binding.relabel (skipping f r.supply) c.node)) =
          (u.under bs).relabel (skipping f r.supply) c.node := by
      intro u hu
      rw [← hu.relabel_later hlater, Ty.under_cons, subst_skipping hr.toRenames hu.shape ht.shape.relabel,
        Ty.under_relabel hr₁.injective]
    generalize (⟨.type, r'.supply.types, none, _⟩ : Binding VarId) :: _ = bs' at hunder ⊢
    have hjoin : Requirements.joinUnder bs' [(body.relabel φ f c.node).needs] =
        Assoc.rename φ (Ty.relabel (skipping f r.supply) c.node) (Requirements.joinUnder bs [body.needs]) := by
      rw [Requirements.joinUnder_eq, Requirements.joinUnder_eq, ← Assoc.ofEntries_rename hφ.injective]
      simp only [List.flatten_singleton, Assoc.mapValues, Assoc.rename, Typing.relabel, List.map_map]
      refine congrArg Assoc.ofEntries (List.map_congr_left fun e he => ?_)
      exact Prod.ext rfl (hunder e.2 (hbodyOver.needs e he))
    have hparams := (Assoc.rename_later hover hlater φ c.node).symm
    have hown : name ∉ Assoc.keys [(body.relabel φ f c.node).needs].flatten := by rwa [List.flatten_singleton]
    refine pure hr₁ ⟨?_, ?_⟩
    · unfold Infer.defResult
      rw [if_pos hany, if_neg hnone]
      simp only [Requirements.joinUnder_cons hown, Assoc.erase, Assoc.get?, if_true, Option.getD_some]
      rw [hjoin, hparams, dropParams_relabel hφ, hunder _ ht]
      rfl
    · intro k hk
      rw [Infer.defResult, if_pos hany] at hk
      exact keys_of_dropParams hasks hk

end Simulates

end ScriptTypes
