import ScriptTypes.Proofs.Ty.Binding

/-! What one step of the solver does with a constraint between closed types. Whatever the step, the assignments that
make both sides equal are those that fulfil what the step leaves, and what it leaves is smaller. -/

namespace ScriptTypes

namespace Constraint

structure Closed (c : Constraint VarId) : Prop where
  left : c.left.Closed
  right : c.right.Closed

/-- An assignment makes both sides equal. -/
def Unifies (σ : Assignment) (c : Constraint VarId) : Prop :=
  c.left.mono.subst σ = c.right.mono.subst σ

structure Below (n : Nat) (c : Constraint VarId) : Prop where
  left : c.left.mono.Below n
  right : c.right.mono.Below n

/-- The size of the left sides under an assignment. -/
def weight (σ : Assignment) : List (Constraint VarId) → Nat
  | [] => 0
  | c :: cs => (c.left.mono.subst σ).size + weight σ cs

theorem weight_append (σ : Assignment) (cs ds : List (Constraint VarId)) :
    weight σ (cs ++ ds) = weight σ cs + weight σ ds := by
  induction cs with
  | nil => simp [weight]
  | cons c cs ih =>
      simp only [List.cons_append, weight, ih]
      omega

/-- What a step may do with a constraint, and why that is right. -/
inductive Leads (c : Constraint VarId) : Step VarId → Prop
  | drop : c.left.mono = c.right.mono → Leads c .drop
  | bind {b : Binding VarId} : b.Closed → b.value.mono ≠ .var b.var →
      (∀ σ, c.Unifies σ ↔ σ b.var = b.value.mono.subst σ) →
      (∀ n, c.Below n → b.var < n ∧ b.value.mono.Below n) → Leads c (.bind b)
  | split {cs : List (Constraint VarId)} : (∀ d ∈ cs, d.Closed) →
      (∀ σ, c.Unifies σ ↔ ∀ d ∈ cs, d.Unifies σ) →
      (∀ σ, c.Unifies σ → weight σ cs < (c.left.mono.subst σ).size) →
      (∀ n, c.Below n → ∀ d ∈ cs, d.Below n) → Leads c (.split cs)
  | fail {e : UnifyError VarId} : (∀ σ, ¬ c.Unifies σ) → Leads c (.fail e)

theorem Leads.swap {l r : Ty VarId} {st : Step VarId} (h : Leads ⟨l, r⟩ st) : Leads ⟨r, l⟩ st := by
  have hu : ∀ σ, Unifies σ ⟨r, l⟩ ↔ Unifies σ ⟨l, r⟩ := fun σ => eq_comm
  have hb : ∀ n, Below n ⟨r, l⟩ → Below n ⟨l, r⟩ := fun n h => ⟨h.right, h.left⟩
  cases h with
  | drop h => exact .drop h.symm
  | bind hc hne h hn => exact .bind hc hne (fun σ => (hu σ).trans (h σ)) fun n h => hn n (hb n h)
  | split hc h hw hn =>
      refine .split hc (fun σ => (hu σ).trans (h σ)) ?_ fun n h => hn n (hb n h)
      intro σ hσ
      have hlt := hw σ ((hu σ).mp hσ)
      have hs := congrArg Mono.size hσ
      simp only at hs hlt ⊢
      omega
  | fail h => exact .fail fun σ hσ => h σ ((hu σ).mp hσ)

/-! Lists of types. -/

theorem mem_zip {ts us : List (Ty VarId)} {c : Constraint VarId} (h : c ∈ zip ts us) :
    c.left ∈ ts ∧ c.right ∈ us := by
  induction ts generalizing us with
  | nil => simp [zip] at h
  | cons t ts ih =>
      cases us with
      | nil => simp [zip] at h
      | cons u us =>
          rcases List.mem_cons.mp h with rfl | h
          · exact ⟨List.mem_cons_self, List.mem_cons_self⟩
          · exact ⟨List.mem_cons_of_mem _ (ih h).1, List.mem_cons_of_mem _ (ih h).2⟩

theorem zip_unifies_iff {ts us : List (Ty VarId)} (hl : ts.length = us.length) (σ : Assignment) :
    (∀ c ∈ zip ts us, c.Unifies σ) ↔
      (ts.map Ty.mono).map (Mono.subst σ) = (us.map Ty.mono).map (Mono.subst σ) := by
  induction ts generalizing us with
  | nil =>
      cases us with
      | nil => simp [zip]
      | cons u us => cases hl
  | cons t ts ih =>
      cases us with
      | nil => cases hl
      | cons u us =>
          rw [zip, List.forall_mem_cons, ih (Nat.succ.inj hl)]
          simp only [List.map_cons, List.cons.injEq, Unifies]

theorem weight_zip {ts us : List (Ty VarId)} (hl : ts.length = us.length) (σ : Assignment) :
    weight σ (zip ts us) = Mono.sizeList ((ts.map Ty.mono).map (Mono.subst σ)) := by
  induction ts generalizing us with
  | nil => simp [zip, weight, Mono.sizeList]
  | cons t ts ih =>
      cases us with
      | nil => cases hl
      | cons u us => simp only [zip, weight, List.map_cons, Mono.sizeList, ih (Nat.succ.inj hl)]

theorem zip_closed {ts us : List (Ty VarId)} (hts : ∀ t ∈ ts, t.Closed) (hus : ∀ u ∈ us, u.Closed) :
    ∀ c ∈ zip ts us, c.Closed :=
  fun _ hc => ⟨hts _ (mem_zip hc).1, hus _ (mem_zip hc).2⟩

theorem zip_below {ts us : List (Ty VarId)} {n : Nat} (hts : ∀ t ∈ ts, t.mono.Below n)
    (hus : ∀ u ∈ us, u.mono.Below n) : ∀ c ∈ zip ts us, c.Below n :=
  fun _ hc => ⟨hts _ (mem_zip hc).1, hus _ (mem_zip hc).2⟩

theorem arrow_leads {d d' : List (Ty VarId)} {r r' : Ty VarId} (hd : ∀ t ∈ d, t.Closed) (hr : r.Closed)
    (hd' : ∀ t ∈ d', t.Closed) (hr' : r'.Closed) (s s' : Option Node) (supply : Supply) :
    ∃ st, stepApart supply ⟨.arrow d r s, .arrow d' r' s'⟩ = (st, supply) ∧
      Leads ⟨.arrow d r s, .arrow d' r' s'⟩ st := by
  simp only [stepApart]
  by_cases hl : d.length = d'.length
  · rw [if_pos (by simp [hl])]
    refine ⟨_, rfl, .split ?_ ?_ ?_ ?_⟩
    · exact List.forall_mem_cons.mpr ⟨⟨hr, hr'⟩, zip_closed hd hd'⟩
    · intro σ
      rw [List.forall_mem_cons, zip_unifies_iff hl, and_comm]
      simp only [Unifies, Ty.mono_arrow, Mono.subst_arrow, Mono.arrow.injEq]
    · intro σ _
      simp only [weight, weight_zip hl, Ty.mono_arrow, Mono.subst_arrow, Mono.size]
      omega
    · intro n hn
      have hbl := hn.left
      have hbr := hn.right
      simp only [Ty.mono_arrow, Mono.Below, Mono.mem_vars_arrow] at hbl hbr
      refine List.forall_mem_cons.mpr ⟨⟨fun v hv => hbl v (.inr hv), fun v hv => hbr v (.inr hv)⟩, ?_⟩
      refine zip_below (fun t ht v hv => hbl v (.inl ⟨_, ?_, hv⟩)) fun t ht v hv => hbr v (.inl ⟨_, ?_, hv⟩)
      · exact List.mem_map.mpr ⟨t, ht, rfl⟩
      · exact List.mem_map.mpr ⟨t, ht, rfl⟩
  · rw [if_neg (by simp [hl])]
    refine ⟨_, rfl, .fail fun σ hσ => hl ?_⟩
    simp only [Unifies, Ty.mono_arrow, Mono.subst_arrow, Mono.arrow.injEq] at hσ
    simpa using congrArg List.length hσ.1

theorem con_leads {as as' : List (Ty VarId)} (has : ∀ t ∈ as, t.Closed) (has' : ∀ t ∈ as', t.Closed)
    (n n' : String) (s s' : Option Node) (supply : Supply) :
    ∃ st, stepApart supply ⟨.con n as s, .con n' as' s'⟩ = (st, supply) ∧
      Leads ⟨.con n as s, .con n' as' s'⟩ st := by
  simp only [stepApart]
  by_cases h : n = n' ∧ as.length = as'.length
  · obtain ⟨rfl, hl⟩ := h
    rw [if_pos (by simp [hl])]
    refine ⟨_, rfl, .split (zip_closed has has') ?_ ?_ ?_⟩
    · intro σ
      rw [zip_unifies_iff hl]
      simp only [Unifies, Ty.mono_con, Mono.subst_con, Mono.con.injEq, true_and]
    · intro σ _
      simp only [weight_zip hl, Ty.mono_con, Mono.subst_con, Mono.size]
      omega
    · intro n hn
      have hbl := hn.left
      have hbr := hn.right
      simp only [Ty.mono_con, Mono.Below, Mono.mem_vars_con] at hbl hbr
      refine zip_below (fun t ht v hv => hbl v ⟨_, ?_, hv⟩) fun t ht v hv => hbr v ⟨_, ?_, hv⟩
      · exact List.mem_map.mpr ⟨t, ht, rfl⟩
      · exact List.mem_map.mpr ⟨t, ht, rfl⟩
  · rw [if_neg (by simpa using h)]
    refine ⟨_, rfl, .fail fun σ hσ => h ?_⟩
    simp only [Unifies, Ty.mono_con, Mono.subst_con, Mono.con.injEq] at hσ
    exact ⟨hσ.1, by simpa using congrArg List.length hσ.2⟩

/-! Records. -/

section Records

variable {fs gs : Assoc (Ty VarId)} (hf : Assoc.Distinct fs) (hg : Assoc.Distinct gs) (s s' : Option Node)

include hf in
theorem mono_fields : (Ty.record [.fields fs] s).mono = .record (Assoc.sort (Assoc.mapValues Ty.mono fs)) none :=
  Ty.mono_record hf none s

include hf hg in
/-- Two records are made equal when each label has the same in both. -/
theorem record_unifies_iff (σ : Assignment) :
    Unifies σ ⟨.record [.fields fs] s, .record [.fields gs] s'⟩ ↔
      ∀ k, (Assoc.get? fs k).map (fun t => t.mono.subst σ) = (Assoc.get? gs k).map (fun t => t.mono.subst σ) := by
  rw [Unifies, mono_fields hf, mono_fields hg, Mono.subst_record, Mono.subst_record, Mono.record.injEq,
    ← Assoc.sort_mapValues, ← Assoc.sort_mapValues,
    Assoc.sort_eq_iff ((hf.mapValues _).mapValues _) ((hg.mapValues _).mapValues _)]
  simp only [Assoc.get?_mapValues, Option.map_map, and_true, Function.comp_def]

theorem mem_shared {c : Constraint VarId} :
    c ∈ FlatRecord.shared ⟨fs, none⟩ ⟨gs, none⟩ ↔
      ∃ l, (l, c.left) ∈ fs ∧ Assoc.get? gs l = some c.right := by
  simp only [FlatRecord.shared, List.mem_filterMap, Option.map_eq_some_iff]
  constructor
  · rintro ⟨⟨l, t⟩, ht, u, hu, rfl⟩
    exact ⟨l, ht, hu⟩
  · rintro ⟨l, ht, hu⟩
    exact ⟨(l, c.left), ht, c.right, hu, rfl⟩

theorem weight_shared_le (σ : Assignment) :
    weight σ (FlatRecord.shared ⟨fs, none⟩ ⟨gs, none⟩) ≤
      Mono.sizeFields (Assoc.mapValues (Mono.subst σ) (Assoc.mapValues Ty.mono fs)) := by
  induction fs with
  | nil => simp [FlatRecord.shared, weight]
  | cons f fs ih =>
      simp only [FlatRecord.shared, Assoc.mapValues_cons, Mono.sizeFields, List.filterMap_cons] at ih ⊢
      cases Assoc.get? gs f.1 with
      | none =>
          simp only [Option.map_none]
          omega
      | some u =>
          simp only [Option.map_some, weight]
          omega

/-- The labels of a closed record that another one lacks. -/
theorem missingIn_isEmpty_iff :
    (FlatRecord.missingIn (V := VarId) ⟨fs, none⟩ ⟨gs, none⟩).isEmpty = true ↔
      ∀ k ∈ Assoc.keys fs, k ∈ Assoc.keys gs := by
  simp only [FlatRecord.missingIn, List.isEmpty_iff, List.filter_eq_nil_iff, Bool.not_eq_true',
    Bool.not_eq_false, Assoc.contains_iff]
  constructor
  · intro h k hk
    obtain ⟨t, ht⟩ := Assoc.mem_keys.mp hk
    exact h (k, t) ht
  · rintro h ⟨k, t⟩ ht
    exact h k (Assoc.mem_keys_of_mem ht)

include hf in
theorem flatten_fields : (Ty.record [.fields fs] s).flatten = .ok ⟨fs, none⟩ := by
  have h : Row.flatten (V := VarId) [.fields fs] = .ok ⟨fs, none⟩ := Row.flatten_ofFields hf none
  rw [Ty.flatten, h]

include hf hg in
theorem unifyRecords_closed (supply : Supply) :
    unifyRecords supply (.record [.fields fs] s) (.record [.fields gs] s') =
      if (∀ k ∈ Assoc.keys fs, k ∈ Assoc.keys gs) ∧ (∀ k ∈ Assoc.keys gs, k ∈ Assoc.keys fs) then
        (.ok (FlatRecord.shared ⟨fs, none⟩ ⟨gs, none⟩), supply)
      else (.error (.mismatch (.record [.fields fs] s) (.record [.fields gs] s')), supply) := by
  rw [unifyRecords, flatten_fields hf, flatten_fields hg]
  simp only [← missingIn_isEmpty_iff]
  cases hr : (FlatRecord.missingIn (V := VarId) ⟨fs, none⟩ ⟨gs, none⟩).isEmpty with
  | false => simp
  | true =>
      cases hl : (FlatRecord.missingIn (V := VarId) ⟨gs, none⟩ ⟨fs, none⟩).isEmpty with
      | false => simp
      | true => simp [FlatRecord.tails]

include hf hg in
theorem record_leads (hfs : ∀ f ∈ fs, f.2.Closed) (hgs : ∀ g ∈ gs, g.2.Closed) (supply : Supply) :
    ∃ st, stepApart supply ⟨.record [.fields fs] s, .record [.fields gs] s'⟩ = (st, supply) ∧
      Leads ⟨.record [.fields fs] s, .record [.fields gs] s'⟩ st := by
  have hrec := record_unifies_iff hf hg s s'
  rw [stepApart, unifyRecords_closed hf hg]
  by_cases h : (∀ k ∈ Assoc.keys fs, k ∈ Assoc.keys gs) ∧ (∀ k ∈ Assoc.keys gs, k ∈ Assoc.keys fs)
  · rw [if_pos h]
    refine ⟨_, rfl, .split ?_ ?_ ?_ ?_⟩
    · intro d hd
      obtain ⟨l, ht, hu⟩ := mem_shared.mp hd
      exact ⟨hfs _ ht, hgs _ (Assoc.mem_of_get? hu)⟩
    · intro σ
      rw [hrec σ]
      constructor
      · intro he d hd
        obtain ⟨l, ht, hu⟩ := mem_shared.mp hd
        have hk := he l
        rw [Assoc.get?_of_mem hf ht, hu] at hk
        exact Option.some.inj hk
      · intro he k
        cases hk : Assoc.get? fs k with
        | none =>
            have hgk : Assoc.get? gs k = none :=
              Assoc.get?_eq_none_iff.mpr fun hm => Assoc.get?_eq_none_iff.mp hk (h.2 k hm)
            rw [hgk, Option.map_none]
        | some t =>
            have ht := Assoc.mem_of_get? hk
            obtain ⟨u, hu⟩ := Assoc.exists_get?_of_mem_keys (h.1 k (Assoc.mem_keys_of_mem ht))
            rw [hu, Option.map_some, Option.map_some]
            exact congrArg some (he ⟨t, u⟩ (mem_shared.mpr ⟨k, ht, hu⟩))
    · intro σ _
      have hle : weight σ (FlatRecord.shared ⟨fs, none⟩ ⟨gs, none⟩) ≤ _ := weight_shared_le σ
      simp only [mono_fields hf, Mono.subst_record, Mono.size, ← Assoc.sort_mapValues,
        Mono.sizeFields_perm (Assoc.sort_perm _)]
      omega
    · intro n hn d hd
      obtain ⟨l, ht, hu⟩ := mem_shared.mp hd
      have hl := hn.left
      have hr := hn.right
      rw [mono_fields hf] at hl
      rw [mono_fields hg] at hr
      constructor
      · intro v hv
        exact hl v (Mono.mem_vars_record.mpr
          ⟨(l, d.left.mono), Assoc.mem_sort.mpr (Assoc.mem_mapValues.mpr ⟨_, ht, rfl⟩), hv⟩)
      · intro v hv
        exact hr v (Mono.mem_vars_record.mpr
          ⟨(l, d.right.mono), Assoc.mem_sort.mpr (Assoc.mem_mapValues.mpr ⟨_, Assoc.mem_of_get? hu, rfl⟩), hv⟩)
  · rw [if_neg h]
    refine ⟨_, rfl, .fail fun σ hσ => h ?_⟩
    have he := (hrec σ).mp hσ
    have hkeys : ∀ k, k ∈ Assoc.keys fs ↔ k ∈ Assoc.keys gs := by
      intro k
      rw [← not_iff_not, ← Assoc.get?_eq_none_iff, ← Assoc.get?_eq_none_iff]
      have hk := he k
      cases hfk : Assoc.get? fs k <;> cases hgk : Assoc.get? gs k <;> simp_all
    exact ⟨fun k => (hkeys k).mp, fun k => (hkeys k).mpr⟩

end Records

/-! The step. -/

theorem stepApart_leads {c : Constraint VarId} (h : c.Closed) (hne : c.left.mono ≠ c.right.mono)
    (hv : c.right.isVar = true → c.left.isVar = true) (supply : Supply) :
    ∃ st, c.stepApart supply = (st, supply) ∧ c.Leads st := by
  obtain ⟨l, r⟩ := c
  obtain ⟨hl, hr⟩ := h
  simp only at hl hr hne hv
  cases hl with
  | var v s =>
      refine ⟨_, rfl, .bind ⟨rfl, hr⟩ ?_ ?_ ?_⟩
      · intro he
        exact hne ((Ty.mono_var v s).trans he.symm)
      · intro σ
        simp [Unifies]
      · intro n hn
        exact ⟨hn.left v (by simp), hn.right⟩
  | rowVar v s hr => exact hr.elim
  | leaf l s =>
      cases hr with
      | leaf l' s' =>
          refine ⟨_, rfl, .fail fun σ hσ => hne ?_⟩
          simpa [Unifies] using hσ
      | var => simp [Ty.isVar] at hv
      | rowVar => exact ⟨_, rfl, .fail fun σ hσ => by simp [Unifies] at hσ⟩
      | arrow => exact ⟨_, rfl, .fail fun σ hσ => by simp [Unifies] at hσ⟩
      | con => exact ⟨_, rfl, .fail fun σ hσ => by simp [Unifies] at hσ⟩
      | record _ _ _ _ hd => exact ⟨_, rfl, .fail fun σ hσ => by simp [Unifies, Ty.mono_record hd] at hσ⟩
  | arrow s hd hr' =>
      cases hr with
      | arrow s' hd' hr'' => exact arrow_leads hd hr' hd' hr'' s s' supply
      | var => simp [Ty.isVar] at hv
      | leaf => exact ⟨_, rfl, .fail fun σ hσ => by simp [Unifies] at hσ⟩
      | rowVar => exact ⟨_, rfl, .fail fun σ hσ => by simp [Unifies] at hσ⟩
      | con => exact ⟨_, rfl, .fail fun σ hσ => by simp [Unifies] at hσ⟩
      | record _ _ _ _ hd => exact ⟨_, rfl, .fail fun σ hσ => by simp [Unifies, Ty.mono_record hd] at hσ⟩
  | con n s has =>
      cases hr with
      | con n' s' has' => exact con_leads has has' n n' s s' supply
      | var => simp [Ty.isVar] at hv
      | leaf => exact ⟨_, rfl, .fail fun σ hσ => by simp [Unifies] at hσ⟩
      | rowVar => exact ⟨_, rfl, .fail fun σ hσ => by simp [Unifies] at hσ⟩
      | arrow => exact ⟨_, rfl, .fail fun σ hσ => by simp [Unifies] at hσ⟩
      | record _ _ _ _ hd => exact ⟨_, rfl, .fail fun σ hσ => by simp [Unifies, Ty.mono_record hd] at hσ⟩
  | @record fs tail s ht hfs hf =>
      cases Ty.tail_eq_none ht
      cases hr with
      | @record gs tail' s' ht' hgs hg =>
          cases Ty.tail_eq_none ht'
          exact record_leads hf hg s s' hfs hgs supply
      | var => simp [Ty.isVar] at hv
      | leaf => exact ⟨_, rfl, .fail fun σ hσ => by simp [Unifies, Ty.mono_record hf] at hσ⟩
      | rowVar => exact ⟨_, rfl, .fail fun σ hσ => by simp [Unifies, Ty.mono_record hf] at hσ⟩
      | con => exact ⟨_, rfl, .fail fun σ hσ => by simp [Unifies, Ty.mono_record hf] at hσ⟩
      | arrow => exact ⟨_, rfl, .fail fun σ hσ => by simp [Unifies, Ty.mono_record hf] at hσ⟩

theorem run_step (c : Constraint VarId) (supply : Supply) :
    Id.run (c.step supply) =
      if c.orient.left.Alike c.orient.right then (.drop, supply) else c.orient.stepApart supply := by
  by_cases h : c.orient.left.Alike c.orient.right
  · rw [if_pos h]
    exact if_pos h
  · rw [if_neg h]
    exact if_neg h

/-- A step on a closed constraint keeps the supply and is right. -/
theorem Closed.step {c : Constraint VarId} (h : c.Closed) (supply : Supply) :
    ∃ st, Id.run (c.step supply) = (st, supply) ∧ c.Leads st := by
  have horient : ∀ d : Constraint VarId, d.Closed → (d.right.isVar = true → d.left.isVar = true) →
      ∃ st, (if d.left.Alike d.right then (.drop, supply) else d.stepApart supply) = (st, supply) ∧ d.Leads st := by
    intro d hd hv
    by_cases hs : d.left.Alike d.right
    · exact ⟨.drop, if_pos hs, .drop ((Ty.alike_iff hd.left.canonical hd.right.canonical).mp hs)⟩
    · rw [if_neg hs]
      refine stepApart_leads hd ?_ hv supply
      exact fun he => hs ((Ty.alike_iff hd.left.canonical hd.right.canonical).mpr he)
  rw [run_step, orient]
  by_cases hv : (c.right.isVar && !c.left.isVar) = true
  · rw [if_pos hv]
    obtain ⟨st, he, hl⟩ := horient ⟨c.right, c.left⟩ ⟨h.right, h.left⟩ (by simp_all)
    exact ⟨st, he, hl.swap⟩
  · rw [if_neg hv]
    exact horient c h (by simpa using hv)

end Constraint

end ScriptTypes
