import ScriptTypes.Proofs.Ty.Opening
import ScriptTypes.Proofs.Unify.Shape

/-! What the constraints that two records amount to say of them. Bindings that meet the constraints make the records the
same, but for a row variable that is left loose: one that gets no labels from the other record and is not related to
the row variable of the other record either. -/

namespace ScriptTypes

namespace FlatRecord

variable {V : Type}

/-- Unifying a record with another one leaves the row variable of the first loose when it gets no labels from the other
one, unless the other one is open and gets none either. -/
def loose (r s : FlatRecord V (Ty V)) : Bool :=
  r.tail.isSome && (s.missingIn r).isEmpty && (s.tail.isNone || !(r.missingIn s).isEmpty)

/-- The row variable of a record, unless it is left loose. -/
def tightTail (r s : FlatRecord V (Ty V)) : Option (RowVar V) :=
  if r.loose s then none else r.tail

/-- The same by the fields that the row variable gets, while it gives some. -/
def unlessLoose (tail other : Option (RowVar V)) (gets gives : Assoc (Ty V)) : Option (RowVar V) :=
  if gets.isEmpty && (other.isNone || !gives.isEmpty) then none else tail

theorem tightTail_eq (r s : FlatRecord V (Ty V)) :
    r.tightTail s = unlessLoose r.tail s.tail (s.missingIn r) (r.missingIn s) := by
  unfold tightTail unlessLoose loose
  cases r.tail with
  | none => simp
  | some v => rw [Option.isSome_some, Bool.true_and]

theorem get?_missingIn (r s : FlatRecord V (Ty V)) (k : String) :
    Assoc.get? (r.missingIn s) k =
      match Assoc.get? s.fields k with
      | none => Assoc.get? r.fields k
      | some _ => none := by
  obtain ⟨fs, tail⟩ := r
  unfold missingIn
  simp only
  induction fs with
  | nil => cases Assoc.get? s.fields k <;> rfl
  | cons f fs ih =>
      obtain ⟨l, t⟩ := f
      by_cases hl : l = k
      · subst hl
        cases hs : Assoc.get? s.fields l with
        | none => simp [Assoc.contains, hs, Assoc.get?]
        | some u =>
            rw [hs] at ih
            simpa [Assoc.contains, hs] using ih
      · cases hc : Assoc.contains s.fields l with
        | true => simpa [hc, Assoc.get?, hl] using ih
        | false => simpa [hc, Assoc.get?, hl] using ih

theorem mem_shared {r s : FlatRecord V (Ty V)} {k : String} {t u : Ty V} (ht : Assoc.get? r.fields k = some t)
    (hu : Assoc.get? s.fields k = some u) : ⟨t, u⟩ ∈ r.shared s :=
  List.mem_filterMap.mpr ⟨(k, t), Assoc.mem_of_get? ht, by simp only [hu, Option.map_some]⟩

end FlatRecord

section Under

variable {bs : List (Binding VarId)} (hbs : ∀ b ∈ bs, b.value.Canonical ∧ b.Kinded)

include hbs

/-- A row variable that is the same as a record brings what the record shows. -/
theorem Ty.restUnder_record {v : RowVar VarId} {fs : Assoc (Ty VarId)} (hd : Assoc.Distinct fs)
    {tail : Option (RowVar VarId)} {s : Option Node}
    (hfs : ∀ f ∈ fs, f.2.Canonical)
    (h : (v.toTy.under bs).mono = ((record (Row.ofFields fs tail) s).under bs).mono) :
    (∀ k, (Assoc.get? (restUnder bs (some v)).fields k).map mono =
      ((Assoc.get? fs k).map fun t => (t.under bs).mono).or ((Assoc.get? (restUnder bs tail).fields k).map mono)) ∧
      (restUnder bs (some v)).tail.map RowVar.var = (restUnder bs tail).tail.map RowVar.var := by
  have hcan := fun b hb => (hbs b hb).1
  have hrow : (v.toTy.under bs).Canonical := canonical_under hcan (.rowVar v.var v.src trivial)
  have hrec := canonical_under hcan (.record tail s (fun _ => trivial) hfs hd)
  obtain ⟨gs, hgs, he, hget⟩ := under_ofFields hbs hd tail s
  rw [he] at hrec h
  have hrest := rest_congr hrow hrec h (v := v) rfl
  rw [rest_record hgs] at hrest
  refine ⟨?_, hrest.2⟩
  intro k
  have hk := hget k
  have hmono := hrest.1 k
  rw [hk, Option.map_or, Option.map_map] at hmono
  exact hmono

/-- Row variables that are the same bring the same. -/
theorem Ty.restUnder_row {v w : RowVar VarId} (h : (v.toTy.under bs).mono = (w.toTy.under bs).mono) :
    (∀ k, (Assoc.get? (restUnder bs (some v)).fields k).map mono =
      (Assoc.get? (restUnder bs (some w)).fields k).map mono) ∧
      (restUnder bs (some v)).tail.map RowVar.var = (restUnder bs (some w)).tail.map RowVar.var := by
  have hcan := fun b hb => (hbs b hb).1
  have hrow : ∀ v : RowVar VarId, (v.toTy.under bs).Canonical :=
    fun v => canonical_under hcan (.rowVar v.var v.src trivial)
  have hkind : (w.toTy.under bs).HasKind .row := .under (fun b hb => (hbs b hb).2) (.rowVar w.var w.src)
  have hrest := rest_congr (hrow v) (hrow w) h (v := v) rfl
  rwa [hkind.rest_eq v w] at hrest

/-- Records are the same when the labels of both are, and each gets the other labels of the other one, above something
that both have in common. -/
theorem Ty.mono_under_eq_of_rests {r t : FlatRecord VarId (Ty VarId)} (hf : Assoc.Distinct r.fields)
    (hg : Assoc.Distinct t.fields) {v w : Option (RowVar VarId)} {s s' : Option Node}
    (hshared : ∀ c ∈ r.shared t, (c.left.under bs).mono = (c.right.under bs).mono) (common : String → Option Mono)
    (hl : ∀ k, (Assoc.get? (restUnder bs v).fields k).map mono =
      ((Assoc.get? (t.missingIn r) k).map fun t => (t.under bs).mono).or (common k))
    (hr : ∀ k, (Assoc.get? (restUnder bs w).fields k).map mono =
      ((Assoc.get? (r.missingIn t) k).map fun t => (t.under bs).mono).or (common k))
    (htail : (restUnder bs v).tail.map RowVar.var = (restUnder bs w).tail.map RowVar.var) :
    ((record (Row.ofFields r.fields v) s).under bs).mono = ((record (Row.ofFields t.fields w) s').under bs).mono := by
  rw [mono_under_record_eq_iff hbs hf hg]
  refine ⟨?_, htail⟩
  intro k
  rw [Option.map_or, Option.map_or, hl, hr, FlatRecord.get?_missingIn, FlatRecord.get?_missingIn]
  cases hfk : Assoc.get? r.fields k with
  | none =>
      cases hgk : Assoc.get? t.fields k with
      | none => simp
      | some u => simp
  | some x =>
      cases hgk : Assoc.get? t.fields k with
      | none => simp
      | some u =>
          have hxu := hshared _ (FlatRecord.mem_shared hfk hgk)
          simpa using hxu

/-- Bindings that meet the constraints on row variables give each record the labels it lacks, above something that both
have in common. -/
theorem FlatRecord.rests_of_tails {supply : Supply} {r t : FlatRecord VarId (Ty VarId)}
    {forLeft forRight : Assoc (Ty VarId)} (hdl : Assoc.Distinct forLeft) (hdr : Assoc.Distinct forRight)
    (hcl : ∀ f ∈ forLeft, f.2.Canonical) (hcr : ∀ f ∈ forRight, f.2.Canonical)
    (hl : r.tail = none → forLeft = []) (hr : t.tail = none → forRight = [])
    (h : ∀ c ∈ (tails supply r t forLeft forRight).1, (c.left.under bs).mono = (c.right.under bs).mono) :
    ∃ common : String → Option Mono,
      (∀ k, (Assoc.get? (Ty.restUnder bs (unlessLoose r.tail t.tail forLeft forRight)).fields k).map Ty.mono =
        ((Assoc.get? forLeft k).map fun t => (t.under bs).mono).or (common k)) ∧
      (∀ k, (Assoc.get? (Ty.restUnder bs (unlessLoose t.tail r.tail forRight forLeft)).fields k).map Ty.mono =
        ((Assoc.get? forRight k).map fun t => (t.under bs).mono).or (common k)) ∧
      (Ty.restUnder bs (unlessLoose r.tail t.tail forLeft forRight)).tail.map RowVar.var =
        (Ty.restUnder bs (unlessLoose t.tail r.tail forRight forLeft)).tail.map RowVar.var := by
  -- What a row variable brings when it is bound to a closed record of the labels it gets.
  have hclosed : ∀ {v : RowVar VarId} {fs : Assoc (Ty VarId)}, Assoc.Distinct fs → (∀ f ∈ fs, f.2.Canonical) →
      (v.toTy.under bs).mono = ((Ty.ofFields fs none).under bs).mono →
      (∀ k, (Assoc.get? (Ty.restUnder bs (some v)).fields k).map Ty.mono =
        ((Assoc.get? fs k).map fun t => (t.under bs).mono).or none) ∧
      (Ty.restUnder bs (some v)).tail.map RowVar.var = none := by
    intro v fs hd hc h
    rw [Ty.ofFields_eq] at h
    exact Ty.restUnder_record hbs hd hc h
  unfold tails at h
  cases hv : r.tail with
  | none =>
      obtain rfl := hl hv
      cases hw : t.tail with
      | none =>
          obtain rfl := hr hw
          exact ⟨fun _ => none, fun k => rfl, fun k => rfl, rfl⟩
      | some w =>
          cases hA : forRight with
          | nil => exact ⟨fun _ => none, fun k => rfl, fun k => rfl, rfl⟩
          | cons f fs =>
              rw [hA] at hdr hcr
              simp only [hv, hw, hA] at h
              obtain ⟨hget, htail⟩ := hclosed hdr hcr (h _ (List.mem_singleton_self _))
              exact ⟨fun _ => none, fun k => rfl, hget, htail.symm⟩
  | some v =>
      cases hw : t.tail with
      | none =>
          obtain rfl := hr hw
          cases hB : forLeft with
          | nil => exact ⟨fun _ => none, fun k => rfl, fun k => rfl, rfl⟩
          | cons f fs =>
              rw [hB] at hdl hcl
              simp only [hv, hw, hB] at h
              obtain ⟨hget, htail⟩ := hclosed hdl hcl (h _ (List.mem_singleton_self _))
              exact ⟨fun _ => none, hget, fun k => rfl, htail⟩
      | some w =>
          cases hB : forLeft with
          | nil =>
              cases hA : forRight with
              | nil =>
                  simp only [hv, hw, hA, hB] at h
                  obtain ⟨hget, htail⟩ := Ty.restUnder_row hbs (h _ (List.mem_singleton_self _))
                  exact ⟨fun k => (Assoc.get? (Ty.restUnder bs (some w)).fields k).map Ty.mono, hget, fun k => rfl, htail⟩
              | cons f fs =>
                  rw [hA] at hdr hcr
                  simp only [hv, hw, hA, hB] at h
                  obtain ⟨hget, htail⟩ := hclosed hdr hcr (h _ (List.mem_singleton_self _))
                  exact ⟨fun _ => none, fun k => rfl, hget, htail.symm⟩
          | cons g gs =>
              rw [hB] at hdl hcl
              cases hA : forRight with
              | nil =>
                  simp only [hv, hw, hA, hB] at h
                  obtain ⟨hget, htail⟩ := hclosed hdl hcl (h _ (List.mem_singleton_self _))
                  exact ⟨fun _ => none, hget, fun k => rfl, htail⟩
              | cons f fs =>
                  rw [hA] at hdr hcr
                  simp only [hv, hw, hA, hB] at h
                  have hleft := h _ List.mem_cons_self
                  have hright := h _ (List.mem_cons_of_mem _ (List.mem_singleton_self _))
                  rw [Ty.ofFields_eq] at hleft hright
                  obtain ⟨hgetl, htaill⟩ := Ty.restUnder_record hbs hdl hcl hleft
                  obtain ⟨hgetr, htailr⟩ := Ty.restUnder_record hbs hdr hcr hright
                  exact ⟨_, hgetl, hgetr, htaill.trans htailr.symm⟩

/-- Bindings that meet the constraints that two records amount to make the records the same, but for loose tails. -/
theorem mono_under_of_unifyRecords {fs gs : Assoc (Ty VarId)} (hf : Assoc.Distinct fs) (hg : Assoc.Distinct gs)
    (hfs : ∀ f ∈ fs, f.2.Canonical) (hgs : ∀ g ∈ gs, g.2.Canonical) {v w : Option (RowVar VarId)}
    {s s' : Option Node} {supply supply' : Supply} {cs : List (Constraint VarId)}
    (h : unifyRecords supply (.record (Row.ofFields fs v) s) (.record (Row.ofFields gs w) s') = (.ok cs, supply'))
    (hcs : ∀ c ∈ cs, (c.left.under bs).mono = (c.right.under bs).mono) :
    ((Ty.record (Row.ofFields fs (FlatRecord.tightTail ⟨fs, v⟩ ⟨gs, w⟩)) s).under bs).mono =
      ((Ty.record (Row.ofFields gs (FlatRecord.tightTail ⟨gs, w⟩ ⟨fs, v⟩)) s').under bs).mono := by
  rw [unifyRecords_ofFields hf hg] at h
  simp only at h
  split at h
  · cases h
  · rename_i hopen
    cases h
    simp only [Bool.or_eq_true, Bool.and_eq_true, Option.isNone_iff_eq_none, Bool.not_eq_true', ← Bool.not_eq_true,
      List.isEmpty_iff, not_or, not_and, not_not] at hopen
    obtain ⟨hshared, htails⟩ := List.forall_mem_append.mp hcs
    obtain ⟨common, hl, hr, htail⟩ := FlatRecord.rests_of_tails hbs (FlatRecord.missingIn_distinct hg)
      (FlatRecord.missingIn_distinct hf) (fun f hf => hgs f (FlatRecord.mem_missingIn.mp hf).1)
      (fun f hf => hfs f (FlatRecord.mem_missingIn.mp hf).1) hopen.2 hopen.1 htails
    rw [FlatRecord.tightTail_eq, FlatRecord.tightTail_eq]
    exact Ty.mono_under_eq_of_rests hbs hf hg hshared common hl hr htail

end Under

/-! The solver. -/

namespace Constraint

/-- Two records of which unifying leaves a row variable loose. -/
def Loose (c : Constraint VarId) : Prop :=
  match c.left.flatten, c.right.flatten with
  | .ok r, .ok t => r.loose t ∨ t.loose r
  | _, _ => False

instance (c : Constraint VarId) : Decidable c.Loose := by
  unfold Loose
  split <;> infer_instance

theorem Loose.swap {c : Constraint VarId} (h : Loose ⟨c.right, c.left⟩) : c.Loose := by
  unfold Loose at h ⊢
  split at h
  · rename_i t r ht hr
    simp only at ht hr
    simp only [hr, ht]
    exact h.symm
  · exact h.elim

/-- Bindings make the two sides the same. -/
def Met (bs : List (Binding VarId)) (c : Constraint VarId) : Prop :=
  (c.left.under bs).mono = (c.right.under bs).mono

variable {bs : List (Binding VarId)} {c : Constraint VarId} {supply supply' : Supply}

theorem Met.of_orient (h : c.orient.Met bs) : c.Met bs := by
  unfold orient at h
  split at h
  · exact h.symm
  · exact h

theorem Turn.met_drop (h : Turn supply c .drop supply') (hc : c.Canonical) (hbs : ∀ b ∈ bs, b.value.Canonical) :
    c.Met bs := by
  cases h with
  | drop halike => exact Ty.mono_under_congr hbs hc.left hc.right ((Ty.alike_iff hc.left hc.right).mp halike)

/-- A binding that is not cyclic makes its own constraint met, whatever comes after it. -/
theorem Turn.met_bind {b : Binding VarId} (h : Turn supply c (.bind b) supply') (hc : c.Canonical)
    (hb : ¬ b.Cyclic) (hbs : ∀ b ∈ bs, b.value.Canonical) : c.Met (b :: bs) := by
  cases h with
  | @bindType v s t _ =>
      unfold Met
      rw [Ty.under_cons, Ty.under_cons, Ty.run_subst_type, if_pos ⟨rfl, rfl⟩, Ty.subst_of_not_mem hc.right hc.right hb]
      exact Ty.mono_under_congr hbs (hc.right.withSrc _) hc.right (Ty.mono_inPlaceOf t s)
  | @bindRow v s t _ =>
      unfold Met
      rw [Ty.under_cons, Ty.under_cons, Ty.run_subst_row, if_pos ⟨rfl, rfl⟩, Ty.subst_of_not_mem hc.right hc.right hb]
      exact Ty.mono_under_congr hbs (hc.right.withSrc _) hc.right (Ty.mono_inPlaceOf t s)

theorem map_mono_of_zip {ts us : List (Ty VarId)} (hl : ts.length = us.length) (h : ∀ c ∈ zip ts us, c.Met bs) :
    (ts.map (·.under bs)).map Ty.mono = (us.map (·.under bs)).map Ty.mono := by
  induction ts generalizing us with
  | nil =>
      cases us with
      | nil => rfl
      | cons u us => cases hl
  | cons t ts ih =>
      cases us with
      | nil => cases hl
      | cons u us =>
          obtain ⟨htu, hrest⟩ := List.forall_mem_cons.mp h
          exact congrArg₂ List.cons htu (ih (Nat.succ.inj hl) hrest)

/-- A constraint is met when all that it splits into is, unless it leaves a row variable loose. -/
theorem Turn.met_split {more : List (Constraint VarId)} (h : Turn supply c (.split more) supply')
    (hc : c.Canonical) (hloose : ¬ c.Loose) (hbs : ∀ b ∈ bs, b.value.Canonical ∧ b.Kinded)
    (hmore : ∀ d ∈ more, d.Met bs) : c.Met bs := by
  cases h with
  | arrow r r' s s' hl =>
      obtain ⟨hrange, hdomain⟩ := List.forall_mem_cons.mp hmore
      unfold Met at hrange ⊢
      rw [Ty.under_arrow, Ty.under_arrow, Ty.mono_arrow, Ty.mono_arrow, hrange, map_mono_of_zip hl hdomain]
  | con n s s' hl =>
      unfold Met
      rw [Ty.under_con, Ty.under_con, Ty.mono_con, Ty.mono_con, map_mono_of_zip hl hmore]
  | @record rows rows' s s' _ _ hu =>
      obtain ⟨hl, hr⟩ := hc
      cases hl with
      | @record fs v _ _ hfs hf =>
          cases hr with
          | @record gs w _ _ hgs hg =>
              have hmono := mono_under_of_unifyRecords hbs hf hg hfs hgs hu hmore
              simp only [Loose, Ty.flatten, Row.flatten_ofFields hf, Row.flatten_ofFields hg, not_or] at hloose
              rwa [FlatRecord.tightTail, if_neg hloose.1, FlatRecord.tightTail, if_neg hloose.2] at hmono

end Constraint

namespace Solving

variable {s : Solving} {steps : Nat} {all : List (Binding VarId)} {supply : Supply}

/-- When the solver ends with bindings that are not cyclic and has left no row variable loose, then the bindings that it
made from a state on meet all constraints of that state. -/
theorem met_of_solved (hs : s.Kinded) (h : s.outcome steps = (.solved all, supply)) (hac : ∀ b ∈ all, ¬ b.Cyclic)
    (htight : ∀ t, s.Through t → ∀ c, t.queue.head? = some c → ¬ c.Loose) :
    ∃ bs, all = s.made ++ bs ∧ ∀ c ∈ s.queue, c.Met bs := by
  induction steps generalizing s with
  | zero =>
      by_cases hq : s.queue = []
      · rw [outcome_nil hq] at h
        cases h
        exact ⟨[], (List.append_nil _).symm, hq ▸ List.forall_mem_nil _⟩
      · rw [outcome_zero hq] at h
        cases h
  | succ steps ih =>
      cases hn : s.next? with
      | none =>
          rcases next?_eq_none hn with hq | ⟨c, cs, e, supply', hq, he, -⟩
          · rw [outcome_nil hq] at h
            cases h
            exact ⟨[], (List.append_nil _).symm, hq ▸ List.forall_mem_nil _⟩
          · rw [outcome_fail hq he] at h
            cases h
      | some t =>
          have hst : s.Through t := .next .refl hn
          have hkinded : ∀ b ∈ all, b.value.Canonical ∧ b.Kinded := by
            obtain ⟨u, hu, -, rfl, -⟩ := through_of_solved h
            exact (kinded_invariant.through hs hu).made
          rw [outcome_succ hn] at h
          obtain ⟨bs, hall, hmet⟩ := ih (kinded_invariant.next hs hn) h fun u hu => htight u (hst.trans hu)
          have hbs : ∀ b ∈ bs, b.value.Canonical ∧ b.Kinded :=
            fun b hb => hkinded b (hall ▸ List.mem_append_right _ hb)
          obtain ⟨c, cs, hq, hcase⟩ := next?_cases hn
          have hc : c.Canonical := (hs.queue c (hq ▸ List.mem_cons_self)).1
          have hc : c.orient.Canonical := Constraint.of_orient hc fun h => ⟨h.right, h.left⟩
          have hloose : ¬ c.orient.Loose :=
            Constraint.of_orient (P := fun c => ¬ c.Loose) (htight s .refl c (hq ▸ rfl)) fun hn h => hn h.swap
          rw [hq]
          rcases hcase with ⟨hturn, htq, htm⟩ | ⟨b, hturn, htq, htm⟩ | ⟨more, hturn, htq, htm⟩
          · refine ⟨bs, htm ▸ hall, List.forall_mem_cons.mpr ⟨.of_orient ?_, htq ▸ hmet⟩⟩
            exact hturn.met_drop hc fun b hb => (hbs b hb).1
          · rw [htq] at hmet
            refine ⟨b :: bs, ?_, List.forall_mem_cons.mpr ⟨.of_orient ?_, ?_⟩⟩
            · rw [hall, htm, List.append_assoc, List.singleton_append]
            · refine hturn.met_bind hc (hac b ?_) fun b hb => (hbs b hb).1
              rw [hall, htm]
              exact List.mem_append_left _ (List.mem_append_right _ (List.mem_singleton_self b))
            · intro d hd
              exact hmet _ (List.mem_map.mpr ⟨d, hd, rfl⟩)
          · rw [htq] at hmet
            obtain ⟨hcs, hmore⟩ := List.forall_mem_append.mp hmet
            exact ⟨bs, htm ▸ hall, List.forall_mem_cons.mpr ⟨.of_orient (hturn.met_split hc hloose hbs hmore), hcs⟩⟩

end Solving

theorem Ty.eq_ofFields_of_flatten {t : Ty VarId} (ht : t.Canonical) {r : FlatRecord VarId (Ty VarId)}
    (hr : t.flatten = .ok r) :
    (∃ s, t = .record (Row.ofFields r.fields r.tail) s) ∧ Assoc.Distinct r.fields ∧ ∀ f ∈ r.fields, f.2.Canonical := by
  cases ht with
  | record tail s _ hfs hd =>
      simp only [flatten, Row.flatten_ofFields hd, Except.ok.injEq] at hr
      subst hr
      exact ⟨⟨s, rfl⟩, hd, hfs⟩
  | leaf | var | rowVar | arrow | con => cases hr

theorem flatten_of_unifyRecords {supply supply' : Supply} {left right : Ty VarId} {cs : List (Constraint VarId)}
    (h : unifyRecords supply left right = (.ok cs, supply')) :
    ∃ r t, left.flatten = .ok r ∧ right.flatten = .ok t := by
  unfold unifyRecords at h
  split at h
  · rename_i r t hr ht
    exact ⟨r, t, hr, ht⟩
  · cases h
  · cases h

/-- Whatever amounts to constraints is a record on both sides. Over a set of variables it amounts to constraints over
it, but for the row variable that splitting may take. -/
theorem over_of_unifyRecords {X Y : Kind × VarId → Prop} (hXY : ∀ x, X x → Y x) {supply supply' : Supply}
    (hfresh : supply' = (supply.next .row).2 → Y (.row, (supply.next .row).1)) {left right : Ty VarId}
    (hl : left.Over X) (hr : right.Over X) {cs : List (Constraint VarId)}
    (h : unifyRecords supply left right = (.ok cs, supply')) : ∀ c ∈ cs, c.Over Y := by
  obtain ⟨r, t, hfl, hfr⟩ := flatten_of_unifyRecords h
  obtain ⟨⟨s, rfl⟩, -⟩ := Ty.eq_ofFields_of_flatten hl.shape hfl
  obtain ⟨⟨s', rfl⟩, -⟩ := Ty.eq_ofFields_of_flatten hr.shape hfr
  exact Constraint.Over.records hXY hfresh hl hr h

/-- Records of canonical shape amount to constraints between types of that shape. -/
theorem canonical_of_unifyRecords {supply supply' : Supply} {left right : Ty VarId} (hl : left.Canonical)
    (hr : right.Canonical) {cs : List (Constraint VarId)} (h : unifyRecords supply left right = (.ok cs, supply')) :
    ∀ c ∈ cs, c.Canonical := by
  intro c hc
  have hl : left.Over fun _ => True := ⟨hl, fun _ _ => trivial⟩
  have hr : right.Over fun _ => True := ⟨hr, fun _ _ => trivial⟩
  exact (over_of_unifyRecords (fun _ => id) (fun _ => trivial) hl hr h c hc).canonical

/-- Two records that are the same leave no row variable loose. -/
theorem FlatRecord.tightTail_of_mono_eq {r t : FlatRecord VarId (Ty VarId)} (hf : Assoc.Distinct r.fields)
    (hg : Assoc.Distinct t.fields) {s s' : Option Node}
    (h : (Ty.record (Row.ofFields r.fields r.tail) s).mono = (Ty.record (Row.ofFields t.fields t.tail) s').mono) :
    r.tightTail t = r.tail := by
  obtain ⟨hget, htail⟩ := (Ty.mono_record_eq_iff hf hg).mp h
  have hmissing : r.missingIn t = [] := by
    apply List.eq_nil_iff_forall_not_mem.mpr
    rintro ⟨k, u⟩ hu
    obtain ⟨hu, hk⟩ := mem_missingIn.mp hu
    have hsome := hget k
    rw [Assoc.get?_of_mem hf hu, Assoc.get?_eq_none_iff.mpr hk] at hsome
    cases hsome
  unfold tightTail loose
  rw [hmissing]
  cases hr : r.tail with
  | none => rfl
  | some v =>
      cases ht : t.tail with
      | none =>
          rw [hr, ht] at htail
          cases htail
      | some w => simp

namespace Constraint

/-- Bindings make two records the same if unifying them leaves no row variable loose, and the same when loose row
variables are dropped in any case. -/
structure EquatedBy (bs : List (Binding VarId)) (c : Constraint VarId) : Prop where
  tight : ∀ r t, c.left.flatten = .ok r → c.right.flatten = .ok t →
    ((Ty.ofFields r.fields (r.tightTail t)).under bs).Alike ((Ty.ofFields t.fields (t.tightTail r)).under bs)
  alike : ¬ c.Loose → (c.left.under bs).Alike (c.right.under bs)

variable {bs : List (Binding VarId)} {c : Constraint VarId}

/-- It is enough that the records are the same without loose row variables. -/
theorem EquatedBy.of_mono (hc : c.Canonical) (hbs : ∀ b ∈ bs, b.value.Canonical ∧ b.Kinded)
    {r t : FlatRecord VarId (Ty VarId)} (hr : c.left.flatten = .ok r) (ht : c.right.flatten = .ok t)
    {s s' : Option Node}
    (h : ((Ty.record (Row.ofFields r.fields (r.tightTail t)) s).under bs).mono =
      ((Ty.record (Row.ofFields t.fields (t.tightTail r)) s').under bs).mono) : c.EquatedBy bs := by
  obtain ⟨⟨o, hl⟩, hf, hfs⟩ := Ty.eq_ofFields_of_flatten hc.left hr
  obtain ⟨⟨o', hr'⟩, hg, hgs⟩ := Ty.eq_ofFields_of_flatten hc.right ht
  have hcan := fun b hb => (hbs b hb).1
  have hsides := (Ty.mono_under_record_eq_iff hbs hf hg).mp h
  refine ⟨?_, ?_⟩
  · intro r' t' hr' ht'
    cases hr.symm.trans hr'
    cases ht.symm.trans ht'
    rw [Ty.ofFields_eq, Ty.ofFields_eq]
    refine (Ty.alike_under_iff hcan ?_ ?_).mpr ((Ty.mono_under_record_eq_iff hbs hf hg).mpr hsides)
    · exact .record _ none (fun _ => trivial) hfs hf
    · exact .record _ none (fun _ => trivial) hgs hg
  · intro hloose
    simp only [Loose, hr, ht, not_or] at hloose
    rw [FlatRecord.tightTail, if_neg hloose.1, FlatRecord.tightTail, if_neg hloose.2] at hsides
    rw [Ty.alike_under_iff hcan hc.left hc.right, hl, hr']
    exact (Ty.mono_under_record_eq_iff hbs hf hg).mpr hsides

theorem EquatedBy.of_unifyRecords (hc : c.Canonical) (hbs : ∀ b ∈ bs, b.value.Canonical ∧ b.Kinded)
    {supply supply' : Supply} {cs : List (Constraint VarId)}
    (hu : unifyRecords supply c.left c.right = (.ok cs, supply')) (hmet : ∀ d ∈ cs, d.Met bs) : c.EquatedBy bs := by
  obtain ⟨r, t, hr, ht⟩ := flatten_of_unifyRecords hu
  obtain ⟨⟨o, hl⟩, hf, hfs⟩ := Ty.eq_ofFields_of_flatten hc.left hr
  obtain ⟨⟨o', hr'⟩, hg, hgs⟩ := Ty.eq_ofFields_of_flatten hc.right ht
  rw [hl, hr'] at hu
  exact .of_mono hc hbs hr ht (mono_under_of_unifyRecords hbs hf hg hfs hgs hu hmet)

/-- Two records that are the same are equated by all bindings. -/
theorem EquatedBy.of_alike (hc : c.Canonical) (hbs : ∀ b ∈ bs, b.value.Canonical ∧ b.Kinded)
    {r t : FlatRecord VarId (Ty VarId)} (hr : c.left.flatten = .ok r) (ht : c.right.flatten = .ok t)
    (h : c.left.Alike c.right) : c.EquatedBy bs := by
  obtain ⟨⟨o, hl⟩, hf, -⟩ := Ty.eq_ofFields_of_flatten hc.left hr
  obtain ⟨⟨o', hr'⟩, hg, -⟩ := Ty.eq_ofFields_of_flatten hc.right ht
  have hmono := (Ty.alike_iff hc.left hc.right).mp h
  have hunder := Ty.mono_under_congr (fun b hb => (hbs b hb).1) hc.left hc.right hmono
  rw [hl, hr'] at hmono hunder
  rw [← FlatRecord.tightTail_of_mono_eq hf hg hmono, ← FlatRecord.tightTail_of_mono_eq hg hf hmono.symm] at hunder
  exact .of_mono hc hbs hr ht hunder

end Constraint

/-- The bindings that solving a constraint ends with equate its two sides, if none is cyclic and no records that are
taken apart after the first turn leave a row variable loose. -/
theorem Solving.equatedBy_of_solved {c : Constraint VarId} (hc : c.Canonical) (hk : c.Kinded) {supply supply' : Supply}
    {steps : Nat} {bs : List (Binding VarId)} (h : (start supply [c]).outcome steps = (.solved bs, supply'))
    (hac : ∀ b ∈ bs, ¬ b.Cyclic)
    (htight : ∀ first state, (start supply [c]).next? = some first → first.Through state →
      ∀ d, state.queue.head? = some d → ¬ d.Loose) : c.EquatedBy bs := by
  have hstart : (start supply [c]).Kinded := .start (List.forall_mem_singleton.mpr ⟨hc, hk⟩)
  obtain ⟨u, hu, hq, hmade, -⟩ := through_of_solved h
  have hbs : ∀ b ∈ bs, b.value.Canonical ∧ b.Kinded := by
    rw [← hmade]
    exact (kinded_invariant.through hstart hu).made
  refine ⟨?_, ?_⟩
  · intro r t hr ht
    suffices heq : c.EquatedBy bs from heq.tight r t hr ht
    obtain ⟨⟨o, hl⟩, -⟩ := Ty.eq_ofFields_of_flatten hc.left hr
    obtain ⟨⟨o', hr'⟩, -⟩ := Ty.eq_ofFields_of_flatten hc.right ht
    have horient : c.orient = c := by
      unfold Constraint.orient
      rw [hr']
      rfl
    rcases hu.eq_or_next with rfl | ⟨first, hn, -⟩
    · cases hq
    cases steps with
    | zero => cases (outcome_zero (s := start supply [c]) (by nofun)).symm.trans h
    | succ steps =>
        rw [outcome_succ hn] at h
        obtain ⟨bs', rfl, hmet⟩ := met_of_solved (kinded_invariant.next hstart hn) h hac
          fun state hstate => htight first state hn hstate
        obtain ⟨c', cs, hcs, hcase⟩ := next?_cases hn
        cases hcs
        rw [horient] at hcase
        rcases hcase with ⟨hturn, -, -⟩ | ⟨b, hturn, -, -⟩ | ⟨more, hturn, htq, htm⟩
        · cases hturn with
          | drop halike => exact .of_alike hc hbs hr ht halike
        · cases hturn with
          | bindType => cases hl
          | bindRow => cases hl
        · have hall : first.made ++ bs' = bs' := by
            rw [htm]
            rfl
          rw [hall] at hbs ⊢
          rw [htq] at hmet
          cases hturn with
          | arrow => cases hl
          | con => cases hl
          | record hsplit => exact .of_unifyRecords hc hbs hsplit hmet
  · intro hloose
    obtain ⟨bs', rfl, hmet⟩ := met_of_solved hstart h hac fun t ht d hd => by
      rcases ht.eq_or_next with rfl | ⟨first, hn, hft⟩
      · cases hd
        exact hloose
      · exact htight first t hn hft d hd
    exact (Ty.alike_under_iff (fun b hb => (hbs b hb).1) hc.left hc.right).mpr (hmet c (List.mem_singleton_self c))

/-- Unifying records of canonical shape equates them. Bindings that meet all constraints that two records amount to
make the records the same when loose row variables are dropped, and the same as they are if none is loose. So do the
bindings that solving the two records ends with, if none is cyclic and no records that are taken apart after these two
leave a row variable loose. -/
theorem unifyRecords_equates {c : Constraint VarId} (hc : c.Canonical) (hk : c.Kinded) (supply : Supply) :
    (∀ cs supply', unifyRecords supply c.left c.right = (.ok cs, supply') →
      ∀ bs, (∀ b ∈ bs, b.value.Canonical ∧ b.Kinded) → (∀ d ∈ cs, (d.left.under bs).Alike (d.right.under bs)) →
        c.EquatedBy bs) ∧
    ∀ steps bs supply', Id.run (solve steps supply [c]) = (.solved bs, supply') → (∀ b ∈ bs, ¬ b.Cyclic) →
      (∀ first state, (Solving.start supply [c]).next? = some first → first.Through state →
        ∀ d, state.queue.head? = some d → ¬ d.Loose) →
      c.EquatedBy bs := by
  refine ⟨?_, ?_⟩
  · intro cs supply' hu bs hbs hcs
    refine .of_unifyRecords hc hbs hu ?_
    intro d hd
    obtain ⟨hdl, hdr⟩ := canonical_of_unifyRecords hc.left hc.right hu d hd
    exact (Ty.alike_under_iff (fun b hb => (hbs b hb).1) hdl hdr).mp (hcs d hd)
  · intro steps bs supply' hsolve hac htight
    exact Solving.equatedBy_of_solved hc hk hsolve hac htight

theorem unifyRecords_equates_crossing :
    crossing.EquatedBy crossed ∧ (crossing.left.under crossed).Alike (crossing.right.under crossed) := by
  obtain ⟨hmeets, hsolves⟩ := unifyRecords_equates crossing_kinded.1 crossing_kinded.2 ⟨0, 2⟩
  refine ⟨hmeets _ _ rfl crossed crossed_kinded (by decide), ?_⟩
  refine (hsolves 3 crossed ⟨0, 3⟩ outcome_crossing crossed_acyclic ?_).alike (by decide)
  -- After the two records, only constraints for row variables are taken.
  intro first state hfirst hstate d hd
  cases hfirst
  rcases hstate.eq_or_next with rfl | ⟨second, hsecond, hstate⟩
  · cases hd
    exact id
  cases hsecond
  rcases hstate.eq_or_next with rfl | ⟨third, hthird, hstate⟩
  · cases hd
    exact id
  cases hthird
  rcases hstate.eq_or_next with rfl | ⟨fourth, hfourth, -⟩
  · cases hd
  · cases hfourth

/-- A closed record and an open one with the same label. -/
def closedOpen : Constraint VarId :=
  ⟨.ofFields [("x", .leaf .num none)] none, .ofFields [("x", .leaf .num none)] (some ⟨0, none⟩)⟩

/-- Two open records of which one has a label that the other lacks. -/
def openOpen : Constraint VarId :=
  ⟨.ofFields [] (some ⟨0, none⟩), .ofFields [("y", .leaf .str none)] (some ⟨1, none⟩)⟩

theorem unifyRecords_leaves_loose :
    (unifyRecords ⟨0, 1⟩ closedOpen.left closedOpen.right = (.ok [⟨.leaf .num none, .leaf .num none⟩], ⟨0, 1⟩) ∧
      Id.run (solve 2 ⟨0, 1⟩ [closedOpen]) = (.solved [], ⟨0, 1⟩) ∧
      ¬ (closedOpen.left.under []).Alike (closedOpen.right.under [])) ∧
    Id.run (solve 2 ⟨0, 2⟩ [openOpen]) =
        (.solved [⟨.row, 0, none, .ofFields [("y", .leaf .str none)] none⟩], ⟨0, 2⟩) ∧
      ¬ (openOpen.left.under [⟨.row, 0, none, .ofFields [("y", .leaf .str none)] none⟩]).Alike
        (openOpen.right.under [⟨.row, 0, none, .ofFields [("y", .leaf .str none)] none⟩]) := by
  refine ⟨⟨rfl, rfl, by decide⟩, rfl, by decide⟩

end ScriptTypes
