import ScriptTypes.Proofs.Typing.Scope

/-! How the typing of a construct comes from those of its parts. Most rules combine: they settle what the parts ask of
names together with some constraints, and apply the bindings to a type. A function closes over its parameters:
it settles what its body asks of them and takes them out of the requirements. -/

namespace ScriptTypes

/-! What is closed and over variables that have been handed out. -/

structure Ty.Fits (n : Nat) (t : Ty VarId) : Prop where
  closed : t.Closed
  below : t.mono.Below n

structure Constraint.Fits (n : Nat) (c : Constraint VarId) : Prop where
  left : c.left.Fits n
  right : c.right.Fits n

structure Requirements.Fits (names : List String) (n : Nat) (env : Requirements VarId) : Prop where
  within : env.Within names
  below : Below n env

structure Typing.Fits (names : List String) (n : Nat) (t : Typing VarId) : Prop where
  within : t.Within names
  below : t.Below n

section Fits

variable {names : List String} {n m : Nat}

theorem Constraint.Fits.closed {c : Constraint VarId} (h : c.Fits n) : c.Closed := ⟨h.left.closed, h.right.closed⟩

theorem Constraint.Fits.below {c : Constraint VarId} (h : c.Fits n) : c.Below n := ⟨h.left.below, h.right.below⟩

theorem Typing.Fits.le {t : Typing VarId} (h : t.Fits names n) (hnm : n ≤ m) : t.Fits names m :=
  ⟨h.within, h.below.le hnm⟩

theorem Typing.Fits.needs {t : Typing VarId} (h : t.Fits names n) : t.needs.Fits names n :=
  ⟨h.within.needs, h.below.needs⟩

theorem Typing.Fits.type {t : Typing VarId} (h : t.Fits names n) : t.type.Fits n := ⟨h.within.type, h.below.type⟩

theorem Ty.Fits.leaf (l : Leaf) (s : Option Node) (n : Nat) : (Ty.leaf l s).Fits n :=
  ⟨.leaf l s, by simp [Mono.Below]⟩

theorem Ty.Fits.var {v : VarId} (h : v < n) (s : Option Node) : (Ty.var v s).Fits n :=
  ⟨.var v s, by simpa [Mono.Below] using h⟩

theorem Ty.Fits.array {t : Ty VarId} (h : t.Fits n) (s : Option Node) : (t.array s).Fits n :=
  ⟨.con _ s (List.forall_mem_singleton.mpr h.closed), by simpa [Ty.array, Mono.Below] using h.below⟩

theorem Ty.Fits.arrow {d : List (Ty VarId)} {t : Ty VarId} (hd : ∀ u ∈ d, u.Fits n) (ht : t.Fits n)
    (s : Option Node) : (Ty.arrow d t s).Fits n := by
  refine ⟨.arrow s (fun u hu => (hd u hu).closed) ht.closed, fun v hv => ?_⟩
  rw [mono_arrow, Mono.mem_vars_arrow] at hv
  rcases hv with ⟨u, hu, hv⟩ | hv
  · obtain ⟨w, hw, rfl⟩ := List.mem_map.mp hu
    exact (hd w hw).below v hv
  · exact ht.below v hv

theorem Ty.Fits.record {fs : Assoc (Ty VarId)} (hd : Assoc.Distinct fs) (hfs : ∀ f ∈ fs, f.2.Fits n)
    (s : Option Node) : (Ty.record [.fields fs] s).Fits n := by
  have hm : (Ty.record [.fields fs] s).mono = .record (Assoc.sort (Assoc.mapValues mono fs)) none :=
    mono_record hd none s
  refine ⟨closed_record s (fun f hf => (hfs f hf).closed) hd, fun v hv => ?_⟩
  rw [hm, Mono.mem_vars_record] at hv
  obtain ⟨g, hg, hv⟩ := hv
  obtain ⟨f, hf, rfl⟩ := List.mem_map.mp (Assoc.mem_sort.mp hg)
  exact (hfs f hf).below v hv

end Fits

/-- What a computation of a typing leaves. -/
structure Kept (names : List String) (r : Run) (t : Typing VarId) (r' : Run) : Prop where
  le : r.Le r'
  fits : t.Fits names r'.supply.types

theorem Kept.after {names : List String} {r r₁ r' : Run} {t : Typing VarId} (h : Kept names r₁ t r') (hle : r.Le r₁) :
    Kept names r t r' :=
  ⟨hle.trans h.le, h.fits⟩

/-- What a rule makes of typings: the requirements to settle, the constraints to settle with them, and a type. -/
structure Combination where
  needs : List (Requirements VarId)
  extra : List (Constraint VarId)
  type : Ty VarId

structure Combination.Fits (names : List String) (n : Nat) (c : Combination) : Prop where
  needs : ∀ env ∈ c.needs, env.Fits names n
  extra : ∀ d ∈ c.extra, d.Fits n
  type : c.type.Fits n

/-- Settle a combination, and give the joined requirements with the type. -/
def Infer.combine (steps : Nat) (c : Combination) (explain : UnifyError VarId → Failure VarId) :
    Infer (Typing VarId) := do
  let bs ← settle steps c.needs c.extra explain
  return ⟨Requirements.joinUnder bs c.needs, c.type.under bs⟩

section Combine

variable {names : List String} {c : Combination} {explain : UnifyError VarId → Failure VarId} {r r' : Run}
  {t : Typing VarId}

theorem Returns.combine_iff {steps : Nat} :
    Returns (Infer.combine steps c explain) r t r' ↔
      ∃ bs, Returns (Infer.settle steps c.needs c.extra explain) r bs r' ∧
        t = ⟨Requirements.joinUnder bs c.needs, c.type.under bs⟩ := by
  rw [Infer.combine, bind_iff]
  constructor
  · rintro ⟨bs, r₁, hs, h⟩
    obtain ⟨rfl, rfl⟩ := pure_iff.mp h
    exact ⟨bs, hs, rfl⟩
  · rintro ⟨bs, hs, rfl⟩
    exact ⟨bs, r', hs, pure_iff.mpr ⟨rfl, rfl⟩⟩

theorem Combination.Fits.closed {n : Nat} (hc : c.Fits names n) :
    (∀ env ∈ c.needs, Requirements.Closed env) ∧ ∀ d ∈ c.extra, d.Closed :=
  ⟨fun env he => (hc.needs env he).within.closed, fun d hd => (hc.extra d hd).closed⟩

/-- A computation settles a combination, after some fresh variables. -/
structure Combines (names : List String) (x : Nat → Infer (Typing VarId)) (r : Run) (c : Combination)
    (start : Run) : Prop where
  le : r.Le start
  fits : c.Fits names start.supply.types
  returns_iff : ∃ explain, ∀ {steps t r'}, Returns (x steps) r t r' ↔ Returns (Infer.combine steps c explain) start t r'

namespace Combines

variable {x : Nat → Infer (Typing VarId)} {start : Run} (hx : Combines names x r c start)

include hx

theorem kept {steps : Nat} (h : Returns (x steps) r t r') : Kept names r t r' := by
  obtain ⟨explain, hiff⟩ := hx.returns_iff
  obtain ⟨bs, hs, rfl⟩ := Returns.combine_iff.mp (hiff.mp h)
  obtain ⟨hclosed, hextra⟩ := hx.fits.closed
  have hle := Returns.settle_le hclosed hextra hs
  have hsettled := Returns.settle_settled hclosed hextra hs
  have hbelow : ∀ env ∈ c.needs, Requirements.Below r'.supply.types env :=
    fun env he => (hx.fits.needs env he).below.le hle.types
  have hb := hsettled.below hbelow fun d hd => (hx.fits.extra d hd).below.le hle.types
  refine ⟨hx.le.trans hle, ⟨.joinUnder hsettled.closed fun env he => (hx.fits.needs env he).within,
    hx.fits.type.closed.under hsettled.closed⟩, ⟨.joinUnder hsettled.closed hb hclosed hbelow, ?_⟩⟩
  exact Ty.under_below hsettled.closed hb hx.fits.type.closed (hx.fits.type.below.le hle.types)

/-- Types of the whole are types of the parts. -/
theorem sound {steps : Nat} (h : Returns (x steps) r t r') (hac : r'.Acyclic steps) {θ : Assignment} (hθ : θ.Proper)
    {M : String → Mono} (hM : Requirements.Meets θ M t.needs) :
    ∃ θ' : Assignment, θ'.Proper ∧ (∀ env ∈ c.needs, Requirements.Meets θ' M env) ∧
      (∀ d ∈ c.extra, d.Unifies θ') ∧ t.type.mono.subst θ = c.type.mono.subst θ' := by
  obtain ⟨explain, hiff⟩ := hx.returns_iff
  obtain ⟨bs, hs, rfl⟩ := Returns.combine_iff.mp (hiff.mp h)
  obtain ⟨hclosed, hextra⟩ := hx.fits.closed
  have hsettled := Returns.settle_settled hclosed hextra hs
  have hacyclic := Returns.settle_acyclic hs hac
  refine ⟨(Assignment.ofBindings bs).then θ, (Assignment.proper_ofBindings hsettled.closed).then hθ,
    hsettled.meets hacyclic hclosed hM, fun d hd => ?_, Ty.mono_under_subst hsettled.closed hx.fits.type.closed θ⟩
  rw [Constraint.Unifies, Assignment.subst_then, Assignment.subst_then]
  exact congrArg (Mono.subst θ) (hsettled.extra hacyclic d hd)

/-- Types of the parts are types of the whole. -/
theorem complete {θ : Assignment} {M : String → Mono} (hM : ∀ env ∈ c.needs, Requirements.Meets θ M env)
    (hθ : ∀ d ∈ c.extra, d.Unifies θ) :
    ∃ t r', Reaches x r t r' ∧ ∃ θ' : Assignment, θ'.AgreeBelow start.supply.types θ ∧
      Requirements.Meets θ' M t.needs ∧ t.type.mono.subst θ' = c.type.mono.subst θ := by
  obtain ⟨explain, hiff⟩ := hx.returns_iff
  obtain ⟨hclosed, hextra⟩ := hx.fits.closed
  obtain ⟨bs, r', hs, θ', hagree, hthen⟩ := @Reaches.settle _ _ start hclosed hextra _ _ hM hθ
    (fun env he => (hx.fits.needs env he).below) (fun d hd => (hx.fits.extra d hd).below)
  obtain ⟨limit, hl⟩ := hs explain
  have hbs := (Returns.settle_settled hclosed hextra (hl limit le_rfl)).closed
  refine ⟨⟨Requirements.joinUnder bs c.needs, c.type.under bs⟩, r', ⟨limit, fun steps hge => ?_⟩, θ', hagree, ?_, ?_⟩
  · exact hiff.mpr (Returns.combine_iff.mpr ⟨bs, hl steps hge, rfl⟩)
  · exact .joinUnder hbs hclosed hthen fun env he => (hM env he).agree (hx.fits.needs env he).below hagree
  · rw [Ty.mono_under_subst hbs hx.fits.type.closed, hthen]
    exact hx.fits.type.below.subst_eq hagree

end Combines

end Combine

/-! Functions. -/

namespace Infer

theorem dropParams_spec {needs : Requirements VarId} (hd : Assoc.Distinct needs) (params : Assoc (Ty VarId)) :
    Assoc.Distinct (dropParams needs params) ∧
      ∀ e, e ∈ dropParams needs params ↔ e ∈ needs ∧ e.1 ∉ Assoc.keys params := by
  induction params generalizing needs with
  | nil => exact ⟨hd, by simp [dropParams, Assoc.keys]⟩
  | cons p params ih =>
      obtain ⟨hd', hm⟩ := ih (hd.erase p.1)
      refine ⟨hd', fun e => (hm e).trans ?_⟩
      rw [Assoc.mem_erase hd, and_assoc]
      simp [Assoc.keys]

theorem takeParams_fst (bs : List (Binding VarId)) (needs : Requirements VarId) (params : Assoc (Ty VarId)) :
    (takeParams bs needs params).1 = dropParams needs params := by
  induction params generalizing needs with
  | nil => rfl
  | cons p params ih => exact ih (Assoc.erase needs p.1)

/-- What a parameter comes to is asked of it, or else it is its own type. -/
theorem takeParams_snd (bs : List (Binding VarId)) {needs : Requirements VarId} (hd : Assoc.Distinct needs)
    (params : Assoc (Ty VarId)) :
    List.Forall₂ (fun p u => (p.1, u) ∈ needs ∨ u = p.2.under bs) params (takeParams bs needs params).2 := by
  induction params generalizing needs with
  | nil => exact .nil
  | cons p params ih =>
      obtain ⟨x, t⟩ := p
      refine .cons ?_ ((ih (hd.erase x)).imp fun q u h => h.imp_left fun hm => ((Assoc.mem_erase hd).mp hm).1)
      cases hg : Assoc.get? needs x with
      | none => exact .inr rfl
      | some u => exact .inl (Assoc.mem_of_get? hg)

/-- Settle what a body asks together with what is asked of the names that a function binds. -/
def close (steps : Nat) (asked : Assoc (Ty VarId)) (body : Typing VarId)
    (result : List (Binding VarId) → Typing VarId) : Infer (Typing VarId) := do
  let bs ← settle steps (asked.map (fun p => [p]) ++ [body.needs]) [] UnifyError.plain
  return result bs

end Infer

/-- The typing of a function, given what is asked of the names that it binds and the bindings that settle it. The type
is what the bindings make of a type that any types of the names make the type of the function. -/
structure Closes (asked params : Assoc (Ty VarId)) (body : Typing VarId) (bs : List (Binding VarId))
    (t : Typing VarId) : Prop where
  needs : ∀ {y k}, (y, k) ∈ t.needs → y ∉ Assoc.keys asked ∧ ∃ w, (y, w) ∈ body.needs ∧ w.under bs = k
  keeps : ∀ {y}, y ∈ Assoc.keys body.needs → y ∉ Assoc.keys asked → y ∈ Assoc.keys t.needs
  type : ∃ w : Ty VarId, w.under bs = t.type ∧ w.Closed ∧
    (∀ n, Requirements.Below n asked → body.Below n → w.mono.Below n) ∧
    ∀ θ M, Requirements.Meets θ M body.needs → Requirements.Meets θ M asked →
      w.mono.subst θ = .arrow (params.map fun p => p.2.mono.subst θ) (body.type.mono.subst θ)

/-- How a function over parameters is closed: what is asked of the names that are monomorphic in its body, and the
typing that it gets. -/
structure Abstracts (bound : List String) (params : Assoc (Ty VarId)) (body : Typing VarId)
    (asked : Assoc (Ty VarId)) (result : List (Binding VarId) → Typing VarId) : Prop where
  closed : Requirements.Closed asked
  distinct : Assoc.Distinct asked
  keys : ∀ x, x ∈ Assoc.keys asked ↔ x ∈ bound
  includes : ∀ p ∈ params, p ∈ asked
  entries : ∀ p ∈ asked, p ∈ params ∨ ∀ θ,
    p.2.mono.subst θ = .arrow (params.map fun q => q.2.mono.subst θ) (body.type.mono.subst θ)
  below : ∀ {n}, Requirements.Below n params → body.Below n → Requirements.Below n asked
  closes : ∀ bs, (∀ b ∈ bs, b.Closed) → Closes asked params body bs (result bs)

section Close

variable {asked params : Assoc (Ty VarId)} {body t : Typing VarId} {result : List (Binding VarId) → Typing VarId}
  {bound names : List String} {r r' : Run}
  (ha : Abstracts bound params body asked result) (hbody : body.Within (bound ++ names))

theorem Returns.close_iff {steps : Nat} :
    Returns (Infer.close steps asked body result) r t r' ↔
      ∃ bs, Returns (Infer.settle steps (asked.map (fun p => [p]) ++ [body.needs]) [] UnifyError.plain) r bs r' ∧
        t = result bs := by
  rw [Infer.close, bind_iff]
  constructor
  · rintro ⟨bs, r₁, hs, h⟩
    obtain ⟨rfl, rfl⟩ := pure_iff.mp h
    exact ⟨bs, hs, rfl⟩
  · rintro ⟨bs, hs, rfl⟩
    exact ⟨bs, r', hs, pure_iff.mpr ⟨rfl, rfl⟩⟩

/-- A statement about all that is settled for a function. -/
theorem forall_mem_asked {P : Requirements VarId → Prop} :
    (∀ env ∈ asked.map (fun p => [p]) ++ [body.needs], P env) ↔ (∀ p ∈ asked, P [p]) ∧ P body.needs := by
  rw [List.forall_mem_append, List.forall_mem_map, List.forall_mem_singleton]

theorem flatten_asked : (asked.map (fun p => [p]) ++ [body.needs]).flatten = asked ++ body.needs := by
  rw [List.flatten_append, List.flatten_singleton]
  congr 1
  induction asked with
  | nil => rfl
  | cons p asked ih => rw [List.map_cons, List.flatten_cons, ih, List.singleton_append]

include ha hbody

theorem Abstracts.closed_asked : ∀ env ∈ asked.map (fun p => [p]) ++ [body.needs], Requirements.Closed env :=
  forall_mem_asked.mpr ⟨fun p hp => List.forall_mem_singleton.mpr (ha.closed p hp), hbody.needs.closed⟩

theorem Returns.close_kept {steps : Nat} (hparams : Requirements.Below r.supply.types params)
    (hbbody : body.Below r.supply.types) (h : Returns (Infer.close steps asked body result) r t r') :
    Kept names r t r' := by
  obtain ⟨bs, hs, rfl⟩ := close_iff.mp h
  have hclosed := ha.closed_asked hbody
  have hle := settle_le hclosed (by simp) hs
  have hsettled := settle_settled hclosed (by simp) hs
  have hbbody' := hbbody.le hle.types
  have hbasked' := (ha.below hparams hbbody).le hle.types
  have hb := hsettled.below
    (forall_mem_asked.mpr ⟨fun p hp => List.forall_mem_singleton.mpr (hbasked' p hp), hbbody'.needs⟩) (by simp)
  have hcl := ha.closes bs hsettled.closed
  obtain ⟨w, hw, hwc, hwb, -⟩ := hcl.type
  refine ⟨hle, ⟨⟨fun e he => ?_, fun x hx => ?_⟩, hw ▸ hwc.under hsettled.closed⟩, ⟨fun e he => ?_, ?_⟩⟩
  · obtain ⟨-, u, hu, hk⟩ := hcl.needs he
    exact hk ▸ (hbody.needs.closed _ hu).under hsettled.closed
  · obtain ⟨k, hk⟩ := Assoc.mem_keys.mp hx
    obtain ⟨hn, u, hu, -⟩ := hcl.needs hk
    rw [ha.keys] at hn
    exact (List.mem_append.mp (hbody.needs.keys x (Assoc.mem_keys_of_mem hu))).resolve_left hn
  · obtain ⟨-, u, hu, hk⟩ := hcl.needs he
    exact hk ▸ Ty.under_below hsettled.closed hb (hbody.needs.closed _ hu) (hbbody'.needs _ hu)
  · exact hw ▸ Ty.under_below hsettled.closed hb hwc (hwb _ hbasked' hbbody')

/-- Types of the function give types to the names that it binds and to its body. What is not a parameter stands for
the function. -/
theorem Returns.close_sound {steps : Nat} (hac : r'.Acyclic steps)
    (h : Returns (Infer.close steps asked body result) r t r') {θ : Assignment} (hθ : θ.Proper)
    {M : String → Mono} (hM : Requirements.Meets θ M t.needs) :
    ∃ (θ' : Assignment) (M' : String → Mono), θ'.Proper ∧ Requirements.Meets θ' M' body.needs ∧
      (∀ x ∉ bound, M' x = M x) ∧ (∀ x ∈ bound, x ∉ Assoc.keys params → M' x = t.type.mono.subst θ) ∧
      (∀ p ∈ params, (M' p.1).Proper) ∧
      t.type.mono.subst θ = .arrow (params.map fun p => M' p.1) (body.type.mono.subst θ') := by
  obtain ⟨bs, hs, rfl⟩ := close_iff.mp h
  have hclosed := ha.closed_asked hbody
  have hsettled := settle_settled hclosed (by simp) hs
  have hcl := ha.closes bs hsettled.closed
  obtain ⟨θ', hθ'⟩ : ∃ θ', (Assignment.ofBindings bs).then θ = θ' := ⟨_, rfl⟩
  have same : ∀ {y u w}, (y, u) ∈ asked ++ body.needs → (y, w) ∈ asked ++ body.needs →
      u.mono.subst θ' = w.mono.subst θ' := by
    intro y u w hu hw
    rw [← flatten_asked] at hu hw
    rw [← hθ', Assignment.subst_then, Assignment.subst_then,
      hsettled.needs (settle_acyclic hs hac) y u w hu hw]
  let M' : String → Mono := fun x => ((Assoc.get? asked x).map fun u => u.mono.subst θ').getD (M x)
  have hother : ∀ x ∉ bound, M' x = M x := by
    intro x hx
    rw [← ha.keys, ← Assoc.get?_eq_none_iff] at hx
    simp only [M', hx, Option.map_none, Option.getD_none]
  have hM'asked : Requirements.Meets θ' M' asked := by
    rintro ⟨x, u⟩ hu
    simp only [M', Assoc.get?_of_mem ha.distinct hu, Option.map_some, Option.getD_some]
  have hM'body : Requirements.Meets θ' M' body.needs := by
    rintro ⟨y, u⟩ hu
    by_cases hy : y ∈ Assoc.keys asked
    · obtain ⟨w, hw⟩ := Assoc.mem_keys.mp hy
      exact (same (List.mem_append_right _ hu) (List.mem_append_left _ hw)).trans (hM'asked _ hw)
    · -- The entry of the name that was kept stands for all of them.
      obtain ⟨k, hk⟩ := Assoc.mem_keys.mp (hcl.keeps (Assoc.mem_keys_of_mem hu) hy)
      obtain ⟨-, w, hw, rfl⟩ := hcl.needs hk
      have he := hM _ hk
      rw [Ty.mono_under_subst hsettled.closed (hbody.needs.closed _ hw), hθ'] at he
      rw [hother y (mt (ha.keys y).mpr hy), same (List.mem_append_right _ hu) (List.mem_append_right _ hw)]
      exact he
  obtain ⟨w, hw, hwc, -, harrow⟩ := hcl.type
  have hproper : θ'.Proper := hθ' ▸ (Assignment.proper_ofBindings hsettled.closed).then hθ
  have htype : (result bs).type.mono.subst θ =
      .arrow (params.map fun p => p.2.mono.subst θ') (body.type.mono.subst θ') := by
    rw [← hw, Ty.mono_under_subst hsettled.closed hwc, hθ', harrow θ' M' hM'body hM'asked]
  refine ⟨θ', M', hproper, hM'body, hother, fun x hx hp => ?_, fun p hp => ?_, htype.trans ?_⟩
  · obtain ⟨u, hu⟩ := Assoc.mem_keys.mp ((ha.keys x).mpr hx)
    refine (hM'asked _ hu).symm.trans (Eq.trans ?_ htype.symm)
    exact (ha.entries _ hu).resolve_left (fun hm => hp (Assoc.mem_keys_of_mem hm)) θ'
  · rw [← hM'asked p (ha.includes p hp)]
    exact (ha.closed p (ha.includes p hp)).proper.subst hproper
  · exact congrArg (Mono.arrow · _) (List.map_congr_left fun p hp => hM'asked p (ha.includes p hp))

/-- Types of the names that a function binds and of its body are types of the function. -/
theorem Reaches.close {θ : Assignment} {M M' : String → Mono} (hM : Requirements.Meets θ M' body.needs)
    (hMparams : Requirements.Meets θ M' params)
    (hown : ∀ x ∈ bound, x ∉ Assoc.keys params →
      M' x = .arrow (params.map fun p => M' p.1) (body.type.mono.subst θ))
    (hother : ∀ x ∉ bound, M' x = M x) (hparams : Requirements.Below r.supply.types params)
    (hbbody : body.Below r.supply.types) :
    ∃ t r', Reaches (Infer.close · asked body result) r t r' ∧
      ∃ θ' : Assignment, θ'.AgreeBelow r.supply.types θ ∧ Requirements.Meets θ' M t.needs ∧
        t.type.mono.subst θ' = .arrow (params.map fun p => M' p.1) (body.type.mono.subst θ) := by
  have hmap : (params.map fun p => p.2.mono.subst θ) = params.map fun p => M' p.1 :=
    List.map_congr_left hMparams
  have hMasked : Requirements.Meets θ M' asked := by
    rintro ⟨x, w⟩ hw
    rcases ha.entries _ hw with hp | harrow
    · exact hMparams _ hp
    · by_cases hx : x ∈ Assoc.keys params
      · obtain ⟨u, hu⟩ := Assoc.mem_keys.mp hx
        have he := (Assoc.get?_of_mem ha.distinct hw).symm.trans (Assoc.get?_of_mem ha.distinct (ha.includes _ hu))
        cases he
        exact hMparams _ hu
      · rw [hown x ((ha.keys x).mp (Assoc.mem_keys_of_mem hw)) hx, ← hmap]
        exact harrow θ
  have hbelow := ha.below hparams hbbody
  have hclosed := ha.closed_asked hbody
  have hnil : ∀ c ∈ ([] : List (Constraint VarId)), c.Closed := by simp
  obtain ⟨bs, r', hs, θ', hagree, hthen⟩ := settle hclosed hnil
    (forall_mem_asked.mpr ⟨fun p hp => List.forall_mem_singleton.mpr (hMasked p hp), hM⟩) (by simp)
    (forall_mem_asked.mpr ⟨fun p hp => List.forall_mem_singleton.mpr (hbelow p hp), hbbody.needs⟩) (by simp)
  obtain ⟨limit, hl⟩ := hs UnifyError.plain
  have hbs := (Returns.settle_settled hclosed hnil (hl limit le_rfl)).closed
  have hcl := ha.closes bs hbs
  have hM' := hM.agree hbbody.needs hagree
  refine ⟨result bs, r', (hs UnifyError.plain).bind (.of_returns (Returns.pure _ _)), θ', hagree, ?_, ?_⟩
  · rintro ⟨y, k⟩ hk
    obtain ⟨hy, w, hw, rfl⟩ := hcl.needs hk
    rw [Ty.mono_under_subst hbs (hbody.needs.closed _ hw), hthen, ← hother y (mt (ha.keys y).mpr hy)]
    exact hM' _ hw
  · obtain ⟨w, hw, hwc, hwb, harrow⟩ := hcl.type
    rw [← hw, Ty.mono_under_subst hbs hwc, hthen, (hwb _ hbelow hbbody).subst_eq hagree, harrow θ M' hM hMasked,
      hmap]

end Close

end ScriptTypes
