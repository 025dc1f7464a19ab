import ScriptTypes.Proofs.Typing.Regions

/-! Scopes in a script and in the renamed one. A name and its counterpart are used, bound and declared side by side, and
the scope of a function is opened on both sides. -/

namespace ScriptTypes

/-- Runs over a script and over a renamed one. -/
def Sides.renamed (n m : Nat) : Sides where
  steps := n
  steps' := m
  first := n < m
  lower := ⟨fun h => Nat.le_of_lt (of_decide_eq_true h), fun h => Nat.not_lt.mp (of_decide_eq_false h)⟩
  node := fun n => n
  pos := fun p => p
  pos_node _ := rfl
  pos_none := id_eq none
  kept := False

theorem Sides.names_turn (n m : Nat) (x y : String) (picked : Bool) : (renamed n m).Names (turn x y picked) :=
  ⟨turn_injective x y picked, False.elim⟩

/-! Typings and blocks that stay as they are, while the renaming of variables goes on. -/

section Stays

variable (c : Sides) (φ : String → String) (K : String → Prop) (f : Kind → VarId → VarId) (r : Run)

/-- A typing and its counterpart, over variables that have been handed out. -/
structure Typing.Stays (t t' : Typing VarId) : Prop where
  mirrored : t.Mirrored c φ K f t'
  issued : t.In Supply.Issued r

/-- A block and its counterpart, apart from the names in sight. -/
structure Block.Stays (b b' : Block) : Prop where
  typings : Typing.AllMirrored c φ K f b.typings b'.typings
  returned : Typing.AllMirrored c φ K f b.returned.toList b'.returned.toList
  issued : b.In Supply.Issued r

variable {c φ K f r} {g : Kind → VarId → VarId} {r₁ : Run} (hl : Later f r.supply g r₁.supply)

include hl

theorem Typing.Stays.later {t t' : Typing VarId} (h : t.Stays c φ K f r t') : t.Stays c φ K g r₁ t' :=
  ⟨h.mirrored.later h.issued hl, h.issued.imp fun _ => growing_issued.mono hl.le⟩

theorem Block.Stays.later {b b' : Block} (h : b.Stays c φ K f r b') : b.Stays c φ K g r₁ b' where
  typings := h.typings.later h.issued.typings hl
  returned := h.returned.later (fun t ht => h.issued.returned t (Option.mem_toList.mp ht)) hl
  issued := h.issued.imp fun _ => growing_issued.mono hl.le

omit hl

theorem Block.Stays.returned_isSome {b b' : Block} (h : b.Stays c φ K f r b') :
    b'.returned.isSome = b.returned.isSome := by
  have hlength := congrArg List.length h.returned.eq
  rw [List.length_map] at hlength
  cases hb : b.returned <;> cases hb' : b'.returned <;> simp [hb, hb'] at hlength ⊢

/-- Another scope. -/
theorem Block.Stays.withEnv {b b' : Block} (h : b.Stays c φ K f r b') {env : Env VarId}
    (henv : Env.Over r.supply.Issued env) (env' : Env VarId) :
    ({ b with env } : Block).Stays c φ K f r { b' with env := env' } :=
  ⟨h.typings, h.returned, henv, h.issued.typings, h.issued.returned⟩

/-- One more typing. -/
theorem Block.Stays.push {b b' : Block} (h : b.Stays c φ K f r b') {t t' : Typing VarId} (ht : t.Stays c φ K f r t') :
    ({ b with typings := b.typings ++ [t] } : Block).Stays c φ K f r { b' with typings := b'.typings ++ [t'] } where
  typings := by
    refine ⟨?_, List.forall_mem_append.mpr ⟨h.typings.asks, List.forall_mem_singleton.mpr ht.mirrored.asks⟩⟩
    change b'.typings ++ [t'] = _
    rw [h.typings.eq, ht.mirrored.eq, List.map_append]
    rfl
  returned := h.returned
  issued := ⟨h.issued.env, List.forall_mem_append.mpr ⟨h.issued.typings, List.forall_mem_singleton.mpr ht.issued⟩,
    h.issued.returned⟩

/-- A typing that is returned. -/
theorem Block.Stays.give {b b' : Block} (h : b.Stays c φ K f r b') {t t' : Typing VarId} (ht : t.Stays c φ K f r t') :
    ({ b with returned := some t } : Block).Stays c φ K f r { b' with returned := some t' } where
  typings := h.typings
  returned := ⟨congrArg (fun u => [u]) ht.mirrored.eq, List.forall_mem_singleton.mpr ht.mirrored.asks⟩
  issued := ⟨h.issued.env, h.issued.typings, fun _ hu => Option.some.inj hu ▸ ht.issued⟩

end Stays

/-! Names in sight. -/

section Scopes

/-- A monomorphic name and its counterpart. -/
theorem Region.matches_param {x y : String} {region : Region} {f : Kind → VarId → VarId}
    (hf : ∀ k, Function.Injective (f k)) {id : Ident} (hy : id.label ≠ y) {label : String}
    (hlabel : label = turn x y region.picked id.label) (hasking : id.label = x → x ∈ region.asking) (t : Ty VarId) :
    region.Matches x y id.label ⟨id, ⟨[(id.label, t)], t⟩, false⟩
      ⟨⟨label, id.pos⟩, ⟨[(label, t.relabel f fun n => n)], t.relabel f fun n => n⟩, false⟩ where
  alike := ⟨rfl, rfl, ⟨f, hf, by rw [hlabel]; rfl⟩, nofun⟩
  asks := by
    refine List.forall_mem_singleton.mpr ⟨hy, fun hx => ⟨id.label, List.mem_singleton_self _, ?_⟩⟩
    have hx : id.label = x := hx
    rw [hx]
    exact hasking hx

/-- The scope of a function with its parameters, and their counterparts. -/
structure Region.Opens (x y : String) (region : Region) (pick : Pick) (own params : List String) (picked : Bool)
    (names : List String) (f : Kind → VarId → VarId) (p p' : Env VarId × List (String × Ty VarId)) : Prop where
  sees : (region.inside x pick own params).Sees x y (pick.within x own params picked) names p.1 p'.1
  here : (region.inside x pick own params).SameHere x y (pick [] && x ∈ params) p.1 p'.1
  params : p'.2 = Assoc.rename (turn x y (region.inside x pick own params).picked) (Ty.relabel f fun n => n) p.2

variable {x y : String} {n m : Nat} {f : Kind → VarId → VarId} {r r' : Run}
  (hr : (Sides.renamed n m).Renames f r.supply r'.supply) {region : Region}

include hr

namespace Simulates

/-- A name that is used in a region, and its counterpart. -/
theorem use {picked : Bool} {env env' : Env VarId} {id : Ident} (hy : id.label ≠ y)
    (hsees : region.Sees x y picked [id.label] env env') :
    Simulates (.renamed n m) f r r' (Infer.lift (env.lookup id) >>= Infer.instantiate)
      (Infer.lift (env'.lookup (id.rename x y picked)) >>= Infer.instantiate)
      fun g _ => Typing.Mirrored (.renamed n m) (turn x y region.picked) (region.Asks x y [id.label]) g := by
  have hget := hsees id.label (List.mem_singleton_self _) hy
  rw [← label_rename hy] at hget
  unfold Env.lookup
  generalize env.get? id.label = o, env'.get? (id.rename x y picked).label = o' at hget
  cases hget with
  | none => exact bind (Q := fun _ _ _ _ => False) (fail hr ⟨rfl, False.elim⟩) fun _ _ h => h.elim
  | @some b b' hb =>
      obtain ⟨h, hh, htyping⟩ := hb.alike.typing
      refine bind (pure hr (Q := fun _ _ t t' => t = b.typing ∧ t' = b'.typing) ⟨rfl, rfl⟩) ?_
      rintro g r₁ r₁' t t' hlater hr₁ ⟨rfl, rfl⟩
      rw [htyping]
      refine (instantiate hr₁ hh (turn x y region.picked) b.typing).imp ?_
      rintro g r₂ u u' r₂' hlater₂ hr₂ ⟨rfl, rfl, hkeys⟩
      exact ⟨rfl, hkeys ▸ hb.asks⟩

theorem assign {φ : String → String} {env env' : Env VarId} (id id' : Ident) (hpos : id'.pos = id.pos)
    (hhere : Option.Rel (Bound.Alike φ) (env.here? id.label) (env'.here? id'.label)) (t t' : Typing VarId) :
    Simulates (.renamed n m) f r r' (Infer.lift (env.assign id t)) (Infer.lift (env'.assign id' t')) fun g _ e e' =>
      g = f ∧ e = env.insert id.label ⟨id, t, false⟩ ∧ e' = env'.insert id'.label ⟨id', t', false⟩ := by
  refine lift hr ?_
  unfold Env.assign
  generalize env.here? id.label = o, env'.here? id'.label = o' at hhere
  cases hhere with
  | none => exact .inl ⟨_, _, rfl, rfl, rfl, rfl, rfl⟩
  | some hb => exact .inr ⟨_, _, rfl, rfl, hpos, hb.pos, False.elim⟩

/-- A function bound to a name. The name stays, also if it is the old name of parameters. Then these hide it on one side
only, and it asks nothing of its own name on the other one. -/
theorem defTyping_turn {moved : Bool} {K : String → Prop} {name : String} (hy : name ≠ y) {node : Node}
    {params params' : List (String × Ty VarId)} {body body' : Typing VarId} (hfree : y ∉ Assoc.keys params)
    (hparams : params' = Assoc.rename (turn x y moved) (Ty.relabel f fun n => n) params)
    (hbody : body.Stays (.renamed n m) (turn x y moved) K f r body') (hK : ∀ k, K k → k ≠ y)
    (hover : ∀ e ∈ params, e.2.Over r.supply.Issued) (hown : turn x y moved name ≠ name → name ∈ Assoc.keys params) :
    Simulates (.renamed n m) f r r' (Infer.defTyping n name node params body)
      (Infer.defTyping m name node params' body')
      fun g _ => Typing.Mirrored (.renamed n m) (turn x y moved)
        (fun k => K k ∧ k ≠ name ∧ k ∉ Assoc.keys params) g := by
  have hnames := Sides.names_turn n m x y moved
  by_cases hname : turn x y moved name = name
  · have hsim : Simulates (.renamed n m) f r r' (Infer.defTyping n name node params body)
        (Infer.defTyping m (turn x y moved name) node params' body') _ := defTyping hr hnames hparams hbody.mirrored
    rwa [hname] at hsim
  · have hother : ∀ a, a ≠ y → turn x y moved a ≠ name := by
      intro a ha he
      cases eq_of_turn_eq ha hy he
      exact hname he
    have hshown : name ∉ Assoc.keys params' := by
      rw [hparams, Assoc.keys_rename]
      intro hm
      obtain ⟨a, ha, he⟩ := List.mem_map.mp hm
      exact hother a (fun h => hfree (h ▸ ha)) he
    have hunasked : name ∉ Assoc.keys body'.needs := by
      rw [hbody.mirrored.eq, Typing.relabel, Assoc.keys_rename]
      intro hm
      obtain ⟨a, ha, he⟩ := List.mem_map.mp hm
      exact hother a (hK a (hbody.mirrored.asks a ha)) he
    refine (defTyping_own of_decide_eq_true id hr hnames hparams hbody.mirrored hover hbody.issued (hown hname) hshown
      hunasked).imp ?_
    intro g r₁ u u' r₁' _ _ hu
    refine hu.imp fun k hk => ⟨rfl, hk.1, ?_, hk.2⟩
    rintro rfl
    exact hk.2 (hown hname)

variable {pick : Pick} {own params : List String} (hparams : y ∉ params) {picked : Bool} {names : List String}
  {env env' : Env VarId}

include hparams

/-- Parameters, some of which may be bound already. -/
theorem bindParams {ps : List Pattern} (hps : Pattern.allLabels ps ⊆ params)
    (hsees : (region.inside x pick own params).Sees x y (pick.within x own params picked)
      (names.filter (· ∉ Pattern.allLabels ps)) env env')
    (hhere : (region.inside x pick own params).SameHere x y (pick [] && x ∈ params) env env') :
    Simulates (.renamed n m) f r r' (Infer.bindParams env ps)
      (Infer.bindParams env' (ps.map (Pattern.rename x y (pick [])))) fun g _ p p' =>
        g = f ∧ region.Opens x y pick own params picked names f p p' ∧
          Assoc.keys p.2 = Pattern.allLabels ps := by
  induction ps generalizing r r' env env' with
  | nil =>
      refine pure hr ⟨rfl, ⟨hsees.mono ?_, hhere, rfl⟩, rfl⟩
      intro a ha
      exact List.mem_filter.mpr ⟨ha, rfl⟩
  | cons p ps ih =>
      cases p with
      | object ids pos => exact unsupported hr _ pos
      | array ids pos => exact unsupported hr _ pos
      | ident id =>
          have hid : id.label ∈ params := hps List.mem_cons_self
          have hy : id.label ≠ y := fun h => hparams (h ▸ hid)
          have hlabel := label_rename (x := x) hy (pick [])
          have hturn : (id.rename x y (pick [])).label = turn x y (region.inside x pick own params).picked id.label :=
            hlabel.trans (turn_within_of_mem hy hid region.picked).symm
          have hpicked : (id.rename x y (pick [])).label = turn x y (pick.within x own params picked) id.label :=
            hlabel.trans (turn_within_of_mem hy hid picked).symm
          have hheld : (id.rename x y (pick [])).label = turn x y (pick [] && x ∈ params) id.label :=
            hlabel.trans (turn_holding hy hid).symm
          refine bind (freshVar hr none) ?_
          rintro g r₁ r₁' t t' hlater hr₁ ⟨rfl, rfl⟩
          refine bind (assign hr₁ id (id.rename x y (pick [])) rfl (hheld ▸ hhere id.label hy) _ _) ?_
          rintro g r₂ r₂' scope scope' hlater₂ hr₂ ⟨rfl, rfl, rfl⟩
          have hb := Region.matches_param hr₂.injective hy hturn
            (fun hx => Region.mem_asking_inside (List.mem_append_left _ (hx ▸ hid))) t
          refine bind (ih hr₂ (fun a ha => hps (List.mem_cons_of_mem _ ha)) (.insert (hsees.mono ?_) ?_ fun _ => hb)
            (hhere.insert ?_ hb.alike)) ?_
          · intro a ha
            obtain ⟨ha, hne⟩ := List.mem_filter.mp ha
            obtain ⟨ha, hnot⟩ := List.mem_filter.mp ha
            refine List.mem_filter.mpr ⟨ha, decide_eq_true ?_⟩
            exact List.not_mem_cons_of_ne_of_not_mem (of_decide_eq_true hne) (of_decide_eq_true hnot)
          · intro a _ _
            rw [hpicked]
            exact (turn_injective x y _).eq_iff
          · intro a _
            rw [hheld]
            exact (turn_injective x y _).eq_iff
          · rintro g r₃ r₃' ⟨scope, us⟩ ⟨scope', us'⟩ hlater₃ hr₃ ⟨rfl, ⟨hscope, hhere, rfl⟩, hkeys⟩
            exact pure hr₃ ⟨rfl, ⟨hscope, hhere, congrArg (List.cons · _) (by rw [hturn]; rfl)⟩,
              congrArg (id.label :: ·) hkeys⟩

omit hparams in
/-- The scope of a function without a name. -/
theorem bindArrow {ps : List Pattern} (hps : y ∉ Pattern.allLabels ps)
    (hsees : region.Sees x y picked (names.filter (· ∉ Pattern.allLabels ps)) env env')
    (hadmits : region.admits (region.inside x pick [] (Pattern.allLabels ps))
      (names.filter (· ∉ Pattern.allLabels ps)) = true) :
    Simulates (.renamed n m) f r r' (Infer.bindParams env.child ps)
      (Infer.bindParams env'.child (ps.map (Pattern.rename x y (pick [])))) fun g _ p p' =>
        g = f ∧ region.Opens x y pick [] (Pattern.allLabels ps) picked names f p p' ∧
          Assoc.keys p.2 = Pattern.allLabels ps := by
  have hnil : names.filter (· ∉ Pattern.allLabels ps ++ []) = names.filter (· ∉ Pattern.allLabels ps) := by
    rw [List.append_nil]
  have hinside : (region.inside x pick [] (Pattern.allLabels ps)).Sees x y
      (pick.within x [] (Pattern.allLabels ps) picked) (names.filter (· ∉ Pattern.allLabels ps ++ [])) env env' :=
    .inside (by rwa [hnil]) (by rwa [hnil])
  rw [hnil] at hinside
  exact bindParams hr hps (List.Subset.refl _) hinside (Region.SameHere.child _ _ env env')

omit hparams in
/-- The scope of a function bound to a name. -/
theorem bindDef {id : Ident} (hy : id.label ≠ y) {ps : List Pattern} (hps : y ∉ Pattern.allLabels ps)
    (hsees : region.Sees x y picked (names.filter (· ∉ Pattern.allLabels ps ++ [id.label])) env env')
    (hadmits : region.admits (region.inside x pick [id.label] (Pattern.allLabels ps))
      (names.filter (· ∉ Pattern.allLabels ps ++ [id.label])) = true) :
    Simulates (.renamed n m) f r r' (Infer.bindDef env id ps)
      (Infer.bindDef env' id (ps.map (Pattern.rename x y (pick [])))) fun g _ p p' =>
        g = f ∧ region.Opens x y pick [id.label] (Pattern.allLabels ps) picked names f p p' ∧
          Assoc.keys p.2 = Pattern.allLabels ps := by
  have hown : ∀ outside, id.label ∉ Pattern.allLabels ps →
      turn x y (pick.within x [id.label] (Pattern.allLabels ps) outside) id.label = id.label :=
    fun outside hnot => turn_within_of_own hy hnot (List.mem_singleton_self _) outside
  refine bind (freshVar hr none) ?_
  rintro g r₁ r₁' t t' hlater hr₁ ⟨rfl, rfl⟩
  have hnone : Option.Rel (Bound.Alike fun k => k) (env.child.here? id.label) (env'.child.here? id.label) := .none
  refine bind (assign hr₁ id id rfl hnone _ _) ?_
  rintro g r₂ r₂' scope scope' hlater₂ hr₂ ⟨rfl, rfl, rfl⟩
  have hinside : (region.inside x pick [id.label] (Pattern.allLabels ps)).Sees x y
      (pick.within x [id.label] (Pattern.allLabels ps) picked) (names.filter (· ∉ Pattern.allLabels ps))
      (env.child.insert id.label ⟨id, ⟨[(id.label, t)], t⟩, false⟩)
      (env'.child.insert id.label ⟨id, ⟨[(id.label, t.relabel g fun n => n)], t.relabel g fun n => n⟩, false⟩) := by
    refine .insert ((hsees.inside hadmits).mono ?_) ?_ ?_
    · intro a ha
      obtain ⟨ha, hne⟩ := List.mem_filter.mp ha
      obtain ⟨ha, hnot⟩ := List.mem_filter.mp ha
      refine List.mem_filter.mpr ⟨ha, decide_eq_true ?_⟩
      simpa using And.intro (of_decide_eq_true hnot) (of_decide_eq_true hne)
    · intro a ha ha'
      refine ⟨eq_of_turn_eq ha' hy, ?_⟩
      rintro rfl
      exact hown picked (of_decide_eq_true (List.mem_filter.mp ha).2)
    · intro hmem
      have hnot : id.label ∉ Pattern.allLabels ps := of_decide_eq_true (List.mem_filter.mp hmem).2
      refine Region.matches_param hr₂.injective hy (hown region.picked hnot).symm ?_ t
      exact fun hx => Region.mem_asking_inside (List.mem_append_right _ (List.mem_singleton.mpr hx.symm))
  exact bindParams hr₂ hps (List.Subset.refl _) hinside (Region.SameHere.child _ _ _ _)

end Simulates

end Scopes

end ScriptTypes
