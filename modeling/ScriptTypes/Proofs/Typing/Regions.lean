import Mathlib.Logic.Equiv.Basic
import ScriptTypes.Proofs.Script.Rename
import ScriptTypes.Proofs.Typing.OwnName

/-! Scopes side by side. In the renamed script, a name in sight has a counterpart in sight, which is another name if it
belongs to a picked function. Their typings are the same up to the names that something is asked of, and these depend on
the region: whether it is a picked function or another one that something is asked of under the old name. -/

namespace ScriptTypes

/-- The name that stands for a name. -/
def turn (x y : String) (picked : Bool) : String → String :=
  if picked then Equiv.swap x y else id

section Turn

variable {x y : String}

theorem turn_injective (x y : String) (picked : Bool) : Function.Injective (turn x y picked) := by
  cases picked with
  | false => exact Function.injective_id
  | true => exact (Equiv.swap x y).injective

theorem turn_of_ne {a : String} (hx : a ≠ x) (hy : a ≠ y) (picked : Bool) : turn x y picked a = a := by
  cases picked with
  | false => rfl
  | true => exact Equiv.swap_apply_of_ne_of_ne hx hy

theorem turn_true_left : turn x y true x = y := Equiv.swap_apply_left x y

theorem label_rename {id : Ident} (hy : id.label ≠ y) (picked : Bool) :
    (id.rename x y picked).label = turn x y picked id.label := by
  by_cases hx : id.label = x
  · cases picked with
    | false => simp [Ident.rename, turn]
    | true => rw [hx, turn_true_left, Ident.rename, if_pos ⟨rfl, hx⟩]
  · rw [turn_of_ne hx hy, Ident.rename, if_neg fun h => hx h.2]

variable {pick : Pick} {own params : List String} {a : String} (hy : a ≠ y)

include hy

/-- A name from outside has the same counterpart inside a function. -/
theorem turn_within_of_not_mem (ha : a ∉ params ++ own) (outside : Bool) :
    turn x y (pick.within x own params outside) a = turn x y outside a := by
  by_cases hx : a = x
  · subst hx
    obtain ⟨hparams, hown⟩ := not_or.mp (mt List.mem_append.mpr ha)
    rw [Pick.within, if_neg hparams, decide_eq_true hown, Bool.and_true]
  · rw [turn_of_ne hx hy, turn_of_ne hx hy]

/-- The counterpart of a parameter is what it is renamed to. -/
theorem turn_within_of_mem (ha : a ∈ params) (outside : Bool) :
    turn x y (pick.within x own params outside) a = turn x y (pick []) a := by
  by_cases hx : a = x
  · subst hx
    rw [Pick.within, if_pos ha]
  · rw [turn_of_ne hx hy, turn_of_ne hx hy]

/-- The name of a function is its own counterpart, unless a parameter hides it. -/
theorem turn_within_of_own (ha : a ∉ params) (hown : a ∈ own) (outside : Bool) :
    turn x y (pick.within x own params outside) a = a := by
  by_cases hx : a = x
  · subst hx
    rw [Pick.within, if_neg ha, decide_eq_false (not_not.mpr hown), Bool.and_false]
    rfl
  · exact turn_of_ne hx hy _

/-- Where no parameter is called `x`, none is renamed. -/
theorem turn_holding (ha : a ∈ params) : turn x y (pick [] && x ∈ params) a = turn x y (pick []) a := by
  by_cases hx : a = x
  · subst hx
    rw [decide_eq_true ha, Bool.and_true]
  · rw [turn_of_ne hx hy, turn_of_ne hx hy]

/-- A name that a statement does not bind has the same counterpart after it. -/
theorem turn_past_of_not_mem {bound : List String} (ha : a ∉ bound) (before : Bool) :
    turn x y (before && x ∉ bound) a = turn x y before a := by
  by_cases hx : a = x
  · subst hx
    rw [decide_eq_true ha, Bool.and_true]
  · rw [turn_of_ne hx hy, turn_of_ne hx hy]

/-- Statements bind the same names on both sides. -/
theorem turn_past_of_mem {bound : List String} (ha : a ∈ bound) (before : Bool) :
    turn x y (before && x ∉ bound) a = a := by
  by_cases hx : a = x
  · subst hx
    rw [decide_eq_false (not_not.mpr ha), Bool.and_false]
    rfl
  · exact turn_of_ne hx hy _

theorem eq_of_turn_eq {l : String} (hl : l ≠ y) {picked : Bool} (h : turn x y picked a = l) : a = l := by
  by_cases hx : a = x
  · subst hx
    cases picked with
    | false => exact h
    | true => exact absurd (h.symm.trans turn_true_left) hl
  · rwa [turn_of_ne hx hy] at h

end Turn

theorem Typing.relabel_congr {φ ψ : String → String} {t : Typing VarId} (h : ∀ k ∈ Assoc.keys t.needs, φ k = ψ k)
    (f : Kind → VarId → VarId) (g : Node → Node) : t.relabel φ f g = t.relabel ψ f g :=
  congrArg (Typing.mk · _) (Assoc.rename_congr h _)

theorem Typing.Mirrored.imp {c : Sides} {φ ψ : String → String} {K L : String → Prop} {f : Kind → VarId → VarId}
    {t t' : Typing VarId} (h : t.Mirrored c φ K f t') (hk : ∀ k, K k → φ k = ψ k ∧ L k) : t.Mirrored c ψ L f t' where
  eq := h.eq.trans (Typing.relabel_congr (fun k hkey => (hk k (h.asks k hkey)).1) f c.node)
  asks k hkey := (hk k (h.asks k hkey)).2

theorem Typing.Mirrored.later {c : Sides} {φ : String → String} {K : String → Prop} {f g : Kind → VarId → VarId}
    {s s₁ : Supply} {t t' : Typing VarId} (h : t.Mirrored c φ K f t') (ht : t.Over s.Issued) (hl : Later f s g s₁) :
    t.Mirrored c φ K g t' :=
  ⟨h.eq.trans (ht.relabel_later hl φ c.node).symm, h.asks⟩

theorem Typing.AllMirrored.later {c : Sides} {φ : String → String} {K : String → Prop} {f g : Kind → VarId → VarId}
    {s s₁ : Supply} {ts ts' : List (Typing VarId)} (h : AllMirrored c φ K f ts ts') (hts : ∀ t ∈ ts, t.Over s.Issued)
    (hl : Later f s g s₁) : AllMirrored c φ K g ts ts' :=
  ⟨h.eq.trans (List.map_congr_left fun t ht => ((hts t ht).relabel_later hl φ c.node).symm), h.asks⟩

/-! What is asked. -/

section Asks

variable (x y : String)

/-- What names may ask in a region: nothing of `y`, and something of `x` only if one of them is known to do so. -/
def Region.Asks (region : Region) (names : List String) (k : String) : Prop :=
  k ≠ y ∧ (k = x → ∃ a ∈ names, a ∈ region.asking)

variable {x y} {region : Region} {names : List String} {k : String}

theorem Region.Asks.mono {names' : List String} (h : region.Asks x y names k) (hsub : names ⊆ names') :
    region.Asks x y names' k := by
  refine ⟨h.1, fun hk => ?_⟩
  obtain ⟨a, ha, hasking⟩ := h.2 hk
  exact ⟨a, hsub ha, hasking⟩

/-- What names ask after a statement is asked by the statement, or by names from before it. -/
theorem Region.Asks.of_after {s : Stmt} (h : (region.after s).Asks x y names k) :
    region.Asks x y (s.free ++ names.filter (· ∉ s.bound)) k := by
  refine ⟨h.1, fun hk => ?_⟩
  obtain ⟨a, ha, hasking⟩ := h.2 hk
  simp only [Region.after] at hasking
  split at hasking
  · rename_i hany
    obtain ⟨u, hu, hmem⟩ := List.any_eq_true.mp hany
    exact ⟨u, List.mem_append_left _ hu, of_decide_eq_true hmem⟩
  · obtain ⟨hasking, hnot⟩ := List.mem_filter.mp hasking
    exact ⟨a, List.mem_append_right _ (List.mem_filter.mpr ⟨ha, hnot⟩), hasking⟩

/-- What a name that is not bound by a statement asks after it. -/
theorem Region.Asks.after {s : Stmt} {a : String} (h : region.Asks x y [a] k) (ha : a ∉ s.bound) :
    (region.after s).Asks x y [a] k := by
  refine ⟨h.1, fun hk => ⟨a, List.mem_singleton_self a, ?_⟩⟩
  obtain ⟨u, hu, hasking⟩ := h.2 hk
  cases List.mem_singleton.mp hu
  simp only [Region.after]
  split
  · exact List.mem_append_right _ hasking
  · exact List.mem_filter.mpr ⟨hasking, decide_eq_true ha⟩

/-- What a statement asks is asked by the names that it binds. -/
theorem Region.Asks.bound {s : Stmt} {a : String} (h : region.Asks x y s.free k) (ha : a ∈ s.bound) :
    (region.after s).Asks x y [a] k := by
  refine ⟨h.1, fun hk => ⟨a, List.mem_singleton_self a, ?_⟩⟩
  obtain ⟨u, hu, hasking⟩ := h.2 hk
  have hany : s.free.any (· ∈ region.asking) = true := List.any_eq_true.mpr ⟨u, hu, decide_eq_true hasking⟩
  simp only [Region.after, if_pos hany]
  exact List.mem_append_left _ ha

variable {pick : Pick} {own params : List String}

/-- What the body of a function asks, of a name that the function does not bind. -/
theorem Region.Asks.of_inside (h : (region.inside x pick own params).Asks x y names k) (hk : k ∉ params ++ own) :
    turn x y (region.inside x pick own params).picked k = turn x y region.picked k ∧
      region.Asks x y (names.filter (· ∉ params ++ own)) k := by
  refine ⟨turn_within_of_not_mem h.1 hk region.picked, h.1, ?_⟩
  rintro rfl
  obtain ⟨a, ha, hasking⟩ := h.2 rfl
  simp only [Region.inside, if_neg hk] at hasking
  split at hasking
  · obtain ⟨hasking, hnot⟩ := List.mem_filter.mp hasking
    exact ⟨a, List.mem_filter.mpr ⟨ha, hnot⟩, hasking⟩
  · cases hasking

/-- What a name from outside asks in the body of a function. -/
theorem Region.Asks.inside {a : String} (h : region.Asks x y [a] k) (ha : a ∉ params ++ own)
    (hadmits : region.admits (region.inside x pick own params) names = true) (hmem : a ∈ names) :
    turn x y (region.inside x pick own params).picked k = turn x y region.picked k ∧
      (region.inside x pick own params).Asks x y [a] k := by
  obtain ⟨hk, hx⟩ := h
  simp only [List.mem_singleton, exists_eq_left] at hx
  rcases Bool.or_eq_true_iff.mp hadmits with hsame | hapart
  · have hsame := of_decide_eq_true hsame
    rw [hsame]
    refine ⟨rfl, hk, fun hkx => ⟨a, List.mem_singleton_self a, ?_⟩⟩
    have hkept : a ∈ region.asking.filter (· ∉ params ++ own) := List.mem_filter.mpr ⟨hx hkx, decide_eq_true ha⟩
    simp only [Region.inside] at hsame ⊢
    rw [if_pos hsame]
    split
    · exact List.mem_cons_of_mem _ hkept
    · exact hkept
  · have hnot : a ∉ region.asking := of_decide_eq_true (List.all_eq_true.mp hapart a hmem)
    have hkx : k ≠ x := fun hkx => hnot (hx hkx)
    exact ⟨by rw [turn_of_ne hkx hk, turn_of_ne hkx hk], hk, fun h => absurd h hkx⟩

theorem Region.mem_asking_inside (hx : x ∈ params ++ own) : x ∈ (region.inside x pick own params).asking := by
  simp only [Region.inside, if_pos hx]
  exact List.mem_cons_self

end Asks

/-! Names in sight. -/

/-- A binding and its counterpart. An assumption asks nothing of any name. -/
structure Bound.Alike (φ : String → String) (b b' : Bound VarId) : Prop where
  pos : b'.id.pos = b.id.pos
  assumed : b'.assumed = b.assumed
  typing : ∃ h : Kind → VarId → VarId, (∀ k, Function.Injective (h k)) ∧ b'.typing = b.typing.relabel φ h fun n => n
  stated : b.assumed = true → b.typing.needs = []

section Sees

variable (x y : String)

/-- What a name is bound to, and what its counterpart is bound to. -/
structure Region.Matches (region : Region) (a : String) (b b' : Bound VarId) : Prop where
  alike : b.Alike (turn x y region.picked) b'
  asks : ∀ k ∈ Assoc.keys b.typing.needs, region.Asks x y [a] k

/-- Names in sight, and their counterparts. The names may belong to a picked function. -/
def Region.Sees (region : Region) (picked : Bool) (names : List String) (env env' : Env VarId) : Prop :=
  ∀ a ∈ names, a ≠ y → Option.Rel (region.Matches x y a) (env.get? a) (env'.get? (turn x y picked a))

/-- The innermost layers of two scopes bind the same names, with the same bindings. One may hold a parameter `x` of a
picked function. -/
def Region.SameHere (region : Region) (held : Bool) (env env' : Env VarId) : Prop :=
  ∀ a, a ≠ y → Option.Rel (Bound.Alike (turn x y region.picked)) (env.here? a) (env'.here? (turn x y held a))

/-- What a statement does to the names in sight. It may bind one name, which is the same on both sides. A declaration
binds nothing if its name is assumed already. -/
inductive Region.Binds (region : Region) (s : Stmt) (env env' : Env VarId) : Env VarId → Env VarId → Prop
  | nothing : (∀ l ∈ s.bound, ∃ b b', env.here? l = some b ∧ env'.here? l = some b' ∧
      b.Alike (turn x y region.picked) b' ∧ b.typing.needs = []) → Binds region s env env' env env'
  | name {l : String} {b b' : Bound VarId} : s.bound = [l] → b'.id = b.id → b.Alike (turn x y region.picked) b' →
      (∀ k ∈ Assoc.keys b.typing.needs, region.Asks x y s.free k) →
      Binds region s env env' (env.insert l b) (env'.insert l b')

variable {x y} {region region' : Region} {picked held : Bool} {names : List String} {env env' : Env VarId}

theorem Region.Matches.imp {a : String} {b b' : Bound VarId} (h : region.Matches x y a b b')
    (hk : ∀ k, region.Asks x y [a] k →
      turn x y region'.picked k = turn x y region.picked k ∧ region'.Asks x y [a] k) : region'.Matches x y a b b' where
  alike := by
    obtain ⟨f, hf, heq⟩ := h.alike.typing
    refine ⟨h.alike.pos, h.alike.assumed, ⟨f, hf, heq.trans ?_⟩, h.alike.stated⟩
    exact Typing.relabel_congr (fun k hkey => (hk k (h.asks k hkey)).1.symm) f _
  asks k hkey := (hk k (h.asks k hkey)).2

theorem rel_imp {α β : Type} {R S : α → β → Prop} (h : ∀ a b, R a b → S a b) {o : Option α} {o' : Option β}
    (ho : Option.Rel R o o') : Option.Rel S o o' := by
  cases ho with
  | none => exact .none
  | some hab => exact .some (h _ _ hab)

namespace Region.Sees

theorem mono {names' : List String} (h : region.Sees x y picked names env env') (hsub : names' ⊆ names) :
    region.Sees x y picked names' env env' :=
  fun a ha => h a (hsub ha)

theorem insert {l l' : String} {b b' : Bound VarId} (h : region.Sees x y picked (names.filter (· ≠ l)) env env')
    (hl : ∀ a ∈ names, a ≠ y → (turn x y picked a = l' ↔ a = l)) (hb : l ∈ names → region.Matches x y l b b') :
    region.Sees x y picked names (env.insert l b) (env'.insert l' b') := by
  intro a ha hy
  rw [Env.get?_insert, Env.get?_insert]
  by_cases hal : a = l
  · subst hal
    rw [if_pos rfl, if_pos ((hl a ha hy).mpr rfl)]
    exact .some (hb ha)
  · rw [if_neg hal, if_neg (mt (hl a ha hy).mp hal)]
    exact h a (List.mem_filter.mpr ⟨ha, decide_eq_true hal⟩) hy

/-- The names from outside, in the body of a function. -/
theorem inside {pick : Pick} {own params : List String}
    (h : region.Sees x y picked (names.filter (· ∉ params ++ own)) env env')
    (hadmits : region.admits (region.inside x pick own params) (names.filter (· ∉ params ++ own)) = true) :
    (region.inside x pick own params).Sees x y (pick.within x own params picked)
      (names.filter (· ∉ params ++ own)) env env' := by
  intro a ha hy
  have hnot : a ∉ params ++ own := of_decide_eq_true (List.mem_filter.mp ha).2
  rw [turn_within_of_not_mem hy hnot]
  exact rel_imp (fun b b' hb => hb.imp fun k hk => hk.inside hnot hadmits ha) (h a ha hy)

/-- The names in sight after a statement. -/
theorem after {s : Stmt} (hs : y ∉ s.bound) {env₁ env₁' : Env VarId}
    (h : region.Sees x y picked (names.filter (· ∉ s.bound)) env env') (hb : region.Binds x y s env env' env₁ env₁') :
    (region.after s).Sees x y (picked && x ∉ s.bound) names env₁ env₁' := by
  intro a ha hy
  have hother : a ∉ s.bound → Option.Rel ((region.after s).Matches x y a) (env.get? a)
      (env'.get? (turn x y (picked && x ∉ s.bound) a)) := by
    intro hnot
    rw [turn_past_of_not_mem hy hnot]
    refine rel_imp (fun b b' hb => hb.imp fun k hk => ⟨rfl, hk.after hnot⟩) (h a ?_ hy)
    exact List.mem_filter.mpr ⟨ha, decide_eq_true hnot⟩
  cases hb with
  | nothing hbound =>
      by_cases hmem : a ∈ s.bound
      · obtain ⟨b, b', hb, hb', halike, hneeds⟩ := hbound a hmem
        rw [turn_past_of_mem hy hmem, Env.get?_of_here? hb, Env.get?_of_here? hb']
        refine .some ⟨halike, ?_⟩
        rw [hneeds]
        nofun
      · exact hother hmem
  | @name l b b' hbound hid halike hasks =>
      have hiff : a ∈ s.bound ↔ a = l := by rw [hbound, List.mem_singleton]
      have hl : l ≠ y := fun h => hs (by rw [hbound, h]; exact List.mem_singleton_self y)
      rw [Env.get?_insert, Env.get?_insert]
      by_cases hal : a = l
      · rw [turn_past_of_mem hy (hiff.mpr hal), if_pos hal, if_pos hal]
        exact .some ⟨halike, fun k hk => (hasks k hk).bound (hiff.mpr hal)⟩
      · rw [if_neg hal, if_neg fun h => hal (eq_of_turn_eq hy hl h)]
        exact hother (mt hiff.mp hal)

end Region.Sees

namespace Region.SameHere

theorem child (region : Region) (held : Bool) (env env' : Env VarId) :
    region.SameHere x y held env.child env'.child := fun _ _ => .none

theorem insert (h : region.SameHere x y held env env') {l l' : String}
    (hl : ∀ a, a ≠ y → (turn x y held a = l' ↔ a = l)) {b b' : Bound VarId} (hb : b.Alike (turn x y region.picked) b') :
    region.SameHere x y held (env.insert l b) (env'.insert l' b') := by
  intro a hy
  rw [Env.here?_insert, Env.here?_insert]
  by_cases hal : a = l
  · rw [if_pos hal, if_pos ((hl a hy).mpr hal)]
    exact .some hb
  · rw [if_neg hal, if_neg (mt (hl a hy).mp hal)]
    exact h a hy

/-- A name that is declared. -/
theorem declared (h : region.SameHere x y held env env') {l : String} (hy : l ≠ y) (hl : (held && x ∈ [l]) = false) :
    Option.Rel (Bound.Alike (turn x y region.picked)) (env.here? l) (env'.here? l) := by
  have hturn : turn x y held l = l := by
    by_cases hx : l = x
    · rw [decide_eq_true (List.mem_singleton.mpr hx.symm), Bool.and_true] at hl
      rw [hl]
      rfl
    · exact turn_of_ne hx hy held
  have hhere := h l hy
  rwa [hturn] at hhere

/-- The innermost layers after a statement. -/
theorem after {s : Stmt} (hs : y ∉ s.bound) {env₁ env₁' : Env VarId} (h : region.SameHere x y held env env')
    (hb : region.Binds x y s env env' env₁ env₁') :
    (region.after s).SameHere x y (held && x ∉ s.bound) env₁ env₁' := by
  intro a hy
  have hother : a ∉ s.bound → Option.Rel (Bound.Alike (turn x y region.picked)) (env.here? a)
      (env'.here? (turn x y (held && x ∉ s.bound) a)) := by
    intro hnot
    rw [turn_past_of_not_mem hy hnot]
    exact h a hy
  cases hb with
  | nothing hbound =>
      by_cases hmem : a ∈ s.bound
      · obtain ⟨b, b', hb, hb', halike, -⟩ := hbound a hmem
        rw [turn_past_of_mem hy hmem, hb, hb']
        exact .some halike
      · exact hother hmem
  | @name l b b' hbound hid halike hasks =>
      have hiff : a ∈ s.bound ↔ a = l := by rw [hbound, List.mem_singleton]
      have hl : l ≠ y := fun h => hs (by rw [hbound, h]; exact List.mem_singleton_self y)
      rw [Env.here?_insert, Env.here?_insert]
      by_cases hal : a = l
      · rw [turn_past_of_mem hy (hiff.mpr hal), if_pos hal, if_pos hal]
        exact .some halike
      · rw [if_neg hal, if_neg fun h => hal (eq_of_turn_eq hy hl h)]
        exact hother (mt hiff.mp hal)

end Region.SameHere

end Sees

end ScriptTypes
