import ScriptTypes.Proofs.Script.Relocate
import ScriptTypes.Proofs.Typing.Over
import ScriptTypes.Proofs.Unify.Relabel

/-! Two runs of inference side by side. The second one is over other variables and nodes, asks the same of renamed
names, and may have another limit of steps. The one with the lower limit has to come to an end. Then both return, with
the same up to the renaming, or both fail in the same way at the same place. -/

namespace ScriptTypes

/-- How two runs are set up. The second script has other nodes and positions, and it may have other names. -/
structure Sides where
  steps : Nat
  steps' : Nat
  /-- Whether it is the first run that is known to end, and the second one otherwise. -/
  first : Bool
  lower : (first = true → steps ≤ steps') ∧ (first = false → steps' ≤ steps)
  node : Node → Node
  pos : Position → Position
  pos_node : ∀ n, (node n).pos = pos n.pos
  pos_none : pos none = none
  /-- Names and variables are kept. -/
  kept : Prop

/-- A renaming of names that something is asked of. -/
structure Sides.Names (c : Sides) (φ : String → String) : Prop where
  injective : Function.Injective φ
  kept : c.kept → φ = id

/-- A renaming of variables between two supplies. -/
structure Sides.Renames (c : Sides) (f : Kind → VarId → VarId) (s s' : Supply) : Prop extends s.Renames f s' where
  kept : c.kept → f = fun _ v => v

/-! Failures. -/

section Alike

variable (c : Sides) (f : Kind → VarId → VarId)

/-- Typings that are the same up to variables and the names that something is asked of. -/
def Typing.AllAlike (ts ts' : List (Typing VarId)) : Prop :=
  ∃ φ, c.Names φ ∧ ts' = ts.map (Typing.relabel φ f c.node)

/-- The same kind of error at the same nodes, about types that are equal up to variables. Which argument is to blame
depends on the nodes that types come from. -/
def TypeError.Alike : TypeError VarId → TypeError VarId → Prop
  | .mismatch l r, .mismatch l' r' => l' = l.relabel f c.node ∧ r' = r.relabel f c.node
  | .callArgument call callee t args bad cause, .callArgument call' callee' t' args' bad' cause' =>
      (call' = c.node call ∧ callee' = c.node callee ∧ (Function.Injective c.node → bad' = bad)) ∧
        Typing.AllAlike c f (t :: args) (t' :: args') ∧ cause.Alike cause'
  | .arrayLiteral node elems cause, .arrayLiteral node' elems' cause' =>
      node' = c.node node ∧ Typing.AllAlike c f elems elems' ∧ cause.Alike cause'
  | .noSuchProperty node t label, .noSuchProperty node' t' label' =>
      node' = c.node node ∧ t' = t.relabel f c.node ∧ label' = label.relocate c.pos
  | .notAnObject node t label, .notAnObject node' t' label' =>
      node' = c.node node ∧ t' = t.relabel f c.node ∧ label' = label.relocate c.pos
  | _, _ => False

/-- The same kind of error at the same place. -/
def ScopeError.Alike : ScopeError VarId → ScopeError VarId → Prop
  | .unbound id names, .unbound id' names' =>
      id'.pos = c.pos id.pos ∧ (c.kept → id'.label = id.label ∧ names' = names)
  | .alreadyDefined id previous, .alreadyDefined id' previous' =>
      id'.pos = c.pos id.pos ∧ previous' = c.pos previous ∧ (c.kept → id'.label = id.label)
  | .unsupported text pos, .unsupported text' pos' => text' = text ∧ pos' = c.pos pos
  | .duplicateLabel label previous, .duplicateLabel label' previous' =>
      label' = label.relocate c.pos ∧ previous' = c.pos previous
  | .invalidKey pos, .invalidKey pos' => pos' = c.pos pos
  | .invalidAssumption text pos, .invalidAssumption text' pos' => text' = text ∧ pos' = c.pos pos
  | .multipleRowVars pos t, .multipleRowVars pos' t' => pos' = c.pos pos ∧ t' = t.relabel f c.node
  | _, _ => False

/-- Neither run has met its limit of steps, and both have failed alike. -/
def Failure.Alike : Failure VarId → Failure VarId → Prop
  | .type e, .type e' => e.Alike c f e'
  | .scope e, .scope e' => e.Alike c f e'
  | _, _ => False

theorem Ty.pos_relabel (t : Ty VarId) : (t.relabel f c.node).pos = c.pos t.pos := by
  rw [Ty.pos, Ty.pos, Ty.src_relabel]
  cases t.src with
  | none => exact c.pos_none.symm
  | some n => exact c.pos_node n

theorem UnifyError.plain_alike (e : UnifyError VarId) : e.plain.Alike c f (e.relabel f c.node).plain := by
  cases e with
  | mismatch l r => exact ⟨rfl, rfl⟩
  | multipleRowVars t => exact ⟨Ty.pos_relabel c f t, rfl⟩

end Alike

/-! Side by side. -/

/-- A renaming that goes on as another one, which was right for what a supply had handed out before. -/
structure Later (f : Kind → VarId → VarId) (s : Supply) (g : Kind → VarId → VarId) (s₁ : Supply) : Prop where
  le : s.Le s₁
  agrees : ∀ x, s.Issued x → g x.1 x.2 = f x.1 x.2

theorem Later.refl (f : Kind → VarId → VarId) (s : Supply) : Later f s f s := ⟨.refl s, fun _ _ => rfl⟩

theorem Later.of_le (f : Kind → VarId → VarId) {s s₁ : Supply} (h : s.Le s₁) : Later f s f s₁ := ⟨h, fun _ _ => rfl⟩

theorem Later.trans {f g h : Kind → VarId → VarId} {s s₁ s₂ : Supply} (hfg : Later f s g s₁) (hgh : Later g s₁ h s₂) :
    Later f s h s₂ :=
  ⟨hfg.le.trans hgh.le, fun x hx => (hgh.agrees x (growing_issued.mono hfg.le hx)).trans (hfg.agrees x hx)⟩

theorem Ty.Over.relabel_later {f g : Kind → VarId → VarId} {s s₁ : Supply} {t : Ty VarId} (ht : t.Over s.Issued)
    (h : Later f s g s₁) (node : Node → Node) : t.relabel g node = t.relabel f node :=
  Ty.relabel_congr fun x hx => h.agrees x (ht.vars x hx)

theorem Assoc.rename_later {f g : Kind → VarId → VarId} {s s₁ : Supply} {es : Assoc (Ty VarId)}
    (hes : ∀ e ∈ es, e.2.Over s.Issued) (h : Later f s g s₁) (φ : String → String) (node : Node → Node) :
    Assoc.rename φ (Ty.relabel g node) es = Assoc.rename φ (Ty.relabel f node) es :=
  List.map_congr_left fun e he => congrArg (Prod.mk (φ e.1)) ((hes e he).relabel_later h node)

theorem Typing.Over.relabel_later {f g : Kind → VarId → VarId} {s s₁ : Supply} {t : Typing VarId}
    (ht : t.Over s.Issued) (h : Later f s g s₁) (φ : String → String) (node : Node → Node) :
    t.relabel φ g node = t.relabel φ f node :=
  congrArg₂ Typing.mk (Assoc.rename_later ht.needs h φ node) (ht.type.relabel_later h node)

/-- A typing under renamed names and variables, which asks something only of certain names. -/
structure Typing.Mirrored (c : Sides) (φ : String → String) (K : String → Prop) (f : Kind → VarId → VarId)
    (t t' : Typing VarId) : Prop where
  eq : t' = t.relabel φ f c.node
  asks : ∀ k ∈ Assoc.keys t.needs, K k

structure Typing.AllMirrored (c : Sides) (φ : String → String) (K : String → Prop) (f : Kind → VarId → VarId)
    (ts ts' : List (Typing VarId)) : Prop where
  eq : ts' = ts.map (Typing.relabel φ f c.node)
  asks : ∀ t ∈ ts, ∀ k ∈ Assoc.keys t.needs, K k

theorem Typing.AllMirrored.cons {c : Sides} {φ : String → String} {K : String → Prop} {f : Kind → VarId → VarId}
    {t t' : Typing VarId} {ts ts' : List (Typing VarId)} (h : t.Mirrored c φ K f t') (hs : AllMirrored c φ K f ts ts') :
    AllMirrored c φ K f (t :: ts) (t' :: ts') where
  eq := by rw [h.eq, hs.eq, List.map_cons]
  asks := List.forall_mem_cons.mpr ⟨h.asks, hs.asks⟩

theorem Typing.AllMirrored.needs {c : Sides} {φ : String → String} {K : String → Prop} {f : Kind → VarId → VarId}
    {ts ts' : List (Typing VarId)} (h : AllMirrored c φ K f ts ts') :
    ts'.map Typing.needs = (ts.map Typing.needs).map (Assoc.rename φ (Ty.relabel f c.node)) ∧
      ∀ env ∈ ts.map Typing.needs, ∀ k ∈ Assoc.keys env, K k := by
  refine ⟨?_, List.forall_mem_map.mpr h.asks⟩
  rw [h.eq, List.map_map, List.map_map]
  rfl

theorem Typing.AllMirrored.types {c : Sides} {φ : String → String} {K : String → Prop} {f : Kind → VarId → VarId}
    {ts ts' : List (Typing VarId)} (h : AllMirrored c φ K f ts ts') :
    ts'.map Typing.type = ts.map fun t => t.type.relabel f c.node := by
  rw [h.eq, List.map_map]
  rfl

/-- A computation does not meet its limit of steps. -/
def Infer.Finishes {α : Type} (x : Infer α) (r : Run) : Prop :=
  (x.outcome r).1 ≠ .error .unfinished

/-- Both have returned, with results that are related under a renaming that goes on as the given one, or both have
failed alike. -/
inductive Mirrored {α β : Type} (c : Sides) (f : Kind → VarId → VarId) (s : Supply)
    (Q : (Kind → VarId → VarId) → Run → α → β → Prop) :
    Except (Failure VarId) α × Run → Except (Failure VarId) β × Run → Prop
  | ok {g : Kind → VarId → VarId} {a : α} {b : β} {r r' : Run} : Later f s g r.supply →
      c.Renames g r.supply r'.supply → Q g r a b → Mirrored c f s Q (.ok a, r) (.ok b, r')
  | error {g : Kind → VarId → VarId} {e e' : Failure VarId} (r r' : Run) : (∀ k, Function.Injective (g k)) →
      (c.kept → g = fun _ v => v) → e.Alike c g e' → Mirrored c f s Q (.error e, r) (.error e', r')

theorem Mirrored.later {α β : Type} {c : Sides} {f g : Kind → VarId → VarId} {s s₁ : Supply}
    {Q : (Kind → VarId → VarId) → Run → α → β → Prop} {o : Except (Failure VarId) α × Run}
    {o' : Except (Failure VarId) β × Run} (h : Mirrored c g s₁ Q o o') (hl : Later f s g s₁) :
    Mirrored c f s Q o o' := by
  cases h with
  | ok hlater hr hq => exact .ok (hl.trans hlater) hr hq
  | error r r' hg hkept he => exact .error r r' hg hkept he

theorem Mirrored.imp {α β : Type} {c : Sides} {f : Kind → VarId → VarId} {s : Supply}
    {Q R : (Kind → VarId → VarId) → Run → α → β → Prop} {o : Except (Failure VarId) α × Run}
    {o' : Except (Failure VarId) β × Run} (h : Mirrored c f s Q o o')
    (hQR : ∀ {g r a b} {r' : Run}, o = (.ok a, r) → Later f s g r.supply → c.Renames g r.supply r'.supply →
      Q g r a b → R g r a b) : Mirrored c f s R o o' := by
  cases h with
  | ok hlater hr hq => exact .ok hlater hr (hQR rfl hlater hr hq)
  | error r r' hg hkept he => exact .error r r' hg hkept he

/-- From two runs, the computation that is known to finish is mirrored by the other one. -/
def Simulates {α β : Type} (c : Sides) (f : Kind → VarId → VarId) (r r' : Run) (x : Infer α) (x' : Infer β)
    (Q : (Kind → VarId → VarId) → Run → α → β → Prop) : Prop :=
  (c.first = true → x.Finishes r) → (c.first = false → x'.Finishes r') →
    Mirrored c f r.supply Q (x.outcome r) (x'.outcome r')

theorem Infer.Finishes.of_bind {α β : Type} {x : Infer α} {k : α → Infer β} {r : Run} (h : (x >>= k).Finishes r) :
    x.Finishes r := by
  unfold Finishes at h ⊢
  rw [outcome_bind] at h
  cases ho : x.outcome r with
  | mk result r₁ =>
      rw [ho] at h
      cases result with
      | ok a => nofun
      | error e =>
          intro he
          cases he
          exact h rfl

theorem Infer.Finishes.of_bind_ok {α β : Type} {x : Infer α} {k : α → Infer β} {r r₁ : Run} {a : α}
    (h : (x >>= k).Finishes r) (ho : x.outcome r = (.ok a, r₁)) : (k a).Finishes r₁ := by
  unfold Finishes at h ⊢
  rwa [outcome_bind, ho] at h

/-- A script that does not meet its limit of steps does not do so in its first statement. -/
theorem Infer.Finishes.of_script {steps : Nat} {b b₁ : Block} {s : Stmt} {ss : List Stmt} {r r₁ : Run}
    {error : Option (Failure VarId)} (h : script steps b (s :: ss) r = ((b₁, error), r₁))
    (he : error ≠ some .unfinished) : (stmt steps .top b s).Finishes r := by
  intro hfin
  rw [script_cons] at h
  cases ho : (stmt steps .top b s).outcome r with
  | mk result r' =>
      rw [ho] at h hfin
      cases hfin
      cases h
      exact he rfl

namespace Simulates

variable {α β γ δ : Type} {c : Sides} {f : Kind → VarId → VarId} {r r' : Run}

theorem pure (hr : c.Renames f r.supply r'.supply) {a : α} {b : β} {Q : (Kind → VarId → VarId) → Run → α → β → Prop}
    (h : Q f r a b) : Simulates c f r r' (pure a) (pure b) Q :=
  fun _ _ => .ok (.refl f r.supply) hr h

theorem throw (hr : c.Renames f r.supply r'.supply) {e e' : Failure VarId}
    {Q : (Kind → VarId → VarId) → Run → α → β → Prop} (h : e.Alike c f e') :
    Simulates c f r r' (throw e) (throw e') Q :=
  fun _ _ => .error r r' hr.injective hr.kept h

theorem fail (hr : c.Renames f r.supply r'.supply) {e e' : ScopeError VarId}
    {Q : (Kind → VarId → VarId) → Run → α → β → Prop} (h : e.Alike c f e') :
    Simulates c f r r' (Infer.fail e) (Infer.fail e') Q :=
  throw hr h

theorem unsupported (hr : c.Renames f r.supply r'.supply) (text : String) (pos : Position)
    {Q : (Kind → VarId → VarId) → Run → α → β → Prop} :
    Simulates c f r r' (Infer.unsupported text pos) (Infer.unsupported text (c.pos pos)) Q :=
  fail hr ⟨rfl, rfl⟩

theorem bind {x : Infer α} {x' : Infer β} {k : α → Infer γ} {k' : β → Infer δ}
    {Q : (Kind → VarId → VarId) → Run → α → β → Prop} {R : (Kind → VarId → VarId) → Run → γ → δ → Prop}
    (hx : Simulates c f r r' x x' Q)
    (hk : ∀ {g r₁ r₁' a b}, Later f r.supply g r₁.supply → c.Renames g r₁.supply r₁'.supply → Q g r₁ a b →
      Simulates c g r₁ r₁' (k a) (k' b) R) : Simulates c f r r' (x >>= k) (x' >>= k') R := by
  intro hfin hfin'
  have hmirror := hx (fun h => (hfin h).of_bind) (fun h => (hfin' h).of_bind)
  have hok : ∀ a r₁, x.outcome r = (.ok a, r₁) → c.first = true → (k a).Finishes r₁ :=
    fun a r₁ ho h => (hfin h).of_bind_ok ho
  have hok' : ∀ b r₁', x'.outcome r' = (.ok b, r₁') → c.first = false → (k' b).Finishes r₁' :=
    fun b r₁' ho h => (hfin' h).of_bind_ok ho
  rw [Infer.outcome_bind, Infer.outcome_bind]
  generalize x.outcome r = o at hmirror hok
  generalize x'.outcome r' = o' at hmirror hok'
  cases hmirror with
  | error r₁ r₁' hg hkept he => exact .error r₁ r₁' hg hkept he
  | ok hlater hr₁ hq => exact (hk hlater hr₁ hq (hok _ _ rfl) (hok' _ _ rfl)).later hlater

theorem imp {x : Infer α} {x' : Infer β} {Q R : (Kind → VarId → VarId) → Run → α → β → Prop}
    (hx : Simulates c f r r' x x' Q)
    (h : ∀ {g r₁ a b} {r₁' : Run}, Later f r.supply g r₁.supply → c.Renames g r₁.supply r₁'.supply → Q g r₁ a b →
      R g r₁ a b) :
    Simulates c f r r' x x' R := by
  intro hfin hfin'
  exact (hx hfin hfin').imp fun _ => h

/-- What the first computation ensures by itself. -/
theorem ensures {x : Infer α} {x' : Infer β} {Q : (Kind → VarId → VarId) → Run → α → β → Prop} {P : Run → α → Prop}
    (hx : Simulates c f r r' x x' Q) (he : Ensures Supply.Issued r x P) :
    Simulates c f r r' x x' fun g r₁ a b => Q g r₁ a b ∧ P r₁ a := by
  intro hfin hfin'
  refine (hx hfin hfin').imp ?_
  intro g r₁ a b _ ho _ _ hq
  have hok := he.2.1 a
  rw [ho] at hok
  exact ⟨hq, hok rfl⟩

theorem lift (hr : c.Renames f r.supply r'.supply) {x : Except (ScopeError VarId) α} {x' : Except (ScopeError VarId) β}
    {Q : (Kind → VarId → VarId) → Run → α → β → Prop}
    (h : (∃ a b, x = .ok a ∧ x' = .ok b ∧ Q f r a b) ∨ ∃ e e', x = .error e ∧ x' = .error e' ∧ e.Alike c f e') :
    Simulates c f r r' (Infer.lift x) (Infer.lift x') Q := by
  rcases h with ⟨a, b, rfl, rfl, h⟩ | ⟨e, e', rfl, rfl, h⟩
  · exact pure hr h
  · exact fail hr h

theorem freshVar (hr : c.Renames f r.supply r'.supply) (src : Option Node) :
    Simulates c f r r' (Infer.freshVar src) (Infer.freshVar (src.map c.node)) fun g _ t t' =>
      g = f ∧ t' = t.relabel f c.node := by
  obtain ⟨hnext, hlater⟩ := hr.next .type
  refine fun _ _ => .ok (.of_le f (r.supply.le_next .type)) ⟨hlater, hr.kept⟩ ⟨rfl, ?_⟩
  rw [Ty.relabel_var]
  exact congrArg (Ty.var · (src.map c.node)) hnext

theorem freshRowVar (hr : c.Renames f r.supply r'.supply) (src : Option Node) :
    Simulates c f r r' (Infer.freshRowVar src) (Infer.freshRowVar (src.map c.node)) fun g _ v v' =>
      g = f ∧ v' = v.relabel f c.node := by
  obtain ⟨hnext, hlater⟩ := hr.next .row
  refine fun _ _ => .ok (.of_le f (r.supply.le_next .row)) ⟨hlater, hr.kept⟩ ⟨rfl, ?_⟩
  exact congrArg (RowVar.mk · (src.map c.node)) hnext

/-- Copies of a typing and of the renamed typing. -/
theorem instantiate {V W : Type} [DecidableEq V] [DecidableEq W] (hr : c.Renames f r.supply r'.supply)
    {h : Kind → V → W} (hh : ∀ k, Function.Injective (h k)) (φ : String → String) (t : Typing V) :
    Simulates c f r r' (Infer.instantiate t) (Infer.instantiate (t.relabel φ h c.node)) fun g _ u u' =>
      g = f ∧ u' = u.relabel φ f c.node ∧ Assoc.keys u.needs = Assoc.keys t.needs := by
  obtain ⟨hu, hlater⟩ := Typing.instantiate_relabel hh hr.toRenames φ c.node t
  intro _ _
  rw [Infer.outcome_instantiate, Infer.outcome_instantiate]
  exact .ok (.of_le f (t.instantiate_le r.supply)) ⟨hlater, hr.kept⟩ ⟨rfl, hu, t.keys_instantiate r.supply⟩

/-- Settling a problem and the renamed problem. -/
theorem settle (hr : c.Renames f r.supply r'.supply) {φ : String → String} (hφ : c.Names φ)
    {needs : List (Requirements VarId)} {extra : List (Constraint VarId)}
    {explain explain' : UnifyError VarId → Failure VarId}
    (hexplain : ∀ e, (explain e).Alike c f (explain' (e.relabel f c.node))) :
    Simulates c f r r' (Infer.settle c.steps needs extra explain)
      (Infer.settle c.steps' (needs.map (Assoc.rename φ (Ty.relabel f c.node)))
        (extra.map (Constraint.relabel f c.node)) explain')
      fun g _ bs bs' => g = f ∧ bs' = bs.map (Binding.relabel f c.node) := by
  have hstart := Problem.start_renamed (g := c.node) hφ.injective hr.toRenames needs extra
  have hle := (Problem.le_start ⟨r.supply, needs, extra⟩).trans (Solving.outcome_le _ c.steps)
  intro hfin hfin'
  unfold Infer.Finishes at hfin hfin'
  rw [Infer.outcome_settle] at hfin hfin' ⊢
  rw [Infer.outcome_settle]
  obtain ⟨hne, hsolution, hsupply⟩ := hstart.outcome_of_lower c.lower
    (fun h he => hfin h (by rw [he])) (fun h he => hfin' h (by rw [he]))
  rw [hsolution]
  cases ho : ((Problem.start ⟨r.supply, needs, extra⟩).outcome c.steps).1 with
  | solved bs => exact .ok (.of_le f hle) ⟨hsupply, hr.kept⟩ ⟨rfl, rfl⟩
  | failed e => exact .error _ _ hr.injective hr.kept (hexplain e)
  | unfinished => exact absurd ho hne

section Rules

variable (hr : c.Renames f r.supply r'.supply) {φ : String → String} (hφ : c.Names φ) {K : String → Prop}

include hr hφ

/-- The common part of the rules. -/
theorem combine {needs needs' : List (Requirements VarId)} {extra extra' : List (Constraint VarId)}
    {explain explain' : UnifyError VarId → Failure VarId} {type type' : List (Binding VarId) → Ty VarId}
    (hneeds : needs' = needs.map (Assoc.rename φ (Ty.relabel f c.node)))
    (hextra : extra' = extra.map (Constraint.relabel f c.node))
    (hexplain : ∀ e, (explain e).Alike c f (explain' (e.relabel f c.node)))
    (htype : ∀ bs, type' (bs.map (Binding.relabel f c.node)) = (type bs).relabel f c.node)
    (hasks : ∀ env ∈ needs, ∀ k ∈ Assoc.keys env, K k) :
    Simulates c f r r'
      (do
        let bs ← Infer.settle c.steps needs extra explain
        return ⟨Requirements.joinUnder bs needs, type bs⟩)
      (do
        let bs ← Infer.settle c.steps' needs' extra' explain'
        return ⟨Requirements.joinUnder bs needs', type' bs⟩)
      fun g _ => Typing.Mirrored c φ K g := by
  subst hneeds hextra
  refine bind (settle hr hφ hexplain) ?_
  rintro g r₁ r₁' bs bs' hlater hr₁ ⟨rfl, rfl⟩
  refine pure hr₁ ⟨?_, ?_⟩
  · exact congrArg₂ Typing.mk (Requirements.joinUnder_rename hφ.injective hr₁.injective bs needs) (htype bs)
  · intro k hk
    obtain ⟨t, ht⟩ := Assoc.mem_keys.mp (Requirements.mem_keys_joinUnder.mp hk)
    obtain ⟨env, henv, ht⟩ := List.mem_flatten.mp ht
    exact hasks env henv k (Assoc.mem_keys_of_mem ht)

theorem binaryTyping {node leftNode rightNode : Node} {op : BinaryOp} {a a' b b' : Typing VarId}
    (ha : a.Mirrored c φ K f a') (hb : b.Mirrored c φ K f b') :
    Simulates c f r r' (Infer.binaryTyping c.steps node op leftNode rightNode a b)
      (Infer.binaryTyping c.steps' (c.node node) op (c.node leftNode) (c.node rightNode) a' b')
      fun g _ => Typing.Mirrored c φ K g := by
  obtain ⟨rfl, ha⟩ := ha
  obtain ⟨rfl, hb⟩ := hb
  have hasks : ∀ env ∈ [a.needs, b.needs], ∀ k ∈ Assoc.keys env, K k :=
    List.forall_mem_cons.mpr ⟨ha, List.forall_mem_singleton.mpr hb⟩
  have htype : ∀ l, Ty.leaf l (some (c.node node)) = (Ty.leaf l (some node)).relabel f c.node :=
    fun l => (Ty.relabel_leaf f c.node l (some node)).symm
  unfold Infer.binaryTyping
  simp only
  split
  · refine combine hr hφ rfl ?_ (UnifyError.plain_alike c f) (fun _ => htype .num) hasks
    simp [Constraint.relabel, Typing.relabel]
  · refine bind (freshVar hr (some node)) ?_
    rintro g r₁ r₁' t t' hlater hr₁ ⟨rfl, rfl⟩
    exact combine hr₁ hφ rfl rfl (UnifyError.plain_alike c _) (fun _ => htype .bool) hasks

theorem templateTyping {node : Node} {ts ts' : List (Typing VarId)} (h : Typing.AllMirrored c φ K f ts ts') :
    Simulates c f r r' (Infer.templateTyping c.steps node ts) (Infer.templateTyping c.steps' (c.node node) ts')
      fun g _ => Typing.Mirrored c φ K g :=
  combine hr hφ h.needs.1 rfl (UnifyError.plain_alike c f) (fun _ => (Ty.relabel_leaf f c.node .str (some node)).symm)
    h.needs.2

theorem conditionalTyping {node : Node} {t t' a a' b b' : Typing VarId} (ht : t.Mirrored c φ K f t')
    (ha : a.Mirrored c φ K f a') (hb : b.Mirrored c φ K f b') :
    Simulates c f r r' (Infer.conditionalTyping c.steps node t a b)
      (Infer.conditionalTyping c.steps' (c.node node) t' a' b') fun g _ => Typing.Mirrored c φ K g := by
  obtain ⟨rfl, ht⟩ := ht
  obtain ⟨rfl, ha⟩ := ha
  obtain ⟨rfl, hb⟩ := hb
  refine combine hr hφ rfl ?_ (UnifyError.plain_alike c f) (Ty.under_relabel hr.injective c.node a.type) ?_
  · simp [Constraint.relabel, Typing.relabel]
  · exact List.forall_mem_cons.mpr ⟨ht, List.forall_mem_cons.mpr ⟨ha, List.forall_mem_singleton.mpr hb⟩⟩

omit hr in
theorem inArray_alike {node : Node} {ts ts' : List (Typing VarId)} (h : Typing.AllMirrored c φ K f ts ts')
    (e : UnifyError VarId) : (e.inArray node ts).Alike c f ((e.relabel f c.node).inArray (c.node node) ts') := by
  cases e with
  | mismatch l r => exact ⟨rfl, ⟨φ, hφ, h.eq⟩, rfl, rfl⟩
  | multipleRowVars t => exact UnifyError.plain_alike c f (.multipleRowVars t)

theorem arrayTyping {node : Node} {ts ts' : List (Typing VarId)} (h : Typing.AllMirrored c φ K f ts ts') :
    Simulates c f r r' (Infer.arrayTyping c.steps node ts) (Infer.arrayTyping c.steps' (c.node node) ts')
      fun g _ => Typing.Mirrored c φ K g := by
  refine bind (freshVar hr (some node)) ?_
  rintro g r₁ r₁' elem elem' hlater hr₁ ⟨rfl, rfl⟩
  refine combine hr₁ hφ h.needs.1 ?_ (inArray_alike hφ h) ?_ h.needs.2
  · rw [h.eq, List.map_map, List.map_map]
    rfl
  · intro bs
    rw [Ty.under_relabel hr₁.injective, Ty.relabel_array]
    rfl

theorem objectTyping {node : Node} {ps ps' : List (String × Typing VarId)}
    (heq : ps' = Assoc.mapValues (Typing.relabel φ f c.node) ps) (hasks : ∀ p ∈ ps, ∀ k ∈ Assoc.keys p.2.needs, K k) :
    Simulates c f r r' (Infer.objectTyping c.steps node ps) (Infer.objectTyping c.steps' (c.node node) ps')
      fun g _ => Typing.Mirrored c φ K g := by
  subst heq
  refine combine hr hφ ?_ rfl (UnifyError.plain_alike c f) ?_ (List.forall_mem_map.mpr hasks)
  · simp only [Assoc.mapValues, List.map_map]
    rfl
  · intro bs
    rw [← Ty.withSrc_relabel, Ty.relabel_ofFields, Assoc.mapValues, Assoc.mapValues, List.map_map, List.map_map]
    refine congrArg (fun fs => (Ty.ofFields fs none).withSrc (some (c.node node))) (List.map_congr_left ?_)
    intro p _
    exact Prod.ext rfl (Ty.under_relabel hr.injective c.node p.2.type bs)

omit hφ in
theorem sameIndex?_relabel (left right : Ty VarId) (i : Nat) (args : List (Typing VarId)) :
    Id.run (UnifyError.sameIndex? (left.relabel f c.node) (right.relabel f c.node) i
      (args.map (Typing.relabel φ f c.node))) = Id.run (UnifyError.sameIndex? left right i args) := by
  induction args generalizing i with
  | nil => rfl
  | cons arg args ih =>
      have hl := Ty.same_relabel_of_injective hr.injective c.node arg.type left
      have hri := Ty.same_relabel_of_injective hr.injective c.node arg.type right
      rw [List.map_cons, UnifyError.sameIndex?, UnifyError.sameIndex?]
      change (if Id.run ((arg.type.relabel f c.node).same (left.relabel f c.node)) = true then Pure.pure (some i)
        else if Id.run ((arg.type.relabel f c.node).same (right.relabel f c.node)) = true then Pure.pure (some i)
        else UnifyError.sameIndex? (left.relabel f c.node) (right.relabel f c.node) (i + 1)
          (args.map (Typing.relabel φ f c.node)) : Id _) =
        (if Id.run (arg.type.same left) = true then Pure.pure (some i)
        else if Id.run (arg.type.same right) = true then Pure.pure (some i)
        else UnifyError.sameIndex? left right (i + 1) args : Id _)
      rw [hl, hri]
      split
      · rfl
      · split
        · rfl
        · exact ih (i + 1)

omit hφ in
/-- Where nodes are kept apart, the same argument is to blame. -/
theorem badArg?_relabel (hnode : Function.Injective c.node) (left right : Ty VarId) (args : List (Typing VarId)) :
    Id.run (UnifyError.badArg? (left.relabel f c.node) (right.relabel f c.node)
      (args.map (Typing.relabel φ f c.node))) = Id.run (UnifyError.badArg? left right args) := by
  have hsrc : ∀ s s' : Option Node, (s.map c.node == s'.map c.node) = (s == s') := by
    intro s s'
    rw [Bool.eq_iff_iff, beq_iff_eq, beq_iff_eq, (Option.map_injective hnode).eq_iff]
  have horigin : (fun arg : Typing VarId => UnifyError.sameOrigin (left.relabel f c.node) (right.relabel f c.node)
      arg.type) ∘ Typing.relabel φ f c.node = fun arg => UnifyError.sameOrigin left right arg.type := by
    funext arg
    simp [UnifyError.sameOrigin, Typing.relabel, hsrc]
  unfold UnifyError.badArg?
  rw [List.findIdx?_map, horigin]
  split
  · rfl
  · exact sameIndex?_relabel hr left right 0 args

theorem inCall_alike {node calleeNode : Node} {t t' : Typing VarId} {args args' : List (Typing VarId)}
    (ht : t.Mirrored c φ K f t') (h : Typing.AllMirrored c φ K f args args') (e : UnifyError VarId) :
    (Id.run (e.inCall node calleeNode t args)).Alike c f
      (Id.run ((e.relabel f c.node).inCall (c.node node) (c.node calleeNode) t' args')) := by
  obtain ⟨rfl, -⟩ := ht
  obtain ⟨rfl, -⟩ := h
  cases e with
  | mismatch left right =>
      exact ⟨⟨rfl, rfl, fun hnode => badArg?_relabel hr hnode left right args⟩, ⟨φ, hφ, rfl⟩, rfl, rfl⟩
  | multipleRowVars record => exact UnifyError.plain_alike c f (.multipleRowVars record)

theorem callTyping {node calleeNode : Node} {t t' : Typing VarId} {args args' : List (Typing VarId)}
    (ht : t.Mirrored c φ K f t') (h : Typing.AllMirrored c φ K f args args') :
    Simulates c f r r' (Infer.callTyping c.steps node calleeNode t args)
      (Infer.callTyping c.steps' (c.node node) (c.node calleeNode) t' args') fun g _ => Typing.Mirrored c φ K g := by
  refine bind (freshVar hr (some node)) ?_
  rintro g r₁ r₁' result result' hlater hr₁ ⟨rfl, rfl⟩
  refine combine hr₁ hφ ?_ ?_ (inCall_alike hr₁ hφ ht h) (Ty.under_relabel hr₁.injective c.node result) ?_
  · rw [h.needs.1, ht.eq, List.map_append]
    rfl
  · rw [h.types, ht.eq]
    simp [Constraint.relabel, Typing.relabel]
  · exact List.forall_mem_append.mpr ⟨h.needs.2, List.forall_mem_singleton.mpr ht.asks⟩

theorem memberTyping {node : Node} {t t' : Typing VarId} {label : Ident} (h : t.Mirrored c φ K f t') :
    Simulates c f r r' (Infer.memberTyping c.steps node t label)
      (Infer.memberTyping c.steps' (c.node node) t' (label.relocate c.pos)) fun g _ => Typing.Mirrored c φ K g := by
  obtain ⟨rfl, hasks⟩ := h
  obtain ⟨needs, type⟩ := t
  unfold Infer.memberTyping
  cases type with
  | record rows s =>
      simp only [Typing.relabel, Ty.relabel_record, Row.flatten_map]
      cases Row.flatten rows with
      | error vs =>
          have he := UnifyError.plain_alike c f (.multipleRowVars (.record rows s))
          rw [UnifyError.relabel, Ty.relabel_record] at he
          exact throw hr he
      | ok record =>
          simp only [FlatRecord.map, Ident.relocate, Assoc.get?_mapValues]
          cases Assoc.get? record.fields label.label with
          | some u => exact pure hr ⟨rfl, hasks⟩
          | none =>
              cases record.tail with
              | none => exact throw hr ⟨rfl, (Ty.relabel_record f c.node rows s).symm, rfl⟩
              | some v =>
                  refine bind (freshVar hr (some node)) ?_
                  rintro g r₁ r₁' field field' hlater hr₁ ⟨rfl, rfl⟩
                  refine bind (freshRowVar hr₁ (some node)) ?_
                  rintro g r₂ r₂' rest rest' hlater₂ hr₂ ⟨rfl, rfl⟩
                  refine combine hr₂ hφ rfl ?_ (UnifyError.plain_alike c _)
                    (Ty.under_relabel hr₂.injective c.node field) (List.forall_mem_singleton.mpr hasks)
                  simp [Constraint.relabel, Ty.relabel_ofFields]
  | _ => exact throw hr (by simp [Failure.Alike, TypeError.Alike, Typing.relabel])

theorem blockTyping {b b' : Block} (htypings : Typing.AllMirrored c φ K f b.typings b'.typings)
    (hreturned : Typing.AllMirrored c φ K f b.returned.toList b'.returned.toList) :
    Simulates c f r r' (Infer.blockTyping c.steps b) (Infer.blockTyping c.steps' b')
      fun g _ => Typing.Mirrored c φ K g := by
  have hlast : Typing.Mirrored c φ K f (b.returned.getD (.closed (.leaf .undefined none)))
      (b'.returned.getD (.closed (.leaf .undefined none))) := by
    obtain ⟨heq, hasks⟩ := hreturned
    cases hb : b.returned with
    | none =>
        rw [hb] at heq
        cases hb' : b'.returned with
        | none => exact ⟨congrArg (Typing.mk []) (Ty.relabel_leaf f c.node .undefined none).symm, nofun⟩
        | some u => simp [hb'] at heq
    | some t =>
        rw [hb] at heq hasks
        cases hb' : b'.returned with
        | none => simp [hb'] at heq
        | some u => exact ⟨by simpa [hb'] using heq, hasks t List.mem_cons_self⟩
  refine combine hr hφ ?_ rfl (UnifyError.plain_alike c f) ?_ ?_
  · rw [htypings.needs.1, hlast.eq, List.map_append]
    rfl
  · intro bs
    rw [hlast.eq]
    exact Ty.under_relabel hr.injective c.node _ bs
  · exact List.forall_mem_append.mpr ⟨htypings.needs.2, List.forall_mem_singleton.mpr hlast.asks⟩

omit hr in
theorem takeParams_relabel (hf : ∀ k, Function.Injective (f k)) (bs : List (Binding VarId)) (needs : Requirements VarId)
    (params : List (String × Ty VarId)) :
    Infer.takeParams (bs.map (Binding.relabel f c.node)) (Assoc.rename φ (Ty.relabel f c.node) needs)
        (Assoc.rename φ (Ty.relabel f c.node) params) =
      (Assoc.rename φ (Ty.relabel f c.node) (Infer.takeParams bs needs params).1,
        (Infer.takeParams bs needs params).2.map (Ty.relabel f c.node)) := by
  induction params generalizing needs with
  | nil => rfl
  | cons p params ih =>
      obtain ⟨name, t⟩ := p
      change Infer.takeParams _ _ ((φ name, t.relabel f c.node) :: Assoc.rename φ (Ty.relabel f c.node) params) = _
      simp only [Infer.takeParams]
      rw [Assoc.erase_rename hφ.injective, ih, Assoc.get?_rename hφ.injective, Ty.under_relabel hf]
      cases Assoc.get? needs name <;> rfl

omit hr in
theorem dropParams_relabel (needs : Requirements VarId) (params : List (String × Ty VarId)) :
    Infer.dropParams (Assoc.rename φ (Ty.relabel f c.node) needs) (Assoc.rename φ (Ty.relabel f c.node) params) =
      Assoc.rename φ (Ty.relabel f c.node) (Infer.dropParams needs params) := by
  unfold Infer.dropParams
  induction params generalizing needs with
  | nil => rfl
  | cons p params ih =>
      change (Assoc.rename φ (Ty.relabel f c.node) params).foldl _
        (Assoc.erase (Assoc.rename φ (Ty.relabel f c.node) needs) (φ p.1)) = _
      rw [Assoc.erase_rename hφ.injective, ih]
      rfl

omit hr hφ in
/-- What is left after parameters are dropped is asked by the body, of other names. -/
theorem keys_of_dropParams {body : Requirements VarId} (hasks : ∀ k ∈ Assoc.keys body, K k) {bs : List (Binding VarId)}
    {params : List (String × Ty VarId)} {k : String}
    (h : k ∈ Assoc.keys (Infer.dropParams (Requirements.joinUnder bs [body]) params)) :
    K k ∧ k ∉ Assoc.keys params := by
  obtain ⟨t, ht⟩ := Assoc.mem_keys.mp h
  obtain ⟨hin, hnot⟩ := ((Infer.dropParams_spec (Requirements.joinUnder_distinct bs [body]) params).2 _).mp ht
  have hk := Requirements.mem_keys_joinUnder.mp (Assoc.mem_keys_of_mem hin)
  rw [List.flatten_singleton] at hk
  exact ⟨hasks k hk, hnot⟩

/-- The common part of the rules for functions. -/
theorem close {asked asked' : Assoc (Ty VarId)} {body body' : Typing VarId}
    {result result' : List (Binding VarId) → Typing VarId}
    (hasked : asked' = Assoc.rename φ (Ty.relabel f c.node) asked) (hbody : body' = body.relabel φ f c.node)
    (hresult : ∀ bs, (result bs).Mirrored c φ K f (result' (bs.map (Binding.relabel f c.node)))) :
    Simulates c f r r' (Infer.close c.steps asked body result) (Infer.close c.steps' asked' body' result')
      fun g _ => Typing.Mirrored c φ K g := by
  have hneeds : asked'.map (fun p => [p]) ++ [body'.needs] =
      (asked.map (fun p => [p]) ++ [body.needs]).map (Assoc.rename φ (Ty.relabel f c.node)) := by
    subst hasked hbody
    simp [Assoc.rename, Typing.relabel]
  unfold Infer.close
  rw [hneeds]
  refine bind (settle hr hφ (UnifyError.plain_alike c f)) ?_
  rintro g r₁ r₁' bs bs' hlater hr₁ ⟨rfl, rfl⟩
  exact pure hr₁ (hresult bs)

omit hr in
theorem joinUnder_body (hf : ∀ k, Function.Injective (f k)) (bs : List (Binding VarId)) (body : Typing VarId) :
    Requirements.joinUnder (bs.map (Binding.relabel f c.node)) [(body.relabel φ f c.node).needs] =
      Assoc.rename φ (Ty.relabel f c.node) (Requirements.joinUnder bs [body.needs]) :=
  Requirements.joinUnder_rename hφ.injective hf bs [body.needs]

theorem absTyping {node : Node} {params params' : List (String × Ty VarId)} {body body' : Typing VarId}
    (hparams : params' = Assoc.rename φ (Ty.relabel f c.node) params) (hbody : body.Mirrored c φ K f body') :
    Simulates c f r r' (Infer.absTyping c.steps node params body) (Infer.absTyping c.steps' (c.node node) params' body')
      fun g _ => Typing.Mirrored c φ (fun k => K k ∧ k ∉ Assoc.keys params) g := by
  obtain ⟨rfl, hasks⟩ := hbody
  subst hparams
  rw [Infer.absTyping_eq, Infer.absTyping_eq]
  refine close hr hφ rfl rfl fun bs => ⟨?_, ?_⟩
  · unfold Infer.absResult
    rw [joinUnder_body hφ hr.injective, takeParams_relabel hφ hr.injective]
    refine congrArg (Typing.mk _) ?_
    rw [Ty.relabel_arrow, ← Ty.under_relabel hr.injective]
    rfl
  · intro k hk
    unfold Infer.absResult at hk
    dsimp only at hk
    rw [Infer.takeParams_fst] at hk
    exact keys_of_dropParams hasks hk

omit hr in
theorem any_relabel (name : String) (params : List (String × Ty VarId)) :
    ((Assoc.rename φ (Ty.relabel f c.node) params).any fun p => p.1 == φ name) = params.any fun p => p.1 == name := by
  rw [Bool.eq_iff_iff]
  simp [Assoc.rename, hφ.injective.eq_iff]

omit hr in
theorem defResult_mirrored (hf : ∀ k, Function.Injective (f k)) (name : String) (t : Ty VarId)
    (params : List (String × Ty VarId)) {body : Typing VarId} (hasks : ∀ k ∈ Assoc.keys body.needs, K k)
    (bs : List (Binding VarId)) :
    (Infer.defResult name t params body bs).Mirrored c φ (fun k => K k ∧ k ≠ name ∧ k ∉ Assoc.keys params) f
      (Infer.defResult (φ name) (t.relabel f c.node) (Assoc.rename φ (Ty.relabel f c.node) params)
        (body.relabel φ f c.node) (bs.map (Binding.relabel f c.node))) := by
  unfold Infer.defResult
  rw [any_relabel hφ]
  split
  · rename_i hany
    constructor
    · rw [joinUnder_body hφ hf, dropParams_relabel hφ, Ty.under_relabel hf]
      rfl
    · intro k hk
      obtain ⟨hK, hk⟩ := keys_of_dropParams hasks hk
      refine ⟨hK, ?_, hk⟩
      rintro rfl
      obtain ⟨p, hp, he⟩ := List.any_eq_true.mp hany
      exact hk (beq_iff_eq.mp he ▸ List.mem_map_of_mem hp)
  · have hjoin : Requirements.joinUnder (bs.map (Binding.relabel f c.node))
        [[(φ name, t.relabel f c.node)], (body.relabel φ f c.node).needs] =
          Assoc.rename φ (Ty.relabel f c.node) (Requirements.joinUnder bs [[(name, t)], body.needs]) :=
      Requirements.joinUnder_rename hφ.injective hf bs [[(name, t)], body.needs]
    constructor
    · simp only [hjoin, Assoc.erase_rename hφ.injective, dropParams_relabel hφ, Assoc.get?_rename hφ.injective,
        Ty.under_relabel hf]
      refine congrArg (Typing.mk _) ?_
      cases Assoc.get? (Requirements.joinUnder bs [[(name, t)], body.needs]) name <;> rfl
    · intro k hk
      obtain ⟨u, hu⟩ := Assoc.mem_keys.mp hk
      have hd := Requirements.joinUnder_distinct bs [[(name, t)], body.needs]
      obtain ⟨hin, hnot⟩ := ((Infer.dropParams_spec (hd.erase name) params).2 _).mp hu
      obtain ⟨hin, hne⟩ := (Assoc.mem_erase hd).mp hin
      refine ⟨hasks k ?_, hne, hnot⟩
      have hk := Requirements.mem_keys_joinUnder.mp (Assoc.mem_keys_of_mem hin)
      simpa [Assoc.keys, hne] using hk

/-- A function bound to a name, where the name is renamed like those that something is asked of. -/
theorem defTyping {name : String} {node : Node} {params params' : List (String × Ty VarId)} {body body' : Typing VarId}
    (hparams : params' = Assoc.rename φ (Ty.relabel f c.node) params) (hbody : body.Mirrored c φ K f body') :
    Simulates c f r r' (Infer.defTyping c.steps name node params body)
      (Infer.defTyping c.steps' (φ name) (c.node node) params' body')
      fun g _ => Typing.Mirrored c φ (fun k => K k ∧ k ≠ name ∧ k ∉ Assoc.keys params) g := by
  obtain ⟨rfl, hasks⟩ := hbody
  subst hparams
  have htype : Ty.arrow ((Assoc.rename φ (Ty.relabel f c.node) params).map Prod.snd) (body.relabel φ f c.node).type
      (some (c.node node)) = (Ty.arrow (params.map Prod.snd) body.type (some node)).relabel f c.node := by
    simp [Assoc.rename, Typing.relabel]
  rw [Infer.defTyping_eq, Infer.defTyping_eq, htype]
  refine close hr hφ ?_ rfl (defResult_mirrored hφ hr.injective _ _ _ hasks)
  unfold Infer.askedDef
  rw [any_relabel hφ]
  split <;> rfl

end Rules

end Simulates

end ScriptTypes
