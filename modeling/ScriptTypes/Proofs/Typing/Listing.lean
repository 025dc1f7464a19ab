import ScriptTypes.Proofs.Typing.Calls
import ScriptTypes.Proofs.Typing.Lexical
import ScriptTypes.Proofs.Typing.Stopping

/-! The names of a script. The statements of a script bind names one after the other. A name is listed where it is bound
first. Its typing is the one that its `let` infers, unless the script states its type: then the last statement about it
counts, wherever the `let` stands. -/

namespace ScriptTypes

/-! Copies of annotations. -/

/-- A type is an annotation with a new variable for each of its variables. -/
def Ty.NewCopy {V : Type} (s : Supply) (a : Ty V) (t : Ty VarId) : Prop :=
  ∃ f : Kind → V → VarId, t = a.map f ∧ (∀ x ∈ a.vars, ¬ s.Issued (x.1, f x.1 x.2)) ∧
    ∀ k, ∀ v w, (k, v) ∈ a.vars → (k, w) ∈ a.vars → f k v = f k w → v = w

theorem Typing.newCopy_instantiate {V : Type} [DecidableEq V] (a : Ty V) (s : Supply) :
    ∃ t, (Typing.instantiate (.closed a) s).1 = .closed t ∧ a.NewCopy s t := by
  have hfresh := (Renaming.freshSince_start s).after (Typing.closed a).vars
  obtain ⟨f, hf⟩ := (Renaming.after (s, []) (Typing.closed a).vars).2.exists_follows
  have hvars : (Typing.closed a).vars = a.vars := rfl
  have hfind {x : Kind × V} (hx : x ∈ a.vars) :
      (Renaming.after (s, []) (Typing.closed a).vars).2.find? x.1 x.2 = some (f x.1 x.2) := by
    obtain ⟨w, hw⟩ := Renaming.exists_find?_after (s, []) (hvars ▸ hx)
    rw [hf _ _ _ hw, hw]
  refine ⟨a.map f, congrArg Prod.fst (instantiate_eq_map hf), f, rfl, ?_, ?_⟩
  · intro x hx
    exact (hfresh.new (hfind hx)).1
  · intro k v w hv hw heq
    have hw' := hfind hw
    rw [← heq] at hw'
    exact hfresh.injective (hfind hv) hw'

/-! What a statement of a script binds. -/

/-- A statement states that a name has the type of an annotation. -/
inductive Stmt.States : Stmt → Ident → Annotation → Prop
  | mk {node node' node'' : Node} {tag : Ident} {text name source : String} {pos : Position} {a : Annotation}
      (htag : tag.label = assumeTag) (hsplit : Infer.splitAssumption text = some (name, source))
      (ha : Annotation.compile source = .ok a) :
      States (.expr node (.tagged node' (.ident node'' tag) (.mk [text] [] pos))) ⟨name, pos⟩ a

/-- A statement is a `let` that binds a name to a value. -/
inductive Stmt.Defines : Stmt → Ident → Expr → Prop
  | mk {node : Node} {id : Ident} {e : Expr} {pos : Position} :
      Defines (.decl node .letDecl [.mk (.ident id) (some e) pos]) id e

section

variable {s : Stmt} {id : Ident}

theorem Stmt.States.assumed {a : Annotation} (h : s.States id a) : s.assumed = [id.label] := by
  cases h with
  | @mk _ _ node'' tag _ _ _ _ _ htag hsplit ha =>
      have hmarker : (Expr.ident node'' tag).isMarker = true := decide_eq_true htag
      rw [Stmt.assumed, if_pos hmarker, Template.assumed, hsplit]
      rfl

theorem Stmt.States.bound {a : Annotation} (h : s.States id a) : s.bound = [id.label] := by
  have hassumed := h.assumed
  cases h with
  | mk => exact hassumed

theorem Stmt.Defines.bound {e : Expr} (h : s.Defines id e) : s.bound = [id.label] := by
  cases h
  rfl

theorem Stmt.Defines.assumed {e : Expr} (h : s.Defines id e) : s.assumed = [] := by
  cases h
  rfl

theorem Stmt.assumed_subset_bound (s : Stmt) : s.assumed ⊆ s.bound := by
  unfold Stmt.assumed Stmt.bound
  split
  · exact List.Subset.refl _
  · exact List.nil_subset _

end

/-- What a statement of a script does to the names that are bound already. -/
inductive Binds (steps : Nat) (env : Env VarId) (r : Run) : Stmt → Env VarId → Prop
  | states {s : Stmt} {id : Ident} {a : Annotation} {t : Ty VarId} (hs : s.States id a) (ht : a.NewCopy r.supply t) :
      Binds steps env r s (env.assume id (.closed t))
  | skips {s : Stmt} {id : Ident} {e : Expr} {b : Bound VarId} (hs : s.Defines id e)
      (hb : env.here? id.label = some b) (hassumed : b.assumed = true) : Binds steps env r s env
  | defines {s : Stmt} {id : Ident} {e : Expr} {t : Typing VarId} {r' : Run} (hs : s.Defines id e)
      (hnew : env.here? id.label = none) (ht : Returns (Infer.letTyping steps env id e) r t r') :
      Binds steps env r s (env.insert id.label ⟨id, t, false⟩)
  | nothing {s : Stmt} (hs : s.bound = []) : Binds steps env r s env

section

variable {steps : Nat} {b b' : Block} {r r' : Run}

theorem Returns.assumption {q : Template} {id : Ident} {t : Typing VarId}
    (h : Returns (Infer.assumption q) r (id, t) r') :
    ∃ text name source pos a, q = .mk [text] [] pos ∧ Infer.splitAssumption text = some (name, source) ∧
      Annotation.compile source = .ok a ∧ id = ⟨name, pos⟩ ∧ t = (Typing.instantiate (.closed a) r.supply).1 := by
  obtain ⟨texts, es, pos⟩ := q
  obtain ⟨text, name, source, a, rfl, rfl, hsplit, ha, heq⟩ | ⟨message, heq⟩ := Infer.assumption_cases texts es
  · rw [heq] at h
    obtain ⟨u, r₁, hu, hpure⟩ := bind_iff.mp h
    cases hu
    cases hpure
    exact ⟨text, name, source, pos, a, rfl, hsplit, ha, rfl, rfl⟩
  · rw [heq es pos .rfl] at h
    exact (not_throw h).elim

/-- The statements of a script are taken apart once. -/
theorem Returns.binds {s : Stmt} (h : Returns (Infer.stmt steps .top b s) r b' r') : Binds steps b.env r s b'.env := by
  cases s using Stmt.induction_on with
  | decl node id e pos =>
      rw [Infer.stmt_let] at h
      obtain ⟨c, hc, hassumed, rfl⟩ | ⟨t, ht, hnew, rfl⟩ := declare_cases h
      · exact .skips .mk hc hassumed
      · exact .defines .mk hnew ht
  | assume node n n' tag quasi htag =>
      rw [Infer.stmt_assume steps .top b node n n' htag] at h
      obtain ⟨⟨id, t⟩, r₁, hq, hpure⟩ := bind_iff.mp h
      obtain ⟨rfl, -⟩ := pure_iff.mp hpure
      obtain ⟨text, name, source, pos, a, rfl, hsplit, ha, rfl, rfl⟩ := Returns.assumption hq
      obtain ⟨t, ht, hcopy⟩ := Typing.newCopy_instantiate a r.supply
      dsimp only
      rw [ht]
      exact .states (.mk htag hsplit ha) hcopy
  | tagged node n tag quasi htag =>
      rw [Infer.stmt_tagged steps .top b node n htag] at h
      exact (not_unsupported h).elim
  | expr node e hplain =>
      rw [Infer.stmt_expr steps .top b node hplain] at h
      obtain ⟨t, r₁, -, hpure⟩ := bind_iff.mp h
      obtain ⟨rfl, -⟩ := pure_iff.mp hpure
      exact .nothing (Stmt.bound_expr hplain)
  | ret => cases (stmt_ret_iff.mp h).1
  | retNothing => cases (stmt_retNothing_iff.mp h).1
  | block =>
      obtain ⟨inner, -, rfl⟩ := stmt_block_iff.mp h
      exact .nothing rfl
  | refused s description pos hs => exact (not_refusedStmt hs h).elim

end

/-- The last statement of a script is inferred after the others. -/
theorem Infers.of_concat {steps : Nat} {b b' : Block} {r r' : Run} {ss : List Stmt} {s : Stmt}
    (h : Infers steps b (ss ++ [s]) r b' r') :
    ∃ b₁ r₁, Infers steps b ss r b₁ r₁ ∧ Returns (Infer.stmt steps .top b₁ s) r₁ b' r' := by
  induction ss generalizing b r with
  | nil =>
      obtain ⟨b₁, r₁, hs, hnil⟩ := cons_iff.mp h
      obtain ⟨rfl, rfl⟩ := nil_iff.mp hnil
      exact ⟨b, r, nil_iff.mpr ⟨rfl, rfl⟩, hs⟩
  | cons s' ss ih =>
      obtain ⟨b₁, r₁, hs', hrest⟩ := cons_iff.mp h
      obtain ⟨b₂, r₂, hss, hs⟩ := ih hrest
      exact ⟨b₂, r₂, cons_iff.mpr ⟨b₁, r₁, hs', hss⟩, hs⟩

/-! Where the typing of a name comes from. -/

/-- The type of a name is stated, and is that of the last statement about it: its annotation, with variables that are
new where the statement stands. -/
def StatedLast (steps : Nat) (ss : List Stmt) (id : Ident) (t : Typing VarId) : Prop :=
  ∃ before s after a b r u, ss = before ++ s :: after ∧ s.States id a ∧ (∀ s' ∈ after, id.label ∉ s'.assumed) ∧
    Infers steps ⟨.empty, [], none⟩ before .initial b r ∧ a.NewCopy r.supply u ∧ t = .closed u

/-- The typing of a name is the one that its only `let` infers where it stands, and the type of the name is not
stated. -/
def InferredOnce (steps : Nat) (ss : List Stmt) (id : Ident) (t : Typing VarId) : Prop :=
  ∃ before s after e b r r', ss = before ++ s :: after ∧ s.Defines id e ∧
    (∀ s' ∈ before ++ after, id.label ∉ s'.bound) ∧ Infers steps ⟨.empty, [], none⟩ before .initial b r ∧
    Returns (Infer.letTyping steps b.env id e) r t r'

section

variable {steps : Nat} {ss : List Stmt} {id : Ident} {t : Typing VarId}

theorem StatedLast.concat (h : StatedLast steps ss id t) {s : Stmt} (hs : id.label ∉ s.assumed) :
    StatedLast steps (ss ++ [s]) id t := by
  obtain ⟨before, s₀, after, a, b, r, u, rfl, hstates, hafter, hrest⟩ := h
  refine ⟨before, s₀, after ++ [s], a, b, r, u, by simp, hstates, ?_, hrest⟩
  exact List.forall_mem_append.mpr ⟨hafter, List.forall_mem_singleton.mpr hs⟩

theorem InferredOnce.concat (h : InferredOnce steps ss id t) {s : Stmt} (hs : id.label ∉ s.bound) :
    InferredOnce steps (ss ++ [s]) id t := by
  obtain ⟨before, s₀, after, e, b, r, r', rfl, hdefines, hothers, hrest⟩ := h
  refine ⟨before, s₀, after ++ [s], e, b, r, r', by simp, hdefines, ?_, hrest⟩
  rw [← List.append_assoc]
  exact List.forall_mem_append.mpr ⟨hothers, List.forall_mem_singleton.mpr hs⟩

/-- A stated type is stated somewhere. -/
theorem StatedLast.mem (h : StatedLast steps ss id t) : ∃ s ∈ ss, id.label ∈ s.assumed := by
  obtain ⟨before, s, after, a, b, r, u, rfl, hstates, -⟩ := h
  exact ⟨s, by simp, by simp [hstates.assumed]⟩

theorem InferredOnce.not_mem (h : InferredOnce steps ss id t) : ∀ s ∈ ss, id.label ∉ s.assumed := by
  obtain ⟨before, s, after, e, b, r, r', rfl, hdefines, hothers, -⟩ := h
  obtain ⟨hbefore, hafter⟩ := List.forall_mem_append.mp hothers
  refine List.forall_mem_append.mpr ⟨fun s' hs' hm => hbefore s' hs' (s'.assumed_subset_bound hm),
    List.forall_mem_cons.mpr ⟨?_, fun s' hs' hm => hafter s' hs' (s'.assumed_subset_bound hm)⟩⟩
  rw [hdefines.assumed]
  exact List.not_mem_nil

end

/-- Where the typing of a name comes from. -/
inductive Bound.ComesFrom (steps : Nat) (ss : List Stmt) : Bound VarId → Prop
  | stated {id : Ident} {t : Typing VarId} (h : StatedLast steps ss id t) : ComesFrom steps ss ⟨id, t, true⟩
  | inferred {id : Ident} {t : Typing VarId} (h : InferredOnce steps ss id t) : ComesFrom steps ss ⟨id, t, false⟩

theorem Bound.ComesFrom.concat {steps : Nat} {ss : List Stmt} {c : Bound VarId} (h : c.ComesFrom steps ss) {s : Stmt}
    (hs : c.id.label ∉ s.bound) : c.ComesFrom steps (ss ++ [s]) := by
  cases h with
  | stated h => exact .stated (h.concat fun hm => hs (s.assumed_subset_bound hm))
  | inferred h => exact .inferred (h.concat hs)

/-- The names of an environment are those that statements bind, each where it is bound first, and their typings come
from the statements. -/
structure EnvLists (steps : Nat) (ss : List Stmt) (env : Env VarId) : Prop where
  names : Assoc.keys env.current = (ss.flatMap Stmt.bound).eraseDups
  label {x : String} {c : Bound VarId} : (x, c) ∈ env.current → c.id.label = x
  origin {x : String} {c : Bound VarId} : (x, c) ∈ env.current → c.ComesFrom steps ss

namespace EnvLists

variable {steps : Nat} {ss : List Stmt} {env env' : Env VarId} {r : Run} {s : Stmt} {b : Block}

theorem empty (steps : Nat) : EnvLists steps [] .empty := ⟨rfl, nofun, nofun⟩

theorem distinct (h : EnvLists steps ss env) : Assoc.Distinct env.current := by
  rw [Assoc.Distinct, h.names]
  refine (Sight.pairwise_eraseDups _).imp ?_
  rintro x _ hlt rfl
  exact Nat.lt_irrefl _ hlt

theorem flatMap_bound {x : String} (hbound : s.bound = [x]) :
    (ss ++ [s]).flatMap Stmt.bound = ss.flatMap Stmt.bound ++ [x] := by
  simp [hbound]

/-- A statement binds a name, in place of what the name was bound to. -/
theorem insert (h : EnvLists steps ss env) {c : Bound VarId} (hbound : s.bound = [c.id.label])
    (hc : c.ComesFrom steps (ss ++ [s])) : EnvLists steps (ss ++ [s]) (env.insert c.id.label c) := by
  have hmem {x : String} {d : Bound VarId} (hd : (x, d) ∈ (env.insert c.id.label c).current) :
      x = c.id.label ∧ d = c ∨ x ≠ c.id.label ∧ (x, d) ∈ env.current := by
    by_cases hx : x = c.id.label
    · subst hx
      have hget := Assoc.get?_of_mem (h.distinct.insert c.id.label c) hd
      rw [Assoc.get?_insert_self] at hget
      exact .inl ⟨rfl, (Option.some.inj hget).symm⟩
    · exact .inr ⟨hx, (Assoc.mem_of_mem_insert hd).resolve_left fun he => hx he.1⟩
  refine ⟨?_, fun hd => ?_, fun hd => ?_⟩
  · rw [flatMap_bound hbound]
    exact Assoc.keys_insert_eraseDups h.names ..
  · obtain ⟨rfl, rfl⟩ | ⟨-, hd⟩ := hmem hd
    · rfl
    · exact h.label hd
  · obtain ⟨rfl, rfl⟩ | ⟨hx, hd⟩ := hmem hd
    · exact hc
    · refine (h.origin hd).concat ?_
      rw [hbound, h.label hd]
      exact fun hm => hx (List.mem_singleton.mp hm)

/-- What one more statement does to the names. -/
theorem concat (h : EnvLists steps ss b.env) (hrun : Infers steps ⟨.empty, [], none⟩ ss .initial b r)
    (hs : Binds steps b.env r s env') : EnvLists steps (ss ++ [s]) env' := by
  cases hs with
  | @states id a t hs ht =>
      exact h.insert (c := ⟨id, .closed t, true⟩) hs.bound
        (.stated ⟨ss, s, [], a, b, r, t, rfl, hs, List.forall_mem_nil _, hrun, ht, rfl⟩)
  | @defines id e t r' hs hnew ht =>
      have hothers : ∀ s' ∈ ss ++ [], id.label ∉ s'.bound := by
        rw [List.append_nil]
        intro s' hs' hm
        rw [Env.here?_eq_none, h.names, List.mem_eraseDups] at hnew
        exact hnew (List.mem_flatMap.mpr ⟨s', hs', hm⟩)
      exact h.insert (c := ⟨id, t, false⟩) hs.bound (.inferred ⟨ss, s, [], e, b, r, r', rfl, hs, hothers, hrun, ht⟩)
  | @skips id e c hs hc hassumed =>
      have hmem : (id.label, c) ∈ b.env.current := Assoc.mem_of_get? hc
      refine ⟨?_, h.label, fun {x d} hd => ?_⟩
      · rw [flatMap_bound hs.bound, Assoc.eraseDups_concat, ← h.names, if_pos (Assoc.mem_keys_of_mem hmem)]
      by_cases hx : x = id.label
      · -- The `let` is skipped, so the statement about the name is still the last one.
        subst hx
        cases (Assoc.get?_of_mem h.distinct hd).symm.trans hc
        cases h.origin hd with
        | stated hlast =>
            refine .stated (hlast.concat ?_)
            rw [hs.assumed]
            exact List.not_mem_nil
        | inferred => cases hassumed
      · refine (h.origin hd).concat ?_
        rw [hs.bound, h.label hd]
        exact fun hm => hx (List.mem_singleton.mp hm)
  | nothing hs =>
      refine ⟨?_, h.label, fun hd => (h.origin hd).concat ?_⟩
      · rw [h.names, List.flatMap_append, List.flatMap_singleton, hs, List.append_nil]
      · rw [hs]
        exact List.not_mem_nil

end EnvLists

/-- The names after the statements of a script. -/
theorem Infers.lists {steps : Nat} {ss : List Stmt} {b : Block} {r : Run}
    (h : Infers steps ⟨.empty, [], none⟩ ss .initial b r) : EnvLists steps ss b.env := by
  induction ss using List.reverseRecOn generalizing b r with
  | nil =>
      obtain ⟨rfl, -⟩ := Infers.nil_iff.mp h
      exact .empty steps
  | append_singleton ss s ih =>
      obtain ⟨b₁, r₁, hss, hs⟩ := Infers.of_concat h
      exact (ih hss).concat hss hs.binds

/-- The names of a script that has no error are those that its `let` statements and its assumptions bind, each once and
in the order in which they are bound first. If the type of a name is stated, the last statement about it counts, with
new variables for those of its annotation. The typing of any other name is inferred by its only `let`. -/
theorem Script.bindings_in_order {steps : Nat} {s : Script} {env : Env VarId} (h : s.infer steps = .ok ⟨env, none⟩) :
    env.bindings.map (fun e => e.1.label) = (s.body.flatMap Stmt.bound).eraseDups ∧
      (env.bindings.map fun e => e.1.label).Nodup ∧
      (∀ e ∈ env.bindings, (∃ stmt ∈ s.body, e.1.label ∈ stmt.assumed) → StatedLast steps s.body e.1 e.2) ∧
      ∀ e ∈ env.bindings, (∀ stmt ∈ s.body, e.1.label ∉ stmt.assumed) → InferredOnce steps s.body e.1 e.2 := by
  obtain ⟨b, r, hinfers, rfl⟩ := infer_eq_ok_iff.mp h
  have hlists := hinfers.lists
  have hlabels : b.env.bindings.map (fun e => e.1.label) = Assoc.keys b.env.current := by
    rw [Env.bindings, List.map_map]
    exact List.map_congr_left fun e he => hlists.label he
  have horigin : ∀ e ∈ b.env.bindings, StatedLast steps s.body e.1 e.2 ∨ InferredOnce steps s.body e.1 e.2 := by
    refine List.forall_mem_map.mpr fun e he => ?_
    obtain ⟨x, c⟩ := e
    cases hlists.origin he with
    | stated h => exact .inl h
    | inferred h => exact .inr h
  rw [hlabels]
  refine ⟨hlists.names, hlists.distinct, fun e he hstated => ?_, fun e he hplain => ?_⟩
  · refine (horigin e he).resolve_right fun honce => ?_
    obtain ⟨stmt, hmem, hlabel⟩ := hstated
    exact honce.not_mem stmt hmem hlabel
  · refine (horigin e he).resolve_left fun hlast => ?_
    obtain ⟨stmt, hmem, hlabel⟩ := hlast.mem
    exact hplain stmt hmem hlabel

namespace Script

/-- Names whose types are stated before or after their `let`, and one that is inferred from another before the type of
that one is stated. -/
def restated : Script where
  body :=
    [pairing.declare "same" (.arrow pairing.node [.ident ⟨"x", none⟩] (.expr (pairing.use "x"))),
    assume "size: Num",
    pairing.declare "size" (pairing.use "missing"),
    pairing.declare "again" (pairing.use "same"),
    assume "same: Num",
    assume "size: (a) => b"]
  pos := none
where
  assume (text : String) : Stmt :=
    .expr pairing.node (.tagged pairing.node (.ident pairing.node ⟨assumeTag, none⟩) (.mk [text] [] none))

/-- The types of `same` and `size` are stated last as a number and as a function. -/
def restatedEnv : Env VarId where
  current :=
    [("same", ⟨⟨"same", none⟩, .closed (.leaf .num none), true⟩),
    ("size", ⟨⟨"size", none⟩, .closed (.arrow [.var 6 none] (.var 7 none) none), true⟩),
    ("again", ⟨⟨"again", none⟩, .closed (.arrow [.var 5 none] (.var 5 none) (some pairing.node)), false⟩)]
  outer := []

theorem bindings_in_order_restated :
    restated.infer 20 = .ok ⟨restatedEnv, none⟩ ∧
      restatedEnv.bindings.map (fun e => e.1.label) = ["same", "size", "again"] ∧
      StatedLast 20 restated.body ⟨"same", none⟩ (.closed (.leaf .num none)) ∧
      StatedLast 20 restated.body ⟨"size", none⟩ (.closed (.arrow [.var 6 none] (.var 7 none) none)) ∧
      InferredOnce 20 restated.body ⟨"again", none⟩
        (.closed (.arrow [.var 5 none] (.var 5 none) (some pairing.node))) := by
  have hrun : restated.infer 20 = .ok ⟨restatedEnv, none⟩ := by decide +kernel
  have hsame : ∃ stmt ∈ restated.body, "same" ∈ stmt.assumed :=
    ⟨restated.assume "same: Num", by simp [restated], by decide⟩
  have hsize : ∃ stmt ∈ restated.body, "size" ∈ stmt.assumed :=
    ⟨restated.assume "size: Num", by simp [restated], by decide⟩
  have hagain : ∀ stmt ∈ restated.body, "again" ∉ stmt.assumed := by decide
  obtain ⟨-, -, hstated, hinferred⟩ := bindings_in_order hrun
  exact ⟨hrun, rfl, hstated _ (.head _) hsame, hstated _ (.tail _ (.head _)) hsize,
    hinferred _ (.tail _ (.tail _ (.head _))) hagain⟩

end Script

end ScriptTypes
