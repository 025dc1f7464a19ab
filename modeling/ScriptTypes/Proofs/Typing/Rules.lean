import ScriptTypes.Proofs.Typing.Combine

/-! The rules of inference as combinations and closures. -/

namespace ScriptTypes

namespace Ty

theorem under_array (t : Ty VarId) (s : Option Node) (bs : List (Binding VarId)) :
    (t.array s).under bs = (t.under bs).array s := by
  rw [array, under_con, List.map_singleton, ← array]

theorem under_record {bs : List (Binding VarId)} (hbs : ∀ b ∈ bs, b.Closed) (fs : Assoc (Ty VarId))
    (s : Option Node) :
    (record [.fields fs] s).under bs = record [.fields (Assoc.mapValues (·.under bs) fs)] s := by
  induction bs generalizing fs with
  | nil => simp only [under_nil, Assoc.mapValues, List.map_id']
  | cons b bs ih =>
      obtain ⟨hb, hbs⟩ := List.forall_mem_cons.mp hbs
      have hrun : Id.run ((record [.fields fs] s).subst b) =
          record [.fields (Assoc.mapValues (fun t => Id.run (t.subst b)) fs)] s := run_subst_record hb.kind fs none s
      rw [under_cons, hrun, ih hbs]
      simp only [under_cons, Assoc.mapValues, List.map_map, Function.comp_def]

end Ty

/-! Combinations, one for each rule, and what they need of the parts. -/

namespace Combination

def arithmetic (node leftNode rightNode : Node) (left right : Typing VarId) : Combination where
  needs := [left.needs, right.needs]
  extra := [⟨left.type, .leaf .num (some leftNode)⟩, ⟨right.type, .leaf .num (some rightNode)⟩]
  type := .leaf .num (some node)

def comparison (node : Node) (operand : Ty VarId) (left right : Typing VarId) : Combination where
  needs := [left.needs, right.needs]
  extra := [⟨left.type, operand⟩, ⟨right.type, operand⟩]
  type := .leaf .bool (some node)

def array (node : Node) (elem : Ty VarId) (elems : List (Typing VarId)) : Combination where
  needs := elems.map Typing.needs
  extra := elems.map fun t => ⟨elem, t.type⟩
  type := elem.array (some node)

def object (node : Node) (props : List (String × Typing VarId)) : Combination where
  needs := props.map fun p => p.2.needs
  extra := []
  type := .record [.fields (props.map fun p => (p.1, p.2.type))] (some node)

def conditional (testNode : Node) (test consequent alternate : Typing VarId) : Combination where
  needs := [test.needs, consequent.needs, alternate.needs]
  extra := [⟨test.type, .leaf .bool (some testNode)⟩, ⟨consequent.type, alternate.type⟩]
  type := consequent.type

def call (node : Node) (result : Ty VarId) (callee : Typing VarId) (args : List (Typing VarId)) : Combination where
  needs := args.map Typing.needs ++ [callee.needs]
  extra := [⟨callee.type, .arrow (args.map Typing.type) result (some node)⟩]
  type := result

def template (node : Node) (parts : List (Typing VarId)) : Combination where
  needs := parts.map Typing.needs
  extra := []
  type := .leaf .str (some node)

def block (typings : List (Typing VarId)) (returned : Typing VarId) : Combination where
  needs := typings.map Typing.needs ++ [returned.needs]
  extra := []
  type := returned.type

section Fits

variable {names : List String} {n : Nat}

theorem fits_needs {ts : List (Typing VarId)} (h : ∀ t ∈ ts, t.Fits names n) :
    ∀ env ∈ ts.map Typing.needs, env.Fits names n :=
  List.forall_mem_map.mpr fun t ht => (h t ht).needs

theorem fits_arithmetic {left right : Typing VarId} (hl : left.Fits names n) (hr : right.Fits names n)
    (node leftNode rightNode : Node) : (arithmetic node leftNode rightNode left right).Fits names n where
  needs := List.forall_mem_cons.mpr ⟨hl.needs, List.forall_mem_singleton.mpr hr.needs⟩
  extra := List.forall_mem_cons.mpr
    ⟨⟨hl.type, .leaf _ _ _⟩, List.forall_mem_singleton.mpr ⟨hr.type, .leaf _ _ _⟩⟩
  type := .leaf _ _ _

theorem fits_comparison {left right : Typing VarId} (hl : left.Fits names n) (hr : right.Fits names n)
    {operand : Ty VarId} (ho : operand.Fits n) (node : Node) :
    (comparison node operand left right).Fits names n where
  needs := List.forall_mem_cons.mpr ⟨hl.needs, List.forall_mem_singleton.mpr hr.needs⟩
  extra := List.forall_mem_cons.mpr ⟨⟨hl.type, ho⟩, List.forall_mem_singleton.mpr ⟨hr.type, ho⟩⟩
  type := .leaf _ _ _

theorem fits_array {elems : List (Typing VarId)} (h : ∀ t ∈ elems, t.Fits names n) {elem : Ty VarId}
    (he : elem.Fits n) (node : Node) : (array node elem elems).Fits names n where
  needs := fits_needs h
  extra := List.forall_mem_map.mpr fun t ht => ⟨he, (h t ht).type⟩
  type := he.array _

theorem fits_object {props : List (String × Typing VarId)} (h : ∀ p ∈ props, p.2.Fits names n)
    (hd : Assoc.Distinct props) (node : Node) : (object node props).Fits names n where
  needs := List.forall_mem_map.mpr fun p hp => (h p hp).needs
  extra := by simp [object]
  type := .record (hd.mapValues Typing.type) (List.forall_mem_map.mpr fun p hp => (h p hp).type) _

theorem fits_conditional {test consequent alternate : Typing VarId} (ht : test.Fits names n)
    (hc : consequent.Fits names n) (ha : alternate.Fits names n) (testNode : Node) :
    (conditional testNode test consequent alternate).Fits names n where
  needs := List.forall_mem_cons.mpr
    ⟨ht.needs, List.forall_mem_cons.mpr ⟨hc.needs, List.forall_mem_singleton.mpr ha.needs⟩⟩
  extra := List.forall_mem_cons.mpr
    ⟨⟨ht.type, .leaf _ _ _⟩, List.forall_mem_singleton.mpr ⟨hc.type, ha.type⟩⟩
  type := hc.type

theorem fits_call {callee : Typing VarId} {args : List (Typing VarId)} (hc : callee.Fits names n)
    (ha : ∀ t ∈ args, t.Fits names n) {result : Ty VarId} (hr : result.Fits n) (node : Node) :
    (call node result callee args).Fits names n where
  needs := List.forall_mem_append.mpr ⟨fits_needs ha, List.forall_mem_singleton.mpr hc.needs⟩
  extra := List.forall_mem_singleton.mpr
    ⟨hc.type, .arrow (List.forall_mem_map.mpr fun t ht => (ha t ht).type) hr _⟩
  type := hr

theorem fits_template {parts : List (Typing VarId)} (h : ∀ t ∈ parts, t.Fits names n) (node : Node) :
    (template node parts).Fits names n where
  needs := fits_needs h
  extra := by simp [template]
  type := .leaf _ _ _

theorem fits_block {typings : List (Typing VarId)} (h : ∀ t ∈ typings, t.Fits names n) {returned : Typing VarId}
    (hr : returned.Fits names n) : (block typings returned).Fits names n where
  needs := List.forall_mem_append.mpr ⟨fits_needs h, List.forall_mem_singleton.mpr hr.needs⟩
  extra := by simp [block]
  type := hr.type

end Fits

theorem object_type {props : List (String × Typing VarId)} (hd : Assoc.Distinct props) (node : Node) (θ : Assignment) :
    (object node props).type.mono.subst θ =
      .record (Assoc.sort (Assoc.mapValues (fun t => t.type.mono.subst θ) props)) none := by
  have hm : (object node props).type.mono =
      .record (Assoc.sort (Assoc.mapValues Ty.mono (Assoc.mapValues Typing.type props))) none :=
    Ty.mono_record (hd.mapValues Typing.type) none (some node)
  rw [hm, Mono.subst_record, ← Assoc.sort_mapValues]
  simp only [Assoc.mapValues, List.map_map, Function.comp_def]

end Combination

/-- What a block gives: what it returned, or else nothing. -/
def Block.result (b : Block) : Typing VarId :=
  b.returned.getD (.closed (.leaf .undefined none))

theorem Returns.objectTyping_iff {steps : Nat} {node : Node} {props : List (String × Typing VarId)}
    (hprops : ∀ p ∈ props, Requirements.Closed p.2.needs) {r r' : Run} {t : Typing VarId} :
    Returns (Infer.objectTyping steps node props) r t r' ↔
      Returns (Infer.combine steps (.object node props) UnifyError.plain) r t r' := by
  rw [combine_iff, Infer.objectTyping, bind_iff]
  have hresult : ∀ bs r₁, Returns (Infer.settle steps (props.map fun p => p.2.needs) [] UnifyError.plain) r bs r₁ →
      (Ty.ofFields (props.map fun p => (p.1, p.2.type.under bs)) none).withSrc (some node) =
        (Combination.object node props).type.under bs := by
    intro bs r₁ hs
    have hbs := (settle_settled (List.forall_mem_map.mpr hprops) (by simp) hs).closed
    rw [Combination.object, Ty.under_record hbs]
    simp only [Assoc.mapValues, List.map_map, Function.comp_def]
    rfl
  constructor
  · rintro ⟨bs, r₁, hs, h⟩
    obtain ⟨rfl, rfl⟩ := pure_iff.mp h
    exact ⟨bs, hs, congrArg (Typing.mk _) (hresult bs r' hs)⟩
  · rintro ⟨bs, hs, rfl⟩
    exact ⟨bs, r', hs, pure_iff.mpr ⟨congrArg (Typing.mk _) (hresult bs r' hs).symm, rfl⟩⟩

section Combines

variable {names : List String} {r : Run}

theorem freshVar_lt (r : Run) : r.supply.types < (r.skip 1).supply.types := Nat.lt_succ_self _

/-- A rule without fresh variables. -/
theorem Combines.of_eq {x : Nat → Infer (Typing VarId)} {c : Combination} (hc : c.Fits names r.supply.types)
    (explain : UnifyError VarId → Failure VarId) (h : ∀ steps, x steps = Infer.combine steps c explain) :
    Combines names x r c r :=
  ⟨.refl r, hc, explain, fun {steps _ _} => by rw [h steps]⟩

/-- A rule with one fresh variable. -/
theorem Combines.of_fresh {x : Nat → Infer (Typing VarId)} (c : Ty VarId → Combination) {src : Option Node}
    (hc : (c (.var r.supply.types src)).Fits names (r.skip 1).supply.types)
    (explain : UnifyError VarId → Failure VarId)
    (h : ∀ steps, x steps = Infer.freshVar src >>= fun v => Infer.combine steps (c v) explain) :
    Combines names x r (c (.var r.supply.types src)) (r.skip 1) := by
  refine ⟨r.le_skip 1, hc, explain, fun {steps t r'} => ?_⟩
  rw [h steps, Returns.bind_iff]
  constructor
  · rintro ⟨v, r₁, hv, h⟩
    obtain ⟨rfl, rfl⟩ := Returns.freshVar_iff.mp hv
    exact h
  · exact fun h => ⟨_, _, Returns.freshVar_iff.mpr ⟨rfl, rfl⟩, h⟩

theorem combines_arithmetic {left right : Typing VarId} (hl : left.Fits names r.supply.types)
    (hr : right.Fits names r.supply.types) {op : BinaryOp} (hop : op.isArithmetic = true)
    (node leftNode rightNode : Node) :
    Combines names (Infer.binaryTyping · node op leftNode rightNode left right) r
      (.arithmetic node leftNode rightNode left right) r := by
  refine .of_eq (Combination.fits_arithmetic hl hr node leftNode rightNode) UnifyError.plain fun steps => ?_
  simp only [Infer.binaryTyping, hop, if_true, Infer.combine, Combination.arithmetic, Ty.under_leaf]

theorem combines_comparison {left right : Typing VarId} (hl : left.Fits names r.supply.types)
    (hr : right.Fits names r.supply.types) {op : BinaryOp} (hop : op.isArithmetic = false)
    (node leftNode rightNode : Node) :
    Combines names (Infer.binaryTyping · node op leftNode rightNode left right) r
      (.comparison node (.var r.supply.types (some node)) left right) (r.skip 1) := by
  have hle := (r.le_skip 1).types
  refine .of_fresh (Combination.comparison node · left right)
    (Combination.fits_comparison (hl.le hle) (hr.le hle) (.var (freshVar_lt r) _) node) UnifyError.plain fun steps => ?_
  simp only [Infer.binaryTyping, hop, Bool.false_eq_true, if_false, Infer.combine, Combination.comparison,
    Ty.under_leaf]

theorem combines_array {elems : List (Typing VarId)} (h : ∀ t ∈ elems, t.Fits names r.supply.types) (node : Node) :
    Combines names (Infer.arrayTyping · node elems) r (.array node (.var r.supply.types (some node)) elems)
      (r.skip 1) := by
  have hle := (r.le_skip 1).types
  refine .of_fresh (Combination.array node · elems)
    (Combination.fits_array (fun t ht => (h t ht).le hle) (.var (freshVar_lt r) _) node)
    (UnifyError.inArray node elems) fun steps => ?_
  simp only [Infer.arrayTyping, Infer.combine, Combination.array, Ty.under_array]

theorem combines_object {props : List (String × Typing VarId)} (h : ∀ p ∈ props, p.2.Fits names r.supply.types)
    (hd : Assoc.Distinct props) (node : Node) :
    Combines names (Infer.objectTyping · node props) r (.object node props) r :=
  ⟨.refl r, Combination.fits_object h hd node, UnifyError.plain,
    Returns.objectTyping_iff fun p hp => (h p hp).within.needs.closed⟩

theorem combines_conditional {test consequent alternate : Typing VarId} (ht : test.Fits names r.supply.types)
    (hc : consequent.Fits names r.supply.types) (ha : alternate.Fits names r.supply.types) (testNode : Node) :
    Combines names (Infer.conditionalTyping · testNode test consequent alternate) r
      (.conditional testNode test consequent alternate) r :=
  .of_eq (Combination.fits_conditional ht hc ha testNode) UnifyError.plain fun _ => rfl

theorem combines_call {callee : Typing VarId} {args : List (Typing VarId)} (hc : callee.Fits names r.supply.types)
    (ha : ∀ t ∈ args, t.Fits names r.supply.types) (node calleeNode : Node) :
    Combines names (Infer.callTyping · node calleeNode callee args) r
      (.call node (.var r.supply.types (some node)) callee args) (r.skip 1) := by
  have hle := (r.le_skip 1).types
  exact .of_fresh (Combination.call node · callee args)
    (Combination.fits_call (hc.le hle) (fun t ht => (ha t ht).le hle) (.var (freshVar_lt r) _) node)
    (fun e => Id.run (e.inCall node calleeNode callee args)) fun _ => rfl

theorem combines_template {parts : List (Typing VarId)} (h : ∀ t ∈ parts, t.Fits names r.supply.types)
    (node : Node) : Combines names (Infer.templateTyping · node parts) r (.template node parts) r := by
  refine .of_eq (Combination.fits_template h node) UnifyError.plain fun steps => ?_
  simp only [Infer.templateTyping, Infer.combine, Combination.template, Ty.under_leaf]

theorem combines_block {b : Block} (h : ∀ t ∈ b.typings, t.Fits names r.supply.types)
    (hr : b.result.Fits names r.supply.types) :
    Combines names (Infer.blockTyping · b) r (.block b.typings b.result) r :=
  .of_eq (Combination.fits_block h hr) UnifyError.plain fun _ => rfl

end Combines

/-! Functions. -/

namespace Infer

/-- What is asked of the names that a function bound to a name binds. A parameter of that name hides it. -/
def askedDef (name : String) (t : Ty VarId) (params : Assoc (Ty VarId)) : Assoc (Ty VarId) :=
  if params.any fun p => p.1 == name then params else (name, t) :: params

def absResult (node : Node) (params : Assoc (Ty VarId)) (body : Typing VarId) (bs : List (Binding VarId)) :
    Typing VarId :=
  ⟨(takeParams bs (Requirements.joinUnder bs [body.needs]) params).1,
    .arrow (takeParams bs (Requirements.joinUnder bs [body.needs]) params).2 (body.type.under bs) (some node)⟩

def defResult (name : String) (t : Ty VarId) (params : Assoc (Ty VarId)) (body : Typing VarId)
    (bs : List (Binding VarId)) : Typing VarId :=
  if params.any fun p => p.1 == name then
    ⟨dropParams (Requirements.joinUnder bs [body.needs]) params, t.under bs⟩
  else
    let needs := Requirements.joinUnder bs [[(name, t)], body.needs]
    ⟨dropParams (Assoc.erase needs name) params, (Assoc.get? needs name).getD (t.under bs)⟩

theorem absTyping_eq (steps : Nat) (node : Node) (params : Assoc (Ty VarId)) (body : Typing VarId) :
    absTyping steps node params body = close steps params body (absResult node params body) := rfl

theorem defTyping_eq (steps : Nat) (name : String) (node : Node) (params : Assoc (Ty VarId))
    (body : Typing VarId) :
    defTyping steps name node params body =
      close steps (askedDef name (.arrow (params.map Prod.snd) body.type (some node)) params) body
        (defResult name (.arrow (params.map Prod.snd) body.type (some node)) params body) := by
  by_cases h : (params.any fun p => p.1 == name) = true
  · simp only [defTyping, close, askedDef, defResult, h, if_true]
  · simp only [defTyping, close, askedDef, defResult, h, if_false, List.map_cons, List.cons_append,
      Bool.false_eq_true]

end Infer

section Closes

variable {params : Assoc (Ty VarId)} {body : Typing VarId} {names : List String}
  (hparams : Requirements.Closed params) (hbody : body.Within names)

/-- The type of a function over its parameters. -/
theorem arrow_type (hparams : Requirements.Closed params) (hbody : body.Within names) (node : Node) :
    (Ty.arrow (params.map Prod.snd) body.type (some node)).Closed ∧
      (∀ n, Requirements.Below n params → body.Below n →
        (Ty.arrow (params.map Prod.snd) body.type (some node)).mono.Below n) ∧
      ∀ θ, (Ty.arrow (params.map Prod.snd) body.type (some node)).mono.subst θ =
        .arrow (params.map fun p => p.2.mono.subst θ) (body.type.mono.subst θ) := by
  refine ⟨.arrow _ (List.forall_mem_map.mpr fun p hp => hparams p hp) hbody.type, fun n hp hb v hv => ?_, fun θ => ?_⟩
  · rw [Ty.mono_arrow, Mono.mem_vars_arrow] at hv
    rcases hv with ⟨m, hm, hv⟩ | hv
    · rw [List.map_map] at hm
      obtain ⟨p, hpm, rfl⟩ := List.mem_map.mp hm
      exact hp p hpm v hv
    · exact hb.type v hv
  · rw [Ty.mono_arrow, Mono.subst_arrow, List.map_map, List.map_map]
    rfl

/-- The types that parameters have come to, before the bindings. -/
theorem takeParams_origin {bs : List (Binding VarId)} {us : List (Ty VarId)}
    (h : List.Forall₂ (fun p u => (p.1, u) ∈ Requirements.joinUnder bs [body.needs] ∨ u = p.2.under bs) params us) :
    ∃ ws : List (Ty VarId), ws.map (·.under bs) = us ∧ (∀ w ∈ ws, ∃ y, (y, w) ∈ params ++ body.needs) ∧
      ∀ θ M, Requirements.Meets θ M body.needs → Requirements.Meets θ M params →
        ws.map (fun w => w.mono.subst θ) = params.map fun p => p.2.mono.subst θ := by
  induction h with
  | nil => exact ⟨[], rfl, by simp, fun _ _ _ _ => rfl⟩
  | @cons p u params us hu _ ih =>
      obtain ⟨ws, rfl, hws, hsame⟩ := ih
      have hws' : ∀ w ∈ ws, ∃ y, (y, w) ∈ p :: params ++ body.needs :=
        fun w hw => (hws w hw).imp fun y hy => List.mem_cons_of_mem _ hy
      rcases hu with hu | rfl
      · obtain ⟨w, hw, rfl⟩ := Requirements.mem_joinUnder hu
        rw [List.flatten_singleton] at hw
        refine ⟨w :: ws, rfl, List.forall_mem_cons.mpr ⟨⟨p.1, ?_⟩, hws'⟩, fun θ M hM hp => ?_⟩
        · exact List.mem_append_right _ hw
        · obtain ⟨hp, hps⟩ := List.forall_mem_cons.mp hp
          rw [List.map_cons, List.map_cons, hsame θ M hM hps, hp]
          exact congrArg (· :: _) (hM _ hw)
      · refine ⟨p.2 :: ws, rfl, List.forall_mem_cons.mpr ⟨⟨p.1, List.mem_cons_self⟩, hws'⟩, fun θ M hM hp => ?_⟩
        rw [List.map_cons, List.map_cons, hsame θ M hM (List.forall_mem_cons.mp hp).2]

/-- The requirements of a body without those on parameters. -/
theorem dropParams_closes (bs : List (Binding VarId)) {y : String} :
    (∀ {k}, (y, k) ∈ Infer.dropParams (Requirements.joinUnder bs [body.needs]) params →
      y ∉ Assoc.keys params ∧ ∃ w, (y, w) ∈ body.needs ∧ w.under bs = k) ∧
    (y ∈ Assoc.keys body.needs → y ∉ Assoc.keys params →
      y ∈ Assoc.keys (Infer.dropParams (Requirements.joinUnder bs [body.needs]) params)) := by
  have hdrop := (Infer.dropParams_spec (Requirements.joinUnder_distinct bs [body.needs]) params).2
  constructor
  · intro k hk
    obtain ⟨hk, hy⟩ := (hdrop _).mp hk
    obtain ⟨w, hw, he⟩ := Requirements.mem_joinUnder hk
    rw [List.flatten_singleton] at hw
    exact ⟨hy, w, hw, he⟩
  · intro hb hy
    have hj : y ∈ Assoc.keys (Requirements.joinUnder bs [body.needs]) := by
      rwa [Requirements.mem_keys_joinUnder, List.flatten_singleton]
    obtain ⟨k, hk⟩ := Assoc.mem_keys.mp hj
    exact Assoc.mem_keys_of_mem ((hdrop (y, k)).mpr ⟨hk, hy⟩)

include hparams hbody

theorem absResult_closes (node : Node) (bs : List (Binding VarId)) :
    Closes params params body bs (Infer.absResult node params body bs) := by
  have hneeds := @dropParams_closes params body bs
  rw [← Infer.takeParams_fst bs] at hneeds
  obtain ⟨ws, hws, horigin, hsame⟩ := takeParams_origin
    (Infer.takeParams_snd bs (Requirements.joinUnder_distinct bs [body.needs]) params)
  refine ⟨hneeds.1, hneeds.2, .arrow ws body.type (some node), ?_, ?_, fun n hp hb => ?_, fun θ M hM hp => ?_⟩
  · rw [Ty.under_arrow, hws]
    rfl
  · refine .arrow _ (fun w hw => ?_) hbody.type
    obtain ⟨y, hy⟩ := horigin w hw
    exact (List.mem_append.mp hy).elim (hparams _) (hbody.needs.closed _)
  · intro v hv
    rw [Ty.mono_arrow, Mono.mem_vars_arrow] at hv
    rcases hv with ⟨m, hm, hv⟩ | hv
    · obtain ⟨w, hw, rfl⟩ := List.mem_map.mp hm
      obtain ⟨y, hy⟩ := horigin w hw
      exact (List.mem_append.mp hy).elim (fun h => hp _ h v hv) fun h => hb.needs _ h v hv
    · exact hb.type v hv
  · rw [Ty.mono_arrow, Mono.subst_arrow, List.map_map, ← hsame θ M hM hp]
    rfl

theorem defResult_closes (name : String) (node : Node) (bs : List (Binding VarId)) :
    let t : Ty VarId := .arrow (params.map Prod.snd) body.type (some node)
    Closes (Infer.askedDef name t params) params body bs (Infer.defResult name t params body bs) := by
  intro t
  obtain ⟨htc, htb, harrow⟩ := arrow_type hparams hbody node
  by_cases h : (params.any fun p => p.1 == name) = true
  · have hneeds := @dropParams_closes params body bs
    rw [Infer.askedDef, if_pos h, Infer.defResult, if_pos h]
    exact ⟨hneeds.1, hneeds.2, t, rfl, htc, htb, fun θ M _ _ => harrow θ⟩
  · rw [Infer.askedDef, if_neg h, Infer.defResult, if_neg h]
    have hd := Requirements.joinUnder_distinct bs [[(name, t)], body.needs]
    have hdrop := (Infer.dropParams_spec (hd.erase name) params).2
    have hflat : [[(name, t)], body.needs].flatten = (name, t) :: body.needs := by simp
    refine ⟨fun {y k} hk => ?_, fun {y} hb hy => ?_, ?_⟩
    · obtain ⟨hk, hy⟩ := (hdrop _).mp hk
      obtain ⟨hk, hne⟩ := (Assoc.mem_erase hd).mp hk
      obtain ⟨w, hw, he⟩ := Requirements.mem_joinUnder hk
      rw [hflat] at hw
      rcases List.mem_cons.mp hw with heq | hw
      · exact (hne (congrArg Prod.fst heq)).elim
      · exact ⟨fun hm => (List.mem_cons.mp hm).elim hne hy, w, hw, he⟩
    · have hj : y ∈ Assoc.keys (Requirements.joinUnder bs [[(name, t)], body.needs]) := by
        rw [Requirements.mem_keys_joinUnder, hflat]
        exact List.mem_cons_of_mem _ hb
      obtain ⟨k, hk⟩ := Assoc.mem_keys.mp hj
      have hne : y ≠ name := fun he => hy (he ▸ List.mem_cons_self)
      refine Assoc.mem_keys_of_mem ((hdrop (y, k)).mpr ⟨(Assoc.mem_erase hd).mpr ⟨hk, hne⟩, ?_⟩)
      exact fun hm => hy (List.mem_cons_of_mem _ hm)
    · -- Among the entries of the name is the function itself.
      obtain ⟨k, hk⟩ : ∃ k, Assoc.get? (Requirements.joinUnder bs [[(name, t)], body.needs]) name = some k := by
        refine Assoc.exists_get?_of_mem_keys (Requirements.mem_keys_joinUnder.mpr ?_)
        rw [hflat]
        exact List.mem_cons_self
      obtain ⟨w, hw, rfl⟩ := Requirements.mem_joinUnder (Assoc.mem_of_get? hk)
      rw [hflat] at hw
      refine ⟨w, (congrArg (Option.getD · (t.under bs)) hk).symm, ?_⟩
      rcases List.mem_cons.mp hw with heq | hw
      · cases heq
        exact ⟨htc, fun n hp => htb n (List.forall_mem_cons.mp hp).2, fun θ M _ _ => harrow θ⟩
      · refine ⟨hbody.needs.closed _ hw, fun n _ hb => hb.needs _ hw, fun θ M hM hp => ?_⟩
        rw [hM _ hw, ← (List.forall_mem_cons.mp hp).1]
        exact harrow θ

end Closes

section Abstracts

variable {n : VarId} {ids : List Ident} {body : Typing VarId} {names : List String} (hbody : body.Within names)
  (hd : (ids.map Ident.label).Nodup)

theorem closed_paramsFrom (n : VarId) (ids : List Ident) : Requirements.Closed (paramsFrom n ids) := by
  rintro ⟨x, t⟩ ht
  obtain ⟨v, rfl, -⟩ := mem_paramsFrom ht
  exact .var v none

theorem distinct_paramsFrom (hd : (ids.map Ident.label).Nodup) (n : VarId) : Assoc.Distinct (paramsFrom n ids) := by
  rwa [Assoc.Distinct, keys_paramsFrom]

theorem below_paramsFrom (n : VarId) (ids : List Ident) :
    Requirements.Below (n + ids.length) (paramsFrom n ids) := by
  rintro ⟨x, t⟩ ht
  obtain ⟨v, rfl, -, hv⟩ := mem_paramsFrom ht
  exact (Ty.Fits.var hv none).below

theorem askedDef_hidden {name : String} (h : name ∈ ids.map Ident.label) (t : Ty VarId) :
    Infer.askedDef name t (paramsFrom n ids) = paramsFrom n ids := by
  rw [← keys_paramsFrom n ids] at h
  exact if_pos (by simpa [Assoc.keys] using h)

theorem askedDef_own {name : String} (h : name ∉ ids.map Ident.label) (t : Ty VarId) :
    Infer.askedDef name t (paramsFrom n ids) = (name, t) :: paramsFrom n ids := by
  rw [← keys_paramsFrom n ids] at h
  exact if_neg (by simpa [Assoc.keys] using h)

include hbody hd

theorem absResult_abstracts (node : Node) :
    Abstracts (ids.map Ident.label) (paramsFrom n ids) body (paramsFrom n ids)
      (Infer.absResult node (paramsFrom n ids) body) where
  closed := closed_paramsFrom n ids
  distinct := distinct_paramsFrom hd n
  keys x := by rw [keys_paramsFrom]
  includes _ := id
  entries _ := .inl
  below h _ := h
  closes bs _ := absResult_closes (closed_paramsFrom n ids) hbody node bs

theorem defResult_abstracts (name : String) (node : Node) :
    let t : Ty VarId := .arrow ((paramsFrom n ids).map Prod.snd) body.type (some node)
    Abstracts (ids.map Ident.label ++ [name]) (paramsFrom n ids) body (Infer.askedDef name t (paramsFrom n ids))
      (Infer.defResult name t (paramsFrom n ids) body) := by
  intro t
  have hcloses : ∀ bs, (∀ b ∈ bs, b.Closed) → Closes (Infer.askedDef name t (paramsFrom n ids)) (paramsFrom n ids)
      body bs (Infer.defResult name t (paramsFrom n ids) body bs) :=
    fun bs _ => defResult_closes (closed_paramsFrom n ids) hbody name node bs
  have hkeys := keys_paramsFrom n ids
  obtain ⟨htc, htb, harrow⟩ := arrow_type (closed_paramsFrom n ids) hbody node
  by_cases h : name ∈ ids.map Ident.label
  · rw [askedDef_hidden h] at hcloses ⊢
    refine ⟨closed_paramsFrom n ids, distinct_paramsFrom hd n, fun x => ?_, fun _ => id, fun _ => .inl,
      fun h _ => h, hcloses⟩
    rw [hkeys, List.mem_append, List.mem_singleton]
    exact ⟨.inl, fun hx => hx.elim id fun he => he ▸ h⟩
  · rw [askedDef_own h] at hcloses ⊢
    refine ⟨List.forall_mem_cons.mpr ⟨htc, closed_paramsFrom n ids⟩,
      Assoc.distinct_cons.mpr ⟨hkeys.symm ▸ h, distinct_paramsFrom hd n⟩, fun x => ?_,
      fun p hp => List.mem_cons_of_mem _ hp, List.forall_mem_cons.mpr ⟨.inr harrow, fun _ => .inl⟩,
      fun hp hb => List.forall_mem_cons.mpr ⟨htb _ hp hb, hp⟩, hcloses⟩
    rw [← hkeys]
    simp only [Assoc.keys, List.map_cons, List.mem_cons, List.mem_append, List.not_mem_nil, or_false]
    exact or_comm

end Abstracts

end ScriptTypes
