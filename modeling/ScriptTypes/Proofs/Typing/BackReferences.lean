import ScriptTypes.Proofs.Script.Marks
import ScriptTypes.Proofs.Typing.Places

/-! Errors point into the script. Inference neither makes up nodes and positions nor looks at them. So an error about a
script whose nodes and positions are kept is kept, whatever is done with all others: it has no others. -/

namespace ScriptTypes

/-! The nodes that types come from. -/

namespace Ty

variable {V W : Type}

mutual

/-- All nodes that a type and its parts come from. -/
def srcs : Ty V → List Node
  | .leaf _ s | .var _ s | .rowVar _ s => s.toList
  | .arrow d r s => srcsList d ++ srcs r ++ s.toList
  | .con _ as s => srcsList as ++ s.toList
  | .record rows s => srcsRows rows ++ s.toList

def srcsList : List (Ty V) → List Node
  | [] => []
  | t :: ts => srcs t ++ srcsList ts

def srcsRows : List (Row V (Ty V)) → List Node
  | [] => []
  | .fields fs :: rows => srcsFields fs ++ srcsRows rows
  | .var v :: rows => v.src.toList ++ srcsRows rows

def srcsFields : List (String × Ty V) → List Node
  | [] => []
  | (_, t) :: fs => srcs t ++ srcsFields fs

end

theorem mem_srcs_of_src {t : Ty V} {n : Node} (h : t.src = some n) : n ∈ t.srcs := by
  cases t <;> cases h <;> simp [srcs]

variable (f : Kind → V → W) (g : Node → Node)

mutual

theorem srcs_relabel (t : Ty V) : (t.relabel f g).srcs = t.srcs.map g := by
  match t with
  | .leaf l s | .var v s | .rowVar v s => cases s <;> rfl
  | .arrow d r s =>
      rw [relabel, srcs, srcs, srcsList_relabel d, srcs_relabel r, List.map_append, List.map_append]
      cases s <;> rfl
  | .con n as s =>
      rw [relabel, srcs, srcs, srcsList_relabel as, List.map_append]
      cases s <;> rfl
  | .record rows s =>
      rw [relabel, srcs, srcs, srcsRows_relabel rows, List.map_append]
      cases s <;> rfl

theorem srcsList_relabel (ts : List (Ty V)) : srcsList (relabelList f g ts) = (srcsList ts).map g := by
  match ts with
  | [] => rfl
  | t :: ts => rw [relabelList, srcsList, srcsList, srcs_relabel t, srcsList_relabel ts, List.map_append]

theorem srcsRows_relabel (rows : List (Row V (Ty V))) : srcsRows (relabelRows f g rows) = (srcsRows rows).map g := by
  match rows with
  | [] => rfl
  | .fields fs :: rows =>
      rw [relabelRows, srcsRows, srcsRows, srcsFields_relabel fs, srcsRows_relabel rows, List.map_append]
  | .var v :: rows =>
      rw [relabelRows, srcsRows, srcsRows, srcsRows_relabel rows, List.map_append, RowVar.relabel]
      cases v.src <;> rfl

theorem srcsFields_relabel (fs : List (String × Ty V)) : srcsFields (relabelFields f g fs) = (srcsFields fs).map g := by
  match fs with
  | [] => rfl
  | (l, t) :: fs => rw [relabelFields, srcsFields, srcsFields, srcs_relabel t, srcsFields_relabel fs, List.map_append]

end

theorem srcs_map (t : Ty V) : (t.map f).srcs = t.srcs := by
  rw [map_eq_relabel, srcs_relabel, List.map_id]

end Ty

namespace Typing

variable {V W : Type}

def srcs (t : Typing V) : List Node :=
  t.needs.flatMap (fun e => e.2.srcs) ++ t.type.srcs

theorem srcs_relabel (φ : String → String) (f : Kind → V → W) (g : Node → Node) (t : Typing V) :
    (t.relabel φ f g).srcs = t.srcs.map g := by
  simp only [srcs, relabel, Assoc.rename, List.flatMap_map, Ty.srcs_relabel, List.map_append, List.map_flatMap]

theorem srcs_map (f : Kind → V → W) (t : Typing V) : (t.map f).srcs = t.srcs := by
  simp only [srcs, map, List.flatMap_map, Ty.srcs_map]

end Typing

/-! The marks of errors: all nodes and positions in them, those of what lies behind an error included. -/

namespace TypeError

variable {V W : Type}

/-- The nodes that the types of an error come from. -/
def srcs : TypeError V → List Node
  | .mismatch l r => l.srcs ++ r.srcs
  | .callArgument _ _ t args _ cause => (t :: args).flatMap Typing.srcs ++ cause.srcs
  | .arrayLiteral _ elems cause => elems.flatMap Typing.srcs ++ cause.srcs
  | .noSuchProperty _ t _ | .notAnObject _ t _ => t.srcs

def marks : TypeError V → List Mark
  | .mismatch l r => (l.srcs ++ r.srcs).map .node
  | .callArgument call callee t args _ cause =>
      .node call :: .node callee :: ((t :: args).flatMap Typing.srcs).map .node ++ cause.marks
  | .arrayLiteral node elems cause => .node node :: (elems.flatMap Typing.srcs).map .node ++ cause.marks
  | .noSuchProperty node t label | .notAnObject node t label => .node node :: .place label.pos :: t.srcs.map .node

theorem srcs_subset_marks (e : TypeError V) {n : Node} (h : n ∈ e.srcs) : .node n ∈ e.marks := by
  induction e with
  | mismatch l r => exact List.mem_map_of_mem h
  | callArgument call callee t args bad cause ih =>
      rcases List.mem_append.mp h with h | h
      · exact List.mem_append_left _ (List.mem_cons_of_mem _ (List.mem_cons_of_mem _ (List.mem_map_of_mem h)))
      · exact List.mem_append_right _ (ih h)
  | arrayLiteral node elems cause ih =>
      rcases List.mem_append.mp h with h | h
      · exact List.mem_append_left _ (List.mem_cons_of_mem _ (List.mem_map_of_mem h))
      · exact List.mem_append_right _ (ih h)
  | noSuchProperty node t label | notAnObject node t label =>
      exact List.mem_cons_of_mem _ (List.mem_cons_of_mem _ (List.mem_map_of_mem h))

theorem marks_map (f : Kind → V → W) (e : TypeError V) : (e.map f).marks = e.marks := by
  induction e with
  | mismatch l r => simp only [map, marks, Ty.srcs_map]
  | callArgument call callee t args bad cause ih =>
      simp only [map, marks, ih, List.flatMap_cons, List.flatMap_map, Typing.srcs_map]
  | arrayLiteral node elems cause ih => simp only [map, marks, ih, List.flatMap_map, Typing.srcs_map]
  | noSuchProperty node t label | notAnObject node t label => simp only [map, marks, Ty.srcs_map]

end TypeError

namespace ScopeError

variable {V W : Type}

def srcs : ScopeError V → List Node
  | .multipleRowVars _ t => t.srcs
  | _ => []

def marks : ScopeError V → List Mark
  | .unbound id _ => [.place id.pos]
  | .alreadyDefined id previous | .duplicateLabel id previous => [.place id.pos, .place previous]
  | .unsupported _ pos | .invalidKey pos | .invalidAssumption _ pos => [.place pos]
  | .multipleRowVars pos t => .place pos :: t.srcs.map .node

theorem srcs_subset_marks (e : ScopeError V) {n : Node} (h : n ∈ e.srcs) : .node n ∈ e.marks := by
  cases e with
  | multipleRowVars pos t => exact List.mem_cons_of_mem _ (List.mem_map_of_mem h)
  | _ => cases h

theorem marks_map (f : Kind → V → W) (e : ScopeError V) : (e.map f).marks = e.marks := by
  cases e with
  | multipleRowVars pos t => simp only [map, marks, Ty.srcs_map]
  | _ => rfl

end ScopeError

/-! An error that is its own counterpart has kept all its marks. -/

section Kept

variable {c : Sides} {f : Kind → VarId → VarId}

theorem Mark.kept_of_map_eq {ns : List Node} (h : ns.map c.node = ns) : Mark.Kept c.node c.pos (ns.map .node) := by
  have hfix : ∀ n ∈ ns, c.node n = n := List.map_inj_left.mp (h.trans (List.map_id ns).symm)
  refine List.forall_mem_map.mpr fun n hn => ?_
  rw [relocate, hfix n hn]

theorem Ty.kept_of_relabel_eq {t : Ty VarId} (h : t = t.relabel f c.node) :
    Mark.Kept c.node c.pos (t.srcs.map .node) := by
  refine Mark.kept_of_map_eq ?_
  rw [← Ty.srcs_relabel f, ← h]

theorem Typing.AllAlike.kept {ts : List (Typing VarId)} (h : AllAlike c f ts ts) :
    Mark.Kept c.node c.pos ((ts.flatMap Typing.srcs).map .node) := by
  obtain ⟨φ, -, hts⟩ := h
  have hsrcs : ∀ (φ : String → String) (ts : List (Typing VarId)),
      (ts.map (Typing.relabel φ f c.node)).flatMap Typing.srcs = (ts.flatMap Typing.srcs).map c.node := by
    intro φ ts
    simp only [List.flatMap_map, Typing.srcs_relabel, List.map_flatMap]
  refine Mark.kept_of_map_eq ?_
  rw [← hsrcs φ, ← hts]

theorem TypeError.Alike.marks_kept {e : TypeError VarId} (h : e.Alike c f e) : Mark.Kept c.node c.pos e.marks := by
  induction e with
  | mismatch l r =>
      obtain ⟨hl, hr⟩ := h
      rw [marks, List.map_append, Mark.kept_append]
      exact ⟨Ty.kept_of_relabel_eq hl, Ty.kept_of_relabel_eq hr⟩
  | callArgument call callee t args bad cause ih =>
      obtain ⟨⟨hcall, hcallee, -⟩, hts, hcause⟩ := h
      rw [marks, List.cons_append, List.cons_append, Mark.kept_node, Mark.kept_node, Mark.kept_append]
      exact ⟨hcall.symm, hcallee.symm, hts.kept, ih hcause⟩
  | arrayLiteral node elems cause ih =>
      obtain ⟨hnode, hts, hcause⟩ := h
      rw [marks, List.cons_append, Mark.kept_node, Mark.kept_append]
      exact ⟨hnode.symm, hts.kept, ih hcause⟩
  | noSuchProperty node t label | notAnObject node t label =>
      obtain ⟨hnode, ht, hlabel⟩ := h
      rw [marks, Mark.kept_node, Mark.kept_place]
      exact ⟨hnode.symm, (congrArg Ident.pos hlabel).symm, Ty.kept_of_relabel_eq ht⟩

theorem ScopeError.Alike.marks_kept {e : ScopeError VarId} (h : e.Alike c f e) : Mark.Kept c.node c.pos e.marks := by
  cases e with
  | unbound id names =>
      obtain ⟨hid, -⟩ := h
      exact Mark.kept_place.mpr ⟨hid.symm, Mark.kept_nil⟩
  | alreadyDefined id previous =>
      obtain ⟨hid, hprevious, -⟩ := h
      exact Mark.kept_place.mpr ⟨hid.symm, Mark.kept_place.mpr ⟨hprevious.symm, Mark.kept_nil⟩⟩
  | duplicateLabel label previous =>
      obtain ⟨hlabel, hprevious⟩ := h
      have hlabel := (congrArg Ident.pos hlabel).symm
      exact Mark.kept_place.mpr ⟨hlabel, Mark.kept_place.mpr ⟨hprevious.symm, Mark.kept_nil⟩⟩
  | unsupported text pos | invalidAssumption text pos => exact Mark.kept_place.mpr ⟨h.2.symm, Mark.kept_nil⟩
  | invalidKey pos => exact Mark.kept_place.mpr ⟨Eq.symm h, Mark.kept_nil⟩
  | multipleRowVars pos t =>
      obtain ⟨hpos, ht⟩ := h
      exact Mark.kept_place.mpr ⟨hpos.symm, Ty.kept_of_relabel_eq ht⟩

end Kept

/-! Scripts. -/

/-- The positions in a script, those of its nodes included. -/
def Script.places (s : Script) : List Position :=
  s.marks.map Mark.pos

/-- A mark that a script has. A position may also be missing. -/
def Script.Has (s : Script) : Mark → Prop
  | .node n => n ∈ s.nodes
  | .place pos => pos = none ∨ pos ∈ s.places

namespace Script

variable (s : Script)

/-- Keep the positions that a script has, and forget all others. -/
def keepPlace (pos : Position) : Position :=
  if pos ∈ s.places then pos else none

/-- Keep the nodes that a script has, and no others. -/
def keepNode (n : Node) : Node :=
  if n ∈ s.nodes then n else ⟨n.id + 1, s.keepPlace n.pos⟩

theorem pos_mem_places {n : Node} (h : n ∈ s.nodes) : n.pos ∈ s.places :=
  List.mem_map.mpr ⟨.node n, mem_nodes.mp h, rfl⟩

theorem pos_keepNode (n : Node) : (s.keepNode n).pos = s.keepPlace n.pos := by
  unfold keepNode
  split
  · rename_i h
    rw [keepPlace, if_pos (s.pos_mem_places h)]
  · rfl

theorem keepPlace_none : s.keepPlace none = none := by
  unfold keepPlace
  split <;> rfl

theorem kept_marks : Mark.Kept s.keepNode s.keepPlace s.marks := by
  intro m hm
  cases m with
  | node n => rw [Mark.relocate, keepNode, if_pos (mem_nodes.mpr hm)]
  | place pos =>
      have hpos : pos ∈ s.places := List.mem_map.mpr ⟨_, hm, rfl⟩
      rw [Mark.relocate, keepPlace, if_pos hpos]

theorem has_of_kept {m : Mark} (h : m.relocate s.keepNode s.keepPlace = m) : s.Has m := by
  cases m with
  | node n =>
      have h : s.keepNode n = n := Mark.node.inj h
      unfold keepNode at h
      split at h
      · assumption
      · exact absurd (congrArg Node.id h) (Nat.succ_ne_self n.id)
  | place pos =>
      have h : s.keepPlace pos = pos := Mark.place.inj h
      unfold keepPlace at h
      split at h
      · exact .inr ‹_›
      · exact .inl h.symm

/-- A run over a script next to itself. -/
def keeping (steps : Nat) : Sides where
  steps := steps
  steps' := steps
  first := true
  lower := ⟨fun _ => Nat.le_refl steps, fun _ => Nat.le_refl steps⟩
  node := s.keepNode
  pos := s.keepPlace
  pos_node := s.pos_keepNode
  pos_none := s.keepPlace_none
  kept := True

/-- A failure of a run over a script is its own counterpart when the nodes and positions of the script are kept. -/
theorem run_alike {s : Script} {steps : Nat} {b : Block} {e : Failure VarId} {r : Run}
    (h : s.run steps = ((b, some e), r)) (hfin : e ≠ .unfinished) :
    e.Alike (s.keeping steps) (fun _ v => v) e := by
  have hbody : relocateStmts s.keepNode s.keepPlace s.body = s.body :=
    relocateStmts_of_kept s.body (Mark.kept_append.mp s.kept_marks).1
  have hr : (s.keeping steps).Renames (fun _ v => v) Run.initial.supply Run.initial.supply :=
    ⟨⟨fun _ => Function.injective_id, fun _ => rfl, fun _ => rfl⟩, fun _ => rfl⟩
  rw [run_eq] at h
  have h' : Infer.script steps (Block.relocate s.keepNode s.keepPlace ⟨.empty, [], none⟩)
      (relocateStmts s.keepNode s.keepPlace s.body) .initial = ((b, some e), r) := by
    rw [hbody]
    exact h
  have hfin : some e ≠ some .unfinished := fun he => hfin (Option.some.inj he)
  obtain ⟨-, halike⟩ := Infer.script_echoes (c := s.keeping steps) trivial s.body hr h h' (fun _ => hfin) nofun
  cases halike with
  | some h => exact h

variable {s} {steps : Nat}

/-- All nodes and positions in the type error of a script are from the script. -/
theorem has_of_typeError {env : Env VarId} {e : TypeError VarId} (h : s.infer steps = .ok ⟨env, some e⟩) :
    ∀ m ∈ e.marks, s.Has m := by
  obtain ⟨b, error, r, hrun, hinfer⟩ := s.infer_cases steps
  rw [hinfer] at h
  rcases error with _ | e' | e' | _ <;> cases h
  have halike : e.Alike (s.keeping steps) (fun _ v => v) e := run_alike hrun nofun
  exact fun m hm => s.has_of_kept (halike.marks_kept m hm)

/-- All nodes and positions in an error of scope are from the script. -/
theorem has_of_scopeError {e : ScopeError VarId} (h : s.infer steps = .error (.scope e)) :
    ∀ m ∈ e.marks, s.Has m := by
  obtain ⟨b, error, r, hrun, hinfer⟩ := s.infer_cases steps
  rw [hinfer] at h
  rcases error with _ | e' | e' | _ <;> cases h
  have halike : e.Alike (s.keeping steps) (fun _ v => v) e := run_alike hrun nofun
  exact fun m hm => s.has_of_kept (halike.marks_kept m hm)

end Script

end ScriptTypes
