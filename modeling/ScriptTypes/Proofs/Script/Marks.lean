import ScriptTypes.Proofs.Script.Relocate

/-! The marks that a syntax tree carries: the nodes of its statements and expressions, and the positions of its names,
patterns, properties, declarators and templates. They are listed as they come in the source, those of a part before the
ones of the whole. -/

namespace ScriptTypes

inductive Mark where
  | node (n : Node)
  | place (pos : Position)

def Mark.pos : Mark → Position
  | .node n => n.pos
  | .place pos => pos

def Mark.node? : Mark → Option Node
  | .node n => some n
  | .place _ => none

def Ident.marks (ids : List Ident) : List Mark :=
  ids.map fun id => .place id.pos

def Pattern.marks : Pattern → List Mark
  | .ident id => [.place id.pos]
  | .object ids pos | .array ids pos => Ident.marks ids ++ [.place pos]

mutual

def Expr.marks : Expr → List Mark
  | .literal node _ => [.node node]
  | .ident node id => [.place id.pos, .node node]
  | .array node es => marksExprs es ++ [.node node]
  | .object node ps => marksProperties ps ++ [.node node]
  | .member node o label => o.marks ++ [.place label.pos, .node node]
  | .index node o k => o.marks ++ k.marks ++ [.node node]
  | .binary node _ a b => a.marks ++ b.marks ++ [.node node]
  | .unary node _ a => a.marks ++ [.node node]
  | .conditional node t a b => t.marks ++ a.marks ++ b.marks ++ [.node node]
  | .arrow node ps body => ps.flatMap Pattern.marks ++ body.marks ++ [.node node]
  | .call node f as => f.marks ++ marksExprs as ++ [.node node]
  | .template node q => q.marks ++ [.node node]
  | .tagged node t q => t.marks ++ q.marks ++ [.node node]
  | .assign node t v => t.marks ++ v.marks ++ [.node node]

def marksExprs : List Expr → List Mark
  | [] => []
  | e :: es => e.marks ++ marksExprs es

def Property.marks : Property → List Mark
  | .mk key value pos => key.marks ++ value.marks ++ [.place pos]

def marksProperties : List Property → List Mark
  | [] => []
  | p :: ps => p.marks ++ marksProperties ps

def PropertyKey.marks : PropertyKey → List Mark
  | .ident id => [.place id.pos]
  | .literal _ pos => [.place pos]
  | .computed e => e.marks

def Body.marks : Body → List Mark
  | .expr e => e.marks
  | .block ss pos => marksStmts ss ++ [.place pos]

def Template.marks : Template → List Mark
  | .mk _ es pos => marksExprs es ++ [.place pos]

def Stmt.marks : Stmt → List Mark
  | .decl node _ ds => marksDeclarators ds ++ [.node node]
  | .expr node e => e.marks ++ [.node node]
  | .ret node e => marksOption e ++ [.node node]
  | .block node ss => marksStmts ss ++ [.node node]
  | .cond node t a b => t.marks ++ a.marks ++ marksBranch b ++ [.node node]
  | .loop node t a => t.marks ++ a.marks ++ [.node node]

def marksStmts : List Stmt → List Mark
  | [] => []
  | s :: ss => s.marks ++ marksStmts ss

def Declarator.marks : Declarator → List Mark
  | .mk p e pos => p.marks ++ marksOption e ++ [.place pos]

def marksDeclarators : List Declarator → List Mark
  | [] => []
  | d :: ds => d.marks ++ marksDeclarators ds

def marksOption : Option Expr → List Mark
  | none => []
  | some e => e.marks

def marksBranch : Option Stmt → List Mark
  | none => []
  | some s => s.marks

end

def Script.marks (s : Script) : List Mark :=
  marksStmts s.body ++ [.place s.pos]

/-- The nodes of a script, those of a part before the one of the whole. -/
def Script.nodes (s : Script) : List Node :=
  s.marks.filterMap Mark.node?

theorem Script.mem_nodes {s : Script} {n : Node} : n ∈ s.nodes ↔ .node n ∈ s.marks := by
  rw [nodes, List.mem_filterMap]
  constructor
  · rintro ⟨m, hm, hn⟩
    cases m with
    | node n' =>
        cases hn
        exact hm
    | place pos => cases hn
  · exact fun h => ⟨_, h, rfl⟩

/-! A tree whose marks are kept is kept. -/

section Kept

variable {g : Node → Node} {h : Position → Position}

def Mark.relocate (g : Node → Node) (h : Position → Position) : Mark → Mark
  | .node n => .node (g n)
  | .place pos => .place (h pos)

/-- Marks that stay where they are. -/
def Mark.Kept (g : Node → Node) (h : Position → Position) (ms : List Mark) : Prop :=
  ∀ m ∈ ms, m.relocate g h = m

namespace Mark

@[simp] theorem kept_nil : Kept g h [] := nofun

@[simp] theorem kept_append {ms ms' : List Mark} : Kept g h (ms ++ ms') ↔ Kept g h ms ∧ Kept g h ms' :=
  List.forall_mem_append

@[simp] theorem kept_node {n : Node} {ms : List Mark} : Kept g h (.node n :: ms) ↔ g n = n ∧ Kept g h ms := by
  simp [Kept, relocate]

@[simp] theorem kept_place {pos : Position} {ms : List Mark} :
    Kept g h (.place pos :: ms) ↔ h pos = pos ∧ Kept g h ms := by
  simp [Kept, relocate]

end Mark

theorem Ident.relocate_of_kept {id : Ident} (hpos : h id.pos = id.pos) : id.relocate h = id :=
  congrArg (Ident.mk id.label) hpos

theorem Ident.map_relocate_of_kept {ids : List Ident} (hm : Mark.Kept g h (marks ids)) :
    ids.map (Ident.relocate h) = ids := by
  refine (List.map_congr_left fun id hid => ?_).trans (List.map_id ids)
  exact relocate_of_kept (Mark.place.inj (hm _ (List.mem_map_of_mem hid)))

theorem Pattern.relocate_of_kept {p : Pattern} (hm : Mark.Kept g h p.marks) : p.relocate h = p := by
  cases p with
  | ident id => exact congrArg Pattern.ident (Ident.relocate_of_kept (Mark.kept_place.mp hm).1)
  | object ids pos | array ids pos =>
      simp only [marks, Mark.kept_append, Mark.kept_place] at hm
      rw [relocate, Ident.map_relocate_of_kept hm.1, hm.2.1]

theorem Pattern.map_relocate_of_kept {ps : List Pattern} (hm : Mark.Kept g h (ps.flatMap marks)) :
    ps.map (Pattern.relocate h) = ps := by
  refine (List.map_congr_left fun p hp => ?_).trans (List.map_id ps)
  exact relocate_of_kept fun m hmp => hm m (List.mem_flatMap.mpr ⟨p, hp, hmp⟩)

mutual

theorem Expr.relocate_of_kept (e : Expr) (hm : Mark.Kept g h e.marks) : e.relocate g h = e := by
  match e with
  | .literal node value =>
      simp only [Expr.marks, Mark.kept_node] at hm
      rw [Expr.relocate, hm.1]
  | .ident node id =>
      simp only [Expr.marks, Mark.kept_node, Mark.kept_place] at hm
      rw [Expr.relocate, hm.2.1, id.relocate_of_kept hm.1]
  | .array node es =>
      simp only [Expr.marks, Mark.kept_append, Mark.kept_node] at hm
      rw [Expr.relocate, relocateExprs_of_kept es hm.1, hm.2.1]
  | .object node ps =>
      simp only [Expr.marks, Mark.kept_append, Mark.kept_node] at hm
      rw [Expr.relocate, relocateProperties_of_kept ps hm.1, hm.2.1]
  | .member node o label =>
      simp only [Expr.marks, Mark.kept_append, Mark.kept_node, Mark.kept_place] at hm
      rw [Expr.relocate, o.relocate_of_kept hm.1, label.relocate_of_kept hm.2.1, hm.2.2.1]
  | .index node o k =>
      simp only [Expr.marks, Mark.kept_append, Mark.kept_node] at hm
      rw [Expr.relocate, o.relocate_of_kept hm.1.1, k.relocate_of_kept hm.1.2, hm.2.1]
  | .binary node op a b =>
      simp only [Expr.marks, Mark.kept_append, Mark.kept_node] at hm
      rw [Expr.relocate, a.relocate_of_kept hm.1.1, b.relocate_of_kept hm.1.2, hm.2.1]
  | .unary node op a =>
      simp only [Expr.marks, Mark.kept_append, Mark.kept_node] at hm
      rw [Expr.relocate, a.relocate_of_kept hm.1, hm.2.1]
  | .conditional node t a b =>
      simp only [Expr.marks, Mark.kept_append, Mark.kept_node] at hm
      rw [Expr.relocate, t.relocate_of_kept hm.1.1.1, a.relocate_of_kept hm.1.1.2, b.relocate_of_kept hm.1.2, hm.2.1]
  | .arrow node ps body =>
      simp only [Expr.marks, Mark.kept_append, Mark.kept_node] at hm
      rw [Expr.relocate, Pattern.map_relocate_of_kept hm.1.1, body.relocate_of_kept hm.1.2, hm.2.1]
  | .call node f as =>
      simp only [Expr.marks, Mark.kept_append, Mark.kept_node] at hm
      rw [Expr.relocate, f.relocate_of_kept hm.1.1, relocateExprs_of_kept as hm.1.2, hm.2.1]
  | .template node q =>
      simp only [Expr.marks, Mark.kept_append, Mark.kept_node] at hm
      rw [Expr.relocate, q.relocate_of_kept hm.1, hm.2.1]
  | .tagged node t q =>
      simp only [Expr.marks, Mark.kept_append, Mark.kept_node] at hm
      rw [Expr.relocate, t.relocate_of_kept hm.1.1, q.relocate_of_kept hm.1.2, hm.2.1]
  | .assign node t v =>
      simp only [Expr.marks, Mark.kept_append, Mark.kept_node] at hm
      rw [Expr.relocate, t.relocate_of_kept hm.1.1, v.relocate_of_kept hm.1.2, hm.2.1]

theorem relocateExprs_of_kept (es : List Expr) (hm : Mark.Kept g h (marksExprs es)) : relocateExprs g h es = es := by
  match es with
  | [] => rw [relocateExprs]
  | e :: es =>
      simp only [marksExprs, Mark.kept_append] at hm
      rw [relocateExprs, e.relocate_of_kept hm.1, relocateExprs_of_kept es hm.2]

theorem relocateProperties_of_kept (ps : List Property) (hm : Mark.Kept g h (marksProperties ps)) :
    relocateProperties g h ps = ps := by
  match ps with
  | [] => rw [relocateProperties]
  | .mk key value pos :: ps =>
      simp only [marksProperties, Property.marks, Mark.kept_append, Mark.kept_place] at hm
      rw [relocateProperties, key.relocate_of_kept hm.1.1.1, value.relocate_of_kept hm.1.1.2, hm.1.2.1,
        relocateProperties_of_kept ps hm.2]

theorem PropertyKey.relocate_of_kept (key : PropertyKey) (hm : Mark.Kept g h key.marks) : key.relocate g h = key := by
  match key with
  | .ident id =>
      simp only [PropertyKey.marks, Mark.kept_place] at hm
      rw [PropertyKey.relocate, id.relocate_of_kept hm.1]
  | .literal value pos =>
      simp only [PropertyKey.marks, Mark.kept_place] at hm
      rw [PropertyKey.relocate, hm.1]
  | .computed e =>
      rw [PropertyKey.marks] at hm
      rw [PropertyKey.relocate, e.relocate_of_kept hm]

theorem Body.relocate_of_kept (body : Body) (hm : Mark.Kept g h body.marks) : body.relocate g h = body := by
  match body with
  | .expr e =>
      rw [Body.marks] at hm
      rw [Body.relocate, e.relocate_of_kept hm]
  | .block ss pos =>
      simp only [Body.marks, Mark.kept_append, Mark.kept_place] at hm
      rw [Body.relocate, relocateStmts_of_kept ss hm.1, hm.2.1]

theorem Template.relocate_of_kept (q : Template) (hm : Mark.Kept g h q.marks) : q.relocate g h = q := by
  match q with
  | .mk texts es pos =>
      simp only [Template.marks, Mark.kept_append, Mark.kept_place] at hm
      rw [Template.relocate, relocateExprs_of_kept es hm.1, hm.2.1]

theorem Stmt.relocate_of_kept (s : Stmt) (hm : Mark.Kept g h s.marks) : s.relocate g h = s := by
  match s with
  | .decl node kind ds =>
      simp only [Stmt.marks, Mark.kept_append, Mark.kept_node] at hm
      rw [Stmt.relocate, relocateDeclarators_of_kept ds hm.1, hm.2.1]
  | .expr node e =>
      simp only [Stmt.marks, Mark.kept_append, Mark.kept_node] at hm
      rw [Stmt.relocate, e.relocate_of_kept hm.1, hm.2.1]
  | .ret node e =>
      simp only [Stmt.marks, Mark.kept_append, Mark.kept_node] at hm
      rw [Stmt.relocate, relocateOption_of_kept e hm.1, hm.2.1]
  | .block node ss =>
      simp only [Stmt.marks, Mark.kept_append, Mark.kept_node] at hm
      rw [Stmt.relocate, relocateStmts_of_kept ss hm.1, hm.2.1]
  | .cond node t a b =>
      simp only [Stmt.marks, Mark.kept_append, Mark.kept_node] at hm
      rw [Stmt.relocate, t.relocate_of_kept hm.1.1.1, a.relocate_of_kept hm.1.1.2, relocateBranch_of_kept b hm.1.2,
        hm.2.1]
  | .loop node t a =>
      simp only [Stmt.marks, Mark.kept_append, Mark.kept_node] at hm
      rw [Stmt.relocate, t.relocate_of_kept hm.1.1, a.relocate_of_kept hm.1.2, hm.2.1]

theorem relocateStmts_of_kept (ss : List Stmt) (hm : Mark.Kept g h (marksStmts ss)) : relocateStmts g h ss = ss := by
  match ss with
  | [] => rw [relocateStmts]
  | s :: ss =>
      simp only [marksStmts, Mark.kept_append] at hm
      rw [relocateStmts, s.relocate_of_kept hm.1, relocateStmts_of_kept ss hm.2]

theorem Declarator.relocate_of_kept (d : Declarator) (hm : Mark.Kept g h d.marks) : d.relocate g h = d := by
  match d with
  | .mk p e pos =>
      simp only [Declarator.marks, Mark.kept_append, Mark.kept_place] at hm
      rw [Declarator.relocate, Pattern.relocate_of_kept hm.1.1, relocateOption_of_kept e hm.1.2, hm.2.1]

theorem relocateDeclarators_of_kept (ds : List Declarator) (hm : Mark.Kept g h (marksDeclarators ds)) :
    relocateDeclarators g h ds = ds := by
  match ds with
  | [] => rw [relocateDeclarators]
  | d :: ds =>
      simp only [marksDeclarators, Mark.kept_append] at hm
      rw [relocateDeclarators, d.relocate_of_kept hm.1, relocateDeclarators_of_kept ds hm.2]

theorem relocateOption_of_kept (e : Option Expr) (hm : Mark.Kept g h (marksOption e)) : relocateOption g h e = e := by
  match e with
  | none => rw [relocateOption]
  | some e =>
      rw [marksOption] at hm
      rw [relocateOption, e.relocate_of_kept hm]

theorem relocateBranch_of_kept (s : Option Stmt) (hm : Mark.Kept g h (marksBranch s)) : relocateBranch g h s = s := by
  match s with
  | none => rw [relocateBranch]
  | some s =>
      rw [marksBranch] at hm
      rw [relocateBranch, s.relocate_of_kept hm]

end

end Kept

end ScriptTypes
