import ScriptTypes.Proofs.Typing.Syntax

/-! Syntax trees at other places: with other nodes and positions, and all else kept. -/

namespace ScriptTypes

section Relocate

variable (g : Node → Node) (h : Position → Position)

def Ident.relocate (id : Ident) : Ident :=
  ⟨id.label, h id.pos⟩

def Pattern.relocate : Pattern → Pattern
  | .ident id => .ident (id.relocate h)
  | .object ids pos => .object (ids.map (Ident.relocate h)) (h pos)
  | .array ids pos => .array (ids.map (Ident.relocate h)) (h pos)

mutual

def Expr.relocate : Expr → Expr
  | .literal node value => .literal (g node) value
  | .ident node id => .ident (g node) (id.relocate h)
  | .array node es => .array (g node) (relocateExprs es)
  | .object node ps => .object (g node) (relocateProperties ps)
  | .member node o label => .member (g node) o.relocate (label.relocate h)
  | .index node o k => .index (g node) o.relocate k.relocate
  | .binary node op a b => .binary (g node) op a.relocate b.relocate
  | .unary node op a => .unary (g node) op a.relocate
  | .conditional node t a b => .conditional (g node) t.relocate a.relocate b.relocate
  | .arrow node ps body => .arrow (g node) (ps.map (Pattern.relocate h)) body.relocate
  | .call node f as => .call (g node) f.relocate (relocateExprs as)
  | .template node q => .template (g node) q.relocate
  | .tagged node t q => .tagged (g node) t.relocate q.relocate
  | .assign node t v => .assign (g node) t.relocate v.relocate

def relocateExprs : List Expr → List Expr
  | [] => []
  | e :: es => e.relocate :: relocateExprs es

def relocateProperties : List Property → List Property
  | [] => []
  | .mk key value pos :: ps => .mk key.relocate value.relocate (h pos) :: relocateProperties ps

def PropertyKey.relocate : PropertyKey → PropertyKey
  | .ident id => .ident (id.relocate h)
  | .literal value pos => .literal value (h pos)
  | .computed e => .computed e.relocate

def Body.relocate : Body → Body
  | .expr e => .expr e.relocate
  | .block ss pos => .block (relocateStmts ss) (h pos)

def Template.relocate : Template → Template
  | .mk texts es pos => .mk texts (relocateExprs es) (h pos)

def Stmt.relocate : Stmt → Stmt
  | .decl node kind ds => .decl (g node) kind (relocateDeclarators ds)
  | .expr node e => .expr (g node) e.relocate
  | .ret node e => .ret (g node) (relocateOption e)
  | .block node ss => .block (g node) (relocateStmts ss)
  | .cond node t a b => .cond (g node) t.relocate a.relocate (relocateBranch b)
  | .loop node t a => .loop (g node) t.relocate a.relocate

def relocateStmts : List Stmt → List Stmt
  | [] => []
  | s :: ss => s.relocate :: relocateStmts ss

def Declarator.relocate : Declarator → Declarator
  | .mk p e pos => .mk (p.relocate h) (relocateOption e) (h pos)

def relocateDeclarators : List Declarator → List Declarator
  | [] => []
  | d :: ds => d.relocate :: relocateDeclarators ds

def relocateOption : Option Expr → Option Expr
  | none => none
  | some e => some e.relocate

def relocateBranch : Option Stmt → Option Stmt
  | none => none
  | some s => some s.relocate

end

def Property.relocate : Property → Property
  | .mk key value pos => .mk (key.relocate g h) (value.relocate g h) (h pos)

def Script.relocate (s : Script) : Script :=
  ⟨relocateStmts g h s.body, h s.pos⟩

end Relocate

/-- A node of which nothing is known. -/
def Node.blank : Node := ⟨0, none⟩

/-! Trees without their nodes and positions. -/

def Ident.erase (id : Ident) : Ident :=
  id.relocate fun _ => none

def Pattern.erase (p : Pattern) : Pattern :=
  p.relocate fun _ => none

def Expr.erase (e : Expr) : Expr :=
  e.relocate (fun _ => .blank) fun _ => none

def Property.erase (p : Property) : Property :=
  p.relocate (fun _ => .blank) fun _ => none

def Template.erase (q : Template) : Template :=
  q.relocate (fun _ => .blank) fun _ => none

def Declarator.erase (d : Declarator) : Declarator :=
  d.relocate (fun _ => .blank) fun _ => none

def Stmt.erase (s : Stmt) : Stmt :=
  s.relocate (fun _ => .blank) fun _ => none

/-- A script without its nodes and positions. -/
def Script.erase (s : Script) : Script :=
  s.relocate (fun _ => .blank) fun _ => none

section Shapes

variable {g : Node → Node} {h : Position → Position}

@[simp] theorem Expr.node_relocate (e : Expr) : (e.relocate g h).node = g e.node := by
  cases e <;> simp only [relocate, node]

theorem Expr.isArrow_relocate (e : Expr) : (e.relocate g h).isArrow = e.isArrow := by
  cases e <;> simp only [relocate, isArrow]

theorem relocateProperties_cons (p : Property) (ps : List Property) :
    relocateProperties g h (p :: ps) = p.relocate g h :: relocateProperties g h ps := by
  obtain ⟨key, value, pos⟩ := p
  rfl

theorem relocateExprs_eq_map (es : List Expr) : relocateExprs g h es = es.map (Expr.relocate g h) := by
  induction es with
  | nil => rfl
  | cons e es ih => rw [relocateExprs, ih, List.map_cons]

theorem relocateProperties_eq_map (ps : List Property) :
    relocateProperties g h ps = ps.map (Property.relocate g h) := by
  induction ps with
  | nil => rfl
  | cons p ps ih => rw [relocateProperties_cons, ih, List.map_cons]

theorem relocateDeclarators_eq_map (ds : List Declarator) :
    relocateDeclarators g h ds = ds.map (Declarator.relocate g h) := by
  induction ds with
  | nil => rfl
  | cons d ds ih => rw [relocateDeclarators, ih, List.map_cons]

theorem relocateStmts_eq_map (ss : List Stmt) : relocateStmts g h ss = ss.map (Stmt.relocate g h) := by
  induction ss with
  | nil => rfl
  | cons s ss ih => rw [relocateStmts, ih, List.map_cons]

end Shapes

end ScriptTypes
