import ScriptTypes.Proofs.Typing.Syntax

/-! Names in syntax trees. A name is looked up as inference does it: a declaration is in sight in the statements after
it, and a function bound by `let` in its own body too. The parameters of picked functions can be renamed, with the
occurrences that belong to them. Last comes a condition under which nothing that is asked of one binder of a name is
mixed up with what is asked of another one. -/

namespace ScriptTypes

/-- The tag of an assumption, which is not a name. -/
def Expr.isMarker : Expr → Bool
  | .ident _ id => id.label = assumeTag
  | _ => false

/-- The name that an assumption is about. -/
def Template.assumed : Template → List String
  | .mk [text] [] _ => ((Infer.splitAssumption text).map Prod.fst).toList
  | _ => []

def Declarator.labels : Declarator → List String
  | .mk p _ _ => p.labels

/-- The names that a statement brings into sight of the statements after it. -/
def Stmt.bound : Stmt → List String
  | .decl _ _ ds => ds.flatMap Declarator.labels
  | .expr _ (.tagged _ tag quasi) => if tag.isMarker then quasi.assumed else []
  | _ => []

/-! Free names. -/

mutual

def Expr.free : Expr → List String
  | .literal .. => []
  | .ident _ id => [id.label]
  | .array _ es => freeExprs es
  | .object _ ps => freeProperties ps
  | .member _ o _ => o.free
  | .index _ o k => o.free ++ k.free
  | .binary _ _ a b => a.free ++ b.free
  | .unary _ _ a => a.free
  | .conditional _ t a b => t.free ++ a.free ++ b.free
  | .arrow _ ps body => body.free.filter (· ∉ Pattern.allLabels ps)
  | .call _ f as => f.free ++ freeExprs as
  | .template _ q => q.free
  | .tagged _ t q => (if t.isMarker then [] else t.free) ++ q.free
  | .assign _ t v => t.free ++ v.free

def freeExprs : List Expr → List String
  | [] => []
  | e :: es => e.free ++ freeExprs es

def freeProperties : List Property → List String
  | [] => []
  | .mk key value _ :: ps => key.free ++ value.free ++ freeProperties ps

def PropertyKey.free : PropertyKey → List String
  | .ident _ | .literal .. => []
  | .computed e => e.free

def Body.free : Body → List String
  | .expr e => e.free
  | .block ss _ => freeStmts ss

def Template.free : Template → List String
  | .mk _ es _ => freeExprs es

def Stmt.free : Stmt → List String
  | .decl _ _ ds => freeDeclarators ds
  | .expr _ e => e.free
  | .ret _ e => freeOption e
  | .block _ ss => freeStmts ss
  | .cond _ t a b => t.free ++ a.free ++ freeBranch b
  | .loop _ t a => t.free ++ a.free

def freeStmts : List Stmt → List String
  | [] => []
  | s :: ss => s.free ++ (freeStmts ss).filter (· ∉ s.bound)

def Declarator.free : Declarator → List String
  | .mk p (some (.arrow _ ps body)) _ => body.free.filter (· ∉ Pattern.allLabels ps ++ p.labels)
  | .mk _ e _ => freeOption e

def freeDeclarators : List Declarator → List String
  | [] => []
  | d :: ds => d.free ++ (freeDeclarators ds).filter (· ∉ d.labels)

def freeOption : Option Expr → List String
  | none => []
  | some e => e.free

def freeBranch : Option Stmt → List String
  | none => []
  | some s => s.free

end

/-! Renaming parameters. -/

/-- Functions of a syntax tree, picked by the ways to them. A way says which part is taken where a construct has several
of them, and in the body of a function. -/
abbrev Pick := List Nat → Bool

/-- The functions that are picked in a part. -/
def Pick.at (pick : Pick) (i : Nat) : Pick :=
  fun way => pick (i :: way)

/-- Whether a name belongs to a picked function inside a function that has parameters and maybe a name of its own,
given whether it does so outside. -/
def Pick.within (pick : Pick) (x : String) (own params : List String) (outside : Bool) : Bool :=
  if x ∈ params then pick [] else outside && x ∉ own

section Rename

variable (x y : String)

def Ident.rename (picked : Bool) (id : Ident) : Ident :=
  { id with label := if picked ∧ id.label = x then y else id.label }

def Pattern.rename (picked : Bool) : Pattern → Pattern
  | .ident id => .ident (id.rename x y picked)
  | .object ids pos => .object (ids.map (Ident.rename x y picked)) pos
  | .array ids pos => .array (ids.map (Ident.rename x y picked)) pos

mutual

/-- Rename the parameter `x` of picked functions to `y`, and what belongs to it. Free occurrences of `x` are renamed too
if they belong to a picked function around. -/
def Expr.rename (picked : Bool) (pick : Pick) : Expr → Expr
  | .literal node value => .literal node value
  | .ident node id => .ident node (id.rename x y picked)
  | .array node es => .array node (renameExprs picked pick es)
  | .object node ps => .object node (renameProperties picked pick ps)
  | .member node o label => .member node (o.rename picked pick) label
  | .index node o k => .index node (o.rename picked (pick.at 0)) (k.rename picked (pick.at 1))
  | .binary node op a b => .binary node op (a.rename picked (pick.at 0)) (b.rename picked (pick.at 1))
  | .unary node op a => .unary node op (a.rename picked pick)
  | .conditional node t a b =>
      .conditional node (t.rename picked (pick.at 0)) (a.rename picked (pick.at 1)) (b.rename picked (pick.at 2))
  | .arrow node ps body =>
      .arrow node (ps.map (Pattern.rename x y (pick [])))
        (body.rename (pick.within x [] (Pattern.allLabels ps) picked) (pick.at 0))
  | .call node f as => .call node (f.rename picked (pick.at 0)) (renameExprs picked (pick.at 1) as)
  | .template node q => .template node (q.rename picked pick)
  | .tagged node t q =>
      .tagged node (if t.isMarker then t else t.rename picked (pick.at 0)) (q.rename picked (pick.at 1))
  | .assign node t v => .assign node (t.rename picked (pick.at 0)) (v.rename picked (pick.at 1))

def renameExprs (picked : Bool) (pick : Pick) : List Expr → List Expr
  | [] => []
  | e :: es => e.rename picked (pick.at 0) :: renameExprs picked (pick.at 1) es

def renameProperties (picked : Bool) (pick : Pick) : List Property → List Property
  | [] => []
  | .mk key value pos :: ps =>
      .mk (key.rename picked (pick.at 0)) (value.rename picked (pick.at 1)) pos ::
        renameProperties picked (pick.at 2) ps

def PropertyKey.rename (picked : Bool) (pick : Pick) : PropertyKey → PropertyKey
  | .ident id => .ident id
  | .literal value pos => .literal value pos
  | .computed e => .computed (e.rename picked pick)

def Body.rename (picked : Bool) (pick : Pick) : Body → Body
  | .expr e => .expr (e.rename picked pick)
  | .block ss pos => .block (renameStmts picked pick ss) pos

def Template.rename (picked : Bool) (pick : Pick) : Template → Template
  | .mk texts es pos => .mk texts (renameExprs picked pick es) pos

def Stmt.rename (picked : Bool) (pick : Pick) : Stmt → Stmt
  | .decl node kind ds => .decl node kind (renameDeclarators picked pick ds)
  | .expr node e => .expr node (e.rename picked pick)
  | .ret node e => .ret node (renameOption picked pick e)
  | .block node ss => .block node (renameStmts picked pick ss)
  | .cond node t a b =>
      .cond node (t.rename picked (pick.at 0)) (a.rename picked (pick.at 1)) (renameBranch picked (pick.at 2) b)
  | .loop node t a => .loop node (t.rename picked (pick.at 0)) (a.rename picked (pick.at 1))

def renameStmts (picked : Bool) (pick : Pick) : List Stmt → List Stmt
  | [] => []
  | s :: ss => s.rename picked (pick.at 0) :: renameStmts (picked && x ∉ s.bound) (pick.at 1) ss

def Declarator.rename (picked : Bool) (pick : Pick) : Declarator → Declarator
  | .mk p (some (.arrow node ps body)) pos =>
      .mk p (some (.arrow node (ps.map (Pattern.rename x y (pick [])))
        (body.rename (pick.within x p.labels (Pattern.allLabels ps) picked) (pick.at 0)))) pos
  | .mk p e pos => .mk p (renameOption picked pick e) pos

def renameDeclarators (picked : Bool) (pick : Pick) : List Declarator → List Declarator
  | [] => []
  | d :: ds => d.rename picked (pick.at 0) :: renameDeclarators (picked && x ∉ d.labels) (pick.at 1) ds

def renameOption (picked : Bool) (pick : Pick) : Option Expr → Option Expr
  | none => none
  | some e => some (e.rename picked pick)

def renameBranch (picked : Bool) (pick : Pick) : Option Stmt → Option Stmt
  | none => none
  | some s => some (s.rename picked pick)

end

/-- Rename the parameter `x` of picked functions to `y`, with the occurrences that belong to it. -/
def Script.rename (pick : Pick) (s : Script) : Script :=
  { s with body := renameStmts x y false pick s.body }

end Rename

/-! Keeping binders of one name apart. A typing asks something of a name, not of a binder of it. So what is asked of one
binder may be mixed up with what is asked of another one, where a name that was defined in terms of the one is used in
sight of the other. -/

/-- What is known of `x` at a place in a script: whether it is asked of a picked function, and which names in sight ask
something of it. -/
structure Region where
  picked : Bool
  asking : List String

section Separate

variable (x : String)

namespace Region

/-- In the body of a function, which may have a name of its own. -/
def inside (region : Region) (pick : Pick) (own params : List String) : Region :=
  let picked := pick.within x own params region.picked
  let kept := if picked = region.picked then region.asking.filter (· ∉ params ++ own) else []
  ⟨picked, if x ∈ params ++ own then x :: kept else kept⟩

/-- After a statement. What it binds asks something of `x` if the statement uses a name that does. -/
def after (region : Region) (s : Stmt) : Region :=
  { region with
    asking :=
      if s.free.any (· ∈ region.asking) then s.bound ++ region.asking else region.asking.filter (· ∉ s.bound) }

/-- A function that binds `x` may use these names from outside. Only where one binder of `x` is picked and the other is
not, it must not use any that asks something of the other one. -/
def admits (region inner : Region) (free : List String) : Bool :=
  inner.picked = region.picked || free.all (· ∉ region.asking)

end Region

mutual

/-- No function uses a name that asks something of another binder of `x`, if one of them is picked and the other is not.
And no picked function declares `x` once more in its own scope. Inference does not look into what it refuses. -/
def Expr.separate (region : Region) (pick : Pick) : Expr → Bool
  | .array _ es => separateExprs region pick es
  | .object _ ps => separateProperties region pick ps
  | .member _ o _ => o.separate region pick
  | .binary _ _ a b => a.separate region (pick.at 0) && b.separate region (pick.at 1)
  | .conditional _ t a b =>
      t.separate region (pick.at 0) && a.separate region (pick.at 1) && b.separate region (pick.at 2)
  | .arrow _ ps body =>
      let inner := region.inside x pick [] (Pattern.allLabels ps)
      region.admits inner (body.free.filter (· ∉ Pattern.allLabels ps)) &&
        body.separate inner (pick.at 0) (pick [] && x ∈ Pattern.allLabels ps)
  | .call _ f as => f.separate region (pick.at 0) && separateExprs region (pick.at 1) as
  | .template _ (.mk _ es _) => separateExprs region pick es
  | .literal .. | .ident .. | .index .. | .unary .. | .tagged .. | .assign .. => true

def separateExprs (region : Region) (pick : Pick) : List Expr → Bool
  | [] => true
  | e :: es => e.separate region (pick.at 0) && separateExprs region (pick.at 1) es

def separateProperties (region : Region) (pick : Pick) : List Property → Bool
  | [] => true
  | .mk _ value _ :: ps => value.separate region (pick.at 1) && separateProperties region (pick.at 2) ps

/-- `held` says that the scope of the body holds a parameter `x` of a picked function. -/
def Body.separate (region : Region) (pick : Pick) (held : Bool) : Body → Bool
  | .expr e => e.separate region pick
  | .block ss _ => separateStmts region pick held ss

def Stmt.separate (region : Region) (pick : Pick) : Stmt → Bool
  | .decl _ _ ds => separateDeclarators region pick ds
  | .expr _ e => e.separate region pick
  | .ret _ e => separateOption region pick e
  | .block _ ss => separateStmts region pick false ss
  | .cond .. | .loop .. => true

def separateStmts (region : Region) (pick : Pick) (held : Bool) : List Stmt → Bool
  | [] => true
  | s :: ss =>
      s.separate region (pick.at 0) && !(held && x ∈ Stmt.declared [s]) &&
        separateStmts (region.after s) (pick.at 1) (held && x ∉ s.bound) ss

def Declarator.separate (region : Region) (pick : Pick) : Declarator → Bool
  | .mk p (some (.arrow _ ps body)) _ =>
      let inner := region.inside x pick p.labels (Pattern.allLabels ps)
      region.admits inner (body.free.filter (· ∉ Pattern.allLabels ps ++ p.labels)) &&
        body.separate inner (pick.at 0) (pick [] && x ∈ Pattern.allLabels ps)
  | .mk _ e _ => separateOption region pick e

def separateDeclarators (region : Region) (pick : Pick) : List Declarator → Bool
  | [] => true
  | d :: ds => d.separate region (pick.at 0) && separateDeclarators region (pick.at 1) ds

def separateOption (region : Region) (pick : Pick) : Option Expr → Bool
  | none => true
  | some e => e.separate region pick

end

def Script.separate (pick : Pick) (s : Script) : Bool :=
  separateStmts x ⟨false, []⟩ pick false s.body

end Separate

/-- A name is neither used nor bound. -/
def Lint.lacks (y : String) : Lint where
  expr _ e := match e with
    | .ident _ id => id.label ≠ y
    | .arrow _ ps _ => y ∉ Pattern.allLabels ps
    | _ => true
  stmt _ s := y ∉ s.bound

theorem Stmt.not_mem_bound_of_passes {y : String} {around : List String} {s : Stmt}
    (h : s.passes (.lacks y) around = true) : y ∉ s.bound := by
  rw [passes.eq_def, Bool.and_eq_true] at h
  exact of_decide_eq_true h.1

theorem Stmt.bound_expr {node : Node} {e : Expr} (h : ∀ n tag quasi, e ≠ .tagged n tag quasi) :
    (Stmt.expr node e).bound = [] := by
  cases e with
  | tagged n tag quasi => exact (h n tag quasi rfl).elim
  | _ => rfl

/-! Shapes of what is renamed. -/

section Shapes

variable {x y : String} {picked : Bool} {pick : Pick} {region : Region}

@[simp] theorem Expr.node_rename (e : Expr) : (e.rename x y picked pick).node = e.node := by
  cases e <;> simp only [rename, node]

theorem Expr.isArrow_rename (e : Expr) : (e.rename x y picked pick).isArrow = e.isArrow := by
  cases e <;> simp only [rename, isArrow]

variable {node fnode : Node} {kind : DeclKind} {id : Ident} {ps : List Pattern} {body : Body} {pos : Position}
  {e : Expr}

theorem length_renameDeclarators (ds : List Declarator) :
    (renameDeclarators x y picked pick ds).length = ds.length := by
  induction ds generalizing picked pick with
  | nil => rw [renameDeclarators]
  | cons d ds ih => rw [renameDeclarators, List.length_cons, List.length_cons, ih]

/-- The pattern of a declarator stays the same. -/
theorem Declarator.rename_pattern (x y : String) (picked : Bool) (pick : Pick) (p : Pattern) (e : Option Expr)
    (pos : Position) : ∃ e', (Declarator.mk p e pos).rename x y picked pick = .mk p e' pos := by
  cases e with
  | none => exact ⟨_, by rw [rename]; nofun⟩
  | some e =>
      cases e with
      | arrow => exact ⟨_, by rw [rename]⟩
      | _ => exact ⟨_, by rw [rename]; nofun⟩

theorem Stmt.rename_letFunction :
    (Stmt.decl node kind [.mk (.ident id) (some (.arrow fnode ps body)) pos]).rename x y picked pick =
      .decl node kind [.mk (.ident id) (some (.arrow fnode (ps.map (Pattern.rename x y (pick.at 0 [])))
        (body.rename x y ((pick.at 0).within x [id.label] (Pattern.allLabels ps) picked)
          ((pick.at 0).at 0)))) pos] := by
  simp only [rename, renameDeclarators, Declarator.rename, Pattern.labels]

theorem Stmt.rename_letValue (he : e.isArrow = false) :
    (Stmt.decl node kind [.mk (.ident id) (some e) pos]).rename x y picked pick =
      .decl node kind [.mk (.ident id) (some (e.rename x y picked (pick.at 0))) pos] := by
  cases e with
  | arrow => cases he
  | _ => simp only [rename, renameDeclarators, Declarator.rename, renameOption]

theorem Stmt.free_letFunction :
    (Stmt.decl node kind [.mk (.ident id) (some (.arrow fnode ps body)) pos]).free =
      body.free.filter (· ∉ Pattern.allLabels ps ++ [id.label]) := by
  simp [free, freeDeclarators, Declarator.free, Pattern.labels]

theorem Stmt.free_letValue (he : e.isArrow = false) :
    (Stmt.decl node kind [.mk (.ident id) (some e) pos]).free = e.free := by
  cases e with
  | arrow => cases he
  | _ => simp [free, freeDeclarators, Declarator.free, freeOption]

theorem Stmt.bound_let : (Stmt.decl node kind [.mk (.ident id) (some e) pos]).bound = [id.label] := rfl

theorem Stmt.separate_letFunction
    (h : (Stmt.decl node kind [.mk (.ident id) (some (.arrow fnode ps body)) pos]).separate x region pick = true) :
    region.admits (region.inside x (pick.at 0) [id.label] (Pattern.allLabels ps))
        (body.free.filter (· ∉ Pattern.allLabels ps ++ [id.label])) = true ∧
      body.separate x (region.inside x (pick.at 0) [id.label] (Pattern.allLabels ps)) ((pick.at 0).at 0)
        (pick.at 0 [] && x ∈ Pattern.allLabels ps) = true := by
  simp only [separate, separateDeclarators, Declarator.separate, Pattern.labels, Bool.and_true, Bool.and_eq_true] at h
  exact h

theorem Stmt.separate_letValue (he : e.isArrow = false)
    (h : (Stmt.decl node kind [.mk (.ident id) (some e) pos]).separate x region pick = true) :
    e.separate x region (pick.at 0) = true := by
  cases e with
  | arrow => cases he
  | _ => simpa only [separate, separateDeclarators, Declarator.separate, separateOption, Bool.and_true] using h

end Shapes

end ScriptTypes
