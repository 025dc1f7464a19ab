import ScriptTypes.Proofs.Typing.Lexical

/-! Code after `return`. A statement reaches a `return` when it is one, or a block with a statement that reaches one. In
the body of a function nothing after such a statement is ever run, and trimming a script takes it away, at any depth.
A `return` ends the blocks around it but not the functions around its own. -/

namespace ScriptTypes

mutual

def Expr.trim : Expr → Expr
  | .literal node value => .literal node value
  | .ident node id => .ident node id
  | .array node es => .array node (trimExprs es)
  | .object node ps => .object node (trimProperties ps)
  | .member node o label => .member node o.trim label
  | .index node o k => .index node o.trim k.trim
  | .binary node op a b => .binary node op a.trim b.trim
  | .unary node op a => .unary node op a.trim
  | .conditional node t a b => .conditional node t.trim a.trim b.trim
  | .arrow node ps body => .arrow node ps body.trim
  | .call node f as => .call node f.trim (trimExprs as)
  | .template node q => .template node q.trim
  | .tagged node t q => .tagged node t.trim q.trim
  | .assign node t v => .assign node t.trim v.trim

def trimExprs : List Expr → List Expr
  | [] => []
  | e :: es => e.trim :: trimExprs es

def trimProperties : List Property → List Property
  | [] => []
  | .mk key value pos :: ps => .mk key.trim value.trim pos :: trimProperties ps

def PropertyKey.trim : PropertyKey → PropertyKey
  | .ident id => .ident id
  | .literal value pos => .literal value pos
  | .computed e => .computed e.trim

def Body.trim : Body → Body
  | .expr e => .expr e.trim
  | .block ss pos => .block (trimStmts .function ss) pos

def Template.trim : Template → Template
  | .mk texts es pos => .mk texts (trimExprs es) pos

def Stmt.trim (kind : BlockKind) : Stmt → Stmt
  | .decl node k ds => .decl node k (trimDeclarators ds)
  | .expr node e => .expr node e.trim
  | .ret node e => .ret node (trimOption e)
  | .block node ss => .block node (trimStmts kind ss)
  | .cond node t a b => .cond node t.trim (a.trim kind) (trimBranch kind b)
  | .loop node t a => .loop node t.trim (a.trim kind)

/-- In a function, the statements up to the first that reaches a `return`. -/
def trimStmts (kind : BlockKind) : List Stmt → List Stmt
  | [] => []
  | s :: ss => s.trim kind :: if kind = .function && s.returns then [] else trimStmts kind ss

def trimDeclarators : List Declarator → List Declarator
  | [] => []
  | .mk p e pos :: ds => .mk p (trimOption e) pos :: trimDeclarators ds

def trimOption : Option Expr → Option Expr
  | none => none
  | some e => some e.trim

def trimBranch (kind : BlockKind) : Option Stmt → Option Stmt
  | none => none
  | some s => some (s.trim kind)

end

/-- A script without the code after `return` in its functions. -/
def Script.trim (s : Script) : Script :=
  ⟨trimStmts .top s.body, s.pos⟩

/-- A `return` ends the block around it, but not the function around its own function. -/
example (node : Node) (s s' : Stmt) :
    trimStmts .function
      [.expr node (.arrow node [] (.block [.ret node none, s] none)), .block node [.ret node none, s], s'] =
    [.expr node (.arrow node [] (.block [.ret node none] none)), .block node [.ret node none]] := rfl

/-! Trimming keeps the nodes of what is left, and what kind of construct it is. -/

theorem Expr.node_trim (e : Expr) : e.trim.node = e.node := by
  cases e <;> rw [trim] <;> rfl

theorem Expr.isArrow_trim (e : Expr) : e.trim.isArrow = e.isArrow := by
  cases e <;> rw [trim] <;> rfl

theorem length_trimDeclarators (ds : List Declarator) : (trimDeclarators ds).length = ds.length := by
  induction ds with
  | nil => rw [trimDeclarators]
  | cons d ds ih =>
      cases d
      rw [trimDeclarators, List.length_cons, List.length_cons, ih]

mutual

theorem Stmt.returns_trim (kind : BlockKind) (s : Stmt) : (s.trim kind).returns = s.returns := by
  match s with
  | .decl .. | .expr .. | .ret .. | .cond .. | .loop .. => rw [Stmt.trim]; rfl
  | .block node ss => rw [Stmt.trim, Stmt.returns, Stmt.returns, stmtsReturn_trim kind ss]

/-- What is dropped stands after a statement that reaches a `return`. -/
theorem stmtsReturn_trim (kind : BlockKind) (ss : List Stmt) : stmtsReturn (trimStmts kind ss) = stmtsReturn ss := by
  match ss with
  | [] => rw [trimStmts]
  | s :: ss =>
      have hs := s.returns_trim kind
      have hss := stmtsReturn_trim kind ss
      cases hr : s.returns with
      | true => rw [trimStmts, stmtsReturn, stmtsReturn, hs, hr, Bool.true_or, Bool.true_or]
      | false =>
          rw [trimStmts, hr, Bool.and_false, if_neg Bool.false_ne_true, stmtsReturn, stmtsReturn, hs, hss]

end

/-! A trimmed script has no code after `return`. -/

mutual

/-- Nothing in a statement stands after one that reaches a `return`. Functions in it are not looked at. -/
def Stmt.reached : Stmt → Bool
  | .block _ ss => allReached ss
  | .cond _ _ a b => a.reached && branchReached b
  | .loop _ _ a => a.reached
  | _ => true

def allReached : List Stmt → Bool
  | [] => true
  | s :: ss => s.reached && (!s.returns || ss.isEmpty) && allReached ss

def branchReached : Option Stmt → Bool
  | none => true
  | some s => s.reached

end

/-- No statement of a function stands after one that reaches a `return`. -/
def Lint.reached : Lint where
  expr _ e := match e with
    | .arrow _ _ (.block ss _) => allReached ss
    | _ => true
  stmt _ _ := true

mutual

theorem Stmt.reached_trim (s : Stmt) : (s.trim .function).reached = true := by
  match s with
  | .decl .. | .expr .. | .ret .. => rw [Stmt.trim]; rfl
  | .block node ss => rw [Stmt.trim, Stmt.reached, allReached_trim ss]
  | .cond node t a b => rw [Stmt.trim, Stmt.reached, a.reached_trim, branchReached_trim b]; rfl
  | .loop node t a => rw [Stmt.trim, Stmt.reached, a.reached_trim]

theorem allReached_trim (ss : List Stmt) : allReached (trimStmts .function ss) = true := by
  match ss with
  | [] => rw [trimStmts]; rfl
  | s :: ss =>
      have hs := s.reached_trim
      have hss := allReached_trim ss
      have hr := s.returns_trim .function
      cases h : s.returns with
      | true => simp [trimStmts, allReached, h, hs]
      | false => simp [trimStmts, allReached, h, hr, hs, hss]

theorem branchReached_trim (s : Option Stmt) : branchReached (trimBranch .function s) = true := by
  match s with
  | none => rw [trimBranch]; rfl
  | some s => rw [trimBranch, branchReached, s.reached_trim]

end

theorem Lint.reached_arrow (names : List String) (node : Node) (ps : List Pattern) (body : Body) :
    Lint.reached.expr names (.arrow node ps body.trim) = true := by
  cases body with
  | expr e => rw [Body.trim]; rfl
  | block ss pos =>
      rw [Body.trim]
      exact allReached_trim ss

/-- What passes a lint whatever is monomorphic around it passes it as the value of a declaration. -/
theorem Declarator.passes_of_forall {l : Lint} {names : List String} {p : Pattern} {e : Expr} {pos : Position}
    (h : ∀ names, e.passes l names = true) : (Declarator.mk p (some e) pos).passes l names = true := by
  cases e with
  | arrow node ps body =>
      rw [passes, (Expr.passes_arrow (h names)).1, List.append_assoc, (Expr.passes_arrow (h (p.labels ++ names))).2]
      rfl
  | _ =>
      rw [passes, optionPasses, h names]
      simp

mutual

theorem Expr.passes_trim (names : List String) (e : Expr) : e.trim.passes .reached names = true := by
  match e with
  | .literal .. | .ident .. => rw [Expr.trim, Expr.passes]; rfl
  | .array node es => rw [Expr.trim, Expr.passes, exprsPass_trim names es]; rfl
  | .object node ps => rw [Expr.trim, Expr.passes, propertiesPass_trim names ps]; rfl
  | .member node o label => rw [Expr.trim, Expr.passes, o.passes_trim names]; rfl
  | .index node o k => rw [Expr.trim, Expr.passes, o.passes_trim names, k.passes_trim names]; rfl
  | .binary node op a b => rw [Expr.trim, Expr.passes, a.passes_trim names, b.passes_trim names]; rfl
  | .unary node op a => rw [Expr.trim, Expr.passes, a.passes_trim names]; rfl
  | .conditional node t a b =>
      rw [Expr.trim, Expr.passes, t.passes_trim names, a.passes_trim names, b.passes_trim names]; rfl
  | .arrow node ps body => rw [Expr.trim, Expr.passes, body.passes_trim, Lint.reached_arrow]; rfl
  | .call node f as => rw [Expr.trim, Expr.passes, f.passes_trim names, exprsPass_trim names as]; rfl
  | .template node q => rw [Expr.trim, Expr.passes, q.passes_trim names]; rfl
  | .tagged node t q => rw [Expr.trim, Expr.passes, t.passes_trim names, q.passes_trim names]; rfl
  | .assign node t v => rw [Expr.trim, Expr.passes, t.passes_trim names, v.passes_trim names]; rfl

theorem exprsPass_trim (names : List String) (es : List Expr) : exprsPass .reached names (trimExprs es) = true := by
  match es with
  | [] => rw [trimExprs, exprsPass]
  | e :: es => rw [trimExprs, exprsPass, e.passes_trim names, exprsPass_trim names es]; rfl

theorem propertiesPass_trim (names : List String) (ps : List Property) :
    propertiesPass .reached names (trimProperties ps) = true := by
  match ps with
  | [] => rw [trimProperties, propertiesPass]
  | .mk key value pos :: ps =>
      rw [trimProperties, propertiesPass, Property.passes, key.passes_trim names, value.passes_trim names,
        propertiesPass_trim names ps]
      rfl

theorem PropertyKey.passes_trim (names : List String) (key : PropertyKey) :
    key.trim.passes .reached names = true := by
  match key with
  | .ident id => rw [PropertyKey.trim, PropertyKey.passes]
  | .literal value pos => rw [PropertyKey.trim, PropertyKey.passes]
  | .computed e => rw [PropertyKey.trim, PropertyKey.passes, e.passes_trim names]

theorem Body.passes_trim (names : List String) (body : Body) : body.trim.passes .reached names = true := by
  match body with
  | .expr e => rw [Body.trim, Body.passes, e.passes_trim names]
  | .block ss pos => rw [Body.trim, Body.passes, stmtsPass_trim names .function ss]

theorem Template.passes_trim (names : List String) (q : Template) : q.trim.passes .reached names = true := by
  match q with
  | .mk texts es pos => rw [Template.trim, Template.passes, exprsPass_trim names es]

theorem Stmt.passes_trim (names : List String) (kind : BlockKind) (s : Stmt) :
    (s.trim kind).passes .reached names = true := by
  match s with
  | .decl node k ds => rw [Stmt.trim, Stmt.passes, declaratorsPass_trim names ds]; rfl
  | .expr node e => rw [Stmt.trim, Stmt.passes, e.passes_trim names]; rfl
  | .ret node e => rw [Stmt.trim, Stmt.passes, optionPasses_trim names e]; rfl
  | .block node ss => rw [Stmt.trim, Stmt.passes, stmtsPass_trim names kind ss]; rfl
  | .cond node t a b =>
      rw [Stmt.trim, Stmt.passes, t.passes_trim names, a.passes_trim names kind, branchPasses_trim names kind b]; rfl
  | .loop node t a => rw [Stmt.trim, Stmt.passes, t.passes_trim names, a.passes_trim names kind]; rfl

theorem stmtsPass_trim (names : List String) (kind : BlockKind) (ss : List Stmt) :
    stmtsPass .reached names (trimStmts kind ss) = true := by
  match ss with
  | [] => rw [trimStmts, stmtsPass]
  | s :: ss =>
      rw [trimStmts, stmtsPass, s.passes_trim names kind, Bool.true_and]
      split
      · rw [stmtsPass]
      · exact stmtsPass_trim names kind ss

theorem declaratorsPass_trim (names : List String) (ds : List Declarator) :
    declaratorsPass .reached names (trimDeclarators ds) = true := by
  match ds with
  | [] => rw [trimDeclarators, declaratorsPass]
  | .mk p none pos :: ds =>
      rw [trimDeclarators, trimOption, declaratorsPass, Declarator.passes, declaratorsPass_trim names ds, optionPasses]
      · rfl
      · simp
  | .mk p (some e) pos :: ds =>
      rw [trimDeclarators, trimOption, declaratorsPass, declaratorsPass_trim names ds,
        Declarator.passes_of_forall fun names => e.passes_trim names]
      rfl

theorem optionPasses_trim (names : List String) (e : Option Expr) :
    optionPasses .reached names (trimOption e) = true := by
  match e with
  | none => rw [trimOption, optionPasses]
  | some e => rw [trimOption, optionPasses, e.passes_trim names]

theorem branchPasses_trim (names : List String) (kind : BlockKind) (s : Option Stmt) :
    branchPasses .reached names (trimBranch kind s) = true := by
  match s with
  | none => rw [trimBranch, branchPasses]
  | some s => rw [trimBranch, branchPasses, s.passes_trim names kind]

end

theorem Script.passes_trim (s : Script) : s.trim.passes .reached = true :=
  stmtsPass_trim [] .top s.body

end ScriptTypes
