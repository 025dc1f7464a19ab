import ScriptTypes.Typing.Assumption
import ScriptTypes.Typing.Rule

/-! Syntax trees: induction over the constructs that inference takes, and conditions on syntax. A lint looks at each
expression and each statement of a script, and knows the names that are monomorphic there: the parameters of the
functions around, and the names of the functions bound by `let` around. -/

namespace ScriptTypes

def Expr.isArrow : Expr → Bool
  | .arrow .. => true
  | _ => false

def Property.value : Property → Expr
  | .mk _ value _ => value

/-- The label of a property whose key is not computed. -/
def PropertyKey.label? : PropertyKey → Option String
  | .ident id => some id.label
  | .literal value _ => some value.label
  | .computed _ => none

/-- Expressions that inference refuses, whatever their parts are. -/
inductive Expr.Refused : Expr → Prop
  | index (node : Node) (object key : Expr) : Refused (.index node object key)
  | unary (node : Node) (op : UnaryOp) (operand : Expr) : Refused (.unary node op operand)
  | tagged (node : Node) (tag : Expr) (quasi : Template) : Refused (.tagged node tag quasi)
  | assign (node : Node) (target value : Expr) : Refused (.assign node target value)

/-- Statements that inference refuses, whatever their parts are, with what is said of them and where. -/
inductive Stmt.Refused : Stmt → String → Position → Prop
  | otherDecl (node : Node) {kind : DeclKind} (hkind : kind ≠ .letDecl) (ds : List Declarator) :
      Refused (.decl node kind ds) ("`" ++ kind.text ++ "` declarations") node.pos
  | uninitialized (node : Node) (id : Ident) (pos : Position) :
      Refused (.decl node .letDecl [.mk (.ident id) none pos]) "declarations without initializer" pos
  | destructuring (node : Node) {p : Pattern} (hp : ∀ id, p ≠ .ident id) (e : Option Expr) (pos : Position) :
      Refused (.decl node .letDecl [.mk p e pos]) "destructuring" p.pos
  | declarators (node : Node) {ds : List Declarator} (hds : ds.length ≠ 1) :
      Refused (.decl node .letDecl ds) "multiple declarators" node.pos
  | cond (node : Node) (test : Expr) (yes : Stmt) (no : Option Stmt) :
      Refused (.cond node test yes no) "`if` statements" node.pos
  | loop (node : Node) (test : Expr) (body : Stmt) : Refused (.loop node test body) "loops" node.pos

/-- What has to be shown to know something of all expressions, function bodies and statements. -/
structure SyntaxCases (E : Expr → Prop) (B : Body → Prop) (S : Stmt → Prop) : Prop where
  literal : ∀ node value, E (.literal node value)
  ident : ∀ node id, E (.ident node id)
  array : ∀ node es, (∀ e ∈ es, E e) → E (.array node es)
  object : ∀ node ps, (∀ p ∈ ps, E p.value) → E (.object node ps)
  member : ∀ node e label, E e → E (.member node e label)
  binary : ∀ node op a b, E a → E b → E (.binary node op a b)
  conditional : ∀ node t a b, E t → E a → E b → E (.conditional node t a b)
  arrow : ∀ node ps body, B body → E (.arrow node ps body)
  call : ∀ node f as, E f → (∀ a ∈ as, E a) → E (.call node f as)
  template : ∀ node texts es pos, (∀ e ∈ es, E e) → E (.template node (.mk texts es pos))
  refused : ∀ e, e.Refused → E e
  exprBody : ∀ e, E e → B (.expr e)
  blockBody : ∀ ss pos, (∀ s ∈ ss, S s) → B (.block ss pos)
  letFunction : ∀ node id fnode ps body pos, B body →
    S (.decl node .letDecl [.mk (.ident id) (some (.arrow fnode ps body)) pos])
  letValue : ∀ node id e pos, e.isArrow = false → E e → S (.decl node .letDecl [.mk (.ident id) (some e) pos])
  expr : ∀ node e, E e → S (.expr node e)
  ret : ∀ node e, E e → S (.ret node (some e))
  retNothing : ∀ node, S (.ret node none)
  block : ∀ node ss, (∀ s ∈ ss, S s) → S (.block node ss)
  refusedStmt : ∀ s description pos, s.Refused description pos → S s

namespace SyntaxCases

variable {E : Expr → Prop} {B : Body → Prop} {S : Stmt → Prop}

/-- A declaration of one name with a value, from what is known of the value. -/
theorem decl (h : SyntaxCases E B S) (node : Node) (id : Ident) {e : Expr} (pos : Position) (he : E e)
    (hb : ∀ fnode ps body, e = .arrow fnode ps body → B body) :
    S (.decl node .letDecl [.mk (.ident id) (some e) pos]) := by
  cases hf : e.isArrow with
  | false => exact h.letValue node id e pos hf he
  | true =>
      cases e with
      | arrow fnode ps body => exact h.letFunction node id fnode ps body pos (hb fnode ps body rfl)
      | _ => cases hf

mutual

/-- What is known of an expression, and of its body if it is a function. -/
theorem allExpr (h : SyntaxCases E B S) : ∀ e, E e ∧ ∀ fnode ps body, e = .arrow fnode ps body → B body
  | .literal node value => ⟨h.literal node value, by simp⟩
  | .ident node id => ⟨h.ident node id, by simp⟩
  | .array node es => ⟨h.array node es (h.allExprs es), by simp⟩
  | .object node ps => ⟨h.object node ps (h.allProperties ps), by simp⟩
  | .member node e label => ⟨h.member node e label (h.allExpr e).1, by simp⟩
  | .index node e k => ⟨h.refused _ (.index node e k), by simp⟩
  | .binary node op a b => ⟨h.binary node op a b (h.allExpr a).1 (h.allExpr b).1, by simp⟩
  | .unary node op a => ⟨h.refused _ (.unary node op a), by simp⟩
  | .conditional node t a b => ⟨h.conditional node t a b (h.allExpr t).1 (h.allExpr a).1 (h.allExpr b).1, by simp⟩
  | .arrow node ps body => ⟨h.arrow node ps body (h.allBody body), fun _ _ _ he => by cases he; exact h.allBody body⟩
  | .call node f as => ⟨h.call node f as (h.allExpr f).1 (h.allExprs as), by simp⟩
  | .template node (.mk texts es pos) => ⟨h.template node texts es pos (h.allExprs es), by simp⟩
  | .tagged node t q => ⟨h.refused _ (.tagged node t q), by simp⟩
  | .assign node t v => ⟨h.refused _ (.assign node t v), by simp⟩

theorem allExprs (h : SyntaxCases E B S) : ∀ es : List Expr, ∀ e ∈ es, E e
  | [] => by simp
  | e :: es => List.forall_mem_cons.mpr ⟨(h.allExpr e).1, h.allExprs es⟩

theorem allProperties (h : SyntaxCases E B S) : ∀ ps : List Property, ∀ p ∈ ps, E p.value
  | [] => by simp
  | .mk _ value _ :: ps => List.forall_mem_cons.mpr ⟨(h.allExpr value).1, h.allProperties ps⟩

theorem allBody (h : SyntaxCases E B S) : ∀ body, B body
  | .expr e => h.exprBody e (h.allExpr e).1
  | .block ss pos => h.blockBody ss pos (h.allStmts ss)

theorem allStmt (h : SyntaxCases E B S) : ∀ s, S s
  | .decl node .letDecl [.mk (.ident id) (some e) pos] => h.decl node id pos (h.allExpr e).1 (h.allExpr e).2
  | .decl node .letDecl [.mk (.ident id) none pos] => h.refusedStmt _ _ _ (.uninitialized node id pos)
  | .decl node .letDecl [.mk (.object ids _) e pos] => h.refusedStmt _ _ _ (.destructuring node (by simp) e pos)
  | .decl node .letDecl [.mk (.array ids _) e pos] => h.refusedStmt _ _ _ (.destructuring node (by simp) e pos)
  | .decl node .letDecl [] => h.refusedStmt _ _ _ (.declarators node (by simp))
  | .decl node .letDecl (_ :: _ :: _) => h.refusedStmt _ _ _ (.declarators node (by simp))
  | .decl node .constDecl ds => h.refusedStmt _ _ _ (.otherDecl node (by simp) ds)
  | .decl node .varDecl ds => h.refusedStmt _ _ _ (.otherDecl node (by simp) ds)
  | .expr node e => h.expr node e (h.allExpr e).1
  | .ret node (some e) => h.ret node e (h.allExpr e).1
  | .ret node none => h.retNothing node
  | .block node ss => h.block node ss (h.allStmts ss)
  | .cond node t a b => h.refusedStmt _ _ _ (.cond node t a b)
  | .loop node t a => h.refusedStmt _ _ _ (.loop node t a)

theorem allStmts (h : SyntaxCases E B S) : ∀ ss : List Stmt, ∀ s ∈ ss, S s
  | [] => by simp
  | s :: ss => List.forall_mem_cons.mpr ⟨h.allStmt s, h.allStmts ss⟩

end

end SyntaxCases

/-- As a statement an expression is an assumption, another tagged template, or a value. -/
theorem Expr.tagged_cases (e : Expr) :
    (∃ n n' tag quasi, e = .tagged n (.ident n' tag) quasi ∧ tag.label = assumeTag) ∨
      (∃ n tag quasi, e = .tagged n tag quasi ∧ ∀ n' id, tag = .ident n' id → id.label ≠ assumeTag) ∨
      ∀ n tag quasi, e ≠ .tagged n tag quasi := by
  cases e with
  | tagged n tag quasi =>
      by_cases h : ∃ n' id, tag = .ident n' id ∧ id.label = assumeTag
      · obtain ⟨n', id, rfl, hid⟩ := h
        exact .inl ⟨n, n', id, quasi, rfl, hid⟩
      · exact .inr (.inl ⟨n, tag, quasi, rfl, fun n' id htag hid => h ⟨n', id, htag, hid⟩⟩)
  | _ => exact .inr (.inr (by simp))

/-- Statements alone, where nothing has to be known of the expressions in them. -/
@[elab_as_elim]
theorem Stmt.induction_on {S : Stmt → Prop} (s : Stmt)
    (decl : ∀ node id e pos, S (.decl node .letDecl [.mk (.ident id) (some e) pos]))
    (assume : ∀ node n n' tag quasi, tag.label = assumeTag → S (.expr node (.tagged n (.ident n' tag) quasi)))
    (tagged : ∀ node n tag quasi, (∀ n' id, tag = .ident n' id → id.label ≠ assumeTag) →
      S (.expr node (.tagged n tag quasi)))
    (expr : ∀ node e, (∀ n tag quasi, e ≠ .tagged n tag quasi) → S (.expr node e))
    (ret : ∀ node e, S (.ret node (some e))) (retNothing : ∀ node, S (.ret node none))
    (block : ∀ node ss, (∀ s ∈ ss, S s) → S (.block node ss))
    (refused : ∀ s description pos, s.Refused description pos → S s) : S s :=
  SyntaxCases.allStmt (E := fun _ => True) (B := fun _ => True)
    { letFunction := fun node id fnode ps body pos _ => decl node id (.arrow fnode ps body) pos
      letValue := fun node id e pos _ _ => decl node id e pos
      expr := fun node e _ => by
        obtain ⟨n, n', tag, quasi, rfl, htag⟩ | ⟨n, tag, quasi, rfl, htag⟩ | he := e.tagged_cases
        · exact assume node n n' tag quasi htag
        · exact tagged node n tag quasi htag
        · exact expr node e he
      ret := fun node e _ => ret node e
      retNothing
      block
      refusedStmt := refused
      literal := by simp
      ident := by simp
      array := by simp
      object := by simp
      member := by simp
      binary := by simp
      conditional := by simp
      arrow := by simp
      call := by simp
      template := by simp
      refused := by simp
      exprBody := by simp
      blockBody := by simp } s

/-- The labels that a pattern binds. -/
def Pattern.labels : Pattern → List String
  | .ident id => [id.label]
  | .object ids _ | .array ids _ => ids.map Ident.label

/-- The labels that parameters bind. -/
def Pattern.allLabels (ps : List Pattern) : List String :=
  ps.flatMap labels

theorem Pattern.allLabels_ident (ids : List Ident) : allLabels (ids.map .ident) = ids.map Ident.label := by
  induction ids with
  | nil => rfl
  | cons id ids ih => exact congrArg (id.label :: ·) ih

/-- What is asked of each expression and of each statement, given the monomorphic names around it. -/
structure Lint where
  expr : List String → Expr → Bool
  stmt : List String → Stmt → Bool

namespace Lint

/-- The conditions of two lints. -/
def and (l m : Lint) : Lint where
  expr names e := l.expr names e && m.expr names e
  stmt names s := l.stmt names s && m.stmt names s

/-- Whatever passes one lint passes the other. -/
structure Implies (l m : Lint) : Prop where
  expr {names : List String} {e : Expr} : l.expr names e = true → m.expr names e = true
  stmt {names : List String} {s : Stmt} : l.stmt names s = true → m.stmt names s = true

theorem Implies.refl (l : Lint) : l.Implies l := ⟨id, id⟩

theorem Implies.and_left {l m n : Lint} (h : l.Implies n) : (l.and m).Implies n :=
  ⟨fun he => h.expr (Bool.and_eq_true_iff.mp he).1, fun hs => h.stmt (Bool.and_eq_true_iff.mp hs).1⟩

theorem Implies.and_right {l m n : Lint} (h : m.Implies n) : (l.and m).Implies n :=
  ⟨fun he => h.expr (Bool.and_eq_true_iff.mp he).2, fun hs => h.stmt (Bool.and_eq_true_iff.mp hs).2⟩

end Lint

mutual

def Expr.passes (l : Lint) (names : List String) (e : Expr) : Bool :=
  l.expr names e && match e with
    | .literal .. | .ident .. => true
    | .array _ es => exprsPass l names es
    | .object _ ps => propertiesPass l names ps
    | .member _ o _ => o.passes l names
    | .index _ o k => o.passes l names && k.passes l names
    | .binary _ _ a b => a.passes l names && b.passes l names
    | .unary _ _ a => a.passes l names
    | .conditional _ t a b => t.passes l names && a.passes l names && b.passes l names
    | .arrow _ ps body => body.passes l (Pattern.allLabels ps ++ names)
    | .call _ f as => f.passes l names && exprsPass l names as
    | .template _ q => q.passes l names
    | .tagged _ t q => t.passes l names && q.passes l names
    | .assign _ t v => t.passes l names && v.passes l names

def exprsPass (l : Lint) (names : List String) : List Expr → Bool
  | [] => true
  | e :: es => e.passes l names && exprsPass l names es

def Property.passes (l : Lint) (names : List String) : Property → Bool
  | .mk key value _ => key.passes l names && value.passes l names

def propertiesPass (l : Lint) (names : List String) : List Property → Bool
  | [] => true
  | p :: ps => p.passes l names && propertiesPass l names ps

def PropertyKey.passes (l : Lint) (names : List String) : PropertyKey → Bool
  | .ident _ | .literal .. => true
  | .computed e => e.passes l names

def Body.passes (l : Lint) (names : List String) : Body → Bool
  | .expr e => e.passes l names
  | .block ss _ => stmtsPass l names ss

def Template.passes (l : Lint) (names : List String) : Template → Bool
  | .mk _ es _ => exprsPass l names es

def Stmt.passes (l : Lint) (names : List String) (s : Stmt) : Bool :=
  l.stmt names s && match s with
    | .decl _ _ ds => declaratorsPass l names ds
    | .expr _ e => e.passes l names
    | .ret _ e => optionPasses l names e
    | .block _ ss => stmtsPass l names ss
    | .cond _ t a b => t.passes l names && a.passes l names && branchPasses l names b
    | .loop _ t a => t.passes l names && a.passes l names

def stmtsPass (l : Lint) (names : List String) : List Stmt → Bool
  | [] => true
  | s :: ss => s.passes l names && stmtsPass l names ss

/-- The name of a function is monomorphic in the body of the function. -/
def Declarator.passes (l : Lint) (names : List String) : Declarator → Bool
  | .mk p (some (.arrow node ps body)) _ =>
      l.expr names (.arrow node ps body) && body.passes l (Pattern.allLabels ps ++ p.labels ++ names)
  | .mk _ e _ => optionPasses l names e

def declaratorsPass (l : Lint) (names : List String) : List Declarator → Bool
  | [] => true
  | d :: ds => d.passes l names && declaratorsPass l names ds

def optionPasses (l : Lint) (names : List String) : Option Expr → Bool
  | none => true
  | some e => e.passes l names

def branchPasses (l : Lint) (names : List String) : Option Stmt → Bool
  | none => true
  | some s => s.passes l names

end

section Passes

variable {l : Lint} {names : List String}

theorem exprsPass_iff {es : List Expr} : exprsPass l names es = true ↔ ∀ e ∈ es, e.passes l names = true := by
  induction es with
  | nil => simp [exprsPass]
  | cons e es ih => rw [exprsPass, Bool.and_eq_true, ih, List.forall_mem_cons]

theorem forall_of_propertiesPass {ps : List Property} (h : propertiesPass l names ps = true) :
    ∀ p ∈ ps, p.value.passes l names = true := by
  induction ps with
  | nil => simp
  | cons p ps ih =>
      cases p with
      | mk key value pos =>
          simp only [propertiesPass, Property.passes, Bool.and_eq_true] at h
          exact List.forall_mem_cons.mpr ⟨h.1.2, ih h.2⟩

theorem stmtsPass_iff {ss : List Stmt} : stmtsPass l names ss = true ↔ ∀ s ∈ ss, s.passes l names = true := by
  induction ss with
  | nil => simp [stmtsPass]
  | cons s ss ih => rw [stmtsPass, Bool.and_eq_true, ih, List.forall_mem_cons]

theorem Expr.passes_arrow {node : Node} {ps : List Pattern} {body : Body}
    (h : (Expr.arrow node ps body).passes l names = true) :
    l.expr names (.arrow node ps body) = true ∧ body.passes l (Pattern.allLabels ps ++ names) = true := by
  rwa [passes, Bool.and_eq_true] at h

theorem Stmt.passes_letFunction {node fnode : Node} {id : Ident} {ps : List Pattern} {body : Body} {pos : Position}
    (h : (Stmt.decl node .letDecl [.mk (.ident id) (some (.arrow fnode ps body)) pos]).passes l names = true) :
    l.stmt names (.decl node .letDecl [.mk (.ident id) (some (.arrow fnode ps body)) pos]) = true ∧
      l.expr names (.arrow fnode ps body) = true ∧
      body.passes l (Pattern.allLabels ps ++ [id.label] ++ names) = true := by
  simpa only [passes, declaratorsPass, Declarator.passes, Pattern.labels, Bool.and_eq_true, Bool.and_true] using h

theorem Stmt.passes_letValue {node : Node} {id : Ident} {e : Expr} {pos : Position} (he : e.isArrow = false)
    (h : (Stmt.decl node .letDecl [.mk (.ident id) (some e) pos]).passes l names = true) :
    e.passes l names = true := by
  rw [passes, Bool.and_eq_true] at h
  cases e with
  | arrow => cases he
  | _ => simpa only [declaratorsPass, Declarator.passes, optionPasses, Bool.and_true] using h.2

end Passes

def Script.passes (l : Lint) (s : Script) : Bool :=
  stmtsPass l [] s.body

/-- The labels that the declarations among statements bind. -/
def Stmt.declared (ss : List Stmt) : List String :=
  ss.flatMap fun
    | .decl _ _ ds => ds.flatMap fun | .mk p _ _ => p.labels
    | _ => []

def Body.declared : Body → List String
  | .expr _ => []
  | .block ss _ => Stmt.declared ss

namespace Lint

/-- No statement states an assumption. -/
def noAssume : Lint where
  expr _ _ := true
  stmt _ s := match s with
    | .expr _ (.tagged _ (.ident _ tag) _) => tag.label ≠ assumeTag
    | _ => true

/-- There is no access to a member. -/
def noMember : Lint where
  expr _ e := match e with
    | .member .. => false
    | _ => true
  stmt _ _ := true

/-- A monomorphic name is not bound again as a parameter, nor as the name of a function bound by `let`. -/
def apart : Lint where
  expr names e := match e with
    | .arrow _ ps _ => (Pattern.allLabels ps).all (· ∉ names)
    | _ => true
  stmt names s := match s with
    | .decl _ _ ds => ds.all fun
        | .mk p (some (.arrow ..)) _ => p.labels.all (· ∉ names)
        | _ => true
    | _ => true

/-- No name is bound twice in the scope of a function or of a block. -/
def distinct : Lint where
  expr _ e := match e with
    | .arrow _ ps body => (Pattern.allLabels ps ++ body.declared).Nodup
    | _ => true
  stmt _ s := match s with
    | .block _ ss => (Stmt.declared ss).Nodup
    | _ => true

theorem apart_arrow {names : List String} {node : Node} {ids : List Ident} {body : Body}
    (h : apart.expr names (.arrow node (ids.map .ident) body) = true) : ∀ y ∈ ids.map Ident.label, y ∉ names := by
  simpa [apart, Pattern.allLabels_ident] using h

theorem apart_letFunction {names : List String} {node fnode : Node} {id : Ident} {ps : List Pattern} {body : Body}
    {pos : Position}
    (h : apart.stmt names (.decl node .letDecl [.mk (.ident id) (some (.arrow fnode ps body)) pos]) = true) :
    id.label ∉ names := by
  simpa [apart, Pattern.labels] using h

theorem distinct_arrow {names : List String} {node : Node} {ids : List Ident} {body : Body}
    (h : distinct.expr names (.arrow node (ids.map .ident) body) = true) :
    (ids.map Ident.label ++ body.declared).Nodup := by
  simpa [distinct, Pattern.allLabels_ident] using h

end Lint

/-- A template states a type, or it is refused for a reason that its place has no part in. -/
theorem Infer.assumption_cases (texts : List String) (es : List Expr) :
    (∃ text name source t, texts = [text] ∧ es = [] ∧ splitAssumption text = some (name, source) ∧
      Annotation.compile source = .ok t ∧
      ∀ pos, assumption (.mk texts es pos) = do return (⟨name, pos⟩, ← instantiate (.closed t))) ∨
    ∃ message, ∀ es' pos, (es' = [] ↔ es = []) →
      assumption (.mk texts es' pos) = fail (.invalidAssumption message pos) := by
  by_cases h : ∃ text, texts = [text] ∧ es = []
  · obtain ⟨text, rfl, rfl⟩ := h
    cases hsplit : splitAssumption text with
    | none => exact .inr ⟨_, fun es' pos hes => by rw [hes.mpr rfl, assumption, hsplit]⟩
    | some parts =>
        by_cases hname : Text.isIdentifier parts.1 = true
        · cases ht : Annotation.compile parts.2 with
          | ok t =>
              refine .inl ⟨text, parts.1, parts.2, t, rfl, rfl, hsplit, ht, fun pos => ?_⟩
              simp only [assumption, hsplit, if_pos hname, ht]
          | error e =>
              refine .inr ⟨e.message, fun es' pos hes => ?_⟩
              simp only [hes.mpr rfl, assumption, hsplit, if_pos hname, ht]
        · refine .inr ⟨"`" ++ parts.1 ++ "` is not a valid identifier", fun es' pos hes => ?_⟩
          simp only [hes.mpr rfl, assumption, hsplit, if_neg hname]
  · refine .inr ⟨"interpolation is not allowed in an assumption", fun es' pos hes => ?_⟩
    rw [assumption]
    exact fun text htext hnil => h ⟨text, htext, hes.mp hnil⟩

end ScriptTypes
