import ScriptTypes.Number.Shortest
import ScriptTypes.Script.Tree
import ScriptTypes.Typing.Run

/-! The rules of inference: the typing of each construct from the typings of its parts. What the parts ask of names is
brought together, and the constraints of the construct are solved with it. -/

namespace ScriptTypes

/-- A `return` belongs into a function. -/
inductive BlockKind where
  | top | function
deriving DecidableEq, Repr

/-- A block after some of its statements: the names in sight, the typings so far and what was returned. -/
structure Block where
  env : Env VarId
  typings : List (Typing VarId)
  returned : Option (Typing VarId)

/-- The label that a literal stands for as a key. -/
def Literal.label : Literal → String
  | .num negative m => (if negative then "-" else "") ++ m.text
  | .str s => s
  | .bool b => if b then "true" else "false"

def Literal.leaf : Literal → Leaf
  | .num _ _ => .num
  | .str _ => .str
  | .bool _ => .bool

/-- Apply bindings to a type over numbered variables. -/
def Ty.under (t : Ty VarId) (bs : List (Binding VarId)) : Ty VarId :=
  Id.run (t.substAll bs)

/-- Join requirements over numbered variables. -/
def Requirements.joinUnder (bs : List (Binding VarId)) (envs : List (Requirements VarId)) : Requirements VarId :=
  Id.run (join bs envs)

namespace Infer

/-- Bind parameters in a scope. Each asks to be of a fresh type that it then has. -/
def bindParams (scope : Env VarId) : List Pattern → Infer (Env VarId × List (String × Ty VarId))
  | [] => pure (scope, [])
  | .ident id :: ps => do
      let t ← freshVar none
      let scope ← lift (Env.assign scope id ⟨[(id.label, t)], t⟩)
      let (scope, params) ← bindParams scope ps
      return (scope, (id.label, t) :: params)
  | .object _ pos :: _ => unsupported "destructuring" pos
  | .array _ pos :: _ => unsupported "destructuring" pos

/-- The scope of a function bound to a name: the name itself, and the parameters inside it. -/
def bindDef (env : Env VarId) (id : Ident) (params : List Pattern) :
    Infer (Env VarId × List (String × Ty VarId)) := do
  let own ← freshVar none
  let scope ← lift (Env.assign env.child id ⟨[(id.label, own)], own⟩)
  bindParams scope.child params

/-- The typing of a block from its statements and what it returned. -/
def blockTyping (steps : Nat) (b : Block) : Infer (Typing VarId) := do
  let returned := b.returned.getD (.closed (.leaf .undefined none))
  let needs := b.typings.map Typing.needs ++ [returned.needs]
  let bs ← settle steps needs [] UnifyError.plain
  return ⟨Requirements.joinUnder bs needs, returned.type.under bs⟩

/-- Drop what is asked of parameters. -/
def dropParams (needs : Requirements VarId) (params : List (String × Ty VarId)) : Requirements VarId :=
  params.foldl (fun needs (name, _) => Assoc.erase needs name) needs

/-- The typing of a function bound to a name, from its parameters and its body. A parameter of the same name hides
the function, which then asks nothing of its own name. -/
def defTyping (steps : Nat) (name : String) (node : Node) (params : List (String × Ty VarId))
    (body : Typing VarId) : Infer (Typing VarId) := do
  let t : Ty VarId := .arrow (params.map Prod.snd) body.type (some node)
  let own : Requirements VarId := [(name, t)]
  let asked := params.map fun p => [p]
  if params.any fun p => p.1 == name then
    let bs ← settle steps (asked ++ [body.needs]) [] UnifyError.plain
    return ⟨dropParams (Requirements.joinUnder bs [body.needs]) params, t.under bs⟩
  else
    let bs ← settle steps (own :: asked ++ [body.needs]) [] UnifyError.plain
    let needs := Requirements.joinUnder bs [own, body.needs]
    return ⟨dropParams (Assoc.erase needs name) params, (Assoc.get? needs name).getD (t.under bs)⟩

/-- Take the types that parameters have come to out of requirements. -/
def takeParams (bs : List (Binding VarId)) (needs : Requirements VarId) :
    List (String × Ty VarId) → Requirements VarId × List (Ty VarId)
  | [] => (needs, [])
  | (name, t) :: params =>
      let u := (Assoc.get? needs name).getD (t.under bs)
      let (needs, us) := takeParams bs (Assoc.erase needs name) params
      (needs, u :: us)

/-- The typing of a function without a name. -/
def absTyping (steps : Nat) (node : Node) (params : List (String × Ty VarId)) (body : Typing VarId) :
    Infer (Typing VarId) := do
  let bs ← settle steps (params.map (fun p => [p]) ++ [body.needs]) [] UnifyError.plain
  let (needs, domain) := takeParams bs (Requirements.joinUnder bs [body.needs]) params
  return ⟨needs, .arrow domain (body.type.under bs) (some node)⟩

/-- The typing of a member access. An open record is made to have the label. -/
def memberTyping (steps : Nat) (node : Node) (object : Typing VarId) (label : Ident) :
    Infer (Typing VarId) := do
  match object.type with
  | .record rows _ =>
      match Row.flatten rows with
      | .error _ => throw (UnifyError.multipleRowVars object.type).plain
      | .ok record =>
          match Assoc.get? record.fields label.label, record.tail with
          | some t, _ => return ⟨object.needs, t⟩
          | none, none => throw (.type (.noSuchProperty node object.type label))
          | none, some _ =>
              let field ← freshVar (some node)
              let rest ← freshRowVar (some node)
              let expected : Ty VarId := .ofFields [(label.label, field)] (some rest)
              let bs ← settle steps [object.needs] [⟨object.type, expected⟩] UnifyError.plain
              return ⟨Requirements.joinUnder bs [object.needs], field.under bs⟩
  | t => throw (.type (.notAnObject node t label))

def binaryTyping (steps : Nat) (node : Node) (op : BinaryOp) (leftNode rightNode : Node)
    (left right : Typing VarId) : Infer (Typing VarId) := do
  let needs := [left.needs, right.needs]
  if op.isArithmetic then
    let extra := [⟨left.type, .leaf .num (some leftNode)⟩, ⟨right.type, .leaf .num (some rightNode)⟩]
    let bs ← settle steps needs extra UnifyError.plain
    return ⟨Requirements.joinUnder bs needs, .leaf .num (some node)⟩
  else
    let operand ← freshVar (some node)
    let bs ← settle steps needs [⟨left.type, operand⟩, ⟨right.type, operand⟩] UnifyError.plain
    return ⟨Requirements.joinUnder bs needs, .leaf .bool (some node)⟩

def arrayTyping (steps : Nat) (node : Node) (elems : List (Typing VarId)) : Infer (Typing VarId) := do
  let elem ← freshVar (some node)
  let needs := elems.map Typing.needs
  let bs ← settle steps needs (elems.map fun t => ⟨elem, t.type⟩) (UnifyError.inArray node elems)
  return ⟨Requirements.joinUnder bs needs, .array (elem.under bs) (some node)⟩

def objectTyping (steps : Nat) (node : Node) (props : List (String × Typing VarId)) :
    Infer (Typing VarId) := do
  let needs := props.map fun p => p.2.needs
  let bs ← settle steps needs [] UnifyError.plain
  let fields := props.map fun (label, t) => (label, t.type.under bs)
  return ⟨Requirements.joinUnder bs needs, (Ty.ofFields fields none).withSrc (some node)⟩

def conditionalTyping (steps : Nat) (testNode : Node) (test consequent alternate : Typing VarId) :
    Infer (Typing VarId) := do
  let needs := [test.needs, consequent.needs, alternate.needs]
  let extra := [⟨test.type, .leaf .bool (some testNode)⟩, ⟨consequent.type, alternate.type⟩]
  let bs ← settle steps needs extra UnifyError.plain
  return ⟨Requirements.joinUnder bs needs, consequent.type.under bs⟩

def callTyping (steps : Nat) (node calleeNode : Node) (callee : Typing VarId) (args : List (Typing VarId)) :
    Infer (Typing VarId) := do
  let result ← freshVar (some node)
  let expected : Ty VarId := .arrow (args.map Typing.type) result (some node)
  let needs := args.map Typing.needs ++ [callee.needs]
  let explain (e : UnifyError VarId) := Id.run (e.inCall node calleeNode callee args)
  let bs ← settle steps needs [⟨callee.type, expected⟩] explain
  return ⟨Requirements.joinUnder bs needs, result.under bs⟩

def templateTyping (steps : Nat) (node : Node) (parts : List (Typing VarId)) : Infer (Typing VarId) := do
  let needs := parts.map Typing.needs
  let bs ← settle steps needs [] UnifyError.plain
  return ⟨Requirements.joinUnder bs needs, .leaf .str (some node)⟩

/-- The label of a property, which must not have been given before. -/
def propertyLabel (seen : Assoc Ident) : PropertyKey → Infer Ident
  | .computed key => fail (.invalidKey key.node.pos)
  | .ident id => check id
  | .literal value pos => check ⟨value.label, pos⟩
where
  check (id : Ident) : Infer Ident :=
    match Assoc.get? seen id.label with
    | some previous => fail (.duplicateLabel id previous.pos)
    | none => pure id

end Infer

end ScriptTypes
