import ScriptTypes.Typing.Assumption
import ScriptTypes.Typing.Checking

/-! Type inference. Every expression gets a typing, put together from the typings of its parts: what they ask of names
is brought together and the constraints of the construct are solved with it. A name bound by `let` is used through
a fresh copy of its typing each time. A parameter is monomorphic: each use asks something of it, and all that is
asked is settled where the function ends. A function bound by `let` may use its own name, monomorphically. -/

namespace ScriptTypes

namespace Infer

mutual

def expr (steps : Nat) (env : Env VarId) : Expr → Infer (Typing VarId)
  | .literal node value => pure (.closed (.leaf value.leaf (some node)))
  | .ident _ id => do instantiate (← lift (env.lookup id))
  | .binary node op left right => do
      let l ← expr steps env left
      let r ← expr steps env right
      binaryTyping steps node op left.node right.node l r
  | .array node elems => do arrayTyping steps node (← exprs steps env elems)
  | .object node props => do objectTyping steps node (← properties steps env [] props)
  | .member node object label => do memberTyping steps node (← expr steps env object) label
  | .index node _ _ => unsupported "computed member access" node.pos
  | .conditional _ test consequent alternate => do
      let t ← expr steps env test
      let c ← expr steps env consequent
      let a ← expr steps env alternate
      conditionalTyping steps test.node t c a
  | .arrow node params body => do
      let (scope, params) ← bindParams env.child params
      let t ← functionBody steps scope body
      absTyping steps node params t
  | .call node callee args => do
      let c ← expr steps env callee
      let as ← exprs steps env args
      callTyping steps node callee.node c as
  | .template node (.mk _ parts _) => do templateTyping steps node (← exprs steps env parts)
  | .tagged node _ _ => unsupported "tagged templates in expression position" node.pos
  | .unary node op _ => unsupported ("the unary operator `" ++ op.text ++ "`") node.pos
  | .assign node _ _ => unsupported "assignments" node.pos

def exprs (steps : Nat) (env : Env VarId) : List Expr → Infer (List (Typing VarId))
  | [] => pure []
  | e :: es => do
      let t ← expr steps env e
      let ts ← exprs steps env es
      return t :: ts

/-- The labels of properties with the typings of their values. -/
def properties (steps : Nat) (env : Env VarId) (seen : Assoc Ident) :
    List Property → Infer (List (String × Typing VarId))
  | [] => pure []
  | .mk key value _ :: props => do
      let id ← propertyLabel seen key
      let t ← expr steps env value
      let ts ← properties steps env (Assoc.insert seen id.label id) props
      return (id.label, t) :: ts

def functionBody (steps : Nat) (scope : Env VarId) : Body → Infer (Typing VarId)
  | .expr e => expr steps scope e
  | .block ss _ => do blockTyping steps (← (checkBlock steps .function ss).blockFrom ⟨scope, [], none⟩)

def checkStmt (steps : Nat) (kind : BlockKind) : Stmt → Checking Unit
  | .decl node declKind decls =>
      if declKind = .letDecl then
        match decls with
        | [.mk (.ident id) (some (.arrow node params body)) _] => .declare id fun env => do
            let (scope, params) ← bindDef env id params
            let t ← functionBody steps scope body
            defTyping steps id.label node params t
        | [.mk (.ident id) (some init) _] => .declare id fun env => expr steps env init
        | [.mk (.ident _) none pos] => unsupported "declarations without initializer" pos
        | [.mk pattern _ _] => unsupported "destructuring" pattern.pos
        | _ => unsupported "multiple declarators" node.pos
      else unsupported ("`" ++ declKind.text ++ "` declarations") node.pos
  | .expr _ (.tagged node (.ident _ tag) quasi) =>
      if tag.label = assumeTag then do
        let (id, t) ← assumption quasi
        .assume id t
      else unsupported "tagged templates" node.pos
  | .expr _ (.tagged node _ _) => unsupported "tagged templates" node.pos
  | .expr _ e => do
      let t ← expr steps (← .current).env e
      .addTyping t
  | .ret node value =>
      match kind, value with
      | .top, _ => unsupported "`return` outside of a function" node.pos
      | .function, some e => do
          let t ← expr steps (← .current).env e
          .giveBack t
      | .function, none => .giveBack (.closed (.leaf .undefined (some node)))
  | .block _ ss => .nested (checkBlock steps kind ss)
  | .cond node _ _ _ => unsupported "`if` statements" node.pos
  | .loop node _ _ => unsupported "loops" node.pos

/-- Statements up to the first that returns. -/
def checkBlock (steps : Nat) (kind : BlockKind) : List Stmt → Checking Unit
  | [] => pure ()
  | s :: ss => do
      checkStmt steps kind s
      if (← .current).returned.isNone then checkBlock steps kind ss

end

end Infer

/-- What is known of a script: the top-level names, and the type error that ended inference if there was one. -/
structure Inferred where
  env : Env VarId
  error : Option (TypeError VarId)
deriving DecidableEq

/-- Why nothing is known of a script. -/
inductive Refusal where
  | scope (error : ScopeError VarId)
  /-- The limit of steps was too low for a set of constraints. -/
  | unfinished
deriving DecidableEq

/-- The whole run over a script, with a limit on the steps spent on each set of constraints. The block is the one that
is left, whether a statement failed or not. -/
def Script.run (steps : Nat) (s : Script) : (Block × Option (Failure VarId)) × Run :=
  match (Infer.checkBlock steps .top s.body).outcome ⟨.empty, [], none⟩ .initial with
  | ((.ok (), b), r) => ((b, none), r)
  | ((.error e, b), r) => ((b, some e), r)

def Script.infer (steps : Nat) (s : Script) : Except Refusal Inferred :=
  match (s.run steps).1 with
  | (b, none) => .ok ⟨b.env, none⟩
  | (b, some (.type e)) => .ok ⟨b.env, some e⟩
  | (_, some (.scope e)) => .error (.scope e)
  | (_, some .unfinished) => .error .unfinished

/-- The limit of steps that is used in practice. -/
def Script.stepLimit : Nat := 1000000000000

end ScriptTypes
