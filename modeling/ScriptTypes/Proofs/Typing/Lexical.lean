import Mathlib.Data.List.Basic
import Mathlib.Data.List.Induction
import ScriptTypes.Proofs.Script.Rename

/-! Lexical scopes. Which names are in sight at a place of a script is seen from its syntax: parameters in the body of
their function, the name of a function bound by `let` in the function too, and what declarations and assumptions have
bound before, in the same block or in one around it. A function has one scope for its parameters and its body. -/

namespace ScriptTypes

/-- The names in sight at a place: those that the innermost scope has bound so far, those of them that have a stated
type, and the names of the scopes around it, innermost first. -/
structure Sight where
  here : List String
  stated : List String
  outer : List (List String)

namespace Sight

def empty : Sight := ⟨[], [], []⟩

def layers (σ : Sight) : List (List String) :=
  σ.here :: σ.outer

/-- Bind a name in the innermost scope. A name that is bound there already keeps its place. -/
def bind (σ : Sight) (x : String) : Sight :=
  { σ with here := if x ∈ σ.here then σ.here else σ.here ++ [x] }

def bindAll (σ : Sight) (names : List String) : Sight :=
  names.foldl bind σ

/-- The start of a scope inside, with some names. -/
def inner (σ : Sight) (names : List String) : Sight :=
  bindAll ⟨[], [], σ.layers⟩ names

def Binds (σ : Sight) (x : String) : Prop :=
  ∃ layer ∈ σ.layers, x ∈ layer

instance (σ : Sight) (x : String) : Decidable (σ.Binds x) :=
  inferInstanceAs (Decidable (∃ layer ∈ σ.layers, x ∈ layer))

/-- Every name in sight once, innermost first. -/
def names (σ : Sight) : List String :=
  σ.layers.flatten.eraseDups

/-- How many scopes out a name is bound. -/
def depth (σ : Sight) (x : String) : Nat :=
  σ.layers.findIdx fun layer => x ∈ layer

/-- Some names are exactly those in sight, each once, and the names of a scope before those of the scopes around it. -/
structure Lists (σ : Sight) (names : List String) : Prop where
  once : names.Nodup
  bound : ∀ x, x ∈ names ↔ σ.Binds x
  innermostFirst : names.Pairwise fun x y => σ.depth x ≤ σ.depth y

/-- Names are left where they stand first. -/
theorem pairwise_eraseDups (xs : List String) : xs.eraseDups.Pairwise fun x y => xs.idxOf x < xs.idxOf y := by
  induction xs using List.reverseRecOn with
  | nil => exact .nil
  | append_singleton xs x ih =>
      have hstays : ∀ y ∈ xs.eraseDups, (xs ++ [x]).idxOf y = xs.idxOf y := fun y hy =>
        List.idxOf_append_of_mem (List.mem_eraseDups.mp hy)
      have hleft : xs.eraseDups.Pairwise fun y z => (xs ++ [x]).idxOf y < (xs ++ [x]).idxOf z :=
        ih.imp_of_mem fun hy hz h => by rwa [hstays _ hy, hstays _ hz]
      rw [List.eraseDups_append]
      by_cases hx : x ∈ xs
      · simpa [hx, List.removeAll] using hleft
      · have hlast : (xs ++ [x]).idxOf x = xs.length := by simp [List.idxOf_append_of_notMem hx]
        have hsingle : ([x].removeAll xs).eraseDups = [x] := by simp [hx, List.removeAll, List.eraseDups_cons]
        rw [hsingle, List.pairwise_append]
        refine ⟨hleft, List.pairwise_singleton _ _, fun y hy z hz => ?_⟩
        rw [List.mem_singleton.mp hz, hstays y hy, hlast]
        exact List.idxOf_lt_length_of_mem (List.mem_eraseDups.mp hy)

/-- A name that is bound further in stands first. -/
theorem idxOf_lt_of_depth_lt (layers : List (List String)) {x y : String}
    (h : (layers.findIdx fun layer => x ∈ layer) < layers.findIdx fun layer => y ∈ layer) :
    layers.flatten.idxOf x < layers.flatten.idxOf y := by
  induction layers with
  | nil => cases h
  | cons layer layers ih =>
      have hy : y ∉ layer := by
        intro hy
        simp [List.findIdx_cons, hy] at h
      rw [List.flatten_cons, List.idxOf_append_of_notMem hy]
      by_cases hx : x ∈ layer
      · rw [List.idxOf_append_of_mem hx]
        have := List.idxOf_lt_length_of_mem hx
        omega
      · simp only [List.findIdx_cons, hx, hy, decide_false, cond_false, Nat.add_lt_add_iff_right] at h
        rw [List.idxOf_append_of_notMem hx]
        exact Nat.add_lt_add_left (ih h) _

theorem lists_names (σ : Sight) : σ.Lists σ.names where
  once := by
    refine (pairwise_eraseDups _).imp ?_
    rintro x _ h rfl
    exact Nat.lt_irrefl _ h
  bound x := by
    rw [names, List.mem_eraseDups, List.mem_flatten]
    rfl
  innermostFirst := (pairwise_eraseDups _).imp fun h =>
    Nat.le_of_not_lt fun hlt => Nat.lt_asymm h (idxOf_lt_of_depth_lt _ hlt)

/-- Whether the type of what a pattern binds is stated in the innermost scope. -/
def states (σ : Sight) : Pattern → Bool
  | .ident id => id.label ∈ σ.stated
  | _ => false

end Sight

/-- The names that a statement states the type of. -/
def Stmt.assumed : Stmt → List String
  | .expr _ (.tagged _ tag quasi) => if tag.isMarker then quasi.assumed else []
  | _ => []

/-- The names in sight after a statement. -/
def Sight.after (σ : Sight) (s : Stmt) : Sight :=
  { σ.bindAll s.bound with stated := s.assumed ++ σ.stated }

mutual

/-- Whether a statement returns, so that the statements after it are not checked. -/
def Stmt.returns : Stmt → Bool
  | .ret .. => true
  | .block _ ss => stmtsReturn ss
  | _ => false

def stmtsReturn : List Stmt → Bool
  | [] => false
  | s :: ss => s.returns || stmtsReturn ss

end

/-- An identifier where it is used as an expression. -/
structure Use where
  id : Ident
  sight : Sight

mutual

/-- The identifiers that are used in checked code, in order. -/
def Expr.uses (σ : Sight) : Expr → List Use
  | .literal .. => []
  | .ident _ id => [⟨id, σ⟩]
  | .array _ es => usesInExprs σ es
  | .object _ ps => usesInProperties σ ps
  | .member _ object _ => object.uses σ
  | .index _ object key => object.uses σ ++ key.uses σ
  | .binary _ _ a b => a.uses σ ++ b.uses σ
  | .unary _ _ a => a.uses σ
  | .conditional _ t a b => t.uses σ ++ (a.uses σ ++ b.uses σ)
  | .arrow _ ps body => body.uses (σ.inner (Pattern.allLabels ps))
  | .call _ f as => f.uses σ ++ usesInExprs σ as
  | .template _ q => q.uses σ
  | .tagged _ tag q => tag.uses σ ++ q.uses σ
  | .assign _ target value => target.uses σ ++ value.uses σ

def usesInExprs (σ : Sight) : List Expr → List Use
  | [] => []
  | e :: es => e.uses σ ++ usesInExprs σ es

def Property.uses (σ : Sight) : Property → List Use
  | .mk key value _ => key.uses σ ++ value.uses σ

def usesInProperties (σ : Sight) : List Property → List Use
  | [] => []
  | p :: ps => p.uses σ ++ usesInProperties σ ps

def PropertyKey.uses (σ : Sight) : PropertyKey → List Use
  | .ident _ | .literal .. => []
  | .computed e => e.uses σ

def Template.uses (σ : Sight) : Template → List Use
  | .mk _ es _ => usesInExprs σ es

def Body.uses (σ : Sight) : Body → List Use
  | .expr e => e.uses σ
  | .block ss _ => usesInStmts σ ss

def Stmt.uses (σ : Sight) : Stmt → List Use
  | .decl _ _ ds => usesInDeclarators σ ds
  | .expr _ (.tagged _ tag q) => (if tag.isMarker then [] else tag.uses σ) ++ q.uses σ
  | .expr _ e => e.uses σ
  | .ret _ e => usesInOption σ e
  | .block _ ss => usesInStmts (σ.inner []) ss
  | .cond _ t a b => t.uses σ ++ (a.uses σ ++ usesInBranch σ b)
  | .loop _ t a => t.uses σ ++ a.uses σ

def usesInStmts (σ : Sight) : List Stmt → List Use
  | [] => []
  | s :: ss => s.uses σ ++ if s.returns then [] else usesInStmts (σ.after s) ss

/-- The value of a name with a stated type is not checked. A function may use its own name. -/
def Declarator.uses (σ : Sight) : Declarator → List Use
  | .mk p (some (.arrow _ ps body)) _ =>
      if σ.states p then [] else body.uses ((σ.inner p.labels).inner (Pattern.allLabels ps))
  | .mk p e _ => if σ.states p then [] else usesInOption σ e

def usesInDeclarators (σ : Sight) : List Declarator → List Use
  | [] => []
  | d :: ds => d.uses σ ++ usesInDeclarators (σ.bindAll d.labels) ds

def usesInOption (σ : Sight) : Option Expr → List Use
  | none => []
  | some e => e.uses σ

def usesInBranch (σ : Sight) : Option Stmt → List Use
  | none => []
  | some s => s.uses σ

end

section

variable {σ : Sight} {node : Node} {e : Expr} (h : ∀ n tag q, e ≠ .tagged n tag q)

include h

theorem Stmt.uses_expr : (Stmt.expr node e).uses σ = e.uses σ := by
  rw [Stmt.uses]
  exact h

theorem Sight.after_expr : σ.after (.expr node e) = σ := by
  cases e with
  | tagged n tag q => exact (h n tag q rfl).elim
  | _ => rfl

end

def Script.uses (s : Script) : List Use :=
  usesInStmts .empty s.body

end ScriptTypes
