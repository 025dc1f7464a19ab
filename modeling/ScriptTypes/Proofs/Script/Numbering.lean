import Mathlib.Data.List.Infix
import ScriptTypes.Proofs.Script.Outline
import ScriptTypes.Proofs.Script.Reparsed

/-! The numbers of nodes. Parsing numbers nodes as it finishes them, so the numbers in the tree of a script count its
nodes from left to right, what is inside of a node before the node. -/

namespace ScriptTypes

namespace Outline

/-- The number of a part that is a node. -/
def number? (o : Outline) : Option Nat :=
  o.mark.node?.map Node.id

/-- The numbers of all nodes among some parts and inside of them. -/
def numbers (os : List Outline) : List Nat :=
  (postorders os).filterMap number?

theorem numbers_append (os os' : List Outline) : numbers (os ++ os') = numbers os ++ numbers os' := by
  rw [numbers, postorders_append, List.filterMap_append]
  rfl

theorem numbers_node (n : Node) (os : List Outline) : numbers [.mk (.node n) os] = numbers os ++ [n.id] := by
  rw [numbers, postorders_singleton, List.filterMap_append]
  rfl

theorem numbers_place (pos : Position) (os : List Outline) : numbers [.mk (.place pos) os] = numbers os := by
  rw [numbers, postorders_singleton, List.filterMap_append]
  exact List.append_nil _

mutual

/-- What is inside of a part stands in one piece. -/
theorem infix_postorder {o : Outline} : ∀ {whole : Outline}, o ∈ whole.postorder → o.postorder <:+: whole.postorder
  | .mk mark parts, h => by
      rw [postorder] at h ⊢
      rcases List.mem_append.mp h with h | h
      · exact (infix_postorders h).trans (List.prefix_append _ _).isInfix
      · rw [List.mem_singleton.mp h, postorder]

theorem infix_postorders {o : Outline} : ∀ {os : List Outline}, o ∈ postorders os → o.postorder <:+: postorders os
  | [], h => absurd h List.not_mem_nil
  | first :: os, h => by
      rw [postorders] at h ⊢
      rcases List.mem_append.mp h with h | h
      · exact (infix_postorder h).trans (List.prefix_append _ _).isInfix
      · exact (infix_postorders h).trans (List.suffix_append _ _).isInfix

end

end Outline

/-- Outlines that are laid between two cursors take the numbers between them, in post-order. -/
theorem Lays.numbers {input : Input} {c : Cursor} {os : List Outline} {c' : Cursor} (h : Lays input c os c') :
    ∃ n, Outline.numbers os = List.range' c.nextId n ∧ c'.nextId = c.nextId + n := by
  induction h with
  | stay c => exact ⟨0, rfl, rfl⟩
  | pass h => exact ⟨0, rfl, h.nextId⟩
  | append _ _ ih ih' =>
      obtain ⟨n, hnumbers, hnext⟩ := ih
      obtain ⟨n', hnumbers', hnext'⟩ := ih'
      refine ⟨n + n', ?_, by omega⟩
      rw [Outline.numbers_append, hnumbers, hnumbers', hnext, List.range'_append_1]
  | node _ _ ih =>
      obtain ⟨n, hnumbers, hnext⟩ := ih
      refine ⟨n + 1, ?_, congrArg (· + 1) hnext⟩
      rw [Outline.numbers_node, hnumbers, List.range'_1_concat, Cursor.node, hnext]
  | place _ _ ih =>
      rw [Outline.numbers_place]
      exact ih

/-- The nodes of a script that was parsed are numbered in post-order from nought on without a gap. A node has a greater
number than all nodes inside of it. -/
theorem Script.parse_postorder {file : Nat} {source : String} {s : Script} (h : Script.parse file source = .ok s) :
    Outline.numbers s.outlines = List.range (Outline.numbers s.outlines).length ∧
      ∀ o ∈ Outline.postorders s.outlines, ∀ k, o.number? = some k → ∀ k' ∈ Outline.numbers o.parts, k' < k := by
  obtain ⟨c', hlaid⟩ := Script.parse_laid h
  obtain ⟨n, hnumbers, -⟩ := hlaid.numbers
  have hrange : Outline.numbers s.outlines = List.range n := by rw [hnumbers, List.range_eq_range']
  refine ⟨by rw [hrange, List.length_range], fun o ho k hk k' hk' => ?_⟩
  have hpiece : (o.postorder.filterMap Outline.number?).Sublist (List.range n) := by
    rw [← hrange]
    exact (Outline.infix_postorders ho).sublist.filterMap _
  have hincreasing := List.pairwise_lt_range.sublist hpiece
  obtain ⟨mark, parts⟩ := o
  rw [Outline.postorder, List.filterMap_append] at hincreasing
  have hlast : k ∈ [Outline.mk mark parts].filterMap Outline.number? :=
    List.mem_filterMap.mpr ⟨_, List.mem_singleton_self _, hk⟩
  exact (List.pairwise_append.mp hincreasing).2.2 k' hk' k hlast

theorem Script.parse_postorder_keywordMember :
    Script.parse 0 "x=>(\x7bif:x\x7d).if" = .ok keywordMember ∧
      Outline.numbers keywordMember.outlines = [0, 1, 2, 3, 4] ∧
      ∀ o ∈ Outline.postorders keywordMember.outlines, ∀ k, o.number? = some k →
        ∀ k' ∈ Outline.numbers o.parts, k' < k := by
  obtain ⟨hnumbers, hgreater⟩ := parse_postorder parse_keywordMember
  exact ⟨parse_keywordMember, hnumbers, hgreater⟩

end ScriptTypes
