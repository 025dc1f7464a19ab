import ScriptTypes.Token.Lexer

/-! The modes of the lexer along lexemes. Each lexeme takes the modes on from where the one before has left them, so the
modes at any place are known from the lexemes before it. -/

namespace ScriptTypes

namespace Modes

def inTemplate (modes : Modes) : Bool :=
  match modes.current with
  | .plain _ => false
  | .template _ => true

/-- The modes after lexemes, one after the other. -/
def along (modes : Modes) (ls : List Lexeme) : Modes :=
  ls.foldl (fun m l => m.after l.start l.token) modes

@[simp] theorem along_nil (modes : Modes) : modes.along [] = modes := rfl

@[simp] theorem along_cons (modes : Modes) (l : Lexeme) (ls : List Lexeme) :
    modes.along (l :: ls) = (modes.after l.start l.token).along ls := rfl

@[simp] theorem along_append (modes : Modes) (ls ls' : List Lexeme) :
    modes.along (ls ++ ls') = (modes.along ls).along ls' :=
  List.foldl_append

/-- The lexer is in a template whose backtick is at the given offset. -/
def Holds (modes : Modes) (start : Nat) : Prop :=
  .template start ∈ modes.current :: modes.left

/-- Only a backtick starts a template. -/
theorem Holds.of_after {modes : Modes} {start : Nat} {t : Token} {s : Nat} (h : (modes.after start t).Holds s) :
    modes.Holds s ∨ s = start ∧ t = .symbol .backtick := by
  obtain ⟨current, left⟩ := modes
  unfold after at h
  split at h
  · cases current with
    | plain n => simpa [Holds, enterTemplate, or_comm] using h
    | template s' => exact .inl h
  · cases current with
    | plain n => exact .inl (by simpa [Holds, openBrace] using h)
    | template s' => exact .inl h
  · left
    unfold closeBrace at h
    split at h
    · rename_i heq
      cases heq
      simpa [Holds] using h
    · rename_i heq
      cases heq
      simpa [Holds, leaveInterpolation] using h
    · exact h
  · left
    cases current with
    | plain n => exact h
    | template s' => simpa [Holds, enterInterpolation] using h
  · left
    unfold leaveTemplate at h
    split at h
    · rename_i heq
      cases heq
      simp only [Holds, List.mem_cons, reduceCtorEq, false_or] at h ⊢
      exact .inr h
    · exact h
  · exact .inl h

theorem holds_along {modes : Modes} {ls : List Lexeme} {s : Nat} (h : (modes.along ls).Holds s) :
    modes.Holds s ∨ ∃ l ∈ ls, l.start = s ∧ l.token = .symbol .backtick := by
  induction ls generalizing modes with
  | nil => exact .inl h
  | cons l ls ih =>
      rcases ih h with h | ⟨l', hl', hs⟩
      · rcases h.of_after with h | ⟨hs, ht⟩
        · exact .inl h
        · exact .inr ⟨l, List.mem_cons_self, hs.symm, ht⟩
      · exact .inr ⟨l', List.mem_cons_of_mem _ hl', hs⟩

theorem not_holds_initial (s : Nat) : ¬ initial.Holds s := by
  simp [Holds, initial]

end Modes

end ScriptTypes
