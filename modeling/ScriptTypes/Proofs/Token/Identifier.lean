import ScriptTypes.Proofs.Script.Names
import ScriptTypes.Proofs.Token.Literal

/-! Identifiers as texts of their own. A text is an identifier if and only if the lexer of annotations reads the whole
of it as one name, and so does the lexer of scripts unless it is a keyword. Both read a name as far as it goes, and
neither reads a name that is no identifier. -/

namespace ScriptTypes

namespace Text

/-- The characters `[a-zA-Z_$]`. -/
def StartsWord (c : Char) : Prop :=
  ('a' ≤ c ∧ c ≤ 'z') ∨ ('A' ≤ c ∧ c ≤ 'Z') ∨ c = '_' ∨ c = '$'

/-- The texts `[a-zA-Z_$][a-zA-Z0-9_$]*`. -/
def IsWord (s : String) : Prop :=
  ∃ c cs, s.toList = c :: cs ∧ StartsWord c ∧ ∀ d ∈ cs, StartsWord d ∨ ('0' ≤ d ∧ d ≤ '9')

theorem isNameStart_iff {c : Char} : isNameStart c = true ↔ StartsWord c := by
  delta isNameStart Char.isAlpha Char.isUpper Char.isLower
  simp only [StartsWord, Char.le_def, Bool.or_eq_true, Bool.and_eq_true, decide_eq_true_eq, beq_iff_eq, ge_iff_le]
  rw [or_assoc, or_assoc, or_left_comm]

theorem isNamePart_iff {c : Char} : isNamePart c = true ↔ StartsWord c ∨ ('0' ≤ c ∧ c ≤ '9') := by
  have hdigit : c.isDigit = true ↔ '0' ≤ c ∧ c ≤ '9' := by
    simp only [Char.isDigit, Char.le_def, Bool.and_eq_true, decide_eq_true_eq, ge_iff_le]
  rw [← isNameStart_iff, ← hdigit]
  simp only [isNamePart, isNameStart, Char.isAlphanum, Bool.or_eq_true]
  rw [@or_right_comm (c.isAlpha = true), or_right_comm]

theorem isIdentifier_iff {s : String} : isIdentifier s = true ↔ IsWord s := by
  unfold isIdentifier IsWord
  cases s.toList with
  | nil => simp [isName]
  | cons c cs =>
      simp only [isName, Bool.and_eq_true, List.all_eq_true, isNameStart_iff, isNamePart_iff]
      constructor
      · rintro ⟨hc, hcs⟩
        exact ⟨c, cs, rfl, hc, hcs⟩
      · rintro ⟨_, _, heq, hc, hcs⟩
        cases heq
        exact ⟨hc, hcs⟩

theorem takeWhile_of_isIdentifier {s : String} (h : isIdentifier s = true) :
    ∃ c cs, s.toList = c :: cs ∧ isNameStart c = true ∧ cs.takeWhile isNamePart = cs := by
  unfold isIdentifier at h
  cases hs : s.toList with
  | nil =>
      rw [hs] at h
      cases h
  | cons c cs =>
      rw [hs, isName, Bool.and_eq_true, List.all_eq_true] at h
      exact ⟨c, cs, rfl, h.1, List.takeWhile_eq_self_iff.mpr h.2⟩

end Text

theorem Token.ofWord_of_not_mem {name : String} (h : name ∉ keywords) : ofWord name = .ident name := by
  unfold ofWord
  split
  · rename_i k hk
    exact absurd (List.mem_map.mpr ⟨k, List.mem_of_find?_eq_some hk, by simpa using List.find?_some hk⟩) h
  · rfl

namespace Scan

theorem plain_of_isNameStart {c : Char} (hc : Text.isNameStart c = true) (cs : List Char) : plain c cs = word c cs := by
  have hblank : ¬ isBlank c = true := by
    intro hblank
    simp only [isBlank, Bool.or_eq_true, beq_iff_eq] at hblank
    obtain (((rfl | rfl) | rfl) | rfl) | rfl := hblank <;> cases hc
  unfold plain
  rw [if_neg hblank, if_pos hc]

theorem annotation_ident {c : Char} {cs : List Char} {name : String} {more : Nat}
    (h : annotation c cs = .token (.ident name) more) : Text.isIdentifier name = true := by
  by_cases hblank : isAnnotationBlank c = true
  · cases (Tokenizes.scan_blank hblank cs).symm.trans h
  by_cases hname : Text.isNameStart c = true
  · cases (Tokenizes.scan_name hname cs).symm.trans h
    exact Text.isIdentifier_word hname cs
  · cases (Tokenizes.scan_other hblank hname cs).2 name more h

end Scan

/-- The lexemes of an annotation, each with the offset at which it stops. -/
def annotationSpans (offset : Nat) : List Char → Except Nat (List (AnnotationLexeme × Nat))
  | [] => .ok []
  | c :: cs =>
      match Scan.annotation c cs with
      | .gap more => annotationSpans (offset + Text.byteLength (c :: cs.take more)) (cs.drop more)
      | .token token more => do
          let stop := offset + Text.byteLength (c :: cs.take more)
          let rest ← annotationSpans stop (cs.drop more)
          return (⟨token, offset⟩, stop) :: rest
      | .fault _ _ => .error offset
termination_by cs => cs.length
decreasing_by all_goals simp only [List.length_cons, List.length_drop]; omega

theorem annotationLexemes_eq (offset : Nat) (text : List Char) :
    annotationLexemes offset text = (annotationSpans offset text).map (List.map Prod.fst) := by
  fun_induction annotationSpans offset text with
  | case1 offset =>
      rw [annotationLexemes]
      rfl
  | case2 offset c cs more hscan ih =>
      rw [annotationLexemes, hscan]
      exact ih
  | case3 offset c cs token more hscan stop ih =>
      rw [annotationLexemes, hscan]
      change annotationLexemes stop (cs.drop more) >>= _ = _
      rw [ih]
      cases annotationSpans stop (cs.drop more) with
      | error offset => rfl
      | ok ls => rfl
  | case4 offset c cs fault more hscan =>
      rw [annotationLexemes, hscan]
      rfl

theorem annotationLexemes_named {offset : Nat} {text : List Char} {ls : List AnnotationLexeme}
    (h : annotationLexemes offset text = .ok ls) :
    ∀ l ∈ ls, ∀ name, l.token = .ident name → Text.isIdentifier name = true := by
  fun_induction annotationLexemes offset text generalizing ls with
  | case1 offset =>
      cases h
      exact List.forall_mem_nil _
  | case2 offset c cs more hscan ih => exact ih h
  | case3 offset c cs token more hscan ih =>
      obtain ⟨rest, hrest, hls⟩ := bind_eq_ok h
      cases hls
      refine List.forall_mem_cons.mpr ⟨?_, ih hrest⟩
      rintro name rfl
      exact Scan.annotation_ident hscan
  | case4 offset c cs fault more hscan => cases h

/-! Texts that are one name. -/

theorem lex_of_isIdentifier {s : String} (h : Text.isIdentifier s = true) :
    lex s = ⟨[⟨Token.ofWord s, 0, s.utf8ByteSize, false⟩], none⟩ := by
  obtain ⟨c, cs, hs, hc, hrun⟩ := Text.takeWhile_of_isIdentifier h
  have hname : String.ofList (c :: cs) = s := by rw [← hs, String.ofList_toList]
  refine lex_of_token hs ?_ ?_
  · rw [Scan.plain_of_isNameStart hc, Scan.word_eq, Scan.runLength, hrun, hname]
  · unfold Token.ofWord
    split <;> rfl

theorem annotationSpans_of_isIdentifier {s : String} (h : Text.isIdentifier s = true) :
    annotationSpans 0 s.toList = .ok [(⟨.ident s, 0⟩, s.utf8ByteSize)] := by
  obtain ⟨c, cs, hs, hc, hrun⟩ := Text.takeWhile_of_isIdentifier h
  have hscan : Scan.annotation c cs = .token (.ident s) cs.length := by
    rw [Tokenizes.scan_name hc, Scan.runLength, hrun, ← hs, String.ofList_toList]
  rw [← Text.byteLength_toList, hs, annotationSpans, hscan]
  simp only [List.take_length, List.drop_length, Nat.zero_add, annotationSpans]
  rfl

/-- The lexers agree on what an identifier is. A text is one if it is spelled with letters, digits, underscores and
dollar signs and does not start with a digit. That is so if and only if the lexer of annotations reads the whole text as
one name, and the lexer of scripts reads it as one name if and only if it is no keyword besides. -/
theorem lex_ident_iff (s : String) :
    (Text.isIdentifier s = true ↔ Text.IsWord s) ∧
      ((lex s).error = none ∧
          (lex s).lexemes.map (fun l => (l.token, l.start, l.stop)) = [(.ident s, 0, s.utf8ByteSize)] ↔
        Text.isIdentifier s = true ∧ s ∉ keywords) ∧
      (annotationSpans 0 s.toList = .ok [(⟨.ident s, 0⟩, s.utf8ByteSize)] ↔ Text.isIdentifier s = true) ∧
      (annotationLexemes 0 s.toList = .ok [⟨.ident s, 0⟩] ↔ Text.isIdentifier s = true) := by
  have hspans (h : annotationSpans 0 s.toList = .ok [(⟨.ident s, 0⟩, s.utf8ByteSize)]) :
      annotationLexemes 0 s.toList = .ok [⟨.ident s, 0⟩] := by
    rw [annotationLexemes_eq, h]
    rfl
  have hlexemes (h : annotationLexemes 0 s.toList = .ok [⟨.ident s, 0⟩]) : Text.isIdentifier s = true :=
    annotationLexemes_named h _ List.mem_cons_self s rfl
  refine ⟨Text.isIdentifier_iff, ⟨?_, ?_⟩, ⟨fun h => hlexemes (hspans h), annotationSpans_of_isIdentifier⟩,
    hlexemes, fun h => hspans (annotationSpans_of_isIdentifier h)⟩
  · rintro ⟨-, hlexed⟩
    have hmem : (Token.ident s, 0, s.utf8ByteSize) ∈ (lex s).lexemes.map fun l => (l.token, l.start, l.stop) := by
      rw [hlexed]
      exact List.mem_cons_self
    obtain ⟨l, hl, he⟩ := List.mem_map.mp hmem
    exact Lexed.read_wellNamed _ _ _ _ l hl s (Prod.ext_iff.mp he).1
  · rintro ⟨hname, hfree⟩
    rw [lex_of_isIdentifier hname, Token.ofWord_of_not_mem hfree]
    exact ⟨rfl, rfl⟩

end ScriptTypes
