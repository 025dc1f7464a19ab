import ScriptTypes.Proofs.Script.Spanning
import ScriptTypes.Proofs.Script.TemplateEnd
import ScriptTypes.Proofs.Source.Span

/-! Parsing points inside of the source, if that is not too long for its offsets. All nodes and positions in the tree of
a script lie in its text, between characters, and so does the place of a syntax error. -/

namespace ScriptTypes

/-- A span covers a part of the text of a file, from one place between characters to another. -/
def Span.Within (file : Nat) (source : String) (s : Span) : Prop :=
  s.file = file ∧ ∃ slice rest, Text.Between source.toList s.start s.stop slice rest

/-- A position that is known lies in the text of a file. -/
def Position.Within (file : Nat) (source : String) (pos : Position) : Prop :=
  ∀ s, pos = some s → s.Within file source

variable {file : Nat} {source : String}

theorem Lexeme.between {l : Lexeme} (h : l ∈ (lex source).lexemes) :
    ∃ slice rest, Text.Between source.toList l.start l.stop slice rest := by
  obtain ⟨before, after, hsplit⟩ := List.append_of_mem h
  obtain ⟨slice, rest, hbetween, -⟩ := (lex_stands hsplit).spelled
  exact ⟨slice, rest, hbetween⟩

theorem Span.within_end (file : Nat) (source : String) :
    Span.Within file source ⟨file, source.utf8ByteSize, source.utf8ByteSize⟩ :=
  ⟨rfl, [], [], source.toList, by simp, Text.byteLength_toList source, rfl⟩

theorem Span.within_whole (file : Nat) (source : String) : Span.Within file source ⟨file, 0, source.utf8ByteSize⟩ :=
  ⟨rfl, source.toList, [], [], by simp, rfl, by rw [Nat.zero_add, Text.byteLength_toList]⟩

variable (hsize : source.utf8ByteSize < 2 ^ 32)

include hsize

/-- In a text that is not too long, offsets are what they are. -/
theorem Span.within_ofRange {start stop : Nat} (h : Span.Within file source ⟨file, start, stop⟩) :
    (Span.ofRange file start stop).Within file source := by
  obtain ⟨-, slice, rest, hbetween⟩ := h
  have hle : start ≤ stop ∧ stop ≤ Text.byteLength source.toList := hbetween.le
  rw [Text.byteLength_toList] at hle
  rw [Span.ofRange_eq file (by omega) (by omega)]
  exact ⟨rfl, slice, rest, hbetween⟩

/-- A span of lexemes lies in the text, since its first lexeme starts before its last one ends. -/
theorem Position.Spans.within {pos : Position} (h : pos.Spans file (lex source).lexemes) :
    pos.Within file source := by
  obtain ⟨before, first, seg, last, after, hls, hfirst, hlast, rfl⟩ := h
  have hsub : seg ⊆ (lex source).lexemes := by
    rw [hls]
    exact fun l hl => List.mem_append_left _ (List.mem_append_right _ hl)
  have hordered : seg.Pairwise fun l l' => l.stop ≤ l'.start := by
    have hall := (lex_covers source).ordered.1
    rw [hls] at hall
    exact (List.pairwise_append.mp (List.pairwise_append.mp hall).1).2.1
  obtain ⟨slice, rest, hstart⟩ := Lexeme.between (hsub (List.mem_of_mem_head? hfirst))
  obtain ⟨slice', rest', hstop⟩ := Lexeme.between (hsub (List.mem_of_mem_getLast? hlast))
  have hle : first.start ≤ last.stop := by
    cases seg with
    | nil => cases hfirst
    | cons l seg =>
        cases hfirst
        rcases List.mem_cons.mp (List.mem_of_mem_getLast? hlast) with rfl | hmem
        · exact hstart.le.1
        · calc first.start
            _ ≤ first.stop := hstart.le.1
            _ ≤ last.start := (List.pairwise_cons.mp hordered).1 last hmem
            _ ≤ last.stop := hstop.le.1
  rintro s ⟨⟩
  obtain ⟨whole, hwhole⟩ := hstart.cover hstop hle
  exact Span.within_ofRange hsize ⟨rfl, whole, rest', hwhole⟩

/-! Trees. -/

omit hsize in
/-- The statements of a script are read one after the other, so their marks span its lexemes. -/
theorem Parser.statements_span {input : Input} {c : Cursor} {stmts : List Stmt} {ls : List Lexeme}
    (h : statements input c = .ok stmts) (hin : c.rest <:+ ls) : Mark.Span input.file ls (marksStmts stmts) := by
  rcases statements_cases h with ⟨-, rfl⟩ | ⟨s, c₁, ss, hs, hlt, hss, rfl⟩
  · exact .nil
  · have hrest := statements_span hss (hs.onward.suffix.trans hin)
    cases s with
    | none => exact hrest
    | some s => exact (hs.marks_span hin).append hrest
termination_by c.size

/-- All marks in the tree of a script lie in its text. -/
theorem Script.parse_marks_within {s : Script} (h : Script.parse file source = .ok s) :
    ∀ m ∈ s.marks, m.pos.Within file source := by
  obtain ⟨hbody, hpos⟩ := Script.statements_of_parse h
  refine List.forall_mem_append.mpr ⟨fun m hm => ?_, List.forall_mem_singleton.mpr ?_⟩
  · exact (Parser.statements_span hbody (List.suffix_refl _) m hm).within hsize
  · rintro span hspan
    cases hpos.symm.trans hspan
    exact Span.within_ofRange hsize (Span.within_whole file source)

/-! Errors. -/

namespace Parser

omit hsize in
theorem Starts.onward {input : Input} {c d : Cursor} (h : Starts input c d) : c.Onward d := by
  induction h with
  | first => exact .refl c
  | next _ _ hs ih => exact ih.trans hs.onward

end Parser

omit hsize in
/-- The reader of a template always stands at a part of it. -/
theorem Script.ReadsAt.piece? {current : String} {c : Cursor} (h : ReadsAt file source (.templateTail current) c) :
    (c.peek.bind Parser.piece?).isSome = true := by
  obtain ⟨before, start, k, left, hls, hmodes⟩ := h.standing
  obtain ⟨l, ls, hrest, hl⟩ := exists_template_lexeme h.1 hls (by rw [hmodes]; rfl)
  rw [Cursor.peek, hrest]
  exact piece?_isSome hl

theorem Cursor.unexpected_within {c : Cursor} (hc : c.rest ⊆ (lex source).lexemes) (expected : String) :
    (c.unexpected ⟨file, source.utf8ByteSize⟩ expected).span.Within file source := by
  unfold unexpected
  cases hrest : c.rest with
  | nil => exact Span.within_ofRange hsize (Span.within_end file source)
  | cons l rest => exact Span.within_ofRange hsize ⟨rfl, Lexeme.between (hc (hrest ▸ List.mem_cons_self))⟩

/-- A syntax error is at a place in the text. -/
theorem Script.parse_error_within {e : SyntaxError} (h : Script.parse file source = .error e) :
    e.span.Within file source := by
  unfold Script.parse at h
  dsimp only at h
  split at h
  · rename_i lexError hlex
    cases h
    obtain ⟨slice, rest, hbetween, -⟩ := lex_error hlex
    unfold SyntaxError.ofLexError
    dsimp only
    split <;> exact Span.within_ofRange hsize ⟨rfl, slice, rest, hbetween⟩
  · rename_i hnone
    rcases bind_eq_error h with h | ⟨_, -, h⟩
    · obtain ⟨d, hstarts, hrest, hfails⟩ := Parser.statements_error h .first
      obtain ⟨q, d', hreaches, ⟨d'', expected, ho, rfl, -⟩ | ⟨current, rfl, hpeek⟩⟩ := Parser.exists_refuses hfails
      · exact Cursor.unexpected_within hsize ((hstarts.onward.trans hreaches.onward).trans ho).suffix.subset expected
      · have hsome := ReadsAt.piece? ⟨hnone, d, hstarts, hrest, hreaches⟩
        rw [hpeek] at hsome
        cases hsome
    · cases h

end ScriptTypes
