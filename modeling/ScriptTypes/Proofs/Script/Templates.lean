import ScriptTypes.Proofs.Script.Operands
import ScriptTypes.Proofs.Token.Lossless

/-! Templates compose. Texts and expressions, written one after the other between backticks, are read as one template
with just these texts and these expressions, whatever the expressions hold: objects, functions, strings, comments or
further templates. -/

namespace ScriptTypes

namespace Text

/-- A text as it is written in a template, with a backslash before each backslash, backtick and dollar sign. -/
def escapeTemplate : List Char → List Char
  | [] => []
  | c :: cs =>
      if c = '\x5c' ∨ c = '\x60' ∨ c = '$' then '\x5c' :: c :: escapeTemplate cs else c :: escapeTemplate cs

theorem escapeTemplate_append {w : List Char} (h : ∀ c ∈ w, Scan.isTemplateText c = true) (cs : List Char) :
    escapeTemplate (w ++ cs) = w ++ escapeTemplate cs := by
  induction w with
  | nil => rfl
  | cons c w ih =>
      rw [List.forall_mem_cons] at h
      have hc : ¬ (c = '\x5c' ∨ c = '\x60' ∨ c = '$') := by
        simpa [Scan.isTemplateText, and_comm, and_assoc, and_left_comm] using h.1
      rw [List.cons_append, escapeTemplate, if_neg hc, ih h.2, List.cons_append]

theorem escapeTemplate_special {c : Char} (h : Scan.isTemplateText c = false) (cs : List Char) :
    escapeTemplate (c :: cs) = '\x5c' :: c :: escapeTemplate cs := by
  rw [escapeTemplate, if_pos]
  by_contra hc
  simp only [not_or] at hc
  simp [Scan.isTemplateText, hc] at h

end Text

/-- Lexemes of a template that are text, with the text they make up. -/
inductive Spells : List Char → List Lexeme → Prop
  | nil : Spells [] []
  | cons {l piece cs ls} (hl : Parser.piece? l.token = some (.text piece)) (h : Spells cs ls) :
      Spells (piece.toList ++ cs) (l :: ls)

namespace Lexed

/-- After the text characters at its start, an escaped text goes on with a backslash or is over. -/
theorem takeWhile_escaped {after : List Char} (hafter : ∀ c ∈ after.head?, Scan.isTemplateText c = false)
    (cs : List Char) :
    (Text.escapeTemplate cs ++ after).takeWhile Scan.isTemplateText = cs.takeWhile Scan.isTemplateText := by
  induction cs with
  | nil =>
      cases after with
      | nil => rfl
      | cons c after => simp [Text.escapeTemplate, hafter c rfl]
  | cons c cs ih =>
      cases hc : Scan.isTemplateText c with
      | true =>
          have hone := Text.escapeTemplate_append (w := [c]) (by simpa using hc) cs
          rw [List.singleton_append] at hone
          simp [hone, hc, ih]
      | false =>
          have hslash : Scan.isTemplateText '\x5c' = false := rfl
          rw [Text.escapeTemplate_special hc, List.cons_append, List.takeWhile_cons_of_neg (by simp [hslash]),
            List.takeWhile_cons_of_neg (by simp [hc])]

theorem scan_text {after : List Char} (hafter : ∀ c ∈ after.head?, Scan.isTemplateText c = false) (s : Nat)
    (left : List Mode) {c : Char} (hc : Scan.isTemplateText c = true) (cs : List Char) :
    (Modes.mk (.template s) left).scan c (Text.escapeTemplate cs ++ after) =
      .token (.text (String.ofList (c :: cs.takeWhile Scan.isTemplateText)))
        (cs.takeWhile Scan.isTemplateText).length := by
  have hchar : c ≠ '\x60' ∧ c ≠ '$' ∧ c ≠ '\x5c' := by
    simpa [Scan.isTemplateText, and_assoc] using hc
  simp only [Modes.scan, Scan.template, hchar, if_false, Scan.runLength, takeWhile_escaped hafter]

theorem scan_escaped (s : Nat) (left : List Mode) {c : Char} (hc : Scan.isTemplateText c = false) (cs : List Char) :
    (Modes.mk (.template s) left).scan '\x5c' (c :: cs) = .token (.escaped c) 1 := by
  have hchar : c = '\x60' ∨ c = '$' ∨ c = '\x5c' := by
    by_contra h
    simp only [not_or] at h
    simp [Scan.isTemplateText, h] at hc
  obtain rfl | rfl | rfl := hchar <;> rfl

/-- One lexeme of text, then the lexemes of the rest. -/
theorem read_piece {s : Nat} {left : List Mode} {c : Char} {w cs v after : List Char} {t : Token} {piece : String}
    (hscan : (Modes.mk (.template s) left).scan c (w ++ (Text.escapeTemplate cs ++ after)) = .token t w.length)
    (ht : Parser.piece? t = some (.text piece)) (hv : Text.escapeTemplate v = c :: w ++ Text.escapeTemplate cs)
    (hpiece : v = piece.toList ++ cs) {offset : Nat}
    (hrest : ∃ ls, Spells cs ls ∧
      read ⟨.template s, left⟩ false (offset + Text.byteLength (c :: w)) (Text.escapeTemplate cs ++ after) =
        prepend ls (read ⟨.template s, left⟩ false
          (offset + Text.byteLength (c :: w) + Text.byteLength (Text.escapeTemplate cs)) after)) :
    ∃ ls, Spells v ls ∧ read ⟨.template s, left⟩ false offset (Text.escapeTemplate v ++ after) =
      prepend ls (read ⟨.template s, left⟩ false (offset + Text.byteLength (Text.escapeTemplate v)) after) := by
  obtain ⟨ls, hls, hread⟩ := hrest
  have hmodes : (Modes.mk (.template s) left).after offset t = ⟨.template s, left⟩ := by
    cases t <;> first | rfl | cases ht
  refine ⟨⟨t, offset, offset + Text.byteLength (c :: w), false⟩ :: ls, hpiece ▸ .cons ht hls, ?_⟩
  rw [hv, List.append_assoc, List.cons_append, read_token hscan, List.take_left, List.drop_left, hmodes, hread,
    Text.byteLength_append, Nat.add_assoc]
  rfl

/-- An escaped text is read in a template as lexemes that make it up. -/
theorem read_escaped (after : List Char) (hafter : ∀ c ∈ after.head?, Scan.isTemplateText c = false) (s : Nat)
    (left : List Mode) (v : List Char) (offset : Nat) :
    ∃ ls, Spells v ls ∧ read ⟨.template s, left⟩ false offset (Text.escapeTemplate v ++ after) =
      prepend ls (read ⟨.template s, left⟩ false (offset + Text.byteLength (Text.escapeTemplate v)) after) := by
  cases v with
  | nil => exact ⟨[], .nil, rfl⟩
  | cons c cs =>
      cases hc : Scan.isTemplateText c with
      | true =>
          -- The text goes up to the next character that is escaped, or to the end.
          have hw : ∀ a ∈ cs.takeWhile Scan.isTemplateText, Scan.isTemplateText a = true :=
            fun _ => List.mem_takeWhile_imp
          have hsplit : cs.takeWhile Scan.isTemplateText ++ cs.dropWhile Scan.isTemplateText = cs :=
            List.takeWhile_append_dropWhile
          have hescape : Text.escapeTemplate (c :: cs) =
              c :: cs.takeWhile Scan.isTemplateText ++ Text.escapeTemplate (cs.dropWhile Scan.isTemplateText) := by
            rw [← Text.escapeTemplate_append (List.forall_mem_cons.mpr ⟨hc, hw⟩), List.cons_append, hsplit]
          have hscan := scan_text hafter s left hc cs
          rw [← hsplit, Text.escapeTemplate_append hw, hsplit, List.append_assoc] at hscan
          refine read_piece hscan rfl hescape ?_ (read_escaped after hafter s left (cs.dropWhile Scan.isTemplateText) _)
          rw [String.toList_ofList, List.cons_append, hsplit]
      | false =>
          exact read_piece (w := [c]) (scan_escaped s left hc _) rfl (Text.escapeTemplate_special hc cs) (by simp)
            (read_escaped after hafter s left cs _)
termination_by v.length
decreasing_by
  · exact Nat.lt_succ_self _
  · exact Nat.lt_succ_of_le (List.dropWhile_suffix _).length_le

section

variable (n s : Nat) (left : List Mode) (afterBreak : Bool) (offset : Nat) (cs : List Char)

theorem read_backtick :
    read ⟨.plain n, left⟩ afterBreak offset ('\x60' :: cs) =
      cons ⟨.symbol .backtick, offset, offset + 1, afterBreak⟩
        (read ⟨.template offset, .plain n :: left⟩ false (offset + 1) cs) := by
  have hscan : Modes.scan ⟨.plain n, left⟩ '\x60' cs = .token (.symbol .backtick) 0 := rfl
  exact read_token hscan afterBreak offset

theorem read_templateEnd :
    read ⟨.template s, .plain n :: left⟩ afterBreak offset ('\x60' :: cs) =
      cons ⟨.templateEnd, offset, offset + 1, afterBreak⟩ (read ⟨.plain n, left⟩ false (offset + 1) cs) := by
  have hscan : Modes.scan ⟨.template s, .plain n :: left⟩ '\x60' cs = .token .templateEnd 0 := rfl
  exact read_token hscan afterBreak offset

theorem read_interpolation :
    read ⟨.template s, left⟩ afterBreak offset ('$' :: '\x7b' :: cs) =
      cons ⟨.interpolation, offset, offset + 2, afterBreak⟩
        (read ⟨.plain 0, .template s :: left⟩ false (offset + 2) cs) := by
  have hscan : Modes.scan ⟨.template s, left⟩ '$' ('\x7b' :: cs) = .token .interpolation 1 := rfl
  exact read_token hscan afterBreak offset

theorem read_interpolationEnd :
    read ⟨.plain 0, .template s :: left⟩ afterBreak offset ('\x7d' :: cs) =
      cons ⟨.symbol .rBrace, offset, offset + 1, afterBreak⟩ (read ⟨.template s, left⟩ false (offset + 1) cs) := by
  have hscan : Modes.scan ⟨.plain 0, .template s :: left⟩ '\x7d' cs = .token (.symbol .rBrace) 0 := rfl
  exact read_token hscan afterBreak offset

end

end Lexed

/-- The last of the lexemes, or what came before them. -/
def Lexeme.lastOf (last : Option Lexeme) (ls : List Lexeme) : Option Lexeme :=
  ls.foldl (fun _ l => some l) last

theorem Spells.reads {input : Input} {cs : List Char} {ls : List Lexeme} (h : Spells cs ls) {current : String}
    {rest : List Lexeme} {last : Option Lexeme} {n : Nat} {v : List String × List Expr} {c' : Cursor}
    (hrest : Reads input (.templateTail (current ++ String.ofList cs)) ⟨rest, Lexeme.lastOf last ls, n⟩ v c') :
    Reads input (.templateTail current) ⟨ls ++ rest, last, n⟩ v c' := by
  induction h generalizing current last with
  | nil =>
      rw [String.ofList_nil, String.append_empty] at hrest
      exact hrest
  | @cons l piece cs ls hl _ ih =>
      rw [String.ofList_append, String.ofList_toList, ← String.append_assoc] at hrest
      have htakes : Cursor.Takes ⟨l :: ls ++ rest, last, n⟩ l.token ⟨ls ++ rest, some l, n⟩ := ⟨l, ⟨rfl, rfl, rfl⟩, rfl⟩
      exact .templateText htakes hl (ih hrest)

theorem Spells.reads_text {input : Input} {text : String} {ls : List Lexeme} (h : Spells text.toList ls)
    {rest : List Lexeme} {last : Option Lexeme} {n : Nat} {v : List String × List Expr} {c' : Cursor}
    (hrest : Reads input (.templateTail text) ⟨rest, Lexeme.lastOf last ls, n⟩ v c') :
    Reads input (.templateTail "") ⟨ls ++ rest, last, n⟩ v c' := by
  apply h.reads
  rw [String.empty_append, String.ofList_toList]
  exact hrest

/-- A text that is an expression: it has no lexical errors, and the expression takes all of it. -/
structure Fragment (file : Nat) where
  source : String
  expr : Expr
  /-- The number of nodes of the expression. -/
  nodes : Nat
  lexed : (lex source).error = none
  parsed : ∃ next h,
    Parser.assignment ⟨file, source.utf8ByteSize⟩ ⟨(lex source).lexemes, none, 0⟩ = .ok ⟨expr, next, h⟩ ∧
      next.rest = [] ∧ next.nextId = nodes

namespace Fragment

variable {file : Nat} (f : Fragment file)

theorem reads : ∃ last,
    Reads ⟨file, f.source.utf8ByteSize⟩ .assignment ⟨(lex f.source).lexemes, none, 0⟩ f.expr ⟨[], last, f.nodes⟩ := by
  obtain ⟨⟨rest, last, nextId⟩, h, hparsed, hrest, hnodes⟩ := f.parsed
  cases hrest
  cases hnodes
  exact ⟨last, Parser.follows _ _ ⟨h, hparsed⟩⟩

theorem nested : Nested false (lex f.source).lexemes := by
  obtain ⟨last, hreads⟩ := f.reads
  obtain ⟨ls, hls, hnested⟩ := hreads.crosses
  rw [List.append_nil] at hls
  cases hls
  exact hnested

end Fragment

namespace Template

variable {file : Nat}

/-- What follows the backtick: a text, then expressions and texts by turns. Each expression is followed by a line
break, so that a comment at its end does not hide the brace. -/
def tailText (v : String) : List (Fragment file × String) → List Char
  | [] => Text.escapeTemplate v.toList ++ ['\x60']
  | (f, v') :: parts =>
      Text.escapeTemplate v.toList ++ '$' :: '\x7b' :: (f.source.toList ++ '\n' :: '\x7d' :: tailText v' parts)

/-- A template written out. -/
def sourceText (v : String) (parts : List (Fragment file × String)) : String :=
  String.ofList ('\x60' :: tailText v parts)

/-- The expressions at their places, when the text starts at an offset and so many nodes have been numbered. -/
def exprsFrom (offset nodes : Nat) (v : String) : List (Fragment file × String) → List Expr
  | [] => []
  | (f, v') :: parts =>
      let start := offset + Text.byteLength (Text.escapeTemplate v.toList) + 2
      f.expr.relocate (fun n => ⟨n.id + nodes, n.pos.map (Span.shift start)⟩) (Option.map (Span.shift start)) ::
        exprsFrom (start + Text.byteLength f.source.toList + 2) (nodes + f.nodes) v' parts

/-- The number of nodes in the expressions. -/
def nodesOf : List (Fragment file × String) → Nat
  | [] => 0
  | (f, _) :: parts => f.nodes + nodesOf parts

/-- What follows the backtick is read to its end, as the texts and the expressions at their places. -/
theorem reads_tail {input : Input} (hfile : input.file = file) (s : Nat) (v : String)
    (parts : List (Fragment file × String)) (offset nodes : Nat) (last : Option Lexeme) :
    ∃ ls l, Lexed.read ⟨.template s, [.plain 0]⟩ false offset (tailText v parts) = ⟨ls, none⟩ ∧
      l.stop = offset + Text.byteLength (tailText v parts) ∧
      Reads input (.templateTail "") ⟨ls, last, nodes⟩ (v :: parts.map Prod.snd, exprsFrom offset nodes v parts)
        ⟨[], some l, nodes + nodesOf parts⟩ := by
  induction parts generalizing v offset nodes last with
  | nil =>
      obtain ⟨ls, hspells, hread⟩ :=
        Lexed.read_escaped ['\x60'] (by simp [Scan.isTemplateText]) s [.plain 0] v.toList offset
      let close : Lexeme := ⟨.templateEnd, offset + Text.byteLength (Text.escapeTemplate v.toList),
        offset + Text.byteLength (Text.escapeTemplate v.toList) + 1, false⟩
      have hclose : Cursor.Takes ⟨[close], Lexeme.lastOf last ls, nodes⟩ .templateEnd ⟨[], some close, nodes⟩ :=
        ⟨close, ⟨rfl, rfl, rfl⟩, rfl⟩
      refine ⟨ls ++ [close], close, ?_, ?_, hspells.reads_text (.templateEnd hclose)⟩
      · rw [tailText, hread, Lexed.read_templateEnd, Lexed.read]
        rfl
      · rw [tailText, Text.byteLength_append, ← Nat.add_assoc]
        rfl
  | cons part parts ih =>
      obtain ⟨f, v'⟩ := part
      obtain ⟨ls, hspells, hread⟩ :=
        Lexed.read_escaped ('$' :: '\x7b' :: (f.source.toList ++ '\n' :: '\x7d' :: tailText v' parts))
          (by simp [Scan.isTemplateText]) s [.plain 0] v.toList offset
      let start := offset + Text.byteLength (Text.escapeTemplate v.toList) + 2
      let stop := start + Text.byteLength f.source.toList + 1
      let open' : Lexeme := ⟨.interpolation, offset + Text.byteLength (Text.escapeTemplate v.toList), start, false⟩
      let close : Lexeme := ⟨.symbol .rBrace, stop, stop + 1, true⟩
      obtain ⟨ls', l, hread', hstop, hreads⟩ := ih v' (stop + 1) (nodes + f.nodes) (some close)
      let F : Frame := ⟨start, nodes, some open', close :: ls'⟩
      obtain ⟨end', hexpr⟩ := f.reads
      have hopen : Cursor.Takes ⟨open' :: ((lex f.source).lexemes.map (Lexeme.shift start) ++ close :: ls'),
          Lexeme.lastOf last ls, nodes⟩ .interpolation (F.cursor ⟨(lex f.source).lexemes, none, 0⟩) :=
        ⟨open', ⟨rfl, rfl, Nat.zero_add nodes⟩, rfl⟩
      have hclose : (F.cursor ⟨[], end', f.nodes⟩).Takes (.symbol .rBrace) ⟨ls', some close, nodes + f.nodes⟩ :=
        ⟨close, ⟨rfl, rfl, Nat.add_comm ..⟩, rfl⟩
      have hwhole := hspells.reads_text (.interpolation hopen (hexpr.framed hfile fun _ => rfl) hclose hreads)
      refine ⟨ls ++ open' :: ((lex f.source).lexemes.map (Lexeme.shift start) ++ close :: ls'), l, ?_, ?_, ?_⟩
      · rw [tailText, hread, Lexed.read_interpolation,
          Lexed.read_interpolated f.lexed f.nested (by simp [Scan.isBlank]), Lexed.read_interpolationEnd, hread']
        rfl
      · rw [hstop, tailText]
        simp only [Text.byteLength_append, Text.byteLength]
        have hchars : '$'.utf8Size = 1 ∧ '\x7b'.utf8Size = 1 ∧ '\n'.utf8Size = 1 ∧ '\x7d'.utf8Size = 1 := by decide
        omega
      · rw [nodesOf, ← Nat.add_assoc]
        exact hwhole

end Template

/-- A template that stands alone is an expression. -/
theorem Reads.template_alone {input : Input} {c c' : Cursor} {q : Template} (h : Reads input .template c q c')
    (hend : c'.rest = []) : Reads input .assignment c (.template (c'.node input (c.start input)) q) c'.tick := by
  obtain ⟨l, c₁, hl, ht⟩ := h.backtick
  have hpeek : c.peek = some (.symbol .backtick) := hl.peek.trans (congrArg some ht)
  have hbefore : c'.tick.Before Symbol.ends := by
    intro t ht
    simp [Cursor.peek, Cursor.tick, hend] at ht
  exact (Reads.templateExpr h).assignment_of_symbol hpeek (by decide) rfl hbefore

theorem Parser.statements_of_last {input : Input} {c c' : Cursor} {s : Stmt} (h : Reads input .statement c (some s) c')
    (hend : c'.rest = []) : Parser.statements input c = .ok [s] :=
  Parser.statements_cons h (Parser.statements_nil hend)

namespace Template

variable {file : Nat} (v : String) (parts : List (Fragment file × String))

/-- The whole of the text. -/
def span : Position :=
  some (.ofRange file 0 (sourceText v parts).utf8ByteSize)

/-- The template of the texts and of the expressions at their places. -/
def composed : Template :=
  .mk (v :: parts.map Prod.snd) (exprsFrom 1 0 v parts) (span v parts)

theorem reads_sourceText :
    ∃ ls l, lex (sourceText v parts) = ⟨⟨.symbol .backtick, 0, 1, false⟩ :: ls, none⟩ ∧
      l.stop = (sourceText v parts).utf8ByteSize ∧
      Reads ⟨file, (sourceText v parts).utf8ByteSize⟩ .assignment ⟨⟨.symbol .backtick, 0, 1, false⟩ :: ls, none, 0⟩
        (.template ⟨nodesOf parts, span v parts⟩ (composed v parts)) ⟨[], some l, nodesOf parts + 1⟩ := by
  let input : Input := ⟨file, (sourceText v parts).utf8ByteSize⟩
  let tick : Lexeme := ⟨.symbol .backtick, 0, 1, false⟩
  obtain ⟨ls, l, hread, hstop, hreads⟩ := reads_tail (rfl : input.file = file) 0 v parts 1 0 (some tick)
  rw [Nat.zero_add] at hreads
  have hsize : l.stop = (sourceText v parts).utf8ByteSize := by
    rw [hstop, sourceText, Text.utf8ByteSize_ofList]
    rfl
  have hspan : Cursor.spanFrom input 0 ⟨[], some l, nodesOf parts⟩ = span v parts := by
    rw [span, ← hsize]
    rfl
  have htakes : Cursor.Takes ⟨tick :: ls, none, 0⟩ (.symbol .backtick) ⟨ls, some tick, 0⟩ :=
    ⟨tick, ⟨rfl, rfl, rfl⟩, rfl⟩
  refine ⟨ls, l, ?_, hsize, ?_⟩
  · rw [lex, sourceText, String.toList_ofList, Modes.initial, Lexed.read_backtick, hread]
    rfl
  · rw [composed, ← hspan]
    exact (Reads.template htakes hreads).template_alone rfl

/-- A template of texts and expressions is again an expression, and can stand in a template. -/
def fragment : Fragment file where
  source := sourceText v parts
  expr := .template ⟨nodesOf parts, span v parts⟩ (composed v parts)
  nodes := nodesOf parts + 1
  lexed := by
    obtain ⟨ls, l, hlex, hsize, hreads⟩ := reads_sourceText v parts
    rw [hlex]
  parsed := by
    obtain ⟨ls, l, hlex, hsize, hreads⟩ := reads_sourceText v parts
    obtain ⟨h, hparsed⟩ := Parser.returns hreads
    rw [hlex]
    exact ⟨_, h, hparsed, rfl, rfl⟩

/-- Texts and expressions written as a template are read as just these texts and these expressions, and the script
holds nothing else. -/
theorem parse_sourceText (file : Nat) (v : String) (parts : List (Fragment file × String)) :
    Script.parse file (sourceText v parts) =
      .ok ⟨[.expr ⟨nodesOf parts + 1, span v parts⟩ (.template ⟨nodesOf parts, span v parts⟩
        (.mk (v :: parts.map Prod.snd) (exprsFrom 1 0 v parts) (span v parts)))], span v parts⟩ := by
  obtain ⟨ls, l, hlex, hsize, hreads⟩ := reads_sourceText v parts
  let c : Cursor := ⟨[], some l, nodesOf parts + 1⟩
  have hnode : (c.past .semicolon).node ⟨file, (sourceText v parts).utf8ByteSize⟩ 0 =
      ⟨nodesOf parts + 1, span v parts⟩ := by
    rw [span, ← hsize]
    rfl
  have hbody := Parser.statements_of_last (.exprStatement rfl hreads) rfl
  rw [show Cursor.start _ _ = 0 from rfl, hnode] at hbody
  rw [Script.parse, hlex]
  exact congrArg (· >>= _) hbody

/-- A dollar sign in a template in a template. -/
theorem parse_sourceText_nested :
    Script.parse 0 "\x60a$\x7b\x60\\$\x60\n\x7db\x60" =
      .ok ⟨[.expr ⟨2, some ⟨0, 0, 12⟩⟩ (.template ⟨1, some ⟨0, 0, 12⟩⟩
        (.mk ["a", "b"] [.template ⟨0, some ⟨0, 4, 8⟩⟩ (.mk ["$"] [] (some ⟨0, 4, 8⟩))] (some ⟨0, 0, 12⟩)))],
        some ⟨0, 0, 12⟩⟩ := by
  have hspan : @span 0 "a" [(fragment "$" [], "b")] = some ⟨0, 0, 12⟩ := by decide +kernel
  have hinner : (@span 0 "$" []).map (Span.shift 4) = some ⟨0, 4, 8⟩ := by decide +kernel
  refine (parse_sourceText 0 "a" [(fragment "$" [], "b")]).trans ?_
  rw [hspan, ← hinner]
  rfl

end Template

end ScriptTypes
