import ScriptTypes.Proofs.Script.Nesting
import ScriptTypes.Proofs.Token.LineBreak

/-! A text inside of an interpolation. Its lexemes are those it has alone, further on in the source, as long as its
brackets are nested well: the lexer then has more modes below the ones it uses, and never gets down to them. -/

namespace ScriptTypes

/-- The lexeme in a text that starts further on. -/
def Lexeme.shift (d : Nat) (l : Lexeme) : Lexeme :=
  ⟨l.token, l.start + d, l.stop + d, l.afterBreak⟩

def Mode.shift (d : Nat) : Mode → Mode
  | .plain n => .plain n
  | .template start => .template (start + d)

/-- The modes in a text that starts further on, with other modes below. -/
def Modes.lift (d : Nat) (base : List Mode) (modes : Modes) : Modes :=
  ⟨modes.current.shift d, modes.left.map (Mode.shift d) ++ base⟩

namespace Modes

variable {d s : Nat} {base : List Mode}

/-- Lifted modes change as the modes do, unless a brace closes what was open before them. -/
theorem lift_after {modes : Modes} {start : Nat} {t : Token}
    (h : ¬ (t = .symbol .rBrace ∧ modes = ⟨.plain 0, []⟩)) :
    (modes.lift d (.template s :: base)).after (start + d) t = (modes.after start t).lift d (.template s :: base) := by
  obtain ⟨current, left⟩ := modes
  unfold after
  split
  · cases current <;> rfl
  · cases current <;> rfl
  · rcases current with (_ | n) | start'
    · rcases left with _ | ⟨_ | _, left⟩
      · exact absurd ⟨rfl, rfl⟩ h
      · rfl
      · rfl
    · rfl
    · rfl
  · cases current <;> rfl
  · rcases current with n | start'
    · rfl
    · rcases left with _ | ⟨_ | _, left⟩ <;> rfl
  · rfl

theorem lift_scan (d : Nat) (base : List Mode) (modes : Modes) : (modes.lift d base).scan = modes.scan := by
  obtain ⟨current, left⟩ := modes
  cases current <;> rfl

theorem scan_gap_kept {modes : Modes} {c : Char} {cs after : List Char} {more : Nat}
    (hafter : ∀ c ∈ after.head?, Scan.isBlank c = false) (h : modes.scan c cs = .gap more) :
    modes.inTemplate = false ∧ more ≤ cs.length ∧ (modes.scan c (cs ++ '\n' :: after) = .gap more ∨
      more = cs.length ∧ modes.scan c (cs ++ '\n' :: after) = .gap (more + 1)) := by
  obtain ⟨current, left⟩ := modes
  cases current with
  | plain n =>
      have hkept := Scan.plain_kept cs after hafter c
      rw [show Scan.plain c cs = .gap more from h] at hkept
      exact ⟨rfl, hkept⟩
  | template start =>
      have hfits := Scan.template_fits c cs
      rw [show Scan.template c cs = .gap more from h] at hfits
      cases hfits.1

theorem scan_token_kept {modes : Modes} {c : Char} {cs after : List Char} {t : Token} {more : Nat}
    (hafter : ∀ c ∈ after.head?, Scan.isBlank c = false) (h : modes.scan c cs = .token t more) :
    more ≤ cs.length ∧ (modes.scan c (cs ++ '\n' :: after) = .token t more ∨
      more = cs.length ∧ modes.inTemplate = true ∧ ∃ piece, t = .text piece) := by
  obtain ⟨current, left⟩ := modes
  cases current with
  | plain n =>
      have hkept := Scan.plain_kept cs after hafter c
      rw [show Scan.plain c cs = .token t more from h] at hkept
      exact ⟨hkept.1, .inl hkept.2⟩
  | template start =>
      obtain ⟨hle, hkept⟩ := Scan.template_kept cs ('\n' :: after) h
      exact ⟨hle, hkept.imp id fun h => ⟨h.1, rfl, h.2⟩⟩

end Modes

theorem Nested.shift {n : Bool} {ls : List Lexeme} (h : Nested n ls) (d : Nat) :
    Nested n (ls.map (Lexeme.shift d)) := by
  induction h with
  | nil => exact .nil
  | atom hl _ ih => exact .atom hl ih
  | pair hl _ hl' _ ihi ih =>
      rw [List.map_cons, List.map_append, List.map_cons]
      exact .pair hl ihi hl' ih
  | template hl _ _ ihi ih =>
      rw [List.map_cons, List.map_append]
      exact .template hl ihi ih
  | text hl _ ih => exact .text hl ih
  | interpolation hl _ hl' _ ihi ih =>
      rw [List.map_cons, List.map_append, List.map_cons]
      exact .interpolation hl ihi hl' ih
  | close hl => exact .close hl

namespace Lexed

def prepend (ls : List Lexeme) (x : Lexed) : Lexed :=
  ⟨ls ++ x.lexemes, x.error⟩

theorem read_gap {modes : Modes} {c : Char} {cs : List Char} {more : Nat} (h : modes.scan c cs = .gap more)
    (afterBreak : Bool) (offset : Nat) :
    read modes afterBreak offset (c :: cs) =
      read modes (afterBreak || (c :: cs.take more).contains '\n') (offset + Text.byteLength (c :: cs.take more))
        (cs.drop more) := by
  rw [read, h]

theorem read_token {modes : Modes} {c : Char} {cs : List Char} {t : Token} {more : Nat}
    (h : modes.scan c cs = .token t more) (afterBreak : Bool) (offset : Nat) :
    read modes afterBreak offset (c :: cs) =
      cons ⟨t, offset, offset + Text.byteLength (c :: cs.take more), afterBreak⟩
        (read (modes.after offset t) false (offset + Text.byteLength (c :: cs.take more)) (cs.drop more)) := by
  rw [read, h]

theorem atEnd_plain {modes : Modes} (hmode : modes.inTemplate = false) : atEnd modes = ⟨[], none⟩ := by
  obtain ⟨current, left⟩ := modes
  cases current with
  | plain n => rfl
  | template start => cases hmode

theorem read_break {modes : Modes} (hmode : modes.inTemplate = false) {after : List Char}
    (hafter : ∀ c ∈ after.head?, Scan.isBlank c = false) (afterBreak : Bool) (offset : Nat) :
    read modes afterBreak offset ('\n' :: after) = read modes true (offset + 1) after := by
  have hnone : Scan.runLength Scan.isBlank after = 0 := by
    cases after with
    | nil => rfl
    | cons c cs => simp [Scan.runLength, hafter c rfl]
  have hscan : modes.scan '\n' after = .gap 0 := by
    obtain ⟨current, left⟩ := modes
    cases current with
    | plain n => simp [Modes.scan, Scan.plain, Scan.isBlank, hnone]
    | template start => cases hmode
  rw [read_gap hscan]
  simp [Text.byteLength]
  rfl

theorem byteLength_take_drop (c : Char) (cs : List Char) (more : Nat) :
    Text.byteLength (c :: cs.take more) + Text.byteLength (cs.drop more) = Text.byteLength (c :: cs) := by
  rw [← Text.byteLength_append, List.cons_append, List.take_append_drop]

/-- A text that a line break follows is read inside of other modes as it is read alone. The induction is on the reading
of the text alone. -/
theorem read_lift {modes : Modes} {afterBreak : Bool} {offset : Nat} {cs : List Char} {d s : Nat} {base : List Mode}
    {after : List Char} (hafter : ∀ c ∈ after.head?, Scan.isBlank c = false)
    (herror : (read modes afterBreak offset cs).error = none)
    (hkeeps : (modes.lift d (.template s :: base)).Keeps (base.length + 1)
      ((read modes afterBreak offset cs).lexemes.map (Lexeme.shift d))) :
    read (modes.lift d (.template s :: base)) afterBreak (offset + d) (cs ++ '\n' :: after) =
      prepend ((read modes afterBreak offset cs).lexemes.map (Lexeme.shift d))
        (read ((modes.along (read modes afterBreak offset cs).lexemes).lift d (.template s :: base)) true
          (offset + d + Text.byteLength cs + 1) after) := by
  fun_induction read modes afterBreak offset cs with
  | case1 modes afterBreak offset =>
      obtain ⟨current, left⟩ := modes
      cases current with
      | template start => cases herror
      | plain n => exact read_break rfl hafter afterBreak (offset + d)
  | case2 modes afterBreak offset c cs more hscan gap ih =>
      have hlen : Text.byteLength gap + Text.byteLength (cs.drop more) = Text.byteLength (c :: cs) :=
        byteLength_take_drop c cs more
      obtain ⟨hmode, hle, hscan' | ⟨hall, hscan'⟩⟩ := Modes.scan_gap_kept hafter hscan
      · rw [← Modes.lift_scan d (.template s :: base)] at hscan'
        have hoffset : offset + d + Text.byteLength gap = offset + Text.byteLength gap + d := by omega
        have hend : offset + Text.byteLength gap + d + Text.byteLength (cs.drop more) + 1 =
            offset + d + Text.byteLength (c :: cs) + 1 := by omega
        rw [List.cons_append, read_gap hscan', List.take_append_of_le_length hle, List.drop_append_of_le_length hle,
          hoffset, ih herror hkeeps, hend]
      · -- Blanks up to the end are joined with the line break.
        rw [← Modes.lift_scan d (.template s :: base)] at hscan'
        have hrest (b : Bool) (o : Nat) : read modes b o (cs.drop more) = ⟨[], none⟩ := by
          rw [hall, List.drop_length, read]
          exact atEnd_plain hmode
        have htake : (cs ++ '\n' :: after).take (more + 1) = cs ++ ['\n'] := by
          rw [hall, List.take_length_add_append]
          rfl
        have hdrop : (cs ++ '\n' :: after).drop (more + 1) = after := by
          rw [hall, List.drop_length_add_append]
          rfl
        have hbreak : (afterBreak || (c :: (cs ++ ['\n'])).contains '\n') = true := by simp
        have hbytes : Text.byteLength (c :: (cs ++ ['\n'])) = Text.byteLength (c :: cs) + 1 := by
          rw [← List.cons_append, Text.byteLength_append]
          rfl
        rw [List.cons_append, read_gap hscan', htake, hdrop, hrest, hbreak, hbytes, ← Nat.add_assoc]
        rfl
  | case3 modes afterBreak offset c cs t more hscan stop ih =>
      have hlen := byteLength_take_drop c cs more
      obtain ⟨hle, hscan' | ⟨hall, hmode, piece, rfl⟩⟩ := Modes.scan_token_kept hafter hscan
      · rw [← Modes.lift_scan d (.template s :: base)] at hscan'
        have hnext : (modes.lift d (.template s :: base)).after (offset + d) t =
            (modes.after offset t).lift d (.template s :: base) := by
          refine Modes.lift_after ?_
          rintro ⟨rfl, rfl⟩
          exact absurd (hkeeps [_] (List.prefix_cons_iff.mpr (.inr ⟨[], rfl, List.nil_prefix⟩)))
            (Nat.not_succ_le_self _)
        have hstop : offset + d + Text.byteLength (c :: cs.take more) = stop + d := by omega
        have hend : stop + d + Text.byteLength (cs.drop more) + 1 = offset + d + Text.byteLength (c :: cs) + 1 := by
          omega
        have hkeeps' : ((modes.after offset t).lift d (.template s :: base)).Keeps (base.length + 1) _ :=
          hnext ▸ hkeeps.tail
        rw [List.cons_append, read_token hscan', List.take_append_of_le_length hle, List.drop_append_of_le_length hle,
          hstop, hnext, ih herror hkeeps', hend]
        rfl
      · -- Text up to the end means that the template is not closed.
        have hrest : read (modes.after offset (.text piece)) false stop (cs.drop more) = atEnd modes := by
          rw [hall, List.drop_length, read]
          rfl
        obtain ⟨current, left⟩ := modes
        cases current with
        | plain n => cases hmode
        | template start =>
            have hnone : (atEnd ⟨.template start, left⟩).error = none := (congrArg Lexed.error hrest).symm.trans herror
            cases hnone
  | case4 modes afterBreak offset c cs fault more hscan => cases herror

/-- A nested text is read in an interpolation as it is read alone. -/
theorem read_interpolated {source : String} (herror : (lex source).error = none)
    (hnested : Nested false (lex source).lexemes)
    {after : List Char} (hafter : ∀ c ∈ after.head?, Scan.isBlank c = false) (d s : Nat) (base : List Mode) :
    read ⟨.plain 0, .template s :: base⟩ false d (source.toList ++ '\n' :: after) =
      prepend ((lex source).lexemes.map (Lexeme.shift d))
        (read ⟨.plain 0, .template s :: base⟩ true (d + Text.byteLength source.toList + 1) after) := by
  have hkeeps := (hnested.shift d).keeps 0 0 (.template s :: base)
  have hlift := read_lift hafter herror hkeeps
  rw [Nat.zero_add] at hlift
  refine hlift.trans ?_
  rw [show read .initial false 0 source.toList = lex source from rfl,
    show Modes.initial.along (lex source).lexemes = .initial from hnested.along 0 0 []]
  rfl

end Lexed

end ScriptTypes
