import Mathlib.Data.List.Induction
import ScriptTypes.Proofs.Token.Lossless

/-! The modes that the lexer has left. Script text and templates take turns on the stack, and the number of open braces
that is kept with script text is that of the braces opened since it was entered less those closed again. What has been
read so far accounts for all of this: each mode of the stack has its own lexemes, among which the lexemes of other modes
stand as whole templates and whole interpolations. -/

namespace ScriptTypes

def Mode.inTemplate : Mode → Bool
  | .plain _ => false
  | .template _ => true

/-- Whether a token changes the modes: a backtick, a brace, or the start or end of a part of a template. -/
def Token.switches : Token → Bool
  | .symbol .backtick | .symbol .lBrace | .symbol .rBrace | .interpolation | .templateEnd => true
  | _ => false

/-- The tokens that change the modes in a template, and those that do in script text. -/
theorem Token.eq_of_switches {t : Token} (h : t.switches = true) :
    if t.inTemplate then t = .interpolation ∨ t = .templateEnd
    else t = .symbol .backtick ∨ t = .symbol .lBrace ∨ t = .symbol .rBrace := by
  cases t with
  | symbol s => cases s <;> first | exact .inl rfl | exact .inr (.inl rfl) | exact .inr (.inr rfl) | cases h
  | interpolation => exact .inl rfl
  | templateEnd => exact .inr rfl
  | _ => cases h

namespace Modes

theorem inTemplate_eq (modes : Modes) : modes.inTemplate = modes.current.inTemplate := by
  unfold inTemplate Mode.inTemplate
  cases modes.current <;> rfl

theorem after_of_not_switches {t : Token} (h : t.switches = false) (modes : Modes) (start : Nat) :
    modes.after start t = modes := by
  unfold after
  split <;> first | rfl | cases h

end Modes

/-- A mode with what has been read in it: in script text, the number of braces that were opened and of those that were
closed again. The flag says that the script text stands in a template. -/
inductive Stretch where
  | script (nested : Bool) (opened closed : Nat)
  | template

/-- Lexemes from where a mode was entered. What other modes have read in between is whole. A closing brace that matches
none is passed over, but in a template it ends the script text. -/
inductive Seen : Stretch → List Lexeme → Prop
  | script {nested : Bool} : Seen (.script nested 0 0) []
  | other {nested : Bool} {opened closed : Nat} {ls : List Lexeme} {l : Lexeme}
      (h : Seen (.script nested opened closed) ls) (hl : l.token.switches = false)
      (hmode : l.token.inTemplate = false) : Seen (.script nested opened closed) (ls ++ [l])
  | opening {nested : Bool} {opened closed : Nat} {ls : List Lexeme} {l : Lexeme}
      (h : Seen (.script nested opened closed) ls) (hl : l.token = .symbol .lBrace) :
      Seen (.script nested (opened + 1) closed) (ls ++ [l])
  | matched {nested : Bool} {opened closed : Nat} {ls : List Lexeme} {l : Lexeme}
      (h : Seen (.script nested opened closed) ls) (hopen : closed < opened) (hl : l.token = .symbol .rBrace) :
      Seen (.script nested opened (closed + 1)) (ls ++ [l])
  | unmatched {opened : Nat} {ls : List Lexeme} {l : Lexeme} (h : Seen (.script false opened opened) ls)
      (hl : l.token = .symbol .rBrace) : Seen (.script false opened opened) (ls ++ [l])
  | wholeTemplate {nested : Bool} {opened closed : Nat} {ls inner : List Lexeme} {b e : Lexeme}
      (h : Seen (.script nested opened closed) ls) (hb : b.token = .symbol .backtick) (hi : Seen .template inner)
      (he : e.token = .templateEnd) : Seen (.script nested opened closed) (ls ++ b :: (inner ++ [e]))
  | template : Seen .template []
  | piece {ls : List Lexeme} {l : Lexeme} (h : Seen .template ls) (hl : l.token.switches = false)
      (hmode : l.token.inTemplate = true) : Seen .template (ls ++ [l])
  | wholeInterpolation {opened : Nat} {ls inner : List Lexeme} {b e : Lexeme} (h : Seen .template ls)
      (hb : b.token = .interpolation) (hi : Seen (.script true opened opened) inner)
      (he : e.token = .symbol .rBrace) : Seen .template (ls ++ b :: (inner ++ [e]))

/-- Script text stands at the bottom of the stack or on a template. -/
def Mode.Under (nested : Bool) (left : List Mode) : Prop :=
  match nested with
  | false => left = []
  | true => ∃ start rest, left = .template start :: rest

/-- What a stretch of lexemes does to the modes: script text counts its open braces, and all else stays. -/
def Stretch.Leads (ls : List Lexeme) : Stretch → Prop
  | .script nested opened closed => ∃ n, n + closed = opened ∧
      ∀ left, Mode.Under nested left → (Modes.mk (.plain 0) left).along ls = ⟨.plain n, left⟩
  | .template => ∀ start n left,
      (Modes.mk (.template start) (.plain n :: left)).along ls = ⟨.template start, .plain n :: left⟩

/-- By induction on the stretch, for the lexemes of its own mode and for what it holds of others. -/
theorem Seen.leads {x : Stretch} {ls : List Lexeme} (h : Seen x ls) : x.Leads ls := by
  induction h with
  | script => exact ⟨0, rfl, fun _ _ => rfl⟩
  | other _ hl _ ih =>
      obtain ⟨n, hn, halong⟩ := ih
      refine ⟨n, hn, fun left hleft => ?_⟩
      rw [Modes.along_append, halong left hleft, Modes.along_cons, Modes.after_of_not_switches hl, Modes.along_nil]
  | opening _ hl ih =>
      obtain ⟨n, hn, halong⟩ := ih
      refine ⟨n + 1, by omega, fun left hleft => ?_⟩
      rw [Modes.along_append, halong left hleft, Modes.along_cons, hl]
      rfl
  | matched _ hopen hl ih =>
      obtain ⟨n, hn, halong⟩ := ih
      obtain ⟨n, rfl⟩ : ∃ m, n = m + 1 := ⟨n - 1, by omega⟩
      refine ⟨n, by omega, fun left hleft => ?_⟩
      rw [Modes.along_append, halong left hleft, Modes.along_cons, hl]
      rfl
  | unmatched _ hl ih =>
      obtain ⟨n, hn, halong⟩ := ih
      obtain rfl : n = 0 := by omega
      refine ⟨0, by omega, fun left hleft => ?_⟩
      rw [Modes.along_append, halong left hleft, Modes.along_cons, hl, show left = [] from hleft]
      rfl
  | wholeTemplate _ hb _ he ih ihi =>
      obtain ⟨n, hn, halong⟩ := ih
      refine ⟨n, hn, fun left hleft => ?_⟩
      rw [Modes.along_append, halong left hleft, Modes.along_cons, Modes.along_append, hb]
      refine (congrArg (Modes.along · _) (ihi _ n left)).trans ?_
      rw [Modes.along_cons, he]
      rfl
  | template => exact fun _ _ _ => rfl
  | piece _ hl _ ih =>
      intro start n left
      rw [Modes.along_append, ih, Modes.along_cons, Modes.after_of_not_switches hl, Modes.along_nil]
  | wholeInterpolation _ hb _ he ih ihi =>
      intro start n left
      obtain ⟨m, hm, halong⟩ := ihi
      obtain rfl : m = 0 := by omega
      rw [Modes.along_append, ih, Modes.along_cons, Modes.along_append, hb]
      refine (congrArg (Modes.along · _) (halong (.template start :: .plain n :: left) ⟨_, _, rfl⟩)).trans ?_
      rw [Modes.along_cons, he]
      rfl

namespace Modes

/-- The lexemes that have been read account for the modes: for script text at the bottom of the stack, for a template
from its backtick on, and for an interpolation from its start on. -/
inductive Since : Modes → List Lexeme → Prop
  | script {n opened closed ls} (h : Seen (.script false opened closed) ls) (hn : n + closed = opened) :
      Since ⟨.plain n, []⟩ ls
  | template {n left outer b inner} (h : Since ⟨.plain n, left⟩ outer) (hb : b.token = .symbol .backtick)
      (hi : Seen .template inner) : Since ⟨.template b.start, .plain n :: left⟩ (outer ++ b :: inner)
  | interpolation {start left outer b n opened closed inner} (h : Since ⟨.template start, left⟩ outer)
      (hb : b.token = .interpolation) (hi : Seen (.script true opened closed) inner) (hn : n + closed = opened) :
      Since ⟨.plain n, .template start :: left⟩ (outer ++ b :: inner)

/-- The lexemes of script text, with those before it was entered. -/
structure Entered (left : List Mode) (outer : List Lexeme) : Prop where
  modes : initial.along outer = ⟨.plain 0, left⟩
  bottom : left = [] → outer = []
  interpolation : left ≠ [] → ∃ b, outer.getLast? = some b ∧ b.token = .interpolation

theorem Since.along {modes : Modes} {ls : List Lexeme} (h : Since modes ls) : initial.along ls = modes := by
  induction h with
  | script h hn =>
      obtain ⟨n, hn', halong⟩ := h.leads
      rw [initial, halong [] rfl]
      congr 2
      omega
  | template _ hb hi ih =>
      rw [along_append, ih, along_cons, hb]
      exact hi.leads _ _ _
  | @interpolation start left outer b n opened closed inner h hb hi hn ih =>
      obtain ⟨n', hn', halong⟩ := hi.leads
      rw [along_append, ih, along_cons, hb]
      refine (halong (.template start :: left) ⟨_, _, rfl⟩).trans ?_
      congr 2
      omega

variable {n : Nat} {left : List Mode} {ls : List Lexeme} {l : Lexeme}

/-- In script text, the lexemes since it was entered account for its open braces, and others may stand in their place. -/
theorem Since.stretch (h : Since ⟨.plain n, left⟩ ls) : ∃ outer inner opened closed, ls = outer ++ inner ∧
    Entered left outer ∧ Seen (.script (!left.isEmpty) opened closed) inner ∧ n + closed = opened ∧
      ∀ m opened' closed' inner', Seen (.script (!left.isEmpty) opened' closed') inner' → m + closed' = opened' →
        Since ⟨.plain m, left⟩ (outer ++ inner') := by
  cases h with
  | @script n opened closed _ h hn =>
      exact ⟨[], ls, opened, closed, rfl, ⟨rfl, fun _ => rfl, fun h => absurd rfl h⟩, h, hn,
        fun m opened' closed' inner' h' hm => .script h' hm⟩
  | @interpolation start left outer b n opened closed inner h hb hi hn =>
      have hentered : Entered (.template start :: left) (outer ++ [b]) := by
        refine ⟨?_, fun h => absurd h (List.cons_ne_nil _ _), fun _ => ⟨b, List.getLast?_concat, hb⟩⟩
        rw [along_append, h.along, along_cons, hb]
        rfl
      refine ⟨outer ++ [b], inner, opened, closed, List.append_cons .., hentered, hi, hn, ?_⟩
      intro m opened' closed' inner' h' hm
      rw [List.append_assoc]
      exact .interpolation h hb h' hm

theorem Since.after_script (h : Since ⟨.plain n, left⟩ ls) (hmode : l.token.inTemplate = false) :
    Since ((Modes.mk (.plain n) left).after l.start l.token) (ls ++ [l]) := by
  cases hs : l.token.switches with
  | false =>
      obtain ⟨outer, inner, opened, closed, rfl, -, hi, hn, hback⟩ := h.stretch
      rw [after_of_not_switches hs, List.append_assoc]
      exact hback _ _ _ _ (.other hi hs hmode) hn
  | true =>
      have ht := Token.eq_of_switches hs
      rw [hmode] at ht
      rcases ht with ht | ht | ht
      · rw [ht]
        exact .template h ht .template
      · obtain ⟨outer, inner, opened, closed, rfl, -, hi, hn, hback⟩ := h.stretch
        rw [ht, List.append_assoc]
        exact hback _ _ _ _ (.opening hi ht) (by omega)
      · rw [ht]
        cases n with
        | succ n =>
            obtain ⟨outer, inner, opened, closed, rfl, -, hi, hn, hback⟩ := h.stretch
            rw [List.append_assoc]
            exact hback n _ _ _ (.matched hi (by omega) ht) (by omega)
        | zero =>
            cases h with
            | script h hn =>
                obtain rfl : _ = _ := (Nat.zero_add _).symm.trans hn
                exact .script (.unmatched h ht) (Nat.zero_add _)
            | interpolation h hb hi hn =>
                -- The brace ends the interpolation, which becomes a part of its template.
                obtain rfl : _ = _ := (Nat.zero_add _).symm.trans hn
                cases h with
                | template h hb' hi' =>
                    rw [List.append_assoc, List.append_assoc]
                    exact .template h hb' (.wholeInterpolation hi' hb hi ht)

theorem Since.after_template {start : Nat} (h : Since ⟨.template start, left⟩ ls) (hmode : l.token.inTemplate = true) :
    Since ((Modes.mk (.template start) left).after l.start l.token) (ls ++ [l]) := by
  cases h with
  | @template n left outer b inner h hb hi =>
      cases hs : l.token.switches with
      | false =>
          rw [after_of_not_switches hs, List.append_assoc]
          exact .template h hb (.piece hi hs hmode)
      | true =>
          have ht := Token.eq_of_switches hs
          rw [hmode] at ht
          rcases ht with ht | ht
          · rw [ht]
            exact .interpolation (.template h hb hi) ht .script rfl
          · -- The template ends and becomes a part of the script text it stands in.
            obtain ⟨outer, inner', opened, closed, rfl, -, hi', hn, hback⟩ := h.stretch
            rw [ht, List.append_assoc, List.append_assoc]
            exact hback _ _ _ _ (.wholeTemplate hi' hb hi ht) hn

theorem Since.after {modes : Modes} (h : Since modes ls) (hmode : l.token.inTemplate = modes.inTemplate) :
    Since (modes.after l.start l.token) (ls ++ [l]) := by
  obtain ⟨current, left⟩ := modes
  cases current with
  | plain n => exact h.after_script hmode
  | template start => exact h.after_template hmode

/-- The modes of the lexer are accounted for after each lexeme of a text. -/
theorem since_along {source : String} {before rest : List Lexeme} (h : (lex source).lexemes = before ++ rest) :
    Since (initial.along before) before := by
  induction before using List.reverseRecOn generalizing rest with
  | nil => exact .script .script rfl
  | append_singleton before l ih =>
      rw [List.append_assoc] at h
      have hmode := (lex_stands h).mode
      rw [along_append]
      exact (ih h).after hmode

/-! What follows for the modes alone. -/

/-- The depth says the mode, for the current one as for those that were left. -/
theorem Since.takesTurns {modes : Modes} (h : Since modes ls) :
    (modes.inTemplate = true ↔ modes.left.length % 2 = 1) ∧
      ∀ (i : Nat) mode, modes.left.reverse[i]? = some mode → (mode.inTemplate = true ↔ i % 2 = 1) := by
  have push {mode : Mode} {left : List Mode} (hmode : mode.inTemplate = true ↔ left.length % 2 = 1)
      (hleft : ∀ (i : Nat) mode, left.reverse[i]? = some mode → (mode.inTemplate = true ↔ i % 2 = 1)) (i : Nat)
      (mode' : Mode) (hi : (mode :: left).reverse[i]? = some mode') : mode'.inTemplate = true ↔ i % 2 = 1 := by
    rw [List.reverse_cons] at hi
    by_cases hlt : i < left.length
    · rw [List.getElem?_append_left (by simpa using hlt)] at hi
      exact hleft i mode' hi
    · have heq : i = left.length := by
        have := (List.getElem?_eq_some_iff.mp hi).1
        simp at this
        omega
      subst heq
      rw [List.getElem?_append_right (by simp)] at hi
      simp only [List.length_reverse, Nat.sub_self, List.getElem?_cons_zero, Option.some.injEq] at hi
      exact hi ▸ hmode
  induction h with
  | script => exact ⟨by simp [inTemplate], by simp⟩
  | template _ _ _ ih =>
      rw [inTemplate_eq] at ih
      refine ⟨?_, push ih.1 ih.2⟩
      simp only [inTemplate, Mode.inTemplate, Bool.false_eq_true, false_iff, List.length_cons, true_iff] at ih ⊢
      omega
  | interpolation _ _ _ _ ih =>
      rw [inTemplate_eq] at ih
      refine ⟨?_, push ih.1 ih.2⟩
      simp only [inTemplate, Mode.inTemplate, Bool.false_eq_true, false_iff, List.length_cons, true_iff] at ih ⊢
      omega

/-- What a lexeme does that goes from one mode to another. The mode that it leaves is put on the stack, or the one on
top of the stack is taken from there. -/
structure Switches (modes : Modes) (l : Lexeme) : Prop where
  enterTemplate : l.token = .symbol .backtick →
    modes.enterTemplate l.start = ⟨.template l.start, modes.current :: modes.left⟩
  leaveTemplate : l.token = .templateEnd → modes.left = modes.leaveTemplate.current :: modes.leaveTemplate.left
  enterInterpolation : l.token = .interpolation → modes.enterInterpolation = ⟨.plain 0, modes.current :: modes.left⟩
  leaveInterpolation : l.token = .symbol .rBrace → modes.current = .plain 0 → modes.left ≠ [] →
    modes.closeBrace = modes.leaveInterpolation ∧
      modes.left = modes.leaveInterpolation.current :: modes.leaveInterpolation.left

theorem Since.switches {modes : Modes} (h : Since modes ls) (hmode : l.token.inTemplate = modes.inTemplate) :
    modes.Switches l := by
  cases h with
  | script =>
      refine ⟨fun _ => rfl, fun ht => ?_, fun ht => ?_, fun _ _ hleft => absurd rfl hleft⟩
      · rw [ht] at hmode
        cases hmode
      · rw [ht] at hmode
        cases hmode
  | template =>
      refine ⟨fun ht => ?_, fun _ => rfl, fun _ => rfl, fun ht => ?_⟩
      · rw [ht] at hmode
        cases hmode
      · rw [ht] at hmode
        cases hmode
  | interpolation =>
      refine ⟨fun _ => rfl, fun ht => ?_, fun ht => ?_, fun _ hcurrent _ => ?_⟩
      · rw [ht] at hmode
        cases hmode
      · rw [ht] at hmode
        cases hmode
      · cases hcurrent
        exact ⟨rfl, rfl⟩

/-- The modes of the lexer between the lexemes that have been read and those to come. -/
structure Orderly (modes : Modes) (before rest : List Lexeme) : Prop where
  /-- From the bottom of the stack on, script text and templates take turns. -/
  alternates : ∀ (i : Nat) mode, modes.left.reverse[i]? = some mode → (mode.inTemplate = true ↔ i % 2 = 1)
  /-- On top of the stack is script text exactly when the lexer is in a template. -/
  top : modes.inTemplate = true ↔ ∃ n, modes.left.head? = some (.plain n)
  /-- Else the stack is empty or a template is on top of it. -/
  top_of_script : modes.inTemplate = false → modes.left = [] ∨ ∃ start, modes.left.head? = some (.template start)
  /-- The braces that are open in script text are those opened since it was entered less those closed again. -/
  counter : ∀ n, modes.current = .plain n → ∃ outer inner opened closed, before = outer ++ inner ∧
    Entered modes.left outer ∧ Seen (.script (!modes.left.isEmpty) opened closed) inner ∧ n + closed = opened
  /-- At the end of a template the modes are again what they were at its backtick. -/
  restored : ∀ e after, rest = e :: after → e.token = .templateEnd → ∃ outer b inner, before = outer ++ b :: inner ∧
    b.token = .symbol .backtick ∧ Seen .template inner ∧ modes.current = .template b.start ∧
      modes.after e.start e.token = initial.along outer
  switches : ∀ l after, rest = l :: after → modes.Switches l

theorem Since.restored {modes : Modes} {e : Lexeme} (h : Since modes ls) (he : e.token = .templateEnd)
    (hmode : e.token.inTemplate = modes.inTemplate) : ∃ outer b inner, ls = outer ++ b :: inner ∧
      b.token = .symbol .backtick ∧ Seen .template inner ∧ modes.current = .template b.start ∧
        modes.after e.start e.token = initial.along outer := by
  rw [he] at hmode
  cases h with
  | script => cases hmode
  | interpolation => cases hmode
  | @template n left outer b inner h hb hi =>
      refine ⟨outer, b, inner, rfl, hb, hi, rfl, ?_⟩
      rw [h.along, he]
      rfl

theorem Since.orderly {modes : Modes} {rest : List Lexeme} (h : Since modes ls)
    (hnext : ∀ l after, rest = l :: after → l.token.inTemplate = modes.inTemplate) : modes.Orderly ls rest where
  alternates := h.takesTurns.2
  top := by
    cases h <;> simp [inTemplate]
  top_of_script := by
    cases h <;> simp [inTemplate]
  counter := by
    intro n hcurrent
    obtain ⟨current, left⟩ := modes
    cases hcurrent
    obtain ⟨outer, inner, opened, closed, hls, hentered, hinner, hn, -⟩ := h.stretch
    exact ⟨outer, inner, opened, closed, hls, hentered, hinner, hn⟩
  restored := fun e after hrest he => h.restored he (hnext e after hrest)
  switches := fun l after hrest => h.switches (hnext l after hrest)

end Modes

namespace Lexed

/-- After some lexemes the lexer reads on with the modes that they lead to. -/
theorem read_along {modes : Modes} {afterBreak : Bool} {offset : Nat} {text : List Char} {before rest : List Lexeme}
    (h : (read modes afterBreak offset text).lexemes = before ++ rest) : ∃ afterBreak' offset' text',
      read (modes.along before) afterBreak' offset' text' = ⟨rest, (read modes afterBreak offset text).error⟩ := by
  cases before with
  | nil => exact ⟨afterBreak, offset, text, by rw [Modes.along_nil, ← show _ = rest from h]⟩
  | cons l before =>
      fun_induction read modes afterBreak offset text with
      | case1 modes afterBreak offset =>
          unfold atEnd at h
          split at h <;> cases h
      | case2 modes afterBreak offset c cs more hscan gap ih => exact ih h
      | case3 modes afterBreak offset c cs token more hscan stop ih =>
          obtain ⟨rfl, htail⟩ := List.cons.inj h
          exact read_along htail
      | case4 => cases h

end Lexed

/-- The stack of modes is well formed. After each number of lexemes of any text, up to an error, the lexer goes on with
modes that are in order: script text and templates take turns on the stack, braces are counted from where script text
was entered and as they were when a template has ended, and each switch of modes finds what it needs. -/
theorem lex_orderly (source : String) (n : Nat) :
    (Modes.initial.along ((lex source).lexemes.take n)).Orderly ((lex source).lexemes.take n)
        ((lex source).lexemes.drop n) ∧
      ∃ afterBreak offset text, Lexed.read (Modes.initial.along ((lex source).lexemes.take n)) afterBreak offset text =
        ⟨(lex source).lexemes.drop n, (lex source).error⟩ := by
  have hsplit := (List.take_append_drop n (lex source).lexemes).symm
  refine ⟨?_, Lexed.read_along hsplit⟩
  refine (Modes.since_along hsplit).orderly fun l after hrest => ?_
  rw [hrest] at hsplit
  exact (lex_stands hsplit).mode

end ScriptTypes
