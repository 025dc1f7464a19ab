import Mathlib.Data.List.TakeWhile
import ScriptTypes.Token.Scan

/-! Tokens and the text that they are written with. A scan says how long a token is; what the token is can be read off
that text alone, without what follows it. What a scan passes over is blanks and comments. -/

namespace ScriptTypes

namespace Symbol

def all : List Symbol :=
  [.lBrace, .rBrace, .lBracket, .rBracket, .lParen, .rParen, .comma, .semicolon, .colon, .dot, .ellipsis, .question,
    .fatArrow, .equals, .doubleEq, .tripleEq, .notEq, .notDoubleEq, .lt, .le, .gt, .ge, .plus, .minus, .star,
    .doubleStar, .slash, .percent, .doubleAnd, .doublePipe, .bang, .backtick]

def ofText? (word : String) : Option Symbol :=
  all.find? fun s => s.text == word

theorem ofText?_text (s : Symbol) : ofText? s.text = some s := by
  cases s <;> decide +kernel

theorem text_of_ofText? {word : String} {s : Symbol} (h : ofText? word = some s) : s.text = word := by
  simpa using List.find?_some h

end Symbol

/-- Blanks and comments up to the given rest of the text. A line comment goes on to a line feed or to the end, and a
block comment to the first mark that closes it. -/
inductive Separators (rest : List Char) : List Char → Prop
  | nil : Separators rest []
  | blank {c gap} (hc : Scan.isBlank c = true) (h : Separators rest gap) : Separators rest (c :: gap)
  | lineComment {body gap} (hbody : '\n' ∉ body) (hend : ∀ c ∈ (gap ++ rest).head?, c = '\n')
      (h : Separators rest gap) : Separators rest ('/' :: '/' :: (body ++ gap))
  | blockComment {body gap} (hbody : ¬ ['*', '/'] <:+: body) (h : Separators rest gap) :
      Separators rest ('/' :: '*' :: (body ++ '*' :: '/' :: gap))

/-- The word that a name is: a keyword or an identifier. -/
def Token.ofWord (name : String) : Token :=
  match Keyword.ofText? name with
  | some k => .keyword k
  | none => .ident name

namespace Scan

/-- The value of a decimal number from its whole text. -/
def decimalOf (slice : List Char) : Magnitude :=
  match slice.dropWhile Char.isDigit with
  | '.' :: rest =>
      decimalValue (slice.takeWhile Char.isDigit) (rest.takeWhile Char.isDigit) (rest.dropWhile Char.isDigit)
  | rest => decimalValue (slice.takeWhile Char.isDigit) [] rest

/-- The value of a number from its whole text. -/
def numberOf (slice : List Char) : Magnitude :=
  match slice with
  | '0' :: x :: digits => if x == 'x' || x == 'X' then .ofNat (ofDigits 16 digits) else decimalOf slice
  | _ => decimalOf slice

end Scan

namespace Token

/-- The token outside of templates that is written with the given text. -/
def ofPlainSlice : List Char → Token
  | [] => .string ""
  | c :: cs =>
      if Text.isNameStart c then ofWord (String.ofList (c :: cs))
      else if c = '\x22' || c = '\x27' then .string (String.ofList (Text.unescapeChars cs.dropLast))
      else match Symbol.ofText? (String.ofList (c :: cs)) with
        | some s => .symbol s
        | none => .number (Scan.numberOf (c :: cs))

/-- The token inside a template that is written with the given text. -/
def ofTemplateSlice : List Char → Token
  | ['\x60'] => .templateEnd
  | ['$', '\x7b'] => .interpolation
  | ['\x5c', d] => .escaped (Text.escapedChar d)
  | slice => .text (String.ofList slice)

/-- The token that is written with the given text, inside or outside of a template. -/
def ofSlice (inTemplate : Bool) (slice : List Char) : Token :=
  if inTemplate then ofTemplateSlice slice else ofPlainSlice slice

end Token

namespace Scan

theorem take_runLength (p : Char → Bool) (cs : List Char) : cs.take (runLength p cs) = cs.takeWhile p :=
  (List.prefix_iff_eq_take.mp (List.takeWhile_prefix p)).symm

theorem drop_length_takeWhile (p : Char → Bool) (cs : List Char) :
    cs.drop (cs.takeWhile p).length = cs.dropWhile p := by
  calc cs.drop (cs.takeWhile p).length
      = (cs.takeWhile p ++ cs.dropWhile p).drop (cs.takeWhile p).length := by
        rw [List.takeWhile_append_dropWhile]
    _ = cs.dropWhile p := List.drop_left

section Exponent

/-- An exponent starts with its letter. -/
theorem head_exponent {cs : List Char} {c : Char} {ds : List Char} (h : cs.take (exponentLength cs) = c :: ds) :
    c = 'e' ∨ c = 'E' := by
  cases cs with
  | nil => cases h
  | cons e cs =>
      by_cases he : e = 'e' ∨ e = 'E'
      · have : c = e := by
          cases hn : exponentLength (e :: cs) with
          | zero => simp [hn] at h
          | succ n => simpa [hn] using (List.cons.inj (by simpa [hn] using h)).1.symm
        exact this ▸ he
      · simp [exponentLength, he] at h

theorem takeWhile_exponent (cs : List Char) : (cs.take (exponentLength cs)).takeWhile Char.isDigit = [] := by
  cases h : cs.take (exponentLength cs) with
  | nil => rfl
  | cons c ds => rcases head_exponent h with rfl | rfl <;> rfl

theorem dropWhile_exponent (cs : List Char) :
    (cs.take (exponentLength cs)).dropWhile Char.isDigit = cs.take (exponentLength cs) := by
  cases h : cs.take (exponentLength cs) with
  | nil => rfl
  | cons c ds => rcases head_exponent h with rfl | rfl <;> rfl

end Exponent

/-- What the digits before a point or an exponent are read from. -/
theorem takeWhile_digits {whole rest : List Char} (hw : ∀ c ∈ whole, c.isDigit = true)
    (hr : rest.takeWhile Char.isDigit = []) : (whole ++ rest).takeWhile Char.isDigit = whole := by
  rw [List.takeWhile_append_of_pos hw, hr, List.append_nil]

theorem dropWhile_digits {whole rest : List Char} (hw : ∀ c ∈ whole, c.isDigit = true) :
    (whole ++ rest).dropWhile Char.isDigit = rest.dropWhile Char.isDigit := by
  rw [List.dropWhile_append_of_pos hw]

theorem numberOf_eq_decimalOf {c : Char} {cs : List Char} (h : ∀ x ∈ cs.head?, x ≠ 'x' ∧ x ≠ 'X') :
    numberOf (c :: cs) = decimalOf (c :: cs) := by
  unfold numberOf
  split
  · rename_i x digits heq
    obtain ⟨rfl, rfl⟩ := List.cons.inj heq
    have := h x rfl
    simp [this.1, this.2]
  · rfl

theorem decimalOf_point {whole fraction tail : List Char} (hw : ∀ c ∈ whole, c.isDigit = true)
    (hf : ∀ c ∈ fraction, c.isDigit = true) :
    decimalOf (whole ++ '.' :: (fraction ++ tail.take (exponentLength tail))) =
      decimalValue whole fraction (tail.take (exponentLength tail)) := by
  have hdrop : (whole ++ '.' :: (fraction ++ tail.take (exponentLength tail))).dropWhile Char.isDigit =
      '.' :: (fraction ++ tail.take (exponentLength tail)) := by
    rw [dropWhile_digits hw]
    rfl
  unfold decimalOf
  rw [hdrop]
  simp only
  rw [takeWhile_digits hw rfl, takeWhile_digits hf (takeWhile_exponent tail), dropWhile_digits hf, dropWhile_exponent]

theorem decimalOf_whole {whole tail : List Char} (hw : ∀ c ∈ whole, c.isDigit = true) :
    decimalOf (whole ++ tail.take (exponentLength tail)) = decimalValue whole [] (tail.take (exponentLength tail)) := by
  have hdrop : (whole ++ tail.take (exponentLength tail)).dropWhile Char.isDigit = tail.take (exponentLength tail) := by
    rw [dropWhile_digits hw, dropWhile_exponent]
  unfold decimalOf
  rw [hdrop, takeWhile_digits hw (takeWhile_exponent tail)]
  split
  · rename_i rest heq
    rcases head_exponent heq with h | h <;> cases h
  · rfl

theorem separators_blanks {rest blanks gap : List Char} (hb : ∀ c ∈ blanks, isBlank c = true)
    (h : Separators rest gap) : Separators rest (blanks ++ gap) := by
  induction blanks with
  | nil => exact h
  | cons c cs ih =>
      rw [List.forall_mem_cons] at hb
      exact .blank hb.1 (ih hb.2)

/-- A block comment ends at the first closing mark. -/
theorem commentLength_eq_some {cs : List Char} {n : Nat} (h : commentLength cs = some n) :
    ∃ body, cs.take n = body ++ ['*', '/'] ∧ ¬ ['*', '/'] <:+: body := by
  fun_induction commentLength cs generalizing n with
  | case1 => cases h
  | case2 => cases h
  | case3 c d cs hclose =>
      cases h
      simp only [Bool.and_eq_true, decide_eq_true_eq] at hclose
      exact ⟨[], by simp [hclose], by simp⟩
  | case4 c d cs hopen ih =>
      obtain ⟨m, hm, rfl⟩ := Option.map_eq_some_iff.mp h
      obtain ⟨body, htake, hbody⟩ := ih hm
      refine ⟨c :: body, by rw [List.take_succ_cons, htake]; rfl, ?_⟩
      rw [List.infix_cons_iff]
      rintro (hp | hi)
      · -- A mark at the head would have ended the comment before.
        obtain ⟨rfl, hd⟩ := List.cons_prefix_cons.mp hp
        have hhead : (d :: cs).take m = '/' :: (body.tail ++ ['*', '/']) := by
          obtain ⟨_, rfl⟩ := hd
          exact htake
        cases m with
        | zero => cases hhead
        | succ m =>
            have hd : d = '/' := (List.cons.inj hhead).1
            simp [hd] at hopen
      · exact hbody hi

/-- A token is the one that its text stands for, in the mode it was found in. What is passed over is a run of blanks or
a comment, outside of templates. That a template is not closed is found at the end of the text only. -/
def Fits (inTemplate : Bool) (c : Char) (cs : List Char) : Scan → Prop
  | .token t more => t = Token.ofSlice inTemplate (c :: cs.take more) ∧ t.inTemplate = inTemplate
  | .gap more => inTemplate = false ∧ ∀ gap rest, cs.drop more = gap ++ rest → Separators rest gap →
      Separators rest (c :: cs.take more ++ gap)
  | .fault f _ => f ≠ .openTemplate

theorem inTemplate_ofWord (name : String) : (Token.ofWord name).inTemplate = false := by
  unfold Token.ofWord
  split <;> rfl

theorem word_eq (c : Char) (cs : List Char) :
    word c cs =
      .token (Token.ofWord (String.ofList (c :: cs.takeWhile Text.isNamePart))) (runLength Text.isNamePart cs) := by
  unfold word Token.ofWord
  cases h : Keyword.ofText? (String.ofList (c :: cs.takeWhile Text.isNamePart)) with
  | some k => simp only [h]
  | none => simp only [h]

theorem word_fits {c : Char} (hc : Text.isNameStart c = true) (cs : List Char) :
    Fits false c cs (word c cs) := by
  rw [word_eq]
  refine ⟨?_, inTemplate_ofWord _⟩
  rw [take_runLength]
  simp [Token.ofSlice, Token.ofPlainSlice, hc]

theorem symbol_fits {c : Char} {cs : List Char} {s : Symbol} {more : Nat} (hc : Text.isNameStart c = false)
    (hq : c ≠ '\x22' ∧ c ≠ '\x27') (hs : s.text = String.ofList (c :: cs.take more)) :
    Fits false c cs (symbol s more) := by
  refine ⟨?_, rfl⟩
  simp [Token.ofSlice, Token.ofPlainSlice, hc, hq, ← hs, Symbol.ofText?_text]

theorem string_fits {c : Char} (hq : c = '\x22' ∨ c = '\x27') (cs : List Char) :
    Fits false c cs (string c cs) := by
  unfold string
  simp only
  split
  · rename_i d ds hdrop
    split
    · rename_i hd
      have htake : cs.take (stringLength c cs + 1) = cs.take (stringLength c cs) ++ [d] := by
        rw [List.take_add, hdrop]
        rfl
      have hname : Text.isNameStart c = false := by
        rcases hq with rfl | rfl <;> decide
      refine ⟨?_, rfl⟩
      rw [htake]
      simp [Token.ofSlice, Token.ofPlainSlice, hname, hq]
    · simp [Fits]
  · simp [Fits]

theorem isNameStart_of_isDigit {c : Char} (hc : c.isDigit = true) : Text.isNameStart c = false := by
  have hne : c ≠ '_' ∧ c ≠ '$' := by
    constructor <;> rintro rfl <;> cases hc
  have halpha : c.isAlpha = false := by
    delta Char.isAlpha Char.isUpper Char.isLower
    simp only [Char.isDigit, ge_iff_le, UInt32.le_iff_toNat_le, Char.reduceVal, UInt32.reduceToNat, Bool.and_eq_true,
      decide_eq_true_eq, Bool.or_eq_false_iff, Bool.and_eq_false_iff, decide_eq_false_iff_not] at hc ⊢
    omega
  simp [Text.isNameStart, halpha, hne]

/-- No symbol starts as a number does. -/
theorem ofText?_number {c : Char} {cs : List Char}
    (hc : c.isDigit = true ∨ c = '.' ∧ ∃ d ∈ cs.head?, d.isDigit = true) :
    Symbol.ofText? (String.ofList (c :: cs)) = none := by
  rw [Option.eq_none_iff_forall_ne_some]
  intro s hs
  have htext : s.text.toList = c :: cs := by
    rw [Symbol.text_of_ofText? hs, String.toList_ofList]
  have hhead : s.text.toList.head?.any Char.isDigit = false ∧
      (s.text.toList.head? = some '.' → s.text.toList[1]?.any Char.isDigit = false) := by
    cases s <;> decide +kernel
  rw [htext] at hhead
  rcases hc with hc | ⟨rfl, d, hd, hdigit⟩
  · simp [hc] at hhead
  · cases cs with
    | nil => cases hd
    | cons e cs =>
        cases hd
        simp [hdigit] at hhead

/-- A text that starts with a digit, or with a point and a digit, is a number. -/
theorem ofSlice_number {c : Char} {cs : List Char}
    (hc : c.isDigit = true ∨ c = '.' ∧ ∃ d ∈ cs.head?, d.isDigit = true) :
    Token.ofSlice false (c :: cs) = .number (numberOf (c :: cs)) := by
  have hname : Text.isNameStart c = false := by
    rcases hc with hc | ⟨rfl, -⟩
    · exact isNameStart_of_isDigit hc
    · decide
  have hquote : c ≠ '\x22' ∧ c ≠ '\x27' := by
    constructor <;> rintro rfl <;> simp at hc
  simp only [Token.ofSlice, Token.ofPlainSlice, hname, hquote, ofText?_number hc, Bool.false_eq_true, if_false,
    decide_false, Bool.or_self]

theorem hexadecimal_fits {x : Char} {hex : List Char} (hx : x = 'x' ∨ x = 'X') {ds : List Char} (hds : hex <+: ds) :
    Fits false '0' (x :: ds) (hexadecimal hex) := by
  unfold hexadecimal
  simp only
  split
  · refine ⟨?_, rfl⟩
    rw [List.take_succ_cons, ← List.prefix_iff_eq_take.mp hds, ofSlice_number (.inl rfl)]
    simp [numberOf, hx]
  · simp [Fits]

/-- The digits and the exponent after a point, as a part of the text. -/
theorem take_fraction (rest : List Char) :
    rest.take ((rest.takeWhile Char.isDigit).length + exponentLength (rest.dropWhile Char.isDigit)) =
      rest.takeWhile Char.isDigit ++
        (rest.dropWhile Char.isDigit).take (exponentLength (rest.dropWhile Char.isDigit)) := by
  calc rest.take ((rest.takeWhile Char.isDigit).length + exponentLength (rest.dropWhile Char.isDigit))
      = (rest.takeWhile Char.isDigit ++ rest.dropWhile Char.isDigit).take
          ((rest.takeWhile Char.isDigit).length + exponentLength (rest.dropWhile Char.isDigit)) := by
        rw [List.takeWhile_append_dropWhile]
    _ = _ := List.take_length_add_append _

theorem afterPoint_eq (whole cs : List Char) (before : Nat) :
    afterPoint whole cs before =
      .token (.number (decimalValue whole (cs.takeWhile Char.isDigit)
        ((cs.dropWhile Char.isDigit).take (exponentLength (cs.dropWhile Char.isDigit)))))
        (before + ((cs.takeWhile Char.isDigit).length + exponentLength (cs.dropWhile Char.isDigit))) := by
  simp only [afterPoint, drop_length_takeWhile, Nat.add_assoc]

theorem isDigit_of_mem_takeWhile {cs : List Char} : ∀ c ∈ cs.takeWhile Char.isDigit, c.isDigit = true :=
  fun _ h => List.mem_takeWhile_imp h

/-- The point of a number comes after its first digits. -/
theorem afterPoint_fits {c : Char} {before rest : List Char} (hc : ∀ d ∈ c :: before, d.isDigit = true) :
    Fits false c (before ++ '.' :: rest) (afterPoint (c :: before) rest (before.length + 1)) := by
  rw [afterPoint_eq]
  refine ⟨?_, rfl⟩
  have htake : (before ++ '.' :: rest).take
      (before.length + 1 + ((rest.takeWhile Char.isDigit).length + exponentLength (rest.dropWhile Char.isDigit))) =
      before ++ '.' :: (rest.takeWhile Char.isDigit ++
        (rest.dropWhile Char.isDigit).take (exponentLength (rest.dropWhile Char.isDigit))) := by
    rw [Nat.add_assoc, List.take_length_add_append, Nat.add_comm 1, List.take_succ_cons, take_fraction]
  have hhead : ∀ x ∈ (before ++ '.' :: (rest.takeWhile Char.isDigit ++
      (rest.dropWhile Char.isDigit).take (exponentLength (rest.dropWhile Char.isDigit)))).head?, x ≠ 'x' ∧ x ≠ 'X' := by
    intro x hx
    have hx : x.isDigit = true ∨ x = '.' := by
      cases before with
      | nil => exact .inr (by simpa using hx.symm)
      | cons d ds => exact .inl (by cases hx; exact hc _ (by simp))
    constructor <;> rintro rfl <;> simp at hx
  rw [htake, ofSlice_number (.inl (hc c (by simp))), numberOf_eq_decimalOf hhead, ← List.cons_append,
    decimalOf_point hc isDigit_of_mem_takeWhile]

/-- A number may start with its point. -/
theorem point_fits (cs : List Char) : Fits false '.' cs (point cs) := by
  unfold point
  split
  · exact symbol_fits rfl (by decide) rfl
  · rename_i d ds _
    split
    · rename_i hd
      have hslice : (d :: ds).takeWhile Char.isDigit = d :: ds.takeWhile Char.isDigit := by
        simp [hd]
      rw [afterPoint_eq, Nat.zero_add]
      refine ⟨?_, rfl⟩
      rw [take_fraction, ofSlice_number, numberOf_eq_decimalOf]
      · exact congrArg Token.number (decimalOf_point (by simp) isDigit_of_mem_takeWhile).symm
      · rw [hslice]
        rintro x ⟨⟩
        constructor <;> rintro rfl <;> cases hd
      · exact .inr ⟨rfl, d, by rw [hslice]; rfl, hd⟩
    · exact symbol_fits rfl (by decide) rfl
  · exact symbol_fits rfl (by decide) rfl

theorem decimal_fits {c : Char} (hc : c.isDigit = true) (cs : List Char) : Fits false c cs (decimal c cs) := by
  have hdigits : ∀ d ∈ c :: cs.takeWhile Char.isDigit, d.isDigit = true :=
    List.forall_mem_cons.mpr ⟨hc, isDigit_of_mem_takeWhile⟩
  unfold decimal
  simp only [drop_length_takeWhile]
  split
  · rename_i rest hrest
    have hcs : cs = cs.takeWhile Char.isDigit ++ '.' :: rest := by
      rw [← hrest, List.takeWhile_append_dropWhile]
    have h : Fits false c (cs.takeWhile Char.isDigit ++ '.' :: rest) _ := afterPoint_fits hdigits
    rwa [← hcs] at h
  · refine ⟨?_, rfl⟩
    rw [take_fraction, ofSlice_number (.inl hc), numberOf_eq_decimalOf, ← List.cons_append, decimalOf_whole hdigits]
    intro x hx
    have hx : x.isDigit = true ∨ x = 'e' ∨ x = 'E' := by
      cases htake : cs.takeWhile Char.isDigit with
      | nil =>
          rw [htake, List.nil_append] at hx
          obtain ⟨ds, hds⟩ := List.head?_eq_some_iff.mp hx
          exact .inr (head_exponent hds)
      | cons d ds =>
          rw [htake] at hx
          cases hx
          exact .inl (hdigits _ (by simp [htake]))
    constructor <;> rintro rfl <;> simp at hx

theorem number_fits {c : Char} (hc : c.isDigit = true) (cs : List Char) : Fits false c cs (number c cs) := by
  unfold number
  split
  · rename_i x ds
    simp only
    split
    · rename_i h
      simp only [Bool.and_eq_true, Bool.or_eq_true, beq_iff_eq] at h
      obtain ⟨⟨rfl, hx⟩, -⟩ := h
      exact hexadecimal_fits hx (List.takeWhile_prefix _)
    · exact decimal_fits hc _
  · exact decimal_fits hc _

theorem slash_fits (cs : List Char) : Fits false '/' cs (slash cs) := by
  unfold slash
  split
  · rename_i cs
    refine ⟨rfl, fun gap rest hgap hsep => ?_⟩
    rw [Nat.add_comm 1] at hgap ⊢
    rw [List.drop_succ_cons, runLength, drop_length_takeWhile] at hgap
    rw [List.take_succ_cons, take_runLength]
    refine .lineComment ?_ ?_ hsep
    · intro hmem
      simpa using List.mem_takeWhile_imp hmem
    · intro c hc
      rw [← hgap] at hc
      have := List.head?_dropWhile_not (fun c => decide (c ≠ '\n')) cs
      rw [hc] at this
      simpa using this
  · rename_i cs
    split
    · rename_i n hn
      refine ⟨rfl, fun gap rest hgap hsep => ?_⟩
      obtain ⟨body, htake, hbody⟩ := commentLength_eq_some hn
      rw [Nat.add_comm 1, List.take_succ_cons, htake]
      simpa using Separators.blockComment hbody hsep
    · simp [Fits]
  · exact symbol_fits rfl (by decide) rfl

theorem plain_fits (c : Char) (cs : List Char) : Fits false c cs (plain c cs) := by
  unfold plain
  split
  · rename_i hc
    refine ⟨rfl, fun gap rest _ hsep => ?_⟩
    rw [take_runLength]
    exact .blank hc (separators_blanks (fun _ => List.mem_takeWhile_imp) hsep)
  · split
    · exact word_fits ‹_› cs
    · split
      · exact number_fits ‹_› cs
      · split
        · exact string_fits (by simp_all) cs
        -- What is left starts with the character of a symbol, or with an unknown one.
        · split
          case h_10 => exact point_fits cs
          case h_19 => exact slash_fits cs
          all_goals try split
          all_goals first | exact symbol_fits rfl (by decide) rfl | simp [Fits]

/-- Text of a template stops before the characters that start something else. -/
theorem ofSlice_text {c : Char} (hc : isTemplateText c = true) (cs : List Char) :
    Token.ofSlice true (c :: cs) = .text (String.ofList (c :: cs)) := by
  simp only [Token.ofSlice, if_true]
  unfold Token.ofTemplateSlice
  split
  · rename_i heq
    cases heq
    cases hc
  · rename_i heq
    cases heq
    cases hc
  · rename_i heq
    cases heq
    cases hc
  · rfl

theorem template_fits (c : Char) (cs : List Char) : Fits true c cs (template c cs) := by
  unfold template
  split
  · subst c
    exact ⟨rfl, rfl⟩
  · split
    · subst c
      split
      · exact ⟨rfl, rfl⟩
      · exact ⟨rfl, rfl⟩
    · split
      · subst c
        split
        · exact ⟨rfl, rfl⟩
        · simp [Fits]
      · refine ⟨?_, rfl⟩
        rw [take_runLength, ofSlice_text]
        simp_all [isTemplateText]

end Scan

end ScriptTypes
