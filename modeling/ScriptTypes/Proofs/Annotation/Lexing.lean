import ScriptTypes.Annotation.Lexer
import ScriptTypes.Text.Quoted

/-! The tokens of an annotation, put together from the end of the text to its start: blanks, symbols, names and quoted
labels stand before a text whose tokens are known. A quoted label is read character by character, and as it was unless
it shows the number of a character. -/

namespace ScriptTypes

namespace Text

/-- Between quotes the character is shown by its number. -/
def ShownByNumber (c : Char) : Prop :=
  ['\x5c', 'u', '\x7b'] <+: shownChar c

instance (c : Char) : Decidable (ShownByNumber c) :=
  inferInstanceAs (Decidable (['\x5c', 'u', '\x7b'] <+: shownChar c))

/-- A character is shown by a letter after a backslash, unless it is hidden or stands for itself. -/
theorem shownChar_letter_or (c : Char) :
    (∃ e, shownChar c = ['\x5c', e] ∧ escapedChar e = c ∧ e ≠ '\n') ∨
      (c ≠ '\x22' ∧ c ≠ '\x5c' ∧ shownChar c =
        if isHidden c then ['\x5c', 'u', '\x7b'] ++ Nat.toDigits 16 c.toNat ++ ['\x7d'] else [c]) := by
  by_cases hquote : c = '\x22'
  · cases hquote
    exact .inl ⟨'\x22', rfl, rfl, by decide⟩
  by_cases hslash : c = '\x5c'
  · cases hslash
    exact .inl ⟨'\x5c', rfl, rfl, by decide⟩
  by_cases hline : c = '\n'
  · cases hline
    exact .inl ⟨'n', rfl, rfl, by decide⟩
  by_cases hreturn : c = '\r'
  · cases hreturn
    exact .inl ⟨'r', rfl, rfl, by decide⟩
  by_cases htab : c = '\t'
  · cases htab
    exact .inl ⟨'t', rfl, rfl, by decide⟩
  by_cases hzero : c = '\x00'
  · cases hzero
    exact .inl ⟨'0', rfl, rfl, by decide⟩
  refine .inr ⟨hquote, hslash, ?_⟩
  simp only [shownChar, hquote, hslash, hline, hreturn, htab, hzero, if_false]

/-- The other characters are shown as they are or by a letter after a backslash. -/
theorem shownChar_cases {c : Char} (h : ¬ ShownByNumber c) :
    (∃ e, shownChar c = ['\x5c', e] ∧ escapedChar e = c ∧ e ≠ '\n') ∨
      shownChar c = [c] ∧ c ≠ '\x22' ∧ c ≠ '\x5c' := by
  rcases shownChar_letter_or c with hletter | ⟨hquote, hslash, hshown⟩
  · exact .inl hletter
  cases hhidden : isHidden c with
  | true =>
      rw [ShownByNumber, hshown, hhidden, if_pos rfl, List.append_assoc] at h
      exact absurd (List.prefix_append ..) h
  | false =>
      rw [hhidden] at hshown
      exact .inr ⟨hshown, hquote, hslash⟩

/-- The character neither ends a quoted text nor starts an escape. -/
def IsPlain (c : Char) : Prop :=
  c ≠ '\x22' ∧ c ≠ '\x5c'

theorem isPlain_digit {n : Nat} {d : Char} (h : d ∈ Nat.toDigits 16 n) : IsPlain d := by
  have hdigit : ∀ i < 16, IsPlain (Nat.digitChar i) := by
    unfold IsPlain
    decide
  induction n using Nat.strongRecOn with
  | ind n ih =>
      rw [Nat.toDigits_eq_if (by decide)] at h
      split at h
      · rename_i hlt
        exact List.mem_singleton.mp h ▸ hdigit n hlt
      · rename_i hle
        rcases List.mem_append.mp h with h | h
        · exact ih (n / 16) (by omega) h
        · exact List.mem_singleton.mp h ▸ hdigit (n % 16) (by omega)

theorem isPlain_number (n : Nat) : ∀ d ∈ '\x7b' :: (Nat.toDigits 16 n ++ ['\x7d']), IsPlain d := by
  refine List.forall_mem_cons.mpr ⟨⟨by decide, by decide⟩, ?_⟩
  refine List.forall_mem_append.mpr ⟨fun d => isPlain_digit, ?_⟩
  exact List.forall_mem_singleton.mpr ⟨by decide, by decide⟩

/-- The number comes after a backslash and a letter, in braces. -/
theorem ShownByNumber.shown {c : Char} (h : ShownByNumber c) :
    shownChar c = '\x5c' :: 'u' :: '\x7b' :: (Nat.toDigits 16 c.toNat ++ ['\x7d']) := by
  have hlength := h.length_le
  rcases shownChar_letter_or c with ⟨e, he, -⟩ | ⟨-, -, hshown⟩
  · simp [he] at hlength
  cases hhidden : isHidden c with
  | true =>
      rw [hhidden, if_pos rfl] at hshown
      exact hshown
  | false => simp [hshown, hhidden] at hlength

/-- What a character shown between quotes is read as. No escape stands for a number, so that its letter, braces and
digits are read as they are. -/
def rereadChar (c : Char) : List Char :=
  if ShownByNumber c then 'u' :: '\x7b' :: (Nat.toDigits 16 c.toNat ++ ['\x7d']) else [c]

theorem unescapeChars_cons {c : Char} (h : c ≠ '\x5c') (cs : List Char) :
    unescapeChars (c :: cs) = c :: unescapeChars cs := by
  cases cs with
  | nil => rfl
  | cons d cs => rw [unescapeChars, if_neg h]

theorem unescapeChars_append {ds : List Char} (h : ∀ d ∈ ds, IsPlain d) (cs : List Char) :
    unescapeChars (ds ++ cs) = ds ++ unescapeChars cs := by
  induction ds with
  | nil => rfl
  | cons d ds ih =>
      obtain ⟨hd, hds⟩ := List.forall_mem_cons.mp h
      rw [List.cons_append, unescapeChars_cons hd.2, ih hds, List.cons_append]

/-- What is shown between quotes is read character by character. -/
theorem unescapeChars_shown (cs : List Char) : unescapeChars (cs.flatMap shownChar) = cs.flatMap rereadChar := by
  induction cs with
  | nil => rfl
  | cons c cs ih =>
      rw [List.flatMap_cons, List.flatMap_cons, rereadChar]
      split
      · rename_i hc
        rw [hc.shown, List.cons_append, List.cons_append, unescapeChars, if_pos rfl,
          unescapeChars_append (isPlain_number _), ih]
        rfl
      · rename_i hc
        rcases shownChar_cases hc with ⟨e, he, hc, -⟩ | ⟨hc, -, hslash⟩
        · rw [he, List.cons_append, List.singleton_append, unescapeChars, if_pos rfl, hc, ih, List.singleton_append]
        · rw [hc, List.singleton_append, unescapeChars_cons hslash, ih, List.singleton_append]

theorem reread_eq_self {cs : List Char} (h : ∀ c ∈ cs, ¬ ShownByNumber c) : cs.flatMap rereadChar = cs := by
  induction cs with
  | nil => rfl
  | cons c cs ih =>
      obtain ⟨hc, hcs⟩ := List.forall_mem_cons.mp h
      rw [List.flatMap_cons, ih hcs, rereadChar, if_neg hc, List.singleton_append]

theorem not_isHidden {c : Char} (hlow : 0x20 ≤ c.toNat) (hhigh : c.toNat < 0x7f) : isHidden c = false := by
  have hranges : ∀ r ∈ hiddenRanges, r.2 < 0x20 ∨ 0x7f ≤ r.1 := by decide +kernel
  refine List.any_eq_false.mpr fun r hr => ?_
  have hr := hranges r hr
  simp only [Bool.and_eq_true, decide_eq_true_eq]
  omega

theorem isHidden_of_shownByNumber {c : Char} (h : ShownByNumber c) : isHidden c = true := by
  rcases shownChar_letter_or c with ⟨e, he, -⟩ | ⟨-, -, hshown⟩
  · cases h.shown.symm.trans he
  · cases hhidden : isHidden c with
    | true => rfl
    | false =>
        rw [hhidden] at hshown
        cases h.shown.symm.trans hshown

theorem isNamePart_of_isName {cs : List Char} (h : isName cs = true) : ∀ c ∈ cs, isNamePart c = true := by
  cases cs with
  | nil => cases h
  | cons c cs =>
      rw [isName, Bool.and_eq_true] at h
      refine List.forall_mem_cons.mpr ⟨?_, List.all_eq_true.mp h.2⟩
      simp only [isNameStart, isNamePart, Char.isAlphanum, Bool.or_eq_true] at h ⊢
      exact h.1.imp_left (Or.imp_left .inl)

theorem toNat_of_isNamePart {c : Char} (h : isNamePart c = true) : 0x20 ≤ c.toNat ∧ c.toNat < 0x7f := by
  delta isNamePart Char.isAlphanum Char.isAlpha Char.isUpper Char.isLower Char.isDigit at h
  simp only [ge_iff_le, UInt32.le_iff_toNat_le, Char.reduceVal, UInt32.reduceToNat, Bool.or_eq_true,
    Bool.and_eq_true, decide_eq_true_eq, beq_iff_eq] at h
  obtain (h | rfl) | rfl := h
  · delta Char.toNat
    omega
  · decide
  · decide

/-- A name needs no numbers. -/
theorem not_shownByNumber_of_isNamePart {c : Char} (h : isNamePart c = true) : ¬ ShownByNumber c := by
  intro hc
  obtain ⟨hlow, hhigh⟩ := toNat_of_isNamePart h
  cases (isHidden_of_shownByNumber hc).symm.trans (not_isHidden hlow hhigh)

/-- A text is read as it was shown if and only if no number was shown. -/
theorem reread_eq_self_iff {cs : List Char} : cs.flatMap rereadChar = cs ↔ ∀ c ∈ cs, ¬ ShownByNumber c := by
  refine ⟨fun h => ?_, reread_eq_self⟩
  induction cs with
  | nil => exact List.forall_mem_nil _
  | cons c cs ih =>
      rw [List.flatMap_cons, rereadChar] at h
      split at h
      · rename_i hc
        -- The text of the number starts with a letter that is shown as it is.
        cases (List.cons.inj h).1
        cases not_shownByNumber_of_isNamePart rfl hc
      · rename_i hc
        exact List.forall_mem_cons.mpr ⟨hc, ih (List.cons.inj h).2⟩

/-- What a label is read as once it has been shown. -/
def readLabel (label : String) : String :=
  if isIdentifier label then label else String.ofList (label.toList.flatMap rereadChar)

theorem readLabel_eq_self_iff {label : String} :
    readLabel label = label ↔ ∀ c ∈ label.toList, ¬ ShownByNumber c := by
  unfold readLabel
  split
  · rename_i hname
    exact iff_of_true rfl fun c hc => not_shownByNumber_of_isNamePart (isNamePart_of_isName hname c hc)
  · rw [← reread_eq_self_iff, ← String.toList_inj, String.toList_ofList]

/-- No label becomes a name, for a brace comes with each number. -/
theorem isIdentifier_readLabel (label : String) : isIdentifier (readLabel label) = isIdentifier label := by
  by_cases hnumber : ∃ c ∈ label.toList, ShownByNumber c
  · obtain ⟨c, hc, hnumber⟩ := hnumber
    unfold readLabel
    split
    · rfl
    rename_i hname
    have hbrace : '\x7b' ∈ label.toList.flatMap rereadChar := by
      refine List.mem_flatMap.mpr ⟨c, hc, ?_⟩
      rw [rereadChar, if_pos hnumber]
      exact .tail _ (.head _)
    rw [Bool.eq_false_iff.mpr hname, Bool.eq_false_iff, isIdentifier, String.toList_ofList]
    intro h
    cases isNamePart_of_isName h _ hbrace
  · rw [readLabel_eq_self_iff.mpr fun c hc h => hnumber ⟨c, hc, h⟩]

end Text

namespace Scan

theorem labelLength_append {ds : List Char} (h : ∀ d ∈ ds, Text.IsPlain d) (cs : List Char) :
    labelLength (ds ++ cs) = ds.length + labelLength cs := by
  induction ds with
  | nil => simp
  | cons d ds ih =>
      obtain ⟨hd, hds⟩ := List.forall_mem_cons.mp h
      have hcons : labelLength (d :: (ds ++ cs)) = labelLength (ds ++ cs) + 1 := by
        cases ds ++ cs with
        | nil => simp [labelLength, hd.1, hd.2]
        | cons e es => rw [labelLength, if_neg hd.2, if_neg hd.1]
      rw [List.cons_append, hcons, ih hds, List.length_cons]
      omega

/-- What is shown between quotes is followed by the quote that ends it. -/
theorem labelLength_shown (cs rest : List Char) :
    labelLength (cs.flatMap Text.shownChar ++ '\x22' :: rest) = (cs.flatMap Text.shownChar).length := by
  induction cs with
  | nil => cases rest <;> rfl
  | cons c cs ih =>
      rw [List.flatMap_cons, List.append_assoc, List.length_append]
      by_cases hc : Text.ShownByNumber c
      · rw [hc.shown, List.cons_append, List.cons_append, labelLength, if_pos rfl, if_neg (by decide),
          labelLength_append (Text.isPlain_number _), ih]
        simp only [List.length_cons]
        omega
      · rcases Text.shownChar_cases hc with ⟨e, he, -, hline⟩ | ⟨hc, hplain⟩
        · rw [he, List.cons_append, List.singleton_append, labelLength, if_pos rfl, if_neg hline, ih]
          simp only [List.length_cons, List.length_nil]
          omega
        · rw [hc, labelLength_append (List.forall_mem_singleton.mpr hplain), ih]

theorem label_shown (cs rest : List Char) :
    label (cs.flatMap Text.shownChar ++ '\x22' :: rest) =
      .token (.string (String.ofList (cs.flatMap Text.rereadChar))) ((cs.flatMap Text.shownChar).length + 1) := by
  rw [label, labelLength_shown, List.drop_left, List.take_left, Text.unescapeChars_shown]
  rfl

end Scan

/-- A text has the given tokens. -/
inductive Tokenizes : List Char → List Token → Prop
  | nil : Tokenizes [] []
  | gap {c cs more ts} (hscan : Scan.annotation c cs = .gap more) (h : Tokenizes (cs.drop more) ts) :
      Tokenizes (c :: cs) ts
  | token {c cs t more ts} (hscan : Scan.annotation c cs = .token t more) (h : Tokenizes (cs.drop more) ts) :
      Tokenizes (c :: cs) (t :: ts)

/-- The text does not go on with a character that may be part of a name. -/
def EndsName (rest : List Char) : Prop :=
  ∀ c ∈ rest.head?, Text.isNamePart c = false

namespace Tokenizes

variable {cs : List Char} {ts : List Token}

theorem lexemes (h : Tokenizes cs ts) (offset : Nat) :
    ∃ ls, annotationLexemes offset cs = .ok ls ∧ ls.map AnnotationLexeme.token = ts := by
  induction h generalizing offset with
  | nil => exact ⟨[], by rw [annotationLexemes], rfl⟩
  | gap hscan _ ih =>
      obtain ⟨ls, hls, hts⟩ := ih (offset + Text.byteLength _)
      exact ⟨ls, by rw [annotationLexemes, hscan]; exact hls, hts⟩
  | @token c cs t more ts hscan _ ih =>
      obtain ⟨ls, hls, hts⟩ := ih (offset + Text.byteLength (c :: cs.take more))
      refine ⟨⟨t, offset⟩ :: ls, ?_, by rw [List.map_cons, hts]⟩
      rw [annotationLexemes, hscan]
      simp only [hls]
      rfl

theorem scan_blank {c : Char} (hc : Scan.isAnnotationBlank c = true) (cs : List Char) :
    Scan.annotation c cs = .gap (Scan.runLength Scan.isAnnotationBlank cs) := by
  unfold Scan.annotation
  rw [if_pos hc]

theorem dropBlanks (h : Tokenizes cs ts) : Tokenizes (cs.drop (Scan.runLength Scan.isAnnotationBlank cs)) ts := by
  cases cs with
  | nil => exact h
  | cons c cs =>
      cases hc : Scan.isAnnotationBlank c with
      | false => simpa [Scan.runLength, hc] using h
      | true =>
          have hscan := scan_blank hc cs
          cases h with
          | gap hgap h =>
              cases hscan.symm.trans hgap
              simpa [Scan.runLength, hc] using h
          | token htoken => cases hscan.symm.trans htoken

theorem blank {c : Char} (hc : Scan.isAnnotationBlank c = true) (h : Tokenizes cs ts) : Tokenizes (c :: cs) ts :=
  .gap (scan_blank hc cs) h.dropBlanks

theorem blanks {bs : List Char} (hbs : ∀ c ∈ bs, Scan.isAnnotationBlank c = true) (h : Tokenizes cs ts) :
    Tokenizes (bs ++ cs) ts := by
  induction bs with
  | nil => exact h
  | cons c bs ih =>
      obtain ⟨hc, hbs⟩ := List.forall_mem_cons.mp hbs
      exact (ih hbs).blank hc

theorem not_isAnnotationBlank {c : Char} (hc : Text.isNameStart c = true) : ¬ Scan.isAnnotationBlank c = true := by
  intro hblank
  simp only [Scan.isAnnotationBlank, Bool.or_eq_true, beq_iff_eq] at hblank
  obtain ((rfl | rfl) | rfl) | rfl := hblank <;> cases hc

theorem scan_name {c : Char} (hc : Text.isNameStart c = true) (cs : List Char) :
    Scan.annotation c cs =
      .token (.ident (String.ofList (c :: cs.takeWhile Text.isNamePart))) (Scan.runLength Text.isNamePart cs) := by
  unfold Scan.annotation
  rw [if_neg (not_isAnnotationBlank hc), if_pos hc]

/-- Only a blank starts a gap, and only the start of a name starts one. -/
theorem scan_other {c : Char} (hblank : ¬ Scan.isAnnotationBlank c = true) (hname : ¬ Text.isNameStart c = true)
    (cs : List Char) :
    (∀ more, Scan.annotation c cs ≠ .gap more) ∧
      ∀ name more, Scan.annotation c cs ≠ .token (.ident name) more := by
  unfold Scan.annotation
  rw [if_neg hblank, if_neg hname]
  split
  · unfold Scan.label
    dsimp only
    split <;> simp
  -- Two of the symbols have more than one character.
  case h_8 | h_9 => split <;> simp [Scan.symbol]
  all_goals simp [Scan.symbol]

theorem name {w : List Char} (hw : Text.isName w = true) (hcs : EndsName cs) (h : Tokenizes cs ts) :
    Tokenizes (w ++ cs) (.ident (String.ofList w) :: ts) := by
  cases w with
  | nil => cases hw
  | cons c w =>
      rw [Text.isName, Bool.and_eq_true] at hw
      have hrun : (w ++ cs).takeWhile Text.isNamePart = w := by
        rw [List.takeWhile_append_of_pos (List.all_eq_true.mp hw.2)]
        cases cs with
        | nil => simp
        | cons d cs => simp [hcs d rfl]
      have hscan : Scan.annotation c (w ++ cs) = .token (.ident (String.ofList (c :: w))) w.length := by
        rw [scan_name hw.1, Scan.runLength, hrun]
      rw [List.cons_append]
      refine .token hscan ?_
      rw [List.drop_left]
      exact h

theorem reread (w : List Char) (h : Tokenizes cs ts) :
    Tokenizes (Text.quotedChars w ++ cs) (.string (String.ofList (w.flatMap Text.rereadChar)) :: ts) := by
  have hscan : Scan.annotation '\x22' (w.flatMap Text.shownChar ++ '\x22' :: cs) =
      .token (.string (String.ofList (w.flatMap Text.rereadChar))) ((w.flatMap Text.shownChar).length + 1) :=
    Scan.label_shown w cs
  rw [Text.quotedChars, List.cons_append, List.cons_append, List.append_assoc, List.singleton_append]
  refine .token hscan ?_
  rw [← List.drop_drop, List.drop_left]
  exact h

/-- A symbol of one character. -/
theorem symbol {c : Char} {s : Symbol} (h : Tokenizes cs ts)
    (hs : (c, s) ∈ [('(', Symbol.lParen), (')', .rParen), ('\x7b', .lBrace), ('\x7d', .rBrace), (',', .comma),
      (':', .colon)]) :
    Tokenizes (c :: cs) (.symbol s :: ts) := by
  have hscan : Scan.annotation c cs = .token (.symbol s) 0 := by
    simp only [List.mem_cons, Prod.mk.injEq, List.not_mem_nil, or_false] at hs
    obtain ⟨rfl, rfl⟩ | ⟨rfl, rfl⟩ | ⟨rfl, rfl⟩ | ⟨rfl, rfl⟩ | ⟨rfl, rfl⟩ | ⟨rfl, rfl⟩ := hs <;> rfl
  exact .token hscan h

theorem fatArrow (h : Tokenizes cs ts) : Tokenizes ('=' :: '>' :: cs) (.symbol .fatArrow :: ts) := by
  have hscan : Scan.annotation '=' ('>' :: cs) = .token (.symbol .fatArrow) 1 := rfl
  exact .token hscan h

theorem ellipsis (h : Tokenizes cs ts) : Tokenizes ('.' :: '.' :: '.' :: cs) (.symbol .ellipsis :: ts) := by
  have hscan : Scan.annotation '.' ('.' :: '.' :: cs) = .token (.symbol .ellipsis) 2 := rfl
  exact .token hscan h

end Tokenizes

end ScriptTypes
