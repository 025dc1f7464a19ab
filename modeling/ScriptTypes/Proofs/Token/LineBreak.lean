import ScriptTypes.Proofs.Token.Slices

/-! A line break ends what comes before it. No token outside of templates goes over a line break, so a text that is
followed by one is scanned as if nothing came after it. Only blanks at its end are joined with the break. -/

namespace ScriptTypes

namespace Scan

section

variable (cs after : List Char)

theorem takeWhile_break {p : Char → Bool} (hp : p '\n' = false) :
    (cs ++ '\n' :: after).takeWhile p = cs.takeWhile p := by
  induction cs with
  | nil => simp [hp]
  | cons c cs ih => by_cases hc : p c = true <;> simp [hc, ih]

theorem dropWhile_break {p : Char → Bool} (hp : p '\n' = false) :
    (cs ++ '\n' :: after).dropWhile p = cs.dropWhile p ++ '\n' :: after := by
  induction cs with
  | nil => simp [hp]
  | cons c cs ih => by_cases hc : p c = true <;> simp [hc, ih]

theorem runLength_le (p : Char → Bool) : runLength p cs ≤ cs.length :=
  (List.takeWhile_prefix p).length_le

/-- How the scan of a longer text is the scan of a text that a line break follows. -/
def Kept (cs : List Char) (s : Scan) : Scan → Prop
  | .token t more => more ≤ cs.length ∧ s = .token t more
  | .gap more => more ≤ cs.length ∧ (s = .gap more ∨ more = cs.length ∧ s = .gap (more + 1))
  | .fault _ _ => True

theorem word_kept (c : Char) : Kept cs (word c (cs ++ '\n' :: after)) (word c cs) := by
  rw [word_eq, word_eq, runLength, takeWhile_break cs after (by decide)]
  exact ⟨runLength_le cs _, rfl⟩

theorem exponentLength_le : exponentLength cs ≤ cs.length := by
  unfold exponentLength
  split
  · split
    · split
      · rename_i s ds
        have := runLength_le ds Char.isDigit
        have := runLength_le (s :: ds) Char.isDigit
        simp only [List.length_cons] at *
        split <;> split <;> omega
      · exact Nat.zero_le _
    · exact Nat.zero_le _
  · exact Nat.zero_le _

theorem exponentLength_break : exponentLength (cs ++ '\n' :: after) = exponentLength cs := by
  cases cs with
  | nil => rfl
  | cons e cs =>
      cases cs with
      | nil => simp [exponentLength, runLength]
      | cons s ds =>
          have hrun := takeWhile_break (s :: ds) after (p := Char.isDigit) rfl
          rw [List.cons_append] at hrun
          simp only [exponentLength, List.cons_append, runLength, takeWhile_break ds after (p := Char.isDigit) rfl,
            hrun]
          rfl

theorem length_split (p : Char → Bool) : (cs.takeWhile p).length + (cs.dropWhile p).length = cs.length := by
  rw [← List.length_append, List.takeWhile_append_dropWhile]

theorem afterPoint_kept (whole : List Char) (before : List Char) :
    Kept (before ++ cs) (afterPoint whole (cs ++ '\n' :: after) before.length) (afterPoint whole cs before.length) := by
  rw [afterPoint_eq, afterPoint_eq, takeWhile_break cs after (by rfl), dropWhile_break cs after (by rfl),
    exponentLength_break, List.take_append_of_le_length (exponentLength_le _)]
  refine ⟨?_, rfl⟩
  have hle := exponentLength_le (cs.dropWhile Char.isDigit)
  have hlen := length_split cs Char.isDigit
  simp only [List.length_append]
  omega

theorem decimal_of_point {c : Char} {rest : List Char} (h : cs.dropWhile Char.isDigit = '.' :: rest) :
    decimal c cs = afterPoint (c :: cs.takeWhile Char.isDigit) rest ((cs.takeWhile Char.isDigit).length + 1) := by
  unfold decimal
  simp only [drop_length_takeWhile, h]

theorem decimal_of_no_point {c : Char} (h : (cs.dropWhile Char.isDigit).head? ≠ some '.') :
    decimal c cs = .token (.number (decimalValue (c :: cs.takeWhile Char.isDigit) []
        ((cs.dropWhile Char.isDigit).take (exponentLength (cs.dropWhile Char.isDigit)))))
      ((cs.takeWhile Char.isDigit).length + exponentLength (cs.dropWhile Char.isDigit)) := by
  unfold decimal
  simp only [drop_length_takeWhile]
  split
  · rename_i rest hrest
    exact absurd (by rw [hrest]; rfl) h
  · rfl

theorem decimal_kept (c : Char) : Kept cs (decimal c (cs ++ '\n' :: after)) (decimal c cs) := by
  have htake := takeWhile_break cs after (p := Char.isDigit) rfl
  have hdrop := dropWhile_break cs after (p := Char.isDigit) rfl
  by_cases hpoint : (cs.dropWhile Char.isDigit).head? = some '.'
  · obtain ⟨rest, hrest⟩ := List.head?_eq_some_iff.mp hpoint
    rw [hrest] at hdrop
    rw [decimal_of_point _ hdrop, decimal_of_point _ hrest, htake]
    have h := afterPoint_kept rest after (c :: cs.takeWhile Char.isDigit) (cs.takeWhile Char.isDigit ++ ['.'])
    rwa [List.length_append, List.append_assoc, List.singleton_append, ← hrest, List.takeWhile_append_dropWhile] at h
  · have hpoint' : ((cs ++ '\n' :: after).dropWhile Char.isDigit).head? ≠ some '.' := by
      rw [hdrop]
      cases hrest : cs.dropWhile Char.isDigit with
      | nil => exact nofun
      | cons d rest => rwa [hrest] at hpoint
    rw [decimal_of_no_point _ hpoint', decimal_of_no_point _ hpoint, htake, hdrop, exponentLength_break,
      List.take_append_of_le_length (exponentLength_le _)]
    refine ⟨?_, rfl⟩
    have hle := exponentLength_le (cs.dropWhile Char.isDigit)
    have hlen := length_split cs Char.isDigit
    omega

theorem number_kept (c : Char) : Kept cs (number c (cs ++ '\n' :: after)) (number c cs) := by
  cases cs with
  | nil =>
      have hnumber : number c ([] ++ '\n' :: after) = decimal c ([] ++ '\n' :: after) := by simp [number]
      rw [hnumber]
      exact decimal_kept [] after c
  | cons x ds =>
      rw [List.cons_append]
      simp only [number, takeWhile_break ds after (p := isHexDigit) (by decide)]
      split
      · unfold hexadecimal
        dsimp only
        split
        · refine ⟨?_, rfl⟩
          have := runLength_le ds isHexDigit
          simp only [runLength, List.length_cons] at *
          omega
        · trivial
      · exact decimal_kept (x :: ds) after c

theorem stringLength_break {quote : Char} (hquote : quote ≠ '\x5c') {rest : List Char}
    (h : cs.drop (stringLength quote cs) = quote :: rest) :
    stringLength quote (cs ++ '\n' :: after) = stringLength quote cs := by
  fun_induction stringLength quote cs with
  | case1 => cases h
  | case2 c hc =>
      obtain ⟨rfl, -⟩ := List.cons.inj h
      simp [stringLength, hquote]
  | case3 c hc => cases h
  | case4 cs => exact absurd (List.cons.inj h).1.symm hquote
  | case5 d cs hd ih =>
      simp only [List.cons_append, stringLength, if_true, hd, if_false, ih h]
  | case6 c d cs hc hstop => simp [stringLength, hc, hstop]
  | case7 c d cs hc hstop ih =>
      rw [List.cons_append, List.cons_append, stringLength, if_neg hc, if_neg hstop, ← List.cons_append, ih h]

theorem string_kept {quote : Char} (hquote : quote ≠ '\x5c') :
    Kept cs (string quote (cs ++ '\n' :: after)) (string quote cs) := by
  cases hdrop : cs.drop (stringLength quote cs) with
  | nil => simp [string, hdrop, Kept]
  | cons c rest =>
      by_cases hc : c = quote
      · subst hc
        have hle : stringLength c cs < cs.length := by
          have := congrArg List.length hdrop
          simp only [List.length_drop, List.length_cons] at this
          omega
        simp only [string, stringLength_break cs after hquote hdrop, List.drop_append_of_le_length (Nat.le_of_lt hle),
          hdrop, List.cons_append, List.take_append_of_le_length (Nat.le_of_lt hle), if_true]
        exact ⟨hle, rfl⟩
      · simp [string, hdrop, hc, Kept]

theorem commentLength_append {n : Nat} (h : commentLength cs = some n) :
    n ≤ cs.length ∧ commentLength (cs ++ after) = some n := by
  fun_induction commentLength cs generalizing n with
  | case1 => cases h
  | case2 => cases h
  | case3 c d cs hclose =>
      cases h
      exact ⟨by simp, by simp [commentLength, hclose]⟩
  | case4 c d cs hopen ih =>
      obtain ⟨m, hm, rfl⟩ := Option.map_eq_some_iff.mp h
      obtain ⟨hle, hcomment⟩ := ih hm
      refine ⟨by simpa using hle, ?_⟩
      rw [List.cons_append, List.cons_append, commentLength, if_neg hopen, ← List.cons_append, hcomment]
      rfl

theorem slash_kept : Kept cs (slash (cs ++ '\n' :: after)) (slash cs) := by
  rcases cs with _ | ⟨d, ds⟩
  · exact ⟨Nat.zero_le _, rfl⟩
  · by_cases hline : d = '/'
    · subst hline
      simp only [List.cons_append, slash, runLength, takeWhile_break ds after (p := fun c => decide (c ≠ '\n')) rfl]
      refine ⟨?_, .inl rfl⟩
      have := runLength_le ds fun c => decide (c ≠ '\n')
      simp only [runLength, List.length_cons] at *
      omega
    · by_cases hblock : d = '*'
      · subst hblock
        simp only [List.cons_append, slash]
        cases hcomment : commentLength ds with
        | none => trivial
        | some n =>
            obtain ⟨hle, hcomment'⟩ := commentLength_append ds ('\n' :: after) hcomment
            rw [hcomment']
            exact ⟨by simp only [List.length_cons]; omega, .inl rfl⟩
      · have hslash (rest : List Char) : slash (d :: rest) = symbol .slash 0 := by
          unfold slash
          split <;> simp_all
        rw [List.cons_append, hslash, hslash]
        exact ⟨Nat.zero_le _, rfl⟩

theorem point_kept : Kept cs (point (cs ++ '\n' :: after)) (point cs) := by
  rcases cs with _ | ⟨d, ds⟩
  · exact ⟨Nat.zero_le _, rfl⟩
  · by_cases hdigit : d.isDigit = true
    · have hpoint (rest : List Char) : point (d :: rest) = afterPoint [] (d :: rest) 0 := by
        unfold point
        split <;> simp_all
      rw [List.cons_append, hpoint, hpoint]
      exact afterPoint_kept (d :: ds) after [] []
    · rcases ds with _ | ⟨e, ds⟩
      · simp [point, hdigit, Kept, symbol]
      · by_cases hd : d = '.' <;> by_cases he : e = '.' <;> simp [point, hd, he, hdigit, Kept, symbol]

theorem blanks_kept (hafter : ∀ c ∈ after.head?, isBlank c = false) :
    Kept cs (.gap (runLength isBlank (cs ++ '\n' :: after))) (.gap (runLength isBlank cs)) := by
  refine ⟨runLength_le cs isBlank, ?_⟩
  rw [runLength, runLength, List.takeWhile_append]
  split
  · rename_i hall
    have hnone : after.takeWhile isBlank = [] := by
      cases after with
      | nil => rfl
      | cons c cs => simp [hafter c rfl]
    exact .inr ⟨hall, by simp [hall, isBlank, hnone]⟩
  · exact .inl rfl

/-- Blanks are joined with the line break, everything else ends before it. -/
theorem plain_kept (hafter : ∀ c ∈ after.head?, isBlank c = false) (c : Char) :
    Kept cs (plain c (cs ++ '\n' :: after)) (plain c cs) := by
  unfold plain
  split
  · exact blanks_kept cs after hafter
  · split
    · exact word_kept cs after c
    · split
      · exact number_kept cs after c
      · split
        · exact string_kept cs after (by rintro rfl; simp_all)
        -- What is left looks at most two characters ahead, and a line break is none of those it looks for.
        · split
          case h_10 => exact point_kept cs after
          case h_19 => exact slash_kept cs after
          case h_12 =>
            rcases cs with _ | ⟨a, _ | ⟨b, ds⟩⟩
            · exact ⟨Nat.zero_le _, rfl⟩
            · by_cases ha : a = '=' <;> by_cases ha' : a = '>' <;> simp [ha, ha', Kept, symbol]
            · by_cases ha : a = '=' <;> by_cases ha' : a = '>' <;> by_cases hb : b = '=' <;>
                simp [ha, ha', hb, Kept, symbol]
          case h_13 =>
            rcases cs with _ | ⟨a, _ | ⟨b, ds⟩⟩
            · exact ⟨Nat.zero_le _, rfl⟩
            · by_cases ha : a = '=' <;> simp [ha, Kept, symbol]
            · by_cases ha : a = '=' <;> by_cases hb : b = '=' <;> simp [ha, hb, Kept, symbol]
          case h_14 | h_15 =>
            rcases cs with _ | ⟨a, ds⟩
            · exact ⟨Nat.zero_le _, rfl⟩
            · by_cases ha : a = '=' <;> simp [ha, Kept, symbol]
          case h_18 =>
            rcases cs with _ | ⟨a, ds⟩
            · exact ⟨Nat.zero_le _, rfl⟩
            · by_cases ha : a = '*' <;> simp [ha, Kept, symbol]
          case h_21 =>
            rcases cs with _ | ⟨a, ds⟩
            · trivial
            · by_cases ha : a = '&' <;> simp [ha, Kept, symbol]
          case h_22 =>
            rcases cs with _ | ⟨a, ds⟩
            · trivial
            · by_cases ha : a = '|' <;> simp [ha, Kept, symbol]
          all_goals first | exact ⟨Nat.zero_le _, rfl⟩ | trivial

/-- Inside of a template only text that nothing ends goes on with what comes after. -/
theorem template_kept {c : Char} {t : Token} {more : Nat} (h : template c cs = .token t more) :
    more ≤ cs.length ∧
      (template c (cs ++ after) = .token t more ∨ more = cs.length ∧ ∃ piece, t = .text piece) := by
  unfold template at h
  split at h
  · rename_i hc
    cases h
    exact ⟨Nat.zero_le _, .inl (if_pos hc)⟩
  · rename_i hend
    split at h
    · rename_i hdollar
      rcases cs with _ | ⟨d, ds⟩
      · cases h
        exact ⟨Nat.le_refl _, .inr ⟨rfl, _, rfl⟩⟩
      · by_cases hd : d = '\x7b'
        · subst hd
          cases h
          exact ⟨by simp, .inl (by simp [template, hdollar])⟩
        · split at h
          · rename_i heq
            exact absurd (List.cons.inj heq).1 hd
          · cases h
            exact ⟨Nat.zero_le _, .inl (by simp [template, hdollar, hd])⟩
    · rename_i hdollar
      split at h
      · rename_i hslash
        rcases cs with _ | ⟨d, ds⟩
        · cases h
        · cases h
          exact ⟨by simp, .inl (by simp [template, hslash])⟩
      · rename_i hslash
        cases h
        refine ⟨runLength_le cs _, ?_⟩
        simp only [template, hend, hdollar, hslash, if_false, runLength, List.takeWhile_append]
        split
        · rename_i hall
          exact .inr ⟨hall, _, rfl⟩
        · exact .inl rfl

end

end Scan

end ScriptTypes
