import ScriptTypes.Proofs.Token.Modes
import ScriptTypes.Proofs.Token.Slices

/-! The lexer loses nothing. The lexemes of a text stand one after the other at the places they say, each is what its
text says, and what lies between them is blanks and comments only, or nothing inside a template. A lexical error stands
in the text after all of them. -/

namespace ScriptTypes

namespace Modes

theorem scan_fits (modes : Modes) (c : Char) (cs : List Char) : (modes.scan c cs).Fits modes.inTemplate c cs := by
  unfold scan inTemplate
  cases modes.current with
  | plain n => exact Scan.plain_fits c cs
  | template start => exact Scan.template_fits c cs

/-- What may lie before the next lexeme: nothing inside a template, blanks and comments outside. -/
def Skips (modes : Modes) (gap rest : List Char) : Prop :=
  if modes.inTemplate then gap = [] else Separators rest gap

theorem skips_nil (modes : Modes) {rest : List Char} : modes.Skips [] rest := by
  unfold Skips
  split
  · rfl
  · exact .nil

end Modes

namespace Lexed

/-- A lexed text, read from an offset in the given modes: the lexemes with what lies before each, then the end or an
error. -/
inductive Covers : Modes → Nat → List Char → Lexed → Prop
  | done {modes offset gap} (hmode : modes.inTemplate = false) (hgap : Separators [] gap) :
      Covers modes offset gap ⟨[], none⟩
  | openTemplate {start left offset} :
      Covers ⟨.template start, left⟩ offset [] ⟨[], some ⟨.openTemplate, start, start + 1⟩⟩
  | fault {modes offset gap slice rest fault} (hgap : modes.Skips gap (slice ++ rest)) (hslice : slice ≠ [])
      (hfault : fault ≠ .openTemplate) :
      Covers modes offset (gap ++ (slice ++ rest)) ⟨[], some ⟨fault, offset + Text.byteLength gap,
        offset + Text.byteLength gap + Text.byteLength slice⟩⟩
  | lexeme {modes offset gap slice rest l x} (hgap : modes.Skips gap (slice ++ rest)) (hslice : slice ≠ [])
      (hstart : l.start = offset + Text.byteLength gap) (hstop : l.stop = l.start + Text.byteLength slice)
      (htoken : l.token = Token.ofSlice modes.inTemplate slice) (hmode : l.token.inTemplate = modes.inTemplate)
      (hrest : Covers (modes.after l.start l.token) l.stop rest x) :
      Covers modes offset (gap ++ (slice ++ rest)) (cons l x)

theorem Covers.prepend {modes : Modes} {offset : Nat} {chunk text : List Char} {x : Lexed}
    (h : Covers modes (offset + Text.byteLength chunk) text x) (hmode : modes.inTemplate = false)
    (hchunk : ∀ gap rest, text = gap ++ rest → Separators rest gap → Separators rest (chunk ++ gap)) :
    Covers modes offset (chunk ++ text) x := by
  have skips {gap rest : List Char} (hg : modes.Skips gap rest) (ht : text = gap ++ rest) :
      modes.Skips (chunk ++ gap) rest := by
    simp only [Modes.Skips, hmode, Bool.false_eq_true, if_false] at hg ⊢
    exact hchunk gap rest ht hg
  cases h with
  | done _ hgap => exact .done hmode (hchunk text [] (List.append_nil text).symm hgap)
  | openTemplate => cases hmode
  | fault hgap hslice hfault =>
      rw [← List.append_assoc, Nat.add_assoc offset, ← Text.byteLength_append]
      exact .fault (skips hgap rfl) hslice hfault
  | lexeme hgap hslice hstart hstop htoken hmode' hrest =>
      rw [← List.append_assoc]
      rw [Nat.add_assoc, ← Text.byteLength_append] at hstart
      exact .lexeme (skips hgap rfl) hslice hstart hstop htoken hmode' hrest

theorem read_covers (modes : Modes) (afterBreak : Bool) (offset : Nat) (text : List Char) :
    Covers modes offset text (read modes afterBreak offset text) := by
  fun_induction read modes afterBreak offset text with
  | case1 modes afterBreak offset =>
      obtain ⟨current, left⟩ := modes
      cases current with
      | plain n => exact .done rfl .nil
      | template start => exact .openTemplate
  | case2 modes afterBreak offset c cs more hscan gap ih =>
      have hfits := modes.scan_fits c cs
      rw [hscan] at hfits
      have := ih.prepend hfits.1 hfits.2
      rwa [List.cons_append, List.take_append_drop] at this
  | case3 modes afterBreak offset c cs token more hscan stop ih =>
      have hfits := modes.scan_fits c cs
      rw [hscan] at hfits
      have h : Covers modes offset ([] ++ (c :: cs.take more ++ cs.drop more))
          (cons ⟨token, offset, stop, afterBreak⟩ _) :=
        .lexeme modes.skips_nil (List.cons_ne_nil _ _) rfl rfl hfits.1 hfits.2 ih
      rwa [List.nil_append, List.cons_append, List.take_append_drop] at h
  | case4 modes afterBreak offset c cs fault more hscan =>
      have hfits := modes.scan_fits c cs
      rw [hscan] at hfits
      have h : Covers modes offset ([] ++ (c :: cs.take more ++ cs.drop more)) _ :=
        .fault modes.skips_nil (List.cons_ne_nil _ _) hfits
      rwa [List.nil_append, List.cons_append, List.take_append_drop] at h

end Lexed

namespace Text

/-- The text between two byte offsets, with what follows it. Both offsets lie between characters. -/
def Between (text : List Char) (start stop : Nat) (slice rest : List Char) : Prop :=
  ∃ before, text = before ++ (slice ++ rest) ∧ byteLength before = start ∧ start + byteLength slice = stop

theorem byteLength_pos {cs : List Char} (h : cs ≠ []) : 0 < byteLength cs := by
  cases cs with
  | nil => exact absurd rfl h
  | cons c cs =>
      have := c.utf8Size_pos
      simp only [byteLength]
      omega

theorem Between.le {text slice rest : List Char} {start stop : Nat} (h : Between text start stop slice rest) :
    start ≤ stop ∧ stop ≤ byteLength text := by
  obtain ⟨before, rfl, rfl, rfl⟩ := h
  simp only [byteLength_append]
  omega

theorem utf8ByteSize_ofList (cs : List Char) : (String.ofList cs).utf8ByteSize = byteLength cs := by
  induction cs with
  | nil => rfl
  | cons c cs ih =>
      rw [← List.singleton_append, String.ofList_append, String.utf8ByteSize_append, ih, ← String.singleton_eq_ofList,
        String.utf8ByteSize_singleton]
      rfl

theorem byteLength_toList (text : String) : byteLength text.toList = text.utf8ByteSize := by
  rw [← utf8ByteSize_ofList, String.ofList_toList]

/-- The text from the start of one part to the end of another one. -/
theorem Between.cover {text slice rest slice' rest' : List Char} {a b m n : Nat} (h : Between text a b slice rest)
    (h' : Between text m n slice' rest') (hle : a ≤ n) : ∃ whole, Between text a n whole rest' := by
  obtain ⟨before, htext, ha, -⟩ := h
  obtain ⟨before', htext', hm, hn⟩ := h'
  have hn : byteLength (before' ++ slice') = n := by rw [byteLength_append, hm, hn]
  rw [← List.append_assoc] at htext'
  have hprefix : before <+: text := ⟨_, htext.symm⟩
  have hprefix' : before' ++ slice' <+: text := ⟨_, htext'.symm⟩
  rcases List.prefix_or_prefix_of_prefix hprefix hprefix' with ⟨whole, hwhole⟩ | ⟨more, hmore⟩
  · refine ⟨whole, before, by rw [← List.append_assoc, hwhole, htext'], ha, ?_⟩
    rw [← ha, ← byteLength_append, hwhole, hn]
  · -- The end comes first only if it is where the start is.
    have hnil : more = [] := by
      by_contra hne
      have hpos := byteLength_pos hne
      rw [← hmore, byteLength_append] at ha
      omega
    rw [hnil, List.append_nil] at hmore
    refine ⟨[], before, by rw [List.nil_append, ← hmore, htext'], ha, ?_⟩
    rw [← ha, ← hmore, hn]
    rfl

end Text

namespace Token

theorem eq_of_ofWord {name name' : String} (h : ofWord name = .ident name') : name = name' := by
  unfold ofWord at h
  split at h
  · cases h
  · cases h
    rfl

theorem slice_of_ident {inTemplate : Bool} {slice : List Char} {name : String}
    (h : ofSlice inTemplate slice = .ident name) : slice = name.toList := by
  cases inTemplate with
  | true =>
      simp only [ofSlice, if_true] at h
      unfold ofTemplateSlice at h
      split at h <;> cases h
  | false =>
      simp only [ofSlice, Bool.false_eq_true, if_false] at h
      unfold ofPlainSlice at h
      split at h
      · cases h
      · split at h
        · rw [← eq_of_ofWord h, String.toList_ofList]
        · split at h
          · cases h
          · split at h <;> cases h

theorem slice_of_text {inTemplate : Bool} {slice : List Char} {piece : String}
    (h : ofSlice inTemplate slice = .text piece) : slice = piece.toList := by
  cases inTemplate with
  | true =>
      simp only [ofSlice, if_true] at h
      unfold ofTemplateSlice at h
      split at h <;> cases h
      rw [String.toList_ofList]
  | false =>
      have hword (name : String) : ofWord name ≠ .text piece := by
        unfold ofWord
        split <;> simp
      simp only [ofSlice, Bool.false_eq_true, if_false] at h
      unfold ofPlainSlice at h
      split at h
      · cases h
      · split at h
        · exact absurd h (hword _)
        · split at h
          · cases h
          · split at h <;> cases h

theorem slice_of_symbol {inTemplate : Bool} {slice : List Char} {s : Symbol}
    (h : ofSlice inTemplate slice = .symbol s) : slice = s.text.toList := by
  cases inTemplate with
  | true =>
      simp only [ofSlice, if_true] at h
      unfold ofTemplateSlice at h
      split at h <;> cases h
  | false =>
      have hword (name : String) : ofWord name ≠ .symbol s := by
        unfold ofWord
        split <;> simp
      simp only [ofSlice, Bool.false_eq_true, if_false] at h
      unfold ofPlainSlice at h
      split at h
      · cases h
      · split at h
        · exact absurd h (hword _)
        · split at h
          · cases h
          · split at h
            · rename_i hs
              cases h
              rw [Symbol.text_of_ofText? hs, String.toList_ofList]
            · cases h

end Token

/-- Where the last of the lexemes ends. -/
def Lexeme.reached (ls : List Lexeme) : Nat :=
  (ls.getLast?.map Lexeme.stop).getD 0

/-- A lexeme stands in a text: it covers some characters, is what they say and comes after nothing that counts. -/
structure Lexeme.Stands (source : List Char) (before : List Lexeme) (l : Lexeme) : Prop where
  mode : l.token.inTemplate = (Modes.initial.along before).inTemplate
  nonempty : l.start < l.stop
  spelled : ∃ slice rest, Text.Between source l.start l.stop slice rest ∧
    l.token = Token.ofSlice l.token.inTemplate slice ∧
    (∀ name, l.token = .ident name → slice = name.toList) ∧ (∀ piece, l.token = .text piece → slice = piece.toList)
  gap : ∃ gap rest, Text.Between source (reached before) l.start gap rest ∧
    if l.token.inTemplate then gap = [] else Separators rest gap

namespace Lexed

/-- The lexemes and the error of a text stand where they say, and between them is nothing that counts. -/
structure Lossless (source : List Char) (x : Lexed) : Prop where
  ordered : x.lexemes.Pairwise fun l l' => l.stop ≤ l'.start
  stands : ∀ before l after, x.lexemes = before ++ l :: after → l.Stands source before
  /-- Without error the text ends outside of templates, after blanks and comments. -/
  ending : x.error = none → ∃ gap,
    Text.Between source (Lexeme.reached x.lexemes) (Text.byteLength source) gap [] ∧ Separators [] gap
  /-- An error is at a place in the text. That a template is not closed is reported at its backtick, when all of the
  text has been read. Other errors come right after the lexemes before them. -/
  error : ∀ e, x.error = some e → ∃ slice rest, Text.Between source e.start e.stop slice rest ∧ slice ≠ [] ∧
    if e.fault = .openTemplate then
      Lexeme.reached x.lexemes = Text.byteLength source ∧
        ∃ l ∈ x.lexemes, l.token = .symbol .backtick ∧ l.start = e.start ∧ l.stop = e.stop
    else ∃ gap rest, Text.Between source (Lexeme.reached x.lexemes) e.start gap rest ∧
      (Modes.initial.along x.lexemes).Skips gap rest

theorem Covers.ordered {modes : Modes} {offset : Nat} {text : List Char} {x : Lexed} (h : Covers modes offset text x) :
    (x.lexemes.Pairwise fun l l' => l.stop ≤ l'.start) ∧ ∀ l ∈ x.lexemes, offset ≤ l.start := by
  induction h with
  | done => exact ⟨.nil, nofun⟩
  | openTemplate => exact ⟨.nil, nofun⟩
  | fault => exact ⟨.nil, nofun⟩
  | lexeme _ _ hstart hstop _ _ _ ih =>
      refine ⟨List.pairwise_cons.mpr ⟨ih.2, ih.1⟩, List.forall_mem_cons.mpr ⟨by omega, fun l hl => ?_⟩⟩
      have := ih.2 l hl
      omega

/-- The rest of a source that has been read up to an offset, giving the lexemes so far. -/
structure Reading (source : List Char) (before : List Lexeme) (modes : Modes) (offset : Nat) (text : List Char) :
    Prop where
  reached : Lexeme.reached before = offset
  modes : Modes.initial.along before = modes
  split : ∃ passed, source = passed ++ text ∧ Text.byteLength passed = offset

theorem Reading.between {source gap rest : List Char} {before : List Lexeme} {modes : Modes} {offset : Nat}
    (h : Reading source before modes offset (gap ++ rest)) :
    Text.Between source (Lexeme.reached before) (offset + Text.byteLength gap) gap rest := by
  obtain ⟨passed, hsplit, hoffset⟩ := h.split
  exact ⟨passed, hsplit, hoffset.trans h.reached.symm, by rw [h.reached]⟩

theorem Reading.slice {source gap slice rest : List Char} {before : List Lexeme} {modes : Modes} {offset : Nat}
    (h : Reading source before modes offset (gap ++ (slice ++ rest))) :
    Text.Between source (offset + Text.byteLength gap) (offset + Text.byteLength gap + Text.byteLength slice) slice
      rest := by
  obtain ⟨passed, hsplit, hoffset⟩ := h.split
  exact ⟨passed ++ gap, by simpa using hsplit, by rw [Text.byteLength_append, hoffset], rfl⟩

theorem Reading.next {source gap slice rest : List Char} {before : List Lexeme} {modes : Modes} {offset : Nat}
    (h : Reading source before modes offset (gap ++ (slice ++ rest))) {l : Lexeme}
    (hstop : l.stop = offset + Text.byteLength gap + Text.byteLength slice) :
    Reading source (before ++ [l]) (modes.after l.start l.token) l.stop rest where
  reached := by simp [Lexeme.reached]
  modes := by simp [h.modes]
  split := by
    obtain ⟨passed, hsplit, hoffset⟩ := h.split
    refine ⟨passed ++ (gap ++ slice), by simpa using hsplit, ?_⟩
    rw [Text.byteLength_append, Text.byteLength_append, hoffset, hstop, Nat.add_assoc]

/-- By induction on the lexemes: each stands where the ones before it have been read. -/
theorem Covers.stands {modes : Modes} {offset : Nat} {text : List Char} {x : Lexed} (h : Covers modes offset text x)
    {source : List Char} {before : List Lexeme} (hr : Reading source before modes offset text) :
    ∀ before' l after, x.lexemes = before' ++ l :: after → l.Stands source (before ++ before') := by
  induction h generalizing before with
  | done => simp
  | openTemplate => simp
  | fault => simp
  | @lexeme modes offset gap slice rest l x hgap hslice hstart hstop htoken hmode hrest ih =>
      intro before' l' after hl'
      cases before' with
      | nil =>
          obtain ⟨rfl, -⟩ := List.cons.inj hl'
          rw [List.append_nil]
          refine ⟨?_, ?_, ⟨slice, rest, ?_, ?_, ?_, ?_⟩, gap, slice ++ rest, ?_, ?_⟩
          · rw [hmode, hr.modes]
          · have := Text.byteLength_pos hslice
            omega
          · rw [hstop, hstart]
            exact hr.slice
          · rw [hmode, ← htoken]
          · exact fun name h => Token.slice_of_ident (htoken.symm.trans h)
          · exact fun piece h => Token.slice_of_text (htoken.symm.trans h)
          · rw [hstart]
            exact hr.between
          · rw [hmode]
            exact hgap
      | cons b before' =>
          obtain ⟨rfl, htail⟩ := List.cons.inj hl'
          have hnext := hr.next (by rw [hstop, hstart])
          simpa using ih hnext before' l' after htail

/-- How a text ends when it has been read from an offset. -/
theorem Covers.ending {modes : Modes} {offset : Nat} {text : List Char} {x : Lexed} (h : Covers modes offset text x)
    {source : List Char} {before : List Lexeme} (hr : Reading source before modes offset text) :
    match x.error with
    | none => (modes.along x.lexemes).inTemplate = false ∧
        ∃ gap, Text.Between source (Lexeme.reached (before ++ x.lexemes)) (Text.byteLength source) gap [] ∧
          Separators [] gap
    | some e =>
        if e.fault = .openTemplate then
          Lexeme.reached (before ++ x.lexemes) = Text.byteLength source ∧ e.stop = e.start + 1 ∧
            (modes.along x.lexemes).current = .template e.start
        else ∃ gap slice rest, Text.Between source (Lexeme.reached (before ++ x.lexemes)) e.start gap (slice ++ rest) ∧
          Text.Between source e.start e.stop slice rest ∧ slice ≠ [] ∧
          (modes.along x.lexemes).Skips gap (slice ++ rest) := by
  induction h generalizing before with
  | @done modes offset gap hmode hgap =>
      obtain ⟨passed, rfl, hoffset⟩ := hr.split
      refine ⟨hmode, gap, ⟨passed, by simp, ?_, ?_⟩, hgap⟩
      · rw [List.append_nil, hr.reached, hoffset]
      · rw [List.append_nil, hr.reached, Text.byteLength_append, hoffset]
  | openTemplate =>
      obtain ⟨passed, rfl, hoffset⟩ := hr.split
      simp [hr.reached, hoffset]
  | @fault modes offset gap slice rest fault hgap hslice hfault =>
      simp only [hfault, if_false, List.append_nil]
      exact ⟨gap, slice, rest, hr.between, hr.slice, hslice, hgap⟩
  | @lexeme modes offset gap slice rest l x hgap hslice hstart hstop htoken hmode hrest ih =>
      have hnext := hr.next (by rw [hstop, hstart])
      simpa [cons] using ih hnext

end Lexed

theorem Modes.Holds.of_current {modes : Modes} {start : Nat} (h : modes.current = .template start) :
    modes.Holds start := by
  rw [Holds, h]
  exact List.mem_cons_self

theorem lex_covers (source : String) : Lexed.Covers .initial 0 source.toList (lex source) :=
  Lexed.read_covers .initial false 0 source.toList

theorem Lexed.reading_start (source : List Char) : Reading source [] .initial 0 source :=
  ⟨rfl, rfl, [], rfl, rfl⟩

theorem lex_stands {source : String} {before : List Lexeme} {l : Lexeme} {after : List Lexeme}
    (h : (lex source).lexemes = before ++ l :: after) : l.Stands source.toList before :=
  (lex_covers source).stands (Lexed.reading_start source.toList) before l after h

/-- An error of the lexer is at a place in the text, after all lexemes. -/
theorem lex_error {source : String} {e : LexError} (he : (lex source).error = some e) :
    ∃ slice rest, Text.Between source.toList e.start e.stop slice rest ∧ slice ≠ [] ∧
      if e.fault = .openTemplate then
        Lexeme.reached (lex source).lexemes = Text.byteLength source.toList ∧
          ∃ l ∈ (lex source).lexemes, l.token = .symbol .backtick ∧ l.start = e.start ∧ l.stop = e.stop
      else ∃ gap rest, Text.Between source.toList (Lexeme.reached (lex source).lexemes) e.start gap rest ∧
        (Modes.initial.along (lex source).lexemes).Skips gap rest := by
  have hending := (lex_covers source).ending (Lexed.reading_start source.toList)
  rw [he] at hending
  simp only [List.nil_append] at hending
  split at hending
  · -- The backtick of the template that is open at the end is among the lexemes.
    rename_i hopen
    obtain ⟨hreached, hstop, hcurrent⟩ := hending
    rcases Modes.holds_along (.of_current hcurrent) with h | ⟨l, hl, hlstart, htoken⟩
    · exact absurd h (Modes.not_holds_initial _)
    · obtain ⟨before, after, hsplit⟩ := List.append_of_mem hl
      obtain ⟨slice, rest, hbetween, hslice, -⟩ := (lex_stands hsplit).spelled
      have hslice : slice = ['\x60'] := Token.slice_of_symbol (hslice.symm.trans htoken)
      have hlstop : l.stop = e.stop := by
        obtain ⟨_, -, -, h⟩ := hbetween
        rw [← h, hslice, hlstart, hstop]
        rfl
      rw [hlstart, hlstop] at hbetween
      refine ⟨slice, rest, hbetween, by simp [hslice], ?_⟩
      rw [if_pos hopen]
      exact ⟨hreached, l, hl, htoken, hlstart, hlstop⟩
  · rename_i hopen
    obtain ⟨gap, slice, rest, hgap, hslice, hne, hskips⟩ := hending
    refine ⟨slice, rest, hslice, hne, ?_⟩
    rw [if_neg hopen]
    exact ⟨gap, slice ++ rest, hgap, hskips⟩

/-- The lexer loses nothing of any text. -/
theorem lex_lossless (source : String) : (lex source).Lossless source.toList := by
  refine ⟨(lex_covers source).ordered.1, fun _ _ _ => lex_stands, fun hnone => ?_, fun _ => lex_error⟩
  have hending := (lex_covers source).ending (Lexed.reading_start source.toList)
  rw [hnone] at hending
  exact hending.2

end ScriptTypes
