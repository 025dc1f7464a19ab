import ScriptTypes.Proofs.Script.Descent

/-! The parser makes progress, among whatever lexemes it stands. A reader that succeeds has gone on to a later index, so
a loop has gone on between two of its turns, and calls go down in an order that has no endless descents. Two
subtractions are made on the way, both of them of something that is there: the step back at the missing end of a
template, and the count of the parentheses that are open when an arrow is looked for. -/

namespace ScriptTypes

namespace Cursor

/-- The cursor before the lexeme of an index. -/
def seek (ls : List Lexeme) (i nextId : Nat) : Cursor :=
  ⟨ls.drop i, (ls.take i).getLast?, nextId⟩

variable {ls : List Lexeme} {i nextId : Nat} {d : Cursor}

@[simp] theorem size_seek : (seek ls i nextId).size = ls.length - i := by
  simp [seek, size]

/-- The lexeme before an index that is not the first. -/
theorem last_seek (hi : i < ls.length) : (seek ls (i + 1) nextId).last = ls[i]? := by
  change (ls.take (i + 1)).getLast? = ls[i]?
  rw [List.take_add_one, List.getElem?_eq_getElem hi, Option.toList_some, List.getLast?_concat]

/-- Whoever goes on from an index comes to an index. -/
theorem Onward.exists_seek (h : (seek ls i nextId).Onward d) (hi : i ≤ ls.length) :
    ∃ j, i ≤ j ∧ j ≤ ls.length ∧ d = seek ls j d.nextId := by
  obtain ⟨seg, hrest, hlast⟩ := h
  obtain ⟨rest, last, id⟩ := d
  have hdrop : ls.drop i = seg ++ rest := hrest
  have hlength := congrArg List.length hdrop
  rw [List.length_drop, List.length_append] at hlength
  have hrest' : ls.drop (i + seg.length) = rest := by
    rw [← List.drop_drop, hdrop, List.drop_left]
  have htake : ls.take (i + seg.length) = ls.take i ++ seg := by
    rw [List.take_add, hdrop, List.take_left]
  have hlast' : (ls.take (i + seg.length)).getLast? = last := by
    rw [htake, List.getLast?_append]
    exact hlast.symm
  refine ⟨i + seg.length, by omega, by omega, ?_⟩
  rw [seek, hrest', hlast']

/-- Going on with fewer lexemes left, one comes to a later index. -/
theorem Onward.exists_seek_lt (h : (seek ls i nextId).Onward d) (hi : i ≤ ls.length)
    (hlt : d.size < (seek ls i nextId).size) : ∃ j, i < j ∧ j ≤ ls.length ∧ d = seek ls j d.nextId := by
  obtain ⟨j, -, hj, hd⟩ := h.exists_seek hi
  rw [hd, size_seek, size_seek] at hlt
  exact ⟨j, by omega, hj, hd⟩

/-! The search for an arrow counts the parentheses that it passes. -/

/-- The search that starts after an opening parenthesis has come to some lexemes with a number of open parentheses. -/
inductive Searched (rest : List Lexeme) : Nat → List Lexeme → Prop
  | start : Searched rest 1 rest
  | opening {depth : Nat} {l : Lexeme} {after : List Lexeme} (h : Searched rest depth (l :: after))
      (hl : l.token = .symbol .lParen) : Searched rest (depth + 1) after
  | closing {depth : Nat} {l : Lexeme} {after : List Lexeme} (h : Searched rest depth (l :: after))
      (hl : l.token = .symbol .rParen) (hdepth : ¬ depth ≤ 1) : Searched rest (depth - 1) after
  | other {depth : Nat} {l : Lexeme} {after : List Lexeme} (h : Searched rest depth (l :: after))
      (hopen : l.token ≠ .symbol .lParen) (hclose : l.token ≠ .symbol .rParen) : Searched rest depth after

/-- How often a symbol stands among lexemes. -/
def occurrences (s : Symbol) (ls : List Lexeme) : Nat :=
  ls.countP fun l => l.token = .symbol s

theorem occurrences_append (s : Symbol) (ls ls' : List Lexeme) :
    occurrences s (ls ++ ls') = occurrences s ls + occurrences s ls' :=
  List.countP_append

theorem occurrences_singleton (s : Symbol) (l : Lexeme) :
    occurrences s [l] = if l.token = .symbol s then 1 else 0 := by
  simp [occurrences, List.countP_singleton]

variable {rest after : List Lexeme} {depth : Nat}

/-- What the search has come to decides what it finds. -/
theorem Searched.arrowAfter_eq (h : Searched rest depth after) : arrowAfter 1 rest = arrowAfter depth after := by
  induction h with
  | start => rfl
  | opening _ hl ih => rw [ih, arrowAfter, hl]
  | closing _ hl hdepth ih => rw [ih, arrowAfter, hl]; simp only [if_neg hdepth]
  | other _ hopen hclose ih =>
      rw [ih, arrowAfter]
      split
      · contradiction
      · contradiction
      · rfl

theorem Searched.depth_pos (h : Searched rest depth after) : 0 < depth := by
  induction h with
  | start => exact Nat.zero_lt_one
  | opening => exact Nat.succ_pos _
  | closing _ _ hdepth => omega
  | other _ _ _ ih => exact ih

/-- The count is that of the parentheses opened, the first one among them, less that of those closed. -/
theorem Searched.depth_eq (h : Searched rest depth after) :
    ∃ seen, rest = seen ++ after ∧ depth + occurrences .rParen seen = 1 + occurrences .lParen seen := by
  induction h with
  | start => exact ⟨[], rfl, rfl⟩
  | @opening depth l after _ hl ih | @closing depth l after _ hl _ ih =>
      obtain ⟨seen, hseen, hcount⟩ := ih
      exact ⟨seen ++ [l], by simp [hseen], by grind [occurrences_append, occurrences_singleton]⟩
  | @other depth l after _ hopen hclose ih =>
      obtain ⟨seen, hseen, hcount⟩ := ih
      exact ⟨seen ++ [l], by simp [hseen], by grind [occurrences_append, occurrences_singleton]⟩

/-- The search is over, at the end or at the parenthesis that closes the first one, and this is what it has found. -/
def Decides (found : Bool) : Nat → List Lexeme → Prop
  | _, [] => found = false
  | depth, l :: after => l.token = .symbol .rParen ∧ depth = 1 ∧
      found = (after.head?.map Lexeme.token == some (.symbol .fatArrow))

theorem Searched.exists_decides (h : Searched rest depth after) :
    ∃ depth' after', Searched rest depth' after' ∧ Decides (arrowAfter 1 rest) depth' after' := by
  induction after generalizing depth with
  | nil => exact ⟨depth, [], h, h.arrowAfter_eq⟩
  | cons l after ih =>
      by_cases hopen : l.token = .symbol .lParen
      · exact ih (h.opening hopen)
      · by_cases hclose : l.token = .symbol .rParen
        · by_cases hdepth : depth ≤ 1
          · have hone := h.depth_pos
            refine ⟨depth, l :: after, h, hclose, by omega, ?_⟩
            rw [h.arrowAfter_eq, arrowAfter, hclose]
            simp only [if_pos hdepth]
          · exact ih (h.closing hclose hdepth)
        · exact ih (h.other hopen hclose)

theorem atArrow_seek {l : Lexeme} (hdrop : ls.drop i = l :: rest) (hl : l.token = .symbol .lParen) :
    (seek ls i nextId).atArrow = arrowAfter 1 rest := by
  rw [atArrow, seek]
  simp only [hdrop, hl]

end Cursor

namespace Parser

variable {input : Input} {ls : List Lexeme} {i nextId : Nat} {p q : Phrase} {c d : Cursor}

theorem error_or_ok {α : Type} {n : Nat} (x : Result α n) :
    (∃ e, x = .error e) ∨ ∃ v c h, x = .ok ⟨v, c, h⟩ := by
  cases x with
  | error e => exact .inl ⟨e, rfl⟩
  | ok parsed => exact .inr ⟨_, _, parsed.within, rfl⟩

theorem fails_or_returns (input : Input) (p : Phrase) (c : Cursor) :
    (∃ e, Fails input p c e) ∨ ∃ v c', Returns input p c v c' := by
  cases p <;> exact error_or_ok _

/-- A phrase that has been read ends at an index, and at a later one unless it may be empty. -/
theorem Returns.exists_seek {v : p.Value} (h : Returns input p (.seek ls i nextId) v d) (hi : i ≤ ls.length) :
    ∃ j, (if p.isTail then i ≤ j else i < j) ∧ j ≤ ls.length ∧ d = .seek ls j d.nextId := by
  have hreads := returns_iff.mp h
  cases hp : p.isTail with
  | true =>
      obtain ⟨j, hij, hj, hd⟩ := hreads.onward.exists_seek hi
      exact ⟨j, by simpa using hij, hj, hd⟩
  | false =>
      obtain ⟨j, hij, hj, hd⟩ := hreads.onward.exists_seek_lt hi (hreads.shrinks hp)
      exact ⟨j, by simpa using hij, hj, hd⟩

/-! Calls go down. -/

theorem asks_wellFounded (input : Input) : WellFounded fun x y : Phrase × Cursor => Asks input y.1 y.2 x.1 x.2 := by
  refine Subrelation.wf (fun {x y} h => ?_)
    (InvImage.wf (fun x : Phrase × Cursor => (x.2.size, x.1.rank)) (Prod.lex Nat.lt_wfRel Nat.lt_wfRel).wf)
  exact Prod.lex_def.mpr h.descends

/-! Loops go on. -/

/-- A reader that goes on in the loop of another one. -/
inductive SameLoop : Phrase → Phrase → Prop
  | block : SameLoop .block .block
  | declarators : SameLoop .declarators .declarators
  | list (close : Symbol) : SameLoop (.exprs close) (.exprs close)
  | object : SameLoop .properties .properties
  | template (text text' : String) : SameLoop (.templateTail text) (.templateTail text')
  | operands (level start : Nat) (e e' : Expr) : SameLoop (.binaryTail level start e) (.binaryTail level start e')
  | accesses (start : Nat) (e e' : Expr) : SameLoop (.accessTail start e) (.accessTail start e')

theorem SameLoop.rank_eq (h : SameLoop p q) : q.rank = p.rank := by
  cases h <;> rfl

/-- A loop takes another turn. -/
inductive Turns (input : Input) : Phrase → Cursor → Phrase → Cursor → Prop
  | asked {p q : Phrase} {c d : Cursor} (hloop : SameLoop p q) (h : Asks input p c q d) : Turns input p c q d
  | names {close : Symbol} {id : Ident} {c c₁ d : Cursor} (h₁ : c.TakesIdent input id c₁)
      (h₂ : c₁.Takes (.symbol .comma) d) : Turns input (.names close) c (.names close) d
  | params {v : Pattern} {c c₁ d : Cursor} (h₁ : Reads input .pattern c v c₁) (h₂ : c₁.Takes (.symbol .comma) d) :
      Turns input .params c .params d

theorem Turns.onward (h : Turns input p c q d) : c.Onward d := by
  cases h with
  | asked _ h => exact h.onward
  | names h₁ h₂ => exact h₁.onward.trans h₂.onward
  | params h₁ h₂ => exact h₁.onward.trans h₂.onward

theorem Turns.size_lt (h : Turns input p c q d) : d.size < c.size := by
  cases h with
  | asked hloop h =>
      rcases h.descends with hlt | ⟨-, hrank⟩
      · exact hlt
      · rw [hloop.rank_eq] at hrank
        exact absurd hrank (Nat.lt_irrefl _)
  | names h₁ h₂ => exact Cursor.size_trans h₂.size_lt h₁.size_lt
  | params h₁ h₂ => exact Cursor.size_trans h₂.size_lt (h₁.shrinks rfl)

/-- The loop of the statements of a script takes a number of turns. -/
inductive Rounds (input : Input) : Nat → Cursor → Cursor → Prop
  | none (c : Cursor) : Rounds input 0 c c
  | more {n : Nat} {s : Option Stmt} {c c₁ d : Cursor} (hrest : c.rest ≠ []) (hs : Returns input .statement c s c₁)
      (h : Rounds input n c₁ d) : Rounds input (n + 1) c d

theorem Rounds.exists_seek {n : Nat} (h : Rounds input n c d) :
    ∀ {i nextId}, c = .seek ls i nextId → i ≤ ls.length → ∃ j, i + n ≤ j ∧ j ≤ ls.length ∧ d = .seek ls j d.nextId := by
  induction h with
  | none c =>
      rintro i nextId rfl hi
      exact ⟨i, by omega, hi, rfl⟩
  | more _ hs _ ih =>
      rintro i nextId rfl hi
      obtain ⟨k, hik, hk, hc₁⟩ := hs.exists_seek hi
      obtain ⟨j, hkj, hj, hd⟩ := ih hc₁ hk
      have hik : i < k := hik
      exact ⟨j, by omega, hj, hd⟩

/-- How the statements of a script end: at the end, or with the error of a statement. -/
def Ends (input : Input) (c d : Cursor) : Prop :=
  (d.rest = [] ∧ ∃ ss, statements input c = .ok ss) ∨
    (d.rest ≠ [] ∧ ∃ e, Fails input .statement d e ∧ statements input c = .error e)

theorem Ends.after {c₁ : Cursor} {s : Option Stmt} (hs : Returns input .statement c s c₁) (h : Ends input c₁ d) :
    Ends input c d := by
  obtain ⟨hlt, hparsed⟩ := hs
  rcases h with ⟨hrest, ss, hss⟩ | ⟨hrest, e, hfails, herror⟩
  · exact .inl ⟨hrest, _, statements_cons (returns_iff.mp ⟨hlt, hparsed⟩) hss⟩
  · refine .inr ⟨hrest, e, hfails, ?_⟩
    rw [statements, Cursor.isEmpty_of_size_lt hlt, hparsed]
    simp only [Bool.false_eq_true, if_false, ok_bind, herror]
    rfl

theorem exists_rounds (input : Input) (c : Cursor) : ∃ n d, Rounds input n c d ∧ Ends input c d := by
  by_cases hrest : c.rest = []
  · exact ⟨0, c, .none c, .inl ⟨hrest, [], statements_nil hrest⟩⟩
  · rcases fails_or_returns input .statement c with ⟨e, he⟩ | ⟨s, c₁, hs⟩
    · refine ⟨0, c, .none c, .inr ⟨hrest, e, he, ?_⟩⟩
      have he' : statement input c = .error e := he
      rw [statements, if_neg (by simpa using hrest), he']
      rfl
    · have hlt : c₁.size < c.size := (returns_iff.mp hs).shrinks rfl
      obtain ⟨n, d, hrounds, hends⟩ := exists_rounds input c₁
      exact ⟨n + 1, d, .more hrest hs hrounds, hends.after hs⟩
termination_by c.size

/-! A template is never read at the first index. -/

theorem size_lt_of_asks_templateTail {text : String} (h : Asks input p c (.templateTail text) d) :
    d.size < c.size := by
  cases h with
  | templateTail h₁ | afterText h₁ => exact h₁.size_lt
  | afterInterpolation h₁ h₂ h₃ => exact Cursor.size_trans h₃.size_lt (Cursor.size_trans (h₂.shrinks rfl) h₁.size_lt)

theorem Reaches.exists_before {text : String} (h : Reaches input (p, .seek ls i nextId) (.templateTail text, d))
    (hp : ∀ text', p ≠ .templateTail text') (hi : i ≤ ls.length) :
    ∃ k, i ≤ k ∧ k < ls.length ∧ d = .seek ls (k + 1) d.nextId := by
  rcases Relation.ReflTransGen.cases_tail h with heq | ⟨⟨q, c⟩, hreaches, hasks⟩
  · exact absurd (congrArg Prod.fst heq).symm (hp text)
  · obtain ⟨k, hik, hk, hc⟩ := (Reaches.onward hreaches).exists_seek hi
    have hc : c = .seek ls k c.nextId := hc
    rw [hc] at hasks
    obtain ⟨j, hkj, hj, hd⟩ := (Asks.onward hasks).exists_seek_lt hk (size_lt_of_asks_templateTail hasks)
    obtain ⟨m, rfl⟩ : ∃ m, j = m + 1 := ⟨j - 1, by omega⟩
    exact ⟨m, by omega, hj, hd⟩

/-- At the end of the lexemes the error of a template is at the lexeme before. -/
theorem templateTail_fails_at_end {text : String} (h : d.rest = []) :
    Fails input (.templateTail text) d (Cursor.unexpectedAt input d.last "the end of the template literal") := by
  change templateTail input text d = _
  rw [templateTail, Cursor.read_eq_none_iff.mpr h]

/-- The parser makes progress among the given lexemes. -/
structure Progress (input : Input) (ls : List Lexeme) : Prop where
  /-- A reader fails, or it returns at a later index. Only what may follow an operand can be empty. -/
  returns : ∀ p i nextId, i ≤ ls.length → (∃ e, Fails input p (.seek ls i nextId) e) ∨
    ∃ v j nextId', Returns input p (.seek ls i nextId) v (.seek ls j nextId') ∧
      (if p.isTail then i ≤ j else i < j) ∧ j ≤ ls.length
  /-- A loop goes on to a later index between its turns. -/
  turns : ∀ p i nextId q d, i ≤ ls.length → Turns input p (.seek ls i nextId) q d →
    ∃ j, i < j ∧ j ≤ ls.length ∧ d = .seek ls j d.nextId
  /-- A call is made at a later index, or at the same one by a reader of higher rank. -/
  calls : ∀ p i nextId q d, i ≤ ls.length → Asks input p (.seek ls i nextId) q d →
    ∃ j, (i < j ∨ i = j ∧ q.rank < p.rank) ∧ j ≤ ls.length ∧ d = .seek ls j d.nextId
  /-- There is no endless descent of calls. -/
  wellFounded : WellFounded fun x y : Phrase × Cursor => Asks input y.1 y.2 x.1 x.2
  /-- The statements of a script end after at most as many turns as lexemes are left. -/
  ends : ∀ i nextId, i ≤ ls.length → ∃ n d, Rounds input n (.seek ls i nextId) d ∧ n ≤ ls.length - i ∧
    Ends input (.seek ls i nextId) d
  /-- A template is read after a lexeme, the one to step back to at the end. -/
  stepsBack : ∀ p i nextId text d, i ≤ ls.length → (∀ text', p ≠ .templateTail text') →
    Reaches input (p, .seek ls i nextId) (.templateTail text, d) →
    ∃ k l, d = .seek ls (k + 1) d.nextId ∧ ls[k]? = some l ∧ (d.rest = [] →
      Fails input (.templateTail text) d (Cursor.unexpectedAt input (some l) "the end of the template literal"))
  /-- The search for an arrow has an open parenthesis all the while: it counts those opened less those closed. -/
  depth : ∀ i l rest depth after, ls.drop i = l :: rest → l.token = .symbol .lParen →
    Cursor.Searched rest depth after → 0 < depth ∧ ∃ seen, ls.drop i = seen ++ after ∧
      depth + Cursor.occurrences .rParen seen = Cursor.occurrences .lParen seen
  /-- The search for an arrow ends, and it ends with an answer. -/
  search : ∀ i nextId l rest, ls.drop i = l :: rest → l.token = .symbol .lParen →
    ∃ depth after, Cursor.Searched rest depth after ∧ Cursor.Decides (Cursor.seek ls i nextId).atArrow depth after

/-- The parser makes progress among any lexemes, also among those that no text has. -/
theorem progress (input : Input) (ls : List Lexeme) : Progress input ls where
  returns p i nextId hi := by
    rcases fails_or_returns input p (.seek ls i nextId) with hfails | ⟨v, d, hreturns⟩
    · exact .inl hfails
    · obtain ⟨j, hij, hj, hd⟩ := hreturns.exists_seek hi
      exact .inr ⟨v, j, d.nextId, hd ▸ hreturns, hij, hj⟩
  turns _ _ _ _ _ hi h := h.onward.exists_seek_lt hi h.size_lt
  calls p i nextId q d hi h := by
    obtain ⟨j, hij, hj, hd⟩ := h.onward.exists_seek hi
    have hdescends := h.descends
    rw [hd, Cursor.size_seek, Cursor.size_seek] at hdescends
    exact ⟨j, by omega, hj, hd⟩
  wellFounded := asks_wellFounded input
  ends i nextId hi := by
    obtain ⟨n, d, hrounds, hends⟩ := exists_rounds input (.seek ls i nextId)
    obtain ⟨j, hij, hj, -⟩ := hrounds.exists_seek rfl hi
    exact ⟨n, d, hrounds, by omega, hends⟩
  stepsBack p i nextId text d hi hp h := by
    obtain ⟨k, -, hk, hd⟩ := h.exists_before hp hi
    have hlast : d.last = ls[k]? := by
      rw [hd]
      exact Cursor.last_seek hk
    rw [List.getElem?_eq_getElem hk] at hlast
    refine ⟨k, ls[k], hd, List.getElem?_eq_getElem hk, fun hrest => ?_⟩
    rw [← hlast]
    exact templateTail_fails_at_end hrest
  depth i l rest depth after hdrop hl h := by
    obtain ⟨seen, rfl, hcount⟩ := h.depth_eq
    refine ⟨h.depth_pos, [l] ++ seen, hdrop, ?_⟩
    grind [Cursor.occurrences_append, Cursor.occurrences_singleton]
  search i nextId l rest hdrop hl := by
    rw [Cursor.atArrow_seek hdrop hl]
    exact Cursor.Searched.start.exists_decides

end Parser

end ScriptTypes
