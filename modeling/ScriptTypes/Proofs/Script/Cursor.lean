import ScriptTypes.Script.Cursor

/-! Steps of a cursor as relations. Each way to read one lexeme is a relation between the cursor before and the cursor
after it, which says when the reading function succeeds and what it leaves. -/

namespace ScriptTypes

namespace Cursor

variable {input : Input} {c c₁ : Cursor}

/-- One lexeme is passed. -/
structure Passes (c : Cursor) (l : Lexeme) (c₁ : Cursor) : Prop where
  rest : c.rest = l :: c₁.rest
  last : c₁.last = some l
  nextId : c₁.nextId = c.nextId

/-- A lexeme with the given token is passed. -/
def Takes (c : Cursor) (t : Token) (c₁ : Cursor) : Prop :=
  ∃ l, c.Passes l c₁ ∧ l.token = t

/-- A lexeme that is a name is passed. -/
def TakesIdent (input : Input) (c : Cursor) (id : Ident) (c₁ : Cursor) : Prop :=
  ∃ l, c.Passes l c₁ ∧ l.token = .ident id.label ∧ id.pos = span input l.start l.stop

/-- A lexeme that can be a label is passed: a name or a keyword. -/
def TakesLabel (input : Input) (c : Cursor) (id : Ident) (c₁ : Cursor) : Prop :=
  ∃ l, c.Passes l c₁ ∧ (l.token = .ident id.label ∨ ∃ k, l.token = .keyword k ∧ id.label = k.text) ∧
    id.pos = span input l.start l.stop

/-- The node that is built here for what has been read from an offset on. -/
def node (input : Input) (start : Nat) (c : Cursor) : Node :=
  ⟨c.nextId, c.spanFrom input start⟩

/-- The cursor after a node has been numbered. -/
def tick (c : Cursor) : Cursor :=
  { c with nextId := c.nextId + 1 }

@[simp] theorem size_tick (c : Cursor) : c.tick.size = c.size := rfl

/-- The cursor after a symbol that may be missing. -/
def past (c : Cursor) (s : Symbol) : Cursor :=
  match c.eat s with
  | some p => p.next
  | none => c

theorem Passes.peek {l : Lexeme} (h : c.Passes l c₁) : c.peek = some l.token := by
  simp [Cursor.peek, h.rest]

theorem Passes.start {l : Lexeme} (h : c.Passes l c₁) : c.start input = l.start := by
  simp [Cursor.start, h.rest]

theorem Takes.peek {t : Token} (h : c.Takes t c₁) : c.peek = some t := by
  obtain ⟨l, hl, rfl⟩ := h
  exact hl.peek

theorem Passes.rest_ne_nil {l : Lexeme} (h : c.Passes l c₁) : c.rest ≠ [] := by
  simp [h.rest]

theorem Takes.rest_ne_nil {t : Token} (h : c.Takes t c₁) : c.rest ≠ [] := by
  obtain ⟨l, hl, -⟩ := h
  exact hl.rest_ne_nil

theorem takes_of_peek {t : Token} (h : c.peek = some t) : ∃ c₁, c.Takes t c₁ := by
  obtain ⟨rest, last, nextId⟩ := c
  cases rest with
  | nil => cases h
  | cons l rest => exact ⟨⟨rest, some l, nextId⟩, l, ⟨rfl, rfl, rfl⟩, Option.some.inj h⟩

theorem Passes.of_read {l : Lexeme} {h : c₁.size < c.size} (hr : c.read = some ⟨l, c₁, h⟩) : c.Passes l c₁ := by
  unfold Cursor.read at hr
  split at hr
  · cases hr
  · rename_i hrest
    cases hr
    exact ⟨hrest, rfl, rfl⟩

theorem Passes.size_lt {l : Lexeme} (h : c.Passes l c₁) : c₁.size < c.size := by
  simp [size, h.rest]

theorem Passes.read {l : Lexeme} (h : c.Passes l c₁) : c.read = some ⟨l, c₁, h.size_lt⟩ := by
  obtain ⟨hrest, hlast, hid⟩ := h
  cases c
  cases c₁
  cases hrest
  cases hlast
  cases hid
  rfl

theorem read_eq_none_iff : c.read = none ↔ c.rest = [] := by
  unfold Cursor.read
  split <;> simp_all

theorem isEmpty_of_size_lt (h : c₁.size < c.size) : c.rest.isEmpty = false := by
  cases hc : c.rest with
  | nil => simp [size, hc] at h
  | cons l rest => rfl

theorem Takes.size_lt {t : Token} (h : c.Takes t c₁) : c₁.size < c.size := by
  obtain ⟨l, hl, -⟩ := h
  exact hl.size_lt

theorem Takes.of_eat {s : Symbol} {u : Unit} {h : c₁.size < c.size} (he : c.eat s = some ⟨u, c₁, h⟩) :
    c.Takes (.symbol s) c₁ := by
  unfold eat at he
  split at he
  · rename_i l next hnext hr
    split at he
    · rename_i ht
      cases he
      exact ⟨l, .of_read hr, ht⟩
    · cases he
  · cases he

theorem Takes.isAt_ne {t : Token} {s : Symbol} (h : c.Takes t c₁) (hs : t ≠ .symbol s) : c.isAt s = false := by
  simp [isAt, h.peek, hs]

theorem Takes.eat {s : Symbol} (h : c.Takes (.symbol s) c₁) : c.eat s = some ⟨(), c₁, h.size_lt⟩ := by
  obtain ⟨l, hl, ht⟩ := h
  simp [Cursor.eat, hl.read, ht]

theorem eat_eq_none_iff {s : Symbol} : c.eat s = none ↔ c.isAt s = false := by
  unfold Cursor.eat
  split
  · rename_i l next hnext hr
    have hp := Passes.of_read hr
    simp [isAt, hp.peek]
  · rename_i hr
    simp [isAt, Cursor.peek, read_eq_none_iff.mp hr]

theorem Takes.of_expect {s : Symbol} {u : Unit} {h : c₁.size < c.size} (he : c.expect input s = .ok ⟨u, c₁, h⟩) :
    c.Takes (.symbol s) c₁ := by
  unfold expect at he
  split at he
  · rename_i p hp
    cases he
    exact .of_eat hp
  · cases he

theorem Takes.expect {s : Symbol} (h : c.Takes (.symbol s) c₁) : c.expect input s = .ok ⟨(), c₁, h.size_lt⟩ := by
  simp [Cursor.expect, h.eat]

theorem Takes.of_eatKeyword {k : Keyword} {u : Unit} {h : c₁.size < c.size} (he : c.eatKeyword k = some ⟨u, c₁, h⟩) :
    c.Takes (.keyword k) c₁ := by
  unfold eatKeyword at he
  split at he
  · rename_i l next hnext hr
    split at he
    · rename_i ht
      cases he
      exact ⟨l, .of_read hr, ht⟩
    · cases he
  · cases he

theorem Takes.eatKeyword {k : Keyword} (h : c.Takes (.keyword k) c₁) : c.eatKeyword k = some ⟨(), c₁, h.size_lt⟩ := by
  obtain ⟨l, hl, ht⟩ := h
  simp [Cursor.eatKeyword, hl.read, ht]

theorem eatKeyword_eq_none_iff {k : Keyword} : c.eatKeyword k = none ↔ c.peek ≠ some (.keyword k) := by
  unfold Cursor.eatKeyword
  split
  · rename_i l next hnext hr
    have hp := Passes.of_read hr
    simp [hp.peek]
  · rename_i hr
    simp [Cursor.peek, read_eq_none_iff.mp hr]

theorem TakesIdent.size_lt {id : Ident} (h : c.TakesIdent input id c₁) : c₁.size < c.size := by
  obtain ⟨l, hl, -⟩ := h
  exact hl.size_lt

theorem TakesIdent.isAt {id : Ident} {s : Symbol} (h : c.TakesIdent input id c₁) : c.isAt s = false := by
  obtain ⟨l, hl, ht, -⟩ := h
  simp [Cursor.isAt, hl.peek, ht]

theorem TakesIdent.of_ident {id : Ident} {expected : String} {h : c₁.size < c.size}
    (he : c.ident input expected = .ok ⟨id, c₁, h⟩) : c.TakesIdent input id c₁ := by
  unfold ident at he
  split at he
  · rename_i l next hnext hr
    split at he
    · rename_i name ht
      cases he
      exact ⟨l, .of_read hr, ht, rfl⟩
    · cases he
  · cases he

theorem TakesIdent.ident {id : Ident} {expected : String} (h : c.TakesIdent input id c₁) :
    c.ident input expected = .ok ⟨id, c₁, h.size_lt⟩ := by
  obtain ⟨l, hl, ht, hpos⟩ := h
  simp [Cursor.ident, hl.read, ht, ← hpos]

theorem TakesLabel.size_lt {id : Ident} (h : c.TakesLabel input id c₁) : c₁.size < c.size := by
  obtain ⟨l, hl, -⟩ := h
  exact hl.size_lt

theorem TakesLabel.isAt {id : Ident} {s : Symbol} (h : c.TakesLabel input id c₁) : c.isAt s = false := by
  obtain ⟨l, hl, ht, -⟩ := h
  rcases ht with ht | ⟨k, ht, -⟩ <;> simp [Cursor.isAt, hl.peek, ht]

theorem TakesLabel.of_propertyName {id : Ident} {h : c₁.size < c.size} (he : c.propertyName input = .ok ⟨id, c₁, h⟩) :
    c.TakesLabel input id c₁ := by
  unfold propertyName at he
  split at he
  · rename_i l next hnext hr
    split at he
    · rename_i name ht
      cases he
      exact ⟨l, .of_read hr, .inl ht, rfl⟩
    · rename_i k ht
      cases he
      exact ⟨l, .of_read hr, .inr ⟨k, ht, rfl⟩, rfl⟩
    · cases he
  · cases he

theorem TakesLabel.propertyName {id : Ident} (h : c.TakesLabel input id c₁) :
    c.propertyName input = .ok ⟨id, c₁, h.size_lt⟩ := by
  obtain ⟨l, hl, ht, hpos⟩ := h
  rcases ht with ht | ⟨k, ht, hlabel⟩
  · simp [Cursor.propertyName, hl.read, ht, ← hpos]
  · simp [Cursor.propertyName, hl.read, ht, ← hpos, ← hlabel]

theorem skip_next {n : Nat} (c : Cursor) (s : Symbol) (h : c.size < n) : (c.skip s h).next = c.past s := by
  unfold skip past
  split <;> simp [*]

/-! Cursors further on. -/

variable {c₂ : Cursor}

/-- A cursor further on, behind the last of the lexemes between the two. -/
def Onward (c c' : Cursor) : Prop :=
  ∃ seg, c.rest = seg ++ c'.rest ∧ c'.last = seg.getLast?.or c.last

theorem Onward.refl (c : Cursor) : c.Onward c := ⟨[], rfl, rfl⟩

theorem Onward.trans (h : c.Onward c₁) (h' : c₁.Onward c₂) : c.Onward c₂ := by
  obtain ⟨seg, hrest, hlast⟩ := h
  obtain ⟨seg', hrest', hlast'⟩ := h'
  refine ⟨seg ++ seg', by rw [hrest, hrest', List.append_assoc], ?_⟩
  rw [hlast', hlast, List.getLast?_append]
  cases seg'.getLast? <;> rfl

theorem Onward.suffix (h : c.Onward c₁) : c₁.rest <:+ c.rest := by
  obtain ⟨seg, hrest, -⟩ := h
  exact ⟨seg, hrest.symm⟩

/-- Going on past some lexeme, to a last one. -/
theorem Onward.exists_last (h : c.Onward c₁) (hlt : c₁.size < c.size) :
    ∃ seg l, c.rest = seg ++ c₁.rest ∧ seg.getLast? = some l ∧ c₁.last = some l := by
  obtain ⟨seg, hrest, hlast⟩ := h
  cases hseg : seg.getLast? with
  | none =>
      rw [size, size, hrest, List.getLast?_eq_none_iff.mp hseg, List.nil_append] at hlt
      exact absurd hlt (Nat.lt_irrefl _)
  | some l =>
      rw [hseg, Option.some_or] at hlast
      exact ⟨seg, l, hrest, hseg, hlast⟩

theorem Passes.onward {l : Lexeme} (h : c.Passes l c₁) : c.Onward c₁ :=
  ⟨[l], h.rest, h.last⟩

theorem Takes.onward {t : Token} (h : c.Takes t c₁) : c.Onward c₁ := by
  obtain ⟨l, hl, -⟩ := h
  exact hl.onward

theorem TakesIdent.onward {id : Ident} (h : c.TakesIdent input id c₁) : c.Onward c₁ := by
  obtain ⟨l, hl, -⟩ := h
  exact hl.onward

theorem TakesLabel.onward {id : Ident} (h : c.TakesLabel input id c₁) : c.Onward c₁ := by
  obtain ⟨l, hl, -⟩ := h
  exact hl.onward

theorem onward_past (c : Cursor) (s : Symbol) : c.Onward (c.past s) := by
  unfold past
  split
  · rename_i p hp
    exact (Takes.of_eat hp).onward
  · exact .refl c

theorem onward_tick (c : Cursor) : c.Onward c.tick := .refl c

end Cursor

end ScriptTypes
