import ScriptTypes.Proofs.Script.Outline
import ScriptTypes.Proofs.Script.Reparsed
import ScriptTypes.Proofs.Source.Span
import ScriptTypes.Proofs.Token.Lossless

/-! The spans in the tree of a script nest as its parts do. A part covers some of the text, its own parts lie inside of
it, and parts next to each other are apart and in the order of the text. -/

namespace ScriptTypes

namespace Position

/-- A position in the text of a file, of which it covers some unless the text is too long for its offsets. -/
def Proper (file length : Nat) (p : Position) : Prop :=
  ∃ s, p = some s ∧ s.file = file ∧ s.start ≤ s.stop ∧ s.stop ≤ length ∧ (length < 2 ^ 32 → s.start < s.stop)

def Inside (p q : Position) : Prop :=
  ∃ s t, p = some s ∧ q = some t ∧ s.file = t.file ∧ t.start ≤ s.start ∧ s.stop ≤ t.stop

/-- A position that ends before another one starts. -/
def Before (p q : Position) : Prop :=
  ∃ s t, p = some s ∧ q = some t ∧ s.file = t.file ∧ s.stop ≤ t.start

end Position

namespace Outline

def pos (o : Outline) : Position :=
  o.mark.pos

/-- A part has its place in the text, and its own parts stand one after the other in that text. -/
structure Nests (file length : Nat) (o : Outline) : Prop where
  proper : o.pos.Proper file length
  inside : ∀ p ∈ o.parts, p.pos.Inside o.pos
  apart : o.parts.Pairwise fun p q => p.pos.Before q.pos

/-- Parts that stand one after the other between two offsets, and nest. -/
structure Between (file length lo hi : Nat) (os : List Outline) : Prop where
  within : ∀ o ∈ os, ∃ s, o.pos = some s ∧ s.file = file ∧ lo ≤ s.start ∧ s.stop ≤ hi
  apart : os.Pairwise fun o o' => o.pos.Before o'.pos
  nests : ∀ o ∈ postorders os, o.Nests file length

namespace Between

variable {file length lo mid mid' hi : Nat} {os os' : List Outline}

theorem nil : Between file length lo hi [] :=
  ⟨nofun, .nil, nofun⟩

theorem append (h : Between file length lo mid os) (h' : Between file length mid' hi os') (hmid : mid ≤ mid')
    (hlo : lo ≤ mid') (hhi : mid ≤ hi) : Between file length lo hi (os ++ os') where
  within := by
    refine List.forall_mem_append.mpr ⟨fun o ho => ?_, fun o ho => ?_⟩
    · obtain ⟨s, hpos, hfile, hstart, hstop⟩ := h.within o ho
      exact ⟨s, hpos, hfile, hstart, Nat.le_trans hstop hhi⟩
    · obtain ⟨s, hpos, hfile, hstart, hstop⟩ := h'.within o ho
      exact ⟨s, hpos, hfile, Nat.le_trans hlo hstart, hstop⟩
  apart := by
    refine List.pairwise_append.mpr ⟨h.apart, h'.apart, fun o ho o' ho' => ?_⟩
    obtain ⟨s, hpos, hfile, -, hstop⟩ := h.within o ho
    obtain ⟨t, hpos', hfile', hstart', -⟩ := h'.within o' ho'
    exact ⟨s, t, hpos, hpos', hfile.trans hfile'.symm, Nat.le_trans hstop (Nat.le_trans hmid hstart')⟩
  nests := by
    rw [postorders_append]
    exact List.forall_mem_append.mpr ⟨h.nests, h'.nests⟩

/-- The part that is made of all of them. -/
theorem whole (h : Between file length lo hi os) {mark : Mark} (hmark : mark.pos = some ⟨file, lo, hi⟩)
    (hproper : mark.pos.Proper file length) : Between file length lo hi [.mk mark os] where
  within := List.forall_mem_singleton.mpr ⟨_, hmark, rfl, Nat.le_refl lo, Nat.le_refl hi⟩
  apart := List.pairwise_singleton _ _
  nests := by
    rw [postorders_singleton]
    refine List.forall_mem_append.mpr ⟨h.nests, List.forall_mem_singleton.mpr ⟨?_, fun p hp => ?_, h.apart⟩⟩
    · exact hproper
    · obtain ⟨s, hpos, hfile, hstart, hstop⟩ := h.within p hp
      exact ⟨s, _, hpos, hmark, hfile, hstart, hstop⟩

end Between

end Outline

/-! Cursors in the lexemes of a text. -/

/-- The lexemes that are left cover some text each, one after the other and all after what has been passed. -/
structure Cursor.Ordered (input : Input) (c : Cursor) : Prop where
  proper : ∀ l ∈ c.rest, l.start < l.stop ∧ l.stop ≤ input.length
  apart : c.rest.Pairwise fun l l' => l.stop ≤ l'.start
  passed : ∀ l ∈ c.rest, c.stop ≤ l.start
  reached : c.stop ≤ input.length

namespace Cursor.Ordered

variable {input : Input} {c c' : Cursor}

theorem start_le (h : c.Ordered input) {l : Lexeme} (hl : l ∈ c.rest) : c.start input ≤ l.start := by
  obtain ⟨rest, last, nextId⟩ := c
  cases rest with
  | nil => cases hl
  | cons first rest =>
      rcases List.mem_cons.mp hl with rfl | hl
      · exact Nat.le_refl _
      · calc first.start
          _ ≤ first.stop := Nat.le_of_lt (h.proper first List.mem_cons_self).1
          _ ≤ l.start := (List.pairwise_cons.mp h.apart).1 l hl

theorem stop_le_start (h : c.Ordered input) : c.stop ≤ c.start input := by
  obtain ⟨rest, last, nextId⟩ := c
  cases rest with
  | nil => exact h.reached
  | cons first rest => exact h.passed first List.mem_cons_self

theorem onward (h : c.Ordered input) (ho : c.Onward c') : c'.Ordered input := by
  obtain ⟨seg, hrest, hlast⟩ := ho
  have hproper : ∀ l ∈ c'.rest, l.start < l.stop ∧ l.stop ≤ input.length :=
    fun l hl => h.proper l (hrest ▸ List.mem_append_right seg hl)
  have hapart := h.apart
  rw [hrest, List.pairwise_append] at hapart
  obtain ⟨-, hrestApart, hafter⟩ := hapart
  cases hseg : seg.getLast? with
  | none =>
      obtain rfl := List.getLast?_eq_none_iff.mp hseg
      have hstop : c'.stop = c.stop := by rw [stop, stop, hlast]; rfl
      refine ⟨hproper, hrestApart, fun l hl => ?_, hstop ▸ h.reached⟩
      rw [hstop]
      exact h.passed l (hrest ▸ hl)
  | some last =>
      have hmem := List.mem_of_mem_getLast? hseg
      have hstop : c'.stop = last.stop := by rw [stop, hlast, hseg]; rfl
      refine ⟨hproper, hrestApart, fun l hl => ?_, ?_⟩
      · rw [hstop]
        exact hafter last hmem l hl
      · rw [hstop]
        exact (h.proper last (hrest ▸ List.mem_append_left _ hmem)).2

/-- What has been read since a cursor covers some text after all that had been passed there. -/
theorem span_of_onward (h : c.Ordered input) (ho : c.Onward c') (hlt : c'.size < c.size) :
    c.start input < c'.stop ∧ c.stop < c'.stop := by
  obtain ⟨seg, last, hrest, hseg, hlast⟩ := ho.exists_last hlt
  have hmem : last ∈ c.rest := hrest ▸ List.mem_append_left _ (List.mem_of_mem_getLast? hseg)
  have hstop : c'.stop = last.stop := by rw [stop, hlast]
  rw [hstop]
  have hproper := (h.proper last hmem).1
  exact ⟨Nat.lt_of_le_of_lt (h.start_le hmem) hproper, Nat.lt_of_le_of_lt (h.passed last hmem) hproper⟩

theorem offsets_le (h : c.Ordered input) (ho : c.Onward c') :
    c.start input ≤ c'.start input ∧ c.stop ≤ c'.stop := by
  rcases Nat.lt_or_ge c'.size c.size with hlt | hge
  · obtain ⟨hstart, hstop⟩ := h.span_of_onward ho hlt
    exact ⟨Nat.le_trans (Nat.le_of_lt hstart) (h.onward ho).stop_le_start, Nat.le_of_lt hstop⟩
  · obtain ⟨seg, hrest, hlast⟩ := ho
    have hseg : seg = [] := by
      rw [size, size, hrest, List.length_append] at hge
      exact List.eq_nil_of_length_eq_zero (by omega)
    subst hseg
    rw [start, start, stop, stop, hrest, hlast]
    exact ⟨Nat.le_refl _, Nat.le_refl _⟩

end Cursor.Ordered

/-- What has been read since a cursor has a place of its own in the text. -/
theorem Cursor.Ordered.proper_spanFrom {input : Input} {c c' : Cursor} (h : c.Ordered input) (ho : c.Onward c')
    (hlt : c'.size < c.size) : (c'.spanFrom input (c.start input)).Proper input.file input.length := by
  have hspan := (h.span_of_onward ho hlt).1
  have hstop := (h.onward ho).reached
  refine ⟨_, rfl, rfl, Span.offset_mono (Nat.le_of_lt hspan), Nat.le_trans (Span.offset_le _) hstop, fun hsize => ?_⟩
  rw [Span.ofRange_eq input.file (by omega) (by omega)]
  exact hspan

/-- Outlines that are laid over the lexemes of a text nest in that text. -/
theorem Lays.between {input : Input} {c : Cursor} {os : List Outline} {c' : Cursor} (h : Lays input c os c')
    (hc : c.Ordered input) :
    Outline.Between input.file input.length (Span.offset (c.start input)) (Span.offset c'.stop) os := by
  induction h with
  | stay => exact .nil
  | pass => exact .nil
  | append h h' ih ih' =>
      have hmid := hc.onward h.onward
      exact (ih hc).append (ih' hmid) (Span.offset_mono hmid.stop_le_start)
        (Span.offset_mono (hc.offsets_le h.onward).1) (Span.offset_mono (hmid.offsets_le h'.onward).2)
  | node h hlt ih => exact (ih hc).whole rfl (hc.proper_spanFrom h.onward hlt)
  | place h hlt ih => exact (ih hc).whole rfl (hc.proper_spanFrom h.onward hlt)

/-- The lexemes of a text stand one after the other in it. -/
theorem lex_ordered (file : Nat) (source : String) :
    Cursor.Ordered ⟨file, source.utf8ByteSize⟩ ⟨(lex source).lexemes, none, 0⟩ where
  proper l hl := by
    obtain ⟨before, after, hsplit⟩ := List.append_of_mem hl
    have hstands := lex_stands hsplit
    obtain ⟨slice, rest, hbetween, -⟩ := hstands.spelled
    exact ⟨hstands.nonempty, Text.byteLength_toList source ▸ hbetween.le.2⟩
  apart := (lex_covers source).ordered.1
  passed _ _ := Nat.zero_le _
  reached := Nat.zero_le _

/-- The spans of a script that was parsed nest as its parts do, and its statements stand one after the other. -/
theorem Script.parse_nested {file : Nat} {source : String} {s : Script} (h : Script.parse file source = .ok s) :
    (s.outlines.Pairwise fun o o' => o.pos.Before o'.pos) ∧
      ∀ o ∈ Outline.postorders s.outlines, o.Nests file source.utf8ByteSize := by
  obtain ⟨c', hlaid⟩ := Script.parse_laid h
  have hbetween := hlaid.between (lex_ordered file source)
  exact ⟨hbetween.apart, hbetween.nests⟩

/-- The parentheses around the object belong to the member access, and the arrow function covers all. -/
theorem Script.parse_nested_keywordMember :
    Script.parse 0 "x=>(\x7bif:x\x7d).if" = .ok keywordMember ∧
      (Outline.postorders keywordMember.outlines).map Outline.pos =
        [some ⟨0, 0, 1⟩, some ⟨0, 5, 7⟩, some ⟨0, 8, 9⟩, some ⟨0, 8, 9⟩, some ⟨0, 5, 9⟩, some ⟨0, 4, 10⟩,
          some ⟨0, 12, 14⟩, some ⟨0, 3, 14⟩, some ⟨0, 0, 14⟩, some ⟨0, 0, 14⟩] ∧
      ∀ o ∈ Outline.postorders keywordMember.outlines, o.Nests 0 14 :=
  ⟨parse_keywordMember, by decide, (parse_nested parse_keywordMember).2⟩

end ScriptTypes
