import ScriptTypes.Program
import ScriptTypes.Proofs.Script.Inside
import ScriptTypes.Proofs.Typing.BackReferences

/-! Labels point inside of files. A label of a diagnostic is at a place that the error tells of, which lies in the text
of the script, or it covers a snippet that holds a type from nowhere. -/

namespace ScriptTypes

/-! What explaining gives. -/

namespace TypeError.Explain

variable {α β : Type} {files : Files}

/-- What a computation gives, and the files that it leaves, whatever names have been used before. -/
def Gives (x : Explain α) (files : Files) (Q : α → Files → Prop) : Prop :=
  ∀ names : Names, ∃ a names' files', (x.run names).run files = ((a, names'), files') ∧ Q a files'

theorem Gives.pure {a : α} {Q : α → Files → Prop} (h : Q a files) : Gives (pure a) files Q :=
  fun names => ⟨a, names, files, rfl, h⟩

theorem Gives.bind {x : Explain α} {k : α → Explain β} {R : α → Files → Prop} {Q : β → Files → Prop}
    (hx : Gives x files R) (hk : ∀ a files', R a files' → Gives (k a) files' Q) : Gives (x >>= k) files Q := by
  intro names
  obtain ⟨a, names', files', hx, hR⟩ := hx names
  obtain ⟨b, names'', files'', hk, hQ⟩ := hk a files' hR names'
  refine ⟨b, names'', files'', ?_, hQ⟩
  rw [StateT.run_bind, StateT.run_bind, hx]
  exact hk

/-- A computation that leaves the files alone, with what holds of its result. -/
def Shows (x : Explain α) (P : α → Prop) : Prop :=
  ∀ files, Gives x files fun a files' => files' = files ∧ P a

theorem Shows.pure {a : α} {P : α → Prop} (h : P a) : Shows (pure a) P := fun _ => .pure ⟨rfl, h⟩

theorem Shows.gives_bind {x : Explain α} {k : α → Explain β} {R : α → Prop} {Q : β → Files → Prop} (hx : Shows x R)
    (hk : ∀ a, R a → Gives (k a) files Q) : Gives (x >>= k) files Q := by
  refine (hx files).bind ?_
  rintro a _ ⟨rfl, ha⟩
  exact hk a ha

theorem Shows.bind {x : Explain α} {k : α → Explain β} {R : α → Prop} {P : β → Prop} (hx : Shows x R)
    (hk : ∀ a, R a → Shows (k a) P) : Shows (x >>= k) P :=
  fun files => hx.gives_bind fun a ha => hk a ha files

theorem shows_shown (t : Ty Atom) : Shows (shown t) fun _ => True :=
  fun files _ => ⟨_, _, files, rfl, rfl, trivial⟩

theorem shows_mapM {as : List α} {f : α → Explain β} {P : β → Prop} (h : ∀ a ∈ as, Shows (f a) P) :
    Shows (as.mapM f) fun bs => ∀ b ∈ bs, P b := by
  induction as with
  | nil => exact .pure nofun
  | cons a as ih =>
      obtain ⟨ha, has⟩ := List.forall_mem_cons.mp h
      rw [List.mapM_cons]
      refine ha.bind fun b hb => (ih has).bind fun bs hbs => .pure ?_
      exact List.forall_mem_cons.mpr ⟨hb, hbs⟩

theorem shows_expected (t : Ty Atom) : Shows (expected t) fun _ => True :=
  (shows_shown t).bind fun _ _ => .pure trivial

theorem shows_found (t : Ty Atom) : Shows (found t) fun _ => True :=
  (shows_shown t).bind fun _ _ => .pure trivial

theorem shows_causeNotes (e : TypeError Atom) : Shows e.causeNotes fun _ => True := by
  cases e with
  | mismatch l r => exact (shows_expected l).bind fun _ _ => (shows_found r).bind fun _ _ => .pure trivial
  | _ => exact .pure trivial

end TypeError.Explain

/-! Where labels are placed. -/

/-- A span that one of the marks has. -/
def Span.Among (ms : List Mark) (s : Span) : Prop :=
  ∃ m ∈ ms, m.pos = some s

namespace Label

variable {ms : List Mark} {files files' : Files} {ls ls' : List Label}

/-- All labels are at spans of the marks, or all but the first one, which covers a snippet. -/
inductive Placed (ms : List Mark) (files : Files) : List Label → Files → Prop
  | known {ls : List Label} : (∀ l ∈ ls, l.span.Among ms) → Placed ms files ls files
  | snippet {style : Style} {text message : String} {ls : List Label} : (∀ l ∈ ls, l.span.Among ms) →
      Placed ms files (⟨style, ⟨files.length, 0, Text.byteLength text.toList⟩, message⟩ :: ls)
        (files ++ [⟨snippetName, text⟩])

theorem Placed.append (h : Placed ms files ls files') (hls' : ∀ l ∈ ls', l.span.Among ms) :
    Placed ms files (ls ++ ls') files' := by
  cases h with
  | known hls => exact .known (List.forall_mem_append.mpr ⟨hls, hls'⟩)
  | snippet hls => exact .snippet (List.forall_mem_append.mpr ⟨hls, hls'⟩)

theorem among_at? {style : Style} {pos : Position} {message : String} (h : ∀ s, pos = some s → s.Among ms) :
    ∀ l ∈ at? style pos message, l.span.Among ms := by
  cases pos with
  | none => exact nofun
  | some s => exact List.forall_mem_singleton.mpr (h s rfl)

theorem among_at?_node {style : Style} {n : Node} {message : String} (h : .node n ∈ ms) :
    ∀ l ∈ at? style n.pos message, l.span.Among ms :=
  among_at? fun _ hs => ⟨.node n, h, hs⟩

theorem among_at?_place {style : Style} {pos : Position} {message : String} (h : .place pos ∈ ms) :
    ∀ l ∈ at? style pos message, l.span.Among ms :=
  among_at? fun _ hs => ⟨.place pos, h, hs⟩

end Label

/-- The position of a type is that of a node which it comes from. -/
theorem Ty.among_pos {ms : List Mark} {t : Ty Atom} (ht : t.srcs.map .node ⊆ ms) :
    ∀ s, t.pos = some s → s.Among ms := by
  intro s h
  obtain ⟨n, hn, hs⟩ := Option.bind_eq_some_iff.mp h
  exact ⟨.node n, ht (List.mem_map_of_mem (Ty.mem_srcs_of_src hn)), hs⟩

theorem Typing.srcs_type_subset {ms : List Mark} {ts : List (Typing Atom)}
    (hts : (ts.flatMap Typing.srcs).map .node ⊆ ms) {t : Typing Atom} (ht : t ∈ ts) : t.type.srcs.map .node ⊆ ms :=
  List.Subset.trans
    (List.map_subset _ fun _ hn => List.mem_flatMap.mpr ⟨t, ht, List.mem_append_right _ hn⟩) hts

namespace TypeError

open Explain

section

variable {ms : List Mark} {files : Files}

theorem shows_typeLabel (style : Style) (lead : String) {t : Ty Atom} (ht : t.srcs.map .node ⊆ ms) :
    Shows (typeLabel style lead t) fun ls => ∀ l ∈ ls, l.span.Among ms := by
  unfold typeLabel
  split
  · rename_i s hs
    exact (shows_shown t).bind fun _ _ => .pure (List.forall_mem_singleton.mpr (Ty.among_pos ht s hs))
  · exact .pure nofun

theorem gives_atOr (style : Style) {pos : Position} (text message : String) (h : ∀ s, pos = some s → s.Among ms) :
    Gives (Label.atOr style pos text message : Explain Label) files fun l files' =>
      Label.Placed ms files [l] files' := by
  intro names
  cases pos with
  | some s => exact ⟨_, names, files, rfl, .known (List.forall_mem_singleton.mpr (h s rfl))⟩
  | none => exact ⟨_, names, _, rfl, .snippet nofun⟩

/-- The main label of a call is at the blamed argument, at the call, or at a snippet. -/
theorem gives_callLabel {call : Node} {args : List (Typing Atom)} (bad : Option Nat) (hcall : .node call ∈ ms)
    (hargs : (args.flatMap Typing.srcs).map .node ⊆ ms) :
    Gives (callLabel call (blamed args bad)) files fun ls files' => Label.Placed ms files ls files' := by
  cases hblamed : blamed args bad with
  | none => exact .pure (.known (Label.among_at?_node hcall))
  | some blame =>
      obtain ⟨index, -, hblamed⟩ := Option.bind_eq_some_iff.mp hblamed
      obtain ⟨arg, harg, hblame⟩ := Option.bind_eq_some_iff.mp hblamed
      cases hblame
      have harg : arg.type.srcs.map .node ⊆ ms := Typing.srcs_type_subset hargs (List.mem_of_getElem? harg)
      refine (shows_shown arg.type).gives_bind fun text _ => ?_
      exact (gives_atOr .primary text _ (Ty.among_pos harg)).bind fun l files' hl => .pure hl

end

/-- The labels of an error are at spans of its marks. The first one may be at a snippet instead. -/
theorem details_placed (e : TypeError Atom) (files : Files) :
    Gives e.details files fun d files' => Label.Placed e.marks files d.1 files' := by
  cases e with
  | mismatch l r =>
      have hl : l.srcs.map .node ⊆ (mismatch l r).marks := List.map_subset _ (List.subset_append_left ..)
      have hr : r.srcs.map .node ⊆ (mismatch l r).marks := List.map_subset _ (List.subset_append_right ..)
      refine (shows_expected l).gives_bind fun _ _ => (shows_found r).gives_bind fun _ _ => ?_
      refine (shows_typeLabel .primary _ hl).gives_bind fun first hfirst => ?_
      refine (shows_typeLabel .secondary _ hr).gives_bind fun second hsecond => .pure (.known ?_)
      exact List.forall_mem_append.mpr ⟨hfirst, hsecond⟩
  | callArgument call callee t args bad cause =>
      have hcallee : .node callee ∈ (callArgument call callee t args bad cause).marks := by simp [marks]
      have hargs : (args.flatMap Typing.srcs).map .node ⊆ (callArgument call callee t args bad cause).marks := by
        intro m hm
        simp only [marks, List.flatMap_cons, List.map_append, List.cons_append, List.mem_cons, List.mem_append]
        exact .inr (.inr (.inl (.inr hm)))
      refine (shows_shown t.type).gives_bind fun function _ => ?_
      refine (gives_callLabel bad (List.mem_cons_self ..) hargs).bind fun main files' hmain => ?_
      refine (shows_mapM (P := fun _ => True) fun arg _ => shows_shown arg.type).gives_bind fun types _ => ?_
      refine (shows_causeNotes cause).gives_bind fun notes _ => .pure ?_
      exact hmain.append (Label.among_at?_node hcallee)
  | arrayLiteral node elems cause =>
      have helems : (elems.flatMap Typing.srcs).map .node ⊆ (arrayLiteral node elems cause).marks :=
        fun m hm => List.mem_append_left _ (List.mem_cons_of_mem _ hm)
      refine (shows_mapM fun elem helem =>
        shows_typeLabel .secondary _ (Typing.srcs_type_subset helems helem)).gives_bind fun labels hlabels => ?_
      refine (shows_causeNotes cause).gives_bind fun notes _ => .pure (.known ?_)
      refine List.forall_mem_append.mpr ⟨Label.among_at?_node (List.mem_cons_self ..), fun l hl => ?_⟩
      obtain ⟨ls, hls, hl⟩ := List.mem_flatten.mp hl
      exact hlabels ls hls l hl
  | noSuchProperty node t label =>
      refine (shows_shown t).gives_bind fun type _ => .pure (.known (Label.among_at? fun s hs => ?_))
      -- the label of the property if its position is known, or else the node of the access
      cases hlabel : label.pos with
      | some s' =>
          rw [hlabel] at hs
          cases hs
          exact ⟨.place label.pos, by simp [marks], hlabel⟩
      | none =>
          rw [hlabel] at hs
          exact ⟨.node node, by simp [marks], hs⟩
  | notAnObject node t label =>
      refine (shows_shown t).gives_bind fun type _ => .pure (.known ?_)
      exact Label.among_at?_node (List.mem_cons_self ..)

/-- All that lies behind an error. -/
def causes {V : Type} : TypeError V → List (TypeError V)
  | .callArgument _ _ _ _ _ cause | .arrayLiteral _ _ cause => cause :: cause.causes
  | _ => []

theorem marks_causes {V : Type} {e : TypeError V} : ∀ e' ∈ e.causes, e'.marks ⊆ e.marks := by
  induction e with
  | callArgument call callee t args bad cause ih =>
      have hcause : cause.marks ⊆ (callArgument call callee t args bad cause).marks := List.subset_append_right _ _
      exact List.forall_mem_cons.mpr ⟨hcause, fun e' he' => List.Subset.trans (ih e' he') hcause⟩
  | arrayLiteral node elems cause ih =>
      have hcause : cause.marks ⊆ (arrayLiteral node elems cause).marks := List.subset_append_right _ _
      exact List.forall_mem_cons.mpr ⟨hcause, fun e' he' => List.Subset.trans (ih e' he') hcause⟩
  | mismatch l r | noSuchProperty node t label | notAnObject node t label => exact nofun

end TypeError

theorem ScopeError.labels_among (e : ScopeError Atom) : ∀ l ∈ e.labels, l.span.Among e.marks := by
  cases e with
  | alreadyDefined id previous | duplicateLabel label previous =>
      refine List.forall_mem_append.mpr ⟨?_, ?_⟩ <;> exact Label.among_at?_place (by simp [marks])
  | _ => exact Label.among_at?_place (List.mem_cons_self ..)

/-! Errors of scripts. -/

namespace Error

def marks : Error → List Mark
  | .parse e => [.place (some e.span)]
  | .scope e => e.marks
  | .type e => e.marks
  | .unreadable _ | .unfinished => []

/-- The nodes that the types in an error come from. -/
def srcs : Error → List Node
  | .scope e => e.srcs
  | .type e => e.srcs
  | .parse _ | .unreadable _ | .unfinished => []

/-- An error together with all that lies behind it. -/
def parts : Error → List Error
  | .type e => .type e :: e.causes.map .type
  | e => [e]

theorem marks_parts (e : Error) : ∀ e' ∈ e.parts, e'.marks ⊆ e.marks := by
  cases e with
  | type e =>
      refine List.forall_mem_cons.mpr ⟨List.Subset.refl _, List.forall_mem_map.mpr ?_⟩
      exact fun e' he' => TypeError.marks_causes e' he'
  | _ => exact List.forall_mem_singleton.mpr (List.Subset.refl _)

theorem srcs_subset_marks (e : Error) {n : Node} (h : n ∈ e.srcs) : .node n ∈ e.marks := by
  cases e with
  | scope e => exact e.srcs_subset_marks h
  | type e => exact e.srcs_subset_marks h
  | _ => cases h

/-- The labels of an error are at spans of its marks. The first one may be at a snippet instead. -/
theorem diagnostic_placed {e : Error} {files files' : Files} {d : Diagnostic}
    (h : e.diagnostic.run files = (d, files')) : Label.Placed e.marks files d.labels files' := by
  cases e with
  | parse e =>
      cases h
      exact .known (List.forall_mem_singleton.mpr ⟨_, List.mem_cons_self .., rfl⟩)
  | scope e =>
      cases h
      exact .known e.labels_among
  | type e =>
      obtain ⟨details, names, files', hdetails, hplaced⟩ := e.details_placed files .initial
      have hrun : (e.diagnostic).run files = (⟨e.message, details.1, details.2⟩, files') := by
        unfold TypeError.diagnostic
        rw [StateT.run_bind, hdetails]
        rfl
      cases hrun.symm.trans h
      exact hplaced
  | unreadable message | unfinished =>
      cases h
      exact .known nofun

/-- The errors of a text that is parsed as a file and, if it is a script, given some number of steps for inference. -/
inductive Of (file : Nat) (source : String) : Error → Prop
  | parse {e : SyntaxError} : Script.parse file source = .error e → Of file source (.parse e)
  | scope {s : Script} {steps : Nat} {e : ScopeError VarId} : Script.parse file source = .ok s →
      s.infer steps = .error (.scope e) → Of file source (.scope (e.map Atom.ofVar))
  | type {s : Script} {steps : Nat} {env : Env VarId} {e : TypeError VarId} : Script.parse file source = .ok s →
      s.infer steps = .ok ⟨env, some e⟩ → Of file source (.type (e.map Atom.ofVar))
  | unfinished {s : Script} {steps : Nat} : Script.parse file source = .ok s → s.infer steps = .error .unfinished →
      Of file source .unfinished

/-- The error of a text is about the first file. -/
theorem of_error? {source : String} {e : Error} (h : error? source = some e) : e.Of 0 source := by
  unfold error? check at h
  cases hparse : Script.parse 0 source with
  | error e' =>
      rw [hparse] at h
      cases h
      exact .parse hparse
  | ok s =>
      rw [hparse] at h
      cases hinfer : s.infer Script.stepLimit with
      | error f =>
          simp only [hinfer] at h
          cases f with
          | scope e' =>
              cases h
              exact .scope hparse hinfer
          | unfinished =>
              cases h
              exact .unfinished hparse hinfer
      | ok inferred =>
          obtain ⟨env, error⟩ := inferred
          simp only [hinfer] at h
          obtain ⟨e', he', rfl⟩ := Option.map_eq_some_iff.mp h
          cases he'
          exact .type hparse hinfer

section

variable {file : Nat} {source : String} {e : Error}

/-- A mark of an error is where parsing stopped, or one of the script. -/
theorem Of.mark_cases (h : e.Of file source) : ∀ m ∈ e.marks,
    (∃ e', Script.parse file source = .error e' ∧ m = .place (some e'.span)) ∨
      ∃ s, Script.parse file source = .ok s ∧ s.Has m := by
  intro m hm
  cases h with
  | @parse e h => exact .inl ⟨e, h, List.mem_singleton.mp hm⟩
  | @scope s steps e hs h =>
      have hmarks : (Error.scope (e.map Atom.ofVar)).marks = e.marks := e.marks_map Atom.ofVar
      rw [hmarks] at hm
      exact .inr ⟨s, hs, Script.has_of_scopeError h m hm⟩
  | @type s steps env e hs h =>
      have hmarks : (Error.type (e.map Atom.ofVar)).marks = e.marks := e.marks_map Atom.ofVar
      rw [hmarks] at hm
      exact .inr ⟨s, hs, Script.has_of_typeError h m hm⟩
  | unfinished => cases hm

theorem Of.within (hsize : source.utf8ByteSize < 2 ^ 32) (h : e.Of file source) : ∀ m ∈ e.marks, m.pos.Within file source := by
  intro m hm
  rcases h.mark_cases m hm with ⟨e', he', rfl⟩ | ⟨s, hs, hhas⟩
  · rintro _ ⟨⟩
    exact Script.parse_error_within hsize he'
  · cases m with
    | node n => exact Script.parse_marks_within hsize hs _ (Script.mem_nodes.mp hhas)
    | place pos =>
        rcases hhas with rfl | hpos
        · exact nofun
        · obtain ⟨m', hm', rfl⟩ := List.mem_map.mp hpos
          exact Script.parse_marks_within hsize hs m' hm'

/-- The types in an error come from nodes of the script. -/
theorem Of.srcs_mem_nodes (h : e.Of file source) :
    ∀ n ∈ e.srcs, ∃ s, Script.parse file source = .ok s ∧ n ∈ s.nodes := by
  intro n hn
  rcases h.mark_cases _ (e.srcs_subset_marks hn) with ⟨e', -, hplace⟩ | ⟨s, hs, hhas⟩
  · cases hplace
  · exact ⟨s, hs, hhas⟩

end

end Error

/-! Where labels point. -/

/-- Of the files after a diagnostic, a label points into one, from one place between characters to another. This is
the file of the script, with offsets that 32 bits can hold, or a snippet that has come last. -/
structure Label.Inside (file : Nat) (files files' : Files) (l : Label) : Prop where
  ordered : l.span.start ≤ l.span.stop
  between : ∃ f slice rest, files'[l.span.file]? = some f ∧
    Text.Between f.text.toList l.span.start l.span.stop slice rest
  home : (l.span.file = file ∧ files'[file]? = files[file]? ∧ Span.ofRange file l.span.start l.span.stop = l.span) ∨
    ∃ text, l.span.file = files.length ∧ files' = files ++ [⟨snippetName, text⟩]

namespace Label

variable {file : Nat} {name source : String} {files files' : Files} {l : Label}

/-- A label in the text of the script. Files that come later do not matter. -/
theorem inside_of_within (hfile : files[file]? = some ⟨name, source⟩) (hsize : source.utf8ByteSize < 2 ^ 32)
    (h : l.span.Within file source) (added : Files) : l.Inside file files (files ++ added) := by
  obtain ⟨hspan, slice, rest, hbetween⟩ := h
  have hadded : (files ++ added)[file]? = some ⟨name, source⟩ := by
    rw [List.getElem?_append_left (List.getElem?_eq_some_iff.mp hfile).1, hfile]
  obtain ⟨hle, hlast⟩ := hbetween.le
  rw [Text.byteLength_toList] at hlast
  have hstop : l.span.stop < 2 ^ 32 := Nat.lt_of_le_of_lt hlast hsize
  subst hspan
  exact ⟨hle, ⟨_, slice, rest, hadded, hbetween⟩,
    .inl ⟨rfl, hadded.trans hfile.symm, Span.ofRange_eq _ (Nat.lt_of_le_of_lt hle hstop) hstop⟩⟩

theorem inside_snippet (style : Style) (text message : String) :
    Inside file files (files ++ [⟨snippetName, text⟩])
      ⟨style, ⟨files.length, 0, Text.byteLength text.toList⟩, message⟩ where
  ordered := Nat.zero_le _
  between := ⟨_, text.toList, [], List.getElem?_concat_length, [], by simp, rfl, Nat.zero_add _⟩
  home := .inr ⟨text, rfl, rfl⟩

theorem Placed.inside {ms : List Mark} {ls : List Label} (h : Placed ms files ls files')
    (hfile : files[file]? = some ⟨name, source⟩) (hsize : source.utf8ByteSize < 2 ^ 32)
    (hms : ∀ m ∈ ms, m.pos.Within file source) : ∀ l ∈ ls, l.Inside file files files' := by
  have hknown : ∀ (l : Label) (added : Files), l.span.Among ms → l.Inside file files (files ++ added) := by
    rintro l added ⟨m, hm, hl⟩
    exact inside_of_within hfile hsize (hms m hm l.span hl) added
  cases h with
  | known hls =>
      have hls := fun l hl => hknown l [] (hls l hl)
      rwa [List.append_nil] at hls
  | snippet hls =>
      exact List.forall_mem_cons.mpr ⟨inside_snippet _ _ _, fun l hl => hknown l _ (hls l hl)⟩

end Label

/-- Diagnostics point inside of files: so do all labels, for an error of a text and for all that lies behind it. The
types in the error come from nodes of the script. -/
theorem Error.Of.labels_inside {file : Nat} {name source : String} {files : Files} {e : Error}
    (hfile : files[file]? = some ⟨name, source⟩) (hsize : source.utf8ByteSize < 2 ^ 32) (he : e.Of file source) :
    (∀ e' ∈ e.parts, ∀ d files', e'.diagnostic.run files = (d, files') → ∀ l ∈ d.labels, l.Inside file files files') ∧
      ∀ n ∈ e.srcs, ∃ s, Script.parse file source = .ok s ∧ n ∈ s.nodes := by
  refine ⟨fun e' he' d files' hd => ?_, he.srcs_mem_nodes⟩
  exact (diagnostic_placed hd).inside hfile hsize fun m hm => he.within hsize m (e.marks_parts e' he' hm)

/-- The error of a boolean that is called with a boolean. -/
def calledBool : TypeError Atom :=
  let call : Node := ⟨2, some ⟨0, 0, 10⟩⟩
  let callee : Node := ⟨0, some ⟨0, 0, 4⟩⟩
  let arg : Ty Atom := .leaf .bool (some ⟨1, some ⟨0, 5, 9⟩⟩)
  .callArgument call callee (.closed (.leaf .bool (some callee))) [.closed arg] (some 0)
    (.mismatch (.leaf .bool (some callee)) (.arrow [arg] (.var (.id 0) (some call)) (some call)))

theorem error?_calledBool : error? "true(true)" = some (.type calledBool) := by
  decide +kernel

/-- The argument is blamed for a call. The labels cover it and the callee. -/
theorem Error.Of.labels_inside_calledBool : (Error.type calledBool).Of 0 "true(true)" ∧ calledBool.causes ≠ [] ∧
    ∃ d files', (Error.type calledBool).diagnostic.run [⟨"main", "true(true)"⟩] = (d, files') ∧
      d.labels.map Label.span = [⟨0, 5, 9⟩, ⟨0, 0, 4⟩] ∧
      ∀ l ∈ d.labels, l.Inside 0 [⟨"main", "true(true)"⟩] files' := by
  have he := of_error? error?_calledBool
  refine ⟨he, nofun, _, _, rfl, rfl, ?_⟩
  exact (labels_inside rfl (by decide) he).1 (.type calledBool) (List.mem_cons_self ..) _ _ rfl

end ScriptTypes
