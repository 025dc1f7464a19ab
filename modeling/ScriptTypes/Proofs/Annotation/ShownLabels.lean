import ScriptTypes.Proofs.Annotation.Printed

/-! Labels as they are shown and read again. Each shown label is one token, a name where the label is one and a text in
quotes elsewhere. It is the token of the label itself unless the label has a character that is shown by its number: the
quotes are read with escapes of one letter only, and the number becomes part of the text. -/

namespace ScriptTypes

open Doc (labelToken)

/-- Only a blank starts a gap. -/
theorem Scan.isAnnotationBlank_of_gap {c : Char} {cs : List Char} {more : Nat} (h : annotation c cs = .gap more) :
    isAnnotationBlank c = true := by
  by_contra hc
  by_cases hname : Text.isNameStart c = true
  · cases (Tokenizes.scan_name hname cs).symm.trans h
  · exact (Tokenizes.scan_other hc hname cs).1 more h

/-- The only token starts where the text does, unless that is a blank. -/
theorem Tokenizes.lexemes_singleton {c : Char} {cs : List Char} {t : Token} (h : Tokenizes (c :: cs) [t])
    (hc : Scan.isAnnotationBlank c = false) (offset : Nat) :
    annotationLexemes offset (c :: cs) = .ok [⟨t, offset⟩] := by
  cases h with
  | gap hscan => cases hc.symm.trans (Scan.isAnnotationBlank_of_gap hscan)
  | @token _ _ _ more _ hscan h =>
      obtain ⟨ls, hls, hts⟩ := h.lexemes (offset + Text.byteLength (c :: cs.take more))
      cases List.map_eq_nil_iff.mp hts
      rw [annotationLexemes, hscan]
      simp only [hls]
      rfl

/-- A shown label starts with a name or a quote. -/
theorem Text.shownLabel_eq_cons (label : String) :
    ∃ c cs, (shownLabel label).toList = c :: cs ∧ Scan.isAnnotationBlank c = false := by
  unfold shownLabel
  split
  · rename_i hname
    rw [isIdentifier] at hname
    cases hlabel : label.toList with
    | nil =>
        rw [hlabel] at hname
        cases hname
    | cons c cs =>
        rw [hlabel, isName, Bool.and_eq_true] at hname
        exact ⟨c, cs, rfl, Bool.eq_false_iff.mpr (Tokenizes.not_isAnnotationBlank hname.1)⟩
  · rw [quoted, String.toList_ofList]
    exact ⟨'\x22', _, rfl, rfl⟩

namespace Annotation

/-- A record of one field, printed and read again. -/
theorem compile_text_field (label : String) (l : Leaf) :
    compile (Ty.text (.record (Row.ofFields [(label, .leaf l none)] none) none)) =
      .ok (Ty.record (Row.ofFields [(Text.readLabel label, .leaf l none)] none) none) := by
  obtain ⟨ts, hspell, htake⟩ := Doc.means_leaf l
  have hspells := Doc.spells_record (.cons (Doc.spells_field label hspell) .nil)
  have hread : Assoc.Distinct [(Text.readLabel label, (Ty.leaf l none : Annotation))] := List.nodup_singleton _
  have htakes := takes_record (.cons ⟨ts, rfl, htake⟩ .nil) hread none
  have hdoc : ((Ty.record (Row.ofFields [(label, .leaf l none)] none) none).doc.run .initial).1 =
      Doc.record [Doc.field label (.text l.text)] := by
    have hdistinct : Assoc.Distinct [(label, Ty.doc (.leaf l none))] := List.nodup_singleton _
    rw [Ty.doc, Ty.rowDocs_ofFields, Ty.recordDoc, Row.vars_ofFields, Assoc.mapValues_cons, Assoc.mapValues_nil,
      Row.visible_ofFields hdistinct]
    simp only [Ty.doc, Option.toList_none, List.mapM_nil, List.mapM_cons, bind_pure_comp, map_pure,
      List.nil_append]
    rfl
  have hmeans : Doc.Means _ _ := ⟨_, hdoc ▸ hspells, htakes⟩
  have htext := hmeans.compile (Doc.lays_render Ty.width _)
  rwa [String.ofList_toList] at htext

/-- A shown label is one token, that of the label it is read as, which is the label itself if and only if no character
was shown by its number. A field that is printed and read again has that label. -/
theorem lexemes_shownLabel (label : String) :
    annotationLexemes 0 (Text.shownLabel label).toList = .ok [⟨labelToken (Text.readLabel label), 0⟩] ∧
      Text.isIdentifier (Text.readLabel label) = Text.isIdentifier label ∧
      (Text.readLabel label = label ↔ ∀ c ∈ label.toList, ¬ Text.ShownByNumber c) ∧
      ∀ l : Leaf, compile (Ty.text (.record (Row.ofFields [(label, .leaf l none)] none) none)) =
        .ok (Ty.record (Row.ofFields [(Text.readLabel label, .leaf l none)] none) none) := by
  have htokens := Doc.spells_label label _ rfl [] [] nofun .nil
  rw [List.append_nil] at htokens
  obtain ⟨c, cs, hcs, hc⟩ := Text.shownLabel_eq_cons label
  rw [hcs] at htokens ⊢
  exact ⟨htokens.lexemes_singleton hc 0, Text.isIdentifier_readLabel label, Text.readLabel_eq_self_iff,
    compile_text_field label⟩

/-- A control character is read as the spelling of its number, which is another label. -/
theorem lexemes_control_character :
    annotationLexemes 0 (Text.shownLabel "\x01").toList = .ok [⟨.string "u\x7b1\x7d", 0⟩] ∧
      annotationLexemes 0 (Text.shownLabel "u\x7b1\x7d").toList = .ok [⟨.string "u\x7b1\x7d", 0⟩] ∧
      annotationLexemes 0 (Text.shownLabel "\x01").toList ≠ .ok [⟨labelToken "\x01", 0⟩] := by
  have hshown : Text.shownLabel "\x01" = "\"\\u\x7b1\x7d\"" ∧
      Text.shownLabel "u\x7b1\x7d" = "\"u\x7b1\x7d\"" := by decide +kernel
  rw [hshown.1, hshown.2]
  have hcontrol : annotationLexemes 0 "\"\\u\x7b1\x7d\"".toList = .ok [⟨.string "u\x7b1\x7d", 0⟩] := by decide +kernel
  refine ⟨hcontrol, by decide +kernel, ?_⟩
  rw [hcontrol]
  decide

end Annotation

end ScriptTypes
