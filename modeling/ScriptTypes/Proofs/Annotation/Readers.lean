import ScriptTypes.Proofs.Annotation.Documents
import ScriptTypes.Proofs.Annotation.Shape

/-! What the readers of annotations make of the tokens of a type. Each reader is followed token by token, with whatever
comes after them left over. -/

namespace ScriptTypes.Annotation

open Doc (commaTokens labelToken)

/-- From the given tokens the reader makes a value, and leaves what comes after them. What comes after must not open a
parenthesis, which would belong to a container. -/
def Takes {α : Type} (read : (ls : List AnnotationLexeme) → Result α ls.length) (ts : List Token) (a : α) : Prop :=
  ∀ ls ts', ls.map AnnotationLexeme.token = ts ++ ts' → ts'.head? ≠ some (.symbol .lParen) →
    ∃ rest h, read ls = .ok ⟨a, rest, h⟩ ∧ rest.map AnnotationLexeme.token = ts'

section Eat

variable {ls : List AnnotationLexeme} {s : Symbol} {ts : List Token}

theorem eat_eq_some (h : ls.map AnnotationLexeme.token = .symbol s :: ts) :
    ∃ rest hlt, eat s ls = some ⟨(), rest, hlt⟩ ∧ rest.map AnnotationLexeme.token = ts := by
  obtain ⟨l, rest, rfl, hl, hrest⟩ := List.map_eq_cons_iff.mp h
  refine ⟨rest, by simp, ?_, hrest⟩
  rw [eat, if_pos hl]

theorem eat_eq_none (h : (ls.map AnnotationLexeme.token).head? ≠ some (.symbol s)) : eat s ls = none := by
  cases ls with
  | nil => rfl
  | cons l ls =>
      rw [eat, if_neg]
      intro hl
      exact h (congrArg some hl)

theorem expect_eq_ok (h : ls.map AnnotationLexeme.token = .symbol s :: ts) :
    ∃ rest hlt, expect s ls = .ok ⟨(), rest, hlt⟩ ∧ rest.map AnnotationLexeme.token = ts := by
  obtain ⟨rest, hlt, heat, hrest⟩ := eat_eq_some h
  exact ⟨rest, hlt, by rw [expect, heat], hrest⟩

end Eat

/-- No type starts with a closing parenthesis. -/
theorem eat_rParen_of_type {ls : List AnnotationLexeme} {p : Parsed Annotation ls.length} (h : type ls = .ok p) :
    eat .rParen ls = none := by
  cases ls with
  | nil => rfl
  | cons l ls =>
      rw [eat, if_neg]
      intro hl
      obtain ⟨token, start⟩ := l
      cases hl
      unfold type at h
      cases h

theorem takes_leaf {name : String} {l : Leaf} (h : leaf? name = some l) : Takes type [.ident name] (.leaf l none) := by
  intro ls ts' hls _
  obtain ⟨⟨_, start⟩, rest, rfl, rfl, hrest⟩ := List.map_eq_cons_iff.mp hls
  refine ⟨rest, by simp, ?_, hrest⟩
  rw [type, h]

theorem takes_var {name : String} (hleaf : leaf? name = none) (h : isContainerName name = false) :
    Takes type [.ident name] (.var name none) := by
  intro ls ts' hls _
  obtain ⟨⟨_, start⟩, rest, rfl, rfl, hrest⟩ := List.map_eq_cons_iff.mp hls
  refine ⟨rest, by simp, ?_, hrest⟩
  rw [type, hleaf, h]
  rfl

/-- The tokens of a list, up to the closing parenthesis. -/
theorem takes_types {tss : List (List Token)} {as : List Annotation} (h : List.Forall₂ (Takes type) tss as) :
    Takes types (commaTokens tss ++ [.symbol .rParen]) as := by
  induction h with
  | nil =>
      intro ls ts' hls _
      obtain ⟨rest, hlt, heat, hrest⟩ := eat_eq_some hls
      exact ⟨rest, hlt, by rw [types, heat], hrest⟩
  | @cons ts a tss as ha has ih =>
      intro ls ts' hls hend
      cases has with
      | nil =>
          rw [List.append_assoc] at hls
          obtain ⟨ls₁, h₁, htype, hls₁⟩ := ha ls _ hls (by simp)
          obtain ⟨rest, hlt, hexpect, hrest⟩ := expect_eq_ok hls₁
          refine ⟨rest, by omega, ?_, hrest⟩
          rw [types, eat_rParen_of_type htype]
          simp only [htype, ok_bind]
          rw [eat_eq_none (s := .comma) (by simp [hls₁])]
          simp only [hexpect, ok_bind]
          rfl
      | cons ha' has =>
          rw [Doc.commaTokens_cons_cons, List.append_assoc, List.append_assoc] at hls
          obtain ⟨ls₁, h₁, htype, hls₁⟩ := ha ls _ hls (by simp)
          obtain ⟨ls₂, h₂, hcomma, hls₂⟩ := eat_eq_some hls₁
          obtain ⟨rest, h₃, htypes, hrest⟩ := ih ls₂ ts' (by simpa using hls₂) hend
          refine ⟨rest, by omega, ?_, hrest⟩
          rw [types, eat_rParen_of_type htype]
          simp only [htype, ok_bind]
          rw [hcomma]
          simp only [htypes, ok_bind]
          rfl

theorem takes_arrow {tss : List (List Token)} {as : List Annotation} (has : List.Forall₂ (Takes type) tss as)
    {ts : List Token} {a : Annotation} (ha : Takes type ts a) :
    Takes type (.symbol .lParen :: commaTokens tss ++ .symbol .rParen :: .symbol .fatArrow :: ts)
      (.arrow as a none) := by
  intro ls ts' hls hend
  obtain ⟨⟨_, start⟩, ls₁, rfl, rfl, hls₁⟩ := List.map_eq_cons_iff.mp hls
  obtain ⟨ls₂, h₂, htypes, hls₂⟩ := takes_types has ls₁ (.symbol .fatArrow :: ts ++ ts') (by simpa using hls₁) nofun
  obtain ⟨ls₃, h₃, heat, hls₃⟩ := eat_eq_some hls₂
  obtain ⟨rest, h₄, htype, hrest⟩ := ha ls₃ ts' hls₃ hend
  refine ⟨rest, by simp; omega, ?_, hrest⟩
  rw [type]
  simp only [htypes, ok_bind]
  rw [heat]
  simp only [htype, ok_bind]
  rfl

theorem takes_container {name : String} (hleaf : leaf? name = none) (hname : isContainerName name = true)
    {tss : List (List Token)} {as : List Annotation} (has : List.Forall₂ (Takes type) tss as) :
    Takes type (.ident name :: if tss.isEmpty then [] else .symbol .lParen :: commaTokens tss ++ [.symbol .rParen])
      (.con name as none) := by
  intro ls ts' hls hend
  obtain ⟨⟨_, start⟩, ls₁, rfl, rfl, hls₁⟩ := List.map_eq_cons_iff.mp hls
  cases has with
  | nil =>
      refine ⟨ls₁, by simp, ?_, hls₁⟩
      rw [type, hleaf, hname, eat_eq_none (by rw [hls₁]; exact hend)]
      rfl
  | cons ha has =>
      obtain ⟨ls₂, h₂, heat, hls₂⟩ := eat_eq_some hls₁
      obtain ⟨rest, h₃, htypes, hrest⟩ := takes_types (.cons ha has) ls₂ ts' hls₂ hend
      refine ⟨rest, by simp; omega, ?_, hrest⟩
      rw [type, hleaf, hname, heat]
      simp only [htypes, ok_bind]
      rfl

theorem item_label {label : String} {ls : List AnnotationLexeme} {ts : List Token}
    (h : ls.map AnnotationLexeme.token = labelToken label :: .symbol .colon :: ts) :
    ∃ rest hlt, item ls = .ok ⟨.label label, rest, hlt⟩ ∧ rest.map AnnotationLexeme.token = .symbol .colon :: ts := by
  obtain ⟨⟨t, start⟩, _, rfl, ht, hrest⟩ := List.map_eq_cons_iff.mp h
  obtain ⟨⟨_, start'⟩, rest, rfl, rfl, hrest'⟩ := List.map_eq_cons_iff.mp hrest
  refine ⟨⟨.symbol .colon, start'⟩ :: rest, by simp, ?_, hrest⟩
  unfold labelToken at ht
  split at ht
  · cases ht
    rfl
  · cases ht
    rfl

theorem item_rowVar {name : String} {ls : List AnnotationLexeme} {ts : List Token}
    (h : ls.map AnnotationLexeme.token = .symbol .ellipsis :: .ident name :: ts) :
    ∃ rest hlt, item ls = .ok ⟨.rowVar name, rest, hlt⟩ ∧ rest.map AnnotationLexeme.token = ts := by
  obtain ⟨⟨_, start⟩, _, rfl, rfl, hrest⟩ := List.map_eq_cons_iff.mp h
  obtain ⟨⟨_, start'⟩, rest, rfl, rfl, hrest'⟩ := List.map_eq_cons_iff.mp hrest
  exact ⟨rest, by simp only [List.length_cons]; omega, rfl, hrest'⟩

/-- After an item come a comma and more items, or the closing brace. -/
def nextTokens (items : List (List Token)) : List Token :=
  if items.isEmpty then [.symbol .rBrace] else .symbol .comma :: commaTokens items ++ [.symbol .rBrace]

theorem commaTokens_cons_append (ts : List Token) (items : List (List Token)) :
    commaTokens (ts :: items) ++ [.symbol .rBrace] = ts ++ nextTokens items := by
  cases items with
  | nil => rfl
  | cons us items => simp [Doc.commaTokens_cons_cons, nextTokens]

variable {fields : Assoc Annotation} {tail : Option (RowVar String)} {items : List (List Token)} {a : Annotation}

theorem takes_recordNext (h : Takes (record fields tail) (commaTokens items ++ [.symbol .rBrace]) a) :
    Takes (recordNext fields tail) (nextTokens items) a := by
  intro ls ts' hls hend
  cases items with
  | nil =>
      obtain ⟨rest, hlt, heat, -⟩ := eat_eq_some hls
      obtain ⟨rest', h', hrecord, hrest'⟩ := h ls ts' hls hend
      refine ⟨rest', h', ?_, hrest'⟩
      rw [← hrecord, record, heat, recordNext, eat_eq_none (s := .comma) (by rw [hls]; nofun), expect, heat]
      rfl
  | cons ts items =>
      obtain ⟨ls₁, h₁, heat, hls₁⟩ := eat_eq_some hls
      obtain ⟨rest, h₂, hrecord, hrest⟩ := h ls₁ ts' hls₁ hend
      refine ⟨rest, by omega, ?_, hrest⟩
      rw [recordNext, heat]
      simp only [hrecord, ok_bind]
      rfl

/-- The tokens of a field: its label, a colon and the tokens of its type. -/
def TakesField (ts : List Token) (f : String × Annotation) : Prop :=
  ∃ ts', ts = labelToken f.1 :: .symbol .colon :: ts' ∧ Takes type ts' f.2

theorem head?_nextTokens (items : List (List Token)) (ts : List Token) :
    (nextTokens items ++ ts).head? ≠ some (.symbol .lParen) := by
  cases items <;> exact nofun

/-- The fields are added one by one. -/
theorem takes_fields {fs : Assoc Annotation} (h : List.Forall₂ TakesField items fs)
    (hd : Assoc.Distinct (fields ++ fs)) :
    Takes (record fields tail) (commaTokens items ++ [.symbol .rBrace]) (.ofFields (fields ++ fs) tail) := by
  induction h generalizing fields with
  | nil =>
      intro ls ts' hls _
      obtain ⟨rest, hlt, heat, hrest⟩ := eat_eq_some hls
      rw [List.append_nil]
      exact ⟨rest, hlt, by rw [record, heat], hrest⟩
  | @cons _ f items fs hf _ ih =>
      obtain ⟨label, t⟩ := f
      obtain ⟨ts, rfl, hf⟩ := hf
      intro ls ts' hls hend
      rw [commaTokens_cons_append, List.append_assoc] at hls
      obtain ⟨ls₁, h₁, hitem, hls₁⟩ := item_label hls
      obtain ⟨ls₂, h₂, hexpect, hls₂⟩ := expect_eq_ok hls₁
      obtain ⟨ls₃, h₃, htype, hls₃⟩ := hf ls₂ _ hls₂ (head?_nextTokens items ts')
      have hnew : label ∉ Assoc.keys fields := by
        intro hmem
        rw [Assoc.Distinct, Assoc.keys, List.map_append, List.nodup_append] at hd
        exact hd.2.2 label hmem label List.mem_cons_self rfl
      have hfields : fields ++ (label, t) :: fs = Assoc.insert fields label t ++ fs := by
        rw [Assoc.insert_of_not_mem hnew, List.append_assoc, List.singleton_append]
      rw [hfields] at hd ⊢
      obtain ⟨rest, h₄, hnext, hrest⟩ := takes_recordNext (ih hd) ls₃ ts' hls₃ hend
      have hopen : eat .rBrace ls = none := by
        apply eat_eq_none
        rw [hls]
        unfold labelToken
        split <;> simp
      refine ⟨rest, by omega, ?_, hrest⟩
      rw [record, hopen]
      simp only [hitem, hexpect, htype, hnext, ok_bind]
      rfl

/-- A record without row variable, or with one before its fields. -/
theorem takes_record {fs : Assoc Annotation} (h : List.Forall₂ TakesField items fs) (hd : Assoc.Distinct fs)
    (name : Option String) :
    Takes type
      (.symbol .lBrace :: commaTokens (name.toList.map (fun n => [.symbol .ellipsis, .ident n]) ++ items) ++
        [.symbol .rBrace])
      (.record (Row.ofFields fs (name.map fun n => ⟨n, none⟩)) none) := by
  have hfields (tail : Option (RowVar String)) :
      Takes (record [] tail) (commaTokens items ++ [.symbol .rBrace]) (.ofFields fs tail) := takes_fields h hd
  have hrecord : Takes (record [] none)
      (commaTokens (name.toList.map (fun n => [.symbol .ellipsis, .ident n]) ++ items) ++ [.symbol .rBrace])
      (.ofFields fs (name.map fun n => ⟨n, none⟩)) := by
    cases name with
    | none => exact hfields none
    | some n =>
        intro ls ts' hls hend
        rw [Option.toList_some, List.map_singleton, List.singleton_append, commaTokens_cons_append] at hls
        obtain ⟨ls₁, h₁, hitem, hls₁⟩ := item_rowVar hls
        obtain ⟨rest, h₂, hnext, hrest⟩ := takes_recordNext (hfields (some ⟨n, none⟩)) ls₁ ts' hls₁ hend
        refine ⟨rest, by omega, ?_, hrest⟩
        rw [record, eat_eq_none (s := .rBrace) (by simp [hls])]
        simp only [hitem, ok_bind, hnext, Option.isSome_none, Bool.false_eq_true, if_false]
        rfl
  intro ls ts' hls hend
  obtain ⟨⟨_, start⟩, ls₁, rfl, rfl, hls₁⟩ := List.map_eq_cons_iff.mp hls
  obtain ⟨rest, h₁, hread, hrest⟩ := hrecord ls₁ ts' hls₁ hend
  refine ⟨rest, by simp; omega, ?_, hrest⟩
  rw [type]
  simp only [hread, ok_bind]
  rw [Ty.ofFields_eq]
  rfl

/-- A text is read as a type if its tokens are. -/
theorem compile_eq_ok {source : String} {ts : List Token} (hts : Tokenizes source.toList ts) (ha : Takes type ts a) :
    compile source = .ok a := by
  obtain ⟨ls, hls, htokens⟩ := hts.lexemes 0
  obtain ⟨rest, h, htype, hrest⟩ := ha ls [] (by rw [htokens, List.append_nil]) nofun
  cases List.map_eq_nil_iff.mp hrest
  rw [compile, hls]
  simp only [htype, ok_bind]
  rfl

end ScriptTypes.Annotation
