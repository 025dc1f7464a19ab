import ScriptTypes.Proofs.Annotation.Readers
import ScriptTypes.Proofs.Ty.Naming
import ScriptTypes.Proofs.Ty.Relabel

/-! The document that a type is printed as is read back as the type, with the names its variables got. -/

namespace ScriptTypes

namespace Row

variable {V α : Type}

theorem vars_ofFields (fs : Assoc α) (tail : Option (RowVar V)) : vars (ofFields fs tail) = tail.toList := by
  cases tail <;> rfl

theorem visible_ofFields {fs : Assoc α} (h : Assoc.Distinct fs) (tail : Option (RowVar V)) :
    visible (ofFields fs tail) = fs := by
  cases tail <;> exact Assoc.ofEntries_of_distinct h

end Row

/-! Types without origins. -/

namespace Ty

section

variable {V W : Type} (f : Kind → V → W)

mutual

/-- The type as it would be written: with other variables, and without the nodes it comes from. -/
def written : Ty V → Ty W
  | .leaf l _ => .leaf l none
  | .var v _ => .var (f .type v) none
  | .rowVar v _ => .rowVar (f .row v) none
  | .arrow d r _ => .arrow (writtenList d) (written r) none
  | .con n as _ => .con n (writtenList as) none
  | .record rows _ => .record (writtenRows rows) none

def writtenList : List (Ty V) → List (Ty W)
  | [] => []
  | t :: ts => written t :: writtenList ts

def writtenRows : List (Row V (Ty V)) → List (Row W (Ty W))
  | [] => []
  | .fields fs :: rows => .fields (writtenFields fs) :: writtenRows rows
  | .var v :: rows => .var ⟨f .row v.var, none⟩ :: writtenRows rows

def writtenFields : List (String × Ty V) → List (String × Ty W)
  | [] => []
  | (l, t) :: fs => (l, written t) :: writtenFields fs

end

theorem writtenList_eq (ts : List (Ty V)) : writtenList f ts = ts.map (written f) := by
  induction ts with
  | nil => rfl
  | cons t ts ih => rw [writtenList, ih, List.map_cons]

theorem writtenFields_eq (fs : Assoc (Ty V)) : writtenFields f fs = Assoc.mapValues (written f) fs := by
  induction fs with
  | nil => rfl
  | cons e fs ih => rw [writtenFields, ih, Assoc.mapValues_cons]

theorem written_arrow (d : List (Ty V)) (r : Ty V) (s : Option Node) :
    (arrow d r s).written f = arrow (d.map (written f)) (r.written f) none := by
  rw [written, writtenList_eq]

theorem written_con (n : String) (as : List (Ty V)) (s : Option Node) :
    (con n as s).written f = con n (as.map (written f)) none := by
  rw [written, writtenList_eq]

theorem written_record (fs : Assoc (Ty V)) (tail : Option (RowVar V)) (s : Option Node) :
    (record (Row.ofFields fs tail) s).written f =
      record (Row.ofFields (Assoc.mapValues (written f) fs) (tail.map fun v => ⟨f .row v.var, none⟩)) none := by
  cases tail <;> simp [written, Row.ofFields, writtenRows, writtenFields_eq]

end

/-- The name of a container that can be told from all else that is written: it has a capital and is not that of a
leaf. -/
structure ContainerName (name : String) : Prop where
  identifier : Text.isIdentifier name = true
  capital : Annotation.isContainerName name = true
  not_leaf : name ∉ ["Num", "Number", "Bool", "Boolean", "String", "Undefined"]

/-- A type that can be written as an annotation. Row variables stand in records only, records have at most one, before
their fields, and no label needs the number of a character. -/
inductive Writable {V : Type} : Ty V → Prop
  | leaf (l : Leaf) (s : Option Node) : Writable (.leaf l s)
  | var (v : V) (s : Option Node) : Writable (.var v s)
  | arrow {d : List (Ty V)} {r : Ty V} (s : Option Node) :
      (∀ t ∈ d, Writable t) → Writable r → Writable (.arrow d r s)
  | con {n : String} {as : List (Ty V)} (s : Option Node) :
      ContainerName n → (∀ t ∈ as, Writable t) → Writable (.con n as s)
  | record {fs : Assoc (Ty V)} (tail : Option (RowVar V)) (s : Option Node) :
      (∀ f ∈ fs, Writable f.2) → (∀ f ∈ fs, ∀ c ∈ f.1.toList, ¬ Text.ShownByNumber c) → Assoc.Distinct fs →
      Writable (.record (Row.ofFields fs tail) s)

end Ty

namespace Annotation

theorem leaf?_eq_none {name : String} (h : name ∉ ["Num", "Number", "Bool", "Boolean", "String", "Undefined"]) :
    leaf? name = none := by
  unfold leaf?
  split <;> first | rfl | simp at h

theorem leaf?_of_isName {name : String} (h : Kind.type.IsName name) : leaf? name = none := by
  apply leaf?_eq_none
  intro hmem
  have hname := h.2 rfl
  simp only [List.mem_cons, List.not_mem_nil, or_false] at hmem
  obtain rfl | rfl | rfl | rfl | rfl | rfl := hmem <;> cases hname

theorem leaf?_text (l : Leaf) : leaf? l.text = some l := by
  cases l <;> rfl

end Annotation

namespace Doc

open Annotation (Takes TakesField)

/-- However it is laid out, the document is read as the given type. -/
def Means (d : Doc) (a : Annotation) : Prop :=
  ∃ ts, d.Spells ts ∧ Takes Annotation.type ts a

theorem Means.compile {d : Doc} {a : Annotation} (h : d.Means a) {cs : List Char} (hcs : d.Lays cs) :
    Annotation.compile (String.ofList cs) = .ok a := by
  obtain ⟨ts, hspells, htakes⟩ := h
  have htokens := hspells cs hcs [] [] nofun .nil
  rw [List.append_nil, List.append_nil] at htokens
  refine Annotation.compile_eq_ok ?_ htakes
  rwa [String.toList_ofList]

/-- The document of a field of a record. -/
def MeansField (d : Doc) (f : String × Annotation) : Prop :=
  ∃ d', d = field f.1 d' ∧ (∀ c ∈ f.1.toList, ¬ Text.ShownByNumber c) ∧ d'.Means f.2

theorem exists_forall₂ {α β γ : Type} {R : α → β → Prop} {S : β → γ → Prop} {as : List α} {cs : List γ}
    (h : List.Forall₂ (fun a c => ∃ b, R a b ∧ S b c) as cs) :
    ∃ bs, List.Forall₂ R as bs ∧ List.Forall₂ S bs cs := by
  induction h with
  | nil => exact ⟨[], .nil, .nil⟩
  | cons h _ ih =>
      obtain ⟨b, hR, hS⟩ := h
      obtain ⟨bs, hRs, hSs⟩ := ih
      exact ⟨b :: bs, .cons hR hRs, .cons hS hSs⟩

theorem means_leaf (l : Leaf) : (text l.text).Means (.leaf l none) :=
  ⟨_, spells_name (by cases l <;> rfl), Annotation.takes_leaf ( Annotation.leaf?_text l)⟩

theorem means_var {name : String} (h : Kind.type.IsName name) : (text name).Means (.var name none) :=
  ⟨_, spells_name h.1, Annotation.takes_var ( Annotation.leaf?_of_isName h) (h.2 rfl)⟩

theorem means_arrow {ds : List Doc} {as : List Annotation} (hds : List.Forall₂ Means ds as) {d : Doc} {a : Annotation}
    (hd : d.Means a) : (arrow ds d).Means (.arrow as a none) := by
  obtain ⟨tss, hspells, htakes⟩ := exists_forall₂ hds
  obtain ⟨ts, hspell, htake⟩ := hd
  exact ⟨_, spells_arrow hspells hspell, Annotation.takes_arrow htakes htake⟩

theorem means_container {name : String} (hname : Ty.ContainerName name) {ds : List Doc} {as : List Annotation}
    (hds : List.Forall₂ Means ds as) : (container name ds).Means (.con name as none) := by
  obtain ⟨tss, hspells, htakes⟩ := exists_forall₂ hds
  have hleaf := Annotation.leaf?_eq_none hname.not_leaf
  exact ⟨_, spells_container hname.identifier hspells, Annotation.takes_container hleaf hname.capital htakes⟩

theorem means_record {ds : List Doc} {fs : Assoc Annotation} (hds : List.Forall₂ MeansField ds fs)
    (hd : Assoc.Distinct fs) {name : Option String} (hname : ∀ n ∈ name, Text.isIdentifier n = true) :
    (record (name.toList.map (fun n => text ("..." ++ n)) ++ ds)).Means
      (Ty.record (Row.ofFields fs (name.map fun n => ⟨n, none⟩)) none) := by
  have hfields : List.Forall₂ (fun d f => ∃ ts, d.Spells ts ∧ TakesField ts f) ds fs := by
    refine hds.imp ?_
    rintro _ f ⟨d, rfl, hlabel, ts, hspell, htake⟩
    have hread := spells_field f.1 hspell
    rw [Text.readLabel_eq_self_iff.mpr hlabel] at hread
    exact ⟨_, hread, ts, rfl, htake⟩
  obtain ⟨tss, hspells, htakes⟩ := exists_forall₂ hfields
  refine ⟨_, spells_record ?_, Annotation.takes_record htakes hd name⟩
  cases name with
  | none => exact hspells
  | some n => exact .cons (spells_rowVar (hname n rfl)) hspells

end Doc

namespace Ty

open Names (Ensures)

theorem rowDocs_ofFields (fs : Assoc (Ty Atom)) (tail : Option (RowVar Atom)) :
    rowDocs (Row.ofFields fs tail) = Row.ofFields (Assoc.mapValues doc fs) tail := by
  cases tail <;> simp [Row.ofFields, rowDocs, fieldDocs_eq]

/-- The names that are given out can be written. -/
theorem isName_title {names : Names} {k : Kind} {v : Atom} (hv : ∀ n, v = .name n → k.IsName n) :
    k.IsName (names.title k v) := by
  cases v with
  | name n => exact hv n rfl
  | id i => exact Names.isName_nth k _

theorem ensures_docList {ts : List (Ty Atom)}
    (h : ∀ t ∈ ts, Ensures t.doc fun d names => d.Means (t.written names.title)) :
    Ensures (docList ts) fun ds names => List.Forall₂ Doc.Means ds (ts.map (written names.title)) := by
  induction ts with
  | nil => exact .pure fun _ => .nil
  | cons t ts ih =>
      obtain ⟨ht, hts⟩ := List.forall_mem_cons.mp h
      rw [docList]
      exact .bind ht fun d => .bind (ih hts) fun ds => .pure fun _ hds hd => .cons hd hds

/-- Row variables come before fields, in the document as in the type. -/
theorem ensures_recordDoc {fs : Assoc (Ty Atom)} (hlabels : ∀ f ∈ fs, ∀ c ∈ f.1.toList, ¬ Text.ShownByNumber c)
    (hd : Assoc.Distinct fs) (hfs : ∀ f ∈ fs, Ensures f.2.doc fun d names => d.Means (f.2.written names.title))
    {tail : Option (RowVar Atom)} (htail : ∀ v ∈ tail, ∀ n, v.var = .name n → Kind.row.IsName n) (s : Option Node) :
    Ensures (recordDoc (Row.ofFields (Assoc.mapValues doc fs) tail)) fun d names =>
      d.Means ((record (Row.ofFields fs tail) s).written names.title) := by
  have hvars : Ensures (tail.toList.mapM fun v => do return Doc.text ("..." ++ (← Names.name .row v.var)))
      fun ds names => List.Forall₂ (fun d v => d = Doc.text ("..." ++ names.title .row v.var)) ds tail.toList :=
    .mapM fun v _ => .bind (Names.ensures_name .row v.var) fun n => .pure fun names hn => by rw [hn]
  have hfields : Ensures ((Assoc.mapValues doc fs).mapM fun f => do return Doc.field f.1 (← f.2))
      fun ds names => List.Forall₂ Doc.MeansField ds (Assoc.mapValues (written names.title) fs) := by
    simp only [Assoc.mapValues, List.forall₂_map_right_iff, List.mapM_map]
    refine .mapM fun f hf => .bind (hfs f hf) fun d => .pure fun names hd => ?_
    exact ⟨d, rfl, hlabels f hf, hd⟩
  rw [recordDoc, Row.vars_ofFields, Row.visible_ofFields (hd.mapValues doc)]
  refine .bind hvars fun vars => .bind hfields fun fields => .pure fun names hfields hvars => ?_
  have hvars : vars = tail.toList.map fun v => Doc.text ("..." ++ names.title .row v.var) := by
    rw [← List.forall₂_eq_eq_eq, List.forall₂_map_right_iff]
    exact hvars
  subst hvars
  have hnames : ∀ n ∈ tail.map fun v => names.title .row v.var, Text.isIdentifier n = true := by
    intro n hn
    obtain ⟨v, hv, rfl⟩ := Option.mem_map.mp hn
    exact (isName_title (htail v hv)).1
  have hmeans := Doc.means_record hfields (hd.mapValues _) hnames
  rw [Option.map_map, Option.toList_map, List.map_map] at hmeans
  rw [written_record]
  exact hmeans

/-- A type is printed as a document that is read as the type, with the names its variables have in the end. -/
theorem Writable.ensures_doc {t : Ty Atom} (ht : t.Writable) (hvars : ∀ x ∈ t.vars, ∀ n, x.2 = .name n → x.1.IsName n) :
    Ensures t.doc fun d names => d.Means (t.written names.title) := by
  induction ht with
  | leaf l s =>
      rw [doc]
      exact .pure fun _ => Doc.means_leaf l
  | var v s =>
      have hname (names : Names) : Kind.type.IsName (names.title .type v) :=
        isName_title (hvars (.type, v) (by simp [vars]))
      rw [doc]
      refine .bind (Names.ensures_name .type v) fun n => .pure fun names hn => ?_
      subst hn
      rw [written]
      exact Doc.means_var (hname names)
  | @arrow d r s _ _ ihd ihr =>
      simp only [vars, List.mem_append, mem_varsList] at hvars
      have hd : ∀ t ∈ d, _ := fun t ht => ihd t ht fun x hx => hvars x (.inl ⟨t, ht, hx⟩)
      have hr := ihr fun x hx => hvars x (.inr hx)
      rw [doc]
      refine .bind (ensures_docList hd) fun ds => .bind hr fun d' => .pure fun names hr hd => ?_
      rw [written_arrow]
      exact Doc.means_arrow hd hr
  | @con n as s hn _ ih =>
      simp only [vars, mem_varsList] at hvars
      have has : ∀ t ∈ as, _ := fun t ht => ih t ht fun x hx => hvars x ⟨t, ht, hx⟩
      rw [doc]
      refine .bind (ensures_docList has) fun ds => .pure fun names has => ?_
      rw [written_con]
      exact Doc.means_container hn has
  | @record fs tail s _ hlabels hdistinct ih =>
      simp only [mem_vars_ofFields] at hvars
      have hfs : ∀ f ∈ fs, Ensures f.2.doc fun d names => d.Means (f.2.written names.title) :=
        fun f hf => ih f hf fun x hx => hvars x (.inr ⟨f, hf, hx⟩)
      have htail : ∀ v ∈ tail, ∀ n, v.var = .name n → Kind.row.IsName n :=
        fun v hv => hvars _ (.inl ⟨v, hv, rfl⟩)
      rw [doc, rowDocs_ofFields]
      exact ensures_recordDoc hlabels hdistinct hfs htail s

end Ty

end ScriptTypes
