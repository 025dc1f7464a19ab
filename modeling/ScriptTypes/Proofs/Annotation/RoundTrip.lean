import ScriptTypes.Proofs.Annotation.Instances
import ScriptTypes.Proofs.Annotation.Printed

/-! Printing a type and reading the text gives the type back. Its variables are those of the type if they were named,
and have got names that tell them apart if they were numbered. In both cases the type is what the annotation says. -/

namespace ScriptTypes

namespace Ty

section Map

variable {U V W : Type} (f : Kind → V → W)

theorem map_var (v : V) (s : Option Node) : (var v s).map f = var (f .type v) s := rfl

theorem map_arrow (d : List (Ty V)) (r : Ty V) (s : Option Node) :
    (arrow d r s).map f = arrow (d.map (map f)) (r.map f) s := by
  simp only [funext (map_eq_relabel f), relabel_arrow, Option.map_id_fun, id_eq]

theorem map_con (n : String) (as : List (Ty V)) (s : Option Node) : (con n as s).map f = con n (as.map (map f)) s := by
  simp only [funext (map_eq_relabel f), relabel_con, Option.map_id_fun, id_eq]

theorem map_record (fs : Assoc (Ty V)) (tail : Option (RowVar V)) (s : Option Node) :
    (record (Row.ofFields fs tail) s).map f =
      record (Row.ofFields (Assoc.mapValues (map f) fs) (tail.map fun v => ⟨f .row v.var, v.src⟩)) s := by
  simp only [funext (map_eq_relabel f), relabel_record, Row.ofFields_map, Option.map_id_fun, id_eq]
  congr 3
  funext v
  rw [RowVar.relabel, Option.map_id_fun, id_eq]

variable {f}

theorem Writable.map {t : Ty V} (h : t.Writable) : (t.map f).Writable := by
  induction h with
  | leaf l s => exact .leaf l s
  | var v s => exact .var _ s
  | arrow s _ _ ihd ihr =>
      rw [map_arrow]
      exact .arrow s (List.forall_mem_map.mpr ihd) ihr
  | con s hn _ ih =>
      rw [map_con]
      exact .con s hn (List.forall_mem_map.mpr ih)
  | record tail s _ hlabels hd ih =>
      rw [map_record]
      exact .record _ s (List.forall_mem_map.mpr ih) (List.forall_mem_map.mpr hlabels) (hd.mapValues _)

/-- Renaming before and after a type is written is renaming as it is written. -/
theorem Writable.map_written_map {X : Type} {g : Kind → W → U} {h : Kind → U → X} {t : Ty V} (ht : t.Writable) :
    ((t.map f).written g).map h = t.written fun k v => h k (g k (f k v)) := by
  induction ht with
  | leaf l s => rfl
  | var v s => simp only [map_var, written]
  | @arrow d r s _ _ ihd ihr =>
      have hd : d.map ((Ty.map h ∘ written g) ∘ Ty.map f) = d.map (written fun k v => h k (g k (f k v))) :=
        List.map_congr_left ihd
      rw [map_arrow, written_arrow, written_arrow, map_arrow, ihr, List.map_map, List.map_map, hd]
  | @con n as s _ _ ih =>
      have has : as.map ((Ty.map h ∘ written g) ∘ Ty.map f) = as.map (written fun k v => h k (g k (f k v))) :=
        List.map_congr_left ih
      rw [map_con, written_con, written_con, map_con, List.map_map, List.map_map, has]
  | @record fs tail s _ _ _ ih =>
      have hfs : Assoc.mapValues (Ty.map h) (Assoc.mapValues (written g) (Assoc.mapValues (Ty.map f) fs)) =
          Assoc.mapValues (written fun k v => h k (g k (f k v))) fs := by
        simp only [Assoc.mapValues, List.map_map]
        exact List.map_congr_left fun e he => Prod.ext rfl (ih e he)
      rw [map_record, written_record, written_record, map_record, Option.map_map, Option.map_map, hfs]
      rfl

end Map

/-! Comparing a type with itself as it is written. -/

section Same

variable {I : Slots → Prop}

/-- The test is passed and keeps an invariant. -/
def Passes (I : Slots → Prop) (x : StateM Slots Bool) : Prop :=
  ∀ slots, I slots → (x slots).1 = true ∧ I (x slots).2

theorem passes_pure : Passes I (pure true) := fun _ h => ⟨rfl, h⟩

theorem Passes.and {x y : StateM Slots Bool} (hx : Passes I x) (hy : Passes I y) :
    Passes I (x >>= fun b => if b = true then y else pure false) := by
  intro slots h
  obtain ⟨hb, h⟩ := hx slots h
  have hrun : (x >>= fun b => if b = true then y else pure false) slots = y (x slots).2 := by
    change (if (x slots).1 = true then y else pure false) (x slots).2 = _
    rw [if_pos hb]
  rw [hrun]
  exact hy _ h

theorem Passes.allM {α : Type} {p : α → StateM Slots Bool} {as : List α} (h : ∀ a ∈ as, Passes I (p a)) :
    Passes I (as.allM p) := by
  induction as with
  | nil => exact passes_pure
  | cons a as ih =>
      obtain ⟨ha, has⟩ := List.forall_mem_cons.mp h
      intro slots hI
      obtain ⟨hb, hI⟩ := ha slots hI
      have hrun : (a :: as).allM p slots = as.allM p (p a slots).2 := by
        change (match (p a slots).1 with | true => as.allM p | false => pure false) (p a slots).2 = _
        rw [hb]
      rw [hrun]
      exact ih has _ hI

theorem passes_sameList {f : Kind → Ref → Ref} {ts : List (Ty Ref)} (h : ∀ t ∈ ts, Passes I ((t.written f).same t)) :
    Passes I (sameList (ts.map (written f)) ts) := by
  induction ts with
  | nil => exact passes_pure
  | cons t ts ih =>
      obtain ⟨ht, hts⟩ := List.forall_mem_cons.mp h
      rw [List.map_cons, sameList]
      exact ht.and (ih hts)

/-- A type is the same as it is written if each variable is. -/
theorem Writable.passes_same {f : Kind → Ref → Ref} {t : Ty Ref} (ht : t.Writable)
    (hvars : ∀ x ∈ t.vars, Passes I (Ref.same x.1 (f x.1 x.2) x.2)) : Passes I ((t.written f).same t) := by
  induction ht with
  | leaf l s =>
      rw [written, same, beq_self_eq_true]
      exact passes_pure
  | var v s =>
      rw [written, same]
      exact hvars (.type, v) (List.mem_singleton_self _)
  | @arrow d r s _ _ ihd ihr =>
      simp only [vars, List.mem_append, mem_varsList] at hvars
      rw [written_arrow, same, List.length_map, beq_self_eq_true, if_pos rfl]
      exact (passes_sameList fun t ht => ihd t ht fun x hx => hvars x (.inl ⟨t, ht, hx⟩)).and
        (ihr fun x hx => hvars x (.inr hx))
  | @con n as s _ _ ih =>
      simp only [vars, mem_varsList] at hvars
      rw [written_con, same, List.length_map, beq_self_eq_true, beq_self_eq_true, Bool.and_self, if_pos rfl]
      exact passes_sameList fun t ht => ih t ht fun x hx => hvars x ⟨t, ht, hx⟩
  | @record fs tail s _ _ hd ih =>
      simp only [mem_vars_ofFields] at hvars
      have htail : Passes I (sameTail (tail.map fun v => ⟨f .row v.var, none⟩) tail) := by
        cases tail with
        | none => exact passes_pure
        | some v => exact hvars _ (.inl ⟨v, rfl, rfl⟩)
      rw [written_record, same, rowTests_eq, Row.ofFields_map, sameRecord, Row.flatten_ofFields hd,
        Row.flatten_ofFields ((hd.mapValues _).mapValues _)]
      refine Passes.and ?_ ?_
      · rw [Option.map_id]
        exact htail
      · simp only [Assoc.mapValues, List.length_map, beq_self_eq_true, if_true, List.map_map]
        refine .allM (List.forall_mem_map.mpr fun e he => ?_)
        simp only [Function.comp_apply, Assoc.get?_of_mem hd he]
        exact ih e he fun x hx => hvars x (.inr ⟨e, he, hx⟩)

end Same

/-- All variables have numbers. -/
def Numbered (slots : Slots) (t : Ty Ref) : Prop :=
  ∀ x ∈ t.vars, ∃ i, x.2.id? slots x.1 = some i

/-- No variable has a number yet, and all have names that can be written. -/
def Named (slots : Slots) (t : Ty Ref) : Prop :=
  ∀ x ∈ t.vars, ∃ name scope, x.2 = .named name scope ∧ slots.get? x.1 scope name = none ∧ x.1.IsName name

end Ty

namespace Slots

variable {slots : Slots} {σ : Kind → Atom → String} {scope : Nat}

/-- What is known while an annotation is compared with the type it was made from. Nothing that was known is lost, and
each name of the annotation stands for the number it was made from. -/
structure Matching (slots : Slots) (σ : Kind → Atom → String) (scope : Nat) (now : Slots) : Prop where
  kept : ∀ {k} {v : Ref} {i}, v.id? slots k = some i → v.id? now k = some i
  named : ∀ {k name i}, now.get? k scope name = some i → name = σ k (.id i)

theorem passes_numbered (hσ : ∀ k, Function.Injective fun i => σ k (.id i)) {k : Kind} {v : Ref} {i : VarId}
    (hv : v.id? slots k = some i) :
    Ty.Passes (Matching slots σ scope) (Ref.same k (.named (σ k (v.atom slots k)) scope) v) := by
  have hatom : v.atom slots k = .id i := by simp only [Ref.atom, hv]
  intro now h
  rw [hatom, Ref.same, h.kept hv, Ref.id?]
  cases hnow : now.get? k scope (σ k (.id i)) with
  | some j =>
      cases hσ k (h.named hnow)
      exact ⟨beq_self_eq_true i, h⟩
  | none =>
      refine ⟨rfl, ?_, ?_⟩
      · intro k' w j hw
        cases w with
        | id w => exact hw
        | named name scope' => exact (extends_cons hnow i).kept (h.kept hw)
      · intro k' name j hname
        by_cases heq : (k', scope, name) = (k, scope, σ k (.id i))
        · cases heq
          cases (get?_cons_self k scope _ i now).symm.trans hname
          rfl
        · exact h.named ((get?_cons_of_ne heq i now).symm.trans hname)

theorem passes_named {k : Kind} {name : String} {scope' : Nat} (h : slots.get? k scope name = none)
    (h' : slots.get? k scope' name = none) (hσ : σ k (.name name) = name) :
    Ty.Passes (· = slots)
      (Ref.same k (.named (σ k ((Ref.named name scope').atom slots k)) scope) (.named name scope')) := by
  have hatom : (Ref.named name scope').atom slots k = .name name := by simp only [Ref.atom, Ref.id?, h']
  have hrun : Ref.same k (.named name scope) (.named name scope') slots = (true, slots) := by
    simp only [Ref.same, Ref.id?, h, h', Ref.sameName, beq_self_eq_true]
  rw [hatom, hσ]
  rintro _ rfl
  rw [hrun]
  exact ⟨rfl, rfl⟩

end Slots

namespace Annotation

/-- The document of a type can be read, with the names that are known in the end. -/
theorem means_resolve {slots : Slots} {t : Ty Ref} (ht : t.Writable) (hvars : t.Numbered slots ∨ t.Named slots) :
    ((t.resolve slots).doc.run .initial).1.Means
      ((t.resolve slots).written ((t.resolve slots).doc.run .initial).2.title) := by
  have hnames : ∀ x ∈ (t.resolve slots).vars, ∀ n, x.2 = .name n → x.1.IsName n := by
    intro x hx n hn
    rw [Ty.resolve, Ty.map_eq_relabel, Ty.vars_relabel] at hx
    obtain ⟨y, hy, rfl⟩ := List.mem_map.mp hx
    rcases hvars with hvars | hvars
    · obtain ⟨i, hi⟩ := hvars y hy
      simp [Ref.atom, hi] at hn
    · obtain ⟨name, scope, hname, hnone, hok⟩ := hvars y hy
      simp [hname, Ref.atom, Ref.id?, hnone] at hn
      exact hn ▸ hok
  exact (ht.map.ensures_doc hnames .initial).2 _ (.refl _)

/-- The type is what the annotation says. -/
theorem agrees_written {slots : Slots} {t : Ty Ref} (ht : t.Writable) (hvars : t.Numbered slots ∨ t.Named slots)
    {σ : Kind → Atom → String} (hσ : ∀ k, Function.Injective fun i => σ k (.id i))
    (hname : ∀ k name, σ k (.name name) = name) {scope : Nat} (hfresh : ∀ k name, slots.get? k scope name = none) :
    ((agrees ((t.resolve slots).written σ) scope t).run slots).1 = true := by
  have hwritten : (((t.resolve slots).written σ).map fun _ name => Ref.named name scope) =
      t.written fun k v => .named (σ k (v.atom slots k)) scope :=
    ht.map_written_map
  rw [agrees, hwritten]
  rcases hvars with hvars | hvars
  · refine (ht.passes_same (I := Slots.Matching slots σ scope) ?_ slots ⟨id, ?_⟩).1
    · intro x hx
      obtain ⟨i, hi⟩ := hvars x hx
      exact Slots.passes_numbered hσ hi
    · intro k name i h
      cases (hfresh k name).symm.trans h
  · refine (ht.passes_same (I := (· = slots)) ?_ slots rfl).1
    intro x hx
    obtain ⟨name, scope', hx, hnone, -⟩ := hvars x hx
    rw [hx]
    exact Slots.passes_named (hfresh _ _) hnone (hname _ _)

/-- Printing a type and reading the text, laid out in any way, gives the type with the names of its variables, and the
type is what the annotation says. -/
theorem compile_text {slots : Slots} {t : Ty Ref} (ht : t.Writable) (hvars : t.Numbered slots ∨ t.Named slots) :
    ∃ σ : Kind → Atom → String, (∀ k, Function.Injective fun i => σ k (.id i)) ∧ (∀ k name, σ k (.name name) = name) ∧
      (∀ cs, ((t.resolve slots).doc.run .initial).1.Lays cs →
        compile (String.ofList cs) = .ok ((t.resolve slots).written σ)) ∧
      compile (t.resolve slots).text = .ok ((t.resolve slots).written σ) ∧
      ∀ scope, (∀ k name, slots.get? k scope name = none) →
        ((agrees ((t.resolve slots).written σ) scope t).run slots).1 = true := by
  have hmeans := means_resolve ht hvars
  have hinjective (k : Kind) : Function.Injective fun i =>
      ((t.resolve slots).doc.run .initial).2.title k (.id i) :=
    (Names.nth_injective k).comp (Names.place_injective _ k)
  refine ⟨_, hinjective, fun _ _ => rfl, fun cs => hmeans.compile, ?_,
    fun scope => agrees_written ht hvars hinjective fun _ _ => rfl⟩
  have htext := hmeans.compile (Doc.lays_render Ty.width _)
  rwa [String.ofList_toList] at htext

/-- A function over a record with a label in quotes, with numbered variables and with named ones. -/
theorem compile_text_quoted_label :
    (∃ σ : Kind → Atom → String, (∀ k, Function.Injective fun i => σ k (.id i)) ∧
      compile "(\x7b ...r, \"a\\\"\": a \x7d, Foo) => Array(a)" =
        .ok (.arrow [.record [.var ⟨σ .row (.id 7), none⟩, .fields [("a\"", .var (σ .type (.id 3)) none)]] none,
          .con "Foo" [] none] (.con "Array" [.var (σ .type (.id 3)) none] none) none)) ∧
      compile "(elem) => \x7b ...rest, x: elem \x7d" =
        .ok (.arrow [.var "elem" none]
          (Ty.record [.var ⟨"rest", none⟩, .fields [("x", .var "elem" none)]] none) none) := by
  constructor
  · let t : Ty Ref := .arrow [.record (Row.ofFields [("a\"", .var (.id 3) none)] (some ⟨.id 7, none⟩)) none,
      .con "Foo" [] none] (.con "Array" [.var (.id 3) none] none) none
    have hlabel : ¬ Text.ShownByNumber 'a' ∧ ¬ Text.ShownByNumber '\x22' := by decide +kernel
    have hrecord : (Ty.record (Row.ofFields [("a\"", .var (Ref.id 3) none)] (some ⟨.id 7, none⟩)) none).Writable :=
      .record _ none (List.forall_mem_singleton.mpr (.var _ none)) (by simpa using hlabel) (by decide)
    have ht : t.Writable := by
      refine .arrow none ?_ (.con none ⟨by decide, by decide, by decide⟩ (List.forall_mem_singleton.mpr (.var _ none)))
      exact List.forall_mem_cons.mpr ⟨hrecord, List.forall_mem_singleton.mpr
        (.con none ⟨by decide, by decide, by decide⟩ nofun)⟩
    have hvars : t.Numbered [] := by
      intro x hx
      simp [t, Ty.vars, Ty.varsList, Ty.varsRows, Ty.varsFields, Row.ofFields] at hx
      rcases hx with rfl | rfl | rfl <;> exact ⟨_, rfl⟩
    obtain ⟨σ, hσ, -, -, htext, -⟩ := compile_text ht (.inl hvars)
    have hprinted : (t.resolve []).text = "(\x7b ...r, \"a\\\"\": a \x7d, Foo) => Array(a)" := by decide +kernel
    rw [hprinted] at htext
    exact ⟨σ, hσ, htext⟩
  · let t : Ty Ref := .arrow [.var (.named "elem" 0) none]
      (.record (Row.ofFields [("x", .var (.named "elem" 0) none)] (some ⟨.named "rest" 0, none⟩)) none) none
    have hlabel : ¬ Text.ShownByNumber 'x' := by decide +kernel
    have ht : t.Writable := by
      refine .arrow none (List.forall_mem_singleton.mpr (.var _ none)) ?_
      exact .record _ none (List.forall_mem_singleton.mpr (.var _ none)) (by simpa using hlabel) (by decide)
    have hvars : t.Named [] := by
      intro x hx
      simp [t, Ty.vars, Ty.varsList, Ty.varsRows, Ty.varsFields, Row.ofFields] at hx
      rcases hx with rfl | rfl | rfl <;> exact ⟨_, _, rfl, rfl, by decide, by decide⟩
    obtain ⟨σ, -, hσ, -, htext, -⟩ := compile_text ht (.inr hvars)
    have hprinted : (t.resolve []).text = "(elem) => \x7b ...rest, x: elem \x7d" := by decide +kernel
    have hwritten : (t.resolve []).written σ =
        .arrow [.var (σ .type (.name "elem")) none] (Ty.record [.var ⟨σ .row (.name "rest"), none⟩,
          .fields [("x", .var (σ .type (.name "elem")) none)]] none) none :=
      rfl
    rwa [hprinted, hwritten, hσ, hσ] at htext

end Annotation

end ScriptTypes
