import ScriptTypes.Annotation.Parser
import ScriptTypes.Proofs.Except
import ScriptTypes.Proofs.Unify.Shape

/-! The shape of annotations. A record type that is read gets one set of fields with distinct labels, and at most one
row variable before it, wherever the row variable is written. -/

namespace ScriptTypes

namespace Annotation

/-- A property of types that holds of all that is read, if it holds of the parts. What is read comes from no node. -/
structure Reading (P : Ty String → Prop) : Prop where
  leaf : ∀ l, P (.leaf l none)
  var : ∀ name, P (.var name none)
  arrow : ∀ {d r}, (∀ t ∈ d, P t) → P r → P (.arrow d r none)
  con : ∀ name {as}, (∀ t ∈ as, P t) → P (.con name as none)
  record : ∀ {fields : Assoc (Ty String)} {tail : Option (RowVar String)}, Assoc.Distinct fields →
    (∀ f ∈ fields, P f.2) → (∀ v ∈ tail, v.src = none) → P (.ofFields fields tail)

/-- What the four functions read from lexemes has a property. -/
structure Reads (P : Ty String → Prop) (ls : List AnnotationLexeme) : Prop where
  type : ∀ p, type ls = .ok p → P p.value
  types : ∀ p, types ls = .ok p → ∀ t ∈ p.value, P t
  record : ∀ fields tail p, Assoc.Distinct fields → (∀ f ∈ fields, P f.2) → (∀ v ∈ tail, v.src = none) →
    record fields tail ls = .ok p → P p.value
  recordNext : ∀ fields tail p, Assoc.Distinct fields → (∀ f ∈ fields, P f.2) → (∀ v ∈ tail, v.src = none) →
    recordNext fields tail ls = .ok p → P p.value

section Step

variable {P : Ty String → Prop} (hP : Reading P) {ls : List AnnotationLexeme}
  (ih : ∀ ls' : List AnnotationLexeme, ls'.length < ls.length → Reads P ls')

include hP ih

theorem reads_type {p : Parsed (Ty String) ls.length} (h : type ls = .ok p) : P p.value := by
  unfold type at h
  split at h
  · rename_i ls₁
    obtain ⟨⟨ts, ls₂, h₂⟩, hts, h⟩ := bind_eq_ok h
    have hts := (ih ls₁ (by simp)).types _ hts
    simp only at h
    split at h
    · rename_i ls₃ h₃ _
      obtain ⟨⟨range, ls₄, h₄⟩, hr, h⟩ := bind_eq_ok h
      cases h
      exact hP.arrow hts ((ih ls₃ (by simp at h₂ h₃ ⊢; omega)).type _ hr)
    · split at h
      · cases h
        exact hP.leaf .undefined
      · cases h
        exact hts _ (List.mem_singleton_self _)
      · cases h
  · rename_i ls₁
    obtain ⟨⟨t, ls₂, h₂⟩, ht, h⟩ := bind_eq_ok h
    cases h
    exact (ih ls₁ (by simp)).record [] none _ Assoc.distinct_nil (List.forall_mem_nil _) (by simp) ht
  · rename_i name _ ls₁
    split at h
    · cases h
      exact hP.leaf _
    · split at h
      · split at h
        · rename_i ls₂ h₂ _
          obtain ⟨⟨args, ls₃, h₃⟩, hargs, h⟩ := bind_eq_ok h
          cases h
          exact hP.con name ((ih ls₂ (by simp at h₂ ⊢; omega)).types _ hargs)
        · cases h
          exact hP.con name (List.forall_mem_nil _)
      · cases h
        exact hP.var name
  · cases h

theorem reads_types {p : Parsed (List (Ty String)) ls.length} (h : types ls = .ok p) : ∀ t ∈ p.value, P t := by
  unfold types at h
  split at h
  · cases h
    exact List.forall_mem_nil _
  · obtain ⟨⟨t, ls₁, h₁⟩, ht, h⟩ := bind_eq_ok h
    have ht := reads_type hP ih ht
    simp only at h
    split at h
    · rename_i ls₂ h₂ _
      obtain ⟨⟨ts, ls₃, h₃⟩, hts, h⟩ := bind_eq_ok h
      cases h
      exact List.forall_mem_cons.mpr ⟨ht, (ih ls₂ (by omega)).types _ hts⟩
    · obtain ⟨⟨⟨⟩, ls₂, h₂⟩, -, h⟩ := bind_eq_ok h
      cases h
      exact List.forall_mem_singleton.mpr ht

variable {fields : Assoc (Ty String)} {tail : Option (RowVar String)} (hd : Assoc.Distinct fields)
  (hfs : ∀ f ∈ fields, P f.2) (htail : ∀ v ∈ tail, v.src = none)

include hd hfs htail

theorem reads_record {p : Parsed (Ty String) ls.length} (h : record fields tail ls = .ok p) : P p.value := by
  unfold record at h
  split at h
  · cases h
    exact hP.record hd hfs htail
  · obtain ⟨⟨it, ls₁, h₁⟩, -, h⟩ := bind_eq_ok h
    cases it with
    | rowVar name =>
        simp only at h
        split at h
        · cases h
        · obtain ⟨⟨t, ls₂, h₂⟩, ht, h⟩ := bind_eq_ok h
          cases h
          refine (ih ls₁ h₁).recordNext fields _ _ hd hfs ?_ ht
          rintro v ⟨⟩
          rfl
    | label name =>
        obtain ⟨⟨⟨⟩, ls₂, h₂⟩, -, h⟩ := bind_eq_ok h
        obtain ⟨⟨t, ls₃, h₃⟩, ht, h⟩ := bind_eq_ok h
        obtain ⟨⟨t', ls₄, h₄⟩, ht', h⟩ := bind_eq_ok h
        cases h
        have ht := (ih ls₂ (by omega)).type _ ht
        refine (ih ls₃ (by omega)).recordNext _ tail _ (hd.insert name t) ?_ htail ht'
        rintro ⟨l, u⟩ hu
        rcases Assoc.mem_of_mem_insert hu with ⟨-, rfl⟩ | hu
        · exact ht
        · exact hfs _ hu

theorem reads_recordNext {p : Parsed (Ty String) ls.length} (h : recordNext fields tail ls = .ok p) : P p.value := by
  unfold recordNext at h
  split at h
  · rename_i ls₁ h₁ _
    obtain ⟨⟨t, ls₂, h₂⟩, ht, h⟩ := bind_eq_ok h
    cases h
    exact (ih ls₁ h₁).record fields tail _ hd hfs htail ht
  · obtain ⟨⟨⟨⟩, ls₁, h₁⟩, -, h⟩ := bind_eq_ok h
    cases h
    exact hP.record hd hfs htail

end Step

/-- By induction on the number of lexemes that are left: each function reads on from fewer of them. -/
theorem Reading.reads {P : Ty String → Prop} (hP : Reading P) (ls : List AnnotationLexeme) : Reads P ls := by
  induction hn : ls.length using Nat.strong_induction_on generalizing ls with
  | h n ih =>
      have ih : ∀ ls' : List AnnotationLexeme, ls'.length < ls.length → Reads P ls' :=
        fun ls' hlt => ih _ (hn ▸ hlt) ls' rfl
      exact {
        type := fun _ h => reads_type hP ih h
        types := fun _ h => reads_types hP ih h
        record := fun _ _ _ hd hfs htail h => reads_record hP ih hd hfs htail h
        recordNext := fun _ _ _ hd hfs htail h => reads_recordNext hP ih hd hfs htail h }

theorem Reading.of_compile {P : Ty String → Prop} (hP : Reading P) {source : String} {t : Annotation}
    (h : compile source = .ok t) : P t := by
  unfold compile at h
  split at h
  · cases h
  · rename_i ls _
    obtain ⟨⟨u, rest, hrest⟩, hu, h⟩ := bind_eq_ok h
    simp only at h
    split at h
    · cases h
      exact (hP.reads ls).type _ hu
    · cases h

theorem reading_canonical : Reading Ty.Canonical where
  leaf l := .leaf l none
  var name := .var name none
  arrow := .arrow none
  con name _ := .con name none
  record {fields tail} hd hfs _ := by
    rw [Ty.ofFields_eq]
    exact .record tail none (fun _ => trivial) hfs hd

/-- Every annotation that can be read is canonical. -/
theorem compile_canonical {source : String} {t : Annotation} (h : compile source = .ok t) : Ty.Canonical t :=
  reading_canonical.of_compile h

end Annotation

end ScriptTypes
