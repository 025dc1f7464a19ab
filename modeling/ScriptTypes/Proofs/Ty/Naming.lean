import Mathlib.Data.List.Forall2
import Mathlib.Data.List.GetD
import Mathlib.Data.List.Nodup
import ScriptTypes.Annotation.Parser
import ScriptTypes.Proofs.Assoc
import ScriptTypes.Ty.Printer

/-! The names that variables get when a type is printed. No two variables of a kind get one name, and every name can be
written as a variable. What holds of a document that is built while names are given out is said with the names known
in the end. -/

namespace ScriptTypes

namespace Names

variable {k : Kind}

/-- All that is known of the names is known later. -/
def Le (names later : Names) : Prop :=
  ∀ k, names.known k <+: later.known k

theorem Le.refl (names : Names) : names.Le names := fun _ => List.prefix_rfl

theorem Le.trans {a b c : Names} (hab : a.Le b) (hbc : b.Le c) : a.Le c := fun k => (hab k).trans (hbc k)

theorem le_add (names : Names) (k : Kind) (i : VarId) : names.Le (names.add k i) := by
  intro k'
  cases k <;> cases k' <;> simp [known, add]

/-- The place of a variable among the names, for one that is not known yet after all others. -/
def place (names : Names) (k : Kind) (i : VarId) : Nat :=
  ((names.known k).idxOf? i).getD ((names.known k).length + i)

/-- The name of a variable. -/
def title (names : Names) (k : Kind) : Atom → String
  | .name s => s
  | .id i => nth k (names.place k i)

theorem known_add (names : Names) (k : Kind) (i : VarId) : (names.add k i).known k = names.known k ++ [i] := by
  cases k <;> rfl

theorem title_of_idxOf? {names later : Names} (h : names.Le later) {i : VarId} {index : Nat}
    (hi : (names.known k).idxOf? i = some index) : later.title k (.id i) = nth k index := by
  obtain ⟨more, hmore⟩ := h k
  have hlater : (later.known k).idxOf? i = some index := by
    rw [List.idxOf?] at hi ⊢
    rw [← hmore, List.findIdx?_append, hi]
    rfl
  rw [title, place, hlater]
  rfl

/-! The names of a kind are told apart by their letter and their number. -/

/-- The number after the letter. -/
def suffix : Nat → List Char
  | 0 => []
  | n + 1 => (toString (n + 1)).toList

theorem toList_nth (k : Kind) (index : Nat) :
    (nth k index).toList =
      (letters k).getD (index % (letters k).length) ' ' :: suffix (index / (letters k).length) := by
  rw [nth]
  cases index / (letters k).length with
  | zero => simp [suffix]
  | succ n => simp [suffix]

theorem suffix_injective : Function.Injective suffix := by
  intro m n h
  cases m with
  | zero =>
      cases n with
      | zero => rfl
      | succ n => simp [suffix] at h
  | succ m =>
      cases n with
      | zero => simp [suffix] at h
      | succ n =>
          simp only [suffix, Nat.toString_eq_repr, Nat.toList_repr] at h
          have hvalue := congrArg (Nat.ofDigitChars 10 · 0) h
          simpa [Nat.ofDigitChars_toDigits] using hvalue

theorem isDigit_of_mem_suffix {n : Nat} {c : Char} (h : c ∈ suffix n) : c.isDigit = true := by
  cases n with
  | zero => cases h
  | succ n =>
      rw [suffix, Nat.toString_eq_repr, Nat.toList_repr] at h
      exact Nat.isDigit_of_mem_toDigits (by decide) (by decide) h

theorem getD_letters_injective {i j : Nat} (hi : i < (letters k).length) (hj : j < (letters k).length)
    (h : (letters k).getD i ' ' = (letters k).getD j ' ') : i = j := by
  have hnodup : (letters k).Nodup := by cases k <;> decide
  rw [List.getD_eq_getElem _ _ hi, List.getD_eq_getElem _ _ hj] at h
  exact (List.Nodup.getElem_inj_iff hnodup).mp h

theorem length_letters_pos (k : Kind) : 0 < (letters k).length := by
  cases k <;> decide

theorem nth_injective (k : Kind) : Function.Injective (nth k) := by
  intro m n h
  have hchars := congrArg String.toList h
  rw [toList_nth, toList_nth, List.cons.injEq] at hchars
  have hpos := length_letters_pos k
  have hmod := getD_letters_injective (Nat.mod_lt m hpos) (Nat.mod_lt n hpos) hchars.1
  have hdiv := suffix_injective hchars.2
  rw [← Nat.div_add_mod m (letters k).length, hmod, hdiv, Nat.div_add_mod]

theorem place_injective (names : Names) (k : Kind) : Function.Injective (names.place k) := by
  intro i j h
  unfold place at h
  cases hi : (names.known k).idxOf? i with
  | none =>
      cases hj : (names.known k).idxOf? j with
      | none => simpa [hi, hj] using h
      | some index =>
          obtain ⟨hlt, -⟩ := List.idxOf?_eq_some_iff.mp hj
          simp only [hi, hj, Option.getD_none, Option.getD_some] at h
          omega
  | some index =>
      obtain ⟨hlt, hget, -⟩ := List.idxOf?_eq_some_iff.mp hi
      cases hj : (names.known k).idxOf? j with
      | none =>
          simp only [hi, hj, Option.getD_none, Option.getD_some] at h
          omega
      | some index' =>
          obtain ⟨hlt', hget', -⟩ := List.idxOf?_eq_some_iff.mp hj
          simp only [hi, hj, Option.getD_some] at h
          subst h
          exact hget.symm.trans hget'

end Names

/-- A name that can be written for a variable: a type variable must not look like a container. -/
def Kind.IsName (k : Kind) (name : String) : Prop :=
  Text.isIdentifier name = true ∧ (k = .type → Annotation.isContainerName name = false)

theorem Names.isName_nth (k : Kind) (index : Nat) : k.IsName (nth k index) := by
  have hletters : (letters k).all (fun c => Text.isNameStart c && !c.isUpper) = true := by cases k <;> rfl
  have hlt := Nat.mod_lt index (length_letters_pos k)
  have hletter := List.all_eq_true.mp hletters _ (List.getElem_mem hlt)
  rw [← List.getD_eq_getElem _ ' ' hlt, Bool.and_eq_true, Bool.not_eq_true'] at hletter
  constructor
  · rw [Text.isIdentifier, toList_nth, Text.isName, hletter.1, Bool.true_and, List.all_eq_true]
    intro c hc
    have hdigit := isDigit_of_mem_suffix hc
    simp [Text.isNamePart, Char.isAlphanum, hdigit]
  · intro _
    unfold Annotation.isContainerName
    rw [toList_nth]
    exact hletter.2

/-- A computation under which names are given out. What it returns has a property that names the names known in the
end, whatever else gets a name after it. -/
def Names.Ensures {α : Type} (x : StateM Names α) (P : α → Names → Prop) : Prop :=
  ∀ names, names.Le (x names).2 ∧ ∀ later, (x names).2.Le later → P (x names).1 later

namespace Names

variable {α β : Type}

theorem Ensures.pure {a : α} {P : α → Names → Prop} (h : ∀ later, P a later) : Ensures (pure a) P :=
  fun names => ⟨.refl names, fun later _ => h later⟩

theorem Ensures.bind {x : StateM Names α} {f : α → StateM Names β} {P : α → Names → Prop} {Q : β → Names → Prop}
    (hx : Ensures x P) (hf : ∀ a, Ensures (f a) fun b later => P a later → Q b later) : Ensures (x >>= f) Q := by
  intro names
  obtain ⟨hle, hP⟩ := hx names
  obtain ⟨hle', hQ⟩ := hf (x names).1 (x names).2
  exact ⟨hle.trans hle', fun later hlater => hQ later hlater (hP later (hle'.trans hlater))⟩

theorem Ensures.mapM {f : α → StateM Names β} {R : α → β → Names → Prop} {as : List α}
    (h : ∀ a ∈ as, Ensures (f a) (R a)) :
    Ensures (as.mapM f) fun bs later => List.Forall₂ (fun b a => R a b later) bs as := by
  induction as with
  | nil => exact .pure fun _ => .nil
  | cons a as ih =>
      obtain ⟨ha, has⟩ := List.forall_mem_cons.mp h
      rw [List.mapM_cons]
      exact .bind ha fun b => .bind (ih has) fun bs => .pure fun _ hbs hb => .cons hb hbs

theorem name_of_known {names : Names} {k : Kind} {i : VarId} {index : Nat}
    (h : (names.known k).idxOf? i = some index) : name k (.id i) names = (nth k index, names) := by
  simp only [name, h]

theorem name_of_new {names : Names} {k : Kind} {i : VarId} (h : (names.known k).idxOf? i = none) :
    name k (.id i) names = (nth k (names.known k).length, names.add k i) := by
  simp only [name, h]

theorem ensures_name (k : Kind) (v : Atom) : Ensures (name k v) fun s later => s = later.title k v := by
  intro names
  cases v with
  | name s => exact ⟨.refl names, fun _ _ => rfl⟩
  | id i =>
      cases hi : (names.known k).idxOf? i with
      | some index =>
          rw [name_of_known hi]
          exact ⟨.refl names, fun later h => (title_of_idxOf? h hi).symm⟩
      | none =>
          have hnew : ((names.add k i).known k).idxOf? i = some (names.known k).length := by
            rw [List.idxOf?] at hi ⊢
            simp [known_add, List.findIdx?_append, hi]
          rw [name_of_new hi]
          exact ⟨names.le_add k i, fun later h => (title_of_idxOf? h hnew).symm⟩

end Names

theorem Ty.fieldDocs_eq (fs : List (String × Ty Atom)) : fieldDocs fs = Assoc.mapValues doc fs := by
  induction fs with
  | nil => rfl
  | cons f fs ih => rw [fieldDocs, ih, Assoc.mapValues_cons]

end ScriptTypes
