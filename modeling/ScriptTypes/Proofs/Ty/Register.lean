import Mathlib.Data.Finset.Card
import ScriptTypes.Proofs.Ty.Kinds
import ScriptTypes.Proofs.Ty.Naming
import ScriptTypes.Proofs.Ty.Renaming

/-! Names that are asked for one after the other, and the types that are printed with them. A register keeps each
numbered variable once, in the order of the first calls, so that a name says which variable it is. Printing types with
one register asks for their variables from left to right, and gives the texts of the types with the names in place of
the variables. -/

namespace ScriptTypes

/-! The names of each kind. -/

namespace Names

/-- The names with the given number after the letter, in the order of the letters. -/
def round (k : Kind) (number : Nat) : List String :=
  (letters k).map fun letter => String.ofList (letter :: suffix number)

theorem nth_mul_add (k : Kind) (number : Nat) {i : Nat} (hi : i < (letters k).length) :
    nth k (number * (letters k).length + i) = String.ofList ((letters k).getD i ' ' :: suffix number) := by
  have hmod : (number * (letters k).length + i) % (letters k).length = i := by
    rw [Nat.mul_comm, Nat.mul_add_mod, Nat.mod_eq_of_lt hi]
  have hdiv : (number * (letters k).length + i) / (letters k).length = number := by
    rw [Nat.mul_comm, Nat.mul_add_div (length_letters_pos k), Nat.div_eq_of_lt hi, Nat.add_zero]
  rw [← String.toList_inj, toList_nth, hmod, hdiv, String.toList_ofList]

/-- The names of a kind are its letters without number, then its letters with each number in turn. -/
theorem map_nth_range (k : Kind) (rounds : Nat) :
    (List.range (rounds * (letters k).length)).map (nth k) = (List.range rounds).flatMap (round k) := by
  induction rounds with
  | zero => simp
  | succ rounds ih =>
      have hround : (List.range (letters k).length).map (fun i => nth k (rounds * (letters k).length + i)) =
          round k rounds := by
        refine List.ext_getElem (by simp [round]) fun i hi _ => ?_
        rw [List.length_map, List.length_range] at hi
        simp [round, nth_mul_add k rounds hi, List.getElem?_eq_getElem hi]
      rw [Nat.succ_mul, List.range_add, List.map_append, ih, List.map_map, List.range_succ, List.flatMap_append,
        List.flatMap_singleton, ← hround]
      rfl

/-- No letter is used for both kinds. -/
theorem disjoint_letters : List.Disjoint (letters .type) (letters .row) := by
  have hall : (letters .type).all (fun c => !(letters .row).contains c) = true := by decide
  intro c hc hc'
  simpa [hc'] using List.all_eq_true.mp hall c hc

theorem getD_letters_mem (k : Kind) (index : Nat) :
    (letters k).getD (index % (letters k).length) ' ' ∈ letters k := by
  have hlt := Nat.mod_lt index (length_letters_pos k)
  rw [List.getD_eq_getElem _ _ hlt]
  exact List.getElem_mem hlt

/-- A name says its kind and its place. -/
theorem nth_inj {k k' : Kind} {m n : Nat} : nth k m = nth k' n ↔ k = k' ∧ m = n := by
  constructor
  · intro h
    have hhead : (letters k).getD (m % (letters k).length) ' ' = (letters k').getD (n % (letters k').length) ' ' := by
      have hchars := congrArg String.toList h
      rw [toList_nth, toList_nth] at hchars
      exact (List.cons.inj hchars).1
    have hk : k = k' := by
      have hm := getD_letters_mem k m
      have hn := getD_letters_mem k' n
      rw [hhead] at hm
      cases k <;> cases k'
      · rfl
      · exact (disjoint_letters hm hn).elim
      · exact (disjoint_letters hn hm).elim
      · rfl
    subst hk
    exact ⟨rfl, nth_injective k h⟩
  · rintro ⟨rfl, rfl⟩
    rfl

theorem title_id_inj (names : Names) {k k' : Kind} {i j : VarId} :
    names.title k (.id i) = names.title k' (.id j) ↔ k = k' ∧ i = j := by
  rw [title, title, nth_inj]
  constructor
  · rintro ⟨rfl, h⟩
    exact ⟨rfl, names.place_injective k h⟩
  · rintro ⟨rfl, rfl⟩
    exact ⟨rfl, rfl⟩

/-! Calls. -/

/-- Ask for names one after the other. -/
def nameAll (calls : List (Kind × Atom)) : StateM Names (List String) :=
  calls.mapM fun call => name call.1 call.2

/-- The register after some calls. -/
def after (names : Names) (calls : List (Kind × Atom)) : Names :=
  (nameAll calls names).2

/-- The names that a new register gives out. -/
def answers (calls : List (Kind × Atom)) : List String :=
  (nameAll calls .initial).1

@[simp] theorem after_nil (names : Names) : names.after [] = names := rfl

@[simp] theorem after_cons (names : Names) (call : Kind × Atom) (calls : List (Kind × Atom)) :
    names.after (call :: calls) = ((name call.1 call.2) names).2.after calls := by
  rw [after, nameAll, List.mapM_cons]
  rfl

theorem after_append (names : Names) (calls calls' : List (Kind × Atom)) :
    names.after (calls ++ calls') = (names.after calls).after calls' := by
  induction calls generalizing names with
  | nil => rfl
  | cons call calls ih => rw [List.cons_append, after_cons, after_cons, ih]

theorem ensures_nameAll (calls : List (Kind × Atom)) :
    Ensures (nameAll calls) fun answers later => answers = calls.map fun call => later.title call.1 call.2 := by
  have h : Ensures (nameAll calls) fun answers later =>
      List.Forall₂ (fun answer call => answer = later.title call.1 call.2) answers calls :=
    .mapM fun call _ => ensures_name call.1 call.2
  refine fun names => ⟨(h names).1, fun later hlater => ?_⟩
  change (nameAll calls names).1 = _
  rw [← List.forall₂_eq_eq_eq, List.forall₂_map_right_iff]
  exact (h names).2 later hlater

theorem le_after (names : Names) (calls : List (Kind × Atom)) : names.Le (names.after calls) :=
  (ensures_nameAll calls names).1

theorem answers_eq (calls : List (Kind × Atom)) :
    answers calls = calls.map fun call => (initial.after calls).title call.1 call.2 :=
  (ensures_nameAll calls initial).2 _ (.refl _)

/-- A register holds the numbered variables of the calls, each once. -/
structure Records (names : Names) (calls : List (Kind × Atom)) : Prop where
  nodup : ∀ k, (names.known k).Nodup
  mem_known : ∀ k i, i ∈ names.known k ↔ (k, .id i) ∈ calls

theorem known_add_of_ne (names : Names) {k k' : Kind} (h : k' ≠ k) (i : VarId) :
    (names.add k i).known k' = names.known k' := by
  cases k <;> cases k' <;> first | rfl | exact absurd rfl h

theorem Records.name {names : Names} {calls : List (Kind × Atom)} (h : names.Records calls) (k : Kind) (v : Atom) :
    ((name k v) names).2.Records (calls ++ [(k, v)]) := by
  cases v with
  | name s =>
      have hrun : Names.name k (.name s) names = (s, names) := rfl
      rw [hrun]
      refine ⟨h.nodup, fun k' i => ?_⟩
      simp [h.mem_known]
  | id i =>
      cases hi : (names.known k).idxOf? i with
      | some index =>
          have hcalled : (k, Atom.id i) ∈ calls := by
            rw [← h.mem_known, ← List.isSome_idxOf?, hi]
            rfl
          rw [name_of_known hi]
          refine ⟨h.nodup, fun k' j => ?_⟩
          rw [h.mem_known, List.mem_append, List.mem_singleton]
          refine ⟨.inl, fun hj => hj.elim id fun hj => hj ▸ hcalled⟩
      | none =>
          have hnew : i ∉ names.known k := List.idxOf?_eq_none_iff.mp hi
          rw [name_of_new hi]
          refine ⟨fun k' => ?_, fun k' j => ?_⟩
          · by_cases hk : k' = k
            · subst hk
              rw [known_add, List.nodup_append]
              refine ⟨h.nodup k', List.nodup_singleton i, fun a ha b hb => ?_⟩
              rw [List.mem_singleton.mp hb]
              exact fun hab => hnew (hab ▸ ha)
            · rw [names.known_add_of_ne hk]
              exact h.nodup k'
          · by_cases hk : k' = k
            · subst hk
              simp [known_add, h.mem_known]
            · rw [names.known_add_of_ne hk, h.mem_known]
              simp [hk]

theorem records_after (calls : List (Kind × Atom)) : (initial.after calls).Records calls := by
  induction calls using List.reverseRecOn with
  | nil => exact ⟨fun k => by cases k <;> exact List.nodup_nil, fun k i => by cases k <;> simp [initial, known]⟩
  | append_singleton calls call ih =>
      rw [after_append]
      exact ih.name call.1 call.2

/-- The variables of a kind that calls ask for. -/
def numbered (k : Kind) (calls : List (Kind × Atom)) : List VarId :=
  calls.filterMap fun call =>
    match call.2 with
    | .id i => if call.1 = k then some i else none
    | .name _ => none

theorem mem_numbered {k : Kind} {calls : List (Kind × Atom)} {i : VarId} :
    i ∈ numbered k calls ↔ (k, .id i) ∈ calls := by
  rw [numbered, List.mem_filterMap]
  constructor
  · rintro ⟨⟨k', v⟩, hmem, hv⟩
    cases v with
    | id j =>
        obtain ⟨rfl, hj⟩ := Option.ite_none_right_eq_some.mp hv
        cases hj
        exact hmem
    | name s => cases hv
  · exact fun hmem => ⟨_, hmem, if_pos rfl⟩

/-- As many variables of a kind are known as have been asked for. -/
theorem Records.length_known {names : Names} {calls : List (Kind × Atom)} (h : names.Records calls) (k : Kind) :
    (names.known k).length = (numbered k calls).toFinset.card := by
  rw [← List.toFinset_card_of_nodup (h.nodup k)]
  refine congrArg Finset.card (Finset.ext fun i => ?_)
  rw [List.mem_toFinset, List.mem_toFinset, h.mem_known, mem_numbered]

/-- The first call for a variable gives it the next name. -/
theorem title_of_new {before rest : List (Kind × Atom)} {k : Kind} {i : VarId} (hnew : (k, .id i) ∉ before) :
    (initial.after (before ++ (k, .id i) :: rest)).title k (.id i) = nth k (numbered k before).toFinset.card := by
  have hrecords := records_after before
  have hnone : ((initial.after before).known k).idxOf? i = none := by
    rw [List.idxOf?_eq_none_iff, hrecords.mem_known]
    exact hnew
  have hle : ((name k (.id i)) (initial.after before)).2.Le (initial.after (before ++ (k, .id i) :: rest)) := by
    rw [after_append, after_cons]
    exact le_after _ rest
  have hname := (ensures_name k (.id i) (initial.after before)).2 _ hle
  rw [← hname, name_of_new hnone, hrecords.length_known]

/-- Answers to calls that tell variables apart. -/
structure Faithful (calls : List (Kind × Atom)) (answers : List String) : Prop where
  length_eq : answers.length = calls.length
  /-- Two numbered variables have one name if and only if they are one variable of one kind, at whichever calls. -/
  eq_iff : ∀ (m n : Nat) k k' i j, calls[m]? = some (k, .id i) → calls[n]? = some (k', .id j) →
    (answers[m]? = answers[n]? ↔ k = k' ∧ i = j)
  /-- A variable that comes after so many others of its kind has the name of that number. -/
  new : ∀ (before rest : List (Kind × Atom)) (k : Kind) (i : VarId), calls = before ++ (k, .id i) :: rest →
    (k, .id i) ∉ before → answers[before.length]? = some (nth k (numbered k before).toFinset.card)
  /-- A variable without number has its own name. -/
  own : ∀ (n : Nat) k s, calls[n]? = some (k, .name s) → answers[n]? = some s

theorem faithful_answers (calls : List (Kind × Atom)) : Faithful calls (answers calls) := by
  have hanswer {n : Nat} {call : Kind × Atom} (h : calls[n]? = some call) :
      (answers calls)[n]? = some ((initial.after calls).title call.1 call.2) := by
    rw [answers_eq, List.getElem?_map, h]
    rfl
  refine ⟨by rw [answers_eq, List.length_map], fun m n k k' i j hm hn => ?_, fun before rest k i hcalls hnew => ?_,
    fun n k s hn => hanswer hn⟩
  · rw [hanswer hm, hanswer hn, Option.some.injEq]
    exact title_id_inj _
  · have hn : calls[before.length]? = some (k, .id i) := by simp [hcalls]
    rw [hanswer hn, hcalls, title_of_new hnew]

/-! Computations that ask for names. -/

variable {α β γ : Type}

/-- The computation `x` makes the given calls and no others. What it returns depends on the names only, and `y` returns
it without a register, once it is told the names. -/
def Uses (calls : List (Kind × Atom)) (x : StateM Names α) (y : (Kind → Atom → String) → StateM Names α) : Prop :=
  ∃ value : (Kind → Atom → String) → α, (∀ title, y title = pure (value title)) ∧
    ∀ names, (x names).2 = names.after calls ∧
      ∀ later, (names.after calls).Le later → (x names).1 = value later.title

theorem Uses.pure (a : α) : Uses [] (pure a) fun _ => pure a :=
  ⟨fun _ => a, fun _ => rfl, fun _ => ⟨rfl, fun _ _ => rfl⟩⟩

theorem uses_name (k : Kind) (v : Atom) : Uses [(k, v)] (name k v) fun title => Pure.pure (title k v) :=
  ⟨fun title => title k v, fun _ => rfl, fun names => ⟨rfl, fun later hlater => (ensures_name k v names).2 later hlater⟩⟩

theorem Uses.bind {calls calls' : List (Kind × Atom)} {x : StateM Names α} {y : (Kind → Atom → String) → StateM Names α}
    {f : α → StateM Names β} {g : (Kind → Atom → String) → α → StateM Names β} (hx : Uses calls x y)
    (hf : ∀ a, Uses calls' (f a) fun title => g title a) :
    Uses (calls ++ calls') (x >>= f) fun title => y title >>= g title := by
  obtain ⟨value, hy, hvalue⟩ := hx
  choose value' hg hvalue' using hf
  refine ⟨fun title => value' (value title) title, fun title => ?_, fun names => ?_⟩
  · simp only [hy, pure_bind, hg]
  · obtain ⟨hregister, hx⟩ := hvalue names
    obtain ⟨hregister', hf⟩ := hvalue' (x names).1 (names.after calls)
    have hrun : (x >>= f) names = f (x names).1 (names.after calls) := by
      rw [← hregister]
      rfl
    rw [hrun, after_append]
    refine ⟨hregister', fun later hlater => ?_⟩
    rw [hf later hlater, hx later ((le_after _ calls').trans hlater)]

theorem Uses.map {calls : List (Kind × Atom)} {x : StateM Names α} {y : (Kind → Atom → String) → StateM Names α}
    (hx : Uses calls x y) (f : α → β) : Uses calls (f <$> x) fun title => f <$> y title := by
  have h := hx.bind fun a => Uses.pure (f a)
  simpa only [List.append_nil, bind_pure_comp] using h

theorem Uses.mapM {calls : γ → List (Kind × Atom)} {f : γ → StateM Names β}
    {g : (Kind → Atom → String) → γ → StateM Names β} {cs : List γ}
    (h : ∀ c ∈ cs, Uses (calls c) (f c) fun title => g title c) :
    Uses (cs.flatMap calls) (cs.mapM f) fun title => cs.mapM (g title) := by
  induction cs with
  | nil => exact .pure []
  | cons c cs ih =>
      obtain ⟨hc, hcs⟩ := List.forall_mem_cons.mp h
      simp only [List.mapM_cons, List.flatMap_cons]
      refine hc.bind fun b => ?_
      simpa only [bind_pure_comp] using (ih hcs).map (b :: ·)

end Names

/-! Types. -/

namespace Ty

mutual

/-- The variables of a type in the order of its text. Fields that later ones hide do not come in it. -/
def printed : Ty Atom → List (Kind × Atom)
  | .leaf _ _ => []
  | .var v _ => [(.type, v)]
  | .rowVar v _ => [(.row, v)]
  | .arrow d r _ => printedList d ++ printed r
  | .con _ as _ => printedList as
  | .record rows _ =>
      (Row.vars rows).map (fun v => (.row, v.var)) ++ (Row.visible (printedRows rows)).flatMap Prod.snd

def printedList : List (Ty Atom) → List (Kind × Atom)
  | [] => []
  | t :: ts => printed t ++ printedList ts

def printedRows : List (Row Atom (Ty Atom)) → List (Row Atom (List (Kind × Atom)))
  | [] => []
  | .fields fs :: rows => .fields (printedFields fs) :: printedRows rows
  | .var v :: rows => .var v :: printedRows rows

def printedFields : List (String × Ty Atom) → List (String × List (Kind × Atom))
  | [] => []
  | (l, t) :: fs => (l, printed t) :: printedFields fs

end

theorem printedList_eq (ts : List (Ty Atom)) : printedList ts = ts.flatMap printed := by
  induction ts with
  | nil => rfl
  | cons t ts ih => rw [printedList, ih, List.flatMap_cons]

theorem printedFields_eq (fs : List (String × Ty Atom)) : printedFields fs = Assoc.mapValues printed fs := by
  induction fs with
  | nil => rfl
  | cons f fs ih => rw [printedFields, ih, Assoc.mapValues_cons]

theorem printedRows_eq (rows : List (Row Atom (Ty Atom))) : printedRows rows = rows.map (Row.map id printed) := by
  induction rows with
  | nil => rfl
  | cons row rows ih =>
      cases row with
      | fields fs => rw [printedRows, ih, printedFields_eq, List.map_cons, Row.map]
      | var v => rw [printedRows, ih, List.map_cons, Row.map, id]

theorem printed_record (rows : List (Row Atom (Ty Atom))) (s : Option Node) :
    (record rows s).printed =
      (Row.vars rows).flatMap (fun v => [(.row, v.var)]) ++ (Row.visible rows).flatMap fun f => f.2.printed := by
  rw [printed, printedRows_eq, Row.visible_map, Assoc.mapValues, List.flatMap_map, List.map_eq_flatMap]

theorem docList_eq (ts : List (Ty Atom)) : docList ts = ts.mapM doc := by
  induction ts with
  | nil => rfl
  | cons t ts ih => rw [docList, ih, List.mapM_cons]

theorem rowDocs_eq (rows : List (Row Atom (Ty Atom))) : rowDocs rows = rows.map (Row.map id doc) := by
  induction rows with
  | nil => rfl
  | cons row rows ih =>
      cases row with
      | fields fs => rw [rowDocs, ih, fieldDocs_eq, List.map_cons, Row.map]
      | var v => rw [rowDocs, ih, List.map_cons, Row.map, id]

/-- The document of a record from the variables and the fields that can be seen. -/
theorem doc_record (rows : List (Row Atom (Ty Atom))) (s : Option Node) :
    (record rows s).doc = (do
      let vars ← (Row.vars rows).mapM fun v => return Doc.text ("..." ++ (← Names.name .row v.var))
      let fields ← (Row.visible rows).mapM fun f => return Doc.field f.1 (← f.2.doc)
      return Doc.record (vars ++ fields)) := by
  rw [doc, rowDocs_eq, recordDoc, Row.vars_map, Row.visible_map, List.map_id]
  simp only [Assoc.mapValues, List.mapM_map]
  rfl

/-- The type with names in place of its variables. -/
def named (title : Kind → Atom → String) (t : Ty Atom) : Ty Atom :=
  t.map fun k v => .name (title k v)

theorem named_eq (title : Kind → Atom → String) : named title = relabel (fun k v => .name (title k v)) id :=
  funext fun t => map_eq_relabel _ t

theorem named_arrow (title : Kind → Atom → String) (d : List (Ty Atom)) (r : Ty Atom) (s : Option Node) :
    (arrow d r s).named title = arrow (d.map (named title)) (r.named title) s := by
  rw [named_eq, relabel_arrow, Option.map_id, id]

theorem named_con (title : Kind → Atom → String) (n : String) (as : List (Ty Atom)) (s : Option Node) :
    (con n as s).named title = con n (as.map (named title)) s := by
  rw [named_eq, relabel_con, Option.map_id, id]

theorem named_record (title : Kind → Atom → String) (rows : List (Row Atom (Ty Atom))) (s : Option Node) :
    (record rows s).named title =
      record (rows.map (Row.map (RowVar.relabel (fun k v => .name (title k v)) id) (named title))) s := by
  rw [named_eq, relabel_record, Option.map_id, id]

open Names (Uses uses_name)

theorem uses_docList {ts : List (Ty Atom)} (h : ∀ t ∈ ts, Uses t.printed t.doc fun title => (t.named title).doc) :
    Uses (printedList ts) (docList ts) fun title => docList (ts.map (named title)) := by
  simp only [docList_eq, printedList_eq, List.mapM_map]
  exact .mapM h

/-- The document of a type is that of the type with names in place of its variables. -/
theorem uses_doc (t : Ty Atom) : Uses t.printed t.doc fun title => (t.named title).doc := by
  induction t using ind with
  | leaf l s => exact .pure (Doc.text l.text)
  | var v s => exact (uses_name .type v).map Doc.text
  | rowVar v s => exact (uses_name .row v).map Doc.text
  | arrow d r s ihd ihr =>
      simp only [named_arrow, doc, printed]
      exact (uses_docList ihd).bind fun ds => ihr.map fun d => Doc.arrow ds d
  | con n as s ih =>
      simp only [named_con, doc, printed]
      exact (uses_docList ih).map fun ds => Doc.container n ds
  | record rows s ih =>
      have hfield : ∀ f ∈ Row.visible rows, Uses f.2.printed f.2.doc fun title => (f.2.named title).doc := by
        intro f hf
        obtain ⟨fs, hfs, hmem⟩ := Row.mem_visible hf
        exact ih fs hfs f hmem
      simp only [named_record, doc_record, printed_record, Row.vars_map, Row.visible_map, Assoc.mapValues,
        List.mapM_map]
      have hvars := Uses.mapM fun v (_ : v ∈ Row.vars rows) =>
        (uses_name .row v.var).map fun name => Doc.text ("..." ++ name)
      have hfields := Uses.mapM fun f hf => (hfield f hf).map fun d => Doc.field f.1 d
      exact hvars.bind fun vars => hfields.map fun fields => Doc.record (vars ++ fields)

theorem uses_render (t : Ty Atom) : Uses t.printed t.render fun title => pure (t.named title).text := by
  have h := (uses_doc t).map (Doc.render width)
  obtain ⟨value, hvalue, hnames⟩ := h
  refine ⟨value, fun title => ?_, hnames⟩
  have hrender : (t.named title).render = pure (value title) := hvalue title
  exact congrArg (fun x : StateM Names String => (pure (x .initial).1 : StateM Names String)) hrender

end Ty

namespace Names

/-- Names are faithful. Whichever calls are made of one register, a variable has one name at all of them and no other
variable has that name, neither of its kind nor of the other. Names are given out in order, and that is the order of the
letters of a kind, first alone and then with each number. So it is for types that are printed with one register: they
make the calls of their variables, and their texts are those of the types with the answers in place of the variables. -/
theorem answers_faithful (calls : List (Kind × Atom)) (ts : List (Ty Atom)) :
    Faithful calls (answers calls) ∧
      (∀ k rounds, (List.range (rounds * (letters k).length)).map (nth k) = (List.range rounds).flatMap (round k)) ∧
      ∃ title : Kind → Atom → String,
        answers (ts.flatMap Ty.printed) = (ts.flatMap Ty.printed).map (fun call => title call.1 call.2) ∧
          (ts.mapM Ty.render).run .initial =
            (ts.map fun t => (t.named title).text, initial.after (ts.flatMap Ty.printed)) := by
  refine ⟨faithful_answers calls, map_nth_range, (initial.after (ts.flatMap Ty.printed)).title, answers_eq _, ?_⟩
  obtain ⟨value, hvalue, hnames⟩ := Uses.mapM fun t (_ : t ∈ ts) => Ty.uses_render t
  have htexts := (List.mapM_pure ..).symm.trans (hvalue (initial.after (ts.flatMap Ty.printed)).title)
  have hvalues := (hnames initial).2 _ (.refl _)
  exact Prod.ext (hvalues.trans (congrArg (fun x => (x initial).1) htexts).symm) (hnames initial).1

example : answers [(.type, .id 4), (.row, .id 4), (.type, .id 2), (.type, .id 4)] = ["a", "r", "b", "a"] := by decide

end Names

end ScriptTypes
