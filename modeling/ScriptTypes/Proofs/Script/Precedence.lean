import ScriptTypes.Proofs.Script.Operands

/-! How operands are grouped. A chain of operands and binary operators is read as a tree in which the operators stand by
their levels, and there is one such tree. -/

namespace ScriptTypes

/-! Chains and their groupings. -/

/-- The lexeme of a binary operator. -/
structure Operator where
  lexeme : Lexeme
  op : BinaryOp
  spells : lexeme.token = .symbol op.symbol

/-- Operands with an operator between each two. -/
@[ext]
structure Chain (α : Type) where
  first : α
  more : List (Operator × α)

/-- A tree of binary operators over operands. -/
inductive Grouping (α : Type)
  | operand (a : α)
  | node (operator : Operator) (left right : Grouping α)

/-- Which operators may stand below an operator. A power has an operand on its left, and an operand or a power on its
right. Another operator has operators of its level or tighter ones on its left, and tighter ones on its right. -/
def BinaryOp.Fits (op : BinaryOp) (left right : Option BinaryOp) : Prop :=
  if op = .pow then left = none ∧ ∀ op' ∈ right, op' = .pow
  else (∀ op' ∈ left, op.level ≤ op'.level) ∧ ∀ op' ∈ right, op.level < op'.level

instance (op : BinaryOp) (left right : Option BinaryOp) : Decidable (op.Fits left right) :=
  inferInstanceAs (Decidable (if op = .pow then left = none ∧ ∀ op' ∈ right, op' = .pow
    else (∀ op' ∈ left, op.level ≤ op'.level) ∧ ∀ op' ∈ right, op.level < op'.level))

theorem BinaryOp.eq_pow_of_level {op : BinaryOp} (h : 6 ≤ op.level) : op = .pow := by
  cases op <;> first | rfl | exact absurd h (by decide)

namespace BinaryOp.Fits

variable {op : BinaryOp} {left right : Option BinaryOp}

theorem left_eq_none (h : op.Fits left right) (hpow : op = .pow) : left = none := by
  rw [Fits, if_pos hpow] at h
  exact h.1

theorem level_lt_right (h : op.Fits left right) (hpow : op ≠ .pow) : ∀ op' ∈ right, op.level < op'.level := by
  rw [Fits, if_neg hpow] at h
  exact h.2

theorem level_le_left (h : op.Fits left right) : ∀ op' ∈ left, op.level ≤ op'.level := by
  by_cases hpow : op = .pow
  · rw [h.left_eq_none hpow]
    exact fun _ hop' => nomatch hop'
  · rw [Fits, if_neg hpow] at h
    exact h.1

theorem level_le_right (h : op.Fits left right) : ∀ op' ∈ right, op.level ≤ op'.level := by
  intro op' hop'
  by_cases hpow : op = .pow
  · rw [Fits, if_pos hpow] at h
    rw [hpow, h.2 op' hop']
  · exact Nat.le_of_lt (h.level_lt_right hpow op' hop')

end BinaryOp.Fits

namespace Grouping

variable {α : Type}

/-- The operator at the root. -/
def op? : Grouping α → Option BinaryOp
  | operand _ => none
  | node o _ _ => some o.op

/-- Operands and operators from left to right. -/
def chain : Grouping α → Chain α
  | operand a => ⟨a, []⟩
  | node o l r => ⟨l.chain.first, l.chain.more ++ (o, r.chain.first) :: r.chain.more⟩

def Leveled : Grouping α → Prop
  | operand _ => True
  | node o l r => o.op.Fits l.op? r.op? ∧ l.Leveled ∧ r.Leveled

instance decidableLeveled : (t : Grouping α) → Decidable t.Leveled
  | operand _ => isTrue trivial
  | node _ l r => @instDecidableAnd _ _ _ (@instDecidableAnd _ _ (decidableLeveled l) (decidableLeveled r))

theorem forall_op? {t : Grouping α} {P : BinaryOp → Prop} (h : ∀ u ∈ t.chain.more, P u.1.op) : ∀ op ∈ t.op?, P op := by
  cases t with
  | operand a => exact fun _ hop => nomatch hop
  | node o l r =>
      rintro _ ⟨⟩
      exact h (o, r.chain.first) (by simp [chain])

theorem more_of_op?_eq_none {t : Grouping α} (h : t.op? = none) : t.chain.more = [] := by
  cases t with
  | operand a => rfl
  | node o l r => cases h

/-- The operator at the root is one of the loosest. -/
def RootLoosest (t : Grouping α) : Prop :=
  ∀ op ∈ t.op?, ∀ u ∈ t.chain.more, op.level ≤ u.1.op.level

theorem RootLoosest.le {t : Grouping α} (h : t.RootLoosest) {n : Nat} (hroot : ∀ op ∈ t.op?, n ≤ op.level) :
    ∀ u ∈ t.chain.more, n ≤ u.1.op.level := by
  intro u hu
  cases hop : t.op? with
  | none =>
      rw [more_of_op?_eq_none hop] at hu
      cases hu
  | some op => exact Nat.le_trans (hroot op hop) (h op hop u hu)

theorem Leveled.rootLoosest {t : Grouping α} (h : t.Leveled) : t.RootLoosest := by
  induction t with
  | operand a => exact fun _ hop => nomatch hop
  | node o l r ihl ihr =>
      obtain ⟨hfits, hl, hr⟩ := h
      rintro _ ⟨⟩ u hu
      simp only [chain, List.mem_append, List.mem_cons] at hu
      rcases hu with hu | rfl | hu
      · exact (ihl hl).le hfits.level_le_left u hu
      · exact Nat.le_refl _
      · exact (ihr hr).le hfits.level_le_right u hu

/-- On the right of an operator other than a power all operators are tighter. -/
theorem Leveled.level_lt {o : Operator} {l r : Grouping α} (h : (node o l r).Leveled) (hpow : o.op ≠ .pow) :
    ∀ u ∈ r.chain.more, o.op.level < u.1.op.level :=
  h.2.2.rootLoosest.le (h.1.level_lt_right hpow)

end Grouping

/-- A list is split at the last element of a kind in one way. -/
theorem split_unique {α : Type} {P : α → Prop} {a a' b b' : List α} {x x' : α} (h : a ++ x :: b = a' ++ x' :: b')
    (hx : P x) (hx' : P x') (hb : ∀ y ∈ b, ¬ P y) (hb' : ∀ y ∈ b', ¬ P y) : a = a' ∧ x = x' ∧ b = b' := by
  induction a generalizing a' with
  | nil =>
      cases a' with
      | nil => simpa using h
      | cons y a' =>
          simp only [List.nil_append, List.cons_append, List.cons.injEq] at h
          exact absurd hx' (hb x' (by simp [h.2]))
  | cons y a ih =>
      cases a' with
      | nil =>
          simp only [List.nil_append, List.cons_append, List.cons.injEq] at h
          exact absurd hx (hb' x (by simp [← h.2]))
      | cons y' a' =>
          simp only [List.cons_append, List.cons.injEq] at h
          obtain ⟨rfl, h⟩ := h
          obtain ⟨rfl, rest⟩ := ih h
          exact ⟨rfl, rest⟩

namespace Grouping.Leveled

variable {α : Type}

/-- The operator at the root is the first one if it is a power, and the last one of its level otherwise. -/
theorem split {o o' : Operator} {l l' r r' : Grouping α} (h : (node o l r).Leveled) (h' : (node o' l' r').Leveled)
    (hmore : (node o l r).chain.more = (node o' l' r').chain.more) :
    l.chain.more = l'.chain.more ∧ (o, r.chain.first) = (o', r'.chain.first) ∧ r.chain.more = r'.chain.more := by
  have hle := h.rootLoosest o.op rfl (o', r'.chain.first) (by rw [hmore]; simp [chain])
  have hge := h'.rootLoosest o'.op rfl (o, r.chain.first) (by rw [← hmore]; simp [chain])
  have hlevel : o'.op.level = o.op.level := Nat.le_antisymm hge hle
  simp only [chain] at hmore
  by_cases hpow : o.op = .pow
  · have hpow' : o'.op = .pow := BinaryOp.eq_pow_of_level (by rw [hlevel, hpow]; decide)
    have hleft := more_of_op?_eq_none (h.1.left_eq_none hpow)
    have hleft' := more_of_op?_eq_none (h'.1.left_eq_none hpow')
    rw [hleft, hleft'] at hmore ⊢
    exact ⟨rfl, List.cons.inj hmore⟩
  · have hpow' : o'.op ≠ .pow := fun heq => hpow (BinaryOp.eq_pow_of_level (by rw [← hlevel, heq]; decide))
    refine split_unique (P := fun u => u.1.op.level = o.op.level) hmore rfl hlevel ?_ ?_
    · exact fun u hu => Nat.ne_of_gt (h.level_lt hpow u hu)
    · exact fun u hu => Nat.ne_of_gt (hlevel ▸ h'.level_lt hpow' u hu)

/-- A chain has one leveled grouping. -/
theorem unique {t t' : Grouping α} (h : t.Leveled) (h' : t'.Leveled) (hchain : t.chain = t'.chain) : t = t' := by
  induction t generalizing t' with
  | operand a =>
      cases t' with
      | operand a' => cases hchain; rfl
      | node o' l' r' => simp [chain] at hchain
  | node o l r ihl ihr =>
      cases t' with
      | operand a' => simp [chain] at hchain
      | node o' l' r' =>
          obtain ⟨hleft, hmid, hright⟩ := h.split h' (congrArg Chain.more hchain)
          obtain ⟨rfl, hfirst⟩ := Prod.mk.inj hmid
          have hstart : (node o l r).chain.first = (node o l' r').chain.first := congrArg Chain.first hchain
          rw [ihl h.2.1 h'.2.1 (Chain.ext hstart hleft), ihr h.2.2 h'.2.2 (Chain.ext hfirst hright)]

end Grouping.Leveled

/-! Reading a chain. -/

/-- Lexemes that are read as one operand, to the last. -/
structure Operand (input : Input) where
  lexemes : List Lexeme
  whole : ∃ e c h, Parser.unary input ⟨lexemes, none, 0⟩ = .ok ⟨e, c, h⟩ ∧ c.rest = []

/-- A chain of operators of a level or tighter ones ends before the lexemes: they start with no such operator and with
no access to the last operand. -/
structure EndsChain (level : Nat) (rest : List Lexeme) : Prop where
  operator : ∀ op : BinaryOp, level ≤ op.level → rest.head?.map Lexeme.token ≠ some (.symbol op.symbol)
  access : ∀ s ∈ Symbol.accesses, rest.head?.map Lexeme.token ≠ some (.symbol s)

section

variable {input : Input}

/-- Operators, each with the operand after it. -/
def Operator.lexemes (us : List (Operator × Operand input)) : List Lexeme :=
  us.flatMap fun u => u.1.lexeme :: u.2.lexemes

def Chain.lexemes (chain : Chain (Operand input)) : List Lexeme :=
  chain.first.lexemes ++ Operator.lexemes chain.more

/-- An expression with the operators of a grouping. Its operands are the expressions that the lexemes are read as, with
other numbers. -/
def Grouping.Stands : Grouping (Operand input) → Expr → Prop
  | .operand u, e => ∃ nextId c h, Parser.unary input ⟨u.lexemes, none, nextId⟩ = .ok ⟨e, c, h⟩ ∧ c.rest = []
  | .node o l r, e => ∃ n left right, e = .binary n o.op left right ∧ l.Stands left ∧ r.Stands right

/-- No operator goes on with an operand. -/
theorem Operator.not_access (o : Operator) {rest : List Lexeme} :
    ∀ s ∈ Symbol.accesses, (o.lexeme :: rest).head?.map Lexeme.token ≠ some (.symbol s) := by
  intro s hs hhead
  simp only [List.head?_cons, Option.map_some, o.spells, Option.some.injEq, Token.symbol.injEq] at hhead
  subst hhead
  cases hop : o.op <;> simp [hop, Symbol.accesses, BinaryOp.symbol] at hs

namespace EndsChain

variable {level : Nat} {rest : List Lexeme}

theorem mono {k : Nat} (h : EndsChain level rest) (hk : level ≤ k) : EndsChain k rest where
  operator op hop := h.operator op (Nat.le_trans hk hop)
  access := h.access

theorem binaryOp? {c : Cursor} (h : EndsChain level c.rest) : c.binaryOp? level = none := by
  unfold Cursor.binaryOp?
  split
  · rename_i s hpeek
    cases hop : BinaryOp.ofSymbol? level s with
    | none => rfl
    | some op =>
        obtain ⟨rfl, rfl⟩ := BinaryOp.eq_of_ofSymbol? hop
        exact absurd hpeek (h.operator op (Nat.le_refl _))
  · rfl

/-- A looser operator ends a chain. -/
theorem of_operator (o : Operator) (h : o.op.level < level) : EndsChain level (o.lexeme :: rest) where
  operator op hop hhead := by
    simp only [List.head?_cons, Option.map_some, o.spells, Option.some.injEq, Token.symbol.injEq] at hhead
    rw [BinaryOp.symbol_injective hhead] at h
    exact Nat.not_le_of_gt h hop
  access := o.not_access

theorem lexemes {us : List (Operator × Operand input)} (h : EndsChain level rest)
    (hus : ∀ u ∈ us.head?, u.1.op.level < level) : EndsChain level (Operator.lexemes us ++ rest) := by
  cases us with
  | nil => exact h
  | cons u us => exact of_operator u.1 (hus u rfl)

end EndsChain

/-- An operand is read in a chain as it is read alone. -/
theorem Operand.reads (u : Operand input) {rest : List Lexeme} {c : Cursor} (hc : c.rest = u.lexemes ++ rest)
    (hrest : ∀ s ∈ Symbol.accesses, rest.head?.map Lexeme.token ≠ some (.symbol s)) :
    ∃ e c', Reads input .unary c e c' ∧ c'.rest = rest ∧ (Grouping.operand u).Stands e := by
  obtain ⟨e, c₁, hlt, hunary, hnil⟩ := u.whole
  have hread : Reads input .unary ⟨u.lexemes, none, 0⟩ e c₁ := Parser.follows _ _ ⟨hlt, hunary⟩
  have hshift (ls : List Lexeme) : ls.map (Lexeme.shift 0) = ls := List.map_id ls
  let F : Frame := ⟨0, c.nextId, c.last, rest⟩
  let alone : Frame := ⟨0, c.nextId, none, []⟩
  have hcursor : F.cursor ⟨u.lexemes, none, 0⟩ = c := by
    obtain ⟨ls, last, nextId⟩ := c
    cases hc
    simp [F, Frame.cursor, hshift]
  have halone : alone.cursor ⟨u.lexemes, none, 0⟩ = ⟨u.lexemes, none, c.nextId⟩ := by
    simp [alone, Frame.cursor, hshift]
  have hplaced := hread.framed (F := F) (rfl : input.file = input.file) fun _ => .inr hrest
  have hsingle := hread.framed (F := alone) (rfl : input.file = input.file) fun _ => .inr fun _ _ => (Option.some_ne_none _).symm
  rw [hcursor] at hplaced
  rw [halone] at hsingle
  refine ⟨_, _, hplaced, by simp [F, Frame.cursor, hnil], ?_⟩
  obtain ⟨hlt', hreturns⟩ := Parser.returns hsingle
  exact ⟨c.nextId, _, hlt', hreturns, by simp [alone, Frame.cursor, hnil]⟩

/-- The chain is read up to the lexemes after it, as a leveled grouping. -/
def Chain.IsRead (chain : Chain (Operand input)) (rest : List Lexeme) (read : Expr → Cursor → Prop) : Prop :=
  ∃ t : Grouping (Operand input), t.chain = chain ∧ t.Leveled ∧ ∃ e c, read e c ∧ c.rest = rest ∧ t.Stands e

/-- Powers are read from the right. -/
theorem Chain.isRead_powers {chain : Chain (Operand input)} {rest : List Lexeme} {c : Cursor}
    (hc : c.rest = chain.lexemes ++ rest) (hops : ∀ u ∈ chain.more, u.1.op = .pow) (hend : EndsChain 6 rest) :
    chain.IsRead rest (Reads input .exponent c) := by
  obtain ⟨first, us⟩ := chain
  induction us generalizing first c with
  | nil =>
      rw [lexemes, Operator.lexemes, List.flatMap_nil, List.append_nil] at hc
      obtain ⟨e, c₁, hread, rfl, hstands⟩ := first.reads hc hend.access
      have hpow : c₁.isAt .doubleStar = false := by
        rw [Cursor.isAt, beq_eq_false_iff_ne]
        exact hend.operator .pow (Nat.le_refl 6)
      exact ⟨.operand first, rfl, trivial, e, c₁, .noPower hread hpow, rfl, hstands⟩
  | cons u us ih =>
      obtain ⟨o, v⟩ := u
      have hpow : o.op = .pow := hops (o, v) List.mem_cons_self
      have hlexemes : c.rest = first.lexemes ++ o.lexeme :: (Chain.lexemes ⟨v, us⟩ ++ rest) := by
        rw [hc]
        simp [lexemes, Operator.lexemes]
      obtain ⟨base, c₁, hbase, hrest, hstands⟩ := first.reads hlexemes o.not_access
      let c₂ : Cursor := ⟨Chain.lexemes ⟨v, us⟩ ++ rest, some o.lexeme, c₁.nextId⟩
      have htakes : c₁.Takes (.symbol .doubleStar) c₂ := ⟨o.lexeme, ⟨hrest, rfl, rfl⟩, by rw [o.spells, hpow]; rfl⟩
      obtain ⟨t, ht, hleveled, e, c₃, hpower, hrest', hstands'⟩ :=
        ih v (c := c₂) rfl fun u hu => hops u (List.mem_cons_of_mem _ hu)
      have hfits : o.op.Fits (Grouping.operand first).op? t.op? := by
        rw [BinaryOp.Fits, if_pos hpow]
        refine ⟨rfl, Grouping.forall_op? ?_⟩
        rw [ht]
        exact fun u hu => hops u (List.mem_cons_of_mem _ hu)
      refine ⟨.node o (.operand first) t, by simp [Grouping.chain, ht], ⟨hfits, trivial, hleveled⟩, _, _,
        .power hbase htakes hpower, hrest', _, base, e, by rw [hpow], hstands, hstands'⟩

/-- The operands that the tighter operators after them take. -/
theorem Operator.exists_split {α : Type} (level : Nat) (us : List (Operator × α)) :
    ∃ near far, us = near ++ far ∧ (∀ u ∈ near, level < u.1.op.level) ∧ ∀ u ∈ far.head?, u.1.op.level ≤ level := by
  induction us with
  | nil => exact ⟨[], [], rfl, List.forall_mem_nil _, fun _ hu => nomatch hu⟩
  | cons u us ih =>
      by_cases hu : level < u.1.op.level
      · obtain ⟨near, far, rfl, hnear, hfar⟩ := ih
        exact ⟨u :: near, far, rfl, List.forall_mem_cons.mpr ⟨hu, hnear⟩, hfar⟩
      · refine ⟨[], u :: us, rfl, List.forall_mem_nil _, ?_⟩
        rintro _ ⟨⟩
        exact Nat.le_of_not_lt hu

section

variable {level : Nat} (hlevel : level < 6)
  (htighter : ∀ {chain : Chain (Operand input)} {rest : List Lexeme} {c : Cursor}, c.rest = chain.lexemes ++ rest →
    (∀ u ∈ chain.more, level < u.1.op.level) → EndsChain (level + 1) rest →
      chain.IsRead rest (Reads input (.binary (level + 1)) c))

include hlevel htighter

omit hlevel in
/-- One operand of a level: what the tighter operators at the start of a chain hold together. -/
theorem Chain.isRead_near {chain : Chain (Operand input)} {rest : List Lexeme} {c : Cursor}
    (hc : c.rest = chain.lexemes ++ rest) (hops : ∀ u ∈ chain.more, level ≤ u.1.op.level)
    (hend : EndsChain level rest) :
    ∃ near far, chain.more = near ++ far ∧ (∀ u ∈ far, level ≤ u.1.op.level) ∧
      (∀ u ∈ far.head?, u.1.op.level ≤ level) ∧ ∃ t : Grouping (Operand input), t.chain = ⟨chain.first, near⟩ ∧
        t.Leveled ∧ (∀ op ∈ t.op?, level < op.level) ∧ ∃ e c₁, Reads input (.binary (level + 1)) c e c₁ ∧
          c₁.rest = Operator.lexemes far ++ rest ∧ t.Stands e := by
  obtain ⟨first, us⟩ := chain
  obtain ⟨near, far, rfl, hnear, hfar⟩ := Operator.exists_split level us
  have hend' : EndsChain (level + 1) (Operator.lexemes far ++ rest) :=
    (hend.mono (Nat.le_succ level)).lexemes fun u hu => Nat.lt_succ_of_le (hfar u hu)
  have hc' : c.rest = Chain.lexemes ⟨first, near⟩ ++ (Operator.lexemes far ++ rest) := by
    rw [hc]
    simp [lexemes, Operator.lexemes]
  obtain ⟨t, ht, hleveled, hread⟩ := htighter hc' hnear hend'
  have hroot : ∀ op ∈ t.op?, level < op.level := by
    apply Grouping.forall_op?
    rw [ht]
    exact hnear
  exact ⟨near, far, rfl, fun u hu => hops u (by simp [hu]), hfar, t, ht, hleveled, hroot, hread⟩

/-- Further operands of a level are read from the left, to a tree that has been read. -/
theorem Chain.isRead_tail {t : Grouping (Operand input)} {left : Expr} (hleveled : t.Leveled) (hleft : t.Stands left)
    (hroot : ∀ op ∈ t.op?, level ≤ op.level) {us : List (Operator × Operand input)}
    (hops : ∀ u ∈ us, level ≤ u.1.op.level) (hhead : ∀ u ∈ us.head?, u.1.op.level ≤ level) {rest : List Lexeme}
    (hend : EndsChain level rest) {c : Cursor} (hc : c.rest = Operator.lexemes us ++ rest) (start : Nat) :
    Chain.IsRead ⟨t.chain.first, t.chain.more ++ us⟩ rest (Reads input (.binaryTail level start left) c) := by
  -- The next operand of the level takes some of the operators, so the induction is on how many are left.
  induction hn : us.length using Nat.strongRecOn generalizing t left us c with | _ n ih
  subst hn
  cases us with
  | nil =>
      rw [Operator.lexemes, List.flatMap_nil, List.nil_append] at hc
      have hn : c.binaryOp? level = none := EndsChain.binaryOp? (hc ▸ hend)
      exact ⟨t, by simp, hleveled, left, c, .noOperator hn, hc, hleft⟩
  | cons u us =>
      obtain ⟨o, v⟩ := u
      have ho : o.op.level = level := Nat.le_antisymm (hhead (o, v) rfl) (hops (o, v) List.mem_cons_self)
      have hpow : o.op ≠ .pow := by
        intro hpow
        rw [hpow] at ho
        exact absurd hlevel (ho ▸ Nat.lt_irrefl 6)
      let c₁ : Cursor := ⟨Chain.lexemes ⟨v, us⟩ ++ rest, some o.lexeme, c.nextId⟩
      have htakes : c.Takes (.symbol o.op.symbol) c₁ :=
        ⟨o.lexeme, ⟨by rw [hc]; simp [c₁, Operator.lexemes, Chain.lexemes], rfl, rfl⟩, o.spells⟩
      obtain ⟨near, far, hus, hfar, hhead', t', ht', hleveled', hroot', right, c₂, hright, hrest, hstands⟩ :=
        Chain.isRead_near htighter (c := c₁) rfl (fun u hu => hops u (List.mem_cons_of_mem _ hu)) hend
      simp only at hus
      -- The two trees are joined and stand on the left of what follows.
      have hjoined : (Grouping.node o t t').Leveled := by
        refine ⟨?_, hleveled, hleveled'⟩
        rw [BinaryOp.Fits, if_neg hpow, ho]
        exact ⟨hroot, hroot'⟩
      have hstands' : (Grouping.node o t t').Stands (.binary (c₂.node input start) o.op left right) :=
        ⟨_, left, right, rfl, hleft, hstands⟩
      have hroot'' : ∀ op ∈ (Grouping.node o t t').op?, level ≤ op.level := by
        rintro _ ⟨⟩
        exact Nat.le_of_eq ho.symm
      have hlength : far.length < ((o, v) :: us).length := by
        rw [hus, List.length_cons, List.length_append]
        omega
      obtain ⟨t'', ht'', hleveled'', e, c₃, htail, hrest', hstands''⟩ :=
        ih far.length hlength hjoined hstands' hroot'' hfar hhead' (c := c₂.tick) hrest rfl
      have hop : BinaryOp.ofSymbol? level o.op.symbol = some o.op := ho ▸ BinaryOp.ofSymbol?_symbol hpow
      refine ⟨t'', ?_, hleveled'', e, c₃, .operator htakes hop hright htail, hrest', hstands''⟩
      rw [ht'', hus]
      simp [Grouping.chain, ht']

theorem Chain.isRead_of_tighter {chain : Chain (Operand input)} {rest : List Lexeme} {c : Cursor}
    (hc : c.rest = chain.lexemes ++ rest) (hops : ∀ u ∈ chain.more, level ≤ u.1.op.level)
    (hend : EndsChain level rest) : chain.IsRead rest (Reads input (.binary level) c) := by
  obtain ⟨near, far, hmore, hfar, hhead, t, ht, hleveled, hroot, left, c₁, hleft, hrest, hstands⟩ :=
    Chain.isRead_near htighter hc hops hend
  obtain ⟨t', ht', hleveled', e, c₂, htail, hrest', hstands'⟩ :=
    Chain.isRead_tail hlevel htighter hleveled hstands (fun op hop => Nat.le_of_lt (hroot op hop)) hfar hhead hend hrest
      (c.start input)
  exact ⟨t', by rw [ht', ht, ← hmore], hleveled', e, c₂, .operands hlevel hleft htail, hrest', hstands'⟩

end

/-- A chain is read at every level that its operators have. -/
theorem Chain.isRead {level : Nat} (hlevel : level ≤ 6) {chain : Chain (Operand input)} {rest : List Lexeme}
    {c : Cursor} (hc : c.rest = chain.lexemes ++ rest) (hops : ∀ u ∈ chain.more, level ≤ u.1.op.level)
    (hend : EndsChain level rest) : chain.IsRead rest (Reads input (.binary level) c) := by
  -- From the tightest level down to the loosest.
  induction hlevel using Nat.decreasingInduction generalizing chain rest c with
  | self =>
      obtain ⟨t, ht, hleveled, e, c₁, hread, hstands⟩ :=
        Chain.isRead_powers hc (fun u hu => BinaryOp.eq_pow_of_level (hops u hu)) hend
      exact ⟨t, ht, hleveled, e, c₁, .tightest (Nat.lt_irrefl 6) hread, hstands⟩
  | of_succ k hk ih => exact Chain.isRead_of_tighter hk (fun hc hops hend => ih hc hops hend) hc hops hend

/-- A chain of operands is read as its one leveled grouping. -/
theorem Parser.binary_grouping (chain : Chain (Operand input)) {rest : List Lexeme} (hend : EndsChain 0 rest)
    (last : Option Lexeme) (nextId : Nat) :
    ∃ t : Grouping (Operand input), t.chain = chain ∧ t.Leveled ∧
      (∀ t' : Grouping (Operand input), t'.chain = chain → t'.Leveled → t' = t) ∧
      ∃ e c h, Parser.binary input 0 ⟨chain.lexemes ++ rest, last, nextId⟩ = .ok ⟨e, c, h⟩ ∧ c.rest = rest ∧
        t.Stands e := by
  obtain ⟨t, ht, hleveled, e, c, hread, hrest, hstands⟩ :=
    Chain.isRead (c := ⟨chain.lexemes ++ rest, last, nextId⟩) (Nat.zero_le 6) rfl (fun u _ => Nat.zero_le _) hend
  obtain ⟨h, hreturns⟩ := Parser.returns hread
  exact ⟨t, ht, hleveled, fun t' ht' hleveled' => hleveled'.unique hleveled (ht'.trans ht.symm), e, c, h, hreturns,
    hrest, hstands⟩

/-- A name is an operand. -/
def Operand.name (name : String) (start : Nat) : Operand input where
  lexemes := [⟨.ident name, start, start + name.utf8ByteSize, false⟩]
  whole := by
    let l : Lexeme := ⟨.ident name, start, start + name.utf8ByteSize, false⟩
    have hname : Cursor.TakesIdent input ⟨[l], none, 0⟩ ⟨name, Cursor.span input l.start l.stop⟩ ⟨[], some l, 0⟩ :=
      ⟨l, ⟨rfl, rfl, rfl⟩, rfl, rfl⟩
    obtain ⟨h, hunary⟩ := Parser.returns (Reads.noSign rfl (.accessed (.ident hname) (.noAccess rfl)))
    exact ⟨_, _, h, hunary, rfl⟩

def Operator.sign (op : BinaryOp) (start stop : Nat) : Operator :=
  ⟨⟨.symbol op.symbol, start, stop, false⟩, op, rfl⟩

end

namespace Grouping

open Operand (name)
open Operator (sign)

/-- The grouping of `a-b-c**d**e*f<g`. -/
def mixed : Grouping (Operand ⟨0, 16⟩) :=
  let exponent := node (sign .pow 8 10) (operand (name "d" 7)) (operand (name "e" 10))
  let power := node (sign .pow 5 7) (operand (name "c" 4)) exponent
  let difference := node (sign .sub 1 2) (operand (name "a" 0)) (operand (name "b" 2))
  node (sign .lt 13 14)
    (node (sign .sub 3 4) difference (node (sign .mul 11 12) power (operand (name "f" 12)))) (operand (name "g" 14))

end Grouping

theorem Parser.binary_grouping_mixed :
    EndsChain 0 [⟨.symbol .semicolon, 15, 16, false⟩] ∧
      ∃ e c h, Parser.binary ⟨0, 16⟩ 0
          ⟨Grouping.mixed.chain.lexemes ++ [⟨.symbol .semicolon, 15, 16, false⟩], none, 0⟩ = .ok ⟨e, c, h⟩ ∧
        c.rest = [⟨.symbol .semicolon, 15, 16, false⟩] ∧ Grouping.mixed.Stands e := by
  have hend : EndsChain 0 [⟨.symbol .semicolon, 15, 16, false⟩] :=
    ⟨fun op _ => by cases op <;> simp [BinaryOp.symbol], by simp [Symbol.accesses]⟩
  obtain ⟨t, -, -, hunique, hread⟩ := Parser.binary_grouping Grouping.mixed.chain hend none 0
  rw [← hunique Grouping.mixed rfl (by decide)] at hread
  exact ⟨hend, hread⟩

end ScriptTypes
