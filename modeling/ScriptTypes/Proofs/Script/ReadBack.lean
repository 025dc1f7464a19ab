import ScriptTypes.Proofs.Script.Printed

/-! Reading printed trees. Each kind of node has its lemma: if the parts can be read back from their printed forms, so
can the whole, up to nodes and positions. -/

namespace ScriptTypes

open Token

/-! Tokens ahead of a cursor. -/

namespace Cursor

variable {c c₁ : Cursor} {t : Token} {ts ts' : List Token} {rest : List Lexeme}

/-- The next lexemes have the given tokens, all on one line, and others follow. -/
def Shows (c : Cursor) (ts : List Token) (rest : List Lexeme) : Prop :=
  ∃ ls, c.rest = ls ++ rest ∧ ls.map Lexeme.token = ts ∧ ∀ l ∈ ls, l.afterBreak = false

theorem Shows.nil (h : c.Shows [] rest) : c.rest = rest := by
  obtain ⟨ls, hrest, htokens, -⟩ := h
  rw [hrest, List.map_eq_nil_iff.mp htokens, List.nil_append]

theorem Shows.cons (h : c.Shows (t :: ts) rest) : ∃ c₁, c.Takes t c₁ ∧ c₁.Shows ts rest := by
  obtain ⟨ls, hrest, htokens, hline⟩ := h
  obtain ⟨l, ls, rfl, ht, hts⟩ := List.map_eq_cons_iff.mp htokens
  have hpass : c.Passes l ⟨ls ++ rest, some l, c.nextId⟩ := ⟨hrest, rfl, rfl⟩
  exact ⟨_, ⟨l, hpass, ht⟩, ls, rfl, hts, (List.forall_mem_cons.mp hline).2⟩

/-- A token that stands last. -/
theorem Shows.single (h : c.Shows [t] rest) : ∃ c₁, c.Takes t c₁ ∧ c₁.rest = rest := by
  obtain ⟨c₁, htakes, h⟩ := h.cons
  exact ⟨c₁, htakes, h.nil⟩

/-- Whatever reads the first tokens finds the others. -/
theorem Shows.append (h : c.Shows (ts ++ ts') rest) :
    ∃ mid, c.Shows ts mid ∧ ∀ c₁ : Cursor, c₁.rest = mid → c₁.Shows ts' rest := by
  obtain ⟨ls, hrest, htokens, hline⟩ := h
  obtain ⟨ls, ls', rfl, hts, hts'⟩ := List.map_eq_append_iff.mp htokens
  obtain ⟨hline, hline'⟩ := List.forall_mem_append.mp hline
  rw [List.append_assoc] at hrest
  exact ⟨ls' ++ rest, ⟨ls, hrest, hts, hline⟩, fun c₁ hc₁ => ⟨ls', hc₁, hts', hline'⟩⟩

theorem Shows.peek (h : c.Shows (t :: ts) rest) : c.peek = some t := by
  obtain ⟨c₁, htakes, -⟩ := h.cons
  exact htakes.peek

theorem Takes.past {s : Symbol} (h : c.Takes (.symbol s) c₁) : c.past s = c₁ := by
  rw [Cursor.past, h.eat]

end Cursor

/-! Lists. -/

namespace Cursor

variable {c c₁ : Cursor}

theorem Takes.ident {name : String} (h : c.Takes (.ident name) c₁) (input : Input) :
    ∃ pos, c.TakesIdent input ⟨name, pos⟩ c₁ := by
  obtain ⟨l, hl, ht⟩ := h
  exact ⟨_, l, hl, ht, rfl⟩

theorem Takes.label {name : String} (h : c.Takes (ofWord name) c₁) (input : Input) :
    ∃ pos, c.TakesLabel input ⟨name, pos⟩ c₁ := by
  obtain ⟨l, hl, ht⟩ := h
  refine ⟨_, l, hl, ?_, rfl⟩
  unfold ofWord Keyword.ofText? at ht
  split at ht
  · rename_i k hk
    have htext := List.find?_some hk
    exact .inr ⟨k, ht, (beq_iff_eq.mp htext).symm⟩
  · exact .inl ht

/-- Between the items of a list, or at its end. -/
def Between (close : Symbol) (c : Cursor) : Prop :=
  c.peek = some (.symbol .comma) ∨ c.peek = some (.symbol close)

theorem Between.before {close : Symbol} (h : c.Between close) (hclose : close.ends = true) : c.Before Symbol.ends := by
  rcases h with h | h
  · exact .of_peek h rfl
  · exact .of_peek h hclose

end Cursor

/-- The productions of a list whose items stand between commas, up to a closing symbol. -/
structure Lists {α : Type} (close : Symbol) (Item : Cursor → α → Cursor → Prop)
    (Items : Cursor → List α → Cursor → Prop) : Prop where
  nil {c c₁ : Cursor} : c.Takes (.symbol close) c₁ → Items c [] c₁
  last {c c₁ c₂ : Cursor} {a : α} : Item c a c₁ → c₁.isAt .comma = false → c₁.Takes (.symbol close) c₂ → Items c [a] c₂
  more {c c₁ c₂ c₃ : Cursor} {a : α} {as : List α} : Item c a c₁ → c₁.Takes (.symbol .comma) c₂ → as ≠ [] →
    Items c₂ as c₃ → Items c (a :: as) c₃

/-- A list is read back if its items are. -/
theorem Lists.back {α : Type} {close : Symbol} {Item : Cursor → α → Cursor → Prop}
    {Items : Cursor → List α → Cursor → Prop} (h : Lists close Item Items) (hclose : close ≠ .comma)
    {tokens : α → List Token} {erase : α → α} {as : List α}
    (has : ∀ a ∈ as, ∀ {c : Cursor} {rest : List Lexeme}, c.Shows (tokens a) rest →
      (∀ c₁ : Cursor, c₁.rest = rest → c₁.Between close) →
      ∃ a' c₁, Item c a' c₁ ∧ c₁.rest = rest ∧ erase a' = erase a)
    {c : Cursor} {rest : List Lexeme} (hc : c.Shows (commas (as.map tokens) ++ [.symbol close]) rest) :
    ∃ as' c₁, Items c as' c₁ ∧ c₁.rest = rest ∧ as'.map erase = as.map erase := by
  induction as generalizing c with
  | nil =>
      obtain ⟨c₁, hc₁, hrest⟩ := hc.single
      exact ⟨[], c₁, h.nil hc₁, hrest, rfl⟩
  | cons a as ih =>
      obtain ⟨ha, has⟩ := List.forall_mem_cons.mp has
      cases as with
      | nil =>
          obtain ⟨mid, hc, hmid⟩ := hc.append
          obtain ⟨a', c₁, hitem, rfl, hsame⟩ := ha hc fun c₁ hc₁ => .inr (hmid c₁ hc₁).peek
          obtain ⟨c₂, hc₂, hrest⟩ := (hmid c₁ rfl).single
          have hcomma : c₁.isAt .comma = false := hc₂.isAt_ne fun heq => hclose (Token.symbol.inj heq)
          exact ⟨[a'], c₂, h.last hitem hcomma hc₂, hrest, by simp [hsame]⟩
      | cons b bs =>
          simp only [List.map_cons, commas, List.append_assoc, List.cons_append] at hc
          obtain ⟨mid, hc, hmid⟩ := hc.append
          obtain ⟨a', c₁, hitem, rfl, hsame⟩ := ha hc fun c₁ hc₁ => .inl (hmid c₁ hc₁).peek
          obtain ⟨c₂, hc₂, hmore⟩ := (hmid c₁ rfl).cons
          obtain ⟨as', c₃, hitems, hrest, hsames⟩ := ih has hmore
          have hne : as' ≠ [] := by
            rintro rfl
            cases hsames
          exact ⟨a' :: as', c₃, h.more hitem hc₂ hne hitems, hrest, by rw [List.map_cons, hsame, hsames]; rfl⟩

/-! Patterns. -/

theorem lists_names (input : Input) (close : Symbol) :
    Lists close (fun c id => c.TakesIdent input id) (Reads input (.names close)) :=
  ⟨.namesEnd, .namesLast, fun h hcomma _ => .namesMore h hcomma⟩

theorem lists_params (input : Input) : Lists .rParen (Reads input .pattern) (Reads input .params) :=
  ⟨.paramsEnd, .paramsLast, fun h hcomma _ => .paramsMore h hcomma⟩

section Patterns

variable {input : Input} {c : Cursor} {rest : List Lexeme}

theorem names_back {close : Symbol} (hclose : close ≠ .comma) {ids : List Ident}
    (hc : c.Shows (commas (ids.map fun id => [.ident id.label]) ++ [.symbol close]) rest) :
    ∃ ids' c₁, Reads input (.names close) c ids' c₁ ∧ c₁.rest = rest ∧ ids'.map Ident.erase = ids.map Ident.erase := by
  refine (lists_names input close).back hclose (fun id _ c rest hc _ => ?_) hc
  obtain ⟨c₁, hc₁, hrest⟩ := hc.single
  obtain ⟨pos, hident⟩ := hc₁.ident input
  exact ⟨⟨id.label, pos⟩, c₁, hident, hrest, rfl⟩

theorem Pattern.back (p : Pattern) (hc : c.Shows p.tokens rest) :
    ∃ p' c₁, Reads input .pattern c p' c₁ ∧ c₁.rest = rest ∧ p'.erase = p.erase := by
  cases p with
  | ident id =>
      obtain ⟨c₁, hc₁, hrest⟩ := hc.single
      obtain ⟨pos, hident⟩ := hc₁.ident input
      exact ⟨.ident ⟨id.label, pos⟩, c₁, .identPattern hident, hrest, rfl⟩
  | object ids pos =>
      obtain ⟨c₁, hopen, hc⟩ := hc.cons
      obtain ⟨ids', c₂, hnames, hrest, hsame⟩ := names_back (by decide) hc
      exact ⟨_, c₂, .objectPattern hopen hnames, hrest, congrArg (Pattern.object · none) hsame⟩
  | array ids pos =>
      obtain ⟨c₁, hopen, hc⟩ := hc.cons
      obtain ⟨ids', c₂, hnames, hrest, hsame⟩ := names_back (by decide) hc
      exact ⟨_, c₂, .arrayPattern hopen hnames, hrest, congrArg (Pattern.array · none) hsame⟩

theorem params_back (ps : List Pattern) (hc : c.Shows (commas (ps.map Pattern.tokens) ++ [.symbol .rParen]) rest) :
    ∃ ps' c₁, Reads input .params c ps' c₁ ∧ c₁.rest = rest ∧ ps'.map Pattern.erase = ps.map Pattern.erase :=
  (lists_params input).back (by decide) (fun p _ _ _ hc _ => p.back hc) hc

end Patterns

/-! Expressions. -/

/-- The printed form of an expression is read back, whatever follows. -/
def Expr.Back (e : Expr) : Prop :=
  ∀ (input : Input) {c : Cursor} {rest : List Lexeme}, c.Shows (parens e.tokens) rest →
    ∃ e' c₁, Group input c e' c₁ ∧ c₁.rest = rest ∧ e'.erase = e.erase

def Template.Back (q : Template) : Prop :=
  ∀ (input : Input) {c : Cursor} {rest : List Lexeme}, c.Shows q.tokens rest →
    ∃ q' c₁, Reads input .template c q' c₁ ∧ c₁.rest = rest ∧ q'.erase = q.erase

/-- A property is printed before a comma or the closing brace. -/
def Property.tokens : Property → List Token
  | .mk key value _ => if key.names value then key.tokens else key.tokens ++ .symbol .colon :: parens value.tokens

def Property.Back (p : Property) : Prop :=
  ∀ (input : Input) {c : Cursor} {rest : List Lexeme}, c.Shows p.tokens rest →
    (∀ c₁ : Cursor, c₁.rest = rest → c₁.Between .rBrace) →
    ∃ p' c₁, Reads input .property c p' c₁ ∧ c₁.rest = rest ∧ p'.erase = p.erase

theorem tokensExprs_eq_map (es : List Expr) : tokensExprs es = es.map fun e => parens e.tokens := by
  induction es with
  | nil => rfl
  | cons e es ih => rw [tokensExprs, ih, List.map_cons]

theorem tokensProperties_eq_map (ps : List Property) : tokensProperties ps = ps.map Property.tokens := by
  induction ps with
  | nil => rfl
  | cons p ps ih =>
      obtain ⟨key, value, pos⟩ := p
      rw [tokensProperties, ih, List.map_cons]
      rfl

theorem lists_exprs (input : Input) (close : Symbol) :
    Lists close (fun c e c₁ => c.isAt close = false ∧ Reads input .assignment c e c₁) (Reads input (.exprs close)) :=
  ⟨.exprsEnd, fun h => .exprsLast h.1 h.2, fun h hcomma _ => .exprsMore h.1 h.2 hcomma⟩

theorem lists_properties (input : Input) : Lists .rBrace (Reads input .property) (Reads input .properties) :=
  ⟨.propertiesEnd, .propertiesLast, fun h hcomma _ => .propertiesMore h hcomma⟩

theorem exprs_back {close : Symbol} (hclose : close ≠ .comma) (hends : close.ends = true) {es : List Expr}
    (hes : ∀ e ∈ es, e.Back) {input : Input} {c : Cursor} {rest : List Lexeme}
    (hc : c.Shows (commas (tokensExprs es) ++ [.symbol close]) rest) :
    ∃ es' c₁, Reads input (.exprs close) c es' c₁ ∧ c₁.rest = rest ∧ es'.map Expr.erase = es.map Expr.erase := by
  rw [tokensExprs_eq_map] at hc
  refine (lists_exprs input close).back hclose (fun e he c rest hc hnext => ?_) hc
  obtain ⟨e', c₁, hgroup, hrest, hsame⟩ := hes e he input hc
  have hopen : c.isAt close = false := Cursor.isAt_of_peek hgroup.paren (by rintro ⟨⟩; cases hends)
  exact ⟨e', c₁, ⟨hopen, hgroup.assignment ((hnext c₁ hrest).before hends)⟩, hrest, hsame⟩

theorem properties_back {ps : List Property} (hps : ∀ p ∈ ps, p.Back) {input : Input} {c : Cursor}
    {rest : List Lexeme} (hc : c.Shows (commas (tokensProperties ps) ++ [.symbol .rBrace]) rest) :
    ∃ ps' c₁, Reads input .properties c ps' c₁ ∧ c₁.rest = rest ∧ ps'.map Property.erase = ps.map Property.erase := by
  rw [tokensProperties_eq_map] at hc
  exact (lists_properties input).back (by decide) (fun p hp _ _ hc hnext => hps p hp input hc hnext) hc

namespace Expr.Back

/-- After a group the rest of the tokens is still to be read. -/
theorem followed {e : Expr} (he : e.Back) (input : Input) {c : Cursor} {ts : List Token} {rest : List Lexeme}
    (hc : c.Shows (parens e.tokens ++ ts) rest) :
    ∃ e' c₁, Group input c e' c₁ ∧ c₁.Shows ts rest ∧ e'.erase = e.erase := by
  obtain ⟨mid, hc, hmid⟩ := hc.append
  obtain ⟨e', c₁, hgroup, hrest, hsame⟩ := he input hc
  exact ⟨e', c₁, hgroup, hmid c₁ hrest, hsame⟩

/-- It is enough to read what is in the parentheses. -/
theorem of_inner {e : Expr}
    (h : ∀ (input : Input) {c : Cursor} {rest : List Lexeme}, c.Shows e.tokens rest →
      (∀ c₁ : Cursor, c₁.rest = rest → c₁.Before Symbol.ends) →
      ∃ e' c₁, Reads input .assignment c e' c₁ ∧ c₁.rest = rest ∧ e'.erase = e.erase) : e.Back := by
  intro input c rest hc
  have hparen := hc.peek
  obtain ⟨c₁, hopen, hc⟩ := hc.cons
  obtain ⟨mid, hc, hmid⟩ := hc.append
  obtain ⟨e', c₂, hreads, rfl, hsame⟩ := h input hc fun c₂ hc₂ => .of_peek (hmid c₂ hc₂).peek rfl
  obtain ⟨c₃, hclose, hrest⟩ := (hmid c₂ rfl).single
  exact ⟨e', c₃, ⟨.group hopen hreads hclose, hparen⟩, hrest, hsame⟩

variable {n : Node}

theorem ident (id : Ident) : (Expr.ident n id).Back := by
  refine of_inner fun input c rest hc hend => ?_
  obtain ⟨c₁, hc₁, rfl⟩ := hc.single
  obtain ⟨pos, hident⟩ := hc₁.ident input
  have hend : c₁.tick.Before Symbol.ends := hend c₁.tick rfl
  have ha : c.atArrow = false := by
    obtain ⟨l, hl, ht⟩ := hc₁
    simp only [Cursor.atArrow, hl.rest, ht]
    exact hend.isAt rfl
  have hsign : c.unaryOp? = none := by simp [Cursor.unaryOp?, hc₁.peek]
  exact ⟨_, _, (Reads.ident hident).assignment_of_primary hsign ha hend, rfl, rfl⟩

theorem literal (v : Literal) : (Expr.literal n v).Back := by
  refine of_inner fun input c rest hc hend => ?_
  -- a negative number is two tokens, any other literal is one
  have hone {t : Token} (hc : c.Shows [t] rest) (hv : Literal.ofToken? t = some v) :
      ∃ e' c₁, Reads input .assignment c e' c₁ ∧ c₁.rest = rest ∧ e'.erase = (Expr.literal n v).erase := by
    obtain ⟨c₁, hc₁, rfl⟩ := hc.single
    have ha : c.atArrow = false := Cursor.not_atArrow hc₁.peek (by rintro _ rfl; cases hv) (by rintro rfl; cases hv)
    have hsign : c.unaryOp? = none := by
      unfold Cursor.unaryOp?
      split
      · rename_i s hpeek
        rw [hc₁.peek] at hpeek
        cases hpeek
        cases hv
      · rfl
    exact ⟨_, _, (Reads.literal hc₁ hv).assignment_of_primary hsign ha (hend c₁.tick rfl), rfl, rfl⟩
  cases v with
  | num negative m =>
      cases negative with
      | false => exact hone hc rfl
      | true =>
          obtain ⟨c₁, hminus, hc⟩ := hc.cons
          obtain ⟨c₂, hnumber, rfl⟩ := hc.single
          have ha : c.atArrow = false := Cursor.not_atArrow hminus.peek nofun nofun
          exact ⟨_, _, (Reads.negativeNumber hminus hnumber).assignment_of_unary ha (hend c₂.tick rfl), rfl, rfl⟩
  | str value => exact hone hc rfl
  | bool value => cases value <;> exact hone hc rfl

theorem array {es : List Expr} (hes : ∀ e ∈ es, e.Back) : (Expr.array n es).Back := by
  refine of_inner fun input c rest hc hend => ?_
  obtain ⟨c₁, hopen, hc⟩ := hc.cons
  obtain ⟨es', c₂, helems, rfl, hsame⟩ := exprs_back (by decide) rfl hes hc
  have hreads := (Reads.array hopen helems).assignment_of_symbol hopen.peek (by decide) rfl (hend c₂.tick rfl)
  refine ⟨_, _, hreads, rfl, ?_⟩
  simp only [erase, relocate, relocateExprs_eq_map]
  exact congrArg (Expr.array .blank) hsame

theorem object {ps : List Property} (hps : ∀ p ∈ ps, p.Back) : (Expr.object n ps).Back := by
  refine of_inner fun input c rest hc hend => ?_
  obtain ⟨c₁, hopen, hc⟩ := hc.cons
  obtain ⟨ps', c₂, hprops, rfl, hsame⟩ := properties_back hps hc
  have hreads := (Reads.object hopen hprops).assignment_of_symbol hopen.peek (by decide) rfl (hend c₂.tick rfl)
  refine ⟨_, _, hreads, rfl, ?_⟩
  simp only [erase, relocate, relocateProperties_eq_map]
  exact congrArg (Expr.object .blank) hsame

theorem template {q : Template} (hq : q.Back) : (Expr.template n q).Back := by
  refine of_inner fun input c rest hc hend => ?_
  obtain ⟨q', c₁, hquasi, rfl, hsame⟩ := hq input hc
  obtain ⟨l, _, hl, hbacktick⟩ := hquasi.backtick
  have hpeek : c.peek = some (.symbol .backtick) := hl.peek.trans (congrArg some hbacktick)
  have hreads := (Reads.templateExpr hquasi).assignment_of_symbol hpeek (by decide) rfl (hend c₁.tick rfl)
  exact ⟨_, _, hreads, rfl, congrArg (Expr.template .blank) hsame⟩

theorem member {o : Expr} (ho : o.Back) (label : Ident) : (Expr.member n o label).Back := by
  refine of_inner fun input c rest hc hend => ?_
  obtain ⟨o', c₁, hgroup, hc, hsame⟩ := ho.followed input hc
  obtain ⟨c₂, hdot, hc⟩ := hc.cons
  obtain ⟨c₃, hword, rfl⟩ := hc.single
  obtain ⟨pos, hlabel⟩ := hword.label input
  have hend : c₃.tick.Before Symbol.ends := hend c₃.tick rfl
  have hreads := hgroup.access (hdot.isAt_ne nofun) (.member hdot hlabel (.noAccess hend.operand.atAccess)) hend
  exact ⟨_, _, hreads, rfl, congrArg (Expr.member .blank · (label.relocate fun _ => none)) hsame⟩

theorem index {o k : Expr} (ho : o.Back) (hk : k.Back) : (Expr.index n o k).Back := by
  refine of_inner fun input c rest hc hend => ?_
  obtain ⟨o', c₁, hgroup, hc, hsame⟩ := ho.followed input hc
  obtain ⟨c₂, hopen, hc⟩ := hc.cons
  obtain ⟨k', c₃, hkey, hc, hsame'⟩ := hk.followed input hc
  obtain ⟨c₄, hclose, rfl⟩ := hc.single
  have hend : c₄.tick.Before Symbol.ends := hend c₄.tick rfl
  have hkey : Reads input .assignment c₂ k' c₃ := hkey.assignment (hclose.before rfl)
  have hreads := hgroup.access (hopen.isAt_ne nofun)
    (.index hopen hkey hclose (.noAccess hend.operand.atAccess)) hend
  exact ⟨_, _, hreads, rfl, congrArg₂ (Expr.index .blank) hsame hsame'⟩

theorem call {f : Expr} {as : List Expr} (hf : f.Back) (has : ∀ a ∈ as, a.Back) : (Expr.call n f as).Back := by
  refine of_inner fun input c rest hc hend => ?_
  obtain ⟨f', c₁, hgroup, hc, hsame⟩ := hf.followed input hc
  obtain ⟨c₂, hopen, hc⟩ := hc.cons
  obtain ⟨as', c₃, hargs, rfl, hsames⟩ := exprs_back (by decide) rfl has hc
  have hend : c₃.tick.Before Symbol.ends := hend c₃.tick rfl
  have hreads := hgroup.access (hopen.isAt_ne nofun) (.call hopen hargs (.noAccess hend.operand.atAccess)) hend
  refine ⟨_, _, hreads, rfl, ?_⟩
  simp only [erase, relocate, relocateExprs_eq_map]
  exact congrArg₂ (Expr.call .blank) hsame hsames

theorem tagged {t : Expr} {q : Template} (ht : t.Back) (hq : q.Back) : (Expr.tagged n t q).Back := by
  refine of_inner fun input c rest hc hend => ?_
  obtain ⟨t', c₁, hgroup, hc, hsame⟩ := ht.followed input hc
  obtain ⟨q', c₂, hquasi, rfl, hsame'⟩ := hq input hc
  obtain ⟨l, _, hl, hbacktick⟩ := hquasi.backtick
  have hend : c₂.tick.Before Symbol.ends := hend c₂.tick rfl
  have harrow : c₁.isAt .fatArrow = false := Cursor.isAt_of_peek hl.peek (by rw [hbacktick]; nofun)
  have hreads := hgroup.access harrow (.tagged hquasi (.noAccess hend.operand.atAccess)) hend
  exact ⟨_, _, hreads, rfl, congrArg₂ (Expr.tagged .blank) hsame hsame'⟩

theorem unary (op : UnaryOp) {a : Expr} (ha : a.Back) : (Expr.unary n op a).Back := by
  refine of_inner fun input c rest hc hend => ?_
  obtain ⟨c₁, hsign, hc⟩ := hc.cons
  obtain ⟨a', c₂, hgroup, rfl, hsame⟩ := ha input hc
  have hend : c₂.tick.Before Symbol.ends := hend c₂.tick rfl
  have harrow : c.atArrow = false := Cursor.not_atArrow hsign.peek nofun (by cases op <;> nofun)
  have hnumber : ¬ (op = .neg ∧ c₁.atNumber = true) := by
    rintro ⟨-, hnumber⟩
    simp [Cursor.atNumber, hgroup.paren] at hnumber
  have hreads := Reads.sign hsign op.ofSymbol?_symbol hnumber (hgroup.unary hend.operand.atAccess)
  exact ⟨_, _, hreads.assignment_of_unary harrow hend, rfl, congrArg (Expr.unary .blank op) hsame⟩

theorem binary (op : BinaryOp) {a b : Expr} (ha : a.Back) (hb : b.Back) : (Expr.binary n op a b).Back := by
  refine of_inner fun input c rest hc hend => ?_
  obtain ⟨a', c₁, hleft, hc, hsame⟩ := ha.followed input hc
  obtain ⟨c₂, hop, hc⟩ := hc.cons
  obtain ⟨b', c₃, hright, rfl, hsame'⟩ := hb input hc
  have hend : c₃.tick.Before Symbol.ends := hend c₃.tick rfl
  have harrow : c.atArrow = false := hleft.atArrow.trans (hop.isAt_ne (by cases op <;> nofun))
  have hn : c₁.atAccess = false := Cursor.atAccess_of_op hop.peek
  -- a power has no level among the others, and its right side is a power again
  by_cases hpow : op = .pow
  · subst hpow
    have hpower : Reads input .exponent c₂ b' c₃ := .noPower (hright.unary hend.operand.atAccess) (hend.isAt rfl)
    have hreads := Reads.tightest (Nat.lt_irrefl 6) (.power (hleft.unary hn) hop hpower)
    exact ⟨_, _, hreads.assignment_of_binary (Nat.le_refl 6) harrow hend, rfl,
      congrArg₂ (Expr.binary .blank .pow) hsame hsame'⟩
  · have hlevel := BinaryOp.level_lt hpow
    have hstar : c₁.isAt .doubleStar = false := hop.isAt_ne (by cases op <;> first | exact absurd rfl hpow | nofun)
    have hoperand := hleft.operand hlevel hn hstar fun j hj => Cursor.binaryOp?_of_peek hop.peek (by omega)
    have hreads := Reads.operands hlevel hoperand
      (.operator hop (BinaryOp.ofSymbol?_symbol hpow) (hright.last hlevel hend.operand)
        (.noOperator (hend.operand.binaryOp? op.level)))
    exact ⟨_, _, hreads.assignment_of_binary hlevel.le harrow hend, rfl,
      congrArg₂ (Expr.binary .blank op) hsame hsame'⟩

theorem conditional {t a b : Expr} (ht : t.Back) (ha : a.Back) (hb : b.Back) : (Expr.conditional n t a b).Back := by
  refine of_inner fun input c rest hc hend => ?_
  obtain ⟨t', c₁, htest, hc, hsame⟩ := ht.followed input hc
  obtain ⟨c₂, hquestion, hc⟩ := hc.cons
  obtain ⟨a', c₃, hthen, hc, hsame'⟩ := ha.followed input hc
  obtain ⟨c₄, hcolon, hc⟩ := hc.cons
  obtain ⟨b', c₅, helse, rfl, hsame''⟩ := hb input hc
  have hend : c₅.tick.Before Symbol.ends := hend c₅.tick rfl
  have harrow : c.atArrow = false := htest.atArrow.trans (hquestion.isAt_ne nofun)
  have hreads := Reads.ternary (htest.last (Nat.zero_le 6) (hquestion.before rfl)) hquestion
    (hthen.assignment (hcolon.before rfl)) hcolon (helse.assignment hend)
  refine ⟨_, _, .noAssign harrow hreads (hend.isAt rfl), rfl, ?_⟩
  simp only [erase, relocate] at hsame hsame' hsame'' ⊢
  rw [hsame, hsame', hsame'']

theorem assign {t v : Expr} (ht : t.Back) (hv : v.Back) : (Expr.assign n t v).Back := by
  refine of_inner fun input c rest hc hend => ?_
  obtain ⟨t', c₁, htarget, hc, hsame⟩ := ht.followed input hc
  obtain ⟨c₂, hequals, hc⟩ := hc.cons
  obtain ⟨v', c₃, hvalue, rfl, hsame'⟩ := hv input hc
  have harrow : c.atArrow = false := htarget.atArrow.trans (hequals.isAt_ne nofun)
  have hconditional : Reads input .conditional c t' c₁ :=
    .noTernary (htarget.last (Nat.zero_le 6) (hequals.before rfl)) (hequals.isAt_ne nofun)
  have hreads := Reads.assign harrow hconditional hequals (hvalue.assignment (hend c₃ rfl))
  exact ⟨_, _, hreads, rfl, congrArg₂ (Expr.assign .blank) hsame hsame'⟩

end Expr.Back

/-! Properties. -/

theorem Cursor.Between.atShorthandEnd {c : Cursor} (h : c.Between .rBrace) : c.atShorthandEnd = true := by
  rcases h with h | h <;> simp [Cursor.atShorthandEnd, Cursor.isAt, h]

theorem Literal.tokens_of_ofKey? {t : Token} {v : Literal} (h : Literal.ofKey? t = some v) : v.tokens = [t] := by
  unfold Literal.ofKey? at h
  split at h <;> cases h <;> rfl

namespace Property.Back

variable {value : Expr} {pos : Position}

/-- What follows a key. -/
theorem value_back (hv : value.Back) {input : Input} {c : Cursor} {rest : List Lexeme}
    (hc : c.Shows (.symbol .colon :: parens value.tokens) rest)
    (hnext : ∀ c₁ : Cursor, c₁.rest = rest → c₁.Between .rBrace) :
    ∃ v' c₁, Reads input .propertyValue c v' c₁ ∧ c₁.rest = rest ∧ v'.erase = value.erase := by
  obtain ⟨c₁, hcolon, hc⟩ := hc.cons
  obtain ⟨v', c₂, hgroup, hrest, hsame⟩ := hv input hc
  exact ⟨v', c₂, .propertyValue hcolon (hgroup.assignment ((hnext c₂ hrest).before rfl)), hrest, hsame⟩

theorem shorthand {key : PropertyKey} (h : key.names value = true) : (Property.mk key value pos).Back := by
  intro input c rest hc hnext
  cases key with
  | ident id =>
      cases value with
      | ident node id' =>
          have hlabel : id.label = id'.label := beq_iff_eq.mp h
          rw [Property.tokens, if_pos h] at hc
          obtain ⟨c₁, hword, rfl⟩ := hc.single
          obtain ⟨pos', hname⟩ := hword.label input
          refine ⟨_, _, .shorthand hname (hnext c₁ rfl).atShorthandEnd, rfl, ?_⟩
          simp [erase, relocate, PropertyKey.relocate, Expr.relocate, Ident.relocate, hlabel]
      | _ => cases h
  | literal v pos' => cases h
  | computed e => cases h

theorem literalKey {t : Token} {v : Literal} {pos' : Position} (h : Literal.ofKey? t = some v) (hv : value.Back) :
    (Property.mk (.literal v pos') value pos).Back := by
  intro input c rest hc hnext
  have hc : c.Shows (v.tokens ++ .symbol .colon :: parens value.tokens) rest := hc
  rw [Literal.tokens_of_ofKey? h] at hc
  obtain ⟨c₁, ⟨l, hl, ht⟩, hc⟩ := hc.cons
  obtain ⟨v', c₂, hvalue, rfl, hsame⟩ := value_back hv hc hnext
  exact ⟨_, _, .literalKey hl (ht ▸ h) hvalue, rfl, congrArg (Property.mk (.literal v none) · none) hsame⟩

theorem computedKey {key : Expr} (hkey : key.Back) (hv : value.Back) :
    (Property.mk (.computed key) value pos).Back := by
  intro input c rest hc hnext
  have hc : c.Shows (brackets (parens key.tokens) ++ .symbol .colon :: parens value.tokens) rest := hc
  simp only [brackets, List.cons_append, List.append_assoc, List.nil_append] at hc
  obtain ⟨c₁, hopen, hc⟩ := hc.cons
  obtain ⟨key', c₂, hgroup, hc, hsame⟩ := hkey.followed input hc
  obtain ⟨c₃, hclose, hc⟩ := hc.cons
  obtain ⟨v', c₄, hvalue, rfl, hsame'⟩ := value_back hv hc hnext
  have hreads := Reads.computedKey hopen (hgroup.assignment (hclose.before rfl)) hclose hvalue
  exact ⟨_, _, hreads, rfl, congrArg₂ (fun key value => Property.mk (.computed key) value none) hsame hsame'⟩

/-- A key that is a name. Its value may be the same name, and then it is printed once. -/
theorem namedKey (id : Ident) (hv : value.Back) : (Property.mk (.ident id) value pos).Back := by
  cases hnames : (PropertyKey.ident id).names value with
  | true => exact shorthand hnames
  | false =>
      intro input c rest hc hnext
      rw [Property.tokens, hnames, if_neg Bool.false_ne_true] at hc
      obtain ⟨c₁, hword, hc⟩ := hc.cons
      obtain ⟨pos', hname⟩ := hword.label input
      have hend : c₁.atShorthandEnd = false := by
        simp [Cursor.atShorthandEnd, Cursor.isAt, hc.peek]
      obtain ⟨v', c₂, hvalue, rfl, hsame⟩ := value_back hv hc hnext
      exact ⟨_, _, .namedKey hname hend hvalue, rfl, congrArg (Property.mk (.ident ⟨id.label, none⟩) · none) hsame⟩

end Property.Back

/-! Templates. -/

/-- What follows the backtick of a template is read back, to its end. -/
def QuasisBack (texts : List String) (es : List Expr) : Prop :=
  ∀ (input : Input) {c : Cursor} {rest : List Lexeme}, c.Shows (tokensQuasis texts es) rest →
    ∃ es' c₁, Reads input (.templateTail "") c (texts, es') c₁ ∧ c₁.rest = rest ∧
      es'.map Expr.erase = es.map Expr.erase

/-- A text, which may be empty, is read before what follows it. -/
theorem quasi_back {text : String} {ts : List Token} {c : Cursor} {rest : List Lexeme}
    (hc : c.Shows (ofQuasi text ++ ts) rest) (input : Input) :
    ∃ c₁ : Cursor, c₁.Shows ts rest ∧ ∀ {v c'}, Reads input (.templateTail text) c₁ v c' →
      Reads input (.templateTail "") c v c' := by
  unfold ofQuasi at hc
  split at hc
  · rename_i hempty
    subst hempty
    exact ⟨c, hc, id⟩
  · obtain ⟨c₁, htext, hc⟩ := hc.cons
    refine ⟨c₁, hc, fun h => .templateText htext rfl ?_⟩
    rw [String.empty_append]
    exact h

theorem QuasisBack.last (text : String) : QuasisBack [text] [] := by
  intro input c rest hc
  obtain ⟨c₁, hc, htext⟩ := quasi_back hc input
  obtain ⟨c₂, hclose, hrest⟩ := hc.single
  exact ⟨[], c₂, htext (.templateEnd hclose), hrest, rfl⟩

theorem QuasisBack.more (text : String) {texts : List String} {e : Expr} {es : List Expr} (he : e.Back)
    (h : QuasisBack texts es) : QuasisBack (text :: texts) (e :: es) := by
  intro input c rest hc
  obtain ⟨c₁, hc, htext⟩ := quasi_back hc input
  obtain ⟨c₂, hopen, hc⟩ := hc.cons
  obtain ⟨e', c₃, hgroup, hc, hsame⟩ := he.followed input hc
  obtain ⟨c₄, hclose, hc⟩ := hc.cons
  obtain ⟨es', c₅, htail, hrest, hsames⟩ := h input hc
  have hreads : Reads input (.templateTail text) c₁ (text :: texts, e' :: es') c₅ :=
    .interpolation hopen (hgroup.assignment (hclose.before rfl)) hclose htail
  exact ⟨e' :: es', c₅, htext hreads, hrest, by rw [List.map_cons, hsame, hsames]; rfl⟩

theorem Template.Back.of_quasis {texts : List String} {es : List Expr} (h : QuasisBack texts es) (pos : Position) :
    (Template.mk texts es pos).Back := by
  intro input c rest hc
  obtain ⟨c₁, hopen, hc⟩ := hc.cons
  obtain ⟨es', c₂, htail, rfl, hsame⟩ := h input hc
  refine ⟨_, _, .template hopen htail, rfl, ?_⟩
  simp only [erase, relocate, relocateExprs_eq_map]
  exact congrArg (Template.mk texts · none) hsame

/-! Statements. -/

def Declarator.Back (d : Declarator) : Prop :=
  ∀ (input : Input) {c : Cursor} {rest : List Lexeme}, c.Shows d.tokens rest →
    (∀ c₁ : Cursor, c₁.rest = rest → c₁.Before Symbol.ends) →
    ∃ d' c₁, Reads input .declarator c d' c₁ ∧ c₁.rest = rest ∧ d'.erase = d.erase

/-- The printed form of a statement is read back, up to and with its semicolon. -/
def Stmt.Back (s : Stmt) : Prop :=
  ∀ (input : Input) {c : Cursor} {rest : List Lexeme}, c.Shows s.tokens rest →
    ∃ s' c₁, Reads input .statement c (some s') c₁ ∧ c₁.rest = rest ∧ s'.erase = s.erase

theorem Stmt.Back.followed {s : Stmt} (hs : s.Back) (input : Input) {c : Cursor} {ts : List Token}
    {rest : List Lexeme} (hc : c.Shows (s.tokens ++ ts) rest) :
    ∃ s' c₁, Reads input .statement c (some s') c₁ ∧ c₁.Shows ts rest ∧ s'.erase = s.erase := by
  obtain ⟨mid, hc, hmid⟩ := hc.append
  obtain ⟨s', c₁, hreads, hrest, hsame⟩ := hs input hc
  exact ⟨s', c₁, hreads, hmid c₁ hrest, hsame⟩

theorem tokensDeclarators_eq_map (ds : List Declarator) : tokensDeclarators ds = ds.map Declarator.tokens := by
  induction ds with
  | nil => rfl
  | cons d ds ih => rw [tokensDeclarators, ih, List.map_cons]

theorem Declarator.Back.uninitialized (p : Pattern) (pos : Position) : (Declarator.mk p none pos).Back := by
  intro input c rest hc hend
  obtain ⟨p', c₁, hpattern, rfl, hsame⟩ := p.back hc
  exact ⟨_, _, .uninitialized hpattern ((hend c₁ rfl).isAt rfl), rfl, congrArg (Declarator.mk · none none) hsame⟩

theorem Declarator.Back.initialized (p : Pattern) {e : Expr} (he : e.Back) (pos : Position) :
    (Declarator.mk p (some e) pos).Back := by
  intro input c rest hc hend
  obtain ⟨mid, hc, hmid⟩ := hc.append
  obtain ⟨p', c₁, hpattern, rfl, hsame⟩ := p.back hc
  obtain ⟨c₂, hequals, hc⟩ := (hmid c₁ rfl).cons
  obtain ⟨e', c₃, hgroup, rfl, hsame'⟩ := he input hc
  exact ⟨_, _, .initialized hpattern hequals (hgroup.assignment (hend c₃ rfl)), rfl,
    congrArg₂ (fun p e => Declarator.mk p (some e) none) hsame hsame'⟩

/-- Declarators are a list that is not empty and ends before a semicolon. -/
theorem lists_declarators (input : Input) :
    Lists .semicolon (Reads input .declarator) fun c ds c₁ =>
      ds ≠ [] → ∃ c₀, Reads input .declarators c ds c₀ ∧ c₀.Takes (.symbol .semicolon) c₁ where
  nil _ hne := absurd rfl hne
  last h hcomma hclose _ := ⟨_, .declaratorsLast h hcomma, hclose⟩
  more h hcomma hne hmore _ := by
    obtain ⟨c₀, hds, hclose⟩ := hmore hne
    exact ⟨c₀, .declaratorsMore h hcomma hds, hclose⟩

section Statements

variable {input : Input} {c : Cursor} {rest : List Lexeme}

theorem declarators_back {ds : List Declarator} (hne : ds ≠ []) (hds : ∀ d ∈ ds, d.Back)
    (hc : c.Shows (commas (tokensDeclarators ds) ++ [.symbol .semicolon]) rest) :
    ∃ ds' c₁, Reads input .declarators c ds' c₁ ∧ (c₁.past .semicolon).rest = rest ∧
      ds'.map Declarator.erase = ds.map Declarator.erase := by
  rw [tokensDeclarators_eq_map] at hc
  obtain ⟨ds', c₂, hlist, hrest, hsame⟩ := (lists_declarators input).back (by decide)
    (fun d hd _ _ hc hnext => hds d hd input hc fun c₁ hc₁ => (hnext c₁ hc₁).before rfl) hc
  have hne' : ds' ≠ [] := by
    rintro rfl
    exact hne (List.map_eq_nil_iff.mp hsame.symm)
  obtain ⟨c₁, hreads, hclose⟩ := hlist hne'
  exact ⟨ds', c₁, hreads, by rw [hclose.past, hrest], hsame⟩

theorem Cursor.Shows.past (h : c.Shows [.symbol .semicolon] rest) : (c.past .semicolon).rest = rest := by
  obtain ⟨c₁, hc₁, hrest⟩ := h.single
  rw [hc₁.past, hrest]

/-- No statement starts with a closing brace. -/
theorem Stmt.tokens_head (s : Stmt) : ∃ t ts, s.tokens = t :: ts ∧ t ≠ .symbol .rBrace := by
  cases s <;> exact ⟨_, _, rfl, nofun⟩

theorem block_back {ss : List Stmt} (hss : ∀ s ∈ ss, s.Back)
    (hc : c.Shows (tokensStmts ss ++ [.symbol .rBrace]) rest) :
    ∃ ss' c₁, Reads input .block c ss' c₁ ∧ c₁.rest = rest ∧ ss'.map Stmt.erase = ss.map Stmt.erase := by
  induction ss generalizing c with
  | nil =>
      obtain ⟨c₁, hclose, hrest⟩ := hc.single
      exact ⟨[], c₁, .blockEnd hclose, hrest, rfl⟩
  | cons s ss ih =>
      obtain ⟨hs, hss⟩ := List.forall_mem_cons.mp hss
      rw [tokensStmts, List.append_assoc] at hc
      have hbrace : c.isAt .rBrace = false := by
        obtain ⟨t, ts, htokens, ht⟩ := s.tokens_head
        rw [htokens] at hc
        exact Cursor.isAt_of_peek hc.peek ht
      obtain ⟨s', c₁, hreads, hc, hsame⟩ := hs.followed input hc
      obtain ⟨ss', c₂, hblock, hrest, hsames⟩ := ih hss hc
      exact ⟨s' :: ss', c₂, .blockMore hbrace hreads hblock, hrest, by rw [List.map_cons, hsame, hsames]; rfl⟩

/-- A test is in the parentheses of its statement and in its own. -/
theorem test_back {t : Expr} {ts : List Token} (ht : t.Back) (hc : c.Shows (parens (parens t.tokens) ++ ts) rest) :
    ∃ t' c₁, Reads input .parenthesized c t' c₁ ∧ c₁.Shows ts rest ∧ t'.erase = t.erase := by
  obtain ⟨mid, hc, hmid⟩ := hc.append
  obtain ⟨c₁, hopen, hc⟩ := hc.cons
  obtain ⟨t', c₂, hgroup, hc, hsame⟩ := ht.followed input hc
  obtain ⟨c₃, hclose, hrest⟩ := hc.single
  exact ⟨t', c₃, .parenthesized hopen (hgroup.assignment (hclose.before rfl)) hclose, hmid c₃ hrest, hsame⟩

end Statements

/-! Functions. -/

namespace Expr.Back

variable {n : Node}

/-- Parameters are known by the arrow after them. -/
theorem arrowParams {ps : List Pattern} {input : Input} {c : Cursor} {rest : List Lexeme}
    (hc : c.Shows (parens (commas (ps.map Pattern.tokens))) rest) :
    ∃ ps' c₁, Reads input .arrowParams c ps' c₁ ∧ c₁.rest = rest ∧ ps'.map Pattern.erase = ps.map Pattern.erase ∧
      c.atArrow = c₁.isAt .fatArrow := by
  obtain ⟨c₁, hopen, hc⟩ := hc.cons
  obtain ⟨ps', c₂, hparams, rfl, hsame⟩ := params_back ps hc
  refine ⟨ps', c₂, .paramList hopen hparams, rfl, hsame, ?_⟩
  obtain ⟨l, hl, ht⟩ := hopen
  obtain ⟨_, hrest, inner, l', rfl, hnested, ht'⟩ := hparams.crosses
  simp only [Cursor.atArrow, hl.rest, ht, hrest, List.append_assoc, List.cons_append, List.nil_append]
  exact hnested.arrowAfter_close ht'

theorem exprArrow (ps : List Pattern) {e : Expr} (he : e.Back) : (Expr.arrow n ps (.expr e)).Back := by
  refine of_inner fun input c rest hc hend => ?_
  obtain ⟨mid, hc, hmid⟩ := hc.append
  obtain ⟨ps', c₁, hparams, rfl, hsame, harrow⟩ := arrowParams hc
  obtain ⟨c₂, hfat, hc⟩ := (hmid c₁ rfl).cons
  obtain ⟨e', c₃, hgroup, rfl, hsame'⟩ := he input hc
  have ha : c.atArrow = true := harrow.trans (by simp [Cursor.isAt, hfat.peek])
  have hbrace : c₂.isAt .lBrace = false := Cursor.isAt_of_peek hgroup.paren (by simp)
  have hreads := Reads.arrowExpr ha (.exprArrow hparams hfat hbrace (hgroup.assignment (hend c₃ rfl)))
  exact ⟨_, _, hreads, rfl, congrArg₂ (fun ps e => Expr.arrow .blank ps (.expr e)) hsame hsame'⟩

theorem blockArrow (ps : List Pattern) {ss : List Stmt} (hss : ∀ s ∈ ss, s.Back) (pos : Position) :
    (Expr.arrow n ps (.block ss pos)).Back := by
  refine of_inner fun input c rest hc hend => ?_
  obtain ⟨mid, hc, hmid⟩ := hc.append
  obtain ⟨ps', c₁, hparams, rfl, hsame, harrow⟩ := arrowParams hc
  obtain ⟨c₂, hfat, hc⟩ := (hmid c₁ rfl).cons
  obtain ⟨c₃, hopen, hc⟩ := hc.cons
  obtain ⟨ss', c₄, hblock, rfl, hsames⟩ := block_back hss hc
  have ha : c.atArrow = true := harrow.trans (by simp [Cursor.isAt, hfat.peek])
  refine ⟨_, _, .arrowExpr ha (.blockArrow hparams hfat hopen hblock), rfl, ?_⟩
  simp only [erase, relocate, Body.relocate, relocateStmts_eq_map]
  exact congrArg₂ (fun ps ss => Expr.arrow .blank ps (.block ss none)) hsame hsames

end Expr.Back

namespace Stmt.Back

variable {n : Node}

theorem expr {e : Expr} (he : e.Back) : (Stmt.expr n e).Back := by
  intro input c rest hc
  obtain ⟨e', c₁, hgroup, hsemicolon, hsame⟩ := he.followed input hc
  have hn : c.atStatement = false := by simp [Cursor.atStatement, hgroup.paren, Parser.declKind?]
  have hreads := Reads.exprStatement hn (hgroup.assignment (.of_peek hsemicolon.peek rfl))
  exact ⟨_, _, hreads, hsemicolon.past, congrArg (Stmt.expr .blank) hsame⟩

theorem retNothing : (Stmt.ret n none).Back := by
  intro input c rest hc
  obtain ⟨c₁, hword, hc⟩ := hc.cons
  have hends : Parser.returnEnds c₁ = true := by
    obtain ⟨c₂, ⟨l, hl, ht⟩, -⟩ := hc.cons
    simp [Parser.returnEnds, hl.rest, ht]
  exact ⟨_, _, .returnNothing hword hends, hc.past, rfl⟩

/-- A value that is returned stands on the same line. -/
theorem retValue {e : Expr} (he : e.Back) : (Stmt.ret n (some e)).Back := by
  intro input c rest hc
  obtain ⟨c₁, hword, hc⟩ := hc.cons
  have hends : Parser.returnEnds c₁ = false := by
    obtain ⟨ls, hrest, htokens, hline⟩ := hc
    obtain ⟨l, ls, rfl, ht, -⟩ := List.map_eq_cons_iff.mp htokens
    simp [Parser.returnEnds, hrest, ht, (List.forall_mem_cons.mp hline).1]
  obtain ⟨e', c₂, hgroup, hsemicolon, hsame⟩ := he.followed input hc
  have hreads := Reads.returnValue hword hends (hgroup.assignment (.of_peek hsemicolon.peek rfl))
  exact ⟨_, _, hreads, hsemicolon.past, congrArg (fun e => Stmt.ret .blank (some e)) hsame⟩

theorem block {ss : List Stmt} (hss : ∀ s ∈ ss, s.Back) : (Stmt.block n ss).Back := by
  intro input c rest hc
  obtain ⟨mid, hc, hmid⟩ := hc.append
  obtain ⟨c₁, hopen, hc⟩ := hc.cons
  obtain ⟨ss', c₂, hblock, rfl, hsame⟩ := block_back hss hc
  refine ⟨_, _, .blockStatement hopen hblock, (hmid c₂ rfl).past, ?_⟩
  simp only [erase, relocate, relocateStmts_eq_map]
  exact congrArg (Stmt.block .blank) hsame

theorem ifElse {t : Expr} {a b : Stmt} (ht : t.Back) (ha : a.Back) (hb : b.Back) :
    (Stmt.cond n t a (some b)).Back := by
  intro input c rest hc
  obtain ⟨c₁, hword, hc⟩ := hc.cons
  obtain ⟨t', c₂, htest, hc, hsame⟩ := test_back ht hc
  obtain ⟨a', c₃, hthen, hc, hsame'⟩ := ha.followed input hc
  obtain ⟨c₄, helse, hc⟩ := hc.cons
  obtain ⟨b', c₅, hother, hc, hsame''⟩ := hb.followed input hc
  refine ⟨_, _, .ifElse hword htest (.requiredSome hthen) helse (.requiredSome hother), hc.past, ?_⟩
  simp only [erase, relocate, Expr.erase, relocateBranch] at hsame hsame' hsame'' ⊢
  rw [hsame, hsame', hsame'']

/-- The semicolon of the inner statement keeps an `else` that follows from being taken for its own. -/
theorem ifOnly {t : Expr} {a : Stmt} (ht : t.Back) (ha : a.Back) : (Stmt.cond n t a none).Back := by
  intro input c rest hc
  obtain ⟨c₁, hword, hc⟩ := hc.cons
  obtain ⟨t', c₂, htest, hc, hsame⟩ := test_back ht hc
  obtain ⟨a', c₃, hthen, hsemicolon, hsame'⟩ := ha.followed input hc
  have hn : c₃.peek ≠ some (.keyword .elseWord) := by
    rw [hsemicolon.peek]
    nofun
  exact ⟨_, _, .ifOnly hword htest (.requiredSome hthen) hn, hsemicolon.past,
    congrArg₂ (Stmt.cond .blank · · none) hsame hsame'⟩

theorem loop {t : Expr} {a : Stmt} (ht : t.Back) (ha : a.Back) : (Stmt.loop n t a).Back := by
  intro input c rest hc
  obtain ⟨c₁, hword, hc⟩ := hc.cons
  obtain ⟨t', c₂, htest, hc, hsame⟩ := test_back ht hc
  obtain ⟨a', c₃, hbody, hc, hsame'⟩ := ha.followed input hc
  exact ⟨_, _, .whileLoop hword htest (.requiredSome hbody), hc.past,
    congrArg₂ (Stmt.loop .blank) hsame hsame'⟩

theorem decl (kind : DeclKind) {ds : List Declarator} (hne : ds ≠ []) (hds : ∀ d ∈ ds, d.Back) :
    (Stmt.decl n kind ds).Back := by
  intro input c rest hc
  obtain ⟨c₁, hword, hc⟩ := hc.cons
  obtain ⟨ds', c₂, hdecls, hrest, hsame⟩ := declarators_back hne hds hc
  have hkind : Parser.declKind? (.keyword kind.word) = some kind := by cases kind <;> rfl
  refine ⟨_, _, .declaration hword hkind hdecls, hrest, ?_⟩
  simp only [erase, relocate, relocateDeclarators_eq_map]
  exact congrArg (Stmt.decl .blank kind) hsame

end Stmt.Back

end ScriptTypes
