import ScriptTypes.Proofs.Typing.Over
import ScriptTypes.Proofs.Typing.TopLevel

/-! Where a script stops. The statements of a script are taken one after the other, and the first one that fails ends
the run. It fails in the block where it stands, which is left as it is then. What it had bound by then, in blocks or in
functions, is out of sight: the names that are left are those of the statements before it. -/

namespace ScriptTypes

/-- A statement of the script has failed and left a block. -/
def Fails (steps : Nat) (b : Block) (ss : List Stmt) (r : Run) (b' : Block) (e : Failure VarId) (r' : Run) : Prop :=
  Infer.script steps b ss r = ((b', some e), r')

section

variable {steps : Nat} {b b' : Block} {r r' : Run} {e : Failure VarId}

/-- A script goes on after its first statements only if none of them fails. -/
theorem Infers.script_append {p : List Stmt} (h : Infers steps b p r b' r') (q : List Stmt) :
    Infer.script steps b (p ++ q) r = Infer.script steps b' q r' := by
  induction p generalizing b r with
  | nil =>
      obtain ⟨rfl, rfl⟩ := nil_iff.mp h
      rfl
  | cons s p ih =>
      obtain ⟨b₁, r₁, hs, hp⟩ := cons_iff.mp h
      rw [List.cons_append, Infer.script_cons, show (Infer.stmt steps .top b s).outcome r = (.ok b₁, r₁) from hs]
      exact ih hp

theorem fails_cons_iff {s : Stmt} {ss : List Stmt} :
    Fails steps b (s :: ss) r b' e r' ↔
      (Infer.checkStmt steps .top s).outcome b r = ((.error e, b'), r') ∨
        ∃ b₁ r₁, Returns (Infer.stmt steps .top b s) r b₁ r₁ ∧ Fails steps b₁ ss r₁ b' e r' := by
  have hstmt := Checking.outcome_blockFrom (Infer.checkStmt steps .top s) b r
  simp only [Fails, Infer.script, Returns, ← Infer.outcome.eq_def, Infer.stmt, hstmt]
  obtain ⟨⟨result, b₁⟩, r₁⟩ := (Infer.checkStmt steps .top s).outcome b r
  cases result with
  | ok _ => simp
  | error f => simp [and_comm, and_left_comm]

/-- A script fails at one of its statements, in the block that the statements before it have led to. -/
theorem fails_iff {ss : List Stmt} :
    Fails steps b ss r b' e r' ↔
      ∃ p s q b₁ r₁, ss = p ++ [s] ++ q ∧ Infers steps b p r b₁ r₁ ∧
        (Infer.checkStmt steps .top s).outcome b₁ r₁ = ((.error e, b'), r') := by
  constructor
  · intro h
    induction ss generalizing b r with
    | nil => cases h
    | cons s ss ih =>
        obtain hs | ⟨b₁, r₁, hs, hss⟩ := fails_cons_iff.mp h
        · exact ⟨[], s, ss, b, r, rfl, rfl, hs⟩
        · obtain ⟨p, t, q, b₂, r₂, rfl, hp, ht⟩ := ih hss
          exact ⟨s :: p, t, q, b₂, r₂, rfl, Infers.cons_iff.mpr ⟨b₁, r₁, hs, hp⟩, ht⟩
  · rintro ⟨p, s, q, b₁, r₁, rfl, hp, hs⟩
    rw [Fails, List.append_assoc, hp.script_append]
    exact fails_cons_iff.mpr (.inl hs)

end

namespace Script

variable {steps : Nat}

theorem infer_eq_typeError_iff {s : Script} {env : Env VarId} {e : TypeError VarId} :
    s.infer steps = .ok ⟨env, some e⟩ ↔
      ∃ b r, Fails steps ⟨.empty, [], none⟩ s.body .initial b (.type e) r ∧ b.env = env := by
  obtain ⟨b, error, r, hrun, hinfer⟩ := s.infer_cases steps
  rw [run_eq] at hrun
  simp only [hinfer, Fails, hrun]
  cases error with
  | none => simp
  | some f => cases f <;> simp [and_comm]

/-- What is known of a script are the names of its first statements, up to the one that fails if there is one. -/
theorem infers_of_infer {s : Script} {i : Inferred} (h : s.infer steps = .ok i) :
    ∃ p b r, Infers steps ⟨.empty, [], none⟩ p .initial b r ∧ i.env = b.env := by
  obtain ⟨env, error⟩ := i
  cases error with
  | none =>
      obtain ⟨b, r, hinfers, rfl⟩ := infer_eq_ok_iff.mp h
      exact ⟨s.body, b, r, hinfers, rfl⟩
  | some e =>
      obtain ⟨b', r', hfails, rfl⟩ := infer_eq_typeError_iff.mp h
      obtain ⟨p, s, q, b, r, -, hinfers, hstmt⟩ := fails_iff.mp hfails
      exact ⟨p, b, r, hinfers, Infer.checkStmt_failsClean steps .top s b r _ b' r' hstmt⟩

/-- A type error leaves exactly the names before it. A statement that fails has bound no name in the block where it
stands, whatever it has done to that block. If statements have no error, and together with one more they have a type
error, then whatever comes after that statement, the script has that error and the names of the statements before. Every
type error of a script comes about in this way. -/
theorem typeError_keeps_names_before (steps : Nat) :
    (∀ (kind : BlockKind) (s : Stmt) (b b' : Block) (r r' : Run) (e : Failure VarId),
      (Infer.checkStmt steps kind s).outcome b r = ((.error e, b'), r') → b'.env = b.env) ∧
    (∀ (p : List Stmt) (s : Stmt) (q : List Stmt) (pos₁ pos₂ pos₃ : Position) (env env' : Env VarId)
        (e : TypeError VarId),
      infer steps ⟨p, pos₁⟩ = .ok ⟨env, none⟩ → infer steps ⟨p ++ [s], pos₂⟩ = .ok ⟨env', some e⟩ →
        infer steps ⟨p ++ [s] ++ q, pos₃⟩ = .ok ⟨env, some e⟩) ∧
      ∀ (script : Script) (env : Env VarId) (e : TypeError VarId), script.infer steps = .ok ⟨env, some e⟩ →
        ∃ p s q, script.body = p ++ [s] ++ q ∧ infer steps ⟨p, script.pos⟩ = .ok ⟨env, none⟩ ∧
          infer steps ⟨p ++ [s], script.pos⟩ = .ok ⟨env, some e⟩ := by
  have hclean := fun kind s b b' r r' e => Infer.checkStmt_failsClean steps kind s b r e b' r'
  refine ⟨hclean, ?_, ?_⟩
  · intro p s q pos₁ pos₂ pos₃ env env' e hp hs
    obtain ⟨b, r, hinfers, rfl⟩ := infer_eq_ok_iff.mp hp
    obtain ⟨b', r', hfails, -⟩ := infer_eq_typeError_iff.mp hs
    -- the statements before do not fail, so it is the last one that does
    rw [Fails, hinfers.script_append] at hfails
    obtain hstmt | ⟨b₁, r₁, -, hnil⟩ := fails_cons_iff.mp hfails
    · rw [← hclean .top s b b' r r' _ hstmt]
      exact infer_eq_typeError_iff.mpr ⟨b', r', fails_iff.mpr ⟨p, s, q, b, r, rfl, hinfers, hstmt⟩, rfl⟩
    · cases hnil
  · intro script env e h
    obtain ⟨b', r', hfails, rfl⟩ := infer_eq_typeError_iff.mp h
    obtain ⟨p, s, q, b, r, hbody, hinfers, hstmt⟩ := fails_iff.mp hfails
    refine ⟨p, s, q, hbody, infer_eq_ok_iff.mpr ⟨b, r, hinfers, (hclean .top s b b' r r' _ hstmt).symm⟩, ?_⟩
    have hlast := fails_iff.mpr ⟨p, s, [], b, r, (List.append_nil (p ++ [s])).symm, hinfers, hstmt⟩
    exact infer_eq_typeError_iff.mpr ⟨b', r', hlast, rfl⟩

/-- A function that fails in its body, after names of its own. -/
def misused : Stmt :=
  pairing.declare "misused" (.arrow pairing.node [.ident ⟨"y", none⟩] (.block
    [pairing.declare "inner" (.call pairing.node (pairing.use "pair") [pairing.use "y"]),
    .ret pairing.node (some (.binary pairing.node .sub (pairing.use "inner") (pairing.use "inner")))] none))

def misusedError : TypeError VarId :=
  .mismatch (.con "Array" [.var 21 (some pairing.node)] (some pairing.node)) (.leaf .num (some pairing.node))

/-- A name that is taken, which is seen only when the value has been typed. -/
def redeclared : Stmt :=
  pairing.declare "pair" (.literal pairing.node (.bool true))

def taken : Block :=
  ⟨Scope.empty.insert "pair" ⟨⟨"pair", none⟩, .closed (.leaf .num none), false⟩, [], none⟩

theorem redeclared_fails :
    (Infer.checkStmt 20 .top redeclared).outcome taken .initial =
      ((.error (.scope (.alreadyDefined ⟨"pair", none⟩ none)),
        ⟨taken.env, [.closed (.leaf .bool (some pairing.node))], none⟩), .initial) := rfl

theorem typeError_keeps_names_before_misused :
    (∃ e b', (Infer.checkStmt 20 .top redeclared).outcome taken .initial = ((.error e, b'), .initial) ∧
      b'.typings = [.closed (.leaf .bool (some pairing.node))] ∧ b'.env = taken.env) ∧
      infer 20 ⟨pairing.body, none⟩ = .ok ⟨pairingEnv, none⟩ ∧
      infer 20 ⟨pairing.body ++ [misused], none⟩ = .ok ⟨pairingEnv, some misusedError⟩ ∧
      infer 20 ⟨pairing.body ++ [misused] ++ [misused, pairing.declare "pair" (pairing.use "missing")], none⟩ =
        .ok ⟨pairingEnv, some misusedError⟩ := by
  have hp : infer 20 ⟨pairing.body, none⟩ = .ok ⟨pairingEnv, none⟩ := infer_pairing
  have hs : infer 20 ⟨pairing.body ++ [misused], none⟩ = .ok ⟨pairingEnv, some misusedError⟩ := by decide +kernel
  have hkept := (typeError_keeps_names_before 20).1 _ _ _ _ _ _ _ redeclared_fails
  exact ⟨⟨_, _, redeclared_fails, rfl, hkept⟩, hp, hs, (typeError_keeps_names_before 20).2.1 _ _ _ _ _ _ _ _ _ hp hs⟩

end Script

end ScriptTypes
