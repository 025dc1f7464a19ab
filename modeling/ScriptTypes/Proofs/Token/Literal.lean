import ScriptTypes.Proofs.Annotation.Lexing
import ScriptTypes.Proofs.Token.Lossless

/-! String literals. What stands between the quotes stands for a text, character by character, and the literal goes on
up to the first quote that is not part of an escape. Every text can be written so that it is read as it was, with either
quote. -/

namespace ScriptTypes

/-- The two quotes that a string may be written with. -/
inductive Quote where
  | double | single

def Quote.char : Quote → Char
  | .double => '\x22'
  | .single => '\x27'

namespace Quote

variable (q : Quote)

/-- How a character is written inside of a literal: the quote and the backslash after a backslash, and a line feed as a
letter after one. -/
def encodeChar (c : Char) : List Char :=
  if c = '\x5c' ∨ c = q.char then ['\x5c', c] else if c = '\n' then ['\x5c', 'n'] else [c]

def encode (v : String) : String :=
  String.ofList (v.toList.flatMap q.encodeChar)

/-- A literal without its closing quote. -/
def opened (v : String) : String :=
  String.singleton q.char ++ q.encode v

def literal (v : String) : String :=
  q.opened v ++ String.singleton q.char

/-- The text between quotes stands for another one, where each character stands for itself or comes after a backslash. -/
inductive StandsFor : List Char → List Char → Prop
  | nil : StandsFor [] []
  | plain {c body value} (hquote : c ≠ q.char) (hslash : c ≠ '\x5c') (hline : c ≠ '\n') (h : StandsFor body value) :
      StandsFor (c :: body) (c :: value)
  | escape {c body value} (hline : c ≠ '\n') (h : StandsFor body value) :
      StandsFor ('\x5c' :: c :: body) (Text.escapedChar c :: value)

theorem StandsFor.append {body body' value value' : List Char} (h : q.StandsFor body value)
    (h' : q.StandsFor body' value') : q.StandsFor (body ++ body') (value ++ value') := by
  induction h with
  | nil => exact h'
  | plain hquote hslash hline _ ih => exact .plain hquote hslash hline ih
  | escape hline _ ih => exact .escape hline ih

theorem standsFor_encodeChar (c : Char) : q.StandsFor (q.encodeChar c) [c] := by
  unfold encodeChar
  split
  · rename_i hc
    have hself : Text.escapedChar c = c ∧ c ≠ '\n' := by
      rcases hc with rfl | rfl
      · decide
      · cases q <;> decide
    have h : q.StandsFor ['\x5c', c] [Text.escapedChar c] := .escape hself.2 .nil
    rwa [hself.1] at h
  · rename_i hc
    rw [not_or] at hc
    split
    · rename_i hline
      subst hline
      exact .escape (by decide) .nil
    · rename_i hline
      exact .plain hc.2 hc.1 hline .nil

/-- What has been encoded stands for the text it was. -/
theorem standsFor_encode (cs : List Char) : q.StandsFor (cs.flatMap q.encodeChar) cs := by
  induction cs with
  | nil => exact .nil
  | cons c cs ih => exact (q.standsFor_encodeChar c).append q ih

variable {q} {body value : List Char}

theorem StandsFor.unescapeChars (h : q.StandsFor body value) : Text.unescapeChars body = value := by
  induction h with
  | nil => rfl
  | plain _ hslash _ _ ih => rw [Text.unescapeChars_cons hslash, ih]
  | escape _ _ ih => rw [Text.unescapeChars, if_pos rfl, ih]

/-- Nothing in the body ends it. -/
theorem StandsFor.stringLength (h : q.StandsFor body value) (rest : List Char) :
    Scan.stringLength q.char (body ++ rest) = body.length + Scan.stringLength q.char rest := by
  induction h with
  | nil => simp
  | @plain c body value hquote hslash hline _ ih =>
      have hcons : Scan.stringLength q.char (c :: (body ++ rest)) = Scan.stringLength q.char (body ++ rest) + 1 := by
        cases body ++ rest with
        | nil => simp [Scan.stringLength, hquote, hslash, hline]
        | cons d ds => simp [Scan.stringLength, hquote, hslash, hline]
      rw [List.cons_append, hcons, ih, List.length_cons]
      omega
  | escape hline _ ih =>
      rw [List.cons_append, List.cons_append, Scan.stringLength, if_pos rfl, if_neg hline, ih]
      simp only [List.length_cons]
      omega

theorem StandsFor.scan_closed (h : q.StandsFor body value) (rest : List Char) :
    Scan.string q.char (body ++ q.char :: rest) = .token (.string (String.ofList value)) (body.length + 1) := by
  have hquote : Scan.stringLength q.char (q.char :: rest) = 0 := by
    cases rest with
    | nil => simp [Scan.stringLength]
    | cons d ds => cases q <;> simp [Scan.stringLength, char]
  have hlength : Scan.stringLength q.char (body ++ q.char :: rest) = body.length := by
    rw [h.stringLength, hquote, Nat.add_zero]
  rw [Scan.string, hlength, List.drop_left, List.take_left, h.unescapeChars]
  simp only [if_true]

theorem StandsFor.scan_open (h : q.StandsFor body value) :
    Scan.string q.char body = .fault .openString body.length := by
  have hlength : Scan.stringLength q.char body = body.length := by
    have := h.stringLength []
    rwa [List.append_nil] at this
  rw [Scan.string, hlength, List.drop_length]

theorem scan_plain (q : Quote) (cs : List Char) : Scan.plain q.char cs = Scan.string q.char cs := by
  cases q <;> rfl

end Quote

/-! Texts that are one lexeme, or no lexeme at all. -/

theorem lex_of_token {source : String} {c : Char} {cs : List Char} {t : Token} (hsource : source.toList = c :: cs)
    (hscan : Scan.plain c cs = .token t cs.length) (hafter : Modes.initial.after 0 t = .initial) :
    lex source = ⟨[⟨t, 0, source.utf8ByteSize, false⟩], none⟩ := by
  have hscan : Modes.initial.scan c cs = .token t cs.length := hscan
  rw [lex, ← Text.byteLength_toList, hsource, Lexed.read]
  simp only [hscan, List.take_length, List.drop_length, Nat.zero_add, hafter, Lexed.read]
  rfl

theorem lex_of_fault {source : String} {c : Char} {cs : List Char} {fault : LexFault} (hsource : source.toList = c :: cs)
    (hscan : Scan.plain c cs = .fault fault cs.length) : lex source = ⟨[], some ⟨fault, 0, source.utf8ByteSize⟩⟩ := by
  have hscan : Modes.initial.scan c cs = .fault fault cs.length := hscan
  rw [lex, ← Text.byteLength_toList, hsource, Lexed.read]
  simp only [hscan, List.take_length, Nat.zero_add]

/-- A literal is read as the text that was encoded. With either quote, a literal of any text is one string that covers
it, and without its closing quote it is one open string that does. -/
theorem lex_literal (q : Quote) (v : String) :
    lex (q.literal v) = ⟨[⟨.string v, 0, (q.literal v).utf8ByteSize, false⟩], none⟩ ∧
      lex (q.opened v) = ⟨[], some ⟨.openString, 0, (q.opened v).utf8ByteSize⟩⟩ := by
  have hbody := q.standsFor_encode v.toList
  have hopened : (q.opened v).toList = q.char :: v.toList.flatMap q.encodeChar := by
    simp [Quote.opened, Quote.encode]
  have hliteral : (q.literal v).toList = q.char :: (v.toList.flatMap q.encodeChar ++ [q.char]) := by
    simp [Quote.literal, hopened]
  constructor
  · refine lex_of_token hliteral ?_ rfl
    rw [q.scan_plain, hbody.scan_closed [], String.ofList_toList, List.length_append]
    rfl
  · refine lex_of_fault hopened ?_
    rw [q.scan_plain, hbody.scan_open]

end ScriptTypes
