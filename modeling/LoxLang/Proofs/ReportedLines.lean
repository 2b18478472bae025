import LoxLang.Proofs.ScannedBytes

/-!
The lines that items carry.  The line of a cursor is counted on where a piece has line feeds in it,
and only there; so wherever a cursor stands between two pieces, its line is the number of the line
feeds before it and one more.  An item carries the line of the cursor behind its text.
-/

set_option autoImplicit false
set_option relaxedAutoImplicit false

namespace LoxLang

namespace Scan

def itemLine : Item → Nat
  | .ok t => t.line
  | .error e => e.line

namespace Cursor

/-- What the call with a number gives and where it leaves the cursor, if all calls before it
succeed. -/
def called? (c : Cursor) : Nat → Option (Option Item × Cursor)
  | 0 => c.next
  | n + 1 => c.next.bind fun (_, c') => c'.called? n

private theorem pull_eq_called (c : Cursor) (n : Nat) : c.pull n = (c.called? n).map Prod.fst := by
  induction n generalizing c with
  | zero => rfl
  | succ n ih =>
    rw [pull, called?]
    cases c.next with
    | none => rfl
    | some called => exact ih called.2

/-- A cursor has just made an item: the text of the item ends where the cursor stands, and it is the
present piece.  The mark of the end has no text and stands behind all bytes. -/
inductive Ends (c : Cursor) : Item → Prop where
  | token {t : Token} (other : t.kind ≠ .endOfInput) (text : c.lexeme? = some t.lexeme.toList) :
      Ends c (.ok t)
  | unexpected {d : Char} {line : Nat} (text : c.lexeme? = some [d]) :
      Ends c (.error ⟨.unexpectedCharacter d, line⟩)
  | unterminated {inside : List Char} {line : Nat} (text : c.lexeme? = some ('\x22' :: inside))
      (last : c.curr = c.bytes.length) : Ends c (.error ⟨.unterminatedString, line⟩)
  | atEnd {line : Nat} (behind : c.curr = c.bytes.length + 1) : Ends c (.ok (.atEnd line))

def lineHere (c : Cursor) : Nat := 1 + (c.bytes.take c.curr).count '\n'.toUInt8

def OnLine (c : Cursor) : Prop := ∃ front rest, At c front rest ∧ c.line = lineAfter 1 front

private theorem At.lineHere {c : Cursor} {front rest : List Char} (h : At c front rest) :
    c.lineHere = lineAfter 1 front := by
  have before : c.bytes.take c.curr = Text.encode front := by
    rw [h.bytes, h.curr, List.take_left]
  rw [Cursor.lineHere, before, Text.count_encode (by decide)]
  rfl

private theorem ends_of_munch {c : Cursor} {front : List Char} {d : Char} {cs : List Char}
    {line : Nat}
    {item : Item} (here : At c (front ++ d :: cs.take (munch d cs).2) (cs.drop (munch d cs).2))
    (start : c.start = (Text.encode front).length)
    (made : (munch d cs).1.item? (d :: cs.take (munch d cs).2) line = some item) :
    c.Ends item ∧ itemLine item = line := by
  have text := here.lexeme? start
  by_cases sound : ∀ fault, (munch d cs).1 ≠ .faulty fault
  · rw [Lexical.item?_of_sound sound] at made
    obtain ⟨kind, found, rfl⟩ := Option.map_eq_some_iff.mp made
    have lexeme := Lexical.munch_lexeme sound
    rw [found] at lexeme
    exact ⟨.token lexeme.kind_ne_endOfInput (text.trans (by rw [String.toList_ofList])), rfl⟩
  · obtain ⟨fault, faulty⟩ := not_forall_not.mp sound
    rcases Lexical.munch_faulty_eq faulty with ⟨rfl, same⟩ | ⟨_, same⟩
    · rw [same] at made here
      cases made
      have last := here.length
      rw [List.drop_length] at last
      exact ⟨.unterminated text last.symm, rfl⟩
    · rw [same] at made text
      cases made
      exact ⟨.unexpected text, rfl⟩

private theorem next_onLine {c : Cursor} (h : c.OnLine) :
    ∃ item c', c.next = some (some item, c') ∧ c'.text = c.text ∧ c'.Ends item ∧
      itemLine item = c'.lineHere ∧ (c'.OnLine ∨ c'.bytes.length < c'.curr) := by
  obtain ⟨front, rest, here, line⟩ := h
  -- Pieces that make no item are passed, and each is taken from what is ahead.
  induction whole : rest.length using Nat.strongRecOn generalizing c front rest with
  | _ length ih =>
  cases rest with
  | nil =>
    have length : c.bytes.length = c.curr := here.length
    have all : (c.forward 1).lineHere = c.lineHere := by
      change 1 + (c.bytes.take (c.curr + 1)).count '\n'.toUInt8 =
        1 + (c.bytes.take c.curr).count '\n'.toUInt8
      rw [List.take_of_length_le (by omega), List.take_of_length_le (by omega)]
    refine ⟨_, _, here.next_end, rfl, .atEnd ?_, ?_, .inr ?_⟩
    · exact congrArg (· + 1) length.symm
    · exact line.trans (here.lineHere.symm.trans all.symm)
    · exact Nat.lt_succ_of_le (Nat.le_of_eq length)
  | cons d cs =>
    obtain ⟨c', step, here', start, line', _⟩ := step_eq here
    have next := here.next_step step
    have text : c'.text = c.text := (step_advances step).1
    have standing : c'.line = lineAfter 1 (front ++ d :: cs.take (munch d cs).2) := by
      rw [line', line, lineAfter, lineAfter, lineAfter, List.count_append, Nat.add_assoc]
    cases made : (munch d cs).1.item? (d :: cs.take (munch d cs).2)
        (lineAfter c.line (d :: cs.take (munch d cs).2)) with
    | none =>
      rw [made] at next
      have fewer : (cs.drop (munch d cs).2).length < length := by
        rw [← whole, List.length_drop, List.length_cons]
        omega
      obtain ⟨item, c'', next', text', rest⟩ := ih _ fewer _ _ here' standing rfl
      exact ⟨item, c'', next.trans next', text'.trans text, rest⟩
    | some item =>
      rw [made] at next
      obtain ⟨ends, carried⟩ := ends_of_munch here' (start.trans here.curr) made
      refine ⟨item, c', next, text, ends, ?_, .inl ⟨_, _, here', standing⟩⟩
      rw [carried, ← line', standing, here'.lineHere]

private theorem called_onLine {c : Cursor} (h : c.OnLine ∨ c.bytes.length < c.curr) (n : Nat) :
    ∃ item c', c.called? n = some (item, c') ∧ c'.text = c.text ∧
      ∀ i ∈ item, c'.Ends i ∧ itemLine i = c'.lineHere := by
  have ended {c : Cursor} (behind : c.bytes.length < c.curr) : c.next = some (none, c) := by
    rw [Cursor.next, if_pos behind]
  induction n generalizing c with
  | zero =>
    rcases h with onLine | behind
    · obtain ⟨item, c', next, text, ends, line, _⟩ := next_onLine onLine
      refine ⟨some item, c', next, text, ?_⟩
      rintro i ⟨⟩
      exact ⟨ends, line⟩
    · exact ⟨none, c, ended behind, rfl, fun i none => by cases none⟩
  | succ n ih =>
    rw [called?]
    rcases h with onLine | behind
    · obtain ⟨item, c', next, text, _, _, later⟩ := next_onLine onLine
      obtain ⟨item', c'', called, text', carried⟩ := ih later
      rw [next]
      exact ⟨item', c'', called, text'.trans text, carried⟩
    · rw [ended behind]
      exact ih (.inr behind)

end Cursor

end Scan

open Scan in
/-- Every call on a scanner succeeds and gives the next item of the text, if one is left.  The line
of a token, of an error and of the mark of the end is one more than the number of line feeds among
the bytes up to the end of its text. -/
theorem item_line_counts_newlines (source : String) (n : Nat) :
    ∃ item c, (Cursor.ofText source).called? n = some (item, c) ∧ c.text = source ∧
      item = (Scan.items source)[n]? ∧
      ∀ i ∈ item, c.Ends i ∧
        itemLine i = 1 + ((source.toUTF8.data.toList).take c.curr).count '\n'.toUInt8 := by
  have start : Cursor.At (.ofText source) [] source.toList := ⟨rfl, rfl⟩
  obtain ⟨item, c, called, text, carried⟩ := Cursor.called_onLine (.inl ⟨_, _, start, rfl⟩) n
  have pulled := Cursor.pull_eq start (Nat.le_of_eq String.length_toList) n
  rw [Cursor.pull_eq_called, called] at pulled
  refine ⟨item, c, called, text, Option.some.inj pulled, fun i made => ?_⟩
  obtain ⟨ends, line⟩ := carried i made
  rw [Cursor.lineHere, Cursor.bytes, text] at line
  exact ⟨ends, line⟩

end LoxLang
