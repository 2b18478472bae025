import LoxLang.Proofs.EncodedText
import LoxLang.Proofs.LexicalGrammar

/-!
The cursor over the bytes of a text takes the pieces of the text.  It always stands before a
character, so none of its cuts fails; what it sees in the bytes ahead is what stands in the
characters ahead.
-/

set_option autoImplicit false
set_option relaxedAutoImplicit false

namespace LoxLang

namespace Scan.Cursor

open Text

structure At (c : Cursor) (front rest : List Char) : Prop where
  text : c.text.toList = front ++ rest
  curr : c.curr = (encode front).length

namespace At

variable {c : Cursor} {front rest : List Char}

theorem bytes (h : At c front rest) : c.bytes = encode front ++ encode rest := by
  rw [Cursor.bytes, ← encode_toList, h.text, encode_append]

private theorem ahead (h : At c front rest) : c.ahead = encode rest := by
  rw [Cursor.ahead, h.bytes, h.curr, List.drop_left]

private theorem byte (h : At c front rest) (offset : Nat) :
    c.bytes[c.curr + offset]? = (encode rest)[offset]? := by
  rw [← h.ahead, Cursor.ahead, List.getElem?_drop]

private theorem peekAt (h : At c front rest) (offset : Nat) :
    c.peekAt offset = (encode rest)[offset]?.getD 0 := by
  rw [Cursor.peekAt, h.byte]

theorem length (h : At c front rest) : c.bytes.length = c.curr + (encode rest).length := by
  rw [h.bytes, List.length_append, h.curr]

private theorem move (h : At c front rest) (piece : List Char) {rest' : List Char}
    (same : rest = piece ++ rest') {c' : Cursor} (text : c'.text = c.text)
    (curr : c'.curr = c.curr + (encode piece).length) :
    At c' (front ++ piece) rest' where
  text := by rw [text, h.text, same, List.append_assoc]
  curr := by rw [curr, h.curr, encode_append, List.length_append]

private theorem forward {d : Char} {cs : List Char} (h : At c front (d :: cs)) (ascii : Ascii d) :
    At (c.forward 1) (front ++ [d]) cs :=
  h.move [d] rfl rfl (by
    rw [encode_cons, encodeChar_of_ascii ascii]
    rfl)

private theorem slice? (h : At c front rest) {piece rest' : List Char}
    (same : rest = piece ++ rest') :
    c.slice? (encode front).length (encode (front ++ piece)).length = some piece := by
  rw [Cursor.slice?, h.text, same, slice?_encode]

/-- The present piece is what was passed since it began. -/
theorem lexeme? {piece : List Char} (h : At c (front ++ piece) rest)
    (start : c.start = (encode front).length) : c.lexeme? = some piece := by
  rw [Cursor.lexeme?, Cursor.slice?, h.text, start, h.curr, List.append_assoc, slice?_encode]

private theorem peek_eq_iff {a : Char} (ascii : Ascii a) (nonzero : a ≠ '\x00')
    (h : At c front rest) :
    c.peekAt 0 = a.toUInt8 ↔ rest.head? = some a := by
  have first := test_first (plain_eq ascii nonzero) rest
  rw [h.peekAt, byte_eq_iff ascii]
  cases rest with
  | nil => simpa using first
  | cons d ds => simpa using Bool.eq_iff_iff.mp first

private theorem skipWhile {test : Char → Bool} (plain : Plain test)
    (ends : ¬ (fun b => test (Char.ofUInt8 b)) 0) (h : At c front rest) :
    At (c.skipWhile (fun b => test (Char.ofUInt8 b)) ends) (front ++ rest.takeWhile test)
      (rest.dropWhile test) ∧
    (c.skipWhile (fun b => test (Char.ofUInt8 b)) ends).start = c.start ∧
    (c.skipWhile (fun b => test (Char.ofUInt8 b)) ends).line = c.line := by
  induction rest generalizing c front with
  | nil =>
    have first := test_first plain []
    rw [← h.peekAt] at first
    rw [Cursor.skipWhile, if_neg (Bool.eq_false_iff.mp first), List.takeWhile_nil, List.append_nil]
    exact ⟨h, rfl, rfl⟩
  | cons d ds ih =>
    have first := test_first plain (d :: ds)
    rw [← h.peekAt, List.head?_cons, Option.any_some] at first
    rw [Cursor.skipWhile]
    by_cases passes : test d
    · rw [if_pos (first.trans passes), List.takeWhile_cons_of_pos passes,
        List.dropWhile_cons_of_pos passes]
      obtain ⟨behind, start, line⟩ := ih (h.forward (plain.ascii passes))
      rw [List.append_assoc, List.singleton_append] at behind
      exact ⟨behind, start, line⟩
    · rw [if_neg (first ▸ passes), List.takeWhile_cons_of_neg passes,
        List.dropWhile_cons_of_neg passes, List.append_nil]
      exact ⟨h, rfl, rfl⟩

private theorem find? {a : Char} (ascii : Ascii a) (h : At c front rest) :
    c.find? a.toUInt8 =
      if a ∈ rest then some (encode (rest.takeWhile (· ≠ a))).length else none := by
  rw [Cursor.find?, h.ahead, findIdx?_encode ascii]

end At

def Found.of (piece : Piece) (text : List Char) : Found :=
  match piece with
  | .skipped => .skipped
  | .token kind => .token kind
  | .word => .token (Kind.ofWord (String.ofList text))
  | .faulty fault => .faulty fault

structure Begun (c : Cursor) (front : List Char) (d : Char) (cs : List Char) : Prop where
  here : At c (front ++ [d]) cs
  start : c.start = (encode front).length

def Took (c : Cursor) (front : List Char) (d : Char) (cs : List Char)
    (found : Option (Found × Cursor)) (munched : Piece × Nat) : Prop :=
  ∃ c', found = some (Found.of munched.1 (d :: cs.take munched.2), c') ∧
    At c' (front ++ d :: cs.take munched.2) (cs.drop munched.2) ∧ c'.start = c.start ∧
    c'.line = lineAfter c.line (d :: cs.take munched.2)

private theorem lineAfter_of_passes {test : Char → Bool} (ends : ¬ test '\n') {text : List Char}
    (passes : ∀ c ∈ text, test c) (line : Nat) : lineAfter line text = line := by
  rw [lineAfter, List.count_eq_zero.mpr fun member => ends (passes _ member)]
  rfl

private theorem plain_digit : Plain Char.isDigit where
  zero := by decide
  ascii {c} digit := by
    simp only [Char.isDigit, Bool.and_eq_true, decide_eq_true_eq] at digit
    have le : c.val.toNat ≤ '9'.val.toNat := UInt32.le_iff_toNat_le.mp digit.2
    exact Nat.lt_of_le_of_lt le (by decide)

private theorem plain_wordPart : Plain isWordPart where
  zero := by decide
  ascii {c} part := by
    rcases Bool.or_eq_true_iff.mp part with word | digit
    · rcases Lexical.wordStart_cases word with upper | lower | rfl
      · have le : c.val.toNat ≤ 'Z'.val.toNat := UInt32.le_iff_toNat_le.mp upper.2
        exact Nat.lt_of_le_of_lt le (by decide)
      · have le : c.val.toNat ≤ 'z'.val.toNat := UInt32.le_iff_toNat_le.mp lower.2
        exact Nat.lt_of_le_of_lt le (by decide)
      · decide
    · exact plain_digit.ascii digit

section

variable {c : Cursor} {front : List Char} {d : Char} {cs : List Char}

private theorem took_token (h : Begun c front d cs) (other : d ≠ '\n') (kind : Kind) :
    Took c front d cs (some (.token kind, c)) (.token kind, 0) :=
  ⟨c, rfl, h.here, rfl, (Lexical.lineAfter_singleton other _).symm⟩

private theorem took_blank (h : Begun c front d cs) (other : d ≠ '\n') :
    Took c front d cs (some (.skipped, c)) (.skipped, 0) :=
  ⟨c, rfl, h.here, rfl, (Lexical.lineAfter_singleton other _).symm⟩

private theorem took_lineFeed (h : Begun c front '\n' cs) :
    Took c front '\n' cs (some (.skipped, c.onLines ['\n'.toUInt8])) (.skipped, 0) :=
  ⟨_, rfl, ⟨h.here.text, h.here.curr⟩, rfl, rfl⟩

private theorem took_oneOrTwo (h : Begun c front d cs) (other : d ≠ '\n') (single double : Kind) :
    Took c front d cs (some (c.oneOrTwo single double)) (Scan.oneOrTwo cs single double) := by
  have equals := h.here.peek_eq_iff (a := '=') (by decide) (by decide)
  unfold oneOrTwo Scan.oneOrTwo
  by_cases two : cs.head? = some '='
  · rw [if_pos (equals.mpr two), if_pos two]
    obtain ⟨ds, rfl⟩ := List.head?_eq_some_iff.mp two
    have behind := h.here.forward (by decide)
    rw [List.append_assoc] at behind
    refine ⟨_, rfl, behind, rfl, ?_⟩
    rw [Lexical.lineAfter_cons other]
    rfl
  · rw [if_neg fun same => two (equals.mp same), if_neg two]
    exact took_token h other single

private theorem took_slash (h : Begun c front '/' cs) :
    Took c front '/' cs (some c.slash)
      (if cs.head? = some '/' then (.skipped, run (· ≠ '\n') cs) else (.token .slash, 0)) := by
  have slash := h.here.peek_eq_iff (a := '/') (by decide) (by decide)
  unfold Cursor.slash
  by_cases comment : cs.head? = some '/'
  · rw [if_pos (slash.mpr comment), if_pos comment, h.here.find? (by decide)]
    have passes : ∀ c ∈ '/' :: cs.takeWhile (· ≠ '\n'), decide (c ≠ '\n') = true := by
      intro c member
      rcases List.mem_cons.mp member with rfl | member
      · decide
      · exact Lexical.of_mem_takeWhile c member
    have line := lineAfter_of_passes (by decide) passes c.line
    have whole := (List.takeWhile_append_dropWhile (p := (· ≠ '\n')) (l := cs)).symm
    have taken := Lexical.take_run (· ≠ '\n') cs
    have left := Lexical.drop_run (· ≠ '\n') cs
    by_cases member : '\n' ∈ cs
    · rw [if_pos member]
      refine ⟨_, rfl, ?_, rfl, ?_⟩
      · rw [taken, left, List.append_cons]
        exact h.here.move _ whole rfl rfl
      · rw [taken, line]
        rfl
    · rw [if_neg member]
      have all : run (· ≠ '\n') cs = cs.length := run_eq_length_iff.mpr fun c passed =>
        decide_eq_true fun same => member (same ▸ passed)
      rw [all, List.take_length] at taken
      refine ⟨_, rfl, ?_, rfl, ?_⟩
      · rw [all, List.take_length, List.drop_length, List.append_cons]
        exact h.here.move _ (List.append_nil cs).symm rfl h.here.length
      · rw [all, List.take_length]
        rw [← taken] at line
        exact line.symm
  · rw [if_neg fun same => comment (slash.mp same), if_neg comment]
    exact took_token h (by decide) .slash

private theorem took_string (h : Begun c front '\x22' cs) :
    Took c front '\x22' cs c.string
      (if run (· ≠ '\x22') cs < cs.length then (.token .string, run (· ≠ '\x22') cs + 1)
      else (.faulty .unterminatedString, cs.length)) := by
  have newline (ds : List Char) : (encode ds).count '\n'.toUInt8 = ds.count '\n' :=
    count_encode (by decide) ds
  have quoted : '\x22' ∈ cs ↔ run (· ≠ '\x22') cs < cs.length := by
    have le : run (· ≠ '\x22') cs ≤ cs.length := (List.takeWhile_sublist _).length_le
    rw [Nat.lt_iff_le_and_ne, and_iff_right le, ne_eq, run_eq_length_iff]
    constructor
    · exact fun member all => absurd (all _ member) (by decide)
    · exact fun some => Classical.byContradiction fun none =>
        some fun c member => decide_eq_true fun same => none (same ▸ member)
  unfold string
  rw [h.here.find? (by decide)]
  by_cases ends : run (· ≠ '\x22') cs < cs.length
  · rw [if_pos (quoted.mpr ends), if_pos ends]
    obtain ⟨q, rest, stops, whole⟩ := Lexical.run_split ends
    obtain rfl : q = '\x22' := by simpa using stops
    have whole' : cs = (cs.takeWhile (· ≠ '\x22') ++ ['\x22']) ++ rest := by
      rw [List.append_assoc]
      exact whole
    have length : (cs.takeWhile (· ≠ '\x22') ++ ['\x22']).length = run (· ≠ '\x22') cs + 1 :=
      List.length_append
    have taken : cs.take (run (· ≠ '\x22') cs + 1) = cs.takeWhile (· ≠ '\x22') ++ ['\x22'] := by
      rw [← length]
      exact (congrArg _ whole').trans List.take_left
    have left : cs.drop (run (· ≠ '\x22') cs + 1) = rest := by
      rw [← length]
      exact (congrArg _ whole').trans List.drop_left
    have cut := h.here.slice? whole
    rw [encode_append _ (cs.takeWhile (· ≠ '\x22')), List.length_append, ← h.here.curr] at cut
    dsimp only
    rw [cut]
    refine ⟨_, rfl, ?_, rfl, ?_⟩
    · rw [taken, left, List.append_cons]
      refine h.here.move _ whole' rfl ?_
      rw [encode_append, List.length_append]
      rfl
    · rw [taken, Lexical.lineAfter_cons (by decide)]
      change c.line + (encode (cs.takeWhile (· ≠ '\x22'))).count '\n'.toUInt8 = _
      rw [newline, lineAfter, List.count_append]
      rfl
  · rw [if_neg fun member => ends (quoted.mp member), if_neg ends]
    refine ⟨_, rfl, ?_, rfl, ?_⟩
    · rw [List.take_length, List.drop_length, List.append_cons]
      exact h.here.move _ (List.append_nil cs).symm rfl h.here.length
    · rw [List.take_length, Lexical.lineAfter_cons (by decide)]
      change c.line + c.ahead.count '\n'.toUInt8 = _
      rw [h.here.ahead, newline]
      rfl

private theorem took_digits (h : Begun c front d cs) {c' : Cursor} {extent : Nat}
    (here : At c' (front ++ d :: cs.take extent) (cs.drop extent)) (start : c'.start = c.start)
    (line : c'.line = c.line) (within : '\n' ∉ d :: cs.take extent) :
    Took c front d cs (c'.lexeme?.bind fun _ => some (.token .number, c'))
      (.token .number, extent) := by
  rw [here.lexeme? (start.trans h.start)]
  refine ⟨c', rfl, here, start, ?_⟩
  rw [line, lineAfter, List.count_eq_zero.mpr within]
  rfl

private theorem took_number (h : Begun c front d cs) (digit : d.isDigit) :
    Took c front d cs c.number (.token .number, numberRun cs) := by
  obtain ⟨here, start, line⟩ := h.here.skipWhile plain_digit (by decide)
  rw [List.append_assoc, List.singleton_append] at here
  have digits : ∀ e ∈ d :: cs.takeWhile Char.isDigit, e.isDigit := by
    intro e member
    rcases List.mem_cons.mp member with rfl | member
    · exact digit
    · exact Lexical.of_mem_takeWhile e member
  have point := here.peek_eq_iff (a := '.') (by decide) (by decide)
  have second {fraction : List Char} (behind : cs.dropWhile Char.isDigit = '.' :: fraction) :
      isDigitByte ((c.skipWhile isDigitByte (by decide)).peekAt 1) =
        fraction.head?.any Char.isDigit := by
    have next := here.peekAt 1
    rw [behind, encode_cons, encodeChar_of_ascii (by decide)] at next
    exact (congrArg isDigitByte next).trans (test_first plain_digit fraction)
  unfold Cursor.number
  rcases Lexical.numberRun_split cs with ⟨fraction, behind, some, taken, left⟩ | ⟨none, taken, left⟩
  · have both : (c.skipWhile isDigitByte (by decide)).peekAt 0 = '.'.toUInt8 ∧
        isDigitByte ((c.skipWhile isDigitByte (by decide)).peekAt 1) :=
      ⟨point.mpr (by rw [behind]; rfl), (second behind).trans some⟩
    dsimp only
    rw [if_pos both]
    rw [behind] at here
    obtain ⟨here', start', line'⟩ := (here.forward (by decide)).skipWhile plain_digit (by decide)
    refine took_digits h ?_ (start'.trans start) (line'.trans line) ?_
    · rw [taken, left]
      simp only [List.append_assoc, List.cons_append, List.nil_append] at here'
      exact here'
    · rw [taken]
      intro member
      rcases List.mem_append.mp (List.cons_append ▸ member) with front | back
      · exact absurd (digits _ front) (by decide)
      · rcases List.mem_cons.mp back with point | place
        · exact absurd point (by decide)
        · exact absurd (Lexical.of_mem_takeWhile _ place) (by decide)
  · have other : ¬ ((c.skipWhile isDigitByte (by decide)).peekAt 0 = '.'.toUInt8 ∧
        isDigitByte ((c.skipWhile isDigitByte (by decide)).peekAt 1)) := by
      rintro ⟨first, after⟩
      obtain ⟨fraction, behind⟩ := List.head?_eq_some_iff.mp (point.mp first)
      exact none fraction behind ((second behind).symm.trans after)
    dsimp only
    rw [if_neg other]
    refine took_digits h ?_ start line ?_
    · rw [taken, left]
      exact here
    · rw [taken]
      exact fun member => absurd (digits _ member) (by decide)

private theorem took_word (h : Begun c front d cs) (word : isWordStart d) :
    Took c front d cs c.word (.word, run isWordPart cs) := by
  obtain ⟨here, start, line⟩ := h.here.skipWhile plain_wordPart (by decide)
  have taken := Lexical.take_run isWordPart cs
  have left := Lexical.drop_run isWordPart cs
  rw [List.append_assoc, List.singleton_append] at here
  have cut := here.lexeme? (start.trans h.start)
  unfold Cursor.word
  change Took c front d cs
    ((Cursor.lexeme? (c.skipWhile (fun b => isWordPart (Char.ofUInt8 b)) _)).bind _) _
  rw [cut]
  have passes : ∀ c ∈ d :: cs.takeWhile isWordPart, isWordPart c := by
    intro c member
    rcases List.mem_cons.mp member with rfl | member
    · rw [isWordPart, word, Bool.true_or]
    · exact Lexical.of_mem_takeWhile c member
  refine ⟨_, by rw [taken]; rfl, ?_, start, ?_⟩
  · rw [taken, left]
    exact here
  · rw [taken, lineAfter_of_passes (by decide) passes]
    exact line

private theorem piece_other {first : Char} (other : ¬ Ascii first) (c : Cursor) :
    c.piece first = c.unexpected := by
  have digit : ¬ first.isDigit := fun digit => other (plain_digit.ascii digit)
  have word : ¬ isWordStart first := fun word => other (plain_wordPart.ascii (by
    rw [isWordPart, word, Bool.true_or]))
  unfold piece
  split
  case h_21 => rw [if_neg digit, if_neg word]
  all_goals exact absurd (by decide) other

private theorem munch_other (other : ¬ Ascii d) : munch d cs =
    (.faulty (.unexpectedCharacter d), 0) := by
  have digit : ¬ d.isDigit := fun digit => other (plain_digit.ascii digit)
  have word : ¬ isWordStart d := fun word => other (plain_wordPart.ascii (by
    rw [isWordPart, word, Bool.true_or]))
  unfold munch
  split
  case h_21 => rw [if_neg digit, if_neg word]
  all_goals exact absurd (by decide) other

private theorem took_unexpected {c' : Cursor} (h : At c front (d :: cs)) (text : c'.text = c.text)
    (start : c'.start = c.curr) (other : d ≠ '\n') :
    Took c' front d cs c'.unexpected (.faulty (.unexpectedCharacter d), 0) := by
  have bytes : c'.bytes = c.bytes := by rw [Cursor.bytes, text]; rfl
  have cut : c'.slice? c'.start c'.bytes.length = some (d :: cs) := by
    have whole := h.slice? (List.append_nil (d :: cs)).symm
    rw [encode_append, List.length_append, ← h.curr, ← h.length] at whole
    rw [bytes, start, Cursor.slice?, text]
    exact whole
  unfold unexpected
  rw [cut]
  refine ⟨_, rfl, ⟨?_, ?_⟩, rfl, (Lexical.lineAfter_singleton other _).symm⟩
  · rw [text, h.text, List.take_zero, List.drop_zero]
    simp
  · rw [List.take_zero, encode_append, List.length_append, ← h.curr, ← start]
    have one : (encode [d]).length = d.utf8Size := by
      rw [length_encode_cons]
      rfl
    rw [one]
    rfl

private theorem took_ascii (h : Begun c front d cs) : Took c front d cs (c.piece d) (munch d cs) :=
  by
  unfold piece
  split
  case h_11 | h_12 | h_13 | h_14 => exact took_oneOrTwo h (by decide) _ _
  case h_15 | h_16 | h_17 => exact took_blank h (by decide)
  case h_18 => exact took_lineFeed h
  case h_19 => exact took_slash h
  case h_20 => exact took_string h
  case h_21 =>
    split
    · rename_i digit
      rw [Lexical.munch_digit digit]
      exact took_number h digit
    · split
      · rename_i word
        rw [Lexical.munch_word word]
        exact took_word h word
      · rename_i digit word
        have begun : At { c with curr := c.start } front (d :: cs) := by
          refine ⟨h.here.text.trans ?_, h.start⟩
          rw [List.append_assoc]
          rfl
        unfold munch
        split
        case h_21 =>
          rw [if_neg digit, if_neg word]
          exact took_unexpected begun rfl rfl (by assumption)
        all_goals contradiction
  all_goals exact took_token h (by decide) _

end

def begin (c : Cursor) : Cursor := Cursor.forward { c with start := c.curr } 1

private theorem took_first {c : Cursor} {front : List Char} {d : Char} {cs : List Char}
    (h : At c front (d :: cs)) :
    ∃ b, c.bytes[c.curr]? = some b ∧
      Took c.begin front d cs (c.begin.piece (Char.ofUInt8 b)) (munch d cs) := by
  have first := h.byte 0
  rw [encode_cons, Nat.add_zero] at first
  by_cases ascii : Ascii d
  · rw [encodeChar_of_ascii ascii] at first
    refine ⟨_, first, ?_⟩
    rw [ofUInt8_of_ascii ascii]
    have here : At { c with start := c.curr } front (d :: cs) := ⟨h.text, h.curr⟩
    exact took_ascii ⟨here.forward ascii, h.curr⟩
  · obtain ⟨b, bs, same, other⟩ := encodeChar_cons ascii
    rw [same] at first
    refine ⟨b, first, ?_⟩
    rw [piece_other other, munch_other ascii]
    exact took_unexpected h rfl rfl fun same => ascii (by rw [same]; decide)

/-- A cursor before some characters takes the piece with which they begin. -/
theorem step_eq {c : Cursor} {front : List Char} {d : Char} {cs : List Char}
    (h : At c front (d :: cs)) :
    let piece := d :: cs.take (munch d cs).2
    ∃ c', c.step = some ((munch d cs).1.item? piece (lineAfter c.line piece), c') ∧
      At c' (front ++ piece) (cs.drop (munch d cs).2) ∧ c'.start = c.curr ∧
      c'.line = lineAfter c.line piece ∧ c.slice? c.curr c'.curr = some piece := by
  intro piece
  obtain ⟨b, first, c', found, here, start, line⟩ := took_first h
  have begun : c'.start = c.curr := start
  have cut := here.lexeme? (begun.trans h.curr)
  have line' : c'.line = lineAfter c.line piece := line
  have whole : d :: cs = piece ++ cs.drop (munch d cs).2 :=
    congrArg (d :: ·) (List.take_append_drop _ cs).symm
  have slice := h.slice? whole
  rw [← h.curr, ← here.curr] at slice
  refine ⟨c', ?_, here, begun, line', slice⟩
  have step : c.step = c'.emit (.of (munch d cs).1 piece) := by
    change (c.bytes[c.curr]?).bind _ = _
    rw [first]
    change (c.begin.piece (Char.ofUInt8 b)).bind _ = _
    rw [found]
    rfl
  rw [step, ← line']
  cases (munch d cs).1 with
  | skipped => rfl
  | faulty fault => rfl
  | token kind =>
    simp only [Found.of, Cursor.emit, cut]
    rfl
  | word =>
    simp only [Found.of, Cursor.emit, cut]
    rfl

/-! The items of a cursor. -/

private theorem At.within {c : Cursor} {front rest : List Char} (h : At c front rest) :
    ¬ c.bytes.length < c.curr := by
  rw [h.length]
  omega

private theorem pull_ended {c : Cursor} (ended : c.bytes.length < c.curr) (n : Nat) :
    c.pull n = some none := by
  have next : c.next = some (none, c) := by rw [Cursor.next, if_pos ended]
  induction n with
  | zero => rw [pull, next]; rfl
  | succ n ih => rw [pull, next]; exact ih

theorem At.next_end {c : Cursor} {front : List Char} (h : At c front []) :
    c.next = some (some (.ok (.atEnd c.line)), c.forward 1) := by
  have length : c.bytes.length = c.curr := h.length
  rw [Cursor.next, if_neg h.within, if_pos (Nat.le_of_eq length)]

theorem At.next_step {c c' : Cursor} {front : List Char} {d : Char} {cs : List Char}
    {item : Option Item} (h : At c front (d :: cs)) (step : c.step = some (item, c')) :
    c.next = match (motive := Option Item → Option (Option Item × Cursor)) item with
      | some i => some (some i, c')
      | none => c'.next := by
  have before : ¬ c.bytes.length ≤ c.curr := by
    have positive := d.utf8Size_pos
    rw [h.length, length_encode_cons]
    omega
  rw [Cursor.next, if_neg h.within, if_neg before]
  split
  · rename_i none
    rw [step] at none
    cases none
  · rename_i same
    rw [step] at same
    cases same
    rfl
  · rename_i same
    rw [step] at same
    cases same
    rfl

private theorem pull_end {c : Cursor} {front : List Char} (h : At c front []) (n : Nat) :
    c.pull n = some [.ok (.atEnd c.line)][n]? := by
  have ended : (c.forward 1).bytes.length < (c.forward 1).curr := by
    have length : c.bytes.length = c.curr := h.length
    exact Nat.lt_succ_of_le (Nat.le_of_eq length)
  cases n with
  | zero => rw [pull, h.next_end]; rfl
  | succ n =>
    rw [pull, h.next_end]
    exact pull_ended ended n

theorem pull_eq {c : Cursor} {front rest : List Char} (h : At c front rest) {bound : Nat}
    (enough : rest.length ≤ bound) (n : Nat) :
    c.pull n = some (itemsFrom c.line bound rest)[n]? := by
  induction bound generalizing c front rest n with
  | zero =>
    obtain rfl : rest = [] := List.length_eq_zero_iff.mp (Nat.le_zero.mp enough)
    exact pull_end h n
  | succ bound ih =>
    cases rest with
    | nil => exact pull_end h n
    | cons d cs =>
      obtain ⟨c', step, here, _, line, _⟩ := step_eq h
      have fewer : (cs.drop (munch d cs).2).length ≤ bound := by
        rw [List.length_drop]
        exact Nat.le_trans (Nat.sub_le _ _) (Nat.le_of_succ_le_succ enough)
      have behind := ih here fewer
      rw [line] at behind
      have next := h.next_step step
      rw [itemsFrom_cons]
      cases item : (munch d cs).1.item? (d :: cs.take (munch d cs).2)
          (lineAfter c.line (d :: cs.take (munch d cs).2)) with
      | none =>
        rw [item] at next
        have same : c.pull n = c'.pull n := by cases n <;> rw [pull, pull, next]
        exact same.trans (behind n)
      | some i =>
        rw [item] at next
        cases n with
        | zero => rw [pull, next]; rfl
        | succ n =>
          rw [pull, next]
          exact behind n

open Lexical in
/-- Steps of a cursor.  Each takes the stretch of the text from where the cursor stood to where it
stands then. -/
inductive Steps : Cursor → List Stretch → Cursor → Prop where
  | done {c : Cursor} : Steps c [] c
  | step {c c' c'' : Cursor} {s : Stretch} {ss : List Stretch} : c.step = some (s.item, c') →
      c'.start = c.curr → c.slice? c.curr c'.curr = some s.text → Steps c' ss c'' →
      Steps c (s :: ss) c''

open Lexical in
private theorem steps_of_cut {line last : Nat} {cs : List Char} {ss : List Stretch}
    (cut : Cut line cs ss last) {c : Cursor} {front : List Char} (h : At c front cs)
    (begins : c.line = line) :
    ∃ c', Steps c ss c' ∧ At c' (front ++ cs) [] ∧ c'.line = last := by
  induction cut generalizing c front with
  | done => exact ⟨c, .done, by rwa [List.append_nil], begins⟩
  | @lexeme line last text rest kind ss longest _ ih =>
    obtain ⟨d, ds, rfl, extent, sound, kinds⟩ := longest.munched
    obtain ⟨c', step, here, start, line', slice⟩ := @step_eq c front d (ds ++ rest) h
    rw [extent, List.take_left] at here step line' slice
    rw [List.drop_left] at here
    rw [item?_of_sound sound, kinds, begins] at step
    obtain ⟨c'', steps, ended, last⟩ := ih here (line'.trans (by rw [begins]))
    rw [List.append_assoc] at ended
    exact ⟨c'', .step step start slice steps, ended, last⟩
  | @unterminated line rest blocked =>
    obtain ⟨fault, faulty⟩ := blocked.munched
    obtain ⟨c', step, here, start, line', slice⟩ := step_eq h
    rcases munch_faulty_eq faulty with ⟨_, same⟩ | ⟨other, _⟩
    · rw [same, List.take_length] at here step line' slice
      rw [List.drop_length] at here
      rw [lineAfter_cons (by decide), begins] at line' step
      exact ⟨c', .step step start slice .done, here, line'⟩
    · exact absurd rfl other
  | @unexpected line last d rest ss other blocked _ ih =>
    obtain ⟨fault, faulty⟩ := blocked.munched
    obtain ⟨c', step, here, start, line', slice⟩ := step_eq h
    rcases munch_faulty_eq faulty with ⟨quote, _⟩ | ⟨_, same⟩
    · exact absurd quote other
    · rw [same, List.take_zero] at here step line' slice
      rw [List.drop_zero] at here
      rw [lineAfter_singleton blocked.ne_lineFeed, begins] at line' step
      obtain ⟨c'', steps, ended, last⟩ := ih here line'
      rw [List.append_assoc] at ended
      exact ⟨c'', .step step start slice steps, ended, last⟩

end Scan.Cursor

open Lexical Scan in
/-- Every text has one cut by the lexical grammar, in which each piece is the longest lexeme at its
place, or a rest behind a quote that is not closed or one character if no lexeme begins there.  Its
pieces tile the text and make the items, which are followed by the only mark of the end.  A cursor
over the bytes steps from piece to piece, and each cut it makes is between characters; its calls
give the items one after the other, and nothing ever after. -/
theorem scan_is_longest_cut (source : String) :
    ∃ ss last, Cut 1 source.toList ss last ∧
      (∀ ss' last', Cut 1 source.toList ss' last' → ss' = ss ∧ last' = last) ∧
      (ss.map Stretch.text).flatten = source.toList ∧
      Scan.items source = ss.filterMap Stretch.item ++ [.ok (.atEnd last)] ∧
      (∀ t, .ok t ∈ ss.filterMap Stretch.item → t.kind ≠ .endOfInput) ∧
      (∃ c, Cursor.Steps (.ofText source) ss c ∧ c.text = source ∧ c.curr = source.utf8ByteSize ∧
        c.line = last) ∧
      ∀ n, (Cursor.ofText source).pull n = some (Scan.items source)[n]? := by
  obtain ⟨ss, last, cut, items⟩ := exists_cut 1 (Nat.le_of_eq (String.length_toList (s := source)))
  have start : Cursor.At (.ofText source) [] source.toList := ⟨rfl, rfl⟩
  obtain ⟨c, steps, ended, line⟩ := Cursor.steps_of_cut cut start rfl
  refine ⟨ss, last, cut, fun _ _ => cut.unique, cut.flatten, items, fun _ => cut.kind_ne_endOfInput,
    ⟨c, steps, ?_, ?_, line⟩, fun n => Cursor.pull_eq start (Nat.le_of_eq String.length_toList) n⟩
  · have text := ended.text
    rw [List.append_nil, List.nil_append] at text
    exact String.toList_injective text
  · rw [ended.curr, List.nil_append, Text.encode_toList, String.toUTF8_eq_toByteArray,
      Array.length_toList]
    rfl

end LoxLang
