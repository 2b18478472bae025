import LoxLang.Token.Scan

/-!
Scanning a text by its bytes.  A cursor looks at the bytes of the UTF-8 form of a text, up to two of
them ahead, and cuts pieces out of the text between byte offsets.  A cut inside of a character gives
nothing, and neither does a look at a byte that has to be there and is not; each step of a cursor
may fail in this way.
-/

set_option autoImplicit false
set_option relaxedAutoImplicit false

namespace LoxLang

namespace Text

def encode (cs : List Char) : List UInt8 := cs.flatMap String.utf8EncodeChar

/-- The characters before a byte offset and those behind it; nothing if the offset lies inside of a
character or behind the last one. -/
def splitAtByte? : Nat → List Char → Option (List Char × List Char)
  | 0, cs => some ([], cs)
  | _ + 1, [] => none
  | offset + 1, c :: cs =>
    if c.utf8Size ≤ offset + 1 then
      (splitAtByte? (offset + 1 - c.utf8Size) cs).map fun (front, rest) => (c :: front, rest)
    else none

def slice? (cs : List Char) (start stop : Nat) : Option (List Char) := do
  let (_, rest) ← splitAtByte? start cs
  if start ≤ stop then (splitAtByte? (stop - start) rest).map Prod.fst else none

end Text

namespace Scan

/-- Where scanning a text stands. -/
structure Cursor where
  text : String
  /-- The offset of the first byte of the present piece. -/
  start : Nat
  /-- The offset behind the last byte consumed, and one more once the end was marked. -/
  curr : Nat
  line : Nat

namespace Cursor

def ofText (text : String) : Cursor := ⟨text, 0, 0, 1⟩

def bytes (c : Cursor) : List UInt8 := c.text.toUTF8.data.toList

def ahead (c : Cursor) : List UInt8 := c.bytes.drop c.curr

def peekAt (c : Cursor) (offset : Nat) : UInt8 := c.bytes[c.curr + offset]?.getD 0

def forward (c : Cursor) (count : Nat) : Cursor := { c with curr := c.curr + count }

def skipWhile (test : UInt8 → Bool) (ends : ¬ test 0) (c : Cursor) : Cursor :=
  if test (c.peekAt 0) then (c.forward 1).skipWhile test ends else c
  termination_by c.bytes.length - c.curr
  decreasing_by
    rename_i passes
    have within : c.curr < c.bytes.length := Nat.lt_of_not_le fun behind => by
      have zero : c.peekAt 0 = 0 := by
        simp [peekAt, List.getElem?_eq_none behind]
      exact ends (zero ▸ passes)
    exact Nat.sub_lt_sub_left within (Nat.lt_succ_self c.curr)

def find? (c : Cursor) (b : UInt8) : Option Nat := c.ahead.findIdx? (· = b)

def slice? (c : Cursor) (start stop : Nat) : Option (List Char) :=
  Text.slice? c.text.toList start stop

def lexeme? (c : Cursor) : Option (List Char) := c.slice? c.start c.curr

def onLines (c : Cursor) (passed : List UInt8) : Cursor :=
  { c with line := c.line + passed.count '\n'.toUInt8 }

def isDigitByte (b : UInt8) : Bool := (Char.ofUInt8 b).isDigit

def isWordByte (b : UInt8) : Bool := isWordPart (Char.ofUInt8 b)

/-- What the bytes of a piece are found to be. -/
inductive Found where
  | token (kind : Kind)
  | skipped
  | faulty (fault : LexFault)

def oneOrTwo (c : Cursor) (single double : Kind) : Found × Cursor :=
  if c.peekAt 0 = '='.toUInt8 then (.token double, c.forward 1) else (.token single, c)

def slash (c : Cursor) : Found × Cursor :=
  if c.peekAt 0 = '/'.toUInt8 then
    match c.find? '\n'.toUInt8 with
    | some length => (.skipped, c.forward length)
    | none => (.skipped, { c with curr := c.bytes.length })
  else (.token .slash, c)

def string (c : Cursor) : Option (Found × Cursor) :=
  match c.find? '\x22'.toUInt8 with
  | none =>
    some (.faulty .unterminatedString, { c.onLines c.ahead with curr := c.bytes.length })
  | some length => do
    let contents ← c.slice? c.curr (c.curr + length)
    pure (.token .string, (c.onLines (Text.encode contents)).forward (length + 1))

def number (c : Cursor) : Option (Found × Cursor) := do
  let c := c.skipWhile isDigitByte (by decide)
  let c :=
    if c.peekAt 0 = '.'.toUInt8 ∧ isDigitByte (c.peekAt 1) then
      (c.forward 1).skipWhile isDigitByte (by decide)
    else c
  let _ ← c.lexeme?
  pure (.token .number, c)

def word (c : Cursor) : Option (Found × Cursor) := do
  let c := c.skipWhile isWordByte (by decide)
  let word ← c.lexeme?
  pure (.token (Kind.ofWord (String.ofList word)), c)

def unexpected (c : Cursor) : Option (Found × Cursor) := do
  let rest ← c.slice? c.start c.bytes.length
  let ch := rest.head?.getD '\ufffd'
  pure (.faulty (.unexpectedCharacter ch), { c with curr := c.start + ch.utf8Size })

def piece (c : Cursor) (first : Char) : Option (Found × Cursor) :=
  match first with
  | '(' => some (.token .leftParen, c)
  | ')' => some (.token .rightParen, c)
  | '{' => some (.token .leftBrace, c)
  | '}' => some (.token .rightBrace, c)
  | ',' => some (.token .comma, c)
  | '.' => some (.token .dot, c)
  | '-' => some (.token .minus, c)
  | '+' => some (.token .plus, c)
  | ';' => some (.token .semicolon, c)
  | '*' => some (.token .star, c)
  | '!' => some (c.oneOrTwo .bang .bangEqual)
  | '=' => some (c.oneOrTwo .equal .equalEqual)
  | '<' => some (c.oneOrTwo .less .lessEqual)
  | '>' => some (c.oneOrTwo .greater .greaterEqual)
  | ' ' | '\r' | '\t' => some (.skipped, c)
  | '\n' => some (.skipped, c.onLines ['\n'.toUInt8])
  | '/' => some c.slash
  | '\x22' => c.string
  | _ =>
    if first.isDigit then c.number
    else if isWordStart first then c.word
    else c.unexpected

def emit (c : Cursor) : Found → Option (Option Item × Cursor)
  | .skipped => pure (none, c)
  | .token kind => do
    let lexeme ← c.lexeme?
    pure (some (.ok ⟨kind, String.ofList lexeme, c.line⟩), c)
  | .faulty fault => pure (some (.error ⟨fault, c.line⟩), c)

def step (c : Cursor) : Option (Option Item × Cursor) := do
  let c := { c with start := c.curr }
  let first ← c.bytes[c.curr]?
  let (found, c) ← (c.forward 1).piece (Char.ofUInt8 first)
  c.emit found

def Onward (c c' : Cursor) : Prop := c'.text = c.text ∧ c.curr ≤ c'.curr

private theorem Onward.refl (c : Cursor) : Onward c c := ⟨rfl, Nat.le_refl _⟩

private theorem Onward.trans {c c' c'' : Cursor} (h : Onward c c') (h' : Onward c' c'') :
    Onward c c'' :=
  ⟨h'.1.trans h.1, Nat.le_trans h.2 h'.2⟩

private theorem forward_onward (c : Cursor) (count : Nat) : Onward c (c.forward count) :=
  ⟨rfl, Nat.le_add_right _ _⟩

private theorem skipWhile_onward (test : UInt8 → Bool) (ends : ¬ test 0) (c : Cursor) :
    Onward c (c.skipWhile test ends) := by
  induction c using skipWhile.induct test ends with
  | case1 c passes ih =>
    rw [skipWhile, if_pos passes]
    exact (c.forward_onward 1).trans ih
  | case2 c fails =>
    rw [skipWhile, if_neg fails]
    exact .refl c

private theorem oneOrTwo_onward (c : Cursor) (single double : Kind) :
    Onward c (c.oneOrTwo single double).2 := by
  unfold oneOrTwo
  split
  · exact c.forward_onward 1
  · exact .refl c

section

variable {c c' : Cursor} {found : Found}

private theorem slash_onward (within : c.curr ≤ c.bytes.length) : Onward c c.slash.2 := by
  unfold slash
  split
  · split
    · exact c.forward_onward _
    · exact ⟨rfl, within⟩
  · exact .refl c

private theorem string_onward (within : c.curr ≤ c.bytes.length) (h : c.string = some (found, c')) :
    Onward c c' := by
  unfold string at h
  split at h
  · cases h
    exact ⟨rfl, within⟩
  · obtain ⟨contents, _, h⟩ := Option.bind_eq_some_iff.mp h
    cases h
    exact (c.onLines _).forward_onward _

private theorem number_onward (h : c.number = some (found, c')) : Onward c c' := by
  obtain ⟨_, _, h⟩ := Option.bind_eq_some_iff.mp h
  cases h
  refine (skipWhile_onward isDigitByte (by decide) c).trans ?_
  split
  · exact (forward_onward _ 1).trans (skipWhile_onward _ _ _)
  · exact .refl _

private theorem word_onward (h : c.word = some (found, c')) : Onward c c' := by
  obtain ⟨_, _, h⟩ := Option.bind_eq_some_iff.mp h
  cases h
  exact skipWhile_onward _ _ _

private theorem unexpected_onward (begun : c.curr = c.start + 1)
    (h : c.unexpected = some (found, c')) :
    Onward c c' := by
  obtain ⟨rest, _, h⟩ := Option.bind_eq_some_iff.mp h
  cases h
  exact ⟨rfl, begun ▸ Nat.add_le_add_left (Char.utf8Size_pos _) _⟩

private theorem piece_onward {first : Char} (begun : c.curr = c.start + 1)
    (within : c.curr ≤ c.bytes.length) (h : c.piece first = some (found, c')) : Onward c c' := by
  unfold piece at h
  split at h
  case h_11 | h_12 | h_13 | h_14 =>
    obtain ⟨_, rfl⟩ := Prod.mk.inj (Option.some.inj h)
    exact c.oneOrTwo_onward _ _
  case h_19 =>
    obtain ⟨_, rfl⟩ := Prod.mk.inj (Option.some.inj h)
    exact slash_onward within
  case h_20 => exact string_onward within h
  case h_21 =>
    split at h
    · exact number_onward h
    · split at h
      · exact word_onward h
      · exact unexpected_onward begun h
  all_goals
    cases h
    exact .refl c

/-- A step consumes at least one byte. -/
theorem step_advances {item : Option Item} (h : c.step = some (item, c')) :
    c'.text = c.text ∧ c.curr < c'.curr ∧ c.curr < c.bytes.length := by
  obtain ⟨first, present, h⟩ := Option.bind_eq_some_iff.mp h
  obtain ⟨⟨found, c''⟩, piece, h⟩ := Option.bind_eq_some_iff.mp h
  have within : c.curr < c.bytes.length := (List.getElem?_eq_some_iff.mp present).1
  have onward := piece_onward rfl (Nat.succ_le_of_lt within) piece
  have same : c'' = c' := by
    cases found with
    | token kind =>
      obtain ⟨_, _, h⟩ := Option.bind_eq_some_iff.mp h
      cases h
      rfl
    | _ =>
      cases h
      rfl
  exact same ▸ ⟨onward.1, onward.2, within⟩

end

def next (c : Cursor) : Option (Option Item × Cursor) :=
  if c.bytes.length < c.curr then some (none, c)
  else if c.bytes.length ≤ c.curr then some (some (.ok (.atEnd c.line)), c.forward 1)
  else
    match _step : c.step with
    | none => none
    | some (some item, c') => some (some item, c')
    | some (none, c') => c'.next
  termination_by c.bytes.length - c.curr
  decreasing_by
    obtain ⟨text, onward, within⟩ := step_advances _step
    rw [bytes, text]
    exact Nat.sub_lt_sub_left within onward

/-- What the call with a number gives, if all calls before it succeed. -/
def pull (c : Cursor) : Nat → Option (Option Item)
  | 0 => c.next.map Prod.fst
  | n + 1 => c.next.bind fun (_, c') => c'.pull n

end Cursor

end Scan

end LoxLang
