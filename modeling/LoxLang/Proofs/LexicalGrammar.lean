import LoxLang.Proofs.TextsAround

/-!
The lexical grammar, and cuts of a text by it: each piece is the longest lexeme at its place, or is
faulty because none begins there.  The pieces in which a text is scanned are such a cut, and there
is no other one.
-/

set_option autoImplicit false
set_option relaxedAutoImplicit false

namespace LoxLang

namespace Lexical

open Scan

def operators : List (String × Kind) :=
  [("(", .leftParen), (")", .rightParen), ("\x7b", .leftBrace), ("\x7d", .rightBrace),
    (",", .comma), (".", .dot), ("-", .minus), ("+", .plus), (";", .semicolon), ("*", .star),
    ("/", .slash), ("!", .bang), ("!=", .bangEqual), ("=", .equal), ("==", .equalEqual),
    ("<", .less), ("<=", .lessEqual), (">", .greater), (">=", .greaterEqual)]

/-- The lexemes, each with the kind of its token; blanks and comments make no token. -/
inductive Lexeme : List Char → Option Kind → Prop where
  | operator {text : String} {kind : Kind} : (text, kind) ∈ operators →
      Lexeme text.toList (some kind)
  | string {inside : List Char} : '\x22' ∉ inside →
      Lexeme ('\x22' :: (inside ++ ['\x22'])) (some .string)
  | whole {digits : List Char} : digits ≠ [] → (∀ d ∈ digits, d.isDigit) →
      Lexeme digits (some .number)
  | fraction {digits places : List Char} : digits ≠ [] → (∀ d ∈ digits, d.isDigit) →
      places ≠ [] → (∀ d ∈ places, d.isDigit) →
      Lexeme (digits ++ '.' :: places) (some .number)
  | keyword {word : String} {kind : Kind} : (word, kind) ∈ reservedWords →
      Lexeme word.toList (some kind)
  | identifier {c : Char} {cs : List Char} : isWordStart c → (∀ d ∈ cs, isWordPart d) →
      String.ofList (c :: cs) ∉ reservedWords.map Prod.fst →
      Lexeme (c :: cs) (some .identifier)
  | blank {c : Char} : c ∈ [' ', '\t', '\r', '\n'] → Lexeme [c] none
  | comment {inside : List Char} : '\n' ∉ inside → Lexeme ('/' :: '/' :: inside) none

def Longest (text rest : List Char) (kind : Option Kind) : Prop :=
  Lexeme text kind ∧ ∀ text' kind', Lexeme text' kind' → text' <+: text ++ rest →
    text'.length ≤ text.length

def Blocked (text : List Char) : Prop := ∀ text' kind, Lexeme text' kind → ¬ text' <+: text

/-- A piece of a text and the item that it makes, if any. -/
structure Stretch where
  text : List Char
  item : Option Item

/-- The cut of a text that begins on one line and ends on another. -/
inductive Cut : Nat → List Char → List Stretch → Nat → Prop where
  | done {line : Nat} : Cut line [] [] line
  | lexeme {line last : Nat} {text rest : List Char} {kind : Option Kind} {ss : List Stretch} :
      Longest text rest kind → Cut (lineAfter line text) rest ss last →
      Cut line (text ++ rest)
        (⟨text, kind.map fun k => .ok ⟨k, String.ofList text, lineAfter line text⟩⟩ :: ss) last
  | unterminated {line : Nat} {rest : List Char} : Blocked ('\x22' :: rest) →
      Cut line ('\x22' :: rest)
        [⟨'\x22' :: rest, some (.error ⟨.unterminatedString, lineAfter line rest⟩)⟩]
        (lineAfter line rest)
  | unexpected {line last : Nat} {c : Char} {rest : List Char} {ss : List Stretch} : c ≠ '\x22' →
      Blocked (c :: rest) → Cut line rest ss last →
      Cut line (c :: rest) (⟨[c], some (.error ⟨.unexpectedCharacter c, line⟩)⟩ :: ss) last


/-! What the scanner munches where a lexeme begins. -/

theorem munch_digit {c : Char} (digit : c.isDigit) (cs : List Char) :
    munch c cs = (.token .number, numberRun cs) := by
  unfold munch
  split
  case h_21 => rw [if_pos digit]
  all_goals exact absurd digit (by decide)

theorem wordStart_cases {c : Char} (word : isWordStart c) :
    ('A'.val ≤ c.val ∧ c.val ≤ 'Z'.val) ∨ ('a'.val ≤ c.val ∧ c.val ≤ 'z'.val) ∨ c = '_' := by
  rcases Bool.or_eq_true_iff.mp word with letter | underscore
  · rcases Bool.or_eq_true_iff.mp letter with upper | lower
    · exact .inl (of_decide_eq_true upper)
    · obtain ⟨le, ge⟩ := Bool.and_eq_true_iff.mp lower
      exact .inr (.inl ⟨of_decide_eq_true le, of_decide_eq_true ge⟩)
  · exact .inr (.inr (beq_iff_eq.mp underscore))

theorem munch_word {c : Char} (word : isWordStart c) (cs : List Char) :
    munch c cs = (.word, run isWordPart cs) := by
  have other : ¬ c.isDigit := by
    simp only [Char.isDigit, Bool.and_eq_true, decide_eq_true_eq, not_and]
    rcases wordStart_cases word with upper | lower | rfl
    · intro _ le
      exact absurd (UInt32.le_trans upper.1 le) (by decide)
    · intro _ le
      exact absurd (UInt32.le_trans lower.1 le) (by decide)
    · decide
  unfold munch
  split
  case h_21 => rw [if_neg other, if_pos word]
  all_goals exact absurd word (by decide)

private theorem oneOrTwo_token (cs : List Char) (single double : Kind) :
    ∃ kind extent, oneOrTwo cs single double = (.token kind, extent) := by
  unfold oneOrTwo
  split <;> exact ⟨_, _, rfl⟩

private theorem le_run {test : Char → Bool} {front : List Char} (passes : ∀ c ∈ front, test c)
    (rest : List Char) : front.length ≤ run test (front ++ rest) := by
  unfold run
  rw [List.takeWhile_append_of_pos passes, List.length_append]
  exact Nat.le_add_right _ _

theorem run_eq {test : Char → Bool} {front : List Char} {c : Char} (passes : ∀ d ∈ front, test d)
    (ends : ¬ test c) (rest : List Char) : run test (front ++ c :: rest) = front.length := by
  unfold run
  rw [List.takeWhile_append_of_pos passes, List.takeWhile_cons_of_neg ends, List.append_nil]

private theorem numberRun_whole {digits : List Char} (all : ∀ d ∈ digits, d.isDigit)
    (rest : List Char) :
    digits.length ≤ numberRun (digits ++ rest) := by
  have whole := le_run all rest
  unfold numberRun
  dsimp only
  split
  · split <;> omega
  · exact whole

private theorem numberRun_fraction {digits places : List Char} (all : ∀ d ∈ digits, d.isDigit)
    (some : places ≠ []) (all' : ∀ d ∈ places, d.isDigit) (rest : List Char) :
    digits.length + 1 + places.length ≤ numberRun (digits ++ '.' :: (places ++ rest)) := by
  have whole := run_eq all (c := '.') (by decide) (places ++ rest)
  have fraction := le_run all' rest
  have positive := List.length_pos_iff.mpr some
  unfold numberRun
  simp only [whole, List.drop_left]
  rw [if_pos (by omega)]
  omega

private theorem reserved_word : ∀ p ∈ reservedWords, ∃ c cs, p.1.toList = c :: cs ∧ isWordStart c ∧
    (∀ d ∈ cs, isWordPart d) ∧ Kind.ofWord p.1 = p.2 ∧ p.2 ≠ .endOfInput := by
  intro p member
  simp only [reservedWords, List.mem_cons, List.not_mem_nil, or_false] at member
  rcases member with rfl | rfl | rfl | rfl | rfl | rfl | rfl | rfl | rfl | rfl | rfl | rfl | rfl |
    rfl | rfl | rfl <;> exact ⟨_, _, rfl, by decide, List.all_eq_true.mp rfl, by decide, by decide⟩

def kind? (piece : Piece) (text : List Char) : Option Kind :=
  match piece with
  | .token kind => some kind
  | .word => some (Kind.ofWord (String.ofList text))
  | .skipped | .faulty _ => none

structure Begins (c : Char) (cs : List Char) (kind : Option Kind) : Prop where
  reaches : ∀ rest, cs.length ≤ (munch c (cs ++ rest)).2
  sound : ∀ rest fault, (munch c (cs ++ rest)).1 ≠ .faulty fault
  same : kind? (munch c cs).1 (c :: cs) = kind

private theorem operator_begins :
    ∀ p ∈ operators, ∃ c cs, p.1.toList = c :: cs ∧ Begins c cs (some p.2) := by
  intro p member
  have plain {c : Char} {kind : Kind} (h : ∀ rest, munch c rest = (.token kind, 0)) :
      Begins c [] (some kind) :=
    ⟨fun rest => Nat.zero_le _, fun rest fault same => by simp [h] at same, by rw [h]; rfl⟩
  have single {c : Char} {kind kind' : Kind} (h : ∀ rest, munch c rest = oneOrTwo rest kind kind') :
      Begins c [] (some kind) := by
    refine ⟨fun rest => Nat.zero_le _, fun rest fault same => ?_, by rw [h]; rfl⟩
    obtain ⟨k, extent, token⟩ := oneOrTwo_token ([] ++ rest) kind kind'
    rw [h, token] at same
    cases same
  have double {c : Char} {kind kind' : Kind} (h : ∀ rest, munch c rest = oneOrTwo rest kind' kind) :
      Begins c ['='] (some kind) := by
    refine ⟨fun rest => ?_, fun rest fault same => ?_, by rw [h]; rfl⟩
    · rw [h]
      exact Nat.le_refl 1
    · rw [h] at same
      cases same
  have slash : Begins '/' [] (some .slash) := by
    refine ⟨fun rest => Nat.zero_le _, fun rest fault same => ?_, rfl⟩
    simp only [munch] at same
    split at same <;> cases same
  simp only [operators, List.mem_cons, List.not_mem_nil, or_false] at member
  rcases member with rfl | rfl | rfl | rfl | rfl | rfl | rfl | rfl | rfl | rfl | rfl | rfl | rfl |
    rfl | rfl | rfl | rfl | rfl | rfl
  all_goals
    first
      | exact ⟨_, _, rfl, slash⟩
      | exact ⟨_, _, rfl, plain fun rest => rfl⟩
      | exact ⟨_, _, rfl, single fun rest => rfl⟩
      | exact ⟨_, _, rfl, double fun rest => rfl⟩

private theorem word_begins {c : Char} {cs : List Char} (start : isWordStart c)
    (parts : ∀ d ∈ cs, isWordPart d) :
    Begins c cs (some (Kind.ofWord (String.ofList (c :: cs)))) := by
  refine ⟨fun rest => ?_, fun rest fault => ?_, ?_⟩
  · rw [munch_word start]
    exact le_run parts rest
  · rw [munch_word start]
    exact Piece.noConfusion
  · rw [munch_word start]
    rfl

private theorem digit_begins {c : Char} {cs : List Char} (digit : c.isDigit)
    (reaches : ∀ rest, cs.length ≤ numberRun (cs ++ rest)) : Begins c cs (some .number) := by
  refine ⟨fun rest => ?_, fun rest fault => ?_, ?_⟩
  · rw [munch_digit digit]
    exact reaches rest
  · rw [munch_digit digit]
    exact Piece.noConfusion
  · rw [munch_digit digit]
    rfl

private theorem string_begins {inside : List Char} (unquoted : '\x22' ∉ inside) :
    Begins '\x22' (inside ++ ['\x22']) (some .string) := by
  have closed (rest : List Char) : munch '\x22' (inside ++ ['\x22'] ++ rest) =
      (.token .string, inside.length + 1) := by
    have passes : ∀ d ∈ inside, (decide (d ≠ '\x22')) = true :=
      fun d member => decide_eq_true fun same => unquoted (same ▸ member)
    have ends := run_eq passes (c := '\x22') (by decide) rest
    simp only [munch, List.append_assoc, List.singleton_append, ends, List.length_append,
      List.length_cons]
    rw [if_pos (by omega)]
  refine ⟨fun rest => ?_, fun rest fault => ?_, ?_⟩
  · rw [closed, List.length_append]
    exact Nat.le_refl _
  · rw [closed]
    exact Piece.noConfusion
  · have alone := closed []
    rw [List.append_nil] at alone
    rw [alone]
    rfl

private theorem Lexeme.begins {text : List Char} {kind : Option Kind} (lexeme : Lexeme text kind) :
    ∃ c cs, text = c :: cs ∧ Begins c cs kind := by
  cases lexeme with
  | operator member => exact operator_begins _ member
  | string unquoted => exact ⟨_, _, rfl, string_begins unquoted⟩
  | whole some all =>
    obtain ⟨d, ds, rfl⟩ := List.exists_cons_of_ne_nil some
    refine ⟨d, ds, rfl, digit_begins (all d List.mem_cons_self) ?_⟩
    exact numberRun_whole fun d member => all d (List.mem_cons_of_mem _ member)
  | @fraction digits places some all some' all' =>
    obtain ⟨d, ds, rfl⟩ := List.exists_cons_of_ne_nil some
    refine ⟨d, ds ++ '.' :: places, rfl, digit_begins (all d List.mem_cons_self) fun rest => ?_⟩
    have reaches := numberRun_fraction (fun d member => all d (List.mem_cons_of_mem _ member)) some'
      all' rest
    rw [List.length_append, List.length_cons, List.append_assoc, List.cons_append]
    omega
  | keyword member =>
    obtain ⟨c, cs, same, start, parts, kind, _⟩ := reserved_word _ member
    refine ⟨c, cs, same, ?_⟩
    have begins := word_begins start parts
    rw [← same, String.ofList_toList, kind] at begins
    exact begins
  | @identifier c cs start parts other =>
    have none : reservedWords.lookup (String.ofList (c :: cs)) = none := by
      rw [List.lookup_eq_none_iff]
      intro p member
      exact bne_iff_ne.mpr fun same => other (same ▸ List.mem_map_of_mem member)
    have begins := word_begins start parts
    rw [Kind.ofWord, none] at begins
    exact ⟨c, cs, rfl, begins⟩
  | @blank c member =>
    refine ⟨c, [], rfl, ?_⟩
    simp only [List.mem_cons, List.not_mem_nil, or_false] at member
    rcases member with rfl | rfl | rfl | rfl <;>
      exact ⟨fun rest => Nat.zero_le _, fun rest fault => Piece.noConfusion, rfl⟩
  | @comment inside within =>
    have passes : ∀ d ∈ '/' :: inside, decide (d ≠ '\n') = true := by
      intro d member
      rcases List.mem_cons.mp member with rfl | member
      · decide
      · exact decide_eq_true fun same => within (same ▸ member)
    exact ⟨'/', '/' :: inside, rfl, fun rest => le_run passes rest,
      fun rest fault => Piece.noConfusion, rfl⟩

/-! What the scanner munches is a lexeme. -/

theorem take_run (test : Char → Bool) (cs : List Char) :
    cs.take (run test cs) = cs.takeWhile test :=
  List.prefix_iff_eq_take.mp (List.takeWhile_prefix test) |>.symm

theorem drop_run (test : Char → Bool) (cs : List Char) :
    cs.drop (run test cs) = cs.dropWhile test := by
  have whole := List.takeWhile_append_dropWhile (p := test) (l := cs)
  have taken := List.take_append_drop (run test cs) cs
  rw [take_run] at taken
  exact List.append_cancel_left (taken.trans whole.symm)

theorem of_mem_takeWhile {test : Char → Bool} {cs : List Char} :
    ∀ c ∈ cs.takeWhile test, test c :=
  List.all_eq_true.mp List.all_takeWhile

theorem run_split {test : Char → Bool} {cs : List Char} (ends : run test cs < cs.length) :
    ∃ c rest, ¬ test c ∧ cs = cs.takeWhile test ++ c :: rest := by
  have whole := List.takeWhile_append_dropWhile (p := test) (l := cs)
  cases left : cs.dropWhile test with
  | nil =>
    rw [left, List.append_nil] at whole
    rw [run, whole] at ends
    exact absurd ends (Nat.lt_irrefl _)
  | cons c rest =>
    have stops := List.head_dropWhile_not test (l := cs) (by rw [left]; exact List.cons_ne_nil _ _)
    simp only [left, List.head_cons] at stops
    exact ⟨c, rest, by rw [stops]; decide, by rw [left] at whole; exact whole.symm⟩

private theorem oneOrTwo_lexeme {c : Char} {cs : List Char} {single double : Kind}
    (one : Lexeme [c] (some single)) (two : Lexeme [c, '='] (some double)) :
    Lexeme (c :: cs.take (oneOrTwo cs single double).2)
      (kind? (oneOrTwo cs single double).1 (c :: cs.take (oneOrTwo cs single double).2)) := by
  unfold oneOrTwo
  cases cs with
  | nil => exact one
  | cons d ds =>
    by_cases equal : d = '='
    · subst equal
      exact two
    · have other : ¬ (d :: ds).head? = some '=' := fun same => equal (Option.some.inj same)
      rw [if_neg other]
      exact one

theorem numberRun_split (cs : List Char) :
    (∃ fraction, cs.dropWhile Char.isDigit = '.' :: fraction ∧ fraction.head?.any Char.isDigit ∧
      cs.take (numberRun cs) = cs.takeWhile Char.isDigit ++ '.' :: fraction.takeWhile Char.isDigit ∧
      cs.drop (numberRun cs) = fraction.dropWhile Char.isDigit) ∨
    (∀ fraction, cs.dropWhile Char.isDigit = '.' :: fraction → ¬ fraction.head?.any Char.isDigit) ∧
      cs.take (numberRun cs) = cs.takeWhile Char.isDigit ∧
      cs.drop (numberRun cs) = cs.dropWhile Char.isDigit := by
  have whole := List.takeWhile_append_dropWhile (p := Char.isDigit) (l := cs)
  have left := drop_run Char.isDigit cs
  have some_iff (fraction : List Char) :
      0 < run Char.isDigit fraction ↔ fraction.head?.any Char.isDigit := by
    cases fraction with
    | nil => simp [run]
    | cons d ds => by_cases digit : d.isDigit <;> simp [run, digit]
  unfold numberRun
  dsimp only
  split
  · rename_i fraction behind
    rw [left] at behind
    by_cases positive : 0 < run Char.isDigit fraction
    · rw [if_pos positive]
      refine .inl ⟨fraction, behind, (some_iff fraction).mp positive, ?_, ?_⟩
      · have taken := @List.take_length_add_append _ (cs.takeWhile Char.isDigit) ('.' :: fraction)
          (run Char.isDigit fraction + 1)
        rw [← behind, whole, behind, List.take_succ_cons, take_run, ← Nat.add_assoc,
          Nat.add_right_comm] at taken
        exact taken
      · rw [Nat.add_assoc, ← List.drop_drop, left, behind, Nat.add_comm, List.drop_succ_cons,
          drop_run]
    · rw [if_neg positive]
      refine .inr ⟨fun fraction' behind' => ?_, take_run _ _, left⟩
      obtain ⟨_, rfl⟩ := List.cons.inj (behind.symm.trans behind')
      exact fun digit => positive ((some_iff _).mpr digit)
  · rename_i other
    rw [left] at other
    exact .inr ⟨fun fraction behind => (other fraction behind).elim, take_run _ _, left⟩

private theorem number_lexeme {c : Char} (digit : c.isDigit) (cs : List Char) :
    Lexeme (c :: cs.take (numberRun cs)) (some .number) := by
  have digits : ∀ d ∈ c :: cs.takeWhile Char.isDigit, d.isDigit := by
    intro d member
    rcases List.mem_cons.mp member with rfl | member
    · exact digit
    · exact of_mem_takeWhile d member
  rcases numberRun_split cs with ⟨fraction, _, some, taken, _⟩ | ⟨_, taken, _⟩
  · rw [taken, ← List.cons_append]
    refine .fraction (List.cons_ne_nil _ _) digits (fun none => ?_) of_mem_takeWhile
    cases fraction with
    | nil => cases some
    | cons d ds =>
      rw [List.head?_cons, Option.any_some] at some
      rw [List.takeWhile_cons_of_pos some] at none
      cases none
  · rw [taken]
    exact .whole (List.cons_ne_nil _ _) digits

private theorem word_lexeme {c : Char} {cs : List Char} (start : isWordStart c)
    (parts : ∀ d ∈ cs, isWordPart d) :
    Lexeme (c :: cs) (some (Kind.ofWord (String.ofList (c :: cs)))) := by
  by_cases reserved : String.ofList (c :: cs) ∈ reservedWords.map Prod.fst
  · obtain ⟨⟨word, kind⟩, member, same⟩ := List.mem_map.mp reserved
    obtain ⟨_, _, _, _, _, ofWord, _⟩ := reserved_word _ member
    have lexeme := Lexeme.keyword member
    dsimp only at same ofWord
    rw [← ofWord, same, String.toList_ofList] at lexeme
    exact lexeme
  · have none : reservedWords.lookup (String.ofList (c :: cs)) = none := by
      rw [List.lookup_eq_none_iff]
      intro p member
      exact bne_iff_ne.mpr fun same => reserved (same ▸ List.mem_map_of_mem member)
    rw [Kind.ofWord, none]
    exact .identifier start parts reserved

theorem munch_lexeme {c : Char} {cs : List Char}
    (sound : ∀ fault, (munch c cs).1 ≠ .faulty fault) :
    Lexeme (c :: cs.take (munch c cs).2)
      (kind? (munch c cs).1 (c :: cs.take (munch c cs).2)) := by
  unfold munch at sound ⊢
  split
  case h_1 => exact @Lexeme.operator "(" _ (by decide)
  case h_2 => exact @Lexeme.operator ")" _ (by decide)
  case h_3 => exact @Lexeme.operator "\x7b" _ (by decide)
  case h_4 => exact @Lexeme.operator "\x7d" _ (by decide)
  case h_5 => exact @Lexeme.operator "," _ (by decide)
  case h_6 => exact @Lexeme.operator "." _ (by decide)
  case h_7 => exact @Lexeme.operator "-" _ (by decide)
  case h_8 => exact @Lexeme.operator "+" _ (by decide)
  case h_9 => exact @Lexeme.operator ";" _ (by decide)
  case h_10 => exact @Lexeme.operator "*" _ (by decide)
  case h_11 =>
    exact oneOrTwo_lexeme (@Lexeme.operator "!" _ (by decide)) (@Lexeme.operator "!=" _ (by decide))
  case h_12 =>
    exact oneOrTwo_lexeme (@Lexeme.operator "=" _ (by decide)) (@Lexeme.operator "==" _ (by decide))
  case h_13 =>
    exact oneOrTwo_lexeme (@Lexeme.operator "<" _ (by decide)) (@Lexeme.operator "<=" _ (by decide))
  case h_14 =>
    exact oneOrTwo_lexeme (@Lexeme.operator ">" _ (by decide)) (@Lexeme.operator ">=" _ (by decide))
  case h_15 | h_16 | h_17 | h_18 => exact .blank (by decide)
  case h_19 =>
    split
    · rename_i slash
      obtain ⟨rest, rfl⟩ := List.head?_eq_some_iff.mp slash
      rw [take_run, List.takeWhile_cons_of_pos (by decide)]
      exact .comment fun member => absurd (of_mem_takeWhile _ member) (by decide)
    · exact @Lexeme.operator "/" _ (by decide)
  case h_20 =>
    dsimp only at sound ⊢
    split
    · rename_i ends
      obtain ⟨d, rest, stops, whole⟩ := run_split ends
      obtain rfl : d = '\x22' := by simpa using stops
      have taken := @List.take_length_add_append _ (cs.takeWhile (· ≠ '\x22')) ('\x22' :: rest) 1
      rw [← whole] at taken
      rw [run, taken]
      exact .string fun member => absurd (of_mem_takeWhile _ member) (by decide)
    · rename_i endless
      rw [if_neg endless] at sound
      exact absurd rfl (sound _)
  case h_21 =>
    split
    · rename_i digit
      exact number_lexeme digit cs
    · split
      · rename_i word
        rw [take_run]
        exact word_lexeme word of_mem_takeWhile
      · rename_i digit word
        split at sound
        case h_21 =>
          rw [if_neg digit, if_neg word] at sound
          exact absurd rfl (sound _)
        all_goals contradiction

/-! Where no lexeme begins, the piece is faulty. -/

private theorem Lexeme.kind_unique {text : List Char} {kind kind' : Option Kind}
    (h : Lexeme text kind) (h' : Lexeme text kind') : kind = kind' := by
  obtain ⟨c, cs, rfl, begins⟩ := h.begins
  obtain ⟨_, _, same, begins'⟩ := h'.begins
  obtain ⟨rfl, rfl⟩ := List.cons.inj same
  exact begins.same.symm.trans begins'.same

private theorem Lexeme.munched {text : List Char} {kind : Option Kind} {c : Char} {cs : List Char}
    (lexeme : Lexeme text kind) (front : text <+: c :: cs) :
    text.length ≤ (munch c cs).2 + 1 ∧ ∀ fault, (munch c cs).1 ≠ .faulty fault := by
  obtain ⟨d, ds, rfl, begins⟩ := lexeme.begins
  obtain ⟨rest, same⟩ := front
  obtain ⟨rfl, rfl⟩ := List.cons.inj same
  exact ⟨Nat.succ_le_succ (begins.reaches rest), begins.sound rest⟩

private theorem munch_longest {c : Char} {cs : List Char}
    (sound : ∀ fault, (munch c cs).1 ≠ .faulty fault) :
    Longest (c :: cs.take (munch c cs).2) (cs.drop (munch c cs).2)
      (kind? (munch c cs).1 (c :: cs.take (munch c cs).2)) := by
  refine ⟨munch_lexeme sound, fun text' kind' lexeme front => ?_⟩
  rw [List.cons_append, List.take_append_drop] at front
  have reach := (lexeme.munched front).1
  rwa [List.length_cons, List.length_take_of_le (munch_extent_le c cs)]

private theorem blocked_of_faulty {c : Char} {cs : List Char} {fault : LexFault}
    (faulty : (munch c cs).1 = .faulty fault) : Blocked (c :: cs) :=
  fun _ _ lexeme front => (lexeme.munched front).2 fault faulty

/-- A faulty piece is the whole rest behind a quote, or one character. -/
theorem munch_faulty_eq {c : Char} {cs : List Char} {fault : LexFault}
    (faulty : (munch c cs).1 = .faulty fault) :
    c = '\x22' ∧ munch c cs = (.faulty .unterminatedString, cs.length) ∨
      c ≠ '\x22' ∧ munch c cs = (.faulty (.unexpectedCharacter c), 0) := by
  have operator (single double : Kind) : (oneOrTwo cs single double).1 ≠ .faulty fault := by
    obtain ⟨_, _, token⟩ := oneOrTwo_token cs single double
    simp [token]
  unfold munch at faulty ⊢
  split at faulty
  case h_11 | h_12 | h_13 | h_14 => exact absurd faulty (operator _ _)
  case h_19 => split at faulty <;> cases faulty
  case h_20 =>
    dsimp only at faulty ⊢
    split at faulty
    · cases faulty
    · rename_i endless
      rw [if_neg endless]
      exact .inl ⟨rfl, rfl⟩
  case h_21 other _ =>
    split at faulty
    · cases faulty
    · split at faulty
      · cases faulty
      · rename_i digit word
        rw [if_neg digit, if_neg word]
        exact .inr ⟨by assumption, rfl⟩
  all_goals cases faulty

private theorem Lexeme.ne_nil {text : List Char} {kind : Option Kind} (h : Lexeme text kind) :
    text ≠ [] := by
  obtain ⟨c, cs, rfl, _⟩ := h.begins
  exact List.cons_ne_nil _ _

private theorem Longest.unique {text text' rest rest' : List Char} {kind kind' : Option Kind}
    (h : Longest text rest kind) (h' : Longest text' rest' kind')
    (same : text ++ rest = text' ++ rest') : text = text' ∧ rest = rest' ∧ kind = kind' := by
  have le := h.2 text' kind' h'.1 ⟨rest', same.symm⟩
  have ge := h'.2 text kind h.1 ⟨rest, same⟩
  obtain ⟨rfl, rfl⟩ := List.append_inj same (Nat.le_antisymm ge le)
  exact ⟨rfl, rfl, h.1.kind_unique h'.1⟩

private theorem Longest.not_blocked {text rest : List Char} {kind : Option Kind}
    (h : Longest text rest kind) : ¬ Blocked (text ++ rest) :=
  fun blocked => blocked text kind h.1 ⟨rest, rfl⟩

theorem Longest.munched {text rest : List Char} {kind : Option Kind} (h : Longest text rest kind) :
    ∃ c cs, text = c :: cs ∧ (munch c (cs ++ rest)).2 = cs.length ∧
      (∀ fault, (munch c (cs ++ rest)).1 ≠ .faulty fault) ∧
      kind? (munch c (cs ++ rest)).1 text = kind := by
  obtain ⟨c, cs, rfl, begins⟩ := h.1.begins
  have sound := begins.sound rest
  have munched := munch_longest sound
  have same : c :: cs ++ rest = c :: (cs ++ rest).take (munch c (cs ++ rest)).2 ++
      (cs ++ rest).drop (munch c (cs ++ rest)).2 := by
    rw [List.cons_append, List.cons_append, List.take_append_drop]
  obtain ⟨text, _, kinds⟩ := h.unique munched same
  have extent := congrArg List.length (List.cons.inj text).2
  rw [List.length_take_of_le (munch_extent_le c _)] at extent
  rw [← text] at kinds
  exact ⟨c, cs, rfl, extent.symm, sound, kinds.symm⟩

theorem Blocked.munched {c : Char} {cs : List Char} (h : Blocked (c :: cs)) :
    ∃ fault, (munch c cs).1 = .faulty fault := by
  refine Classical.byContradiction fun sound => ?_
  refine h _ _ (munch_lexeme (not_exists.mp sound)) ⟨cs.drop (munch c cs).2, ?_⟩
  rw [List.cons_append, List.take_append_drop]

/-! The one cut of a text. -/

theorem lineAfter_cons {c : Char} (other : c ≠ '\n') (line : Nat) (cs : List Char) :
    lineAfter line (c :: cs) = lineAfter line cs := by
  simp [lineAfter, other]

theorem lineAfter_singleton {c : Char} (other : c ≠ '\n') (line : Nat) :
    lineAfter line [c] = line := by
  simp [lineAfter, other]

theorem Blocked.ne_lineFeed {c : Char} {cs : List Char} (blocked : Blocked (c :: cs)) :
    c ≠ '\n' := by
  rintro rfl
  exact blocked _ _ (.blank (by decide)) ⟨cs, rfl⟩

/-- The item of a piece that is a lexeme. -/
theorem item?_of_sound {piece : Piece} (sound : ∀ fault, piece ≠ .faulty fault) (text : List Char)
    (line : Nat) :
    piece.item? text line = (kind? piece text).map fun k => .ok ⟨k, String.ofList text, line⟩ := by
  cases piece with
  | faulty fault => exact absurd rfl (sound fault)
  | _ => rfl

theorem exists_cut (line : Nat) {bound : Nat} {cs : List Char} (enough : cs.length ≤ bound) :
    ∃ ss last, Cut line cs ss last ∧
      itemsFrom line bound cs = ss.filterMap Stretch.item ++ [.ok (.atEnd last)] := by
  induction bound generalizing line cs with
  | zero =>
    obtain rfl : cs = [] := List.length_eq_zero_iff.mp (Nat.le_zero.mp enough)
    exact ⟨[], line, .done, rfl⟩
  | succ bound ih =>
    cases cs with
    | nil => exact ⟨[], line, .done, rfl⟩
    | cons c cs =>
      have fewer : (cs.drop (munch c cs).2).length ≤ bound := by
        rw [List.length_drop]
        exact Nat.le_trans (Nat.sub_le _ _) (Nat.le_of_succ_le_succ enough)
      rw [itemsFrom_cons]
      by_cases sound : ∀ fault, (munch c cs).1 ≠ .faulty fault
      · obtain ⟨ss, last, cut, items⟩ := ih (lineAfter line (c :: cs.take (munch c cs).2)) fewer
        have whole := Cut.lexeme (munch_longest sound) cut
        rw [List.cons_append, List.take_append_drop] at whole
        refine ⟨_, last, whole, ?_⟩
        rw [item?_of_sound sound, items, List.filterMap_cons]
        cases kind? (munch c cs).1 (c :: cs.take (munch c cs).2) <;> rfl
      · obtain ⟨fault, faulty⟩ := not_forall_not.mp sound
        have blocked := blocked_of_faulty faulty
        rcases munch_faulty_eq faulty with ⟨rfl, same⟩ | ⟨other, same⟩
        · rw [same, List.take_length, List.drop_length, lineAfter_cons (by decide)]
          exact ⟨_, _, .unterminated blocked, by cases bound <;> rfl⟩
        · rw [same, List.drop_zero] at fewer
          rw [same, List.take_zero, List.drop_zero, lineAfter_singleton blocked.ne_lineFeed]
          obtain ⟨ss, last, cut, items⟩ := ih line fewer
          exact ⟨_, last, .unexpected other blocked cut, by rw [items]; rfl⟩

theorem Cut.unique {line last last' : Nat} {cs : List Char} {ss ss' : List Stretch}
    (h : Cut line cs ss last) (h' : Cut line cs ss' last') : ss' = ss ∧ last' = last := by
  induction h generalizing ss' last' with
  | done =>
    generalize empty : ([] : List Char) = cs at h'
    cases h' with
    | done => exact ⟨rfl, rfl⟩
    | lexeme longest _ => exact absurd (List.append_eq_nil_iff.mp empty.symm).1 longest.1.ne_nil
    | unterminated | unexpected => cases empty
  | @lexeme _ _ text rest _ _ longest _ ih =>
    generalize same : text ++ rest = cs at h'
    cases h' with
    | done => exact absurd (List.append_eq_nil_iff.mp same).1 longest.1.ne_nil
    | lexeme longest' cut' =>
      obtain ⟨rfl, rfl, rfl⟩ := longest.unique longest' same
      obtain ⟨rfl, rfl⟩ := ih cut'
      exact ⟨rfl, rfl⟩
    | unterminated blocked => exact absurd (same ▸ blocked) longest.not_blocked
    | unexpected _ blocked => exact absurd (same ▸ blocked) longest.not_blocked
  | @unterminated line rest blocked =>
    generalize same : '\x22' :: rest = cs at h'
    cases h' with
    | done => cases same
    | lexeme longest _ => exact absurd (same ▸ blocked) longest.not_blocked
    | unterminated =>
      obtain ⟨_, rfl⟩ := List.cons.inj same
      exact ⟨rfl, rfl⟩
    | unexpected other => exact absurd (List.cons.inj same).1.symm other
  | @unexpected _ _ c rest _ other blocked _ ih =>
    generalize same : c :: rest = cs at h'
    cases h' with
    | done => cases same
    | lexeme longest _ => exact absurd (same ▸ blocked) longest.not_blocked
    | unterminated => exact absurd (List.cons.inj same).1 other
    | unexpected _ _ cut' =>
      obtain ⟨rfl, rfl⟩ := List.cons.inj same
      obtain ⟨rfl, rfl⟩ := ih cut'
      exact ⟨rfl, rfl⟩

theorem Cut.flatten {line last : Nat} {cs : List Char} {ss : List Stretch}
    (h : Cut line cs ss last) : (ss.map Stretch.text).flatten = cs := by
  induction h with
  | done => rfl
  | lexeme _ _ ih => rw [List.map_cons, List.flatten_cons, ih]
  | unterminated => simp
  | unexpected _ _ _ ih => rw [List.map_cons, List.flatten_cons, ih]; rfl

theorem Lexeme.kind_ne_endOfInput {text : List Char} {kind : Kind} (h : Lexeme text (some kind)) :
    kind ≠ .endOfInput := by
  cases h with
  | operator member =>
    have all : ∀ p ∈ operators, p.2 ≠ .endOfInput := by decide
    exact all _ member
  | keyword member =>
    obtain ⟨_, _, _, _, _, _, other⟩ := reserved_word _ member
    exact other
  | string | whole | fraction | identifier => exact Kind.noConfusion

theorem Cut.lexeme_of_mem {line last : Nat} {cs : List Char} {ss : List Stretch}
    (h : Cut line cs ss last) {t : Token} (member : .ok t ∈ ss.filterMap Stretch.item) :
    Lexeme t.lexeme.toList (some t.kind) := by
  induction h with
  | done => cases member
  | @lexeme _ _ _ _ kind _ longest _ ih =>
    cases kind with
    | none => exact ih member
    | some kind =>
      rcases List.mem_cons.mp member with here | behind
      · cases here
        rw [String.toList_ofList]
        exact longest.1
      · exact ih behind
  | unterminated => cases List.mem_singleton.mp member
  | unexpected _ _ _ ih =>
    rcases List.mem_cons.mp member with here | behind
    · cases here
    · exact ih behind

theorem Cut.kind_ne_endOfInput {line last : Nat} {cs : List Char} {ss : List Stretch}
    (h : Cut line cs ss last) {t : Token} (member : .ok t ∈ ss.filterMap Stretch.item) :
    t.kind ≠ .endOfInput :=
  (h.lexeme_of_mem member).kind_ne_endOfInput

end Lexical

end LoxLang
