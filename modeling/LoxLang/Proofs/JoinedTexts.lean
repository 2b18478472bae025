import LoxLang.Proofs.LaterLines
import LoxLang.Token.Scan

/-!
The tokens of two texts with a line feed between them.  No piece of the first text reaches over
the line feed, unless it is a string that does not end, so the pieces of the whole are those of the
two texts, the later ones further down by the lines of the first text.
-/

set_option autoImplicit false
set_option relaxedAutoImplicit false

namespace LoxLang

def LexError.later (k : Nat) (e : LexError) : LexError := { e with line := e.line + k }

def Scanned.later (k : Nat) (s : Scanned) : Scanned where
  tokens := s.tokens.map (Token.later k)
  lastLine := s.lastLine + k
  faults := s.faults.map (LexError.later k)

/-- The lines that a text takes up before what follows it on a line of its own. -/
def linesOf (source : String) : Nat := source.toList.count '\n' + 1

def emptyLines (k : Nat) : String := String.ofList (List.replicate k '\n')

namespace Scan

def laterItem (k : Nat) : Item → Item
  | .ok t => .ok (t.later k)
  | .error e => .error (e.later k)

private theorem lineAfter_add (line k : Nat) (text : List Char) :
    lineAfter (line + k) text = lineAfter line text + k := by
  unfold lineAfter
  omega

private theorem item?_later (piece : Piece) (text : List Char) (line k : Nat) :
    piece.item? text (line + k) = (piece.item? text line).map (laterItem k) := by
  cases piece <;> rfl

theorem itemsFrom_cons (line bound : Nat) (c : Char) (cs : List Char) :
    itemsFrom line (bound + 1) (c :: cs) =
      ((munch c cs).1.item? (c :: cs.take (munch c cs).2)
        (lineAfter line (c :: cs.take (munch c cs).2))).toList ++
      itemsFrom (lineAfter line (c :: cs.take (munch c cs).2)) bound (cs.drop (munch c cs).2) :=
  rfl

private theorem itemsFrom_later (k line bound : Nat) (cs : List Char) :
    itemsFrom (line + k) bound cs = (itemsFrom line bound cs).map (laterItem k) := by
  induction bound generalizing line cs with
  | zero => rfl
  | succ bound ih =>
    cases cs with
    | nil => rfl
    | cons c cs =>
      rw [itemsFrom_cons, itemsFrom_cons, lineAfter_add, item?_later, ih, List.map_append]
      congr 1
      cases (munch c cs).1.item? _ _ <;> rfl

/-- As many pieces as there are characters suffice. -/
theorem itemsFrom_enough {line : Nat} {cs : List Char} {bound bound' : Nat}
    (h : cs.length ≤ bound) (h' : cs.length ≤ bound') :
    itemsFrom line bound cs = itemsFrom line bound' cs := by
  induction bound generalizing line cs bound' with
  | zero =>
    obtain rfl : cs = [] := List.length_eq_zero_iff.mp (Nat.le_zero.mp h)
    cases bound' <;> rfl
  | succ bound ih =>
    cases cs with
    | nil => cases bound' <;> rfl
    | cons c cs =>
      obtain ⟨bound', rfl⟩ := Nat.exists_eq_add_one_of_ne_zero
        (Nat.ne_of_gt (Nat.lt_of_lt_of_le (Nat.succ_pos _) h'))
      have rest : (cs.drop (munch c cs).2).length ≤ cs.length := by simp
      have first := Nat.le_trans rest (Nat.le_of_succ_le_succ h)
      have second := Nat.le_trans rest (Nat.le_of_succ_le_succ h')
      rw [itemsFrom_cons, itemsFrom_cons, ih first second]

theorem itemsFrom_ends (line bound : Nat) (cs : List Char) :
    ∃ front last, itemsFrom line bound cs = front ++ [.ok (.atEnd last)] := by
  induction bound generalizing line cs with
  | zero => exact ⟨[], line, rfl⟩
  | succ bound ih =>
    cases cs with
    | nil => exact ⟨[], line, rfl⟩
    | cons c cs =>
      obtain ⟨front, last, same⟩ := ih (lineAfter line (c :: cs.take (munch c cs).2))
        (cs.drop (munch c cs).2)
      rw [itemsFrom_cons, same, ← List.append_assoc]
      exact ⟨_, last, rfl⟩

def blanks : List Char := [' ', '\t', '\r', '\n']

private theorem run_join {test : Char → Bool} {b : Char} (ends : test b = false)
    (cs rest : List Char) :
    run test (cs ++ b :: rest) = run test cs := by
  induction cs with
  | nil => simp [run, ends]
  | cons c cs ih =>
    unfold run at ih ⊢
    rw [List.cons_append, List.takeWhile_cons, List.takeWhile_cons]
    split
    · simp only [List.length_cons, ih]
    · rfl

private theorem run_append {test : Char → Bool} {cs : List Char} (ends : run test cs < cs.length)
    (rest : List Char) : run test (cs ++ rest) = run test cs := by
  induction cs with
  | nil => cases ends
  | cons c cs ih =>
    unfold run at ih ends ⊢
    rw [List.cons_append, List.takeWhile_cons, List.takeWhile_cons]
    rw [List.takeWhile_cons] at ends
    split
    · rename_i passes
      simp only [passes, if_true, List.length_cons, Nat.add_lt_add_iff_right] at ends
      simp only [List.length_cons, ih ends]
    · rfl

private theorem head?_join {b c : Char} (other : c ≠ b) (cs rest : List Char) :
    (cs ++ b :: rest).head? = some c ↔ cs.head? = some c := by
  cases cs with
  | nil => simp [other.symm]
  | cons d ds => rfl

section

variable {b : Char} (blank : b ∈ blanks)

include blank

private theorem blank_ne {c : Char} (other : c ∉ blanks) : c ≠ b := fun same => other (same ▸ blank)

private theorem oneOrTwo_join (cs rest : List Char) (single double : Kind) :
    oneOrTwo (cs ++ b :: rest) single double = oneOrTwo cs single double := by
  unfold oneOrTwo
  simp only [head?_join (blank_ne blank (c := '=') (by decide))]

private theorem blank_fails {test : Char → Bool} (fails : blanks.any test = false) :
    test b = false :=
  Bool.eq_false_iff.mpr (List.any_eq_false.mp fails b blank)

private theorem numberRun_join (cs rest : List Char) : numberRun (cs ++ b :: rest) = numberRun cs :=
  by
  have ends : Char.isDigit b = false := blank_fails blank (by decide)
  have whole : run Char.isDigit (cs ++ b :: rest) = run Char.isDigit cs := run_join ends cs rest
  have within : run Char.isDigit cs ≤ cs.length := (List.takeWhile_sublist _).length_le
  unfold numberRun
  simp only [whole, List.drop_append_of_le_length within]
  cases h : cs.drop (run Char.isDigit cs) with
  | nil =>
    have point := blank_ne blank (c := '.') (by decide)
    rw [List.nil_append]
    split
    · rename_i same
      exact absurd (List.cons.inj same).1.symm point
    · rfl
  | cons d fraction =>
    by_cases point : d = '.'
    · subst point
      simp only [List.cons_append, run_join ends fraction rest]
    · simp only [List.cons_append]
      split
      · rename_i same
        exact absurd (List.cons.inj same).1 point
      · split
        · rename_i same
          exact absurd (List.cons.inj same).1 point
        · rfl

end

private theorem Piece.sound_of_item? {piece : Piece} {text : List Char} {line : Nat}
    (h : ∀ e, .error e ∉ (piece.item? text line).toList) (fault : LexFault) :
    piece ≠ .faulty fault := by
  rintro rfl
  exact h _ List.mem_cons_self

theorem munch_before {c b : Char} {cs : List Char} (blank : b ∈ blanks)
    (sound : ∀ fault, (munch c cs).1 ≠ .faulty fault)
    (ends : b = '\n' ∨ (munch c cs).1 ≠ .skipped) (rest : List Char) :
    munch c (cs ++ b :: rest) = munch c cs := by
  unfold munch at sound ends ⊢
  split
  case h_11 | h_12 | h_13 | h_14 => exact oneOrTwo_join blank _ _ _ _
  case h_19 =>
    simp only [head?_join (blank_ne blank (c := '/') (by decide))]
    split
    · rename_i comment
      rcases ends with rfl | token
      · rw [run_join (by decide)]
      · exact absurd (if_pos comment ▸ rfl) token
    · rfl
  case h_20 =>
    rcases Nat.lt_or_ge (run (· ≠ '\x22') cs) cs.length with ends | endless
    · have longer : run (· ≠ '\x22') cs < (cs ++ b :: rest).length := by
        rw [List.length_append]
        omega
      simp only [run_append ends, ends, longer, if_true]
    · exact absurd (by simp only [if_neg (Nat.not_lt.mpr endless)]) (sound .unterminatedString)
  case h_21 =>
    rw [numberRun_join blank, run_join (blank_fails blank (by decide))]
  all_goals rfl

theorem munch_join {c : Char} {cs : List Char} (sound : ∀ fault, (munch c cs).1 ≠ .faulty fault)
    (rest : List Char) : munch c (cs ++ '\n' :: rest) = munch c cs :=
  munch_before (by decide) sound (.inl rfl) rest

private theorem itemsFrom_lineFeed {line bound : Nat} {cs : List Char}
    (enough : cs.length < bound) :
    itemsFrom line bound ('\n' :: cs) = itemsFrom (line + 1) cs.length cs := by
  obtain ⟨bound, rfl⟩ := Nat.exists_eq_add_one_of_ne_zero (Nat.ne_of_gt (Nat.zero_lt_of_lt enough))
  exact itemsFrom_enough (Nat.le_of_lt_succ enough) (Nat.le_refl _)

private theorem itemsFrom_join {line bound wide : Nat} {cs rest : List Char}
    (enough : cs.length ≤ bound) (sound : ∀ e, .error e ∉ itemsFrom line bound cs)
    (wider : (cs ++ '\n' :: rest).length ≤ wide) :
    itemsFrom line wide (cs ++ '\n' :: rest) =
      (itemsFrom line bound cs).dropLast ++
        itemsFrom (line + (cs.count '\n' + 1)) rest.length rest := by
  induction bound generalizing line cs wide with
  | zero =>
    obtain rfl : cs = [] := List.length_eq_zero_iff.mp (Nat.le_zero.mp enough)
    exact itemsFrom_lineFeed wider
  | succ bound ih =>
    cases cs with
    | nil => exact itemsFrom_lineFeed wider
    | cons c cs =>
      obtain ⟨wide, rfl⟩ := Nat.exists_eq_add_one_of_ne_zero
        (Nat.ne_of_gt (Nat.lt_of_lt_of_le (Nat.succ_pos _) wider))
      have within := munch_extent_le c cs
      rw [itemsFrom_cons] at sound
      have piece := Piece.sound_of_item? fun e member => sound e (List.mem_append_left _ member)
      have left : (cs.drop (munch c cs).2).length ≤ bound := by
        rw [List.length_drop]
        exact Nat.le_trans (Nat.sub_le _ _) (Nat.le_of_succ_le_succ enough)
      have room : (cs.drop (munch c cs).2 ++ '\n' :: rest).length ≤ wide := by
        simp only [List.length_append, List.length_cons, List.length_drop] at wider ⊢
        omega
      have others := ih left (fun e member => sound e (List.mem_append_right _ member)) room
      have lines : lineAfter line (c :: cs.take (munch c cs).2) +
          ((cs.drop (munch c cs).2).count '\n' + 1) = line + ((c :: cs).count '\n' + 1) := by
        have all := congrArg (List.count '\n') (List.take_append_drop (munch c cs).2 cs)
        rw [List.count_append] at all
        rw [lineAfter, List.count_cons, List.count_cons]
        omega
      obtain ⟨front, last, ends⟩ := itemsFrom_ends
        (lineAfter line (c :: cs.take (munch c cs).2)) bound (cs.drop (munch c cs).2)
      rw [List.cons_append, itemsFrom_cons, itemsFrom_cons, munch_join piece,
        List.take_append_of_le_length within, List.drop_append_of_le_length within, others, lines,
        ← List.append_assoc]
      congr 1
      rw [ends, ← List.append_assoc, List.dropLast_concat, List.dropLast_concat]

def fault? : Item → Option LexError
  | .ok _ => none
  | .error e => some e

theorem scan_faults (source : String) : (scan source).faults = (items source).filterMap fault? := by
  unfold scan
  dsimp only
  congr 1

theorem scan_eq {source : String} {front : List Item} {last : Nat}
    (ends : items source = front ++ [.ok (.atEnd last)]) :
    scan source = ⟨front.filterMap Except.toOption, last, front.filterMap fault?⟩ := by
  have marked : (items source).filterMap Except.toOption =
      front.filterMap Except.toOption ++ [.atEnd last] := by
    rw [ends, List.filterMap_append]
    rfl
  have tokens : (scan source).tokens = front.filterMap Except.toOption := by
    simp only [scan, marked, List.dropLast_concat]
  have lastLine : (scan source).lastLine = last := by
    simp [scan, marked, Token.atEnd]
  have faults : (scan source).faults = front.filterMap fault? := by
    rw [scan_faults, ends, List.filterMap_append]
    exact List.append_nil _
  rw [← tokens, ← lastLine, ← faults]

private theorem filterMap_later (k : Nat) (front : List Item) :
    (front.map (laterItem k)).filterMap Except.toOption =
      (front.filterMap Except.toOption).map (Token.later k) := by
  rw [List.filterMap_map, List.map_filterMap]
  congr 1
  funext item
  cases item <;> rfl

private theorem filterMap_fault?_later (k : Nat) (front : List Item) :
    (front.map (laterItem k)).filterMap fault? = (front.filterMap fault?).map (LexError.later k) := by
  rw [List.filterMap_map, List.map_filterMap]
  congr 1
  funext item
  cases item <;> rfl

private theorem items_join {s₁ s₂ : String} (sound : (scan s₁).faults = []) :
    items (s₁ ++ "\n" ++ s₂) =
      (items s₁).dropLast ++ (items s₂).map (laterItem (linesOf s₁)) := by
  have whole : (s₁ ++ "\n" ++ s₂).toList = s₁.toList ++ '\n' :: s₂.toList := by
    simp [String.toList_append]
  have length : (s₁ ++ "\n" ++ s₂).length = (s₁.toList ++ '\n' :: s₂.toList).length := by
    rw [← whole, String.length_toList]
  have clean : ∀ e, .error e ∉ items s₁ := by
    intro e member
    rw [scan_faults] at sound
    exact absurd (List.filterMap_eq_nil_iff.mp sound _ member) (by simp [fault?])
  unfold items at clean ⊢
  rw [whole, length, itemsFrom_join (Nat.le_of_eq String.length_toList) clean (Nat.le_refl _),
    itemsFrom_later, String.length_toList]
  rfl

end Scan

open Scan in
/-- The second of two texts that a line feed parts is scanned further down, provided that no piece
of the first one is faulty. -/
theorem scan_join {s₁ s₂ : String} (sound : (scan s₁).faults = []) :
    scan (s₁ ++ "\n" ++ s₂) =
      ⟨(scan s₁).tokens ++ (scan s₂).tokens.map (Token.later (linesOf s₁)),
        (scan s₂).lastLine + linesOf s₁, (scan s₂).faults.map (LexError.later (linesOf s₁))⟩ := by
  obtain ⟨front₁, last₁, ends₁⟩ := itemsFrom_ends 1 s₁.length s₁.toList
  obtain ⟨front₂, last₂, ends₂⟩ := itemsFrom_ends 1 s₂.length s₂.toList
  have first := scan_eq ends₁
  have second := scan_eq ends₂
  have joined : items (s₁ ++ "\n" ++ s₂) =
      (front₁ ++ front₂.map (laterItem (linesOf s₁))) ++ [.ok (.atEnd (last₂ + linesOf s₁))] := by
    rw [items_join sound, items, items, ends₁, ends₂, List.dropLast_concat, List.map_append,
      List.append_assoc]
    rfl
  have none : front₁.filterMap fault? = [] := by
    rw [first] at sound
    exact sound
  rw [scan_eq joined, first, second, List.filterMap_append, List.filterMap_append,
    filterMap_later, filterMap_fault?_later, none, List.nil_append]

private theorem emptyLines_succ (k : Nat) : emptyLines (k + 1) = emptyLines k ++ "\n" := by
  refine String.toList_injective ?_
  simp [emptyLines, List.replicate_succ']

private theorem linesOf_emptyLines (k : Nat) : linesOf (emptyLines k) = k + 1 := by
  simp [linesOf, emptyLines]

private theorem scan_emptyLines (k : Nat) :
    (scan (emptyLines k)).tokens = [] ∧ (scan (emptyLines k)).faults = [] := by
  have empty : scan "" = ⟨[], 1, []⟩ := rfl
  induction k with
  | zero => exact ⟨congrArg Scanned.tokens empty, congrArg Scanned.faults empty⟩
  | succ k ih =>
    have joined : scan (emptyLines k ++ "\n" ++ "") = _ := scan_join ih.2
    rw [String.append_empty, ← emptyLines_succ, ih.1, empty] at joined
    rw [joined]
    exact ⟨rfl, rfl⟩

theorem scan_later (k : Nat) (source : String) :
    scan (emptyLines k ++ source) = (scan source).later k := by
  cases k with
  | zero =>
    have same : emptyLines 0 ++ source = source := String.empty_append
    rw [same, Scanned.later, Token.later_zero_eq_id, List.map_id]
    have faults : (scan source).faults.map (LexError.later 0) = (scan source).faults :=
      List.map_id _
    rw [faults]
    rfl
  | succ k =>
    obtain ⟨tokens, faults⟩ := scan_emptyLines k
    rw [emptyLines_succ, scan_join faults, tokens, linesOf_emptyLines]
    rfl

end LoxLang
