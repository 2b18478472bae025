import LoxLang.Tree.Printer
import Mathlib.Data.List.TakeWhile

/-!
Bracketed texts can be read in one way only.

A bracketed text is a word, or a head and parts between brackets.  Words and heads have no blank
and no bracket in them, so the first such character ends a word, and a part ends where its own
brackets are closed: no text is the text of two phrases, whatever stands behind it.
-/

set_option autoImplicit false
set_option relaxedAutoImplicit false

namespace LoxLang

inductive Phrase where
  | word (cs : List Char)
  | group (head : List Char) (parts : List Phrase)

namespace Phrase

mutual

def chars : Phrase → List Char
  | word cs => cs
  | group head parts => '(' :: (head ++ charsAll parts)

def charsAll : List Phrase → List Char
  | [] => [')']
  | part :: parts => ' ' :: (part.chars ++ charsAll parts)

end

def inWord (c : Char) : Bool := c != ' ' && c != '(' && c != ')'

def IsWord (cs : List Char) : Prop := cs ≠ [] ∧ ∀ c ∈ cs, inWord c

def Stops (rest : List Char) : Prop := ∀ c ∈ rest.head?, ¬ inWord c

mutual

def Proper : Phrase → Prop
  | word cs => IsWord cs
  | group head parts => IsWord head ∧ ProperAll parts

def ProperAll : List Phrase → Prop
  | [] => True
  | part :: parts => part.Proper ∧ ProperAll parts

end

private theorem takeWhile_word {cs rest : List Char} (isWord : ∀ c ∈ cs, inWord c)
    (stops : Stops rest) :
    (cs ++ rest).takeWhile inWord = cs := by
  rw [List.takeWhile_append_of_pos isWord]
  have none : rest.takeWhile inWord = [] := by
    cases rest with
    | nil => rfl
    | cons c rest => exact List.takeWhile_cons_of_neg (stops c rfl)
  rw [none, List.append_nil]

private theorem word_unique {cs cs' rest rest' : List Char} (isWord : IsWord cs)
    (isWord' : IsWord cs')
    (stops : Stops rest) (stops' : Stops rest') (same : cs ++ rest = cs' ++ rest') :
    cs = cs' ∧ rest = rest' := by
  have equal : cs = cs' := by
    rw [← takeWhile_word isWord.2 stops, same, takeWhile_word isWord'.2 stops']
  refine ⟨equal, ?_⟩
  rw [equal] at same
  exact List.append_cancel_left same

private theorem word_ne_bracket {cs rest text : List Char} (isWord : IsWord cs) :
    cs ++ rest ≠ '(' :: text := by
  obtain ⟨some, within⟩ := isWord
  obtain ⟨c, cs, rfl⟩ := List.exists_cons_of_ne_nil some
  intro same
  have bracket : c = '(' := (List.cons.inj same).1
  have inside := within c List.mem_cons_self
  rw [bracket] at inside
  exact absurd inside (by decide)

private theorem stops_charsAll (parts : List Phrase) (rest : List Char) :
    Stops (charsAll parts ++ rest) := by
  rintro c first
  cases parts <;> cases first <;> decide

mutual

private theorem chars_unique : ∀ {p p' : Phrase} {rest rest' : List Char}, p.Proper → p'.Proper →
    Stops rest → Stops rest' → p.chars ++ rest = p'.chars ++ rest' → p = p' ∧ rest = rest'
  | word cs, word cs', _, _, proper, proper', stops, stops', same => by
    obtain ⟨rfl, equal⟩ := word_unique proper proper' stops stops' same
    exact ⟨rfl, equal⟩
  | word _, group _ _, _, _, proper, _, _, _, same => (word_ne_bracket proper same).elim
  | group _ _, word _, _, _, _, proper', _, _, same => (word_ne_bracket proper' same.symm).elim
  | group head parts, group head' parts', rest, rest', proper, proper', _, _, same => by
    have inside : head ++ (charsAll parts ++ rest) = head' ++ (charsAll parts' ++ rest') := by
      simpa only [chars, List.cons_append, List.append_assoc, List.cons.injEq, true_and] using same
    obtain ⟨rfl, behind⟩ := word_unique proper.1 proper'.1 (stops_charsAll parts rest)
      (stops_charsAll parts' rest') inside
    obtain ⟨rfl, equal⟩ := charsAll_unique proper.2 proper'.2 behind
    exact ⟨rfl, equal⟩

private theorem charsAll_unique : ∀ {ps ps' : List Phrase} {rest rest' : List Char}, ProperAll ps →
    ProperAll ps' → charsAll ps ++ rest = charsAll ps' ++ rest' → ps = ps' ∧ rest = rest'
  | [], [], _, _, _, _, same => ⟨rfl, (List.cons.inj same).2⟩
  | [], _ :: _, _, _, _, _, same => absurd (List.cons.inj same).1 (by decide)
  | _ :: _, [], _, _, _, _, same => absurd (List.cons.inj same).1 (by decide)
  | p :: ps, p' :: ps', rest, rest', proper, proper', same => by
    have inside : p.chars ++ (charsAll ps ++ rest) = p'.chars ++ (charsAll ps' ++ rest') := by
      simpa only [charsAll, List.cons_append, List.append_assoc, List.cons.injEq, true_and]
        using same
    obtain ⟨rfl, behind⟩ := chars_unique proper.1 proper'.1 (stops_charsAll ps rest)
      (stops_charsAll ps' rest') inside
    obtain ⟨rfl, equal⟩ := charsAll_unique proper.2 proper'.2 behind
    exact ⟨rfl, equal⟩

end

/-- Phrases with the same text are the same. -/
theorem chars_injective {p p' : Phrase} (proper : p.Proper) (proper' : p'.Proper)
    (same : p.chars = p'.chars) : p = p' := by
  have empty : Stops [] := by simp [Stops]
  exact (chars_unique proper proper' empty empty (by simpa using same)).1

end Phrase

/-! ### The phrase of an expression -/

def Literal.word (l : Literal) : Phrase := .word l.bracketed.toList

def Token.word (t : Token) : Phrase := .word t.lexeme.toList

mutual

def Expr.phrase : Expr → Phrase
  | .literal value => value.word
  | .grouping inner => .group "group".toList [inner.phrase]
  | .unary operator operand => .group operator.lexeme.toList [operand.phrase]
  | .binary operator left right | .logical operator left right =>
    .group operator.lexeme.toList [left.phrase, right.phrase]
  | .variable _ name => name.word
  | .assign _ name value => .group "=".toList [name.word, value.phrase]
  | .call callee _ arguments => .group "call".toList (callee.phrase :: Expr.phraseAll arguments)
  | .get object name => .group ".".toList [object.phrase, name.word]
  | .set object name value => .group ".=".toList [object.phrase, name.word, value.phrase]
  | .this _ _ => .word "this".toList
  | .super _ _ method => .group "super".toList [method.word]

def Expr.phraseAll : List Expr → List Phrase
  | [] => []
  | e :: es => e.phrase :: Expr.phraseAll es

end

private theorem toList_bracket (head : String) {parts : List String} {ps : List Phrase}
    (same : parts.map String.toList = ps.map Phrase.chars) :
    (bracket head parts).toList = (Phrase.group head.toList ps).chars := by
  have joined (first : List Char) (ps : List Phrase) :
      [' '].intercalate (first :: ps.map Phrase.chars) ++ [')'] = first ++ Phrase.charsAll ps := by
    induction ps generalizing first with
    | nil => simp [Phrase.charsAll]
    | cons p ps ih =>
      have inner := ih p.chars
      simp only [List.map_cons, List.intercalate_cons_cons, Phrase.charsAll, List.append_assoc,
        List.cons_append, List.nil_append] at inner ⊢
      rw [inner]
  simp only [bracket, String.toList_append, String.toList_intercalate, List.map_cons, same]
  exact congrArg ('(' :: ·) (joined head.toList ps)

mutual

theorem Expr.toList_bracketed : ∀ e : Expr, e.bracketed.toList = e.phrase.chars
  | .literal _ | .variable _ _ | .this _ _ => rfl
  | .grouping inner => toList_bracket _ (by simp [inner.toList_bracketed])
  | .unary _ operand => toList_bracket _ (by simp [operand.toList_bracketed])
  | .binary _ left right | .logical _ left right =>
    toList_bracket _ (by simp [left.toList_bracketed, right.toList_bracketed])
  | .assign _ _ value =>
    toList_bracket _ (by simp [value.toList_bracketed, Token.word, Phrase.chars])
  | .call callee _ arguments =>
    toList_bracket _ (by simp [callee.toList_bracketed, Expr.map_toList_bracketedAll arguments])
  | .get object _ =>
    toList_bracket _ (by simp [object.toList_bracketed, Token.word, Phrase.chars])
  | .set object _ value =>
    toList_bracket _ (by
      simp [object.toList_bracketed, value.toList_bracketed, Token.word, Phrase.chars])
  | .super _ _ _ => toList_bracket _ (by simp [Token.word, Phrase.chars])

private theorem Expr.map_toList_bracketedAll : ∀ es : List Expr,
    (Expr.bracketedAll es).map String.toList = (Expr.phraseAll es).map Phrase.chars
  | [] => rfl
  | e :: es => by
    rw [Expr.bracketedAll, Expr.phraseAll, List.map_cons, List.map_cons, e.toList_bracketed,
      Expr.map_toList_bracketedAll es]

end

end LoxLang
