import LoxLang.Proofs.LegibleTrees
import LoxLang.Proofs.NumberTexts
import LoxLang.Proofs.PrintedExpressions

/-!
Expressions with the same bracketed text are the same tree.

The text tells the phrase, and the phrase tells the tree: a word is a number if it begins with a
digit or a sign, else a keyword or a name; the head of a group and the number of its parts tell
the node.  Only the numbers of a tree, its lines and the spelling of its constants are not told.
-/

set_option autoImplicit false
set_option relaxedAutoImplicit false

namespace LoxLang

open Lexical

def Kind.ofLexeme (text : String) : Kind :=
  ((operators ++ reservedWords).lookup text).getD .identifier

def Token.ofLexeme (cs : List Char) : Token :=
  ⟨Kind.ofLexeme (String.ofList cs), String.ofList cs, 0⟩

def Expr.ofWord (value : List Char → Float) (cs : List Char) : Expr :=
  if Number.beginsNumber cs then .literal (.number (value cs))
  else
    match Kind.ofLexeme (String.ofList cs) with
    | .trueWord => .literal (.bool true)
    | .falseWord => .literal (.bool false)
    | .nilWord => .literal .nil
    | .thisWord => .this 0 (.ofLexeme cs)
    | _ => .variable 0 (.ofLexeme cs)

namespace Phrase

def token : Phrase → Token
  | word cs => .ofLexeme cs
  | group head _ => .ofLexeme head

def node (head : List Char) (parts : List Phrase) (trees : List Expr) : Expr :=
  if head = "call".toList then
    match trees with
    | [] => .literal .nil
    | callee :: arguments => .call callee (.ofLexeme [')']) arguments
  else
    match parts, trees with
    | [part], [e] =>
      if head = "group".toList then .grouping e
      else if head = "super".toList then .super 0 (.ofLexeme head) part.token
      else .unary (.ofLexeme head) e
    | [part, part'], [e, e'] =>
      if head = "=".toList then .assign 0 part.token e'
      else if head = ".".toList then .get e part'.token
      else if (Kind.ofLexeme (String.ofList head)) ∈ logicalKinds then .logical (.ofLexeme head) e e'
      else .binary (.ofLexeme head) e e'
    | [_, name, _], [object, _, e] => .set object name.token e
    | _, _ => .literal .nil

private theorem node_operator {head : List Char}
    (other : head ∉ ["call", "group", "super", "=", "."].map String.toList)
    (part part' : Phrase) (e e' : Expr) :
    node head [part] [e] = .unary (.ofLexeme head) e ∧
      node head [part, part'] [e, e'] =
        if Kind.ofLexeme (String.ofList head) ∈ logicalKinds then .logical (.ofLexeme head) e e'
        else .binary (.ofLexeme head) e e' := by
  simp only [List.map_cons, List.map_nil, List.mem_cons, List.not_mem_nil, or_false, not_or]
    at other
  obtain ⟨call, group, super, equal, dot⟩ := other
  constructor
  · simp only [node, if_neg call, if_neg group, if_neg super]
  · simp only [node, if_neg call, if_neg equal, if_neg dot]

variable (value : List Char → Float)

mutual

def tree : Phrase → Expr
  | word cs => Expr.ofWord value cs
  | group head parts => node head parts (treeAll parts)

def treeAll : List Phrase → List Expr
  | [] => []
  | part :: parts => part.tree :: treeAll parts

end

end Phrase

private theorem ofLexeme_fixed : ∀ p ∈ operators ++ reservedWords, Kind.ofLexeme p.1 = p.2 := by
  decide +kernel

private theorem ofLexeme_identifier {c : Char} {cs : List Char} (start : Scan.isWordStart c)
    (unreserved : String.ofList (c :: cs) ∉ reservedWords.map Prod.fst) :
    Kind.ofLexeme (String.ofList (c :: cs)) = .identifier := by
  have none : (operators ++ reservedWords).lookup (String.ofList (c :: cs)) = none := by
    rw [List.lookup_eq_none_iff]
    intro p member
    refine bne_iff_ne.mpr fun same => ?_
    rcases List.mem_append.mp member with operator | reserved
    · have marks : ∀ p ∈ operators, ¬ p.1.toList.head?.any Scan.isWordStart := by decide
      refine marks p operator ?_
      rw [← same, String.toList_ofList]
      exact start
    · exact unreserved (same ▸ List.mem_map_of_mem reserved)
  rw [Kind.ofLexeme, none]
  rfl

namespace Token.Reads

variable {t : Token} {kinds : List Kind}

private theorem ofLexeme (h : t.Reads kinds) (apart : ∀ k ∈ [.string, .number], k ∉ kinds) :
    Token.ofLexeme t.lexeme.toList = t.reline oneLine := by
  obtain ⟨member, lexeme⟩ := h
  suffices kind : Kind.ofLexeme (String.ofList t.lexeme.toList) = t.kind by
    rw [Token.ofLexeme, kind, String.ofList_toList]
    rfl
  generalize t.lexeme.toList = cs at lexeme
  generalize t.kind = kind at member lexeme
  cases lexeme with
  | operator entry =>
    rw [String.ofList_toList]
    exact ofLexeme_fixed _ (List.mem_append_left _ entry)
  | keyword entry =>
    rw [String.ofList_toList]
    exact ofLexeme_fixed _ (List.mem_append_right _ entry)
  | identifier start _ unreserved => exact ofLexeme_identifier start unreserved
  | string => exact absurd member (apart _ (by decide))
  | whole | fraction => exact absurd member (apart _ (by decide))

private theorem entry (h : t.Reads kinds)
    (apart : ∀ k ∈ [.string, .number, .identifier], k ∉ kinds) :
    (t.lexeme, t.kind) ∈ operators ++ reservedWords := by
  obtain ⟨member, lexeme⟩ := h
  suffices entry : (String.ofList t.lexeme.toList, t.kind) ∈ operators ++ reservedWords by
    rwa [String.ofList_toList] at entry
  generalize t.lexeme.toList = cs at lexeme
  generalize t.kind = kind at member lexeme
  cases lexeme with
  | operator entry =>
    rw [String.ofList_toList]
    exact List.mem_append_left _ entry
  | keyword entry =>
    rw [String.ofList_toList]
    exact List.mem_append_right _ entry
  | string | whole | fraction | identifier => exact absurd member (apart _ (by decide))

private theorem name (h : t.Reads [.identifier]) :
    Phrase.IsWord t.lexeme.toList ∧ ¬ Number.beginsNumber t.lexeme.toList ∧
      Kind.ofLexeme t.lexeme = .identifier := by
  obtain ⟨member, lexeme⟩ := h
  rw [List.mem_singleton.mp member] at lexeme
  suffices facts : Phrase.IsWord t.lexeme.toList ∧ ¬ Number.beginsNumber t.lexeme.toList ∧
      Kind.ofLexeme (String.ofList t.lexeme.toList) = .identifier by
    rwa [String.ofList_toList] at facts
  generalize t.lexeme.toList = cs at lexeme
  cases lexeme with
  | operator entry =>
    have marks : ∀ p ∈ operators, p.2 ≠ .identifier := by decide
    exact absurd rfl (marks _ entry)
  | keyword entry =>
    have words : ∀ p ∈ reservedWords, p.2 ≠ .identifier := by decide
    exact absurd rfl (words _ entry)
  | @identifier c cs start parts unreserved =>
    have inWord {d : Char} (part : Scan.isWordPart d) : Phrase.inWord d := by
      have ne {c : Char} (other : ¬ Scan.isWordPart c) : d ≠ c := fun same => other (same ▸ part)
      simp [Phrase.inWord, ne (c := ' ') (by decide), ne (c := '(') (by decide),
        ne (c := ')') (by decide)]
    have not_digit : ¬ c.isDigit := by
      intro digit
      have munched := (munch_word start []).symm.trans (munch_digit digit [])
      simp at munched
    have not_sign : c ≠ '-' := fun same => absurd (same ▸ start) (by decide)
    refine ⟨⟨List.cons_ne_nil _ _, List.forall_mem_cons.mpr
      ⟨inWord (by simp [Scan.isWordPart, start]), fun d member => inWord (parts d member)⟩⟩, ?_,
      ofLexeme_identifier start unreserved⟩
    simp [Number.beginsNumber, not_digit, not_sign]

private theorem operator (h : t.Reads kinds)
    (sub : kinds ⊆ unaryKinds ++ binaryKinds ++ logicalKinds) :
    Phrase.IsWord t.lexeme.toList ∧
      t.lexeme.toList ∉ ["call", "group", "super", "=", "."].map String.toList ∧
      Kind.ofLexeme t.lexeme = t.kind := by
  have apart : ∀ k ∈ [.string, .number, .identifier],
      k ∉ unaryKinds ++ binaryKinds ++ logicalKinds := by decide
  have entry := h.entry fun k member inside => apart k member (sub inside)
  have heads : ∀ p ∈ operators ++ reservedWords, p.2 ∈ unaryKinds ++ binaryKinds ++ logicalKinds →
      (p.1.toList ≠ [] ∧ p.1.toList.all Phrase.inWord) ∧
        p.1.toList ∉ ["call", "group", "super", "=", "."].map String.toList := by decide +kernel
  obtain ⟨⟨some, all⟩, other⟩ := heads _ entry (sub h.1)
  exact ⟨⟨some, List.all_eq_true.mp all⟩, other, ofLexeme_fixed _ entry⟩

end Token.Reads

mutual

/-- The constants in an expression. -/
def Expr.literals : Expr → List Literal
  | .literal value => [value]
  | .grouping inner => inner.literals
  | .unary _ operand => operand.literals
  | .binary _ left right | .logical _ left right => left.literals ++ right.literals
  | .variable _ _ | .this _ _ | .super _ _ _ => []
  | .assign _ _ value => value.literals
  | .call callee _ arguments => callee.literals ++ Expr.literalsAll arguments
  | .get object _ => object.literals
  | .set object _ value => object.literals ++ value.literals

def Expr.literalsAll : List Expr → List Literal
  | [] => []
  | e :: es => e.literals ++ Expr.literalsAll es

end

private theorem Phrase.isWord_fixed :
    ∀ text ∈ ["group", "=", "call", ".", ".=", "super", "this", "true", "false", "nil"],
      IsWord text.toList := by
  have each : ∀ text ∈ ["group", "=", "call", ".", ".=", "super", "this", "true", "false", "nil"],
      text.toList ≠ [] ∧ text.toList.all inWord := by decide +kernel
  exact fun text member => (each text member).imp_right List.all_eq_true.mp

def Literal.Told (value : List Char → Float) : Literal → Prop
  | .number x => Number.IsFinite x ∧ value (Number.pointed x).toList = x
  | .string _ => False
  | .bool _ | .nil => True

section

variable {value : List Char → Float}

private theorem Literal.Told.isWord {l : Literal} (h : l.Told value) :
    Phrase.IsWord l.bracketed.toList := by
  cases l with
  | number x => exact (Number.pointed_word h.1).1
  | string s => exact h.elim
  | bool b =>
    cases b with
    | true => exact Phrase.isWord_fixed "true" (by simp)
    | false => exact Phrase.isWord_fixed "false" (by simp)
  | nil => exact Phrase.isWord_fixed "nil" (by simp)

private theorem Literal.Told.ofWord {l : Literal} (h : l.Told value) :
    Expr.ofWord value l.bracketed.toList = .literal l := by
  cases l with
  | number x =>
    rw [Expr.ofWord, Literal.bracketed, if_pos (Number.pointed_word h.1).2, h.2]
  | string s => exact h.elim
  | bool b => cases b <;> rfl
  | nil => rfl

mutual

private theorem Expr.proper_phrase : ∀ {e : Expr}, e.Legible → (∀ l ∈ e.literals, l.Told value) →
    e.phrase.Proper
  | .literal l, _, told => (told l List.mem_cons_self).isWord
  | .grouping _, legible, told =>
    ⟨Phrase.isWord_fixed _ (by simp), Expr.proper_phrase legible told, trivial⟩
  | .unary _ _, legible, told =>
    ⟨(legible.1.operator (by decide)).1, Expr.proper_phrase legible.2 told, trivial⟩
  | .binary _ _ _, legible, told =>
    have ⟨left, right⟩ := List.forall_mem_append.mp told
    ⟨(legible.1.operator (by decide)).1, Expr.proper_phrase legible.2.1 left,
      Expr.proper_phrase legible.2.2 right, trivial⟩
  | .logical _ _ _, legible, told =>
    have ⟨left, right⟩ := List.forall_mem_append.mp told
    ⟨(legible.1.operator (by decide)).1, Expr.proper_phrase legible.2.1 left,
      Expr.proper_phrase legible.2.2 right, trivial⟩
  | .variable _ _, legible, _ => legible.name.1
  | .assign _ _ _, legible, told =>
    ⟨Phrase.isWord_fixed _ (by simp), legible.1.name.1, Expr.proper_phrase legible.2 told, trivial⟩
  | .call _ _ _, legible, told =>
    have ⟨callee, arguments⟩ := List.forall_mem_append.mp told
    ⟨Phrase.isWord_fixed _ (by simp), Expr.proper_phrase legible.2.1 callee,
      Expr.proper_phraseAll legible.2.2 arguments⟩
  | .get _ _, legible, told =>
    ⟨Phrase.isWord_fixed _ (by simp), Expr.proper_phrase legible.2 told, legible.1.name.1, trivial⟩
  | .set _ _ _, legible, told =>
    have ⟨object, assigned⟩ := List.forall_mem_append.mp told
    ⟨Phrase.isWord_fixed _ (by simp), Expr.proper_phrase legible.2.1 object, legible.1.name.1,
      Expr.proper_phrase legible.2.2 assigned, trivial⟩
  | .this _ _, _, _ => Phrase.isWord_fixed "this" (by simp)
  | .super _ _ _, legible, _ => ⟨Phrase.isWord_fixed _ (by simp), legible.2.name.1, trivial⟩

private theorem Expr.proper_phraseAll : ∀ {es : List Expr}, Expr.LegibleAll es →
    (∀ l ∈ Expr.literalsAll es, l.Told value) → Phrase.ProperAll (Expr.phraseAll es)
  | [], _, _ => trivial
  | _ :: _, legible, told =>
    have ⟨first, others⟩ := List.forall_mem_append.mp told
    ⟨Expr.proper_phrase legible.1 first, Expr.proper_phraseAll legible.2 others⟩

end

private theorem Token.Reads.token_word {t : Token} {kinds : List Kind} (h : t.Reads kinds)
    (apart : ∀ k ∈ [.string, .number], k ∉ kinds) : t.word.token = t.reline oneLine :=
  h.ofLexeme apart

mutual

private theorem Expr.tree_phrase : ∀ {e : Expr}, e.Legible → (∀ l ∈ e.literals, l.Told value) →
    e.phrase.tree value = (e.reline oneLine).renumber fun _ => 0
  | .literal l, _, told => (told l List.mem_cons_self).ofWord
  | .grouping inner, legible, told => by
    have part := Expr.tree_phrase (e := inner) legible told
    simp [Expr.phrase, Phrase.tree, Phrase.treeAll, Phrase.node, part, Expr.reline, Expr.renumber]
  | .unary operator operand, legible, told => by
    have part := Expr.tree_phrase legible.2 told
    obtain ⟨_, head, _⟩ := legible.1.operator (by decide)
    have token := legible.1.ofLexeme (by decide)
    rw [Expr.phrase, Phrase.tree, Phrase.treeAll, Phrase.treeAll,
      (Phrase.node_operator head operand.phrase operand.phrase _ (.literal .nil)).1, part, token]
    rfl
  | .binary operator left right, legible, told => by
    have ⟨inLeft, inRight⟩ := List.forall_mem_append.mp told
    have part := Expr.tree_phrase legible.2.1 inLeft
    have part' := Expr.tree_phrase legible.2.2 inRight
    obtain ⟨_, head, kind⟩ := legible.1.operator (by decide)
    have token := legible.1.ofLexeme (by decide)
    have other : operator.kind ∉ logicalKinds := by
      have apart : ∀ k ∈ binaryKinds, k ∉ logicalKinds := by decide
      exact apart _ legible.1.1
    rw [Expr.phrase, Phrase.tree, Phrase.treeAll, Phrase.treeAll, Phrase.treeAll,
      (Phrase.node_operator head left.phrase right.phrase _ _).2, String.ofList_toList, kind,
      if_neg other, part, part', token]
    rfl
  | .logical operator left right, legible, told => by
    have ⟨inLeft, inRight⟩ := List.forall_mem_append.mp told
    have part := Expr.tree_phrase legible.2.1 inLeft
    have part' := Expr.tree_phrase legible.2.2 inRight
    obtain ⟨_, head, kind⟩ := legible.1.operator (by decide)
    have token := legible.1.ofLexeme (by decide)
    rw [Expr.phrase, Phrase.tree, Phrase.treeAll, Phrase.treeAll, Phrase.treeAll,
      (Phrase.node_operator head left.phrase right.phrase _ _).2, String.ofList_toList, kind,
      if_pos legible.1.1, part, part', token]
    rfl
  | .variable id name, legible, _ => by
    obtain ⟨_, other, kind⟩ := legible.name
    have token := legible.ofLexeme (by decide)
    simp [Expr.phrase, Token.word, Phrase.tree, Expr.ofWord, other, kind, token, Expr.reline,
      Expr.renumber]
  | .assign id name e, legible, told => by
    have part := Expr.tree_phrase legible.2 told
    have token := legible.1.token_word (by decide)
    simp [Expr.phrase, Phrase.tree, Phrase.treeAll, Phrase.node, part, token, Expr.reline,
      Expr.renumber]
  | .call callee paren arguments, legible, told => by
    have ⟨inCallee, inArguments⟩ := List.forall_mem_append.mp told
    have part := Expr.tree_phrase legible.2.1 inCallee
    have parts := Expr.treeAll_phraseAll legible.2.2 inArguments
    have token := legible.1.ofLexeme (by decide)
    have text : paren.lexeme.toList = [')'] := by
      have closing : ∀ p ∈ operators ++ reservedWords, p.2 = .rightParen → p.1.toList = [')'] := by
        decide
      exact closing _ (legible.1.entry (by decide)) (List.mem_singleton.mp legible.1.1)
    rw [text] at token
    simp [Expr.phrase, Phrase.tree, Phrase.treeAll, Phrase.node, part, parts, token, Expr.reline,
      Expr.renumber]
  | .get object name, legible, told => by
    have part := Expr.tree_phrase legible.2 told
    have token := legible.1.token_word (by decide)
    simp [Expr.phrase, Phrase.tree, Phrase.treeAll, Phrase.node, part, token, Expr.reline,
      Expr.renumber]
  | .set object name e, legible, told => by
    have ⟨inObject, inValue⟩ := List.forall_mem_append.mp told
    have part := Expr.tree_phrase legible.2.1 inObject
    have part' := Expr.tree_phrase legible.2.2 inValue
    have token := legible.1.token_word (by decide)
    simp [Expr.phrase, Phrase.tree, Phrase.treeAll, Phrase.node, part, part', token, Expr.reline,
      Expr.renumber]
  | .this id keyword, legible, _ => by
    have text : keyword.lexeme.toList = "this".toList := by
      have spelled : ∀ p ∈ operators ++ reservedWords, p.2 = .thisWord →
          p.1.toList = "this".toList := by decide
      exact spelled _ (legible.entry (by decide)) (List.mem_singleton.mp legible.1)
    have token := legible.ofLexeme (by decide)
    rw [text] at token
    rw [Expr.phrase, Phrase.tree, Expr.reline, Expr.renumber, ← token]
    rfl
  | .super id keyword method, legible, _ => by
    have text : keyword.lexeme.toList = "super".toList := by
      have spelled : ∀ p ∈ operators ++ reservedWords, p.2 = .superWord →
          p.1.toList = "super".toList := by decide
      exact spelled _ (legible.1.entry (by decide)) (List.mem_singleton.mp legible.1.1)
    have token := legible.1.ofLexeme (by decide)
    have name := legible.2.token_word (by decide)
    rw [text] at token
    simpa [Expr.phrase, Phrase.tree, Phrase.treeAll, Phrase.node, name, Expr.reline,
      Expr.renumber] using token

private theorem Expr.treeAll_phraseAll : ∀ {es : List Expr}, Expr.LegibleAll es →
    (∀ l ∈ Expr.literalsAll es, l.Told value) →
    Phrase.treeAll value (Expr.phraseAll es) =
      Expr.renumberAll (fun _ => 0) (Expr.relineAll oneLine es)
  | [], _, _ => rfl
  | e :: es, legible, told => by
    have ⟨first, others⟩ := List.forall_mem_append.mp told
    rw [Expr.phraseAll, Phrase.treeAll, Expr.tree_phrase legible.1 first,
      Expr.treeAll_phraseAll legible.2 others]
    rfl

end

end

private theorem readExpression_legible {labels : Labels} {source : String} {e : Expr}
    (read : (readExpression labels source).result = .ok e) : e.Legible := by
  have parsed := congrArg Parsed.result (readExpression_ok read).2
  exact (parseExpression_sound parsed).1.legible (scan_lexemes source)

/-- Two expressions that parse are the same tree, but for numbers and lines, if their bracketed
texts are the same: neither may contain a string, their numbers are finite, and the texts of
numbers tell these apart. -/
theorem bracketed_unambiguous {labels labels' : Labels} {source source' : String} {e e' : Expr}
    (read : (readExpression labels source).result = .ok e)
    (read' : (readExpression labels' source').result = .ok e')
    (no_string : ∀ s, Literal.string s ∉ e.literals ++ e'.literals)
    (finite : ∀ x, Literal.number x ∈ e.literals ++ e'.literals → Number.IsFinite x)
    (apart : ∀ x y, Literal.number x ∈ e.literals ++ e'.literals →
      Literal.number y ∈ e.literals ++ e'.literals → Number.pointed x = Number.pointed y → x = y)
    (same : e.bracketed = e'.bracketed) :
    erased (e.reline oneLine) = erased (e'.reline oneLine) := by
  classical
  let value (cs : List Char) : Float :=
    if found : ∃ x, Literal.number x ∈ e.literals ++ e'.literals ∧ (Number.pointed x).toList = cs
    then found.choose else 0.0
  have told : ∀ l ∈ e.literals ++ e'.literals, l.Told value := by
    intro l member
    cases l with
    | number x =>
      have found : ∃ y, Literal.number y ∈ e.literals ++ e'.literals ∧
          (Number.pointed y).toList = (Number.pointed x).toList := ⟨x, member, rfl⟩
      refine ⟨finite x member, ?_⟩
      obtain ⟨member', text⟩ := found.choose_spec
      rw [show value (Number.pointed x).toList = found.choose from dif_pos found]
      exact apart _ _ member' member (String.toList_inj.mp text)
    | string s => exact no_string s member
    | bool b => trivial
    | nil => trivial
  obtain ⟨toldLeft, toldRight⟩ := List.forall_mem_append.mp told
  have legible := readExpression_legible read
  have legible' := readExpression_legible read'
  have phrases : e.phrase = e'.phrase := by
    refine Phrase.chars_injective (Expr.proper_phrase legible toldLeft)
      (Expr.proper_phrase legible' toldRight) ?_
    rw [← e.toList_bracketed, ← e'.toList_bracketed, same]
  calc erased (e.reline oneLine)
    _ = e.phrase.tree value := (Expr.tree_phrase legible toldLeft).symm
    _ = e'.phrase.tree value := by rw [phrases]
    _ = erased (e'.reline oneLine) := Expr.tree_phrase legible' toldRight

/-- One expression laid out and numbered in two ways, its numerals spelled in two ways. -/
theorem respelled_expression_same :
    let read := readExpression ⟨0, 0⟩ "a.b(-1.5, x = 2) and !this.c"
    let read' := readExpression ⟨7, 3⟩ "a . b ( - 01.50 ,\nx = 2.0 )\nand ! this . c"
    ∃ e e', read.result = .ok e ∧ read'.result = .ok e' ∧ e.bracketed = e'.bracketed ∧
      erased (e.reline oneLine) = erased (e'.reline oneLine) := by
  intro read read'
  have literals : read.result.toOption.map Expr.literals = some [.number 1.5, .number 2.0] := by
    decide +kernel
  have literals' : read'.result.toOption.map Expr.literals = some [.number 1.5, .number 2.0] := by
    decide +kernel
  have texts : read.result.toOption.map Expr.bracketed =
      read'.result.toOption.map Expr.bracketed := by decide +kernel
  cases ok : read.result with
  | error _ => simp [ok, Except.toOption] at literals
  | ok e =>
    cases ok' : read'.result with
    | error _ => simp [ok', Except.toOption] at literals'
    | ok e' =>
      simp only [ok, ok', Except.toOption, Option.map_some, Option.some.injEq]
        at literals literals' texts
      have numbers : ∀ x, Literal.number x ∈ e.literals ++ e'.literals → x = 1.5 ∨ x = 2.0 := by
        intro x member
        rw [literals, literals'] at member
        simpa [or_assoc, or_comm, or_left_comm] using member
      have apart : Number.pointed 1.5 ≠ Number.pointed 2.0 := by decide +kernel
      refine ⟨e, e', rfl, rfl, texts, bracketed_unambiguous ok ok' ?_ ?_ ?_ texts⟩
      · simp [literals, literals']
      · intro x member
        rcases numbers x member with rfl | rfl <;> decide +kernel
      · intro x y member member' text
        rcases numbers x member with rfl | rfl <;> rcases numbers y member' with rfl | rfl
        · rfl
        · exact absurd text apart
        · exact absurd text.symm apart
        · rfl

end LoxLang
