import LoxLang.Proofs.GrammarShape
import LoxLang.Proofs.RelaidTexts
import LoxLang.Proofs.StatementSound

/-!
The tokens in the tree of an expression are lexemes that can stand at their places: operators of
the right level, names, and the keywords for which the node stands.
-/

set_option autoImplicit false
set_option relaxedAutoImplicit false

namespace LoxLang

open Lexical

def Token.Reads (t : Token) (kinds : List Kind) : Prop :=
  t.kind ∈ kinds ∧ Lexeme t.lexeme.toList (some t.kind)

def unaryKinds : List Kind := [.bang, .minus]

def binaryKinds : List Kind :=
  [.bangEqual, .equalEqual, .greater, .greaterEqual, .less, .lessEqual, .minus, .plus, .slash,
    .star]

def logicalKinds : List Kind := [.andWord, .orWord]

mutual

def Expr.Legible : Expr → Prop
  | .literal _ => True
  | .grouping inner => inner.Legible
  | .unary operator operand => operator.Reads unaryKinds ∧ operand.Legible
  | .binary operator left right => operator.Reads binaryKinds ∧ left.Legible ∧ right.Legible
  | .logical operator left right => operator.Reads logicalKinds ∧ left.Legible ∧ right.Legible
  | .variable _ name => name.Reads [.identifier]
  | .assign _ name value => name.Reads [.identifier] ∧ value.Legible
  | .call callee paren arguments =>
    paren.Reads [.rightParen] ∧ callee.Legible ∧ Expr.LegibleAll arguments
  | .get object name => name.Reads [.identifier] ∧ object.Legible
  | .set object name value => name.Reads [.identifier] ∧ object.Legible ∧ value.Legible
  | .this _ keyword => keyword.Reads [.thisWord]
  | .super _ keyword method => keyword.Reads [.superWord] ∧ method.Reads [.identifier]

def Expr.LegibleAll : List Expr → Prop
  | [] => True
  | e :: es => e.Legible ∧ Expr.LegibleAll es

end

namespace Grammar

def AllLexemes (ts : List Token) : Prop := ∀ t ∈ ts, Lexeme t.lexeme.toList (some t.kind)

namespace AllLexemes

variable {t : Token} {ts rest : List Token}

private theorem head (h : AllLexemes (t :: ts)) {kinds : List Kind} (kind : t.kind ∈ kinds) :
    t.Reads kinds := ⟨kind, h t List.mem_cons_self⟩

private theorem tail (h : AllLexemes (t :: ts)) : AllLexemes ts :=
  fun t' ht => h t' (List.mem_cons_of_mem t ht)

private theorem behind (h : AllLexemes ts) (suffix : rest <:+ ts) : AllLexemes rest :=
  fun t ht => h t (suffix.subset ht)

end AllLexemes

private theorem legible_node {tier : Tier} {operator : Token} {left right : Expr}
    (kind : operator.kind ∈ tier.operators) (lexeme : Lexeme operator.lexeme.toList operator.kind)
    (h : left.Legible) (h' : right.Legible) : (tier.node operator left right).Legible := by
  have reads {kinds : List Kind} (sub : ∀ k ∈ tier.operators, k ∈ kinds) :
      operator.Reads kinds := ⟨sub _ kind, lexeme⟩
  cases tier <;> exact ⟨reads (by decide), h, h'⟩

mutual

theorem Expression.legible : ∀ {ts e rest}, Expression ts e rest → AllLexemes ts → e.Legible
  | _, _, _, .assign name _ value, h =>
    ⟨h.head (List.mem_singleton.mpr name), value.legible h.tail.tail⟩
  | _, _, _, .set object _ name _ value, h =>
    have behind := h.behind object.behind.1
    ⟨behind.tail.head (List.mem_singleton.mpr name), object.legible h,
      value.legible behind.tail.tail.tail⟩
  | _, _, _, .operation operation, h => operation.legible h

private theorem Operation.legible : ∀ {tiers ts e rest},
    Operation tiers ts e rest → AllLexemes ts → e.Legible
  | _, _, _, _, .unary unary, h => unary.legible h
  | _, _, _, _, .level first chain, h =>
    chain.legible (h.behind first.behind.1) (first.legible h)

private theorem Chain.legible : ∀ {tier tighter left ts e rest},
    Chain tier tighter left ts e rest → AllLexemes ts → left.Legible → e.Legible
  | _, _, _, _, _, _, .done, _, h' => h'
  | _, _, _, _, _, _, .step operator right chain, h, h' =>
    chain.legible (h.tail.behind right.behind.1)
      (legible_node operator (h.head operator).2 h' (right.legible h.tail))

private theorem Unary.legible : ∀ {ts e rest}, Unary ts e rest → AllLexemes ts → e.Legible
  | _, _, _, .operator kind operand, h =>
    ⟨h.head (by simpa [unaryKinds] using kind), operand.legible h.tail⟩
  | _, _, _, .call call, h => call.legible h

private theorem Call.legible : ∀ {ts e rest}, Call ts e rest → AllLexemes ts → e.Legible
  | _, _, _, .intro primary suffixes, h =>
    suffixes.legible (h.behind primary.behind.1) (primary.legible h)

private theorem Suffixes.legible : ∀ {e ts e' rest},
    Suffixes e ts e' rest → AllLexemes ts → e.Legible → e'.Legible
  | _, _, _, _, .done, _, h' => h'
  | _, _, _, _, .call _ args right _ suffixes, h, h' =>
    have behind := h.tail.behind args.suffix
    suffixes.legible behind.tail
      ⟨behind.head (List.mem_singleton.mpr right), h', args.legible h.tail⟩
  | _, _, _, _, .property _ name suffixes, h, h' =>
    suffixes.legible h.tail.tail ⟨h.tail.head (List.mem_singleton.mpr name), h'⟩

private theorem Arguments.legible : ∀ {ts args rest},
    Arguments ts args rest → AllLexemes ts → Expr.LegibleAll args
  | _, _, _, .none, _ => trivial
  | _, _, _, .some args, h => args.legible h

private theorem ArgumentList.legible : ∀ {ts args rest},
    ArgumentList ts args rest → AllLexemes ts → Expr.LegibleAll args
  | _, _, _, .one e, h => ⟨e.legible h, trivial⟩
  | _, _, _, .more e _ args, h => ⟨e.legible h, args.legible (h.behind e.behind.1).tail⟩

private theorem Primary.legible : ∀ {ts e rest}, Primary ts e rest → AllLexemes ts → e.Legible
  | _, _, _, .number _, _ | _, _, _, .string _, _ | _, _, _, .trueWord _, _
  | _, _, _, .falseWord _, _ | _, _, _, .nilWord _, _ => trivial
  | _, _, _, .this kind, h | _, _, _, .name kind, h => h.head (List.mem_singleton.mpr kind)
  | _, _, _, .grouping _ inner _, h => inner.legible h.tail
  | _, _, _, .super keyword _ method, h =>
    ⟨h.head (List.mem_singleton.mpr keyword), h.tail.tail.head (List.mem_singleton.mpr method)⟩

end

end Grammar

end LoxLang
