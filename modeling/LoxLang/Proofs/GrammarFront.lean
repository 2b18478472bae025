import LoxLang.Proofs.Grammar

/-!
The grammar looks at no token behind a piece.  What an expression takes from the front is an
expression before whatever else may follow, also before the end.
-/

set_option autoImplicit false
set_option relaxedAutoImplicit false

namespace LoxLang

namespace Grammar

mutual

theorem Expression.before : ∀ {ts e rest}, Expression ts e rest → ∀ rest',
    ∃ front, ts = front ++ rest ∧ Expression (front ++ rest') e rest'
  | _, _, _, .assign isName isEqual value, rest' => by
    obtain ⟨front, same, value'⟩ := value.before rest'
    exact ⟨_ :: _ :: front, by rw [same]; rfl, .assign isName isEqual value'⟩
  | _, _, _, @Expression.set _ _ dot name equals _ _ _ object isDot isName isEqual value, rest' => by
    obtain ⟨front, same, value'⟩ := value.before rest'
    obtain ⟨first, same', object'⟩ := object.before (dot :: name :: equals :: (front ++ rest'))
    exact ⟨first ++ dot :: name :: equals :: front, by simp [same', same],
      by simpa using Expression.set object' isDot isName isEqual value'⟩
  | _, _, _, .operation operation, rest' => by
    obtain ⟨front, same, operation'⟩ := operation.before rest'
    exact ⟨front, same, .operation operation'⟩

private theorem Operation.before : ∀ {tiers ts e rest}, Operation tiers ts e rest → ∀ rest',
    ∃ front, ts = front ++ rest ∧ Operation tiers (front ++ rest') e rest'
  | _, _, _, _, .unary unary, rest' => by
    obtain ⟨front, same, unary'⟩ := unary.before rest'
    exact ⟨front, same, .unary unary'⟩
  | _, _, _, _, .level left chain, rest' => by
    obtain ⟨front, same, chain'⟩ := chain.before rest'
    obtain ⟨first, same', left'⟩ := left.before (front ++ rest')
    exact ⟨first ++ front, by simp [same', same], by simpa using Operation.level left' chain'⟩

private theorem Chain.before : ∀ {tier tighter left ts e rest}, Chain tier tighter left ts e rest →
    ∀ rest', ∃ front, ts = front ++ rest ∧ Chain tier tighter left (front ++ rest') e rest'
  | _, _, _, _, _, _, .done, _ => ⟨[], rfl, .done⟩
  | _, _, _, _, _, _, @Chain.step _ _ _ _ _ operator _ _ _ isOperator right chain, rest' => by
    obtain ⟨front, same, chain'⟩ := chain.before rest'
    obtain ⟨first, same', right'⟩ := right.before (front ++ rest')
    exact ⟨operator :: (first ++ front), by simp [same', same],
      by simpa using Chain.step isOperator right' chain'⟩

private theorem Unary.before : ∀ {ts e rest}, Unary ts e rest → ∀ rest',
    ∃ front, ts = front ++ rest ∧ Unary (front ++ rest') e rest'
  | _, _, _, .operator isSign operand, rest' => by
    obtain ⟨front, same, operand'⟩ := operand.before rest'
    exact ⟨_ :: front, by rw [same]; rfl, .operator isSign operand'⟩
  | _, _, _, .call call, rest' => by
    obtain ⟨front, same, call'⟩ := call.before rest'
    exact ⟨front, same, .call call'⟩

private theorem Call.before : ∀ {ts e rest}, Call ts e rest → ∀ rest',
    ∃ front, ts = front ++ rest ∧ Call (front ++ rest') e rest'
  | _, _, _, .intro primary suffixes, rest' => by
    obtain ⟨front, same, suffixes'⟩ := suffixes.before rest'
    obtain ⟨first, same', primary'⟩ := primary.before (front ++ rest')
    exact ⟨first ++ front, by simp [same', same], by simpa using Call.intro primary' suffixes'⟩

private theorem Suffixes.before : ∀ {e ts e' rest}, Suffixes e ts e' rest → ∀ rest',
    ∃ front, ts = front ++ rest ∧ Suffixes e (front ++ rest') e' rest'
  | _, _, _, _, .done, _ => ⟨[], rfl, .done⟩
  | _, _, _, _, @Suffixes.call _ _ left right _ _ _ _ isLeft args isRight arity suffixes, rest' => by
    obtain ⟨front, same, suffixes'⟩ := suffixes.before rest'
    obtain ⟨first, same', args'⟩ := args.before (right :: (front ++ rest'))
    exact ⟨left :: (first ++ right :: front), by simp [same', same],
      by simpa using Suffixes.call isLeft args' isRight arity suffixes'⟩
  | _, _, _, _, .property isDot isName suffixes, rest' => by
    obtain ⟨front, same, suffixes'⟩ := suffixes.before rest'
    exact ⟨_ :: _ :: front, by rw [same]; rfl, .property isDot isName suffixes'⟩

private theorem Arguments.before : ∀ {ts args rest}, Arguments ts args rest → ∀ rest',
    ∃ front, ts = front ++ rest ∧ Arguments (front ++ rest') args rest'
  | _, _, _, .none, _ => ⟨[], rfl, .none⟩
  | _, _, _, .some args, rest' => by
    obtain ⟨front, same, args'⟩ := args.before rest'
    exact ⟨front, same, .some args'⟩

private theorem ArgumentList.before : ∀ {ts args rest}, ArgumentList ts args rest → ∀ rest',
    ∃ front, ts = front ++ rest ∧ ArgumentList (front ++ rest') args rest'
  | _, _, _, .one e, rest' => by
    obtain ⟨front, same, e'⟩ := e.before rest'
    exact ⟨front, same, .one e'⟩
  | _, _, _, @ArgumentList.more _ _ _ _ comma _ e isComma args, rest' => by
    obtain ⟨front, same, args'⟩ := args.before rest'
    obtain ⟨first, same', e'⟩ := e.before (comma :: (front ++ rest'))
    exact ⟨first ++ comma :: front, by simp [same', same],
      by simpa using ArgumentList.more e' isComma args'⟩

private theorem Primary.before : ∀ {ts e rest}, Primary ts e rest → ∀ rest',
    ∃ front, ts = front ++ rest ∧ Primary (front ++ rest') e rest'
  | _, _, _, .number isNumber, _ => ⟨[_], rfl, .number isNumber⟩
  | _, _, _, .string isString, _ => ⟨[_], rfl, .string isString⟩
  | _, _, _, .trueWord isWord, _ => ⟨[_], rfl, .trueWord isWord⟩
  | _, _, _, .falseWord isWord, _ => ⟨[_], rfl, .falseWord isWord⟩
  | _, _, _, .nilWord isWord, _ => ⟨[_], rfl, .nilWord isWord⟩
  | _, _, _, .this isWord, _ => ⟨[_], rfl, .this isWord⟩
  | _, _, _, .name isName, _ => ⟨[_], rfl, .name isName⟩
  | _, _, _, @Primary.grouping left right _ _ _ isLeft inner isRight, rest' => by
    obtain ⟨front, same, inner'⟩ := inner.before (right :: rest')
    exact ⟨left :: (front ++ [right]), by simp [same],
      by simpa using Primary.grouping isLeft inner' isRight⟩
  | _, _, _, .super isWord isDot isName, _ => ⟨[_, _, _], rfl, .super isWord isDot isName⟩

end

end Grammar

end LoxLang
