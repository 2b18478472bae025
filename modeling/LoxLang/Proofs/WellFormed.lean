import LoxLang.Proofs.GrammarShape

/-!
What the grammar and the scanner say of the trees of programs, beyond their types: names are words
that are not reserved, keywords are spelled as such, a superclass is named, and what a branch or a
loop executes is no declaration.
-/

set_option autoImplicit false
set_option relaxedAutoImplicit false

namespace LoxLang

structure Token.Spelled (t : Token) : Prop where
  name : t.kind = .identifier → Kind.ofWord t.lexeme = .identifier
  this : t.kind = .thisWord → t.lexeme = "this"
  super : t.kind = .superWord → t.lexeme = "super"

/-- A token whose text can be the name of a variable. -/
def Token.IsName (t : Token) : Prop := Kind.ofWord t.lexeme = .identifier

theorem Token.IsName.ne_this {t : Token} (h : t.IsName) : t.lexeme ≠ "this" := by
  intro same
  rw [Token.IsName, same] at h
  revert h
  decide

theorem Token.IsName.ne_super {t : Token} (h : t.IsName) : t.lexeme ≠ "super" := by
  intro same
  rw [Token.IsName, same] at h
  revert h
  decide

mutual

/-- An expression in which names and keywords are spelled as such. -/
def Expr.WellFormed : Expr → Prop
  | .literal _ => True
  | .grouping inner => inner.WellFormed
  | .unary _ operand => operand.WellFormed
  | .binary _ left right | .logical _ left right => left.WellFormed ∧ right.WellFormed
  | .variable _ name => name.IsName
  | .assign _ name value => name.IsName ∧ value.WellFormed
  | .call callee _ args => callee.WellFormed ∧ Expr.WellFormedAll args
  | .get object _ => object.WellFormed
  | .set object _ value => object.WellFormed ∧ value.WellFormed
  | .this _ keyword => keyword.lexeme = "this"
  | .super _ keyword _ => keyword.lexeme = "super"

def Expr.WellFormedAll : List Expr → Prop
  | [] => True
  | e :: es => e.WellFormed ∧ Expr.WellFormedAll es

end

def Expr.WellFormedOption : Option Expr → Prop
  | none => True
  | some e => e.WellFormed

/-- Whether a statement is no declaration. -/
def Stmt.declaresNothing : Stmt → Bool
  | .var _ _ | .function _ | .classDecl _ _ _ => false
  | _ => true

mutual

def Stmt.WellFormed : Stmt → Prop
  | .expression e | .print e => e.WellFormed
  | .var name initializer => name.IsName ∧ Expr.WellFormedOption initializer
  | .block body => Stmt.WellFormedAll body
  | .branch condition thenBranch elseBranch =>
    condition.WellFormed ∧ (thenBranch.WellFormed ∧ thenBranch.declaresNothing) ∧
      Stmt.WellFormedOption elseBranch
  | .loop condition body => condition.WellFormed ∧ body.WellFormed ∧ body.declaresNothing
  | .function decl => decl.WellFormed
  | .ret _ value => Expr.WellFormedOption value
  | .classDecl name superclass methods =>
    name.IsName ∧ (∀ e ∈ superclass, e.WellFormed ∧ ∃ id superName, e = .variable id superName) ∧
      FunctionDecl.WellFormedAll methods

def Stmt.WellFormedOption : Option Stmt → Prop
  | none => True
  | some s => s.WellFormed ∧ s.declaresNothing

def Stmt.WellFormedAll : List Stmt → Prop
  | [] => True
  | s :: ss => s.WellFormed ∧ Stmt.WellFormedAll ss

def FunctionDecl.WellFormed : FunctionDecl → Prop
  | .mk _ name params body =>
    name.IsName ∧ (∀ p ∈ params, p.IsName) ∧ Stmt.WellFormedAll body

def FunctionDecl.WellFormedAll : List FunctionDecl → Prop
  | [] => True
  | decl :: decls => decl.WellFormed ∧ FunctionDecl.WellFormedAll decls

end

namespace Grammar

def AllSpelled (ts : List Token) : Prop := ∀ t ∈ ts, t.Spelled

namespace AllSpelled

variable {t : Token} {ts rest : List Token}

private theorem head (h : AllSpelled (t :: ts)) : t.Spelled := h t List.mem_cons_self

private theorem tail (h : AllSpelled (t :: ts)) : AllSpelled ts :=
  fun t' ht => h t' (List.mem_cons_of_mem t ht)

private theorem behind (h : AllSpelled ts) (suffix : rest <:+ ts) : AllSpelled rest :=
  fun t ht => h t (suffix.subset ht)

end AllSpelled

private theorem wellFormed_node (tier : Tier) (operator : Token) {left right : Expr}
    (h : left.WellFormed) (h' : right.WellFormed) : (tier.node operator left right).WellFormed := by
  cases tier <;> exact ⟨h, h'⟩

mutual

private theorem Expression.wellFormed : ∀
    {ts e rest}, Expression ts e rest → AllSpelled ts → e.WellFormed
  | _, _, _, .assign isName _ value, h =>
    ⟨h.head.name isName, value.wellFormed h.tail.tail⟩
  | _, _, _, .set object _ _ _ value, h =>
    ⟨object.wellFormed h, value.wellFormed (h.behind object.behind.1).tail.tail.tail⟩
  | _, _, _, .operation operation, h => operation.wellFormed h

private theorem Operation.wellFormed : ∀ {tiers ts e rest},
    Operation tiers ts e rest → AllSpelled ts → e.WellFormed
  | _, _, _, _, .unary unary, h => unary.wellFormed h
  | _, _, _, _, .level first chain, h =>
    chain.wellFormed (h.behind first.behind.1) (first.wellFormed h)

private theorem Chain.wellFormed : ∀ {tier tighter left ts e rest},
    Chain tier tighter left ts e rest → AllSpelled ts → left.WellFormed → e.WellFormed
  | _, _, _, _, _, _, .done, _, h' => h'
  | tier, _, _, _, _, _, .step _ right chain, h, h' =>
    chain.wellFormed (h.tail.behind right.behind.1)
      (wellFormed_node tier _ h' (right.wellFormed h.tail))

private theorem Unary.wellFormed : ∀ {ts e rest}, Unary ts e rest → AllSpelled ts → e.WellFormed
  | _, _, _, .operator _ operand, h => operand.wellFormed h.tail
  | _, _, _, .call call, h => call.wellFormed h

private theorem Call.wellFormed : ∀ {ts e rest}, Call ts e rest → AllSpelled ts → e.WellFormed
  | _, _, _, .intro primary suffixes, h =>
    suffixes.wellFormed (h.behind primary.behind.1) (primary.wellFormed h)

private theorem Suffixes.wellFormed : ∀ {e ts e' rest},
    Suffixes e ts e' rest → AllSpelled ts → e.WellFormed → e'.WellFormed
  | _, _, _, _, .done, _, h' => h'
  | _, _, _, _, .call _ args _ _ suffixes, h, h' =>
    suffixes.wellFormed (h.tail.behind args.suffix).tail ⟨h', args.wellFormed h.tail⟩
  | _, _, _, _, .property _ _ suffixes, h, h' => suffixes.wellFormed h.tail.tail h'

private theorem Arguments.wellFormed : ∀ {ts args rest},
    Arguments ts args rest → AllSpelled ts → Expr.WellFormedAll args
  | _, _, _, .none, _ => trivial
  | _, _, _, .some args, h => args.wellFormed h

private theorem ArgumentList.wellFormed : ∀ {ts args rest},
    ArgumentList ts args rest → AllSpelled ts → Expr.WellFormedAll args
  | _, _, _, .one e, h => ⟨e.wellFormed h, trivial⟩
  | _, _, _, .more e _ args, h =>
    ⟨e.wellFormed h, args.wellFormed (h.behind e.behind.1).tail⟩

private theorem Primary.wellFormed : ∀ {ts e rest}, Primary ts e rest → AllSpelled ts → e.WellFormed
  | _, _, _, .number _, _ | _, _, _, .string _, _ | _, _, _, .trueWord _, _
  | _, _, _, .falseWord _, _ | _, _, _, .nilWord _, _ => trivial
  | _, _, _, .this isThis, h => h.head.this isThis
  | _, _, _, .name isName, h => h.head.name isName
  | _, _, _, .grouping _ inner _, h => inner.wellFormed h.tail
  | _, _, _, .super isSuper _ _, h => h.head.super isSuper

end

private theorem OptionalExpression.wellFormed {ts rest : List Token} {e : Option Expr}
    (d : OptionalExpression ts e rest) (h : AllSpelled ts) : Expr.WellFormedOption e := by
  cases d with
  | none => trivial
  | some e => exact e.wellFormed h

private theorem ExpressionStatement.wellFormed {ts rest : List Token} {s : Stmt}
    (d : ExpressionStatement ts s rest) (h : AllSpelled ts) :
    s.WellFormed ∧ s.declaresNothing := by
  cases d with
  | intro e _ => exact ⟨e.wellFormed h, rfl⟩

private theorem VarDeclaration.wellFormed {ts rest : List Token} {s : Stmt}
    (d : VarDeclaration ts s rest) (h : AllSpelled ts) : s.WellFormed := by
  cases d with
  | bare _ isName _ => exact ⟨h.tail.head.name isName, trivial⟩
  | initialized _ isName _ e _ =>
    exact ⟨h.tail.head.name isName, e.wellFormed h.tail.tail.tail⟩

private theorem ForInitializer.wellFormed {ts rest : List Token} {s : Option Stmt}
    (d : ForInitializer ts s rest) (h : AllSpelled ts) : ∀ s' ∈ s, s'.WellFormed := by
  cases d with
  | none _ => simp
  | var d =>
    intro s' hs
    obtain rfl := Option.mem_some_iff.mp hs
    exact d.wellFormed h
  | expression d =>
    intro s' hs
    obtain rfl := Option.mem_some_iff.mp hs
    exact (d.wellFormed h).1

private theorem wellFormed_forTree {initializer : Option Stmt} {condition increment : Option Expr}
    {body : Stmt} (hi : ∀ s ∈ initializer, s.WellFormed) (hc : Expr.WellFormedOption condition)
    (he : Expr.WellFormedOption increment) (hb : body.WellFormed ∧ body.declaresNothing) :
    (forTree initializer condition increment body).WellFormed ∧
      (forTree initializer condition increment body).declaresNothing := by
  have inner : (forBody increment body).WellFormed ∧ (forBody increment body).declaresNothing := by
    cases increment with
    | none => exact hb
    | some e => exact ⟨⟨hb.1, he, trivial⟩, rfl⟩
  have test : (condition.getD (.literal (.bool true))).WellFormed := by
    cases condition with
    | none => trivial
    | some e => exact hc
  cases initializer with
  | none => exact ⟨⟨test, inner⟩, rfl⟩
  | some s => exact ⟨⟨hi s rfl, ⟨test, inner⟩, trivial⟩, rfl⟩

private theorem ParameterList.names {ts params rest : List Token} (d : ParameterList ts params rest)
    (h : AllSpelled ts) : ∀ p ∈ params, p.IsName := by
  induction d with
  | one isName =>
    intro p hp
    obtain rfl := List.mem_singleton.mp hp
    exact h.head.name isName
  | more isName _ _ ih =>
    intro p hp
    rcases List.mem_cons.mp hp with rfl | hp
    · exact h.head.name isName
    · exact ih h.tail.tail p hp

private theorem Parameters.names {ts params rest : List Token} (d : Parameters ts params rest)
    (h : AllSpelled ts) : ∀ p ∈ params, p.IsName := by
  cases d with
  | none => simp
  | some d => exact d.names h

variable {rule : ElseRule}

mutual

private theorem Statement.wellFormed : ∀ {dangling ts s rest}, Statement rule dangling ts s rest →
    AllSpelled ts → s.WellFormed ∧ s.declaresNothing
  | _, _, _, _, .expression d, h => d.wellFormed h
  | _, _, _, _, .print _ e _, h => ⟨e.wellFormed h.tail, rfl⟩
  | _, _, _, _, .ret _ e _, h => ⟨e.wellFormed h.tail, rfl⟩
  | _, _, _, _, .loop _ _ e _ body, h =>
    have inner := h.tail.tail
    ⟨⟨e.wellFormed inner, body.wellFormed (inner.behind e.behind.1).tail⟩, rfl⟩
  | _, _, _, _, .ifThen _ _ e _ thenBranch, h =>
    have inner := h.tail.tail
    ⟨⟨e.wellFormed inner, thenBranch.wellFormed (inner.behind e.behind.1).tail, trivial⟩, rfl⟩
  | _, _, _, _, .ifElse _ _ e _ thenBranch _ _ elseBranch, h =>
    have inner := h.tail.tail
    have behind := (inner.behind e.behind.1).tail
    ⟨⟨e.wellFormed inner, thenBranch.wellFormed behind,
      elseBranch.wellFormed (behind.behind thenBranch.behind.1).tail⟩, rfl⟩
  | _, _, _, _, .forLoop _ _ initializer condition _ increment _ body, h =>
    have inner := h.tail.tail
    have behind := inner.behind initializer.behind.1
    have behind' := (behind.behind condition.suffix).tail
    wellFormed_forTree (initializer.wellFormed inner) (condition.wellFormed behind)
      (increment.wellFormed behind') (body.wellFormed (behind'.behind increment.suffix).tail)
  | _, _, _, _, .block _ body _, h => ⟨body.wellFormed h.tail, rfl⟩

private theorem Declaration.wellFormed : ∀ {ts s rest}, Declaration rule ts s rest →
    AllSpelled ts → s.WellFormed
  | _, _, _, .classDecl _ isName _ methods _, h =>
    ⟨h.tail.head.name isName, by simp, methods.wellFormed h.tail.tail.tail⟩
  | _, _, _, .subclass _ isName _ isSuperName _ methods _, h =>
    have spelled := h.tail.tail.tail
    ⟨h.tail.head.name isName, by
      intro e he
      obtain rfl := Option.mem_some_iff.mp he
      exact ⟨spelled.head.name isSuperName, _, _, rfl⟩,
      methods.wellFormed spelled.tail.tail⟩
  | _, _, _, .function _ decl, h => decl.wellFormed h.tail
  | _, _, _, .var d, h => d.wellFormed h
  | _, _, _, .statement d, h => (d.wellFormed h).1

theorem Declarations.wellFormed : ∀ {ts ss rest}, Declarations rule ts ss rest →
    AllSpelled ts → Stmt.WellFormedAll ss
  | _, _, _, .nil, _ => trivial
  | _, _, _, .cons d ds, h => ⟨d.wellFormed h, ds.wellFormed (h.behind d.behind.1)⟩

private theorem Function.wellFormed : ∀ {ts decl rest}, Function rule ts decl rest →
    AllSpelled ts → decl.WellFormed
  | _, _, _, .intro isName _ params _ _ _ body _, h =>
    ⟨h.head.name isName, params.names h.tail.tail,
      body.wellFormed (h.tail.tail.behind params.suffix).tail.tail⟩

private theorem Methods.wellFormed : ∀ {ts decls rest}, Methods rule ts decls rest →
    AllSpelled ts → FunctionDecl.WellFormedAll decls
  | _, _, _, .nil, _ => trivial
  | _, _, _, .cons d ds, h => ⟨d.wellFormed h, ds.wellFormed (h.behind d.behind.1)⟩

end

end Grammar

private theorem Kind.ofWord_reserved {word : String} {kind : Kind} (h : Kind.ofWord word = kind)
    (reserved : kind ≠ .identifier) : (word, kind) ∈ reservedWords := by
  unfold Kind.ofWord at h
  cases found : reservedWords.lookup word with
  | none =>
    rw [found] at h
    exact absurd h.symm reserved
  | some k =>
    rw [found] at h
    obtain rfl := h
    obtain ⟨front, back, same, _⟩ := List.lookup_eq_some_iff.mp found
    rw [same]
    exact List.mem_append_right _ List.mem_cons_self

namespace Scan

private theorem munch_kind {c : Char} {cs : List Char} {kind : Kind}
    (h : (munch c cs).1 = .token kind) :
    kind ≠ .identifier ∧ kind ≠ .thisWord ∧ kind ≠ .superWord := by
  have operator : ∀ single double, (oneOrTwo cs single double).1 = .token kind →
      kind = double ∨ kind = single := by
    intro single double h
    unfold oneOrTwo at h
    split at h
    · exact .inl (Piece.token.inj h).symm
    · exact .inr (Piece.token.inj h).symm
  unfold munch at h
  split at h
  case h_11 | h_12 | h_13 | h_14 => rcases operator _ _ h with rfl | rfl <;> decide
  all_goals
    try dsimp only at h
    repeat' split at h
  all_goals first
    | (obtain rfl := Piece.token.inj h
       decide)
    | cases h

private theorem item_spelled {piece : Piece} {text : List Char} {line : Nat} {t : Token}
    (regular : ∀ kind, piece = .token kind →
      kind ≠ .identifier ∧ kind ≠ .thisWord ∧ kind ≠ .superWord)
    (h : piece.item? text line = some (.ok t)) : t.Spelled := by
  cases piece with
  | skipped => cases h
  | faulty fault => cases h
  | token kind =>
    obtain rfl := Except.ok.inj (Option.some.inj h)
    obtain ⟨name, this, super⟩ := regular kind rfl
    exact ⟨fun same => absurd same name, fun same => absurd same this,
      fun same => absurd same super⟩
  | word =>
    obtain rfl := Except.ok.inj (Option.some.inj h)
    refine ⟨id, fun same => ?_, fun same => ?_⟩
    · simpa [reservedWords] using Kind.ofWord_reserved same (by decide)
    · simpa [reservedWords] using Kind.ofWord_reserved same (by decide)

private theorem itemsFrom_spelled (line bound : Nat) (cs : List Char) :
    ∀ t, .ok t ∈ itemsFrom line bound cs → t.Spelled := by
  have mark : ∀ line, (Token.atEnd line).Spelled :=
    fun _ => ⟨by simp [Token.atEnd], by simp [Token.atEnd], by simp [Token.atEnd]⟩
  induction bound generalizing line cs with
  | zero =>
    intro t ht
    obtain rfl := Except.ok.inj (List.mem_singleton.mp ht)
    exact mark line
  | succ bound ih =>
    cases cs with
    | nil =>
      intro t ht
      obtain rfl := Except.ok.inj (List.mem_singleton.mp ht)
      exact mark line
    | cons c cs =>
      intro t ht
      rcases List.mem_append.mp ht with first | rest
      · exact item_spelled (fun kind same => munch_kind same) (Option.mem_toList.mp first)
      · exact ih _ _ t rest

end Scan

/-- The tokens of a text have texts that go with their kinds. -/
theorem scan_spelled (source : String) : Grammar.AllSpelled (scan source).tokens := by
  intro t ht
  obtain ⟨item, member, token⟩ := List.mem_filterMap.mp (List.dropLast_subset _ ht)
  cases item with
  | error e => cases token
  | ok t' =>
    obtain rfl := Option.some.inj token
    exact Scan.itemsFrom_spelled _ _ _ t' member

end LoxLang
