import LoxLang.Proofs.Grammar
import LoxLang.Proofs.LocalRenaming

/-!
The tokens of a program in which a local variable has a new name.  Some of the names among the
tokens of the program are replaced by the new one, and what is left is a program of the grammar.
-/

set_option autoImplicit false
set_option relaxedAutoImplicit false

namespace LoxLang

inductive TokenRenamed (N : NewName) : Token → Token → Prop where
  | same (t : Token) : TokenRenamed N t t
  | name {t : Token} :
      t.kind = .identifier → t.lexeme = N.old → TokenRenamed N t (t.rename N.new)

abbrev TokensRenamed (N : NewName) : List Token → List Token → Prop :=
  List.Forall₂ (TokenRenamed N)

private theorem NewName.give_kind (N : NewName) (marked : Bool) (name : Token) :
    (N.give marked name).kind = name.kind := by
  unfold NewName.give
  split <;> rfl

private theorem TokenRenamed.give {N : NewName} (marked : Bool) {name : Token}
    (isName : name.kind = .identifier) : TokenRenamed N name (N.give marked name) := by
  unfold NewName.give
  split
  · rename_i given
    exact .name isName given.2
  · exact .same name

namespace Grammar

variable {N : NewName} {D : Distances} {ts rest rest' : List Token}

section

variable {Γ : Marks}

private theorem renameLocal_node (tier : Tier) (operator : Token) (left right : Expr) :
    (tier.node operator left right).renameLocal N D Γ =
      tier.node operator (left.renameLocal N D Γ) (right.renameLocal N D Γ) := by
  cases tier <;> rfl

private theorem length_renameLocalAll (es : List Expr) :
    (Expr.renameLocalAll N D Γ es).length = es.length := by
  induction es with
  | nil => rfl
  | cons e es ih => exact congrArg (· + 1) ih

-- Derivations are rebuilt from the back, since each part ends where the renamed rest begins.
mutual

private theorem Expression.renameLocal : ∀ {ts e rest rest'}, Expression ts e rest →
    TokensRenamed N rest rest' →
    ∃ ts', TokensRenamed N ts ts' ∧ Expression ts' (e.renameLocal N D Γ) rest'
  | _, _, _, _, .assign isName equals value, h => by
    obtain ⟨_, same, value'⟩ := value.renameLocal h
    exact ⟨_, .cons (.give _ isName) (.cons (.same _) same),
      .assign ((N.give_kind _ _).trans isName) equals value'⟩
  | _, _, _, _, .set object dot isName equals value, h => by
    obtain ⟨_, same, value'⟩ := value.renameLocal h
    obtain ⟨_, front, object'⟩ :=
      object.renameLocal (.cons (.same _) (.cons (.same _) (.cons (.same _) same)))
    exact ⟨_, front, .set object' dot isName equals value'⟩
  | _, _, _, _, .operation operation, h => by
    obtain ⟨_, same, operation'⟩ := operation.renameLocal h
    exact ⟨_, same, .operation operation'⟩

private theorem Operation.renameLocal : ∀ {tiers ts e rest rest'}, Operation tiers ts e rest →
    TokensRenamed N rest rest' →
    ∃ ts', TokensRenamed N ts ts' ∧ Operation tiers ts' (e.renameLocal N D Γ) rest'
  | _, _, _, _, _, .unary unary, h => by
    obtain ⟨_, same, unary'⟩ := unary.renameLocal h
    exact ⟨_, same, .unary unary'⟩
  | _, _, _, _, _, .level first chain, h => by
    obtain ⟨_, same, chain'⟩ := chain.renameLocal h
    obtain ⟨_, front, first'⟩ := first.renameLocal same
    exact ⟨_, front, .level first' chain'⟩

private theorem Chain.renameLocal : ∀ {tier tighter left ts e rest rest'},
    Chain tier tighter left ts e rest → TokensRenamed N rest rest' →
    ∃ ts', TokensRenamed N ts ts' ∧
      Chain tier tighter (left.renameLocal N D Γ) ts' (e.renameLocal N D Γ) rest'
  | _, _, _, _, _, _, _, .done, h => ⟨_, h, .done⟩
  | tier, _, _, _, _, _, _, .step operator right chain, h => by
    obtain ⟨_, same, chain'⟩ := chain.renameLocal h
    obtain ⟨_, front, right'⟩ := right.renameLocal same
    rw [renameLocal_node] at chain'
    exact ⟨_, .cons (.same _) front, .step operator right' chain'⟩

private theorem Unary.renameLocal : ∀
    {ts e rest rest'}, Unary ts e rest → TokensRenamed N rest rest' →
    ∃ ts', TokensRenamed N ts ts' ∧ Unary ts' (e.renameLocal N D Γ) rest'
  | _, _, _, _, .operator operator operand, h => by
    obtain ⟨_, same, operand'⟩ := operand.renameLocal h
    exact ⟨_, .cons (.same _) same, .operator operator operand'⟩
  | _, _, _, _, .call call, h => by
    obtain ⟨_, same, call'⟩ := call.renameLocal h
    exact ⟨_, same, .call call'⟩

private theorem Call.renameLocal : ∀
    {ts e rest rest'}, Call ts e rest → TokensRenamed N rest rest' →
    ∃ ts', TokensRenamed N ts ts' ∧ Call ts' (e.renameLocal N D Γ) rest'
  | _, _, _, _, .intro primary suffixes, h => by
    obtain ⟨_, same, suffixes'⟩ := suffixes.renameLocal h
    obtain ⟨_, front, primary'⟩ := primary.renameLocal same
    exact ⟨_, front, .intro primary' suffixes'⟩

private theorem Suffixes.renameLocal : ∀ {e ts e' rest rest'}, Suffixes e ts e' rest →
    TokensRenamed N rest rest' →
    ∃ ts', TokensRenamed N ts ts' ∧
      Suffixes (e.renameLocal N D Γ) ts' (e'.renameLocal N D Γ) rest'
  | _, _, _, _, _, .done, h => ⟨_, h, .done⟩
  | _, _, _, _, _, .call left args right arity suffixes, h => by
    obtain ⟨_, same, suffixes'⟩ := suffixes.renameLocal h
    obtain ⟨_, front, args'⟩ := args.renameLocal (.cons (.same _) same)
    exact ⟨_, .cons (.same _) front,
      .call left args' right ((length_renameLocalAll _).symm ▸ arity) suffixes'⟩
  | _, _, _, _, _, .property dot isName suffixes, h => by
    obtain ⟨_, same, suffixes'⟩ := suffixes.renameLocal h
    exact ⟨_, .cons (.same _) (.cons (.same _) same), .property dot isName suffixes'⟩

private theorem Arguments.renameLocal : ∀ {ts args rest rest'}, Arguments ts args rest →
    TokensRenamed N rest rest' →
    ∃ ts', TokensRenamed N ts ts' ∧ Arguments ts' (Expr.renameLocalAll N D Γ args) rest'
  | _, _, _, _, .none, h => ⟨_, h, .none⟩
  | _, _, _, _, .some args, h => by
    obtain ⟨_, same, args'⟩ := args.renameLocal h
    exact ⟨_, same, .some args'⟩

private theorem ArgumentList.renameLocal : ∀ {ts args rest rest'}, ArgumentList ts args rest →
    TokensRenamed N rest rest' →
    ∃ ts', TokensRenamed N ts ts' ∧ ArgumentList ts' (Expr.renameLocalAll N D Γ args) rest'
  | _, _, _, _, .one e, h => by
    obtain ⟨_, same, e'⟩ := e.renameLocal h
    exact ⟨_, same, .one e'⟩
  | _, _, _, _, .more e comma args, h => by
    obtain ⟨_, same, args'⟩ := args.renameLocal h
    obtain ⟨_, front, e'⟩ := e.renameLocal (.cons (.same _) same)
    exact ⟨_, front, .more e' comma args'⟩

private theorem Primary.renameLocal : ∀
    {ts e rest rest'}, Primary ts e rest → TokensRenamed N rest rest' →
    ∃ ts', TokensRenamed N ts ts' ∧ Primary ts' (e.renameLocal N D Γ) rest'
  | _, _, _, _, .number isNumber, h => ⟨_, .cons (.same _) h, .number isNumber⟩
  | _, _, _, _, .string isString, h => ⟨_, .cons (.same _) h, .string isString⟩
  | _, _, _, _, .trueWord word, h => ⟨_, .cons (.same _) h, .trueWord word⟩
  | _, _, _, _, .falseWord word, h => ⟨_, .cons (.same _) h, .falseWord word⟩
  | _, _, _, _, .nilWord word, h => ⟨_, .cons (.same _) h, .nilWord word⟩
  | _, _, _, _, .this word, h => ⟨_, .cons (.same _) h, .this word⟩
  | _, _, _, _, .name isName, h =>
    ⟨_, .cons (.give _ isName) h, .name ((N.give_kind _ _).trans isName)⟩
  | _, _, _, _, .grouping left inner right, h => by
    obtain ⟨_, same, inner'⟩ := inner.renameLocal (.cons (.same _) h)
    exact ⟨_, .cons (.same _) same, .grouping left inner' right⟩
  | _, _, _, _, .super word dot isName, h =>
    ⟨_, .cons (.same _) (.cons (.same _) (.cons (.same _) h)), .super word dot isName⟩

end

private theorem OptionalExpression.renameLocal {e : Option Expr} (d : OptionalExpression ts e rest)
    (h : TokensRenamed N rest rest') :
    ∃ ts', TokensRenamed N ts ts' ∧
      OptionalExpression ts' (e.map (Expr.renameLocal N D Γ)) rest' := by
  cases d with
  | none => exact ⟨_, h, .none⟩
  | some e =>
    obtain ⟨_, same, e'⟩ := e.renameLocal h
    exact ⟨_, same, .some e'⟩

private theorem ExpressionStatement.renameLocal {s : Stmt} (d : ExpressionStatement ts s rest)
    (h : TokensRenamed N rest rest') (path : Path) :
    ∃ ts', TokensRenamed N ts ts' ∧
      ExpressionStatement ts' (s.renameLocal N D Γ path) rest' := by
  cases d with
  | intro e semicolon =>
    obtain ⟨_, same, e'⟩ := e.renameLocal (.cons (.same _) h)
    exact ⟨_, same, .intro e' semicolon⟩

private theorem VarDeclaration.renameLocal {s : Stmt} (d : VarDeclaration ts s rest)
    (h : TokensRenamed N rest rest') (path : Path) :
    ∃ ts', TokensRenamed N ts ts' ∧ VarDeclaration ts' (s.renameLocal N D Γ path) rest' := by
  cases d with
  | bare keyword isName semicolon =>
    exact ⟨_, .cons (.same _) (.cons (.give _ isName) (.cons (.same _) h)),
      .bare keyword ((N.give_kind _ _).trans isName) semicolon⟩
  | initialized keyword isName equals e semicolon =>
    obtain ⟨_, same, e'⟩ := e.renameLocal (.cons (.same _) h)
    exact ⟨_, .cons (.same _) (.cons (.give _ isName) (.cons (.same _) same)),
      .initialized keyword ((N.give_kind _ _).trans isName) equals e' semicolon⟩

private theorem ForInitializer.renameLocal {s : Option Stmt} (d : ForInitializer ts s rest)
    (h : TokensRenamed N rest rest') (path : Path) :
    ∃ ts', TokensRenamed N ts ts' ∧
      ForInitializer ts' (Stmt.renameLocalOption N D Γ path s) rest' := by
  cases d with
  | none semicolon => exact ⟨_, .cons (.same _) h, .none semicolon⟩
  | var d =>
    obtain ⟨_, same, d'⟩ := d.renameLocal h path
    exact ⟨_, same, .var d'⟩
  | expression d =>
    obtain ⟨_, same, d'⟩ := d.renameLocal h path
    exact ⟨_, same, .expression d'⟩

end

private theorem ParameterList.renameLocal {params : List Token} (d : ParameterList ts params rest)
    (h : TokensRenamed N rest rest') (marked : Bool) :
    ∃ ts', TokensRenamed N ts ts' ∧ ParameterList ts' (params.map (N.give marked)) rest' := by
  induction d with
  | one isName =>
    exact ⟨_, .cons (.give marked isName) h, .one ((N.give_kind _ _).trans isName)⟩
  | more isName comma _ ih =>
    obtain ⟨_, same, params'⟩ := ih h
    exact ⟨_, .cons (.give marked isName) (.cons (.same _) same),
      .more ((N.give_kind _ _).trans isName) comma params'⟩

private theorem Parameters.renameLocal {params : List Token} (d : Parameters ts params rest)
    (h : TokensRenamed N rest rest') (marked : Bool) :
    ∃ ts', TokensRenamed N ts ts' ∧ Parameters ts' (params.map (N.give marked)) rest' := by
  cases d with
  | none => exact ⟨_, h, .none⟩
  | some d =>
    obtain ⟨_, same, d'⟩ := d.renameLocal h marked
    exact ⟨_, same, .some d'⟩

private theorem renameLocal_forTree (Γ : Marks) (path : Path) (initializer : Option Stmt)
    (condition increment : Option Expr) (body : Stmt) :
    ∃ Γ₁ Γ₂ : Marks, ∃ path₁ path₂ : Path,
      (forTree initializer condition increment body).renameLocal N D Γ path =
        forTree (Stmt.renameLocalOption N D Γ₁ path₁ initializer)
          (condition.map (Expr.renameLocal N D Γ₁)) (increment.map (Expr.renameLocal N D Γ₂))
          (body.renameLocal N D Γ₂ path₂) := by
  cases initializer with
  | none =>
    cases increment with
    | none => exact ⟨Γ, Γ, path, path, by cases condition <;> rfl⟩
    | some e => exact ⟨Γ, Γ.enter N path, path, 0 :: path, by cases condition <;> rfl⟩
  | some s =>
    cases increment with
    | none =>
      exact ⟨Γ.enter N path, Γ.enter N path, 0 :: path, 1 :: path, by cases condition <;> rfl⟩
    | some e =>
      exact ⟨Γ.enter N path, (Γ.enter N path).enter N (1 :: path), 0 :: path, 0 :: 1 :: path,
        by cases condition <;> rfl⟩

variable {rule : ElseRule}

mutual

private theorem Statement.renameLocal : ∀
    {dangling ts s rest rest'}, Statement rule dangling ts s rest →
    TokensRenamed N rest rest' → ∀ (Γ : Marks) (path : Path),
    ∃ ts', TokensRenamed N ts ts' ∧ Statement rule dangling ts' (s.renameLocal N D Γ path) rest'
  | _, _, _, _, _, .expression d, h, Γ, path => by
    obtain ⟨_, same, d'⟩ := d.renameLocal h path
    exact ⟨_, same, .expression d'⟩
  | _, _, _, _, _, .print keyword e semicolon, h, Γ, path => by
    obtain ⟨_, same, e'⟩ := e.renameLocal (.cons (.same _) h)
    exact ⟨_, .cons (.same _) same, .print keyword e' semicolon⟩
  | _, _, _, _, _, .ret keyword value semicolon, h, Γ, path => by
    obtain ⟨_, same, value'⟩ := value.renameLocal (.cons (.same _) h)
    exact ⟨_, .cons (.same _) same, .ret keyword value' semicolon⟩
  | _, _, _, _, _, .loop keyword left e right body, h, Γ, path => by
    obtain ⟨_, same, body'⟩ := body.renameLocal h Γ path
    obtain ⟨_, front, e'⟩ := e.renameLocal (.cons (.same _) same)
    exact ⟨_, .cons (.same _) (.cons (.same _) front), .loop keyword left e' right body'⟩
  | _, _, _, _, _, .ifThen keyword left e right thenBranch, h, Γ, path => by
    obtain ⟨_, same, thenBranch'⟩ := thenBranch.renameLocal h Γ (0 :: path)
    obtain ⟨_, front, e'⟩ := e.renameLocal (.cons (.same _) same)
    exact ⟨_, .cons (.same _) (.cons (.same _) front), .ifThen keyword left e' right thenBranch'⟩
  | _, _, _, _, _, .ifElse keyword left e right thenBranch elseWord nearest elseBranch, h, Γ,
      path => by
    obtain ⟨_, same, elseBranch'⟩ := elseBranch.renameLocal h Γ (1 :: path)
    obtain ⟨_, mid, thenBranch'⟩ := thenBranch.renameLocal (.cons (.same _) same) Γ (0 :: path)
    obtain ⟨_, front, e'⟩ := e.renameLocal (.cons (.same _) mid)
    exact ⟨_, .cons (.same _) (.cons (.same _) front),
      .ifElse keyword left e' right thenBranch' elseWord nearest elseBranch'⟩
  | _, _, _, _, _, .forLoop keyword left initializer condition semicolon increment right body, h,
      Γ, path => by
    obtain ⟨Γ₁, Γ₂, path₁, path₂, tree⟩ := renameLocal_forTree (N := N) (D := D) Γ path _ _ _ _
    obtain ⟨_, same, body'⟩ := body.renameLocal h Γ₂ path₂
    obtain ⟨_, third, increment'⟩ := increment.renameLocal (.cons (.same _) same)
    obtain ⟨_, second, condition'⟩ := condition.renameLocal (.cons (.same _) third)
    obtain ⟨_, first, initializer'⟩ := initializer.renameLocal second path₁
    rw [tree]
    exact ⟨_, .cons (.same _) (.cons (.same _) first),
      .forLoop keyword left initializer' condition' semicolon increment' right body'⟩
  | _, _, _, _, _, .block left body right, h, Γ, path => by
    obtain ⟨_, same, body'⟩ := body.renameLocal (.cons (.same _) h) (Γ.enter N path) path 0
    exact ⟨_, .cons (.same _) same, .block left body' right⟩

private theorem Declaration.renameLocal : ∀ {ts s rest rest'}, Declaration rule ts s rest →
    TokensRenamed N rest rest' → ∀ (Γ : Marks) (path : Path),
    ∃ ts', TokensRenamed N ts ts' ∧ Declaration rule ts' (s.renameLocal N D Γ path) rest'
  | _, _, _, _, .classDecl keyword isName left methods right, h, Γ, path => by
    obtain ⟨_, same, methods'⟩ := methods.renameLocal (.cons (.same _) h) (false :: Γ) path 0
    exact ⟨_, .cons (.same _) (.cons (.same _) (.cons (.same _) same)),
      .classDecl keyword isName left methods' right⟩
  | _, _, _, _, .subclass keyword isName less isSuperName left methods right, h, Γ, path => by
    obtain ⟨_, same, methods'⟩ :=
      methods.renameLocal (.cons (.same _) h) (false :: false :: Γ) path 0
    exact ⟨_, .cons (.same _) (.cons (.same _) (.cons (.same _) (.cons (.give _ isSuperName)
        (.cons (.same _) same)))),
      .subclass keyword isName less ((N.give_kind _ _).trans isSuperName) left methods' right⟩
  | _, _, _, _, .function keyword decl, h, Γ, path => by
    obtain ⟨_, same, decl'⟩ := decl.renameLocal h Γ path
    exact ⟨_, .cons (.same _) same, .function keyword decl'⟩
  | _, _, _, _, .var d, h, Γ, path => by
    obtain ⟨_, same, d'⟩ := d.renameLocal h path
    exact ⟨_, same, .var d'⟩
  | _, _, _, _, .statement d, h, Γ, path => by
    obtain ⟨_, same, d'⟩ := d.renameLocal h Γ path
    exact ⟨_, same, .statement d'⟩

private theorem Declarations.renameLocal : ∀ {ts ss rest rest'}, Declarations rule ts ss rest →
    TokensRenamed N rest rest' → ∀ (Γ : Marks) (path : Path) (i : Nat),
    ∃ ts', TokensRenamed N ts ts' ∧
      Declarations rule ts' (Stmt.renameLocalAll N D Γ path i ss) rest'
  | _, _, _, _, .nil, h, _, _, _ => ⟨_, h, .nil⟩
  | _, _, _, _, .cons d ds, h, Γ, path, i => by
    obtain ⟨_, same, ds'⟩ := ds.renameLocal h Γ path (i + 1)
    obtain ⟨_, front, d'⟩ := d.renameLocal same Γ (i :: path)
    exact ⟨_, front, .cons d' ds'⟩

private theorem Function.renameLocal : ∀ {ts decl rest rest'}, Function rule ts decl rest →
    TokensRenamed N rest rest' → ∀ (Γ : Marks) (path : Path),
    ∃ ts', TokensRenamed N ts ts' ∧ Function rule ts' (decl.renameLocal N D Γ path) rest'
  | _, _, _, _, .intro isName left params right arity opening body closing, h, Γ, path => by
    obtain ⟨_, same, body'⟩ := body.renameLocal (.cons (.same _) h) (Γ.enter N path) path 0
    obtain ⟨_, front, params'⟩ := params.renameLocal (.cons (.same _) (.cons (.same _) same))
      ((Γ.enter N path).at (some 0))
    exact ⟨_, .cons (.same _) (.cons (.same _) front),
      .intro isName left params' right ((List.length_map _).symm ▸ arity) opening body' closing⟩

private theorem Methods.renameLocal : ∀ {ts decls rest rest'}, Methods rule ts decls rest →
    TokensRenamed N rest rest' → ∀ (Γ : Marks) (path : Path) (i : Nat),
    ∃ ts', TokensRenamed N ts ts' ∧
      Methods rule ts' (FunctionDecl.renameLocalAll N D Γ path i decls) rest'
  | _, _, _, _, .nil, h, _, _, _ => ⟨_, h, .nil⟩
  | _, _, _, _, .cons d ds, h, Γ, path, i => by
    obtain ⟨_, same, ds'⟩ := ds.renameLocal h Γ path (i + 1)
    obtain ⟨_, front, d'⟩ := d.renameLocal same Γ (i :: path)
    exact ⟨_, front, .cons d' ds'⟩

end

/-- A program with the new name is one of the grammar. -/
theorem Program.renameLocal {tokens : List Token} {program : List Stmt}
    (h : Program rule tokens program) :
    ∃ tokens', TokensRenamed N tokens tokens' ∧
      Program rule tokens' (LoxLang.renameLocal N D program) :=
  Declarations.renameLocal h .nil [false] [] 0

end Grammar

end LoxLang
