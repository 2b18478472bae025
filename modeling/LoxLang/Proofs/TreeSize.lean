import LoxLang.Proofs.GrammarShape
import LoxLang.Proofs.StatementSound
import LoxLang.Token.Scan

/-!
How large a tree is, measured by the tokens it was read from.

Each rule of the grammar pays for the nodes it makes with tokens of its own, but for one: a `for`
whose initializer is an expression, which has no condition and has an increment, brings four
tokens and makes five nodes (a loop, the condition `true`, a statement for the increment and two
blocks).  Such loops are counted along the tokens; a tree is no larger than the tokens and those
loops together.
-/

set_option autoImplicit false
set_option relaxedAutoImplicit false

namespace LoxLang

mutual

def Expr.nodes : Expr → Nat
  | .literal _ | .variable _ _ | .this _ _ | .super _ _ _ => 1
  | .grouping inner => inner.nodes + 1
  | .unary _ operand => operand.nodes + 1
  | .binary _ left right | .logical _ left right => left.nodes + right.nodes + 1
  | .assign _ _ value => value.nodes + 1
  | .call callee _ arguments => callee.nodes + Expr.nodesAll arguments + 1
  | .get object _ => object.nodes + 1
  | .set object _ value => object.nodes + value.nodes + 1

def Expr.nodesAll : List Expr → Nat
  | [] => 0
  | e :: es => e.nodes + Expr.nodesAll es

end

def Expr.nodesOption : Option Expr → Nat
  | none => 0
  | some e => e.nodes

mutual

def FunctionDecl.nodes : FunctionDecl → Nat
  | .mk _ _ _ body => Stmt.nodesAll body

def FunctionDecl.nodesAll : List FunctionDecl → Nat
  | [] => 0
  | decl :: decls => decl.nodes + FunctionDecl.nodesAll decls

def Stmt.nodes : Stmt → Nat
  | .expression e | .print e => e.nodes + 1
  | .var _ initializer => Expr.nodesOption initializer + 1
  | .block body => Stmt.nodesAll body + 1
  | .branch condition thenBranch elseBranch =>
    condition.nodes + thenBranch.nodes + Stmt.nodesOption elseBranch + 1
  | .loop condition body => condition.nodes + body.nodes + 1
  | .function decl => decl.nodes + 1
  | .ret _ value => Expr.nodesOption value + 1
  | .classDecl _ superclass methods =>
    Expr.nodesOption superclass + FunctionDecl.nodesAll methods + 1

def Stmt.nodesOption : Option Stmt → Nat
  | none => 0
  | some s => s.nodes

def Stmt.nodesAll : List Stmt → Nat
  | [] => 0
  | s :: ss => s.nodes + Stmt.nodesAll ss

end

namespace Grammar

def fromSemicolon (ts : List Token) : List Token := ts.dropWhile (·.kind != .semicolon)

def beginsCostlyFor : List Token → Bool
  | keyword :: left :: first :: ts =>
    keyword.kind == .forWord && left.kind == .leftParen &&
      first.kind != .varWord && first.kind != .semicolon &&
      match (fromSemicolon ts).map Token.kind with
      | _ :: .semicolon :: next :: _ => next != .rightParen
      | _ => false
  | _ => false

/-- The number of such loops in a list of tokens. -/
def costlyFors : List Token → Nat
  | [] => 0
  | t :: ts => costlyFors ts + (beginsCostlyFor (t :: ts)).toNat

def worth (ts : List Token) : Nat := ts.length + costlyFors ts

section

variable {t : Token} {ts rest : List Token}

private theorem worth_cons : worth (t :: ts) = worth ts + 1 + (beginsCostlyFor (t :: ts)).toNat :=
  by
  simp only [worth, costlyFors, List.length_cons]
  omega

private theorem costlyFors_cons (other : t.kind ≠ .forWord) : costlyFors
    (t :: ts) = costlyFors ts := by
  have not_for : beginsCostlyFor (t :: ts) = false := by
    unfold beginsCostlyFor
    split <;> simp_all
  rw [costlyFors, not_for, Bool.toNat_false, Nat.add_zero]

private theorem fromSemicolon_cons (other : t.kind ≠ .semicolon) :
    fromSemicolon (t :: ts) = fromSemicolon ts := by
  simp [fromSemicolon, other]

private theorem fromSemicolon_semicolon (semicolon : t.kind = .semicolon) :
    fromSemicolon (t :: ts) = t :: ts := by
  simp [fromSemicolon, semicolon]

end

private theorem Tier.operator_ne_semicolon {tier : Tier} {k : Kind} (h : k ∈ tier.operators) :
    k ≠ .semicolon := by
  rintro rfl
  cases tier <;> simp [Tier.operators] at h

private theorem Tier.nodes_node (tier : Tier) (operator : Token) (left right : Expr) :
    (tier.node operator left right).nodes = left.nodes + right.nodes + 1 := by
  cases tier <;> simp [Tier.node, Expr.nodes]

/-! ### No semicolon stands in an expression -/

mutual

private theorem Expression.no_semicolon : ∀ {ts e rest}, Expression ts e rest →
    fromSemicolon ts = fromSemicolon rest
  | _, _, _, .assign name equals value => by
    rw [fromSemicolon_cons (by simp [name]), fromSemicolon_cons (by simp [equals]),
      value.no_semicolon]
  | _, _, _, .set object dot name equals value => by
    rw [object.no_semicolon, fromSemicolon_cons (by simp [dot]),
      fromSemicolon_cons (by simp [name]), fromSemicolon_cons (by simp [equals]),
      value.no_semicolon]
  | _, _, _, .operation operation => operation.no_semicolon

private theorem Operation.no_semicolon : ∀ {tiers ts e rest}, Operation tiers ts e rest →
    fromSemicolon ts = fromSemicolon rest
  | _, _, _, _, .unary unary => unary.no_semicolon
  | _, _, _, _, .level first chain => first.no_semicolon.trans chain.no_semicolon

private theorem Chain.no_semicolon : ∀ {tier tighter left ts e rest},
    Chain tier tighter left ts e rest → fromSemicolon ts = fromSemicolon rest
  | _, _, _, _, _, _, .done => rfl
  | _, _, _, _, _, _, .step operator right chain => by
    rw [fromSemicolon_cons (Tier.operator_ne_semicolon operator), right.no_semicolon,
      chain.no_semicolon]

private theorem Unary.no_semicolon : ∀ {ts e rest}, Unary ts e rest →
    fromSemicolon ts = fromSemicolon rest
  | _, _, _, .operator kind operand => by
    rw [fromSemicolon_cons (by rcases kind with bang | minus <;> simp [*]), operand.no_semicolon]
  | _, _, _, .call call => call.no_semicolon

private theorem Call.no_semicolon : ∀ {ts e rest}, Call ts e rest →
    fromSemicolon ts = fromSemicolon rest
  | _, _, _, .intro primary suffixes => primary.no_semicolon.trans suffixes.no_semicolon

private theorem Suffixes.no_semicolon : ∀ {e ts e' rest}, Suffixes e ts e' rest →
    fromSemicolon ts = fromSemicolon rest
  | _, _, _, _, .done => rfl
  | _, _, _, _, .call left args right _ suffixes => by
    rw [fromSemicolon_cons (by simp [left]), args.no_semicolon,
      fromSemicolon_cons (by simp [right]), suffixes.no_semicolon]
  | _, _, _, _, .property dot name suffixes => by
    rw [fromSemicolon_cons (by simp [dot]), fromSemicolon_cons (by simp [name]),
      suffixes.no_semicolon]

private theorem Arguments.no_semicolon : ∀ {ts args rest}, Arguments ts args rest →
    fromSemicolon ts = fromSemicolon rest
  | _, _, _, .none => rfl
  | _, _, _, .some args => args.no_semicolon

private theorem ArgumentList.no_semicolon : ∀ {ts args rest}, ArgumentList ts args rest →
    fromSemicolon ts = fromSemicolon rest
  | _, _, _, .one e => e.no_semicolon
  | _, _, _, .more e comma args => by
    rw [e.no_semicolon, fromSemicolon_cons (by simp [comma]), args.no_semicolon]

private theorem Primary.no_semicolon : ∀ {ts e rest}, Primary ts e rest →
    fromSemicolon ts = fromSemicolon rest
  | _, _, _, .number kind | _, _, _, .string kind | _, _, _, .trueWord kind
  | _, _, _, .falseWord kind | _, _, _, .nilWord kind | _, _, _, .this kind
  | _, _, _, .name kind => fromSemicolon_cons (by simp [kind])
  | _, _, _, .grouping left inner right => by
    rw [fromSemicolon_cons (by simp [left]), inner.no_semicolon,
      fromSemicolon_cons (by simp [right])]
  | _, _, _, .super keyword dot method => by
    rw [fromSemicolon_cons (by simp [keyword]), fromSemicolon_cons (by simp [dot]),
      fromSemicolon_cons (by simp [method])]

end

/-! ### What each rule pays for -/

mutual

private theorem Expression.nodes_le : ∀ {ts e rest}, Expression ts e rest →
    e.nodes + worth rest ≤ worth ts
  | _, _, _, .assign _ _ value => by
    have paid := value.nodes_le
    simp only [Expr.nodes, worth_cons]
    omega
  | _, _, _, .set object _ _ _ value => by
    have before := object.nodes_le
    have paid := value.nodes_le
    simp only [Expr.nodes, worth_cons] at before ⊢
    omega
  | _, _, _, .operation operation => operation.nodes_le

private theorem Operation.nodes_le : ∀ {tiers ts e rest}, Operation tiers ts e rest →
    e.nodes + worth rest ≤ worth ts
  | _, _, _, _, .unary unary => unary.nodes_le
  | _, _, _, _, .level first chain => by
    have left := first.nodes_le
    have others := chain.nodes_le
    omega

private theorem Chain.nodes_le : ∀
    {tier tighter left ts e rest}, Chain tier tighter left ts e rest →
    e.nodes + worth rest ≤ left.nodes + worth ts
  | _, _, _, _, _, _, .done => Nat.le_refl _
  | _, _, _, _, _, _, .step _ right chain => by
    have operand := right.nodes_le
    have others := chain.nodes_le
    rw [Tier.nodes_node] at others
    rw [worth_cons]
    omega

private theorem Unary.nodes_le : ∀ {ts e rest}, Unary ts e rest → e.nodes + worth rest ≤ worth ts
  | _, _, _, .operator _ operand => by
    have paid := operand.nodes_le
    simp only [Expr.nodes, worth_cons]
    omega
  | _, _, _, .call call => call.nodes_le

private theorem Call.nodes_le : ∀ {ts e rest}, Call ts e rest → e.nodes + worth rest ≤ worth ts
  | _, _, _, .intro primary suffixes => by
    have first := primary.nodes_le
    have others := suffixes.nodes_le
    omega

private theorem Suffixes.nodes_le : ∀ {e ts e' rest}, Suffixes e ts e' rest →
    e'.nodes + worth rest ≤ e.nodes + worth ts
  | _, _, _, _, .done => Nat.le_refl _
  | _, _, _, _, .call _ args _ _ suffixes => by
    have inner := args.nodes_le
    have others := suffixes.nodes_le
    simp only [Expr.nodes, worth_cons] at inner others ⊢
    omega
  | _, _, _, _, .property _ _ suffixes => by
    have others := suffixes.nodes_le
    simp only [Expr.nodes, worth_cons] at others ⊢
    omega

private theorem Arguments.nodes_le : ∀ {ts args rest}, Arguments ts args rest →
    Expr.nodesAll args + worth rest ≤ worth ts
  | _, _, _, .none => by simp [Expr.nodesAll]
  | _, _, _, .some args => args.nodes_le

private theorem ArgumentList.nodes_le : ∀ {ts args rest}, ArgumentList ts args rest →
    Expr.nodesAll args + worth rest ≤ worth ts
  | _, _, _, .one e => by
    have paid := e.nodes_le
    simpa only [Expr.nodesAll, Nat.add_zero] using paid
  | _, _, _, .more e _ args => by
    have first := e.nodes_le
    have others := args.nodes_le
    simp only [Expr.nodesAll, worth_cons] at first ⊢
    omega

private theorem Primary.nodes_le : ∀
    {ts e rest}, Primary ts e rest → e.nodes + worth rest ≤ worth ts
  | _, _, _, .number _ | _, _, _, .string _ | _, _, _, .trueWord _ | _, _, _, .falseWord _
  | _, _, _, .nilWord _ | _, _, _, .this _ | _, _, _, .name _ => by
    simp only [Expr.nodes, worth_cons]
    omega
  | _, _, _, .grouping _ inner _ => by
    have paid := inner.nodes_le
    simp only [Expr.nodes, worth_cons] at paid ⊢
    omega
  | _, _, _, .super _ _ _ => by
    simp only [Expr.nodes, worth_cons]
    omega

end

private theorem OptionalExpression.nodes_le {ts e rest} :
    OptionalExpression ts e rest → Expr.nodesOption e + worth rest ≤ worth ts
  | .none => by simp [Expr.nodesOption]
  | .some e => e.nodes_le

private theorem ExpressionStatement.nodes_le {ts s rest} :
    ExpressionStatement ts s rest → s.nodes + worth rest ≤ worth ts
  | .intro e _ => by
    have paid := e.nodes_le
    simp only [Stmt.nodes, worth_cons] at paid ⊢
    omega

private theorem VarDeclaration.nodes_le {ts s rest} :
    VarDeclaration ts s rest → s.nodes + 2 + worth rest ≤ worth ts
  | .bare _ _ _ => by
    simp only [Stmt.nodes, Expr.nodesOption, worth_cons]
    omega
  | .initialized _ _ _ e _ => by
    have paid := e.nodes_le
    simp only [Stmt.nodes, Expr.nodesOption, worth_cons] at paid ⊢
    omega

private theorem ParameterList.worth_le : ∀ {ts params rest}, ParameterList ts params rest →
    worth rest ≤ worth ts
  | _, _, _, .one _ => by
    rw [worth_cons]
    omega
  | _, _, _, .more _ _ params => by
    have others := params.worth_le
    simp only [worth_cons]
    omega

private theorem Parameters.worth_le {ts params rest} :
    Parameters ts params rest → worth rest ≤ worth ts
  | .none => Nat.le_refl _
  | .some params => params.worth_le

private theorem nodes_forTree (initializer : Option Stmt) (condition increment : Option Expr)
    (body : Stmt) :
    (forTree initializer condition increment body).nodes =
      1 + initializer.elim 0 (Stmt.nodes · + 1) + condition.elim 1 Expr.nodes +
        increment.elim 0 (Expr.nodes · + 2) + body.nodes := by
  cases initializer <;> cases condition <;> cases increment <;>
    simp only [forTree, forBody, Option.getD_some, Option.getD_none, Option.elim, Stmt.nodes,
      Stmt.nodesAll, Expr.nodes] <;>
    omega

private theorem beginsCostlyFor_of_clauses {keyword left semicolon right : Token}
    {ts ts'' mid : List Token} {s : Stmt} {increment : Expr} (hkeyword : keyword.kind = .forWord)
    (hleft : left.kind = .leftParen) (initializer : ExpressionStatement ts s (semicolon :: ts''))
    (hsemicolon : semicolon.kind = .semicolon) (step : Expression ts'' increment (right :: mid)) :
    beginsCostlyFor (keyword :: left :: ts) = true := by
  obtain ⟨e, hfirst⟩ := initializer
  rename_i semicolon' kind
  obtain ⟨first, others, rfl, starts⟩ := e.starts
  obtain ⟨next, behind, rfl, nextStarts⟩ := step.starts
  have ne_var : first.kind ≠ .varWord := by
    rintro same
    simp [same, expressionStarts, callStarts] at starts
  have ne_semicolon : first.kind ≠ .semicolon := by
    rintro same
    simp [same, expressionStarts, callStarts] at starts
  have ne_right : next.kind ≠ .rightParen := by
    rintro same
    simp [same, expressionStarts, callStarts] at nextStarts
  have skipped := e.no_semicolon
  rw [fromSemicolon_cons ne_semicolon, fromSemicolon_semicolon hfirst] at skipped
  simp [beginsCostlyFor, hkeyword, hleft, ne_var, ne_semicolon, skipped, hsemicolon, ne_right]

private theorem nodes_forTree_le {keyword left semicolon right : Token}
    {ts ts' ts'' mid rest : List Token} {initializer : Option Stmt}
    {condition increment : Option Expr} {body : Stmt} (hkeyword : keyword.kind = .forWord)
    (hleft : left.kind = .leftParen) (first : ForInitializer ts initializer ts')
    (second : OptionalExpression ts' condition (semicolon :: ts''))
    (hsemicolon : semicolon.kind = .semicolon)
    (third : OptionalExpression ts'' increment (right :: mid))
    (paid : body.nodes + worth rest ≤ worth mid) :
    (forTree initializer condition increment body).nodes + worth rest ≤
      worth (keyword :: left :: ts) := by
  have secondPaid := second.nodes_le
  have thirdPaid := third.nodes_le
  rw [worth_cons] at secondPaid thirdPaid
  rw [nodes_forTree, worth_cons, worth_cons]
  cases first with
  | none _ =>
    rw [worth_cons]
    cases condition <;> cases increment <;>
      simp only [Expr.nodesOption, Option.elim] at secondPaid thirdPaid ⊢ <;> omega
  | var decl =>
    have firstPaid := decl.nodes_le
    cases condition <;> cases increment <;>
      simp only [Expr.nodesOption, Option.elim] at secondPaid thirdPaid ⊢ <;> omega
  | expression statement =>
    have firstPaid := statement.nodes_le
    cases second with
    | some condition =>
      cases increment <;>
        simp only [Expr.nodesOption, Option.elim] at secondPaid thirdPaid ⊢ <;> omega
    | none =>
      cases third with
      | none =>
        simp only [Option.elim]
        omega
      | some step =>
        -- The one case in which the four tokens do not suffice.
        have counted : (beginsCostlyFor (keyword :: left :: ts)).toNat = 1 := by
          rw [beginsCostlyFor_of_clauses hkeyword hleft statement hsemicolon step, Bool.toNat_true]
        simp only [Expr.nodesOption, Option.elim] at thirdPaid ⊢
        omega

mutual

private theorem Statement.nodes_le {rule} : ∀ {dangling ts s rest},
    Statement rule dangling ts s rest → s.nodes + worth rest ≤ worth ts
  | _, _, _, _, .expression statement => statement.nodes_le
  | _, _, _, _, .print _ e _ => by
    have paid := e.nodes_le
    simp only [Stmt.nodes, worth_cons] at paid ⊢
    omega
  | _, _, _, _, .ret _ value _ => by
    have paid := value.nodes_le
    simp only [Stmt.nodes, worth_cons] at paid ⊢
    omega
  | _, _, _, _, .loop _ _ condition _ body => by
    have first := condition.nodes_le
    have paid := body.nodes_le
    simp only [Stmt.nodes, worth_cons] at first ⊢
    omega
  | _, _, _, _, .ifThen _ _ condition _ thenBranch => by
    have first := condition.nodes_le
    have paid := thenBranch.nodes_le
    simp only [Stmt.nodes, Stmt.nodesOption, worth_cons] at first ⊢
    omega
  | _, _, _, _, .ifElse _ _ condition _ thenBranch _ _ elseBranch => by
    have first := condition.nodes_le
    have second := thenBranch.nodes_le
    have paid := elseBranch.nodes_le
    simp only [Stmt.nodes, Stmt.nodesOption, worth_cons] at first second ⊢
    omega
  | _, _, _, _, .forLoop keyword left initializer condition semicolon increment _ body =>
    nodes_forTree_le keyword left initializer condition semicolon increment body.nodes_le
  | _, _, _, _, .block _ body _ => by
    have paid := body.nodes_le
    simp only [Stmt.nodes, worth_cons] at paid ⊢
    omega

private theorem Declaration.nodes_le {rule} : ∀ {ts s rest}, Declaration rule ts s rest →
    s.nodes + worth rest ≤ worth ts
  | _, _, _, .classDecl _ _ _ methods _ => by
    have paid := methods.nodes_le
    simp only [Stmt.nodes, Expr.nodesOption, worth_cons] at paid ⊢
    omega
  | _, _, _, .subclass _ _ _ _ _ methods _ => by
    have paid := methods.nodes_le
    simp only [Stmt.nodes, Expr.nodesOption, Expr.nodes, worth_cons] at paid ⊢
    omega
  | _, _, _, .function _ function => by
    have paid := function.nodes_le
    simp only [Stmt.nodes, worth_cons]
    omega
  | _, _, _, .var decl => by
    have paid := decl.nodes_le
    omega
  | _, _, _, .statement statement => statement.nodes_le

private theorem Declarations.nodes_le {rule} : ∀ {ts ss rest}, Declarations rule ts ss rest →
    Stmt.nodesAll ss + worth rest ≤ worth ts
  | _, _, _, .nil => by simp [Stmt.nodesAll]
  | _, _, _, .cons first others => by
    have head := first.nodes_le
    have tail := others.nodes_le
    rw [Stmt.nodesAll]
    omega

private theorem Function.nodes_le {rule} : ∀ {ts decl rest}, Function rule ts decl rest →
    decl.nodes + worth rest ≤ worth ts
  | _, _, _, .intro _ _ params _ _ _ body _ => by
    have before := params.worth_le
    have paid := body.nodes_le
    simp only [FunctionDecl.nodes, worth_cons] at before paid ⊢
    omega

private theorem Methods.nodes_le {rule} : ∀ {ts decls rest}, Methods rule ts decls rest →
    FunctionDecl.nodesAll decls + worth rest ≤ worth ts
  | _, _, _, .nil => by simp [FunctionDecl.nodesAll]
  | _, _, _, .cons first others => by
    have head := first.nodes_le
    have tail := others.nodes_le
    rw [FunctionDecl.nodesAll]
    omega

end

/-- With any number of costly loops there is a program that attains the bound. -/
theorem bound_attained (count : Nat) : ∃ tokens tree, Program .nearestIf tokens tree ∧
    costlyFors tokens = count ∧ Stmt.nodesAll tree = worth tokens := by
  let name : Token := ⟨.identifier, "a", 1⟩
  let semicolon : Token := ⟨.semicolon, ";", 1⟩
  let right : Token := ⟨.rightParen, ")", 1⟩
  have clause (rest : List Token) : Expression (name :: rest) (.variable 0 name) rest :=
    .operation (Call.operation (.intro (.name rfl) .done) tiers)
  have first (rest : List Token) : ExpressionStatement (name :: semicolon :: rest)
      (.expression (.variable 0 name)) rest := .intro (clause _) rfl
  suffices loops : ∃ ts s, Statement .nearestIf false ts s [] ∧
      costlyFors ts = count ∧ s.nodes = worth ts by
    obtain ⟨ts, s, statement, counted, equal⟩ := loops
    exact ⟨ts, [s], .cons (.statement statement) .nil, counted, by
      simpa only [Stmt.nodesAll, Nat.add_zero] using equal⟩
  induction count with
  | zero => exact ⟨_, _, .expression (first []), rfl, rfl⟩
  | succ count ih =>
    obtain ⟨ts, s, statement, counted, equal⟩ := ih
    let loop : List Token := ⟨.forWord, "for", 1⟩ :: ⟨.leftParen, "(", 1⟩ :: name :: semicolon ::
      semicolon :: name :: right :: ts
    have loops : costlyFors loop = costlyFors ts + 1 := by
      rw [costlyFors, beginsCostlyFor_of_clauses rfl rfl (first _) rfl (clause (right :: ts))]
      iterate 6 rw [costlyFors_cons (by simp [name, semicolon, right])]
      rfl
    refine ⟨loop, _, .forLoop rfl rfl (.expression (first _)) .none rfl (.some (clause _)) rfl
      statement, by rw [loops, counted], ?_⟩
    rw [nodes_forTree, equal, worth, worth, loops]
    simp only [Option.elim, Stmt.nodes, Expr.nodes, loop, List.length_cons]
    omega

end Grammar

/-- A program that parses has fewer nodes than there are tokens, the mark at the end among them,
and costly loops together. -/
theorem nodes_lt_tokens_and_loops {labels : Labels} {tokens : List Token} {lastLine : Nat}
    {program : List Stmt} (parsed : (parseProgram labels tokens lastLine).result = .ok program) :
    Stmt.nodesAll program < (tokens ++ [Token.atEnd lastLine]).length +
      Grammar.costlyFors tokens := by
  have paid := (parseProgram_sound parsed).1.nodes_le
  rw [List.length_append, List.length_singleton]
  simp only [Grammar.worth, List.length_nil, Grammar.costlyFors] at paid
  omega

/-- Two costly loops already make a tree larger than the list of tokens. -/
theorem nested_loops_outgrow_tokens :
    let scanned := scan "for(a;;b)for(c;;d)e;"
    ∃ program, (parseProgram ⟨0, 0⟩ scanned.tokens scanned.lastLine).result = .ok program ∧
      (scanned.tokens ++ [Token.atEnd scanned.lastLine]).length < Stmt.nodesAll program := by
  intro scanned
  have nodes : (parseProgram ⟨0, 0⟩ scanned.tokens scanned.lastLine).result.toOption.map
      Stmt.nodesAll = some 18 := by decide +kernel
  have tokens : (scanned.tokens ++ [Token.atEnd scanned.lastLine]).length = 17 := by decide +kernel
  cases read : (parseProgram ⟨0, 0⟩ scanned.tokens scanned.lastLine).result with
  | error errors => simp [read, Except.toOption] at nodes
  | ok program =>
    simp only [read, Except.toOption, Option.map_some, Option.some.injEq] at nodes
    exact ⟨program, rfl, by omega⟩

/-- A loop that is counted and one that is not, in the body of a method. -/
theorem loops_in_method_bounded :
    let scanned := scan "class A < B { m() { for (a;; b) for (var c = 1; c < 2;) print c; } }"
    ∃ program, (parseProgram ⟨0, 0⟩ scanned.tokens scanned.lastLine).result = .ok program ∧
      Stmt.nodesAll program < (scanned.tokens ++ [Token.atEnd scanned.lastLine]).length + 1 := by
  intro scanned
  have loops : Grammar.costlyFors scanned.tokens = 1 := by decide +kernel
  have accepted : (parseProgram ⟨0, 0⟩ scanned.tokens scanned.lastLine).result.isOk = true := by
    decide +kernel
  cases parsed : (parseProgram ⟨0, 0⟩ scanned.tokens scanned.lastLine).result with
  | error errors => simp [parsed, Except.isOk, Except.toBool] at accepted
  | ok program =>
    have bound := nodes_lt_tokens_and_loops parsed
    rw [loops] at bound
    exact ⟨program, rfl, bound⟩

end LoxLang
