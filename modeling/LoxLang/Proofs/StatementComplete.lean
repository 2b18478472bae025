import LoxLang.Proofs.ExpressionComplete
import LoxLang.Proofs.StatementSound

/-!
The rules for statements and declarations read all of the grammar in which each `else` belongs to
the nearest `if`.
-/

set_option autoImplicit false
set_option relaxedAutoImplicit false

namespace LoxLang

namespace Parse

open Grammar

def closers : List Kind := [.semicolon, .rightParen]

private theorem ends_of_closer {t : Token} {rest : List Token} (h : t.kind ∈ closers) :
    Ends (t :: rest) := by
  have apart : ∀ k ∈ closers, k ∉ .equal :: continuing tiers := by decide
  exact .cons (apart _ h)

private theorem gives_expression {bound : Nat} {ts rest : List Token} {e : Expr} {t : Token}
    (derivation : Expression ts e (t :: rest)) (close : t.kind ∈ closers)
    (short : ts.length ≤ bound) {s : ParseState} (ahead : s.ahead = ts) :
    Gives (expression bound) s (Same e) (t :: rest) :=
  completes_expression bound derivation (ends_of_closer close) short ahead

private theorem gives_optionalExpression {bound : Nat} {ts rest : List Token} {value : Option Expr}
    {t : Token} (derivation : OptionalExpression ts value (t :: rest)) (close : t.kind ∈ closers)
    (short : ts.length ≤ bound) {s : ParseState} (ahead : s.ahead = ts) :
    Gives (optionalExpression bound t.kind) s (Same value) (t :: rest) := by
  unfold optionalExpression
  refine (Gives.check ahead).bind ?_
  rintro _ s₁ rfl ahead₁
  cases derivation with
  | none =>
    simp only [List.head?_cons, Option.any_some, decide_true, if_true]
    exact .pure rfl ahead₁
  | some derivation =>
    obtain ⟨u, us, rfl, start⟩ := derivation.starts
    have other : u.kind ≠ t.kind := by
      have apart : ∀ k ∈ expressionStarts, k ∉ closers := by decide
      intro equal
      exact apart _ start (equal ▸ close)
    simp only [List.head?_cons, Option.any_some, other, decide_false]
    exact (gives_expression derivation close short ahead₁).map fun e' same =>
      congrArg some same

private theorem gives_expressionStatement {bound : Nat} {ts rest : List Token} {a : Stmt}
    (derivation : ExpressionStatement ts a rest) (short : ts.length ≤ bound) {s : ParseState}
    (ahead : s.ahead = ts) : Gives (expressionStatement bound) s (Same a) rest := by
  obtain ⟨value, hsemicolon⟩ := derivation
  unfold expressionStatement
  refine (gives_expression value (by simp [closers, hsemicolon]) short ahead).bind ?_
  intro e' s₁ same ahead₁
  refine (Gives.expect ahead₁ hsemicolon).bind fun _ s₂ _ ahead₂ => ?_
  exact .pure (congrArg Stmt.expression same) ahead₂

private theorem gives_varDeclaration {bound : Nat} {keyword : Token} {ts rest : List Token}
    {a : Stmt} (derivation : VarDeclaration (keyword :: ts) a rest) (short : ts.length ≤ bound)
    {s : ParseState} (ahead : s.ahead = ts) :
    Gives (varDeclaration bound) s (Same a) rest := by
  rw [varDeclaration_eq]
  cases derivation with
  | bare hkeyword hname hsemicolon =>
    rename_i name semicolon
    refine (Gives.expect ahead hname).bind ?_
    rintro name s₁ rfl ahead₁
    have bare : Gives (initializer bound) s₁ (· = none) (semicolon :: rest) := by
      refine (Gives.acceptAny_none [.equal] ahead₁ (by simp [hsemicolon])).bind ?_
      rintro _ s₂ rfl ahead₂
      exact .pure rfl ahead₂
    refine bare.bind ?_
    rintro _ s₂ rfl ahead₂
    exact (Gives.expect ahead₂ hsemicolon).bind fun _ s₃ _ ahead₃ => .pure rfl ahead₃
  | initialized hkeyword hname hequals value hsemicolon =>
    rename_i name equals semicolon ts e
    simp only [List.length_cons] at short
    refine (Gives.expect ahead hname).bind ?_
    rintro name s₁ rfl ahead₁
    have initialized : Gives (initializer bound) s₁ (Same (some e)) (semicolon :: rest) := by
      refine (Gives.acceptAny ahead₁ (by simp [hequals])).bind ?_
      rintro _ s₂ rfl ahead₂
      exact (gives_expression value (by simp [closers, hsemicolon]) (by omega) ahead₂).map
        fun e' same => congrArg some same
    refine initialized.bind fun i s₂ same ahead₂ => ?_
    exact (Gives.expect ahead₂ hsemicolon).bind fun _ s₃ _ ahead₃ =>
      .pure (congrArg (Stmt.var name) same) ahead₃

private theorem gives_forInitializer {bound : Nat} {ts rest : List Token} {i : Option Stmt}
    (derivation : ForInitializer ts i rest) (short : ts.length ≤ bound) {s : ParseState}
    (ahead : s.ahead = ts) : Gives (forInitializer bound) s (Same i) rest := by
  unfold forInitializer
  cases derivation with
  | none hsemicolon =>
    refine (Gives.acceptAny ahead (by simp [hsemicolon])).bind ?_
    rintro _ s₁ rfl ahead₁
    simp only [hsemicolon, if_true]
    exact .pure rfl ahead₁
  | var derivation =>
    obtain ⟨keyword, us, rfl, word⟩ := derivation.starts
    have word := List.mem_singleton.mp word
    simp only [List.length_cons] at short
    refine (Gives.acceptAny ahead (by simp [word])).bind ?_
    rintro _ s₁ rfl ahead₁
    simp only [word, reduceCtorEq, if_false]
    exact (gives_varDeclaration derivation (by omega) ahead₁).map fun a' same =>
      congrArg some same
  | expression derivation =>
    have other := derivation.starts.disjoint [.semicolon, .varWord] (by decide)
    refine (Gives.acceptAny_none _ ahead other).bind ?_
    rintro _ s₁ rfl ahead₁
    exact (gives_expressionStatement derivation short ahead₁).map fun a' same =>
      congrArg some same

private theorem gives_paramsFrom (bound count : Nat) {ts rest params : List Token} {right : Token}
    (derivation : ParameterList ts params (right :: rest)) (close : right.kind = .rightParen)
    (short : ts.length ≤ bound) (limit : count + params.length ≤ maxArity) {s : ParseState}
    (ahead : s.ahead = ts) :
    Gives (paramsFrom bound count) s (· = params) (right :: rest) := by
  induction bound generalizing count ts params s with
  | zero =>
    have some := derivation.behind.2
    omega
  | succ bound ih =>
    rw [paramsFrom_succ]
    cases derivation with
    | one hname =>
      refine (Gives.noteFull limit ahead).bind fun _ s₁ _ ahead₁ => ?_
      refine (Gives.expect ahead₁ hname).bind ?_
      rintro name s₂ rfl ahead₂
      refine (Gives.acceptAny_none [.comma] ahead₂ (by simp [close])).bind ?_
      rintro _ s₃ rfl ahead₃
      exact .pure rfl ahead₃
    | more hname hcomma others =>
      simp only [List.length_cons] at limit short
      refine (Gives.noteFull (by omega) ahead).bind fun _ s₁ _ ahead₁ => ?_
      refine (Gives.expect ahead₁ hname).bind ?_
      rintro name s₂ rfl ahead₂
      refine (Gives.acceptAny ahead₂ (by simp [hcomma])).bind ?_
      rintro _ s₃ rfl ahead₃
      refine (ih (count + 1) others (by omega) (by omega) ahead₃).bind ?_
      rintro params s₄ rfl ahead₄
      exact .pure rfl ahead₄

private theorem gives_params {bound : Nat} {ts rest params : List Token} {right : Token}
    (derivation : Parameters ts params (right :: rest)) (close : right.kind = .rightParen)
    (short : ts.length ≤ bound) (limit : params.length ≤ maxArity) {s : ParseState}
    (ahead : s.ahead = ts) : Gives (Parse.params bound) s (· = params) (right :: rest) := by
  unfold Parse.params
  refine (Gives.check ahead).bind ?_
  rintro _ s₁ rfl ahead₁
  cases derivation with
  | none =>
    simp only [List.head?_cons, Option.any_some, close, decide_true, if_true]
    exact .pure rfl ahead₁
  | some list =>
    have other : ts.head?.any (·.kind = .rightParen) = false := by
      cases list with
      | one hname => simp [hname]
      | more hname _ _ => simp [hname]
    rw [other]
    exact gives_paramsFrom bound 0 list close short (by omega) ahead₁

variable {nested : ParseM Stmt} {body : ParseM (List Stmt)} {bound : Nat}

abbrev CompletesBlock (body : ParseM (List Stmt)) (bound : Nat) : Prop :=
  Completes body BlockAt (fun _ => True) bound

abbrev CompletesStatement (nested : ParseM Stmt) (bound : Nat) : Prop :=
  Completes nested StatementAt (fun _ => True) bound

private theorem gives_function (h : CompletesBlock body bound) (role : FunctionRole) (n : Nat)
    {ts rest : List Token} {decl : FunctionDecl} (derivation : Function .nearestIf ts decl rest)
    (short : ts.length ≤ n + 1) (within : ts.length ≤ bound) {s : ParseState}
    (ahead : s.ahead = ts) : Gives (function role body n) s (Same decl) rest := by
  rw [function_eq]
  cases derivation with
  | intro hname hleft hparams hright limit hopening statements hclosing =>
    rename_i site name left right opening closing ts mid params ss
    have shorter := hparams.suffix.length_le
    simp only [List.length_cons] at short within shorter
    refine (Gives.expect ahead hname).bind ?_
    rintro name s₁ rfl ahead₁
    refine (Gives.expect ahead₁ hleft).bind fun _ s₂ _ ahead₂ => ?_
    refine (gives_params hparams hright (by omega) limit ahead₂).bind ?_
    rintro params s₃ rfl ahead₃
    refine (Gives.expect ahead₃ hright).bind fun _ s₄ _ ahead₄ => ?_
    refine (Gives.expect ahead₄ hopening).bind fun _ s₅ _ ahead₅ => ?_
    refine (h ⟨closing, statements, hclosing⟩ trivial (by omega) ahead₅).bind ?_
    intro ss' s₆ same ahead₆
    exact (Gives.freshSite ahead₆).bind fun _ s₇ _ ahead₇ =>
      .pure (congrArg (FunctionDecl.mk 0 name params) same) ahead₇

private theorem gives_methodsFrom (h : CompletesBlock body bound) (n : Nat) {ts rest : List Token}
    {decls : List FunctionDecl} {right : Token}
    (derivation : Methods .nearestIf ts decls (right :: rest)) (close : right.kind = .rightBrace)
    (short : ts.length ≤ n) (within : ts.length ≤ bound) {s : ParseState} (ahead : s.ahead = ts) :
    Gives (methodsFrom body n) s (Same decls) (right :: rest) := by
  induction n generalizing ts decls s with
  | zero =>
    have some := derivation.suffix.length_le
    simp only [List.length_cons] at some
    omega
  | succ n ih =>
    unfold methodsFrom
    refine (Gives.atEnd ahead).bind ?_
    rintro _ s₁ rfl ahead₁
    refine (Gives.check ahead₁).bind ?_
    rintro _ s₂ rfl ahead₂
    cases derivation with
    | nil =>
      simp only [List.head?_cons, Option.any_some, close, decide_true, Bool.or_true, if_true]
      exact .pure rfl ahead₂
    | cons first others =>
      obtain ⟨t, us, rfl, hname⟩ : ∃ t us, ts = t :: us ∧ t.kind = .identifier := by
        cases first with
        | intro hname => exact ⟨_, _, rfl, hname⟩
      have shorter := first.behind.2
      simp only [List.isEmpty_cons, List.head?_cons, Option.any_some, hname, reduceCtorEq,
        decide_false, Bool.or_false, Bool.false_eq_true, if_false]
      refine (gives_function h .method n first short within ahead₂).bind fun decl s₃ same ahead₃ => ?_
      refine (ih others (by omega) (by omega) ahead₃).bind fun decls' s₄ same' ahead₄ => ?_
      exact .pure (congrArg₂ List.cons same same') ahead₄

private theorem gives_classDeclaration (h : CompletesBlock body bound) {name left right : Token}
    {ts mid rest : List Token} {c : Option Expr} {decls : List FunctionDecl}
    (hname : name.kind = .identifier)
    (hsuper : ∀ s : ParseState, s.ahead = ts → Gives superclass s (Same c) (left :: mid))
    (hleft : left.kind = .leftBrace) (methods : Methods .nearestIf mid decls (right :: rest))
    (hright : right.kind = .rightBrace) (short : mid.length ≤ bound) {s : ParseState}
    (ahead : s.ahead = name :: ts) :
    Gives (classDeclaration body bound) s (Same (.classDecl name c decls)) rest := by
  rw [classDeclaration_eq]
  refine (Gives.expect ahead hname).bind ?_
  rintro name s₁ rfl ahead₁
  refine (hsuper s₁ ahead₁).bind fun c' s₂ same ahead₂ => ?_
  refine (Gives.expect ahead₂ hleft).bind fun _ s₃ _ ahead₃ => ?_
  refine (gives_methodsFrom h bound methods hright short short ahead₃).bind ?_
  intro decls' s₄ same' ahead₄
  exact (Gives.expect ahead₄ hright).bind fun _ s₅ _ ahead₅ =>
    .pure (congrArg₂ (Stmt.classDecl name) same same') ahead₅

private theorem erased_forTree (initializer : Option Stmt) (condition increment : Option Expr)
    (body : Stmt) : erased (forTree initializer condition increment body) =
      forTree (erased initializer) (erased condition) (erased increment) (erased body) := by
  cases initializer <;> cases condition <;> cases increment <;> rfl

private theorem same_forTree {i i' : Option Stmt} {c c' e e' : Option Expr} {a a' : Stmt}
    (hi : Same i i') (hc : Same c c') (he : Same e e') (ha : Same a a') :
    Same (forTree i c e a) (forTree i' c' e' a') := by
  unfold Same at hi hc he ha ⊢
  rw [erased_forTree, erased_forTree, hi, hc, he, ha]

private theorem gives_forStatement (h : CompletesStatement nested bound)
    {left semicolon right : Token} {ts ts' ts'' mid rest : List Token} {initializer : Option Stmt}
    {condition increment : Option Expr} {a : Stmt} (hleft : left.kind = .leftParen)
    (hinitializer : ForInitializer ts initializer ts')
    (hcondition : OptionalExpression ts' condition (semicolon :: ts''))
    (hsemicolon : semicolon.kind = .semicolon)
    (hincrement : OptionalExpression ts'' increment (right :: mid))
    (hright : right.kind = .rightParen) (hbody : StatementAt mid a rest)
    (short : ts.length ≤ bound) {s : ParseState} (ahead : s.ahead = left :: ts) :
    Gives (forStatement nested bound) s (Same (forTree initializer condition increment a))
      rest := by
  rw [forStatement_eq]
  have shorter₁ := hinitializer.behind.2
  have shorter₂ := hcondition.suffix.length_le
  have shorter₃ := hincrement.suffix.length_le
  simp only [List.length_cons] at shorter₂ shorter₃
  refine (Gives.expect ahead hleft).bind fun _ s₁ _ ahead₁ => ?_
  refine (gives_forInitializer hinitializer short ahead₁).bind fun i s₂ same₁ ahead₂ => ?_
  have second := gives_optionalExpression hcondition (by simp [closers, hsemicolon])
    (show ts'.length ≤ bound by omega) ahead₂
  rw [hsemicolon] at second
  refine second.bind fun c s₃ same₂ ahead₃ => ?_
  refine (Gives.expect ahead₃ hsemicolon).bind fun _ s₄ _ ahead₄ => ?_
  have third := gives_optionalExpression hincrement (by simp [closers, hright])
    (show ts''.length ≤ bound by omega) ahead₄
  rw [hright] at third
  refine third.bind fun e s₅ same₃ ahead₅ => ?_
  refine (Gives.expect ahead₅ hright).bind fun _ s₆ _ ahead₆ => ?_
  refine (h hbody trivial (by omega) ahead₆).bind fun a' s₇ same₄ ahead₇ => ?_
  refine .pure ?_ ahead₇
  rw [forLoop_eq]
  exact same_forTree same₁ same₂ same₃ same₄

private theorem gives_elseBranch (h : CompletesStatement nested bound) {elseWord : Token}
    {ts rest : List Token} {a : Stmt} (hword : elseWord.kind = .elseWord)
    (ha : StatementAt ts a rest) (short : ts.length ≤ bound) {s : ParseState}
    (ahead : s.ahead = elseWord :: ts) : Gives (elseBranch nested) s (Same (some a)) rest := by
  unfold elseBranch
  refine (Gives.acceptAny ahead (by simp [hword])).bind ?_
  rintro _ s₁ rfl ahead₁
  exact (h ha trivial short ahead₁).map fun a' same => congrArg some same

private theorem gives_ifStatement (h : CompletesStatement nested bound) {left right : Token}
    {ts mid mid' rest : List Token} {condition : Expr} {a : Stmt} {other : Option Stmt}
    (hleft : left.kind = .leftParen) (hcondition : Expression ts condition (right :: mid))
    (hright : right.kind = .rightParen) (hthen : StatementAt mid a mid')
    (helse : ∀ s : ParseState, s.ahead = mid' → Gives (elseBranch nested) s (Same other) rest)
    (short : ts.length ≤ bound) {s : ParseState} (ahead : s.ahead = left :: ts) :
    Gives (ifStatement nested bound) s (Same (.branch condition a other)) rest := by
  rw [ifStatement_eq]
  have shorter := hcondition.behind.tail.2
  refine (Gives.expect ahead hleft).bind fun _ s₁ _ ahead₁ => ?_
  refine (gives_expression hcondition (by simp [closers, hright]) short ahead₁).bind ?_
  intro c s₂ same₁ ahead₂
  refine (Gives.expect ahead₂ hright).bind fun _ s₃ _ ahead₃ => ?_
  refine (h hthen trivial (by omega) ahead₃).bind fun a' s₄ same₂ ahead₄ => ?_
  refine (helse s₄ ahead₄).bind fun other' s₅ same₃ ahead₅ => .pure ?_ ahead₅
  calc Stmt.branch (erased c) (erased a') (erased other')
      = .branch (erased condition) (erased a') (erased other') :=
        congrArg (Stmt.branch · _ _) same₁
    _ = .branch (erased condition) (erased a) (erased other) :=
        congrArg₂ (Stmt.branch _) same₂ same₃

private theorem gives_whileStatement (h : CompletesStatement nested bound) {left right : Token}
    {ts mid rest : List Token} {condition : Expr} {a : Stmt} (hleft : left.kind = .leftParen)
    (hcondition : Expression ts condition (right :: mid)) (hright : right.kind = .rightParen)
    (hbody : StatementAt mid a rest) (short : ts.length ≤ bound) {s : ParseState}
    (ahead : s.ahead = left :: ts) :
    Gives (whileStatement nested bound) s (Same (.loop condition a)) rest := by
  unfold whileStatement
  have shorter := hcondition.behind.tail.2
  refine (Gives.expect ahead hleft).bind fun _ s₁ _ ahead₁ => ?_
  refine (gives_expression hcondition (by simp [closers, hright]) short ahead₁).bind ?_
  intro c s₂ same₁ ahead₂
  refine (Gives.expect ahead₂ hright).bind fun _ s₃ _ ahead₃ => ?_
  exact (h hbody trivial (by omega) ahead₃).bind fun a' s₄ same₂ ahead₄ =>
    .pure (congrArg₂ Stmt.loop same₁ same₂) ahead₄

private theorem completes_statementWith (h : CompletesStatement nested bound)
    (hblock : CompletesBlock body bound) :
    CompletesStatement (statementWith nested body bound) (bound + 1) := by
  rintro ts a rest ⟨dangling, derivation, noElse⟩ _ short s ahead
  unfold statementWith
  cases derivation with
  | expression derivation =>
    have other := derivation.starts.disjoint [.forWord, .ifWord, .printWord,
      .returnWord, .whileWord, .leftBrace] (by decide)
    refine (Gives.acceptAny_none _ ahead other).bind ?_
    rintro _ s₁ rfl ahead₁
    exact gives_expressionStatement derivation short ahead₁
  | print kind value hsemicolon =>
    simp only [List.length_cons] at short
    refine (Gives.acceptAny ahead (by simp [kind])).bind ?_
    rintro _ s₁ rfl ahead₁
    simp only [kind]
    refine (gives_expression value (by simp [closers, hsemicolon]) (by omega) ahead₁).bind ?_
    intro e' s₂ same ahead₂
    exact (Gives.expect ahead₂ hsemicolon).bind fun _ s₃ _ ahead₃ =>
      .pure (congrArg Stmt.print same) ahead₃
  | ret kind value hsemicolon =>
    rename_i keyword semicolon ts value'
    simp only [List.length_cons] at short
    refine (Gives.acceptAny ahead (by simp [kind])).bind ?_
    rintro _ s₁ rfl ahead₁
    simp only [kind]
    have optional := gives_optionalExpression value (by simp [closers, hsemicolon])
      (show ts.length ≤ bound by omega) ahead₁
    rw [hsemicolon] at optional
    refine optional.bind fun v s₂ same ahead₂ => ?_
    exact (Gives.expect ahead₂ hsemicolon).bind fun _ s₃ _ ahead₃ =>
      .pure (congrArg (Stmt.ret keyword) same) ahead₃
  | loop kind hleft condition hright body =>
    simp only [List.length_cons] at short
    refine (Gives.acceptAny ahead (by simp [kind])).bind ?_
    rintro _ s₁ rfl ahead₁
    simp only [kind]
    exact gives_whileStatement h hleft condition hright ⟨_, body, noElse⟩ (by omega) ahead₁
  | ifThen kind hleft condition hright body =>
    simp only [List.length_cons] at short
    refine (Gives.acceptAny ahead (by simp [kind])).bind ?_
    rintro _ s₁ rfl ahead₁
    simp only [kind]
    refine gives_ifStatement h hleft condition hright ⟨_, body, fun _ => noElse rfl⟩
      (fun s₂ ahead₂ => ?_) (by omega) ahead₁
    have other : ∀ t ∈ rest.head?, t.kind ∉ [Kind.elseWord] := by
      intro t ht
      simpa using noElse rfl t ht
    refine (Gives.acceptAny_none _ ahead₂ other).bind ?_
    rintro _ s₃ rfl ahead₃
    exact .pure rfl ahead₃
  | ifElse kind hleft condition hright body hword closed other =>
    simp only [List.length_cons] at short
    have shorter₁ := condition.behind.tail.2
    have shorter₂ := body.behind.tail.2
    refine (Gives.acceptAny ahead (by simp [kind])).bind ?_
    rintro _ s₁ rfl ahead₁
    simp only [kind]
    exact gives_ifStatement h hleft condition hright ⟨_, body, by simp [closed rfl]⟩
      (fun s₂ ahead₂ => gives_elseBranch h hword ⟨_, other, noElse⟩ (by omega) ahead₂)
      (by omega) ahead₁
  | forLoop kind hleft hinitializer hcondition hsemicolon hincrement hright body =>
    simp only [List.length_cons] at short
    refine (Gives.acceptAny ahead (by simp [kind])).bind ?_
    rintro _ s₁ rfl ahead₁
    simp only [kind]
    exact gives_forStatement h hleft hinitializer hcondition hsemicolon hincrement hright
      ⟨_, body, noElse⟩ (by omega) ahead₁
  | block kind statements hright =>
    simp only [List.length_cons] at short
    refine (Gives.acceptAny ahead (by simp [kind])).bind ?_
    rintro _ s₁ rfl ahead₁
    simp only [kind]
    exact (hblock ⟨_, statements, hright⟩ trivial (by omega) ahead₁).map fun ss same =>
      congrArg Stmt.block same

def CompletesDeclaration (declaration : ParseM (Option Stmt)) (bound : Nat) : Prop :=
  ∀ ⦃ts a rest⦄, Declaration .nearestIf ts a rest → (∀ t ∈ rest.head?, t.kind ≠ .elseWord) →
    ts.length ≤ bound → ∀ ⦃s : ParseState⦄, s.ahead = ts →
      Gives declaration s (fun r => ∃ a', r = some a' ∧ Same a a') rest

private theorem completes_declarationWith (h : CompletesStatement nested bound)
    (hblock : CompletesBlock body bound) :
    CompletesDeclaration (recovering (declarationWith nested body bound)) (bound + 1) := by
  intro ts a rest derivation noElse short s ahead
  refine Gives.recovering ?_
  unfold declarationWith
  cases derivation with
  | statement statement =>
    have other := statement.starts.disjoint [.classWord, .funWord, .varWord] (by decide)
    refine (Gives.acceptAny_none _ ahead other).bind ?_
    rintro _ s₁ rfl ahead₁
    exact completes_statementWith h hblock ⟨_, statement, fun _ => noElse⟩ trivial short ahead₁
  | var derivation =>
    obtain ⟨keyword, us, rfl, word⟩ := derivation.starts
    have word := List.mem_singleton.mp word
    simp only [List.length_cons] at short
    refine (Gives.acceptAny ahead (by simp [word])).bind ?_
    rintro _ s₁ rfl ahead₁
    simp only [word]
    exact gives_varDeclaration derivation (by omega) ahead₁
  | function kind derivation =>
    simp only [List.length_cons] at short
    refine (Gives.acceptAny ahead (by simp [kind])).bind ?_
    rintro _ s₁ rfl ahead₁
    simp only [kind]
    exact (gives_function hblock .function bound derivation (by omega) (by omega) ahead₁).map
      fun decl same => congrArg Stmt.function same
  | classDecl kind hname hleft methods hright =>
    simp only [List.length_cons] at short
    refine (Gives.acceptAny ahead (by simp [kind])).bind ?_
    rintro _ s₁ rfl ahead₁
    simp only [kind]
    refine gives_classDeclaration hblock hname (fun s₂ ahead₂ => ?_) hleft methods hright
      (by omega) ahead₁
    unfold superclass
    refine (Gives.acceptAny_none [.less] ahead₂ (by simp [hleft])).bind ?_
    rintro _ s₃ rfl ahead₃
    exact .pure rfl ahead₃
  | subclass kind hname hless hsuper hleft methods hright =>
    simp only [List.length_cons] at short
    refine (Gives.acceptAny ahead (by simp [kind])).bind ?_
    rintro _ s₁ rfl ahead₁
    simp only [kind]
    refine gives_classDeclaration hblock hname (fun s₂ ahead₂ => ?_) hleft methods hright
      (by omega) ahead₁
    unfold superclass
    refine (Gives.acceptAny ahead₂ (by simp [hless])).bind ?_
    rintro _ s₃ rfl ahead₃
    refine (Gives.expect ahead₃ hsuper).bind ?_
    rintro _ s₄ rfl ahead₄
    exact (Gives.freshExpr ahead₄).bind fun _ s₅ _ ahead₅ => .pure rfl ahead₅

private theorem gives_declarationsFrom {declaration : ParseM (Option Stmt)}
    (h : CompletesDeclaration declaration bound) (inBlock : Bool) (n : Nat)
    {ts rest : List Token} {ss : List Stmt} (derivation : Declarations .nearestIf ts ss rest)
    (ends : EndsDeclarations inBlock rest) (short : ts.length ≤ n) (within : ts.length ≤ bound)
    {s : ParseState} (ahead : s.ahead = ts) :
    Gives (declarationsFrom declaration inBlock n) s (Same ss) rest := by
  induction n generalizing ts ss s with
  | zero =>
    unfold declarationsFrom
    cases derivation with
    | nil => exact .pure rfl ahead
    | cons first _ =>
      have some := first.behind.2
      omega
  | succ n ih =>
    unfold declarationsFrom
    refine (Gives.atEnd ahead).bind ?_
    rintro _ s₁ rfl ahead₁
    refine (Gives.check ahead₁).bind ?_
    rintro _ s₂ rfl ahead₂
    cases derivation with
    | nil =>
      have stop : (rest.isEmpty || inBlock && rest.head?.any (·.kind = .rightBrace)) = true := by
        rcases ends with rfl | ⟨rfl, t, us, rfl, kind⟩
        · rfl
        · simp [kind]
      rw [if_pos stop]
      exact .pure rfl ahead₂
    | cons first others =>
      rename_i mid a ss
      have shorter := first.behind.2
      have goOn : (ts.isEmpty || inBlock && ts.head?.any (·.kind = .rightBrace)) = false := by
        obtain ⟨t, us, rfl, start⟩ := first.starts
        have apart : ∀ k ∈ declarationStarts, k ≠ .rightBrace := by decide
        simp [apart _ start]
      have noElse : ∀ t ∈ mid.head?, t.kind ≠ .elseWord := by
        cases others with
        | nil =>
          rcases ends with rfl | ⟨_, t, us, rfl, kind⟩
          · simp
          · simp [kind]
        | cons second _ =>
          have apart := second.starts.disjoint [.elseWord] (by decide)
          simpa using apart
      rw [goOn]
      refine (h first noElse within ahead₂).bind ?_
      rintro _ s₃ ⟨a', rfl, same⟩ ahead₃
      refine (ih others (by omega) (by omega) ahead₃).bind fun ss' s₄ same' ahead₄ => ?_
      exact .pure (congrArg₂ List.cons same same') ahead₄

private theorem completes_block {declaration : ParseM (Option Stmt)}
    (h : CompletesDeclaration declaration bound) :
    CompletesBlock (block declaration bound) bound := by
  rintro ts ss rest ⟨closing, derivation, kind⟩ _ short s ahead
  unfold block
  refine (gives_declarationsFrom h true bound derivation (.inr ⟨rfl, closing, rest, rfl, kind⟩)
    short short ahead).bind fun ss' s₁ same ahead₁ => ?_
  exact (Gives.expect ahead₁ kind).bind fun _ s₂ _ ahead₂ => .pure same ahead₂

theorem completes_statement_declaration (bound : Nat) :
    CompletesStatement (statement bound) bound ∧
      CompletesDeclaration (declaration bound) bound := by
  induction bound with
  | zero =>
    constructor
    · rintro ts a rest ⟨_, derivation, _⟩ _ short
      have some := derivation.behind.2
      omega
    · intro ts a rest derivation _ short
      have some := derivation.behind.2
      omega
  | succ bound ih =>
    have block := completes_block ih.2
    rw [statement, declaration]
    exact ⟨completes_statementWith ih.1 block, completes_declarationWith ih.1 block⟩

end Parse

theorem parseProgram_complete {tokens : List Token} {tree : List Stmt}
    (h : Grammar.Program .nearestIf tokens tree) (labels : Labels) (lastLine : Nat) :
    ∃ program, (parseProgram labels tokens lastLine).result = .ok program ∧
      erased program = erased tree := by
  obtain ⟨program, state, run, same, _, none⟩ := Parse.gives_declarationsFrom
    (Parse.completes_statement_declaration tokens.length).2 false tokens.length h (.inl rfl)
    (Nat.le_refl _) (Nat.le_refl _) (s := Parse.start labels tokens lastLine) rfl
  exact ⟨program, parseProgram_ok_iff.mpr ⟨state, run, none⟩, same⟩

/-- An expression of the grammar parses, to its tree but for the numbers. -/
theorem parseExpression_complete {tokens : List Token} {tree : Expr}
    (h : Grammar.Expression tokens tree []) (labels : Labels) (lastLine : Nat) :
    ∃ e, (parseExpression labels tokens lastLine).result = .ok e ∧ erased e = erased tree := by
  have whole : Parse.Gives (Parse.wholeExpression tokens.length)
      (Parse.start labels tokens lastLine) (Same tree) [] := by
    unfold Parse.wholeExpression
    refine (Parse.completes_expression tokens.length h (by simp [Grammar.Ends])
      (Nat.le_refl _) rfl).bind fun e s same ahead => ?_
    refine (Parse.Gives.atEnd ahead).bind ?_
    rintro _ s' rfl ahead'
    exact .pure same ahead'
  obtain ⟨e, state, run, same, _, none⟩ := whole
  exact ⟨e, parseExpression_ok_iff.mpr ⟨state, run, none⟩, same⟩

end LoxLang
