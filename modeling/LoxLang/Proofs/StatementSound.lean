import LoxLang.Proofs.ExpressionSound

/-!
What the rules for statements and declarations accept is in the grammar.  A declaration that was
given up has noted an error, so a program without errors has skipped nothing, and an `else` is
always taken by the `if` that was opened last.
-/

set_option autoImplicit false
set_option relaxedAutoImplicit false

namespace LoxLang

namespace Parse

open Grammar

private theorem yields_optionalExpression (bound : Nat) (closing : Kind) :
    Yields (optionalExpression bound closing) (Reads OptionalExpression) := by
  unfold optionalExpression
  refine ((Yields.check closing).bind (R := fun _ => Reads OptionalExpression)
    fun empty => ?_).mono ?_
  · cases empty with
    | true =>
      refine (Yields.pure _).mono ?_
      rintro s _ _ ⟨rfl, rfl⟩
      exact ⟨.none, .nil Labels.le_rfl⟩
    | false =>
      refine (yields_expression bound).map.mono ?_
      rintro s _ s' ⟨e, rfl, he, numbered⟩
      exact ⟨.some he, numbered⟩
  · rintro s e s' ⟨_, _, ⟨rfl, _⟩, read⟩
    exact read

private theorem yields_expressionStatement (bound : Nat) :
    Yields (expressionStatement bound) (Reads ExpressionStatement) := by
  unfold expressionStatement
  refine ((yields_expression bound).bind fun e => (Yields.expect _ _).bind fun _ =>
    Yields.pure _).mono ?_
  rintro s _ s' ⟨e, s₁, ⟨he, numbered⟩, semicolon, _, ⟨kind, ahead, labels⟩, rfl, rfl⟩
  exact ⟨.intro (ahead ▸ he) kind, labels ▸ numbered⟩

def ReadsBehind {α : Type} [Labelled α] (word : Kind) (G : List Token → α → List Token → Prop)
    (s : ParseState) (a : α) (s' : ParseState) : Prop :=
  ∀ keyword : Token, keyword.kind = word → Reads (fun ts => G (keyword :: ts)) s a s'

private theorem yields_initializer (bound : Nat) :
    Yields (initializer bound) fun s r s' =>
      (r = none ∧ s' = s) ∨ ∃ e equals, r = some e ∧ equals.kind = .equal ∧
        ∃ ts, s.ahead = equals :: ts ∧ Expression ts e s'.ahead ∧
          Numbered s.labels e.labels s'.labels := by
  unfold initializer
  refine Yields.choice ((Yields.pure none).mono fun _ _ _ read _ => .inl read)
    fun equals member => (yields_expression bound).map.mono ?_
  rintro s _ s' ⟨e, rfl, he, numbered⟩
  exact .inr ⟨e, equals, rfl, List.mem_singleton.mp member, _, rfl, he, numbered⟩

private theorem yields_varDeclaration (bound : Nat) :
    Yields (varDeclaration bound) (ReadsBehind .varWord VarDeclaration) := by
  rw [varDeclaration_eq]
  refine ((Yields.expect _ _).bind fun name => (yields_initializer bound).bind fun i =>
    (Yields.expect _ _).bind fun _ => Yields.pure _).mono ?_
  rintro s _ s' ⟨name, s₁, ⟨hname, ahead₁, labels₁⟩, i, s₂, initialized, semicolon, _,
    ⟨kind, ahead, labels⟩, rfl, rfl⟩ keyword hkeyword
  rcases initialized with ⟨rfl, rfl⟩ | ⟨e, equals, rfl, hequals, ts, ahead₂, he, numbered⟩
  · refine ⟨?_, .nil (labels₁ ▸ labels ▸ Labels.le_rfl)⟩
    rw [ahead₁, ahead]
    exact .bare hkeyword hname kind
  · rw [ahead] at he
    rw [labels₁] at numbered
    refine ⟨?_, labels ▸ numbered⟩
    rw [ahead₁, ahead₂]
    exact .initialized hkeyword hname hequals he kind

def StatementAt (ts : List Token) (s : Stmt) (rest : List Token) : Prop :=
  ∃ dangling, Statement .nearestIf dangling ts s rest ∧
    (dangling = true → ∀ t ∈ rest.head?, t.kind ≠ .elseWord)

def BlockAt (ts : List Token) (body : List Stmt) (rest : List Token) : Prop :=
  ∃ closing : Token, Declarations .nearestIf ts body (closing :: rest) ∧
    closing.kind = .rightBrace

def ReadsDeclaration (s : ParseState) (r : Option Stmt) (s' : ParseState) : Prop :=
  ∃ a, r = some a ∧ Reads (Declaration .nearestIf) s a s'

def EndsDeclarations (inBlock : Bool) (ts : List Token) : Prop :=
  ts = [] ∨ inBlock = true ∧ ∃ t rest, ts = t :: rest ∧ t.kind = .rightBrace

private theorem yields_declarationsFrom {declaration : ParseM (Option Stmt)}
    (h : Yields declaration ReadsDeclaration) (inBlock : Bool) (bound : Nat) :
    Yields (declarationsFrom declaration inBlock bound) fun s ss s' =>
      Reads (Declarations .nearestIf) s ss s' ∧
        (s.ahead.length ≤ bound → EndsDeclarations inBlock s'.ahead) := by
  induction bound with
  | zero =>
    unfold declarationsFrom
    refine (Yields.pure _).mono ?_
    rintro s _ _ ⟨rfl, rfl⟩
    exact ⟨⟨.nil, .nil Labels.le_rfl⟩,
      fun none => .inl (List.length_eq_zero_iff.mp (Nat.le_zero.mp none))⟩
  | succ bound ih =>
    unfold declarationsFrom
    refine (Yields.atEnd.bind fun ended => (Yields.check .rightBrace).bind
      (R := fun closed s ss s' => if (ended || inBlock && closed) = true then ss = [] ∧ s' = s else
        ∃ first others s₁, ss = first :: others ∧ Reads (Declaration .nearestIf) s first s₁ ∧
          Reads (Declarations .nearestIf) s₁ others s' ∧
          (s₁.ahead.length ≤ bound → EndsDeclarations inBlock s'.ahead))
      fun closed => ?_).mono ?_
    · split
      · exact Yields.pure _
      · refine (h.bind fun first => ih.bind fun others => Yields.pure _).mono ?_
        rintro s _ s' ⟨_, s₁, ⟨first, rfl, read⟩, others, _, ⟨read', ends⟩, rfl, rfl⟩
        exact ⟨first, others, s₁, rfl, read, read', ends⟩
    · rintro s ss s' ⟨ended, _, ⟨rfl, hended⟩, closed, _, ⟨rfl, hclosed⟩, last⟩
      split at last
      · rename_i stop
        obtain ⟨rfl, rfl⟩ := last
        refine ⟨⟨.nil, .nil Labels.le_rfl⟩, fun _ => ?_⟩
        rcases Bool.or_eq_true_iff.mp stop with stop | stop
        · exact .inl (hended.mp stop)
        · obtain ⟨block, brace⟩ := (Bool.and_eq_true_iff.mp stop)
          exact .inr ⟨block, hclosed.mp brace⟩
      · obtain ⟨first, others, s₁, rfl, ⟨hfirst, numbered⟩, ⟨hothers, numbered'⟩, ends⟩ := last
        refine ⟨⟨.cons hfirst hothers, numbered.append numbered'⟩, fun within => ends ?_⟩
        have shorter := hfirst.behind.2
        omega

private theorem yields_block {declaration : ParseM (Option Stmt)}
    (h : Yields declaration ReadsDeclaration) (bound : Nat) :
    Yields (block declaration bound) (Reads BlockAt) := by
  unfold block
  refine ((yields_declarationsFrom h true bound).bind fun body => (Yields.expect _ _).bind
    fun _ => Yields.pure _).mono ?_
  rintro s _ s' ⟨body, s₁, ⟨⟨hbody, numbered⟩, _⟩, closing, _, ⟨kind, ahead, labels⟩, rfl, rfl⟩
  exact ⟨⟨closing, ahead ▸ hbody, kind⟩, labels ▸ numbered⟩

private theorem yields_paramsFrom (bound count : Nat) :
    Yields (paramsFrom bound count) fun s params s' =>
      ParameterList s.ahead params s'.ahead ∧ s'.labels = s.labels ∧
        count + params.length ≤ maxArity := by
  induction bound generalizing count with
  | zero =>
    unfold paramsFrom
    exact (Yields.fail _).mono fun _ _ _ h => h.elim
  | succ bound ih =>
    rw [paramsFrom_succ]
    refine ((yields_noteFull _ _).bind fun _ => (Yields.expect _ _).bind fun param => Yields.choice
      (R := fun s params s' => param.kind = .identifier → count < maxArity →
        ParameterList (param :: s.ahead) params s'.ahead ∧ s'.labels = s.labels ∧
          count + params.length ≤ maxArity)
      ((Yields.pure _).mono ?_) fun t comma => ?_).mono ?_
    · rintro s _ _ ⟨rfl, rfl⟩ _ kind within
      exact ⟨.one kind, rfl, within⟩
    · refine ((ih (count + 1)).bind fun others => Yields.pure _).mono ?_
      rintro s _ s' ⟨others, _, ⟨list, labels, limit⟩, rfl, rfl⟩ kind within
      refine ⟨.more kind (List.mem_singleton.mp comma) list, labels, ?_⟩
      simp only [List.length_cons]
      omega
    · rintro s params s' ⟨_, _, ⟨rfl, within⟩, param, s₁, ⟨kind, ahead, labels⟩, behind⟩
      obtain ⟨list, labels', limit⟩ := behind kind within
      exact ⟨ahead ▸ list, labels'.trans labels, limit⟩

private theorem yields_params (bound : Nat) :
    Yields (params bound) fun s params s' => Parameters s.ahead params s'.ahead ∧
      s'.labels = s.labels ∧ params.length ≤ maxArity := by
  unfold params
  refine ((Yields.check _).bind (R := fun _ s params s' => Parameters s.ahead params s'.ahead ∧
    s'.labels = s.labels ∧ params.length ≤ maxArity) fun empty => ?_).mono ?_
  · cases empty with
    | true =>
      refine (Yields.pure _).mono ?_
      rintro s _ _ ⟨rfl, rfl⟩
      exact ⟨.none, rfl, Nat.zero_le _⟩
    | false =>
      refine (yields_paramsFrom bound 0).mono ?_
      rintro s params s' ⟨list, labels, limit⟩
      exact ⟨.some list, labels, by omega⟩
  · rintro s params s' ⟨_, _, ⟨rfl, _⟩, read⟩
    exact read

private theorem yields_function (role : FunctionRole) {body : ParseM (List Stmt)}
    (h : Yields body (Reads BlockAt)) (bound : Nat) :
    Yields (function role body bound) (Reads (Function .nearestIf)) := by
  rw [function_eq]
  refine ((Yields.expect _ _).bind fun name => (Yields.expect _ _).bind fun _ =>
    (yields_params bound).bind fun params => (Yields.expect _ _).bind fun _ =>
    (Yields.expect _ _).bind fun _ => h.bind fun statements => Yields.freshSite.bind fun site =>
    Yields.pure _).mono ?_
  rintro s _ s' ⟨name, s₁, ⟨hname, ahead₁, labels₁⟩, left, s₂, ⟨hleft, ahead₂, labels₂⟩,
    params, s₃, ⟨hparams, labels₃, limit⟩, right, s₄, ⟨hright, ahead₄, labels₄⟩, opening, s₅,
    ⟨hopening, ahead₅, labels₅⟩, statements, s₆, ⟨⟨closing, hbody, hclosing⟩, numbered⟩, site, _,
    ⟨ahead, fresh⟩, rfl, rfl⟩
  rw [labels₅, labels₄, labels₃, labels₂, labels₁] at numbered
  refine ⟨?_, numbered.append fresh⟩
  rw [ahead₄, ahead₅] at hparams
  rw [ahead₁, ahead₂, ahead]
  exact .intro hname hleft hparams hright limit hopening hbody hclosing

private theorem yields_methodsFrom {body : ParseM (List Stmt)} (h : Yields body (Reads BlockAt))
    (bound : Nat) : Yields (methodsFrom body bound) (Reads (Methods .nearestIf)) := by
  induction bound with
  | zero =>
    unfold methodsFrom
    refine (Yields.pure _).mono ?_
    rintro s _ _ ⟨rfl, rfl⟩
    exact ⟨.nil, .nil Labels.le_rfl⟩
  | succ bound ih =>
    unfold methodsFrom
    refine (Yields.atEnd.bind fun ended => (Yields.check .rightBrace).bind
      (R := fun _ => Reads (Methods .nearestIf)) fun closed => ?_).mono ?_
    · split
      · refine (Yields.pure _).mono ?_
        rintro s _ _ ⟨rfl, rfl⟩
        exact ⟨.nil, .nil Labels.le_rfl⟩
      · refine ((yields_function .method h bound).bind fun first => ih.bind fun others =>
          Yields.pure _).mono ?_
        rintro s _ s' ⟨first, s₁, ⟨hfirst, numbered⟩, others, _, ⟨hothers, numbered'⟩, rfl, rfl⟩
        exact ⟨.cons hfirst hothers, numbered.append numbered'⟩
    · rintro s ms s' ⟨_, _, ⟨rfl, _⟩, _, _, ⟨rfl, _⟩, read⟩
      exact read

private theorem yields_superclass :
    Yields superclass fun s r s' => (r = none ∧ s' = s) ∨
      ∃ id less name, r = some (.variable id name) ∧ less.kind = .less ∧ name.kind = .identifier ∧
        s.ahead = less :: name :: s'.ahead ∧ Numbered s.labels [.expr id] s'.labels := by
  unfold superclass
  refine Yields.choice ((Yields.pure none).mono fun _ _ _ read _ => .inl read)
    fun less member => ((Yields.expect _ _).bind fun name => Yields.freshExpr.bind fun id =>
      Yields.pure _).mono ?_
  rintro s _ s' ⟨name, s₁, ⟨kind, ahead, labels⟩, id, _, ⟨ahead', numbered⟩, rfl, rfl⟩
  rw [labels] at numbered
  have tokens : less :: s.ahead = less :: name :: s'.ahead := by rw [ahead, ahead']
  exact .inr ⟨id, less, name, rfl, List.mem_singleton.mp member, kind, tokens, numbered⟩

private theorem yields_classDeclaration {body : ParseM (List Stmt)}
    (h : Yields body (Reads BlockAt))
    (bound : Nat) : Yields (classDeclaration body bound)
      (ReadsBehind .classWord (Declaration .nearestIf)) := by
  rw [classDeclaration_eq]
  refine ((Yields.expect _ _).bind fun name => yields_superclass.bind fun c =>
    (Yields.expect _ _).bind fun _ => (yields_methodsFrom h bound).bind fun methods =>
    (Yields.expect _ _).bind fun _ => Yields.pure _).mono ?_
  rintro s _ s' ⟨name, s₁, ⟨hname, ahead₁, labels₁⟩, c, s₂, derived, left, s₃,
    ⟨hleft, ahead₃, labels₃⟩, methods, s₄, ⟨hmethods, numbered⟩, right, _,
    ⟨hright, ahead, labels⟩, rfl, rfl⟩ keyword hkeyword
  rw [ahead] at hmethods
  rw [labels₃, ← labels] at numbered
  rcases derived with ⟨rfl, rfl⟩ | ⟨id, less, superName, rfl, hless, hsuper, ahead₂, fresh⟩
  · refine ⟨?_, labels₁ ▸ numbered⟩
    rw [ahead₁, ahead₃]
    exact .classDecl hkeyword hname hleft hmethods hright
  · refine ⟨?_, labels₁ ▸ fresh.append numbered⟩
    rw [ahead₁, ahead₂, ahead₃]
    exact .subclass hkeyword hname hless hsuper hleft hmethods hright

private theorem yields_forInitializer (bound : Nat) :
    Yields (forInitializer bound) (Reads ForInitializer) := by
  unfold forInitializer
  refine Yields.choice ((yields_expressionStatement bound).map.mono ?_) fun t member => ?_
  · rintro s _ s' ⟨i, rfl, hi, numbered⟩ _
    exact ⟨.expression hi, numbered⟩
  · dsimp only
    split
    · rename_i kind
      refine (Yields.pure _).mono ?_
      rintro s _ _ ⟨rfl, rfl⟩
      exact ⟨.none kind, .nil Labels.le_rfl⟩
    · rename_i kind
      refine (yields_varDeclaration bound).map.mono ?_
      rintro s _ s' ⟨i, rfl, read⟩
      have word : t.kind = .varWord := by simpa [kind] using member
      obtain ⟨hi, numbered⟩ := read t word
      exact ⟨.var hi, numbered⟩

theorem forLoop_eq (initializer : Option Stmt) (condition increment : Option Expr)
    (body : Stmt) : forLoop initializer condition increment body =
      forTree initializer condition increment body := by
  cases initializer <;> cases increment <;> rfl

private theorem labels_forTree (initializer : Option Stmt) (condition increment : Option Expr)
    (body : Stmt) : (Stmt.labelsOption initializer ++ (Expr.labelsOption condition ++
        (Expr.labelsOption increment ++ body.labels))).Perm
      (forTree initializer condition increment body).labels := by
  have inner : (Expr.labelsOption increment ++ body.labels).Perm
      (forBody increment body).labels := by
    cases increment with
    | none => exact .refl _
    | some e =>
      simpa [forBody, Stmt.labels, Stmt.labelsAll, Expr.labelsOption] using List.perm_append_comm
  have loop : (Expr.labelsOption condition ++ (Expr.labelsOption increment ++ body.labels)).Perm
      (Stmt.loop (condition.getD (.literal (.bool true))) (forBody increment body)).labels := by
    cases condition with
    | none => exact inner
    | some e => exact inner.append_left _
  cases initializer with
  | none => exact loop
  | some s =>
    simpa [forTree, Stmt.labels, Stmt.labelsAll, Stmt.labelsOption] using loop.append_left s.labels

variable {nested : ParseM Stmt}

private theorem yields_forStatement (h : Yields nested (Reads StatementAt)) (bound : Nat) :
    Yields (forStatement nested bound) (ReadsBehind .forWord StatementAt) := by
  rw [forStatement_eq]
  refine ((Yields.expect _ _).bind fun _ => (yields_forInitializer bound).bind fun initializer =>
    (yields_optionalExpression bound _).bind fun condition => (Yields.expect _ _).bind fun _ =>
    (yields_optionalExpression bound _).bind fun increment => (Yields.expect _ _).bind fun _ =>
    h.bind fun body => Yields.pure _).mono ?_
  rintro s _ s' ⟨left, s₁, ⟨hleft, ahead₁, labels₁⟩, initializer, s₂, ⟨hinitializer, numbered₂⟩,
    condition, s₃, ⟨hcondition, numbered₃⟩, semicolon, s₄, ⟨hsemicolon, ahead₄, labels₄⟩,
    increment, s₅, ⟨hincrement, numbered₅⟩, right, s₆, ⟨hright, ahead₆, labels₆⟩, body, _,
    ⟨⟨dangling, hbody, noElse⟩, numbered⟩, rfl, rfl⟩ keyword hkeyword
  rw [ahead₄] at hcondition
  rw [ahead₆] at hincrement
  rw [labels₁] at numbered₂
  rw [labels₄] at numbered₅
  rw [labels₆] at numbered
  rw [forLoop_eq]
  refine ⟨⟨dangling, ?_, noElse⟩, ?_⟩
  · rw [ahead₁]
    exact .forLoop hkeyword hleft hinitializer hcondition hsemicolon hincrement hright hbody
  · exact (numbered₂.append (numbered₃.append (numbered₅.append numbered))).perm
      (labels_forTree initializer condition increment body)

private theorem yields_elseBranch (h : Yields nested (Reads StatementAt)) :
    Yields (elseBranch nested) fun s r s' =>
      (r = none ∧ s' = s ∧ ∀ t ∈ s.ahead.head?, t.kind ≠ .elseWord) ∨
        ∃ a elseWord ts, r = some a ∧ elseWord.kind = .elseWord ∧ s.ahead = elseWord :: ts ∧
          StatementAt ts a s'.ahead ∧ Numbered s.labels a.labels s'.labels := by
  unfold elseBranch
  refine Yields.choice ((Yields.pure none).mono ?_) fun word member => h.map.mono ?_
  · rintro s _ _ ⟨rfl, rfl⟩ other
    exact .inl ⟨rfl, rfl, fun t ahead => by simpa using other t ahead⟩
  · rintro s _ s' ⟨a, rfl, ha, numbered⟩
    exact .inr ⟨a, word, _, rfl, List.mem_singleton.mp member, rfl, ha, numbered⟩

private theorem yields_ifStatement (h : Yields nested (Reads StatementAt)) (bound : Nat) :
    Yields (ifStatement nested bound) (ReadsBehind .ifWord StatementAt) := by
  rw [ifStatement_eq]
  refine ((Yields.expect _ _).bind fun _ => (yields_expression bound).bind fun condition =>
    (Yields.expect _ _).bind fun _ => h.bind fun thenBranch =>
    (yields_elseBranch h).bind fun elseBranch => Yields.pure _).mono ?_
  rintro s _ s' ⟨left, s₁, ⟨hleft, ahead₁, labels₁⟩, condition, s₂, ⟨hcondition, numbered₂⟩,
    right, s₃, ⟨hright, ahead₃, labels₃⟩, thenBranch, s₄, ⟨⟨before, hthen, noElse⟩, numbered₄⟩,
    elseBranch, _, last, rfl, rfl⟩ keyword hkeyword
  rw [ahead₃] at hcondition
  rw [labels₁] at numbered₂
  rw [labels₃] at numbered₄
  unfold Reads
  rw [ahead₁]
  rcases last with ⟨rfl, rfl, noElse'⟩ | ⟨a, word, ts, rfl, hword, ahead₄, ha, numbered⟩
  · refine ⟨⟨true, .ifThen hkeyword hleft hcondition hright hthen, fun _ => noElse'⟩, ?_⟩
    simpa [Labelled.labels, Stmt.labels, Stmt.labelsOption] using numbered₂.append numbered₄
  · obtain ⟨dangling, helse, noElse'⟩ := ha
    have closed : before = false := by
      cases before with
      | false => rfl
      | true => exact absurd hword (noElse rfl word (by rw [ahead₄]; rfl))
    subst closed
    rw [ahead₄] at hthen
    refine ⟨⟨dangling, .ifElse hkeyword hleft hcondition hright hthen hword (fun _ => rfl) helse,
      noElse'⟩, ?_⟩
    simpa [Labelled.labels, Stmt.labels, Stmt.labelsOption] using
      numbered₂.append (numbered₄.append numbered)

private theorem yields_printStatement (bound : Nat) :
    Yields (printStatement bound) (ReadsBehind .printWord StatementAt) := by
  unfold printStatement
  refine ((yields_expression bound).bind fun e => (Yields.expect _ _).bind fun _ =>
    Yields.pure _).mono ?_
  rintro s _ s' ⟨e, s₁, ⟨he, numbered⟩, semicolon, _, ⟨kind, ahead, labels⟩, rfl, rfl⟩ keyword
    hkeyword
  exact ⟨⟨false, .print hkeyword (ahead ▸ he) kind, by simp⟩, labels ▸ numbered⟩

private theorem yields_returnStatement (keyword : Token) (hkeyword : keyword.kind = .returnWord)
    (bound : Nat) : Yields (returnStatement keyword bound)
      (Reads fun ts => StatementAt (keyword :: ts)) := by
  unfold returnStatement
  refine ((yields_optionalExpression bound _).bind fun value => (Yields.expect _ _).bind fun _ =>
    Yields.pure _).mono ?_
  rintro s _ s' ⟨value, s₁, ⟨hvalue, numbered⟩, semicolon, _, ⟨kind, ahead, labels⟩, rfl, rfl⟩
  exact ⟨⟨false, .ret hkeyword (ahead ▸ hvalue) kind, by simp⟩, labels ▸ numbered⟩

private theorem yields_whileStatement (h : Yields nested (Reads StatementAt)) (bound : Nat) :
    Yields (whileStatement nested bound) (ReadsBehind .whileWord StatementAt) := by
  unfold whileStatement
  refine ((Yields.expect _ _).bind fun _ => (yields_expression bound).bind fun condition =>
    (Yields.expect _ _).bind fun _ => h.bind fun body => Yields.pure _).mono ?_
  rintro s _ s' ⟨left, s₁, ⟨hleft, ahead₁, labels₁⟩, condition, s₂, ⟨hcondition, numbered₂⟩,
    right, s₃, ⟨hright, ahead₃, labels₃⟩, body, _, ⟨⟨dangling, hbody, noElse⟩, numbered⟩,
    rfl, rfl⟩ keyword hkeyword
  rw [ahead₃] at hcondition
  rw [labels₁] at numbered₂
  rw [labels₃] at numbered
  refine ⟨⟨dangling, ?_, noElse⟩, numbered₂.append numbered⟩
  rw [ahead₁]
  exact .loop hkeyword hleft hcondition hright hbody

private theorem yields_statementWith {body : ParseM (List Stmt)}
    (h : Yields nested (Reads StatementAt)) (hbody : Yields body (Reads BlockAt))
    (bound : Nat) : Yields (statementWith nested body bound) (Reads StatementAt) := by
  unfold statementWith
  refine Yields.choice ((yields_expressionStatement _).mono ?_) fun t member => ?_
  · rintro s a s' ⟨ha, numbered⟩ _
    exact ⟨⟨false, .expression ha, by simp⟩, numbered⟩
  · dsimp only
    split
    · rename_i kind
      exact (yields_forStatement h bound).mono fun _ _ _ read => read t kind
    · rename_i kind
      exact (yields_ifStatement h bound).mono fun _ _ _ read => read t kind
    · rename_i kind
      exact (yields_printStatement bound).mono fun _ _ _ read => read t kind
    · rename_i kind
      exact (yields_returnStatement t kind bound).mono fun _ _ _ read => read
    · rename_i kind
      exact (yields_whileStatement h bound).mono fun _ _ _ read => read t kind
    · refine hbody.map.mono ?_
      rintro s _ s' ⟨ss, rfl, ⟨closing, hss, hclosing⟩, numbered⟩
      have kind : t.kind = .leftBrace := by simp_all
      exact ⟨⟨false, .block kind hss hclosing, by simp⟩, numbered⟩

private theorem yields_declarationWith {body : ParseM (List Stmt)}
    (h : Yields nested (Reads StatementAt)) (hbody : Yields body (Reads BlockAt))
    (bound : Nat) :
    Yields (declarationWith nested body bound) (Reads (Declaration .nearestIf)) := by
  unfold declarationWith
  refine Yields.choice ((yields_statementWith h hbody bound).mono ?_) fun t member => ?_
  · rintro s a s' ⟨⟨dangling, ha, _⟩, numbered⟩ _
    exact ⟨.statement ha, numbered⟩
  · dsimp only
    split
    · rename_i kind
      exact (yields_classDeclaration hbody bound).mono fun _ _ _ read => read t kind
    · rename_i kind
      refine (yields_function .function hbody bound).map.mono ?_
      rintro s _ s' ⟨decl, rfl, hdecl, numbered⟩
      exact ⟨.function kind hdecl, numbered⟩
    · refine (yields_varDeclaration bound).mono ?_
      intro s a s' read
      have kind : t.kind = .varWord := by simp_all
      exact ⟨.var (read t kind).1, (read t kind).2⟩

theorem yields_statement_declaration (bound : Nat) :
    Yields (statement bound) (Reads StatementAt) ∧ Yields (declaration bound) ReadsDeclaration := by
  induction bound with
  | zero =>
    unfold statement declaration
    refine ⟨(yields_expressionStatement 0).mono ?_,
      (yields_expressionStatement 0).recovering.mono ?_⟩
    · rintro s a s' ⟨ha, numbered⟩
      exact ⟨⟨false, .expression ha, by simp⟩, numbered⟩
    · rintro s _ s' ⟨a, rfl, ha, numbered⟩
      exact ⟨a, rfl, .statement (.expression ha), numbered⟩
  | succ bound ih =>
    have body := yields_block ih.2 bound
    rw [statement, declaration]
    exact ⟨yields_statementWith ih.1 body bound, (yields_declarationWith ih.1 body bound).recovering⟩

private theorem yields_wholeExpression (bound : Nat) : Yields (wholeExpression bound) fun s e s' =>
    Expression s.ahead e [] ∧ Numbered s.labels e.labels s'.labels := by
  unfold wholeExpression
  refine ((yields_expression bound).bind fun e => Yields.atEnd.bind
    (R := fun ended s e' s' => ended = true ∧ e' = e ∧ s' = s) fun ended => ?_).mono ?_
  · cases ended with
    | true => exact (Yields.pure e).mono fun _ _ _ h => ⟨rfl, h⟩
    | false => exact (Yields.fail _).mono fun _ _ _ h => h.elim
  · rintro s _ _ ⟨e, s₁, ⟨he, numbered⟩, _, _, ⟨rfl, ended⟩, finished, rfl, rfl⟩
    rw [ended.mp finished] at he
    exact ⟨he, numbered⟩

end Parse

/-- A program that parses is one of the grammar, in which each `else` belongs to the nearest `if`,
and it carries the numbers that the parser handed out. -/
theorem parseProgram_sound {labels : Labels} {tokens : List Token} {lastLine : Nat}
    {program : List Stmt} (h : (parseProgram labels tokens lastLine).result = .ok program) :
    Grammar.Program .nearestIf tokens program ∧
      Numbered labels (Stmt.labelsAll program) (parseProgram labels tokens lastLine).labels := by
  obtain ⟨state, run, none⟩ := parseProgram_ok_iff.mp h
  obtain ⟨⟨derivation, numbered⟩, ends⟩ := (Parse.yields_declarationsFrom
    (Parse.yields_statement_declaration tokens.length).2 false tokens.length).result run none
  rcases ends (Nat.le_refl _) with finished | ⟨impossible, _⟩
  · rw [finished] at derivation
    rw [parseProgram_labels, run]
    exact ⟨derivation, numbered⟩
  · cases impossible

/-- An expression that parses is one of the grammar, with the numbers that were handed out. -/
theorem parseExpression_sound {labels : Labels} {tokens : List Token} {lastLine : Nat}
    {e : Expr} (h : (parseExpression labels tokens lastLine).result = .ok e) :
    Grammar.Expression tokens e [] ∧
      Numbered labels e.labels (parseExpression labels tokens lastLine).labels := by
  obtain ⟨state, run, none⟩ := parseExpression_ok_iff.mp h
  obtain ⟨derivation, numbered⟩ := (Parse.yields_wholeExpression tokens.length).result run none
  rw [parseExpression_labels, run]
  exact ⟨derivation, numbered⟩

theorem parseProgram_labels_le (labels : Labels) (tokens : List Token) (lastLine : Nat) :
    labels ≤ (parseProgram labels tokens lastLine).labels := by
  rw [parseProgram_labels]
  exact (Parse.yields_declarationsFrom (Parse.yields_statement_declaration tokens.length).2 false
    tokens.length).labels (Parse.start labels tokens lastLine)

theorem parseExpression_labels_le (labels : Labels) (tokens : List Token) (lastLine : Nat) :
    labels ≤ (parseExpression labels tokens lastLine).labels := by
  rw [parseExpression_labels]
  exact (Parse.yields_wholeExpression tokens.length).labels (Parse.start labels tokens lastLine)

end LoxLang
