import LoxLang.Proofs.LaterLines
import LoxLang.Proofs.ParserLogic
import LoxLang.Proofs.RuleParts

/-!
The numbers from which a parser starts show in nothing but the numbers of the trees, and the lines
on which its tokens stand in nothing but the lines of trees and errors: started from greater numbers
with tokens on other lines it accepts the same tokens, notes the same errors on the other lines, and
gives the same trees with all numbers greater by as much, on the other lines.
-/

set_option autoImplicit false
set_option relaxedAutoImplicit false

namespace LoxLang

/-- Marks that are greater by some counts. -/
def Labels.plus (l j : Labels) : Labels := ⟨l.expr + j.expr, l.site + j.site⟩

def shifted {α : Type} [Renumberable α] (j : Labels) : α → α :=
  Renumberable.renumber (· + j.expr) (· + j.site)

def SyntaxError.reline (line : Nat → Nat) (e : SyntaxError) : SyntaxError :=
  { e with token := e.token.reline line }

structure Change where
  labels : Labels
  line : Nat → Nat

def changed {α : Type} [Renumberable α] [Relinable α] (q : Change) (a : α) : α :=
  shifted q.labels (relined q.line a)

namespace Parse

def changeState (q : Change) (s : ParseState) : ParseState where
  ahead := s.ahead.map (Token.reline q.line)
  lastLine := q.line s.lastLine
  labels := s.labels.plus q.labels
  errors := s.errors.map (SyntaxError.reline q.line)

def Uniform {α β : Type} (q : Change) (f : α → β) (rule : ParseM α) (rule' : ParseM β) : Prop :=
  ∀ s, outcome rule' (changeState q s) =
    (((outcome rule s).1.map f).mapError (SyntaxError.reline q.line),
      changeState q (outcome rule s).2)

private theorem head?_relined (line : Nat → Nat) (ahead : List Token) (lastLine : Nat) :
    (ahead.map (Token.reline line)).head?.getD (.atEnd (line lastLine)) =
      (ahead.head?.getD (.atEnd lastLine)).reline line := by
  cases ahead <;> rfl

private theorem skipFrom_relined (line : Nat → Nat) (last : Token) (ts : List Token) :
    skipFrom (last.reline line) (ts.map (Token.reline line)) =
      (skipFrom last ts).map (Token.reline line) := by
  induction ts generalizing last with
  | nil => rfl
  | cons t ts ih =>
    rw [List.map_cons, skipFrom, skipFrom, ih, Token.reline_kind, Token.reline_kind]
    split
    · rfl
    · split <;> rfl

private theorem skipToBoundary_relined (line : Nat → Nat) (ts : List Token) :
    skipToBoundary (ts.map (Token.reline line)) = (skipToBoundary ts).map (Token.reline line) := by
  cases ts with
  | nil => rfl
  | cons t ts => exact skipFrom_relined line t ts

namespace Uniform

variable {α α' β β' : Type} {q : Change} {f : α → α'} {g : β → β'}

private theorem pure {a : α} {a' : α'} (h : a' = f a) : Uniform q f (pure a) (pure a') := by
  subst h
  exact fun _ => rfl

private theorem bind {rule : ParseM α} {rule' : ParseM α'} {next : α → ParseM β}
    {next' : α' → ParseM β'} (first : Uniform q f rule rule')
    (second : ∀ a, Uniform q g (next a) (next' (f a))) :
    Uniform q g (rule >>= next) (rule' >>= next') := by
  intro s
  rw [outcome_bind, outcome_bind, first s]
  rcases outcome rule s with ⟨_ | a, s'⟩
  · rfl
  · exact second a s'

private theorem map {rule : ParseM α} {rule' : ParseM α'} {h : α → β} {h' : α' → β'}
    (first : Uniform q f rule rule') (commute : ∀ a, h' (f a) = g (h a)) :
    Uniform q g (h <$> rule) (h' <$> rule') := by
  intro s
  rw [outcome_map, outcome_map, first s]
  rcases outcome rule s with ⟨_ | a, s'⟩
  · rfl
  · exact congrArg (fun b => (Except.ok b, changeState q s')) (commute a)

private theorem fail (expected : Expected) : Uniform q f (fail expected) (Parse.fail expected) := by
  intro s
  rw [outcome_fail, outcome_fail, changeState, head?_relined]
  rfl

private theorem report (e : SyntaxError) :
    Uniform q id (report e) (Parse.report (e.reline q.line)) := by
  intro s
  rw [outcome_report, outcome_report, changeState, changeState, List.map_append]
  rfl

private theorem peek : Uniform q (Token.reline q.line) peek peek := by
  intro s
  rw [outcome_peek, outcome_peek, changeState, head?_relined]
  rfl

private theorem atEnd : Uniform q id atEnd atEnd := by
  rintro ⟨ahead, lastLine, labels, errors⟩
  cases ahead <;> rfl

private theorem check (kind : Kind) : Uniform q id (check kind) (Parse.check kind) := by
  rintro ⟨ahead, lastLine, labels, errors⟩
  cases ahead <;> rfl

private theorem acceptAny (kinds : List Kind) :
    Uniform q (Option.map (Token.reline q.line)) (acceptAny kinds) (Parse.acceptAny kinds) := by
  rintro ⟨ahead, lastLine, labels, errors⟩
  rw [outcome_acceptAny, outcome_acceptAny]
  cases ahead with
  | nil => rfl
  | cons t ahead =>
    simp only [changeState, List.map_cons, Token.reline_kind]
    split <;> rfl

private theorem accept (kind : Kind) :
    Uniform q (Option.map (Token.reline q.line)) (accept kind) (Parse.accept kind) :=
  acceptAny _

private theorem expect (kind : Kind) (expected : Expected) :
    Uniform q (Token.reline q.line) (expect kind expected) (Parse.expect kind expected) := by
  refine (accept kind).bind ?_
  rintro (_ | t)
  · exact fail expected
  · exact pure rfl

private theorem noteFull (count : Nat) (fault : SyntaxFault) :
    Uniform q id (noteFull count fault) (Parse.noteFull count fault) := by
  unfold Parse.noteFull
  split
  · exact peek.bind fun t => report ⟨t, fault⟩
  · exact pure rfl

private theorem freshExpr : Uniform q (· + q.labels.expr) freshExpr freshExpr := by
  intro s
  simp only [outcome_freshExpr, changeState, Labels.plus, Except.map, Nat.add_right_comm]
  rfl

private theorem freshSite : Uniform q (· + q.labels.site) freshSite freshSite := by
  intro s
  simp only [outcome_freshSite, changeState, Labels.plus, Except.map, Nat.add_right_comm]
  rfl

private theorem recovering {rule rule' : ParseM Stmt} (h : Uniform q (changed q) rule rule') :
    Uniform q (Option.map (changed q)) (recovering rule) (Parse.recovering rule') := by
  intro s
  rw [outcome_recovering, outcome_recovering, h s]
  rcases outcome rule s with ⟨e | a, s'⟩
  · simp only [Except.map, changeState, ← skipToBoundary_relined, List.map_append]
    rfl
  · rfl

end Uniform

variable {q : Change} {inner : ParseM Expr}

private theorem uniform_primary (h : Uniform q (changed q) inner inner) :
    Uniform q (changed q) (primary inner) (primary inner) := by
  refine (Uniform.acceptAny _).bind ?_
  rintro (_ | t)
  · exact .fail _
  · dsimp only [Option.map_some, Token.reline_kind]
    split
    · exact .pure rfl
    · exact .pure rfl
    · exact .pure rfl
    · exact .pure rfl
    · exact .pure rfl
    · exact Uniform.freshExpr.bind fun id => .pure rfl
    · exact (Uniform.expect _ _).bind fun _ => (Uniform.expect _ _).bind fun method =>
        Uniform.freshExpr.bind fun id => .pure rfl
    · exact Uniform.freshExpr.bind fun id => .pure rfl
    · exact h.bind fun e => (Uniform.expect _ _).bind fun _ => .pure rfl

private theorem uniform_argumentsFrom (h : Uniform q (changed q) inner inner) (bound count : Nat) :
    Uniform q (changed q) (argumentsFrom inner bound count) (argumentsFrom inner bound count) := by
  induction bound generalizing count with
  | zero => exact .fail _
  | succ bound ih =>
    rw [argumentsFrom_succ]
    refine (Uniform.noteFull _ _).bind fun _ => h.bind fun e => (Uniform.accept _).bind ?_
    rintro (_ | t)
    · exact .pure rfl
    · exact (ih (count + 1)).bind fun others => .pure rfl

private theorem uniform_arguments (h : Uniform q (changed q) inner inner) (bound : Nat) :
    Uniform q (changed q) (arguments inner bound) (arguments inner bound) := by
  refine (Uniform.check _).bind fun empty => ?_
  dsimp only [id]
  split
  · exact .pure rfl
  · exact uniform_argumentsFrom h bound 0

private theorem uniform_callsFrom (h : Uniform q (changed q) inner inner) (bound : Nat) (e : Expr) :
    Uniform q (changed q) (callsFrom inner bound e) (callsFrom inner bound (changed q e)) := by
  induction bound generalizing e with
  | zero => exact .pure rfl
  | succ bound ih =>
    refine (Uniform.acceptAny _).bind ?_
    rintro (_ | t)
    · exact .pure rfl
    · dsimp only [Option.map_some]
      rw [Token.reline_kind]
      split
      · exact (uniform_arguments h bound).bind fun args => (Uniform.expect _ _).bind fun paren =>
          ih (.call e paren args)
      · exact (Uniform.expect _ _).bind fun name => ih (.get e name)

private theorem uniform_unary (h : Uniform q (changed q) inner inner) (bound : Nat) :
    Uniform q (changed q) (unary inner bound) (unary inner bound) := by
  induction bound with
  | zero => exact .fail _
  | succ bound ih =>
    refine (Uniform.acceptAny _).bind ?_
    rintro (_ | t)
    · exact (uniform_primary h).bind fun e => uniform_callsFrom h bound e
    · exact ih.bind fun e => .pure rfl

def Level.Keeps (q : Change) (level : Level) : Prop :=
  ∀ operator a b, level.node (operator.reline q.line) (changed q a) (changed q b) =
    changed q (level.node operator a b)

private theorem uniform_chainFrom {level : Level} (hlevel : level.Keeps q) {operand : ParseM Expr}
    (h : Uniform q (changed q) operand operand) (bound : Nat) (left : Expr) :
    Uniform q (changed q) (chainFrom level operand bound left)
      (chainFrom level operand bound (changed q left)) := by
  induction bound generalizing left with
  | zero => exact .pure rfl
  | succ bound ih =>
    refine (Uniform.acceptAny _).bind ?_
    rintro (_ | t)
    · exact .pure rfl
    · refine h.bind fun right => ?_
      have next := ih (level.node t left right)
      rw [← hlevel] at next
      exact next

private theorem uniform_ofLevels (h : Uniform q (changed q) inner inner) (bound : Nat)
    {levels : List Level} (hlevels : ∀ level ∈ levels, level.Keeps q) :
    Uniform q (changed q) (ofLevels inner bound levels) (ofLevels inner bound levels) := by
  induction levels with
  | nil => exact uniform_unary h bound
  | cons level rest ih =>
    have operand := ih fun l hl => hlevels l (List.mem_cons_of_mem _ hl)
    exact operand.bind fun left =>
      uniform_chainFrom (hlevels level List.mem_cons_self) operand bound left

private theorem levels_keep : ∀ level ∈ levels, level.Keeps q := by
  intro level member
  simp only [levels, List.mem_cons, List.not_mem_nil, or_false] at member
  rcases member with rfl | rfl | rfl | rfl | rfl | rfl <;> exact fun _ _ _ => rfl

private theorem uniform_assignment (h : Uniform q (changed q) inner inner) (bound : Nat) :
    Uniform q (changed q) (assignment inner bound) (assignment inner bound) := by
  refine (uniform_ofLevels h bound levels_keep).bind fun target => (Uniform.accept _).bind ?_
  rintro (_ | equals)
  · exact .pure rfl
  · refine h.bind fun value => ?_
    cases target <;> first
      | exact Uniform.freshExpr.bind fun id => .pure rfl
      | exact .pure rfl
      | exact (Uniform.report _).bind fun _ => .pure rfl

private theorem uniform_expression (bound : Nat) :
    Uniform q (changed q) (expression bound) (expression bound) := by
  induction bound with
  | zero => exact .fail _
  | succ bound ih => exact uniform_assignment ih _

private theorem uniform_optionalExpression (bound : Nat) (closing : Kind) :
    Uniform q (changed q) (optionalExpression bound closing)
      (optionalExpression bound closing) := by
  refine (Uniform.check _).bind fun empty => ?_
  dsimp only [id]
  split
  · exact .pure rfl
  · exact (uniform_expression bound).map fun e => rfl

private theorem uniform_expressionStatement (bound : Nat) :
    Uniform q (changed q) (expressionStatement bound) (expressionStatement bound) :=
  (uniform_expression bound).bind fun _ => (Uniform.expect _ _).bind fun _ => .pure rfl

private theorem uniform_initializer (bound : Nat) :
    Uniform q (changed q) (initializer bound) (initializer bound) := by
  refine (Uniform.accept _).bind ?_
  rintro (_ | t)
  · exact .pure rfl
  · exact (uniform_expression bound).map fun e => rfl

private theorem uniform_varDeclaration (bound : Nat) :
    Uniform q (changed q) (varDeclaration bound) (varDeclaration bound) := by
  rw [varDeclaration_eq]
  exact (Uniform.expect _ _).bind fun name => (uniform_initializer bound).bind fun i =>
    (Uniform.expect _ _).bind fun _ => .pure rfl

private theorem uniform_forInitializer (bound : Nat) :
    Uniform q (changed q) (forInitializer bound) (forInitializer bound) := by
  refine (Uniform.acceptAny _).bind ?_
  rintro (_ | t)
  · exact (uniform_expressionStatement bound).map fun s => rfl
  · dsimp only [Option.map_some]
    rw [Token.reline_kind]
    split
    · exact .pure rfl
    · exact (uniform_varDeclaration bound).map fun s => rfl

private theorem uniform_paramsFrom (bound count : Nat) :
    Uniform q (List.map (Token.reline q.line)) (paramsFrom bound count)
      (paramsFrom bound count) := by
  induction bound generalizing count with
  | zero => exact .fail _
  | succ bound ih =>
    rw [paramsFrom_succ]
    refine (Uniform.noteFull _ _).bind fun _ => (Uniform.expect _ _).bind fun param =>
      (Uniform.accept _).bind ?_
    rintro (_ | t)
    · exact .pure rfl
    · exact (ih (count + 1)).bind fun others => .pure rfl

private theorem uniform_params (bound : Nat) :
    Uniform q (List.map (Token.reline q.line)) (params bound) (params bound) := by
  refine (Uniform.check _).bind fun empty => ?_
  dsimp only [id]
  split
  · exact .pure rfl
  · exact uniform_paramsFrom bound 0

variable {nested : ParseM Stmt} {body : ParseM (List Stmt)} {declaration : ParseM (Option Stmt)}

private theorem uniform_declarationsFrom
    (h : Uniform q (Option.map (changed q)) declaration declaration) (inBlock : Bool)
    (bound : Nat) :
    Uniform q (changed q) (declarationsFrom declaration inBlock bound)
      (declarationsFrom declaration inBlock bound) := by
  induction bound with
  | zero => exact .pure rfl
  | succ bound ih =>
    refine Uniform.atEnd.bind fun ended => (Uniform.check _).bind fun closed => ?_
    dsimp only [id]
    split
    · exact .pure rfl
    · refine h.bind fun first => ih.bind fun others => .pure ?_
      cases first <;> rfl

private theorem uniform_block (h : Uniform q (Option.map (changed q)) declaration declaration)
    (bound : Nat) : Uniform q (changed q) (block declaration bound) (block declaration bound) :=
  (uniform_declarationsFrom h true bound).bind fun _ => (Uniform.expect _ _).bind fun _ =>
    .pure rfl

private theorem uniform_function (role : FunctionRole) (h : Uniform q (changed q) body body)
    (bound : Nat) :
    Uniform q (changed q) (function role body bound) (function role body bound) := by
  rw [function_eq]
  exact (Uniform.expect _ _).bind fun name => (Uniform.expect _ _).bind fun _ =>
    (uniform_params bound).bind fun params => (Uniform.expect _ _).bind fun _ =>
    (Uniform.expect _ _).bind fun _ => h.bind fun statements => Uniform.freshSite.bind fun site =>
    .pure rfl

private theorem uniform_methodsFrom (h : Uniform q (changed q) body body) (bound : Nat) :
    Uniform q (changed q) (methodsFrom body bound) (methodsFrom body bound) := by
  induction bound with
  | zero => exact .pure rfl
  | succ bound ih =>
    refine Uniform.atEnd.bind fun ended => (Uniform.check _).bind fun closed => ?_
    dsimp only [id]
    split
    · exact .pure rfl
    · exact (uniform_function .method h bound).bind fun first => ih.bind fun others => .pure rfl

private theorem uniform_superclass : Uniform q (changed q) superclass superclass := by
  refine (Uniform.accept _).bind ?_
  rintro (_ | t)
  · exact .pure rfl
  · exact (Uniform.expect _ _).bind fun name => Uniform.freshExpr.bind fun id => .pure rfl

private theorem uniform_classDeclaration (h : Uniform q (changed q) body body) (bound : Nat) :
    Uniform q (changed q) (classDeclaration body bound) (classDeclaration body bound) := by
  rw [classDeclaration_eq]
  exact (Uniform.expect _ _).bind fun name => uniform_superclass.bind fun c =>
    (Uniform.expect _ _).bind fun _ => (uniform_methodsFrom h bound).bind fun methods =>
    (Uniform.expect _ _).bind fun _ => .pure rfl

private theorem forLoop_changed (i : Option Stmt) (c e : Option Expr) (a : Stmt) :
    forLoop (changed q i) (changed q c) (changed q e) (changed q a) =
      changed q (forLoop i c e a) := by
  cases i <;> cases c <;> cases e <;> rfl

private theorem uniform_forStatement (h : Uniform q (changed q) nested nested) (bound : Nat) :
    Uniform q (changed q) (forStatement nested bound) (forStatement nested bound) := by
  rw [forStatement_eq]
  exact (Uniform.expect _ _).bind fun _ => (uniform_forInitializer bound).bind fun i =>
    (uniform_optionalExpression bound _).bind fun c => (Uniform.expect _ _).bind fun _ =>
    (uniform_optionalExpression bound _).bind fun e => (Uniform.expect _ _).bind fun _ =>
    h.bind fun a => .pure (forLoop_changed i c e a)

private theorem uniform_elseBranch (h : Uniform q (changed q) nested nested) :
    Uniform q (changed q) (elseBranch nested) (elseBranch nested) := by
  refine (Uniform.accept _).bind ?_
  rintro (_ | t)
  · exact .pure rfl
  · exact h.map fun s => rfl

private theorem uniform_ifStatement (h : Uniform q (changed q) nested nested) (bound : Nat) :
    Uniform q (changed q) (ifStatement nested bound) (ifStatement nested bound) := by
  rw [ifStatement_eq]
  exact (Uniform.expect _ _).bind fun _ => (uniform_expression bound).bind fun c =>
    (Uniform.expect _ _).bind fun _ => h.bind fun a => (uniform_elseBranch h).bind fun other =>
    .pure rfl

private theorem uniform_statementWith (h : Uniform q (changed q) nested nested)
    (hbody : Uniform q (changed q) body body) (bound : Nat) :
    Uniform q (changed q) (statementWith nested body bound)
      (statementWith nested body bound) := by
  refine (Uniform.acceptAny _).bind ?_
  rintro (_ | t)
  · exact uniform_expressionStatement _
  · dsimp only [Option.map_some, Token.reline_kind]
    split
    · exact uniform_forStatement h bound
    · exact uniform_ifStatement h bound
    · exact (uniform_expression bound).bind fun e => (Uniform.expect _ _).bind fun _ => .pure rfl
    · exact (uniform_optionalExpression bound _).bind fun v => (Uniform.expect _ _).bind fun _ =>
        .pure rfl
    · exact (Uniform.expect _ _).bind fun _ => (uniform_expression bound).bind fun c =>
        (Uniform.expect _ _).bind fun _ => h.bind fun a => .pure rfl
    · exact hbody.map fun ss => rfl

private theorem uniform_declarationWith (h : Uniform q (changed q) nested nested)
    (hbody : Uniform q (changed q) body body) (bound : Nat) :
    Uniform q (changed q) (declarationWith nested body bound)
      (declarationWith nested body bound) := by
  refine (Uniform.acceptAny _).bind ?_
  rintro (_ | t)
  · exact uniform_statementWith h hbody bound
  · dsimp only [Option.map_some, Token.reline_kind]
    split
    · exact uniform_classDeclaration hbody bound
    · exact (uniform_function .function hbody bound).map fun decl => rfl
    · exact uniform_varDeclaration bound

theorem uniform_statement_declaration (bound : Nat) :
    Uniform q (changed q) (statement bound) (statement bound) ∧
      Uniform q (Option.map (changed q)) (Parse.declaration bound) (Parse.declaration bound) := by
  induction bound with
  | zero => exact ⟨uniform_expressionStatement 0, (uniform_expressionStatement 0).recovering⟩
  | succ bound ih =>
    have body := uniform_block ih.2 bound
    rw [statement, Parse.declaration]
    exact ⟨uniform_statementWith ih.1 body bound,
      (uniform_declarationWith ih.1 body bound).recovering⟩

private theorem uniform_wholeExpression (bound : Nat) :
    Uniform q (changed q) (wholeExpression bound) (wholeExpression bound) := by
  refine (uniform_expression bound).bind fun e => Uniform.atEnd.bind fun ended => ?_
  dsimp only [id]
  split
  · exact .pure rfl
  · exact .fail _

end Parse

/-- A parse with greater numbers, in which a tree carries greater numbers. -/
def Parsed.shift {ε α : Type} [Renumberable α] (j : Labels) (p : Parsed ε α) : Parsed ε α :=
  ⟨p.labels.plus j, p.result.map (shifted j)⟩

def Parsed.reline {ε α : Type} [Relinable α] (line : Nat → Nat) (wrong : ε → ε) (p : Parsed ε α) :
    Parsed ε α :=
  ⟨p.labels, (p.result.map (relined line)).mapError wrong⟩

def Parsed.change {ε α : Type} [Renumberable α] [Relinable α] (q : Change) (wrong : ε → ε)
    (p : Parsed ε α) : Parsed ε α :=
  ⟨p.labels.plus q.labels, (p.result.map (changed q)).mapError wrong⟩

private theorem parseProgram_change (q : Change) (labels : Labels) (tokens : List Token)
    (lastLine : Nat) :
    parseProgram (labels.plus q.labels) (tokens.map (Token.reline q.line)) (q.line lastLine) =
      (parseProgram labels tokens lastLine).change q (List.map (SyntaxError.reline q.line)) := by
  have uniform := Parse.uniform_declarationsFrom (q := q)
    (Parse.uniform_statement_declaration tokens.length).2 false tokens.length
      (Parse.start labels tokens lastLine)
  have run : ∀ l ts line, Parse.runRule (Parse.declarationsFrom (Parse.declaration tokens.length)
    false tokens.length) l ts line = Parse.outcome (Parse.declarationsFrom
      (Parse.declaration tokens.length) false tokens.length) (Parse.start l ts line) :=
    fun _ _ _ => rfl
  have start : Parse.start (labels.plus q.labels) (tokens.map (Token.reline q.line))
      (q.line lastLine) = Parse.changeState q (Parse.start labels tokens lastLine) := rfl
  simp only [parseProgram, List.length_map, run, start, uniform]
  rcases Parse.outcome (Parse.declarationsFrom (Parse.declaration tokens.length) false
    tokens.length) (Parse.start labels tokens lastLine) with ⟨e | program, ahead, line, l, errors⟩
  · refine congrArg (fun errors => Parsed.mk _ (.error errors)) ?_
    rw [List.map_append]
    rfl
  · cases errors <;> rfl

private theorem parseExpression_change (q : Change) (labels : Labels) (tokens : List Token)
    (lastLine : Nat) :
    parseExpression (labels.plus q.labels) (tokens.map (Token.reline q.line)) (q.line lastLine) =
      (parseExpression labels tokens lastLine).change q (SyntaxError.reline q.line) := by
  have uniform := Parse.uniform_wholeExpression (q := q) tokens.length
    (Parse.start labels tokens lastLine)
  have run : ∀ l ts line, Parse.runRule (Parse.wholeExpression tokens.length) l ts line =
    Parse.outcome (Parse.wholeExpression tokens.length) (Parse.start l ts line) :=
    fun _ _ _ => rfl
  have start : Parse.start (labels.plus q.labels) (tokens.map (Token.reline q.line))
      (q.line lastLine) = Parse.changeState q (Parse.start labels tokens lastLine) := rfl
  simp only [parseExpression, List.length_map, run, start, uniform]
  rcases Parse.outcome (Parse.wholeExpression tokens.length)
    (Parse.start labels tokens lastLine) with ⟨_ | e, ahead, line, l, errors⟩
  · rfl
  · cases errors <;> rfl

private theorem Parsed.change_id {ε α : Type} [Renumberable α] [Relinable α] (j : Labels)
    {wrong : ε → ε} (same : ∀ e, wrong e = e) (p : Parsed ε α)
    (own : ∀ a : α, relined id a = a) : p.change ⟨j, id⟩ wrong = p.shift j := by
  obtain ⟨labels, e | a⟩ := p
  · exact congrArg (fun e => Parsed.mk _ (.error e)) (same e)
  · exact congrArg (fun a => Parsed.mk _ (.ok (shifted j a))) (own a)

private theorem Parsed.change_zero {ε α : Type} [Renumberable α] [Relinable α] (line : Nat → Nat)
    (wrong : ε → ε) (p : Parsed ε α)
    (own : ∀ a : α, Renumberable.renumber (id : ExprId → ExprId) (id : SiteId → SiteId) a = a) :
    p.change ⟨⟨0, 0⟩, line⟩ wrong = p.reline line wrong := by
  have same : (changed ⟨⟨0, 0⟩, line⟩ : α → α) = relined line :=
    funext fun a => own (relined line a)
  rw [Parsed.change, same]
  rfl

/-- On other lines a program is parsed from the same numbers to the same tree, on those lines. -/
theorem parseProgram_reline (line : Nat → Nat) (labels : Labels) (tokens : List Token)
    (lastLine : Nat) :
    parseProgram labels (tokens.map (Token.reline line)) (line lastLine) =
      (parseProgram labels tokens lastLine).reline line (List.map (SyntaxError.reline line)) :=
  (parseProgram_change ⟨⟨0, 0⟩, line⟩ labels tokens lastLine).trans
    (Parsed.change_zero line _ _ Stmt.renumberAll_id)

/-- The same of a single expression. -/
theorem parseExpression_reline (line : Nat → Nat) (labels : Labels) (tokens : List Token)
    (lastLine : Nat) :
    parseExpression labels (tokens.map (Token.reline line)) (line lastLine) =
      (parseExpression labels tokens lastLine).reline line (SyntaxError.reline line) :=
  (parseExpression_change ⟨⟨0, 0⟩, line⟩ labels tokens lastLine).trans
    (Parsed.change_zero line _ _ Expr.renumber_id)

/-- The numbers from which a program is parsed show only in the numbers of its tree. -/
theorem parseProgram_plus (labels j : Labels) (tokens : List Token) (lastLine : Nat) :
    parseProgram (labels.plus j) tokens lastLine =
      (parseProgram labels tokens lastLine).shift j := by
  have change := parseProgram_change ⟨j, id⟩ labels tokens lastLine
  rw [Token.reline_id_eq_id, List.map_id] at change
  exact change.trans (Parsed.change_id j (fun errors => List.map_id errors) _ Stmt.relineAll_id)

theorem parseExpression_plus (labels j : Labels) (tokens : List Token) (lastLine : Nat) :
    parseExpression (labels.plus j) tokens lastLine =
      (parseExpression labels tokens lastLine).shift j := by
  have change := parseExpression_change ⟨j, id⟩ labels tokens lastLine
  rw [Token.reline_id_eq_id, List.map_id] at change
  exact change.trans (Parsed.change_id j (fun _ => rfl) _ Expr.reline_id)

end LoxLang
