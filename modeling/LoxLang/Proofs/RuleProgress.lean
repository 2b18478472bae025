import LoxLang.Proofs.ParserProgress

/-!
The rules of the language go forward.  An expression takes no semicolon, and none of the rules for
expressions can end well without a token.  A declaration takes a token wherever there is one, and
where no bound is reached a greater one changes nothing.
-/

set_option autoImplicit false
set_option relaxedAutoImplicit false

namespace LoxLang

namespace Parse

def Inner (kind : Kind) : Prop := kind ≠ .semicolon

def Any (_ : Kind) : Prop := True

private theorem outcome_choice_end {β : Type} {taken : List Kind} {next : Option Token → ParseM β}
    {s : ParseState} (none : s.ahead = []) :
    outcome (acceptAny taken >>= next) s = outcome (next Option.none) s :=
  outcome_choice_none (by simp [none])

section Ends

variable {inner : ParseM Expr} {s : ParseState} (none : s.ahead = [])

include none

private theorem unary_end (c : Nat) : outcome (unary inner c) s = outcome (fail .expression) s := by
  cases c with
  | zero => rfl
  | succ c =>
    have failed : outcome (primary inner) s = outcome (fail .expression) s := by
      rw [primary, outcome_choice_end none]
    rw [unary, outcome_choice_end none, outcome_bind, failed]
    rfl

private theorem ofLevels_end (c : Nat) (levels : List Level) :
    outcome (ofLevels inner c levels) s = outcome (fail .expression) s := by
  induction levels with
  | nil => exact unary_end none c
  | cons level rest ih =>
    rw [ofLevels, outcome_bind, ih]
    rfl

private theorem expression_end (c : Nat) : outcome (expression c) s = outcome
    (fail .expression) s := by
  cases c with
  | zero => rfl
  | succ c =>
    rw [expression, assignment, outcome_bind, ofLevels_end none]
    rfl

end Ends

variable {n b b' c c' : Nat}

section Expressions

variable {inner inner' : ParseM Expr} (h : Proceeds Inner (b + 1) 1 inner inner')
  (ends : ∀ s : ParseState, s.ahead = [] → outcome inner' s = outcome (fail .expression) s)

include h

private theorem proceeds_primary (le : n ≤ b + 2) : Proceeds Inner n 1 (primary inner)
    (primary inner') := by
  refine .choice (by unfold Inner; decide) (.fail _) fun t => ?_
  dsimp only
  split
  · exact .pure _
  · exact .pure _
  · exact .pure _
  · exact .pure _
  · exact .pure _
  · exact Proceeds.freshExpr.andThen fun id => .pure _
  · exact ((Proceeds.expect (by unfold Inner; decide) _).andThen fun _ =>
      (Proceeds.expect (by unfold Inner; decide) _).andThen fun method =>
      Proceeds.freshExpr.andThen fun id => .pure _).uncounted
  · exact Proceeds.freshExpr.andThen fun id => .pure _
  · exact ((h.fewer (by omega)).andThen fun e =>
      (Proceeds.expect (by unfold Inner; decide) _).andThen fun _ =>
      .pure _).uncounted

include ends

private theorem proceeds_argumentsFrom (le : n ≤ b + 1) {count : Nat}
    (room : n = 0 ∨ n + count ≤ c + 1) (wide : c ≤ c') :
    Proceeds Inner n 1 (argumentsFrom inner c count) (argumentsFrom inner' c' count) := by
  induction c generalizing n c' count with
  | zero =>
    rcases Nat.eq_zero_or_pos n with rfl | pos
    · exact fun s => .failing (outcome_fail _ s) fun q few _ => absurd few (Nat.not_lt_zero _)
    · obtain rfl : count = 0 := by omega
      refine (Proceeds.stuck fun s none => ?_).fewer (by omega)
      cases c' with
      | zero => rfl
      | succ c' =>
        have room : noteFull 0 .tooManyArguments = pure () := rfl
        rw [argumentsFrom_succ, room, pure_bind, outcome_bind, ends s none]
        rfl
  | succ c ih =>
    obtain ⟨c', rfl⟩ := Nat.exists_eq_add_one_of_ne_zero (Nat.ne_of_gt (Nat.zero_lt_of_lt wide))
    rw [argumentsFrom_succ, argumentsFrom_succ]
    refine (Proceeds.noteFull _ _).thenTakes fun _ => (h.fewer le).thenFewer (m := n - 1) (by omega)
      fun e => .accept_then (by unfold Inner; decide) (.pure _) fun t => ?_
    exact ((ih (by omega) (by omega) (Nat.le_of_succ_le_succ wide)).andThen fun others =>
      .pure _).uncounted

private theorem proceeds_arguments (le : n ≤ b + 1) (room : n ≤ c + 1) (wide : c ≤ c') :
    Proceeds Inner n 0 (arguments inner c) (arguments inner' c') := by
  refine (Proceeds.check _).andThen (e := 0) fun empty => ?_
  cases empty with
  | true => exact .pure _
  | false =>
    exact (proceeds_argumentsFrom h ends le (.inr room) wide).uncounted

private theorem proceeds_callsFrom (le : c ≤ b + 1) (room : n ≤ c + 1) (wide : c ≤ c') (e : Expr) :
    Proceeds Inner n 0 (callsFrom inner c e) (callsFrom inner' c' e) := by
  induction c generalizing n c' e with
  | zero =>
    refine (Proceeds.stops fun s none => ?_).fewer room
    cases c' with
    | zero => rfl
    | succ c' =>
      rw [callsFrom, outcome_choice_end none]
      rfl
  | succ c ih =>
    obtain ⟨c', rfl⟩ := Nat.exists_eq_add_one_of_ne_zero (Nat.ne_of_gt (Nat.zero_lt_of_lt wide))
    have next := fun e => ih (n := n - 1) (Nat.le_of_succ_le le) (Nat.sub_le_of_le_add room)
      (Nat.le_of_succ_le_succ wide) e
    refine .choice (by unfold Inner; decide) (.pure _) fun t => ?_
    dsimp only
    split
    · refine (proceeds_arguments h ends (by omega) (Nat.sub_le_of_le_add room)
        (Nat.le_of_succ_le_succ wide)).andThen (e := 0) fun args => ?_
      exact ((Proceeds.expect (by unfold Inner; decide) _).andThen fun paren => next _).mono
        (fun _ => id) (Nat.le_refl _) (Nat.zero_le _)
    · exact ((Proceeds.expect (by unfold Inner; decide) _).andThen fun name => next _).mono
        (fun _ => id) (Nat.le_refl _) (Nat.zero_le _)

private theorem proceeds_unary (le : c ≤ b + 1) (room : n ≤ c + 1) (wide : c ≤ c') :
    Proceeds Inner n 1 (unary inner c) (unary inner' c') := by
  induction c generalizing n c' with
  | zero => exact (Proceeds.stuck fun s none => unary_end none c').fewer room
  | succ c ih =>
    obtain ⟨c', rfl⟩ := Nat.exists_eq_add_one_of_ne_zero (Nat.ne_of_gt (Nat.zero_lt_of_lt wide))
    have wide' := Nat.le_of_succ_le_succ wide
    refine .choice (by unfold Inner; decide) ?_ fun t => ?_
    · exact (proceeds_primary h (by omega)).thenFewer room fun e =>
        proceeds_callsFrom h ends (Nat.le_of_succ_le le) (Nat.le_refl _) wide' e
    · exact ((ih (Nat.le_of_succ_le le) (Nat.sub_le_of_le_add room) wide').andThen fun e =>
        .pure _).uncounted

omit h ends in
private theorem proceeds_chainFrom {level : Level} (kinds : ∀ k ∈ level.kinds, Inner k)
    {operand operand' : ParseM Expr} (h : Proceeds Inner n 1 operand operand') {m : Nat}
    (le : m ≤ n) (room : m ≤ c + 1) (wide : c ≤ c') (left : Expr) :
    Proceeds Inner m 0 (chainFrom level operand c left) (chainFrom level operand' c' left) := by
  induction c generalizing m c' left with
  | zero =>
    refine (Proceeds.stops fun s none => ?_).fewer room
    cases c' with
    | zero => rfl
    | succ c' =>
      rw [chainFrom, outcome_choice_end none]
      rfl
  | succ c ih =>
    obtain ⟨c', rfl⟩ := Nat.exists_eq_add_one_of_ne_zero (Nat.ne_of_gt (Nat.zero_lt_of_lt wide))
    refine .choice kinds (.pure _) fun t => ?_
    have fewer : m - 1 ≤ n := Nat.le_trans (Nat.sub_le _ _) le
    exact ((h.fewer fewer).andThen fun right => ih fewer (Nat.sub_le_of_le_add room)
      (Nat.le_of_succ_le_succ wide) _).uncounted

private theorem proceeds_ofLevels (le : c ≤ b + 1) (wide : c ≤ c') {levels : List Level}
    (kinds : ∀ level ∈ levels, ∀ k ∈ level.kinds, Inner k) :
    Proceeds Inner (c + 1) 1 (ofLevels inner c levels) (ofLevels inner' c' levels) := by
  induction levels with
  | nil => exact proceeds_unary h ends le (Nat.le_refl _) wide
  | cons level rest ih =>
    have operand := ih fun l hl => kinds l (List.mem_cons_of_mem _ hl)
    exact operand.andThen fun left => proceeds_chainFrom (kinds level List.mem_cons_self) operand
      (Nat.le_refl _) (Nat.le_refl _) wide left

private theorem proceeds_assignment (le : c ≤ b + 1) (wide : c ≤ c') :
    Proceeds Inner (c + 1) 1 (assignment inner c) (assignment inner' c') := by
  refine (proceeds_ofLevels h ends le wide (by unfold Inner; decide)).andThen fun target =>
    .accept_then (by unfold Inner; decide) (.pure _) fun equals => ?_
  refine ((h.fewer (by omega)).andThen (e := 0) fun value => ?_).uncounted
  cases target <;> first
    | exact Proceeds.freshExpr.andThen fun id => .pure _
    | exact .pure _
    | exact (Proceeds.report _).andThen fun _ => .pure _

end Expressions

theorem proceeds_expression (wide : b ≤ b') :
    Proceeds Inner (b + 1) 1 (expression b) (expression b') := by
  induction b generalizing b' with
  | zero => exact .stuck fun s none => expression_end none b'
  | succ b ih =>
    obtain ⟨b', rfl⟩ := Nat.exists_eq_add_one_of_ne_zero (Nat.ne_of_gt (Nat.zero_lt_of_lt wide))
    exact proceeds_assignment (ih (Nat.le_of_succ_le_succ wide))
      (fun s none => expression_end none b') (Nat.le_refl _) wide

theorem proceeds_optionalExpression (wide : b ≤ b') (closing : Kind) :
    Proceeds Inner (b + 1) 0 (optionalExpression b closing) (optionalExpression b' closing) := by
  refine (Proceeds.check _).andThen (e := 0) fun empty => ?_
  cases empty with
  | true => exact .pure _
  | false =>
    exact ((proceeds_expression wide).map some).uncounted

theorem proceeds_initializer (wide : b ≤ b') :
    Proceeds Inner (b + 1) 0 (initializer b) (initializer b') := by
  refine .accept_then (by unfold Inner; decide) (.pure _) fun t => ?_
  exact ((proceeds_expression wide).map some).uncounted.fewer (Nat.sub_le _ _)

private theorem Proceeds.inner {α : Type} {d : Nat} {rule rule' : ParseM α}
    (h : Proceeds Inner n d rule rule') : Proceeds Any n d rule rule' :=
  h.mono (fun _ _ => trivial) (Nat.le_refl _) (Nat.le_refl _)

private theorem proceeds_expect (kind : Kind) (expected : Expected) :
    Proceeds Any n 1 (expect kind expected) (expect kind expected) :=
  .expect trivial expected

private theorem proceeds_expressionStatement (wide : b ≤ b') :
    Proceeds Any (b + 1) 1 (expressionStatement b) (expressionStatement b') :=
  (proceeds_expression wide).inner.andThen fun _ => (proceeds_expect _ _).andThen fun _ => .pure _

private theorem proceeds_varDeclaration (wide : b ≤ b') :
    Proceeds Any (b + 1) 1 (varDeclaration b) (varDeclaration b') := by
  rw [varDeclaration_eq, varDeclaration_eq]
  exact (proceeds_expect _ _).andThen fun name => (proceeds_initializer wide).inner.andThen fun i =>
    (proceeds_expect _ _).andThen fun _ => .pure _

private theorem proceeds_forInitializer (wide : b ≤ b') :
    Proceeds Any (b + 1) 1 (forInitializer b) (forInitializer b') := by
  refine .choice (fun _ _ => trivial) ((proceeds_expressionStatement wide).map some) fun t => ?_
  dsimp only
  split
  · exact .pure _
  · exact ((proceeds_varDeclaration wide).map some).uncounted.fewer (Nat.sub_le _ _)

private theorem proceeds_paramsFrom {count : Nat} (room : n = 0 ∨ n + count ≤ c + 1)
    (wide : c ≤ c') :
    Proceeds Any n 1 (paramsFrom c count) (paramsFrom c' count) := by
  induction c generalizing n c' count with
  | zero =>
    rcases Nat.eq_zero_or_pos n with rfl | pos
    · exact fun s => .failing (outcome_fail _ s) fun q few _ => absurd few (Nat.not_lt_zero _)
    · obtain rfl : count = 0 := by omega
      refine (Proceeds.stuck fun s none => ?_).fewer (by omega)
      cases c' with
      | zero => rfl
      | succ c' =>
        have room : noteFull 0 .tooManyParams = pure () := rfl
        rw [paramsFrom_succ, room, pure_bind, expect, bind_assoc, accept, outcome_choice_end none]
        rfl
  | succ c ih =>
    obtain ⟨c', rfl⟩ := Nat.exists_eq_add_one_of_ne_zero (Nat.ne_of_gt (Nat.zero_lt_of_lt wide))
    rw [paramsFrom_succ, paramsFrom_succ]
    refine (Proceeds.noteFull _ _).thenTakes fun _ => (proceeds_expect _ _).thenFewer (m := n - 1)
      (by omega) fun param => .accept_then trivial (.pure _) fun t => ?_
    exact ((ih (by omega) (Nat.le_of_succ_le_succ wide)).andThen fun others =>
      .pure _).uncounted

private theorem proceeds_params (room : n ≤ b + 1) (wide : b ≤ b') :
    Proceeds Any n 0 (params b) (params b') := by
  refine (Proceeds.check _).andThen (e := 0) fun empty => ?_
  cases empty with
  | true => exact .pure _
  | false =>
    exact (proceeds_paramsFrom (.inr room) wide).uncounted

section Statements

variable {declaration declaration' : ParseM (Option Stmt)}
  (hdeclaration : ∀ s, ProceedsAt Any (b + 1) (min 1 s.ahead.length) declaration declaration' s)

include hdeclaration in
/-- A loop goes on only where a token is ahead, and there its declaration takes one. -/
theorem proceeds_declarationsFrom (inBlock : Bool) (le : c ≤ b) (wide : c ≤ c') :
    Proceeds Any (c + 1) 0 (declarationsFrom declaration inBlock c)
      (declarationsFrom declaration' inBlock c') := by
  induction c generalizing c' with
  | zero =>
    refine Proceeds.stops fun s none => ?_
    cases c' with
    | zero => rfl
    | succ c' =>
      rw [declarationsFrom, outcome_bind, outcome_atEnd, none]
      rfl
  | succ c ih =>
    obtain ⟨c', rfl⟩ := Nat.exists_eq_add_one_of_ne_zero (Nat.ne_of_gt (Nat.zero_lt_of_lt wide))
    have others := ih (Nat.le_of_succ_le le) (Nat.le_of_succ_le_succ wide)
    intro s
    refine ((Proceeds.atEnd s).bind (d := 0) (e := 0) (fun ended s' run => ?_) (Nat.le_refl _))
    rw [outcome_atEnd] at run
    simp only [Prod.mk.injEq, Except.ok.injEq] at run
    obtain ⟨rfl, rfl⟩ := run
    refine ((Proceeds.check _ s).bind (d := 0) (e := 0) (fun closed s' run => ?_) (Nat.le_refl _))
    rw [outcome_check] at run
    simp only [Prod.mk.injEq, Except.ok.injEq] at run
    obtain ⟨_, rfl⟩ := run
    split
    · exact Proceeds.pure _ s
    · rename_i goes
      have some : s.ahead ≠ [] := fun none => goes (by simp [none])
      have first := hdeclaration s
      rw [Nat.min_eq_left (List.length_pos_iff.mpr some)] at first
      refine ((first.mono (fun _ => id) (Nat.succ_le_succ le) (Nat.le_refl _)).bind (e := 0)
        (fun first s' _ => ?_) (Nat.le_refl _)).mono (fun _ => id) (Nat.le_refl _) (Nat.zero_le _)
      exact (others.andThen fun others => .pure _) s'

include hdeclaration in
private theorem proceeds_block (wide : b ≤ b') :
    Proceeds Any (b + 1) 1 (block declaration b) (block declaration' b') :=
  (proceeds_declarationsFrom hdeclaration true (Nat.le_refl _) wide).thenTakes fun _ =>
    (proceeds_expect _ _).andThen fun _ => .pure _

variable {body body' : ParseM (List Stmt)} {nested nested' : ParseM Stmt}
  (hbody : Proceeds Any (b + 1) 1 body body') (hnested : Proceeds Any (b + 1) 1 nested nested')

include hbody in
private theorem proceeds_function (role : FunctionRole) (le : n ≤ b + 2) (wide : b ≤ b') :
    Proceeds Any n 1 (function role body b) (function role body' b') := by
  rw [function_eq, function_eq]
  refine (proceeds_expect _ _).thenFewer (e := 1) le fun name => ?_
  exact (proceeds_expect _ _).andThen fun _ => (proceeds_params (Nat.le_refl _) wide).andThen
    fun params => (proceeds_expect _ _).andThen fun _ => (proceeds_expect _ _).andThen fun _ =>
    hbody.andThen fun statements => Proceeds.freshSite.andThen fun site => .pure _

include hbody in
private theorem proceeds_methodsFrom (le : c ≤ b + 1) (wide : c ≤ c') :
    Proceeds Any (c + 1) 0 (methodsFrom body c) (methodsFrom body' c') := by
  induction c generalizing c' with
  | zero =>
    refine Proceeds.stops fun s none => ?_
    cases c' with
    | zero => rfl
    | succ c' =>
      rw [methodsFrom, outcome_bind, outcome_atEnd, none]
      rfl
  | succ c ih =>
    obtain ⟨c', rfl⟩ := Nat.exists_eq_add_one_of_ne_zero (Nat.ne_of_gt (Nat.zero_lt_of_lt wide))
    have wide' := Nat.le_of_succ_le_succ wide
    refine Proceeds.atEnd.andThen (e := 0) fun ended =>
      (Proceeds.check _).andThen (e := 0) fun closed => ?_
    split
    · exact .pure _
    · have first := proceeds_function (hbody.fewer (Nat.succ_le_succ (Nat.le_of_succ_le_succ le)))
        .method (Nat.le_refl _) wide'
      exact (first.thenFewer (Nat.le_refl _) fun first =>
        (ih (Nat.le_of_succ_le le) wide').andThen fun others => .pure _).uncounted

private theorem proceeds_superclass : Proceeds Any n 0 superclass superclass := by
  refine .accept_then trivial (.pure _) fun t => ?_
  exact ((proceeds_expect _ _).andThen fun name => Proceeds.freshExpr.andThen fun id =>
    .pure _).uncounted

include hbody in
private theorem proceeds_classDeclaration (wide : b ≤ b') :
    Proceeds Any (b + 1) 1 (classDeclaration body b) (classDeclaration body' b') := by
  rw [classDeclaration_eq, classDeclaration_eq]
  exact (proceeds_expect _ _).andThen fun name => proceeds_superclass.andThen fun c =>
    (proceeds_expect _ _).andThen fun _ =>
    (proceeds_methodsFrom hbody (Nat.le_succ _) wide).andThen fun methods =>
    (proceeds_expect _ _).andThen fun _ => .pure _

include hnested in
private theorem proceeds_forStatement (wide : b ≤ b') :
    Proceeds Any (b + 1) 1 (forStatement nested b) (forStatement nested' b') := by
  rw [forStatement_eq, forStatement_eq]
  exact (proceeds_expect _ _).andThen fun _ => (proceeds_forInitializer wide).andThen fun i =>
    (proceeds_optionalExpression wide _).inner.andThen fun c => (proceeds_expect _ _).andThen fun _ =>
    (proceeds_optionalExpression wide _).inner.andThen fun e => (proceeds_expect _ _).andThen fun _ =>
    hnested.andThen fun a => .pure _

include hnested in
private theorem proceeds_elseBranch : Proceeds Any (b + 1) 0 (elseBranch nested)
    (elseBranch nested') := by
  refine .accept_then trivial (.pure _) fun t => ?_
  exact (hnested.map some).uncounted.fewer (Nat.sub_le _ _)

include hnested in
private theorem proceeds_ifStatement (wide : b ≤ b') :
    Proceeds Any (b + 1) 1 (ifStatement nested b) (ifStatement nested' b') := by
  rw [ifStatement_eq, ifStatement_eq]
  exact (proceeds_expect _ _).andThen fun _ => (proceeds_expression wide).inner.andThen fun c =>
    (proceeds_expect _ _).andThen fun _ => hnested.andThen fun a =>
    (proceeds_elseBranch hnested).andThen fun other => .pure _

private theorem proceeds_printStatement (wide : b ≤ b') :
    Proceeds Any (b + 1) 1 (printStatement b) (printStatement b') :=
  (proceeds_expression wide).inner.andThen fun _ => (proceeds_expect _ _).andThen fun _ => .pure _

private theorem proceeds_returnStatement (keyword : Token) (wide : b ≤ b') :
    Proceeds Any (b + 1) 1 (returnStatement keyword b) (returnStatement keyword b') :=
  (proceeds_optionalExpression wide _).inner.thenTakes fun _ =>
    (proceeds_expect _ _).andThen fun _ => .pure _

include hnested in
private theorem proceeds_whileStatement (wide : b ≤ b') :
    Proceeds Any (b + 1) 1 (whileStatement nested b) (whileStatement nested' b') :=
  (proceeds_expect _ _).andThen fun _ => (proceeds_expression wide).inner.andThen fun _ =>
    (proceeds_expect _ _).andThen fun _ => hnested.andThen fun _ => .pure _

include hbody hnested

private theorem proceeds_statementWith (wide : b ≤ b') :
    Proceeds Any (b + 2) 1 (statementWith nested body b) (statementWith nested' body' b') := by
  refine .choice (fun _ _ => trivial) (proceeds_expressionStatement (Nat.succ_le_succ wide))
    fun t => ?_
  refine Proceeds.mono (d := 1) ?_ (fun _ => id) (Nat.le_refl _) (Nat.zero_le _)
  dsimp only
  split
  · exact proceeds_forStatement hnested wide
  · exact proceeds_ifStatement hnested wide
  · exact proceeds_printStatement wide
  · exact proceeds_returnStatement t wide
  · exact proceeds_whileStatement hnested wide
  · exact hbody.map _

private theorem proceeds_declarationWith (wide : b ≤ b') :
    Proceeds Any (b + 2) 1 (declarationWith nested body b) (declarationWith nested' body' b') := by
  refine .choice (fun _ _ => trivial) (proceeds_statementWith hbody hnested wide) fun t => ?_
  refine Proceeds.mono (d := 1) ?_ (fun _ => id) (Nat.le_refl _) (Nat.zero_le _)
  dsimp only
  split
  · exact proceeds_classDeclaration hbody wide
  · exact (proceeds_function hbody .function (Nat.le_succ _) wide).map _
  · exact proceeds_varDeclaration wide

end Statements

private theorem expressionStatement_end {s : ParseState} (none : s.ahead = []) (b : Nat) :
    outcome (expressionStatement b) s = outcome (fail .expression) s := by
  rw [expressionStatement, outcome_bind, expression_end none]
  rfl

private theorem statementWith_end {nested : ParseM Stmt} {body : ParseM (List Stmt)}
    {s : ParseState} (none : s.ahead = []) (b : Nat) :
    outcome (statementWith nested body b) s = outcome (fail .expression) s := by
  rw [statementWith, outcome_choice_end none, expressionStatement_end none]

private theorem expressionStatement_zero : expressionStatement 0 = fail .expression := rfl

private theorem declarationWith_end {nested : ParseM Stmt} {body : ParseM (List Stmt)}
    {s : ParseState} (none : s.ahead = []) (b : Nat) :
    outcome (declarationWith nested body b) s = outcome (fail .expression) s := by
  rw [declarationWith, outcome_choice_end none, statementWith_end none]

/-- Statements and declarations go forward: a statement takes a token if it ends well, a declaration
wherever there is one. -/
theorem proceeds_statement_declaration (wide : b ≤ b') :
    Proceeds Any (b + 1) 1 (statement b) (statement b') ∧
      ∀ s, ProceedsAt Any (b + 1) (min 1 s.ahead.length) (Parse.declaration b)
        (Parse.declaration b') s := by
  induction b generalizing b' with
  | zero =>
    rw [statement, Parse.declaration, expressionStatement_zero]
    cases b' with
    | zero =>
      have rule : Proceeds Any 1 1 (fail .expression : ParseM Stmt) (fail .expression) := .fail _
      exact ⟨rule, rule.recovering⟩
    | succ b' =>
      rw [statement, Parse.declaration]
      exact ⟨.stuck fun s none => statementWith_end none b',
        (Proceeds.stuck fun s none => declarationWith_end none b').recovering⟩
  | succ b ih =>
    obtain ⟨b', rfl⟩ := Nat.exists_eq_add_one_of_ne_zero (Nat.ne_of_gt (Nat.zero_lt_of_lt wide))
    have wide' := Nat.le_of_succ_le_succ wide
    obtain ⟨nested, declaration⟩ := ih wide'
    have body := proceeds_block declaration wide'
    rw [statement, statement, Parse.declaration, Parse.declaration]
    exact ⟨proceeds_statementWith body nested wide',
      (proceeds_declarationWith body nested wide').recovering⟩

end Parse

end LoxLang
