import LoxLang.Proofs.ParserContinuation
import LoxLang.Proofs.RuleParts
import LoxLang.Proofs.StatementSound

/-!
The rules of the language before further tokens.  An expression that stops before a token of its
own text is the same in a longer one; a statement is so even where its text ends, unless `else`
follows.
-/

set_option autoImplicit false
set_option relaxedAutoImplicit false

namespace LoxLang

namespace Parse

variable {q : Sequel} {n b b' c : Nat}

private theorem carries_noteFull (count : Nat) (fault : SyntaxFault) :
    Carries q n .anywhere 0 id (noteFull count fault) (noteFull count fault) := by
  unfold noteFull
  split
  · exact .absurd ((Yields.peek.bind fun t => Yields.report _).mono
      fun _ _ _ ⟨_, _, _, never⟩ => never)
  · exact .pure rfl

def onward : List Kind := [.leftParen, .dot, .bang, .equal] ++ levels.flatMap Level.kinds

def Stop.Safe (q : Sequel) (x : Stop) : Prop := x = .inside ∨ ∀ t ∈ q.tokens.head?, t.kind ∉ onward

private theorem Stop.Safe.choice {x : Stop} (safe : x.Safe q) {kinds : List Kind}
    (some : kinds ⊆ onward)
    {d : Nat} : x = .inside ∨ 0 < d ∨ ∀ t ∈ q.tokens.head?, t.kind ∉ kinds :=
  safe.imp_right fun apart => .inr fun t ht member => apart t ht (some member)

private theorem carries_stop {α β : Type} {f : α → β} {a : α} {rule' : ParseM β} {x : Stop}
    (safe : x.Safe q) (stops : ∀ s : ParseState, (x = .inside → s.ahead = []) →
      (∀ t ∈ s.ahead.head?, t.kind ∉ onward) → outcome rule' s = (.ok (f a), s)) :
    Carries q 0 x 0 f (pure a) rule' where
  takes := (Carries.pure (q := q) (n := 0) (x := .inside) (f := f) rfl).takes
  result {s a' s'} run same few allowed := by
    have ahead : s.ahead = [] := List.length_eq_zero_iff.mp (Nat.le_zero.mp few)
    rw [outcome_pure] at run
    simp only [Prod.mk.injEq, Except.ok.injEq] at run
    obtain ⟨rfl, rfl⟩ := run
    have left : (q.before s).ahead = q.tokens := by simp [Sequel.before, ahead]
    unfold Stop.Safe at safe
    rw [← left] at safe
    have none : x = .inside → (q.before s).ahead = [] := by
      rintro rfl
      exact left.trans (allowed.resolve_left fun some => some ahead)
    refine stops _ none (safe.elim (fun inside => ?_) id)
    rw [none inside]
    simp

section Expressions

variable {x : Stop} (safe : x.Safe q) {inner inner' : ParseM Expr}
  (h : Carries q b x 0 (Expr.later q.lines) inner inner')

include h

private theorem carries_primary (le : n ≤ b + 1) :
    Carries q n .anywhere 1 (Expr.later q.lines) (primary inner) (primary inner') := by
  refine Carries.choice .fail (fun t => ?_) (.inr (.inl Nat.one_pos))
  dsimp only [Token.later]
  split
  · exact .pure rfl
  · exact .pure rfl
  · exact .pure rfl
  · exact .pure rfl
  · exact .pure rfl
  · exact Carries.freshExpr.andThen fun id => .pure rfl
  · refine Carries.mono (d := 1) ?_ (Nat.le_refl _) (Nat.zero_le _) (.inr rfl)
    exact (Carries.expect _ _).andThen (e := 1) fun _ => (Carries.expect _ _).andThen (e := 0)
      fun method => Carries.freshExpr.andThen (e := 0) fun id => .pure rfl
  · exact Carries.freshExpr.andThen fun id => .pure rfl
  · refine Carries.mono (Carries.then_takes (h.fewer (by omega)) fun e => ?_) (Nat.le_refl _)
      (Nat.zero_le _) (.inr rfl)
    exact (Carries.expect _ _).andThen fun _ => .pure rfl

private theorem carries_argumentsFrom (le : c ≤ b) {c' : Nat} (wide : c ≤ c') (count : Nat) :
    Carries q c .inside 0 (Expr.laterAll q.lines) (argumentsFrom inner c count)
      (argumentsFrom inner' c' count) := by
  induction c generalizing c' count with
  | zero => exact .fail
  | succ c ih =>
    obtain ⟨c', rfl⟩ := Nat.exists_eq_add_one_of_ne_zero (Nat.ne_of_gt (Nat.zero_lt_of_lt wide))
    rw [argumentsFrom_succ, argumentsFrom_succ]
    refine (carries_noteFull count _).then_inside fun _ => (h.inside.fewer le).then_inside fun e =>
      Carries.choice (.pure rfl) (fun t => ?_) (.inl rfl)
    exact (ih (Nat.le_of_succ_le le) (Nat.le_of_succ_le_succ wide) (count + 1)).then_inside
      fun others => .pure rfl

private theorem carries_arguments (le : c ≤ b) {c' : Nat} (wide : c ≤ c') :
    Carries q c .inside 0 (Expr.laterAll q.lines) (arguments inner c) (arguments inner' c') := by
  refine (Carries.check _).then_inside fun empty => ?_
  cases empty with
  | true => exact .pure rfl
  | false => exact carries_argumentsFrom h le wide 0

include safe

private theorem carries_callsFrom (le : c ≤ b + 1) {c' : Nat} (wide : c ≤ c') (e : Expr) :
    Carries q c x 0 (Expr.later q.lines) (callsFrom inner c e)
      (callsFrom inner' c' (e.later q.lines)) := by
  induction c generalizing c' e with
  | zero =>
    refine carries_stop safe fun s _ other => ?_
    cases c' with
    | zero => rfl
    | succ c' =>
      rw [callsFrom, outcome_bind, acceptAny_other fun t ht member => other t ht (by
        simp only [List.mem_cons, List.not_mem_nil, or_false] at member
        rcases member with same | same <;> simp [onward, same])]
      rfl
  | succ c ih =>
    obtain ⟨c', rfl⟩ := Nat.exists_eq_add_one_of_ne_zero (Nat.ne_of_gt (Nat.zero_lt_of_lt wide))
    have le' := Nat.le_of_succ_le_succ le
    have wide' := Nat.le_of_succ_le_succ wide
    refine Carries.choice (.pure rfl) (fun t => ?_) (safe.choice (by simp [onward]))
    dsimp only [Token.later]
    split
    · refine ((carries_arguments h le' wide').then_takes fun args => ?_).mono (Nat.le_refl _)
        (Nat.zero_le _) (.inr rfl)
      exact (Carries.expect _ _).andThen fun paren =>
        ih (Nat.le_succ_of_le le') wide' (.call e paren args)
    · exact ((Carries.expect _ _).andThen fun name =>
        ih (Nat.le_succ_of_le le') wide' (.get e name)).mono (Nat.le_refl _) (Nat.zero_le _) (.inr rfl)

private theorem carries_unary (le : c ≤ b + 1) {c' : Nat} (wide : c ≤ c') :
    Carries q c x 0 (Expr.later q.lines) (unary inner c) (unary inner' c') := by
  induction c generalizing c' with
  | zero => exact .fail
  | succ c ih =>
    obtain ⟨c', rfl⟩ := Nat.exists_eq_add_one_of_ne_zero (Nat.ne_of_gt (Nat.zero_lt_of_lt wide))
    have wide' := Nat.le_of_succ_le_succ wide
    refine Carries.choice ?_ (fun t => ?_) (safe.choice (by simp [onward, levels]))
    · exact ((carries_primary h le).bind (fun e =>
        carries_callsFrom safe h (Nat.le_of_succ_le le) wide' e) (Nat.le_refl _) (.inl rfl)).mono
          (Nat.le_refl _) (Nat.zero_le _) (.inr rfl)
    · exact (ih (Nat.le_of_succ_le le) wide').then_alike fun e => .pure rfl

omit h safe in
def Level.Lowers (k : Nat) (level : Level) : Prop :=
  ∀ operator a b, level.node (operator.later k) (a.later k) (b.later k) =
    (level.node operator a b).later k

omit h in
private theorem carries_chainFrom {level : Level} (hlevel : level.Lowers q.lines)
    (kinds : level.kinds ⊆ onward) {operand operand' : ParseM Expr}
    (h : Carries q b x 0 (Expr.later q.lines) operand operand') (le : c ≤ b) {c' : Nat}
    (wide : c ≤ c') (left : Expr) :
    Carries q c x 0 (Expr.later q.lines) (chainFrom level operand c left)
      (chainFrom level operand' c' (left.later q.lines)) := by
  induction c generalizing c' left with
  | zero =>
    refine carries_stop safe fun s _ other => ?_
    cases c' with
    | zero => rfl
    | succ c' =>
      rw [chainFrom, outcome_bind, acceptAny_other fun t ht member => other t ht (kinds member)]
      rfl
  | succ c ih =>
    obtain ⟨c', rfl⟩ := Nat.exists_eq_add_one_of_ne_zero (Nat.ne_of_gt (Nat.zero_lt_of_lt wide))
    refine Carries.choice (.pure rfl) (fun t => ?_) (safe.choice kinds)
    refine (h.fewer (Nat.le_of_succ_le le)).then_alike fun right => ?_
    have next := ih (Nat.le_of_succ_le le) (Nat.le_of_succ_le_succ wide) (level.node t left right)
    rw [← hlevel] at next
    exact next

private theorem carries_ofLevels (le : c ≤ b + 1) {c' : Nat} (wide : c ≤ c') {levels : List Level}
    (hlevels : ∀ level ∈ levels, level.Lowers q.lines ∧ level.kinds ⊆ onward) :
    Carries q c x 0 (Expr.later q.lines) (ofLevels inner c levels)
      (ofLevels inner' c' levels) := by
  induction levels with
  | nil => exact carries_unary safe h le wide
  | cons level rest ih =>
    have operand := ih fun l hl => hlevels l (List.mem_cons_of_mem _ hl)
    obtain ⟨lowers, kinds⟩ := hlevels level List.mem_cons_self
    exact operand.then_alike fun left =>
      carries_chainFrom safe lowers kinds operand (Nat.le_refl _) wide left

omit h safe in
private theorem levels_lower (k : Nat) : ∀ level ∈ levels, level.Lowers k ∧ level.kinds ⊆ onward :=
  by
  intro level member
  refine ⟨?_, fun kind hkind => List.mem_append_right _ (List.mem_flatMap.mpr ⟨level, member, hkind⟩)⟩
  simp only [levels, List.mem_cons, List.not_mem_nil, or_false] at member
  rcases member with rfl | rfl | rfl | rfl | rfl | rfl <;> exact fun _ _ _ => rfl

private theorem carries_assignment (le : c ≤ b + 1) {c' : Nat} (wide : c ≤ c') :
    Carries q c x 0 (Expr.later q.lines) (assignment inner c) (assignment inner' c') := by
  refine (carries_ofLevels safe h le wide (levels_lower _)).then_alike fun target =>
    Carries.choice (.pure rfl) (fun equals => ?_) (safe.choice (by simp [onward]))
  refine (h.fewer (by omega)).then_alike fun value => ?_
  cases target <;> first
    | exact Carries.freshExpr.andThen fun id => .pure rfl
    | exact .pure rfl
    | exact .absurd (((Yields.report _).bind fun _ => Yields.pure _).mono
        fun _ _ _ ⟨_, _, never, _⟩ => never)

end Expressions

/-- An expression before what could not go on with it. -/
theorem carries_expression_before {x : Stop} (safe : x.Safe q) (wide : b ≤ b') :
    Carries q b x 0 (Expr.later q.lines) (expression b) (expression b') := by
  induction b generalizing b' with
  | zero => exact .fail
  | succ b ih =>
    obtain ⟨b', rfl⟩ := Nat.exists_eq_add_one_of_ne_zero (Nat.ne_of_gt (Nat.zero_lt_of_lt wide))
    exact carries_assignment safe (ih (Nat.le_of_succ_le_succ wide)) (Nat.le_refl _) wide

private theorem carries_expression (wide : b ≤ b') :
    Carries q b .inside 0 (Expr.later q.lines) (expression b) (expression b') :=
  carries_expression_before (.inl rfl) wide

private theorem carries_optionalExpression (wide : b ≤ b') (closing : Kind) :
    Carries q b .inside 0 (Option.map (Expr.later q.lines)) (optionalExpression b closing)
      (optionalExpression b' closing) := by
  refine (Carries.check _).then_inside fun empty => ?_
  cases empty with
  | true => exact .pure rfl
  | false => exact (carries_expression wide).map fun e => rfl

private theorem carries_expressionStatement (wide : b ≤ b') :
    Carries q b .anywhere 1 (Stmt.later q.lines) (expressionStatement b)
      (expressionStatement b') :=
  (carries_expression wide).then_takes fun _ => (Carries.expect _ _).andThen fun _ => .pure rfl

private theorem carries_initializer (wide : b ≤ b') :
    Carries q b .inside 0 (Option.map (Expr.later q.lines)) (initializer b) (initializer b') := by
  refine Carries.choice (.pure rfl) (fun t => ?_) (.inl rfl)
  exact ((carries_expression wide).fewer (Nat.sub_le _ _)).map fun e => rfl

private theorem carries_varDeclaration (wide : b ≤ b') :
    Carries q b .anywhere 1 (Stmt.later q.lines) (varDeclaration b) (varDeclaration b') := by
  rw [varDeclaration_eq, varDeclaration_eq]
  exact (Carries.expect _ _).andThen fun name => (carries_initializer wide).then_takes fun i =>
    (Carries.expect _ _).andThen fun _ => .pure rfl

private theorem carries_forInitializer (wide : b ≤ b') :
    Carries q b .anywhere 1 (Stmt.laterOption q.lines) (forInitializer b) (forInitializer b') := by
  refine Carries.choice ((carries_expressionStatement wide).map fun s => rfl) (fun t => ?_)
    (.inr (.inl Nat.one_pos))
  dsimp only [Token.later]
  split
  · exact .pure rfl
  · exact ((carries_varDeclaration wide).mono (Nat.sub_le _ _) (Nat.zero_le _) (.inr rfl)).map
      fun s => rfl

private theorem carries_paramsFrom (wide : b ≤ b') (count : Nat) :
    Carries q b .inside 0 (List.map (Token.later q.lines)) (paramsFrom b count)
      (paramsFrom b' count) := by
  induction b generalizing b' count with
  | zero => exact .fail
  | succ b ih =>
    obtain ⟨b', rfl⟩ := Nat.exists_eq_add_one_of_ne_zero (Nat.ne_of_gt (Nat.zero_lt_of_lt wide))
    rw [paramsFrom_succ, paramsFrom_succ]
    refine (carries_noteFull count _).then_inside fun _ => (Carries.expect _ _).then_inside fun param =>
      Carries.choice (.pure rfl) (fun t => ?_) (.inl rfl)
    exact (ih (Nat.le_of_succ_le_succ wide) (count + 1)).then_inside fun others => .pure rfl

private theorem carries_params (wide : b ≤ b') :
    Carries q b .inside 0 (List.map (Token.later q.lines)) (params b) (params b') := by
  refine (Carries.check _).then_inside fun empty => ?_
  cases empty with
  | true => exact .pure rfl
  | false => exact carries_paramsFrom wide 0

section Statements

variable {declaration declaration' : ParseM (Option Stmt)}
  (hdeclaration : Carries q b .anywhere 1 (Option.map (Stmt.later q.lines)) declaration declaration')

include hdeclaration in
theorem carries_declarationsFrom (inBlock : Bool) (le : c ≤ b) {c' : Nat} (wide : c ≤ c') :
    Carries q c .inside 0 (Stmt.laterAll q.lines) (declarationsFrom declaration inBlock c)
      (declarationsFrom declaration' inBlock c') := by
  induction c generalizing c' with
  | zero =>
    refine carries_stop (.inl rfl) fun s ahead _ => ?_
    have ahead := ahead rfl
    cases c' with
    | zero => rfl
    | succ c' =>
      rw [declarationsFrom, outcome_bind, outcome_atEnd, ahead]
      rfl
  | succ c ih =>
    obtain ⟨c', rfl⟩ := Nat.exists_eq_add_one_of_ne_zero (Nat.ne_of_gt (Nat.zero_lt_of_lt wide))
    refine Carries.atEnd.then_inside fun ended => (Carries.check _).then_inside fun closed => ?_
    dsimp only [id]
    split
    · exact .pure rfl
    · have others := ih (Nat.le_of_succ_le le) (Nat.le_of_succ_le_succ wide)
      refine (hdeclaration.fewer le).then_fewer (Nat.le_refl _) fun first =>
        others.then_inside fun others => .pure ?_
      cases first <;> rfl

include hdeclaration in
private theorem carries_block (wide : b ≤ b') :
    Carries q b .anywhere 1 (Stmt.laterAll q.lines) (block declaration b)
      (block declaration' b') :=
  (carries_declarationsFrom hdeclaration true (Nat.le_refl _) wide).then_takes fun _ =>
    (Carries.expect _ _).andThen fun _ => .pure rfl

variable {body body' : ParseM (List Stmt)} {nested nested' : ParseM Stmt}
  (hbody : Carries q b .anywhere 1 (Stmt.laterAll q.lines) body body')
  (hnested : Carries q b .anywhere 1 (Stmt.later q.lines) nested nested')

include hbody in
private theorem carries_function (role : FunctionRole) (le : n ≤ b + 1) (wide : b ≤ b') :
    Carries q n .anywhere 1 (FunctionDecl.later q.lines) (function role body b)
      (function role body' b') := by
  rw [function_eq, function_eq]
  refine ((Carries.expect _ _).bind (e := 1) (fun name => ?_) le (.inl rfl)).mono (Nat.le_refl _)
    (Nat.le_add_right 1 1) (.inr rfl)
  exact (Carries.expect _ _).andThen fun _ => (carries_params wide).then_takes fun params =>
    (Carries.expect _ _).andThen fun _ => (Carries.expect _ _).andThen fun _ => hbody.andThen fun statements =>
    Carries.freshSite.andThen fun site => .pure rfl

include hbody in
private theorem carries_methodsFrom (le : c ≤ b + 1) {c' : Nat} (wide : c ≤ c') :
    Carries q c .inside 0 (FunctionDecl.laterAll q.lines) (methodsFrom body c)
      (methodsFrom body' c') := by
  induction c generalizing c' with
  | zero =>
    refine carries_stop (.inl rfl) fun s ahead _ => ?_
    have ahead := ahead rfl
    cases c' with
    | zero => rfl
    | succ c' =>
      rw [methodsFrom, outcome_bind, outcome_atEnd, ahead]
      rfl
  | succ c ih =>
    obtain ⟨c', rfl⟩ := Nat.exists_eq_add_one_of_ne_zero (Nat.ne_of_gt (Nat.zero_lt_of_lt wide))
    have wide' := Nat.le_of_succ_le_succ wide
    refine Carries.atEnd.then_inside fun ended => (Carries.check _).then_inside fun closed => ?_
    dsimp only [id]
    split
    · exact .pure rfl
    · have first := carries_function (hbody.fewer (Nat.le_of_succ_le_succ le)) .method
        (Nat.le_refl _) wide'
      exact first.then_fewer (Nat.le_refl _) fun first =>
        (ih (Nat.le_of_succ_le le) wide').then_inside fun others => .pure rfl

private theorem carries_superclass :
    Carries q n .inside 0 (Option.map (Expr.later q.lines)) superclass superclass := by
  refine Carries.choice (.pure rfl) (fun t => ?_) (.inl rfl)
  exact (Carries.expect _ _).then_inside fun name => Carries.freshExpr.then_inside fun id =>
    .pure rfl

include hbody in
private theorem carries_classDeclaration (wide : b ≤ b') :
    Carries q b .anywhere 1 (Stmt.later q.lines) (classDeclaration body b)
      (classDeclaration body' b') := by
  rw [classDeclaration_eq, classDeclaration_eq]
  exact (Carries.expect _ _).andThen fun name => carries_superclass.then_takes fun c =>
    (Carries.expect _ _).andThen fun _ =>
    (carries_methodsFrom hbody (Nat.le_succ _) wide).then_takes fun methods =>
    (Carries.expect _ _).andThen fun _ => .pure rfl

private theorem forLoop_later (k : Nat) (i : Option Stmt) (c e : Option Expr) (a : Stmt) :
    forLoop (Stmt.laterOption k i) (c.map (Expr.later k)) (e.map (Expr.later k)) (a.later k) =
      (forLoop i c e a).later k := by
  cases i <;> cases c <;> cases e <;> rfl

include hnested in
private theorem carries_forStatement (wide : b ≤ b') :
    Carries q b .anywhere 1 (Stmt.later q.lines) (forStatement nested b)
      (forStatement nested' b') := by
  rw [forStatement_eq, forStatement_eq]
  exact (Carries.expect _ _).andThen fun _ => (carries_forInitializer wide).andThen fun i =>
    (carries_optionalExpression wide _).then_takes fun c => (Carries.expect _ _).andThen fun _ =>
    (carries_optionalExpression wide _).then_takes fun e => (Carries.expect _ _).andThen fun _ =>
    hnested.andThen fun a => .pure (forLoop_later q.lines i c e a)

variable (apart : ∀ t ∈ q.tokens.head?, t.kind ≠ .elseWord)

include hnested apart

private theorem carries_elseBranch :
    Carries q b .anywhere 0 (Stmt.laterOption q.lines) (elseBranch nested)
      (elseBranch nested') := by
  refine Carries.choice (.pure rfl) (fun t => ?_) (.inr (.inr fun t ht => ?_))
  · exact (hnested.mono (Nat.sub_le _ _) (Nat.zero_le _) (.inr rfl)).map fun s => rfl
  · exact fun member => apart t ht (List.mem_singleton.mp member)

private theorem carries_ifStatement (wide : b ≤ b') :
    Carries q b .anywhere 1 (Stmt.later q.lines) (ifStatement nested b)
      (ifStatement nested' b') := by
  rw [ifStatement_eq, ifStatement_eq]
  exact (Carries.expect _ _).andThen fun _ => (carries_expression wide).then_takes fun c =>
    (Carries.expect _ _).andThen fun _ => hnested.andThen fun a =>
    (carries_elseBranch hnested apart).andThen fun other => .pure rfl

include hbody

private theorem carries_statementWith (wide : b ≤ b') :
    Carries q (b + 1) .anywhere 1 (Stmt.later q.lines) (statementWith nested body b)
      (statementWith nested' body' b') := by
  refine Carries.choice (carries_expressionStatement (Nat.succ_le_succ wide)) (fun t => ?_)
    (.inr (.inl Nat.one_pos))
  dsimp only [Token.later]
  refine Carries.mono (d := 1) ?_ (Nat.le_refl _) (Nat.zero_le _) (.inr rfl)
  split
  · exact carries_forStatement hnested wide
  · exact carries_ifStatement hnested apart wide
  · exact (carries_expression wide).then_takes fun e => (Carries.expect _ _).andThen fun _ =>
      .pure rfl
  · exact (carries_optionalExpression wide _).then_takes fun v =>
      (Carries.expect _ _).andThen fun _ => .pure rfl
  · exact (Carries.expect _ _).andThen fun _ => (carries_expression wide).then_takes fun c =>
      (Carries.expect _ _).andThen fun _ => hnested.andThen fun a => .pure rfl
  · exact hbody.map fun ss => rfl

private theorem carries_declarationWith (wide : b ≤ b') :
    Carries q (b + 1) .anywhere 1 (Stmt.later q.lines) (declarationWith nested body b)
      (declarationWith nested' body' b') := by
  refine Carries.choice (carries_statementWith hbody hnested apart wide) (fun t => ?_)
    (.inr (.inl Nat.one_pos))
  dsimp only [Token.later]
  refine Carries.mono (d := 1) ?_ (Nat.le_refl _) (Nat.zero_le _) (.inr rfl)
  split
  · exact carries_classDeclaration hbody wide
  · exact (carries_function hbody .function (Nat.le_succ _) wide).map fun decl => rfl
  · exact carries_varDeclaration wide

end Statements

variable (apart : ∀ t ∈ q.tokens.head?, t.kind ≠ .elseWord)

include apart

/-- Statements and declarations are the same before further tokens, unless `else` is the first of
these. -/
theorem carries_statement_declaration (wide : b ≤ b') :
    Carries q b .anywhere 1 (Stmt.later q.lines) (statement b) (statement b') ∧
      Carries q b .anywhere 1 (Option.map (Stmt.later q.lines)) (Parse.declaration b)
        (Parse.declaration b') := by
  induction b generalizing b' with
  | zero =>
    have never : Yields (expressionStatement 0) fun _ _ _ => False :=
      ((Yields.fail _).bind fun e => (Yields.expect .semicolon .expressionEnd).bind fun _ =>
        Yields.pure (Stmt.expression e)).mono fun _ _ _ ⟨_, _, never, _⟩ => never
    have never' : Yields (Parse.declaration 0) fun _ _ _ => False :=
      never.recovering.mono fun _ _ _ ⟨_, _, never⟩ => never
    exact ⟨.absurd never, .absurd never'⟩
  | succ b ih =>
    obtain ⟨b', rfl⟩ := Nat.exists_eq_add_one_of_ne_zero (Nat.ne_of_gt (Nat.zero_lt_of_lt wide))
    have wide' := Nat.le_of_succ_le_succ wide
    obtain ⟨nested, declaration⟩ := ih wide'
    have body := carries_block declaration wide'
    rw [statement, statement, Parse.declaration, Parse.declaration]
    exact ⟨carries_statementWith body nested apart wide',
      (carries_declarationWith body nested apart wide').recovering⟩

end Parse

end LoxLang
