import LoxLang.Proofs.JoinedPrograms
import LoxLang.Proofs.RuleProgress

/-!
Where a parser stands in its text.  The tokens ahead are always those from some place on, and the
place never moves back nor behind the end, whatever is wrong with the text.  A declaration that is
begun before the end moves it on, and recovery goes to the next boundary; so a program is always
read up to the end, and no bound on nested rules decides how.
-/

set_option autoImplicit false
set_option relaxedAutoImplicit false

namespace LoxLang

def ParseState.At (tokens : List Token) (place : Nat) (s : ParseState) : Prop :=
  place ≤ tokens.length ∧ s.ahead = tokens.drop place

def Boundary (tokens : List Token) (place : Nat) : Prop :=
  place = tokens.length ∨ (∃ t, tokens[place - 1]? = some t ∧ t.kind = .semicolon) ∨
    ∃ t, tokens[place]? = some t ∧ t.kind ∈ Parse.restarts

def FirstBoundary (tokens : List Token) (place boundary : Nat) : Prop :=
  place ≤ boundary ∧ boundary ≤ tokens.length ∧ Boundary tokens boundary ∧
    ∀ before, place ≤ before → before < boundary → ¬ Boundary tokens before

private theorem FirstBoundary.here {tokens : List Token} {place : Nat} (le : place ≤ tokens.length)
    (boundary : Boundary tokens place) : FirstBoundary tokens place place :=
  ⟨Nat.le_refl _, le, boundary, fun _ le lt => absurd le (Nat.not_le_of_lt lt)⟩

private theorem FirstBoundary.later {tokens : List Token} {place boundary : Nat}
    (not : ¬ Boundary tokens place) (h : FirstBoundary tokens (place + 1) boundary) :
    FirstBoundary tokens place boundary := by
  obtain ⟨le, within, is, none⟩ := h
  refine ⟨Nat.le_of_succ_le le, within, is, fun before from_place lt => ?_⟩
  rcases Nat.eq_or_lt_of_le from_place with rfl | behind
  · exact not
  · exact none before behind lt

namespace ParseState

variable {tokens : List Token} {place : Nat} {s s' : ParseState}

private theorem At.length (h : s.At tokens place) : s.ahead.length + place = tokens.length := by
  rw [h.2, List.length_drop, Nat.sub_add_cancel h.1]

private theorem At.takes {kinds : Kind → Prop} {count : Nat} (h : s.At tokens place)
    (taken : Parse.TakesFrom kinds count s.ahead s'.ahead) :
    ∃ place', place + count ≤ place' ∧ s'.At tokens place' := by
  obtain ⟨front, split, _, some⟩ := taken
  have length := h.length
  rw [split, List.length_append] at length
  refine ⟨place + front.length, Nat.add_le_add_left some place, by omega, ?_⟩
  rw [← List.drop_drop, ← h.2, split, List.drop_left]

end ParseState

namespace Parse

inductive OfSteps : {α : Type} → ParseM α → Prop
  | pure {α : Type} (a : α) : OfSteps (pure a)
  | fail {α : Type} (expected : Expected) : OfSteps (fail expected : ParseM α)
  | peek : OfSteps peek
  | atEnd : OfSteps atEnd
  | check (kind : Kind) : OfSteps (check kind)
  | acceptAny (kinds : List Kind) : OfSteps (acceptAny kinds)
  | report (e : SyntaxError) : OfSteps (report e)
  | freshExpr : OfSteps freshExpr
  | freshSite : OfSteps freshSite
  | bind {α β : Type} {rule : ParseM α} {next : α → ParseM β} :
    OfSteps rule → (∀ a, OfSteps (next a)) → OfSteps (rule >>= next)
  | map {α β : Type} (f : α → β) {rule : ParseM α} : OfSteps rule → OfSteps (f <$> rule)
  | recovering {rule : ParseM Stmt} : OfSteps rule → OfSteps (recovering rule)

namespace OfSteps

variable {α β : Type}

private theorem accept_then {kind : Kind} {next : Option Token → ParseM β}
    (without : OfSteps (next none))
    (behind : ∀ t, OfSteps (next (some t))) : OfSteps (accept kind >>= next) :=
  .bind (.acceptAny _) fun r => by
    cases r with
    | none => exact without
    | some t => exact behind t

private theorem expect (kind : Kind) (expected : Expected) : OfSteps (Parse.expect kind expected) :=
  accept_then (.fail _) fun t => .pure t

private theorem noteFull (count : Nat) (fault : SyntaxFault) : OfSteps
    (Parse.noteFull count fault) := by
  unfold Parse.noteFull
  split
  · exact .bind .peek fun t => .report _
  · exact .pure _

private theorem suffix {rule : ParseM α} (h : OfSteps rule) (s : ParseState) :
    (outcome rule s).2.ahead <:+ s.ahead := by
  induction h generalizing s with
  | pure => exact List.suffix_rfl
  | fail => exact List.suffix_rfl
  | peek => exact List.suffix_rfl
  | atEnd => exact List.suffix_rfl
  | check => exact List.suffix_rfl
  | report => exact List.suffix_rfl
  | freshExpr => exact List.suffix_rfl
  | freshSite => exact List.suffix_rfl
  | acceptAny kinds =>
    rw [outcome_acceptAny]
    split
    · exact List.suffix_rfl
    · rename_i t ts ahead
      split
      · exact ahead ▸ List.suffix_cons t ts
      · exact List.suffix_rfl
  | bind _ _ first second =>
    have step := first s
    rw [outcome_bind]
    split
    · rename_i a s' run
      rw [run] at step
      exact (second a s').trans step
    · rename_i e s' run
      rw [run] at step
      exact step
  | map f _ ih =>
    rw [outcome_map]
    exact ih s
  | recovering _ ih =>
    have step := ih s
    rw [outcome_recovering]
    split
    · rename_i a s' run
      rw [run] at step
      exact step
    · rename_i e s' run
      rw [run] at step
      exact (takesFrom_skipToBoundary s'.ahead).suffix.trans step

section Expressions

variable {inner : ParseM Expr} (h : OfSteps inner)

include h

private theorem primary : OfSteps (Parse.primary inner) := by
  refine .bind (.acceptAny _) fun r => ?_
  cases r with
  | none => exact .fail _
  | some t =>
    dsimp only
    split
    · exact .pure _
    · exact .pure _
    · exact .pure _
    · exact .pure _
    · exact .pure _
    · exact .bind .freshExpr fun id => .pure _
    · exact .bind (.expect _ _) fun _ => .bind (.expect _ _) fun method =>
        .bind .freshExpr fun id => .pure _
    · exact .bind .freshExpr fun id => .pure _
    · exact .bind h fun e => .bind (.expect _ _) fun _ => .pure _

private theorem argumentsFrom (bound count : Nat) : OfSteps
    (Parse.argumentsFrom inner bound count) := by
  induction bound generalizing count with
  | zero => exact .fail _
  | succ bound ih =>
    rw [argumentsFrom_succ]
    exact .bind (.noteFull _ _) fun _ => .bind h fun e => .accept_then (.pure _) fun t =>
      .bind (ih _) fun others => .pure _

private theorem arguments (bound : Nat) : OfSteps (Parse.arguments inner bound) := by
  refine .bind (.check _) fun empty => ?_
  split
  · exact .pure _
  · exact h.argumentsFrom bound 0

private theorem callsFrom (bound : Nat) (e : Expr) : OfSteps (Parse.callsFrom inner bound e) := by
  induction bound generalizing e with
  | zero => exact .pure _
  | succ bound ih =>
    refine .bind (.acceptAny _) fun r => ?_
    cases r with
    | none => exact .pure _
    | some t =>
      dsimp only
      split
      · exact .bind (h.arguments bound) fun args => .bind (.expect _ _) fun paren => ih _
      · exact .bind (.expect _ _) fun name => ih _

private theorem unary (bound : Nat) : OfSteps (Parse.unary inner bound) := by
  induction bound with
  | zero => exact .fail _
  | succ bound ih =>
    refine .bind (.acceptAny _) fun r => ?_
    cases r with
    | none => exact .bind h.primary fun e => h.callsFrom bound e
    | some t => exact .bind ih fun e => .pure _

omit h in
private theorem chainFrom (level : Level) {operand : ParseM Expr} (h : OfSteps operand)
    (bound : Nat) (left : Expr) : OfSteps (Parse.chainFrom level operand bound left) := by
  induction bound generalizing left with
  | zero => exact .pure _
  | succ bound ih =>
    refine .bind (.acceptAny _) fun r => ?_
    cases r with
    | none => exact .pure _
    | some t => exact .bind h fun right => ih _

private theorem ofLevels (bound : Nat) (levels : List Level) :
    OfSteps (Parse.ofLevels inner bound levels) := by
  induction levels with
  | nil => exact h.unary bound
  | cons level rest ih => exact .bind ih fun left => chainFrom level ih bound left

private theorem assignment (bound : Nat) : OfSteps (Parse.assignment inner bound) := by
  refine .bind (h.ofLevels bound levels) fun target => .accept_then (.pure _) fun equals =>
    .bind h fun value => ?_
  split
  · exact .bind .freshExpr fun id => .pure _
  · exact .pure _
  · exact .bind (.report _) fun _ => .pure _

end Expressions

private theorem expression (bound : Nat) : OfSteps (Parse.expression bound) := by
  induction bound with
  | zero => exact .fail _
  | succ bound ih => exact ih.assignment _

private theorem wholeExpression (bound : Nat) : OfSteps (Parse.wholeExpression bound) := by
  refine .bind (expression bound) fun e => .bind .atEnd fun ended => ?_
  split
  · exact .pure _
  · exact .fail _

private theorem optionalExpression (bound : Nat) (closing : Kind) :
    OfSteps (Parse.optionalExpression bound closing) := by
  refine .bind (.check _) fun empty => ?_
  split
  · exact .pure _
  · exact .map _ (expression bound)

private theorem expressionStatement (bound : Nat) : OfSteps (Parse.expressionStatement bound) :=
  .bind (expression bound) fun _ => .bind (.expect _ _) fun _ => .pure _

private theorem varDeclaration (bound : Nat) : OfSteps (Parse.varDeclaration bound) := by
  rw [varDeclaration_eq]
  exact .bind (.expect _ _) fun name => .bind
    (.accept_then (.pure _) fun t => .map _ (expression bound)) fun i =>
    .bind (.expect _ _) fun _ => .pure _

private theorem paramsFrom (bound count : Nat) : OfSteps (Parse.paramsFrom bound count) := by
  induction bound generalizing count with
  | zero => exact .fail _
  | succ bound ih =>
    rw [paramsFrom_succ]
    exact .bind (.noteFull _ _) fun _ => .bind (.expect _ _) fun param =>
      .accept_then (.pure _) fun t => .bind (ih _) fun others => .pure _

private theorem params (bound : Nat) : OfSteps (Parse.params bound) := by
  refine .bind (.check _) fun empty => ?_
  split
  · exact .pure _
  · exact paramsFrom bound 0

private theorem forInitializer (bound : Nat) : OfSteps (Parse.forInitializer bound) := by
  refine .bind (.acceptAny _) fun r => ?_
  cases r with
  | none => exact .map _ (expressionStatement bound)
  | some t =>
    dsimp only
    split
    · exact .pure _
    · exact .map _ (varDeclaration bound)

section Statements

variable {declaration : ParseM (Option Stmt)} {body : ParseM (List Stmt)} {statement : ParseM Stmt}

private theorem declarationsFrom (h : OfSteps declaration) (inBlock : Bool) (bound : Nat) :
    OfSteps (Parse.declarationsFrom declaration inBlock bound) := by
  induction bound with
  | zero => exact .pure _
  | succ bound ih =>
    refine .bind .atEnd fun ended => .bind (.check _) fun closed => ?_
    split
    · exact .pure _
    · exact .bind h fun first => .bind ih fun others => .pure _

private theorem block (h : OfSteps declaration) (bound : Nat) : OfSteps
    (Parse.block declaration bound) :=
  .bind (h.declarationsFrom true bound) fun _ => .bind (.expect _ _) fun _ => .pure _

private theorem function (h : OfSteps body) (role : FunctionRole) (bound : Nat) :
    OfSteps (Parse.function role body bound) := by
  rw [function_eq]
  exact .bind (.expect _ _) fun name => .bind (.expect _ _) fun _ => .bind (params bound)
    fun params => .bind (.expect _ _) fun _ => .bind (.expect _ _) fun _ =>
    .bind h fun statements => .bind .freshSite fun site => .pure _

private theorem methodsFrom (h : OfSteps body) (bound : Nat) : OfSteps
    (Parse.methodsFrom body bound) := by
  induction bound with
  | zero => exact .pure _
  | succ bound ih =>
    refine .bind .atEnd fun ended => .bind (.check _) fun closed => ?_
    split
    · exact .pure _
    · exact .bind (h.function .method bound) fun first => .bind ih fun others => .pure _

private theorem classDeclaration (h : OfSteps body) (bound : Nat) :
    OfSteps (Parse.classDeclaration body bound) := by
  rw [classDeclaration_eq]
  exact .bind (.expect _ _) fun name => .bind
    (.accept_then (.pure _) fun t => .bind (.expect _ _) fun superName =>
      .bind .freshExpr fun id => .pure _) fun superclass =>
    .bind (.expect _ _) fun _ => .bind (h.methodsFrom bound) fun methods =>
    .bind (.expect _ _) fun _ => .pure _

private theorem forStatement (h : OfSteps statement) (bound : Nat) :
    OfSteps (Parse.forStatement statement bound) := by
  rw [forStatement_eq]
  exact .bind (.expect _ _) fun _ => .bind (forInitializer bound) fun i =>
    .bind (optionalExpression bound _) fun c => .bind (.expect _ _) fun _ =>
    .bind (optionalExpression bound _) fun e => .bind (.expect _ _) fun _ =>
    .bind h fun a => .pure _

private theorem ifStatement (h : OfSteps statement) (bound : Nat) :
    OfSteps (Parse.ifStatement statement bound) := by
  rw [ifStatement_eq]
  exact .bind (.expect _ _) fun _ => .bind (expression bound) fun c => .bind (.expect _ _) fun _ =>
    .bind h fun a => .bind (.accept_then (.pure _) fun t => .map _ h) fun other => .pure _

private theorem statementWith (hs : OfSteps statement) (hb : OfSteps body) (bound : Nat) :
    OfSteps (Parse.statementWith statement body bound) := by
  refine .bind (.acceptAny _) fun r => ?_
  cases r with
  | none => exact expressionStatement (bound + 1)
  | some t =>
    dsimp only
    split
    · exact hs.forStatement bound
    · exact hs.ifStatement bound
    · exact .bind (expression bound) fun e => .bind (.expect _ _) fun _ => .pure _
    · exact .bind (optionalExpression bound _) fun v => .bind (.expect _ _) fun _ => .pure _
    · exact .bind (.expect _ _) fun _ => .bind (expression bound) fun c =>
        .bind (.expect _ _) fun _ => .bind hs fun a => .pure _
    · exact .map _ hb

private theorem declarationWith (hs : OfSteps statement) (hb : OfSteps body) (bound : Nat) :
    OfSteps (Parse.declarationWith statement body bound) := by
  refine .bind (.acceptAny _) fun r => ?_
  cases r with
  | none => exact hs.statementWith hb bound
  | some t =>
    dsimp only
    split
    · exact hb.classDeclaration bound
    · exact .map _ (hb.function .function bound)
    · exact varDeclaration bound

end Statements

private theorem statement_declaration (bound : Nat) :
    OfSteps (Parse.statement bound) ∧ OfSteps (Parse.declaration bound) := by
  induction bound with
  | zero => exact ⟨expressionStatement 0, .recovering (expressionStatement 0)⟩
  | succ bound ih =>
    obtain ⟨nested, declaration⟩ := ih
    have body := declaration.block bound
    exact ⟨nested.statementWith body bound, .recovering (nested.declarationWith body bound)⟩

end OfSteps

private theorem outcome_declarationsFrom_congr {declaration declaration' : ParseM (Option Stmt)}
    (same : ∀ s : ParseState, s.ahead ≠ [] → outcome declaration s = outcome declaration' s)
    (inBlock : Bool) (bound : Nat) (s : ParseState) :
    outcome (declarationsFrom declaration inBlock bound) s =
      outcome (declarationsFrom declaration' inBlock bound) s := by
  induction bound generalizing s with
  | zero => rfl
  | succ bound ih =>
    rw [declarationsFrom, declarationsFrom, outcome_bind, outcome_bind, outcome_atEnd]
    dsimp only
    rw [outcome_bind, outcome_bind, outcome_check]
    dsimp only
    split
    · rfl
    · rename_i goes
      have some : s.ahead ≠ [] := fun none => goes (by simp [none])
      rw [outcome_bind, outcome_bind, same s some]
      split
      · rw [outcome_bind, outcome_bind, ih]
      · rfl

private theorem not_boundary {tokens : List Token} {j : Nat} {last t : Token}
    (before : tokens[j]? = some last) (next : tokens[j + 1]? = some t)
    (other : last.kind ≠ .semicolon) (inner : t.kind ∉ restarts) : ¬ Boundary tokens (j + 1) := by
  rintro (ended | ⟨u, hu, semicolon⟩ | ⟨u, hu, restart⟩)
  · rw [ended, List.getElem?_eq_none (Nat.le_refl _)] at next
    cases next
  · rw [Nat.add_sub_cancel, before] at hu
    cases hu
    exact other semicolon
  · rw [next] at hu
    cases hu
    exact inner restart

private theorem skipFrom_drop {tokens : List Token} {j : Nat} {last : Token}
    (before : tokens[j]? = some last) :
    ∃ k, FirstBoundary tokens (j + 1) k ∧ skipFrom last (tokens.drop (j + 1)) = tokens.drop k := by
  have here : j + 1 ≤ tokens.length := (List.getElem?_eq_some_iff.mp before).1
  induction rest : tokens.drop (j + 1) generalizing j last with
  | nil =>
    have ended : j + 1 = tokens.length := Nat.le_antisymm here (List.drop_eq_nil_iff.mp rest)
    exact ⟨j + 1, .here here (.inl ended), rest.symm⟩
  | cons t ts ih =>
    have next : tokens[j + 1]? = some t := by rw [← List.head?_drop, rest, List.head?_cons]
    rw [skipFrom]
    by_cases semicolon : last.kind = .semicolon
    · refine ⟨j + 1, .here here (.inr (.inl ⟨last, ?_, semicolon⟩)), ?_⟩
      · rw [Nat.add_sub_cancel, before]
      · rw [if_pos semicolon, rest]
    by_cases restart : t.kind ∈ restarts
    · refine ⟨j + 1, .here here (.inr (.inr ⟨t, next, restart⟩)), ?_⟩
      rw [if_neg semicolon, if_pos restart, rest]
    · have rest' : tokens.drop (j + 1 + 1) = ts := by
        rw [← List.tail_drop, rest, List.tail_cons]
      obtain ⟨k, first, skipped⟩ := ih next (List.getElem?_eq_some_iff.mp next).1 rest'
      refine ⟨k, .later (not_boundary before next semicolon restart) first, ?_⟩
      rw [if_neg semicolon, if_neg restart, skipped]

private theorem skipToBoundary_drop {tokens : List Token} {j : Nat} (le : j ≤ tokens.length) :
    ∃ k, FirstBoundary tokens (min (j + 1) tokens.length) k ∧
      skipToBoundary (tokens.drop j) = tokens.drop k := by
  rcases Nat.eq_or_lt_of_le le with rfl | here
  · refine ⟨tokens.length, ?_, ?_⟩
    · rw [Nat.min_eq_right (Nat.le_succ _)]
      exact .here (Nat.le_refl _) (.inl rfl)
    · rw [List.drop_length]
      rfl
  · rw [Nat.min_eq_left here, List.drop_eq_getElem_cons here]
    exact skipFrom_drop (List.getElem?_eq_getElem here)

private theorem Proceeds.bound {α : Type} {kinds : Kind → Prop} {n d : Nat} {rule rule' : ParseM α}
    (h : Proceeds kinds n d rule rule') {s : ParseState} (few : s.ahead.length < n) :
    outcome rule' s = outcome rule s := by
  have around (s : ParseState) (line : Nat) (same : line = s.lastLine) :
      Surrounding.around ⟨[], [], line⟩ s = s := by
    subst same
    simp [Surrounding.around]
  have same := (h s).same ⟨[], [], s.lastLine⟩ few (.inr ⟨rfl, (h s).line.symm⟩)
  rwa [around s _ rfl, around _ _ (h s).line.symm] at same

private theorem proceeds_wholeExpression {b b' : Nat} (wide : b ≤ b') :
    Proceeds Inner (b + 1) 1 (wholeExpression b) (wholeExpression b') := by
  refine (proceeds_expression wide).andThen (e := 0) fun e =>
    Proceeds.atEnd.andThen (e := 0) fun ended => ?_
  split
  · exact .pure _
  · exact .fail _

private theorem proceeds_declaration {b b' : Nat} (wide : b ≤ b') (s : ParseState) :
    ProceedsAt Any (b + 1) (min 1 s.ahead.length) (declaration b) (declaration b') s :=
  (proceeds_statement_declaration wide).2 s

private theorem declaration_forward (b : Nat) {s : ParseState} (some : s.ahead ≠ []) :
    ∃ r s', outcome (declaration b) s = (.ok r, s') ∧ TakesFrom Any 1 s.ahead s'.ahead := by
  obtain ⟨r, recovers⟩ : ∃ r, (outcome (declaration b) s).1 = .ok r := by
    cases b <;> exact recovering_ok _ s
  have run : outcome (declaration b) s = (.ok r, (outcome (declaration b) s).2) :=
    Prod.ext recovers rfl
  have taken := (proceeds_declaration (Nat.le_refl b) s).result run
  rw [Nat.min_eq_left (List.length_pos_iff.mpr some)] at taken
  exact ⟨r, _, run, taken⟩

private theorem declarationsFrom_ends (b : Nat) {c : Nat} {s : ParseState}
    (few : s.ahead.length ≤ c) :
    ∃ program s', outcome (declarationsFrom (declaration b) false c) s = (.ok program, s') ∧
      s'.ahead = [] := by
  induction c generalizing s with
  | zero => exact ⟨[], s, rfl, List.length_eq_zero_iff.mp (Nat.le_zero.mp few)⟩
  | succ c ih =>
    rw [outcome_declarationsFrom]
    split
    · rename_i none
      exact ⟨[], s, rfl, none⟩
    · rename_i some
      obtain ⟨r, s', run, taken⟩ := declaration_forward b some
      have fewer := taken.length_le
      obtain ⟨program, s'', run', none⟩ := ih (s := s') (by omega)
      refine ⟨r.toList ++ program, s'', ?_, none⟩
      rw [outcome_bind, run]
      dsimp only
      rw [outcome_bind, run']
      rfl

private theorem acceptAny_at {tokens : List Token} {kinds : List Kind} {place : Nat}
    {s s' : ParseState}
    {t : Token} (here : s.At tokens place) (run : outcome (acceptAny kinds) s = (.ok (some t), s')) :
    s'.At tokens (place + 1) ∧ tokens[place]? = some t := by
  obtain ⟨le, ahead⟩ := here
  rw [outcome_acceptAny] at run
  split at run
  · cases (Prod.mk.inj run).1
  · rename_i u us some
    rw [some] at ahead
    have here : place < tokens.length := by
      refine Nat.lt_of_le_of_ne le fun ended => ?_
      rw [ended, List.drop_length] at ahead
      cases ahead
    rw [List.drop_eq_getElem_cons here] at ahead
    obtain ⟨rfl, rfl⟩ := List.cons.inj ahead
    split at run
    · obtain ⟨taken, rfl⟩ := Prod.mk.inj run
      obtain rfl := Option.some.inj (Except.ok.inj taken)
      exact ⟨⟨here, rfl⟩, List.getElem?_eq_getElem here⟩
    · cases (Prod.mk.inj run).1

private theorem recovering_at {tokens : List Token} {rule : ParseM Stmt} {failed : Nat}
    {s s' : ParseState}
    {e : SyntaxError} (run : outcome rule s = (.error e, s')) (here : s'.At tokens failed) :
    ∃ boundary, FirstBoundary tokens (min (failed + 1) tokens.length) boundary ∧
      (outcome (recovering rule) s).2.At tokens boundary := by
  obtain ⟨boundary, first, skipped⟩ := skipToBoundary_drop here.1
  refine ⟨boundary, first, first.2.1, ?_⟩
  rw [outcome_recovering, run, ← skipped, ← here.2]

end Parse

open Parse

/-- How the parser goes through a text. -/
structure GoesThrough (labels : Labels) (tokens : List Token) (lastLine : Nat) : Prop where
  /-- However great the bounds on nested declarations and on their count, a program is read up to
  the end, and always in the same way. -/
  program : ∃ result s, s.At tokens tokens.length ∧ ∀ b c, tokens.length ≤ b → tokens.length ≤ c →
    outcome (declarationsFrom (declaration b) false c) (start labels tokens lastLine) =
      (.ok result, s)
  /-- An expression ends, well or not, in the same way within all bounds. -/
  expression : ∃ result s place, s.At tokens place ∧ ∀ b, tokens.length ≤ b →
    outcome (wholeExpression b) (start labels tokens lastLine) = (result, s)
  /-- All that is read is read in steps. -/
  steps : ∀ b c inBlock, OfSteps (wholeExpression b) ∧ OfSteps (declaration b) ∧
    OfSteps (declarationsFrom (declaration b) inBlock c)
  /-- Whatever is done in steps ends within the text, at or behind the place where it began. -/
  forward : ∀ {α : Type} {rule : ParseM α}, OfSteps rule → ∀ {place} {s : ParseState},
    s.At tokens place → ∃ place', place ≤ place' ∧ (outcome rule s).2.At tokens place'
  /-- A token that is taken is the one before the next place. -/
  taken : ∀ {kinds place t} {s s' : ParseState}, s.At tokens place →
    outcome (acceptAny kinds) s = (.ok (some t), s') →
    s'.At tokens (place + 1) ∧ tokens[place]? = some t
  /-- Loops begin declarations only before the end, ... -/
  loops : ∀ {rule rule' : ParseM (Option Stmt)},
    (∀ s : ParseState, s.ahead ≠ [] → outcome rule s = outcome rule' s) → ∀ inBlock c s,
    outcome (declarationsFrom rule inBlock c) s = outcome (declarationsFrom rule' inBlock c) s
  /-- ... and there each of them moves the place on. -/
  declarations : ∀ b {place} {s : ParseState}, s.At tokens place → place < tokens.length →
    ∃ place', place < place' ∧ (outcome (declaration b) s).2.At tokens place'
  /-- A declaration that failed is left for the first boundary behind the token where it did so, or
  for the end.  There is a token before each place that is looked at. -/
  recovery : ∀ {rule : ParseM Stmt}, OfSteps rule → ∀ {place e} {s s' : ParseState},
    s.At tokens place → place < tokens.length → outcome rule s = (.error e, s') →
    ∃ failed boundary, place ≤ failed ∧ s'.At tokens failed ∧ 0 < min (failed + 1) tokens.length ∧
      FirstBoundary tokens (min (failed + 1) tokens.length) boundary ∧
      (outcome (recovering rule) s).2.At tokens boundary

private theorem ParseState.At.ofSteps {tokens : List Token} {α : Type} {rule : ParseM α}
    (steps : OfSteps rule) {place : Nat} {s : ParseState} (here : s.At tokens place) :
    ∃ place', place ≤ place' ∧ (outcome rule s).2.At tokens place' := by
  obtain ⟨front, split⟩ := steps.suffix s
  have taken : TakesFrom Any 0 s.ahead (outcome rule s).2.ahead :=
    ⟨front, split.symm, fun _ _ => trivial, Nat.zero_le _⟩
  exact here.takes taken

/-- The parser goes forward through its text and never leaves it. -/
theorem parser_moves_on (labels : Labels) (tokens : List Token) (lastLine : Nat) :
    GoesThrough labels tokens lastLine := by
  have begins : (start labels tokens lastLine).At tokens 0 := ⟨Nat.zero_le _, List.drop_zero.symm⟩
  have few {n : Nat} (le : tokens.length ≤ n) :
      (start labels tokens lastLine).ahead.length < n + 1 := Nat.lt_succ_of_le le
  have steps b c inBlock : OfSteps (wholeExpression b) ∧ OfSteps (declaration b) ∧
      OfSteps (declarationsFrom (declaration b) inBlock c) :=
    have declaration := (OfSteps.statement_declaration b).2
    ⟨.wholeExpression b, declaration, declaration.declarationsFrom inBlock c⟩
  constructor
  case program =>
    obtain ⟨result, s, run, none⟩ := declarationsFrom_ends tokens.length
      (s := start labels tokens lastLine) (Nat.le_refl _)
    refine ⟨result, s, ⟨Nat.le_refl _, by rw [none, List.drop_length]⟩, fun b c hb hc => ?_⟩
    rw [← run]
    have rule := proceeds_declarationsFrom (proceeds_declaration hb) false (Nat.le_refl _) hc
    exact rule.bound (few (Nat.le_refl _))
  case expression =>
    obtain ⟨place, _, ends⟩ := begins.ofSteps (.wholeExpression tokens.length)
    exact ⟨_, _, place, ends, fun b hb => (proceeds_wholeExpression hb).bound (few (Nat.le_refl _))⟩
  case steps => exact steps
  case forward => exact fun steps _ _ here => here.ofSteps steps
  case taken => exact fun here run => acceptAny_at here run
  case loops => exact fun same inBlock c s => outcome_declarationsFrom_congr same inBlock c s
  case declarations =>
    intro b place s here inside
    have some : 0 < s.ahead.length := by
      have length := here.length
      omega
    obtain ⟨r, s', run, taken⟩ := declaration_forward b (List.length_pos_iff.mp some)
    rw [run]
    exact here.takes taken
  case recovery =>
    intro rule steps place e s s' here inside run
    obtain ⟨failed, behind, failed_at⟩ := here.ofSteps steps
    rw [run] at failed_at
    obtain ⟨boundary, first, ends⟩ := recovering_at run failed_at
    refine ⟨failed, boundary, behind, failed_at, ?_, first, ends⟩
    exact Nat.lt_min.mpr ⟨Nat.succ_pos _, Nat.zero_lt_of_lt inside⟩

end LoxLang
